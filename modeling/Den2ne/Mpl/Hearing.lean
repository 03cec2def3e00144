import Den2ne.Mpl.Order
import Den2ne.Transition.Run

/-!
# The messages of one seed

What a forwarder has heard of one seed: `Hearing` collects the messages that came to `accept`
since the seed set last had no entry of the seed, and those that `accept` took. `Heard` says
that each message was taken once and that the list is in sending order. It holds in the runs
that receive the messages in sending order and whose events are `Hearable`: the bytes of the
messages must not have wrapped around since the first one in the list. This module has what the
changes do to the list of the seed, and when `accept` takes a message.
-/

namespace Den2ne.Mpl

/-- The numbers of the messages of a seed that came to `accept`, and of those it took. -/
structure Hearing where
  received : List ℕ
  stored : List ℕ

/-- The seed id that the bytes of a message give. -/
def DataMessage.wireId (p : DataMessage) : Fin 16 → UInt8 := (p.seedId ⟨0, fun _ => 0⟩).id

/-- The message is one of the seed `id` to the address `a`. -/
def DataMessage.OfSeed (a : Ip6Addr) (id : Fin 16 → UInt8) (p : DataMessage) : Prop :=
  p.destipaddr = a ∧ p.wireId = id

instance (a : Ip6Addr) (id : Fin 16 → UInt8) (p : DataMessage) : Decidable (p.OfSeed a id) :=
  inferInstanceAs (Decidable (_ ∧ _))

/-- The entry of the seed, if there is one. -/
def entryOf (cfg : Config) (a : Ip6Addr) (id : Fin 16 → UInt8) (s : State) : Option ℕ :=
  findDown cfg.seedSetSize fun i =>
    decide ((s.seeds i).seedId.id = id) &&
      (s.seeds i).domain.any fun d => decide ((s.domains d).dataAddr = a)

/-- Without an entry, what was heard is forgotten. -/
def Hearing.base (cfg : Config) (a : Ip6Addr) (id : Fin 16 → UInt8) (s : State) (h : Hearing) :
    Hearing :=
  if (entryOf cfg a id s).isSome then h else ⟨[], []⟩

/-- What is heard with an event. -/
def Hearing.next (cfg : Config) (a : Ip6Addr) (id : Fin 16 → UInt8) (s : State) (e : Event)
    (h : Hearing) : Hearing :=
  match e.message cfg s with
  | none => h.base cfg a id s
  | some (p, t) =>
      if p.OfSeed a id then
        { received := p.sent :: (h.base cfg a id s).received
          stored :=
            if (acceptFrom cfg p t).1 then p.sent :: (h.base cfg a id s).stored
            else (h.base cfg a id s).stored }
      else h.base cfg a id s

/-- A step of the forwarder, with what it has heard of one seed. -/
def hearStep (cfg : Config) (a : Ip6Addr) (id : Fin 16 → UInt8) (e : Event)
    (x : State × Hearing) : Option (State × Hearing) :=
  (step cfg e x.1).map fun s => (s, x.2.next cfg a id x.1 e)

/-- Each message that was received was taken, and taken once; the list is in sending order. -/
structure Heard (cfg : Config) (a : Ip6Addr) (id : Fin 16 → UInt8) (x : State × Hearing) :
    Prop where
  once : x.2.stored.Nodup
  all : ∀ k, k ∈ x.2.stored ↔ k ∈ x.2.received
  ordered : ∀ i, Entry cfg a id x.1 i →
    (x.1.seeds i).minSeq.Pairwise fun m k => (x.1.msgs m).sent < (x.1.msgs k).sent

/-- A message of the seed is a repetition, or sent after all that were received. -/
def InSendingOrder (cfg : Config) (a : Ip6Addr) (id : Fin 16 → UInt8) (x : State × Hearing)
    (e : Event) : Prop :=
  ∀ p t, e.message cfg x.1 = some (p, t) → p.OfSeed a id →
    p.sent ∈ (x.2.base cfg a id x.1).received ∨
      ∀ k ∈ (x.2.base cfg a id x.1).received, k < p.sent

/-- What `accept` needs for a message of the seed that was not received before. -/
structure NewHearable (cfg : Config) (a : Ip6Addr) (id : Fin 16 → UInt8) (p : DataMessage)
    (t s : State) : Prop where
  domain : (acceptDomain cfg p.destipaddr t).1 ≠ none
  seed : (∃ i, Entry cfg a id s i) ∨ ∃ i < cfg.seedSetSize, (s.seeds i).domain = none
  buffer : (∃ m < cfg.bufferedMessageSetSize, (s.msgs m).seed = none) ∨
    0 < cfg.bufferedMessageSetSize ∧
      ∀ i < cfg.seedSetSize, (s.seeds i).minSeq.length < 256
  timer : cfg.dataTimerOk = true
  byte : ∀ i, Entry cfg a id s i → ¬ SeqValIsLt p.seq (s.seeds i).minSeqno ∧
    ∀ m ∈ (s.seeds i).minSeq, (s.msgs m).seq < p.seq

/-- An event in which `accept` hears the seed right. -/
structure Hearable (cfg : Config) (a : Ip6Addr) (id : Fin 16 → UInt8) (x : State × Hearing)
    (e : Event) : Prop where
  seedId : ∀ p t, e.message cfg x.1 = some (p, t) → t.acceptSeedId.id = p.wireId
  behind : ∀ p t, e.message cfg x.1 = some (p, t) →
    (∀ i, Entry cfg p.destipaddr p.wireId x.1 i → NewTo i p x.1) →
    (∃ m < cfg.bufferedMessageSetSize, (x.1.msgs m).seed = none) ∨ BehindQuiet cfg x.1
  lifetime : e = .lifetimeTimer → Subscribed cfg True x.1
  new : ∀ p t, e.message cfg x.1 = some (p, t) → p.OfSeed a id →
    p.sent ∉ (x.2.base cfg a id x.1).received → NewHearable cfg a id p t x.1
  repeated : ∀ p t, e.message cfg x.1 = some (p, t) → p.OfSeed a id →
    p.sent ∈ (x.2.base cfg a id x.1).received → ∀ i, Entry cfg a id x.1 i →
    SeqValIsLt p.seq (x.1.seeds i).minSeqno ∨ ∃ m ∈ (x.1.seeds i).minSeq, (x.1.msgs m).seq = p.seq

section

variable {cfg : Config} {scans : Prop} {fits : State → ℕ → ℕ → Prop} {a : Ip6Addr}
  {id : Fin 16 → UInt8} {s s' t : State} {i : ℕ} {p : DataMessage} {received : List ℕ}

theorem entryOf_isSome : (entryOf cfg a id s).isSome = true ↔ ∃ i, Entry cfg a id s i := by
  have hp : ∀ i, (decide ((s.seeds i).seedId.id = id) &&
      (s.seeds i).domain.any fun d => decide ((s.domains d).dataAddr = a)) = true ↔
      (s.seeds i).seedId.id = id ∧ ∃ d, (s.seeds i).domain = some d ∧ (s.domains d).dataAddr = a :=
    fun i => by
      rw [Bool.and_eq_true, decide_eq_true_eq, Option.any_eq_true]
      simp only [decide_eq_true_eq]
  constructor
  · intro h
    obtain ⟨i, hi⟩ := Option.isSome_iff_exists.1 h
    obtain ⟨hlt, hi'⟩ := findDown_eq_some hi
    exact ⟨i, hlt, (hp i).1 hi'⟩
  · rintro ⟨i, hlt, hi⟩
    rw [Option.isSome_iff_ne_none]
    intro hnone
    have hfalse := findDown_eq_none.1 hnone i hlt
    rw [(hp i).2 hi] at hfalse
    cases hfalse

/-! ## The list of the seed -/

/-- The list of the seed is sorted, and its messages have been received. -/
def Tracked (cfg : Config) (a : Ip6Addr) (id : Fin 16 → UInt8) (received : List ℕ)
    (s : State) : Prop :=
  ∀ i, Entry cfg a id s i → Sorted s (s.seeds i) ∧
    ∀ m ∈ (s.seeds i).minSeq, (s.msgs m).sent ∈ received

/-- What is asked of a message that is inserted in the list of the seed. -/
def FitsHeard (cfg : Config) (a : Ip6Addr) (id : Fin 16 → UInt8) (received : List ℕ)
    (s : State) (i sent : ℕ) : Prop :=
  Entry cfg a id s i → Comparable s (s.seeds i) sent ∧ sent ∈ received

/-- No change makes an entry with messages. -/
theorem Change.entry (hlinked : Linked cfg s) (h : Change cfg scans fits s s')
    (hentry : Entry cfg a id s' i) : Entry cfg a id s i ∨ (s'.seeds i).minSeq = [] := by
  obtain ⟨hi, hid, d, hd, ha⟩ := hentry
  have hset : ∀ {j : ℕ} {y : Seed}, (s'.seeds i = if i = j then y else s.seeds i) →
      (i = j → y.seedId = (s.seeds j).seedId ∧ y.domain = (s.seeds j).domain) →
      s'.domains = s.domains → Entry cfg a id s i := fun {j y} hseed hy hdomains => by
    rw [hdomains] at ha
    by_cases hij : i = j
    · rw [if_pos hij] at hseed
      rw [hseed] at hid hd
      obtain ⟨hyid, hyd⟩ := hy hij
      rw [hyid, ← hij] at hid
      rw [hyd, ← hij] at hd
      exact ⟨hi, hid, d, hd, ha⟩
    · rw [if_neg hij] at hseed
      rw [hseed] at hid hd
      exact ⟨hi, hid, d, hd, ha⟩
  cases h with
  | same hsame => exact .inl ((Entry.sameSets hlinked hsame).1 ⟨hi, hid, d, hd, ha⟩)
  | scan hscans hist => exact .inl ⟨hi, hid, d, hd, ha⟩
  | behind y =>
      exact .inl (hset (State.setSeed_seeds ..) (fun heq => absurd heq (Nat.ne_of_lt hi)) rfl)
  | @newSeed j d' seedId hj hfree hd' hused hnew =>
      by_cases hij : i = j
      · refine .inr ?_
        rw [State.setSeed_seeds, if_pos hij]
        rfl
      · exact .inl (hset (State.setSeed_seeds ..) (fun heq => absurd heq hij) rfl)
  | @insert j m n hj hused hm hfree hn hfits =>
      exact .inl (hset (State.setSeed_seeds ..) (fun _ => ⟨rfl, rfl⟩) rfl)
  | @pop j m minSeqno rest hscans hj hlist hmin =>
      exact .inl (hset (State.setSeed_seeds s j _ i) (fun _ => ⟨rfl, rfl⟩) rfl)
  | @freeSeed j hj =>
      unfold seedSetFree at hd ⊢
      by_cases hij : i = j
      · refine .inr ?_
        rw [State.setSeed_seeds, if_pos hij]
      · refine .inl (hset (j := j) (y := s.seeds j) ?_ (fun heq => absurd heq hij)
          (freeAll_domains _ s))
        unfold seedSetFree
        rw [State.setSeed_seeds, if_neg hij, if_neg hij, freeAll_seeds]
  | lifetime j lifetime =>
      exact .inl (hset (State.setSeed_seeds ..) (fun _ => ⟨rfl, rfl⟩) rfl)
  | @freeDomain d' y hscans hno hy =>
      refine .inl ⟨hi, hid, d, hd, ?_⟩
      rw [State.setDomain_domains, if_neg] at ha
      · exact ha
      · exact fun heq => hno i hi (heq ▸ hd)

theorem Tracked.change (h : Tracked cfg a id received s) (hlinked : Linked cfg s)
    (hchange : Change cfg scans (FitsHeard cfg a id received) s s') :
    Tracked cfg a id received s' := by
  intro i hentry
  rcases hchange.entry hlinked hentry with hold | hnil
  · obtain ⟨hsorted, hsent⟩ := h i hold
    have hlist := hchange.list_cases hlinked hentry.1
    refine ⟨hsorted.change hlist fun sent hfits => (hfits hold).1, fun m hm => ?_⟩
    cases hlist with
    | kept hlist hmin hkept =>
        rw [hlist] at hm
        rw [hkept m hm]
        exact hsent m hm
    | inserted m' n hm' hmsgs hseed hfits =>
        rw [hseed] at hm
        rw [hmsgs, State.setMsg_msgs]
        rcases List.mem_cons.1 ((insertMsg_perm _ m' n.seq (s.seeds i).minSeq).mem_iff.1 hm) with
          rfl | hmem
        · rw [if_pos rfl]
          exact (hfits hold).2
        · have hne : m ≠ m' := fun heq => hm' (heq ▸ hmem)
          rw [if_neg hne]
          exact hsent m hmem
    | popped hscans m' hlist hmin hkept =>
        rw [hkept m hm]
        exact hsent m (hlist ▸ List.mem_cons_of_mem _ hm)
    | cleared hlist =>
        rw [hlist] at hm
        exact absurd hm List.not_mem_nil
  · refine ⟨.of_nil hnil, fun m hm => ?_⟩
    rw [hnil] at hm
    exact absurd hm List.not_mem_nil

theorem Tracked.sameSets (h : Tracked cfg a id received s) (hlinked : Linked cfg s)
    (hsame : SameSets cfg s s') : Tracked cfg a id received s' := by
  have hchange : Change cfg False (FitsHeard cfg a id received) s s' := .same hsame
  exact h.change hlinked hchange

theorem Tracked.changes (h : Tracked cfg a id received s) (hlinked : Linked cfg s)
    (hchanges : Changes cfg scans (FitsHeard cfg a id received) s s') :
    Tracked cfg a id received s' := by
  induction hchanges with
  | refl => exact h
  | tail hprev hchange ih => exact ih.change (hlinked.changes hprev) hchange

/-- Without an insertion, a list only loses messages. -/
theorem mem_of_changes (hlinked : Linked cfg s)
    (hchanges : Changes cfg scans (fun _ _ _ => False) s s') (hi : i < cfg.seedSetSize) {m : ℕ}
    (hm : m ∈ (s'.seeds i).minSeq) :
    m ∈ (s.seeds i).minSeq ∧ (s'.msgs m).sent = (s.msgs m).sent := by
  induction hchanges with
  | refl => exact ⟨hm, rfl⟩
  | tail hprev hchange ih =>
      cases hchange.list_cases (hlinked.changes hprev) hi with
      | kept hlist hmin hkept =>
          rw [hlist] at hm
          obtain ⟨hmem, hsent⟩ := ih hm
          exact ⟨hmem, (hkept m hm).trans hsent⟩
      | inserted m' n hm' hmsgs hseed hfits => exact hfits.elim
      | popped hscans m' hlist hmin hkept =>
          obtain ⟨hmem, hsent⟩ := ih (hlist ▸ List.mem_cons_of_mem _ hm)
          exact ⟨hmem, (hkept m hm).trans hsent⟩
      | cleared hlist =>
          rw [hlist] at hm
          exact absurd hm List.not_mem_nil

/-! ## A buffer for a new message -/

theorem largestSeed_eq_none {is : List ℕ} {l : Option ℕ} (h : largestSeed s is l = none) :
    l = none ∧ ∀ j ∈ is, (s.seeds j).domain = none := by
  induction is generalizing l with
  | nil => exact ⟨h, fun j hj => absurd hj List.not_mem_nil⟩
  | cons k is ih =>
      unfold largestSeed at h
      obtain ⟨hfrom, his⟩ := ih h
      split at hfrom
      · cases hfrom
      · rename_i hk
        refine ⟨hfrom, fun j hj => ?_⟩
        rcases List.mem_cons.1 hj with rfl | hmem
        · by_contra hne
          refine hk ⟨Option.isSome_iff_ne_none.2 hne, fun a ha => ?_⟩
          rw [hfrom] at ha
          cases ha
        · exact his j hmem

/-- If the counts have not wrapped, `accept` gets a buffer. -/
theorem newBuffer_eq_some (hlinked : Linked cfg s)
    (hbuffer : (∃ m < cfg.bufferedMessageSetSize, (s.msgs m).seed = none) ∨
      0 < cfg.bufferedMessageSetSize ∧
        ∀ i < cfg.seedSetSize, (s.seeds i).minSeq.length < 256)
    (hbehind : (∃ m < cfg.bufferedMessageSetSize, (s.msgs m).seed = none) ∨ BehindQuiet cfg s) :
    ∃ m s', newBuffer cfg s = (some m, s') := by
  unfold newBuffer
  cases hallocate : bufferAllocate cfg s with
  | some ms => exact ⟨ms.1, ms.2, rfl⟩
  | none =>
      have hfull : ¬ ∃ m < cfg.bufferedMessageSetSize, (s.msgs m).seed = none :=
        fun ⟨m, hm, hfree⟩ => bufferAllocate_eq_none hallocate hm hfree
      obtain ⟨hpos, hlength⟩ := hbuffer.resolve_left hfull
      have hquiet := hbehind.resolve_left hfull
      have hcount : ∀ i < cfg.seedSetSize, (s.seeds i).domain ≠ none →
          (s.seeds i).count = (s.seeds i).minSeq.length := fun i hi hused => by
        rw [hlinked.count i hi hused, Nat.mod_eq_of_lt (hlength i hi)]
      -- the first buffer is in the list of a seed, whose count is not 0
      obtain ⟨j, hj⟩ := Option.ne_none_iff_exists'.1 (bufferAllocate_eq_none hallocate hpos)
      obtain ⟨hlt, hmem⟩ := hlinked.held.owner 0 hpos j hj
      have hused : (s.seeds j).domain ≠ none := fun hnone => by
        rw [hlinked.unused j hlt hnone] at hmem
        exact absurd hmem List.not_mem_nil
      cases hlargest : largestSeed s (scanOrder cfg) none with
      | none =>
          exact absurd ((largestSeed_eq_none hlargest).2 j
            (mem_scanOrder.2 (Nat.le_of_lt hlt))) hused
      | some i =>
          obtain ⟨hi, hle⟩ := largestSeed_lt hquiet hlargest
          have hused' := ((largestSeed_eq_some hlargest).1.resolve_left nofun).2
          have hji := hle j hlt hused
          rw [hcount j hlt hused, hcount i hi hused'] at hji
          have hpos' := List.length_pos_of_mem hmem
          cases hlist : (s.seeds i).minSeq with
          | nil =>
              rw [hlist, List.length_nil] at hji
              omega
          | cons m rest =>
              have hlist' : ((s.scan cfg).seeds i).minSeq = m :: rest := hlist
              obtain ⟨minSeqno, hmin, hsome, hsame⟩ := reclaimFrom_cons cfg hlist'
              refine ⟨m, (reclaimFrom i (s.scan cfg)).2, ?_⟩
              dsimp only
              rw [bufferReclaim_of_some hlargest, ← hsome]

/-! ## What `accept` answers -/

variable {seedId : SeedId} {d : ℕ}

theorem acceptSeed_of_not_new (hi : seedSetLookup cfg seedId d s = some i)
    (hold : ¬ NewTo i p s) : (acceptSeed cfg d seedId p s).1 = false := by
  unfold acceptSeed
  rw [hi]
  dsimp only
  split
  · rfl
  · rename_i hlt
    split
    · rfl
    · rename_i hfind
      rw [List.find?_eq_none] at hfind
      exact absurd ⟨hlt, fun m hm heq => hfind m hm (decide_eq_true heq)⟩ hold

theorem acceptNew_fst {m : ℕ} (hbuffer : newBuffer cfg s = (some m, s'))
    (htimer : cfg.dataTimerOk = true) : (acceptNew cfg d i p s).1 = true := by
  unfold acceptNew
  rw [hbuffer]
  dsimp only
  rw [if_pos htimer]

theorem acceptSeed_of_new {m : ℕ} (hi : seedSetLookup cfg seedId d s = some i)
    (hnew : NewTo i p s) (hbuffer : newBuffer cfg s = (some m, s'))
    (htimer : cfg.dataTimerOk = true) : (acceptSeed cfg d seedId p s).1 = true := by
  unfold acceptSeed
  rw [hi]
  dsimp only
  rw [if_neg hnew.1]
  split
  · rename_i k hk
    have hseq := List.find?_some hk
    exact absurd (of_decide_eq_true hseq) (hnew.2 k (List.mem_of_find?_eq_some hk))
  · exact acceptNew_fst hbuffer htimer

theorem acceptSeed_of_unknown {m : ℕ} (hnone : seedSetLookup cfg seedId d s = none)
    (hallocate : seedSetAllocate cfg seedId d s = some (i, t))
    (hbuffer : newBuffer cfg t = (some m, s')) (htimer : cfg.dataTimerOk = true) :
    (acceptSeed cfg d seedId p s).1 = true := by
  unfold acceptSeed
  rw [hnone]
  dsimp only
  rw [hallocate]
  exact acceptNew_fst hbuffer htimer

end

end Den2ne.Mpl
