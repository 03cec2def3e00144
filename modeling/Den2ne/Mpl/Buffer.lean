import Den2ne.Mpl.Order
import Den2ne.Transition.Run

/-!
# The representation invariant of the buffer

`Represents` is the invariant of the three sets: each message that is in use is in the list of
its seed and in no other, the lists are in sending order, the counts are the lengths. The scans
of `buffer_reclaim` and `domain_set_free` begin behind the seed set, and the order of the lists
is one of bytes that wrap around, so the invariant holds in the runs whose events are `Orderly`.
-/

namespace Den2ne.Mpl

/-- The representation invariant of the buffered messages. -/
structure Represents (cfg : Config) (s : State) : Prop where
  inOneList : ∀ m < cfg.bufferedMessageSetSize, (s.msgs m).isUsed →
    (∃! i, i < cfg.seedSetSize ∧ m ∈ (s.seeds i).minSeq) ∧
    ∃ i < cfg.seedSetSize, (s.msgs m).seed = some i ∧ m ∈ (s.seeds i).minSeq
  ordered : ∀ i < cfg.seedSetSize,
    (s.seeds i).minSeq.Pairwise fun a b => (s.msgs a).sent < (s.msgs b).sent
  count : ∀ i < cfg.seedSetSize, (s.seeds i).isUsed →
    (s.seeds i).count = (s.seeds i).minSeq.length
  minSeqno : ∀ i < cfg.seedSetSize, ∀ m ∈ (s.seeds i).minSeq.head?,
    ¬ SeqValIsGt (s.seeds i).minSeqno (s.msgs m).seq
  domain : ∀ i < cfg.seedSetSize, (s.seeds i).isUsed →
    ∃ d < cfg.domainSetSize, (s.seeds i).domain = some d ∧ (s.domains d).isUsed
  accessed : ∀ i ∈ s.history.accessed, i < cfg.seedSetSize
  nullNext : s.history.nullNext = false

/-- A message of the seed `id` that is stored finds a free buffer, its seed has room in the
8-bit count, and its byte compares to those of the list as its number does. -/
structure InOrder (cfg : Config) (id : Fin 16 → UInt8) (p : DataMessage) (s : State) : Prop where
  buffer : (∀ i, Entry cfg p.destipaddr id s i → NewTo i p s) →
    ((∃ i, Entry cfg p.destipaddr id s i) ∨
      ∃ i < cfg.seedSetSize, (s.seeds i).domain = none) →
    ∃ m < cfg.bufferedMessageSetSize, (s.msgs m).seed = none
  order : cfg.dataTimerOk = true → ∀ i, Entry cfg p.destipaddr id s i → NewTo i p s →
    (s.seeds i).minSeq.length + 1 < 256 ∧
      ∀ m ∈ (s.seeds i).minSeq, (s.msgs m).seq < p.seq ↔ (s.msgs m).sent < p.sent

/-- An event that keeps the invariant: a message whose domain is found is in order, and at the
lifetime timer the data address of every domain is subscribed. -/
structure Orderly (cfg : Config) (s : State) (e : Event) : Prop where
  message : ∀ p t, e.message cfg s = some (p, t) → (acceptDomain cfg p.destipaddr t).1 ≠ none →
    InOrder cfg t.acceptSeedId.id p s
  lifetime : e = .lifetimeTimer → ∀ d < cfg.domainSetSize, (s.domains d).isUsed →
    maddrLookup cfg (s.domains d).dataAddr s ≠ none

section

variable {cfg : Config} {s s' : State} {e : Event}

/-- What is asked of the messages that are inserted. -/
def Fits (s : State) (i sent : ℕ) : Prop :=
  (s.seeds i).minSeq.length + 1 < 256 ∧ Comparable s (s.seeds i) sent

/-- The invariant that carries `Represents` along a run. -/
structure Kept (cfg : Config) (s : State) : Prop where
  linked : Linked cfg s
  sorted : ∀ i < cfg.seedSetSize, Sorted s (s.seeds i)
  length : ∀ i < cfg.seedSetSize, (s.seeds i).minSeq.length < 256
  history : s.history = ⟨[], false⟩

theorem Kept.represents (h : Kept cfg s) : Represents cfg s where
  inOneList m hm hused := by
    obtain ⟨i, hi⟩ := Option.isSome_iff_exists.1 hused
    obtain ⟨hlt, hmem⟩ := h.linked.held.owner m hm i hi
    exact ⟨h.linked.held.existsUnique hm hi, i, hlt, hi, hmem⟩
  ordered i hi := (h.sorted i hi).sent
  count i hi hused := by
    rw [h.linked.count i hi (Option.isSome_iff_ne_none.1 hused)]
    exact Nat.mod_eq_of_lt (h.length i hi)
  minSeqno i hi m hm := by
    rw [(h.sorted i hi).min m hm]
    exact fun hgt => hgt.1 rfl
  domain i hi hused := by
    obtain ⟨d, hd⟩ := Option.isSome_iff_exists.1 hused
    obtain ⟨hlt, hused'⟩ := h.linked.domain i hi d hd
    exact ⟨d, hlt, hd, hused'⟩
  accessed i hi := by
    rw [h.history] at hi
    exact absurd hi List.not_mem_nil
  nullNext := by rw [h.history]

/-- Without the scans, nothing is noted. -/
theorem Change.history {fits : State → ℕ → ℕ → Prop} (h : Change cfg False fits s s') :
    s'.history = s.history := by
  cases h with
  | same hsame => exact hsame.history
  | scan hscans | pop hscans | freeDomain hscans => exact hscans.elim
  | freeSeed hi => exact freeAll_history _ s
  | behind | newSeed | insert | lifetime => rfl

theorem Kept.change (h : Kept cfg s) (hchange : Change cfg False Fits s s') : Kept cfg s' where
  linked := h.linked.change hchange
  sorted i hi := (h.sorted i hi).change (hchange.list_cases h.linked hi) fun _ hfits => hfits.2
  length i hi := by
    have hlength := h.length i hi
    cases hchange.list_cases h.linked hi with
    | kept hlist => rwa [hlist]
    | inserted m n hm hmsgs hseed hfits =>
        have hperm := (insertMsg_perm (fun k => ((s.setMsg m n).msgs k).seq) m n.seq
          (s.seeds i).minSeq).length_eq
        rw [List.length_cons] at hperm
        rw [hseed]
        exact hperm ▸ hfits.1
    | popped hscans => exact hscans.elim
    | cleared hlist =>
        rw [hlist]
        decide
  history := hchange.history.trans h.history

theorem Kept.changes (h : Kept cfg s) (hchanges : Changes cfg False Fits s s') : Kept cfg s' := by
  induction hchanges with
  | refl => exact h
  | tail _ hchange ih => exact ih.change hchange

/-! ## Messages in order -/

/-- A free buffer is taken before any is reclaimed. -/
theorem newBuffer_of_free (h : ∃ m < cfg.bufferedMessageSetSize, (s.msgs m).seed = none)
    {m : ℕ} (hnew : newBuffer cfg s = (some m, s')) : SameSets cfg s s' := by
  unfold newBuffer at hnew
  split at hnew
  · rename_i k t hk
    obtain ⟨-, rfl⟩ := Prod.mk.inj hnew
    exact (bufferAllocate_cases hk).2.2
  · rename_i hnone
    obtain ⟨k, hk, hfree⟩ := h
    exact absurd hfree (bufferAllocate_eq_none hnone hk)

/-- What `accept` finds behind the domain of a message in order. -/
theorem InOrder.acceptable {id : SeedId} {p : DataMessage} {d : ℕ} (hkept : Kept cfg s)
    (hsame : SameSets cfg s s') (hd : d < cfg.domainSetSize) (hused : (s'.domains d).isUsed)
    (ha : (s'.domains d).dataAddr = p.destipaddr) (h : InOrder cfg id.id p s) :
    Acceptable cfg False Fits d id p s' := by
  have hentry : ∀ i, seedSetLookup cfg id d s' = some i ↔ Entry cfg p.destipaddr id.id s i :=
    fun i => seedSetLookup_sameSets hkept.linked hsame hd hused ha
  have hfree : (∃ m < cfg.bufferedMessageSetSize, (s.msgs m).seed = none) →
      ∃ m < cfg.bufferedMessageSetSize, (s'.msgs m).seed = none := fun ⟨m, hm, hnone⟩ =>
    ⟨m, hm, (hsame.seed m).trans hnone⟩
  refine ⟨fun i hi hnew => ?_, fun hnone i t ht => ?_⟩
  · have hi' := (hentry i).1 hi
    have hnew' := (NewTo.sameSets hkept.linked hi'.1 hsame).1 hnew
    have hfree' := hfree (h.buffer (fun j hj => by
      rwa [Entry.unique hkept.linked hj hi']) (.inl ⟨i, hi'⟩))
    refine ⟨.inl hfree', fun m t ht hok => ?_⟩
    have hsame' := hsame.trans (newBuffer_of_free hfree' ht)
    obtain ⟨hlength, horder⟩ := h.order hok i hi' hnew'
    have hsent : ∀ m ∈ (s.seeds i).minSeq, (t.msgs m).sent = (s.msgs m).sent := fun m hm => by
      refine hsame'.sent m ?_
      rw [(hkept.linked.seed_of_mem hi'.1 hm).2]
      exact Option.some_ne_none i
    have hseq : ∀ m ∈ (s.seeds i).minSeq, (t.msgs m).seq = (s.msgs m).seq := fun m hm => by
      unfold Msg.seq
      rw [hsent m hm]
    unfold Fits
    rw [hsame'.seeds]
    refine ⟨hlength, fun m hm => ?_, fun m hm => ?_, fun hne => ?_⟩
    · rw [hseq m hm, hsent m hm]
      exact horder m hm
    · rw [hseq m hm]
      exact hnew'.2 m hm
    · obtain ⟨a, ha⟩ := Option.isSome_iff_exists.1 (List.isSome_head?.2 hne)
      have hmin := (hkept.sorted i hi'.1).min a ha
      have hold := hnew'.1
      have hbyte : p.seq < 256 := Nat.mod_lt _ (by omega)
      rw [hmin, seqValIsLt_iff hbyte (s.msgs a).seq_lt] at hold
      rw [hmin]
      exact Nat.le_of_not_lt hold
  · obtain ⟨hi, hunused, rfl⟩ := seedSetAllocate_eq_some ht
    have hno : ∀ j, ¬ Entry cfg p.destipaddr id.id s j := fun j hj => by
      rw [← hentry, hnone] at hj
      cases hj
    rw [hsame.seeds] at hunused
    have hfree' := hfree (h.buffer (fun j hj => absurd hj (hno j)) (.inr ⟨i, hi, hunused⟩))
    refine ⟨.inl hfree', fun m t ht _ => ?_⟩
    have hseed := congrFun (newBuffer_of_free (by exact hfree') ht).seeds i
    rw [State.setSeed_seeds, if_pos rfl] at hseed
    unfold Fits
    rw [hseed]
    exact ⟨Nat.lt_of_sub_ne_zero nofun, nofun, nofun, fun hne => absurd rfl hne⟩

/-- An orderly event keeps the invariant. -/
theorem Kept.step (h : Kept cfg s) (hok : Orderly cfg s e) (hstep : step cfg e s = some s') :
    Kept cfg s' := by
  refine h.changes (step_changes h.linked ⟨fun p t hmessage d t' ht' => ?_, fun he => ?_⟩ hstep)
  · obtain ⟨hsame, -, hroutable, -⟩ := message_eq_some hmessage
    obtain ⟨hdomain, hused⟩ := acceptDomain_cases hroutable (h.linked.sameSets hsame).domains
    rw [ht'] at hdomain hused
    obtain ⟨hd, hd', ha⟩ := hused d rfl
    refine (hok.message p t hmessage ?_).acceptable h (hsame.trans hdomain) hd hd' ha
    rw [ht']
    exact Option.some_ne_none d
  · exact .inl (hok.lifetime he)

/-- The buffer keeps its representation invariant in every orderly run. -/
theorem always_represents (cfg : Config) (maddrs : ℕ → Option Ip6Addr) (behind : Seed)
    (global : Option Ip6Addr) (es : List Event)
    (hok : Transition.Meets (step cfg) (Orderly cfg) es (boot cfg maddrs behind global)) :
    Transition.Always (step cfg) (Represents cfg) es (boot cfg maddrs behind global) := by
  obtain ⟨hlinked, hhistory, hseeds⟩ := boot_spec cfg maddrs behind global
  have hboot : Kept cfg (boot cfg maddrs behind global) := by
    refine ⟨hlinked, fun i hi => ?_, fun i hi => ?_, hhistory⟩
    · rw [hseeds i hi]
      exact .of_nil rfl
    · rw [hseeds i hi]
      decide
  exact Transition.always_of_meets (fun s e s' hkept hok hstep => hkept.step hok hstep)
    (fun s hkept => hkept.represents) hboot hok

end

/-! ## A full buffer -/

/-- A forwarder with one buffer, one seed and one domain. -/
def smallConfig : Config where
  bufferedMessageSetSize := 1
  seedSetSize := 1
  domainSetSize := 1
  maddrNb := 2
  seedIdType := 0
  seedId := fun _ => 0
  proactiveForwarding := true
  seedSetEntryLifetime := 30
  dataMessageTimerExpirations := 5
  controlMessageTimerExpirations := 10
  subToAllForwarders := false
  ipv6Checks := true
  controlTimerOk := true
  dataTimerOk := true
  seedInfoPad := 6

/-- `ff05::1`. -/
def siteAddr : Ip6Addr := fun i =>
  if i.val = 0 then 0xFF else if i.val = 1 then 0x05 else if i.val = 15 then 1 else 0

/-- The forwarder has subscribed to this address. -/
def smallMaddrs (k : ℕ) : Option Ip6Addr := if k = 0 then some siteAddr else none

def smallBoot : State := boot smallConfig smallMaddrs Seed.zero none

/-- A message of the seed `fd00::1`. -/
def seedMessage (sent : ℕ) : DataMessage where
  srcipaddr := fun i => if i.val = 0 then 0xFD else if i.val = 15 then 1 else 0
  destipaddr := siteAddr
  proto := protoHbho
  optType := hbhoOptTypeMpl
  flags := 0x20
  sent := sent
  seedIdBytes := fun _ => 0
  payload := []

/-- A forwarder with two buffers. -/
def roomyConfig : Config := { smallConfig with bufferedMessageSetSize := 2 }

def roomyBoot : State := boot roomyConfig smallMaddrs Seed.zero none

theorem data_message {cfg : Config} {s t : State} {p q : DataMessage} {srcIsMine : Bool}
    (h : (Event.data q srcIsMine).message cfg s = some (p, t)) :
    p = q ∧ t = { s with acceptSeedId := q.seedId s.acceptSeedId } := by
  unfold Event.message at h
  dsimp only at h
  split at h
  · obtain ⟨rfl, rfl⟩ := Prod.mk.inj (Option.some.inj h)
    exact ⟨rfl, rfl⟩
  · cases h

/-- With two buffers, two messages of a seed are in order. -/
theorem always_represents_two : Transition.Always (step roomyConfig) (Represents roomyConfig)
    [.data (seedMessage 1) false, .data (seedMessage 2) false] roomyBoot := by
  refine always_represents roomyConfig smallMaddrs Seed.zero none _
    ⟨⟨fun p t _ _ => ⟨fun _ _ => ⟨0, by decide, rfl⟩, fun _ i hi => ?_⟩, nofun⟩,
      ⟨fun p t hmessage _ => ⟨fun _ _ => ⟨0, by decide, by decide +kernel⟩, fun _ i hi _ => ?_⟩,
        nofun⟩, trivial⟩
  · obtain ⟨hlt, -, d, hd, -⟩ := hi
    have hzero := (boot_spec roomyConfig smallMaddrs Seed.zero none).2.2 i hlt
    rw [hzero] at hd
    cases hd
  · obtain rfl : i = 0 := Nat.lt_one_iff.1 hi.1
    obtain ⟨rfl, -⟩ := data_message hmessage
    decide +kernel

/-- With one buffer, the second message of a seed makes `buffer_reclaim` access the element
behind the seed set. -/
theorem not_always_represents : ¬ ∀ (cfg : Config) (maddrs : ℕ → Option Ip6Addr)
    (behind : Seed) (global : Option Ip6Addr) (es : List Event),
    Transition.Always (step cfg) (Represents cfg) es (boot cfg maddrs behind global) := by
  intro h
  have hrun : (Transition.run (step smallConfig) [.data (seedMessage 1) false,
      .data (seedMessage 2) false] smallBoot).map (·.history.accessed) = some [1, 0] := by
    decide +kernel
  obtain ⟨s, hs, haccessed⟩ := Option.map_eq_some_iff.1 hrun
  have hrepresents := Transition.always_last (h smallConfig smallMaddrs Seed.zero none _) hs
  have hlt := hrepresents.accessed 1 (by rw [haccessed]; decide)
  exact absurd hlt (by decide)

end Den2ne.Mpl
