import Den2ne.Mpl.Buffer
import Den2ne.Mpl.Hearing

/-!
# Each message of a seed is taken once

A message at `accept` (`Arrived`) fits to what was heard of its seed if the event is `Hearable`,
so that the events keep the list of the seed sorted, and `accept` takes the message exactly if
it was not received before.
-/

namespace Den2ne.Mpl

section

variable {cfg : Config} {a : Ip6Addr} {id : Fin 16 → UInt8} {s t t' : State} {i d : ℕ}
  {p : DataMessage} {received : List ℕ}

/-! ## The arrival of a message -/

/-- A message has arrived at `accept` in the state `s`, which has found its domain `d` and its
seed id: the state is `t'` now. -/
structure Arrived (cfg : Config) (s : State) (seedId : SeedId) (p : DataMessage) (d : ℕ)
    (t' : State) : Prop where
  linked : Linked cfg s
  same : SameSets cfg s t'
  lt : d < cfg.domainSetSize
  used : (t'.domains d).isUsed
  addr : (t'.domains d).dataAddr = p.destipaddr
  seedId : seedId.id = p.wireId

namespace Arrived

variable {seedId : SeedId}

theorem lookup_iff (h : Arrived cfg s seedId p d t') :
    seedSetLookup cfg seedId d t' = some i ↔ Entry cfg p.destipaddr p.wireId s i := by
  rw [seedSetLookup_sameSets h.linked h.same h.lt h.used h.addr, h.seedId]

/-- Behind the lookup, an entry of the message is one of its seed. -/
theorem ofSeed {s' : State} (h : Arrived cfg s seedId p d t') (hids : SameIds t' s')
    (hi : (t'.seeds i).domain = some d) (hid : (t'.seeds i).seedId.id = p.wireId)
    (hentry : Entry cfg a id s' i) : p.OfSeed a id := by
  obtain ⟨-, hid', d', hd', ha'⟩ := hentry
  rw [hids.domain, hi, Option.some.injEq] at hd'
  subst hd'
  rw [hids.dataAddr d h.used, h.addr] at ha'
  rw [hids.seedId] at hid'
  exact ⟨ha', hid.symm.trans hid'⟩

theorem behindQuiet {s' : State} (hseeds : ∀ j, (s.seeds j).domain ≠ none → s'.seeds j = s.seeds j)
    (hbehind : s'.seeds cfg.seedSetSize = s.seeds cfg.seedSetSize) (h : BehindQuiet cfg s) :
    BehindQuiet cfg s' := by
  unfold BehindQuiet
  rw [hbehind]
  rcases h with hnone | ⟨j, hj, hused, hlt⟩
  · exact .inl hnone
  · exact .inr ⟨j, hj, by rwa [hseeds j hused], by rwa [hseeds j hused]⟩

/-- A new entry for the seed of the message leaves the others alone. -/
theorem newSeed {s' : State} {k : ℕ} (hallocate : seedSetAllocate cfg seedId d s = some (k, s')) :
    k < cfg.seedSetSize ∧ (s.seeds k).domain = none ∧
    (∀ j, (s.seeds j).domain ≠ none → s'.seeds j = s.seeds j) ∧
    s'.seeds cfg.seedSetSize = s.seeds cfg.seedSetSize ∧ s'.msgs = s.msgs ∧
    s'.domains = s.domains ∧ s'.seeds k = { Seed.zero with seedId := seedId, domain := some d } := by
  obtain ⟨hk, hfree, rfl⟩ := seedSetAllocate_eq_some hallocate
  refine ⟨hk, hfree, fun j hj => ?_, ?_, rfl, rfl, ?_⟩
  · have hjk : j ≠ k := fun heq => hj (heq ▸ hfree)
    rw [State.setSeed_seeds, if_neg hjk]
  · rw [State.setSeed_seeds, if_neg (Nat.ne_of_gt hk)]
  · rw [State.setSeed_seeds, if_pos rfl]

/-- What `accept` needs of a message that fits to what was heard. -/
theorem acceptable (h : Arrived cfg s seedId p d t')
    (hbehind : (∀ i, Entry cfg p.destipaddr p.wireId s i → NewTo i p s) →
      (∃ m < cfg.bufferedMessageSetSize, (s.msgs m).seed = none) ∨ BehindQuiet cfg s)
    (htracked : Tracked cfg a id received s)
    (hreceived : p.OfSeed a id → p.sent ∈ received)
    (hnew : p.OfSeed a id → ∀ i, Entry cfg a id s i → NewTo i p s →
      ∀ m ∈ (s.seeds i).minSeq, (s.msgs m).seq < p.seq ∧ (s.msgs m).sent < p.sent) :
    Acceptable cfg True (FitsHeard cfg a id received) d seedId p t' := by
  have hlinked := h.linked.sameSets h.same
  have hbuffers : (∀ i, Entry cfg p.destipaddr p.wireId s i → NewTo i p s) →
      Buffers cfg True t' := fun hall => by
    rcases hbehind hall with ⟨m, hm, hfree⟩ | hquiet
    · exact .inl ⟨m, hm, (h.same.seed m).trans hfree⟩
    · refine .inr ⟨trivial, behindQuiet (fun j _ => ?_) ?_ hquiet⟩
      · rw [h.same.seeds]
      · rw [h.same.seeds]
  refine ⟨fun i hi hnewTo => ?_, fun hnone i t'' ht'' => ?_⟩
  · have hentry := h.lookup_iff.1 hi
    obtain ⟨hlt, hdomain, hid⟩ := seedSetLookup_eq_some hi
    have hnewTo' := (NewTo.sameSets h.linked hentry.1 h.same).1 hnewTo
    have hbuf := hbuffers fun j hj => by rwa [Entry.unique h.linked hj hentry]
    refine ⟨hbuf, fun m s' hs' _ hentry' => ?_⟩
    obtain ⟨hchanges, hids, -⟩ := newBuffer_changes (fun _ _ _ => False) hbuf hlinked
    obtain ⟨hchanges', -, -⟩ :=
      newBuffer_changes (FitsHeard cfg a id received) hbuf hlinked
    rw [hs'] at hchanges hids hchanges'
    have hof := h.ofSeed hids hdomain (hid.trans h.seedId) hentry'
    have hentry'' : Entry cfg a id s i := by rwa [← hof.1, ← hof.2]
    have hsmall := hnew hof i hentry'' hnewTo'
    have htracked' : Tracked cfg a id received t' :=
      htracked.sameSets h.linked h.same
    have hsorted := (htracked'.changes hlinked hchanges' i hentry').1
    have hmem : ∀ k ∈ (s'.seeds i).minSeq, (s'.msgs k).seq < p.seq ∧ (s'.msgs k).sent < p.sent :=
      fun k hk => by
        obtain ⟨hk', hsent⟩ := mem_of_changes hlinked hchanges hlt hk
        rw [h.same.seeds] at hk'
        have hused : (s.msgs k).seed ≠ none := by
          rw [(h.linked.seed_of_mem hlt hk').2]
          exact Option.some_ne_none i
        unfold Msg.seq
        rw [hsent, h.same.sent k hused]
        exact hsmall k hk'
    refine ⟨⟨fun k hk => ?_, fun k hk => Nat.ne_of_lt (hmem k hk).1, fun hne => ?_⟩, hreceived hof⟩
    · exact ⟨fun _ => (hmem k hk).2, fun _ => (hmem k hk).1⟩
    · obtain ⟨b, hb⟩ := Option.isSome_iff_exists.1 (List.isSome_head?.2 hne)
      rw [hsorted.min b hb]
      exact Nat.le_of_lt (hmem b (List.mem_of_mem_head? hb)).1
  · obtain ⟨hlt, hfree, hothers, hbehind', hmsgs, hdomains, hseed⟩ := newSeed ht''
    have hno : ∀ j, ¬ Entry cfg p.destipaddr p.wireId s j := fun j hj => by
      rw [← h.lookup_iff, hnone] at hj
      cases hj
    have hbuf : Buffers cfg True t'' := by
      rcases hbuffers fun j hj => absurd hj (hno j) with ⟨m, hm, hfree'⟩ | ⟨-, hquiet⟩
      · exact .inl ⟨m, hm, by rwa [hmsgs]⟩
      · exact .inr ⟨trivial, behindQuiet hothers hbehind' hquiet⟩
    have hlinked' : Linked cfg t'' := by
      obtain ⟨hk, hunused, rfl⟩ := seedSetAllocate_eq_some ht''
      exact hlinked.newSeed hk hunused h.lt h.used (seedSetLookup_eq_none hnone)
    refine ⟨hbuf, fun m s' hs' _ hentry' => ?_⟩
    obtain ⟨hchanges, hids, -⟩ := newBuffer_changes (fun _ _ _ => False) hbuf hlinked'
    rw [hs'] at hchanges hids
    have hids' : SameIds t'' s' := hids
    have hof : p.OfSeed a id := by
      obtain ⟨-, hid', d', hd', ha'⟩ := hentry'
      rw [hids'.domain, hseed, Option.some.injEq] at hd'
      subst hd'
      rw [hids'.dataAddr d (by rw [hdomains]; exact h.used), hdomains, h.addr] at ha'
      rw [hids'.seedId, hseed] at hid'
      exact ⟨ha', h.seedId.symm.trans hid'⟩
    have hempty : ∀ k, k ∉ (s'.seeds i).minSeq := fun k hk => by
      have hk' := (mem_of_changes hlinked' hchanges hlt hk).1
      rw [hseed] at hk'
      exact absurd hk' List.not_mem_nil
    exact ⟨⟨fun k hk => absurd hk (hempty k), fun k hk => absurd hk (hempty k),
      fun hne => absurd (List.eq_nil_iff_forall_not_mem.2 hempty) hne⟩, hreceived hof⟩

/-- A message that is old or buffered is not taken. -/
theorem answer_of_not_new (h : Arrived cfg s seedId p d t')
    (hi : Entry cfg p.destipaddr p.wireId s i) (hold : ¬ NewTo i p s) :
    (acceptSeed cfg d seedId p t').1 = false :=
  acceptSeed_of_not_new (h.lookup_iff.2 hi) fun hnew =>
    hold ((NewTo.sameSets h.linked hi.1 h.same).1 hnew)

/-- A new message is taken. -/
theorem answer_of_new (h : Arrived cfg s seedId p d t')
    (hnew : ∀ i, Entry cfg p.destipaddr p.wireId s i → NewTo i p s)
    (hbehind : (∃ m < cfg.bufferedMessageSetSize, (s.msgs m).seed = none) ∨ BehindQuiet cfg s)
    (hok : NewHearable cfg p.destipaddr p.wireId p t s) :
    (acceptSeed cfg d seedId p t').1 = true := by
  have hlinked := h.linked.sameSets h.same
  have hfree : (∃ m < cfg.bufferedMessageSetSize, (s.msgs m).seed = none) →
      ∃ m < cfg.bufferedMessageSetSize, (t'.msgs m).seed = none := fun ⟨m, hm, hnone⟩ =>
    ⟨m, hm, (h.same.seed m).trans hnone⟩
  have hquiet : BehindQuiet cfg s → BehindQuiet cfg t' :=
    behindQuiet (fun j _ => by rw [h.same.seeds]) (by rw [h.same.seeds])
  have hbuffer := hok.buffer.imp hfree id
  rw [← h.same.seeds] at hbuffer
  cases hlookup : seedSetLookup cfg seedId d t' with
  | some i =>
      have hentry := h.lookup_iff.1 hlookup
      obtain ⟨m, s', hs'⟩ := newBuffer_eq_some hlinked hbuffer (hbehind.imp hfree hquiet)
      exact acceptSeed_of_new hlookup ((NewTo.sameSets h.linked hentry.1 h.same).2
        (hnew i hentry)) hs' hok.timer
  | none =>
      obtain ⟨k, hk, hunused⟩ := hok.seed.resolve_left fun ⟨i, hi⟩ => by
        rw [← h.lookup_iff, hlookup] at hi
        cases hi
      cases hallocate : seedSetAllocate cfg seedId d t' with
      | none =>
          have hall := findDown_eq_none.1 (Option.map_eq_none_iff.1 hallocate) k hk
          unfold Seed.isUsed at hall
          rw [h.same.seeds, hunused] at hall
          cases hall
      | some kt =>
          obtain ⟨k', t''⟩ := kt
          obtain ⟨hlt, hunused', hothers, hbehind', hmsgs, -, hseed⟩ := newSeed hallocate
          have hlinked' : Linked cfg t'' := by
            obtain ⟨-, -, rfl⟩ := seedSetAllocate_eq_some hallocate
            exact hlinked.newSeed hlt hunused' h.lt h.used (seedSetLookup_eq_none hlookup)
          have hlength : ∀ j, (t''.seeds j).minSeq.length ≤ (t'.seeds j).minSeq.length :=
            fun j => by
              by_cases hj : (t'.seeds j).domain = none
              · obtain ⟨-, -, rfl⟩ := seedSetAllocate_eq_some hallocate
                rw [State.setSeed_seeds]
                split
                · exact Nat.zero_le _
                · exact Nat.le_refl _
              · rw [hothers j hj]
          obtain ⟨m, s', hs'⟩ := newBuffer_eq_some hlinked' (hbuffer.imp
            (fun ⟨m, hm, hfree⟩ => ⟨m, hm, by rwa [hmsgs]⟩)
            (fun ⟨hpos, hlt⟩ => ⟨hpos, fun j hj => Nat.lt_of_le_of_lt (hlength j) (hlt j hj)⟩))
            ((hbehind.imp hfree hquiet).imp (fun ⟨m, hm, hfree⟩ => ⟨m, hm, by rwa [hmsgs]⟩)
              (behindQuiet hothers hbehind'))
          exact acceptSeed_of_unknown hlookup hallocate hs' hok.timer

end Arrived

/-! ## Runs -/

/-- The invariant of a forwarder with what it has heard of one seed. -/
structure HeardWell (cfg : Config) (a : Ip6Addr) (id : Fin 16 → UInt8) (x : State × Hearing) :
    Prop where
  linked : Linked cfg x.1
  tracked : Tracked cfg a id x.2.received x.1
  once : x.2.stored.Nodup
  all : ∀ k, k ∈ x.2.stored ↔ k ∈ x.2.received

variable {x x' : State × Hearing} {e : Event}

theorem HeardWell.heard (h : HeardWell cfg a id x) : Heard cfg a id x :=
  ⟨h.once, h.all, fun i hi => (h.tracked i hi).1.sent⟩

/-- To forget what was heard without an entry. -/
theorem HeardWell.base (h : HeardWell cfg a id x) :
    HeardWell cfg a id (x.1, x.2.base cfg a id x.1) ∧
      ((x.2.base cfg a id x.1).received ≠ [] → ∃ i, Entry cfg a id x.1 i) := by
  unfold Hearing.base
  split
  · rename_i hentry
    exact ⟨h, fun _ => entryOf_isSome.1 hentry⟩
  · rename_i hnone
    exact ⟨⟨h.linked, fun i hi => absurd (entryOf_isSome.2 ⟨i, hi⟩) hnone, List.nodup_nil,
      fun _ => Iff.rfl⟩, fun hne => absurd rfl hne⟩

theorem Tracked.mono {received' : List ℕ} (h : Tracked cfg a id received s)
    (hsub : ∀ k ∈ received, k ∈ received') : Tracked cfg a id received' s :=
  fun i hi => ⟨(h i hi).1, fun m hm => hsub _ ((h i hi).2 m hm)⟩

/-- What `accept` answers to a message of the seed. -/
theorem acceptFrom_fst (h : HeardWell cfg a id x) (hok : Hearable cfg a id x e)
    (hmessage : e.message cfg x.1 = some (p, t)) (hof : p.OfSeed a id) :
    (acceptFrom cfg p t).1 = true ↔ p.sent ∉ (x.2.base cfg a id x.1).received := by
  obtain ⟨hsame, -, hroutable, -⟩ := message_eq_some hmessage
  obtain ⟨hdomain, hfound⟩ := acceptDomain_cases hroutable (h.linked.sameSets hsame).domains
  obtain ⟨ha, hid⟩ := hof
  have hentries : ∀ i, Entry cfg p.destipaddr p.wireId x.1 i ↔ Entry cfg a id x.1 i := fun i => by
    rw [ha, hid]
  have hold : ∀ i, Entry cfg a id x.1 i → p.sent ∈ (x.2.base cfg a id x.1).received →
      ¬ NewTo i p x.1 := fun i hi hmem hnew => by
    rcases hok.repeated p t hmessage ⟨ha, hid⟩ hmem i hi with hlt | ⟨m, hm, heq⟩
    · exact hnew.1 hlt
    · exact hnew.2 m hm heq
  unfold acceptFrom
  cases hd : acceptDomain cfg p.destipaddr t with
  | mk found t' =>
      rw [hd] at hdomain hfound
      cases found with
      | none =>
          refine ⟨fun hfalse => absurd hfalse Bool.false_ne_true, fun hnot => ?_⟩
          exact absurd (by rw [hd]) (hok.new p t hmessage ⟨ha, hid⟩ hnot).domain
      | some d =>
          obtain ⟨hlt, hused, haddr⟩ := hfound d rfl
          have harrived : Arrived cfg x.1 t.acceptSeedId p d t' :=
            ⟨h.linked, hsame.trans hdomain, hlt, hused, haddr, hok.seedId p t hmessage⟩
          constructor
          · intro htrue hmem
            obtain ⟨i, hi⟩ := h.base.2 (List.ne_nil_of_mem hmem)
            have hfalse := harrived.answer_of_not_new ((hentries i).2 hi) (hold i hi hmem)
            rw [htrue] at hfalse
            cases hfalse
          · intro hnot
            have hnew := hok.new p t hmessage ⟨ha, hid⟩ hnot
            have hall : ∀ i, Entry cfg p.destipaddr p.wireId x.1 i → NewTo i p x.1 := fun i hi => by
              obtain ⟨hmin, hlt⟩ := hnew.byte i ((hentries i).1 hi)
              exact ⟨hmin, fun m hm => Nat.ne_of_lt (hlt m hm)⟩
            refine harrived.answer_of_new (t := t) hall (hok.behind p t hmessage hall) ?_
            rw [ha, hid]
            exact hnew

theorem HeardWell.step (h : HeardWell cfg a id x) (horder : InSendingOrder cfg a id x e)
    (hok : Hearable cfg a id x e) (hstep : hearStep cfg a id e x = some x') :
    HeardWell cfg a id x' := by
  obtain ⟨s', hs', rfl⟩ := Option.map_eq_some_iff.1 hstep
  obtain ⟨hbase, -⟩ := h.base
  unfold Hearing.next
  cases hmessage : e.message cfg x.1 with
  | none =>
      have hchanges : Changes cfg True (FitsHeard cfg a id (x.2.base cfg a id x.1).received)
          x.1 s' := step_changes h.linked
        ⟨fun p t hsome => absurd (hmessage.symm.trans hsome) nofun, hok.lifetime⟩ hs'
      exact ⟨h.linked.changes hchanges, hbase.tracked.changes h.linked hchanges, hbase.once,
        hbase.all⟩
  | some pt =>
      obtain ⟨p, t⟩ := pt
      obtain ⟨hsame, -, hroutable, -⟩ := message_eq_some hmessage
      obtain ⟨hdomain, hfound⟩ := acceptDomain_cases hroutable (h.linked.sameSets hsame).domains
      have hchanges : ∀ received, (∀ k ∈ (x.2.base cfg a id x.1).received, k ∈ received) →
          (p.OfSeed a id → p.sent ∈ received) →
          Linked cfg s' ∧ Tracked cfg a id received s' := fun received hsub hreceived => by
        have htracked := hbase.tracked.mono hsub
        have hchanges : Changes cfg True (FitsHeard cfg a id received) x.1 s' := by
          refine step_changes h.linked ⟨fun p' t'' hmessage' d t' ht' => ?_, hok.lifetime⟩ hs'
          rw [hmessage, Option.some.injEq, Prod.mk.injEq] at hmessage'
          obtain ⟨rfl, rfl⟩ := hmessage'
          rw [ht'] at hdomain hfound
          obtain ⟨hlt, hused, haddr⟩ := hfound d rfl
          have harrived : Arrived cfg x.1 t.acceptSeedId p d t' :=
            ⟨h.linked, hsame.trans hdomain, hlt, hused, haddr, hok.seedId p t hmessage⟩
          refine harrived.acceptable (hok.behind p t hmessage) htracked hreceived
            fun hof i hi hnewTo m hm => ?_
          have hnot : p.sent ∉ (x.2.base cfg a id x.1).received := fun hmem => by
            rcases hok.repeated p t hmessage hof hmem i hi with hlt | ⟨k, hk, heq⟩
            · exact hnewTo.1 hlt
            · exact hnewTo.2 k hk heq
          refine ⟨((hok.new p t hmessage hof hnot).byte i hi).2 m hm, ?_⟩
          exact ((horder p t hmessage hof).resolve_left hnot) _ ((hbase.tracked i hi).2 m hm)
        exact ⟨h.linked.changes hchanges, htracked.changes h.linked hchanges⟩
      dsimp only
      split
      · rename_i hof
        obtain ⟨hlinked, htracked⟩ := hchanges (p.sent :: (x.2.base cfg a id x.1).received)
          (fun k hk => List.mem_cons_of_mem _ hk) fun _ => List.mem_cons_self
        have hfst := acceptFrom_fst h hok hmessage hof
        by_cases hmem : p.sent ∈ (x.2.base cfg a id x.1).received
        · rw [if_neg fun htrue => hfst.1 htrue hmem]
          refine ⟨hlinked, htracked, hbase.once, fun k => ?_⟩
          rw [hbase.all k, List.mem_cons]
          exact ⟨.inr, fun hk => hk.elim (fun heq => heq ▸ hmem) fun hk => hk⟩
        · rw [if_pos (hfst.2 hmem)]
          refine ⟨hlinked, htracked, List.nodup_cons.2 ⟨fun hin => hmem ((hbase.all _).1 hin),
            hbase.once⟩, fun k => ?_⟩
          rw [List.mem_cons, List.mem_cons, hbase.all k]
      · rename_i hnot
        obtain ⟨hlinked, htracked⟩ := hchanges (x.2.base cfg a id x.1).received
          (fun k hk => hk) fun hof => absurd hof hnot
        exact ⟨hlinked, htracked, hbase.once, hbase.all⟩

end

/-! ## The wrap of the sequence number -/

/-- The id of the seed of `seedMessage`. -/
def smallId : Fin 16 → UInt8 := (seedMessage 0).wireId

end Den2ne.Mpl
