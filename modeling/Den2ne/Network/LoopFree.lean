import Den2ne.Network.History

/-!
# Addresses are simple paths

The loop test is skipped for a message that is newer than `last_timestamp`.
That is sound for a common node, whose `last_timestamp` is the round of its
table (`Standing.Abreast`). The root takes its own address from a timer and
leaves `last_timestamp` behind, so it stores an extension of its own address
as soon as a newer message names it and its table has room.
-/

namespace Den2ne

open Transition

variable {α : Type*} [DecidableEq α]

/-- `a` is a proper prefix of `b`. -/
def HlmacAddr.ProperPrefix (a b : HlmacAddr) : Prop := a.ids <+: b.ids ∧ a.ids ≠ b.ids

/-- No address was stored after a proper prefix of it of the same round; the
list has the last one first. -/
def SimplePaths (accepted : List (Accept α)) : Prop :=
  accepted.Pairwise fun later earlier =>
    later.timestamp = earlier.timestamp → ¬ earlier.address.ProperPrefix later.address

/-- No node has stored an address that loops. -/
def World.LoopFree (w : World α) (s : Net α) : Prop := ∀ v ∈ w.nodes, SimplePaths (s.accepted v)

instance (w : World α) : DecidablePred w.LoopFree := fun s => by
  unfold World.LoopFree SimplePaths HlmacAddr.ProperPrefix
  infer_instance

/-- The message gets past the guard without a loop test, and there is room for
its address. -/
def Standing.Overruns (cfg : Config α) (s : Standing α) (sender : α) (message : Payload α) :
    Prop :=
  match message with
  | .sethlmac timestamp _ _ =>
      let addr := iotoriiExtractAddress cfg.linkaddrNodeAddr message
      sender ≠ cfg.linkaddrNodeAddr ∧ hlmacIsUnspecifiedAddr addr = false ∧
        s.lastTimestamp < timestamp ∧
        (hlmactableAdd cfg.hlmacMaxHlmac s.hlmacTable addr timestamp).1 = true
  | _ => False

/-- The event is not such a message to the root. -/
def World.SparesRoot (w : World α) (s : Net α) (e : NetEvent α) : Prop :=
  match e with
  | .deliver i _ => ∀ f ∈ s.air[i]?, f.dst = w.root →
      ¬ (s.node w.root).standing.Overruns (w.config w.root) f.src f.message
  | _ => True

instance (cfg : Config α) (s : Standing α) (sender : α) (message : Payload α) :
    Decidable (s.Overruns cfg sender message) :=
  match message with
  | .hello | .load _ | .share _ => inferInstanceAs (Decidable False)
  | .sethlmac .. => inferInstanceAs (Decidable (_ ≠ _ ∧ _))

instance (w : World α) (s : Net α) (e : NetEvent α) : Decidable (w.SparesRoot s e) :=
  match e with
  | .deliver i _ => inferInstanceAs (Decidable (∀ f ∈ s.air[i]?, _))
  | .timer .. | .lose _ | .duplicate _ => inferInstanceAs (Decidable True)

/-! ## Common nodes -/

/-- `last_timestamp` is the round of the table, and the table holds every
address of that round. -/
structure Standing.Abreast (s : Standing α) : Prop where
  current : ∀ entry ∈ s.hlmacTable.entries, entry.timestamp = s.lastTimestamp
  le : ∀ r ∈ s.accepted, r.timestamp ≤ s.lastTimestamp
  kept : ∀ r ∈ s.accepted, r.timestamp = s.lastTimestamp →
    ∃ entry ∈ s.hlmacTable.entries, entry.address = r.address

section Abreast

variable {cfg : Config α} {s : Standing α}

section

omit [DecidableEq α]

theorem Standing.abreast_boot : (Node.boot : Node α).standing.Abreast := ⟨nofun, nofun, nofun⟩

theorem Standing.Abreast.of_eq {s' : Standing α} (h : s.Abreast)
    (htable : s'.hlmacTable = s.hlmacTable) (haccepted : s'.accepted = s.accepted)
    (hlast : s'.lastTimestamp = s.lastTimestamp) : s'.Abreast := by
  obtain ⟨h₁, h₂, h₃⟩ := h
  rw [← htable, ← hlast] at h₁
  rw [← haccepted, ← hlast] at h₂
  rw [← haccepted, ← htable, ← hlast] at h₃
  exact ⟨h₁, h₂, h₃⟩

/-- A node that stores an address is in the round of that address. -/
theorem Standing.lastTimestamp_store {sender : α} {timestamp : ℕ} {addr : HlmacAddr}
    (hacc : s.accepts timestamp addr = true)
    (hstored : (s.store cfg sender timestamp addr).1 = true) :
    (s.store cfg sender timestamp addr).2.lastTimestamp = timestamp := by
  have hadd : (hlmactableAdd cfg.hlmacMaxHlmac s.hlmacTable addr timestamp).1 = true := hstored
  simp only [Standing.store, hadd, if_true, Standing.adopt]
  split
  · rfl
  · rename_i henters
    rw [Standing.accepts, Bool.or_eq_true, Bool.and_eq_true, decide_eq_true_eq,
      beq_iff_eq] at hacc
    rcases hacc with hlt | ⟨-, heq⟩
    · exact absurd (by simp [Standing.enters, hlt]) henters
    · exact heq.symm

theorem Standing.Abreast.store (h : s.Abreast) (hg : s.Grounded cfg) {sender : α}
    {timestamp : ℕ} {addr : HlmacAddr} (hacc : s.accepts timestamp addr = true) :
    (s.store cfg sender timestamp addr).2.Abreast := by
  cases hstored : (s.store cfg sender timestamp addr).1 with
  | false =>
      have hadd : (hlmactableAdd cfg.hlmacMaxHlmac s.hlmacTable addr timestamp).1 = false := hstored
      have hsame : s.store cfg sender timestamp addr = (false, s) := by
        simp [Standing.store, hadd, hg.snd_hlmactableAdd hadd]
      rw [hsame]
      exact h
  | true =>
      have hlast := Standing.lastTimestamp_store hacc hstored
      have hentries := (entries_hlmactableAdd_of_stored hg.counted hstored).1
      rw [← hlmacTable_store sender] at hentries
      have haccepted := accepted_store.trans (if_pos hstored)
      -- the round is new, or the table keeps what it has
      have hcases : (s.lastTimestamp < timestamp ∧
            hlmactableRenew s.hlmacTable timestamp = HlmacTable.empty) ∨
          (timestamp = s.lastTimestamp ∧ hlmactableRenew s.hlmacTable timestamp = s.hlmacTable) := by
        rw [Standing.accepts, Bool.or_eq_true, Bool.and_eq_true, decide_eq_true_eq,
          beq_iff_eq] at hacc
        rcases hacc with hlt | ⟨-, heq⟩
        · refine .inl ⟨hlt, hlmactableRenew_of_newer hg.counted fun entry hentry => ?_⟩
          rw [h.current entry hentry]
          exact hlt
        · refine .inr ⟨heq, hlmactableRenew_of_not_newer fun entry hentry => ?_⟩
          rw [h.current entry hentry, heq]
      refine ⟨?_, ?_, ?_⟩
      · intro entry hentry
        rw [hlast]
        rw [hentries, List.mem_append, List.mem_singleton] at hentry
        rcases hentry with hentry | rfl
        · rcases hcases with ⟨-, hrenew⟩ | ⟨heq, hrenew⟩
          · rw [hrenew] at hentry
            cases hentry
          · rw [hrenew] at hentry
            rw [h.current entry hentry, heq]
        · rfl
      · intro r hr
        rw [hlast]
        rw [haccepted] at hr
        rcases List.mem_cons.1 hr with rfl | hr
        · exact le_rfl
        · have hle := h.le r hr
          rcases hcases with ⟨hlt, -⟩ | ⟨heq, -⟩
          · exact hle.trans hlt.le
          · exact hle.trans heq.ge
      · intro r hr hts
        rw [hlast] at hts
        rw [hentries]
        rw [haccepted] at hr
        rcases List.mem_cons.1 hr with rfl | hr
        · exact ⟨_, List.mem_append_right _ (List.mem_singleton_self _), rfl⟩
        · have hle := h.le r hr
          rcases hcases with ⟨hlt, -⟩ | ⟨heq, hrenew⟩
          · omega
          · obtain ⟨entry, hentry, haddr⟩ := h.kept r hr (hts.trans heq)
            rw [hrenew]
            exact ⟨entry, List.mem_append_left _ hentry, haddr⟩

end

/-- Every event that can happen at a common node keeps it abreast. -/
theorem Standing.Abreast.step (h : s.Abreast) (hg : s.Grounded cfg) {e : Event α}
    (he : e ≠ .timer .sethlmac) : (s.step cfg e).Abreast := by
  unfold Standing.step
  split
  · exact h.of_eq rfl rfl rfl
  · exact absurd rfl he
  · exact h
  · exact h
  · split
    · exact h
    · unfold Standing.receive
      split
      · rw [Standing.hello_eq]
        exact h.of_eq rfl rfl rfl
      · exact h
      · exact h
      · dsimp only
        split
        · exact h
        · unfold Standing.offer
          split
          · rename_i hacc
            exact (h.store hg hacc).of_eq rfl rfl rfl
          · exact h

end Abreast

/-! ## The root -/

/-- After `k` rounds the root's own address heads its table, and it has stored
that address in every round. -/
structure Standing.Crowned (s : Standing α) (k : ℕ) : Prop where
  first : k ≠ 0 → ∃ rest, s.hlmacTable.entries = ⟨hlmacCreateRootAddr 1, k - 1⟩ :: rest
  own : ∀ t < k, ∃ r ∈ s.accepted, r.timestamp = t ∧ r.address = hlmacCreateRootAddr 1

section Crowned

variable {cfg : Config α} {s : Standing α} {k : ℕ}

section

omit [DecidableEq α]

theorem Standing.crowned_boot : (Node.boot : Node α).standing.Crowned 0 :=
  ⟨fun h => absurd rfl h, nofun⟩

theorem Standing.Crowned.of_eq {s' : Standing α} (h : s.Crowned k)
    (htable : s'.hlmacTable = s.hlmacTable) (haccepted : s'.accepted = s.accepted) :
    s'.Crowned k := by
  obtain ⟨h₁, h₂⟩ := h
  rw [← htable] at h₁
  rw [← haccepted] at h₂
  exact ⟨h₁, h₂⟩

theorem Standing.Crowned.storeRoot (h : s.Crowned k) (hclock : s.Clock k)
    (hg : s.Grounded cfg) (hroom : Roomy cfg.hlmacMaxHlmac)
    (hrecent : ∀ entry ∈ s.hlmacTable.entries, entry.timestamp < k) :
    (s.storeRoot cfg).Crowned (k + 1) := by
  have hnext := hclock.nextTimestamp_eq
  have hrenew := hlmactableRenew_of_newer hg.counted hrecent
  have hadd : (hlmactableAdd cfg.hlmacMaxHlmac s.hlmacTable (hlmacCreateRootAddr 1) k).1 = true :=
    fst_hlmactableAdd_of_nil hroom (by rw [hrenew]; rfl)
  refine ⟨fun _ => ⟨[], ?_⟩, fun t ht => ?_⟩
  · unfold Standing.storeRoot
    dsimp only
    rw [hnext, (entries_hlmactableAdd_of_stored hg.counted hadd).1, hrenew]
    rfl
  · unfold Standing.storeRoot
    dsimp only
    rw [hnext, if_pos hadd]
    rcases Nat.lt_succ_iff_lt_or_eq.1 ht with ht | rfl
    · obtain ⟨r, hr, hown⟩ := h.own t ht
      exact ⟨r, List.mem_cons_of_mem _ hr, hown⟩
    · exact ⟨_, List.mem_cons_self, rfl, rfl⟩

/-- No message is newer than the first entry. -/
theorem Standing.Crowned.store (h : s.Crowned k) {sender : α} {timestamp : ℕ}
    {addr : HlmacAddr} (hts : timestamp < k) :
    (s.store cfg sender timestamp addr).2.Crowned k := by
  obtain ⟨rest, hrest⟩ := h.first (by omega)
  have hrenew := hlmactableRenew_of_head hrest (Nat.le_sub_one_of_lt hts)
  refine ⟨fun _ => ?_, fun t ht => ?_⟩
  · rw [hlmacTable_store]
    rcases hlmactableAdd_cases cfg.hlmacMaxHlmac s.hlmacTable addr timestamp with
      hc | ⟨-, -, hc⟩
    · rw [hc, hrenew]
      exact ⟨rest, hrest⟩
    · rw [hc, hrenew]
      exact ⟨rest ++ [⟨addr, timestamp⟩], by rw [hrest, List.cons_append]⟩
  · obtain ⟨r, hr, hown⟩ := h.own t ht
    refine ⟨r, ?_, hown⟩
    rw [accepted_store]
    split
    · exact List.mem_cons_of_mem _ hr
    · exact hr

end

theorem Standing.Crowned.step (h : s.Crowned k) (hclock : s.Clock k) (hg : s.Grounded cfg)
    (hroom : Roomy cfg.hlmacMaxHlmac)
    (hrecent : ∀ entry ∈ s.hlmacTable.entries, entry.timestamp < k) {e : Event α}
    (he : ∀ sender timestamp hlmacPrefix assigned r,
      e = .receive sender (.sethlmac timestamp hlmacPrefix assigned) r → timestamp < k) :
    (s.step cfg e).Crowned (if e = .timer .sethlmac then k + 1 else k) := by
  unfold Standing.step
  split
  · rw [if_neg nofun]
    exact h.of_eq rfl rfl
  · rw [if_pos rfl]
    exact (h.storeRoot hclock hg hroom hrecent).of_eq rfl rfl
  · rw [if_neg nofun]
    exact h
  · rw [if_neg nofun]
    exact h
  · simp only [reduceCtorEq, if_false]
    split
    · exact h
    · unfold Standing.receive
      split
      · rw [Standing.hello_eq]
        exact h.of_eq rfl rfl
      · exact h
      · exact h
      · dsimp only
        split
        · exact h
        · unfold Standing.offer
          split
          · exact (h.store (he _ _ _ _ _ rfl)).of_eq rfl rfl
          · exact h

end Crowned

variable {w : World α} {s s' : Net α} {k : ℕ}

/-! ## One event -/

section

omit [DecidableEq α]

/-- Every address starts with the root's. -/
theorem Net.Traced.root_prefix (ht : s.Traced w k) {v : α} {r : Accept α}
    (hr : r ∈ s.accepted v) {l : List UInt8} (hl : r.address = HlmacAddr.ofIds l) :
    [1] <+: l := by
  induction l using List.reverseRecOn generalizing v r with
  | nil =>
      obtain ⟨l, hl', hne, -⟩ := (ht.derived v r hr).address
      rw [hl, HlmacAddr.ofIds_inj] at hl'
      exact absurd hl'.symm hne
  | append_singleton l id ih =>
      rcases ht.derived v r hr with ⟨-, -, hone⟩ | ⟨-, p, i, -, -, hp, r', hr', -, hparent⟩
      · rw [hl, HlmacAddr.ofIds_inj] at hone
        rw [hone]
      · rw [hl, HlmacAddr.ofIds_inj] at hp
        obtain ⟨rfl, -⟩ := List.append_inj' hp rfl
        exact (ih hr' hparent).trans (List.prefix_append _ _)

/-- What a node stores from a message is longer than the root's address. -/
theorem Net.Traced.root_properPrefix (ht : s.Traced w k) {v : α} {r : Accept α}
    (hr : r ∈ s.accepted v) (hsender : r.sender ≠ v) :
    (hlmacCreateRootAddr 1).ProperPrefix r.address ∧
      ∃ l, r.address = HlmacAddr.ofIds l ∧ [1] <+: l ∧ [1] ≠ l ∧ l.length ≤ 124 := by
  rcases ht.derived v r hr with ⟨hv, hroot, -⟩ | ⟨-, p, i, hnil, hlen, hp, -⟩
  · exact absurd (hroot.trans hv.symm) hsender
  · have hpre := ht.root_prefix hr hp
    have hne : [1] ≠ p ++ [i] := by
      intro h
      exact hnil (HlmacAddr.eq_nil_of_ofIds_append (congrArg HlmacAddr.ofIds h.symm))
    have hle : (p ++ [i]).length ≤ 124 := by
      rw [List.length_append]
      exact Nat.succ_le_succ hlen
    refine ⟨?_, p ++ [i], hp, hpre, hne, hle⟩
    rw [HlmacAddr.ProperPrefix, hp, HlmacAddr.ids_ofIds (by omega)]
    exact ⟨hpre, hne⟩

end

/-- The root after `k` rounds and every common node, along a run. -/
structure Net.InStep (w : World α) (s : Net α) (k : ℕ) : Prop where
  traced : s.Traced w k
  crowned : (s.node w.root).standing.Crowned k
  abreast : ∀ v, v ≠ w.root → (s.node v).standing.Abreast

omit [DecidableEq α] in
theorem Net.inStep_boot : (Net.boot : Net α).InStep w 0 where
  traced := Net.traced_boot
  crowned := Standing.crowned_boot
  abreast _ _ := Standing.abreast_boot

section Acts

variable {v : α} {env : Env α} {e : Event α} {air : List (Frame α)} {n : Node α}

theorem Net.InStep.acts (h : s.InStep w k) (hs : s.Sane w) (hroom : Roomy w.hlmacMaxHlmac)
    (hsub : air ⊆ s.air)
    (he : ∀ u message r, e = .receive u message r →
      ∃ f ∈ s.air, f.src = u ∧ f.message = message)
    (ha : w.Acts s v env e air n s') :
    s'.InStep w (if e = .timer .sethlmac then k + 1 else k) where
  traced := h.traced.acts hs hroom (hs.ne_sethlmac ha) hsub he ha
  crowned := by
    by_cases hv : v = w.root
    · subst hv
      rw [ha.standing_self]
      refine h.crowned.step h.traced.clock (hs.grounded _) hroom ?_ ?_
      · intro entry hentry
        obtain ⟨r, hr, hts, -⟩ := h.traced.table _ entry hentry
        exact hts ▸ h.traced.recent _ r hr
      · intro u ts p asg r hr
        obtain ⟨f, hf, -, hmsg⟩ := he u _ r hr
        obtain ⟨r', hr', hts, -⟩ := (h.traced.air f hf ts p asg hmsg).holder
        exact hts ▸ h.traced.recent f.src r' hr'
    · rw [ha.node_ne (Ne.symm hv), if_neg (hs.ne_sethlmac ha hv)]
      exact h.crowned
  abreast := by
    intro u hu
    by_cases huv : u = v
    · subst huv
      rw [ha.standing_self]
      exact (h.abreast u hu).step (hs.grounded u) (hs.ne_sethlmac ha hu)
    · rw [ha.node_ne huv]
      exact h.abreast u hu

/-- What a common node stores has no proper prefix among what it stored before
in the same round. -/
theorem Net.InStep.not_properPrefix (h : s.InStep w k) (hv : v ≠ w.root) {sender : α}
    {message : Payload α} {timestamp : ℕ} {addr : HlmacAddr}
    (htakes : Takes (w.config v) (s.node v).standing sender message timestamp addr)
    {l : List UInt8} (hl : addr = HlmacAddr.ofIds l) (hlen : l.length ≤ 124) :
    ∀ r ∈ s.accepted v, timestamp = r.timestamp → ¬ r.address.ProperPrefix addr := by
  rintro r hr rfl ⟨hpre, hne⟩
  have habreast := h.abreast v hv
  have hle := habreast.le r hr
  have hacc := htakes.accepts
  rw [Standing.accepts, Bool.or_eq_true, Bool.and_eq_true, decide_eq_true_eq, beq_iff_eq,
    Bool.not_eq_true'] at hacc
  rcases hacc with hlt | ⟨hloop, heq⟩
  · omega
  · obtain ⟨entry, hentry, haddr⟩ := habreast.kept r hr heq
    obtain ⟨l', hl', hnil, hlen'⟩ := (h.traced.derived v r hr).address
    rw [hl', hl, HlmacAddr.ids_ofIds (by omega), HlmacAddr.ids_ofIds (by omega)] at hpre hne
    rw [hl, hlmactableHasLoop_of_prefix hnil hpre hne (by omega)
      ⟨entry, hentry, haddr.trans hl'⟩] at hloop
    cases hloop

/-- The root stores only what skips the loop test: its own address heads the
table. -/
theorem Net.InStep.overruns (h : s.InStep w k) {sender : α} {message : Payload α}
    {timestamp : ℕ} {addr : HlmacAddr}
    (htakes : Takes (w.config w.root) (s.node w.root).standing sender message timestamp addr)
    (hts : timestamp < k) {l : List UInt8} (hl : addr = HlmacAddr.ofIds l) (hpre : [1] <+: l)
    (hne : [1] ≠ l) (hlen : l.length ≤ 124) :
    (s.node w.root).standing.Overruns (w.config w.root) sender message := by
  obtain ⟨p, asg, rfl⟩ := htakes.message_eq
  obtain ⟨rest, hrest⟩ := h.crowned.first (by omega)
  have hacc := htakes.accepts
  rw [Standing.accepts, Bool.or_eq_true, Bool.and_eq_true, decide_eq_true_eq, beq_iff_eq,
    Bool.not_eq_true'] at hacc
  rcases hacc with hlt | ⟨hloop, -⟩
  · obtain rfl := htakes.addr_eq
    exact ⟨htakes.sender_ne, htakes.specified, hlt, htakes.stored⟩
  · rw [hl, hlmactableHasLoop_of_prefix (p := [1]) (by simp) hpre hne (by omega)
      ⟨_, hrest ▸ List.mem_cons_self, rfl⟩] at hloop
    cases hloop

/-- An event keeps the addresses of the node simple paths, unless it overruns
the root. -/
theorem Net.InStep.simplePaths_iff (h : s.InStep w k) (hs : s.Sane w)
    (hroom : Roomy w.hlmacMaxHlmac) (hsub : air ⊆ s.air)
    (he : ∀ u message r, e = .receive u message r →
      ∃ f ∈ s.air, f.src = u ∧ f.message = message)
    (ha : w.Acts s v env e air n s') (hsimple : SimplePaths (s.accepted v)) :
    SimplePaths (s'.accepted v) ↔ ∀ sender message r, e = .receive sender message r →
      v = w.root → ¬ (s.node v).standing.Overruns (w.config v) sender message := by
  have hstep := h.acts hs hroom hsub he ha
  rw [ha.accepted_self]
  rcases accepted_step (w.config v) (s.node v).standing e with
    hold | ⟨rfl, hown⟩ | ⟨sender, message, rd, timestamp, addr, rfl, htakes, hnew⟩
  · rw [hold]
    refine iff_of_true hsimple ?_
    rintro sender message r rfl - hover
    -- a message that overruns is stored
    cases message with
    | hello => exact hover
    | load load => exact hover
    | share extra => exact hover
    | sethlmac ts p asg =>
        obtain ⟨hsender, hspec, hlt, hstored⟩ := hover
        have hacc : (s.node v).standing.accepts ts (iotoriiExtractAddress
            (w.config v).linkaddrNodeAddr (.sethlmac ts p asg)) = true := by
          simp [Standing.accepts, hlt]
        have htakes : Takes (w.config v) (s.node v).standing sender (.sethlmac ts p asg) ts _ :=
          ⟨hsender, ⟨p, asg, rfl⟩, rfl, hspec, hacc, hstored⟩
        rw [htakes.accepted_step] at hold
        exact absurd (congrArg List.length hold) (by simp)
  · rw [hown]
    refine iff_of_true (List.pairwise_cons.2 ⟨fun r hr hts => ?_, hsimple⟩)
      fun _ _ _ he => by cases he
    have hroot : v = w.root := by
      by_contra hne
      exact hs.ne_sethlmac ha hne rfl
    have hclock := h.traced.clock.nextTimestamp_eq
    have hrecent := h.traced.recent v r hr
    rw [← hts, hroot] at hrecent
    dsimp only at hrecent
    omega
  · have hself := ha.accepted_self.trans hnew
    have hmem : (⟨sender, timestamp, addr⟩ : Accept α) ∈ s'.accepted v :=
      hself ▸ List.mem_cons_self
    obtain ⟨hroot, l, hl, hpre, hne, hlen⟩ :=
      hstep.traced.root_properPrefix hmem htakes.sender_ne
    have hts := hstep.traced.recent v _ hmem
    rw [if_neg (by simp)] at hts
    rw [hnew]
    by_cases hv : v = w.root
    · subst hv
      refine iff_of_false (fun hpaths => ?_) fun hspares =>
        hspares sender message rd rfl rfl (h.overruns htakes hts hl hpre hne hlen)
      obtain ⟨r, hr, hrts, hraddr⟩ := h.crowned.own timestamp hts
      exact (List.pairwise_cons.1 hpaths).1 r hr hrts.symm (hraddr ▸ hroot)
    · refine iff_of_true (List.pairwise_cons.2 ⟨?_, hsimple⟩) fun _ _ _ _ hr => absurd hr hv
      exact h.not_properPrefix hv htakes hl hlen

theorem World.Acts.loopFree_iff (ha : w.Acts s v env e air n s') (hv : v ∈ w.nodes)
    (hfree : w.LoopFree s) : w.LoopFree s' ↔ SimplePaths (s'.accepted v) := by
  refine ⟨fun h => h v hv, fun h u hu => ?_⟩
  by_cases huv : u = v
  · exact huv ▸ h
  · rw [Net.accepted, ha.node_ne huv]
    exact hfree u hu

end Acts

/-! ## Runs -/

omit [DecidableEq α] in
theorem Net.InStep.of_air (h : s.InStep w k) {air : List (Frame α)} (hsub : air ⊆ s.air) :
    Net.InStep w { s with air := air } k :=
  ⟨h.traced.of_air hsub, h.crowned, h.abreast⟩

/-- Every event keeps the network in step, and keeps its addresses loop free
exactly if it spares the root. -/
theorem Net.InStep.step {e : NetEvent α} (h : s.InStep w k) (hs : s.Sane w)
    (hroom : Roomy w.hlmacMaxHlmac) (hstep : w.step e s = some s') :
    (∃ k', s'.InStep w k') ∧ (w.LoopFree s → (w.LoopFree s' ↔ w.SparesRoot s e)) := by
  rcases World.step_cases hstep with ⟨v, t, env, n, rfl, hv, ha⟩ | ⟨i, env, f, n, rfl, hf, ha⟩ |
    ⟨i, rfl, rfl⟩ | ⟨i, f, rfl, hf, rfl⟩
  · have he : ∀ u message r, Event.timer t = .receive u message r →
        ∃ f ∈ s.air, f.src = u ∧ f.message = message := nofun
    refine ⟨⟨_, h.acts hs hroom (List.Subset.refl _) he ha⟩, fun hfree => ?_⟩
    rw [ha.loopFree_iff hv hfree,
      h.simplePaths_iff hs hroom (List.Subset.refl _) he ha (hfree v hv)]
    exact iff_of_true nofun trivial
  · have hmem := List.mem_of_getElem? hf
    have hdst := (hs.air f hmem).2
    have he : ∀ u message r, Event.receive f.src f.message f.round = .receive u message r →
        ∃ f ∈ s.air, f.src = u ∧ f.message = message := by
      intro u message r hr
      rw [Event.receive.injEq] at hr
      exact ⟨f, hmem, hr.1, hr.2.1⟩
    refine ⟨⟨_, h.acts hs hroom List.eraseIdx_subset he ha⟩, fun hfree => ?_⟩
    rw [ha.loopFree_iff hdst hfree,
      h.simplePaths_iff hs hroom List.eraseIdx_subset he ha (hfree _ hdst)]
    constructor
    · intro hspares g hg hroot
      obtain rfl := Option.some.inj (hf.symm.trans hg)
      exact hroot ▸ hspares _ _ _ rfl hroot
    · intro hspares sender message r hr hroot
      rw [Event.receive.injEq] at hr
      obtain ⟨rfl, rfl, rfl⟩ := hr
      rw [hroot]
      exact hspares f hf hroot
  · exact ⟨⟨k, h.of_air List.eraseIdx_subset⟩, fun hfree => iff_of_true hfree trivial⟩
  · refine ⟨⟨k, h.of_air fun g hg => ?_⟩, fun hfree => iff_of_true hfree trivial⟩
    rcases List.mem_append.1 hg with hg | hg
    · exact hg
    · exact List.mem_singleton.1 hg ▸ List.mem_of_getElem? hf

theorem Net.inStep_of_run (hroom : Roomy w.hlmacMaxHlmac) {es : List (NetEvent α)}
    (h : run w.step es Net.boot = some s) : s.Sane w ∧ ∃ k, s.InStep w k := by
  refine run_invariant_of_step (I := fun s => s.Sane w ∧ ∃ k, s.InStep w k) ?_
    ⟨Net.sane_boot, 0, Net.inStep_boot⟩ h
  rintro s e s' ⟨hs, k, hk⟩ hstep
  exact ⟨hs.step hstep, (hk.step hs hroom hstep).1⟩

/-- What every run keeps: the nodes are in step, or nothing is ever stored. -/
structure Net.Orderly (w : World α) (s : Net α) : Prop where
  inStep : Roomy w.hlmacMaxHlmac → s.Sane w ∧ ∃ k, s.InStep w k
  empty : ¬ Roomy w.hlmacMaxHlmac → ∀ u, s.accepted u = []

theorem Net.orderly_boot (w : World α) : (Net.boot : Net α).Orderly w where
  inStep _ := ⟨Net.sane_boot, 0, Net.inStep_boot⟩
  empty _ _ := rfl

/-- Whatever the bound on the number of addresses, an event keeps the addresses
loop free exactly if it spares the root. -/
theorem Net.Orderly.step {e : NetEvent α} (h : s.Orderly w) (hstep : w.step e s = some s') :
    s'.Orderly w ∧ (w.LoopFree s → (w.LoopFree s' ↔ w.SparesRoot s e)) := by
  by_cases hroom : Roomy w.hlmacMaxHlmac
  · obtain ⟨hs, k, hk⟩ := h.inStep hroom
    obtain ⟨hk', hfree⟩ := hk.step hs hroom hstep
    exact ⟨⟨fun _ => ⟨hs.step hstep, hk'⟩, fun hnot => absurd hroom hnot⟩, hfree⟩
  · have hempty := World.accepted_of_not_roomy hroom hstep (h.empty hroom)
    refine ⟨⟨fun hroom' => absurd hroom' hroom, fun _ => hempty⟩, fun _ => ?_⟩
    refine iff_of_true (fun u _ => ?_) ?_
    · rw [hempty u]
      exact List.Pairwise.nil
    · cases e with
      | timer v t env => exact trivial
      | lose i => exact trivial
      | duplicate i => exact trivial
      | deliver i env =>
          rintro f - - hover
          unfold Standing.Overruns at hover
          split at hover
          · exact Bool.false_ne_true
              ((fst_hlmactableAdd_of_not_roomy hroom).symm.trans hover.2.2.2)
          · exact hover

end Den2ne
