import Den2ne.Node.Joining
import Den2ne.Transition.Run

/-!
# The mark of the parent

With one HLMAC address, a common node that joins a round marks the sender with
`flag == 1` and every other neighbour with `0`, and sends its LOAD and SHARE to
the neighbour so marked. At most one neighbour carries the mark in every
reachable state (`markedParent_step`). But the flag is written after every
SetHLMAC that is not a loop, whatever it was before: a second SetHLMAC of the
parent is not stored, and turns its mark into `-1`.

`KeepsParentMark` excludes exactly that event, and `always_parentMarked_iff`
says that it is necessary and sufficient along every run of a node.
-/

namespace Den2ne

open Keyed Transition

variable {α : Type*} [DecidableEq α] {cfg : Config α}

namespace Standing

/-- The parent that the history names is in the table, and no other neighbour
is marked as a parent. -/
structure MarkedParent (s : Standing α) : Prop where
  joined : ∀ p, s.parent = some p → s.Joined ∧ p ∈ s.addrs
  marked : ∀ m ∈ s.marks, m.flag = 1 → s.parent = some m.addr

/-- The parent carries the mark. -/
def ParentMarked (s : Standing α) : Prop :=
  ∀ p, s.parent = some p → ∃ m ∈ s.marks, m.addr = p ∧ m.flag = 1

variable (cfg) in
/-- When an event keeps the mark of the parent: it is no SetHLMAC of the parent
that passes the guard without being stored. -/
def KeepsParentMark (s : Standing α) : Event α → Prop
  | .timer _ => True
  | .receive sender message _ => sender ≠ cfg.linkaddrNodeAddr →
      match message with
      | .hello => True
      | .load _ => True
      | .share _ => True
      | .sethlmac timestamp _ _ =>
          let addr := iotoriiExtractAddress cfg.linkaddrNodeAddr message
          hlmacIsUnspecifiedAddr addr = false → s.accepts timestamp addr = true →
            (hlmactableAdd cfg.hlmacMaxHlmac s.hlmacTable addr timestamp).1 = false →
              s.parent ≠ some sender

variable {s : Standing α}

/-! ## At most one mark -/

omit [DecidableEq α] in
theorem countP_le_one (hnodup : s.addrs.Nodup) (h : s.MarkedParent) :
    s.marks.countP (·.flag = 1) ≤ 1 := by
  cases hparent : s.parent with
  | none =>
      rw [List.countP_eq_zero.2]
      · exact Nat.zero_le 1
      · intro m hm hflag
        rw [h.marked m hm (by simpa using hflag)] at hparent
        cases hparent
  | some p =>
      refine Keyed.countP_le_one hnodup (a := p) fun m hm hflag => ?_
      have hmark := h.marked m hm (by simpa using hflag)
      rw [hparent] at hmark
      exact (Option.some.inj hmark).symm

theorem markedParent_hello (h : s.MarkedParent) (sender : α) :
    (s.hello sender).MarkedParent := by
  constructor
  · intro p hp
    have hkeep : (s.hello sender).parent = s.parent ∧
        (s.hello sender).hlmacTable = s.hlmacTable := by
      rw [hello_eq]
      exact ⟨rfl, rfl⟩
    obtain ⟨hjoined, hmem⟩ := h.joined p (hkeep.1 ▸ hp)
    refine ⟨by rw [Joined, hkeep.2]; exact hjoined, ?_⟩
    rw [addrs_hello]
    split
    · exact List.mem_append_left _ hmem
    · exact hmem
  · unfold hello
    split
    · split
      · intro m hm hflag
        obtain ⟨m', hm', rfl⟩ := mem_updateAt.1 hm
        split at hflag <;> split <;> exact h.marked m' hm' hflag
      · intro m hm hflag
        rcases List.mem_append.1 hm with hm | hm
        · exact h.marked m hm hflag
        · rw [List.mem_singleton] at hm
          rw [hm] at hflag
          cases hflag
    · exact h.marked

theorem markedParent_tick (hnodup : s.addrs.Nodup) (h : s.MarkedParent) :
    (s.tick cfg).MarkedParent := by
  cases hfind : s.marks.find? (missing ((s.numberOfHelloMessages + 1) % 65536)) with
  | none =>
      have herase : s.marks.eraseP (missing ((s.numberOfHelloMessages + 1) % 65536)) = s.marks :=
        List.eraseP_of_forall_not (by simpa using List.find?_eq_none.1 hfind)
      have hparent : (s.tick cfg).parent = s.parent := by
        simp [tick, hfind, dropParent]
      have hmarks : (s.tick cfg).marks = s.marks := herase
      exact ⟨fun p hp => by rw [addrs, hmarks]; exact h.joined p (hparent ▸ hp),
        fun m hm hflag => by rw [hparent]; exact h.marked m (hmarks ▸ hm) hflag⟩
  | some x =>
      obtain ⟨l₁, l₂, hl, herase⟩ := exists_append_of_find? hfind
      have hmarks : (s.tick cfg).marks = l₁ ++ l₂ := herase
      have hparent : (s.tick cfg).parent = if s.parent = some x.addr then none else s.parent := by
        simp [tick, hfind, dropParent]
      rw [addrs, hl, List.map_append, List.map_cons, List.nodup_middle, List.nodup_cons,
        ← List.map_append] at hnodup
      constructor
      · intro p hp
        rw [hparent] at hp
        split at hp
        · cases hp
        · rename_i hne
          obtain ⟨hjoined, hmem⟩ := h.joined p hp
          refine ⟨hjoined, ?_⟩
          rw [addrs, hl, List.map_append, List.map_cons, List.mem_append, List.mem_cons] at hmem
          rw [addrs, hmarks, List.map_append, List.mem_append]
          rcases hmem with hmem | rfl | hmem
          · exact .inl hmem
          · exact absurd hp hne
          · exact .inr hmem
      · intro m hm hflag
        rw [hmarks] at hm
        have hmem : m ∈ s.marks := by
          rw [hl]
          rcases List.mem_append.1 hm with hm | hm
          · exact List.mem_append_left _ hm
          · exact List.mem_append_right _ (List.mem_cons_of_mem _ hm)
        have hmark := h.marked m hmem hflag
        rw [hparent, if_neg, hmark]
        intro hx
        rw [hmark, Option.some.injEq] at hx
        exact hnodup.1 (hx ▸ List.mem_map_of_mem hm)

theorem markedParent_offer (hs : s.Single) (hg : s.Grounded cfg)
    (hmax : cfg.hlmacMaxHlmac = 1) (h : s.MarkedParent) (sender : α) (timestamp : ℕ)
    (addr : HlmacAddr) : (s.offer cfg sender timestamp addr).MarkedParent := by
  unfold offer
  split
  · obtain hstore | ⟨-, -, table, -, hentries, hstore⟩ := hs.store_cases hg hmax sender timestamp addr
    · rw [hstore]
      constructor
      · intro p hp
        rw [addrs_markSender]
        exact h.joined p (by simpa [markSender] using hp)
      · intro m hm hflag
        obtain ⟨m', hm', rfl⟩ := mem_updateAt.1 hm
        split at hflag
        · cases hflag
        · rename_i hne
          rw [if_neg hne]
          simpa [markSender] using h.marked m' hm' hflag
    · rw [hstore]
      constructor
      · intro p hp
        rw [addrs_markSender]
        simp only [markSender, enter, true_and, Option.ite_none_right_eq_some,
          Option.some.injEq] at hp
        obtain ⟨hmem, rfl⟩ := hp
        exact ⟨by simp [Joined, markSender, hentries], hmem⟩
      · intro m hm hflag
        obtain ⟨m', hm', rfl⟩ := mem_updateAt.1 hm
        split at hflag
        · rename_i hkey
          have hmem : sender ∈ s.unmark.addrs := hkey ▸ List.mem_map_of_mem hm'
          rw [if_pos hkey]
          simp only [markSender, true_and]
          rw [if_pos (by exact hmem), hkey]
        · obtain ⟨m'', -, rfl⟩ := List.mem_map.1 hm'
          cases hflag
  · exact h

/-- Every event that can happen at a common node keeps the mark with at most
one neighbour, and keeps the parent in the table. -/
theorem markedParent_step (hs : s.Single) (hg : s.Grounded cfg) (hnodup : s.addrs.Nodup)
    (hmax : cfg.hlmacMaxHlmac = 1) (h : s.MarkedParent) {e : Event α} (he : s.Enabled e) :
    (s.step cfg e).MarkedParent := by
  unfold step
  split
  · exact markedParent_tick hnodup h
  · exact absurd (hs.timerOff.symm.trans (he.sethlmac rfl)) Bool.false_ne_true
  · exact h
  · exact h
  · split
    · exact h
    · unfold receive
      split
      · exact markedParent_hello h _
      · exact h
      · exact h
      · dsimp only
        split
        · exact h
        · exact markedParent_offer hs hg hmax h _ _ _

/-! ## The mark of the parent -/

theorem parentMarked_hello (h : s.ParentMarked) (sender : α) : (s.hello sender).ParentMarked := by
  unfold hello
  split
  · split
    · intro p hp
      obtain ⟨m, hm, hkey, hflag⟩ := h p hp
      refine ⟨_, mem_updateAt.2 ⟨m, hm, rfl⟩, ?_, ?_⟩
      · split <;> exact hkey
      · split <;> exact hflag
    · intro p hp
      obtain ⟨m, hm, hkey, hflag⟩ := h p hp
      exact ⟨m, List.mem_append_left _ hm, hkey, hflag⟩
  · exact h

theorem parentMarked_tick (hnodup : s.addrs.Nodup) (hmarked : (s.tick cfg).MarkedParent)
    (h : s.ParentMarked) : (s.tick cfg).ParentMarked := by
  intro p hp
  obtain ⟨m, hm, hkey⟩ := List.mem_map.1 (hmarked.joined p hp).2
  have hparent : s.parent = some p := by
    simp only [tick, dropParent] at hp
    split at hp
    · exact hp
    · split at hp
      · cases hp
      · exact hp
  obtain ⟨m', hm', hkey', hflag⟩ := h p hparent
  have heq := List.inj_on_of_nodup_map hnodup (List.mem_of_mem_eraseP hm) hm'
    (hkey.trans hkey'.symm)
  exact ⟨m, hm, hkey, heq ▸ hflag⟩

theorem parentMarked_offer (hs : s.Single) (hg : s.Grounded cfg)
    (hmax : cfg.hlmacMaxHlmac = 1) (h : s.ParentMarked) (sender : α) (timestamp : ℕ)
    (addr : HlmacAddr) :
    (s.offer cfg sender timestamp addr).ParentMarked ↔ (s.accepts timestamp addr = true →
      (hlmactableAdd cfg.hlmacMaxHlmac s.hlmacTable addr timestamp).1 = false →
        s.parent ≠ some sender) := by
  have hfst : (s.store cfg sender timestamp addr).1 =
      (hlmactableAdd cfg.hlmacMaxHlmac s.hlmacTable addr timestamp).1 := rfl
  rw [← hfst]
  unfold offer
  split
  · rename_i hacc
    simp only [hacc, forall_const]
    obtain hstore | ⟨-, -, table, -, hentries, hstore⟩ :=
      hs.store_cases hg hmax sender timestamp addr
    · simp only [hstore, forall_const]
      constructor
      · -- the sender was the parent: now its flag is -1
        intro hafter hparent
        obtain ⟨m, hm, hkey, hflag⟩ := hafter sender (by simpa [markSender] using hparent)
        obtain ⟨m', -, rfl⟩ := mem_updateAt.1 hm
        split at hflag
        · cases hflag
        · rename_i hne
          rw [if_neg hne] at hkey
          exact hne hkey
      · intro hne p hp
        have hparent : s.parent = some p := by simpa [markSender] using hp
        obtain ⟨m, hm, hkey, hflag⟩ := h p hparent
        have hsender : m.addr ≠ sender := by
          rw [hkey]
          intro hps
          exact hne (hps ▸ hparent)
        exact ⟨m, mem_updateAt.2 ⟨m, hm, if_neg hsender⟩, hkey, hflag⟩
    · simp only [hstore, Bool.true_eq_false, false_implies, iff_true]
      intro p hp
      simp only [markSender, enter, true_and, Option.ite_none_right_eq_some,
        Option.some.injEq] at hp
      obtain ⟨hmem, rfl⟩ := hp
      obtain ⟨m, hm, hkey⟩ := List.mem_map.1 hmem
      refine ⟨_, mem_updateAt.2 ⟨m, hm, rfl⟩, ?_, ?_⟩
      · rw [if_pos hkey]
        exact hkey
      · rw [if_pos hkey]
        rfl
  · rename_i hacc
    exact iff_of_true h fun hyes => absurd hyes hacc

/-- One event keeps the mark of the parent exactly if `KeepsParentMark` allows it. -/
theorem parentMarked_step (hs : s.Single) (hg : s.Grounded cfg) (hnodup : s.addrs.Nodup)
    (hmax : cfg.hlmacMaxHlmac = 1) (hmarked : s.MarkedParent) (h : s.ParentMarked) {e : Event α}
    (he : s.Enabled e) : (s.step cfg e).ParentMarked ↔ s.KeepsParentMark cfg e := by
  unfold step
  split
  · exact iff_of_true (parentMarked_tick hnodup (markedParent_tick hnodup hmarked) h) trivial
  · exact absurd (hs.timerOff.symm.trans (he.sethlmac rfl)) Bool.false_ne_true
  · exact iff_of_true h trivial
  · exact iff_of_true h trivial
  · rename_i sender message _
    by_cases hself : sender = cfg.linkaddrNodeAddr
    · rw [if_pos hself]
      exact iff_of_true h fun hne => absurd hself hne
    · rw [if_neg hself]
      simp only [KeepsParentMark, ne_eq, hself, not_false_eq_true, forall_const]
      unfold receive
      cases message with
      | hello => exact iff_of_true (parentMarked_hello h sender) trivial
      | load load => exact iff_of_true h trivial
      | share extra => exact iff_of_true h trivial
      | sethlmac timestamp hlmacPrefix assigned =>
          dsimp only
          split
          · rename_i hunspec
            simp only [hunspec, Bool.true_eq_false, false_implies, iff_true]
            exact h
          · rename_i hspec
            simp only [hspec, forall_const]
            exact parentMarked_offer hs hg hmax h sender timestamp _

end Standing

/-! ## Runs of a node -/

/-- At most one neighbour of a node that has joined a round is marked as its
parent, and the neighbour whose SetHLMAC gave it its address is marked as long
as its entry stays in the table. -/
def ParentMarked (n : Node α) : Prop :=
  n.hlmacTable.entries ≠ [] →
    n.neighbourTable.entries.countP (·.flag = 1) ≤ 1 ∧
    ∀ p ∈ n.history.parent, n.neighbourTable.flagOf p = some 1

variable (cfg) in
/-- When an event keeps the mark of the parent of the node. -/
def KeepsParentMark (n : Node α) (e : Env α × Event α) : Prop :=
  n.standing.KeepsParentMark cfg e.2

instance : DecidablePred (ParentMarked (α := α)) := fun n =>
  inferInstanceAs (Decidable (n.hlmacTable.entries ≠ [] →
    n.neighbourTable.entries.countP (·.flag = 1) ≤ 1 ∧
    ∀ p ∈ n.history.parent, n.neighbourTable.flagOf p = some 1))

theorem parentMarked_iff {n : Node α} (hmarked : n.standing.MarkedParent) :
    ParentMarked n ↔ n.standing.ParentMarked := by
  have hflag : ∀ p, n.neighbourTable.flagOf p = some 1 ↔
      ∃ m ∈ n.standing.marks, m.addr = p ∧ m.flag = 1 := by
    intro p
    rw [NeighbourTable.flagOf_eq_marks, Option.map_eq_some_iff]
    refine exists_congr fun m => ?_
    rw [find?_eq_some_iff n.neighbourTable.nodup_marks, and_assoc]
    rfl
  constructor
  · intro h p hp
    exact (hflag p).1 ((h (hmarked.joined p hp).1).2 p hp)
  · intro h _
    refine ⟨?_, fun p hp => (hflag p).2 (h p hp)⟩
    have hcount := Standing.countP_le_one (s := n.standing) n.neighbourTable.nodup_marks hmarked
    rw [Node.standing, NeighbourTable.marks, List.countP_map] at hcount
    exact hcount

/-- With one HLMAC address, along every run of a common node from boot, the
mark of the parent is in place in every state exactly if every event satisfies
`KeepsParentMark`. -/
theorem always_parentMarked_iff (cfg : Config α) (hcommon : cfg.nodeType = .common)
    (hmax : cfg.hlmacMaxHlmac = 1) (es : List (Env α × Event α)) :
    Always (Node.react cfg) ParentMarked es Node.boot ↔
      Meets (Node.react cfg) (KeepsParentMark cfg) es Node.boot := by
  have hboot : (Node.boot : Node α).standing.MarkedParent :=
    ⟨fun _ h => (by cases h), fun _ h => (by cases h)⟩
  refine always_iff_meets (I := fun n => n.standing.Grounded cfg ∧ n.standing.Single ∧
    n.standing.MarkedParent) ?_ ?_ ⟨Standing.grounded_boot, Standing.single_boot, hboot⟩ ?_
  · rintro n e n' ⟨hg, hs, hmarked⟩ - - hstep
    have he := enabled_of_step cfg e.1 hstep
    rw [standing_step cfg e.1 hstep]
    exact ⟨hg.step e.2, hs.step hg hcommon hmax he,
      Standing.markedParent_step hs hg n.neighbourTable.nodup_marks hmax hmarked he⟩
  · rintro n e n' ⟨hg, hs, hmarked⟩ hP hstep
    have he := enabled_of_step cfg e.1 hstep
    have hnodup := n.neighbourTable.nodup_marks
    have hmarked' := Standing.markedParent_step hs hg hnodup hmax hmarked he
    rw [← standing_step cfg e.1 hstep] at hmarked'
    rw [parentMarked_iff hmarked', standing_step cfg e.1 hstep]
    exact Standing.parentMarked_step hs hg hnodup hmax hmarked
      ((parentMarked_iff hmarked).1 hP) he
  · exact fun h => absurd rfl h

/-- `always_parentMarked_iff` for a node that hears its parent once. -/
theorem always_parentMarked_iff_once :
    Always (Node.react (defaultConfig 5)) ParentMarked
        [(⟨15, [0], 150, 9⟩, .receive 1 .hello 0),
         (⟨15, [0], 150, 9⟩, .receive 1 (.sethlmac 0 [1] [(1, 5)]) 0)] Node.boot ↔
      Meets (Node.react (defaultConfig 5)) (KeepsParentMark (defaultConfig 5))
        [(⟨15, [0], 150, 9⟩, .receive 1 .hello 0),
         (⟨15, [0], 150, 9⟩, .receive 1 (.sethlmac 0 [1] [(1, 5)]) 0)] Node.boot :=
  always_parentMarked_iff (defaultConfig 5) rfl rfl _

/-- The parent sends its SetHLMAC a second time, and is no parent any more. -/
theorem not_always_parentMarked :
    ¬ Always (Node.react (defaultConfig 5)) ParentMarked
      [(⟨15, [0], 150, 9⟩, .receive 1 .hello 0),
       (⟨15, [0], 150, 9⟩, .receive 1 (.sethlmac 0 [1] [(1, 5)]) 0),
       (⟨15, [0], 150, 9⟩, .receive 1 (.sethlmac 0 [1] [(1, 5)]) 0)] Node.boot := by
  decide +kernel

end Den2ne
