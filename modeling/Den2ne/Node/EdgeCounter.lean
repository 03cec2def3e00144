import Den2ne.Node.Joining
import Den2ne.Transition.Run

/-!
# The edge counter

`number_of_neighbours_flag` is meant to count the neighbours with `flag == 0`:
those that have not sent a non-looping SetHLMAC in this round. A new round sets
it to the number of neighbours, and every such SetHLMAC decrements it. But a
Hello that adds a neighbour does not increment it, the expiry of an entry does
not decrement it, and the decrement does not look whether the sender is in the
table or whether its flag was `0` before.

`KeepsEdgeCounter` is what an event must satisfy for the counter to stay exact,
and `always_edgeCounterExact_iff` says that it is necessary and sufficient
along every run of a node.
-/

namespace Den2ne

open Keyed Transition

variable {α : Type*} [DecidableEq α] (cfg : Config α)

namespace Standing

/-- The neighbours whose flag is `0`. -/
def unanswered (s : Standing α) : ℕ := s.marks.countP (·.flag = 0)

/-- The counter of a node that has joined is the number of its zero flags. -/
def Balanced (s : Standing α) : Prop := s.Joined → s.numberOfNeighboursFlag = s.unanswered

/-- When the SetHLMAC keeps the counter exact: it takes the node into a round
and comes from a neighbour, or from a neighbour whose flag is `0`. -/
def OfferKeeps (s : Standing α) (sender : α) (timestamp : ℕ) (addr : HlmacAddr) : Prop :=
  (s.EntersWith cfg timestamp addr → sender ∈ s.addrs) ∧
  (¬ s.EntersWith cfg timestamp addr → s.Joined →
    ∃ m ∈ s.marks, m.addr = sender ∧ m.flag = 0)

/-- When an event keeps the counter exact. Of the events that change the table
or the counter, three kinds do not: the expiry of an entry with flag `0`, a
Hello that adds a neighbour, and a SetHLMAC that `OfferKeeps` excludes. -/
def KeepsEdgeCounter (s : Standing α) : Event α → Prop
  | .timer .hello => s.Joined →
      ∀ m ∈ s.marks.find? (missing ((s.numberOfHelloMessages + 1) % 65536)), m.flag ≠ 0
  | .timer _ => True
  | .receive sender message _ => sender ≠ cfg.linkaddrNodeAddr →
      match message with
      | .hello => s.Joined → s.marks.length < 256 → sender ∈ s.addrs
      | .load _ => True
      | .share _ => True
      | .sethlmac timestamp _ _ =>
          let addr := iotoriiExtractAddress cfg.linkaddrNodeAddr message
          hlmacIsUnspecifiedAddr addr = false → s.accepts timestamp addr = true →
            s.OfferKeeps cfg sender timestamp addr

variable {cfg} {s : Standing α}

/-! ## Marking the sender -/

omit [DecidableEq α] in
@[simp] theorem unanswered_unmark : s.unmark.unanswered = s.marks.length := by
  simp [unanswered, unmark]

/-- The mark takes one zero flag away exactly if the sender had one. -/
theorem unanswered_markSender (hnodup : s.addrs.Nodup) (sender : α) (isAdded : Bool) :
    ((s.markSender sender isAdded).unanswered : ℤ) = s.unanswered - 1 ↔
      ∃ m ∈ s.marks, m.addr = sender ∧ m.flag = 0 := by
  set f : Mark α → Mark α := fun m => { m with flag := if isAdded then 1 else -1 }
  have hf : ∀ m, (f m).flag ≠ 0 := by
    intro m
    cases isAdded <;> simp [f]
  change ((updateAt (·.addr) sender f s.marks).countP (·.flag = 0) : ℤ) = _ ↔ _
  by_cases hmem : ∃ m ∈ s.marks, m.addr = sender
  · obtain ⟨m, hm, hkey⟩ := hmem
    have hcount := countP_updateAt (f := f) hnodup hm hkey (fun m => m.flag = 0)
    simp only [decide_eq_true_eq, hf m, if_false] at hcount
    have hflag : (∃ m ∈ s.marks, m.addr = sender ∧ m.flag = 0) ↔ m.flag = 0 := by
      constructor
      · rintro ⟨m', hm', hkey', hzero⟩
        rwa [List.inj_on_of_nodup_map hnodup hm hm' (hkey.trans hkey'.symm)]
      · exact fun hzero => ⟨m, hm, hkey, hzero⟩
    rw [hflag, unanswered]
    by_cases hzero : m.flag = 0
    · rw [if_pos hzero] at hcount
      simp only [hzero, iff_true]
      omega
    · rw [if_neg hzero] at hcount
      simp only [hzero, iff_false]
      omega
  · have hnot : sender ∉ s.marks.map (·.addr) := by
      intro h
      exact hmem (List.mem_map.1 h)
    rw [updateAt_of_notMem hnot, unanswered]
    constructor
    · intro h
      omega
    · rintro ⟨m, hm, hkey, -⟩
      exact absurd ⟨m, hm, hkey⟩ hmem

/-- A mark keeps the balance exactly if it goes to a neighbour with flag `0`. -/
theorem balanced_markSender (hnodup : s.addrs.Nodup) (hb : s.Balanced) (sender : α)
    (isAdded : Bool) : (s.markSender sender isAdded).Balanced ↔
      (s.Joined → ∃ m ∈ s.marks, m.addr = sender ∧ m.flag = 0) := by
  refine forall_congr' fun hjoined => ?_
  rw [← unanswered_markSender hnodup sender isAdded, ← hb hjoined]
  exact eq_comm

theorem answered_markSender (h : ∀ m ∈ s.marks, m.flag = 0 ↔ m.addr ∉ s.heard) (sender : α)
    (isAdded : Bool) : ∀ m ∈ (s.markSender sender isAdded).marks,
      m.flag = 0 ↔ m.addr ∉ (s.markSender sender isAdded).heard := by
  intro m hm
  obtain ⟨m', hm', rfl⟩ := mem_updateAt.1 hm
  rw [markSender, List.mem_cons, not_or]
  split
  · rename_i hkey
    cases isAdded <;> simp [hkey]
  · rename_i hkey
    simp [hkey, h m' hm']

/-! ## The balance after each event -/

theorem balanced_hello (hb : s.Balanced) (sender : α) : (s.hello sender).Balanced ↔
    (s.Joined → s.marks.length < 256 → sender ∈ s.addrs) := by
  unfold hello
  split
  · rename_i hlen
    split
    · rename_i hmem
      refine iff_of_true (fun hjoined => ?_) fun _ _ => hmem
      rw [unanswered, updateAt, List.countP_map, hb hjoined, unanswered]
      congr 2
      funext m
      simp only [Function.comp_apply]
      split <;> rfl
    · rename_i hmem
      -- the new neighbour has flag 0, and nothing counts it
      simp only [Balanced, Joined, unanswered, List.countP_append, List.countP_singleton,
        decide_true, if_true, hlen, hmem, forall_const, imp_false]
      refine forall_congr' fun hjoined => ?_
      have hbal := hb hjoined
      rw [unanswered] at hbal
      simp only [iff_false]
      omega
  · rename_i hlen
    exact iff_of_true hb fun _ h => absurd h hlen

theorem balanced_tick (hb : s.Balanced) : (s.tick cfg).Balanced ↔ (s.Joined →
    ∀ m ∈ s.marks.find? (missing ((s.numberOfHelloMessages + 1) % 65536)), m.flag ≠ 0) := by
  refine forall_congr' fun hjoined => ?_
  have hbal := hb hjoined
  rw [unanswered] at hbal ⊢
  dsimp only [tick]
  cases hfind : s.marks.find? (missing ((s.numberOfHelloMessages + 1) % 65536)) with
  | none =>
      rw [List.eraseP_of_forall_not]
      · simpa using hbal
      · simpa using List.find?_eq_none.1 hfind
  | some m =>
      obtain ⟨l₁, l₂, hl, herase⟩ := exists_append_of_find? hfind
      rw [herase]
      rw [hl] at hbal
      simp only [List.countP_append, List.countP_cons, Option.mem_some_iff, forall_eq'] at hbal ⊢
      by_cases hzero : m.flag = 0
      · simp only [hzero, decide_true, if_true] at hbal
        simp only [hzero, ne_eq, not_true_eq_false, iff_false]
        omega
      · simp only [hzero, decide_false, Bool.false_eq_true, if_false] at hbal
        simp only [ne_eq, hzero, not_false_eq_true, iff_true]
        omega

omit [DecidableEq α] in
theorem balanced_startRound : (s.startRound cfg).Balanced := by
  intro _
  change (s.marks.length : ℤ) = s.unmark.unanswered
  rw [unanswered_unmark]

theorem balanced_offer (hg : s.Grounded cfg) (hnodup : s.addrs.Nodup) (hb : s.Balanced)
    (sender : α) (timestamp : ℕ) (addr : HlmacAddr) :
    (s.offer cfg sender timestamp addr).Balanced ↔
      (s.accepts timestamp addr = true → s.OfferKeeps cfg sender timestamp addr) := by
  unfold offer OfferKeeps
  split
  · rename_i hacc
    simp only [hacc, forall_const]
    -- the mark is judged on the standing that storing the address left
    obtain ⟨hno, hs⟩ | ⟨table, -, hne, -, -, ⟨hyes, hs⟩ | ⟨hno, hold, hs⟩⟩ :=
      hg.store_cases sender timestamp addr
    · rw [balanced_markSender (by rw [hs]; exact hnodup) (by rw [hs]; exact hb), hs]
      simp [hno]
    · have hzero : (s.store cfg sender timestamp addr).2.Balanced := by
        intro _
        rw [hs]
        exact congrArg _ unanswered_unmark.symm
      rw [balanced_markSender (by rw [hs]; exact (addrs_unmark (s := s)).symm ▸ hnodup) hzero, hs]
      simp [hyes, Joined, hne, addrs, enter, unmark]
    · have hjoined : s.Joined := by
        refine hg.entered fun hlast => ?_
        simp [enters, hlast] at hold
      rw [balanced_markSender (by rw [hs]; exact hnodup)
        (by rw [hs]; exact fun _ => hb hjoined), hs]
      have hne' : s.hlmacTable.entries ≠ [] := hjoined
      simp [hno, Joined, hne, hne']
  · rename_i hacc
    exact iff_of_true hb fun h => absurd h hacc

/-- One event keeps the balance exactly if `KeepsEdgeCounter` allows it. -/
theorem balanced_step (hg : s.Grounded cfg) (hnodup : s.addrs.Nodup) (hb : s.Balanced)
    (e : Event α) : (s.step cfg e).Balanced ↔ s.KeepsEdgeCounter cfg e := by
  unfold step
  split
  · exact balanced_tick hb
  · exact iff_of_true balanced_startRound trivial
  · exact iff_of_true hb trivial
  · exact iff_of_true hb trivial
  · rename_i sender message _
    by_cases hself : sender = cfg.linkaddrNodeAddr
    · rw [if_pos hself]
      exact iff_of_true hb fun h => absurd hself h
    · rw [if_neg hself]
      simp only [KeepsEdgeCounter, ne_eq, hself, not_false_eq_true, forall_const]
      unfold receive
      cases message with
      | hello => exact balanced_hello hb sender
      | load load => exact iff_of_true hb trivial
      | share extra => exact iff_of_true hb trivial
      | sethlmac timestamp hlmacPrefix assigned =>
          dsimp only
          split
          · rename_i hunspec
            simp only [hunspec, Bool.true_eq_false, false_implies, iff_true]
            exact hb
          · rename_i hspec
            simp only [hspec, forall_const]
            exact balanced_offer hg hnodup hb sender timestamp _

/-! ## The neighbours that have answered -/

/-- Of a node that has joined, the neighbours with flag `0` are those that were
not heard. -/
def Answered (s : Standing α) : Prop :=
  s.Joined → ∀ m ∈ s.marks, m.flag = 0 ↔ m.addr ∉ s.heard

omit [DecidableEq α] in
theorem answered_unmark {marks : List (Mark α)} :
    ∀ m ∈ marks.map (fun m => { m with flag := 0 }), m.flag = 0 ↔ m.addr ∉ ([] : List α) := by
  intro m hm
  obtain ⟨m', -, rfl⟩ := List.mem_map.1 hm
  simp

theorem answered_hello (h : s.Answered) {sender : α}
    (hkeep : s.Joined → s.marks.length < 256 → sender ∈ s.addrs) :
    (s.hello sender).Answered := by
  unfold hello
  split
  · rename_i hlen
    split
    · intro hjoined m hm
      obtain ⟨m', hm', rfl⟩ := mem_updateAt.1 hm
      split <;> exact h hjoined m' hm'
    · rename_i hmem
      exact fun hjoined => absurd (hkeep hjoined hlen) hmem
  · exact h

theorem answered_offer (hg : s.Grounded cfg) (h : s.Answered) (sender : α) (timestamp : ℕ)
    (addr : HlmacAddr) : (s.offer cfg sender timestamp addr).Answered := by
  unfold offer
  split
  · intro hjoined
    refine answered_markSender ?_ sender _
    obtain ⟨-, hs⟩ | ⟨table, -, -, -, -, ⟨-, hs⟩ | ⟨-, hold, hs⟩⟩ :=
      hg.store_cases sender timestamp addr
    · rw [hs] at hjoined ⊢
      exact h hjoined
    · rw [hs]
      exact answered_unmark
    · rw [hs]
      refine h (hg.entered fun hlast => ?_)
      simp [enters, hlast] at hold
  · exact h

/-- An event that keeps the counter exact keeps the flags true to what was heard. -/
theorem answered_step (hg : s.Grounded cfg) (h : s.Answered) {e : Event α}
    (hkeep : s.KeepsEdgeCounter cfg e) : (s.step cfg e).Answered := by
  unfold step
  split
  · intro hjoined m hm
    exact h hjoined m (List.mem_of_mem_eraseP hm)
  · intro _
    exact answered_unmark
  · exact h
  · exact h
  · rename_i sender message _
    split
    · exact h
    · rename_i hself
      unfold receive
      cases message with
      | hello => exact answered_hello h (hkeep hself)
      | load load => exact h
      | share extra => exact h
      | sethlmac timestamp hlmacPrefix assigned =>
          dsimp only
          split
          · exact h
          · exact answered_offer hg h sender timestamp _

end Standing

/-! ## Runs of a node -/

/-- The edge counter of a node that has joined a round is the number of its
neighbours with flag `0`, and is `0` exactly when every neighbour in the table
has sent a non-looping SetHLMAC in this round. -/
def EdgeCounterExact (n : Node α) : Prop :=
  n.hlmacTable.entries ≠ [] →
    n.numberOfNeighboursFlag = n.neighbourTable.entries.countP (·.flag = 0) ∧
    (n.numberOfNeighboursFlag = 0 ↔
      ∀ nb ∈ n.neighbourTable.entries, nb.addr ∈ n.history.heard)

/-- When an event keeps the edge counter of the node exact. -/
def KeepsEdgeCounter (n : Node α) (e : Env α × Event α) : Prop :=
  n.standing.KeepsEdgeCounter cfg e.2

instance : DecidablePred (EdgeCounterExact (α := α)) := fun n => by
  unfold EdgeCounterExact
  infer_instance

variable {cfg}

section

omit [DecidableEq α]

theorem balanced_of_edgeCounterExact {n : Node α} (h : EdgeCounterExact n) :
    n.standing.Balanced := by
  intro hjoined
  rw [Standing.unanswered, Node.standing, NeighbourTable.marks, List.countP_map]
  exact (h hjoined).1

theorem edgeCounterExact_of_balanced {n : Node α} (hb : n.standing.Balanced)
    (ha : n.standing.Answered) : EdgeCounterExact n := by
  intro hjoined
  have hbal := hb hjoined
  refine ⟨?_, ?_⟩
  · rw [Standing.unanswered, Node.standing, NeighbourTable.marks, List.countP_map] at hbal
    exact hbal
  · have hheard : ∀ nb ∈ n.neighbourTable.entries, nb.flag = 0 ↔ nb.addr ∉ n.history.heard :=
      fun nb hnb => ha hjoined nb.mark (List.mem_map_of_mem hnb)
    change n.standing.numberOfNeighboursFlag = 0 ↔ _
    rw [hbal, Int.natCast_eq_zero, Standing.unanswered, Node.standing, NeighbourTable.marks,
      List.countP_map, List.countP_eq_zero]
    refine forall₂_congr fun nb hnb => ?_
    have hnb := hheard nb hnb
    simp only [Function.comp_apply, NeighbourTableEntry.mark, decide_eq_true_eq]
    rw [hnb, not_not]

end

/-- Along every run of a node from boot, the edge counter is exact in every
state exactly if every event satisfies `KeepsEdgeCounter`. -/
theorem always_edgeCounterExact_iff (cfg : Config α) (es : List (Env α × Event α)) :
    Always (Node.react cfg) EdgeCounterExact es Node.boot ↔
      Meets (Node.react cfg) (KeepsEdgeCounter cfg) es Node.boot := by
  refine always_iff_meets (I := fun n => n.standing.Grounded cfg ∧ n.standing.Answered)
    ?_ ?_ ⟨Standing.grounded_boot, fun h => absurd rfl h⟩ fun h => absurd rfl h
  · rintro n e n' ⟨hg, ha⟩ - hkeep hstep
    rw [standing_step cfg e.1 hstep]
    exact ⟨hg.step e.2, Standing.answered_step hg ha hkeep⟩
  · rintro n e n' ⟨hg, ha⟩ hexact hstep
    have hbal := Standing.balanced_step hg n.neighbourTable.nodup_marks
      (balanced_of_edgeCounterExact hexact) e.2
    rw [← standing_step cfg e.1 hstep] at hbal
    constructor
    · intro hexact'
      exact hbal.1 (balanced_of_edgeCounterExact hexact')
    · intro hkeep
      have ha' := Standing.answered_step hg ha hkeep
      rw [← standing_step cfg e.1 hstep] at ha'
      exact edgeCounterExact_of_balanced (hbal.2 hkeep) ha'

/-- The Hello of a second neighbour after the node has joined: the counter is
`0` and the node would be an edge, while the new neighbour has flag `0`. -/
theorem not_always_edgeCounterExact :
    ¬ Always (Node.react (defaultConfig 5)) EdgeCounterExact
      [(⟨15, [0], 150, 9⟩, .receive 1 .hello 0),
       (⟨15, [0], 150, 9⟩, .receive 1 (.sethlmac 0 [1] [(1, 5)]) 0),
       (⟨15, [0], 150, 9⟩, .receive 2 .hello 0)] Node.boot := by
  decide +kernel

end Den2ne
