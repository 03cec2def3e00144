import Den2ne.Node.Records

/-!
# Drawing an order of the neighbours

`iotorii_send_sethlmac` gives each neighbour other than the sender its own slot of `random_list`:
it draws until it hits a free one. As long as there are as many slots as such neighbours, a free
slot is left for each of them (`Selects`); but the slots are counted in eight bits, and the table
takes 256 neighbours.
-/

namespace Den2ne

/-! ## Drawing until a slot is free -/

section Slots

variable {β : Type*} {slots slots' : List (Option β)} {nbs : List β} {rs : List ℕ}

theorem exists_free (slots : List (Option β)) (h : (slots.filterMap id).length < slots.length) :
    ∃ i < slots.length, slots[i]? = some none := by
  induction slots with
  | nil => exact absurd h (Nat.lt_irrefl _)
  | cons slot slots ih =>
      cases slot with
      | none => exact ⟨0, Nat.succ_pos _, rfl⟩
      | some nb =>
          obtain ⟨i, hi, hfree⟩ := ih (Nat.lt_of_succ_lt_succ h)
          exact ⟨i + 1, Nat.succ_lt_succ hi, hfree⟩

/-- Further draws are used only where the first ones hit no free slot. -/
theorem drawSlot_append (slots : List (Option β)) (rs rs' : List ℕ) :
    drawSlot slots (rs ++ rs') =
      match drawSlot slots rs with
      | none => drawSlot slots rs'
      | some (i, rest) => some (i, rest ++ rs') := by
  induction rs with
  | nil => rfl
  | cons r rs ih =>
      rw [List.cons_append, drawSlot, drawSlot]
      split
      · rfl
      · exact ih

theorem length_filterMap_set {i : ℕ} (nb : β) (h : slots[i]? = some none) :
    ((slots.set i (some nb)).filterMap id).length = (slots.filterMap id).length + 1 :=
  (filterMap_set_perm nb h).length_eq

/-- With a free slot for each neighbour that is left, the loop ends after some draws more, whatever
has been drawn before. -/
theorem fillRandomList_ends (h : nbs.length + (slots.filterMap id).length ≤ slots.length)
    (rs : List ℕ) : ∃ rs' slots', fillRandomList slots nbs (rs ++ rs') = some slots' := by
  induction nbs generalizing slots rs with
  | nil => exact ⟨[], slots, rfl⟩
  | cons nb nbs ih =>
      rw [List.length_cons] at h
      have hnext : ∀ {i}, slots[i]? = some none → nbs.length +
          ((slots.set i (some nb)).filterMap id).length ≤ (slots.set i (some nb)).length := by
        intro i hfree
        rw [length_filterMap_set nb hfree, List.length_set]
        omega
      cases hdraw : drawSlot slots rs with
      | some drawn =>
          obtain ⟨i, rest⟩ := drawn
          obtain ⟨rs', slots', hfill⟩ := ih (hnext (drawSlot_eq_some hdraw)) rest
          refine ⟨rs', slots', ?_⟩
          rw [fillRandomList, drawSlot_append, hdraw]
          exact hfill
      | none =>
          obtain ⟨i, hi, hfree⟩ := exists_free slots (by omega)
          obtain ⟨rs', slots', hfill⟩ := ih (hnext hfree) []
          refine ⟨i :: rs', slots', ?_⟩
          rw [fillRandomList, drawSlot_append, hdraw]
          dsimp only
          rw [drawSlot, Nat.mod_eq_of_lt hi, hfree]
          exact hfill

/-- A list that has as many entries as it has slots holds each of them once. -/
theorem eq_map_some_of_full (h : (slots.filterMap id).length = slots.length) :
    slots = (slots.filterMap id).map some := by
  induction slots with
  | nil => rfl
  | cons slot slots ih =>
      cases slot with
      | none =>
          have hle := List.length_filterMap_le id slots
          have hlength : (slots.filterMap id).length = slots.length + 1 := h
          omega
      | some nb => exact congrArg (some nb :: ·) (ih (Nat.succ.inj h))

end Slots

variable {α : Type*} [DecidableEq α] {t : NeighbourTable α} {sender : α}

/-- The selection loop does what it is for: there is one slot for each neighbour other than the
sender; when the loop ends these neighbours are in the slots in some order and no slot is empty;
each time one of them is placed there is a free slot; and whatever has been drawn, the loop can
still end. -/
structure Selects (t : NeighbourTable α) (sender : α) : Prop where
  slots : numberOfNeighboursNew t sender = (t.targets sender).length
  placed : ∀ rs randomList,
    fillRandomList (List.replicate (numberOfNeighboursNew t sender) none) (t.targets sender) rs =
      some randomList →
    ∃ nbs : List (NeighbourTableEntry α), randomList = nbs.map some ∧ nbs.Perm (t.targets sender)
  free : ∀ k < (t.targets sender).length, ∀ rs randomList,
    fillRandomList (List.replicate (numberOfNeighboursNew t sender) none)
      ((t.targets sender).take k) rs = some randomList →
    ∃ r < numberOfNeighboursNew t sender, randomList[r]? = some none
  ends : ∀ rs, ∃ rs' randomList,
    fillRandomList (List.replicate (numberOfNeighboursNew t sender) none) (t.targets sender)
      (rs ++ rs') = some randomList

/-- If there are slots enough, the loop can end whatever has been drawn. -/
theorem fillRandomList_replicate_ends {β : Type*} {nbs : List β} {m : ℕ} (h : nbs.length ≤ m)
    (rs : List ℕ) :
    ∃ rs' randomList, fillRandomList (List.replicate m none) nbs (rs ++ rs') = some randomList := by
  refine fillRandomList_ends ?_ rs
  rw [List.filterMap_replicate_of_none rfl, List.length_replicate]
  exact h

/-- The selection is right exactly if there are at most 255 neighbours other than the sender. -/
theorem selects_iff (t : NeighbourTable α) (sender : α) :
    Selects t sender ↔ (t.targets sender).length ≤ 255 := by
  have hnew := numberOfNeighboursNew_eq t sender
  constructor
  · intro h
    have hslots := h.slots
    omega
  · intro hle
    rw [Nat.mod_eq_of_lt (by omega)] at hnew
    refine ⟨hnew, fun rs randomList h => ?_, fun k hk rs randomList h => ?_, fun rs => ?_⟩
    · obtain ⟨hperm, hlength⟩ := fillRandomList_replicate h
      exact ⟨_, eq_map_some_of_full (by rw [hperm.length_eq, hlength, hnew]), hperm⟩
    · obtain ⟨hperm, hlength⟩ := fillRandomList_replicate h
      obtain ⟨r, hr, hfree⟩ := exists_free randomList (by
        rw [hperm.length_eq, hlength, hnew, List.length_take]
        omega)
      exact ⟨r, hlength ▸ hr, hfree⟩
    · exact fillRandomList_replicate_ends (Nat.le_of_eq hnew.symm) rs

/-! ## The table that is full -/

/-- A node that hears these Hellos one after the other. -/
def Node.hear (n : Node α) (senders : List α) : Node α :=
  senders.foldl (fun n sender => iotoriiHandleIncomingHello sender n) n

/-- The table takes 256 different neighbours. -/
theorem addrs_hear {n : Node α} {senders : List α} (hnodup : (n.neighbourTable.addrs ++ senders).Nodup)
    (hle : (n.neighbourTable.addrs ++ senders).length ≤ 256) :
    (n.hear senders).neighbourTable.addrs = n.neighbourTable.addrs ++ senders := by
  induction senders generalizing n with
  | nil => exact (List.append_nil _).symm
  | cons sender senders ih =>
      have hnew : sender ∉ n.neighbourTable.addrs := fun hmem =>
        (List.nodup_append.1 hnodup).2.2 sender hmem sender List.mem_cons_self rfl
      have hroom : n.neighbourTable.numberOfNeighbours < 256 := by
        rw [n.neighbourTable.counted, ← List.length_map (f := (·.addr))]
        rw [List.length_append, List.length_cons] at hle
        exact Nat.lt_of_lt_of_le (Nat.lt_add_of_pos_right (Nat.succ_pos _)) hle
      have haddrs : (iotoriiHandleIncomingHello sender n).neighbourTable.addrs =
          n.neighbourTable.addrs ++ [sender] := by
        rw [iotoriiHandleIncomingHello, if_pos hroom, dif_neg hnew]
        exact List.map_append
      have happend : n.neighbourTable.addrs ++ sender :: senders =
          n.neighbourTable.addrs ++ [sender] ++ senders := (List.append_cons _ _ _)
      rw [happend] at hnodup hle ⊢
      rw [← haddrs] at hnodup hle ⊢
      exact ih hnodup hle

/-- After these Hellos every one of their senders is a neighbour to tell. -/
theorem targets_hear {senders : List α} (hnodup : senders.Nodup) (hle : senders.length ≤ 256)
    (hsender : sender ∉ senders) :
    ((Node.boot.hear senders).neighbourTable.targets sender).length = senders.length := by
  have haddrs : (Node.boot.hear senders).neighbourTable.addrs = senders :=
    addrs_hear (n := Node.boot) hnodup hle
  have hall : (Node.boot.hear senders).neighbourTable.targets sender =
      (Node.boot.hear senders).neighbourTable.entries := by
    refine List.filter_eq_self.2 fun nb hnb => decide_eq_true ?_
    rintro rfl
    exact hsender (haddrs ▸ List.mem_map_of_mem hnb)
  rw [hall, ← List.length_map (f := (·.addr))]
  exact congrArg List.length haddrs

/-- After 256 neighbours have been heard there is no slot for any of them. -/
theorem not_selects_hear_range :
    ¬ Selects (Node.boot.hear (List.range 256)).neighbourTable 256 := by
  intro h
  have htargets := targets_hear (List.nodup_range (n := 256)) List.length_range.le
    List.not_mem_range_self
  have hslots := h.slots
  rw [numberOfNeighboursNew_eq, htargets, List.length_range] at hslots
  cases hslots

end Den2ne
