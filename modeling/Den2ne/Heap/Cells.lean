import Mathlib.Data.List.Nodup

/-!
# Heaps of cells

A heap that hands out cells one at a time. A cell is known by its number, which
no other cell ever gets, and holds nothing any more once it has been freed;
`released` is history, the last cell first, so that a cell that is freed twice
is there twice.

`base.Owns p h` is what a function that works on its own cells leaves behind:
the cells of `base` are as they were, and the pointer `p`, unless it is `none`,
is a live cell that `base` does not have. Its rules say that a cell that is
allocated is owned, that an owned cell may be freed or exchanged for another
one, and that nothing else happens to it while a callee works on its own cells.
-/

namespace Cells

/-- The cells in the order in which they were handed out. -/
structure Heap (β : Type*) where
  cells : List (Option β)
  released : List ℕ
deriving DecidableEq, Repr

variable {β : Type*}

namespace Heap

def empty : Heap β := ⟨[], []⟩

/-- What a live cell holds. -/
def read (h : Heap β) (i : ℕ) : Option β := h.cells[i]?.join

/-- `malloc`, and the first write to the new cell. -/
def alloc (b : β) (h : Heap β) : ℕ × Heap β :=
  (h.cells.length, { h with cells := h.cells ++ [some b] })

/-- `free`, which does nothing to the null pointer. -/
def free (p : Option ℕ) (h : Heap β) : Heap β :=
  match p with
  | none => h
  | some i => ⟨h.cells.set i none, i :: h.released⟩

/-- No cell was released twice, and a released cell holds nothing. -/
structure Sound (h : Heap β) : Prop where
  nodup : h.released.Nodup
  dead : ∀ i ∈ h.released, i < h.cells.length ∧ h.read i = none

/-- `h` has the cells of `base` as they were there. -/
structure Extends (base h : Heap β) : Prop where
  length_le : base.cells.length ≤ h.cells.length
  read_eq : ∀ i < base.cells.length, h.read i = base.read i

/-- `p` is `none` or a live cell that `base` does not have, and the cells of
`base` are as they were. -/
structure Owns (base : Heap β) (p : Option ℕ) (h : Heap β) : Prop where
  sound : h.Sound
  extension : base.Extends h
  live : ∀ i, p = some i → base.cells.length ≤ i ∧ (h.read i).isSome

variable {base h h' : Heap β} {p q : Option ℕ} {i j : ℕ} {b : β}

theorem sound_empty : (empty : Heap β).Sound where
  nodup := List.nodup_nil
  dead _ hi := nomatch hi

theorem lt_of_read_isSome (hi : (h.read i).isSome) : i < h.cells.length := by
  by_contra hlt
  rw [read, List.getElem?_eq_none (Nat.le_of_not_lt hlt)] at hi
  cases hi

@[simp] theorem read_alloc_self (b : β) (h : Heap β) :
    (h.alloc b).2.read (h.alloc b).1 = some b := by
  simp [read, alloc]

theorem read_alloc (b : β) (hi : i < h.cells.length) : (h.alloc b).2.read i = h.read i := by
  rw [read, read, alloc, List.getElem?_append_left hi]

theorem read_free_self (h : Heap β) (i : ℕ) : (h.free (some i)).read i = none := by
  rw [read, free]
  by_cases hi : i < h.cells.length <;> simp [hi]

/-- Nothing is read through a pointer that was freed. -/
theorem bind_read_free (p : Option ℕ) (h : Heap β) : p.bind (h.free p).read = none := by
  cases p with
  | none => rfl
  | some i => exact read_free_self h i

theorem read_free_of_ne (hij : p ≠ some j) : (h.free p).read j = h.read j := by
  cases p with
  | none => rfl
  | some i =>
      have hne : i ≠ j := fun heq => hij (congrArg some heq)
      rw [read, read, free, List.getElem?_set_ne hne]

@[simp] theorem length_alloc (b : β) (h : Heap β) :
    (h.alloc b).2.cells.length = h.cells.length + 1 := by
  simp [alloc]

@[simp] theorem length_free (p : Option ℕ) (h : Heap β) :
    (h.free p).cells.length = h.cells.length := by
  cases p <;> simp [free]

/-! ## Sound heaps -/

theorem Sound.alloc (hs : h.Sound) (b : β) : (h.alloc b).2.Sound where
  nodup := hs.nodup
  dead i hi := by
    obtain ⟨hlt, hread⟩ := hs.dead i hi
    rw [length_alloc, read_alloc b hlt]
    exact ⟨Nat.lt_succ_of_lt hlt, hread⟩

/-- Only a live cell may be freed. -/
theorem Sound.free (hs : h.Sound) (hp : ∀ i, p = some i → (h.read i).isSome) :
    (h.free p).Sound := by
  cases p with
  | none => exact hs
  | some i =>
      have hi := hp i rfl
      refine ⟨List.nodup_cons.2 ⟨fun hmem => ?_, hs.nodup⟩, fun j hj => ?_⟩
      · rw [(hs.dead i hmem).2] at hi
        cases hi
      · rw [length_free]
        rcases List.mem_cons.1 hj with rfl | hj
        · exact ⟨lt_of_read_isSome hi, read_free_self h _⟩
        · obtain ⟨hlt, hread⟩ := hs.dead j hj
          have hij : some i ≠ some j := by
            rintro heq
            rw [Option.some.inj heq, hread] at hi
            cases hi
          rw [read_free_of_ne hij]
          exact ⟨hlt, hread⟩

/-! ## Ownership -/

theorem Extends.refl (h : Heap β) : h.Extends h := ⟨Nat.le_refl _, fun _ _ => rfl⟩

theorem Extends.trans (h₁ : base.Extends h) (h₂ : h.Extends h') : base.Extends h' where
  length_le := Nat.le_trans h₁.length_le h₂.length_le
  read_eq i hi := (h₂.read_eq i (Nat.lt_of_lt_of_le hi h₁.length_le)).trans (h₁.read_eq i hi)

/-- What was done from a sound heap on before anything is owned. -/
theorem Sound.owns (hs : h.Sound) : h.Owns none h :=
  ⟨hs, Extends.refl h, fun _ hi => nomatch hi⟩

/-- A new cell is owned; the pointer that was owned before is forgotten. -/
theorem Owns.alloc (ho : base.Owns p h) (b : β) :
    base.Owns (some (h.alloc b).1) (h.alloc b).2 where
  sound := ho.sound.alloc b
  extension := by
    refine ho.extension.trans ⟨?_, fun i hi => read_alloc b hi⟩
    rw [length_alloc]
    exact Nat.le_succ _
  live := by
    rintro i hi
    obtain rfl := Option.some.inj hi
    exact ⟨ho.extension.length_le, by simp⟩

theorem Owns.free (ho : base.Owns p h) : base.Owns none (h.free p) where
  sound := ho.sound.free fun i hi => (ho.live i hi).2
  extension := by
    refine ⟨by rw [length_free]; exact ho.extension.length_le, fun i hi => ?_⟩
    rw [read_free_of_ne, ho.extension.read_eq i hi]
    rintro rfl
    exact absurd hi (Nat.not_lt.2 (ho.live i rfl).1)
  live _ hi := nomatch hi

theorem Owns.ne_alloc (ho : base.Owns p h) (b : β) : p ≠ some (h.alloc b).1 := by
  intro hp
  exact Nat.lt_irrefl _ (lt_of_read_isSome (ho.live _ hp).2)

/-- A cell exchanged for a new one. -/
theorem Owns.exchange (ho : base.Owns p h) (b : β) :
    base.Owns (some (h.alloc b).1) ((h.alloc b).2.free p) := by
  have hnew := ho.alloc b
  have hold : base.Owns p (h.alloc b).2 := by
    refine ⟨hnew.sound, hnew.extension, fun i hi => ⟨(ho.live i hi).1, ?_⟩⟩
    rw [read_alloc b (lt_of_read_isSome (ho.live i hi).2)]
    exact (ho.live i hi).2
  refine ⟨hold.free.sound, hold.free.extension, fun i hi => ⟨(hnew.live i hi).1, ?_⟩⟩
  rw [← Option.some.inj hi, read_free_of_ne (ho.ne_alloc b), read_alloc_self]
  rfl

/-- What is owned stays owned while a callee works on its own cells. -/
theorem Owns.trans (ho : base.Owns p h) (hcall : h.Owns q h') : base.Owns p h' where
  sound := hcall.sound
  extension := ho.extension.trans hcall.extension
  live i hi := by
    obtain ⟨hnew, hlive⟩ := ho.live i hi
    rw [hcall.extension.read_eq i (lt_of_read_isSome hlive)]
    exact ⟨hnew, hlive⟩

end Heap

end Cells
