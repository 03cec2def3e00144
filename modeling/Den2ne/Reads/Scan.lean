import Den2ne.Memory.Range

/-!
# Computations that read a memory

A `Scan` reads a memory cell by cell, and what it reads next may depend on what it has
read. `run` is its result on a memory, `reads` are the addresses it reads there, in order.
The result depends on these cells only (`run_congr`). A scan that `Spans` a range reads
every address of it and no other; ranges that follow one another are put together by
`Spans.bind`.
-/

namespace Reads

/-- A computation with a result in `α` that reads cells in `β`. -/
inductive Scan (β α : Type*)
  | done (a : α)
  | read (p : ℕ) (k : β → Scan β α)

namespace Scan

variable {β α γ : Type*}

/-- The result on a memory. -/
def run (data : ℕ → β) : Scan β α → α
  | done a => a
  | read p k => run data (k (data p))

/-- The addresses that are read. -/
def reads (data : ℕ → β) : Scan β α → List ℕ
  | done _ => []
  | read p k => p :: reads data (k (data p))

/-- One computation after the other. -/
def bind : Scan β α → (α → Scan β γ) → Scan β γ
  | done a, f => f a
  | read p k, f => read p fun b => bind (k b) f

/-- Change the result. -/
def map (f : α → γ) (s : Scan β α) : Scan β γ := s.bind fun a => done (f a)

/-- The `n` cells from `p` on. -/
def readRange (p : ℕ) : ℕ → Scan β (List β)
  | 0 => done []
  | n + 1 => read p fun b => (readRange (p + 1) n).map (b :: ·)

variable {data data' : ℕ → β} {s : Scan β α} {p q r : ℕ}

@[simp] theorem run_bind (data : ℕ → β) (s : Scan β α) (f : α → Scan β γ) :
    (s.bind f).run data = (f (s.run data)).run data := by
  induction s with
  | done a => rfl
  | read p k ih => exact ih (data p)

@[simp] theorem reads_bind (data : ℕ → β) (s : Scan β α) (f : α → Scan β γ) :
    (s.bind f).reads data = s.reads data ++ (f (s.run data)).reads data := by
  induction s with
  | done a => rfl
  | read p k ih => exact congrArg (p :: ·) (ih (data p))

@[simp] theorem run_map (data : ℕ → β) (s : Scan β α) (f : α → γ) :
    (s.map f).run data = f (s.run data) := run_bind data s _

@[simp] theorem reads_map (data : ℕ → β) (s : Scan β α) (f : α → γ) :
    (s.map f).reads data = s.reads data := by
  rw [map, reads_bind]
  exact List.append_nil _

/-- Only the cells that are read count. -/
theorem run_congr (h : ∀ i ∈ s.reads data, data' i = data i) : s.run data' = s.run data := by
  induction s with
  | done a => rfl
  | read p k ih =>
      obtain ⟨hp, htail⟩ := List.forall_mem_cons.1 h
      rw [run, run, hp]
      exact ih (data p) htail

@[simp] theorem run_readRange (data : ℕ → β) (p n : ℕ) :
    (readRange p n).run data = Memory.load data p n := by
  induction n generalizing p with
  | zero => rfl
  | succ n ih => rw [readRange, run, run_map, ih, Memory.load_succ]

/-! ## Ranges -/

/-- The scan reads the addresses from `p` on that are below `q`, and no other. -/
def Spans (data : ℕ → β) (p q : ℕ) (s : Scan β α) : Prop :=
  p ≤ q ∧ ∀ i, i ∈ s.reads data ↔ p ≤ i ∧ i < q

theorem spans_done (a : α) : Spans data p p (done a : Scan β α) :=
  ⟨Nat.le_refl p, fun i => ⟨fun h => (by cases h), fun h => by omega⟩⟩

theorem Spans.bind {f : α → Scan β γ} (hs : Spans data p q s)
    (hf : Spans data q r (f (s.run data))) : Spans data p r (s.bind f) := by
  refine ⟨Nat.le_trans hs.1 hf.1, fun i => ?_⟩
  rw [reads_bind, List.mem_append, hs.2, hf.2]
  have := hs.1
  have := hf.1
  omega

theorem Spans.map (hs : Spans data p q s) (f : α → γ) : Spans data p q (s.map f) :=
  hs.bind (spans_done _)

theorem Spans.read {k : β → Scan β α} (hk : Spans data (p + 1) q (k (data p))) :
    Spans data p q (read p k) := by
  refine ⟨Nat.le_of_succ_le hk.1, fun i => ?_⟩
  rw [reads, List.mem_cons, hk.2]
  have := hk.1
  omega

theorem spans_readRange (data : ℕ → β) (p n : ℕ) : Spans data p (p + n) (readRange p n) := by
  induction n generalizing p with
  | zero => exact spans_done []
  | succ n ih =>
      have htail := (ih (p + 1)).map (data p :: ·)
      rw [Nat.add_right_comm, Nat.add_assoc] at htail
      exact htail.read

/-- All that is read lies below a bound exactly if the range does, or is empty. -/
theorem Spans.forall_lt_iff (hs : Spans data p q s) (hpq : p < q) {n : ℕ} :
    (∀ i ∈ s.reads data, i < n) ↔ q ≤ n := by
  constructor
  · intro h
    have hlast := h (q - 1) ((hs.2 (q - 1)).2 (by omega))
    omega
  · intro h i hi
    have := (hs.2 i).1 hi
    omega

end Scan

end Reads
