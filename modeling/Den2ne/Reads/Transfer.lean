import Den2ne.Memory.Range
import Mathlib.Data.List.Basic
import Mathlib.Logic.Function.Basic

/-!
# Computations that read one memory and write another

A `Transfer` reads cells of a source and writes cells of a target; what it does next may
depend on what it has read, and it may fail. `run` is its result on a source, `reads` are the
addresses it reads there, and `writes` what it writes, in order. `ReadsBelow` and
`WritesBelow` bound the addresses; for one computation after the other they split exactly
where the first one succeeds. `Returns` says when a computation succeeds and with what, and
`Safe` adds that it stays within its bounds: with `Safe.bind` a read or write may rely on the
checks before it. `Covers` says which cells are overwritten by a computation that succeeds, so
that it does not matter what was there.
-/

namespace Reads

universe u v

/-- A computation with a result in `α` that reads and writes cells in `β`. -/
inductive Transfer (β α : Type*)
  | done (a : α)
  | fail
  | read (p : ℕ) (k : β → Transfer β α)
  | write (p : ℕ) (b : β) (s : Transfer β α)

namespace Transfer

variable {β : Type u} {α γ : Type v}

/-- The result on a source; `none` if the computation fails. -/
def run (data : ℕ → β) : Transfer β α → Option α
  | done a => some a
  | fail => none
  | read p k => run data (k (data p))
  | write _ _ s => run data s

/-- The addresses that are read. -/
def reads (data : ℕ → β) : Transfer β α → List ℕ
  | done _ => []
  | fail => []
  | read p k => p :: reads data (k (data p))
  | write _ _ s => reads data s

/-- The cells that are written, with what is put there. -/
def writes (data : ℕ → β) : Transfer β α → List (ℕ × β)
  | done _ => []
  | fail => []
  | read p k => writes data (k (data p))
  | write p b s => (p, b) :: writes data s

/-- One computation after the other. -/
def bind : Transfer β α → (α → Transfer β γ) → Transfer β γ
  | done a, f => f a
  | fail, _ => fail
  | read p k, f => read p fun b => bind (k b) f
  | write p b s, f => write p b (bind s f)

instance : Monad (Transfer β) where
  pure := done
  bind := bind

/-- Read one cell. -/
def get (p : ℕ) : Transfer β β := read p done

/-- Write one cell. -/
def put (p : ℕ) (b : β) : Transfer β Unit := write p b (done ())

/-- Read `n` cells that follow one another. -/
def gets (p : ℕ) : ℕ → Transfer β (List β)
  | 0 => done []
  | n + 1 => read p fun b => bind (gets (p + 1) n) fun bs => done (b :: bs)

/-- Write cells that follow one another. -/
def puts (p : ℕ) : List β → Transfer β Unit
  | [] => done ()
  | b :: bs => write p b (puts (p + 1) bs)

/-- Copy `n` cells. -/
def copy (src dst : ℕ) : ℕ → Transfer β Unit
  | 0 => done ()
  | n + 1 => read src fun b => write dst b (copy (src + 1) (dst + 1) n)

/-- Fail unless `c`. -/
def require (c : Prop) [Decidable c] : Transfer β Unit := if c then done () else fail

/-- Everything that is read lies below `n`. -/
def ReadsBelow (data : ℕ → β) (n : ℕ) (s : Transfer β α) : Prop := ∀ i ∈ s.reads data, i < n

/-- Everything that is written lies below `m`. -/
def WritesBelow (data : ℕ → β) (m : ℕ) (s : Transfer β α) : Prop :=
  ∀ w ∈ s.writes data, w.1 < m

variable {data : ℕ → β} {n m : ℕ} {s : Transfer β α} {f : α → Transfer β γ}

/-! ## The result -/

@[simp] theorem run_pure (data : ℕ → β) (a : α) : (pure a : Transfer β α).run data = some a := rfl

@[simp] theorem run_fail (data : ℕ → β) : (fail : Transfer β α).run data = none := rfl

@[simp] theorem run_bind (data : ℕ → β) (s : Transfer β α) (f : α → Transfer β γ) :
    (s >>= f).run data = (s.run data).bind fun a => (f a).run data := by
  change (s.bind f).run data = _
  induction s with
  | done a => rfl
  | fail => rfl
  | read p k ih => exact ih (data p)
  | write p b s ih => exact ih

@[simp] theorem run_get (data : ℕ → β) (p : ℕ) : (get p).run data = some (data p) := rfl

@[simp] theorem run_put (data : ℕ → β) (p : ℕ) (b : β) : (put p b).run data = some () := rfl

@[simp] theorem run_puts (data : ℕ → β) (p : ℕ) (bs : List β) :
    (puts p bs).run data = some () := by
  induction bs generalizing p with
  | nil => rfl
  | cons b bs ih => exact ih (p + 1)

@[simp] theorem run_copy (data : ℕ → β) (src dst n : ℕ) :
    (copy src dst n).run data = some () := by
  induction n generalizing src dst with
  | zero => rfl
  | succ n ih => exact ih (src + 1) (dst + 1)

theorem run_require (data : ℕ → β) (c : Prop) [Decidable c] :
    (require c : Transfer β Unit).run data = if c then some () else none := by
  unfold require
  split <;> rfl

/-! ## What is read -/

@[simp] theorem readsBelow_pure (a : α) : ReadsBelow data n (pure a : Transfer β α) := nofun

@[simp] theorem readsBelow_fail : ReadsBelow data n (fail : Transfer β α) := nofun

theorem readsBelow_bind :
    ReadsBelow data n (s >>= f) ↔
      ReadsBelow data n s ∧ ∀ a, s.run data = some a → ReadsBelow data n (f a) := by
  change ReadsBelow data n (s.bind f) ↔ _
  induction s with
  | done a =>
      constructor
      · intro h
        refine ⟨nofun, fun a' ha => ?_⟩
        cases ha
        exact h
      · intro h
        exact h.2 a rfl
  | fail => exact iff_of_true nofun ⟨nofun, nofun⟩
  | read p k ih =>
      have htail := ih (data p)
      unfold ReadsBelow at htail ⊢
      rw [Transfer.bind, reads, reads, List.forall_mem_cons, List.forall_mem_cons, and_assoc]
      exact and_congr_right fun _ => htail
  | write p b s ih => exact ih

@[simp] theorem readsBelow_get {p : ℕ} : ReadsBelow data n (get p) ↔ p < n :=
  List.forall_mem_singleton

@[simp] theorem readsBelow_put (p : ℕ) (b : β) : ReadsBelow data n (put p b) := nofun

@[simp] theorem readsBelow_puts (p : ℕ) (bs : List β) : ReadsBelow data n (puts p bs) := by
  induction bs generalizing p with
  | nil => exact nofun
  | cons b bs ih => exact ih (p + 1)

theorem readsBelow_copy {src dst k : ℕ} :
    ReadsBelow data n (copy src dst k) ↔ k = 0 ∨ src + k ≤ n := by
  induction k generalizing src dst with
  | zero => exact iff_of_true nofun (.inl rfl)
  | succ k ih =>
      have htail : ReadsBelow data n (copy (src + 1) (dst + 1) k) ↔ _ := ih
      unfold ReadsBelow at htail ⊢
      rw [copy, reads, List.forall_mem_cons, reads, htail]
      omega

@[simp] theorem readsBelow_require (c : Prop) [Decidable c] :
    ReadsBelow data n (require c) := by
  unfold require
  split <;> exact nofun

/-! ## What is written -/

@[simp] theorem writesBelow_pure (a : α) : WritesBelow data m (pure a : Transfer β α) := nofun

@[simp] theorem writesBelow_fail : WritesBelow data m (fail : Transfer β α) := nofun

theorem writesBelow_bind :
    WritesBelow data m (s >>= f) ↔
      WritesBelow data m s ∧ ∀ a, s.run data = some a → WritesBelow data m (f a) := by
  change WritesBelow data m (s.bind f) ↔ _
  induction s with
  | done a =>
      constructor
      · intro h
        refine ⟨nofun, fun a' ha => ?_⟩
        cases ha
        exact h
      · intro h
        exact h.2 a rfl
  | fail => exact iff_of_true nofun ⟨nofun, nofun⟩
  | read p k ih => exact ih (data p)
  | write p b s ih =>
      unfold WritesBelow at ih ⊢
      rw [Transfer.bind, writes, writes, List.forall_mem_cons, List.forall_mem_cons, and_assoc]
      exact and_congr_right fun _ => ih

theorem WritesBelow.mono {m' : ℕ} (h : WritesBelow data m s) (hle : m ≤ m') :
    WritesBelow data m' s := fun w hw => Nat.lt_of_lt_of_le (h w hw) hle

@[simp] theorem writesBelow_get (p : ℕ) : WritesBelow data m (get p) := nofun

@[simp] theorem writesBelow_put {p : ℕ} {b : β} : WritesBelow data m (put p b) ↔ p < m :=
  List.forall_mem_singleton

theorem writesBelow_puts {p : ℕ} {bs : List β} (h : p + bs.length ≤ m) :
    WritesBelow data m (puts p bs) := by
  induction bs generalizing p with
  | nil => exact nofun
  | cons b bs ih =>
      rw [List.length_cons] at h
      exact List.forall_mem_cons.2 ⟨by omega, ih (by omega)⟩

theorem writesBelow_copy {src dst k : ℕ} (h : dst + k ≤ m) :
    WritesBelow data m (copy src dst k) := by
  induction k generalizing src dst with
  | zero => exact nofun
  | succ k ih => exact List.forall_mem_cons.2 ⟨by omega, ih (by omega)⟩

@[simp] theorem writesBelow_require (c : Prop) [Decidable c] :
    WritesBelow data m (require c) := by
  unfold require
  split <;> exact nofun

/-! ## Checked computations -/

/-- The computation returns `a` if `ok` holds, and fails if it does not. -/
structure Returns (data : ℕ → β) (s : Transfer β α) (ok : Prop) (a : α) : Prop where
  run_eq : ok → s.run data = some a
  run_none : ¬ ok → s.run data = none

/-- A computation that reads below `n` and writes below `m`, and that returns `a` if `ok`
holds. -/
structure Safe (data : ℕ → β) (n m : ℕ) (s : Transfer β α) (ok : Prop) (a : α) : Prop where
  returns : Returns data s ok a
  reads : ReadsBelow data n s
  writes : WritesBelow data m s

variable {ok ok' : Prop} {a : α} {c : γ}

theorem Returns.congr (h : Returns data s ok a) (hiff : ok ↔ ok') : Returns data s ok' a :=
  ⟨fun hok => h.run_eq (hiff.2 hok), fun hok => h.run_none fun h' => hok (hiff.1 h')⟩

theorem Returns.bind (hs : Returns data s ok a) (hf : ok → Returns data (f a) ok' c) :
    Returns data (s >>= f) (ok ∧ ok') c := by
  constructor
  · intro h
    rw [run_bind, hs.run_eq h.1]
    exact (hf h.1).run_eq h.2
  · intro h
    rw [run_bind]
    by_cases hok : ok
    · rw [hs.run_eq hok]
      exact (hf hok).run_none fun hok' => h ⟨hok, hok'⟩
    · rw [hs.run_none hok]
      rfl

theorem Returns.readsBelow_bind (hs : Returns data s ok a) :
    ReadsBelow data n (s >>= f) ↔ ReadsBelow data n s ∧ (ok → ReadsBelow data n (f a)) := by
  rw [Transfer.readsBelow_bind]
  refine and_congr_right fun _ => ⟨fun h hok => h a (hs.run_eq hok), fun h a' ha => ?_⟩
  by_cases hok : ok
  · obtain rfl := Option.some.inj ((hs.run_eq hok).symm.trans ha)
    exact h hok
  · rw [hs.run_none hok] at ha
    cases ha

theorem Returns.writesBelow_bind (hs : Returns data s ok a) :
    WritesBelow data m (s >>= f) ↔ WritesBelow data m s ∧ (ok → WritesBelow data m (f a)) := by
  rw [Transfer.writesBelow_bind]
  refine and_congr_right fun _ => ⟨fun h hok => h a (hs.run_eq hok), fun h a' ha => ?_⟩
  by_cases hok : ok
  · obtain rfl := Option.some.inj ((hs.run_eq hok).symm.trans ha)
    exact h hok
  · rw [hs.run_none hok] at ha
    cases ha

theorem Returns.run_bind_eq_none (hs : Returns data s ok a) :
    (s >>= f).run data = none ↔ (ok → (f a).run data = none) := by
  rw [run_bind]
  constructor
  · intro h hok
    rw [hs.run_eq hok] at h
    exact h
  · intro h
    by_cases hok : ok
    · rw [hs.run_eq hok]
      exact h hok
    · rw [hs.run_none hok]
      rfl

theorem returns_pure (a : α) : Returns data (pure a : Transfer β α) True a :=
  ⟨fun _ => rfl, fun h => absurd trivial h⟩

namespace Safe

theorem congr (h : Safe data n m s ok a) (hiff : ok ↔ ok') : Safe data n m s ok' a :=
  ⟨h.returns.congr hiff, h.reads, h.writes⟩

theorem bind (hs : Safe data n m s ok a) (hf : ok → Safe data n m (f a) ok' c) :
    Safe data n m (s >>= f) (ok ∧ ok') c :=
  ⟨hs.returns.bind fun hok => (hf hok).returns,
    hs.returns.readsBelow_bind.2 ⟨hs.reads, fun hok => (hf hok).reads⟩,
    hs.returns.writesBelow_bind.2 ⟨hs.writes, fun hok => (hf hok).writes⟩⟩

theorem readsBelow_bind (hs : Safe data n m s ok a) :
    ReadsBelow data n (s >>= f) ↔ (ok → ReadsBelow data n (f a)) := by
  rw [hs.returns.readsBelow_bind, and_iff_right hs.reads]

theorem writesBelow_bind (hs : Safe data n m s ok a) :
    WritesBelow data m (s >>= f) ↔ (ok → WritesBelow data m (f a)) := by
  rw [hs.returns.writesBelow_bind, and_iff_right hs.writes]

/-- A step that never fails. -/
theorem seq (hs : Safe data n m s True a) (hf : Safe data n m (f a) ok c) :
    Safe data n m (s >>= f) ok c :=
  (hs.bind fun _ => hf).congr (iff_of_eq (true_and _))

/-- A check before steps that never fail. -/
theorem check (hs : Safe data n m s ok a) (hf : ok → Safe data n m (f a) True c) :
    Safe data n m (s >>= f) ok c :=
  (hs.bind hf).congr (iff_of_eq (and_true _))

theorem done (a : α) : Safe data n m (pure a : Transfer β α) True a :=
  ⟨returns_pure a, readsBelow_pure a, writesBelow_pure a⟩

theorem fail (a : α) : Safe data n m (Transfer.fail : Transfer β α) False a :=
  ⟨⟨False.elim, fun _ => rfl⟩, readsBelow_fail, writesBelow_fail⟩

theorem get {p : ℕ} (h : p < n) : Safe data n m (get p) True (data p) :=
  ⟨⟨fun _ => rfl, fun h => absurd trivial h⟩, readsBelow_get.2 h, writesBelow_get p⟩

theorem put {p : ℕ} (h : p < m) (b : β) : Safe data n m (put p b) True () :=
  ⟨⟨fun _ => rfl, fun h => absurd trivial h⟩, readsBelow_put p b, writesBelow_put.2 h⟩

theorem puts {p : ℕ} {bs : List β} (h : p + bs.length ≤ m) :
    Safe data n m (puts p bs) True () :=
  ⟨⟨fun _ => run_puts data p bs, fun h => absurd trivial h⟩, readsBelow_puts p bs,
    writesBelow_puts h⟩

theorem copy {src dst k : ℕ} (hsrc : src + k ≤ n) (hdst : dst + k ≤ m) :
    Safe data n m (copy src dst k) True () :=
  ⟨⟨fun _ => run_copy data src dst k, fun h => absurd trivial h⟩,
    readsBelow_copy.2 (.inr hsrc), writesBelow_copy hdst⟩

theorem require (c : Prop) [Decidable c] : Safe data n m (require c) c () :=
  ⟨⟨fun h => by rw [run_require, if_pos h], fun h => by rw [run_require, if_neg h]⟩,
    readsBelow_require c, writesBelow_require c⟩

theorem mono {m' : ℕ} (h : Safe data n m s ok a) (hle : m ≤ m') : Safe data n m' s ok a :=
  ⟨h.returns, h.reads, h.writes.mono hle⟩

theorem gets {β : Type v} {data : ℕ → β} {p k : ℕ} (h : p + k ≤ n) :
    Safe data n m (gets p k) True (Memory.load data p k) := by
  induction k generalizing p with
  | zero => exact Safe.done []
  | succ k ih =>
      rw [Memory.load_succ]
      exact (Safe.get (by omega)).seq ((ih (by omega)).seq (Safe.done _))

end Safe

/-! ## Computations that fail before they write -/

/-- If the computation fails, it has written nothing. -/
def FailsFirst (data : ℕ → β) (s : Transfer β α) : Prop := s.run data = none → s.writes data = []

theorem writes_bind_of_run (ha : s.run data = some a) :
    (s >>= f).writes data = s.writes data ++ (f a).writes data := by
  change (s.bind f).writes data = _
  induction s with
  | done a' =>
      obtain rfl := Option.some.inj ha
      rfl
  | fail => cases ha
  | read p k ih => exact ih (data p) ha
  | write p b s ih => exact congrArg ((p, b) :: ·) (ih ha)

theorem writes_bind_of_fail (h : s.run data = none) :
    (s >>= f).writes data = s.writes data := by
  change (s.bind f).writes data = _
  induction s with
  | done a' => cases h
  | fail => rfl
  | read p k ih => exact ih (data p) h
  | write p b s ih => exact congrArg ((p, b) :: ·) (ih h)

theorem failsFirst_of_run (h : s.run data = some a) : FailsFirst data s := fun hnone => by
  rw [h] at hnone
  cases hnone

/-- A step that writes nothing before one that fails first. -/
theorem FailsFirst.bind (hs : s.writes data = [])
    (hf : ∀ a, s.run data = some a → FailsFirst data (f a)) : FailsFirst data (s >>= f) := by
  intro hnone
  cases hrun : s.run data with
  | none => rw [writes_bind_of_fail hrun, hs]
  | some a =>
      rw [writes_bind_of_run hrun, hs, List.nil_append]
      refine hf a hrun ?_
      rw [run_bind, hrun] at hnone
      exact hnone

/-! ## The target afterwards -/

/-- What is in the target after the computation. -/
def target (data mem : ℕ → β) (s : Transfer β α) : ℕ → β :=
  (s.writes data).foldl (fun mem w => Function.update mem w.1 w.2) mem

variable {mem : ℕ → β}

theorem target_of_writes_nil (h : s.writes data = []) : s.target data mem = mem := by
  rw [target, h]
  rfl

theorem target_bind_of_run (ha : s.run data = some a) :
    (s >>= f).target data mem = (f a).target data (s.target data mem) := by
  rw [target, writes_bind_of_run ha, List.foldl_append]
  rfl

/-- A step that writes nothing. -/
theorem target_bind_of_quiet (hs : s.writes data = []) (ha : s.run data = some a) :
    (s >>= f).target data mem = (f a).target data mem := by
  rw [target_bind_of_run ha, target_of_writes_nil hs]

theorem target_puts (data mem : ℕ → β) (p : ℕ) (bs : List β) :
    (puts p bs).target data mem = Memory.store mem p bs := by
  induction bs generalizing p mem with
  | nil => exact (Memory.store_nil mem p).symm
  | cons b bs ih =>
      have hfirst : Function.update mem p b = Memory.store mem p [b] := by
        funext i
        by_cases hi : i = p
        · rw [hi, Function.update_self, Memory.store_self]
        · rw [Function.update_of_ne hi, Memory.store_of_outside]
          rw [List.length_singleton]
          omega
      have hsplit : Memory.store mem p (b :: bs) =
          Memory.store (Memory.store mem p [b]) (p + 1) bs := Memory.store_append mem p [b] bs
      rw [hsplit, ← hfirst]
      exact ih (Function.update mem p b) (p + 1)

theorem target_copy (data mem : ℕ → β) (src dst k : ℕ) :
    (copy src dst k).target data mem = Memory.store mem dst (Memory.load data src k) := by
  have hwrites : (copy src dst k).writes data =
      (puts dst (Memory.load data src k)).writes data := by
    induction k generalizing src dst with
    | zero => rfl
    | succ k ih =>
        rw [Memory.load_succ]
        exact congrArg ((dst, data src) :: ·) (ih (src + 1) (dst + 1))
  rw [← target_puts data mem dst (Memory.load data src k), target, target, hwrites]

/-- What is in a cell afterwards depends on no other cell of the target, and not on the target at
all if the cell is overwritten. -/
theorem target_congr {mem' : ℕ → β} {i : ℕ}
    (h : mem i = mem' i ∨ ∃ b, (i, b) ∈ s.writes data) :
    s.target data mem i = s.target data mem' i := by
  unfold target
  generalize s.writes data = ws at h
  induction ws generalizing mem mem' with
  | nil => exact h.resolve_right fun ⟨b, hb⟩ => List.not_mem_nil hb
  | cons w ws ih =>
      rw [List.foldl_cons, List.foldl_cons]
      apply ih
      by_cases hi : i = w.1
      · left
        rw [hi, Function.update_self, Function.update_self]
      · rw [Function.update_of_ne hi, Function.update_of_ne hi]
        refine h.imp_right fun ⟨b, hb⟩ => ⟨b, (List.mem_cons.1 hb).resolve_left ?_⟩
        rintro rfl
        exact hi rfl

/-- Sources that agree where one of them is read. -/
theorem run_congr {data' : ℕ → β} (h : ∀ i ∈ s.reads data, data i = data' i) :
    s.run data = s.run data' ∧ s.writes data = s.writes data' := by
  induction s with
  | done a => exact ⟨rfl, rfl⟩
  | fail => exact ⟨rfl, rfl⟩
  | read p k ih =>
      obtain ⟨hp, htail⟩ := List.forall_mem_cons.1 h
      have hk := ih (data p) htail
      rw [run, writes, run, writes, ← hp]
      exact hk
  | write p b s ih =>
      obtain ⟨hrun, hwrites⟩ := ih h
      exact ⟨hrun, congrArg ((p, b) :: ·) hwrites⟩

theorem run_bind_eq_some {b : γ} :
    (s >>= f).run data = some b ↔ ∃ a, s.run data = some a ∧ (f a).run data = some b := by
  rw [run_bind, Option.bind_eq_some_iff]

/-- What a computation that succeeds has returned. -/
theorem Returns.of_run {a' : α} (h : Returns data s ok a) (hrun : s.run data = some a') :
    ok ∧ a' = a := by
  by_cases hok : ok
  · rw [h.run_eq hok] at hrun
    exact ⟨hok, (Option.some.inj hrun).symm⟩
  · rw [h.run_none hok] at hrun
    cases hrun

/-! ## Cells that are overwritten -/

/-- If the computation returns `a`, it has written all of `cells a`. -/
def Covers (data : ℕ → β) (s : Transfer β α) (cells : α → ℕ → Prop) : Prop :=
  ∀ a, s.run data = some a → ∀ i, cells a i → ∃ b, (i, b) ∈ s.writes data

variable {cells : α → ℕ → Prop} {cells' : γ → ℕ → Prop}

/-- What is in a cell that is overwritten does not depend on the target. -/
theorem Covers.target_eq (h : Covers data s cells) (hrun : s.run data = some a) {i : ℕ}
    (hi : cells a i) (mem mem' : ℕ → β) : s.target data mem i = s.target data mem' i :=
  target_congr (.inr (h a hrun i hi))

theorem Covers.mono {few : α → ℕ → Prop} (h : Covers data s cells)
    (hsub : ∀ a, s.run data = some a → ∀ i, few a i → cells a i) : Covers data s few :=
  fun a hrun i hi => h a hrun i (hsub a hrun i hi)

/-- The second computation has to write what the first one has not. -/
theorem Covers.bind (hs : Covers data s cells)
    (hf : ∀ a, s.run data = some a → Covers data (f a) fun b i => cells' b i ∧ ¬ cells a i) :
    Covers data (s >>= f) cells' := by
  intro b hrun i hi
  obtain ⟨a, ha, hb⟩ := run_bind_eq_some.1 hrun
  rw [writes_bind_of_run ha]
  by_cases hcells : cells a i
  · obtain ⟨c, hc⟩ := hs a ha i hcells
    exact ⟨c, List.mem_append_left _ hc⟩
  · obtain ⟨c, hc⟩ := hf a ha b hb i ⟨hi, hcells⟩
    exact ⟨c, List.mem_append_right _ hc⟩

/-- A step whose writes do not matter. -/
theorem Covers.after (hf : ∀ a, s.run data = some a → Covers data (f a) cells') :
    Covers data (s >>= f) cells' := by
  intro b hrun i hi
  obtain ⟨a, ha, hb⟩ := run_bind_eq_some.1 hrun
  obtain ⟨c, hc⟩ := hf a ha b hb i hi
  rw [writes_bind_of_run ha]
  exact ⟨c, List.mem_append_right _ hc⟩

theorem covers_pure (h : ∀ i, ¬ cells a i) : Covers data (pure a : Transfer β α) cells := by
  intro a' ha i hi
  obtain rfl := Option.some.inj ha
  exact absurd hi (h i)

theorem covers_fail : Covers data (fail : Transfer β α) cells := by
  intro a ha
  cases ha

theorem covers_put (p : ℕ) (b : β) : Covers data (put p b) fun _ i => i = p := by
  rintro _ - i rfl
  exact ⟨b, List.mem_singleton_self _⟩

theorem covers_puts (p : ℕ) (bs : List β) :
    Covers data (puts p bs) fun _ i => p ≤ i ∧ i < p + bs.length := by
  intro a hrun i hi
  induction bs generalizing p with
  | nil =>
      rw [List.length_nil] at hi
      omega
  | cons b bs ih =>
      rw [List.length_cons] at hi
      by_cases hp : i = p
      · exact ⟨b, hp ▸ List.mem_cons_self⟩
      · obtain ⟨c, hc⟩ := ih (p + 1) (run_puts data (p + 1) bs) (by omega)
        exact ⟨c, List.mem_cons_of_mem _ hc⟩

theorem covers_copy (src dst k : ℕ) :
    Covers data (copy src dst k) fun _ i => dst ≤ i ∧ i < dst + k := by
  intro a hrun i hi
  induction k generalizing src dst with
  | zero => omega
  | succ k ih =>
      by_cases hp : i = dst
      · exact ⟨data src, hp ▸ List.mem_cons_self⟩
      · obtain ⟨c, hc⟩ := ih (src + 1) (dst + 1) (run_copy data (src + 1) (dst + 1) k) (by omega)
        exact ⟨c, List.mem_cons_of_mem _ hc⟩

end Transfer

end Reads
