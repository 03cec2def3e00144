import Den2ne.Reads.Transfer

/-!
# Computations that stay within bounds

A `Transfer` is `Bounded` by `n` and `m` if it reads below `n` and writes below `m`, and has
written nothing if it fails. A step that only reads, and only below `n`, is `Quiet`; what comes
after it decides. The rules take a computation apart step by step, so that what is left are
the conditions on the reads and writes themselves. A computation `Stores` if all it does is to check
and then to store cells at one place.
-/

namespace Reads

namespace Transfer

variable {β α γ : Type} {data : ℕ → β} {n m : ℕ} {s : Transfer β α}
  {f : α → Transfer β γ}

/-- The computation reads below `n`, writes below `m`, and writes nothing if it fails. -/
structure Bounded (data : ℕ → β) (n m : ℕ) (s : Transfer β α) : Prop where
  reads : ReadsBelow data n s
  writes : WritesBelow data m s
  failsFirst : FailsFirst data s

/-- The computation reads below `n` and writes nothing. -/
structure Quiet (data : ℕ → β) (n : ℕ) (s : Transfer β α) : Prop where
  reads : ReadsBelow data n s
  writes : s.writes data = []

theorem Quiet.writesBelow (hs : Quiet data n s) : WritesBelow data m s := by
  unfold WritesBelow
  rw [hs.writes]
  exact nofun

/-- Behind a quiet step the rest decides. -/
theorem Quiet.bounded_bind (hs : Quiet data n s) :
    Bounded data n m (s >>= f) ↔ ∀ a, s.run data = some a → Bounded data n m (f a) := by
  constructor
  · intro h a ha
    refine ⟨(readsBelow_bind.1 h.reads).2 a ha, (writesBelow_bind.1 h.writes).2 a ha,
      fun hnone => ?_⟩
    have hwrites := h.failsFirst (by rw [run_bind, ha]; exact hnone)
    rwa [writes_bind_of_run ha, hs.writes, List.nil_append] at hwrites
  · intro h
    exact ⟨readsBelow_bind.2 ⟨hs.reads, fun a ha => (h a ha).reads⟩,
      writesBelow_bind.2 ⟨hs.writesBelow, fun a ha => (h a ha).writes⟩,
      FailsFirst.bind hs.writes fun a ha => (h a ha).failsFirst⟩

theorem Quiet.bind (hs : Quiet data n s) (hf : ∀ a, s.run data = some a → Quiet data n (f a)) :
    Quiet data n (s >>= f) := by
  refine ⟨readsBelow_bind.2 ⟨hs.reads, fun a ha => (hf a ha).reads⟩, ?_⟩
  cases hrun : s.run data with
  | none => rw [writes_bind_of_fail hrun, hs.writes]
  | some a => rw [writes_bind_of_run hrun, hs.writes, (hf a hrun).writes, List.append_nil]

theorem quiet_pure (a : α) : Quiet data n (pure a) := ⟨readsBelow_pure a, rfl⟩

theorem quiet_require (c : Prop) [Decidable c] : Quiet data n (require c) := by
  refine ⟨readsBelow_require c, ?_⟩
  unfold require
  split <;> rfl

theorem run_require_eq_some {c : Prop} [Decidable c] {u : Unit} :
    (require c : Transfer β Unit).run data = some u ↔ c := by
  rw [run_require]
  constructor
  · intro h
    by_contra hc
    rw [if_neg hc] at h
    cases h
  · exact fun hc => if_pos hc

theorem writes_gets (p k : ℕ) : (gets p k).writes data = [] := by
  induction k generalizing p with
  | zero => rfl
  | succ k ih =>
      change ((gets (p + 1) k) >>= fun bs => done (data p :: bs)).writes data = []
      cases hrun : (gets (p + 1) k).run data with
      | none => rw [writes_bind_of_fail hrun, ih]
      | some bs =>
          rw [writes_bind_of_run hrun, ih]
          rfl

theorem quiet_gets {p k : ℕ} (h : p + k ≤ n) : Quiet data n (gets p k) :=
  ⟨(Safe.gets (m := 0) h).reads, writes_gets p k⟩

/-! ## Rules -/

@[simp] theorem bounded_pure (a : α) : Bounded data n m (pure a) :=
  ⟨readsBelow_pure a, writesBelow_pure a, failsFirst_of_run (run_pure data a)⟩

@[simp] theorem bounded_fail : Bounded data n m (fail : Transfer β α) :=
  ⟨readsBelow_fail, nofun, fun _ => rfl⟩

theorem bounded_require_bind {c : Prop} [Decidable c] {f : Unit → Transfer β γ} :
    Bounded data n m (require c >>= f) ↔ (c → Bounded data n m (f ())) := by
  rw [(quiet_require c).bounded_bind]
  exact ⟨fun h hc => h () (run_require_eq_some.2 hc), fun h u hu => h (run_require_eq_some.1 hu)⟩

theorem readsBelow_gets {p k : ℕ} :
    ReadsBelow data n (gets p k) ↔ k = 0 ∨ p + k ≤ n := by
  induction k generalizing p with
  | zero => exact iff_of_true (readsBelow_pure []) (.inl rfl)
  | succ k ih =>
      have htail : ReadsBelow data n (gets (p + 1) k >>= fun bs => done (data p :: bs)) ↔
          k = 0 ∨ p + 1 + k ≤ n := by
        rw [readsBelow_bind, ih, and_iff_left]
        exact fun _ _ => readsBelow_pure _
      unfold ReadsBelow at htail ⊢
      change (∀ i ∈ p :: (gets (p + 1) k >>= fun bs => done (data p :: bs)).reads data, i < n) ↔ _
      rw [List.forall_mem_cons, htail]
      omega

theorem writesBelow_puts_iff {p : ℕ} {bs : List β} :
    WritesBelow data m (puts p bs) ↔ bs = [] ∨ p + bs.length ≤ m := by
  induction bs generalizing p with
  | nil => exact iff_of_true nofun (.inl rfl)
  | cons b bs ih =>
      have htail : WritesBelow data m (puts (p + 1) bs) ↔ _ := ih
      unfold WritesBelow at htail ⊢
      rw [puts, writes, List.forall_mem_cons, htail, List.length_cons]
      constructor
      · rintro ⟨hp, rfl | hle⟩
        · exact .inr hp
        · exact .inr (by omega)
      · rintro (h | h)
        · cases h
        · exact ⟨by omega, .inr (by omega)⟩

theorem bounded_puts {p : ℕ} {bs : List β} :
    Bounded data n m (puts p bs) ↔ bs = [] ∨ p + bs.length ≤ m := by
  rw [← writesBelow_puts_iff]
  exact ⟨Bounded.writes,
    fun h => ⟨readsBelow_puts p bs, h, failsFirst_of_run (run_puts data p bs)⟩⟩

theorem bounded_copy {src dst k : ℕ} (hdst : dst + k ≤ m) :
    Bounded data n m (copy src dst k) ↔ k = 0 ∨ src + k ≤ n := by
  rw [← readsBelow_copy]
  exact ⟨Bounded.reads,
    fun h => ⟨h, writesBelow_copy hdst, failsFirst_of_run (run_copy data src dst k)⟩⟩

/-! ## Computations that store -/

/-- The computation fails and writes nothing, or it stores cells at a place with `P`. -/
def Stores (data : ℕ → β) (s : Transfer β Unit) (P : ℕ → List β → Prop) : Prop :=
  (s.run data = none ∧ s.writes data = []) ∨
    ∃ p bs, P p bs ∧ s.run data = some () ∧ ∀ mem, s.target data mem = Memory.store mem p bs

variable {P Q : ℕ → List β → Prop}

theorem Stores.mono {s : Transfer β Unit} (h : Stores data s P) (hPQ : ∀ p bs, P p bs → Q p bs) :
    Stores data s Q := by
  rcases h with h | ⟨p, bs, hP, h⟩
  · exact .inl h
  · exact .inr ⟨p, bs, hPQ p bs hP, h⟩

theorem stores_puts {p : ℕ} {bs : List β} (h : P p bs) : Stores data (puts p bs) P :=
  .inr ⟨p, bs, h, run_puts data p bs, fun mem => target_puts data mem p bs⟩

theorem stores_bind {s : Transfer β α} {f : α → Transfer β Unit} (hs : s.writes data = [])
    (hf : ∀ a, s.run data = some a → Stores data (f a) P) : Stores data (s >>= f) P := by
  cases hrun : s.run data with
  | none => exact .inl ⟨by rw [run_bind, hrun]; rfl, by rw [writes_bind_of_fail hrun, hs]⟩
  | some a =>
      have hbind : (s >>= f).run data = (f a).run data := by rw [run_bind, hrun]; rfl
      rcases hf a hrun with ⟨hnone, hwrites⟩ | ⟨p, bs, h, hsome, htarget⟩
      · exact .inl ⟨hbind.trans hnone, by rw [writes_bind_of_run hrun, hs, hwrites]; rfl⟩
      · exact .inr ⟨p, bs, h, hbind.trans hsome,
          fun mem => (target_bind_of_quiet hs hrun).trans (htarget mem)⟩

theorem stores_require_bind {c : Prop} [Decidable c] {f : Unit → Transfer β Unit}
    (hf : c → Stores data (f ()) P) : Stores data (require c >>= f) P :=
  stores_bind (quiet_require (n := 0) c).writes fun _ hu => hf (run_require_eq_some.1 hu)

end Transfer

end Reads
