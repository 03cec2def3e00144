import Mathlib.Order.Basic

/-!
# Runs of a partial transition function

`step : ε → σ → Option σ` is a deterministic step on states `σ` under events
`ε`, with all nondeterminism in the event; `none` is an event that cannot
happen, or whose effect is undefined. `run step es s` takes the events of `es`
in order. A guarded run, `Meets step ok es s`, has every step in a state and
under an event that `ok` allows; `Always step P es s` says that `P` holds of
every state the run passes through.

The rules below are the only inductions over runs in the development:
`run_invariant` and `always_of_meets` for what an allowed step preserves
(`run_invariant_of_step` and `always_of_step` where every step is allowed),
`run_ranked` for what happens after a bounded number of events, and
`always_iff_meets` for a state property that one step keeps exactly when `ok`
allows it (`always_iff_meets_of_meets` in the runs of a domain).
-/

namespace Transition

variable {σ ε : Type*}

/-- Take the events in order; `none` as soon as one of them cannot be taken. -/
def run (step : ε → σ → Option σ) : List ε → σ → Option σ
  | [], s => some s
  | e :: es, s => (step e s).bind (run step es)

/-- Every step that the run takes is allowed by `ok`. -/
def Meets (step : ε → σ → Option σ) (ok : σ → ε → Prop) : List ε → σ → Prop
  | [], _ => True
  | e :: es, s =>
      match step e s with
      | none => True
      | some s' => ok s e ∧ Meets step ok es s'

/-- Every state that the run passes through satisfies `P`. -/
def Always (step : ε → σ → Option σ) (P : σ → Prop) : List ε → σ → Prop
  | [], s => P s
  | e :: es, s => P s ∧
      match step e s with
      | none => True
      | some s' => Always step P es s'

variable {step : ε → σ → Option σ}

@[simp] theorem run_nil (s : σ) : run step [] s = some s := rfl

theorem run_cons (e : ε) (es : List ε) (s : σ) :
    run step (e :: es) s = (step e s).bind (run step es) := rfl

theorem run_cons_eq_some {e : ε} {es : List ε} {s s' : σ} :
    run step (e :: es) s = some s' ↔
      ∃ m, step e s = some m ∧ run step es m = some s' := by
  rw [run_cons, Option.bind_eq_some_iff]

instance decidableMeets (ok : σ → ε → Prop) [∀ s e, Decidable (ok s e)] :
    ∀ (es : List ε) (s : σ), Decidable (Meets step ok es s)
  | [], _ => inferInstanceAs (Decidable True)
  | e :: es, s =>
      match h : step e s with
      | none => decidable_of_iff True (by simp [Meets, h])
      | some s' =>
          have := decidableMeets ok es s'
          decidable_of_iff (ok s e ∧ Meets step ok es s') (by simp [Meets, h])

instance decidableAlways (P : σ → Prop) [DecidablePred P] :
    ∀ (es : List ε) (s : σ), Decidable (Always step P es s)
  | [], s => inferInstanceAs (Decidable (P s))
  | e :: es, s =>
      match h : step e s with
      | none => decidable_of_iff (P s) (by simp [Always, h])
      | some s' =>
          have := decidableAlways P es s'
          decidable_of_iff (P s ∧ Always step P es s') (by simp [Always, h])

theorem meets_cons {ok : σ → ε → Prop} {e : ε} {es : List ε} {s s' : σ}
    (hs : step e s = some s') :
    Meets step ok (e :: es) s ↔ ok s e ∧ Meets step ok es s' := by
  simp [Meets, hs]

/-- A guarded run, and then another one from where it ends. -/
theorem meets_append {ok : σ → ε → Prop} {es fs : List ε} {s m : σ}
    (h : run step es s = some m) :
    Meets step ok (es ++ fs) s ↔ Meets step ok es s ∧ Meets step ok fs m := by
  induction es generalizing s with
  | nil =>
      rw [run_nil, Option.some.injEq] at h
      simp [Meets, h]
  | cons e es ih =>
      obtain ⟨s', hs', hrest⟩ := run_cons_eq_some.1 h
      rw [List.cons_append, meets_cons hs', meets_cons hs', ih hrest, and_assoc]

theorem meets_and {ok ok' : σ → ε → Prop} {es : List ε} {s : σ} (h : Meets step ok es s)
    (h' : Meets step ok' es s) : Meets step (fun s e => ok s e ∧ ok' s e) es s := by
  induction es generalizing s with
  | nil => trivial
  | cons e es ih =>
      cases hs : step e s with
      | none => simp [Meets, hs]
      | some s' =>
          rw [meets_cons hs] at h h' ⊢
          exact ⟨⟨h.1, h'.1⟩, ih h.2 h'.2⟩

/-- Let allowed steps keep `I`, and be allowed by `ok'` too. -/
theorem meets_of_meets {ok ok' : σ → ε → Prop} {I : σ → Prop}
    (hstep : ∀ s e s', I s → ok s e → step e s = some s' → ok' s e ∧ I s') {es : List ε} {s : σ}
    (h₀ : I s) (h : Meets step ok es s) : Meets step ok' es s := by
  induction es generalizing s with
  | nil => trivial
  | cons e es ih =>
      cases hs : step e s with
      | none => simp [Meets, hs]
      | some s' =>
          rw [meets_cons hs] at h ⊢
          obtain ⟨hok, hI⟩ := hstep s e s' h₀ h.1 hs
          exact ⟨hok, ih hI h.2⟩

theorem always_head {P : σ → Prop} {es : List ε} {s : σ} (h : Always step P es s) : P s := by
  cases es with
  | nil => exact h
  | cons e es => exact h.1

theorem always_last {P : σ → Prop} {es : List ε} {s s' : σ} (h : Always step P es s)
    (hrun : run step es s = some s') : P s' := by
  induction es generalizing s with
  | nil =>
      rw [run_nil, Option.some.injEq] at hrun
      exact hrun ▸ h
  | cons e es ih =>
      obtain ⟨m, hm, hrest⟩ := run_cons_eq_some.1 hrun
      have htail := h.2
      rw [hm] at htail
      exact ih htail hrest

/-- What every allowed step preserves holds at the end of a guarded run. -/
theorem run_invariant {ok : σ → ε → Prop} {I : σ → Prop}
    (hstep : ∀ s e s', I s → ok s e → step e s = some s' → I s')
    {es : List ε} {s s' : σ} (h₀ : I s) (hok : Meets step ok es s)
    (hrun : run step es s = some s') : I s' := by
  induction es generalizing s with
  | nil =>
      rw [run_nil, Option.some.injEq] at hrun
      exact hrun ▸ h₀
  | cons e es ih =>
      obtain ⟨m, hm, hrest⟩ := run_cons_eq_some.1 hrun
      obtain ⟨hhead, htail⟩ := (meets_cons hm).1 hok
      exact ih (hstep s e m h₀ hhead hm) htail hrest

/-- The unguarded case of `run_invariant`. -/
theorem run_invariant_of_step {I : σ → Prop}
    (hstep : ∀ s e s', I s → step e s = some s' → I s')
    {es : List ε} {s s' : σ} (h₀ : I s) (hrun : run step es s = some s') :
    I s' := by
  induction es generalizing s with
  | nil =>
      rw [run_nil, Option.some.injEq] at hrun
      exact hrun ▸ h₀
  | cons e es ih =>
      obtain ⟨m, hm, hrest⟩ := run_cons_eq_some.1 hrun
      exact ih (hstep s e m h₀ hm) hrest

/-- What is waited for, `D`, stays; until it is there, a state has a rank, which no step
raises and which every event that `p` counts lowers. So the counted events of a run are
at most the rank at its start. -/
theorem run_ranked {D : σ → Prop} {W : ℕ → σ → Prop} {p : ε → Bool}
    (hdone : ∀ s e s', D s → step e s = some s' → D s')
    (hstep : ∀ m s e s', W m s → step e s = some s' →
      D s' ∨ ∃ m', W m' s' ∧ m' + (if p e then 1 else 0) ≤ m)
    {es : List ε} {s s' : σ} {m : ℕ} (h₀ : W m s) (hrun : run step es s = some s') :
    D s' ∨ ∃ m', W m' s' ∧ m' + es.countP p ≤ m := by
  induction es generalizing s m with
  | nil =>
      rw [run_nil, Option.some.injEq] at hrun
      exact .inr ⟨m, hrun ▸ h₀, Nat.le_refl m⟩
  | cons e es ih =>
      obtain ⟨s₁, hs₁, hrest⟩ := run_cons_eq_some.1 hrun
      rcases hstep m s e s₁ h₀ hs₁ with hd | ⟨m₁, hw, hle⟩
      · exact .inl (run_invariant_of_step hdone hd hrest)
      · rcases ih hw hrest with hd | ⟨m', hw', hle'⟩
        · exact .inl hd
        · refine .inr ⟨m', hw', ?_⟩
          rw [List.countP_cons]
          omega

/-- In a run within `dom`, let allowed steps keep `I`, and let a step from a
state with `P` keep `P` exactly when `ok` allows it. Then `P` holds all along
the run exactly when every step of it is allowed. -/
theorem always_iff_meets_of_meets {dom ok : σ → ε → Prop} {I P : σ → Prop}
    (hinv : ∀ s e s', I s → P s → dom s e → ok s e → step e s = some s' → I s')
    (hiff : ∀ s e s', I s → P s → dom s e → step e s = some s' → (P s' ↔ ok s e))
    {es : List ε} {s : σ} (h₀ : I s) (hP : P s) (hdom : Meets step dom es s) :
    Always step P es s ↔ Meets step ok es s := by
  induction es generalizing s with
  | nil => simp [Always, Meets, hP]
  | cons e es ih =>
      cases h : step e s with
      | none => simp [Always, Meets, h, hP]
      | some s' =>
          obtain ⟨hhead, htail⟩ := (meets_cons h).1 hdom
          simp only [Always, Meets, h, hP, true_and]
          constructor
          · intro hall
            have hok := (hiff s e s' h₀ hP hhead h).1 (always_head hall)
            have hinv' := hinv s e s' h₀ hP hhead hok h
            exact ⟨hok, (ih hinv' (always_head hall) htail).1 hall⟩
          · intro hmeets
            have hP' := (hiff s e s' h₀ hP hhead h).2 hmeets.1
            exact (ih (hinv s e s' h₀ hP hhead hmeets.1 h) hP' htail).2 hmeets.2

theorem meets_true (es : List ε) (s : σ) : Meets step (fun _ _ => True) es s := by
  induction es generalizing s with
  | nil => trivial
  | cons e es ih =>
      cases h : step e s with
      | none => simp [Meets, h]
      | some s' => exact (meets_cons h).2 ⟨trivial, ih s'⟩

/-- Let allowed steps keep `I`, and let a step from a state with `P` keep `P`
exactly when `ok` allows it. Then `P` holds all along the run exactly when
every step of it is allowed. -/
theorem always_iff_meets {ok : σ → ε → Prop} {I P : σ → Prop}
    (hinv : ∀ s e s', I s → P s → ok s e → step e s = some s' → I s')
    (hiff : ∀ s e s', I s → P s → step e s = some s' → (P s' ↔ ok s e))
    {es : List ε} {s : σ} (h₀ : I s) (hP : P s) :
    Always step P es s ↔ Meets step ok es s :=
  always_iff_meets_of_meets (fun s e s' hI hP _ => hinv s e s' hI hP)
    (fun s e s' hI hP _ => hiff s e s' hI hP) h₀ hP (meets_true es s)

/-- What allowed steps preserve holds all along a guarded run. -/
theorem always_of_meets {ok : σ → ε → Prop} {I P : σ → Prop}
    (hstep : ∀ s e s', I s → ok s e → step e s = some s' → I s')
    (hP : ∀ s, I s → P s) {es : List ε} {s : σ} (h₀ : I s) (hok : Meets step ok es s) :
    Always step P es s := by
  induction es generalizing s with
  | nil => exact hP s h₀
  | cons e es ih =>
      refine ⟨hP s h₀, ?_⟩
      cases h : step e s with
      | none => trivial
      | some s' =>
          obtain ⟨hhead, htail⟩ := (meets_cons h).1 hok
          exact ih (hstep s e s' h₀ hhead h) htail

/-- The unguarded case of `always_of_meets`. -/
theorem always_of_step {I P : σ → Prop} (hstep : ∀ s e s', I s → step e s = some s' → I s')
    (hP : ∀ s, I s → P s) (es : List ε) {s : σ} (h₀ : I s) : Always step P es s := by
  induction es generalizing s with
  | nil => exact hP s h₀
  | cons e es ih =>
      refine ⟨hP s h₀, ?_⟩
      cases h : step e s with
      | none => trivial
      | some s' => exact ih (hstep s e s' h₀ h)

end Transition
