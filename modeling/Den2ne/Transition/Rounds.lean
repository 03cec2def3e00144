import Den2ne.Transition.Run
import Mathlib.Data.List.Basic

/-!
# Runs in rounds

A state has parts, each at a depth, that are to settle: `Ok v s` says that the part `v` has. A part
that has settled stays so if all parts of smaller depth have; and then an event that is for `v`
settles it. So each round, a run with an event for every part, settles the parts of one more depth,
from any state and in whatever order the events of a round come.
-/

namespace Transition

variable {σ ε ν : Type*} {step : ε → σ → Option σ} {ok : σ → ε → Prop} {I : σ → Prop}
  {depth : ν → ℕ} {Ok : ν → σ → Prop} {isFor : ε → ν → Prop} {es fs : List ε} {s s' : σ} {e : ε}
  {v : ν} {n : ℕ}

theorem run_append_eq_some :
    run step (es ++ fs) s = some s' ↔ ∃ m, run step es s = some m ∧ run step fs m = some s' := by
  induction es generalizing s with
  | nil => simp
  | cons e es ih =>
      simp only [List.cons_append, run_cons_eq_some, ih]
      constructor
      · rintro ⟨t, ht, m, hm, hrest⟩
        exact ⟨m, ⟨t, ht, hm⟩, hrest⟩
      · rintro ⟨m, ⟨t, ht, hm⟩, hrest⟩
        exact ⟨t, ht, m, hm, hrest⟩

/-- What the events of a run preserve, each in any state, holds at its end. -/
theorem run_invariant_of_mem (hstep : ∀ s e s', e ∈ es → I s → step e s = some s' → I s')
    (hI : I s) (hrun : run step es s = some s') : I s' := by
  induction es generalizing s with
  | nil =>
      rw [run_nil, Option.some.injEq] at hrun
      exact hrun ▸ hI
  | cons e es ih =>
      obtain ⟨m, hm, hrest⟩ := run_cons_eq_some.1 hrun
      exact ih (fun s e s' he => hstep s e s' (List.mem_cons_of_mem _ he))
        (hstep s e m List.mem_cons_self hI hm) hrest

/-- Events that are allowed in every state. -/
theorem meets_of_forall (h : ∀ e ∈ es, ∀ s, ok s e) : Meets step ok es s := by
  induction es generalizing s with
  | nil => trivial
  | cons e es ih =>
      cases hs : step e s with
      | none => simp [Meets, hs]
      | some m =>
          exact (meets_cons hs).2 ⟨h e List.mem_cons_self s,
            ih fun e he => h e (List.mem_cons_of_mem _ he)⟩

/-- The parts above `n` have settled. -/
def Level (depth : ν → ℕ) (Ok : ν → σ → Prop) (n : ℕ) (s : σ) : Prop := ∀ v, depth v < n → Ok v s

/-- How the allowed events settle the parts. -/
structure Settling (step : ε → σ → Option σ) (ok : σ → ε → Prop) (I : σ → Prop) (depth : ν → ℕ)
    (Ok : ν → σ → Prop) (isFor : ε → ν → Prop) : Prop where
  inv : ∀ {s e s'}, I s → ok s e → step e s = some s' → I s'
  keep : ∀ {s e s' v}, I s → ok s e → step e s = some s' → Level depth Ok (depth v) s →
    Ok v s → Ok v s'
  settle : ∀ {s e s' v}, I s → ok s e → step e s = some s' → Level depth Ok (depth v) s →
    isFor e v → Ok v s'

namespace Settling

variable (h : Settling step ok I depth Ok isFor)

include h

theorem level_step (hI : I s) (hok : ok s e) (hs : step e s = some s')
    (hlevel : Level depth Ok n s) : Level depth Ok n s' := fun v hv =>
  h.keep hI hok hs (fun u hu => hlevel u (Nat.lt_trans hu hv)) (hlevel v hv)

theorem inv_run (hI : I s) (hok : Meets step ok es s) (hrun : run step es s = some s') : I s' :=
  run_invariant (fun _ _ _ => h.inv) hI hok hrun

theorem ok_run (hI : I s) (hok : Meets step ok es s) (hrun : run step es s = some s')
    (hlevel : Level depth Ok (depth v) s) (hv : Ok v s) : Ok v s' := by
  have hboth := run_invariant (I := fun s => I s ∧ Level depth Ok (depth v) s ∧ Ok v s)
    (fun s e s' hs hok he => ⟨h.inv hs.1 hok he, h.level_step hs.1 hok he hs.2.1,
      h.keep hs.1 hok he hs.2.1 hs.2.2⟩)
    ⟨hI, hlevel, hv⟩ hok hrun
  exact hboth.2.2

/-- A run with an event for the part settles it. -/
theorem ok_run_of_mem (hI : I s) (hok : Meets step ok es s) (hrun : run step es s = some s')
    (hlevel : Level depth Ok (depth v) s) (hmem : ∃ e ∈ es, isFor e v) : Ok v s' := by
  induction es generalizing s with
  | nil => simp at hmem
  | cons e es ih =>
      obtain ⟨m, hm, hrest⟩ := run_cons_eq_some.1 hrun
      obtain ⟨hhead, htail⟩ := (meets_cons hm).1 hok
      have hIm := h.inv hI hhead hm
      have hlevel' := h.level_step hI hhead hm hlevel
      obtain ⟨e', he', hfor⟩ := hmem
      rcases List.mem_cons.1 he' with rfl | he'
      · exact h.ok_run hIm htail hrest hlevel' (h.settle hI hhead hm hlevel hfor)
      · exact ih hIm htail hrest hlevel' ⟨e', he', hfor⟩

/-- A round settles the parts of one more depth. -/
theorem level_round (hI : I s) (hok : Meets step ok es s) (hrun : run step es s = some s')
    (hround : ∀ v, (∀ s, I s → Ok v s) ∨ ∃ e ∈ es, isFor e v) (hlevel : Level depth Ok n s) :
    Level depth Ok (n + 1) s' := by
  intro v hv
  have hbelow : Level depth Ok (depth v) s := fun u hu => hlevel u (by omega)
  rcases hround v with hfixed | hmem
  · exact hfixed s' (h.inv_run hI hok hrun)
  · exact h.ok_run_of_mem hI hok hrun hbelow hmem

/-- As many rounds as the parts are deep settle all of them. -/
theorem level_rounds {rounds : List (List ε)} (hI : I s) (hok : Meets step ok rounds.flatten s)
    (hrun : run step rounds.flatten s = some s')
    (hround : ∀ es ∈ rounds, ∀ v, (∀ s, I s → Ok v s) ∨ ∃ e ∈ es, isFor e v)
    (hlevel : Level depth Ok n s) : Level depth Ok (n + rounds.length) s' := by
  induction rounds generalizing s n with
  | nil =>
      rw [List.flatten_nil, run_nil, Option.some.injEq] at hrun
      exact hrun ▸ hlevel
  | cons es rounds ih =>
      rw [List.flatten_cons] at hok hrun
      obtain ⟨m, hm, hrest⟩ := run_append_eq_some.1 hrun
      obtain ⟨hhead, htail⟩ := (meets_append hm).1 hok
      have hnext := h.level_round hI hhead hm (hround es List.mem_cons_self) hlevel
      have hall := ih (h.inv_run hI hhead hm) htail hrest
        (fun es hes => hround es (List.mem_cons_of_mem _ hes)) hnext
      rw [List.length_cons]
      exact (show n + (rounds.length + 1) = n + 1 + rounds.length by omega) ▸ hall

end Settling

end Transition
