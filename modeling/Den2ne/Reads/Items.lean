import Den2ne.Reads.Transfer
import Mathlib.Data.PNat.Basic

/-!
# Loops over items

A memory holds items one behind the other, and each of them says how long it is. `Items` are the
items from one place to another one together with what they do to a value; `Leads` forgets the
value. `advance` is the loop that takes one item after the other while the place lies below a
bound. It always goes on, so it ends; where a round is described by an item, so is the loop.
-/

namespace Reads

section Items

variable {α : Type*} {ok ok' : ℕ → Prop} {len : ℕ → ℕ+} {f : ℕ → α → α} {i j k : ℕ}
  {a b : α}

/-- From `i` to `j` there are items that are `ok`, and together they take `a` to `b`. -/
inductive Items (ok : ℕ → Prop) (len : ℕ → ℕ+) (f : ℕ → α → α) : ℕ → α → ℕ → α → Prop
  | nil (i : ℕ) (a : α) : Items ok len f i a i a
  | cons {i j : ℕ} {a b : α} (hok : ok i) (hrest : Items ok len f (i + len i) (f i a) j b) :
      Items ok len f i a j b

/-- From `i` to `j` there are items that are `ok`. -/
def Leads (ok : ℕ → Prop) (len : ℕ → ℕ+) (i j : ℕ) : Prop :=
  Items ok len (fun _ u => u) i () j ()

theorem Leads.nil (i : ℕ) : Leads ok len i i := Items.nil i ()

/-- The value does not matter for where the items are. -/
theorem Items.change {γ : Type*} {g : ℕ → γ → γ} {u v : γ} (h : Items ok len g i u j v)
    (f : ℕ → α → α) (a : α) : ∃ b, Items ok len f i a j b := by
  induction h generalizing a with
  | nil i => exact ⟨a, .nil i a⟩
  | @cons i j u v hok _ ih =>
      obtain ⟨b, hb⟩ := ih (f i a)
      exact ⟨b, .cons hok hb⟩

theorem Items.leads (h : Items ok len f i a j b) : Leads ok len i j :=
  (h.change (fun _ u => u) ()).elim fun _ hb => hb

theorem Leads.items (h : Leads ok len i j) (f : ℕ → α → α) (a : α) :
    ∃ b, Items ok len f i a j b := Items.change h f a

theorem Items.le (h : Items ok len f i a j b) : i ≤ j := by
  induction h with
  | nil i a => exact Nat.le_refl i
  | cons _ _ ih => exact Nat.le_of_add_right_le ih

theorem items_iff_of_ne (hne : i ≠ j) :
    Items ok len f i a j b ↔ ok i ∧ Items ok len f (i + len i) (f i a) j b := by
  constructor
  · intro h
    cases h with
    | nil => exact absurd rfl hne
    | cons hok hrest => exact ⟨hok, hrest⟩
  · exact fun h => .cons h.1 h.2

/-- The items before an item are determined by their lengths. -/
theorem Items.ok_of_items {γ : Type*} {g : ℕ → γ → γ} {u v : γ} (h : Items ok len f i a j b)
    (hk : Items ok' len g i u k v) (hlt : k < j) : ok k := by
  induction hk generalizing a with
  | nil i => exact ((items_iff_of_ne (Nat.ne_of_lt hlt)).1 h).1
  | cons _ hrest ih =>
      have hne : _ ≠ j := Nat.ne_of_lt
        (Nat.lt_of_le_of_lt (Nat.le_of_add_right_le hrest.le) hlt)
      exact ih ((items_iff_of_ne hne).1 h).2 hlt

/-- Items that begin below a bound end at one place if they end behind it. -/
theorem Items.end_unique {γ : Type*} {g : ℕ → γ → γ} {u v : γ} {e : ℕ}
    (h : Items ok len f i a j b) (hk : Items ok' len g i u k v) (hok : ∀ l, ok l → l < e)
    (hok' : ∀ l, ok' l → l < e) (hj : e ≤ j) (hek : e ≤ k) : j = k := by
  rcases Nat.lt_trichotomy j k with hlt | heq | hlt
  · exact absurd (hok' j (hk.ok_of_items h hlt)) (Nat.not_lt.2 hj)
  · exact heq
  · exact absurd (hok k (h.ok_of_items hk hlt)) (Nat.not_lt.2 hek)

/-- Items that are `ok'` as well, each at its place. -/
theorem Items.imp (h : Items ok len f i a j b)
    (himp : ∀ k, Leads ok len i k → k < j → ok k → ok' k) : Items ok' len f i a j b := by
  induction h with
  | nil i a => exact .nil i a
  | @cons i j a b hok hrest ih =>
      have hlt : i < j := Nat.lt_of_lt_of_le (Nat.lt_add_of_pos_right (len i).pos) hrest.le
      exact .cons (himp i (.nil i) hlt hok) (ih fun k hk => himp k (.cons hok hk))

end Items

namespace Transfer

variable {β α : Type}

/-- Repeat a step from `i` on while the place lies below `e`; a step says how far it goes. -/
def advance (step : ℕ → α → Transfer β (ℕ+ × α)) (e i : ℕ) (a : α) : Transfer β (ℕ × α) :=
  if i < e then step i a >>= fun r => advance step e (i + r.1) r.2 else pure (i, a)
termination_by e - i
decreasing_by
  have := r.1.pos
  omega

variable {data : ℕ → β} {step : ℕ → α → Transfer β (ℕ+ × α)} {ok : ℕ → Prop}
  {len : ℕ → ℕ+} {f : ℕ → α → α} {e i j n m : ℕ} {a b : α}

theorem advance_of_lt (h : i < e) :
    advance step e i a = step i a >>= fun r => advance step e (i + r.1) r.2 := by
  rw [advance, if_pos h]

theorem advance_of_le (h : e ≤ i) : advance step e i a = pure (i, a) := by
  rw [advance, if_neg (Nat.not_lt.2 h)]

/-- What holds of all rounds follows from what holds of a round and of the rounds behind it. -/
theorem advance_induct {P : ℕ → α → Prop} (hdone : ∀ i a, e ≤ i → P i a)
    (hstep : ∀ i a, i < e → (∀ r : ℕ+ × α, P (i + r.1) r.2) → P i a) (i : ℕ) (a : α) :
    P i a := by
  induction h : e - i using Nat.strong_induction_on generalizing i a with
  | _ d ih =>
      by_cases hlt : i < e
      · refine hstep i a hlt fun r => ih (e - (i + r.1)) ?_ _ _ rfl
        have := r.1.pos
        omega
      · exact hdone i a (Nat.not_lt.1 hlt)

/-- The loop takes the items up to the first place that is not below the bound. -/
theorem run_advance (hs : ∀ i a, Returns data (step i a) (ok i) (len i, f i a)) :
    (advance step e i a).run data = some (j, b) ↔
      e ≤ j ∧ Items (fun k => k < e ∧ ok k) len f i a j b := by
  induction i, a using advance_induct (e := e) with
  | hdone i a hle =>
      rw [advance_of_le hle, run_pure, Option.some.injEq, Prod.mk.injEq]
      constructor
      · rintro ⟨rfl, rfl⟩
        exact ⟨hle, .nil i a⟩
      · rintro ⟨_, h⟩
        cases h with
        | nil => exact ⟨rfl, rfl⟩
        | cons hok _ => exact absurd hok.1 (Nat.not_lt.2 hle)
  | hstep i a hlt ih =>
      rw [advance_of_lt hlt, run_bind]
      by_cases hok : ok i
      · rw [(hs i a).run_eq hok, Option.bind_some, ih (len i, f i a)]
        refine and_congr_right fun hle => ?_
        rw [items_iff_of_ne (Nat.ne_of_lt (Nat.lt_of_lt_of_le hlt hle)), and_iff_right]
        exact ⟨hlt, hok⟩
      · rw [(hs i a).run_none hok]
        refine iff_of_false nofun fun ⟨hle, h⟩ => hok ?_
        exact ((items_iff_of_ne (Nat.ne_of_lt (Nat.lt_of_lt_of_le hlt hle))).1 h).1.2

/-- A loop with rounds that never fail. -/
theorem exists_run_advance (hs : ∀ i a, Returns data (step i a) True (len i, f i a)) (i : ℕ)
    (a : α) : ∃ j b, (advance step e i a).run data = some (j, b) := by
  induction i, a using advance_induct (e := e) with
  | hdone i a hle => exact ⟨i, a, by rw [advance_of_le hle, run_pure]⟩
  | hstep i a hlt ih =>
      rw [advance_of_lt hlt, run_bind, (hs i a).run_eq trivial]
      exact ih (len i, f i a)

theorem readsBelow_advance (hs : ∀ i a, Returns data (step i a) (ok i) (len i, f i a)) :
    ReadsBelow data n (advance step e i a) ↔
      ∀ j b, Items (fun k => k < e ∧ ok k) len f i a j b → j < e →
        ReadsBelow data n (step j b) := by
  induction i, a using advance_induct (e := e) with
  | hdone i a hle =>
      rw [advance_of_le hle]
      refine iff_of_true (readsBelow_pure _) fun j b h hlt => ?_
      exact absurd hlt (Nat.not_lt.2 (Nat.le_trans hle h.le))
  | hstep i a hlt ih =>
      rw [advance_of_lt hlt, (hs i a).readsBelow_bind, ih (len i, f i a)]
      constructor
      · intro h j b hitems hj
        cases hitems with
        | nil => exact h.1
        | cons hok hrest => exact h.2 hok.2 j b hrest hj
      · intro h
        exact ⟨h i a (.nil i a) hlt,
          fun hok j b hitems => h j b (.cons ⟨hlt, hok⟩ hitems)⟩

theorem writesBelow_advance (hs : ∀ i a, Returns data (step i a) (ok i) (len i, f i a)) :
    WritesBelow data m (advance step e i a) ↔
      ∀ j b, Items (fun k => k < e ∧ ok k) len f i a j b → j < e →
        WritesBelow data m (step j b) := by
  induction i, a using advance_induct (e := e) with
  | hdone i a hle =>
      rw [advance_of_le hle]
      refine iff_of_true (writesBelow_pure _) fun j b h hlt => ?_
      exact absurd hlt (Nat.not_lt.2 (Nat.le_trans hle h.le))
  | hstep i a hlt ih =>
      rw [advance_of_lt hlt, (hs i a).writesBelow_bind, ih (len i, f i a)]
      constructor
      · intro h j b hitems hj
        cases hitems with
        | nil => exact h.1
        | cons hok hrest => exact h.2 hok.2 j b hrest hj
      · intro h
        exact ⟨h i a (.nil i a) hlt,
          fun hok j b hitems => h j b (.cons ⟨hlt, hok⟩ hitems)⟩

end Transfer

end Reads
