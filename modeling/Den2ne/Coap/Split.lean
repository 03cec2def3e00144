import Den2ne.Coap.Bytes
import Den2ne.Coap.Serialize
import Mathlib.Data.List.TakeWhile
import Mathlib.Tactic.ByContra

/-!
# Splitting and merging

A path or a query is split at its separators when it is serialized, and merged again when it is
parsed. A separator at the front is lost, and so is one at the end, unless it is the character
behind another separator, which the loop does not look at.
-/

namespace Den2ne.Coap

open Memory

variable {sep x : UInt8} {tail : Option UInt8} {acc cs dst s : List UInt8} {t : Text}

/-- The parts of the characters `cs` behind the beginning `acc` of a part; behind a separator at
the end there is the part `tail`, if any. -/
def pieces (sep : UInt8) (tail : Option UInt8) : List UInt8 → List UInt8 → List (List UInt8)
  | acc, [] => [acc]
  | acc, c :: cs =>
      if c = sep then
        acc ::
          match cs with
          | [] => (tail.map fun x => [x]).toList
          | d :: cs => pieces sep tail [d] cs
      else pieces sep tail (acc ++ [c]) cs

/-- The loop does not stop at a separator at the end. -/
def endsClean (sep : UInt8) : List UInt8 → Bool
  | [] => true
  | c :: cs =>
      if c = sep then
        match cs with
        | [] => false
        | _ :: cs => endsClean sep cs
      else endsClean sep cs

/-- How many separators are at the end. -/
def trailing (sep : UInt8) (s : List UInt8) : ℕ := (s.reverse.takeWhile (· = sep)).length

/-- There is no separator at the front, and an even number of them at the end. -/
def Clean (sep : UInt8) (s : List UInt8) : Prop := s.head? ≠ some sep ∧ trailing sep s % 2 = 0

instance (sep : UInt8) (s : List UInt8) : Decidable (Clean sep s) :=
  inferInstanceAs (Decidable (_ ∧ _))

/-- What is merged of the characters `cs`. -/
def remains (sep : UInt8) (tail : Option UInt8) (cs : List UInt8) : List UInt8 :=
  if endsClean sep cs = true then cs
  else
    match tail with
    | none => cs.dropLast
    | some x => cs ++ [x]

theorem endsClean_cons_of_ne {c : UInt8} (hc : c ≠ sep) (cs : List UInt8) :
    endsClean sep (c :: cs) = endsClean sep cs := by
  rw [endsClean.eq_def]
  exact if_neg hc

theorem endsClean_sep_cons (sep d : UInt8) (cs : List UInt8) :
    endsClean sep (sep :: d :: cs) = endsClean sep cs := by
  rw [endsClean.eq_def]
  exact if_pos rfl

theorem length_takeWhile_reverse_iff :
    (cs.reverse.takeWhile (· = sep)).length = cs.reverse.length ↔ ∀ x ∈ cs, x = sep := by
  have hself : cs.reverse.takeWhile (· = sep) = cs.reverse ↔ ∀ x ∈ cs, x = sep := by
    rw [List.takeWhile_eq_self_iff]
    simp
  rw [← hself]
  exact ⟨(List.takeWhile_prefix _).eq_of_length, congrArg List.length⟩

theorem trailing_cons_of_all {c : UInt8} (hc : c = sep) (hcs : ∀ x ∈ cs, x = sep) :
    trailing sep (c :: cs) = trailing sep cs + 1 := by
  have hall := length_takeWhile_reverse_iff.2 hcs
  rw [trailing, trailing, List.reverse_cons, List.takeWhile_append, if_pos hall, hall]
  simp [hc]

theorem trailing_cons_of_not {c : UInt8} (h : ¬ (c = sep ∧ ∀ x ∈ cs, x = sep)) :
    trailing sep (c :: cs) = trailing sep cs := by
  rw [trailing, trailing, List.reverse_cons, List.takeWhile_append]
  by_cases hcs : ∀ x ∈ cs, x = sep
  · have hall := length_takeWhile_reverse_iff.2 hcs
    have hc : ¬ c = sep := fun hc => h ⟨hc, hcs⟩
    rw [if_pos hall, hall]
    simp [hc]
  · rw [if_neg fun hall => hcs (length_takeWhile_reverse_iff.1 hall)]

/-- The loop takes the separators at the end in pairs. -/
theorem endsClean_iff : endsClean sep cs = true ↔ trailing sep cs % 2 = 0 := by
  induction hn : cs.length using Nat.strongRecOn generalizing cs with
  | ind n ih =>
      match cs with
      | [] => exact iff_of_true rfl rfl
      | c :: cs =>
          rw [List.length_cons] at hn
          by_cases hc : c = sep
          · subst hc
            match cs with
            | [] => simp [endsClean, trailing]
            | d :: cs =>
                rw [List.length_cons] at hn
                rw [endsClean_sep_cons, ih cs.length (by omega) rfl]
                by_cases hd : d = c ∧ ∀ x ∈ cs, x = c
                · rw [trailing_cons_of_all rfl (List.forall_mem_cons.2 hd),
                    trailing_cons_of_all hd.1 hd.2]
                  omega
                · rw [trailing_cons_of_not fun h => hd (List.forall_mem_cons.1 h.2),
                    trailing_cons_of_not hd]
          · rw [endsClean_cons_of_ne hc, ih cs.length (by omega) rfl,
              trailing_cons_of_not fun h => hc h.1]

theorem clean_iff : Clean sep s ↔ s.head? ≠ some sep ∧ endsClean sep s = true := by
  rw [endsClean_iff, Clean]

theorem pieces_cons_of_ne {c : UInt8} (hc : c ≠ sep) (acc cs : List UInt8) :
    pieces sep tail acc (c :: cs) = pieces sep tail (acc ++ [c]) cs := by
  rw [pieces.eq_def]
  exact if_neg hc

theorem pieces_sep_cons (acc : List UInt8) (d : UInt8) (cs : List UInt8) :
    pieces sep tail acc (sep :: d :: cs) = acc :: pieces sep tail [d] cs := by
  rw [pieces.eq_def]
  exact if_pos rfl

theorem pieces_sep (acc : List UInt8) :
    pieces sep tail acc [sep] = acc :: (tail.map fun x => [x]).toList := by
  rw [pieces.eq_def]
  exact if_pos rfl

/-- A string at whose end the loop stops ends in a separator. -/
theorem getLast?_of_not_endsClean (h : endsClean sep cs = false) : cs.getLast? = some sep := by
  induction hn : cs.length using Nat.strongRecOn generalizing cs with
  | ind n ih =>
      match cs with
      | [] => cases h
      | [c] =>
          by_cases hc : c = sep
          · rw [hc]
            rfl
          · rw [endsClean_cons_of_ne hc] at h
            cases h
      | c :: d :: cs =>
          rw [List.getLast?_cons_cons]
          by_cases hc : c = sep
          · subst hc
            rw [endsClean_sep_cons] at h
            have hlt : cs.length < n := by
              rw [← hn, List.length_cons, List.length_cons]
              omega
            have hlast := ih cs.length hlt h rfl
            rw [List.getLast?_cons, hlast]
            rfl
          · rw [endsClean_cons_of_ne hc] at h
            exact ih (d :: cs).length (by rw [← hn]; simp) h rfl

theorem remains_of_endsClean (hc : endsClean sep cs = true) : remains sep tail cs = cs :=
  if_pos hc

/-- The rest is the same for a part that is not empty, whichever it is. -/
theorem remains_cons_of_ne {c : UInt8} (hc : c ≠ sep) (cs : List UInt8) :
    remains sep tail (c :: cs) = c :: remains sep tail cs := by
  unfold remains
  rw [endsClean_cons_of_ne hc]
  split
  · rfl
  · rename_i hclean
    have hne : cs ≠ [] := by
      rintro rfl
      exact hclean rfl
    cases tail with
    | none => rw [List.dropLast_cons_of_ne_nil hne]
    | some x => rfl

theorem remains_sep_cons (d : UInt8) (cs : List UInt8) :
    remains sep tail (sep :: d :: cs) = sep :: d :: remains sep tail cs := by
  unfold remains
  rw [endsClean_sep_cons]
  split
  · rfl
  · rename_i hclean
    have hne : cs ≠ [] := by
      rintro rfl
      exact hclean rfl
    cases tail with
    | none => rw [List.dropLast_cons_of_ne_nil (by simp), List.dropLast_cons_of_ne_nil hne]
    | some x => rfl

theorem remains_sep : remains sep tail [sep] = (tail.map fun x => [sep, x]).getD [] := by
  have hstop : endsClean sep [sep] ≠ true := by simp [endsClean]
  unfold remains
  rw [if_neg hstop]
  cases tail <;> rfl

theorem merge_append (h : dst ≠ [] ∨ acc ≠ []) (r : List UInt8) :
    merge sep dst acc ≠ [] ∧ merge sep dst (acc ++ r) = merge sep dst acc ++ r := by
  by_cases hdst : dst = []
  · have hacc := h.resolve_left (not_not.2 hdst)
    rw [merge, merge, if_pos hdst, if_pos hdst]
    exact ⟨hacc, rfl⟩
  · rw [merge, merge, if_neg hdst, if_neg hdst]
    exact ⟨by simp, by simp⟩

/-- The parts are merged behind a string, or as a string if the first one is not empty. -/
theorem foldl_merge_pieces (cs : List UInt8) (h : dst ≠ [] ∨ acc ≠ []) :
    (pieces sep tail acc cs).foldl (merge sep) dst =
      merge sep dst (acc ++ remains sep tail cs) := by
  induction hn : cs.length using Nat.strongRecOn generalizing acc cs dst with
  | ind n ih =>
      match cs with
      | [] =>
          rw [remains_of_endsClean rfl, List.append_nil]
          rfl
      | c :: cs =>
          rw [List.length_cons] at hn
          by_cases hc : c = sep
          · subst hc
            match cs with
            | [] =>
                obtain ⟨hne, happend⟩ := merge_append h ((tail.map fun x => [c, x]).getD [])
                rw [pieces_sep, remains_sep, List.foldl_cons, happend]
                cases tail with
                | none => exact (List.append_nil _).symm
                | some x => exact if_neg hne
            | d :: cs =>
                rw [List.length_cons] at hn
                obtain ⟨hne, happend⟩ := merge_append h (c :: d :: remains c tail cs)
                rw [pieces_sep_cons, List.foldl_cons, remains_sep_cons, happend,
                  ih cs.length (by omega) cs (Or.inl hne) rfl]
                exact if_neg hne
          · rw [pieces_cons_of_ne hc, remains_cons_of_ne hc,
              ih cs.length (by omega) cs (Or.inr (by simp)) rfl, List.append_assoc]
            rfl

/-- The string is merged again as it was exactly if it is clean. -/
theorem foldl_merge_pieces_iff (hx : ∀ x ∈ tail, x ≠ sep) (s : List UInt8) :
    (pieces sep tail [] s).foldl (merge sep) [] = s ↔ Clean sep s := by
  have hremains : ∀ cs, endsClean sep cs = false → remains sep tail cs ≠ cs := by
    intro cs hstop heq
    have hlength := congrArg List.length heq
    have hpos : cs ≠ [] := by
      rintro rfl
      cases hstop
    have hlen := List.length_pos_iff.2 hpos
    unfold remains at hlength
    rw [if_neg (by simp [hstop])] at hlength
    cases tail with
    | none =>
        simp only [List.length_dropLast] at hlength
        omega
    | some x => simp at hlength
  match s with
  | [] => exact iff_of_true rfl ⟨nofun, rfl⟩
  | c :: cs =>
      by_cases hc : c = sep
      · subst hc
        refine iff_of_false ?_ fun h => h.1 rfl
        match cs with
        | [] =>
            rw [pieces_sep]
            cases tail with
            | none => exact nofun
            | some x =>
                intro h
                exact hx x rfl (List.singleton_injective h)
        | d :: cs =>
            rw [pieces_sep_cons, List.foldl_cons]
            have hnil : merge c [] [] = [] := rfl
            rw [hnil, foldl_merge_pieces cs (Or.inr (by simp))]
            change d :: remains c tail cs ≠ c :: d :: cs
            intro h
            -- the lengths agree only with a further part, which does not end in a separator
            unfold remains at h
            split at h
            · have hlength := congrArg List.length h
              simp at hlength
            · rename_i hstop
              have hlast := getLast?_of_not_endsClean (Bool.eq_false_iff.2 hstop)
              cases tail with
              | none =>
                  have hlength := congrArg List.length h
                  simp only [List.length_cons, List.length_dropLast] at hlength
                  omega
              | some x =>
                  have hend := congrArg List.getLast? h
                  rw [← List.cons_append, List.getLast?_concat, List.getLast?_cons_cons,
                    List.getLast?_cons, hlast, Option.getD_some, Option.some.injEq] at hend
                  exact hx x rfl hend
      · rw [pieces_cons_of_ne hc, foldl_merge_pieces cs (Or.inr (by simp)), clean_iff,
          endsClean_cons_of_ne hc]
        change c :: remains sep tail cs = c :: cs ↔ _
        rw [List.cons.injEq, and_iff_right rfl, List.head?_cons]
        have hhead : some c ≠ some sep := fun h => hc (Option.some.inj h)
        rw [and_iff_right hhead]
        constructor
        · intro heq
          by_contra hstop
          exact hremains cs (Bool.eq_false_iff.2 hstop) heq
        · exact remains_of_endsClean

theorem pieces_ne_nil (acc cs : List UInt8) : pieces sep tail acc cs ≠ [] := by
  induction cs generalizing acc with
  | nil => exact List.cons_ne_nil _ _
  | cons c cs ih =>
      by_cases hc : c = sep
      · rw [pieces.eq_def]
        dsimp only
        rw [if_pos hc]
        exact List.cons_ne_nil _ _
      · rw [pieces_cons_of_ne hc]
        exact ih _

/-- Of a clean string only the empty one has an empty last part. -/
theorem getLast?_pieces (h : endsClean sep cs = true) :
    [] ∈ (pieces sep tail acc cs).getLast? ↔ acc = [] ∧ cs = [] := by
  induction hn : cs.length using Nat.strongRecOn generalizing acc cs with
  | ind n ih =>
      match cs with
      | [] => simp [pieces]
      | c :: cs =>
          rw [List.length_cons] at hn
          by_cases hc : c = sep
          · subst hc
            match cs with
            | [] => simp [endsClean] at h
            | d :: cs =>
                rw [List.length_cons] at hn
                rw [endsClean_sep_cons] at h
                rw [pieces_sep_cons]
                have hlast : [] ∈ (pieces c tail [d] cs).getLast? ↔ [d] = [] ∧ cs = [] :=
                  ih cs.length (by omega) h rfl
                obtain ⟨p, ps, hp⟩ := List.exists_cons_of_ne_nil (pieces_ne_nil [d] cs)
                rw [hp] at hlast ⊢
                rw [List.getLast?_cons_cons, hlast]
                simp
          · rw [endsClean_cons_of_ne hc] at h
            rw [pieces_cons_of_ne hc, ih cs.length (by omega) h rfl]
            simp

/-- The part that the loop makes behind a separator at the end. -/
def Text.lastPart (t : Text) (sep : UInt8) : Option UInt8 :=
  if t.mem (t.len + 1) = sep then some (t.mem t.len) else none

theorem splitParts_of_lt {turns j start : ℕ} (h : t.len + 1 < j) :
    splitParts t sep turns j start = [] := by
  cases turns with
  | zero => rfl
  | succ turns => exact if_neg (Nat.not_le_of_lt h)

/-- The loop makes the parts of the characters. -/
theorem splitParts_eq {turns j start : ℕ} (hstart : start ≤ j) (hj : j ≤ t.len)
    (hturns : t.len + 2 ≤ turns + j) :
    splitParts t sep turns j start =
      pieces sep (t.lastPart sep) (load t.mem start (j - start)) (load t.mem j (t.len - j)) := by
  induction turns generalizing j start with
  | zero => omega
  | succ turns ih =>
      rw [splitParts, if_pos (by omega)]
      rcases Nat.eq_or_lt_of_le hj with rfl | hlt
      · rw [if_pos (Or.inr rfl), splitParts_of_lt (by omega), Nat.sub_self, load_zero]
        rfl
      · have hcs : load t.mem j (t.len - j) = t.mem j :: load t.mem (j + 1) (t.len - (j + 1)) := by
          rw [show t.len - j = t.len - (j + 1) + 1 by omega, load_succ]
        rw [hcs]
        by_cases hsep : t.mem j = sep
        · rw [if_pos (Or.inl hsep), hsep]
          rcases Nat.eq_or_lt_of_le (Nat.succ_le_of_lt hlt) with hend | hmore
          · -- the separator is the last character
            obtain ⟨turns, rfl⟩ : ∃ n, turns = n + 1 := ⟨turns - 1, by omega⟩
            have hj2 : j + 2 = t.len + 1 := by omega
            have hj1 : j + 1 = t.len := hend
            rw [hj1, Nat.sub_self, load_zero, pieces_sep, hj2, splitParts, if_pos (Nat.le_refl _),
              Text.lastPart]
            by_cases htail : t.mem (t.len + 1) = sep
            · rw [if_pos (Or.inl htail), if_pos htail, splitParts_of_lt (by omega),
                Nat.add_sub_cancel_left]
              rfl
            · have hstop : ¬ (t.mem (t.len + 1) = sep ∨ t.len + 1 = t.len) := by
                rintro (h | h)
                · exact htail h
                · omega
              rw [if_neg hstop, if_neg htail, splitParts_of_lt (by omega)]
              rfl
          · have hrest : load t.mem (j + 1) (t.len - (j + 1)) =
                t.mem (j + 1) :: load t.mem (j + 2) (t.len - (j + 2)) := by
              rw [show t.len - (j + 1) = t.len - (j + 2) + 1 by omega, load_succ]
            rw [hrest, pieces_sep_cons, ih (by omega) (by omega) (by omega),
              show j + 2 - (j + 1) = 1 by omega]
            rfl
        · have hne : ¬ (t.mem j = sep ∨ j = t.len) := by
            rintro (h | h)
            · exact hsep h
            · omega
          rw [if_neg hne, pieces_cons_of_ne hsep, ih (by omega) (by omega) (by omega),
            show j + 1 - start = j - start + 1 by omega, load_add, Nat.add_sub_of_le hstart]
          rfl

/-- The string is parsed as it was exactly if it is clean. -/
theorem joined_splitParts_iff (hend : t.mem t.len ≠ sep) :
    joined sep (splitParts t sep (t.len + 2) 0 0) = t.value ↔ Clean sep t.value := by
  have htail : ∀ x ∈ t.lastPart sep, x ≠ sep := by
    intro x hx
    unfold Text.lastPart at hx
    split at hx
    · rw [← Option.mem_some_iff.1 hx]
      exact hend
    · cases hx
  rw [← foldl_merge_nil, splitParts_eq (Nat.le_refl 0) (Nat.zero_le _) (Nat.le_refl _)]
  exact foldl_merge_pieces_iff htail t.value

/-- Of a clean string only the empty one has an empty last part. -/
theorem getLast?_splitParts (h : Clean sep t.value) :
    [] ∈ (splitParts t sep (t.len + 2) 0 0).getLast? ↔ t.value = [] := by
  rw [splitParts_eq (Nat.le_refl 0) (Nat.zero_le _) (Nat.le_refl _)]
  exact (getLast?_pieces (clean_iff.1 h).2).trans ⟨And.right, fun h => ⟨rfl, h⟩⟩

theorem splitParts_ne_nil : splitParts t sep (t.len + 2) 0 0 ≠ [] := by
  rw [splitParts_eq (Nat.le_refl 0) (Nat.zero_le _) (Nat.le_refl _)]
  exact pieces_ne_nil _ _

end Den2ne.Coap
