import Den2ne.NbrTable.Model
import Mathlib.Algebra.Group.Nat.Defs
import Mathlib.Data.List.Induction
import Mathlib.Tactic.Common

/-!
# One finite map for each table

What the calls did to the tables, in order, is a history of effects, and a
history makes one finite map for each table. The tables refine these maps: the
item that `nbr_table_get_from_lladdr` finds for an address holds the value of
the map. On the way, what a call can do is said once for each function: which
lookups it changes, and which key it evicts.
-/

namespace Den2ne.NbrTable

variable {Addr Data : Type*}

/-! ## The maps -/

/-- A finite map for each table. -/
abbrev Maps (Addr Data : Type*) := ℕ → Addr → Option Data

section

variable [DecidableEq Addr] [Inhabited Data]

/-- An effect on the maps. -/
def Effect.apply (m : Maps Addr Data) : Effect Addr Data → Maps Addr Data
  | .added t a => Function.update m t (Function.update (m t) a (some default))
  | .wrote t a v => Function.update m t (Function.update (m t) a ((m t a).map fun _ => v))
  | .removed t a => Function.update m t (Function.update (m t) a none)
  | .locked _ _ => m
  | .unlocked _ _ => m
  | .evicted a _ => fun t => Function.update (m t) a none
  | .cleared => fun _ _ => none

/-- The maps after a history. -/
def maps (log : List (Effect Addr Data)) : Maps Addr Data :=
  log.foldl Effect.apply fun _ _ => none

end

/-- The effect leaves `a` in the table `t`, if it is there. -/
def Effect.Keeps (t : ℕ) (a : Addr) : Effect Addr Data → Prop
  | .removed t' a' => ¬ (t' = t ∧ a' = a)
  | .evicted a' _ => a' ≠ a
  | .cleared => False
  | _ => True

/-- The effect `e₀` has happened, and all effects since then keep what it made. -/
def Since (e₀ : Effect Addr Data) (Keeps : Effect Addr Data → Prop)
    (log : List (Effect Addr Data)) : Prop :=
  ∃ l₁ l₂, log = l₁ ++ e₀ :: l₂ ∧ ∀ e ∈ l₂, Keeps e

/-- `a` was added to the table `t`, and neither removed from it nor evicted
since. -/
def Present (log : List (Effect Addr Data)) (t : ℕ) (a : Addr) : Prop :=
  Since (.added t a) (Effect.Keeps t a) log

theorem maps_concat [DecidableEq Addr] [Inhabited Data] (log : List (Effect Addr Data))
    (e : Effect Addr Data) :
    maps (log ++ [e]) = e.apply (maps log) := by
  rw [maps, List.foldl_append]
  rfl

theorem since_nil {e₀ : Effect Addr Data} {Keeps : Effect Addr Data → Prop} :
    ¬ Since e₀ Keeps [] := by
  rintro ⟨l₁, l₂, h, -⟩
  simp at h

theorem since_concat {e₀ e : Effect Addr Data} {Keeps : Effect Addr Data → Prop}
    {log : List (Effect Addr Data)} :
    Since e₀ Keeps (log ++ [e]) ↔ (Since e₀ Keeps log ∧ Keeps e) ∨ e = e₀ := by
  constructor
  · rintro ⟨l₁, l₂, hlog, hkeeps⟩
    rcases List.eq_nil_or_concat l₂ with rfl | ⟨l₂, e', rfl⟩
    · obtain ⟨-, he⟩ := List.append_inj' hlog rfl
      exact Or.inr (List.singleton_inj.1 he)
    · rw [List.concat_eq_append] at hlog hkeeps
      rw [← List.cons_append, ← List.append_assoc] at hlog
      obtain ⟨rfl, he⟩ := List.append_inj' hlog rfl
      obtain rfl := List.singleton_inj.1 he
      rw [List.forall_mem_append] at hkeeps
      exact Or.inl ⟨⟨l₁, l₂, rfl, hkeeps.1⟩, hkeeps.2 e (List.mem_singleton_self e)⟩
  · rintro (⟨⟨l₁, l₂, rfl, hkeeps⟩, he⟩ | rfl)
    · refine ⟨l₁, l₂ ++ [e], by simp, ?_⟩
      rw [List.forall_mem_append]
      exact ⟨hkeeps, by simpa using he⟩
    · exact ⟨log, [], rfl, by simp⟩

theorem update_update_apply [DecidableEq Addr] (m : Maps Addr Data) (t t' : ℕ) (a a' : Addr)
    (v : Option Data) :
    Function.update m t' (Function.update (m t') a' v) t a =
      if t' = t ∧ a' = a then v else m t a := by
  by_cases ht : t' = t
  · subst ht
    rw [Function.update_self, Function.update_apply]
    simp [eq_comm]
  · rw [Function.update_of_ne (Ne.symm ht), if_neg (fun h => ht h.1)]

section

variable [DecidableEq Addr] [Inhabited Data]

theorem isSome_apply {m : Maps Addr Data} {e : Effect Addr Data} {t : ℕ} {a : Addr} :
    (e.apply m t a).isSome ↔ ((m t a).isSome ∧ e.Keeps t a) ∨ e = .added t a := by
  cases e with
  | added t' a' =>
      rw [Effect.apply, update_update_apply]
      split
      next h => simp [h.1, h.2]
      next h =>
        have hne : t' = t → a' ≠ a := fun ht ha => h ⟨ht, ha⟩
        simpa [Effect.Keeps] using fun ht ha => absurd ha (hne ht)
  | wrote t' a' v =>
      rw [Effect.apply, update_update_apply]
      split
      next h => simp [Effect.Keeps, h.1, h.2]
      next h => simp [Effect.Keeps]
  | removed t' a' =>
      rw [Effect.apply, update_update_apply]
      split
      next h => simp [Effect.Keeps, h.1, h.2]
      next h => simp [Effect.Keeps, h]
  | locked t' a' => simp [Effect.apply, Effect.Keeps]
  | unlocked t' a' => simp [Effect.apply, Effect.Keeps]
  | evicted a' called =>
      change (Function.update (m t) a' none a).isSome ↔ _
      rw [Function.update_apply]
      split
      next h => simp [Effect.Keeps, h]
      next h => simp [Effect.Keeps, Ne.symm h]
  | cleared => simp [Effect.apply, Effect.Keeps]

/-- The maps and the history agree on what is in a table. -/
theorem isSome_maps_iff (log : List (Effect Addr Data)) (t : ℕ) (a : Addr) :
    (maps log t a).isSome ↔ Present log t a := by
  induction log using List.reverseRecOn with
  | nil => exact iff_of_false (by simp [maps]) since_nil
  | append_singleton log e ih =>
      rw [maps_concat, isSome_apply, ih]
      exact since_concat.symm

end

/-! ## Lookups -/

namespace State

/-- The slot `i` has the entry of `a` in the table `t`. -/
structure Entry (s : State Addr Data) (t : ℕ) (a : Addr) (i : ℕ) : Prop where
  key : i ∈ s.keys
  lladdr : s.lladdr i = a
  used : s.used t i

/-- The data of an address in a table. -/
def lookup [DecidableEq Addr] (s : State Addr Data) (t : ℕ) (a : Addr) : Option Data :=
  (s.getFromLladdr t a).map (s.data t)

/-- What every function keeps: no address has two keys, no table is there twice,
and only keys are used, by registered tables. -/
structure Coherent (s : State Addr Data) : Prop where
  lladdr : (s.keys.map s.lladdr).Nodup
  tables : (s.allTables.map Table.id).Nodup
  numTables : s.allTables.length ≤ maxNumTables
  usedKeys : ∀ i, s.usedMap i ≠ 0 → i ∈ s.keys
  usedTables : ∀ i j, (s.usedMap i).getLsbD j → j < s.allTables.length

/-- What every call keeps: the memory blocks in use are those of the keys, too. -/
structure Sound (s : State Addr Data) : Prop extends Coherent s where
  holds : Pool.Holds s.mem s.keys

variable {s : State Addr Data} {t i : ℕ} {a : Addr}

section

variable [DecidableEq Addr]

theorem indexFromLladdr_eq_some (h : Coherent s) :
    s.indexFromLladdr a = some i ↔ i ∈ s.keys ∧ s.lladdr i = a := by
  constructor
  · intro hi
    exact ⟨List.mem_of_find?_eq_some hi, by simpa using List.find?_some hi⟩
  · rintro ⟨hi, rfl⟩
    cases hfind : s.indexFromLladdr (s.lladdr i) with
    | none =>
        have := List.find?_eq_none.1 hfind i hi
        simp at this
    | some j =>
        have hj : j ∈ s.keys := List.mem_of_find?_eq_some hfind
        have heq : s.lladdr j = s.lladdr i := by simpa using List.find?_some hfind
        rw [List.inj_on_of_nodup_map h.lladdr hj hi heq]

theorem indexFromLladdr_eq_none : s.indexFromLladdr a = none ↔ ∀ i ∈ s.keys, s.lladdr i ≠ a := by
  rw [indexFromLladdr, List.find?_eq_none]
  simp

/-- `nbr_table_get_from_lladdr` finds the entry of an address. -/
theorem getFromLladdr_eq_some (h : Coherent s) :
    s.getFromLladdr t a = some i ↔ s.Entry t a i := by
  rw [getFromLladdr, Option.filter_eq_some_iff, indexFromLladdr_eq_some h]
  exact ⟨fun ⟨⟨h₁, h₂⟩, h₃⟩ => ⟨h₁, h₂, h₃⟩, fun ⟨h₁, h₂, h₃⟩ => ⟨⟨h₁, h₂⟩, h₃⟩⟩

theorem lookup_eq_some (h : Coherent s) {v : Data} :
    s.lookup t a = some v ↔ ∃ i, s.Entry t a i ∧ s.data t i = v := by
  rw [lookup, Option.map_eq_some_iff]
  simp only [getFromLladdr_eq_some h]

theorem lookup_eq_none (h : Coherent s) : s.lookup t a = none ↔ ∀ i, ¬ s.Entry t a i := by
  rw [lookup, Option.map_eq_none_iff, Option.eq_none_iff_forall_ne_some]
  simp only [ne_eq, getFromLladdr_eq_some h]

theorem Entry.lookup_eq (h : Coherent s) (hi : s.Entry t a i) : s.lookup t a = some (s.data t i) :=
  (lookup_eq_some h).2 ⟨i, hi, rfl⟩

/-- Two states with the same entries of an address, and the same data there,
have the same lookup of it. -/
theorem lookup_congr {s' : State Addr Data} (h : Coherent s) (h' : Coherent s')
    (hentry : ∀ i, s'.Entry t a i ↔ s.Entry t a i)
    (hdata : ∀ i, s.Entry t a i → s'.data t i = s.data t i) : s'.lookup t a = s.lookup t a := by
  ext v
  rw [lookup_eq_some h, lookup_eq_some h']
  constructor
  · rintro ⟨i, hi, rfl⟩
    exact ⟨i, (hentry i).1 hi, (hdata i ((hentry i).1 hi)).symm⟩
  · rintro ⟨i, hi, rfl⟩
    exact ⟨i, (hentry i).2 hi, hdata i hi⟩

end

/-! ## Tables and bits -/

theorem index_eq (s : State Addr Data) (t : ℕ) :
    s.index t = ((s.allTables.map Table.id).findIdx? (· = t)).getD 0 := by
  rw [index, List.findIdx?_map]
  rfl

/-- A registered table stands at its index. -/
theorem getElem?_index (h : s.Registered t) :
    (s.allTables.map Table.id)[s.index t]? = some t := by
  cases hfind : (s.allTables.map Table.id).findIdx? (· = t) with
  | none =>
      have := List.findIdx?_eq_none_iff.1 hfind t h
      simp at this
  | some j =>
      rw [index_eq, hfind, Option.getD_some]
      obtain ⟨hlt, heq, -⟩ := List.findIdx?_eq_some_iff_getElem.1 hfind
      rw [List.getElem?_eq_getElem hlt]
      simpa using heq

theorem index_lt (h : s.Registered t) : s.index t < s.allTables.length := by
  have := (List.getElem?_eq_some_iff.1 (getElem?_index h)).1
  rwa [List.length_map] at this

theorem index_inj {t' : ℕ} (h : s.Registered t) (h' : s.Registered t')
    (heq : s.index t = s.index t') : t = t' := by
  have := getElem?_index h
  rw [heq, getElem?_index h', Option.some.injEq] at this
  exact this.symm

theorem index_congr {s' : State Addr Data}
    (h : s'.allTables.map Table.id = s.allTables.map Table.id) : s'.index t = s.index t := by
  rw [index_eq, index_eq, h]

theorem getLsbD_setBit (map : ℕ → BitVec 8) {i j i' j' : ℕ} (hj : j < 8) :
    (setBit map i j i').getLsbD j' = ((map i').getLsbD j' || decide (i' = i ∧ j' = j)) := by
  rw [setBit, Function.update_apply]
  split
  next hi =>
    subst hi
    by_cases hj' : j' = j
    · subst hj'
      simp [hj]
    · simp [hj']
      omega
  next hi => simp [hi]

theorem getLsbD_clearBit (map : ℕ → BitVec 8) {i j i' j' : ℕ} (hj : j < 8) :
    (clearBit map i j i').getLsbD j' = ((map i').getLsbD j' && !decide (i' = i ∧ j' = j)) := by
  rw [clearBit, Function.update_apply]
  split
  next hi =>
    subst hi
    by_cases hj' : j' = j
    · subst hj'
      simp [hj]
    · simp [hj']
      exact fun hb => ⟨BitVec.lt_of_getLsbD hb, by omega⟩
  next hi => simp [hi]

theorem setBit_ne_zero {map : ℕ → BitVec 8} {i j i' : ℕ} (h : setBit map i j i' ≠ 0) :
    map i' ≠ 0 ∨ i' = i := by
  by_cases hi : i' = i
  · exact Or.inr hi
  · rw [setBit, Function.update_of_ne hi] at h
    exact Or.inl h

theorem clearBit_ne_zero {map : ℕ → BitVec 8} {i j i' : ℕ} (h : clearBit map i j i' ≠ 0) :
    map i' ≠ 0 := by
  rintro h₀
  apply h
  by_cases hi : i' = i
  · rw [clearBit, hi, Function.update_self, ← hi, h₀]
    simp
  · rw [clearBit, Function.update_of_ne hi, h₀]

theorem index_lt_eight (h : Coherent s) (ht : s.Registered t) : s.index t < 8 :=
  Nat.lt_of_lt_of_le (index_lt ht) h.numTables

/-! ## The functions, one by one -/

section

variable [Inhabited Data]

/-- The used bits of registered tables after `useItem`. -/
theorem used_useItem (h : Coherent s) (ht : s.Registered t) {t' i' : ℕ} (ht' : s.Registered t') :
    (s.useItem t i).used t' i' = (s.used t' i' || decide (i' = i ∧ t' = t)) := by
  have hindex : (s.useItem t i).index t' = s.index t' := rfl
  rw [used, hindex, useItem, getLsbD_setBit _ (index_lt_eight h ht), used]
  congr 2
  apply propext
  constructor
  · rintro ⟨hi, hj⟩
    exact ⟨hi, index_inj ht' ht hj⟩
  · rintro ⟨rfl, rfl⟩
    exact ⟨rfl, rfl⟩

theorem Coherent.useItem (h : Coherent s) (ht : s.Registered t) (hi : i ∈ s.keys) :
    Coherent (s.useItem t i) where
  lladdr := h.lladdr
  tables := h.tables
  numTables := h.numTables
  usedKeys j hj := by
    rcases setBit_ne_zero hj with hj | rfl
    · exact h.usedKeys j hj
    · exact hi
  usedTables j k hk := by
    rw [State.useItem, getLsbD_setBit _ (index_lt_eight h ht), Bool.or_eq_true] at hk
    rcases hk with hk | hk
    · exact h.usedTables j k hk
    · rw [(of_decide_eq_true hk).2]
      exact index_lt ht

end

/-- The item that is used is an entry with cleared data, and nothing else changes. -/
theorem lookup_useItem [DecidableEq Addr] [Inhabited Data] (h : Coherent s)
    (ht : s.Registered t) (hi : i ∈ s.keys) {t' : ℕ} (ht' : s.Registered t') (a : Addr) :
    (s.useItem t i).lookup t' a =
      if t' = t ∧ s.lladdr i = a then some default else s.lookup t' a := by
  have h' := h.useItem ht hi
  split
  next heq =>
    obtain ⟨rfl, rfl⟩ := heq
    refine (lookup_eq_some h').2 ⟨i, ⟨hi, rfl, ?_⟩, ?_⟩
    · rw [used_useItem h ht ht']
      simp
    · simp [useItem, setData]
  next hne =>
    have hback {j : ℕ} (hj : s.lladdr j = a) : ¬ (j = i ∧ t' = t) := by
      rintro ⟨rfl, rfl⟩
      exact hne ⟨rfl, hj⟩
    refine lookup_congr h h' (fun j => ?_) fun j hj => ?_
    · constructor
      · rintro ⟨hk, hl, hu⟩
        rw [used_useItem h ht ht', decide_eq_false (hback hl), Bool.or_false] at hu
        exact ⟨hk, hl, hu⟩
      · rintro ⟨hk, hl, hu⟩
        refine ⟨hk, hl, ?_⟩
        rw [used_useItem h ht ht', hu]
        rfl
    · by_cases htt : t' = t
      · subst htt
        have hji : j ≠ i := fun hji => hback hj.lladdr ⟨hji, rfl⟩
        simp [useItem, setData, hji]
      · simp [useItem, setData, htt]

theorem usedMap_removeKey (k : ℕ) (doFree : Bool) :
    (s.removeKey k doFree).2.usedMap = Function.update s.usedMap k 0 := rfl

theorem used_removeKey {k : ℕ} {doFree : Bool} (t' j : ℕ) :
    (s.removeKey k doFree).2.used t' j = (s.used t' j && decide (j ≠ k)) := by
  have hindex : (s.removeKey k doFree).2.index t' = s.index t' := rfl
  rw [used, hindex, usedMap_removeKey, Function.update_apply]
  split
  next hjk => simp [hjk]
  next hjk => simp [used, hjk]

theorem Coherent.removeKey {k : ℕ} {doFree : Bool} (h : Coherent s) :
    Coherent (s.removeKey k doFree).2 where
  lladdr := h.lladdr.sublist ((List.erase_sublist).map _)
  tables := h.tables
  numTables := h.numTables
  usedKeys j hj := by
    have hjk : j ≠ k := by
      rintro rfl
      exact hj (by rw [usedMap_removeKey, Function.update_self])
    have hused : s.usedMap j ≠ 0 := by
      rwa [usedMap_removeKey, Function.update_of_ne hjk] at hj
    exact (List.mem_erase_of_ne hjk).2 (h.usedKeys j hused)
  usedTables j l hl := by
    rw [usedMap_removeKey] at hl
    by_cases hjk : j = k
    · rw [hjk, Function.update_self] at hl
      simp at hl
    · rw [Function.update_of_ne hjk] at hl
      exact h.usedTables j l hl

/-- The key that is removed takes its address from every table. -/
theorem lookup_removeKey [DecidableEq Addr] {k : ℕ} {doFree : Bool} (h : Coherent s)
    (hk : k ∈ s.keys) (t' : ℕ) (a : Addr) :
    (s.removeKey k doFree).2.lookup t' a = if s.lladdr k = a then none else s.lookup t' a := by
  have h' : Coherent (s.removeKey k doFree).2 := h.removeKey
  have hmem {j : ℕ} : j ∈ (s.removeKey k doFree).2.keys ↔ j ≠ k ∧ j ∈ s.keys :=
    h.lladdr.of_map.mem_erase_iff
  split
  next heq =>
    refine (lookup_eq_none h').2 ?_
    rintro j ⟨hj, hl, -⟩
    have hj' := hmem.1 hj
    exact hj'.1 (List.inj_on_of_nodup_map h.lladdr hj'.2 hk (hl.trans heq.symm))
  next hne =>
    refine lookup_congr h h' (fun j => ?_) fun j _ => rfl
    constructor
    · rintro ⟨hj, hl, hu⟩
      rw [used_removeKey, Bool.and_eq_true] at hu
      exact ⟨(hmem.1 hj).2, hl, hu.1⟩
    · rintro ⟨hj, hl, hu⟩
      have hjk : j ≠ k := by
        rintro rfl
        exact hne hl
      refine ⟨hmem.2 ⟨hjk, hj⟩, hl, ?_⟩
      rw [used_removeKey, hu, decide_eq_true hjk]
      rfl

/-- The tables whose callback is called are those that used the key. -/
theorem mem_called {k t' : ℕ} {doFree : Bool} :
    t' ∈ (s.removeKey k doFree).1 ↔
      (∃ table ∈ s.allTables, table.id = t' ∧ table.callback) ∧ s.used t' k := by
  simp only [removeKey, List.mem_map, List.mem_filter, Bool.and_eq_true]
  constructor
  · rintro ⟨table, ⟨hmem, hcb, hused⟩, rfl⟩
    exact ⟨⟨table, hmem, rfl, hcb⟩, hused⟩
  · rintro ⟨⟨table, hmem, rfl, hcb⟩, hused⟩
    exact ⟨table, ⟨hmem, hcb, hused⟩, rfl⟩

theorem keys_addKey : (s.addKey i a).keys = s.keys ++ [i] := rfl

theorem lladdr_addKey : (s.addKey i a).lladdr = Function.update s.lladdr i a := rfl

theorem Coherent.addKey (h : Coherent s) (hi : i ∉ s.keys) (ha : ∀ j ∈ s.keys, s.lladdr j ≠ a) :
    Coherent (s.addKey i a) where
  lladdr := by
    have hsame : s.keys.map (Function.update s.lladdr i a) = s.keys.map s.lladdr :=
      List.map_congr_left fun j hj => Function.update_of_ne (ne_of_mem_of_not_mem hj hi) _ _
    rw [keys_addKey, lladdr_addKey, List.map_append, hsame, List.map_singleton,
      Function.update_self, List.nodup_append']
    refine ⟨h.lladdr, List.nodup_singleton _, ?_⟩
    rw [List.disjoint_singleton]
    intro hmem
    obtain ⟨j, hj, hja⟩ := List.mem_map.1 hmem
    exact ha j hj hja
  tables := h.tables
  numTables := h.numTables
  usedKeys j hj := List.mem_append_left _ (h.usedKeys j hj)
  usedTables := h.usedTables

section

variable [DecidableEq Addr]

/-- A new key alone is in no table. -/
theorem lookup_addKey (h : Coherent s) (hi : i ∉ s.keys) (ha : ∀ j ∈ s.keys, s.lladdr j ≠ a)
    (t' : ℕ) (a' : Addr) : (s.addKey i a).lookup t' a' = s.lookup t' a' := by
  have h' := h.addKey hi ha
  have hzero : s.usedMap i = 0 := by
    by_contra hne
    exact hi (h.usedKeys i hne)
  refine lookup_congr h h' (fun j => ?_) fun j _ => rfl
  have hused : (s.addKey i a).used t' j = s.used t' j := rfl
  constructor
  · rintro ⟨hj, hl, hu⟩
    rw [hused] at hu
    have hji : j ≠ i := by
      rintro rfl
      rw [used, hzero] at hu
      simp at hu
    rw [keys_addKey, List.mem_append, List.mem_singleton] at hj
    refine ⟨hj.resolve_right hji, ?_, hu⟩
    rwa [lladdr_addKey, Function.update_of_ne hji] at hl
  · rintro ⟨hj, hl, hu⟩
    have hji : j ≠ i := ne_of_mem_of_not_mem hj hi
    refine ⟨List.mem_append_left _ hj, ?_, hu⟩
    rwa [lladdr_addKey, Function.update_of_ne hji]

/-- What `select_for_removal` takes is the address of a key that no table has
locked. -/
theorem exists_of_worst {policy : Policy Addr} {ks : List ℕ} {acc : Option Addr} {b : Addr}
    (h : worst policy s ks acc = some b) :
    acc = some b ∨ ∃ k ∈ ks, s.lladdr k = b ∧ s.lockedMap k = 0 := by
  induction ks generalizing acc with
  | nil => exact Or.inl h
  | cons k ks ih =>
      rcases ih h with hacc | ⟨k', hk', hrest⟩
      · by_cases hlocked : s.lockedMap k = 0
        · have hk : s.lladdr k = b → ∃ k' ∈ k :: ks, s.lladdr k' = b ∧ s.lockedMap k' = 0 :=
            fun hb => ⟨k, List.mem_cons_self, hb, hlocked⟩
          rw [if_neg (not_not_intro hlocked)] at hacc
          cases acc with
          | none => exact Or.inr (hk (Option.some.inj hacc))
          | some a =>
              rcases policy.gcGetWorst_mem s.usedCount a (s.lladdr k) b hacc with rfl | hb
              · exact Or.inl rfl
              · exact Or.inr (hk hb.symm)
        · rw [if_pos hlocked] at hacc
          exact Or.inl hacc
      · exact Or.inr ⟨k', List.mem_cons_of_mem _ hk', hrest⟩

theorem exists_of_selectForRemoval {policy : Policy Addr} {b : Addr}
    (h : selectForRemoval policy s a = some b) :
    worst policy s s.keys none = some b ∧ ∃ k ∈ s.keys, s.lladdr k = b ∧ s.lockedMap k = 0 := by
  unfold selectForRemoval at h
  split at h
  next => cases h
  next b' hb' =>
    split at h
    next =>
      obtain rfl := Option.some.inj h
      refine ⟨hb', ?_⟩
      rcases exists_of_worst hb' with hnone | hk
      · cases hnone
      · exact hk
    next => cases h

/-- What `nbr_table_add_lladdr` evicts: when no memory block is left, for an
address without a key, the address `b` of a key `k` that no table has locked. -/
structure Evicts (policy : Policy Addr) (s : State Addr Data) (a b : Addr) (called : List ℕ)
    (k : ℕ) : Prop where
  full : false ∉ s.mem
  new : ∀ j ∈ s.keys, s.lladdr j ≠ a
  key : k ∈ s.keys
  lladdr : s.lladdr k = b
  unlocked : s.lockedMap k = 0
  worst : worst policy s s.keys none = some b
  called : called = (s.removeKey k false).1

end

/-- A new key in a slot of its own, used by one table. -/
theorem useItem_addKey [DecidableEq Addr] [Inhabited Data] (h : Coherent s)
    (hholds : Pool.Holds s.mem (i :: s.keys)) (ht : s.Registered t)
    (ha : ∀ j ∈ s.keys, s.lladdr j ≠ a) :
    Sound ((s.addKey i a).useItem t i) ∧ ∀ t', s.Registered t' → ∀ a',
      ((s.addKey i a).useItem t i).lookup t' a' =
        if t' = t ∧ a = a' then some default else s.lookup t' a' := by
  have hi : i ∉ s.keys := (List.nodup_cons.1 hholds.nodup).1
  have h' := h.addKey hi ha
  have hmem : i ∈ (s.addKey i a).keys := List.mem_append_right _ (List.mem_singleton_self i)
  have ht₁ : (s.addKey i a).Registered t := ht
  refine ⟨{ h'.useItem ht₁ hmem with holds := ?_ }, fun t' ht' a' => ?_⟩
  · exact hholds.of_perm (List.perm_append_singleton i s.keys).symm
  · have ht₁' : (s.addKey i a).Registered t' := ht'
    rw [lookup_useItem h' ht₁ hmem ht₁', lookup_addKey h hi ha, lladdr_addKey,
      Function.update_self]

/-- The item of a key that is there, or of one in a slot that had none. -/
def Placed [Inhabited Data] (s s' : State Addr Data) (t i : ℕ) (a : Addr) : Prop :=
  s' = s.useItem t i ∨
    (i ∉ s.keys ∧ ∃ mem, s' = (State.addKey { s with mem := mem } i a).useItem t i)

/-- `nbr_table_add_lladdr` leaves everything as it was, or it makes an entry with
cleared data, after an eviction or without one. -/
theorem addLladdr_cases [DecidableEq Addr] [Inhabited Data] (policy : Policy Addr) (h : Sound s)
    (ht : s.Registered t) (a : Addr) :
    (s.addLladdr policy t a = { item := none, evicted := none, state := s }) ∨
    (∃ i s', s.addLladdr policy t a = { item := some i, evicted := none, state := s' } ∧
      Sound s' ∧ s'.allTables = s.allTables ∧ s.Placed s' t i a ∧
      ∀ t', s.Registered t' → ∀ a', s'.lookup t' a' =
        if t' = t ∧ a = a' then some default else s.lookup t' a') ∨
    (∃ i b called s', s.addLladdr policy t a =
        { item := some i, evicted := some (b, called), state := s' } ∧
      Evicts policy s a b called i ∧ Sound s' ∧ s'.allTables = s.allTables ∧
      s' = ((s.removeKey i false).2.addKey i a).useItem t i ∧
      ∀ t', s.Registered t' → ∀ a', s'.lookup t' a' =
        if t' = t ∧ a = a' then some default else if b = a' then none else s.lookup t' a') := by
  cases hindex : s.indexFromLladdr a with
  | some i =>
      obtain ⟨hi, rfl⟩ := (indexFromLladdr_eq_some h.toCoherent).1 hindex
      have hallowed : (entryIsAllowed policy s t (s.lladdr i)).1 = false ∨
          (entryIsAllowed policy s t (s.lladdr i)).1 = true := Bool.eq_false_or_eq_true _ |>.symm
      rcases hallowed with hno | hyes
      · exact Or.inl (by simp [addLladdr, hno])
      · refine Or.inr (Or.inl ⟨i, s.useItem t i, by simp [addLladdr, hyes, hindex],
          { h.toCoherent.useItem ht hi with holds := h.holds }, rfl, Or.inl rfl,
          fun t' ht' a' => ?_⟩)
        exact lookup_useItem h.toCoherent ht hi ht' a'
  | none =>
      have hnew := indexFromLladdr_eq_none.1 hindex
      have hget : s.getFromLladdr t a = none := by simp [getFromLladdr, hindex]
      by_cases hfull : false ∈ s.mem
      · have hsome : ∃ i mem, Pool.alloc s.mem = some (i, mem) := by
          cases halloc : Pool.alloc s.mem with
          | none => exact absurd hfull (Pool.alloc_eq_none.1 halloc)
          | some r => exact ⟨r.1, r.2, rfl⟩
        obtain ⟨i, mem, halloc⟩ := hsome
        have hentry : entryIsAllowed policy s t a = (policy.canAcceptNew a none, none) := by
          simp [entryIsAllowed, hget, hfull]
        cases haccept : policy.canAcceptNew a none with
        | false => exact Or.inl (by simp [addLladdr, hentry, haccept])
        | true =>
            have hcoherent : Coherent { s with mem := mem } :=
              { h.toCoherent with }
            have hholds := h.holds.alloc halloc
            obtain ⟨hsound, hlookup⟩ := useItem_addKey hcoherent hholds ht hnew
            exact Or.inr (Or.inl ⟨i, _, by
              simp [addLladdr, hentry, haccept, hindex, allocate, halloc], hsound, rfl,
              Or.inr ⟨(List.nodup_cons.1 hholds.nodup).1, mem, rfl⟩, hlookup⟩)
      · have hentry : entryIsAllowed policy s t a =
            ((selectForRemoval policy s a).isSome, selectForRemoval policy s a) := by
          simp [entryIsAllowed, hget, hfull, hindex]
        cases hselect : selectForRemoval policy s a with
        | none => exact Or.inl (by simp [addLladdr, hentry, hselect])
        | some b =>
            obtain ⟨hworst, k, hk, hkb, hunlocked⟩ := exists_of_selectForRemoval hselect
            have hkindex : s.indexFromLladdr b = some k :=
              (indexFromLladdr_eq_some h.toCoherent).2 ⟨hk, hkb⟩
            have halloc : Pool.alloc s.mem = none := Pool.alloc_eq_none.2 hfull
            have hremoved : Coherent (s.removeKey k false).2 := h.toCoherent.removeKey
            have hholds : Pool.Holds (s.removeKey k false).2.mem
                (k :: (s.removeKey k false).2.keys) :=
              h.holds.of_perm (List.perm_cons_erase hk)
            have hnew' : ∀ j ∈ (s.removeKey k false).2.keys,
                (s.removeKey k false).2.lladdr j ≠ a :=
              fun j hj => hnew j (List.mem_of_mem_erase hj)
            have ht' : (s.removeKey k false).2.Registered t := ht
            obtain ⟨hsound, hlookup⟩ := useItem_addKey hremoved hholds ht' hnew'
            refine Or.inr (Or.inr ⟨k, b, _, _, by
              simp [addLladdr, hentry, hselect, hindex, allocate, halloc, hkindex],
              ⟨hfull, hnew, hk, hkb, hunlocked, hworst, rfl⟩, hsound, rfl, rfl,
              fun t' ht'' a' => ?_⟩)
            rw [hlookup t' ht'' a', lookup_removeKey h.toCoherent hk, hkb]

theorem used_remove (h : Coherent s) (ht : s.Registered t) {t' i' : ℕ} (ht' : s.Registered t') :
    (s.remove t i).used t' i' = (s.used t' i' && !decide (i' = i ∧ t' = t)) := by
  have hindex : (s.remove t i).index t' = s.index t' := rfl
  rw [used, hindex, remove, getLsbD_clearBit _ (index_lt_eight h ht), used]
  congr 3
  apply propext
  constructor
  · rintro ⟨hi, hj⟩
    exact ⟨hi, index_inj ht' ht hj⟩
  · rintro ⟨rfl, rfl⟩
    exact ⟨rfl, rfl⟩

theorem Sound.remove (h : Sound s) (ht : s.Registered t) (i : ℕ) : Sound (s.remove t i) where
  lladdr := h.lladdr
  tables := h.tables
  numTables := h.numTables
  usedKeys j hj := h.usedKeys j (clearBit_ne_zero hj)
  usedTables j k hk := by
    rw [State.remove, getLsbD_clearBit _ (index_lt_eight h.toCoherent ht), Bool.and_eq_true] at hk
    exact h.usedTables j k hk.1
  holds := h.holds

/-- An item that is removed takes the address of its key from one table. -/
theorem lookup_remove [DecidableEq Addr] (h : Sound s) (ht : s.Registered t) (i : ℕ)
    {t' : ℕ} (ht' : s.Registered t') (a : Addr) :
    (s.remove t i).lookup t' a =
      if t' = t ∧ i ∈ s.keys ∧ s.lladdr i = a then none else s.lookup t' a := by
  have h' := (h.remove ht i).toCoherent
  split
  next heq =>
    obtain ⟨rfl, hi, rfl⟩ := heq
    refine (lookup_eq_none h').2 ?_
    rintro j ⟨hj, hl, hu⟩
    have hji : j = i := List.inj_on_of_nodup_map h.lladdr hj hi hl
    rw [used_remove h.toCoherent ht ht', hji] at hu
    simp at hu
  next hne =>
    refine lookup_congr h.toCoherent h' (fun j => ?_) fun j _ => rfl
    constructor
    · rintro ⟨hj, hl, hu⟩
      rw [used_remove h.toCoherent ht ht', Bool.and_eq_true] at hu
      exact ⟨hj, hl, hu.1⟩
    · rintro ⟨hj, hl, hu⟩
      refine ⟨hj, hl, ?_⟩
      have hno : ¬ (j = i ∧ t' = t) := by
        rintro ⟨rfl, rfl⟩
        exact hne ⟨rfl, hj, hl⟩
      rw [used_remove h.toCoherent ht ht', hu, decide_eq_false hno]
      rfl

theorem Sound.lock (h : Sound s) (t i : ℕ) : Sound (s.lock t i) := { h with }

theorem Sound.unlock (h : Sound s) (t i : ℕ) : Sound (s.unlock t i) := { h with }

theorem Sound.setData (h : Sound s) (t i : ℕ) (v : Data) : Sound (s.setData t i v) := { h with }

/-- A write to an item changes the map of its table, if the item is in use. -/
theorem lookup_setData [DecidableEq Addr] (h : Coherent s) (t i : ℕ) (v : Data) (t' : ℕ)
    (a : Addr) :
    (s.setData t i v).lookup t' a =
      if t' = t ∧ i ∈ s.keys ∧ s.used t i ∧ s.lladdr i = a then some v else s.lookup t' a := by
  have h' : Coherent (s.setData t i v) := { h with }
  split
  next heq =>
    obtain ⟨rfl, hi, hu, rfl⟩ := heq
    exact (lookup_eq_some h').2 ⟨i, ⟨hi, rfl, hu⟩, by simp [setData]⟩
  next hne =>
    refine lookup_congr h h' (fun j => ⟨fun ⟨h₁, h₂, h₃⟩ => ⟨h₁, h₂, h₃⟩,
      fun ⟨h₁, h₂, h₃⟩ => ⟨h₁, h₂, h₃⟩⟩) fun j hj => ?_
    by_cases htt : t' = t
    · subst htt
      have hji : j ≠ i := by
        rintro rfl
        exact hne ⟨rfl, hj.key, hj.used, hj.lladdr⟩
      simp [setData, hji]
    · simp [setData, htt]

theorem register_ids (s : State Addr Data) (t : ℕ) (callback : Bool) :
    (s.register t callback).allTables.map Table.id = s.allTables.map Table.id ∨
      (¬ s.Registered t ∧ s.allTables.length < maxNumTables ∧
        (s.register t callback).allTables.map Table.id = s.allTables.map Table.id ++ [t]) := by
  unfold register
  split
  · left
    rw [List.map_map]
    refine List.map_congr_left fun table _ => ?_
    rw [Function.comp_apply]
    split <;> rfl
  next hreg =>
    split
    next hlt => exact Or.inr ⟨hreg, hlt, by simp⟩
    next => exact Or.inl rfl

/-- A registration changes nothing but the list of tables. -/
theorem register_eq (s : State Addr Data) (t : ℕ) (callback : Bool) :
    s.register t callback = { s with allTables := (s.register t callback).allTables } := by
  unfold register
  split
  · rfl
  · split <;> rfl

theorem Sound.register (h : Sound s) (t : ℕ) (callback : Bool) :
    Sound (s.register t callback) := by
  have hlen : s.allTables.length ≤ (s.register t callback).allTables.length ∧
      (s.register t callback).allTables.length ≤ maxNumTables := by
    have hmap (l : List Table) : l.length = (l.map Table.id).length := (List.length_map _).symm
    rcases register_ids s t callback with hids | ⟨-, hlt, hids⟩
    · rw [hmap (s.register t callback).allTables, hids, ← hmap]
      exact ⟨Nat.le_refl _, h.numTables⟩
    · rw [hmap (s.register t callback).allTables, hids, List.length_append, ← hmap]
      exact ⟨Nat.le_add_right _ _, hlt⟩
  have htables : ((s.register t callback).allTables.map Table.id).Nodup := by
    rcases register_ids s t callback with hids | ⟨hno, -, hids⟩
    · rw [hids]
      exact h.tables
    · rw [hids, List.nodup_append']
      exact ⟨h.tables, List.nodup_singleton _, List.disjoint_singleton.2 hno⟩
  rw [register_eq]
  exact
    { lladdr := h.lladdr
      tables := htables
      numTables := hlen.2
      usedKeys := h.usedKeys
      usedTables := fun i j hj => Nat.lt_of_lt_of_le (h.usedTables i j hj) hlen.1
      holds := h.holds }

theorem registered_register {callback : Bool} {t' : ℕ}
    (h : (s.register t callback).Registered t') : s.Registered t' ∨ (t' = t ∧
      (s.register t callback).allTables.map Table.id = s.allTables.map Table.id ++ [t]) := by
  rcases register_ids s t callback with hids | ⟨-, -, hids⟩
  · rw [Registered, hids] at h
    exact Or.inl h
  · have h' := h
    rw [Registered, hids, List.mem_append, List.mem_singleton] at h'
    exact h'.imp id fun ht => ⟨ht, hids⟩

theorem Registered.register (h : s.Registered t) (t' : ℕ) (callback : Bool) :
    (s.register t' callback).Registered t := by
  rcases register_ids s t' callback with hids | ⟨-, -, hids⟩
  · rw [Registered, hids]
    exact h
  · rw [Registered, hids]
    exact List.mem_append_left _ h

/-- A table keeps its index. -/
theorem index_register (h : s.Registered t) (t' : ℕ) (callback : Bool) :
    (s.register t' callback).index t = s.index t := by
  rcases register_ids s t' callback with hids | ⟨-, -, hids⟩
  · exact index_congr hids
  · cases hfind : (s.allTables.map Table.id).findIdx? (· = t) with
    | none =>
        have := List.findIdx?_eq_none_iff.1 hfind t h
        simp at this
    | some j => rw [index_eq, index_eq, hids, List.findIdx?_append, hfind, Option.some_or]

theorem used_register (h : s.Registered t) (t' : ℕ) (callback : Bool) (i : ℕ) :
    (s.register t' callback).used t i = s.used t i := by
  rw [used, used, index_register h, register_eq]

section

variable [DecidableEq Addr]

theorem lookup_register (h : Sound s) (ht : s.Registered t) (t' : ℕ) (callback : Bool) (a : Addr) :
    (s.register t' callback).lookup t a = s.lookup t a := by
  have hkeys : (s.register t' callback).keys = s.keys := by rw [register_eq]
  have hlladdr : (s.register t' callback).lladdr = s.lladdr := by rw [register_eq]
  have hdata : (s.register t' callback).data = s.data := by rw [register_eq]
  refine lookup_congr h.toCoherent (h.register t' callback).toCoherent (fun j => ?_)
    fun j _ => by rw [hdata]
  constructor
  · rintro ⟨hj, hl, hu⟩
    rw [hkeys] at hj
    rw [hlladdr] at hl
    rw [used_register ht] at hu
    exact ⟨hj, hl, hu⟩
  · rintro ⟨hj, hl, hu⟩
    exact ⟨hkeys ▸ hj, hlladdr ▸ hl, by rwa [used_register ht]⟩

/-- A table begins without entries. -/
theorem lookup_register_new (h : Sound s) {callback : Bool} (hno : ¬ s.Registered t)
    (hids : (s.register t callback).allTables.map Table.id = s.allTables.map Table.id ++ [t])
    (a : Addr) : (s.register t callback).lookup t a = none := by
  have hindex : (s.register t callback).index t = s.allTables.length := by
    have hfind : (s.allTables.map Table.id).findIdx? (· = t) = none := by
      rw [List.findIdx?_eq_none_iff]
      intro t' ht'
      have hne : t' ≠ t := ne_of_mem_of_not_mem ht' hno
      simpa using hne
    rw [index_eq, hids, List.findIdx?_append, hfind]
    simp
  refine (lookup_eq_none (h.register t callback).toCoherent).2 ?_
  rintro i ⟨-, -, hu⟩
  have husedMap : (s.register t callback).usedMap = s.usedMap := by rw [register_eq]
  rw [used, hindex, husedMap] at hu
  exact Nat.lt_irrefl _ (h.usedTables i _ hu)

end

theorem Sound.removeKey {k : ℕ} (h : Sound s) (hk : k ∈ s.keys) :
    Sound (s.removeKey k true).2 where
  toCoherent := h.toCoherent.removeKey
  holds := (h.holds.of_perm (List.perm_cons_erase hk)).free

theorem clearKeys_spec (h : Sound s) (turns : ℕ) (hturns : s.keys.length = turns) :
    Sound (clearKeys turns s) ∧ (clearKeys turns s).keys = [] ∧
      (clearKeys turns s).allTables = s.allTables := by
  induction turns generalizing s with
  | zero => exact ⟨h, List.length_eq_zero_iff.1 hturns, rfl⟩
  | succ turns ih =>
      cases hkeys : s.keys with
      | nil =>
          rw [hkeys] at hturns
          cases hturns
      | cons k ks =>
          have hk : k ∈ s.keys := hkeys ▸ List.mem_cons_self
          have hlen : (s.removeKey k true).2.keys.length = turns := by
            have : (s.keys.erase k).length = s.keys.length - 1 := List.length_erase_of_mem hk
            change (s.keys.erase k).length = turns
            omega
          have hstep : clearKeys (turns + 1) s = clearKeys turns (s.removeKey k true).2 := by
            rw [clearKeys, hkeys]
            rfl
          rw [hstep]
          exact ih (h.removeKey hk) hlen

theorem lookup_clear [DecidableEq Addr] (h : Sound s) (t : ℕ) (a : Addr) :
    s.clear.lookup t a = none := by
  obtain ⟨hsound, hkeys, -⟩ := clearKeys_spec h s.keys.length rfl
  refine (lookup_eq_none hsound.toCoherent).2 ?_
  rintro i ⟨hi, -, -⟩
  have hi' : i ∈ (clearKeys s.keys.length s).keys := hi
  rw [hkeys] at hi'
  cases hi'

/-! ## The loop over a table -/

/-- The items that `nbr_table_head` and `nbr_table_next` go through. -/
inductive Visits (s : State Addr Data) (t : ℕ) : Option ℕ → List ℕ → Prop
  | stop : Visits s t none []
  | step (i : ℕ) (l : List ℕ) : Visits s t (s.next t (some i)) l → Visits s t (some i) (i :: l)

theorem keysAfter_eq (l₁ : List ℕ) {l₂ : List ℕ} (h : s.keys = l₁ ++ i :: l₂) (hi : i ∉ l₁) :
    s.keysAfter i = l₂ := by
  rw [keysAfter, h, List.dropWhile_append_of_pos]
  · simp
  · intro j hj
    simpa using ne_of_mem_of_not_mem hj hi

theorem visits_find? (h : Coherent s) (l₁ : List ℕ) {l₂ : List ℕ} (hkeys : s.keys = l₁ ++ l₂) :
    Visits s t (l₂.find? (s.used t)) (l₂.filter (s.used t)) := by
  induction l₂ generalizing l₁ with
  | nil => exact Visits.stop
  | cons j l₂ ih =>
      have hrest := ih (l₁ ++ [j]) (by rw [hkeys, List.append_assoc]; rfl)
      by_cases hj : s.used t j
      · rw [List.find?_cons_of_pos hj, List.filter_cons_of_pos hj]
        refine Visits.step j _ ?_
        have hnot : j ∉ l₁ := by
          have hnodup : s.keys.Nodup := h.lladdr.of_map
          rw [hkeys, List.nodup_append'] at hnodup
          exact fun hmem => hnodup.2.2 hmem List.mem_cons_self
        rw [next, keysAfter_eq l₁ hkeys hnot]
        exact hrest
      · rw [List.find?_cons_of_neg hj, List.filter_cons_of_neg hj]
        exact hrest

/-- The loop over a table stops, and sees the item of each entry once. -/
theorem visits_head (h : Coherent s) (t : ℕ) :
    Visits s t (s.head t) (s.keys.filter (s.used t)) := by
  have hhead : s.head t = s.keys.find? (s.used t) := by
    unfold head
    cases hkeys : s.keys with
    | nil => rfl
    | cons k ks =>
        have hafter : s.keysAfter k = ks := keysAfter_eq [] hkeys (by simp)
        simp only [List.head?_cons, next, hafter]
        by_cases hk : s.used t k
        · rw [if_pos hk, List.find?_cons_of_pos hk]
        · rw [if_neg hk, List.find?_cons_of_neg hk]
  rw [hhead]
  exact visits_find? h [] rfl

theorem mem_visited {t : ℕ} : i ∈ s.keys.filter (s.used t) ↔ ∃ a, s.Entry t a i := by
  rw [List.mem_filter]
  constructor
  · rintro ⟨hi, hu⟩
    exact ⟨s.lladdr i, hi, rfl, hu⟩
  · rintro ⟨a, hi, -, hu⟩
    exact ⟨hi, hu⟩

/-! ## The key that the default policy takes -/

theorem countBits_eq_zero (turns used : ℕ) : countBits turns used = 0 ↔ used % 2 ^ turns = 0 := by
  induction turns generalizing used with
  | zero => simp [countBits, Nat.mod_one]
  | succ turns ih =>
      rw [countBits, Nat.add_eq_zero_iff, ih, Nat.pow_succ', Nat.mod_mul, Nat.add_eq_zero_iff,
        Nat.mul_eq_zero]
      simp

section

variable [DecidableEq Addr]

theorem usedCount_eq_zero (h : Coherent s) (hi : i ∈ s.keys) :
    s.usedCount (s.lladdr i) = 0 ↔ s.usedMap i = 0 := by
  have hindex : s.indexFromLladdr (s.lladdr i) = some i :=
    (indexFromLladdr_eq_some h).2 ⟨hi, rfl⟩
  rw [usedCount, hindex]
  change countBits 8 (s.usedMap i).toNat = 0 ↔ _
  rw [countBits_eq_zero, Nat.mod_eq_of_lt (s.usedMap i).isLt]
  exact ⟨fun h₀ => BitVec.eq_of_toNat_eq h₀, fun h₀ => by rw [h₀]; rfl⟩

/-- A policy that compares two addresses by a score takes an unlocked one of the least. -/
theorem score_le_of_worst (policy : Policy Addr) (score : (Addr → ℕ) → Addr → ℤ)
    (hpolicy : ∀ used a b,
      policy.gcGetWorst used a b = some (if score used b < score used a then b else a))
    {ks : List ℕ} {acc : Option Addr} {b : Addr} (h : worst policy s ks acc = some b) :
    (∀ c, acc = some c → score s.usedCount b ≤ score s.usedCount c) ∧
      ∀ k ∈ ks, s.lockedMap k = 0 → score s.usedCount b ≤ score s.usedCount (s.lladdr k) := by
  induction ks generalizing acc with
  | nil =>
      have hacc : acc = some b := h
      refine ⟨fun c hc => ?_, by simp⟩
      rw [hacc, Option.some.injEq] at hc
      exact Int.le_of_eq (by rw [hc])
  | cons k ks ih =>
      obtain ⟨hacc, hrest⟩ := ih h
      by_cases hlocked : s.lockedMap k = 0
      · rw [if_neg (not_not_intro hlocked)] at hacc
        cases acc with
        | none =>
            refine ⟨fun c hc => (by cases hc), fun j hj hjl => ?_⟩
            rcases List.mem_cons.1 hj with rfl | hj
            · exact hacc _ rfl
            · exact hrest j hj hjl
        | some a =>
            have hle := hacc _ (hpolicy s.usedCount a (s.lladdr k))
            have hmin : score s.usedCount b ≤ score s.usedCount a ∧
                score s.usedCount b ≤ score s.usedCount (s.lladdr k) := by
              split at hle <;> omega
            refine ⟨fun c hc => ?_, fun j hj hjl => ?_⟩
            · rw [← Option.some.inj hc]
              exact hmin.1
            · rcases List.mem_cons.1 hj with rfl | hj
              · exact hmin.2
              · exact hrest j hj hjl
      · rw [if_pos hlocked] at hacc
        refine ⟨hacc, fun j hj hjl => ?_⟩
        rcases List.mem_cons.1 hj with rfl | hj
        · exact absurd hjl hlocked
        · exact hrest j hj hjl

/-- The default policy takes a key that no unlocked one is used less than. -/
theorem usedCount_le_of_worst {b : Addr} (h : worst defaultPolicy s s.keys none = some b)
    (hi : i ∈ s.keys) (hunlocked : s.lockedMap i = 0) :
    s.usedCount b ≤ s.usedCount (s.lladdr i) := by
  have hle := (score_le_of_worst defaultPolicy (fun used a => (used a : ℤ))
    (fun used a b => by simp only [defaultPolicy, Int.ofNat_lt]) h).2 i hi hunlocked
  exact Int.ofNat_le.1 hle

/-- The policy of RPL Lite takes an unlocked key of the greatest rank. -/
theorem rank_le_of_worst {getRank : Addr → ℕ} {b : Addr}
    (h : worst (rplPolicy getRank) s s.keys none = some b) (hi : i ∈ s.keys)
    (hunlocked : s.lockedMap i = 0) : getRank (s.lladdr i) ≤ getRank b := by
  have hle := (score_le_of_worst (rplPolicy getRank) (fun _ a => -(getRank a : ℤ))
    (fun used a b => by simp only [rplPolicy, Int.neg_lt_neg_iff, Int.ofNat_lt]) h).2 i hi hunlocked
  exact Int.ofNat_le.1 (Int.neg_le_neg_iff.1 hle)

end

end State

/-! ## Calls -/

/-- The table that a call is about. -/
def Event.table : Event Addr Data → Option ℕ
  | .register t _ => some t
  | .addLladdr t _ _ => some t
  | .remove t _ => some t
  | .lock t _ => some t
  | .unlock t _ => some t
  | .write t _ _ => some t
  | .clear => none

/-- The table that a call uses, other than to register it. -/
def Event.uses : Event Addr Data → Option ℕ
  | .register _ _ => none
  | e => e.table

/-- A table is used only after `nbr_table_register`. -/
def State.Legal (s : State Addr Data) (e : Event Addr Data) : Prop :=
  ∀ t ∈ e.uses, s.Registered t

instance (s : State Addr Data) (e : Event Addr Data) : Decidable (s.Legal e) :=
  inferInstanceAs (Decidable (∀ t ∈ e.uses, s.Registered t))

section

variable [DecidableEq Addr] [Inhabited Data]

/-- The lookups after a call are those that its effects make. -/
def State.Follows (s s' : State Addr Data) (effects : List (Effect Addr Data)) : Prop :=
  ∀ m : Maps Addr Data, (∀ t, s.Registered t → ∀ a, s.lookup t a = m t a) →
    (∀ t, ¬ s.Registered t → ∀ a, m t a = none) →
    (∀ t, s'.Registered t → ∀ a, s'.lookup t a = effects.foldl Effect.apply m t a) ∧
    ∀ t, ¬ s'.Registered t → ∀ a, effects.foldl Effect.apply m t a = none

theorem follows_nil {s s' : State Addr Data} (htables : s'.allTables = s.allTables)
    (hlookup : ∀ t, s.Registered t → ∀ a, s'.lookup t a = s.lookup t a) : s.Follows s' [] := by
  have hreg (t : ℕ) : s'.Registered t ↔ s.Registered t := by
    rw [State.Registered, htables, State.Registered]
  intro m hm hno
  refine ⟨fun t ht a => ?_, fun t ht => hno t (fun h => ht ((hreg t).2 h))⟩
  rw [hlookup t ((hreg t).1 ht), hm t ((hreg t).1 ht)]
  rfl

/-- One effect, on states with the same tables. -/
theorem follows_singleton {s s' : State Addr Data} {e : Effect Addr Data}
    (htables : s'.allTables = s.allTables)
    (hlookup : ∀ m : Maps Addr Data, (∀ t, s.Registered t → ∀ a, s.lookup t a = m t a) →
      ∀ t, s.Registered t → ∀ a, s'.lookup t a = e.apply m t a)
    (hno : ∀ t, ¬ s.Registered t → ∀ a, e ≠ .added t a) : s.Follows s' [e] := by
  have hreg (t : ℕ) : s'.Registered t ↔ s.Registered t := by
    rw [State.Registered, htables, State.Registered]
  intro m hm hnone
  refine ⟨fun t ht a => hlookup m hm t ((hreg t).1 ht) a, fun t ht a => ?_⟩
  have ht' : ¬ s.Registered t := fun h => ht ((hreg t).2 h)
  rw [← Option.not_isSome_iff_eq_none]
  intro hsome
  rcases isSome_apply.1 hsome with ⟨h, -⟩ | h
  · rw [hnone t ht' a] at h
    cases h
  · exact hno t ht' a h

end

namespace State

theorem Sound.clear {s : State Addr Data} (h : Sound s) : Sound s.clear :=
  (clearKeys_spec h s.keys.length rfl).1

section

variable [DecidableEq Addr] [Inhabited Data]

/-- A registration makes no effect: a new table has an empty map. -/
theorem follows_register {s : State Addr Data} (h : Sound s) (t : ℕ) (callback : Bool) :
    s.Follows (s.register t callback) [] := by
  intro m hm hno
  refine ⟨fun t' ht' a => ?_, fun t' ht' => hno t' (fun ht => ht' (ht.register t callback))⟩
  rcases em (s.Registered t') with hreg | hreg
  · rw [lookup_register h hreg, hm t' hreg]
    rfl
  · rcases registered_register ht' with hr | ⟨rfl, hids⟩
    · exact absurd hr hreg
    · rw [lookup_register_new h hreg hids]
      exact (hno t' hreg a).symm

theorem follows_remove {s : State Addr Data} (h : Sound s) {t : ℕ} (ht : s.Registered t)
    (i : ℕ) : s.Follows (s.remove t i)
      (if i ∈ s.keys then [.removed t (s.lladdr i)] else []) := by
  split
  next hi =>
    refine follows_singleton rfl (fun m hm t' ht' a => ?_) (fun _ _ _ => by simp)
    rw [lookup_remove h ht i ht', Effect.apply, update_update_apply, hm t' ht']
    simp [hi, eq_comm]
  next hi =>
    refine follows_nil rfl fun t' ht' a => ?_
    rw [lookup_remove h ht i ht', if_neg (fun hc => hi hc.2.1)]

theorem follows_write {s : State Addr Data} (h : Sound s) {t : ℕ} (ht : s.Registered t) (i : ℕ)
    (v : Data) : s.Follows (s.setData t i v)
      (if i ∈ s.keys ∧ s.used t i then [.wrote t (s.lladdr i) v] else []) := by
  split
  next hi =>
    refine follows_singleton rfl (fun m hm t' ht' a => ?_) (fun _ _ _ => by simp)
    have hentry : s.lookup t (s.lladdr i) = some (s.data t i) :=
      Entry.lookup_eq h.toCoherent ⟨hi.1, rfl, hi.2⟩
    rw [lookup_setData h.toCoherent, Effect.apply, update_update_apply, ← hm t ht, hentry,
      hm t' ht']
    simp [hi.1, hi.2, eq_comm]
  next hi =>
    refine follows_nil rfl fun t' ht' a => ?_
    rw [lookup_setData h.toCoherent, if_neg (fun hc => hi ⟨hc.2.1, hc.2.2.1⟩)]

theorem follows_clear {s : State Addr Data} (h : Sound s) : s.Follows s.clear [.cleared] := by
  refine follows_singleton (clearKeys_spec h s.keys.length rfl).2.2 (fun m hm t ht a => ?_)
    (fun _ _ _ => by simp)
  rw [lookup_clear h]
  rfl

/-- What an addition does to the maps. -/
theorem follows_addLladdr {s : State Addr Data} (h : Sound s) {t : ℕ} (ht : s.Registered t)
    (policy : Policy Addr) (a : Addr) :
    (s.addLladdr policy t a).state.Sound ∧ s.Follows (s.addLladdr policy t a).state
      (((s.addLladdr policy t a).evicted.toList.map fun e => .evicted e.1 e.2) ++
        if (s.addLladdr policy t a).item.isSome then [.added t a] else []) := by
  have hadded (t' : ℕ) (ht' : ¬ s.Registered t') (a' : Addr) :
      (Effect.added t a : Effect Addr Data) ≠ .added t' a' := by
    intro heq
    injection heq with heq
    exact ht' (heq ▸ ht)
  rcases addLladdr_cases policy h ht a with hr | ⟨i, s', hr, hsound, htables, -, hlookup⟩ |
    ⟨i, b, called, s', hr, -, hsound, htables, -, hlookup⟩
  · rw [hr]
    exact ⟨h, follows_nil rfl fun _ _ _ => rfl⟩
  · rw [hr]
    refine ⟨hsound, follows_singleton htables (fun m hm t' ht' a' => ?_) hadded⟩
    change s'.lookup t' a' = _
    rw [hlookup t' ht', Effect.apply, update_update_apply, hm t' ht']
    simp [eq_comm]
  · rw [hr]
    refine ⟨hsound, ?_⟩
    have hreg (t' : ℕ) : s'.Registered t' ↔ s.Registered t' := by
      rw [Registered, htables, Registered]
    intro m hm hnone
    change (∀ t', s'.Registered t' → ∀ a', s'.lookup t' a' =
        Effect.apply (Effect.apply m (.evicted b called)) (.added t a) t' a') ∧
      ∀ t', ¬ s'.Registered t' → ∀ a',
        Effect.apply (Effect.apply m (.evicted b called)) (.added t a) t' a' = none
    have happly (t' : ℕ) (a' : Addr) :
        Effect.apply (Effect.apply m (.evicted b called)) (.added t a) t' a' =
          if t = t' ∧ a = a' then some default else if a' = b then none else m t' a' := by
      rw [Effect.apply, update_update_apply]
      congr 1
      exact Function.update_apply _ _ _ _
    refine ⟨fun t' ht' a' => ?_, fun t' ht' a' => ?_⟩
    · rw [happly, hlookup t' ((hreg t').1 ht'), hm t' ((hreg t').1 ht')]
      simp [eq_comm]
    · rw [happly, if_neg (fun hc : t = t' ∧ a = a' => ht' ((hreg t').2 (hc.1 ▸ ht))),
        hnone t' (fun hc => ht' ((hreg t').2 hc)), ite_self]

end

theorem call_spec [DecidableEq Addr] [Inhabited Addr] [Inhabited Data] {s : State Addr Data}
    (h : s.Sound) {e : Event Addr Data} (hlegal : s.Legal e) :
    (s.call e).2.Sound ∧ s.Follows (s.call e).2 (s.call e).1 := by
  cases e with
  | register t callback => exact ⟨h.register t callback, follows_register h t callback⟩
  | addLladdr t lladdr policy => exact follows_addLladdr h (hlegal t rfl) policy _
  | remove t item =>
      cases item with
      | none => exact ⟨h, follows_nil rfl fun _ _ _ => rfl⟩
      | some i => exact ⟨h.remove (hlegal t rfl) i, follows_remove h (hlegal t rfl) i⟩
  | lock t item =>
      cases item with
      | none => exact ⟨h, follows_nil rfl fun _ _ _ => rfl⟩
      | some i => exact ⟨h.lock t i, follows_singleton rfl (fun _ hm => hm) fun _ _ _ => nofun⟩
  | unlock t item =>
      cases item with
      | none => exact ⟨h, follows_nil rfl fun _ _ _ => rfl⟩
      | some i =>
          refine ⟨h.unlock t i, ?_⟩
          simp only [call]
          split
          · exact follows_singleton rfl (fun _ hm => hm) fun _ _ _ => nofun
          · exact follows_nil rfl fun _ _ _ => rfl
  | write t i v => exact ⟨h.setData t i v, follows_write h (hlegal t rfl) i v⟩
  | clear => exact ⟨h.clear, follows_clear h⟩

end State

end Den2ne.NbrTable
