import Den2ne.Coap.Bytes
import Den2ne.Memory.Range

/-!
# The fields of a parsed message

An option changes the field of its kind, and the bitmap. So a field holds what the options with its
number make of it.
-/

namespace Den2ne.Coap

/-- The number of an option of this kind. -/
def Kind.number : Kind → ℕ
  | .int o => o.number
  | .bytes o => o.number
  | .ifNoneMatch => optionIfNoneMatch
  | .block o => o.number
  | .string o => o.number
  | .proxy o => o.number
  | .unknown => 0

theorem kind_number {k : Kind} (hk : k ≠ .unknown) : kind k.number = k := by
  cases k with
  | unknown => exact absurd rfl hk
  | ifNoneMatch => rfl
  | int o => cases o <;> rfl
  | bytes o => cases o <;> rfl
  | block o => cases o <;> rfl
  | string o => cases o <;> rfl
  | proxy o => cases o <;> rfl

theorem number_kind {n : ℕ} (h : kind n ≠ .unknown) : (kind n).number = n := by
  revert h
  unfold kind
  split <;> intro h
  all_goals first | rfl | exact absurd rfl h

/-- A kind has one number. -/
theorem kind_eq_iff {k : Kind} (hk : k ≠ .unknown) {n : ℕ} : kind n = k ↔ n = k.number := by
  constructor
  · rintro rfl
    exact (number_kind hk).symm
  · rintro rfl
    exact kind_number hk

namespace Message

section SetOption

variable {Str : Type*}

/-- Only the bitmap is changed. -/
theorem field_setOption {α : Type*} (field : Message Str → α)
    (h : ∀ m x, field { m with options := x } = field m) (m : Message Str) (opt : ℕ) :
    field (m.setOption opt) = field m := by
  unfold setOption
  split
  · rfl
  · exact h m _

theorem isOption_setOption (m : Message Str) (opt n : ℕ) :
    (m.setOption opt).isOption n = (m.isOption n || decide (n = opt ∧ n ≤ optionSize1)) := by
  have hlarge : optionSize1 = 60 := rfl
  unfold setOption isOption
  by_cases hopt : optionSize1 < opt
  · have hne : ¬ (n = opt ∧ n ≤ optionSize1) := fun h => by omega
    rw [if_pos hopt, decide_eq_false hne, Bool.or_false]
  · rw [if_neg hopt]
    by_cases hn : n ≤ optionSize1
    · have hbit : (1#64 <<< opt).getLsbD n = decide (n = opt) := by
        rw [BitVec.getLsbD_shiftLeft, BitVec.getLsbD_one]
        grind
      simp [hn, hbit, BitVec.getLsbD_or]
    · simp [hn]

end SetOption

variable {cfg : Config} {m : Message (List UInt8)}

/-- The field of a kind is changed by the options with its number. -/
theorem field_addOption {α : Type*} (field : Message (List UInt8) → α) {k : Kind}
    (hk : k ≠ .unknown) (change : α → List UInt8 → α)
    (hset : ∀ m x, field { m with options := x } = field m)
    (hput : ∀ m k' v, field (put cfg m k' v) = if k' = k then change (field m) v else field m)
    (m : Message (List UInt8)) (c : CodedOption) :
    field (m.addOption cfg c) = if c.1 = k.number then change (field m) c.2 else field m := by
  rw [addOption, hput, field_setOption field hset]
  simp only [kind_eq_iff hk]

theorem int_put (m : Message (List UInt8)) (k : Kind) (v : List UInt8) (o : IntOption) :
    (m.put cfg k v).int o = if k = .int o then intValue v % 2 ^ o.width else m.int o := by
  rw [put.eq_def]
  cases k with
  | int p =>
      by_cases hp : o = p
      · subst hp
        rw [if_pos rfl]
        exact if_pos rfl
      · rw [if_neg fun h => hp (Kind.int.inj h).symm]
        exact if_neg hp
  | bytes p | ifNoneMatch | block p | unknown => rfl
  | string p => cases p <;> rfl
  | proxy p => exact apply_ite (Message.int · o) _ _ _ |>.trans (ite_self _)

theorem bytes_put (m : Message (List UInt8)) (k : Kind) (v : List UInt8) (o : ByteOption) :
    (m.put cfg k v).bytes o = if k = .bytes o then v.take 8 else m.bytes o := by
  rw [put.eq_def]
  cases k with
  | bytes p =>
      simp only [Kind.bytes.injEq, eq_comm (a := p)]
      rfl
  | int p | ifNoneMatch | block p | unknown => rfl
  | string p => cases p <;> rfl
  | proxy p => exact apply_ite (Message.bytes · o) _ _ _ |>.trans (ite_self _)

theorem block_put (m : Message (List UInt8)) (k : Kind) (v : List UInt8) (o : BlockOption) :
    (m.put cfg k v).block o = if k = .block o then Block.ofNum (intValue v) else m.block o := by
  rw [put.eq_def]
  cases k with
  | block p =>
      simp only [Kind.block.injEq, eq_comm (a := p)]
      rfl
  | int p | bytes p | ifNoneMatch | unknown => rfl
  | string p => cases p <;> rfl
  | proxy p => exact apply_ite (Message.block · o) _ _ _ |>.trans (ite_self _)

/-- What an option makes of a string. -/
def mergeString (o : StringOption) (dst value : List UInt8) : List UInt8 :=
  match o.separator with
  | none => value
  | some separator => merge separator dst value

theorem mergeString_of_separator {o : StringOption} {separator : UInt8}
    (h : o.separator = some separator) : mergeString o = merge separator := by
  funext dst value
  rw [mergeString, h]

theorem string_put (m : Message (List UInt8)) (k : Kind) (v : List UInt8) (o : StringOption) :
    (m.put cfg k v).string o = if k = .string o then mergeString o (m.string o) v
      else m.string o := by
  rw [put.eq_def]
  cases k with
  | string p =>
      by_cases hp : o = p
      · subst hp
        rw [if_pos rfl]
        dsimp only [mergeString]
        cases o.separator with
        | none => exact if_pos rfl
        | some separator => exact if_pos rfl
      · rw [if_neg fun h => hp (Kind.string.inj h).symm]
        dsimp only
        split
        · exact if_neg hp
        · exact if_neg hp
  | int p | bytes p | ifNoneMatch | block p | unknown => rfl
  | proxy p => exact apply_ite (Message.string · o) _ _ _ |>.trans (ite_self _)

/-- The header and the payload, which no option changes. -/
def fixed {Str : Type*} (m : Message Str) : ℕ × UInt8 × UInt16 × ℕ × List UInt8 × Str :=
  (m.type, m.code, m.mid, m.tokenLen, m.token, m.payload)

theorem fixed_put (m : Message (List UInt8)) (k : Kind) (v : List UInt8) :
    (m.put cfg k v).fixed = m.fixed ∧ (m.put cfg k v).options = m.options := by
  rw [put.eq_def]
  cases k with
  | int p | bytes p | ifNoneMatch | block p | unknown => exact ⟨rfl, rfl⟩
  | string p => cases p <;> exact ⟨rfl, rfl⟩
  | proxy p =>
      dsimp only
      split
      · exact ⟨rfl, rfl⟩
      · exact ⟨rfl, rfl⟩

/-! ## After all options -/

variable (cfg) (opts : List CodedOption)

theorem int_foldl (m : Message (List UInt8)) (o : IntOption) :
    (opts.foldl (addOption cfg) m).int o =
      (partsOf o.number opts).foldl (fun _ v => intValue v % 2 ^ o.width) (m.int o) :=
  field_foldl (·.int o) o.number _
    (field_addOption (·.int o) (k := .int o) nofun _ (fun _ _ => rfl) fun m k v =>
      int_put m k v o) opts m

theorem bytes_foldl (m : Message (List UInt8)) (o : ByteOption) :
    (opts.foldl (addOption cfg) m).bytes o =
      (partsOf o.number opts).foldl (fun _ v => v.take 8) (m.bytes o) :=
  field_foldl (·.bytes o) o.number _
    (field_addOption (·.bytes o) (k := .bytes o) nofun _ (fun _ _ => rfl) fun m k v =>
      bytes_put m k v o) opts m

theorem block_foldl (m : Message (List UInt8)) (o : BlockOption) :
    (opts.foldl (addOption cfg) m).block o =
      (partsOf o.number opts).foldl (fun _ v => Block.ofNum (intValue v)) (m.block o) :=
  field_foldl (·.block o) o.number _
    (field_addOption (·.block o) (k := .block o) nofun _ (fun _ _ => rfl) fun m k v =>
      block_put m k v o) opts m

theorem string_foldl (m : Message (List UInt8)) (o : StringOption) :
    (opts.foldl (addOption cfg) m).string o =
      (partsOf o.number opts).foldl (mergeString o) (m.string o) :=
  field_foldl (·.string o) o.number _
    (field_addOption (·.string o) (k := .string o) nofun _ (fun _ _ => rfl) fun m k v =>
      string_put m k v o) opts m

theorem isOption_foldl (m : Message (List UInt8)) (n : ℕ) :
    (opts.foldl (addOption cfg) m).isOption n =
      (partsOf n opts).foldl (fun b _ => b || decide (n ≤ optionSize1)) (m.isOption n) := by
  refine field_foldl (·.isOption n) n _ (fun m c => ?_) opts m
  have hput : ∀ m : Message (List UInt8), (m.put cfg (kind c.1) c.2).isOption n = m.isOption n :=
    fun m => by rw [isOption, isOption, (fixed_put m _ _).2]
  rw [addOption, hput, isOption_setOption]
  by_cases hc : n = c.1
  · simp [hc]
  · simp [hc, Ne.symm hc]

theorem fixed_foldl (m : Message (List UInt8)) :
    (opts.foldl (addOption cfg) m).fixed = m.fixed := by
  induction opts generalizing m with
  | nil => rfl
  | cons c opts ih =>
      rw [List.foldl_cons, ih, addOption, (fixed_put _ _ _).1]
      exact field_setOption fixed (fun _ _ => rfl) m c.1

end Message

end Den2ne.Coap
