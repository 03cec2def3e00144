import Den2ne.Coap.Bytes
import Den2ne.Coap.Serialize
import Mathlib.Data.List.Pairwise
import Mathlib.Tactic.IntervalCases

/-!
# Coding of options and numbers

What the serialization writes for a list of options is decoded again, unless nothing follows the
last option and its value is empty: the parser looks for a byte behind the header of every option.
-/

namespace Den2ne.Coap

variable {delta length number turns : ℕ} {bytes rest value : List UInt8}

/-! ## Headers -/

theorem optionNibble_le (n : ℕ) : optionNibble n ≤ 14 := by
  unfold optionNibble
  split
  · omega
  · split <;> omega

/-- An extension is decoded, of a value that two bytes can hold. -/
theorem decodeExtension_optionExtension (hlength : length < 65536) (bytes : List UInt8) :
    decodeExtension (optionNibble length) (optionExtension length ++ bytes) =
      some (length, bytes) := by
  unfold optionNibble optionExtension
  by_cases h12 : length < 13
  · rw [if_pos h12, if_neg (by omega), if_neg (by omega), decodeExtension.eq_def,
      if_neg (by omega), if_neg (by omega)]
    rfl
  · rw [if_neg h12]
    by_cases h268 : length ≤ 0xFF + 13
    · rw [if_pos h268, if_neg (by omega), if_pos (by omega), decodeExtension.eq_def, if_pos rfl]
      simp only [List.cons_append, List.nil_append, UInt8.toNat_ofNat']
      rw [Nat.mod_eq_of_lt (by omega), Nat.add_sub_of_le (by omega)]
    · rw [if_neg h268, if_pos (by omega), decodeExtension.eq_def, if_neg (by decide), if_pos rfl]
      simp only [List.cons_append, List.nil_append, UInt8.toNat_ofNat']
      have heq : 14 + 255 + (length - 269) / 256 % 2 ^ 8 * 256 + (length - 269) % 2 ^ 8 =
          length := by omega
      rw [heq]

/-- The header of an option is decoded when something follows it. -/
theorem decodeOption_setOptionHeader (hdelta : delta < 65536) (hlength : value.length < 65536)
    (rest : List UInt8) :
    ∃ first bytes, setOptionHeader delta value.length ++ value ++ rest = first :: bytes ∧
      first.toNat / 16 ≠ 15 ∧
      decodeOption first bytes = if value ++ rest = [] then none else some (delta, value, rest) := by
  have hd := optionNibble_le delta
  have hl := optionNibble_le value.length
  refine ⟨UInt8.ofNat (optionNibble delta * 16 + optionNibble value.length),
    optionExtension delta ++ (optionExtension value.length ++ (value ++ rest)), ?_, ?_, ?_⟩
  · simp only [setOptionHeader, List.cons_append, List.append_assoc]
  · rw [UInt8.toNat_ofNat']
    omega
  · have hfirst : (UInt8.ofNat (optionNibble delta * 16 + optionNibble value.length)).toNat =
        optionNibble delta * 16 + optionNibble value.length := by
      rw [UInt8.toNat_ofNat']
      omega
    have hext : optionExtension value.length ++ (value ++ rest) = [] ↔ value ++ rest = [] := by
      rw [List.append_eq_nil_iff, and_iff_right_iff_imp]
      intro hnil
      rw [(List.append_eq_nil_iff.1 hnil).1]
      rfl
    rw [decodeOption, hfirst, show (optionNibble delta * 16 + optionNibble value.length) / 16 =
      optionNibble delta by omega, show (optionNibble delta * 16 + optionNibble value.length) % 16 =
      optionNibble value.length by omega]
    simp only [decodeExtension_optionExtension hdelta, hext,
      decodeExtension_optionExtension hlength]
    by_cases hnil : value ++ rest = []
    · rw [if_pos hnil, if_pos hnil, ite_self]
    · have hbytes : optionExtension delta ++ (optionExtension value.length ++ (value ++ rest)) ≠
          [] := fun h => hnil (hext.1 (List.append_eq_nil_iff.1 h).2)
      rw [if_neg hbytes, if_neg hnil, if_neg hnil, if_neg (by simp), List.take_left,
        List.drop_left]

/-! ## Options -/

/-- The bytes of options, after one with the number `number`. -/
def encodeOptions : ℕ → List CodedOption → List UInt8
  | _, [] => []
  | number, o :: opts =>
      setOptionHeader (o.1 - number) o.2.length ++ o.2 ++ encodeOptions o.1 opts

/-- The number of the last option. -/
def lastNumber (number : ℕ) (opts : List CodedOption) : ℕ := (opts.getLast?.map Prod.fst).getD number

theorem lastNumber_cons (number : ℕ) (o : CodedOption) (opts : List CodedOption) :
    lastNumber number (o :: opts) = lastNumber o.1 opts := by
  cases opts with
  | nil => rfl
  | cons p opts => rw [lastNumber, lastNumber, List.getLast?_cons_cons, List.getLast?_cons]; rfl

theorem encodeOptions_append (number : ℕ) (opts opts' : List CodedOption) :
    encodeOptions number (opts ++ opts') =
      encodeOptions number opts ++ encodeOptions (lastNumber number opts) opts' := by
  induction opts generalizing number with
  | nil => rfl
  | cons o opts ih =>
      rw [List.cons_append, encodeOptions, encodeOptions, ih, lastNumber_cons]
      simp only [List.append_assoc]

theorem length_le_encodeOptions {o : CodedOption} {opts : List CodedOption} (h : o ∈ opts)
    (number : ℕ) : o.2.length ≤ (encodeOptions number opts).length := by
  induction opts generalizing number with
  | nil => cases h
  | cons p opts ih =>
      rw [encodeOptions, List.length_append, List.length_append]
      rcases List.mem_cons.1 h with rfl | h
      · omega
      · have hle := ih h p.1
        omega

/-- The options can be coded: in the order of known numbers, and not too long. -/
structure Codable (number : ℕ) (opts : List CodedOption) : Prop where
  ge : ∀ o ∈ opts, number ≤ o.1
  le : ∀ o ∈ opts, o.1 ≤ optionSize1
  sorted : opts.Pairwise fun o p => o.1 ≤ p.1
  length : ∀ o ∈ opts, o.2.length < 65536

theorem Codable.tail {o : CodedOption} {opts : List CodedOption} (h : Codable number (o :: opts)) :
    Codable o.1 opts where
  ge := (List.pairwise_cons.1 h.sorted).1
  le p hp := h.le p (List.mem_cons_of_mem o hp)
  sorted := (List.pairwise_cons.1 h.sorted).2
  length p hp := h.length p (List.mem_cons_of_mem o hp)

/-- What is behind the options: nothing, or the marker and the payload. -/
def codedEnding : Ending → List UInt8
  | .payload bytes => 0xFF :: bytes
  | _ => []

/-- What was encoded is decoded; the last option is lost if its value is empty and nothing follows
it. -/
theorem decode_encodeOptions {opts : List CodedOption} (h : Codable number opts) {ending : Ending}
    (hending : ending ≠ .malformed)
    (hturns : (encodeOptions number opts ++ codedEnding ending).length < turns) :
    decode turns number (encodeOptions number opts ++ codedEnding ending) =
      if ending = .finished ∧ ∃ o ∈ opts.getLast?, o.2 = [] then (opts.dropLast, .malformed)
      else (opts, ending) := by
  induction opts generalizing number turns with
  | nil =>
      obtain ⟨turns, rfl⟩ : ∃ t, turns = t + 1 := ⟨turns - 1, by omega⟩
      rw [if_neg (by simp)]
      cases ending with
      | malformed => exact absurd rfl hending
      | finished => rfl
      | payload bytes => rfl
  | cons o opts ih =>
      obtain ⟨number', v⟩ := o
      obtain ⟨turns, rfl⟩ : ∃ t, turns = t + 1 := ⟨turns - 1, by omega⟩
      have hge : number ≤ number' := h.ge _ List.mem_cons_self
      have hle : number' ≤ optionSize1 := h.le _ List.mem_cons_self
      have hlarge : optionSize1 = 60 := rfl
      have hlength : v.length < 65536 := h.length _ List.mem_cons_self
      obtain ⟨first, bytes, hbytes, hmarker, hdecode⟩ :=
        decodeOption_setOptionHeader (show number' - number < 65536 by omega) hlength
          (encodeOptions number' opts ++ codedEnding ending)
      have hcode : encodeOptions number ((number', v) :: opts) ++ codedEnding ending =
          first :: bytes := by
        rw [encodeOptions, List.append_assoc]
        exact hbytes
      rw [hcode] at hturns ⊢
      rw [decode, if_neg hmarker, hdecode]
      by_cases hnil : v ++ (encodeOptions number' opts ++ codedEnding ending) = []
      · obtain ⟨hv, hrest⟩ := List.append_eq_nil_iff.1 hnil
        obtain ⟨henc, hend⟩ := List.append_eq_nil_iff.1 hrest
        have hopts : opts = [] := by
          cases opts with
          | nil => rfl
          | cons p opts => simp [encodeOptions, setOptionHeader] at henc
        have hfinished : ending = .finished := by
          cases ending with
          | malformed => exact absurd rfl hending
          | finished => rfl
          | payload bytes => cases hend
        subst hopts
        rw [if_pos hnil, if_pos ⟨hfinished, by simpa using hv⟩]
        rfl
      · have hrest : (encodeOptions number' opts ++ codedEnding ending).length < turns := by
          have hlen := congrArg List.length hbytes
          simp only [List.length_append, List.length_cons, setOptionHeader] at hlen hturns ⊢
          omega
        rw [if_neg hnil]
        dsimp only
        rw [Nat.add_sub_of_le hge, if_neg (Nat.not_lt.2 hle), ih h.tail hrest]
        cases opts with
        | nil =>
            have hv : ¬ (ending = .finished ∧ ∃ o ∈ [(number', v)].getLast?, o.2 = []) := by
              rintro ⟨rfl, o, ho, hov⟩
              obtain rfl := Option.mem_some_iff.1 ho
              exact hnil (by rw [show v = [] from hov]; rfl)
            rw [if_neg hv, if_neg (by simp)]
        | cons p opts =>
            rw [List.getLast?_cons_cons]
            split
            · rfl
            · rfl

/-! ## Numbers -/

/-- A number is read as it was written. -/
theorem intValue_intBytes (h : number < 2 ^ 32) : intValue (intBytes number) = number := by
  unfold intBytes
  by_cases h24 : 2 ^ 24 ≤ number
  · rw [if_pos h24, if_pos (by omega), if_pos (by omega), if_pos (by omega)]
    simp only [intValue, List.cons_append, List.nil_append, List.foldl_cons, List.foldl_nil,
      UInt8.toNat_ofNat']
    omega
  rw [if_neg h24]
  by_cases h16 : 2 ^ 16 ≤ number
  · rw [if_pos h16, if_pos (by omega), if_pos (by omega)]
    simp only [intValue, List.cons_append, List.nil_append, List.foldl_cons, List.foldl_nil,
      UInt8.toNat_ofNat']
    omega
  rw [if_neg h16]
  by_cases h8 : 2 ^ 8 ≤ number
  · rw [if_pos h8, if_pos (by omega)]
    simp only [intValue, List.cons_append, List.nil_append, List.foldl_cons, List.foldl_nil,
      UInt8.toNat_ofNat']
    omega
  rw [if_neg h8]
  by_cases h0 : 0 < number
  · rw [if_pos h0]
    simp only [intValue, List.nil_append, List.foldl_cons, List.foldl_nil, UInt8.toNat_ofNat']
    omega
  · rw [if_neg h0, show number = 0 by omega]
    rfl

theorem intBytes_eq_nil_iff : intBytes number = [] ↔ number = 0 := by
  unfold intBytes
  constructor
  · intro h
    simp only [List.append_eq_nil_iff] at h
    by_contra hne
    rw [if_pos (Nat.pos_of_ne_zero hne)] at h
    simp at h
  · rintro rfl
    rfl

/-- A block is read as it was written. -/
theorem ofNum_toNum {b : Block} (hnum : b.num ≤ 0x0FFFFF) (k : ℕ) (hk : k < 8)
    (hsize : b.size = 16 * 2 ^ k) :
    b.toNum < 2 ^ 32 ∧ (Block.ofNum b.toNum).num = b.num ∧
      (Block.ofNum b.toNum).more = (if b.more ≠ 0 then 1 else 0) ∧
      (Block.ofNum b.toNum).size = b.size := by
  have hlog : Nat.log2 (b.size / 16) = k := by
    rw [hsize, Nat.mul_div_cancel_left _ (by decide), Nat.log2_two_pow]
  have hmod : b.num * 16 % 2 ^ 32 = 2 ^ 4 * b.num := by omega
  have hnum' : b.toNum = 16 * b.num + ((if b.more ≠ 0 then 8 else 0) + k) := by
    rw [Block.toNum, hlog, hmod, Nat.or_assoc]
    have hlow : (if b.more ≠ 0 then 8 else 0) ||| (15 &&& k) =
        (if b.more ≠ 0 then 8 else 0) + k := by
      split <;> interval_cases k <;> rfl
    rw [hlow, ← Nat.two_pow_add_eq_or_of_lt (by split <;> omega)]
  rw [hnum']
  refine ⟨?_, ?_, ?_, ?_⟩
  · split <;> omega
  · simp only [Block.ofNum]
    split <;> omega
  · simp only [Block.ofNum]
    split <;> omega
  · simp only [Block.ofNum]
    have hlow : (16 * b.num + ((if b.more ≠ 0 then 8 else 0) + k)) % 8 = k := by
      split <;> omega
    rw [hlow, hsize]

end Den2ne.Coap
