import Den2ne.Hlmac.Address
import Den2ne.Memory.Range
import Mathlib.Algebra.Order.Ring.Int
import Mathlib.Data.List.GetD
import Mathlib.Data.List.TakeWhile

/-!
# Printing addresses

`hlmac_addr_to_str` prints every id with `sprintf` into a block of `3 * len + 1` bytes, at
a position that moves on by `3`. The id goes through a `char`: where that is signed, an id
from `128` on is printed with eight digits, of which the next ids and the end of the string
leave three. `list_this_node_entry` copies the string without its last id into a block
that has no room for the end of a string.

`int` has 32 bits. What a block holds before it is written is a parameter.
-/

namespace Den2ne

open Memory

/-! ## The C library -/

/-- An upper-case hexadecimal digit. -/
def hexDigit (d : ℕ) : UInt8 := if d < 10 then UInt8.ofNat (48 + d) else UInt8.ofNat (55 + d)

/-- `(char)id`, converted to `unsigned int` for the conversion `X`. -/
def charToUnsigned (signed : Bool) (id : UInt8) : ℕ :=
  if signed then (Int.bmod id.toNat 256 % 2 ^ 32).toNat else id.toNat

/-- The digits that the conversion `2.2X` prints: at least two, and no leading zero before
these. -/
def hexDigits (n : ℕ) : List ℕ :=
  let digits := ((List.range 8).map fun i => n / 16 ^ (7 - i) % 16).dropWhile (· = 0)
  List.replicate (2 - digits.length) 0 ++ digits

/-- What `sprintf(s, "%2.2X.", (char)id)` writes, with the end of the string. -/
def sprintfId (signed : Bool) (id : UInt8) : List UInt8 :=
  (hexDigits (charToUnsigned signed id)).map hexDigit ++ [46, 0]

/-- The string in a block of memory; `none` if there is no end of a string in it. -/
def cString (block : List UInt8) : Option (List UInt8) :=
  if 0 ∈ block then some (block.takeWhile (· ≠ 0)) else none

/-- `strncpy(dest, src, n)`: what `dest` holds. -/
def strncpy (src : ℕ → UInt8) (n : ℕ) : List UInt8 :=
  let chars := (load src 0 n).takeWhile (· ≠ 0)
  chars ++ List.replicate (n - chars.length) 0

/-! ## Addresses -/

/-- A block of memory, from its first byte on, and how far it was written. -/
structure Written where
  mem : ℕ → UInt8
  top : ℕ

namespace Written

/-- Write bytes from a position on. -/
def write (w : Written) (s : ℕ) (bytes : List UInt8) : Written :=
  ⟨store w.mem s bytes, max w.top (s + bytes.length)⟩

end Written

/-- `get_addr_index_value`. -/
def getAddrIndexValue (addr : HlmacAddr) (k : ℕ) : UInt8 :=
  if k < addr.len.toNat then (addr.address.getD []).getD k 0 else 0

/-- The loop of `hlmac_addr_to_str`, for the ids that are left, and the end of the string. -/
def hlmacAddrToStrLoop (signed : Bool) : List UInt8 → ℕ → Written → Written
  | [], s, w => w.write s [0]
  | id :: ids, s, w => hlmacAddrToStrLoop signed ids (s + 3) (w.write s (sprintfId signed id))

/-- `hlmac_addr_to_str`, into a block that holds `old`. -/
def hlmacAddrToStr (signed : Bool) (old : ℕ → UInt8) (addr : HlmacAddr) : Written :=
  hlmacAddrToStrLoop signed ((List.range addr.len.toNat).map (getAddrIndexValue addr)) 0 ⟨old, 0⟩

/-- The string that `hlmac_addr_to_str` returns: its block has `3 * len + 1` bytes. -/
def strAddr (signed : Bool) (old : ℕ → UInt8) (addr : HlmacAddr) : Option (List UInt8) :=
  cString (load (hlmacAddrToStr signed old addr).mem 0 (3 * addr.len.toNat + 1))

/-- The block for `str_top_addr` in `list_this_node_entry`, of `(len - 1) * 3` bytes; with
one id it is the text `/`. -/
def strTopAddr (signed : Bool) (old : ℕ → UInt8) (addr : HlmacAddr) : List UInt8 :=
  if 1 < addr.len.toNat then
    strncpy (hlmacAddrToStr signed old addr).mem ((addr.len.toNat - 1) * 3)
  else [47, 0]

/-- Two upper-case digits and a dot. -/
def renderId (id : UInt8) : List UInt8 := [hexDigit (id.toNat / 16), hexDigit (id.toNat % 16), 46]

/-- Two upper-case digits and a dot for every id. -/
def render (ids : List UInt8) : List UInt8 := ids.flatMap renderId

/-- The `char` holds the ids. -/
def NoSign (signed : Bool) (ids : List UInt8) : Prop := signed = true → ∀ id ∈ ids, id < 128

/-! ## What is left of an id -/

/-- The three bytes of an id that nothing writes over. -/
def cell (signed : Bool) (id : UInt8) : List UInt8 := (sprintfId signed id).take 3

theorem hexDigits_byte : ∀ n < 256, hexDigits n = [n / 16, n % 16] := by decide +kernel

theorem hexDigits_negative : ∀ n < 128, hexDigits (2 ^ 32 - 128 + n) =
    [15, 15, 15, 15, 15, 15, 8 + n / 16, n % 16] := by decide +kernel

theorem charToUnsigned_of_lt {signed : Bool} {id : UInt8} (h : signed = true → id < 128) :
    charToUnsigned signed id = id.toNat := by
  rw [charToUnsigned]
  split
  · rename_i hs
    have hlt : id.toNat < 128 := h hs
    rw [Int.bmod_eq_of_le (by omega) (by omega)]
    omega
  · rfl

theorem sprintfId_of_lt {signed : Bool} {id : UInt8} (h : signed = true → id < 128) :
    sprintfId signed id = renderId id ++ [0] := by
  rw [sprintfId, charToUnsigned_of_lt h, hexDigits_byte _ id.toNat_lt]
  rfl

/-- An id that a signed `char` does not hold. -/
theorem sprintfId_of_ge {id : UInt8} (h : 128 ≤ id) :
    ∃ n < 128, sprintfId true id =
      [70, 70, 70, 70, 70, 70, hexDigit (8 + n / 16), hexDigit (n % 16), 46, 0] := by
  have hle : 128 ≤ id.toNat := h
  have hlt := id.toNat_lt
  have hbmod : Int.bmod id.toNat 256 = id.toNat - 256 := by
    rw [Int.bmod_def]
    split <;> omega
  have hchar : charToUnsigned true id = 2 ^ 32 - 128 + (id.toNat - 128) := by
    rw [charToUnsigned, if_pos rfl, hbmod]
    omega
  refine ⟨id.toNat - 128, by omega, ?_⟩
  rw [sprintfId, hchar, hexDigits_negative _ (by omega)]
  rfl

theorem holds_or_negative (signed : Bool) (id : UInt8) :
    (signed = true → id < 128) ∨ signed = true ∧ 128 ≤ id := by
  cases signed with
  | false => exact .inl fun h => by cases h
  | true => exact (UInt8.lt_or_le id 128).imp (fun h _ => h) fun h => ⟨rfl, h⟩

theorem length_sprintfId (signed : Bool) (id : UInt8) : 3 < (sprintfId signed id).length := by
  rcases holds_or_negative signed id with h | ⟨rfl, h⟩
  · rw [sprintfId_of_lt h]
    exact Nat.lt_succ_self 3
  · obtain ⟨n, -, heq⟩ := sprintfId_of_ge h
    rw [heq, List.length_cons]
    exact Nat.lt_of_sub_eq_succ rfl

theorem cell_of_lt {signed : Bool} {id : UInt8} (h : signed = true → id < 128) :
    cell signed id = renderId id := by
  rw [cell, sprintfId_of_lt h]
  rfl

/-- Such an id leaves the same three digits, whatever it is. -/
theorem cell_of_ge {id : UInt8} (h : 128 ≤ id) : cell true id = [70, 70, 70] := by
  obtain ⟨n, -, heq⟩ := sprintfId_of_ge h
  rw [cell, heq]
  rfl

theorem length_cell (signed : Bool) (id : UInt8) : (cell signed id).length = 3 := by
  rw [cell, List.length_take, Nat.min_eq_left (Nat.le_of_lt (length_sprintfId signed id))]

theorem hexDigit_inj : ∀ d < 16, ∀ e < 16, hexDigit d = hexDigit e → d = e := by decide

theorem hexDigit_ne_zero : ∀ d < 16, hexDigit d ≠ 0 := by decide

theorem zero_notMem_cell (signed : Bool) (id : UInt8) : (0 : UInt8) ∉ cell signed id := by
  have hlt := id.toNat_lt
  rcases holds_or_negative signed id with h | ⟨rfl, h⟩
  · rw [cell_of_lt h, renderId]
    have hhigh := hexDigit_ne_zero (id.toNat / 16) (by omega)
    have hlow := hexDigit_ne_zero (id.toNat % 16) (by omega)
    simp [hhigh.symm, hlow.symm]
  · rw [cell_of_ge h]
    decide

/-- The digits of an id are those of no other. -/
theorem renderId_inj {id id' : UInt8} (h : renderId id = renderId id') : id = id' := by
  have hlt := id.toNat_lt
  have hlt' := id'.toNat_lt
  obtain ⟨hhigh, htail⟩ := List.cons.inj h
  obtain ⟨hlow, -⟩ := List.cons.inj htail
  have h₁ := hexDigit_inj _ (by omega) _ (by omega) hhigh
  have h₂ := hexDigit_inj _ (by omega) _ (by omega) hlow
  exact UInt8.toNat_inj.1 (by omega)

/-- Nor is a dot left of an id that the `char` does not hold. -/
theorem cell_eq_renderId_iff {signed : Bool} {id id' : UInt8} :
    cell signed id = renderId id' ↔ (signed = true → id < 128) ∧ id = id' := by
  rcases holds_or_negative signed id with h | ⟨rfl, h⟩
  · rw [cell_of_lt h]
    exact ⟨fun heq => ⟨h, renderId_inj heq⟩, fun heq => heq.2 ▸ rfl⟩
  · refine ⟨fun heq => ?_, fun hand => absurd (hand.1 rfl) (UInt8.not_lt.2 h)⟩
    rw [cell_of_ge h, renderId] at heq
    exact absurd (List.cons.inj (List.cons.inj (List.cons.inj heq).2).2).1 (by decide)

theorem noSign_cons {signed : Bool} {id : UInt8} {ids : List UInt8} :
    NoSign signed (id :: ids) ↔ (signed = true → id < 128) ∧ NoSign signed ids := by
  simp only [NoSign, List.forall_mem_cons]
  exact imp_and

/-- The bytes that are left are those of a rendering only for ids that the `char` holds. -/
theorem flatMap_cell_eq_render_iff {signed : Bool} {ids ids' : List UInt8} :
    ids.flatMap (cell signed) = render ids' ↔ NoSign signed ids ∧ ids = ids' := by
  rw [render]
  induction ids generalizing ids' with
  | nil =>
      cases ids' with
      | nil => simp [NoSign]
      | cons id' ids' => simp [renderId]
  | cons id ids ih =>
      cases ids' with
      | nil =>
          have hne : cell signed id ≠ [] := fun h => by
            have hlength := length_cell signed id
            rw [h] at hlength
            cases hlength
          simp [hne]
      | cons id' ids' =>
          have hlength : (cell signed id).length = (renderId id').length := length_cell signed id
          rw [List.flatMap_cons, List.flatMap_cons, noSign_cons, List.cons.injEq]
          constructor
          · intro h
            obtain ⟨hhead, htail⟩ := List.append_inj h hlength
            obtain ⟨hid, heq⟩ := cell_eq_renderId_iff.1 hhead
            obtain ⟨hplain, hrest⟩ := ih.1 htail
            exact ⟨⟨hid, hplain⟩, heq, hrest⟩
          · rintro ⟨⟨hid, hplain⟩, heq, hrest⟩
            rw [cell_eq_renderId_iff.2 ⟨hid, heq⟩, ih.2 ⟨hplain, hrest⟩]

/-! ## The loop -/

/-- The loop leaves what is before its position, and puts three bytes for every id after
it. -/
theorem load_hlmacAddrToStrLoop (signed : Bool) (ids : List UInt8) (s : ℕ) (w : Written) :
    (∀ i < s, (hlmacAddrToStrLoop signed ids s w).mem i = w.mem i) ∧
      load (hlmacAddrToStrLoop signed ids s w).mem s (3 * ids.length + 1) =
        ids.flatMap (cell signed) ++ [0] := by
  induction ids generalizing s w with
  | nil =>
      exact ⟨fun i hi => store_of_lt hi, load_store w.mem s [0]⟩
  | cons id ids ih =>
      obtain ⟨hbefore, hafter⟩ := ih (s + 3) (w.write s (sprintfId signed id))
      refine ⟨fun i hi => ?_, ?_⟩
      · exact (hbefore i (Nat.lt_add_right 3 hi)).trans (store_of_lt hi)
      · have hcell : load (hlmacAddrToStrLoop signed (id :: ids) s w).mem s 3 = cell signed id := by
          have hsame : load (hlmacAddrToStrLoop signed (id :: ids) s w).mem s 3 =
              load (store w.mem s (sprintfId signed id)) s 3 :=
            load_congr fun i _ hi => hbefore i hi
          rw [hsame, ← take_load (Nat.le_of_lt (length_sprintfId signed id)), load_store]
          rfl
        rw [List.length_cons, show 3 * (ids.length + 1) + 1 = 3 + (3 * ids.length + 1) by omega,
          load_add, hcell, List.flatMap_cons, List.append_assoc]
        exact congrArg _ hafter

/-- Nothing past the string is written if the `char` holds the ids. -/
theorem top_hlmacAddrToStrLoop {signed : Bool} {ids : List UInt8} (h : NoSign signed ids) (s : ℕ)
    (w : Written) (hw : w.top ≤ s + 1) :
    (hlmacAddrToStrLoop signed ids s w).top = s + 3 * ids.length + 1 := by
  induction ids generalizing s w with
  | nil => exact Nat.max_eq_right hw
  | cons id ids ih =>
      obtain ⟨hid, hids⟩ := noSign_cons.1 h
      have hlength : (sprintfId signed id).length = 4 := by
        rw [sprintfId_of_lt hid]
        rfl
      have htop : (w.write s (sprintfId signed id)).top ≤ s + 3 + 1 := by
        rw [Written.write, hlength]
        exact Nat.max_le.2 ⟨by omega, Nat.le_refl _⟩
      rw [hlmacAddrToStrLoop, ih hids _ _ htop, List.length_cons]
      omega

theorem map_getAddrIndexValue {ids : List UInt8} (h : ids.length ≤ 255) :
    (List.range (HlmacAddr.ofIds ids).len.toNat).map (getAddrIndexValue (HlmacAddr.ofIds ids)) =
      ids := by
  have hlen := HlmacAddr.toNat_ofIds_len h
  refine List.ext_getElem ?_ fun i hi hi' => ?_
  · rw [List.length_map, List.length_range, hlen]
  · rw [List.getElem_map, List.getElem_range, getAddrIndexValue, if_pos (hlen ▸ hi')]
    exact List.getD_eq_getElem ids 0 hi'

section Strings

variable {signed : Bool} {old : ℕ → UInt8} {ids : List UInt8}

/-- The block after `hlmac_addr_to_str`. -/
theorem load_hlmacAddrToStr (h : ids.length ≤ 255) :
    load (hlmacAddrToStr signed old (HlmacAddr.ofIds ids)).mem 0 (3 * ids.length + 1) =
      ids.flatMap (cell signed) ++ [0] := by
  rw [hlmacAddrToStr, map_getAddrIndexValue h]
  exact (load_hlmacAddrToStrLoop signed ids 0 ⟨old, 0⟩).2

theorem length_cells (signed : Bool) (ids : List UInt8) :
    (ids.flatMap (cell signed)).length = ids.length * 3 := by
  induction ids with
  | nil => rfl
  | cons id ids ih =>
      rw [List.flatMap_cons, List.length_append, length_cell, ih, List.length_cons]
      omega

theorem zero_notMem_cells (signed : Bool) (ids : List UInt8) :
    (0 : UInt8) ∉ ids.flatMap (cell signed) := by
  intro hmem
  obtain ⟨id, -, hid⟩ := List.mem_flatMap.1 hmem
  exact zero_notMem_cell signed id hid

theorem takeWhile_cells (signed : Bool) (ids : List UInt8) (rest : List UInt8) :
    (ids.flatMap (cell signed) ++ 0 :: rest).takeWhile (· ≠ 0) = ids.flatMap (cell signed) := by
  have hall : ∀ x ∈ ids.flatMap (cell signed), decide (x ≠ 0) = true := fun x hx =>
    decide_eq_true fun hzero => zero_notMem_cells signed ids (hzero ▸ hx)
  rw [List.takeWhile_append_of_pos hall, List.takeWhile_cons_of_neg (by decide), List.append_nil]

/-- The string of an address, with what is left of every id. -/
theorem strAddr_eq (h : ids.length ≤ 255) :
    strAddr signed old (HlmacAddr.ofIds ids) = some (ids.flatMap (cell signed)) := by
  rw [strAddr, HlmacAddr.toNat_ofIds_len h, load_hlmacAddrToStr h, cString,
    if_pos (List.mem_append_right _ List.mem_cons_self), takeWhile_cells]

/-- The block for the parent holds three bytes for every id but the last, and no end of a
string. -/
theorem strTopAddr_eq (h : ids.length ≤ 255) (hlen : 2 ≤ ids.length) :
    strTopAddr signed old (HlmacAddr.ofIds ids) = ids.dropLast.flatMap (cell signed) := by
  have hcells : (ids.dropLast.flatMap (cell signed)).length = (ids.length - 1) * 3 := by
    rw [length_cells, List.length_dropLast]
  have hne : ids ≠ [] := List.ne_nil_of_length_pos (by omega)
  have hblock : load (hlmacAddrToStr signed old (HlmacAddr.ofIds ids)).mem 0
      ((ids.length - 1) * 3) = ids.dropLast.flatMap (cell signed) := by
    have hsplit : ids.flatMap (cell signed) =
        ids.dropLast.flatMap (cell signed) ++ cell signed (ids.getLast hne) := by
      conv_lhs => rw [← List.dropLast_append_getLast hne]
      rw [List.flatMap_append, List.flatMap_singleton]
    rw [← take_load (k := (ids.length - 1) * 3) (n := 3 * ids.length + 1) (by omega),
      load_hlmacAddrToStr h, hsplit, List.append_assoc, List.take_left' hcells]
  have hall : ∀ x ∈ ids.dropLast.flatMap (cell signed), decide (x ≠ 0) = true := fun x hx =>
    decide_eq_true fun hzero => zero_notMem_cells signed _ (hzero ▸ hx)
  rw [strTopAddr, HlmacAddr.toNat_ofIds_len h, if_pos (by omega), strncpy, hblock,
    List.takeWhile_eq_self_iff.2 hall, hcells, Nat.sub_self, List.replicate_zero, List.append_nil]

end Strings

/-- The string of these ids fills its block, has two digits and a dot for each of them, and
is that of no other address. -/
structure Faithful (signed : Bool) (old : ℕ → UInt8) (ids : List UInt8) : Prop where
  top : (hlmacAddrToStr signed old (HlmacAddr.ofIds ids)).top = 3 * ids.length + 1
  digits : strAddr signed old (HlmacAddr.ofIds ids) = some (render ids)
  inj : ∀ (old' : ℕ → UInt8) (ids' : List UInt8), ids'.length ≤ 255 →
    strAddr signed old' (HlmacAddr.ofIds ids') = strAddr signed old (HlmacAddr.ofIds ids) →
    ids' = ids

theorem faithful_iff {signed : Bool} {old : ℕ → UInt8} {ids : List UInt8}
    (h : ids.length ≤ 255) : Faithful signed old ids ↔ NoSign signed ids := by
  constructor
  · intro hf
    have hdigits := hf.digits
    rw [strAddr_eq h] at hdigits
    exact (flatMap_cell_eq_render_iff.1 (Option.some.inj hdigits)).1
  · intro hplain
    have hcells : ids.flatMap (cell signed) = render ids :=
      flatMap_cell_eq_render_iff.2 ⟨hplain, rfl⟩
    refine ⟨?_, ?_, fun old' ids' h' heq => ?_⟩
    · rw [hlmacAddrToStr, map_getAddrIndexValue h,
        top_hlmacAddrToStrLoop hplain 0 _ (Nat.zero_le _), Nat.zero_add]
    · rw [strAddr_eq h, hcells]
    · rw [strAddr_eq h', strAddr_eq h, hcells] at heq
      exact (flatMap_cell_eq_render_iff.1 (Option.some.inj heq)).2

/-- A string is rendered faithfully exactly where the `char` holds the ids. The block of
`str_top_addr` has the characters of the address without its last id exactly where the
`char` holds these, and never the end of a string; so both parts hold only for
addresses of at most one id. -/
theorem rendering_iff (signed : Bool) (old : ℕ → UInt8) (ids : List UInt8)
    (h : ids.length ≤ 255) :
    (Faithful signed old ids ↔ NoSign signed ids) ∧
    (2 ≤ ids.length → (strTopAddr signed old (HlmacAddr.ofIds ids) = render ids.dropLast ↔
      NoSign signed ids.dropLast)) ∧
    (Faithful signed old ids ∧ (2 ≤ ids.length →
        cString (strTopAddr signed old (HlmacAddr.ofIds ids)) = some (render ids.dropLast)) ↔
      NoSign signed ids ∧ ids.length < 2) := by
  refine ⟨faithful_iff h, fun hlen => ?_, ?_⟩
  · rw [strTopAddr_eq h hlen, flatMap_cell_eq_render_iff]
    exact and_iff_left rfl
  · refine and_congr (faithful_iff h) ⟨fun htop => ?_, fun hlt hle => absurd hlt (by omega)⟩
    by_contra hlen
    have hstring := htop (by omega)
    rw [strTopAddr_eq h (by omega), cString, if_neg (zero_notMem_cells signed _)] at hstring
    cases hstring

theorem rendering_iff_path :
    Faithful true (fun _ => 0xaa) [1, 2, 0x7f] ∧
      strTopAddr true (fun _ => 0xaa) (HlmacAddr.ofIds [1, 2, 0x7f]) = render [1, 2] ∧
      ¬ (Faithful true (fun _ => 0xaa) [1, 2, 0x7f] ∧ (2 ≤ [(1 : UInt8), 2, 0x7f].length →
        cString (strTopAddr true (fun _ => 0xaa) (HlmacAddr.ofIds [1, 2, 0x7f])) =
          some (render [(1 : UInt8), 2, 0x7f].dropLast))) := by
  obtain ⟨hfaithful, htop, hboth⟩ := rendering_iff true (fun _ => 0xaa) [1, 2, 0x7f] (by decide)
  refine ⟨hfaithful.2 fun _ => by simp, (htop (by decide)).2 fun _ => by simp, fun h => ?_⟩
  exact absurd (hboth.1 h).2 (by decide)

/-- Where `char` is signed, the addresses `01.80` and `01.81` have one string, and printing
them writes past its block; for `01.02` the block of `str_top_addr` has no end of a string,
whether `char` is signed or not. -/
theorem not_rendering :
    strAddr true (fun _ => 0) (HlmacAddr.ofIds [1, 0x80]) =
        strAddr true (fun _ => 0) (HlmacAddr.ofIds [1, 0x81]) ∧
      3 * 2 + 1 < (hlmacAddrToStr true (fun _ => 0) (HlmacAddr.ofIds [1, 0x80])).top ∧
      cString (strTopAddr true (fun _ => 0) (HlmacAddr.ofIds [1, 2])) = none ∧
      cString (strTopAddr false (fun _ => 0) (HlmacAddr.ofIds [1, 2])) = none := by
  decide

end Den2ne
