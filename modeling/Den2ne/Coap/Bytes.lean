import Den2ne.Coap.Parse
import Mathlib.Data.List.Infix

/-!
# The parser on bytes

What `coap_parse_message` is to compute, on the bytes of the message and without a buffer: the
options are decoded first, and then put into the message one after the other.
-/

namespace Den2ne.Coap

/-- An option: its number, and its value. -/
abbrev CodedOption := ℕ × List UInt8

/-- The extension of a delta or a length: the value, and what follows. -/
def decodeExtension (nibble : ℕ) (bytes : List UInt8) : Option (ℕ × List UInt8) :=
  if nibble = 13 then
    match bytes with
    | x :: rest => some (13 + x.toNat, rest)
    | [] => none
  else if nibble = 14 then
    match bytes with
    | hi :: lo :: rest => some (14 + 255 + hi.toNat * 256 + lo.toNat, rest)
    | _ => none
  else some (nibble, bytes)

/-- An option behind its first byte: the delta, the value, and what follows. -/
def decodeOption (first : UInt8) (bytes : List UInt8) :
    Option (ℕ × List UInt8 × List UInt8) :=
  if bytes = [] then none
  else
    match decodeExtension (first.toNat / 16) bytes with
    | none => none
    | some (delta, bytes) =>
        if bytes = [] then none
        else
          match decodeExtension (first.toNat % 16) bytes with
          | none => none
          | some (length, bytes) =>
              if bytes.length < length then none
              else some (delta, bytes.take length, bytes.drop length)

/-- What is behind the options. -/
inductive Ending
  | finished
  | payload (bytes : List UInt8)
  | malformed
  deriving DecidableEq

/-- The options and the end of a message, after an option with this number. -/
def decode : ℕ → ℕ → List UInt8 → List CodedOption × Ending
  | 0, _, _ => ([], .malformed)
  | _ + 1, _, [] => ([], .finished)
  | turns + 1, number, first :: bytes =>
      if first.toNat / 16 = 15 then ([], .payload bytes)
      else
        match decodeOption first bytes with
        | none => ([], .malformed)
        | some (delta, value, rest) =>
            if optionSize1 < number + delta then ([], .malformed)
            else
              let (opts, ending) := decode turns (number + delta) rest
              ((number + delta, value) :: opts, ending)

/-- A part behind what is merged already. -/
def merge (separator : UInt8) (dst part : List UInt8) : List UInt8 :=
  if dst = [] then part else dst ++ separator :: part

/-- The parts in order, with the separator between them, without the empty ones at the front. -/
def joined (separator : UInt8) (parts : List (List UInt8)) : List UInt8 :=
  [separator].intercalate (parts.dropWhile (· = []))

/-- The value of an option is put into its field. -/
def Message.put (cfg : Config) (m : Message (List UInt8)) (k : Kind) (value : List UInt8) :
    Message (List UInt8) :=
  match k with
  | .int o => m.setInt o (intValue value)
  | .bytes o => m.setBytes o (value.take 8)
  | .ifNoneMatch => { m with ifNoneMatch := 1 }
  | .block o => m.setBlock o (Block.ofNum (intValue value))
  | .string o =>
      match o.separator with
      | none => m.setString o value
      | some separator => m.setString o (merge separator (m.string o) value)
  | .proxy o => if cfg.proxyOptionProcessing then m.setProxy o value else m
  | .unknown => m

/-- An option is put into the message. -/
def Message.addOption (cfg : Config) (m : Message (List UInt8)) (o : CodedOption) :
    Message (List UInt8) :=
  (m.setOption o.1).put cfg (kind o.1) o.2

/-- The outcome if the parser stops at an option with this number. -/
def rejection (number : ℕ) : Option Outcome :=
  match kind number with
  | .proxy _ => some Outcome.proxying
  | .unknown => if number % 2 = 1 then some Outcome.critical else none
  | _ => none

/-- The options up to the first one that is rejected, and this one. -/
def taken : List CodedOption → List CodedOption
  | [] => []
  | o :: opts => if (rejection o.1).isSome then [o] else o :: taken opts

/-- The message of the options and the end. -/
def interpret (cfg : Config) (m : Message (List UInt8)) (opts : List CodedOption)
    (ending : Ending) : Parsed (List UInt8) :=
  let m := (taken opts).foldl (Message.addOption cfg) m
  match opts.findSome? fun o => rejection o.1 with
  | some outcome => ⟨outcome, some m⟩
  | none =>
      match ending with
      | .finished => ⟨Outcome.noError, some m⟩
      | .payload bytes =>
          ⟨Outcome.noError, some { m with payload := bytes.take cfg.maxChunkSize }⟩
      | .malformed => ⟨Outcome.malformed, some m⟩

/-- The options of a message. -/
def optionsOf (data : List UInt8) : List CodedOption × Ending :=
  decode (data.length + 1) 0 (data.drop (4 + (data.headD 0).toNat % 16))

/-- The outcome if the parser stops at the header; `length` bytes follow it. -/
def headerFault (first : UInt8) (length : ℕ) : Option Outcome :=
  if first.toNat / 64 ≠ 1 then some Outcome.version
  else if 8 < first.toNat % 16 then some Outcome.tokenLength
  else if length < first.toNat % 16 then some Outcome.malformed
  else none

/-- The parser on the bytes of a message. -/
def parseBytes (cfg : Config) (data : List UInt8) : Parsed (List UInt8) :=
  match data with
  | first :: code :: hi :: lo :: rest =>
      let m := headerMessage [] first code hi lo
      match headerFault first rest.length with
      | some outcome => ⟨outcome, some m⟩
      | none =>
          interpret cfg { m with token := rest.take (first.toNat % 16) } (optionsOf data).1
            (optionsOf data).2
  | _ => ⟨Outcome.malformed, none⟩

/-- The options that the parser puts into the message. -/
def accepted (data : List UInt8) : List CodedOption :=
  match data with
  | first :: _ :: _ :: _ :: rest =>
      if headerFault first rest.length = none then taken (optionsOf data).1 else []
  | _ => []

/-- The values of the options with this number, in order. -/
def partsOf (number : ℕ) (opts : List CodedOption) : List (List UInt8) :=
  (opts.filter (·.1 = number)).map Prod.snd

/-! ## Fields -/

variable {cfg : Config} {separator : UInt8} {m : Message (List UInt8)}

/-- A field that only the options with one number change holds what these make of it. -/
theorem field_foldl {α : Type*} (field : Message (List UInt8) → α) (number : ℕ)
    (change : α → List UInt8 → α)
    (h : ∀ m c, field (Message.addOption cfg m c) =
      if c.1 = number then change (field m) c.2 else field m)
    (opts : List CodedOption) (m : Message (List UInt8)) :
    field (opts.foldl (Message.addOption cfg) m) =
      (partsOf number opts).foldl change (field m) := by
  induction opts generalizing m with
  | nil => rfl
  | cons c opts ih =>
      rw [List.foldl_cons, ih, h, partsOf, partsOf]
      by_cases hc : c.1 = number
      · rw [if_pos hc, List.filter_cons_of_pos (by simpa using hc)]
        rfl
      · rw [if_neg hc, List.filter_cons_of_neg (by simpa using hc)]

/-! ## Merged strings -/

theorem foldl_merge (parts : List (List UInt8)) (dst : List UInt8) (hdst : dst ≠ []) :
    parts.foldl (merge separator) dst = [separator].intercalate (dst :: parts) := by
  induction parts generalizing dst with
  | nil => simp [List.intercalate]
  | cons part parts ih =>
      have hmerge : merge separator dst part = dst ++ separator :: part := if_neg hdst
      rw [List.foldl_cons, hmerge, ih _ (by simp)]
      cases parts with
      | nil => simp [List.intercalate, List.intersperse]
      | cons p ps => simp [List.intercalate, List.intersperse]

/-- Merging joins the parts. -/
theorem foldl_merge_nil (parts : List (List UInt8)) :
    parts.foldl (merge separator) [] = joined separator parts := by
  induction parts with
  | nil => rfl
  | cons part parts ih =>
      have hmerge : merge separator [] part = part := if_pos rfl
      rw [List.foldl_cons, hmerge]
      by_cases hpart : part = []
      · rw [hpart, ih, joined, joined, List.dropWhile_cons_of_pos (by simp)]
      · rw [foldl_merge _ _ hpart, joined, List.dropWhile_cons_of_neg (by simpa using hpart)]

end Den2ne.Coap
