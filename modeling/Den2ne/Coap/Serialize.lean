import Den2ne.Coap.Message

/-!
# Setters and serialization

The setters of `coap.c` fill a message to be sent, whose strings stay where the caller has them;
`coap_serialize_message` writes its bytes. The options are serialized in the order of their
numbers, a path or a query as one option for each of its parts.
-/

namespace Den2ne.Coap

open Memory

/-- A string of C: its characters, and the memory behind the NUL at its end. -/
structure CString where
  chars : List UInt8
  after : ℕ → UInt8
  notMem : (0 : UInt8) ∉ chars

/-- A pointer to characters, and a length. -/
structure Text where
  mem : ℕ → UInt8
  len : ℕ

namespace Text

/-- `NULL`, with the length zero. -/
def null : Text := ⟨fun _ => 0, 0⟩

def value (t : Text) : List UInt8 := load t.mem 0 t.len

/-- An array of bytes. -/
def ofList (bytes : List UInt8) : Text := ⟨store (fun _ => 0) 0 bytes, bytes.length⟩

end Text

namespace CString

/-- The memory from the first character on. -/
def mem (s : CString) : ℕ → UInt8 := fun i =>
  s.chars[i]?.getD (if i = s.chars.length then 0 else s.after (i - (s.chars.length + 1)))

/-- The string without the characters `c` at its front. -/
def skip (c : UInt8) (s : CString) : CString where
  chars := s.chars.dropWhile (· = c)
  after := s.after
  notMem h := s.notMem (List.dropWhile_subset _ h)

/-- The string from the character `n` on. -/
def drop (n : ℕ) (s : CString) : CString where
  chars := s.chars.drop n
  after := s.after
  notMem h := s.notMem (List.mem_of_mem_drop h)

/-- The pointer, with `strlen`. -/
def text (s : CString) : Text := ⟨s.mem, s.chars.length⟩

end CString

namespace Message

/-- `coap_init_message`. -/
def init (type : ℕ) (code : UInt8) (mid : UInt16) : Message Text :=
  { Message.zero Text.null with type := type, code := code, mid := mid }

/-- `coap_set_status_code`. -/
def setStatusCode (m : Message Text) (code : ℕ) : Message Text :=
  if code ≤ 0xFF then { m with code := UInt8.ofNat code } else m

/-- `coap_set_token`. -/
def setToken (m : Message Text) (token : List UInt8) : Message Text :=
  { m with tokenLen := min 8 token.length, token := token.take 8 }

/-- `coap_set_header_content_format` and its like. -/
def setHeaderInt (m : Message Text) (o : IntOption) (value : ℕ) : Message Text :=
  (m.setInt o value).setOption o.number

/-- `coap_set_header_etag` and `coap_set_header_if_match`. -/
def setHeaderBytes (m : Message Text) (o : ByteOption) (value : List UInt8) : Message Text :=
  (m.setBytes o (value.take 8)).setOption o.number

/-- `coap_set_header_if_none_match`. -/
def setHeaderIfNoneMatch (m : Message Text) : Message Text := m.setOption optionIfNoneMatch

/-- `coap_set_header_block2` and `coap_set_header_block1`, of which only the first one makes one
of a `more` that is not zero. -/
def setHeaderBlock (m : Message Text) (o : BlockOption) (num : ℕ) (more : UInt8) (size : ℕ) :
    Message Text :=
  if size < 16 ∨ 2048 < size ∨ 0x0FFFFF < num then m
  else
    let more :=
      match o with
      | .block2 => if more ≠ 0 then 1 else 0
      | .block1 => more.toNat
    (m.setBlock o { m.block o with num := num, more := more, size := size }).setOption o.number

/-- `coap_set_header_uri_host`. -/
def setHeaderUriHost (m : Message Text) (host : CString) : Message Text :=
  (m.setString .uriHost host.text).setOption StringOption.uriHost.number

/-- `coap_set_header_uri_path`. -/
def setHeaderUriPath (m : Message Text) (path : CString) : Message Text :=
  (m.setString .uriPath (path.skip 47).text).setOption StringOption.uriPath.number

/-- `coap_set_header_uri_query`. -/
def setHeaderUriQuery (m : Message Text) (query : CString) : Message Text :=
  (m.setString .uriQuery (query.skip 63).text).setOption StringOption.uriQuery.number

/-- `coap_set_header_location_query`. -/
def setHeaderLocationQuery (m : Message Text) (query : CString) : Message Text :=
  (m.setString .locationQuery (query.skip 63).text).setOption StringOption.locationQuery.number

/-- `coap_set_header_location_path`: what is behind a question mark is the query. -/
def setHeaderLocationPath (m : Message Text) (path : CString) : Message Text :=
  let path := path.skip 47
  let (m, len) :=
    match path.chars.findIdx? (· = 63) with
    | some i => (m.setHeaderLocationQuery (path.drop (i + 1)), i)
    | none => (m, path.chars.length)
  let m := m.setString .locationPath ⟨path.mem, len⟩
  if 0 < len then m.setOption StringOption.locationPath.number else m

/-- `coap_set_payload`. -/
def setPayload (cfg : Config) (m : Message Text) (payload : List UInt8) : Message Text :=
  { m with payload := ⟨(Text.ofList payload).mem, min cfg.maxChunkSize payload.length⟩ }

end Message

/-- A call of a setter. Uri-Port has none, but is set like the other numbers. -/
inductive Setter
  | statusCode (code : ℕ)
  | token (value : List UInt8)
  | int (o : IntOption) (value : ℕ)
  | bytes (o : ByteOption) (value : List UInt8)
  | ifNoneMatch
  | block (o : BlockOption) (num : ℕ) (more : UInt8) (size : ℕ)
  | string (o : StringOption) (s : CString)
  | payload (value : List UInt8)

/-- The message after a call. -/
def Setter.apply (cfg : Config) (m : Message Text) : Setter → Message Text
  | statusCode code => m.setStatusCode code
  | token value => m.setToken value
  | int o value => m.setHeaderInt o value
  | bytes o value => m.setHeaderBytes o value
  | ifNoneMatch => m.setHeaderIfNoneMatch
  | block o num more size => m.setHeaderBlock o num more size
  | string .uriHost s => m.setHeaderUriHost s
  | string .locationPath s => m.setHeaderLocationPath s
  | string .uriPath s => m.setHeaderUriPath s
  | string .uriQuery s => m.setHeaderUriQuery s
  | string .locationQuery s => m.setHeaderLocationQuery s
  | payload value => m.setPayload cfg value

/-! ## Serialization -/

/-- `coap_option_nibble`. -/
def optionNibble (value : ℕ) : ℕ :=
  if value < 13 then value else if value ≤ 0xFF + 13 then 13 else 14

/-- The extension of a delta or a length. -/
def optionExtension (value : ℕ) : List UInt8 :=
  if 268 < value then [UInt8.ofNat ((value - 269) / 256), UInt8.ofNat (value - 269)]
  else if 12 < value then [UInt8.ofNat (value - 13)]
  else []

/-- `coap_set_option_header`. -/
def setOptionHeader (delta length : ℕ) : List UInt8 :=
  UInt8.ofNat (optionNibble delta * 16 + optionNibble length) ::
    (optionExtension delta ++ optionExtension length)

/-- The bytes of a number, without the zeros at its front. -/
def intBytes (value : ℕ) : List UInt8 :=
  (if 2 ^ 24 ≤ value then [UInt8.ofNat (value / 2 ^ 24)] else []) ++
    ((if 2 ^ 16 ≤ value then [UInt8.ofNat (value / 2 ^ 16)] else []) ++
      ((if 2 ^ 8 ≤ value then [UInt8.ofNat (value / 2 ^ 8)] else []) ++
        (if 0 < value then [UInt8.ofNat value] else [])))

/-- `coap_serialize_int_option`. -/
def serializeIntOption (number currentNumber value : ℕ) : List UInt8 :=
  setOptionHeader (number - currentNumber) (intBytes value).length ++ intBytes value

/-- The loop of `coap_serialize_array_option`: the parts that it writes. The character behind a
separator is not looked at, and at the end the loop looks at the one behind the NUL. -/
def splitParts (t : Text) (splitChar : UInt8) : ℕ → ℕ → ℕ → List (List UInt8)
  | 0, _, _ => []
  | turns + 1, j, partStart =>
      if j ≤ t.len + 1 then
        if t.mem j = splitChar ∨ j = t.len then
          load t.mem partStart (j - partStart) :: splitParts t splitChar turns (j + 2) (j + 1)
        else splitParts t splitChar turns (j + 1) partStart
      else []

/-- The parts as options, of which all but the first one have the delta zero. -/
def serializeParts (number : ℕ) : ℕ → List (List UInt8) → List UInt8
  | _, [] => []
  | currentNumber, part :: parts =>
      setOptionHeader (number - currentNumber) part.length ++ part ++
        serializeParts number number parts

/-- `coap_serialize_array_option`. -/
def serializeArrayOption (number currentNumber : ℕ) (t : Text) (splitChar : Option UInt8) :
    List UInt8 :=
  match splitChar with
  | none => setOptionHeader (number - currentNumber) t.len ++ t.value
  | some c => serializeParts number currentNumber (splitParts t c (t.len + 2) 0 0)

/-- The number of a block option, with `coap_log_2`. -/
def Block.toNum (b : Block) : ℕ :=
  (b.num * 16 % 2 ^ 32 ||| if b.more ≠ 0 then 8 else 0) ||| (15 &&& Nat.log2 (b.size / 16))

namespace Message

variable (m : Message Text)

/-- One option behind those that are written: the number of the last one, and the bytes. -/
def serializeOption (number : ℕ) (code : ℕ → List UInt8) (written : ℕ × List UInt8) :
    ℕ × List UInt8 :=
  if m.isOption number then (number, written.2 ++ code written.1) else written

/-- `COAP_SERIALIZE_INT_OPTION`. -/
def serializeInt (o : IntOption) : ℕ × List UInt8 → ℕ × List UInt8 :=
  m.serializeOption o.number fun current => serializeIntOption o.number current (m.int o)

/-- `COAP_SERIALIZE_BYTE_OPTION`. -/
def serializeBytes (o : ByteOption) : ℕ × List UInt8 → ℕ × List UInt8 :=
  m.serializeOption o.number fun current =>
    serializeArrayOption o.number current (Text.ofList (m.bytes o)) none

/-- `COAP_SERIALIZE_STRING_OPTION`. -/
def serializeString (o : StringOption) : ℕ × List UInt8 → ℕ × List UInt8 :=
  m.serializeOption o.number fun current =>
    serializeArrayOption o.number current (m.string o) o.separator

/-- `COAP_SERIALIZE_BLOCK_OPTION`. -/
def serializeBlock (o : BlockOption) : ℕ × List UInt8 → ℕ × List UInt8 :=
  m.serializeOption o.number fun current =>
    serializeIntOption o.number current (m.block o).toNum

/-- `COAP_SERIALIZE_STRING_OPTION` for the options of a proxy. -/
def serializeProxy (o : ProxyOption) : ℕ × List UInt8 → ℕ × List UInt8 :=
  m.serializeOption o.number fun current =>
    serializeArrayOption o.number current (m.proxy o) none

/-- The options in the order of `coap_serialize_message`. -/
def serializeOptions : ℕ × List UInt8 :=
  (0, [])
  |> m.serializeBytes .ifMatch
  |> m.serializeString .uriHost
  |> m.serializeBytes .etag
  |> m.serializeOption optionIfNoneMatch (serializeIntOption optionIfNoneMatch · 0)
  |> m.serializeInt .observe
  |> m.serializeInt .uriPort
  |> m.serializeString .locationPath
  |> m.serializeString .uriPath
  |> m.serializeInt .contentFormat
  |> m.serializeInt .maxAge
  |> m.serializeString .uriQuery
  |> m.serializeInt .accept
  |> m.serializeString .locationQuery
  |> m.serializeBlock .block2
  |> m.serializeBlock .block1
  |> m.serializeInt .size2
  |> m.serializeProxy .proxyUri
  |> m.serializeProxy .proxyScheme
  |> m.serializeInt .size1

/-- The four bytes of the header, with version 1. -/
def serializeHeader : List UInt8 :=
  [UInt8.ofNat (64 + m.type % 4 * 16 + m.tokenLen % 16), m.code, UInt8.ofNat (m.mid.toNat / 256),
    UInt8.ofNat m.mid.toNat]

end Message

/-- `coap_serialize_message`; `none` for the return value zero. -/
def serializeMessage (cfg : Config) (m : Message Text) : Option (List UInt8) :=
  if m.code = 0 then some m.serializeHeader
  else
    let header := m.serializeHeader ++ m.token.take m.tokenLen ++ m.serializeOptions.2
    if header.length ≤ cfg.maxHeaderSize then
      some (header ++ (if m.payload.len ≠ 0 then [0xFF] else []) ++ m.payload.value)
    else none

end Den2ne.Coap
