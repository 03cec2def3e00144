import Den2ne.Memory.Range
import Mathlib.Algebra.Ring.Nat

/-!
# CoAP messages

`coap.h`: a message with the options that the implementation knows. The fields of one type are
kept together, by the name of their option: numbers, byte arrays, blocks and strings. A string is
what `Str` says, a range of the buffer in a message that was parsed.
-/

namespace Den2ne.Coap

structure Config where
  /-- `COAP_MAX_HEADER_SIZE` -/
  maxHeaderSize : ℕ
  /-- `COAP_MAX_CHUNK_SIZE` -/
  maxChunkSize : ℕ
  /-- `COAP_PROXY_OPTION_PROCESSING` -/
  proxyOptionProcessing : Bool
  /-- A packet fits `data_len`; `coap-uip.c` has it fit the IP buffer. -/
  packet : maxHeaderSize + maxChunkSize < 65535

/-- The options with a number. -/
inductive IntOption
  | observe
  | uriPort
  | contentFormat
  | maxAge
  | accept
  | size2
  | size1
  deriving DecidableEq

/-- The options with an array of `COAP_ETAG_LEN` bytes. -/
inductive ByteOption
  | ifMatch
  | etag
  deriving DecidableEq

/-- The options with a block. -/
inductive BlockOption
  | block2
  | block1
  deriving DecidableEq

/-- The options with a string. -/
inductive StringOption
  | uriHost
  | locationPath
  | uriPath
  | uriQuery
  | locationQuery
  deriving DecidableEq

/-- The options that only a proxy knows. -/
inductive ProxyOption
  | proxyUri
  | proxyScheme
  deriving DecidableEq

/-- `COAP_OPTION_IF_NONE_MATCH`. -/
def optionIfNoneMatch : ℕ := 5

/-- `COAP_OPTION_SIZE1`, the last one. -/
def optionSize1 : ℕ := 60

def IntOption.number : IntOption → ℕ
  | observe => 6
  | uriPort => 7
  | contentFormat => 12
  | maxAge => 14
  | accept => 17
  | size2 => 28
  | size1 => 60

/-- The width of the field. -/
def IntOption.width : IntOption → ℕ
  | observe | maxAge | size2 | size1 => 32
  | uriPort | contentFormat | accept => 16

def ByteOption.number : ByteOption → ℕ
  | ifMatch => 1
  | etag => 4

def BlockOption.number : BlockOption → ℕ
  | block2 => 23
  | block1 => 27

def StringOption.number : StringOption → ℕ
  | uriHost => 3
  | locationPath => 8
  | uriPath => 11
  | uriQuery => 15
  | locationQuery => 20

def ProxyOption.number : ProxyOption → ℕ
  | proxyUri => 35
  | proxyScheme => 39

/-- The character between the parts of the string; the host has no parts. -/
def StringOption.separator : StringOption → Option UInt8
  | uriHost => none
  | locationPath | uriPath => some 47
  | uriQuery | locationQuery => some 38

/-- What the number of an option says of it. -/
inductive Kind
  | int (o : IntOption)
  | bytes (o : ByteOption)
  | ifNoneMatch
  | block (o : BlockOption)
  | string (o : StringOption)
  | proxy (o : ProxyOption)
  | unknown
  deriving DecidableEq

/-- The `switch` of `coap_parse_message`. -/
def kind : ℕ → Kind
  | 12 => .int .contentFormat
  | 14 => .int .maxAge
  | 4 => .bytes .etag
  | 17 => .int .accept
  | 1 => .bytes .ifMatch
  | 5 => .ifNoneMatch
  | 35 => .proxy .proxyUri
  | 39 => .proxy .proxyScheme
  | 3 => .string .uriHost
  | 7 => .int .uriPort
  | 11 => .string .uriPath
  | 15 => .string .uriQuery
  | 8 => .string .locationPath
  | 20 => .string .locationQuery
  | 6 => .int .observe
  | 23 => .block .block2
  | 27 => .block .block1
  | 28 => .int .size2
  | 60 => .int .size1
  | _ => .unknown

/-- The fields of a block. -/
structure Block where
  num : ℕ
  more : ℕ
  size : ℕ
  offset : ℕ
  deriving DecidableEq

/-- `coap_message_t`, less `buffer` and `src_ep`. The bytes that were copied to an array are a list;
the other fields hold numbers of their width. -/
structure Message (Str : Type*) where
  version : ℕ
  type : ℕ
  code : UInt8
  mid : UInt16
  tokenLen : ℕ
  token : List UInt8
  /-- the eight bytes of the bitmap, the first one lowest -/
  options : BitVec 64
  int : IntOption → ℕ
  bytes : ByteOption → List UInt8
  block : BlockOption → Block
  string : StringOption → Str
  proxy : ProxyOption → Str
  ifNoneMatch : ℕ
  payload : Str

namespace Message

variable {Str Str' : Type*}

/-- `memset`, where `null` is a pointer that is `NULL`, with the length zero. -/
def zero (null : Str) : Message Str where
  version := 0
  type := 0
  code := 0
  mid := 0
  tokenLen := 0
  token := []
  options := 0
  int _ := 0
  bytes _ := []
  block _ := ⟨0, 0, 0, 0⟩
  string _ := null
  proxy _ := null
  ifNoneMatch := 0
  payload := null

/-- The message with other strings. -/
def map (f : Str → Str') (m : Message Str) : Message Str' where
  version := m.version
  type := m.type
  code := m.code
  mid := m.mid
  tokenLen := m.tokenLen
  token := m.token
  options := m.options
  int := m.int
  bytes := m.bytes
  block := m.block
  string o := f (m.string o)
  proxy o := f (m.proxy o)
  ifNoneMatch := m.ifNoneMatch
  payload := f m.payload

/-- `coap_set_option`. -/
def setOption (m : Message Str) (opt : ℕ) : Message Str :=
  if optionSize1 < opt then m else { m with options := m.options ||| (1#64 <<< opt) }

/-- `coap_is_option`. -/
def isOption (m : Message Str) (opt : ℕ) : Bool := opt ≤ optionSize1 ∧ m.options.getLsbD opt

def setInt (m : Message Str) (o : IntOption) (value : ℕ) : Message Str :=
  { m with int := fun k => if k = o then value % 2 ^ o.width else m.int k }

def setBytes (m : Message Str) (o : ByteOption) (value : List UInt8) : Message Str :=
  { m with bytes := fun k => if k = o then value else m.bytes k }

def setBlock (m : Message Str) (o : BlockOption) (value : Block) : Message Str :=
  { m with block := fun k => if k = o then value else m.block k }

def setString (m : Message Str) (o : StringOption) (value : Str) : Message Str :=
  { m with string := fun k => if k = o then value else m.string k }

def setProxy (m : Message Str) (o : ProxyOption) (value : Str) : Message Str :=
  { m with proxy := fun k => if k = o then value else m.proxy k }

end Message

end Den2ne.Coap
