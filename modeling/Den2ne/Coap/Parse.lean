import Den2ne.Coap.Message

/-!
# The in-place parser

`coap_parse_message` reads the message from a buffer, and merges the parts of a path or a query in
this buffer. An address is the distance from `data`. `none` is an access outside the message, or a
loop that does not end; `unsigned int` and `size_t` have 32 bits, of which the sums here need 17.
-/

namespace Den2ne.Coap

open Memory

/-- The memory from `data` on, and `data_len`. -/
structure Buffer where
  mem : ℕ → UInt8
  dataLen : ℕ

/-- A pointer into the buffer, and a length. -/
structure Span where
  start : ℕ
  len : ℕ
  deriving DecidableEq

namespace Buffer

def get (b : Buffer) (i : ℕ) : Option UInt8 := if i < b.dataLen then some (b.mem i) else none

def read (b : Buffer) (p n : ℕ) : Option (List UInt8) :=
  if p + n ≤ b.dataLen then some (load b.mem p n) else none

def write (b : Buffer) (p : ℕ) (xs : List UInt8) : Option Buffer :=
  if p + xs.length ≤ b.dataLen then some { b with mem := store b.mem p xs } else none

/-- The terminating NUL, for which there is a byte behind the message. -/
def terminate (b : Buffer) (p : ℕ) : Option Buffer :=
  if p ≤ b.dataLen then some { b with mem := store b.mem p [0] } else none

end Buffer

/-- Those of `coap_status_t` that the parser returns. -/
inductive Status
  | noError
  | badRequest
  | badOption
  | proxyingNotSupported
  deriving DecidableEq

/-- The status, and `coap_error_message` if it is set. -/
structure Outcome where
  status : Status
  errorMessage : Option String
  deriving DecidableEq

namespace Outcome

def noError : Outcome := ⟨.noError, none⟩

/-- `BAD_REQUEST_4_00`, which is only logged. -/
def malformed : Outcome := ⟨.badRequest, none⟩

def version : Outcome := ⟨.badRequest, some "CoAP version must be 1"⟩

def tokenLength : Outcome := ⟨.badRequest, some "Token Length must not be more than 8"⟩

def proxying : Outcome := ⟨.proxyingNotSupported, some "This is a constrained server (Contiki)"⟩

def critical : Outcome := ⟨.badOption, some "Unsupported critical option"⟩

end Outcome

/-- `coap_parse_int_option` of these bytes. -/
def intValue (bytes : List UInt8) : ℕ := bytes.foldl (fun var b => (var * 256 + b.toNat) % 2 ^ 32) 0

/-- The fields of a block for the number of its option. -/
def Block.ofNum (num : ℕ) : Block where
  num := num / 16
  more := num / 8 % 2
  size := 16 * 2 ^ (num % 8)
  offset := num / 16 * 16 * 2 ^ (num % 8) % 2 ^ 32

namespace Buffer

/-- `coap_merge_multi_option`: the string, and the buffer. -/
def mergeMultiOption (b : Buffer) (dst : Span) (option optionLen : ℕ) (separator : UInt8) :
    Option (Span × Buffer) :=
  if 0 < dst.len then do
    let b ← b.write (dst.start + dst.len) [separator]
    let part ← b.read option optionLen
    let b ← b.write (dst.start + (dst.len + 1)) part
    some (⟨dst.start, dst.len + 1 + optionLen⟩, b)
  else some (⟨option, optionLen⟩, b)

/-- The extension of a delta or a length, for its four bits in the first byte: the value and where
the cursor is then; `some none` for a malformed one. -/
def extension (b : Buffer) (nibble currentOption : ℕ) : Option (Option (ℕ × ℕ)) :=
  if nibble = 13 then do
    let x ← b.get currentOption
    some (some (13 + x.toNat, currentOption + 1))
  else if nibble = 14 then do
    let hi ← b.get currentOption
    if b.dataLen ≤ currentOption + 1 then some none
    else
      let lo ← b.get (currentOption + 1)
      some (some (14 + 255 + hi.toNat * 256 + lo.toNat, currentOption + 2))
  else some (some (nibble, currentOption))

/-- The header of an option: its delta, its length and where its value is; `some none` for a
malformed one. -/
def optionHeader (b : Buffer) (first : UInt8) (currentOption : ℕ) :
    Option (Option (ℕ × ℕ × ℕ)) :=
  let currentOption := currentOption + 1
  if b.dataLen ≤ currentOption then some none
  else
    match b.extension (first.toNat / 16) currentOption with
    | none => none
    | some none => some none
    | some (some (delta, currentOption)) =>
        if b.dataLen ≤ currentOption then some none
        else
          match b.extension (first.toNat % 16) currentOption with
          | none => none
          | some none => some none
          | some (some (length, currentOption)) =>
              if b.dataLen < currentOption + length then some none
              else some (some (delta, length, currentOption))

/-- The `switch` on the option number: the outcome if the parser returns, the message and the
buffer. -/
def option (cfg : Config) (b : Buffer) (pkt : Message Span) (number currentOption length : ℕ) :
    Option (Option Outcome × Message Span × Buffer) :=
  match kind number with
  | .int o => do
      let value ← b.read currentOption length
      some (none, pkt.setInt o (intValue value), b)
  | .bytes o => do
      let value ← b.read currentOption (min 8 length)
      some (none, pkt.setBytes o value, b)
  | .ifNoneMatch => some (none, { pkt with ifNoneMatch := 1 }, b)
  | .block o => do
      let value ← b.read currentOption length
      some (none, pkt.setBlock o (Block.ofNum (intValue value)), b)
  | .proxy o =>
      let pkt :=
        if cfg.proxyOptionProcessing then pkt.setProxy o ⟨currentOption, length⟩ else pkt
      some (some Outcome.proxying, pkt, b)
  | .string o =>
      match o.separator with
      | none => some (none, pkt.setString o ⟨currentOption, length⟩, b)
      | some separator => do
          let (dst, b) ← b.mergeMultiOption (pkt.string o) currentOption length separator
          some (none, pkt.setString o dst, b)
  | .unknown =>
      some (if number % 2 = 1 then some Outcome.critical else none, pkt, b)

end Buffer

/-- What `coap_parse_message` leaves: `none` for a message that it does not touch. -/
structure Parsed (Str : Type*) where
  outcome : Outcome
  message : Option (Message Str)

/-- The loop of `coap_parse_message`. -/
def parseOptions (cfg : Config) : ℕ → Message Span → Buffer → ℕ → ℕ →
    Option (Parsed Span × Buffer)
  | 0, _, _, _, _ => none
  | turns + 1, pkt, b, currentOption, optionNumber =>
      if currentOption < b.dataLen then do
        let first ← b.get currentOption
        if first.toNat / 16 = 15 then
          let payload := currentOption + 1
          let payloadLen := min (b.dataLen - payload) cfg.maxChunkSize
          let b ← b.terminate (payload + payloadLen)
          some (⟨Outcome.noError, some { pkt with payload := ⟨payload, payloadLen⟩ }⟩, b)
        else
          match ← b.optionHeader first currentOption with
          | none => some (⟨Outcome.malformed, some pkt⟩, b)
          | some (delta, length, currentOption) =>
              let optionNumber := optionNumber + delta
              if optionSize1 < optionNumber then some (⟨Outcome.malformed, some pkt⟩, b)
              else
                match ← b.option cfg (pkt.setOption optionNumber) optionNumber currentOption
                    length with
                | (some outcome, pkt, b) => some (⟨outcome, some pkt⟩, b)
                | (none, pkt, b) =>
                    parseOptions cfg turns pkt b (currentOption + length) optionNumber
      else some (⟨Outcome.noError, some pkt⟩, b)

/-- The fields of the header; the token is not copied yet. -/
def headerMessage {Str : Type*} (null : Str) (first code hi lo : UInt8) : Message Str :=
  { Message.zero null with
    version := first.toNat / 64
    type := first.toNat / 16 % 4
    tokenLen := first.toNat % 16
    code := code
    mid := UInt16.ofNat (hi.toNat * 256 + lo.toNat) }

/-- `coap_parse_message`. -/
def parseMessage (cfg : Config) (b : Buffer) : Option (Parsed Span × Buffer) :=
  if b.dataLen < 4 then some (⟨Outcome.malformed, none⟩, b)
  else do
    let first ← b.get 0
    let code ← b.get 1
    let hi ← b.get 2
    let lo ← b.get 3
    let pkt := headerMessage ⟨0, 0⟩ first code hi lo
    if pkt.version ≠ 1 then some (⟨Outcome.version, some pkt⟩, b)
    else if 8 < pkt.tokenLen then some (⟨Outcome.tokenLength, some pkt⟩, b)
    else if b.dataLen < 4 + pkt.tokenLen then some (⟨Outcome.malformed, some pkt⟩, b)
    else
      let token ← b.read 4 pkt.tokenLen
      parseOptions cfg (b.dataLen + 1) { pkt with token := token } b (4 + pkt.tokenLen) 0

end Den2ne.Coap
