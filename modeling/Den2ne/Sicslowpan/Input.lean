import Den2ne.Sicslowpan.Iphc

/-!
# Fragments

`input` of `sicslowpan.c` and the reassembly of fragmented packets. A packet in fragments has an
element of `frag_info` while it is reassembled; `frag_buf` are the buffers of all fragments behind
the first ones.

Frames, buffers and `uip_buf` are memories, so that what stands behind the end of a frame is
there as well. Of a timer it matters whether it has expired.
-/

namespace Den2ne.Sicslowpan

open Memory Reads

variable {α : Type*} [DecidableEq α]

/-- A received frame: its sender and its receiver, and what is in `packetbuf`. -/
structure Frame (α : Type*) where
  sender : α
  receiver : α
  data : ℕ → UInt8
  datalen : ℕ

/-- `GET16`. -/
def Frame.get16 (f : Frame α) (k : ℕ) : ℕ := (f.data k).toNat * 256 + (f.data (k + 1)).toNat

/-- `struct sicslowpan_frag_info`. It is free if its `len` is zero. -/
structure FragInfo (α : Type*) where
  sender : α
  tag : ℕ
  len : ℕ
  reassembledLen : ℕ
  expired : Bool
  firstFragLen : ℕ
  firstFrag : ℕ → UInt8

/-- `struct sicslowpan_frag_buf`. It is free if its `len` is zero. -/
structure FragBuf where
  index : ℕ
  offset : ℕ
  len : ℕ
  data : List UInt8

/-- The configuration. `lladdr` are the bytes of a link-layer address. -/
structure Config (α : Type*) where
  reassContexts : ℕ
  fragmentBuffers : ℕ
  fragmentSize : ℕ
  bufSize : ℕ
  iphc : Bool
  addrContexts : List AddrContext
  lladdr : α → List UInt8
  /-- A context is an `int8_t`. -/
  reassContexts_le : reassContexts ≤ 128
  /-- The length of a fragment is an 8-bit integer. -/
  fragmentSize_le : fragmentSize ≤ 255
  /-- `first_frag` and `uip_buf` hold an IPv6 header. -/
  fragmentSize_ge : 2 ≤ fragmentSize
  bufSize_ge : 40 ≤ bufSize

/-- The static variables, and `uip_buf`. -/
structure State (α : Type*) where
  info : ℕ → FragInfo α
  buf : ℕ → FragBuf
  uip : ℕ → UInt8

namespace State

def setInfo (c : ℕ) (i : FragInfo α) (s : State α) : State α :=
  { s with info := Function.update s.info c i }

/-- A buffer holds a fragment of this context. -/
def Live (s : State α) (c k : ℕ) : Prop := 0 < (s.buf k).len ∧ (s.buf k).index = c

instance (s : State α) (c k : ℕ) : Decidable (s.Live c k) :=
  inferInstanceAs (Decidable (_ ∧ _))

end State

variable (cfg : Config α)

/-! ## The contexts -/

/-- `clear_fragments`. -/
def clearFragments (c : ℕ) (s : State α) : State α :=
  { s.setInfo c { s.info c with len := 0 } with
    buf := fun k => if s.Live c k then { s.buf k with len := 0 } else s.buf k }

/-- What `clear_fragments` returns. -/
def clearCount (c : ℕ) (s : State α) : ℕ :=
  (List.range cfg.fragmentBuffers).countP fun k => s.Live c k

/-- The loop of `timeout_fragments`. -/
def timeoutFragments (notContext : ℕ) : List ℕ → State α → ℕ × State α
  | [], s => (0, s)
  | i :: is, s =>
      if 0 < (s.info i).len ∧ i ≠ notContext ∧ (s.info i).expired = true then
        let (count, s') := timeoutFragments notContext is (clearFragments i s)
        (clearCount cfg i s + count, s')
      else timeoutFragments notContext is s

/-- `store_fragment`, behind a header of five bytes. -/
def storeFragment (f : Frame α) (index offset : ℕ) (s : State α) : Option (State α) :=
  let len := f.datalen - 5
  if len = 0 ∨ cfg.fragmentSize < len then none
  else
    ((List.range cfg.fragmentBuffers).find? fun k => (s.buf k).len = 0).map fun k =>
      { s with buf := Function.update s.buf k ⟨index, offset, len, load f.data 5 len⟩ }

/-- The loop over the contexts for a first fragment: the first one that is free or has expired. -/
def freeContext : List ℕ → Option ℕ → State α → Option ℕ × State α
  | [], found, s => (found, s)
  | i :: is, found, s =>
      let s := if 0 < (s.info i).len ∧ (s.info i).expired = true then clearFragments i s else s
      freeContext is (if found = none ∧ (s.info i).len = 0 then some i else found) s

/-- The context of a fragment behind the first one. -/
def context (sender : α) (tag : ℕ) (s : State α) : Option ℕ :=
  (List.range cfg.reassContexts).find? fun i =>
    (s.info i).tag = tag ∧ 0 < (s.info i).len ∧ (s.info i).sender = sender

/-- `add_fragment`. -/
def addFragment (f : Frame α) (tag fragSize offset : ℕ) (s : State α) : Option ℕ × State α :=
  if offset = 0 then
    match freeContext (List.range cfg.reassContexts) none s with
    | (none, s) => (none, s)
    | (some found, s) =>
        (some found, s.setInfo found { s.info found with
          len := fragSize
          tag := tag
          sender := f.sender
          expired := false })
  else
    match context cfg f.sender tag s with
    | none => (none, s)
    | some i =>
        let (stored, s) :=
          match storeFragment cfg f i offset s with
          | some s' => (some s', s)
          | none =>
              let (count, s) := timeoutFragments cfg i (List.range cfg.reassContexts) s
              (if 0 < count then storeFragment cfg f i offset s else none, s)
        match stored with
        | some s => (some i, s.setInfo i { s.info i with
            reassembledLen := ((s.info i).reassembledLen + (f.datalen - 5)) % 65536 })
        | none => (none, s)

/-- The loop of `copy_frags2uip`; `false` if a fragment does not fit. -/
def copyBufs (s : State α) (c : ℕ) : List ℕ → (ℕ → UInt8) → Bool × (ℕ → UInt8)
  | [], m => (true, m)
  | k :: ks, m =>
      if s.Live c k then
        if cfg.bufSize < (s.buf k).offset * 8 + (s.buf k).len then (false, m)
        else copyBufs s c ks (store m ((s.buf k).offset * 8) ((s.buf k).data.take (s.buf k).len))
      else copyBufs s c ks m

/-- `copy_frags2uip`. -/
def copyFrags2uip (c : ℕ) (s : State α) : Bool × State α :=
  let i := s.info c
  if i.len < i.firstFragLen ∨ cfg.bufSize < i.len then (false, clearFragments c s)
  else
    let m := store s.uip 0 (load i.firstFrag 0 i.firstFragLen)
    let m := store m i.firstFragLen (List.replicate (i.len - i.firstFragLen) 0)
    let (copied, m) := copyBufs cfg s c (List.range cfg.fragmentBuffers) m
    (copied, clearFragments c { s with uip := m })

/-! ## A frame -/

/-- The size of a buffer that holds an IPv6 header. -/
structure BufferSize where
  size : ℕ
  size_ge : 40 ≤ size

/-- `SICSLOWPAN_FIRST_FRAGMENT_SIZE`. -/
def firstFragmentSize : ℕ := cfg.fragmentSize + 38

/-- The size of `first_frag`. -/
def firstFragSize : BufferSize := ⟨firstFragmentSize cfg, Nat.add_le_add_right cfg.fragmentSize_ge 38⟩

/-- The size of `uip_buf`. -/
def uipBufSize : BufferSize := ⟨cfg.bufSize, cfg.bufSize_ge⟩

/-- `digest_paging_dispatch`: `curr_page` and `packetbuf_hdr_len`. -/
def Frame.digestPagingDispatch (f : Frame α) (hdrLen : ℕ) : UInt8 × ℕ :=
  if f.data hdrLen &&& 0xF0 = 0xF0 then (f.data hdrLen &&& 0x0F, hdrLen + 1) else (0, hdrLen)

/-- The dispatch of compressed headers. -/
def Frame.IsIphc (f : Frame α) (hdrLen : ℕ) : Prop := f.data hdrLen &&& 0xE0 = 0x60

instance (f : Frame α) (hdrLen : ℕ) : Decidable (f.IsIphc hdrLen) :=
  inferInstanceAs (Decidable (_ = _))

/-- What `uncompress_hdr_iphc` works on. -/
def iphc (f : Frame α) (hdrLen : ℕ) (buffer : BufferSize) (fragSize : ℕ) : Iphc where
  data := f.data
  packetbufDatalen := f.datalen
  packetbufHdrLen := hdrLen
  uncompHdrLen := 0
  bufSize := buffer.size
  ipLen := fragSize
  addrContexts := cfg.addrContexts
  senderAddr := cfg.lladdr f.sender
  receiverAddr := cfg.lladdr f.receiver
  bufSize_ge := buffer.size_ge

/-- The dispatch of the headers behind `hdrLen` bytes, with the 40 bytes of a header that is not
compressed. The result is what is in the buffer afterwards, with `uncomp_hdr_len` and
`packetbuf_hdr_len` if the headers can be processed. -/
def headers (f : Frame α) (hdrLen : ℕ) (buffer : BufferSize) (fragSize : ℕ) (m : ℕ → UInt8) :
    (ℕ → UInt8) × Option (ℕ × ℕ) :=
  let (currPage, hdrLen) := f.digestPagingDispatch hdrLen
  if 1 < currPage then (m, none)
  else if cfg.iphc = true ∧ f.IsIphc hdrLen then
    let uncompress := (iphc cfg f hdrLen buffer fragSize).uncompressHdrIphc
    (uncompress.target f.data m, (uncompress.run f.data).map Prod.swap)
  else if f.data hdrLen = 0x41 then
    (store m 0 (load f.data (hdrLen + 1) 40), some (40, hdrLen + 1 + 40))
  else (m, none)

/-- `input` of a first fragment. -/
def inputFrag1 (f : Frame α) (s : State α) : State α :=
  let fragSize := f.get16 0 % 2048
  match addFragment cfg f (f.get16 2) fragSize 0 s with
  | (none, s) => s
  | (some c, s) =>
      let (m, result) := headers cfg f 4 (firstFragSize cfg) fragSize (s.info c).firstFrag
      let s := s.setInfo c { s.info c with firstFrag := m }
      match result with
      | none => s
      | some (uncompHdrLen, hdrLen) =>
          if f.datalen < hdrLen then s
          else
            let payloadLen := f.datalen - hdrLen
            if cfg.bufSize < uncompHdrLen + payloadLen then clearFragments c s
            else if firstFragmentSize cfg < uncompHdrLen + payloadLen then s
            else
              let i := { s.info c with
                firstFrag := store m uncompHdrLen (load f.data hdrLen payloadLen) }
              s.setInfo c (if 0 < fragSize then { i with
                reassembledLen := uncompHdrLen + payloadLen
                firstFragLen := uncompHdrLen + payloadLen } else i)

/-- `input` of another fragment, and the packet that is handed to the IP layer. -/
def inputFragN (f : Frame α) (s : State α) : State α × Option (List UInt8) :=
  let fragSize := f.get16 0 % 2048
  let offset := (f.data 4).toNat
  match addFragment cfg f (f.get16 2) fragSize offset s with
  | (none, s) => (s, none)
  | (some c, s) =>
      if f.datalen < 5 then (s, none)
      else if cfg.bufSize < offset * 8 + (f.datalen - 5) then (clearFragments c s, none)
      else if fragSize ≤ (s.info c).reassembledLen then
        if 0 < fragSize then
          match copyFrags2uip cfg c
            (s.setInfo c { s.info c with reassembledLen := fragSize }) with
          | (false, s) => (s, none)
          | (true, s) => (s, some (load s.uip 0 fragSize))
        else (s, some [])
      else (s, none)

/-- `input` of a packet that is not fragmented. The context `0` is the one that is cleared. -/
def inputWhole (f : Frame α) (s : State α) : State α × Option (List UInt8) :=
  let (m, result) := headers cfg f 0 (uipBufSize cfg) 0 s.uip
  let s := { s with uip := m }
  match result with
  | none => (s, none)
  | some (uncompHdrLen, hdrLen) =>
      if f.datalen < hdrLen then (s, none)
      else
        let payloadLen := f.datalen - hdrLen
        if cfg.bufSize < uncompHdrLen + payloadLen then (clearFragments 0 s, none)
        else
          let m := store m uncompHdrLen (load f.data hdrLen payloadLen)
          ({ s with uip := m }, some (load m 0 (uncompHdrLen + payloadLen)))

/-- The dispatch of a first fragment. -/
def Frame.IsFrag1 (f : Frame α) : Prop := f.data 0 &&& 0xF8 = 0xC0

/-- The dispatch of another fragment. -/
def Frame.IsFragN (f : Frame α) : Prop := f.data 0 &&& 0xF8 = 0xE0

instance (f : Frame α) : Decidable f.IsFrag1 := inferInstanceAs (Decidable (_ = _))

instance (f : Frame α) : Decidable f.IsFragN := inferInstanceAs (Decidable (_ = _))

/-- `input`. -/
def input (f : Frame α) (s : State α) : State α × Option (List UInt8) :=
  if f.datalen = 0 then (s, none)
  else if f.IsFrag1 then (inputFrag1 cfg f s, none)
  else if f.IsFragN then inputFragN cfg f s
  else inputWhole cfg f s

end Den2ne.Sicslowpan
