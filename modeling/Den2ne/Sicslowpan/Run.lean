import Den2ne.Pieces.Consecutive
import Den2ne.Sicslowpan.Input
import Den2ne.Sicslowpan.IphcWritten
import Den2ne.Transition.Run

/-!
# Packets in fragments

A packet in fragments has a head, which the first fragment carries compressed, and pieces, which
the other ones carry as they are. The frames of any packets arrive in any order, once, more than
once or not at all, with whole packets and expirations in between; other code may write to
`uip_buf`.

Not in the source are the packets that have opened the contexts, and the records of the fragments
that were received and the packets that were handed over, which only the statements read.
-/

namespace Den2ne.Sicslowpan

open Memory Pieces

variable {α : Type*} [DecidableEq α]

/-- A frame with these bytes; `junk` is what stands behind them. -/
def frame (sender receiver : α) (bytes : List UInt8) (junk : ℕ → UInt8) : Frame α :=
  ⟨sender, receiver, store junk 0 bytes, bytes.length⟩

/-- The dispatch, the size and the tag of a fragment. -/
def fragHeader (dispatch : UInt8) (size tag : ℕ) : List UInt8 :=
  [dispatch ||| UInt8.ofNat (size / 256), UInt8.ofNat size, UInt8.ofNat (tag / 256),
    UInt8.ofNat tag]

/-- A first fragment that carries `first`. -/
def frag1 (sender receiver : α) (size tag : ℕ) (first : List UInt8) (junk : ℕ → UInt8) : Frame α :=
  frame sender receiver (fragHeader 0xC0 size tag ++ first) junk

/-- Another fragment. -/
def fragN (sender receiver : α) (size tag offset : ℕ) (piece : List UInt8) (junk : ℕ → UInt8) :
    Frame α :=
  frame sender receiver (fragHeader 0xE0 size tag ++ UInt8.ofNat offset :: piece) junk

/-- A packet that is sent in fragments. Its first fragment is a compressed form of the head: to
uncompress it into a buffer that holds the head changes nothing. -/
structure Packet (cfg : Config α) where
  sender : α
  receiver : α
  tag : ℕ
  head : List UInt8
  first : List UInt8
  pieces : List (List UInt8)
  tag_lt : tag < 65536
  size_lt : (head ++ pieces.flatten).length < 2048
  head_ne : head ≠ []
  pieces_ne : ∀ piece ∈ pieces, piece ≠ []
  aligned : ∀ j < pieces.length, 8 ∣ head.length + start pieces j
  uncompress : ∀ (junk m m' : ℕ → UInt8) (uncompHdrLen hdrLen : ℕ),
    load m 0 head.length = head →
    headers cfg (frag1 sender receiver (head ++ pieces.flatten).length tag first junk) 4
      (firstFragSize cfg) (head ++ pieces.flatten).length m =
        (m', some (uncompHdrLen, hdrLen)) → hdrLen ≤ first.length + 4 →
      load m' 0 uncompHdrLen ++
        (fragHeader 0xC0 (head ++ pieces.flatten).length tag ++ first).drop hdrLen = head

namespace Packet

variable {cfg : Config α} (p : Packet cfg)

def bytes : List UInt8 := p.head ++ p.pieces.flatten

def size : ℕ := p.bytes.length

/-- The offset of a piece, in units of eight bytes. -/
def offset (j : ℕ) : ℕ := (p.head.length + start p.pieces j) / 8

/-- The first fragment. -/
def frag1 (junk : ℕ → UInt8) : Frame α :=
  Sicslowpan.frag1 p.sender p.receiver p.size p.tag p.first junk

/-- The fragment of a piece. -/
def fragN (j : ℕ) (junk : ℕ → UInt8) : Frame α :=
  Sicslowpan.fragN p.sender p.receiver p.size p.tag (p.offset j) (piece p.pieces j) junk

end Packet

/-- What can happen. -/
inductive Event (cfg : Config α)
  | frag1 (p : Packet cfg) (junk : ℕ → UInt8)
  | fragN (p : Packet cfg) (j : ℕ) (junk : ℕ → UInt8)
  | whole (f : Frame α)
  | time (expired : ℕ → Bool)
  | uip (m : ℕ → UInt8)

/-- A packet that was handed to the IP layer after its reassembly. -/
structure Delivery (α : Type*) where
  sender : α
  tag : ℕ
  bytes : List UInt8

/-- The state with its records. `opened c` is the packet whose first fragment has opened `c`. -/
structure World (cfg : Config α) where
  state : State α
  opened : ℕ → Option (Packet cfg)
  received : List (Packet cfg × Option ℕ)
  delivered : List (Delivery α)

variable {cfg : Config α}

/-- The variables after a reset. -/
def boot (null : α) : World cfg where
  state := ⟨fun _ => ⟨null, 0, 0, 0, false, 0, fun _ => 0⟩, fun _ => ⟨0, 0, 0, []⟩, fun _ => 0⟩
  opened := fun _ => none
  received := []
  delivered := []

/-- What happens to the state and the records. -/
def step (cfg : Config α) : Event cfg → World cfg → Option (World cfg)
  | .frag1 p junk, w =>
      let found := (freeContext (List.range cfg.reassContexts) none w.state).1
      some { w with
        state := (input cfg (p.frag1 junk) w.state).1
        opened := fun c => if found = some c then some p else w.opened c
        received := (p, none) :: w.received }
  | .fragN p j junk, w =>
      if j < p.pieces.length then
        let (state, passed) := input cfg (p.fragN j junk) w.state
        some { w with
          state := state
          received := (p, some j) :: w.received
          delivered := match passed with
            | none => w.delivered
            | some bytes => ⟨p.sender, p.tag, bytes⟩ :: w.delivered }
      else none
  | .whole f, w =>
      if f.IsFrag1 ∨ f.IsFragN then none
      else some { w with state := (input cfg f w.state).1 }
  | .time expired, w => some { w with state := { w.state with
      info := fun c => { w.state.info c with expired := expired c } } }
  | .uip m, w => some { w with state := { w.state with uip := m } }

/-- A packet that was handed over is one whose fragments were all received, byte for byte. -/
def Complete (w : World cfg) : Prop :=
  ∀ d ∈ w.delivered, ∃ p : Packet cfg, p.sender = d.sender ∧ p.tag = d.tag ∧ d.bytes = p.bytes ∧
    (p, none) ∈ w.received ∧ ∀ j < p.pieces.length, (p, some j) ∈ w.received

/-! ## Which steps keep the count -/

/-- The first context that is free or has expired. -/
def free (cfg : Config α) (s : State α) : Option ℕ :=
  (List.range cfg.reassContexts).find? fun c => (s.info c).len = 0 ∨ (s.info c).expired = true

/-- The bytes of the frame determine the headers, if they are compressed. -/
def DeterminesHeaders (cfg : Config α) (f : Frame α) (size : ℕ) : Prop :=
  cfg.iphc = true → f.IsIphc (f.digestPagingDispatch 4).2 →
    (iphc cfg f (f.digestPagingDispatch 4).2 (firstFragSize cfg) size).Determined

/-- The headers of a first fragment can be processed in this buffer, where they overwrite
everything, and its content fits, or does not fit into `uip_buf`. -/
def Uncompressed (cfg : Config α) (f : Frame α) (size : ℕ) (m : ℕ → UInt8) : Prop :=
  DeterminesHeaders cfg f size ∧ ∃ m' uncompHdrLen hdrLen,
    headers cfg f 4 (firstFragSize cfg) size m = (m', some (uncompHdrLen, hdrLen)) ∧
      hdrLen ≤ f.datalen ∧
      (uncompHdrLen + (f.datalen - hdrLen) ≤ firstFragmentSize cfg ∨
        cfg.bufSize < uncompHdrLen + (f.datalen - hdrLen))

/-- A buffer is free, or another context that has expired holds one. -/
def Room (cfg : Config α) (s : State α) (c : ℕ) : Prop :=
  ∃ k < cfg.fragmentBuffers, (s.buf k).len = 0 ∨
    ((s.buf k).index < cfg.reassContexts ∧ (s.buf k).index ≠ c ∧
      (s.info (s.buf k).index).expired = true)

/-- A first fragment that gets a context can be uncompressed. A fragment that is stored belongs to
the packet that has opened its context, and the context holds none with its offset. -/
def Keeps (w : World cfg) : Event cfg → Prop
  | .frag1 p junk => ∀ c, free cfg w.state = some c →
      Uncompressed cfg (p.frag1 junk) p.size (w.state.info c).firstFrag
  | .fragN p j _ => ∀ c, context cfg p.sender p.tag w.state = some c →
      (piece p.pieces j).length ≤ cfg.fragmentSize → Room cfg w.state c →
        w.opened c = some p ∧ ∀ k, w.state.Live c k → (w.state.buf k).offset ≠ p.offset j
  | _ => True

end Den2ne.Sicslowpan
