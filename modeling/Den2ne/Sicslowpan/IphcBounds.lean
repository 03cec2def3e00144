import Den2ne.Sicslowpan.Iphc

/-!
# The bounds of uncompressing headers

`Iphc.WellFormed` is the format: the compressed headers are all there, of known kinds and modes,
with known contexts, and fit into the buffer when they are uncompressed. `Iphc.Accepted` is what
`uncompress_hdr_iphc` checks: it wants a byte behind the headers, also where none is due, takes
the units of 8 bytes that an extension header fills for its length, and knows no bad modes. It
checks for the room before every write and before every read but those of the byte with the
context identifiers and of the in-line bytes of the two addresses: `inside_iff`.
-/

namespace Den2ne.Sicslowpan

open Reads Transfer

namespace Iphc

variable (p : Iphc)

/-! ## The header chain -/

/-- The two bytes of the encoding. -/
def iphc0 : UInt8 := p.data p.packetbufHdrLen

def iphc1 : UInt8 := p.data (p.packetbufHdrLen + 1)

/-- A byte with context identifiers follows. -/
def Cid : Prop := p.iphc1 &&& 0x80 ≠ 0

/-- The source address uses a context. -/
def Sac : Prop := p.iphc1 &&& 0x40 ≠ 0

/-- The destination address is a multicast address. -/
def M : Prop := p.iphc1 &&& 0x08 ≠ 0

/-- The destination address uses a context. -/
def Dac : Prop := p.iphc1 &&& 0x04 ≠ 0

def sam : ℕ := ((p.iphc1 &&& 0x30) >>> 4 &&& 0x03).toNat

def dam : ℕ := (p.iphc1 &&& 0x03).toNat

instance : Decidable p.Cid := inferInstanceAs (Decidable (_ ≠ _))

instance : Decidable p.Sac := inferInstanceAs (Decidable (_ ≠ _))

instance : Decidable p.M := inferInstanceAs (Decidable (_ ≠ _))

instance : Decidable p.Dac := inferInstanceAs (Decidable (_ ≠ _))

/-- How many bytes traffic class and flow label take. -/
def tfLen : ℕ :=
  if p.iphc0 &&& 0x10 = 0 then if p.iphc0 &&& 0x08 = 0 then 4 else 3
  else if p.iphc0 &&& 0x08 = 0 then 1 else 0

def nhLen : ℕ := if p.iphc0 &&& 0x04 = 0 then 1 else 0

def hlimLen : ℕ := if p.iphc0 &&& 0x03 ≠ 0 then 0 else 1

def srcConf : ℕ := if p.Sac then uncCtxconf.getD p.sam 0 else uncLlconf.getD p.sam 0

def destConf : ℕ :=
  if p.M then if p.Dac then 0 else uncMxconf.getD p.dam 0
  else if p.Dac then uncCtxconf.getD p.dam 0 else uncLlconf.getD p.dam 0

/-- A byte with flags and scope of a multicast address. -/
def scopeLen : ℕ := if p.M ∧ ¬ p.Dac ∧ 0 < p.dam ∧ p.dam < 3 then 1 else 0

/-- Where the in-line fields begin, where the addresses begin, and where each one ends. -/
def fieldsStart : ℕ := p.packetbufHdrLen + 2 + if p.Cid then 1 else 0

def fieldsEnd : ℕ := p.fieldsStart + p.tfLen + p.nhLen + p.hlimLen

def srcEnd : ℕ := p.fieldsEnd + postCount p.srcConf

def destEnd : ℕ := p.srcEnd + p.scopeLen + postCount p.destConf

/-- The byte with the context identifiers. -/
def ids : UInt8 := if p.Cid then p.data (p.packetbufHdrLen + 2) else 0

/-- The context of the source address is known, if it uses one. -/
def SrcContext : Prop :=
  p.Sac → p.sam ≠ 0 → (p.addrContextLookupByNumber (p.ids >>> 4)).isSome = true

/-- The context of the destination address is known, if it uses one. -/
def DestContext : Prop :=
  ¬ p.M → p.Dac → (p.addrContextLookupByNumber (p.ids &&& 0x0f)).isSome = true

/-- Where the length of the extension header at `i` is. -/
def extLenPos (i : ℕ) : ℕ := i + 1 + if p.data i &&& 0x01 = 0 then 1 else 0

def extLen (i : ℕ) : ℕ := (p.data (p.extLenPos i)).toNat

/-- The kind of the extension header at `i` is known. -/
def ExtKnown (i : ℕ) : Prop := (extProto ((p.data i &&& 0x0e) >>> 1)).isSome = true

/-- How many bytes the ports of a UDP header take, with the byte `b` that it begins with. -/
def portsLen (b : UInt8) : ℕ :=
  if b &&& 0xf3 = 0xf0 then 5 else if b &&& 0xf3 = 0xf3 then 2 else 4

/-- How many bytes a UDP header takes. -/
def udpLen (b : UInt8) : ℕ := portsLen b + if b &&& 0x04 = 0 then 2 else 0

/-- From position `i` on, with `nhc` saying whether the next header is compressed, there are
compressed extension headers with these numbers of bytes behind the length, up to position `i'`. -/
inductive ExtChain : Bool → ℕ → List ℕ → Bool → ℕ → Prop
  | nil {nhc : Bool} {i : ℕ} (hlast : nhc = true → ¬ IsExtHdr (p.data i)) : ExtChain nhc i [] nhc i
  | cons {i i' : ℕ} {lens : List ℕ} {nhc' : Bool} (hext : IsExtHdr (p.data i))
      (hknown : p.ExtKnown i) (hread : p.extLenPos i + 1 + p.extLen i ≤ p.packetbufDatalen)
      (hrest : ExtChain (p.data i &&& 0x01 ≠ 0) (p.extLenPos i + 1 + p.extLen i) lens nhc' i') :
      ExtChain true i (p.extLen i :: lens) nhc' i'

/-- The compressed extension headers of the packet, and what follows them. -/
def Headers (lens : List ℕ) (nhc : Bool) (i : ℕ) : Prop :=
  p.ExtChain (p.iphc0 &&& 0x04 ≠ 0) p.destEnd lens nhc i

/-- The size of an extension header with `len` bytes behind the length: extension headers are
made of units of 8 bytes. -/
def paddedLen (len : ℕ) : ℕ := (2 + len + 7) / 8 * 8

/-- The size of the headers when they are uncompressed. -/
def headersSize (lens : List ℕ) (nhc : Bool) : ℕ :=
  40 + (lens.map paddedLen).sum + if nhc then 8 else 0

/-- No multicast address with a context, no reserved mode of a unicast address with a context,
and no compressed header that is neither an extension header nor a UDP header. -/
structure Known : Prop where
  multicast : ¬ (p.M ∧ p.Dac)
  reserved : ¬ (¬ p.M ∧ p.Dac ∧ p.dam = 0)
  nhc : ∀ lens i, p.Headers lens true i → IsUdp (p.data i)

/-- The headers are all in the packet, of known kinds and modes and with known contexts, and fit
into the buffer. -/
structure WellFormed : Prop where
  base : p.destEnd ≤ p.packetbufDatalen
  srcContext : p.SrcContext
  destContext : p.DestContext
  known : p.Known
  chain : ∃ lens nhc i, p.Headers lens nhc i ∧ headersSize lens nhc ≤ p.bufSize ∧
    (nhc = true → i + udpLen (p.data i) ≤ p.packetbufDatalen)

/-- Each extension header fills a unit of 8 bytes, and a byte follows the headers if the last one
is not the UDP header. -/
def Ample : Prop :=
  ∀ lens nhc i, p.Headers lens nhc i →
    (∀ len ∈ lens, 6 ≤ len) ∧ (nhc = false → i < p.packetbufDatalen)

/-- The headers fit also when the extension headers are padded. -/
def PaddedFits : Prop := ∀ lens nhc i, p.Headers lens nhc i → headersSize lens nhc ≤ p.bufSize

/-! ## What the function checks -/

/-- The extension header at `i` is of a known kind, there is room for it at `o` in the buffer,
it fills a unit of 8 bytes, and another byte follows it. -/
def ExtFits (i o : ℕ) : Prop :=
  p.ExtKnown i ∧ o + 2 + p.extLen i ≤ p.bufSize ∧
    6 ≤ p.extLen i ∧ p.extLenPos i + 1 + p.extLen i < p.packetbufDatalen

/-- From position `i`, with `o` bytes of the buffer used and `nhc` saying whether the next
header is compressed, the loop takes extension headers up to position `i'`. -/
inductive ExtHeaders : Bool → ℕ → ℕ → Bool → ℕ → ℕ → Prop
  | nil {nhc : Bool} {i o : ℕ} (hlast : nhc = true → ¬ IsExtHdr (p.data i)) :
      ExtHeaders nhc i o nhc i o
  | cons {i o i' o' : ℕ} {nhc' : Bool} (hext : IsExtHdr (p.data i)) (hfits : p.ExtFits i o)
      (hrest : ExtHeaders (p.data i &&& 0x01 ≠ 0) (p.extLenPos i + 1 + p.extLen i)
        (o + (2 + p.extLen i) / 8 * 8) nhc' i' o') :
      ExtHeaders true i o nhc' i' o'

/-- A UDP header at `i` is there, and there is room for it at `o`. -/
def UdpFits (i o : ℕ) : Prop :=
  i + udpLen (p.data i) ≤ p.packetbufDatalen ∧ o + 8 ≤ p.bufSize

/-- A byte follows the addresses and each extension header, these fit into the buffer one behind
the other, each in the units of 8 bytes that it fills, and the contexts are known. -/
structure Accepted : Prop where
  base : p.destEnd < p.packetbufDatalen
  srcContext : p.SrcContext
  destContext : p.DestContext
  chain : ∃ nhc i o, p.ExtHeaders (p.iphc0 &&& 0x04 ≠ 0) p.destEnd 40 nhc i o ∧
    (nhc = true → IsUdp (p.data i) → p.UdpFits i o)

/-- What is read without a check lies in the packet, as far as the function gets. -/
structure AddressesPresent : Prop where
  src : p.packetbufHdrLen + 2 ≤ p.packetbufDatalen →
    (p.fieldsEnd = p.fieldsStart ∨ p.fieldsEnd ≤ p.packetbufDatalen) →
    (p.Sac → p.Cid → p.packetbufHdrLen + 2 < p.packetbufDatalen) ∧
    (p.SrcContext → postCount p.srcConf = 0 ∨ p.srcEnd ≤ p.packetbufDatalen)
  dest : p.packetbufHdrLen + 2 ≤ p.packetbufDatalen →
    (p.fieldsEnd = p.fieldsStart ∨ p.fieldsEnd ≤ p.packetbufDatalen) → p.SrcContext →
    (¬ p.M → p.Dac → p.Cid → p.packetbufHdrLen + 2 < p.packetbufDatalen) ∧
    (p.DestContext → (p.scopeLen = 0 ∨ p.srcEnd + 1 ≤ p.packetbufDatalen) →
      postCount p.destConf = 0 ∨ p.destEnd ≤ p.packetbufDatalen)

/-- Uncompressing stays inside its buffers, and fails exactly if the headers are truncated, do
not fit, or use an unknown context or mode. -/
structure Inside : Prop where
  reads : ReadsBelow p.data p.packetbufDatalen p.uncompressHdrIphc
  writes : WritesBelow p.data p.bufSize p.uncompressHdrIphc
  fails : p.uncompressHdrIphc.run p.data = none ↔ ¬ p.WellFormed

/-! ## The fields before the addresses -/

variable {p} {b : UInt8} {ptr : ℕ}

theorem safe_checkReadSpace (ptr readlen : ℕ) {m : ℕ} :
    Safe p.data p.packetbufDatalen m (p.checkReadSpace ptr readlen)
      (ptr + readlen ≤ p.packetbufDatalen) () := Safe.require _

theorem safe_nextHeader (ptr : ℕ) :
    Safe p.data p.packetbufDatalen 40 (p.nextHeader p.iphc0 ptr)
      (p.nhLen = 0 ∨ ptr + p.nhLen ≤ p.packetbufDatalen) (ptr + p.nhLen) := by
  unfold nextHeader nhLen
  split
  · refine Safe.congr ((safe_checkReadSpace ptr 1).check fun hread => ?_) (by omega)
    exact (Safe.get hread).seq ((Safe.put (by omega) _).seq (Safe.done _))
  · exact (Safe.done ptr).congr (iff_of_true trivial (.inl rfl))

theorem safe_hopLimit (ptr : ℕ) :
    Safe p.data p.packetbufDatalen 40 (p.hopLimit p.iphc0 ptr)
      (p.hlimLen = 0 ∨ ptr + p.hlimLen ≤ p.packetbufDatalen) (ptr + p.hlimLen) := by
  unfold hopLimit hlimLen
  split
  · refine Safe.congr ?_ (iff_of_true trivial (.inl rfl))
    exact (Safe.put (by omega) _).seq (Safe.done ptr)
  · refine Safe.congr ((safe_checkReadSpace ptr 1).check fun hread => ?_) (by omega)
    exact (Safe.get hread).seq ((Safe.put (by omega) _).seq (Safe.done _))

theorem safe_trafficClass (ptr : ℕ) :
    Safe p.data p.packetbufDatalen 40 (p.trafficClass p.iphc0 ptr)
      (p.tfLen = 0 ∨ ptr + p.tfLen ≤ p.packetbufDatalen) (ptr + p.tfLen) := by
  unfold trafficClass tfLen
  split
  · split
    · refine Safe.congr ((safe_checkReadSpace ptr 4).check fun hread => ?_) (by omega)
      refine (Safe.copy (by omega) (by omega)).seq ((Safe.get (by omega)).seq ?_)
      refine (Safe.put (by omega) _).seq ((Safe.get (by omega)).seq ?_)
      exact (Safe.put (by omega) _).seq (Safe.done _)
    · refine Safe.congr ((Safe.put (by omega) _).seq
        ((safe_checkReadSpace ptr 3).check fun hread => ?_)) (by omega)
      refine (Safe.get (by omega)).seq ((Safe.put (by omega) _).seq ?_)
      exact (Safe.copy (by omega) (by omega)).seq (Safe.done _)
  · split
    · refine Safe.congr ((safe_checkReadSpace ptr 1).check fun hread => ?_) (by omega)
      refine (Safe.get (by omega)).seq ((Safe.put (by omega) _).seq ?_)
      exact (Safe.put (by omega) _).seq ((Safe.puts (by simp)).seq (Safe.done _))
    · refine Safe.congr ?_ (iff_of_true trivial (.inl rfl))
      exact (Safe.puts (by simp)).seq (Safe.done ptr)

/-! ## The addresses -/

theorem nibbleCount_le {n : ℕ} (h : n < 16) : nibbleCount n ≤ 16 := by
  unfold nibbleCount
  split <;> omega

theorem length_uipDs6SetAddrIid (lladdr : List UInt8) :
    (uipDs6SetAddrIid lladdr).length ≤ 8 := by
  unfold uipDs6SetAddrIid
  split <;> simp

theorem run_uncompressPost (ipaddr prefcount postcount : ℕ) (lladdr : List UInt8) (ptr : ℕ) :
    (uncompressPost ipaddr prefcount postcount lladdr ptr).run p.data = some () := by
  unfold uncompressPost
  split
  · rw [run_bind, run_copy]
    dsimp only [Option.bind_some]
    split
    · exact run_puts _ _ _
    · rfl
  · split
    · exact run_puts _ _ _
    · rfl

theorem returns_uncompressAddr (ipaddr : ℕ) (addrPrefix : List UInt8) (conf : ℕ)
    (lladdr : List UInt8) (ptr : ℕ) :
    Returns p.data (uncompressAddr ipaddr addrPrefix conf lladdr ptr) True
      (ptr + postCount conf) := by
  refine ⟨fun _ => ?_, fun h => absurd trivial h⟩
  simp only [uncompressAddr, run_bind, run_puts, Option.bind_some, run_uncompressPost, run_pure]

/-- Only the in-line bytes are read, and nothing is known about whether they are there. -/
theorem readsBelow_uncompressAddr {ipaddr : ℕ} {addrPrefix : List UInt8} {conf : ℕ}
    {lladdr : List UInt8} {ptr : ℕ} :
    ReadsBelow p.data p.packetbufDatalen (uncompressAddr ipaddr addrPrefix conf lladdr ptr) ↔
      postCount conf = 0 ∨ ptr + postCount conf ≤ p.packetbufDatalen := by
  have hpost : ReadsBelow p.data p.packetbufDatalen
      (uncompressPost ipaddr (prefCount conf) (postCount conf) lladdr ptr) ↔
      postCount conf = 0 ∨ ptr + postCount conf ≤ p.packetbufDatalen := by
    unfold uncompressPost
    split
    · rw [readsBelow_bind, readsBelow_copy]
      refine and_iff_left fun _ _ => ?_
      split
      · exact readsBelow_puts _ _
      · exact readsBelow_pure ()
    · refine iff_of_true ?_ (.inl (by omega))
      split
      · exact readsBelow_puts _ _
      · exact readsBelow_pure ()
  unfold uncompressAddr
  simp only [readsBelow_bind, readsBelow_puts, readsBelow_pure, hpost, true_and, run_puts,
    run_uncompressPost, forall_const, and_true]

theorem writesBelow_uncompressAddr {ipaddr : ℕ} {addrPrefix : List UInt8} {conf : ℕ}
    (hconf : conf < 256) {lladdr : List UInt8} {ptr : ℕ} :
    WritesBelow p.data (ipaddr + 16) (uncompressAddr ipaddr addrPrefix conf lladdr ptr) := by
  have hpref : prefCount conf ≤ 16 := nibbleCount_le (by omega)
  have hpost : postCount conf ≤ 16 := nibbleCount_le (by omega)
  have htail : WritesBelow p.data (ipaddr + 16)
      (uncompressPost ipaddr (prefCount conf) (postCount conf) lladdr ptr) := by
    unfold uncompressPost
    split
    · refine writesBelow_bind.2 ⟨writesBelow_copy (by omega), fun _ _ => ?_⟩
      split
      · exact writesBelow_puts (by simp)
      · exact writesBelow_pure ()
    · split
      · have hlen := length_uipDs6SetAddrIid lladdr
        exact writesBelow_puts (by omega)
      · exact writesBelow_pure ()
  refine writesBelow_bind.2 ⟨writesBelow_puts ?_, fun _ _ => ?_⟩
  · rw [List.length_take]
    omega
  · refine writesBelow_bind.2 ⟨writesBelow_puts ?_, fun _ _ => ?_⟩
    · rw [List.length_replicate]
      omega
    · exact writesBelow_bind.2 ⟨htail, fun _ _ => writesBelow_pure _⟩

theorem returns_contextIds : Returns p.data (p.contextIds p.iphc1) True p.ids := by
  refine ⟨fun _ => ?_, fun h => absurd trivial h⟩
  unfold contextIds ids
  split
  · rename_i hcid
    rw [if_pos (show p.Cid from hcid)]
    rfl
  · rename_i hcid
    rw [if_neg (show ¬ p.Cid from hcid)]
    rfl

theorem readsBelow_contextIds : ReadsBelow p.data p.packetbufDatalen (p.contextIds p.iphc1) ↔
    (p.Cid → p.packetbufHdrLen + 2 < p.packetbufDatalen) := by
  unfold contextIds Cid
  split
  · rename_i hcid
    rw [readsBelow_get, forall_prop_of_true hcid]
  · rename_i hcid
    exact iff_of_true (readsBelow_pure 0) fun h => absurd h hcid

theorem writesBelow_contextIds (m : ℕ) : WritesBelow p.data m (p.contextIds p.iphc1) := by
  unfold contextIds
  split
  · exact writesBelow_get _
  · exact writesBelow_pure 0

theorem getD_uncCtxconf_lt (k : ℕ) : uncCtxconf.getD k 0 < 256 := by
  rcases k with _ | _ | _ | _ | k <;> simp [uncCtxconf]

theorem getD_uncLlconf_lt (k : ℕ) : uncLlconf.getD k 0 < 256 := by
  rcases k with _ | _ | _ | _ | k <;> simp [uncLlconf]

theorem getD_uncMxconf_lt (k : ℕ) : uncMxconf.getD k 0 < 256 := by
  rcases k with _ | _ | _ | _ | k <;> simp [uncMxconf]

/-! ### Source -/

theorem returns_srcWithContext (sci : UInt8) (ptr : ℕ) :
    Returns p.data (p.srcWithContext p.sam sci ptr)
      (p.sam ≠ 0 → (p.addrContextLookupByNumber sci).isSome = true)
      (ptr + postCount (uncCtxconf.getD p.sam 0)) := by
  unfold srcWithContext
  split
  · rename_i hsam
    cases hctx : p.addrContextLookupByNumber sci with
    | none =>
        exact ⟨fun h => absurd (h hsam) Bool.false_ne_true, fun _ => rfl⟩
    | some context =>
        exact (returns_uncompressAddr ..).congr (iff_of_true trivial fun _ => rfl)
  · rename_i hsam
    exact (returns_uncompressAddr ..).congr (iff_of_true trivial fun h => absurd h hsam)

theorem readsBelow_srcWithContext (sci : UInt8) (ptr : ℕ) :
    ReadsBelow p.data p.packetbufDatalen (p.srcWithContext p.sam sci ptr) ↔
      ((p.sam ≠ 0 → (p.addrContextLookupByNumber sci).isSome = true) →
        postCount (uncCtxconf.getD p.sam 0) = 0 ∨
          ptr + postCount (uncCtxconf.getD p.sam 0) ≤ p.packetbufDatalen) := by
  unfold srcWithContext
  split
  · rename_i hsam
    cases hctx : p.addrContextLookupByNumber sci with
    | none => exact iff_of_true readsBelow_fail fun h => absurd (h hsam) Bool.false_ne_true
    | some context =>
        rw [readsBelow_uncompressAddr]
        exact ⟨fun h _ => h, fun h => h fun _ => rfl⟩
  · rename_i hsam
    rw [readsBelow_uncompressAddr]
    exact ⟨fun h _ => h, fun h => h fun h' => absurd h' hsam⟩

theorem srcAddr_eq (p : Iphc) (ptr : ℕ) : p.srcAddr p.iphc1 ptr =
    if p.Sac then p.contextIds p.iphc1 >>= fun ids => p.srcWithContext p.sam (ids >>> 4) ptr
    else uncompressAddr 8 llPrefix (uncLlconf.getD p.sam 0) p.senderAddr ptr := rfl

theorem returns_srcAddr (ptr : ℕ) :
    Returns p.data (p.srcAddr p.iphc1 ptr) p.SrcContext (ptr + postCount p.srcConf) := by
  rw [srcAddr_eq]
  unfold srcConf SrcContext
  split
  · rename_i hsac
    refine (returns_contextIds.bind fun _ => returns_srcWithContext (p.ids >>> 4) ptr).congr ?_
    rw [true_and, forall_prop_of_true hsac]
  · rename_i hsac
    exact (returns_uncompressAddr ..).congr (iff_of_true trivial fun h => absurd h hsac)

theorem readsBelow_srcAddr (ptr : ℕ) :
    ReadsBelow p.data p.packetbufDatalen (p.srcAddr p.iphc1 ptr) ↔
      (p.Sac → p.Cid → p.packetbufHdrLen + 2 < p.packetbufDatalen) ∧
      (p.SrcContext → postCount p.srcConf = 0 ∨
        ptr + postCount p.srcConf ≤ p.packetbufDatalen) := by
  rw [srcAddr_eq]
  unfold srcConf SrcContext
  split
  · rename_i hsac
    rw [returns_contextIds.readsBelow_bind, readsBelow_contextIds, forall_prop_of_true trivial,
      readsBelow_srcWithContext, forall_prop_of_true hsac, forall_prop_of_true hsac]
  · rename_i hsac
    rw [readsBelow_uncompressAddr]
    exact ⟨fun h => ⟨fun h' => absurd h' hsac, fun _ => h⟩, fun h => h.2 fun h' => absurd h' hsac⟩

theorem writesBelow_srcAddr (ptr : ℕ) : WritesBelow p.data 40 (p.srcAddr p.iphc1 ptr) := by
  have haddr : ∀ addrPrefix conf lladdr, conf < 256 →
      WritesBelow p.data 40 (uncompressAddr 8 addrPrefix conf lladdr ptr) :=
    fun _ _ _ hconf => (writesBelow_uncompressAddr hconf).mono (by omega)
  rw [srcAddr_eq]
  split
  · refine writesBelow_bind.2 ⟨writesBelow_contextIds 40, fun ids _ => ?_⟩
    unfold srcWithContext
    split
    · split
      · exact writesBelow_fail
      · exact haddr _ _ _ (getD_uncCtxconf_lt _)
    · exact haddr _ _ _ (getD_uncCtxconf_lt _)
  · exact haddr _ _ _ (getD_uncLlconf_lt _)

/-! ### Destination -/

theorem returns_destWithContext (dci : UInt8) (ptr : ℕ) :
    Returns p.data (p.destWithContext p.dam dci ptr)
      ((p.addrContextLookupByNumber dci).isSome = true)
      (ptr + postCount (uncCtxconf.getD p.dam 0)) := by
  unfold destWithContext
  cases hctx : p.addrContextLookupByNumber dci with
  | none => exact ⟨fun h => absurd h Bool.false_ne_true, fun _ => rfl⟩
  | some context => exact (returns_uncompressAddr ..).congr (iff_of_true trivial rfl)

theorem readsBelow_destWithContext (dci : UInt8) (ptr : ℕ) :
    ReadsBelow p.data p.packetbufDatalen (p.destWithContext p.dam dci ptr) ↔
      ((p.addrContextLookupByNumber dci).isSome = true →
        postCount (uncCtxconf.getD p.dam 0) = 0 ∨
          ptr + postCount (uncCtxconf.getD p.dam 0) ≤ p.packetbufDatalen) := by
  unfold destWithContext
  cases hctx : p.addrContextLookupByNumber dci with
  | none => exact iff_of_true readsBelow_fail fun h => absurd h Bool.false_ne_true
  | some context =>
      rw [readsBelow_uncompressAddr]
      exact ⟨fun h _ => h, fun h => h rfl⟩

theorem returns_destMulticast (ptr : ℕ) :
    Returns p.data (p.destMulticast p.dam ptr)
      (0 < p.dam ∧ p.dam < 3 → ptr + 1 ≤ p.packetbufDatalen)
      (ptr + (if 0 < p.dam ∧ p.dam < 3 then 1 else 0) + postCount (uncMxconf.getD p.dam 0)) := by
  unfold destMulticast
  split
  · rename_i hscope
    refine (((safe_checkReadSpace (m := 0) ptr 1).returns.bind fun hread =>
      (Safe.get (m := 0) hread).returns.bind fun _ => returns_uncompressAddr ..)).congr ?_
    rw [true_and, and_true, forall_prop_of_true hscope]
  · rename_i hscope
    exact (returns_uncompressAddr ..).congr (iff_of_true trivial fun h => absurd h hscope)

theorem readsBelow_destMulticast (ptr : ℕ) :
    ReadsBelow p.data p.packetbufDatalen (p.destMulticast p.dam ptr) ↔
      ((0 < p.dam ∧ p.dam < 3 → ptr + 1 ≤ p.packetbufDatalen) →
        postCount (uncMxconf.getD p.dam 0) = 0 ∨
        ptr + (if 0 < p.dam ∧ p.dam < 3 then 1 else 0) + postCount (uncMxconf.getD p.dam 0) ≤
          p.packetbufDatalen) := by
  unfold destMulticast
  split
  · rename_i hscope
    have hcheck := safe_checkReadSpace (p := p) (m := 0) ptr 1
    rw [hcheck.returns.readsBelow_bind, and_iff_right hcheck.reads, forall_prop_of_true hscope]
    refine forall_congr' fun hread => ?_
    have hget : Safe p.data p.packetbufDatalen 0 (get ptr) True _ := Safe.get hread
    rw [hget.returns.readsBelow_bind, and_iff_right hget.reads, forall_prop_of_true trivial,
      readsBelow_uncompressAddr]
  · rename_i hscope
    rw [readsBelow_uncompressAddr, forall_prop_of_true fun h => absurd h hscope]
    rfl

theorem destAddr_eq (p : Iphc) (ptr : ℕ) : p.destAddr p.iphc1 ptr =
    if p.M then if p.Dac then pure ptr else p.destMulticast p.dam ptr
    else if p.Dac then
      p.contextIds p.iphc1 >>= fun ids => p.destWithContext p.dam (ids &&& 0x0f) ptr
    else uncompressAddr 24 llPrefix (uncLlconf.getD p.dam 0) p.receiverAddr ptr := rfl

theorem scopeLen_of_multicast (hm : p.M) (hdac : ¬ p.Dac) :
    p.scopeLen = if 0 < p.dam ∧ p.dam < 3 then 1 else 0 := by
  unfold scopeLen
  exact if_congr (by tauto) rfl rfl

theorem scopeLen_of_not (h : ¬ (p.M ∧ ¬ p.Dac)) : p.scopeLen = 0 :=
  if_neg fun hc => h ⟨hc.1, hc.2.1⟩

theorem scopeLen_iff (hm : p.M) (hdac : ¬ p.Dac) (n : ℕ) :
    (p.scopeLen = 0 ∨ n ≤ p.packetbufDatalen) ↔
      (0 < p.dam ∧ p.dam < 3 → n ≤ p.packetbufDatalen) := by
  rw [scopeLen_of_multicast hm hdac]
  split
  · rename_i hscope
    rw [forall_prop_of_true hscope]
    omega
  · rename_i hscope
    exact iff_of_true (.inl rfl) fun h => absurd h hscope

theorem returns_destAddr (ptr : ℕ) :
    Returns p.data (p.destAddr p.iphc1 ptr)
      (p.DestContext ∧ (p.scopeLen = 0 ∨ ptr + 1 ≤ p.packetbufDatalen))
      (ptr + p.scopeLen + postCount p.destConf) := by
  rw [destAddr_eq]
  unfold destConf DestContext
  by_cases hm : p.M
  · by_cases hdac : p.Dac
    · rw [if_pos hm, if_pos hm, if_pos hdac, if_pos hdac, scopeLen_of_not fun h => h.2 hdac]
      exact (returns_pure ptr).congr (iff_of_true trivial ⟨fun h => absurd hm h, .inl rfl⟩)
    · rw [if_pos hm, if_pos hm, if_neg hdac, if_neg hdac, scopeLen_iff hm hdac,
        scopeLen_of_multicast hm hdac]
      refine (returns_destMulticast ptr).congr ?_
      rw [and_iff_right fun h => absurd hm h]
  · rw [if_neg hm, if_neg hm, scopeLen_of_not fun h => hm h.1]
    split
    · rename_i hdac
      refine (returns_contextIds.bind fun _ =>
        returns_destWithContext (p.ids &&& 0x0f) ptr).congr ?_
      rw [true_and, forall_prop_of_true hm, forall_prop_of_true hdac]
      exact (and_iff_left (.inl rfl)).symm
    · rename_i hdac
      exact (returns_uncompressAddr ..).congr
        (iff_of_true trivial ⟨fun _ h => absurd h hdac, .inl rfl⟩)

theorem readsBelow_destAddr (ptr : ℕ) :
    ReadsBelow p.data p.packetbufDatalen (p.destAddr p.iphc1 ptr) ↔
      (¬ p.M → p.Dac → p.Cid → p.packetbufHdrLen + 2 < p.packetbufDatalen) ∧
      (p.DestContext → (p.scopeLen = 0 ∨ ptr + 1 ≤ p.packetbufDatalen) →
        postCount p.destConf = 0 ∨
          ptr + p.scopeLen + postCount p.destConf ≤ p.packetbufDatalen) := by
  rw [destAddr_eq]
  unfold destConf DestContext
  by_cases hm : p.M
  · rw [and_iff_right fun h => absurd hm h, forall_prop_of_true fun h => absurd hm h]
    by_cases hdac : p.Dac
    · rw [if_pos hm, if_pos hm, if_pos hdac, if_pos hdac]
      exact iff_of_true (readsBelow_pure ptr) fun _ => .inl rfl
    · rw [if_pos hm, if_pos hm, if_neg hdac, if_neg hdac, scopeLen_iff hm hdac,
        scopeLen_of_multicast hm hdac, readsBelow_destMulticast]
  · rw [if_neg hm, if_neg hm, scopeLen_of_not fun h => hm h.1, forall_prop_of_true hm,
      forall_prop_of_true hm, forall_prop_of_true (Or.inl rfl)]
    split
    · rename_i hdac
      rw [returns_contextIds.readsBelow_bind, readsBelow_contextIds, forall_prop_of_true trivial,
        readsBelow_destWithContext, forall_prop_of_true hdac, forall_prop_of_true hdac]
      rfl
    · rename_i hdac
      rw [readsBelow_uncompressAddr, and_iff_right fun h => absurd h hdac,
        forall_prop_of_true fun h => absurd h hdac]
      rfl

theorem writesBelow_destAddr (ptr : ℕ) : WritesBelow p.data 40 (p.destAddr p.iphc1 ptr) := by
  have haddr : ∀ addrPrefix conf lladdr ptr, conf < 256 →
      WritesBelow p.data 40 (uncompressAddr 24 addrPrefix conf lladdr ptr) :=
    fun _ _ _ _ hconf => writesBelow_uncompressAddr hconf
  rw [destAddr_eq]
  split
  · split
    · exact writesBelow_pure ptr
    · unfold destMulticast
      split
      · refine writesBelow_bind.2 ⟨(safe_checkReadSpace ptr 1).writes, fun _ _ => ?_⟩
        refine writesBelow_bind.2 ⟨writesBelow_get ptr, fun _ _ => ?_⟩
        exact haddr _ _ _ _ (getD_uncMxconf_lt _)
      · exact haddr _ _ _ _ (getD_uncMxconf_lt _)
  · split
    · refine writesBelow_bind.2 ⟨writesBelow_contextIds 40, fun ids _ => ?_⟩
      unfold destWithContext
      split
      · exact writesBelow_fail
      · exact haddr _ _ _ _ (getD_uncCtxconf_lt _)
    · exact haddr _ _ _ _ (getD_uncLlconf_lt _)

end Iphc

end Den2ne.Sicslowpan
