import Den2ne.Sicslowpan.IphcBounds

/-!
# The header chain behind the addresses

Each pass of the loop over the extension headers succeeds exactly if the header fits, and
leaves the cursor before the end of the packet; so the loop follows `Iphc.ExtHeaders`, and
everything that it and the UDP header read and write has been checked. With the fields before
it this gives `inside_iff`.
-/

namespace Den2ne.Sicslowpan

open Reads Transfer

namespace Iphc

variable {p : Iphc} {c c' : Cursor} {fuel : ℕ}

/-! ## Extension headers -/

/-- The cursor behind the extension header that it is at. -/
def afterExt (p : Iphc) (c : Cursor) : Cursor where
  iphcPtr := p.extLenPos c.iphcPtr + 1 + p.extLen c.iphcPtr
  ipPayload := c.ipPayload + (2 + p.extLen c.iphcPtr) / 8 * 8
  lastNextheader := c.ipPayload
  nhc := p.data c.iphcPtr &&& 0x01 ≠ 0
  extHdrLen := (c.extHdrLen + (2 + p.extLen c.iphcPtr) / 8 * 8) % 256
  uncompHdrLen := (c.uncompHdrLen + (2 + p.extLen c.iphcPtr) / 8 * 8) % 256

theorem safe_inlineNext {nh : UInt8} {ptr m : ℕ} (h : ptr < p.packetbufDatalen) :
    Safe p.data p.packetbufDatalen m (inlineNext nh ptr) True (if nh = 0 then p.data ptr else 0) := by
  unfold inlineNext
  split
  · exact Safe.get h
  · exact Safe.done 0

/-- The cursor is in the packet, and the last next header in the buffer. -/
structure Placed (p : Iphc) (c : Cursor) : Prop where
  iphcPtr : c.iphcPtr < p.packetbufDatalen
  lastNextheader : c.lastNextheader < p.bufSize

theorem Placed.afterExt (hfits : p.ExtFits c.iphcPtr c.ipPayload) : p.Placed (p.afterExt c) := by
  obtain ⟨-, hroom, -, hread⟩ := hfits
  exact ⟨hread, by simp only [Iphc.afterExt]; omega⟩

theorem safe_extHeader (hc : p.Placed c) :
    Safe p.data p.packetbufDatalen p.bufSize (p.extHeader c) (p.ExtFits c.iphcPtr c.ipPayload)
      (p.afterExt c) := by
  have hlenPos : c.iphcPtr + 1 ≤ p.extLenPos c.iphcPtr ∧
      p.extLenPos c.iphcPtr ≤ c.iphcPtr + 2 := by
    unfold extLenPos
    split <;> omega
  have htail : ∀ next, Safe p.data p.packetbufDatalen p.bufSize
      (p.extTail c (p.data c.iphcPtr) next (p.extLenPos c.iphcPtr) (p.data (p.extLenPos c.iphcPtr)))
      (p.ExtFits c.iphcPtr c.ipPayload) (p.afterExt c) := by
    intro next
    unfold extTail ExtFits ExtKnown
    cases extProto ((p.data c.iphcPtr &&& 0x0e) >>> 1) with
    | none => exact (Safe.fail _).congr (iff_of_false id fun h => Bool.false_ne_true h.1)
    | some proto =>
        refine Safe.congr ((Safe.put hc.lastNextheader proto).seq
          ((Safe.require _).bind fun hroom => (Safe.put (by omega) _).seq
            ((Safe.require _).bind fun hfull => (Safe.put (by omega) _).seq
              ((Safe.put (by omega) next).seq ((safe_checkReadSpace _ _).check
                fun hread => (Safe.copy (by omega) (by omega)).seq (Safe.done _)))))) ?_
        rw [extLen]
        simp only [Option.isSome_some, true_and]
        omega
  unfold extHeader
  refine Safe.congr ((Safe.get hc.iphcPtr).seq
    ((safe_checkReadSpace (c.iphcPtr + 1) 1).bind fun hnext =>
      (safe_inlineNext (by omega)).seq ((safe_checkReadSpace (p.extLenPos c.iphcPtr) 1).bind
        fun hlen => (Safe.get hlen).seq (htail _)))) ?_
  constructor
  · exact fun h => h.2.2
  · intro h
    have hread := h.2.2.2
    exact ⟨by omega, by omega, h⟩

theorem extHeaders_succ (p : Iphc) (fuel : ℕ) (c : Cursor) : p.extHeaders (fuel + 1) c =
    if c.nhc then get c.iphcPtr >>= fun b =>
      if IsExtHdr b then p.extHeader c >>= p.extHeaders fuel else pure c
    else pure c := rfl

theorem inside_extHeaders (hc : p.Placed c) :
    ReadsBelow p.data p.packetbufDatalen (p.extHeaders fuel c) ∧
      WritesBelow p.data p.bufSize (p.extHeaders fuel c) := by
  induction fuel generalizing c with
  | zero => exact ⟨readsBelow_fail, writesBelow_fail⟩
  | succ fuel ih =>
      have hext := safe_extHeader hc
      have hget : Safe p.data p.packetbufDatalen p.bufSize (get c.iphcPtr) True _ :=
        Safe.get hc.iphcPtr
      rw [extHeaders_succ]
      split
      · rw [hget.readsBelow_bind, hget.writesBelow_bind, forall_prop_of_true trivial,
          forall_prop_of_true trivial]
        split
        · rw [hext.readsBelow_bind, hext.writesBelow_bind]
          exact ⟨fun hfits => (ih (Placed.afterExt hfits)).1,
            fun hfits => (ih (Placed.afterExt hfits)).2⟩
        · exact ⟨readsBelow_pure c, writesBelow_pure c⟩
      · exact ⟨readsBelow_pure c, writesBelow_pure c⟩

/-- The loop follows the extension headers. -/
theorem extHeaders_of_run (hc : p.Placed c) (hrun : (p.extHeaders fuel c).run p.data = some c') :
    p.ExtHeaders c.nhc c.iphcPtr c.ipPayload c'.nhc c'.iphcPtr c'.ipPayload ∧ p.Placed c' := by
  induction fuel generalizing c with
  | zero => cases hrun
  | succ fuel ih =>
      rw [extHeaders_succ] at hrun
      split at hrun
      · rename_i hnhc
        rw [run_bind, run_get, Option.bind_some] at hrun
        split at hrun
        · rename_i hb
          rw [run_bind] at hrun
          by_cases hfits : p.ExtFits c.iphcPtr c.ipPayload
          · rw [(safe_extHeader hc).returns.run_eq hfits] at hrun
            obtain ⟨hrest, hplaced⟩ := ih (Placed.afterExt hfits) hrun
            rw [hnhc]
            exact ⟨.cons hb hfits hrest, hplaced⟩
          · rw [(safe_extHeader hc).returns.run_none hfits] at hrun
            cases hrun
        · rename_i hb
          obtain rfl := Option.some.inj hrun
          exact ⟨.nil fun _ => hb, hc⟩
      · rename_i hnhc
        obtain rfl := Option.some.inj hrun
        exact ⟨.nil fun h => absurd h hnhc, hc⟩

theorem lt_afterExt (p : Iphc) (c : Cursor) : c.iphcPtr < (p.afterExt c).iphcPtr := by
  simp only [afterExt, extLenPos]
  omega

/-- Where the extension headers fit, the loop gets behind them. -/
theorem run_of_extHeaders {nhc nhc' : Bool} {i o i' o' : ℕ}
    (h : p.ExtHeaders nhc i o nhc' i' o') (hc : p.Placed c) (hfuel : p.packetbufDatalen - i ≤ fuel)
    (hnhc : c.nhc = nhc) (hi : c.iphcPtr = i) (ho : c.ipPayload = o) :
    ∃ c', (p.extHeaders fuel c).run p.data = some c' ∧ c'.nhc = nhc' ∧ c'.iphcPtr = i' ∧
      c'.ipPayload = o' := by
  induction h generalizing c fuel with
  | nil hlast =>
      subst hnhc hi ho
      have hpos := hc.iphcPtr
      obtain ⟨fuel, rfl⟩ := Nat.exists_eq_succ_of_ne_zero (n := fuel) (by omega)
      refine ⟨c, ?_, rfl, rfl, rfl⟩
      rw [Nat.succ_eq_add_one, extHeaders_succ]
      split
      · rename_i hnhc
        rw [run_bind, run_get, Option.bind_some, if_neg (hlast hnhc)]
        rfl
      · rfl
  | cons hext hfits hrest ih =>
      subst hi ho
      have hpos := hc.iphcPtr
      obtain ⟨fuel, rfl⟩ := Nat.exists_eq_succ_of_ne_zero (n := fuel) (by omega)
      have hlt := lt_afterExt p c
      have hfuel : p.packetbufDatalen - (p.afterExt c).iphcPtr ≤ fuel := by omega
      obtain ⟨c', hrun, hc'⟩ := ih (Placed.afterExt hfits) hfuel rfl rfl rfl
      refine ⟨c', ?_, hc'⟩
      rw [Nat.succ_eq_add_one, extHeaders_succ, if_pos hnhc, run_bind, run_get, Option.bind_some,
        if_pos hext, run_bind, (safe_extHeader hc).returns.run_eq hfits]
      exact hrun

/-! ## The UDP header -/

theorem udp_cases {b : UInt8} (h : IsUdp b) :
    b &&& 0xf3 = 0xf0 ∨ b &&& 0xf3 = 0xf1 ∨ b &&& 0xf3 = 0xf2 ∨ b &&& 0xf3 = 0xf3 := by
  have hall : ∀ k : Fin 256, IsUdp (UInt8.ofNat k) →
      UInt8.ofNat k &&& 0xf3 = 0xf0 ∨ UInt8.ofNat k &&& 0xf3 = 0xf1 ∨
        UInt8.ofNat k &&& 0xf3 = 0xf2 ∨ UInt8.ofNat k &&& 0xf3 = 0xf3 := by decide +kernel
  have hb := hall ⟨b.toNat, b.toNat_lt⟩
  rw [UInt8.ofNat_toNat] at hb
  exact hb h

theorem safe_udpPorts {b : UInt8} (hb : IsUdp b) {ptr udpBuf : ℕ} (hroom : udpBuf + 8 ≤ p.bufSize) :
    Safe p.data p.packetbufDatalen p.bufSize (p.udpPorts b ptr udpBuf)
      (ptr + portsLen b ≤ p.packetbufDatalen) (ptr + portsLen b) := by
  unfold udpPorts portsLen
  rcases udp_cases hb with h | h | h | h <;> rw [h]
  · exact (safe_checkReadSpace ptr 5).check fun hread =>
      (Safe.copy (by omega) (by omega)).seq ((Safe.copy (by omega) (by omega)).seq (Safe.done _))
  · exact (safe_checkReadSpace ptr 4).check fun hread =>
      (Safe.copy (by omega) (by omega)).seq ((Safe.get (by omega)).seq
        ((Safe.puts (by simp; omega)).seq (Safe.done _)))
  · exact (safe_checkReadSpace ptr 4).check fun hread =>
      (Safe.get (by omega)).seq ((Safe.puts (by simp; omega)).seq
        ((Safe.copy (by omega) (by omega)).seq (Safe.done _)))
  · exact (safe_checkReadSpace ptr 2).check fun hread =>
      (Safe.get (by omega)).seq ((Safe.puts (by simp; omega)).seq (Safe.done _))

theorem safe_udpChecksum (b : UInt8) {ptr udpBuf : ℕ} (hroom : udpBuf + 8 ≤ p.bufSize) :
    Safe p.data p.packetbufDatalen p.bufSize (p.udpChecksum b ptr udpBuf)
      (b &&& 0x04 = 0 → ptr + 2 ≤ p.packetbufDatalen) (ptr + if b &&& 0x04 = 0 then 2 else 0) := by
  unfold udpChecksum
  split
  · rename_i h
    refine Safe.congr ((safe_checkReadSpace ptr 2).check fun hread => ?_)
      ⟨fun hread _ => hread, fun hread => hread h⟩
    exact (Safe.copy (by omega) (by omega)).seq (Safe.done _)
  · rename_i h
    exact (Safe.done ptr).congr (iff_of_true trivial fun h' => absurd h' h)

/-- The cursor behind the UDP header, if it is at one. -/
def afterUdp (p : Iphc) (c : Cursor) : Cursor :=
  if c.nhc = true ∧ IsUdp (p.data c.iphcPtr) then
    { c with
      iphcPtr := c.iphcPtr + udpLen (p.data c.iphcPtr)
      uncompHdrLen := (c.uncompHdrLen + 8) % 256 }
  else c

theorem safe_udpFields (hc : p.Placed c) (hb : IsUdp (p.data c.iphcPtr)) :
    Safe p.data p.packetbufDatalen p.bufSize (p.udpFields (p.data c.iphcPtr) c)
      (p.UdpFits c.iphcPtr c.ipPayload)
      { c with
        iphcPtr := c.iphcPtr + udpLen (p.data c.iphcPtr)
        uncompHdrLen := (c.uncompHdrLen + 8) % 256 } := by
  unfold udpFields UdpFits udpLen
  rw [← Nat.add_assoc]
  refine Safe.congr ((Safe.require _).bind fun hroom => (Safe.put hc.lastNextheader 17).seq
    ((safe_udpPorts hb hroom).bind fun hports => (safe_udpChecksum _ hroom).check fun hsum =>
      (Safe.puts ?_).seq (Safe.done _))) ?_
  · rw [be16, List.length_cons, List.length_singleton]
    omega
  · split
    · rename_i h
      rw [forall_prop_of_true h]
      omega
    · rename_i h
      rw [forall_prop_of_false h, and_true]
      omega

theorem safe_udpHeader (hc : p.Placed c) :
    Safe p.data p.packetbufDatalen p.bufSize (p.udpHeader c)
      (c.nhc = true → IsUdp (p.data c.iphcPtr) → p.UdpFits c.iphcPtr c.ipPayload)
      (p.afterUdp c) := by
  unfold udpHeader afterUdp
  split
  · rename_i hnhc
    refine Safe.congr ((Safe.get hc.iphcPtr).seq ?_) (forall_prop_of_true hnhc).symm
    split
    · rename_i hb
      rw [if_pos ⟨hnhc, hb⟩]
      exact (safe_udpFields hc hb).congr ⟨fun h _ => h, fun h => h hb⟩
    · rename_i hb
      rw [if_neg fun h => hb h.2]
      exact (Safe.done c).congr (forall_prop_of_false hb).symm
  · rename_i hnhc
    rw [if_neg fun h => hnhc h.1]
    exact (Safe.done c).congr (forall_prop_of_false hnhc).symm

/-! ## Everything behind the addresses -/

/-- The headers behind the addresses are there and fit. -/
def ChainFits (p : Iphc) (nhc : Bool) (i : ℕ) : Prop :=
  i < p.packetbufDatalen ∧ ∃ nhc' i' o', p.ExtHeaders nhc i 40 nhc' i' o' ∧
    (nhc' = true → IsUdp (p.data i') → p.UdpFits i' o')

theorem safe_lastHeader (hc : p.Placed c) :
    ∃ a, Safe p.data p.packetbufDatalen p.bufSize (p.lastHeader c)
      (c.nhc = true → IsUdp (p.data c.iphcPtr) → p.UdpFits c.iphcPtr c.ipPayload) a := by
  have hsize := p.bufSize_ge
  refine ⟨_, Safe.congr ((safe_checkReadSpace c.iphcPtr 1).bind fun _ =>
    (safe_udpHeader hc).check fun _ => (Safe.puts ?_).seq (Safe.done _))
    (and_iff_right hc.iphcPtr)⟩
  rw [be16, List.length_cons, List.length_singleton]
  omega

theorem placed_firstCursor (b : UInt8) {ptr : ℕ} (hptr : ptr < p.packetbufDatalen) :
    p.Placed (p.firstCursor b ptr) := by
  have hsize := p.bufSize_ge
  exact ⟨hptr, by simp only [firstCursor]; omega⟩

theorem inside_nextHeaders (b : UInt8) (ptr : ℕ) :
    ReadsBelow p.data p.packetbufDatalen (p.nextHeaders b ptr) ∧
      WritesBelow p.data p.bufSize (p.nextHeaders b ptr) := by
  have hcheck : Safe p.data p.packetbufDatalen p.bufSize (p.checkReadSpace ptr 1) _ () :=
    safe_checkReadSpace ptr 1
  unfold nextHeaders
  rw [hcheck.readsBelow_bind, hcheck.writesBelow_bind, ← forall_and]
  intro hptr
  have hfirst := placed_firstCursor b hptr
  obtain ⟨hreads, hwrites⟩ := inside_extHeaders hfirst
  refine ⟨readsBelow_bind.2 ⟨hreads, fun c hrun => ?_⟩,
    writesBelow_bind.2 ⟨hwrites, fun c hrun => ?_⟩⟩
  · obtain ⟨a, ha⟩ := safe_lastHeader (extHeaders_of_run hfirst hrun).2
    exact ha.reads
  · obtain ⟨a, ha⟩ := safe_lastHeader (extHeaders_of_run hfirst hrun).2
    exact ha.writes

/-- What is behind the addresses can be uncompressed exactly if it is there and fits. -/
theorem run_nextHeaders (b : UInt8) (ptr : ℕ) :
    (p.nextHeaders b ptr).run p.data = none ↔ ¬ p.ChainFits (b &&& 0x04 ≠ 0) ptr := by
  unfold nextHeaders ChainFits
  rw [(safe_checkReadSpace (m := 0) ptr 1).returns.run_bind_eq_none, not_and]
  refine forall_congr' fun hptr => ?_
  have hfirst := placed_firstCursor b hptr
  rw [run_bind]
  constructor
  · rintro hnone ⟨nhc, i, o, hchain, hudp⟩
    have hfuel : p.packetbufDatalen - ptr ≤ p.packetbufDatalen := Nat.sub_le _ _
    obtain ⟨c, hrun, rfl, rfl, rfl⟩ := run_of_extHeaders hchain hfirst hfuel rfl rfl rfl
    obtain ⟨a, ha⟩ := safe_lastHeader (extHeaders_of_run hfirst hrun).2
    rw [hrun, Option.bind_some, ha.returns.run_eq hudp] at hnone
    cases hnone
  · intro hnot
    cases hrun : (p.extHeaders p.packetbufDatalen (p.firstCursor b ptr)).run p.data with
    | none => rfl
    | some c =>
        obtain ⟨hchain, hplaced⟩ := extHeaders_of_run hfirst hrun
        obtain ⟨a, ha⟩ := safe_lastHeader hplaced
        rw [Option.bind_some, ha.returns.run_none fun hudp => hnot ⟨_, _, _, hchain, hudp⟩]

/-! ## The whole function -/

/-- What `uncompress_hdr_iphc` does behind the two bytes of the encoding. -/
def afterEncoding (p : Iphc) : Transfer UInt8 (ℕ × ℕ) :=
  p.trafficClass p.iphc0 p.fieldsStart >>= fun ptr => p.nextHeader p.iphc0 ptr >>= fun ptr =>
    p.hopLimit p.iphc0 ptr >>= fun ptr => p.srcAddr p.iphc1 ptr >>= fun ptr =>
    p.destAddr p.iphc1 ptr >>= fun ptr => p.nextHeaders p.iphc0 ptr

theorem safe_encoding (hlen : p.packetbufHdrLen + 2 ≤ p.packetbufDatalen) (m : ℕ) :
    Safe p.data p.packetbufDatalen m (get p.packetbufHdrLen) True p.iphc0 ∧
      Safe p.data p.packetbufDatalen m (get (p.packetbufHdrLen + 1)) True p.iphc1 :=
  ⟨Safe.get (by omega), Safe.get (by omega)⟩

theorem readsBelow_uncompressHdrIphc :
    ReadsBelow p.data p.packetbufDatalen p.uncompressHdrIphc ↔
      (p.packetbufHdrLen + 2 ≤ p.packetbufDatalen →
        ReadsBelow p.data p.packetbufDatalen p.afterEncoding) := by
  unfold uncompressHdrIphc
  rw [(Safe.require (m := 0) _).readsBelow_bind]
  refine forall_congr' fun hlen => ?_
  obtain ⟨h0, h1⟩ := safe_encoding hlen 0
  rw [h0.readsBelow_bind, forall_prop_of_true trivial, h1.readsBelow_bind,
    forall_prop_of_true trivial]
  rfl

theorem writesBelow_uncompressHdrIphc :
    WritesBelow p.data p.bufSize p.uncompressHdrIphc ↔
      (p.packetbufHdrLen + 2 ≤ p.packetbufDatalen →
        WritesBelow p.data p.bufSize p.afterEncoding) := by
  unfold uncompressHdrIphc
  rw [(Safe.require (n := 0) _).writesBelow_bind]
  refine forall_congr' fun hlen => ?_
  obtain ⟨h0, h1⟩ := safe_encoding hlen p.bufSize
  rw [h0.writesBelow_bind, forall_prop_of_true trivial, h1.writesBelow_bind,
    forall_prop_of_true trivial]
  rfl

theorem run_uncompressHdrIphc :
    p.uncompressHdrIphc.run p.data = none ↔
      (p.packetbufHdrLen + 2 ≤ p.packetbufDatalen → p.afterEncoding.run p.data = none) := by
  unfold uncompressHdrIphc
  rw [(Safe.require (n := 0) (m := 0) _).returns.run_bind_eq_none]
  refine forall_congr' fun hlen => ?_
  obtain ⟨h0, h1⟩ := safe_encoding hlen 0
  rw [h0.returns.run_bind_eq_none, forall_prop_of_true trivial, h1.returns.run_bind_eq_none,
    forall_prop_of_true trivial]
  rfl

/-- The fields before the addresses are all there: the last one that is in line has been
checked. -/
theorem fields_iff (q : Prop) :
    ((p.tfLen = 0 ∨ p.fieldsStart + p.tfLen ≤ p.packetbufDatalen) →
      (p.nhLen = 0 ∨ p.fieldsStart + p.tfLen + p.nhLen ≤ p.packetbufDatalen) →
      (p.hlimLen = 0 ∨ p.fieldsStart + p.tfLen + p.nhLen + p.hlimLen ≤ p.packetbufDatalen) → q) ↔
    ((p.fieldsEnd = p.fieldsStart ∨ p.fieldsEnd ≤ p.packetbufDatalen) → q) := by
  unfold fieldsEnd
  rw [← and_imp, ← and_imp]
  refine imp_congr_left ?_
  omega

theorem readsBelow_afterEncoding :
    ReadsBelow p.data p.packetbufDatalen p.afterEncoding ↔
      ((p.fieldsEnd = p.fieldsStart ∨ p.fieldsEnd ≤ p.packetbufDatalen) →
        ((p.Sac → p.Cid → p.packetbufHdrLen + 2 < p.packetbufDatalen) ∧
          (p.SrcContext → postCount p.srcConf = 0 ∨ p.srcEnd ≤ p.packetbufDatalen)) ∧
        (p.SrcContext →
          (¬ p.M → p.Dac → p.Cid → p.packetbufHdrLen + 2 < p.packetbufDatalen) ∧
          (p.DestContext → (p.scopeLen = 0 ∨ p.srcEnd + 1 ≤ p.packetbufDatalen) →
            postCount p.destConf = 0 ∨ p.destEnd ≤ p.packetbufDatalen))) := by
  unfold afterEncoding
  rw [(safe_trafficClass _).readsBelow_bind, (safe_nextHeader _).readsBelow_bind,
    (safe_hopLimit _).readsBelow_bind, fields_iff]
  refine forall_congr' fun _ => ?_
  rw [(returns_srcAddr _).readsBelow_bind, readsBelow_srcAddr]
  refine and_congr Iff.rfl (forall_congr' fun _ => ?_)
  rw [(returns_destAddr _).readsBelow_bind, readsBelow_destAddr,
    and_iff_left fun _ => (inside_nextHeaders _ _).1]
  rfl

theorem writesBelow_afterEncoding : WritesBelow p.data p.bufSize p.afterEncoding := by
  have hsize := p.bufSize_ge
  unfold afterEncoding
  rw [((safe_trafficClass _).mono hsize).writesBelow_bind]
  intro _
  rw [((safe_nextHeader _).mono hsize).writesBelow_bind]
  intro _
  rw [((safe_hopLimit _).mono hsize).writesBelow_bind]
  intro _
  refine writesBelow_bind.2 ⟨(writesBelow_srcAddr _).mono hsize, fun _ _ => ?_⟩
  refine writesBelow_bind.2 ⟨(writesBelow_destAddr _).mono hsize, fun _ _ => ?_⟩
  exact (inside_nextHeaders _ _).2

theorem run_afterEncoding :
    p.afterEncoding.run p.data = none ↔
      ((p.fieldsEnd = p.fieldsStart ∨ p.fieldsEnd ≤ p.packetbufDatalen) → p.SrcContext →
        p.DestContext ∧ (p.scopeLen = 0 ∨ p.srcEnd + 1 ≤ p.packetbufDatalen) →
        ¬ p.ChainFits (p.iphc0 &&& 0x04 ≠ 0) p.destEnd) := by
  unfold afterEncoding
  rw [(safe_trafficClass _).returns.run_bind_eq_none, (safe_nextHeader _).returns.run_bind_eq_none,
    (safe_hopLimit _).returns.run_bind_eq_none, fields_iff,
    (returns_srcAddr _).run_bind_eq_none, (returns_destAddr _).run_bind_eq_none, run_nextHeaders]
  rfl

/-- `uncompress_hdr_iphc` fails exactly if a check does. -/
theorem run_eq_none_iff : p.uncompressHdrIphc.run p.data = none ↔ ¬ p.Accepted := by
  rw [run_uncompressHdrIphc, run_afterEncoding]
  constructor
  · rintro hnone ⟨hbase, hsrc, hdest, hchain⟩
    have hend : p.destEnd = p.srcEnd + p.scopeLen + postCount p.destConf := rfl
    have hsrcEnd : p.srcEnd = p.fieldsEnd + postCount p.srcConf := rfl
    have hfields : p.packetbufHdrLen + 2 ≤ p.fieldsEnd := by
      unfold fieldsEnd fieldsStart
      omega
    refine hnone (by omega) (.inr (by omega)) hsrc ⟨hdest, ?_⟩ ⟨hbase, hchain⟩
    omega
  · intro hnot hlen _ hsrc hdest hchain
    exact hnot ⟨hchain.1, hsrc, hdest.1, hchain.2⟩

/-! ## The format -/

variable {nhc nhc' nhc'' : Bool} {i i' i'' o o' : ℕ} {lens lens' : List ℕ}

theorem lt_extLenPos (p : Iphc) (i : ℕ) : i < p.extLenPos i := by
  unfold extLenPos
  omega

/-- The bytes of the packet say where the headers are. -/
theorem ExtChain.unique (h : p.ExtChain nhc i lens nhc' i')
    (h' : p.ExtChain nhc i lens' nhc'' i'') : lens = lens' ∧ nhc' = nhc'' ∧ i' = i'' := by
  induction h generalizing lens' with
  | nil hlast =>
      cases h' with
      | nil _ => exact ⟨rfl, rfl, rfl⟩
      | cons hext _ _ _ => exact absurd hext (hlast rfl)
  | cons hext _ _ _ ih =>
      cases h' with
      | nil hlast => exact absurd hext (hlast rfl)
      | cons _ _ _ hrest =>
          obtain ⟨rfl, hnhc, hi⟩ := ih hrest
          exact ⟨rfl, hnhc, hi⟩

theorem ExtChain.le (h : p.ExtChain nhc i lens nhc' i') : i ≤ i' := by
  induction h with
  | nil _ => exact Nat.le_refl _
  | @cons i _ _ _ _ _ _ _ ih =>
      have hlt := lt_extLenPos p i
      omega

/-- The loop takes all headers if there is a byte behind them and each fills a unit: rounding down
leaves more room than padding. -/
theorem ExtChain.extHeaders (h : p.ExtChain nhc i lens nhc' i') (hfull : ∀ len ∈ lens, 6 ≤ len)
    (hlast : i' < p.packetbufDatalen) (hroom : o + (lens.map paddedLen).sum ≤ p.bufSize) :
    ∃ o', p.ExtHeaders nhc i o nhc' i' o' ∧ o' ≤ o + (lens.map paddedLen).sum := by
  induction h generalizing o with
  | nil hnot => exact ⟨o, .nil hnot, Nat.le_add_right _ _⟩
  | @cons i i' lens nhc' hext hknown hread hrest ih =>
      rw [List.map_cons, List.sum_cons] at hroom ⊢
      have hunits : (2 + p.extLen i) / 8 * 8 ≤ paddedLen (p.extLen i) := by
        unfold paddedLen
        omega
      have hpadded : 2 + p.extLen i ≤ paddedLen (p.extLen i) := by
        unfold paddedLen
        omega
      have hle := hrest.le
      obtain ⟨o', hrest', ho'⟩ := ih (o := o + (2 + p.extLen i) / 8 * 8)
        (fun len hlen => hfull len (List.mem_cons_of_mem _ hlen)) hlast (by omega)
      exact ⟨o', .cons hext ⟨hknown, by omega, hfull _ List.mem_cons_self, by omega⟩ hrest',
        by omega⟩

/-- What the loop takes are the headers of the packet. -/
theorem ExtHeaders.extChain (h : p.ExtHeaders nhc i o nhc' i' o') (hi : i < p.packetbufDatalen) :
    ∃ lens, p.ExtChain nhc i lens nhc' i' ∧ (∀ len ∈ lens, 6 ≤ len) ∧
      i' < p.packetbufDatalen := by
  induction h with
  | nil hlast => exact ⟨[], .nil hlast, nofun, hi⟩
  | cons hext hfits _ ih =>
      obtain ⟨hknown, -, hfull, hread⟩ := hfits
      obtain ⟨lens, hchain, hall, hlast⟩ := ih hread
      refine ⟨_, .cons hext hknown hread.le hchain, ?_, hlast⟩
      exact List.forall_mem_cons.2 ⟨hfull, hall⟩

/-- What is accepted is well formed if it has no bad mode and fits padded. -/
theorem Accepted.wellFormed (h : p.Accepted) (hknown : p.Known) (hpadded : p.PaddedFits) :
    p.WellFormed := by
  obtain ⟨nhc, i, o, hheaders, hudp⟩ := h.chain
  obtain ⟨lens, hchain, -, -⟩ := hheaders.extChain h.base
  refine ⟨h.base.le, h.srcContext, h.destContext, hknown, lens, nhc, i, hchain,
    hpadded lens nhc i hchain, ?_⟩
  rintro rfl
  exact (hudp rfl (hknown.nhc lens i hchain)).1

/-- The headers of an accepted packet are ample. -/
theorem Accepted.ample (h : p.Accepted) : p.Ample := by
  intro lens nhc i hheaders
  obtain ⟨nhc', i', o, hcode, -⟩ := h.chain
  obtain ⟨lens', hchain, hfull, hlast⟩ := hcode.extChain h.base
  obtain ⟨rfl, rfl, rfl⟩ := hheaders.unique hchain
  exact ⟨hfull, fun _ => hlast⟩

theorem WellFormed.paddedFits (h : p.WellFormed) : p.PaddedFits := by
  intro lens nhc i hheaders
  obtain ⟨lens', nhc', i', hchain, hfits, -⟩ := h.chain
  obtain ⟨rfl, rfl, rfl⟩ := hheaders.unique hchain
  exact hfits

theorem udpLen_pos (b : UInt8) : 0 < udpLen b := by
  unfold udpLen portsLen
  split
  · omega
  · split <;> omega

/-- A well-formed packet is accepted if its headers are ample. -/
theorem WellFormed.accepted (h : p.WellFormed) (hample : p.Ample) : p.Accepted := by
  obtain ⟨lens, nhc, i, hheaders, hfits, hudp⟩ := h.chain
  obtain ⟨hfull, hbyte⟩ := hample lens nhc i hheaders
  have hlast : i < p.packetbufDatalen := by
    cases nhc with
    | false => exact hbyte rfl
    | true =>
        have hpos := udpLen_pos (p.data i)
        have hread := hudp rfl
        omega
  have hle := ExtChain.le hheaders
  unfold headersSize at hfits
  obtain ⟨o, hcode, ho⟩ := ExtChain.extHeaders hheaders hfull hlast (o := 40) (by omega)
  refine ⟨by omega, h.srcContext, h.destContext, nhc, i, o, hcode, ?_⟩
  rintro rfl -
  rw [if_pos rfl] at hfits
  exact ⟨hudp rfl, by omega⟩

/-- Uncompressing stays inside its buffers and fails exactly on the headers that are
truncated, do not fit, or use an unknown context or mode, if and only if the in-line bytes of the
addresses are there as far as the function gets, well-formed headers are ample, and accepted ones
use no mode without a meaning and fit padded. -/
theorem inside_iff (p : Iphc) : p.Inside ↔
    p.AddressesPresent ∧ (p.WellFormed → p.Ample) ∧ (p.Accepted → p.Known ∧ p.PaddedFits) := by
  have hreads : ReadsBelow p.data p.packetbufDatalen p.uncompressHdrIphc ↔
      p.AddressesPresent := by
    rw [readsBelow_uncompressHdrIphc, readsBelow_afterEncoding]
    exact ⟨fun h => ⟨fun hlen hf => (h hlen hf).1, fun hlen hf => (h hlen hf).2⟩,
      fun h hlen hf => ⟨h.src hlen hf, h.dest hlen hf⟩⟩
  have hwrites : WritesBelow p.data p.bufSize p.uncompressHdrIphc :=
    writesBelow_uncompressHdrIphc.2 fun _ => writesBelow_afterEncoding
  have hfails : (p.uncompressHdrIphc.run p.data = none ↔ ¬ p.WellFormed) ↔
      (p.WellFormed → p.Ample) ∧ (p.Accepted → p.Known ∧ p.PaddedFits) := by
    rw [run_eq_none_iff, not_iff_not]
    constructor
    · intro h
      exact ⟨fun hw => (h.2 hw).ample, fun ha => ⟨(h.1 ha).known, (h.1 ha).paddedFits⟩⟩
    · intro h
      exact ⟨fun ha => ha.wellFormed (h.2 ha).1 (h.2 ha).2, fun hw => hw.accepted (h.1 hw)⟩
  constructor
  · intro h
    exact ⟨hreads.1 h.reads, hfails.1 h.fails⟩
  · intro h
    exact ⟨hreads.2 h.1, hwrites, hfails.2 h.2⟩

/-- Three bytes: the next header in line, all else elided, and nothing behind. -/
def threeBytes : Iphc where
  data i := [0x7a, 0x33, 0x3b].getD i 0
  packetbufDatalen := 3
  packetbufHdrLen := 0
  uncompHdrLen := 0
  bufSize := 1280
  ipLen := 0
  addrContexts := []
  senderAddr := []
  receiverAddr := []
  bufSize_ge := by decide

/-- The headers are well formed, and the function wants another byte. -/
example : threeBytes.WellFormed ∧ threeBytes.uncompressHdrIphc.run threeBytes.data = none := by
  have hheaders : threeBytes.Headers [] false 3 := .nil nofun
  refine ⟨⟨by decide, fun hsac _ => absurd hsac (by decide),
    fun _ hdac => absurd hdac (by decide), ⟨by decide, by decide, fun lens i h => ?_⟩,
    [], false, 3, hheaders, by decide, nofun⟩, by decide +kernel⟩
  exact absurd (hheaders.unique h).2.1 Bool.false_ne_true

/-- Two bytes: a source address that is all in line, and no byte of it in the packet. -/
def twoBytes : Iphc where
  data i := [0x7f, 0x00].getD i 0
  packetbufDatalen := 2
  packetbufHdrLen := 0
  uncompHdrLen := 0
  bufSize := 1280
  ipLen := 0
  addrContexts := []
  senderAddr := []
  receiverAddr := []
  bufSize_ge := by decide

theorem not_inside : ¬ ∀ p : Iphc, p.Inside := by
  intro h
  have hreads := (h twoBytes).reads 2
  exact absurd (hreads (by decide +kernel)) (by decide)

end Iphc

end Den2ne.Sicslowpan
