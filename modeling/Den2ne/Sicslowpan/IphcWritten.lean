import Den2ne.Sicslowpan.IphcChain

/-!
# What uncompressing headers leaves as it was

`uncompress_hdr_iphc` writes into a buffer that it does not clear. Where the packet determines
the headers, every byte of them is written; without that, a multicast destination with a context,
a next header of an unknown kind and an elided UDP checksum leave what was in the buffer.
-/

namespace Den2ne.Sicslowpan

open Reads Transfer

namespace Iphc

/-- The packet determines its uncompressed headers: the destination is no multicast address with
a context, a compressed next header is of a known kind, and the UDP checksum is not elided. -/
structure Determined (p : Iphc) : Prop where
  multicast : ¬ (p.M ∧ p.Dac)
  next : p.iphc0 &&& 0x04 ≠ 0 → IsExtHdr (p.data p.destEnd) ∨ IsUdp (p.data p.destEnd)
  checksum : ∀ lens i, p.Headers lens true i → IsUdp (p.data i) → p.data i &&& 0x04 = 0

variable {p : Iphc} {c c' : Cursor} {fuel : ℕ}

/-! ## The fields before the addresses -/

theorem covers_trafficClass (ptr : ℕ) :
    Covers p.data (p.trafficClass p.iphc0 ptr) fun _ i => i < 4 := by
  unfold trafficClass
  split
  · split
    · refine Covers.after fun _ _ => (covers_copy _ _ _).bind fun _ _ => Covers.after fun _ _ =>
        (covers_put _ _).bind fun _ _ => Covers.after fun _ _ => (covers_put _ _).bind fun _ _ =>
        covers_pure fun i hi => ?_
      omega
    · refine (covers_put _ _).bind fun _ _ => Covers.after fun _ _ => Covers.after fun _ _ =>
        (covers_put _ _).bind fun _ _ => (covers_copy _ _ _).bind fun _ _ =>
          covers_pure fun i hi => ?_
      omega
  · split
    · refine Covers.after fun _ _ => Covers.after fun _ _ => (covers_put _ _).bind fun _ _ =>
        (covers_put _ _).bind fun _ _ => (covers_puts _ _).bind fun _ _ =>
          covers_pure fun i hi => ?_
      simp at hi
      omega
    · refine (covers_puts _ _).bind fun _ _ => covers_pure fun i hi => ?_
      simp at hi
      omega

theorem covers_nextHeader (ptr : ℕ) :
    Covers p.data (p.nextHeader p.iphc0 ptr) fun _ i => i = 6 ∧ p.iphc0 &&& 0x04 = 0 := by
  unfold nextHeader
  split
  · exact Covers.after fun _ _ => Covers.after fun _ _ => (covers_put _ _).bind fun _ _ =>
      covers_pure fun i hi => hi.2 hi.1.1
  · rename_i hnext
    exact covers_pure fun i hi => hnext hi.2

theorem covers_hopLimit (ptr : ℕ) :
    Covers p.data (p.hopLimit p.iphc0 ptr) fun _ i => i = 7 := by
  unfold hopLimit
  split
  · exact (covers_put _ _).bind fun _ _ => covers_pure fun i hi => hi.2 hi.1
  · exact Covers.after fun _ _ => Covers.after fun _ _ => (covers_put _ _).bind fun _ _ =>
      covers_pure fun i hi => hi.2 hi.1

/-! ## The addresses -/

/-- Prefix, zeros and in-line bytes make a whole address. -/
theorem covers_uncompressAddr {ipaddr : ℕ} {addrPrefix : List UInt8} {conf : ℕ}
    {lladdr : List UInt8} (ptr : ℕ) (hpref : prefCount conf ≤ addrPrefix.length)
    (hconf : prefCount conf + postCount conf ≤ 16) :
    Covers p.data (uncompressAddr ipaddr addrPrefix conf lladdr ptr) fun _ i =>
      ipaddr ≤ i ∧ i < ipaddr + 16 := by
  have hpost : Covers p.data
      (uncompressPost ipaddr (prefCount conf) (postCount conf) lladdr ptr) fun _ i =>
        ipaddr + (16 - postCount conf) ≤ i ∧ i < ipaddr + 16 := by
    unfold uncompressPost
    split
    · refine (covers_copy _ _ _).bind fun _ _ => ?_
      split
      · exact (covers_puts _ _).mono fun _ _ i hi => by omega
      · exact covers_pure fun i hi => by omega
    · split
      · exact (covers_puts _ _).mono fun _ _ i hi => by omega
      · exact covers_pure fun i hi => by omega
  refine (covers_puts _ _).bind fun _ _ => (covers_puts _ _).bind fun _ _ =>
    hpost.bind fun _ _ => covers_pure fun i hi => ?_
  rw [List.length_take, List.length_replicate] at hi
  omega

theorem prefCount_add_postCount_le {confs : List ℕ} (hconfs : ∀ conf ∈ confs,
    prefCount conf + postCount conf ≤ 16) (k : ℕ) :
    prefCount (confs.getD k 0) + postCount (confs.getD k 0) ≤ 16 := by
  rw [List.getD_eq_getElem?_getD]
  cases hk : confs[k]? with
  | none => decide
  | some conf => exact hconfs conf (List.mem_of_getElem? hk)

theorem prefCount_getD_le {confs : List ℕ} {n : ℕ} (hconfs : ∀ conf ∈ confs, prefCount conf ≤ n)
    (k : ℕ) : prefCount (confs.getD k 0) ≤ n := by
  rw [List.getD_eq_getElem?_getD]
  cases hk : confs[k]? with
  | none => exact Nat.zero_le n
  | some conf => exact hconfs conf (List.mem_of_getElem? hk)

theorem covers_ctxconf {ipaddr : ℕ} {addrPrefix : List UInt8} (hpref : addrPrefix.length = 8)
    (lladdr : List UInt8) (k ptr : ℕ) :
    Covers p.data (uncompressAddr ipaddr addrPrefix (uncCtxconf.getD k 0) lladdr ptr) fun _ i =>
      ipaddr ≤ i ∧ i < ipaddr + 16 :=
  covers_uncompressAddr ptr (hpref ▸ prefCount_getD_le (by decide) k)
    (prefCount_add_postCount_le (by decide) k)

theorem covers_llconf {ipaddr : ℕ} (lladdr : List UInt8) (k ptr : ℕ) :
    Covers p.data (uncompressAddr ipaddr llPrefix (uncLlconf.getD k 0) lladdr ptr) fun _ i =>
      ipaddr ≤ i ∧ i < ipaddr + 16 :=
  covers_uncompressAddr ptr (prefCount_getD_le (by decide) k)
    (prefCount_add_postCount_le (by decide) k)

theorem covers_mxconf {ipaddr : ℕ} (scope : UInt8) (k ptr : ℕ) :
    Covers p.data (uncompressAddr ipaddr [0xff, scope] (uncMxconf.getD k 0) [] ptr) fun _ i =>
      ipaddr ≤ i ∧ i < ipaddr + 16 :=
  covers_uncompressAddr ptr (prefCount_getD_le (n := 2) (by decide) k)
    (prefCount_add_postCount_le (by decide) k)

theorem covers_srcAddr (ptr : ℕ) :
    Covers p.data (p.srcAddr p.iphc1 ptr) fun _ i => 8 ≤ i ∧ i < 24 := by
  rw [srcAddr_eq]
  split
  · refine Covers.after fun ids _ => ?_
    unfold srcWithContext
    split
    · split
      · exact covers_fail
      · exact covers_ctxconf List.length_ofFn _ _ _
    · rename_i hsam
      rw [not_not.1 hsam]
      exact covers_uncompressAddr ptr (Nat.zero_le 0) (by decide)
  · exact covers_llconf _ _ _

theorem covers_destAddr (h : ¬ (p.M ∧ p.Dac)) (ptr : ℕ) :
    Covers p.data (p.destAddr p.iphc1 ptr) fun _ i => 24 ≤ i ∧ i < 40 := by
  rw [destAddr_eq]
  split
  · rename_i hm
    rw [if_neg fun hdac => h ⟨hm, hdac⟩]
    unfold destMulticast
    split
    · exact Covers.after fun _ _ => Covers.after fun _ _ => covers_mxconf _ _ _
    · exact covers_mxconf _ _ _
  · split
    · refine Covers.after fun ids _ => ?_
      unfold destWithContext
      split
      · exact covers_fail
      · exact covers_ctxconf List.length_ofFn _ _ _
    · exact covers_llconf _ _ _

/-! ## Extension headers -/

theorem covers_extTail (b next : UInt8) (lenPtr : ℕ) (len : UInt8) :
    Covers p.data (p.extTail c b next lenPtr len) fun c' i =>
      i = c.lastNextheader ∨ c.ipPayload ≤ i ∧ i < c'.ipPayload := by
  unfold extTail
  split
  · exact covers_fail
  · refine (covers_put _ _).bind fun _ _ => Covers.after fun _ _ => Covers.after fun _ _ =>
      Covers.after fun _ _ => (covers_put _ _).bind fun _ _ => (covers_put _ _).bind fun _ _ =>
      Covers.after fun _ _ => (covers_copy _ _ _).bind fun _ _ => covers_pure fun i hi => ?_
    dsimp only at hi
    omega

theorem covers_extHeader : Covers p.data (p.extHeader c) fun c' i =>
    i = c.lastNextheader ∨ c.ipPayload ≤ i ∧ i < c'.ipPayload := by
  unfold extHeader
  exact Covers.after fun _ _ => Covers.after fun _ _ => Covers.after fun _ _ =>
    Covers.after fun _ _ => Covers.after fun _ _ => covers_extTail _ _ _ _

/-- The extension headers are written, and what the header before them says about the next one. -/
theorem covers_extHeaders : Covers p.data (p.extHeaders fuel c) fun c' i =>
    c.ipPayload ≤ i ∧ i < c'.ipPayload ∨
      i = c.lastNextheader ∧ c.nhc = true ∧ IsExtHdr (p.data c.iphcPtr) := by
  induction fuel generalizing c with
  | zero => exact covers_fail
  | succ fuel ih =>
      rw [extHeaders_succ]
      split
      · refine Covers.after fun b hb => ?_
        obtain rfl := Option.some.inj hb
        split
        · refine covers_extHeader.bind fun c₁ _ => ih.mono fun c' _ i hi => ?_
          omega
        · rename_i hext
          exact covers_pure fun i hi => by
            rcases hi with hi | hi
            · omega
            · exact hext hi.2.2
      · rename_i hnhc
        exact covers_pure fun i hi => by
          rcases hi with hi | hi
          · omega
          · exact hnhc hi.2.1

theorem uncompHdrLen_le_of_run (hc : p.Placed c) (hrun : (p.extHeaders fuel c).run p.data = some c')
    (hle : c.uncompHdrLen ≤ c.ipPayload) : c'.uncompHdrLen ≤ c'.ipPayload := by
  induction fuel generalizing c with
  | zero => cases hrun
  | succ fuel ih =>
      rw [extHeaders_succ] at hrun
      split at hrun
      · obtain ⟨b, hb, hrun⟩ := run_bind_eq_some.1 hrun
        split at hrun
        · obtain ⟨c₁, hc₁, hrun⟩ := run_bind_eq_some.1 hrun
          obtain ⟨hfits, rfl⟩ := (safe_extHeader hc).returns.of_run hc₁
          refine ih (Placed.afterExt hfits) hrun ?_
          have hmod := Nat.mod_le (c.uncompHdrLen + (2 + p.extLen c.iphcPtr) / 8 * 8) 256
          simp only [afterExt]
          omega
        · obtain rfl := Option.some.inj hrun
          exact hle
      · obtain rfl := Option.some.inj hrun
        exact hle

/-- The loop ends at once. -/
theorem extHeaders_of_not (hnot : c.nhc = true → ¬ IsExtHdr (p.data c.iphcPtr))
    (hrun : (p.extHeaders fuel c).run p.data = some c') : c' = c := by
  cases fuel with
  | zero => cases hrun
  | succ fuel =>
      rw [extHeaders_succ] at hrun
      split at hrun
      · rename_i hnhc
        rw [run_bind, run_get, Option.bind_some, if_neg (hnot hnhc)] at hrun
        exact (Option.some.inj hrun).symm
      · exact (Option.some.inj hrun).symm

/-! ## The UDP header -/

theorem covers_udpPorts (b : UInt8) (ptr udpBuf : ℕ) :
    Covers p.data (p.udpPorts b ptr udpBuf) fun _ i => udpBuf ≤ i ∧ i < udpBuf + 4 := by
  unfold udpPorts
  split
  · refine Covers.after fun _ _ => (covers_copy _ _ _).bind fun _ _ =>
      (covers_copy _ _ _).bind fun _ _ => covers_pure fun i hi => ?_
    omega
  · split
    · refine Covers.after fun _ _ => (covers_copy _ _ _).bind fun _ _ => Covers.after fun _ _ =>
        (covers_puts _ _).bind fun _ _ => covers_pure fun i hi => ?_
      simp at hi
      omega
    · split
      · refine Covers.after fun _ _ => Covers.after fun _ _ => (covers_puts _ _).bind fun _ _ =>
          (covers_copy _ _ _).bind fun _ _ => covers_pure fun i hi => ?_
        simp at hi
        omega
      · split
        · refine Covers.after fun _ _ => Covers.after fun _ _ => (covers_puts _ _).bind fun _ _ =>
            covers_pure fun i hi => ?_
          simp at hi
          omega
        · exact covers_fail

theorem length_be16 (n : ℤ) : (be16 n).length = 2 := rfl

theorem covers_udpFields {b : UInt8} (hsum : b &&& 0x04 = 0) :
    Covers p.data (p.udpFields b c) fun _ i =>
      i = c.lastNextheader ∨ c.ipPayload ≤ i ∧ i < c.ipPayload + 8 := by
  have hchecksum (ptr : ℕ) : Covers p.data (p.udpChecksum b ptr c.ipPayload) fun _ i =>
      c.ipPayload + 6 ≤ i ∧ i < c.ipPayload + 8 := by
    unfold udpChecksum
    rw [if_pos hsum]
    refine Covers.after fun _ _ => (covers_copy _ _ _).bind fun _ _ => covers_pure fun i hi => ?_
    omega
  refine Covers.after fun _ _ => (covers_put _ _).bind fun _ _ =>
    (covers_udpPorts _ _ _).bind fun _ _ => (hchecksum _).bind fun _ _ =>
    (covers_puts _ _).bind fun _ _ => covers_pure fun i hi => ?_
  rw [length_be16] at hi
  omega

theorem covers_udpHeader (hc : p.Placed c) (hle : c.uncompHdrLen ≤ c.ipPayload)
    (hsum : c.nhc = true → IsUdp (p.data c.iphcPtr) → p.data c.iphcPtr &&& 0x04 = 0) :
    Covers p.data (p.udpHeader c) fun c' i =>
      c.ipPayload ≤ i ∧ i < c'.uncompHdrLen ∨
        i = c.lastNextheader ∧ c.nhc = true ∧ IsUdp (p.data c.iphcPtr) := by
  unfold udpHeader
  split
  · rename_i hnhc
    refine Covers.after fun b hb => ?_
    obtain rfl := Option.some.inj hb
    split
    · rename_i hudp
      refine (covers_udpFields (hsum hnhc hudp)).mono fun c' hrun i hi => ?_
      obtain ⟨-, rfl⟩ := (safe_udpFields hc hudp).returns.of_run hrun
      have hmod := Nat.mod_le (c.uncompHdrLen + 8) 256
      dsimp only at hi
      omega
    · rename_i hudp
      refine covers_pure fun i hi => ?_
      rcases hi with hi | hi
      · omega
      · exact hudp hi.2.2
  · rename_i hnhc
    refine covers_pure fun i hi => ?_
    rcases hi with hi | hi
    · omega
    · exact hnhc hi.2.1

/-! ## The whole function -/

theorem covers_lastHeader (hc : p.Placed c) (hle : c.uncompHdrLen ≤ c.ipPayload)
    (hsum : c.nhc = true → IsUdp (p.data c.iphcPtr) → p.data c.iphcPtr &&& 0x04 = 0) :
    Covers p.data (p.lastHeader c) fun r i =>
      4 ≤ i ∧ i < 6 ∨ c.ipPayload ≤ i ∧ i < r.2 ∨
        i = c.lastNextheader ∧ c.nhc = true ∧ IsUdp (p.data c.iphcPtr) := by
  refine Covers.after fun _ _ => (covers_udpHeader hc hle hsum).bind fun c' _ =>
    (covers_puts _ _).bind fun _ _ => covers_pure fun i hcell => ?_
  obtain ⟨⟨hi, hudp⟩, hlength⟩ := hcell
  rw [length_be16] at hlength
  rcases hi with hi | hi | hi
  · exact hlength hi
  · exact hudp (.inl hi)
  · exact hudp (.inr hi)

/-- Behind the addresses, where these are followed by a header of a known kind. -/
theorem covers_nextHeaders (h : p.Determined) (hlen : p.uncompHdrLen = 0) :
    Covers p.data (p.nextHeaders p.iphc0 p.destEnd) fun r i =>
      4 ≤ i ∧ i < 6 ∨ 40 ≤ i ∧ i < r.2 ∨ i = 6 ∧ p.iphc0 &&& 0x04 ≠ 0 := by
  refine Covers.after fun _ hcheck => ?_
  have hptr := ((safe_checkReadSpace (m := 0) p.destEnd 1).returns.of_run hcheck).1
  have hfirst : p.Placed (p.firstCursor p.iphc0 p.destEnd) := placed_firstCursor _ hptr
  refine covers_extHeaders.bind fun c hrun => ?_
  obtain ⟨hchain, hc⟩ := extHeaders_of_run hfirst hrun
  have hle : c.uncompHdrLen ≤ c.ipPayload := uncompHdrLen_le_of_run hfirst hrun <| by
    simp only [firstCursor, hlen]
    decide
  obtain ⟨lens, hheaders, -, -⟩ := hchain.extChain hptr
  have hsum : c.nhc = true → IsUdp (p.data c.iphcPtr) → p.data c.iphcPtr &&& 0x04 = 0 := by
    intro hnhc
    rw [hnhc] at hheaders
    exact h.checksum lens c.iphcPtr hheaders
  refine (covers_lastHeader hc hle hsum).mono fun r _ i hcell => ?_
  obtain ⟨hi, hnot⟩ := hcell
  rcases hi with hi | hi | ⟨rfl, hnext⟩
  · exact .inl hi
  · refine .inr (.inl ⟨?_, hi.2⟩)
    have hout : ¬ (40 ≤ i ∧ i < c.ipPayload) := fun hin => hnot (.inl hin)
    omega
  · have hext : ¬ IsExtHdr (p.data p.destEnd) := fun hext =>
      hnot (.inr ⟨rfl, decide_eq_true hnext, hext⟩)
    obtain rfl := extHeaders_of_not (fun _ => hext) hrun
    exact .inr (.inr ⟨rfl, decide_eq_true hnext, (h.next hnext).resolve_left hext⟩)

/-- Where the packet determines the headers, every byte of them is written. -/
theorem covers_uncompressHdrIphc (h : p.Determined) (hlen : p.uncompHdrLen = 0) :
    Covers p.data p.uncompressHdrIphc fun r i => i < r.2 := by
  refine Covers.after fun _ _ => Covers.after fun b0 hb0 => Covers.after fun b1 hb1 => ?_
  obtain rfl := Option.some.inj hb0
  obtain rfl := Option.some.inj hb1
  refine (covers_trafficClass _).bind fun ptr hptr => ?_
  obtain rfl := ((safe_trafficClass _).returns.of_run hptr).2
  refine (covers_nextHeader _).bind fun ptr hptr => ?_
  obtain rfl := ((safe_nextHeader _).returns.of_run hptr).2
  refine (covers_hopLimit _).bind fun ptr hptr => ?_
  obtain rfl := ((safe_hopLimit _).returns.of_run hptr).2
  refine (covers_srcAddr _).bind fun ptr hptr => ?_
  obtain rfl := ((returns_srcAddr _).of_run hptr).2
  refine (covers_destAddr h.multicast _).bind fun ptr hptr => ?_
  obtain rfl := ((returns_destAddr _).of_run hptr).2
  refine (covers_nextHeaders h hlen).mono fun r _ i hcell => ?_
  obtain ⟨⟨⟨⟨⟨hi, htraffic⟩, hnext⟩, hhop⟩, hsrc⟩, hdest⟩ := hcell
  by_cases hsix : i = 6
  · exact .inr (.inr ⟨hsix, fun hinline => hnext ⟨hsix, hinline⟩⟩)
  · omega

/-! ## What is read -/

theorem encoding_of_run {r : ℕ × ℕ} (hrun : p.uncompressHdrIphc.run p.data = some r) :
    p.packetbufHdrLen + 2 ≤ p.packetbufDatalen := by
  obtain ⟨_, hcheck, -⟩ := run_bind_eq_some.1 hrun
  exact ((Safe.require (n := 0) (m := 0) _).returns.of_run hcheck).1

/-- A packet whose headers can be uncompressed is not read behind its end. -/
theorem readsBelow_of_run {r : ℕ × ℕ} (hrun : p.uncompressHdrIphc.run p.data = some r) :
    ReadsBelow p.data p.packetbufDatalen p.uncompressHdrIphc := by
  have haccepted : p.Accepted := by
    by_contra hnot
    rw [run_eq_none_iff.2 hnot] at hrun
    cases hrun
  have hbase := haccepted.base
  have hdest : p.destEnd = p.srcEnd + p.scopeLen + postCount p.destConf := rfl
  have hsrc : p.srcEnd = p.fieldsEnd + postCount p.srcConf := rfl
  have hcid : p.Cid → p.packetbufHdrLen + 2 < p.packetbufDatalen := by
    intro hcid
    have hstart : p.fieldsStart = p.packetbufHdrLen + 2 + 1 := by
      unfold fieldsStart
      rw [if_pos hcid]
    have hfields : p.fieldsStart ≤ p.fieldsEnd := by
      unfold fieldsEnd
      omega
    omega
  refine readsBelow_uncompressHdrIphc.2 fun _ => readsBelow_afterEncoding.2 fun _ => ?_
  exact ⟨⟨fun _ => hcid, fun _ => .inr (by omega)⟩,
    fun _ => ⟨fun _ _ => hcid, fun _ _ => .inr (by omega)⟩⟩

theorem extHeaders_data (data : ℕ → UInt8) (fuel : ℕ) (c : Cursor) :
    { p with data := data }.extHeaders fuel c = p.extHeaders fuel c := by
  induction fuel generalizing c with
  | zero => rfl
  | succ fuel ih =>
      have hfuel : { p with data := data }.extHeaders fuel = p.extHeaders fuel := funext ih
      rw [extHeaders_succ, extHeaders_succ, hfuel]
      rfl

/-- What is done depends on the bytes of the packet only where they are read. -/
theorem uncompressHdrIphc_data (data : ℕ → UInt8) :
    { p with data := data }.uncompressHdrIphc = p.uncompressHdrIphc := by
  unfold uncompressHdrIphc nextHeaders
  simp only [extHeaders_data]
  rfl

end Iphc

end Den2ne.Sicslowpan
