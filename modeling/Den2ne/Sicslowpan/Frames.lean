import Den2ne.Sicslowpan.Run

/-!
# The frames of a packet

What `input` reads from the frames of a packet: their dispatch, the size and the tag, the offset
of a piece, and what stands behind the header.
-/

namespace Den2ne.Sicslowpan

open Memory Pieces Reads

variable {α : Type*} {cfg : Config α} {sender receiver : α} {bytes rest : List UInt8}
  {junk : ℕ → UInt8} {dispatch : UInt8} {size tag j k : ℕ} {p : Packet cfg}

/-- The frame from a place on. -/
theorem load_frame (k : ℕ) :
    load (frame sender receiver bytes junk).data k
      ((frame sender receiver bytes junk).datalen - k) = bytes.drop k := by
  have hload : load (frame sender receiver bytes junk).data 0 bytes.length = bytes :=
    load_store junk 0 bytes
  have hdrop := drop_load (frame sender receiver bytes junk).data 0 bytes.length k
  rw [hload, Nat.zero_add] at hdrop
  exact hdrop.symm

theorem frame_data (h : k < bytes.length) :
    (frame sender receiver bytes junk).data k = bytes[k] := by
  have hstore := store_add (m := junk) (p := 0) h
  rwa [Nat.zero_add] at hstore

theorem frag1_or : ∀ x < 8, ((0xC0 : UInt8) ||| UInt8.ofNat x).toNat = 0xC0 + x ∧
    ((0xC0 : UInt8) ||| UInt8.ofNat x) &&& 0xF8 = 0xC0 := by decide

theorem fragN_or : ∀ x < 8, ((0xE0 : UInt8) ||| UInt8.ofNat x).toNat = 0xE0 + x ∧
    ((0xE0 : UInt8) ||| UInt8.ofNat x) &&& 0xF8 = 0xE0 := by decide

/-- The size field has eleven bits; the other five are the dispatch. -/
theorem header_size (hsize : size < 2048) (hdispatch : dispatch.toNat % 8 = 0)
    (hor : (dispatch ||| UInt8.ofNat (size / 256)).toNat = dispatch.toNat + size / 256) :
    (frame sender receiver (fragHeader dispatch size tag ++ rest) junk).get16 0 % 2048 = size := by
  rw [Frame.get16, frame_data (by simp [fragHeader]), frame_data (by simp [fragHeader])]
  change ((dispatch ||| UInt8.ofNat (size / 256)).toNat * 256 + (UInt8.ofNat size).toNat) % 2048 =
    size
  rw [hor, UInt8.toNat_ofNat']
  omega

theorem header_tag (htag : tag < 65536) :
    (frame sender receiver (fragHeader dispatch size tag ++ rest) junk).get16 2 = tag := by
  rw [Frame.get16, frame_data (by simp [fragHeader]), frame_data (by simp [fragHeader])]
  change (UInt8.ofNat (tag / 256)).toNat * 256 + (UInt8.ofNat tag).toNat = tag
  rw [UInt8.toNat_ofNat', UInt8.toNat_ofNat']
  omega

theorem header_dispatch :
    (frame sender receiver (fragHeader dispatch size tag ++ rest) junk).data 0 =
      dispatch ||| UInt8.ofNat (size / 256) :=
  frame_data (by simp [fragHeader])

namespace Packet

theorem size_lt_2048 (p : Packet cfg) : p.size < 2048 := p.size_lt

theorem size_eq (p : Packet cfg) : p.size = p.head.length + p.pieces.flatten.length :=
  List.length_append

theorem size_pos (p : Packet cfg) : 0 < p.size := by
  rw [p.size_eq]
  exact Nat.add_pos_left (List.length_pos_of_ne_nil p.head_ne) _

theorem offset_mul (p : Packet cfg) (hj : j < p.pieces.length) :
    p.offset j * 8 = p.head.length + start p.pieces j :=
  Nat.div_mul_cancel (p.aligned j hj)

theorem offset_lt (p : Packet cfg) (hj : j < p.pieces.length) : p.offset j < 256 := by
  have hmul := p.offset_mul hj
  have hle := start_le p.pieces j
  have hsize := p.size_lt_2048
  rw [p.size_eq] at hsize
  omega

theorem offset_pos (p : Packet cfg) (hj : j < p.pieces.length) : 0 < p.offset j := by
  have hmul := p.offset_mul hj
  have hhead := List.length_pos_of_ne_nil p.head_ne
  omega

theorem offset_inj (p : Packet cfg) (hj : j < p.pieces.length) (hk : k < p.pieces.length)
    (h : p.offset j = p.offset k) : j = k := by
  have hmulj := p.offset_mul hj
  have hmulk := p.offset_mul hk
  exact start_inj p.pieces_ne hj hk (by omega)

/-! ## The first fragment -/

theorem isFrag1 (p : Packet cfg) (junk : ℕ → UInt8) : (p.frag1 junk).IsFrag1 := by
  have hsize := p.size_lt_2048
  unfold Frame.IsFrag1
  rw [Packet.frag1, Sicslowpan.frag1, header_dispatch]
  exact (frag1_or (p.size / 256) (by omega)).2

theorem frag1_size (p : Packet cfg) (junk : ℕ → UInt8) :
    (p.frag1 junk).get16 0 % 2048 = p.size := by
  have hsize := p.size_lt_2048
  exact header_size hsize (by decide) (frag1_or (p.size / 256) (by omega)).1

theorem frag1_tag (p : Packet cfg) (junk : ℕ → UInt8) : (p.frag1 junk).get16 2 = p.tag :=
  header_tag p.tag_lt

theorem frag1_datalen (p : Packet cfg) (junk : ℕ → UInt8) :
    (p.frag1 junk).datalen = p.first.length + 4 := by
  have hlen : (p.frag1 junk).datalen = (fragHeader 0xC0 p.size p.tag ++ p.first).length := rfl
  rw [hlen, List.length_append, Nat.add_comm]
  rfl

end Packet

/-! ## The headers -/

section Headers

variable {f : Frame α} {k fragSize uncomp hdrLen : ℕ} {buffer : BufferSize}
  {junk junk' m m' m₁ : ℕ → UInt8}

/-- When headers can be processed, and what this gives. -/
theorem headers_eq_some : headers cfg f k buffer fragSize m = (m', some (uncomp, hdrLen)) ↔
    (f.digestPagingDispatch k).1 ≤ 1 ∧
      ((cfg.iphc = true ∧ f.IsIphc (f.digestPagingDispatch k).2) ∧
          (iphc cfg f (f.digestPagingDispatch k).2 buffer fragSize).uncompressHdrIphc.run f.data =
            some (hdrLen, uncomp) ∧
          (iphc cfg f (f.digestPagingDispatch k).2 buffer
            fragSize).uncompressHdrIphc.target f.data m = m' ∨
        ¬ (cfg.iphc = true ∧ f.IsIphc (f.digestPagingDispatch k).2) ∧
          f.data (f.digestPagingDispatch k).2 = 0x41 ∧
          store m 0 (load f.data ((f.digestPagingDispatch k).2 + 1) 40) = m' ∧
          40 = uncomp ∧ (f.digestPagingDispatch k).2 + 1 + 40 = hdrLen) := by
  unfold headers
  generalize f.digestPagingDispatch k = page
  obtain ⟨currPage, k'⟩ := page
  dsimp only
  by_cases hpage : 1 < currPage
  · rw [if_pos hpage]
    simp [UInt8.not_le.2 hpage]
  · rw [if_neg hpage, and_iff_right (UInt8.not_lt.1 hpage)]
    by_cases hiphc : cfg.iphc = true ∧ f.IsIphc k'
    · rw [if_pos hiphc, Prod.mk.injEq, and_comm, Option.map_eq_some_iff]
      simp [hiphc]
    · rw [if_neg hiphc]
      by_cases hipv6 : f.data k' = 0x41
      · rw [if_pos hipv6]
        simp [hiphc, hipv6]
      · rw [if_neg hipv6]
        simp [hiphc, hipv6]

/-- The dispatch of headers that can be processed is in the frame. -/
theorem lt_of_headers (h : headers cfg f k buffer fragSize m = (m', some (uncomp, hdrLen)))
    (hle : hdrLen ≤ f.datalen) : (f.digestPagingDispatch k).2 < f.datalen := by
  obtain ⟨-, ⟨-, hrun, -⟩ | ⟨-, -, -, -, rfl⟩⟩ := headers_eq_some.1 h
  · have hencoding := Iphc.encoding_of_run
      (p := iphc cfg f (f.digestPagingDispatch k).2 buffer fragSize) hrun
    exact Nat.lt_of_lt_of_le (Nat.lt_add_of_pos_right (by decide)) hencoding
  · omega

theorem le_digestPagingDispatch (f : Frame α) (k : ℕ) : k ≤ (f.digestPagingDispatch k).2 := by
  unfold Frame.digestPagingDispatch
  split
  · exact Nat.le_succ k
  · exact Nat.le_refl k

/-- Headers that can be processed depend neither on what stands behind the frame nor on more of
the buffer than they leave. -/
theorem headers_congr (n : ℕ) (hm : ∀ i < n, m i = m₁ i)
    (h : headers cfg (frame sender receiver bytes junk) k buffer fragSize m =
      (m', some (uncomp, hdrLen))) (hle : hdrLen ≤ bytes.length) :
    ∃ m₁', headers cfg (frame sender receiver bytes junk') k buffer fragSize m₁ =
      (m₁', some (uncomp, hdrLen)) ∧ ∀ i < n, m' i = m₁' i := by
  have hdata : ∀ i < bytes.length, (frame sender receiver bytes junk).data i =
      (frame sender receiver bytes junk').data i := fun i hi => by
    rw [frame_data hi, frame_data hi]
  have hlt := lt_of_headers h hle
  have hpage : (frame sender receiver bytes junk').digestPagingDispatch k =
      (frame sender receiver bytes junk).digestPagingDispatch k := by
    have hk := le_digestPagingDispatch (frame sender receiver bytes junk) k
    unfold Frame.digestPagingDispatch
    rw [hdata k (Nat.lt_of_le_of_lt hk hlt)]
  simp only [headers_eq_some, hpage]
  obtain ⟨hfirst, hcases⟩ := headers_eq_some.1 h
  generalize (frame sender receiver bytes junk).digestPagingDispatch k = page at *
  obtain ⟨currPage, k'⟩ := page
  have hiphc : (frame sender receiver bytes junk').IsIphc k' ↔
      (frame sender receiver bytes junk).IsIphc k' := by
    unfold Frame.IsIphc
    rw [hdata k' hlt]
  rw [hiphc, ← hdata k' hlt]
  rcases hcases with ⟨hcompressed, hrun, rfl⟩ | ⟨hnot, hipv6, rfl, rfl, rfl⟩
  · have hreads := Iphc.readsBelow_of_run
      (p := iphc cfg (frame sender receiver bytes junk) k' buffer fragSize) hrun
    obtain ⟨hrun', hwrites⟩ := Transfer.run_congr fun i hi => hdata i (hreads i hi)
    have hsame : (iphc cfg (frame sender receiver bytes junk') k' buffer
        fragSize).uncompressHdrIphc = _ :=
      Iphc.uncompressHdrIphc_data
        (p := iphc cfg (frame sender receiver bytes junk) k' buffer fragSize) _
    rw [hsame]
    refine ⟨_, ⟨hfirst, .inl ⟨hcompressed, hrun'.symm.trans hrun, rfl⟩⟩, fun i hi => ?_⟩
    refine (Transfer.target_congr (.inl (hm i hi))).trans ?_
    unfold Transfer.target
    exact congrArg (fun ws => List.foldl _ m₁ ws i) hwrites
  · have hload : load (frame sender receiver bytes junk').data (k' + 1) 40 =
        load (frame sender receiver bytes junk).data (k' + 1) 40 :=
      load_congr fun i _ hi => (hdata i (Nat.lt_of_lt_of_le hi hle)).symm
    refine ⟨_, ⟨hfirst, .inr ⟨hnot, hipv6, rfl, rfl, rfl⟩⟩, fun i hi => ?_⟩
    rw [hload, store_of_ge (Nat.zero_le i), store_of_ge (Nat.zero_le i), hm i hi]

/-- Headers that the frame determines do not depend on what was in the buffer. -/
theorem load_headers (hdet : DeterminesHeaders cfg f size)
    (h : headers cfg f 4 (firstFragSize cfg) size m = (m', some (uncomp, hdrLen)))
    (m₁ : ℕ → UInt8) : ∃ m₁', headers cfg f 4 (firstFragSize cfg) size m₁ =
      (m₁', some (uncomp, hdrLen)) ∧ load m₁' 0 uncomp = load m' 0 uncomp := by
  simp only [headers_eq_some]
  obtain ⟨hfirst, ⟨hcompressed, hrun, rfl⟩ | ⟨hnot, hipv6, rfl, rfl, rfl⟩⟩ :=
    headers_eq_some.1 h
  · refine ⟨_, ⟨hfirst, .inl ⟨hcompressed, hrun, rfl⟩⟩, load_congr fun i _ hi => ?_⟩
    have hcovers := Iphc.covers_uncompressHdrIphc (hdet hcompressed.1 hcompressed.2) rfl
    exact hcovers.target_eq hrun (Nat.zero_add uncomp ▸ hi) m₁ m
  · refine ⟨_, ⟨hfirst, .inr ⟨hnot, hipv6, rfl, rfl, rfl⟩⟩, ?_⟩
    have hload (m : ℕ → UInt8) : load (store m 0 (load f.data
        ((f.digestPagingDispatch 4).2 + 1) 40)) 0 40 = _ := load_store m 0 (load f.data _ 40)
    exact (hload m₁).trans (hload m).symm

end Headers

namespace Packet

/-- Where the first fragment determines the head, it gives it whatever was in the buffer. -/
theorem head_eq (p : Packet cfg) {m m' : ℕ → UInt8} {uncomp hdrLen : ℕ}
    (hdet : DeterminesHeaders cfg (p.frag1 junk) p.size)
    (h : headers cfg (p.frag1 junk) 4 (firstFragSize cfg) p.size m = (m', some (uncomp, hdrLen)))
    (hle : hdrLen ≤ (p.frag1 junk).datalen) :
    load m' 0 uncomp ++ (fragHeader 0xC0 p.size p.tag ++ p.first).drop hdrLen = p.head := by
  obtain ⟨m₁, hheaders, hload⟩ := load_headers hdet h (store m 0 p.head)
  rw [← hload]
  rw [p.frag1_datalen] at hle
  exact p.uncompress junk _ m₁ uncomp hdrLen (load_store m 0 p.head) hheaders hle

/-! ## The other fragments -/

theorem isFragN (p : Packet cfg) (j : ℕ) (junk : ℕ → UInt8) : (p.fragN j junk).IsFragN := by
  have hsize := p.size_lt_2048
  unfold Frame.IsFragN
  rw [Packet.fragN, Sicslowpan.fragN, header_dispatch]
  exact (fragN_or (p.size / 256) (by omega)).2

theorem not_isFrag1 (p : Packet cfg) (j : ℕ) (junk : ℕ → UInt8) :
    ¬ (p.fragN j junk).IsFrag1 := by
  intro h
  have hN : (p.fragN j junk).IsFragN := p.isFragN j junk
  exact absurd (h.symm.trans hN) (by decide)

theorem fragN_size (p : Packet cfg) (j : ℕ) (junk : ℕ → UInt8) :
    (p.fragN j junk).get16 0 % 2048 = p.size := by
  have hsize := p.size_lt_2048
  exact header_size hsize (by decide) (fragN_or (p.size / 256) (by omega)).1

theorem fragN_tag (p : Packet cfg) (j : ℕ) (junk : ℕ → UInt8) : (p.fragN j junk).get16 2 = p.tag :=
  header_tag p.tag_lt

theorem fragN_offset (p : Packet cfg) (hj : j < p.pieces.length) (junk : ℕ → UInt8) :
    ((p.fragN j junk).data 4).toNat = p.offset j := by
  have hdata : (p.fragN j junk).data 4 = UInt8.ofNat (p.offset j) :=
    frame_data (by simp [fragHeader])
  rw [hdata, UInt8.toNat_ofNat', Nat.mod_eq_of_lt (p.offset_lt hj)]

theorem fragN_datalen (p : Packet cfg) (j : ℕ) (junk : ℕ → UInt8) :
    (p.fragN j junk).datalen = (piece p.pieces j).length + 5 := by
  have hlen : (p.fragN j junk).datalen = (fragHeader 0xE0 p.size p.tag ++
    UInt8.ofNat (p.offset j) :: piece p.pieces j).length := rfl
  rw [hlen, List.length_append, List.length_cons, Nat.add_comm]
  rfl

/-- What a fragment carries behind its header. -/
theorem load_fragN (p : Packet cfg) (j : ℕ) (junk : ℕ → UInt8) :
    load (p.fragN j junk).data 5 ((p.fragN j junk).datalen - 5) = piece p.pieces j :=
  load_frame 5

end Packet

end Den2ne.Sicslowpan
