import Den2ne.Sicslowpan.Fragment

/-!
# Reassembled packets are complete

As long as the steps keep the count, a packet that is handed to the IP layer is one whose
fragments were all received. A duplicate is counted as well, and completes a packet that is not.
-/

namespace Den2ne.Sicslowpan

open Memory Pieces

variable {α : Type*} [DecidableEq α] {cfg : Config α} {s : State α}
  {opened : ℕ → Option (Packet cfg)} {received : List (Packet cfg × Option ℕ)}

omit [DecidableEq α] in
theorem Complete.mono {w w' : World cfg} (h : Complete w) (hdelivered : w'.delivered = w.delivered)
    (hreceived : w.received ⊆ w'.received) : Complete w' := by
  intro d hd
  rw [hdelivered] at hd
  obtain ⟨p, hsender, htag, hbytes, hfirst, hall⟩ := h d hd
  exact ⟨p, hsender, htag, hbytes, hreceived hfirst, fun j hj => hreceived (hall j hj)⟩

omit [DecidableEq α] in
theorem inputWhole_inv (h : Inv s opened received) (f : Frame α) :
    Inv (inputWhole cfg f s).1 opened received := by
  have hsame (m : ℕ → UInt8) : Inv { s with uip := m } opened received :=
    h.of_same rfl (fun c => ⟨(s.info c).expired, rfl⟩) (List.Subset.refl _)
  unfold inputWhole
  generalize headers cfg f 0 (uipBufSize cfg) 0 s.uip = result
  obtain ⟨m, result⟩ := result
  cases result with
  | none => exact hsame m
  | some lens =>
      obtain ⟨uncomp, hdrLen⟩ := lens
      dsimp only
      split
      · exact hsame m
      · split
        · exact (hsame m).clearFragments 0
        · exact hsame _

/-- One step. -/
theorem step_spec {w w' : World cfg} {e : Event cfg} (hok : Keeps w e)
    (hinv : Inv w.state w.opened w.received) (hcomplete : Complete w)
    (hs : step cfg e w = some w') : Inv w'.state w'.opened w'.received ∧ Complete w' := by
  cases e with
  | frag1 p junk =>
      obtain rfl := Option.some.inj hs
      refine ⟨?_, hcomplete.mono rfl (List.subset_cons_self _ _)⟩
      dsimp only
      rw [input_frag1]
      exact inputFrag1_inv hinv junk hok
  | fragN p j junk =>
      rw [step] at hs
      by_cases hj : j < p.pieces.length
      · rw [if_pos hj, input_fragN] at hs
        obtain ⟨hinv', hbytes⟩ := inputFragN_spec hinv hj junk hok
        generalize inputFragN cfg (p.fragN j junk) w.state = result at *
        obtain ⟨state, passed⟩ := result
        obtain rfl := Option.some.inj hs
        refine ⟨hinv', ?_⟩
        have hbefore : Complete { w with received := (p, some j) :: w.received } :=
          hcomplete.mono rfl (List.subset_cons_self _ _)
        cases passed with
        | none => exact hbefore
        | some bytes =>
            obtain ⟨hpacket, hfirst, hall⟩ := hbytes bytes rfl
            intro d hd
            rcases List.mem_cons.1 hd with rfl | hd
            · exact ⟨p, rfl, rfl, hpacket, hfirst, hall⟩
            · exact hbefore d hd
      · rw [if_neg hj] at hs
        cases hs
  | whole f =>
      rw [step] at hs
      by_cases hf : f.IsFrag1 ∨ f.IsFragN
      · rw [if_pos hf] at hs
        cases hs
      · rw [if_neg hf] at hs
        obtain rfl := Option.some.inj hs
        refine ⟨?_, hcomplete.mono rfl (List.Subset.refl _)⟩
        dsimp only
        rw [input]
        split
        · exact hinv
        · rw [if_neg fun h => hf (Or.inl h), if_neg fun h => hf (Or.inr h)]
          exact inputWhole_inv hinv f
  | time expired =>
      obtain rfl := Option.some.inj hs
      exact ⟨hinv.of_same rfl (fun c => ⟨expired c, rfl⟩) (List.Subset.refl _),
        hcomplete.mono rfl (List.Subset.refl _)⟩
  | uip m =>
      obtain rfl := Option.some.inj hs
      exact ⟨hinv.of_same rfl (fun c => ⟨(w.state.info c).expired, rfl⟩) (List.Subset.refl _),
        hcomplete.mono rfl (List.Subset.refl _)⟩

omit [DecidableEq α] in
theorem inv_boot (cfg : Config α) (null : α) :
    Inv (boot null : World cfg).state (boot null : World cfg).opened
      (boot null : World cfg).received := by
  constructor
  · intro c hc
    exact absurd hc (Nat.lt_irrefl 0)
  · intro c k hk
    exact absurd hk.1 (Nat.lt_irrefl 0)

/-- In a run whose steps keep the count, what is handed over is complete in every state. -/
theorem always_complete (cfg : Config α) (null : α) (es : List (Event cfg))
    (h : Transition.Meets (step cfg) Keeps es (boot null)) :
    Transition.Always (step cfg) Complete es (boot null) := by
  refine Transition.always_of_meets (I := fun w => Inv w.state w.opened w.received ∧ Complete w)
    (fun w e w' hw hok hs => step_spec hok hw.1 hw.2 hs) (fun w hw => hw.2) ?_ h
  refine ⟨inv_boot cfg null, fun d hd => ?_⟩
  cases hd

/-! ## Packets -/

/-- A packet whose first fragment gives its head if nothing stands behind the frame. -/
def packetOf (cfg : Config α) (sender receiver : α) (tag : ℕ) (head first : List UInt8)
    (pieces : List (List UInt8)) (htag : tag < 65536) (hhead : head ≠ [])
    (hsize : (head ++ pieces.flatten).length < 2048) (hne : ∀ piece ∈ pieces, piece ≠ [])
    (haligned : ∀ j < pieces.length, 8 ∣ head.length + start pieces j)
    (huncompress : ∀ r ∈ (headers cfg (frag1 sender receiver (head ++ pieces.flatten).length tag
        first fun _ => 0) 4 (firstFragSize cfg) (head ++ pieces.flatten).length
        (store (fun _ => 0) 0 head)).2,
      load (headers cfg (frag1 sender receiver (head ++ pieces.flatten).length tag
          first fun _ => 0) 4 (firstFragSize cfg) (head ++ pieces.flatten).length
          (store (fun _ => 0) 0 head)).1 0 r.1 ++
        (fragHeader 0xC0 (head ++ pieces.flatten).length tag ++ first).drop r.2 = head) :
    Packet cfg where
  sender := sender
  receiver := receiver
  tag := tag
  head := head
  first := first
  pieces := pieces
  tag_lt := htag
  size_lt := hsize
  head_ne := hhead
  pieces_ne := hne
  aligned := haligned
  uncompress := by
    intro junk m m' uncomp hdrLen hm h hle
    have hbytes : hdrLen ≤
        (fragHeader 0xC0 (head ++ pieces.flatten).length tag ++ first).length := by
      rw [List.length_append, Nat.add_comm]
      exact hle
    have hsame : ∀ i < head.length, m i = store (fun _ => 0) 0 head i := fun i hi => by
      have hcell := getElem?_load (m := m) (p := 0) hi
      rw [hm, Nat.zero_add] at hcell
      rw [store_of_ge (Nat.zero_le i), Nat.sub_zero, hcell]
      rfl
    obtain ⟨m₁, hheaders, hcells⟩ := headers_congr head.length hsame h hbytes
    have heq := huncompress (uncomp, hdrLen) (congrArg Prod.snd hheaders)
    rw [show (headers cfg (frag1 ..) ..).1 = m₁ from congrArg Prod.fst hheaders] at heq
    have hlength : uncomp ≤ head.length := by
      rw [← heq, List.length_append, length_load]
      exact Nat.le_add_right _ _
    rw [load_congr fun i _ hi => hcells i (by omega)]
    exact heq

/-- The default configuration. -/
def smallConfig : Config ℕ where
  reassContexts := 2
  fragmentBuffers := 12
  fragmentSize := 110
  bufSize := 1280
  iphc := true
  addrContexts := []
  lladdr a := [2, 0, 0, 0, 0, 0, 0, UInt8.ofNat a]
  reassContexts_le := by decide
  fragmentSize_le := by decide
  fragmentSize_ge := by decide
  bufSize_ge := Nat.le_add_right 40 1240

/-- The headers of a datagram of 64 bytes. -/
def udpHead : List UInt8 :=
  [0x60, 0, 0, 0, 0, 24, 17, 64, 0xfe, 0x80, 0, 0, 0, 0, 0, 0, 0, 0, 0, 0, 0, 0, 0, 5,
    0xfe, 0x80, 0, 0, 0, 0, 0, 0, 0, 0, 0, 0, 0, 0, 0, 1, 0x16, 0x33, 0x16, 0x33, 0, 24, 0xab, 0xcd]

/-- The datagram in three fragments. -/
def smallPacket : Packet smallConfig :=
  packetOf smallConfig 5 1 7 udpHead [0x7e, 0x33, 0xf0, 0x16, 0x33, 0x16, 0x33, 0xab, 0xcd]
    [List.replicate 8 1, List.replicate 8 2] (by decide) (by decide) (by decide) (by decide)
    (by decide) (by decide +kernel)

/-- The datagram in three fragments, without its UDP checksum. -/
def elidedPacket : Packet smallConfig :=
  packetOf smallConfig 5 1 7 udpHead [0x7e, 0x33, 0xf4, 0x16, 0x33, 0x16, 0x33]
    [List.replicate 8 1, List.replicate 8 2] (by decide) (by decide) (by decide) (by decide)
    (by decide) (by decide +kernel)

theorem uncompressed_smallPacket (m : ℕ → UInt8) :
    Uncompressed smallConfig (smallPacket.frag1 fun _ => 0xaa) smallPacket.size m := by
  refine ⟨fun _ _ => ⟨by decide +kernel, fun _ => .inr (by decide +kernel), fun lens i h _ => ?_⟩,
    _, 48, 13, headers_eq_some.2 ⟨by decide +kernel, .inl ⟨by decide +kernel, by decide +kernel,
      rfl⟩⟩, by decide +kernel, .inl (by decide +kernel)⟩
  obtain ⟨-, -, rfl⟩ := h.unique (.nil fun _ => by decide +kernel)
  decide +kernel

/-- All fragments of the datagram, which is handed over. -/
theorem always_complete_small : Transition.Always (step smallConfig) Complete
    [.frag1 smallPacket fun _ => 0xaa, .fragN smallPacket 0 fun _ => 0xaa,
      .fragN smallPacket 1 fun _ => 0xaa] (boot 0) := by
  refine always_complete smallConfig 0 _ ⟨fun c _ => uncompressed_smallPacket _,
    fun c hc _ _ => ⟨?_, fun k hk => ?_⟩, fun c hc _ _ => ⟨?_, fun k hk => ?_⟩, trivial⟩
  · obtain rfl : 0 = c := Option.some.inj hc
    rfl
  · exact absurd hk.1 (Nat.lt_irrefl 0)
  · obtain rfl : 0 = c := Option.some.inj hc
    rfl
  · cases k with
    | zero => decide +kernel
    | succ k => exact absurd hk.1 (Nat.lt_irrefl 0)

/-- A fragment that is received twice is counted twice. -/
theorem not_always_complete_duplicate : ¬ ∀ (α : Type) (_ : DecidableEq α) (cfg : Config α)
    (null : α) (es : List (Event cfg)),
    Transition.Always (step cfg) Complete es (boot null) := by
  intro h
  have hdelivered : (Transition.run (step smallConfig) [.frag1 smallPacket fun _ => 0,
      .fragN smallPacket 0 fun _ => 0, .fragN smallPacket 0 fun _ => 0] (boot 0)).map
      (·.delivered.length) = some 1 := by
    decide +kernel
  have hreceived : (Transition.run (step smallConfig) [.frag1 smallPacket fun _ => 0,
      .fragN smallPacket 0 fun _ => 0, .fragN smallPacket 0 fun _ => 0] (boot 0)).map
      (·.received) = some [(smallPacket, some 0), (smallPacket, some 0), (smallPacket, none)] := rfl
  obtain ⟨w, hw, hlength⟩ := Option.map_eq_some_iff.1 hdelivered
  have hreceived : w.received =
      [(smallPacket, some 0), (smallPacket, some 0), (smallPacket, none)] := by
    rw [hw] at hreceived
    exact Option.some.inj hreceived
  have hcomplete := Transition.always_last (h ℕ inferInstance smallConfig 0 _) hw
  obtain ⟨d, hd⟩ := List.exists_mem_of_length_pos (hlength ▸ Nat.one_pos)
  obtain ⟨p, -, -, -, hfirst, hall⟩ := hcomplete d hd
  rw [hreceived] at hfirst hall
  obtain rfl : p = smallPacket := by simpa using hfirst
  exact absurd (hall 1 (by decide)) (by simp)

/-- A UDP checksum that is elided is what was in the buffer, here zero. -/
theorem not_always_complete_elided : ¬ Transition.Always (step smallConfig) Complete
    [.frag1 elidedPacket fun _ => 0, .fragN elidedPacket 0 fun _ => 0,
      .fragN elidedPacket 1 fun _ => 0] (boot 0) := by
  intro h
  have hdelivered : (Transition.run (step smallConfig) [.frag1 elidedPacket fun _ => 0,
      .fragN elidedPacket 0 fun _ => 0, .fragN elidedPacket 1 fun _ => 0] (boot 0)).map
      (·.delivered.map fun d => d.bytes.take 48) = some [udpHead.take 46 ++ [0, 0]] := by
    decide +kernel
  have hreceived : (Transition.run (step smallConfig) [.frag1 elidedPacket fun _ => 0,
      .fragN elidedPacket 0 fun _ => 0, .fragN elidedPacket 1 fun _ => 0] (boot 0)).map
      (·.received) = some [(elidedPacket, some 1), (elidedPacket, some 0), (elidedPacket, none)] := rfl
  obtain ⟨w, hw, hbytes⟩ := Option.map_eq_some_iff.1 hdelivered
  have hreceived : w.received =
      [(elidedPacket, some 1), (elidedPacket, some 0), (elidedPacket, none)] := by
    rw [hw] at hreceived
    exact Option.some.inj hreceived
  obtain ⟨d, hd, hhead⟩ := List.mem_map.1 (hbytes ▸ List.mem_singleton_self _)
  obtain ⟨p, -, -, heq, hfirst, -⟩ := Transition.always_last h hw d hd
  rw [hreceived] at hfirst
  obtain rfl : p = elidedPacket := by simpa using hfirst
  rw [heq] at hhead
  exact absurd hhead (by decide +kernel)

end Den2ne.Sicslowpan
