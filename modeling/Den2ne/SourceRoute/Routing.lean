import Den2ne.SourceRoute.Insert

/-!
# Source routing

A packet that the root sends to a reachable destination visits the nodes of the path, exactly if
the root refuses it for its length or its header fits a byte and the buffer.
-/

namespace Den2ne.SourceRoute

open Memory State

variable {stack : Stack} {s : State} {p : Packet} {c l root graph destNode : ℕ} {up : List ℕ}

/-- If the root takes the packet, it visits the nodes of the path, given from the destination
upwards. -/
def Delivers (stack : Stack) (graph : ℕ) (s : State) (p : Packet) (path : List ℕ) : Prop :=
  match insertSrhHeader stack graph s p with
  | none => False
  | some (false, _) => True
  | some (true, q) => ∃ h, Visits stack p h (pathAddrs stack.sr s path) q

/-- The source routing header for the nodes `up` between the root and the destination. -/
def srhLen (stack : Stack) (s : State) (p : Packet) (up : List ℕ) : ℕ :=
  let fields := headerLen up.length (sharedBytes stack.sr s p.destipaddr 15 up)
  fields + padding fields

/-- The root refuses the packet, or the header fits a byte and the packet with it the buffer. -/
def FitsBuffer (stack : Stack) (s : State) (p : Packet) (up : List ℕ) : Prop :=
  linkMtu < p.len + srhLen stack s p up % 256 ∨
    srhLen stack s p up < 256 ∧ p.len + srhLen stack s p up ≤ stack.bufSize

instance (stack : Stack) (s : State) (p : Packet) (up : List ℕ) :
    Decidable (FitsBuffer stack s p up) :=
  inferInstanceAs (Decidable (_ ∨ _))

/-- A header that is too long for a byte is written from a place that is too low. -/
theorem writeSrh_eq_none_of_long (stack : Stack) (p : Packet) (hc : c ≤ 15)
    (hup : Ascent s root (destNode :: up))
    (hlong : 256 ≤ headerLen up.length c + padding (headerLen up.length c)) (pathLen : ℕ) :
    writeSrh stack s destNode root pathLen c
      ((headerLen up.length c + padding (headerLen up.length c)) % 256)
      (padding (headerLen up.length c)) p = none := by
  have hpad := padding_lt (headerLen up.length c)
  generalize padding (headerLen up.length c) = pad at *
  have hiph : iphLen = 40 := rfl
  have hfields : headerLen up.length c = 8 + up.length * (16 - c) := rfl
  have hne : up ≠ [] := by
    rintro rfl
    have hzero : headerLen ([] : List ℕ).length c = 8 := by simp [headerLen]
    omega
  have hcast : ((up.length : ℕ) : ℤ) * (16 - c) = ((up.length * (16 - c) : ℕ) : ℤ) := by
    push_cast [Nat.cast_sub (show c ≤ 16 by omega)]
    rfl
  have hlow : ((iphLen : ℕ) : ℤ) + (((headerLen up.length c + pad) % 256 : ℕ) : ℤ) - pad <
      up.length * (16 - c) := by
    rw [hcast]
    omega
  have hhops : ∀ buf, putHops stack s root c (stack.sr.linkNum + 1) (some destNode)
      (iphLen + ((headerLen up.length c + pad) % 256 : ℕ) - pad) p.destipaddr buf = none :=
    fun buf => putHops_eq_none hup hlow hne
  simp only [writeSrh, Option.bind_eq_bind, hhops, Option.bind_none, Option.bind_fun_none]

/-- A packet that does not fit the buffer with its header is moved out of it. -/
theorem writeSrh_eq_none_of_large {pathLen r pad : ℕ} (hlen : iphLen ≤ p.len)
    (hext : p.extLen = 0) (hlarge : stack.bufSize < p.len + r) :
    writeSrh stack s destNode root pathLen c r pad p = none := by
  have hmove : ((iphLen : ℕ) : ℤ) + ((0 : ℕ) : ℤ) + ((r : ℕ) : ℤ) = ((iphLen + r : ℕ) : ℤ) := by
    omega
  have hput : put stack.bufSize ((iphLen : ℕ) + (0 : ℕ) + (r : ℕ))
      (load p.buf (iphLen + 0) (p.len - iphLen)) p.buf = none := by
    rw [hmove, put_natCast, if_neg]
    rw [length_load]
    omega
  rw [writeSrh, hext, hput]
  rfl

/-- The address of a node is in the network of the DODAG. -/
theorem isAddrInOurDag_of_getNode
    (hdest : s.getNode stack.sr graph (some p.destipaddr) = some destNode) :
    stack.isAddrInOurDag p.destipaddr = true := by
  have hnet : stack.sr.dagId.SameNetwork p.destipaddr := by
    rw [← nodeIpaddr_of_getNode hdest]
    exact Ipaddr.sameNetwork_withLinkId
  exact decide_eq_true hnet

/-- What `insert_srh_header` does for a destination with a path. -/
theorem insertSrhHeader_eq (hdest : s.getNode stack.sr graph (some p.destipaddr) = some destNode)
    (hroot : s.getNode stack.sr graph (some stack.sr.dagId) = some root)
    (hreach : s.isAddrReachable stack.sr graph p.destipaddr = true)
    (hup : Ascent s root (destNode :: up)) (hlength : up.length < stack.sr.linkNum) :
    insertSrhHeader stack graph s p =
      if linkMtu < p.len + srhLen stack s p up % 256 then some (false, p)
      else
        (writeSrh stack s destNode root (up.length % 256)
          (sharedBytes stack.sr s p.destipaddr 15 up) (srhLen stack s p up % 256)
          (padding (headerLen up.length (sharedBytes stack.sr s p.destipaddr 15 up))) p).map
            fun p => (true, p) := by
  have hc := (sharedBytes_le stack.sr s p.destipaddr 15 up).1
  have hmeasure := measurePath_eq stack.sr p.destipaddr 15 hup
    (Nat.lt_succ_of_lt hlength) (show 0 < 256 by decide)
  rw [Nat.zero_add] at hmeasure
  simp only [insertSrhHeader, isAddrInOurDag_of_getNode hdest, hdest, hroot, hreach, Bool.not_true,
    Bool.false_eq_true, if_false, hmeasure, fieldsLen_eq hc, padding_mod, Nat.mod_add_mod]
  rfl

/-- The root sends the packet through the nodes of the path, or refuses it, exactly if the packet
fits. -/
theorem delivers_iff_of_ascent (hlen : iphLen ≤ p.len) (hext : p.extLen = 0)
    (hdest : s.getNode stack.sr graph (some p.destipaddr) = some destNode)
    (hroot : s.getNode stack.sr graph (some stack.sr.dagId) = some root)
    (hreach : s.isAddrReachable stack.sr graph p.destipaddr = true)
    (hup : Ascent s root (destNode :: up)) (hlength : up.length < stack.sr.linkNum) :
    Delivers stack graph s p (destNode :: up) ↔ FitsBuffer stack s p up := by
  have hinsert := insertSrhHeader_eq hdest hroot hreach hup hlength
  obtain ⟨hc, hshared⟩ := sharedBytes_le stack.sr s p.destipaddr 15 up
  have hsrh : srhLen stack s p up =
      headerLen up.length (sharedBytes stack.sr s p.destipaddr 15 up) +
        padding (headerLen up.length (sharedBytes stack.sr s p.destipaddr 15 up)) := rfl
  by_cases hmtu : linkMtu < p.len + srhLen stack s p up % 256
  · rw [if_pos hmtu] at hinsert
    rw [Delivers, hinsert]
    exact iff_of_true trivial (Or.inl hmtu)
  rw [if_neg hmtu] at hinsert
  by_cases hbyte : srhLen stack s p up < 256
  swap
  · have hnone := writeSrh_eq_none_of_long stack p hc hup
      (Nat.le_of_not_lt hbyte) (up.length % 256)
    rw [hsrh, hnone] at hinsert
    rw [Delivers, hinsert]
    exact iff_of_false id fun h => h.elim hmtu fun h => hbyte h.1
  by_cases hsize : p.len + srhLen stack s p up ≤ stack.bufSize
  swap
  · rw [Nat.mod_eq_of_lt hbyte, writeSrh_eq_none_of_large hlen hext (Nat.lt_of_not_le hsize)]
      at hinsert
    rw [Delivers, hinsert]
    exact iff_of_false id fun h => h.elim hmtu fun h => hsize h.2
  rw [Nat.mod_eq_of_lt hbyte] at hmtu hinsert
  have hpaths := length_pathAddrs stack.sr s (destNode :: up)
  rw [List.length_cons] at hpaths
  obtain ⟨a, as, hpath⟩ := List.exists_cons_of_length_eq_add_one hpaths
  have has : as.length = up.length := by
    rw [hpath, List.length_cons] at hpaths
    exact Nat.succ.inj hpaths
  have hup256 : up.length % 256 = up.length := by
    have hmul := Nat.le_mul_of_pos_right up.length
      (show 0 < 16 - sharedBytes stack.sr s p.destipaddr 15 up by omega)
    rw [hsrh, headerLen] at hbyte
    omega
  rw [hup256, writeSrh_eq_some hc hup hlength.le hpath hlen hext hsrh hsize
    (Nat.le_of_not_lt hmtu)] at hinsert
  obtain ⟨hcarries, hto⟩ := carries_sentPacket stack p a hc has
    (padding_lt _) hsrh (hsrh ▸ eight_dvd_add_padding _) hbyte hlen hsize (Nat.le_of_not_lt hmtu)
  -- all addresses of the path agree with the destination in the bytes that are left out
  have hagree : ∀ b ∈ pathAddrs stack.sr s (destNode :: up),
      b.u8.take (sharedBytes stack.sr s p.destipaddr 15 up) =
        p.destipaddr.u8.take (sharedBytes stack.sr s p.destipaddr 15 up) := by
    intro b hb
    rw [pathAddrs, List.mem_reverse] at hb
    obtain ⟨l, hl, rfl⟩ := List.mem_map.1 hb
    rcases List.mem_cons.1 hl with rfl | hl
    · rw [nodeIpaddr_of_getNode hdest]
    · exact take_eq_of_le_countMatchingBytes (hshared l hl)
  rw [hpath] at hagree
  have hvisits := hcarries.visits fun b hb => by
    rw [hto, hagree b (List.mem_cons_of_mem _ hb), hagree a List.mem_cons_self]
  rw [Delivers, hinsert, hpath]
  rw [hto] at hvisits
  exact iff_of_true ⟨_, hvisits⟩ (Or.inr ⟨hbyte, hsize⟩)

/-- Source routing visits exactly the nodes of the stored path, at any depth, exactly if the
packet fits. -/
theorem delivers_iff (stack : Stack) (graph : ℕ) (s : State) (p : Packet) (destNode root : ℕ)
    (hlen : iphLen ≤ p.len) (hext : p.extLen = 0)
    (hdest : s.getNode stack.sr graph (some p.destipaddr) = some destNode)
    (hroot : s.getNode stack.sr graph (some stack.sr.dagId) = some root) (hne : destNode ≠ root)
    (hreach : s.isAddrReachable stack.sr graph p.destipaddr = true) :
    ∃ up, Ascent s root (destNode :: up) ∧
      (Delivers stack graph s p (destNode :: up) ↔ FitsBuffer stack s p up) := by
  have hclimb := hreach
  rw [isAddrReachable, hroot, hdest] at hclimb
  obtain ⟨up, hup, hlength⟩ := exists_ascent (decide_eq_true_iff.1 hclimb).2 hne
  exact ⟨up, hup, delivers_iff_of_ascent hlen hext hdest hroot hreach hup hlength⟩

/-! ## Long paths -/

/-- The address of the node `i` of a chain. -/
def chainAddr (i : ℕ) : Ipaddr where
  u8 := [0xfd, 0, 0, 0, 0, 0, 0, 0, .ofNat i, 0, 0, 0, 0, 0, 0, 1]
  length_u8 := rfl

/-- A chain of `n` nodes below the root. -/
def chain (n : ℕ) : State where
  numNodes := n + 1
  nodelist := List.range (n + 1)
  nodememb := List.replicate (n + 1) true
  mem l :=
    { lifetime := infiniteLifetime
      graph := 0
      linkIdentifier := (chainAddr l).linkId
      parent := if l = 0 then none else some (l - 1) }

def chainStack (n bufSize : ℕ) : Stack where
  sr :=
    { linkNum := n + 1
      removalDelay := 60
      dagId := chainAddr 0 }
  bufSize := bufSize

/-- An UDP packet with eight bytes of payload to the node `n`. -/
def chainPacket (n : ℕ) : Packet where
  buf := store (fun i => if i = 6 then 17 else 0) 24 (chainAddr n).u8
  len := 56
  extLen := 0

/-- The third node of a chain. -/
theorem delivers_iff_third :
    ∃ up, Ascent (chain 3) 0 (3 :: up) ∧
      (Delivers (chainStack 3 1280) 0 (chain 3) (chainPacket 3) (3 :: up) ↔
        FitsBuffer (chainStack 3 1280) (chain 3) (chainPacket 3) up) :=
  delivers_iff (chainStack 3 1280) 0 (chain 3) (chainPacket 3) 3 0 (by decide) rfl
    (by decide +kernel) (by decide +kernel) (by decide) (by decide +kernel)

/-- Below 31 nodes the header takes 256 bytes, and the root writes before `uip_buf`. -/
theorem not_delivers :
    ¬ ∃ up, Ascent (chain 32) 0 (32 :: up) ∧
      Delivers (chainStack 32 1280) 0 (chain 32) (chainPacket 32) (32 :: up) := by
  have hnone : (insertSrhHeader (chainStack 32 1280) 0 (chain 32) (chainPacket 32)).isNone := by
    decide +kernel
  rintro ⟨up, -, hdelivers⟩
  rw [Delivers, Option.isNone_iff_eq_none.1 hnone] at hdelivers
  exact hdelivers

end Den2ne.SourceRoute
