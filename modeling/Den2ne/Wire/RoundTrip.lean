import Den2ne.Keyed.Update
import Den2ne.Node.Step
import Den2ne.Wire.Parse

/-!
# Packets are read as they were written

The receiver tells the kinds of message apart by their length and by whether a
SetHLMAC names it. `decodes` says that it takes every message for what it is,
whatever lies in the memory behind its two copies of the packet, and
`iotoriiOperation_payloadBytes` that the node that handles bytes is the node
that handles messages.
-/

namespace Den2ne

namespace Wire

variable {addrSize : ℕ} {self : LinkAddr addrSize} {data : List UInt8} (beyond : ℕ → UInt8)

/-- The range of the fields of a message: an `int` of four bytes, a `short` of
two, an unsigned timestamp of four, and a prefix that leaves room for an id. -/
def Payload.InRange : Payload (LinkAddr addrSize) → Prop
  | .hello => True
  | .load load => -2 ^ 31 ≤ load ∧ load < 2 ^ 31
  | .share extraLoad => -2 ^ 15 ≤ extraLoad ∧ extraLoad < 2 ^ 15
  | .sethlmac timestamp hlmacPrefix _ => timestamp < 2 ^ 32 ∧ hlmacPrefix.length ≤ 254

/-- No MAC is in two entries. -/
def Payload.DistinctMacs : Payload (LinkAddr addrSize) → Prop
  | .sethlmac _ _ assigned => (assigned.map (·.2)).Nodup
  | _ => True

/-- No entry is read from a packet that is no longer than a header. -/
theorem extractAddress_of_short (h : data.length ≤ 5) (hself : self ≠ linkaddrNull addrSize) :
    (iotoriiExtractAddress self data.length (memory data beyond)).1 = unspecifiedHlmacAddress := by
  have hstop : ∀ turns, (scanEntries self data.length (memory data beyond) turns
      (scanHeader (memory data beyond))).linkAddress = linkaddrNull addrSize := by
    intro turns
    cases turns with
    | zero => rfl
    | succ turns =>
        rw [scanEntries, if_neg fun hgo => ?_]
        · rfl
        · have hpos : 5 + (memory data beyond 4).toNat < data.length := hgo.1
          omega
  rw [iotoriiExtractAddress]
  exact if_neg fun heq => hself ((hstop _).symm.trans heq).symm

/-- What is extracted from the bytes of a SetHLMAC. -/
theorem extract_sethlmac (timestamp : ℕ) (hlmacPrefix : List UInt8)
    (assigned : List (UInt8 × LinkAddr addrSize)) (hself : self ≠ linkaddrNull addrSize)
    (hts : timestamp < 2 ^ 32) (hpre : hlmacPrefix.length ≤ 254)
    (hdata : data = payloadBytes (.sethlmac timestamp hlmacPrefix assigned)) :
    (iotoriiExtractTimestamp (memory data beyond)).1 = timestamp ∧
      (iotoriiExtractAddress self data.length (memory data beyond)).1 =
        Den2ne.iotoriiExtractAddress self (.sethlmac timestamp hlmacPrefix assigned) := by
  obtain ⟨htimestamp, hlen, htoNat, hcopy, hrest⟩ :=
    header_of_eq beyond (Bytes.length_ofNat 4 timestamp) (by omega) hdata
  have hdrop : data.drop (scanHeader (memory data beyond) : Scan addrSize).pos =
      assigned.flatMap entryBytes := by
    rw [scanHeader, htoNat]
    exact hrest
  have hreads : ∀ i ∈ (scanHeader (memory data beyond) : Scan addrSize).reads,
      i < data.length := by
    have hlength : 5 + hlmacPrefix.length ≤ data.length := by
      rw [hdata, payloadBytes, List.length_append, List.length_append, List.length_cons,
        Bytes.length_ofNat]
      omega
    intro i hi
    rcases List.mem_cons.1 hi with rfl | hi
    · omega
    · rw [htoNat, List.mem_range'_1] at hi
      omega
  constructor
  · rw [iotoriiExtractTimestamp, htimestamp]
    exact Bytes.toNat_ofNat_of_lt hts
  · rw [iotoriiExtractAddress, Den2ne.iotoriiExtractAddress]
    cases hfind : assigned.find? (·.2 = self) with
    | some e =>
        obtain ⟨haddr, hid, -⟩ := scanEntries_of_find? beyond
          (hdrop.trans (List.append_nil _).symm) hfind (Ne.symm hself)
          (Nat.le_add_left _ _) hreads
        dsimp only
        rw [if_pos haddr, hid, htoNat, hcopy, hlen]
        rfl
    | none =>
        obtain ⟨haddr, -⟩ := scanEntries_of_not_named beyond data.length hdrop hfind
          (Ne.symm hself) hreads
        exact if_neg haddr

/-- What the receive path makes of the bytes of a message. -/
def Decodes (cfg : Config (LinkAddr addrSize)) (env : Env (LinkAddr addrSize))
    (sender : LinkAddr addrSize) (beyond beyond' : ℕ → UInt8) (n : Node (LinkAddr addrSize))
    (message : Payload (LinkAddr addrSize)) : Prop :=
  let data := payloadBytes message
  let received := iotoriiOperation cfg env sender data beyond beyond' n
  match message with
  | .hello => received = some (iotoriiHandleIncomingHello sender n)
  | .load load => received = some (incomingLoad cfg sender load n)
  | .share extraLoad => received = incomingShare cfg env.junk sender extraLoad n
  | .sethlmac timestamp hlmacPrefix assigned =>
      let addr := iotoriiExtractAddress cfg.linkaddrNodeAddr data.length (memory data beyond)
      (iotoriiExtractTimestamp (memory data beyond')).1 = timestamp ∧
      (∀ id, (id, cfg.linkaddrNodeAddr) ∈ assigned →
        addr.1 = HlmacAddr.ofIds (hlmacPrefix ++ [id]) ∧
        received = incomingSethlmac cfg env sender timestamp
          (HlmacAddr.ofIds (hlmacPrefix ++ [id])) n) ∧
      ((∀ id, (id, cfg.linkaddrNodeAddr) ∉ assigned) →
        addr.1 = unspecifiedHlmacAddress ∧ received = some n)

variable {cfg : Config (LinkAddr addrSize)} {env : Env (LinkAddr addrSize)}
  {sender : LinkAddr addrSize} {beyond' : ℕ → UInt8} {n : Node (LinkAddr addrSize)}

theorem iotoriiOperation_of_unspecified (hne : data.length ≠ 0)
    (haddr : (iotoriiExtractAddress cfg.linkaddrNodeAddr data.length (memory data beyond)).1 =
      unspecifiedHlmacAddress) :
    iotoriiOperation cfg env sender data beyond beyond' n =
      if data.length = 4 then some (incomingLoad cfg sender (Bytes.toInt data) n)
      else if data.length = 2 then incomingShare cfg env.junk sender (Bytes.toInt data) n
      else some n := by
  unfold iotoriiOperation
  dsimp only
  rw [if_neg hne, haddr]
  rfl

theorem iotoriiOperation_of_specified (hne : data.length ≠ 0) {addr : HlmacAddr}
    (haddr : (iotoriiExtractAddress cfg.linkaddrNodeAddr data.length (memory data beyond)).1 = addr)
    (hspecified : hlmacIsUnspecifiedAddr addr = false) :
    iotoriiOperation cfg env sender data beyond beyond' n =
      incomingSethlmac cfg env sender (iotoriiExtractTimestamp (memory data beyond')).1 addr n := by
  unfold iotoriiOperation
  dsimp only
  rw [if_neg hne, haddr, hspecified]
  rfl

end Wire

theorem iotoriiOperation_sethlmac {α : Type*} [DecidableEq α] (cfg : Config α) (env : Env α)
    (sender : α) (timestamp : ℕ) (hlmacPrefix : List UInt8) (assigned : List (UInt8 × α))
    (n : Node α) :
    iotoriiOperation cfg env sender (.sethlmac timestamp hlmacPrefix assigned) n =
      if hlmacIsUnspecifiedAddr (iotoriiExtractAddress cfg.linkaddrNodeAddr
        (.sethlmac timestamp hlmacPrefix assigned)) then some n
      else incomingSethlmac cfg env sender timestamp (iotoriiExtractAddress
        cfg.linkaddrNodeAddr (.sethlmac timestamp hlmacPrefix assigned)) n := rfl

/-- The node that handles bytes does with the bytes of a message what the node
that handles messages does with the message. -/
theorem iotoriiOperation_payloadBytes {addrSize : ℕ} (cfg : Config (LinkAddr addrSize))
    (env : Env (LinkAddr addrSize)) (sender : LinkAddr addrSize)
    (message : Payload (LinkAddr addrSize)) (beyond beyond' : ℕ → UInt8)
    (n : Node (LinkAddr addrSize)) (hself : cfg.linkaddrNodeAddr ≠ Wire.linkaddrNull addrSize)
    (hrange : Wire.Payload.InRange message) :
    Wire.iotoriiOperation cfg env sender (Wire.payloadBytes message) beyond beyond' n =
      iotoriiOperation cfg env sender message n := by
  cases message with
  | hello => rfl
  | load load =>
      have hlength : (Wire.payloadBytes (.load load : Payload (LinkAddr addrSize))).length = 4 :=
        Bytes.length_ofInt 4 load
      have hload : Bytes.toInt (Wire.payloadBytes (.load load : Payload (LinkAddr addrSize))) = load := by
        rw [Wire.payloadBytes, Bytes.toInt_ofInt]
        exact Int.bmod_eq_of_le (by simpa using hrange.1) (by simpa using hrange.2)
      rw [Wire.iotoriiOperation_of_unspecified beyond (by omega)
        (Wire.extractAddress_of_short beyond (by omega) hself), if_pos hlength, hload]
      rfl
  | share extraLoad =>
      have hlength : (Wire.payloadBytes (.share extraLoad : Payload (LinkAddr addrSize))).length = 2 :=
        Bytes.length_ofInt 2 extraLoad
      have hshare : Bytes.toInt (Wire.payloadBytes (.share extraLoad : Payload (LinkAddr addrSize))) =
          extraLoad := by
        rw [Wire.payloadBytes, Bytes.toInt_ofInt]
        exact Int.bmod_eq_of_le (by simpa using hrange.1) (by simpa using hrange.2)
      rw [Wire.iotoriiOperation_of_unspecified beyond (by omega)
        (Wire.extractAddress_of_short beyond (by omega) hself), if_neg (by omega), if_pos hlength,
        hshare]
      rfl
  | sethlmac timestamp hlmacPrefix assigned =>
      have hlength : 5 ≤
          (Wire.payloadBytes (.sethlmac timestamp hlmacPrefix assigned)).length := by
        rw [Wire.payloadBytes, List.length_append, List.length_append, List.length_cons,
          Bytes.length_ofNat]
        omega
      obtain ⟨-, haddr⟩ := Wire.extract_sethlmac beyond timestamp hlmacPrefix assigned hself
        hrange.1 hrange.2 rfl
      obtain ⟨htimestamp, -⟩ := Wire.extract_sethlmac beyond' timestamp hlmacPrefix assigned hself
        hrange.1 hrange.2 rfl
      rw [iotoriiOperation_sethlmac]
      split
      · rename_i hunspecified
        rw [Wire.iotoriiOperation_of_unspecified beyond (by omega)
          (haddr.trans (hlmacIsUnspecifiedAddr_iff.1 hunspecified)), if_neg (by omega),
          if_neg (by omega)]
      · rename_i hspecified
        rw [Wire.iotoriiOperation_of_specified beyond (by omega) haddr
          (Bool.eq_false_iff.2 hspecified), htimestamp]

/-- Every message that a node builds is taken for what it is, with its values: a
node that a SetHLMAC names gets the timestamp and the prefix with its own id,
and one that it does not name changes no state. -/
theorem decodes {addrSize : ℕ} (cfg : Config (LinkAddr addrSize)) (env : Env (LinkAddr addrSize))
    (sender : LinkAddr addrSize) (beyond beyond' : ℕ → UInt8) (n : Node (LinkAddr addrSize))
    (message : Payload (LinkAddr addrSize))
    (hself : cfg.linkaddrNodeAddr ≠ Wire.linkaddrNull addrSize)
    (hrange : Wire.Payload.InRange message) (hnodup : Wire.Payload.DistinctMacs message) :
    Wire.Decodes cfg env sender beyond beyond' n message := by
  have hoperation := iotoriiOperation_payloadBytes cfg env sender message beyond beyond' n hself
    hrange
  cases message with
  | hello => exact hoperation
  | load load => exact hoperation
  | share extraLoad => exact hoperation
  | sethlmac timestamp hlmacPrefix assigned =>
      obtain ⟨-, haddr⟩ := Wire.extract_sethlmac beyond timestamp hlmacPrefix assigned hself
        hrange.1 hrange.2 rfl
      obtain ⟨htimestamp, -⟩ := Wire.extract_sethlmac beyond' timestamp hlmacPrefix assigned hself
        hrange.1 hrange.2 rfl
      refine ⟨htimestamp, fun id hid => ?_, fun hnone => ?_⟩
      · have hfind : assigned.find? (·.2 = cfg.linkaddrNodeAddr) =
            some (id, cfg.linkaddrNodeAddr) :=
          (Keyed.find?_eq_some_iff hnodup).2 ⟨hid, rfl⟩
        have hextract : iotoriiExtractAddress cfg.linkaddrNodeAddr
            (.sethlmac timestamp hlmacPrefix assigned) =
            HlmacAddr.ofIds (hlmacPrefix ++ [id]) := by
          rw [iotoriiExtractAddress, hfind]
          exact hlmacAddNewId_ofIds (Nat.lt_succ_of_le hrange.2) id
        refine ⟨haddr.trans hextract, hoperation.trans ?_⟩
        rw [iotoriiOperation_sethlmac, hextract, hlmacIsUnspecifiedAddr_ofIds]
        rfl
      · have hextract : iotoriiExtractAddress cfg.linkaddrNodeAddr
            (.sethlmac timestamp hlmacPrefix assigned) = unspecifiedHlmacAddress := by
          have hfind : assigned.find? (·.2 = cfg.linkaddrNodeAddr) = none := by
            refine List.find?_eq_none.2 fun e he => ?_
            rw [decide_eq_true_eq]
            exact fun hmac => hnone e.1 (hmac ▸ he)
          rw [iotoriiExtractAddress, hfind]
        refine ⟨haddr.trans hextract, hoperation.trans ?_⟩
        rw [iotoriiOperation_sethlmac, hextract]
        rfl

/-- A common node with the address `01.01`. -/
def wireConfig : Config (LinkAddr 2) where
  nodeType := .common
  hlmacCast := .broadcast
  hlmacMaxHlmac := 1
  addrSize := 2
  linkaddrNodeAddr := .replicate 2 1
  linkaddrNull := .replicate 2 0

/-- A SetHLMAC with two entries, of which the second is for the node. -/
theorem decodes_second : Wire.Decodes wireConfig ⟨21, [], 100, #v[0, 0]⟩ #v[2, 2] (fun _ => 9)
    (fun _ => 8) Node.boot (.sethlmac 3 [1, 4] [(1, #v[3, 3]), (2, #v[1, 1])]) :=
  decodes wireConfig _ _ _ _ _ _ (by decide) ⟨by decide, by decide⟩
    (show List.Nodup _ by decide)

end Den2ne
