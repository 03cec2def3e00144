import Den2ne.Node.Advertise

/-!
# Handling received packets

`iotorii_handle_incoming_hello`, `iotorii_extract_address` and the three
branches of `iotorii_handle_incoming_sethlmac_or_load`: LOAD, SHARE and
SetHLMAC. A loop of the source over the table that acts on the entry of the
sender acts at most once here, since no address is in the table twice.
-/

namespace Den2ne

variable {α : Type*} [DecidableEq α]

/-- `iotorii_handle_incoming_hello`. -/
def iotoriiHandleIncomingHello (sender : α) (n : Node α) : Node α :=
  if n.neighbourTable.numberOfNeighbours < 256 then
    if h : sender ∈ n.neighbourTable.addrs then
      { n with neighbourTable := n.neighbourTable.setLastHello sender n.numberOfHelloMessages }
    else
      let newNb : NeighbourTableEntry α :=
        { addr := sender
          lastHello := n.numberOfHelloMessages
          numberId := UInt8.ofNat (n.neighbourTable.numberOfNeighbours + 1)
          flag := 0
          load := 0
          inOut := 0 }
      { n with neighbourTable := n.neighbourTable.add newNb h }
  else n

/-- `iotorii_extract_address`: the prefix and the id of the first entry with
the node's own MAC; the unspecified address if there is none, as for every
message that is not a SetHLMAC. -/
def iotoriiExtractAddress (self : α) : Payload α → HlmacAddr
  | .sethlmac _ hlmacPrefix assigned =>
      match assigned.find? (·.2 = self) with
      | some (id, _) => hlmacAddNewId (HlmacAddr.ofIds hlmacPrefix) id
      | none => unspecifiedHlmacAddress
  | _ => unspecifiedHlmacAddress

/-- The convergence test of the root. -/
def convergenceTest (n : Node α) : Node α :=
  { n with hasConverged := n.hasConverged || (n.nHijosLoad == 0 && n.nHijosShare == 0) }

/-- The LOAD branch. -/
def incomingLoad (cfg : Config α) (sender : α) (load : ℤ) (n : Node α) : Node α :=
  match n.neighbourTable.find sender with
  | none => n
  | some nb =>
      let n := { n with neighbourTable := n.neighbourTable.setLoad sender load }
      let n :=
        if nb.flag = 0 ∧ n.edge = false ∧ n.nHijosLoad ≠ 0 then
          { n with nHijosLoad := n.nHijosLoad - 1 }
        else n
      match cfg.nodeType with
      | .root => convergenceTest n
      | .common => sendLoadWhenDone cfg n

/-- What the SHARE branch does with the share of a child. -/
def takeShare (cfg : Config α) (junk : α) (extra : ℤ) (n : Node α) : Option (Node α) :=
  match n.nodeList with
  | [] => none
  | node :: rest =>
      let n := { n with
        nodeList := { node with load := node.load + extra } :: rest
        nHijosShare := n.nHijosShare - 1 }
      match cfg.nodeType with
      | .root => some (convergenceTest n)
      | .common =>
          if n.nHijosShare = 0 ∧ n.sentShare = false then
            (iotoriiHandleShareUpstreamTimer cfg junk n).map fun n =>
              { n with sentShare := true }
          else some n

/-- The SHARE branch. -/
def incomingShare (cfg : Config α) (junk : α) (sender : α) (extra : ℤ) (n : Node α) :
    Option (Node α) :=
  match n.neighbourTable.find sender with
  | none => some n
  | some nb =>
      let taken :=
        if nb.flag = 0 ∧ n.edge = false ∧ n.nHijosShare ≠ 0 then takeShare cfg junk extra n
        else some n
      taken.map fun n => { n with neighbourTable := n.neighbourTable.setInOut sender extra }

/-- The guard of the SetHLMAC branch: the message is newer than the node's
round, or of that round and without a loop. -/
def acceptsSethlmac (n : Node α) (timestamp : ℕ) (addr : HlmacAddr) : Bool :=
  n.lastTimestamp < timestamp ||
    (!hlmactableHasLoop n.hlmacTable addr && timestamp == n.lastTimestamp)

/-- Whether an address that was stored makes the node start over. -/
def entersRound (n : Node α) (timestamp : ℕ) : Bool :=
  n.lastTimestamp < timestamp || n.lastTimestamp == 0

/-- What the node resets when it enters a round. -/
def enterRound (cfg : Config α) (timestamp : ℕ) (n : Node α) : Node α :=
  let n := { n with
    lastTimestamp := timestamp
    neighbourTable := n.neighbourTable.iotoriiNeighboursFlag
    numberOfNeighboursFlag := n.neighbourTable.numberOfNeighbours
    nodeList := []
    sentLoad := false
    sentShare := false
    history := { n.history with
      heard := []
      parent := none
      awaited := []
      -- the message that took the node there
      received := n.history.received.take 1 } }
  match cfg.hlmacCast with
  | .broadcast => n
  | .unicast => { n with
      nHijosLoad := n.neighbourTable.numberOfNeighbours % 256
      nHijosShare := n.neighbourTable.numberOfNeighbours % 256
      edge := false
      history := { n.history with awaited := n.neighbourTable.addrs } }

/-- Mark the sender of a SetHLMAC that was not a loop: `1` makes it a parent. -/
def markSender (sender : α) (isAdded : Bool) (n : Node α) : Node α :=
  { n with
    neighbourTable := n.neighbourTable.setFlag sender (if isAdded then 1 else -1)
    numberOfNeighboursFlag := n.numberOfNeighboursFlag - 1
    history := { n.history with
      heard := sender :: n.history.heard
      parent := if isAdded ∧ sender ∈ n.neighbourTable.addrs then some sender
        else n.history.parent } }

/-- The unicast build takes a SetHLMAC as the answer of one neighbour. -/
def countDown (n : Node α) : Node α :=
  { n with nHijosLoad := n.nHijosLoad - 1, nHijosShare := n.nHijosShare - 1 }

/-- The unicast build makes a node whose neighbours have all sent a
non-looping SetHLMAC an edge. -/
def becomeEdge (cfg : Config α) (junk : α) (n : Node α) : Option (Node α) :=
  if n.numberOfNeighboursFlag = 0 then sendLoadAndShare cfg junk { n with edge := true }
  else some n

/-- The unicast build sends what no child holds back any more. -/
def sendWhenDone (cfg : Config α) (junk : α) (n : Node α) : Option (Node α) :=
  sendShareWhenDone cfg junk (sendLoadWhenDone cfg n)

/-- A node that stored an address enters its round if that is a new one. -/
def adoptAddress (cfg : Config α) (sender : α) (timestamp : ℕ) (addr : HlmacAddr)
    (n : Node α) : Node α :=
  let n := if entersRound n timestamp then enterRound cfg timestamp n else n
  { n with history := { n.history with
    accepted := ⟨sender, timestamp, addr⟩ :: n.history.accepted } }

/-- Store the address of a SetHLMAC if there is room for it. -/
def storeAddress (cfg : Config α) (sender : α) (timestamp : ℕ) (addr : HlmacAddr)
    (n : Node α) : Bool × Node α :=
  let (isAdded, table) := hlmactableAdd cfg.hlmacMaxHlmac n.hlmacTable addr timestamp
  let n := { n with hlmacTable := table }
  (isAdded, if isAdded then adoptAddress cfg sender timestamp addr n else n)

/-- A SetHLMAC that is not a loop: store the address, pass it on, and mark the
sender; in the unicast build also count the sender's answer. -/
def takeSethlmac (cfg : Config α) (env : Env α) (sender : α) (timestamp : ℕ)
    (addr : HlmacAddr) (n : Node α) : Option (Node α) :=
  let (isAdded, n) := storeAddress cfg sender timestamp addr n
  let passedOn := if isAdded then iotoriiSendSethlmac cfg env addr sender timestamp n else some n
  match cfg.hlmacCast with
  | .broadcast => passedOn.map (markSender sender isAdded)
  | .unicast => passedOn.bind fun n =>
      (becomeEdge cfg env.junk (countDown (markSender sender isAdded n))).bind
        (sendWhenDone cfg env.junk)

/-- A SetHLMAC that is a loop or older than the node's round. -/
def leaveSethlmac (cfg : Config α) (env : Env α) (n : Node α) : Option (Node α) :=
  match cfg.hlmacCast with
  | .broadcast => some n
  | .unicast => sendWhenDone cfg env.junk (countDown n)

/-- The SetHLMAC branch behind its guard. -/
def settleSethlmac (cfg : Config α) (env : Env α) (sender : α) (timestamp : ℕ)
    (addr : HlmacAddr) (accepted : Bool) (n : Node α) : Option (Node α) :=
  let handled :=
    if accepted then takeSethlmac cfg env sender timestamp addr n else leaveSethlmac cfg env n
  match cfg.nodeType with
  | .root => handled.map convergenceTest
  | .common => handled

/-- The SetHLMAC branch, for a node that the message names. -/
def incomingSethlmac (cfg : Config α) (env : Env α) (sender : α) (timestamp : ℕ)
    (addr : HlmacAddr) (n : Node α) : Option (Node α) :=
  settleSethlmac cfg env sender timestamp addr (acceptsSethlmac n timestamp addr) n

/-- `iotorii_operation` with `iotorii_handle_incoming_sethlmac_or_load`. -/
def iotoriiOperation (cfg : Config α) (env : Env α) (sender : α) (message : Payload α)
    (n : Node α) : Option (Node α) :=
  match message with
  | .hello => some (iotoriiHandleIncomingHello sender n)
  | .load load => some (incomingLoad cfg sender load n)
  | .share extra => incomingShare cfg env.junk sender extra n
  | .sethlmac timestamp _ _ =>
      let addr := iotoriiExtractAddress cfg.linkaddrNodeAddr message
      if hlmacIsUnspecifiedAddr addr then some n
      else incomingSethlmac cfg env sender timestamp addr n

end Den2ne
