import Den2ne.Node.Receive

/-!
# The events of a node

A node reacts to its four timers and to received packets. `Node.step` is one
such event: a timer can expire only while it is armed, and is not armed when
its handler starts.
-/

namespace Den2ne

variable {α : Type*} [DecidableEq α]

/-- `IOTORII_MAX_HELLO_DIFF`. -/
def iotoriiMaxHelloDiff : ℤ := 2

/-- Whether an entry has not been heard for too many Hellos. -/
def helloExpired (numberOfHelloMessages : ℕ) (nb : NeighbourTableEntry α) : Bool :=
  iotoriiMaxHelloDiff < (numberOfHelloMessages : ℤ) - nb.lastHello

/-- The parent that the history names, once the entry of `removed` is gone. -/
def dropParent (parent removed : Option α) : Option α :=
  match removed with
  | none => parent
  | some a => if parent = some a then none else parent

/-- `iotorii_check_neighbours_hello`. `list_remove` clears the `next` pointer
that the loop goes on with, so the first expired entry is the only one that is
removed. -/
def iotoriiCheckNeighboursHello (n : Node α) : Node α :=
  { n with
    neighbourTable := n.neighbourTable.removeFirst (helloExpired n.numberOfHelloMessages)
    history := { n.history with
      parent := dropParent n.history.parent
        ((n.neighbourTable.entries.find? (helloExpired n.numberOfHelloMessages)).map (·.addr)) } }

/-- The root arms its round timer with every Hello; a common node has none. -/
def armSethlmac (cfg : Config α) (sethlmacTimer : Bool) : Bool :=
  match cfg.nodeType with
  | .root => true
  | .common => sethlmacTimer

/-- `iotorii_handle_hello_timer`. -/
def iotoriiHandleHelloTimer (cfg : Config α) (env : Env α) (n : Node α) : Node α :=
  let n :=
    if maxPayload env.framerHdrlen ≤ 0 then n
    else n.preparePackets [⟨.hello, cfg.linkaddrNull, n.round cfg⟩]
  let n := { n with numberOfHelloMessages := (n.numberOfHelloMessages + 1) % 65536 }
  let n :=
    if n.numberOfHelloMessages ≤ 500 then
      { n with
        sethlmacTimer := armSethlmac cfg n.sethlmacTimer
        helloTimer := true }
    else n
  iotoriiCheckNeighboursHello n

/-- The timestamp of the next round of the root, a 32-bit counter. -/
def nextTimestamp (timestamp : ℕ) : ℕ := (timestamp + 1) % 4294967296

/-- The root starts a round and stores its own address. -/
def storeRootAddress (cfg : Config α) (n : Node α) : Node α :=
  let timestamp := nextTimestamp n.timestamp
  let rootAddr := hlmacCreateRootAddr 1
  let (isAdded, table) := hlmactableAdd cfg.hlmacMaxHlmac n.hlmacTable rootAddr timestamp
  { n with
    timestamp := timestamp
    hasConverged := false
    hlmacTable := table
    history := { n.history with
      accepted := if isAdded then
        ⟨cfg.linkaddrNodeAddr, timestamp, rootAddr⟩ :: n.history.accepted
        else n.history.accepted } }

/-- What the root resets once it has advertised its address: in the broadcast
build the statistic timer will count the children, in the unicast build every
neighbour owes an answer. -/
def resetRoot (cfg : Config α) (n : Node α) : Node α :=
  let n :=
    match cfg.hlmacCast with
    | .broadcast => { n with
        statisticTimer := true
        history := { n.history with awaited := [] } }
    | .unicast => { n with
        nHijosShare := n.neighbourTable.numberOfNeighbours % 256
        nHijosLoad := n.neighbourTable.numberOfNeighbours % 256
        history := { n.history with awaited := n.neighbourTable.addrs } }
  { n with
    neighbourTable := n.neighbourTable.iotoriiNeighboursFlag
    numberOfNeighboursFlag := n.neighbourTable.numberOfNeighbours
    history := { n.history with heard := [], received := [] } }

/-- `iotorii_handle_sethlmac_timer`: the root starts a new round. -/
def iotoriiHandleSethlmacTimer (cfg : Config α) (env : Env α) (n : Node α) :
    Option (Node α) :=
  let n := storeRootAddress cfg n
  (iotoriiSendSethlmac cfg env (hlmacCreateRootAddr 1) cfg.linkaddrNodeAddr n.timestamp n).map
    (resetRoot cfg)

/-- The timers of a node. -/
inductive Timer
  | hello
  | sethlmac
  | sendMessage (csma : CsmaOutcome)
  | statistic
deriving DecidableEq, Repr

/-- What can happen at a node. `round` is history: the round in which the
sender made the message. -/
inductive Event (α : Type*)
  | timer (t : Timer)
  | receive (sender : α) (message : Payload α) (round : ℕ)
deriving DecidableEq, Repr

/-- `init`: what a node starts with. -/
def Node.boot : Node α where
  hlmacTable := HlmacTable.empty
  neighbourTable := NeighbourTable.empty
  numberOfNeighboursFlag := 0
  payloadEntryList := []
  nodeList := []
  nHijosLoad := 0
  nHijosShare := 0
  edge := false
  sentLoad := false
  sentShare := false
  hasConverged := false
  lastTimestamp := 0
  timestamp := 4294967295
  numberOfHelloMessages := 0
  helloTimer := true
  sethlmacTimer := false
  sendSethlmacTimer := false
  statisticTimer := false
  macOut := []
  history := ⟨[], [], none, [], 0, [], []⟩

/-- The expiry of a timer. -/
def Node.expire (cfg : Config α) (env : Env α) (t : Timer) (n : Node α) : Option (Node α) :=
  match t with
  | .hello =>
      if n.helloTimer then some (iotoriiHandleHelloTimer cfg env { n with helloTimer := false })
      else none
  | .sethlmac =>
      if n.sethlmacTimer then iotoriiHandleSethlmacTimer cfg env { n with sethlmacTimer := false }
      else none
  | .sendMessage csma =>
      if n.sendSethlmacTimer then
        iotoriiHandleSendMessageTimer cfg csma { n with sendSethlmacTimer := false }
      else none
  | .statistic =>
      if n.statisticTimer then
        iotoriiHandleStatisticTimer cfg env.junk { n with statisticTimer := false }
      else none

/-- One event at a node. A frame from the node itself is dropped by
`input_packet`. -/
def Node.step (cfg : Config α) (env : Env α) (e : Event α) (n : Node α) : Option (Node α) :=
  match e with
  | .timer t => n.expire cfg env t
  | .receive sender message round =>
      if sender = cfg.linkaddrNodeAddr then some n
      else iotoriiOperation cfg env sender message { n with history := { n.history with
        received := (sender, message, round) :: n.history.received } }

/-- A common node with the address `self`, in the default build: broadcast and
one HLMAC address. -/
def defaultConfig (self : ℕ) : Config ℕ where
  nodeType := .common
  hlmacCast := .broadcast
  hlmacMaxHlmac := 1
  addrSize := 2
  linkaddrNodeAddr := self
  linkaddrNull := 0

/-- The node by itself, under any environment: an event comes with the values
that the environment supplies to it. -/
def Node.react (cfg : Config α) (e : Env α × Event α) (n : Node α) : Option (Node α) :=
  Node.step cfg e.1 e.2 n

end Den2ne
