import Den2ne.Mpl.Control

/-!
# The events of an MPL forwarder

`accept` takes a data message into the buffered message set, for `in` and `out`. `step` is
one event at a forwarder: a received data or control message, a message of its own, the
expiry of a timer, or a change of the table of multicast addresses by somebody else. The
address table of the interface, the own addresses and the memory behind the seed set come
from outside.
-/

namespace Den2ne.Mpl

/-- A data message: its addresses, the fields of the hop-by-hop option, and the payload
behind the extension headers. `seedIdBytes` is what stands behind the sequence number of the
option. -/
structure DataMessage where
  srcipaddr : Ip6Addr
  destipaddr : Ip6Addr
  proto : UInt8
  optType : UInt8
  flags : UInt8
  sent : ℕ
  seedIdBytes : ℕ → UInt8
  payload : List UInt8

namespace DataMessage

/-- The byte of the option. -/
def seq (p : DataMessage) : ℕ := p.sent % 256

/-- `HBH_GET_S`. -/
def getS (p : DataMessage) : ℕ := ((p.flags &&& 0xC0) >>> 6).toNat

/-- `HBH_GET_M`. -/
def getM (p : DataMessage) : Bool := p.flags &&& 0x20 == 0x20

/-- `HBH_GET_V`. -/
def getV (p : DataMessage) : Bool := p.flags &&& 0x10 == 0x10

/-- The seed id of the message. -/
def seedId (dst : SeedId) (p : DataMessage) : SeedId :=
  if p.getS = 0 then seedIdNetToHost dst (addrBytes p.srcipaddr) 0
  else seedIdNetToHost dst p.seedIdBytes p.getS

end DataMessage

/-- `UIP_PROTO_HBHO`. -/
def protoHbho : UInt8 := 0

/-- `HBHO_OPT_TYPE_MPL`. -/
def hbhoOptTypeMpl : UInt8 := 0x6D

/-- The checks at the start of `accept`; `fromNet` tells `MPL_DGRAM_IN` from
`MPL_DGRAM_OUT`. -/
def acceptChecks (cfg : Config) (fromNet srcIsMine : Bool) (p : DataMessage) : Bool :=
  (!cfg.ipv6Checks ||
    (!(isAddrMcast p.destipaddr && getAddressScope p.destipaddr ≤ 2) &&
      !decide (p.srcipaddr = fun _ => 0))) &&
  !(srcIsMine && fromNet) && p.proto == protoHbho && p.optType == hbhoOptTypeMpl && !p.getV

/-- The domain of a data message. -/
def acceptDomain (cfg : Config) (a : Ip6Addr) (s : State) : Option ℕ × State :=
  match domainSetLookup cfg a s with
  | some d => (some d, s)
  | none =>
      match domainSetAllocate cfg a s with
      | (none, s) => (none, s)
      | (some d, s) => if cfg.controlTimerOk then (some d, s) else (none, domainSetFree cfg d s)

/-- A message that was seen before: if it has the `M` flag and is not the last one of its
list, its timer hears an inconsistency. -/
def noteSeen (p : DataMessage) (i m : ℕ) (s : State) : State :=
  if p.getM && (s.seeds i).minSeq.getLast? ≠ some m then
    s.setMsg m { s.msgs m with tt := (s.msgs m).tt.inconsistency }
  else s

/-- A free entry of the buffered message set, or the one that is reclaimed. -/
def newBuffer (cfg : Config) (s : State) : Option ℕ × State :=
  match bufferAllocate cfg s with
  | some (m, s) => (some m, s)
  | none => bufferReclaim cfg s

/-- The loop that places a message behind the first one. -/
def insertMsg (seqOf : ℕ → ℕ) (m seq : ℕ) : List ℕ → List ℕ
  | [] => [m]
  | [a] => [a, m]
  | a :: b :: rest =>
      if SeqValIsGt seq (seqOf a) ∧ SeqValIsLt seq (seqOf b) then a :: m :: b :: rest
      else a :: insertMsg seqOf m seq (b :: rest)

/-- The seed with its new message `m`. -/
def Seed.insert (cfg : Config) (seqOf : ℕ → ℕ) (m seq : ℕ) (i : Seed) : Seed :=
  { i with
    minSeq := insertMsg seqOf m seq i.minSeq
    minSeqno := if i.minSeq.isEmpty then seq else i.minSeqno
    count := (i.count + 1) % 256
    lifetime := cfg.seedSetEntryLifetime }

/-- `accept` from the free entry `m` on: fill it in, put it in the list of its seed and start
the timers. An inconsistency would reset the count of a timer that has just started. -/
def keepMsg (cfg : Config) (d i m : ℕ) (p : DataMessage) (s : State) : State :=
  let tt := if cfg.proactiveForwarding then Trickle.start else ⟨false, 0⟩
  let s := s.setMsg m ⟨some i, tt, p.srcipaddr, p.sent, p.payload⟩
  let s := s.setSeed i ((s.seeds i).insert cfg (fun m => (s.msgs m).seq) m p.seq)
  if 0 < cfg.controlMessageTimerExpirations then
    s.setDomain d { s.domains d with tt := Trickle.start }
  else s

/-- A message that is new to its seed. -/
def acceptNew (cfg : Config) (d i : ℕ) (p : DataMessage) (s : State) : Bool × State :=
  match newBuffer cfg s with
  | (none, s) => (false, s)
  | (some m, s) =>
      if cfg.dataTimerOk then (true, keepMsg cfg d i m p s)
      else (false, bufferFree m
        (s.setMsg m ⟨some i, ⟨false, 0⟩, p.srcipaddr, p.sent, p.payload⟩))

/-- `accept` from the seed on. -/
def acceptSeed (cfg : Config) (d : ℕ) (seedId : SeedId) (p : DataMessage) (s : State) :
    Bool × State :=
  match seedSetLookup cfg seedId d s with
  | some i =>
      if SeqValIsLt p.seq (s.seeds i).minSeqno then (false, s)
      else
        match (s.seeds i).minSeq.find? fun m => (s.msgs m).seq = p.seq with
        | some m => (false, noteSeen p i m s)
        | none => acceptNew cfg d i p s
  | none =>
      match seedSetAllocate cfg seedId d s with
      | none => (false, s)
      | some (i, s) => acceptNew cfg d i p s

/-- `accept`: whether it returns `UIP_MCAST6_ACCEPT`. -/
def accept (cfg : Config) (fromNet srcIsMine : Bool) (p : DataMessage) (s : State) :
    Bool × State :=
  if acceptChecks cfg fromNet srcIsMine p then
    let seedId := p.seedId s.acceptSeedId
    match acceptDomain cfg p.destipaddr { s with acceptSeedId := seedId } with
    | (none, s) => (false, s)
    | (some d, s) => acceptSeed cfg d seedId p s
  else (false, s)

/-- `uip_is_addr_mcast_routable`: other packets do not come to the multicast engine. -/
def isAddrMcastRoutable (a : Ip6Addr) : Bool := isAddrMcast a && 2 < getAddressScope a

/-- `in`. -/
def input (cfg : Config) (srcIsMine : Bool) (p : DataMessage) (s : State) : Bool × State :=
  if (maddrLookup cfg p.destipaddr s).isSome then accept cfg true srcIsMine p s else (false, s)

/-- `update_seed_id`; `global` is the preferred global address. -/
def updateSeedId (cfg : Config) (global : Option Ip6Addr) (s : State) : State :=
  { s with localSeedId :=
      if cfg.seedIdType = 0 then
        match global with
        | some a => seedIdNetToHost s.localSeedId (addrBytes a) 0
        | none => { s.localSeedId with s := seedIdUnknown }
      else ⟨cfg.seedIdType, cfg.seedId⟩ }

/-- A datagram that an application sends. `tooLong` says that the option does not fit. -/
structure Datagram where
  srcipaddr : Ip6Addr
  destipaddr : Ip6Addr
  payload : List UInt8
  tooLong : Bool
  global : Option Ip6Addr

/-- The data message that `out` makes of a datagram. -/
def Datagram.toMessage (cfg : Config) (q : Datagram) (s : State) : DataMessage where
  srcipaddr := q.srcipaddr
  destipaddr := q.destipaddr
  proto := protoHbho
  optType := hbhoOptTypeMpl
  flags := (UInt8.ofNat cfg.seedIdType &&& 0x03) <<< 6 ||| 0x20
  sent := s.lastSent + 1
  seedIdBytes := fun k => (seedIdHostToNet s.localSeedId).getD k 0
  payload := q.payload

/-- The state in which `out` makes the message: the own seed id is looked up if it is not
known. -/
def Datagram.ready (cfg : Config) (q : Datagram) (s : State) : State :=
  if s.localSeedId.s = seedIdUnknown then updateSeedId cfg q.global s else s

/-- `out`. -/
def out (cfg : Config) (srcIsMine : Bool) (q : Datagram) (s : State) : State :=
  let s := q.ready cfg s
  if s.localSeedId.s = seedIdUnknown ∨ q.tooLong then s
  else (accept cfg false srcIsMine (q.toMessage cfg s) { s with lastSent := s.lastSent + 1 }).2

/-! ## Timers -/

/-- The expiration count of a timer after its callback; a timer that has expired often enough
is stopped. -/
def Trickle.expire (expirations : ℕ) (t : Trickle) : Trickle :=
  if expirations < t.e then t.stop else { t with e := (t.e + 1) % 256 }

/-- `data_message_expiration`. -/
def dataMessageExpiration (cfg : Config) (m : ℕ) (s : State) : State :=
  s.setMsg m { s.msgs m with tt := (s.msgs m).tt.expire cfg.dataMessageTimerExpirations }

/-- `control_message_expiration`. -/
def controlMessageExpiration (cfg : Config) (d : ℕ) (s : State) : State :=
  s.setDomain d { s.domains d with
    tt := (s.domains d).tt.expire cfg.controlMessageTimerExpirations }

/-- The first loop of `mpl_maddr_check`: subscribed addresses get a domain. -/
def allocateDomains (cfg : Config) : List ℕ → State → State
  | [], s => s
  | k :: ks, s =>
      allocateDomains cfg ks
        (match s.maddrs k with
        | none => s
        | some a =>
            if scopeLinkLocal < getAddressScope a ∧ domainSetLookup cfg a s = none then
              (domainSetAllocate cfg a s).2
            else s)

/-- The second loop of `mpl_maddr_check`: domains whose data address is not subscribed any
more are freed. -/
def freeDomains (cfg : Config) : List ℕ → State → State
  | [], s => s
  | d :: ds, s =>
      freeDomains cfg ds
        (if (s.domains d).isUsed ∧ maddrLookup cfg (s.domains d).dataAddr s = none then
          domainSetFree cfg d s
        else s)

/-- `mpl_maddr_check`. -/
def maddrCheck (cfg : Config) (s : State) : State :=
  freeDomains cfg (List.range cfg.domainSetSize).reverse
    (allocateDomains cfg (List.range cfg.maddrNb).reverse s)

/-- One turn of the loop of `lifetime_timer_expiration`. -/
def decrementLifetime (i : ℕ) (s : State) : State :=
  let s :=
    if (s.seeds i).isUsed ∧ (s.seeds i).lifetime = 0 ∧
        ∀ m ∈ (s.seeds i).minSeq, (s.msgs m).tt.running = false then seedSetFree i s
    else s
  s.setSeed i { s.seeds i with lifetime := (s.seeds i).lifetime - 1 }

def decrementLifetimes : List ℕ → State → State
  | [], s => s
  | i :: is, s => decrementLifetimes is (decrementLifetime i s)

/-- `lifetime_timer_expiration`. -/
def lifetimeTimerExpiration (cfg : Config) (s : State) : State :=
  maddrCheck cfg (decrementLifetimes (List.range cfg.seedSetSize).reverse s)

/-! ## Events -/

/-- What can happen at a forwarder. `behind` and `address` are changes by other code: of the
memory behind the seed set, and of a slot of the address table. -/
inductive Event
  | data (p : DataMessage) (srcIsMine : Bool)
  | control (p : Icmp) (fuel : ℕ)
  | send (q : Datagram) (srcIsMine : Bool)
  | dataTimer (m : ℕ)
  | controlTimer (d : ℕ)
  | lifetimeTimer
  | address (k : ℕ) (a : Option Ip6Addr)
  | behind (x : Seed)

/-- One event. A message that does not go to a routable multicast address does not come to
the engine, and a timer expires only while it is running. -/
def step (cfg : Config) (e : Event) (s : State) : Option State :=
  match e with
  | .data p srcIsMine =>
      some (if isAddrMcastRoutable p.destipaddr then (input cfg srcIsMine p s).2 else s)
  | .control p fuel => (icmpIn cfg fuel p s).map (·.state)
  | .send q srcIsMine =>
      some (if isAddrMcastRoutable q.destipaddr then out cfg srcIsMine q s else s)
  | .dataTimer m =>
      if m < cfg.bufferedMessageSetSize ∧ (s.msgs m).tt.running then
        some (dataMessageExpiration cfg m s)
      else none
  | .controlTimer d =>
      if d < cfg.domainSetSize ∧ (s.domains d).tt.running then
        some (controlMessageExpiration cfg d s)
      else none
  | .lifetimeTimer => some (lifetimeTimerExpiration cfg s)
  | .address k a => some { s with maddrs := Function.update s.maddrs k a }
  | .behind x => some (s.setSeed cfg.seedSetSize x)

/-- `ALL_MPL_FORWARDERS` of realm-local scope. -/
def allForwarders : Ip6Addr := fun i =>
  if i.val = 0 then 0xFF else if i.val = 1 then 0x03 else if i.val = 15 then 0xFC else 0

/-- `init`, from a table of multicast addresses, the memory behind the seed set and the
preferred global address. -/
def boot (cfg : Config) (maddrs : ℕ → Option Ip6Addr) (behind : Seed)
    (global : Option Ip6Addr) : State :=
  let s := updateSeedId cfg global {
    msgs := fun _ => Msg.zero
    seeds := fun i => if i = cfg.seedSetSize then behind else Seed.zero
    domains := fun _ => Domain.zero
    maddrs := maddrs
    lastSent := 0
    localSeedId := ⟨0, fun _ => 0⟩
    acceptSeedId := ⟨0, fun _ => 0⟩
    icmpSeedId := ⟨0, fun _ => 0⟩
    history := ⟨[], false⟩ }
  let s := if cfg.subToAllForwarders then (maddrAdd cfg allForwarders s).getD s else s
  maddrCheck cfg s

end Den2ne.Mpl
