import Den2ne.Ipv6.Address
import Den2ne.Reads.Items

/-!
# RPL control messages

`dio_input`, `dao_input` and `dao_ack_input` of `rpl-icmp6.c`. A function reads the ICMPv6
payload, whose length `n` is kept in a byte, and fails where the code goes to `discard`; what it
returns is what it hands over to `rpl_process_dio`, `rpl_process_dao` and `rpl_process_dao_ack`.
What `memcpy` stores is written at offsets in the field that is the destination. The sender's
address, which is taken from the IPv6 header, is left out.
-/

namespace Den2ne.Rpl.Icmp6

open Reads Reads.Transfer

/-! ## Constants -/

def optionPad1 : UInt8 := 0

def optionDagMetricContainer : UInt8 := 2

def optionRouteInfo : UInt8 := 3

def optionDagConf : UInt8 := 4

def optionTarget : UInt8 := 5

def optionTransit : UInt8 := 6

def optionPrefixInfo : UInt8 := 8

def dagMcNone : UInt8 := 0

def dagMcEnergy : UInt8 := 2

def dagMcEtx : UInt8 := 7

def dioGrounded : UInt8 := 0x80

def dioMopMask : UInt8 := 0x38

def dioPreferenceMask : UInt8 := 0x07

def daoDFlag : UInt8 := 0x40

/-! ## Messages -/

/-- `union metric_object`, by the member that was written last. -/
inductive MetricObject
  | energy (flags energyEst : UInt8)
  | etx (etx : UInt16)

/-- `struct rpl_metric_container`. -/
structure MetricContainer where
  type : UInt8 := 0
  flags : UInt8 := 0
  aggr : UInt8 := 0
  prec : UInt8 := 0
  length : UInt8 := 0
  obj : MetricObject := .etx 0

/-- The bytes of an address that `memset` has cleared. -/
def zeros : ℕ → UInt8 := fun _ => 0

/-- `struct rpl_prefix`; `addr` are the bytes of its address. -/
structure PrefixInfo where
  addr : ℕ → UInt8 := zeros
  lifetime : UInt32 := 0
  length : UInt8 := 0
  flags : UInt8 := 0

/-- `struct rpl_dio`. -/
structure Dio where
  dagId : ℕ → UInt8
  ocp : UInt16
  rank : UInt16
  grounded : UInt8
  mop : UInt8
  preference : UInt8
  version : UInt8
  instanceId : UInt8
  dtsn : UInt8
  dagIntdoubl : UInt8
  dagIntmin : UInt8
  dagRedund : UInt8
  defaultLifetime : UInt8
  lifetimeUnit : UInt16
  dagMaxRankinc : UInt16
  dagMinHoprankinc : UInt16
  destinationPrefix : PrefixInfo := {}
  prefixInfo : PrefixInfo := {}
  mc : MetricContainer := {}

/-- `struct rpl_dao`. -/
structure Dao where
  parentAddr : ℕ → UInt8
  addr : ℕ → UInt8
  sequence : UInt16
  instanceId : UInt8
  lifetime : UInt8
  prefixlen : UInt8
  flags : UInt8

/-- What a DIO without a configuration option gets, with the values of `rpl-conf.h`. -/
structure Defaults where
  dioIntervalDoublings : UInt8 := 8
  dioIntervalMin : UInt8 := 12
  dioRedundancy : UInt8 := 0
  minHoprankinc : UInt16 := 128
  maxRankinc : UInt16 := 1024
  ofOcp : UInt16 := 1
  defaultLifetime : UInt8 := 30
  defaultLifetimeUnit : UInt16 := 60

/-- `struct rpl_dag`, less its timers and the parent. -/
structure Dag where
  dagId : Ipaddr
  prefixInfo : PrefixInfo := {}
  rank : UInt16 := 0
  version : UInt8 := 0
  grounded : UInt8 := 0
  preference : UInt8 := 0
  daoLastSeqno : UInt8 := 0

/-- `curr_instance`; `ocp` is the code point of its objective function. -/
structure CurrInstance where
  used : Bool
  instanceId : UInt8
  defaultLifetime : UInt8
  dag : Dag
  mc : MetricContainer := {}
  ocp : UInt16 := 0
  mop : UInt8 := 0
  dtsnOut : UInt8 := 0
  dioIntdoubl : UInt8 := 0
  dioIntmin : UInt8 := 0
  dioRedundancy : UInt8 := 0
  maxRankinc : UInt16 := 0
  minHoprankinc : UInt16 := 0
  lifetimeUnit : UInt16 := 0

/-! ## Reading -/

def get16 (pos : ℕ) : Transfer UInt8 UInt16 := do
  let hi ← get pos
  let lo ← get (pos + 1)
  pure (hi.toUInt16 <<< 8 ||| lo.toUInt16)

def get32 (pos : ℕ) : Transfer UInt8 UInt32 := do
  let b0 ← get pos
  let b1 ← get (pos + 1)
  let b2 ← get (pos + 2)
  let b3 ← get (pos + 3)
  pure (b0.toUInt32 <<< 24 ||| b1.toUInt32 <<< 16 ||| b2.toUInt32 <<< 8 ||| b3.toUInt32)

/-- `memcpy` to the start of a field. -/
def memcpy (field : ℕ → UInt8) (src n : ℕ) : Transfer UInt8 (ℕ → UInt8) := do
  let bytes ← gets src n
  puts 0 bytes
  pure (Memory.store field 0 bytes)

/-- How many bytes a prefix takes. -/
def prefixBytes (prefixlen : UInt8) : ℕ := (prefixlen.toNat + 7) / 8

/-- The length of the option of type `subopt_type` at `i`, with its header. -/
def suboptLen (suboptType : UInt8) (i : ℕ) : Transfer UInt8 ℕ+ :=
  if suboptType = optionPad1 then pure (Nat.toPNat 1)
  else do
    let b ← get (i + 1)
    pure (Nat.toPNat (2 + b.toNat) (by omega))

/-! ## DIO -/

def dioMetricContainer (i len : ℕ) (dio : Dio) : Transfer UInt8 Dio := do
  require (6 ≤ len)
  let type ← get (i + 2)
  let b3 ← get (i + 3)
  let b4 ← get (i + 4)
  let length ← get (i + 5)
  let mc : MetricContainer :=
    { type, length, obj := dio.mc.obj
      flags := b3 <<< 1 ||| b4 >>> 7
      aggr := b4 >>> 4 &&& 0x3
      prec := b4 &&& 0xf }
  if type = dagMcNone then
    pure { dio with mc }
  else if type = dagMcEtx then do
    let etx ← get16 (i + 6)
    pure { dio with mc := { mc with obj := .etx etx } }
  else if type = dagMcEnergy then do
    let flags ← get (i + 6)
    let energyEst ← get (i + 7)
    pure { dio with mc := { mc with obj := .energy flags energyEst } }
  else fail

def dioRouteInfo (i len : ℕ) (dio : Dio) : Transfer UInt8 Dio := do
  require (9 ≤ len)
  let length ← get (i + 2)
  let flags ← get (i + 3)
  let lifetime ← get32 (i + 4)
  require (prefixBytes length + 8 ≤ len ∧ length.toNat ≤ 128)
  let addr ← memcpy dio.destinationPrefix.addr (i + 8) (prefixBytes length)
  pure { dio with destinationPrefix := { addr, lifetime, length, flags } }

def dioDagConf (i len : ℕ) (dio : Dio) : Transfer UInt8 Dio := do
  require (len = 16)
  let dagIntdoubl ← get (i + 3)
  let dagIntmin ← get (i + 4)
  let dagRedund ← get (i + 5)
  let dagMaxRankinc ← get16 (i + 6)
  let dagMinHoprankinc ← get16 (i + 8)
  let ocp ← get16 (i + 10)
  let defaultLifetime ← get (i + 13)
  let lifetimeUnit ← get16 (i + 14)
  pure
    { dio with
      dagIntdoubl, dagIntmin, dagRedund, dagMaxRankinc, dagMinHoprankinc, ocp,
      defaultLifetime, lifetimeUnit }

def dioPrefixInfo (i len : ℕ) (dio : Dio) : Transfer UInt8 Dio := do
  require (len = 32)
  let length ← get (i + 2)
  let flags ← get (i + 3)
  let lifetime ← get32 (i + 8)
  let addr ← memcpy dio.prefixInfo.addr (i + 16) 16
  pure { dio with prefixInfo := { addr, lifetime, length, flags } }

/-- The `switch` of `dio_input`; padding is not supported there. -/
def dioSubopt (suboptType : UInt8) (i len : ℕ) (dio : Dio) : Transfer UInt8 Dio :=
  if suboptType = optionDagMetricContainer then dioMetricContainer i len dio
  else if suboptType = optionRouteInfo then dioRouteInfo i len dio
  else if suboptType = optionDagConf then dioDagConf i len dio
  else if suboptType = optionPrefixInfo then dioPrefixInfo i len dio
  else fail

/-- One round of the loop of `dio_input`. -/
def dioOption (bufferLength i : ℕ) (dio : Dio) : Transfer UInt8 (ℕ+ × Dio) := do
  let suboptType ← get i
  let len ← suboptLen suboptType i
  require (len + i ≤ bufferLength)
  let dio ← dioSubopt suboptType i len dio
  pure (len, dio)

/-- What `dio_input` takes from the message before its options. -/
def dioBaseOption (cfg : Defaults) : Transfer UInt8 Dio := do
  let instanceId ← get 0
  let version ← get 1
  let rank ← get16 2
  let b ← get 4
  let dtsn ← get 5
  let dagId ← memcpy zeros 8 16
  pure
    { dagId, rank, version, instanceId, dtsn
      grounded := b &&& dioGrounded
      mop := (b &&& dioMopMask) >>> 3
      preference := b &&& dioPreferenceMask
      dagIntdoubl := cfg.dioIntervalDoublings
      dagIntmin := cfg.dioIntervalMin
      dagRedund := cfg.dioRedundancy
      dagMinHoprankinc := cfg.minHoprankinc
      dagMaxRankinc := cfg.maxRankinc
      ocp := cfg.ofOcp
      defaultLifetime := cfg.defaultLifetime
      lifetimeUnit := cfg.defaultLifetimeUnit }

/-- `dio_input`: where the loop ends, and what `rpl_process_dio` is given. -/
def dioInput (cfg : Defaults) (n : ℕ) : Transfer UInt8 (ℕ × Dio) := do
  let bufferLength := n % 256
  let dio ← dioBaseOption cfg
  advance (dioOption bufferLength) bufferLength 24 dio

/-! ## DAO -/

def daoTarget (i : ℕ) (dao : Dao) : Transfer UInt8 Dao := do
  let prefixlen ← get (i + 3)
  let addr ← memcpy zeros (i + 4) (prefixBytes prefixlen)
  pure { dao with addr, prefixlen }

def daoTransit (i len : ℕ) (dao : Dao) : Transfer UInt8 Dao := do
  let lifetime ← get (i + 5)
  if 20 ≤ len then do
    let parentAddr ← memcpy dao.parentAddr (i + 6) 16
    pure { dao with lifetime, parentAddr }
  else pure { dao with lifetime }

/-- The `switch` of `dao_input`. -/
def daoSubopt (suboptType : UInt8) (i len : ℕ) (dao : Dao) : Transfer UInt8 Dao :=
  if suboptType = optionTarget then daoTarget i dao
  else if suboptType = optionTransit then daoTransit i len dao
  else pure dao

/-- One round of the loop of `dao_input`. -/
def daoOption (i : ℕ) (dao : Dao) : Transfer UInt8 (ℕ+ × Dao) := do
  let suboptType ← get i
  let len ← suboptLen suboptType i
  let dao ← daoSubopt suboptType i len dao
  pure (len, dao)

/-- Where the options of a DAO begin; the DAG ID before them has to be the one of the instance. -/
def daoDagId (curr : CurrInstance) (flags : UInt8) : Transfer UInt8 ℕ :=
  if flags &&& daoDFlag ≠ 0 then do
    let id ← gets 4 16
    require (curr.dag.dagId.u8 = id)
    pure 20
  else pure 4

/-- What `dao_input` takes from the message before its options, and where these begin. -/
def daoBaseOption (curr : CurrInstance) : Transfer UInt8 (ℕ × Dao) := do
  let instanceId ← get 0
  require (curr.used = true ∧ curr.instanceId = instanceId)
  let flags ← get 1
  let sequence ← get 3
  let pos ← daoDagId curr flags
  pure
    (pos,
      { instanceId, flags
        parentAddr := zeros
        addr := zeros
        sequence := sequence.toUInt16
        lifetime := curr.defaultLifetime
        prefixlen := 0 })

/-- `dao_input`: where the loop ends, and what `rpl_process_dao` is given. -/
def daoInput (curr : CurrInstance) (n : ℕ) : Transfer UInt8 (ℕ × Dao) := do
  let bufferLength := n % 256
  let r ← daoBaseOption curr
  advance daoOption bufferLength r.1 r.2

/-! ## DAO-ACK -/

/-- `dao_ack_input`: the sequence number and the status that `rpl_process_dao_ack` is given. -/
def daoAckInput (curr : CurrInstance) : Transfer UInt8 (UInt8 × UInt8) := do
  let instanceId ← get 0
  let sequence ← get 2
  let status ← get 3
  require (curr.used = true ∧ curr.instanceId = instanceId)
  pure (sequence, status)

end Den2ne.Rpl.Icmp6
