import Den2ne.Rpl.Icmp6

/-!
# RPL control messages that are sent

`rpl_icmp6_dio_output`, `rpl_icmp6_dao_output` and `rpl_icmp6_dao_ack_output` of `rpl-icmp6.c`: the
payload as the list of its bytes, or nothing where the function returns without sending. The
state of the DAG is taken as it is after `rpl_dag_update_state`.
-/

namespace Den2ne.Rpl.Icmp6

def infiniteRank : UInt16 := 0xFFFF

def mopNoDownwardRoutes : UInt8 := 0

def daoKFlag : UInt8 := 0x80

def set16 (value : UInt16) : List UInt8 := [(value >>> 8).toUInt8, (value &&& 0xff).toUInt8]

def set32 (value : UInt32) : List UInt8 :=
  [(value >>> 24).toUInt8, ((value >>> 16) &&& 0xff).toUInt8, ((value >>> 8) &&& 0xff).toUInt8,
    (value &&& 0xff).toUInt8]

namespace MetricObject

/-- The members of the union; a number is stored with its low byte first. -/
def asEtx : MetricObject → UInt16
  | .energy flags energyEst => energyEst.toUInt16 <<< 8 ||| flags.toUInt16
  | .etx value => value

def flags : MetricObject → UInt8
  | .energy flags _ => flags
  | .etx value => value.toUInt8

def energyEst : MetricObject → UInt8
  | .energy _ energyEst => energyEst
  | .etx value => (value >>> 8).toUInt8

end MetricObject

/-! ## DIO -/

/-- The metric container; nothing for a type that is not supported. -/
def dioMetricBytes (mc : MetricContainer) : Option (List UInt8) :=
  let head := [optionDagMetricContainer, 6, mc.type, mc.flags >>> 1,
    (mc.flags &&& 1) <<< 7 ||| (mc.aggr <<< 4 ||| mc.prec)]
  if mc.type = dagMcEtx then some (head ++ 2 :: set16 mc.obj.asEtx)
  else if mc.type = dagMcEnergy then some (head ++ [2, mc.obj.flags, mc.obj.energyEst])
  else none

def dioConfBytes (inst : CurrInstance) : List UInt8 :=
  [optionDagConf, 14, 0, inst.dioIntdoubl, inst.dioIntmin, inst.dioRedundancy] ++
    set16 inst.maxRankinc ++ set16 inst.minHoprankinc ++ set16 inst.ocp ++
    [0, inst.defaultLifetime] ++ set16 inst.lifetimeUnit

def dioPrefixBytes (info : PrefixInfo) : List UInt8 :=
  if 0 < info.length then
    [optionPrefixInfo, 30, info.length, info.flags] ++ set32 info.lifetime ++
      set32 info.lifetime ++ [0, 0, 0, 0] ++ Memory.load info.addr 0 16
  else []

def dioBaseBytes (leafOnly : Bool) (inst : CurrInstance) : List UInt8 :=
  [inst.instanceId, inst.dag.version] ++
    set16 (if leafOnly then infiniteRank else inst.dag.rank) ++
    [(if inst.dag.grounded ≠ 0 then dioGrounded else 0) ||| inst.mop <<< 3 |||
      (inst.dag.preference &&& dioPreferenceMask), inst.dtsnOut, 0, 0] ++
    inst.dag.dagId.u8

/-- What stands between the fixed part and the configuration. -/
def dioMetricPart (leafOnly : Bool) (inst : CurrInstance) : Option (List UInt8) :=
  if !leafOnly ∧ inst.mc.type ≠ dagMcNone then dioMetricBytes inst.mc else some []

/-- `rpl_icmp6_dio_output`, with `unicast` for a receiver that is given. -/
def dioOutput (leafOnly unicast : Bool) (inst : CurrInstance) : Option (List UInt8) :=
  if leafOnly ∧ !unicast then none
  else
    (dioMetricPart leafOnly inst).map fun metric =>
      dioBaseBytes leafOnly inst ++ metric ++ dioConfBytes inst ++
        dioPrefixBytes inst.dag.prefixInfo

/-! ## DAO and DAO-ACK -/

/-- `rpl_icmp6_dao_output`, with what `rpl_get_global_address` and `rpl_neighbor_get_ipaddr` of the
preferred parent give. -/
def daoOutput (withDaoAck : Bool) (inst : CurrInstance) (globalAddress parent : Option Ipaddr)
    (lifetime : UInt8) : Option (List UInt8) := do
  let target ← globalAddress
  let parentIpaddr ← parent
  if inst.used = false ∨ inst.mop = mopNoDownwardRoutes then none
  else
    some ([inst.instanceId, if withDaoAck ∧ lifetime ≠ 0 then daoKFlag else 0, 0,
      inst.dag.daoLastSeqno, optionTarget, 18, 0, 128] ++ target.u8 ++
      [optionTransit, 20, 0, 0, 0, lifetime] ++ inst.dag.dagId.u8.take 8 ++
      parentIpaddr.u8.drop 8)

/-- `rpl_icmp6_dao_ack_output`. -/
def daoAckOutput (inst : CurrInstance) (sequence status : UInt8) : List UInt8 :=
  [inst.instanceId, 0, sequence, status]

end Den2ne.Rpl.Icmp6
