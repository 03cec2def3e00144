import Den2ne.Rpl.Icmp6Output
import Den2ne.Transition.Run
import Mathlib.Data.List.Basic
import Mathlib.Logic.Function.Basic

/-!
# A DODAG

How a node gets into a DODAG, with `rpl_dag_init_root`, `rpl_process_dio` and what they call in
`rpl-dag.c`, and a network of such nodes around one root. The bytes of every DIO that was sent
stay in flight: any of them may come late, more than once, or never. What the code takes from
its neighbours, its timers and its objective function is an event: the rank, the counters and the
metric container of a node change at any time and to any value.
-/

namespace Den2ne.Rpl.Icmp6

open Reads Reads.Transfer

/-! ## Sequence numbers -/

def lollipopMaxValue : ℕ := 255

def lollipopCircularRegion : ℕ := 127

def lollipopSequenceWindows : ℕ := 16

/-- `RPL_LOLLIPOP_INIT`. -/
def lollipopInit : UInt8 := 240

/-- `rpl_lollipop_greater_than`. -/
def lollipopGreaterThan (a b : UInt8) : Bool :=
  if lollipopCircularRegion < a.toNat ∧ b.toNat ≤ lollipopCircularRegion then
    lollipopSequenceWindows < lollipopMaxValue + 1 + b.toNat - a.toNat
  else
    (b < a ∧ a.toNat - b.toNat < lollipopSequenceWindows) ∨
      (a < b ∧ lollipopCircularRegion + 1 - lollipopSequenceWindows < b.toNat - a.toNat)

/-- `RPL_LOLLIPOP_INCREMENT`. -/
def lollipopIncrement (counter : UInt8) : UInt8 :=
  if lollipopCircularRegion < counter.toNat then UInt8.ofNat ((counter.toNat + 1) % 256)
  else UInt8.ofNat ((counter.toNat + 1) % 128)

/-! ## Joining -/

/-- What is compiled in; what a DIO transmits fits into its fields. -/
structure DagConf where
  defaults : Defaults := {}
  supportedOfs : List UInt16 := [1]
  mopDefault : UInt8 := 1
  preference : UInt8 := 0
  grounded : UInt8 := 0
  mop_fits : mopDefault &&& 0x07 = mopDefault := by decide
  preference_fits : preference &&& 0x07 = preference := by decide

/-- What `rpl_dag_init_root` is called with. -/
structure RootArgs where
  instanceId : UInt8
  dagId : Ipaddr
  addr : ℕ → UInt8
  prefixLen : UInt8
  prefixFlags : UInt8

def raFlagAutonomous : UInt8 := 0x40

def routeInfiniteLifetime : UInt32 := 0xFFFFFFFF

theorem length_replicate_sixteen : (List.replicate 16 (0 : UInt8)).length = 16 :=
  List.length_replicate

/-- An instance that `memset` has cleared. -/
def CurrInstance.zero : CurrInstance where
  used := false
  instanceId := 0
  defaultLifetime := 0
  dag := { dagId := ⟨List.replicate 16 0, length_replicate_sixteen⟩ }

/-- `rpl_set_prefix_from_addr`: what it stores, if it succeeds. -/
def setPrefixFromAddr (addr : ℕ → UInt8) (len flags : UInt8) : Option PrefixInfo :=
  if len = 0 ∨ 128 < len ∨ flags &&& raFlagAutonomous = 0 then none
  else
    some
      { addr := Memory.store zeros 0 (Memory.load addr 0 (prefixBytes len))
        lifetime := routeInfiniteLifetime
        length := len
        flags }

/-- `init_dag`: the instance, which is cleared if it fails. -/
def initDag (conf : DagConf) (instanceId : UInt8) (dagId : Ipaddr) (ocp : UInt16)
    (addr : ℕ → UInt8) (len flags : UInt8) : CurrInstance :=
  if ocp ∉ conf.supportedOfs then .zero
  else
    match setPrefixFromAddr addr len flags with
    | none => .zero
    | some prefixInfo =>
        { used := true
          instanceId
          defaultLifetime := 0
          ocp
          dtsnOut := lollipopInit
          dag := { dagId, prefixInfo, rank := infiniteRank, daoLastSeqno := lollipopInit } }

/-- The bytes of an address that was received. -/
def ipaddr (addr : ℕ → UInt8) : Ipaddr := ⟨Memory.load addr 0 16, Memory.length_load addr 0 16⟩

/-- `init_dag_from_dio`. -/
def initDagFromDio (conf : DagConf) (dio : Dio) : CurrInstance :=
  let inst := initDag conf dio.instanceId (ipaddr dio.dagId) dio.ocp dio.prefixInfo.addr
    dio.prefixInfo.length dio.prefixInfo.flags
  if inst.used = false then inst
  else
    { inst with
      mop := dio.mop
      mc :=
        { inst.mc with
          type := dio.mc.type, flags := dio.mc.flags, aggr := dio.mc.aggr, prec := dio.mc.prec }
      maxRankinc := dio.dagMaxRankinc
      minHoprankinc := dio.dagMinHoprankinc
      dioIntdoubl := dio.dagIntdoubl
      dioIntmin := dio.dagIntmin
      dioRedundancy := dio.dagRedund
      defaultLifetime := dio.defaultLifetime
      lifetimeUnit := dio.lifetimeUnit
      dag :=
        { inst.dag with
          preference := dio.preference, grounded := dio.grounded, version := dio.version } }

/-- `process_dio_init_dag`. -/
def processDioInitDag (conf : DagConf) (dio : Dio) (inst : CurrInstance) : CurrInstance :=
  if dio.mop ≠ 0 ∧ dio.mop ≠ 1 then inst else initDagFromDio conf dio

/-- `rpl_dag_root_is_root`. -/
def CurrInstance.isRoot (inst : CurrInstance) : Bool :=
  inst.used ∧ inst.dag.rank = inst.minHoprankinc

/-- `rpl_global_repair`. -/
def globalRepair (inst : CurrInstance) : CurrInstance :=
  if inst.isRoot then
    { inst with
      dtsnOut := lollipopInit
      dag := { inst.dag with version := lollipopIncrement inst.dag.version } }
  else inst

/-- `global_repair_non_root`. -/
def globalRepairNonRoot (conf : DagConf) (dio : Dio) (inst : CurrInstance) : CurrInstance :=
  if inst.isRoot then inst else processDioInitDag conf dio inst

/-- `process_dio_from_current_dag`, what it does to the instance but for the counters. -/
def processDioFromCurrentDag (conf : DagConf) (dio : Dio) (inst : CurrInstance) : CurrInstance :=
  if dio.rank < inst.minHoprankinc then inst
  else if lollipopGreaterThan inst.dag.version dio.version then inst
  else if lollipopGreaterThan dio.version inst.dag.version then
    if inst.dag.rank = inst.minHoprankinc then
      globalRepair { inst with dag := { inst.dag with version := dio.version } }
    else globalRepairNonRoot conf dio inst
  else inst

/-- `rpl_process_dio`. -/
def processDio (conf : DagConf) (dio : Dio) (inst : CurrInstance) : CurrInstance :=
  let inst := if !inst.used ∧ !inst.isRoot then processDioInitDag conf dio inst else inst
  if inst.used ∧ inst.instanceId = dio.instanceId ∧ inst.dag.dagId = ipaddr dio.dagId then
    processDioFromCurrentDag conf dio inst
  else inst

/-- `rpl_dag_leave`, what is left of the instance. -/
def dagLeave (inst : CurrInstance) : CurrInstance :=
  { inst with
    used := false
    dag :=
      { inst.dag with
        prefixInfo :=
          { inst.dag.prefixInfo with
            length :=
              if inst.dag.prefixInfo.flags &&& raFlagAutonomous ≠ 0 then 0
              else inst.dag.prefixInfo.length } } }

/-- `rpl_dag_init_root`. -/
def dagInitRoot (conf : DagConf) (args : RootArgs) (inst : CurrInstance) : CurrInstance :=
  let version :=
    if inst.used ∧ inst.dag.dagId = args.dagId then lollipopIncrement inst.dag.version
    else lollipopInit
  let inst := initDag conf args.instanceId args.dagId conf.defaults.ofOcp args.addr args.prefixLen
    args.prefixFlags
  { inst with
    mop := conf.mopDefault
    maxRankinc := conf.defaults.maxRankinc
    minHoprankinc := conf.defaults.minHoprankinc
    dioIntdoubl := conf.defaults.dioIntervalDoublings
    dioIntmin := conf.defaults.dioIntervalMin
    dioRedundancy := conf.defaults.dioRedundancy
    defaultLifetime := conf.defaults.defaultLifetime
    lifetimeUnit := conf.defaults.defaultLifetimeUnit
    dag :=
      { inst.dag with
        preference := conf.preference
        grounded := conf.grounded
        version := version
        rank := conf.defaults.minHoprankinc } }

/-! ## The network -/

/-- The instances of the nodes, and the payloads of all DIOs that were sent. -/
structure Net (ν : Type) where
  inst : ν → CurrInstance
  air : List (List UInt8)

/-- The memory that holds a payload. -/
def payload (bytes : List UInt8) : ℕ → UInt8 := fun i => bytes.getD i 0

/-- The aggregation has three bits, of which two are read back, and the precedence four. -/
structure MetricContainer.Fits (mc : MetricContainer) : Prop where
  aggr : mc.aggr &&& 0x3 = mc.aggr
  prec : mc.prec &&& 0xf = mc.prec

/-- What happens: the root is started, a node sends a DIO or receives one that was sent, something
of its state that is not configuration changes, or it leaves. -/
inductive Event (ν : Type)
  | start
  | send (v : ν) (leafOnly unicast : Bool)
  | receive (v : ν) (k : ℕ)
  | update (v : ν) (rank : UInt16) (dtsnOut daoLastSeqno : UInt8) (mc : MetricContainer)
      (fits : mc.Fits)
  | leave (v : ν)

variable {ν : Type} [DecidableEq ν]

namespace Net

/-- No node is in the DODAG. -/
def boot : Net ν where
  inst _ := .zero
  air := []

def modify (s : Net ν) (v : ν) (f : CurrInstance → CurrInstance) : Net ν :=
  { s with inst := Function.update s.inst v (f (s.inst v)) }

end Net

/-- A change of the rank, the counters and the metric container. -/
def CurrInstance.touch (inst : CurrInstance) (rank : UInt16) (dtsnOut daoLastSeqno : UInt8)
    (mc : MetricContainer) : CurrInstance :=
  { inst with
    dtsnOut, mc
    dag := { inst.dag with rank, daoLastSeqno } }

/-- A step of the network with the root `root`; only nodes in the DODAG send. -/
def step (conf : DagConf) (args : RootArgs) (root : ν) : Event ν → Net ν → Option (Net ν)
  | .start, s => some (s.modify root (dagInitRoot conf args))
  | .send v leafOnly unicast, s =>
      if (s.inst v).used then
        match dioOutput leafOnly unicast (s.inst v) with
        | none => some s
        | some bytes => some { s with air := s.air ++ [bytes] }
      else none
  | .receive v k, s =>
      match s.air[k]? with
      | none => none
      | some bytes =>
          match (dioInput conf.defaults bytes.length).run (payload bytes) with
          | none => some s
          | some r => some (s.modify v (processDio conf r.2))
  | .update v rank dtsnOut daoLastSeqno mc _, s =>
      some (s.modify v fun inst => inst.touch rank dtsnOut daoLastSeqno mc)
  | .leave v, s => some (s.modify v dagLeave)

end Den2ne.Rpl.Icmp6
