import Den2ne.Rpl.ReadBack

/-!
# The configuration of a DODAG

Whatever is received, repaired, left or started again, and in whatever order, a node that is in
the DODAG has the configuration of the root: DIOs carry it unchanged from hop to hop. `Good` is
the invariant of a node, `Carries` that of a DIO in flight.
-/

namespace Den2ne.Rpl.Icmp6

open Reads Reads.Transfer Transition

/-- What all nodes of a DODAG are to share. -/
@[ext] structure Configuration where
  instanceId : UInt8
  dagId : Ipaddr
  ocp : UInt16
  mop : UInt8
  grounded : Bool
  preference : UInt8
  maxRankinc : UInt16
  minHoprankinc : UInt16
  dioIntdoubl : UInt8
  dioIntmin : UInt8
  dioRedundancy : UInt8
  defaultLifetime : UInt8
  lifetimeUnit : UInt16
  prefixAddr : Ipaddr
  prefixLifetime : UInt32
  prefixLength : UInt8
  prefixFlags : UInt8

def CurrInstance.configuration (inst : CurrInstance) : Configuration where
  instanceId := inst.instanceId
  dagId := inst.dag.dagId
  ocp := inst.ocp
  mop := inst.mop
  grounded := inst.dag.grounded ≠ 0
  preference := inst.dag.preference
  maxRankinc := inst.maxRankinc
  minHoprankinc := inst.minHoprankinc
  dioIntdoubl := inst.dioIntdoubl
  dioIntmin := inst.dioIntmin
  dioRedundancy := inst.dioRedundancy
  defaultLifetime := inst.defaultLifetime
  lifetimeUnit := inst.lifetimeUnit
  prefixAddr := ipaddr inst.dag.prefixInfo.addr
  prefixLifetime := inst.dag.prefixInfo.lifetime
  prefixLength := inst.dag.prefixInfo.length
  prefixFlags := inst.dag.prefixInfo.flags

/-- The configuration of a root that is started with `args`. -/
def DagConf.configuration (conf : DagConf) (args : RootArgs) : Configuration where
  instanceId := args.instanceId
  dagId := args.dagId
  ocp := conf.defaults.ofOcp
  mop := conf.mopDefault
  grounded := conf.grounded ≠ 0
  preference := conf.preference
  maxRankinc := conf.defaults.maxRankinc
  minHoprankinc := conf.defaults.minHoprankinc
  dioIntdoubl := conf.defaults.dioIntervalDoublings
  dioIntmin := conf.defaults.dioIntervalMin
  dioRedundancy := conf.defaults.dioRedundancy
  defaultLifetime := conf.defaults.defaultLifetime
  lifetimeUnit := conf.defaults.defaultLifetimeUnit
  prefixAddr :=
    ipaddr (Memory.store zeros 0 (Memory.load args.addr 0 (prefixBytes args.prefixLen)))
  prefixLifetime := routeInfiniteLifetime
  prefixLength := args.prefixLen
  prefixFlags := args.prefixFlags

/-! ## Addresses -/

variable {a b : ℕ → UInt8} {i k : ℕ}

theorem store_load_zeros :
    Memory.store zeros 0 (Memory.load a 0 k) i = if i < k then a i else 0 := by
  rw [Memory.store_of_ge (Nat.zero_le i), Nat.sub_zero]
  split
  · next h => rw [Memory.getElem?_load h, Option.getD_some, Nat.zero_add]
  · next h =>
      rw [List.getElem?_eq_none (by rw [Memory.length_load]; omega)]
      rfl

theorem ipaddr_eq_iff : ipaddr a = ipaddr b ↔ ∀ i < 16, a i = b i := by
  constructor
  · intro h i hi
    have hget := congrArg (fun x : Ipaddr => x.u8[i]?) h
    simp only [ipaddr, Memory.getElem?_load hi, Nat.zero_add, Option.some.injEq] at hget
    exact hget
  · intro h
    exact Ipaddr.ext (Memory.load_congr fun i _ hi => h i (by omega))

/-- To cut an address to its prefix is to cut it once. -/
theorem ipaddr_cut (h : ipaddr b = ipaddr (Memory.store zeros 0 (Memory.load a 0 k))) :
    ipaddr (Memory.store zeros 0 (Memory.load (Memory.store zeros 0 (Memory.load b 0 16)) 0 k)) =
      ipaddr (Memory.store zeros 0 (Memory.load a 0 k)) := by
  rw [ipaddr_eq_iff] at h ⊢
  intro i hi
  have hb := h i hi
  simp only [store_load_zeros, if_pos hi] at hb ⊢
  split
  · next hlt => rw [hb, if_pos hlt]
  · rfl

/-! ## The invariant -/

/-- The objective function is supported, and the prefix is one that a node takes. -/
structure Valid (conf : DagConf) (args : RootArgs) : Prop where
  ocp : conf.defaults.ofOcp ∈ conf.supportedOfs
  addr : ¬ (args.prefixLen = 0 ∨ 128 < args.prefixLen ∨ args.prefixFlags &&& raFlagAutonomous = 0)

/-- A node in the DODAG has the configuration of the root. -/
structure Good (conf : DagConf) (args : RootArgs) (inst : CurrInstance) : Prop where
  configuration : inst.used = true → inst.configuration = conf.configuration args
  valid : inst.used = true → Valid conf args
  fits : inst.mc.Fits

/-- The DIO was sent by a node with the configuration of the root. -/
def Carries (conf : DagConf) (args : RootArgs) (bytes : List UInt8) : Prop :=
  ∃ inst leafOnly unicast, Good conf args inst ∧ inst.used = true ∧
    dioOutput leafOnly unicast inst = some bytes

variable {conf : DagConf} {args : RootArgs} {inst sender : CurrInstance} {leafOnly : Bool}
  {bytes : List UInt8}

theorem fits_zero : ({} : MetricContainer).Fits := ⟨by decide, by decide⟩

theorem good_zero : Good conf args .zero :=
  ⟨fun h => absurd h (by decide), fun h => absurd h (by decide), fits_zero⟩

/-- A node that is not in the DODAG. -/
theorem good_of_unused (h : inst.used = false) (hfits : inst.mc.Fits) : Good conf args inst :=
  ⟨fun hused => absurd (h.symm.trans hused) (by decide),
    fun hused => absurd (h.symm.trans hused) (by decide), hfits⟩

/-- `init_dag` clears the instance, or the objective function is supported and the prefix is one
that a node takes. -/
theorem initDag_eq (instanceId : UInt8) (dagId : Ipaddr) (ocp : UInt16) (addr : ℕ → UInt8)
    (len flags : UInt8) :
    initDag conf instanceId dagId ocp addr len flags =
      if ocp ∈ conf.supportedOfs ∧ ¬ (len = 0 ∨ 128 < len ∨ flags &&& raFlagAutonomous = 0) then
        { used := true
          instanceId
          defaultLifetime := 0
          ocp
          dtsnOut := lollipopInit
          dag :=
            { dagId
              prefixInfo :=
                { addr := Memory.store zeros 0 (Memory.load addr 0 (prefixBytes len))
                  lifetime := routeInfiniteLifetime
                  length := len
                  flags }
              rank := infiniteRank
              daoLastSeqno := lollipopInit } }
      else .zero := by
  unfold initDag setPrefixFromAddr
  by_cases hocp : ocp ∈ conf.supportedOfs
  · by_cases hbad : len = 0 ∨ 128 < len ∨ flags &&& raFlagAutonomous = 0
    · rw [if_neg (not_not.2 hocp), if_pos hbad, if_neg fun h => h.2 hbad]
    · rw [if_neg (not_not.2 hocp), if_neg hbad, if_pos ⟨hocp, hbad⟩]
  · rw [if_pos hocp, if_neg fun h => hocp h.1]

theorem good_dagInitRoot (conf : DagConf) (args : RootArgs) (inst : CurrInstance) :
    Good conf args (dagInitRoot conf args inst) := by
  unfold dagInitRoot
  rw [initDag_eq]
  by_cases hok : conf.defaults.ofOcp ∈ conf.supportedOfs ∧ ¬ (args.prefixLen = 0 ∨
      128 < args.prefixLen ∨ args.prefixFlags &&& raFlagAutonomous = 0)
  · rw [if_pos hok]
    exact ⟨fun _ => rfl, fun _ => ⟨hok.1, hok.2⟩, fits_zero⟩
  · rw [if_neg hok]
    exact good_of_unused rfl fits_zero

/-! ## Joining -/

theorem fits_advertised (h : sender.mc.Fits) : (sender.advertised leafOnly).mc.Fits := by
  unfold CurrInstance.advertised
  dsimp only
  split
  · exact ⟨h.aggr, h.prec⟩
  · exact fits_zero

theorem grounded_ne_zero {g : UInt8} : (if g ≠ 0 then dioGrounded else 0) ≠ 0 ↔ g ≠ 0 := by
  split
  · next h => exact iff_of_true (by decide) h
  · next h => exact iff_of_false (fun hne => hne rfl) h

/-- The prefix is in every DIO. -/
theorem prefixInfo_advertised (h : Good conf args sender) (hused : sender.used = true) :
    (sender.advertised leafOnly).prefixInfo =
      { sender.dag.prefixInfo with
        addr := Memory.store zeros 0 (Memory.load sender.dag.prefixInfo.addr 0 16) } := by
  apply if_pos
  have heq : sender.dag.prefixInfo.length = args.prefixLen :=
    congrArg Configuration.prefixLength (h.configuration hused)
  rw [heq]
  exact UInt8.pos_iff_ne_zero.2 fun hzero => (h.valid hused).addr (.inl hzero)

/-- No DIO of the DODAG is refused for its objective function or its prefix. -/
theorem initDag_advertised (h : Good conf args sender) (hused : sender.used = true) :
    (sender.advertised leafOnly).ocp ∈ conf.supportedOfs ∧
      ¬ ((sender.advertised leafOnly).prefixInfo.length = 0 ∨
        128 < (sender.advertised leafOnly).prefixInfo.length ∨
        (sender.advertised leafOnly).prefixInfo.flags &&& raFlagAutonomous = 0) := by
  have hconf := h.configuration hused
  have hocp : sender.ocp = conf.defaults.ofOcp := congrArg Configuration.ocp hconf
  have hlen : sender.dag.prefixInfo.length = args.prefixLen :=
    congrArg Configuration.prefixLength hconf
  have hflags : sender.dag.prefixInfo.flags = args.prefixFlags :=
    congrArg Configuration.prefixFlags hconf
  have hvalid := h.valid hused
  rw [prefixInfo_advertised h hused]
  refine ⟨?_, ?_⟩
  · change sender.ocp ∈ conf.supportedOfs
    exact hocp ▸ hvalid.ocp
  · dsimp only
    rw [hlen, hflags]
    exact hvalid.addr

/-- A node that joins takes the configuration of the sender. -/
theorem good_initDagFromDio (h : Good conf args sender) (hused : sender.used = true) :
    (initDagFromDio conf (sender.advertised leafOnly)).used = true ∧
      Good conf args (initDagFromDio conf (sender.advertised leafOnly)) := by
  have hconf := h.configuration hused
  have hfits : (sender.advertised leafOnly).mc.Fits := fits_advertised h.fits
  unfold initDagFromDio
  rw [initDag_eq, if_pos (initDag_advertised h hused)]
  dsimp only
  rw [if_neg (by decide), prefixInfo_advertised h hused]
  refine ⟨rfl, fun _ => ?_, fun _ => h.valid hused, ⟨hfits.aggr, hfits.prec⟩⟩
  apply Configuration.ext
  case dagId => exact (ipaddr_store _).trans (congrArg Configuration.dagId hconf)
  case grounded =>
    refine Eq.trans ?_ (congrArg Configuration.grounded hconf)
    exact decide_eq_decide.2 grounded_ne_zero
  case preference =>
    have heq : sender.dag.preference = conf.preference :=
      congrArg Configuration.preference hconf
    exact (congrArg (· &&& dioPreferenceMask) heq).trans conf.preference_fits
  case prefixAddr =>
    have heq : sender.dag.prefixInfo.length = args.prefixLen :=
      congrArg Configuration.prefixLength hconf
    have hcut := ipaddr_cut (congrArg Configuration.prefixAddr hconf)
    exact (congrArg (fun l => ipaddr (Memory.store zeros 0 (Memory.load (Memory.store zeros 0
      (Memory.load sender.dag.prefixInfo.addr 0 16)) 0 (prefixBytes l)))) heq).trans hcut
  case prefixLifetime => rfl
  case instanceId => exact (congrArg Configuration.instanceId hconf :)
  case ocp => exact (congrArg Configuration.ocp hconf :)
  case mop => exact (congrArg Configuration.mop hconf :)
  case maxRankinc => exact (congrArg Configuration.maxRankinc hconf :)
  case minHoprankinc => exact (congrArg Configuration.minHoprankinc hconf :)
  case dioIntdoubl => exact (congrArg Configuration.dioIntdoubl hconf :)
  case dioIntmin => exact (congrArg Configuration.dioIntmin hconf :)
  case dioRedundancy => exact (congrArg Configuration.dioRedundancy hconf :)
  case defaultLifetime => exact (congrArg Configuration.defaultLifetime hconf :)
  case lifetimeUnit => exact (congrArg Configuration.lifetimeUnit hconf :)
  case prefixLength => exact (congrArg Configuration.prefixLength hconf :)
  case prefixFlags => exact (congrArg Configuration.prefixFlags hconf :)

theorem Good.processDioInitDag (h : Good conf args inst) (hs : Good conf args sender)
    (hused : sender.used = true) :
    Good conf args (processDioInitDag conf (sender.advertised leafOnly) inst) := by
  unfold Icmp6.processDioInitDag
  split
  · exact h
  · exact (good_initDagFromDio hs hused).2

/-- A repair by the root changes its version and DTSN. -/
theorem Good.globalRepair (h : Good conf args inst) : Good conf args (globalRepair inst) := by
  unfold Icmp6.globalRepair
  split
  · exact ⟨fun hused => h.configuration hused, h.valid, h.fits⟩
  · exact h

theorem lollipopGreaterThan_self (a : UInt8) : lollipopGreaterThan a a = false := by
  unfold lollipopGreaterThan
  rw [if_neg fun h => absurd h.1 (Nat.not_lt.2 h.2)]
  simp

/-- Nothing changes with a DIO of the version of the node. -/
theorem processDioFromCurrentDag_of_version {dio : Dio} (h : inst.dag.version = dio.version) :
    processDioFromCurrentDag conf dio inst = inst := by
  unfold processDioFromCurrentDag
  rw [h, lollipopGreaterThan_self]
  simp

theorem Good.processDioFromCurrentDag (h : Good conf args inst) (hs : Good conf args sender)
    (hused : sender.used = true) :
    Good conf args (processDioFromCurrentDag conf (sender.advertised leafOnly) inst) := by
  unfold Icmp6.processDioFromCurrentDag globalRepairNonRoot
  split
  · exact h
  · split
    · exact h
    · split
      · split
        · exact Good.globalRepair ⟨fun hin => h.configuration hin, h.valid, h.fits⟩
        · split
          · exact h
          · exact h.processDioInitDag hs hused
      · exact h

/-- A node that receives a DIO of the DODAG is in it with the configuration of the root, or not
at all. -/
theorem Good.processDio (h : Good conf args inst) (hs : Good conf args sender)
    (hused : sender.used = true) :
    Good conf args (processDio conf (sender.advertised leafOnly) inst) := by
  unfold Icmp6.processDio
  have hfirst : Good conf args (if !inst.used ∧ !inst.isRoot then
      Icmp6.processDioInitDag conf (sender.advertised leafOnly) inst else inst) := by
    split
    · exact h.processDioInitDag hs hused
    · exact h
  dsimp only
  generalize (if !inst.used ∧ !inst.isRoot then
    Icmp6.processDioInitDag conf (sender.advertised leafOnly) inst else inst) = joined at hfirst ⊢
  split
  · exact hfirst.processDioFromCurrentDag hs hused
  · exact hfirst

/-- A node that is not in the DODAG joins with any DIO whose mode of operation it supports. -/
theorem used_processDio (h : inst.used = false) (hs : Good conf args sender)
    (hused : sender.used = true) (hmop : conf.mopDefault = 0 ∨ conf.mopDefault = 1) :
    (processDio conf (sender.advertised leafOnly) inst).used = true := by
  have hjoined : (initDagFromDio conf (sender.advertised leafOnly)).used = true :=
    (good_initDagFromDio hs hused).1
  have heq : sender.mop = conf.mopDefault :=
    congrArg Configuration.mop (hs.configuration hused)
  have hinit : Icmp6.processDioInitDag conf (sender.advertised leafOnly) inst =
      initDagFromDio conf (sender.advertised leafOnly) := by
    apply if_neg
    change ¬ (sender.mop ≠ 0 ∧ sender.mop ≠ 1)
    rw [heq]
    exact fun hne => hmop.elim hne.1 hne.2
  have hfirst : ¬ inst.isRoot = true := by
    rw [CurrInstance.isRoot, h]
    simp
  have hif : (if !inst.used ∧ !inst.isRoot then
      Icmp6.processDioInitDag conf (sender.advertised leafOnly) inst else inst) =
        initDagFromDio conf (sender.advertised leafOnly) := by
    rw [if_pos (by simp [h, hfirst]), hinit]
  unfold Icmp6.processDio
  dsimp only
  rw [hif]
  split
  · -- the version of the DIO is the node's own by now
    rw [processDioFromCurrentDag_of_version]
    · exact hjoined
    · unfold initDagFromDio
      rw [initDag_eq, if_pos (initDag_advertised hs hused)]
      rfl
  · exact hjoined

theorem Good.dagLeave (h : Good conf args inst) : Good conf args (dagLeave inst) :=
  good_of_unused rfl h.fits

theorem Good.touch (h : Good conf args inst) (rank : UInt16) (dtsnOut daoLastSeqno : UInt8)
    {mc : MetricContainer} (hfits : mc.Fits) :
    Good conf args (inst.touch rank dtsnOut daoLastSeqno mc) :=
  ⟨fun hused => h.configuration hused, h.valid, hfits⟩

/-! ## DIOs in flight -/

/-- A DIO of the DODAG is clear for every receiver, who takes what a node of the DODAG
advertises. -/
theorem Carries.run_dioInput (h : Carries conf args bytes) (cfg : Defaults) :
    DioInside cfg (payload bytes) bytes.length ∧
      ∃ sender leafOnly, Good conf args sender ∧ sender.used = true ∧
        (dioInput cfg bytes.length).run (payload bytes) =
          some (bytes.length, sender.advertised leafOnly) := by
  obtain ⟨sender, leafOnly, unicast, hgood, hused, hbytes⟩ := h
  have hmop : sender.mop &&& 0x07 = sender.mop := by
    have heq : sender.mop = conf.mopDefault :=
      congrArg Configuration.mop (hgood.configuration hused)
    rw [heq]
    exact conf.mop_fits
  obtain ⟨hinside, hrun⟩ := dioInput_dioOutput cfg hmop hgood.fits hbytes (at_payload bytes)
  exact ⟨hinside, sender, leafOnly, hgood, hused, hrun⟩

/-! ## The network -/

variable {ν : Type} [DecidableEq ν] {root v : ν} {s s' : Net ν}

/-- The invariant of the network. -/
structure Net.Uniform (conf : DagConf) (args : RootArgs) (s : Net ν) : Prop where
  nodes : ∀ v, Good conf args (s.inst v)
  air : ∀ bytes ∈ s.air, Carries conf args bytes

theorem Net.Uniform.modify {f : CurrInstance → CurrInstance} (h : s.Uniform conf args)
    (hf : Good conf args (f (s.inst v))) : (s.modify v f).Uniform conf args := by
  refine ⟨fun w => ?_, h.air⟩
  change Good conf args (Function.update s.inst v (f (s.inst v)) w)
  by_cases hw : w = v
  · rwa [hw, Function.update_self]
  · rw [Function.update_of_ne hw]
    exact h.nodes w

omit [DecidableEq ν] in
theorem uniform_boot : (Net.boot : Net ν).Uniform conf args := ⟨fun _ => good_zero, nofun⟩

theorem uniform_step {e : Event ν} (h : s.Uniform conf args)
    (hs : step conf args root e s = some s') : s'.Uniform conf args := by
  cases e with
  | start =>
      obtain rfl := Option.some.inj hs
      exact h.modify (good_dagInitRoot conf args _)
  | send v leafOnly unicast =>
      simp only [step] at hs
      split at hs
      · next hused =>
          split at hs
          · obtain rfl := Option.some.inj hs
            exact h
          · next bytes hbytes =>
              obtain rfl := Option.some.inj hs
              refine ⟨h.nodes, fun b hb => ?_⟩
              rcases List.mem_append.1 hb with hb | hb
              · exact h.air b hb
              · obtain rfl := List.mem_singleton.1 hb
                exact ⟨s.inst v, leafOnly, unicast, h.nodes v, hused, hbytes⟩
      · cases hs
  | receive v k =>
      simp only [step] at hs
      split at hs
      · cases hs
      · next bytes hbytes =>
          obtain ⟨-, sender, leafOnly, hgood, hused, hrun⟩ :=
            (h.air bytes (List.mem_of_getElem? hbytes)).run_dioInput conf.defaults
          rw [hrun] at hs
          obtain rfl := Option.some.inj hs
          exact h.modify ((h.nodes v).processDio hgood hused)
  | update v rank dtsnOut daoLastSeqno mc hfits =>
      obtain rfl := Option.some.inj hs
      exact h.modify ((h.nodes v).touch rank dtsnOut daoLastSeqno hfits)
  | leave v =>
      obtain rfl := Option.some.inj hs
      exact h.modify (h.nodes v).dagLeave

/-- In every state of every run, every node of the DODAG has the configuration with which the
root was started, and every DIO in flight is clear for every receiver; a node that is not in the
DODAG joins with it if the mode of operation is one that nodes support. -/
theorem configuration_uniform (conf : DagConf) (args : RootArgs) (root : ν) (es : List (Event ν)) :
    Always (step conf args root)
      (fun s =>
        (∀ v, (s.inst v).used = true → (s.inst v).configuration = conf.configuration args) ∧
          ∀ k bytes, s.air[k]? = some bytes →
            (∀ cfg, DioInside cfg (payload bytes) bytes.length) ∧
              (conf.mopDefault = 0 ∨ conf.mopDefault = 1 →
                ∀ v, (s.inst v).used = false →
                  ∃ s', step conf args root (.receive v k) s = some s' ∧
                    (s'.inst v).used = true ∧
                      (s'.inst v).configuration = conf.configuration args))
      es Net.boot := by
  apply always_of_step (I := Net.Uniform conf args) (fun s e s' h hs => uniform_step h hs) _ es
    uniform_boot
  intro s h
  refine ⟨fun v => (h.nodes v).configuration, fun k bytes hk => ?_⟩
  have hcarries := h.air bytes (List.mem_of_getElem? hk)
  refine ⟨fun cfg => (hcarries.run_dioInput cfg).1, fun hmop v hv => ?_⟩
  obtain ⟨-, sender, leafOnly, hgood, hused, hrun⟩ := hcarries.run_dioInput conf.defaults
  refine ⟨s.modify v (processDio conf (sender.advertised leafOnly)), ?_, ?_⟩
  · simp only [step, hk, hrun]
  · have heq : (s.modify v (processDio conf (sender.advertised leafOnly))).inst v =
        processDio conf (sender.advertised leafOnly) (s.inst v) :=
      Function.update_self ..
    have hjoined : (processDio conf (sender.advertised leafOnly) (s.inst v)).used = true :=
      used_processDio hv hgood hused hmop
    rw [heq]
    exact ⟨hjoined, ((h.nodes v).processDio hgood hused).configuration hjoined⟩

end Den2ne.Rpl.Icmp6
