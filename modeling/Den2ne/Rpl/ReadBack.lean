import Den2ne.Memory.At
import Den2ne.Rpl.Dodag
import Den2ne.Rpl.Icmp6Bounds
import Mathlib.Tactic.IntervalCases

/-!
# Control messages are read as they were sent

A DIO, a DAO or a DAO-ACK that a node sends is clear for every receiver, which takes all its
options and hands over what the sender put in.
-/

namespace Den2ne.Rpl.Icmp6

open Reads Reads.Transfer
open Memory (At at_nil at_cons at_append)

/-! ## Numbers -/

theorem toUInt8_land_mask16 (v : UInt16) : (v &&& 0xff).toUInt8 = v.toUInt8 := by
  apply UInt8.toNat_inj.1
  have hmask : v.toNat % 256 &&& 255 = v.toNat % 256 :=
    (Nat.and_two_pow_sub_one_eq_mod (v.toNat % 256) 8).trans (Nat.mod_mod v.toNat 256)
  simp [hmask]

theorem toUInt8_land_mask32 (v : UInt32) : (v &&& 0xff).toUInt8 = v.toUInt8 := by
  apply UInt8.toNat_inj.1
  have hmask : v.toNat % 256 &&& 255 = v.toNat % 256 :=
    (Nat.and_two_pow_sub_one_eq_mod (v.toNat % 256) 8).trans (Nat.mod_mod v.toNat 256)
  simp [hmask]

/-- The bytes of `set16` are put together again, and so are those of `set32`. -/
theorem join16 (v : UInt16) :
    (v >>> 8).toUInt8.toUInt16 <<< 8 ||| (v &&& 0xff).toUInt8.toUInt16 = v := by
  rw [toUInt8_land_mask16]
  apply UInt16.toBitVec_inj.1
  ext i hi
  simp [-UInt16.toUInt16_toUInt8]
  grind

theorem join32 (v : UInt32) :
    (v >>> 24).toUInt8.toUInt32 <<< 24 ||| ((v >>> 16) &&& 0xff).toUInt8.toUInt32 <<< 16 |||
      ((v >>> 8) &&& 0xff).toUInt8.toUInt32 <<< 8 ||| (v &&& 0xff).toUInt8.toUInt32 = v := by
  rw [toUInt8_land_mask32, toUInt8_land_mask32, toUInt8_land_mask32]
  apply UInt32.toBitVec_inj.1
  ext i hi
  simp [-UInt32.toUInt32_toUInt8]
  grind

/-! ## Lists of bytes in the payload -/

variable {data : ℕ → UInt8} {i n p : ℕ} {xs ys : List UInt8}

theorem at_set16 {v : UInt16} : At data p (set16 v) → word16 data p = v := by
  intro h
  obtain ⟨hhi, hlo, -⟩ := at_cons.1 h |>.imp_right at_cons.1
  rw [word16, hhi, hlo, join16]

theorem at_set32 {v : UInt32} : At data p (set32 v) → word32 data p = v := by
  intro h
  obtain ⟨h0, h1, h2, h3, -⟩ :=
    at_cons.1 h |>.imp_right fun h => at_cons.1 h |>.imp_right fun h =>
      at_cons.1 h |>.imp_right at_cons.1
  rw [word32, h0, h1, h2, h3, join32]

/-! ## The options of a DIO -/

theorem ipaddr_store (x : Ipaddr) : ipaddr (Memory.store zeros 0 x.u8) = x := by
  apply Ipaddr.ext
  have h := Memory.load_store zeros 0 x.u8
  rwa [x.length_u8] at h

/-- A payload is what the receiver finds. -/
theorem at_payload (bytes : List UInt8) : At (payload bytes) 0 bytes := by
  apply List.ext_getElem?
  intro i
  by_cases hi : i < bytes.length
  · rw [Memory.getElem?_load hi, Nat.zero_add, payload, List.getD_eq_getElem?_getD,
      List.getElem?_eq_getElem hi, Option.getD_some]
  · rw [List.getElem?_eq_none (Nat.not_lt.1 hi),
      List.getElem?_eq_none (by rw [Memory.length_load]; omega)]

section

variable {inst : CurrInstance}

theorem optionLen_of_ne {t b : UInt8} (htype : data i = t) (hne : t ≠ optionPad1)
    (hlen : data (i + 1) = b) : (optionLen data i : ℕ) = 2 + b.toNat := by
  rw [optionLen, if_neg (htype ▸ hne), ← hlen]
  rfl

theorem dioAccepted_dagConf (htype : data i = optionDagConf) :
    DioAccepted data i ↔ (optionLen data i : ℕ) = 16 := by
  rw [DioAccepted, if_neg (htype ▸ by decide), if_neg (htype ▸ by decide), if_pos htype]

theorem length_set16 (v : UInt16) : (set16 v).length = 2 := rfl

theorem length_set32 (v : UInt32) : (set32 v).length = 4 := rfl

theorem length_dioConfBytes : (dioConfBytes inst).length = 16 := rfl

/-- The configuration option is taken, and gives the configuration of the sender. -/
theorem at_dioConfBytes (dio : Dio) (h : At data i (dioConfBytes inst)) :
    (optionLen data i : ℕ) = 16 ∧ DioWellFormed data (i + 16) i ∧
      dioApply data i dio =
        { dio with
          dagIntdoubl := inst.dioIntdoubl
          dagIntmin := inst.dioIntmin
          dagRedund := inst.dioRedundancy
          dagMaxRankinc := inst.maxRankinc
          dagMinHoprankinc := inst.minHoprankinc
          ocp := inst.ocp
          defaultLifetime := inst.defaultLifetime
          lifetimeUnit := inst.lifetimeUnit } := by
  simp only [dioConfBytes, List.append_assoc, at_append, at_cons, length_set16, List.cons_append,
    List.nil_append, Nat.add_assoc, Nat.reduceAdd] at h
  obtain ⟨htype, hlen, -, hdoubl, hmin, hredund, hmax, hhop, hocp, -, hlife, hunit⟩ := h
  have hoption : (optionLen data i : ℕ) = 16 := optionLen_of_ne htype (by decide) hlen
  refine ⟨hoption, ⟨?_, ?_, ?_⟩, ?_⟩
  · rw [hoption]
  · rw [dioAccepted_dagConf htype, hoption]
  · exact fun h => absurd (h.1.symm.trans htype) (by decide)
  · rw [dioApply, if_neg (htype ▸ by decide), if_neg (htype ▸ by decide), if_pos htype]
    rw [hdoubl, hmin, hredund, at_set16 hmax, at_set16 hhop, at_set16 hocp, hlife,
      at_set16 hunit]

theorem at_load {m : ℕ → UInt8} {k : ℕ} (h : At data p (Memory.load m 0 k)) :
    Memory.load data p k = Memory.load m 0 k := by
  rwa [At, Memory.length_load] at h

/-- The prefix option is taken, and gives the prefix of the sender. -/
theorem at_dioPrefixBytes (dio : Dio) {info : PrefixInfo} (hlen : 0 < info.length)
    (h : At data i (dioPrefixBytes info)) :
    (optionLen data i : ℕ) = 32 ∧ DioWellFormed data (i + 32) i ∧
      dioApply data i dio =
        { dio with
          prefixInfo :=
            { info with
              addr := Memory.store dio.prefixInfo.addr 0 (Memory.load info.addr 0 16) } } := by
  rw [dioPrefixBytes, if_pos hlen] at h
  simp only [List.append_assoc, at_append, at_cons, length_set32, List.cons_append,
    List.nil_append, Nat.add_assoc, Nat.reduceAdd] at h
  obtain ⟨htype, hoptlen, hlength, hflags, -, hlifetime, -, -, -, -, haddr⟩ := h
  have hoption : (optionLen data i : ℕ) = 32 := optionLen_of_ne htype (by decide) hoptlen
  refine ⟨hoption, ⟨?_, ?_, ?_⟩, ?_⟩
  · rw [hoption]
  · rw [DioAccepted, if_neg (htype ▸ by decide), if_neg (htype ▸ by decide),
      if_neg (htype ▸ by decide), hoption]
    exact ⟨htype, rfl⟩
  · exact fun h => absurd (h.1.symm.trans htype) (by decide)
  · rw [dioApply, if_neg (htype ▸ by decide), if_neg (htype ▸ by decide),
      if_neg (htype ▸ by decide)]
    rw [hlength, hflags, at_set32 hlifetime, at_load haddr]

/-- The part of a metric container that a node sends. -/
def MetricContainer.sent (mc : MetricContainer) : MetricContainer where
  type := mc.type
  flags := mc.flags
  aggr := mc.aggr
  prec := mc.prec
  length := 2
  obj :=
    if mc.type = dagMcEtx then .etx mc.obj.asEtx else .energy mc.obj.flags mc.obj.energyEst

/-- The flags, the aggregation and the precedence of a container are taken apart again. -/
theorem metric_join {f a p b : UInt8} (ha : a &&& 0x3 = a) (hp : p &&& 0xf = p)
    (hb : b = (f &&& 1) <<< 7 ||| (a <<< 4 ||| p)) :
    (f >>> 1) <<< 1 ||| b >>> 7 = f ∧ b >>> 4 &&& 0x3 = a ∧ b &&& 0xf = p := by
  rw [hb, ← ha, ← hp]
  refine ⟨?_, ?_, ?_⟩
  all_goals
    apply UInt8.toBitVec_inj.1
    ext i hi
    interval_cases i <;> simp

/-- The mode of operation, the preference and the flag for grounded are taken apart again. -/
theorem mode_join {g m p b : UInt8} (hg : g &&& 0x80 = g) (hm : m &&& 0x07 = m)
    (hb : b = g ||| m <<< 3 ||| (p &&& 0x07)) :
    b &&& 0x80 = g ∧ (b &&& 0x38) >>> 3 = m ∧ b &&& 0x07 = p &&& 0x07 := by
  rw [hb, ← hg, ← hm]
  refine ⟨?_, ?_, ?_⟩
  all_goals
    apply UInt8.toBitVec_inj.1
    ext i hi
    interval_cases i <;> simp

theorem dioAccepted_metric (htype : data i = optionDagMetricContainer) :
    DioAccepted data i ↔ MetricOk data i := by
  rw [DioAccepted, if_pos htype]

/-- The head of a metric container, and what is made of it. -/
theorem at_metricHead {mc : MetricContainer} (obj : MetricObject) (hfits : mc.Fits)
    (hnone : mc.type ≠ dagMcNone)
    (h : At data i [optionDagMetricContainer, 6, mc.type, mc.flags >>> 1,
      (mc.flags &&& 1) <<< 7 ||| (mc.aggr <<< 4 ||| mc.prec), 2]) :
    (optionLen data i : ℕ) = 8 ∧ data i = optionDagMetricContainer ∧ data (i + 2) = mc.type ∧
      metricContainer data i obj =
        { type := mc.type, flags := mc.flags, aggr := mc.aggr, prec := mc.prec, length := 2
          obj :=
            if mc.type = dagMcEtx then .etx (word16 data (i + 6))
            else .energy (data (i + 6)) (data (i + 7)) } := by
  simp only [at_cons, Nat.add_assoc, Nat.reduceAdd] at h
  obtain ⟨htype, hlen, hmc, h3, h4, h5, -⟩ := h
  obtain ⟨hflags, haggr, hprec⟩ := metric_join hfits.aggr hfits.prec h4
  refine ⟨optionLen_of_ne htype (by decide) hlen, htype, hmc, ?_⟩
  rw [metricContainer, hmc, h3, h5, hflags, haggr, hprec, if_neg hnone]

/-- The metric container is taken, and gives that of the sender. -/
theorem at_dioMetricBytes (dio : Dio) {mc : MetricContainer} {bytes : List UInt8}
    (hfits : mc.Fits) (hnone : mc.type ≠ dagMcNone) (hbytes : dioMetricBytes mc = some bytes)
    (h : At data i bytes) :
    bytes.length = 8 ∧ (optionLen data i : ℕ) = 8 ∧ DioWellFormed data (i + 8) i ∧
      dioApply data i dio = { dio with mc := mc.sent } := by
  have hkind : mc.type = dagMcEtx ∨ mc.type = dagMcEnergy := by
    unfold dioMetricBytes at hbytes
    split at hbytes
    · next hetx => exact .inl hetx
    · split at hbytes
      · next henergy => exact .inr henergy
      · cases hbytes
  suffices hparts : bytes.length = 8 ∧ At data i [optionDagMetricContainer, 6, mc.type,
      mc.flags >>> 1, (mc.flags &&& 1) <<< 7 ||| (mc.aggr <<< 4 ||| mc.prec), 2] ∧
      (if mc.type = dagMcEtx then MetricObject.etx (word16 data (i + 6))
        else .energy (data (i + 6)) (data (i + 7))) = mc.sent.obj by
    obtain ⟨hlength, hhead, hobj⟩ := hparts
    obtain ⟨hoption, htype, hmc, hcontainer⟩ :=
      at_metricHead dio.mc.obj hfits hnone hhead
    refine ⟨hlength, hoption, ⟨?_, ?_, ?_⟩, ?_⟩
    · rw [hoption]
    · rw [dioAccepted_metric htype, MetricOk, hoption, hmc]
      exact ⟨by decide, .inr hkind⟩
    · rintro ⟨-, -, -, hshort⟩
      rw [hoption] at hshort
      exact absurd hshort (by decide)
    · rw [dioApply, if_pos htype, hcontainer, hobj]
      rfl
  unfold dioMetricBytes at hbytes
  unfold MetricContainer.sent
  rcases hkind with hetx | henergy
  · rw [if_pos hetx] at hbytes
    obtain rfl := Option.some.inj hbytes
    rw [if_pos hetx, if_pos hetx]
    simp only [List.cons_append, List.nil_append, at_cons, Nat.add_assoc, Nat.reduceAdd] at h ⊢
    obtain ⟨h0, h1, h2, h3, h4, h5, hobj⟩ := h
    exact ⟨rfl, ⟨h0, h1, h2, h3, h4, h5, at_nil data _⟩, by rw [at_set16 hobj]⟩
  · have hetx : mc.type ≠ dagMcEtx := by
      rw [henergy]
      decide
    rw [if_neg hetx, if_pos henergy] at hbytes
    obtain rfl := Option.some.inj hbytes
    rw [if_neg hetx, if_neg hetx]
    simp only [List.cons_append, List.nil_append, at_cons, Nat.add_assoc, Nat.reduceAdd] at h ⊢
    obtain ⟨h0, h1, h2, h3, h4, h5, hflags, hest, hnil⟩ := h
    exact ⟨rfl, ⟨h0, h1, h2, h3, h4, h5, at_nil data _⟩, by rw [hflags, hest]⟩

/-- The fixed part of a DIO gives the state of the DAG. -/
theorem at_dioBaseBytes {cfg : Defaults} {leafOnly : Bool} (hmop : inst.mop &&& 0x07 = inst.mop)
    (h : At data 0 (dioBaseBytes leafOnly inst)) :
    dioBase data cfg =
      { dagId := Memory.store zeros 0 inst.dag.dagId.u8
        rank := if leafOnly then infiniteRank else inst.dag.rank
        version := inst.dag.version
        instanceId := inst.instanceId
        dtsn := inst.dtsnOut
        grounded := if inst.dag.grounded ≠ 0 then dioGrounded else 0
        mop := inst.mop
        preference := inst.dag.preference &&& dioPreferenceMask
        dagIntdoubl := cfg.dioIntervalDoublings
        dagIntmin := cfg.dioIntervalMin
        dagRedund := cfg.dioRedundancy
        dagMinHoprankinc := cfg.minHoprankinc
        dagMaxRankinc := cfg.maxRankinc
        ocp := cfg.ofOcp
        defaultLifetime := cfg.defaultLifetime
        lifetimeUnit := cfg.defaultLifetimeUnit } := by
  simp only [dioBaseBytes, List.append_assoc, at_append, at_cons, length_set16, List.cons_append,
    List.nil_append, Nat.reduceAdd, Nat.zero_add] at h
  obtain ⟨hid, hversion, hrank, hmode, hdtsn, -, -, hdag⟩ := h
  have hground : (if inst.dag.grounded ≠ 0 then dioGrounded else 0) &&& 0x80 =
      if inst.dag.grounded ≠ 0 then dioGrounded else 0 := by
    split <;> decide
  obtain ⟨hgrounded, hmode', hpreference⟩ := mode_join hground hmop hmode
  have haddr : Memory.load data 8 16 = inst.dag.dagId.u8 := by
    rw [At, inst.dag.dagId.length_u8] at hdag
    exact hdag
  rw [dioBase, haddr, at_set16 hrank, hversion, hid, hdtsn]
  congr 1

/-- What a node advertises. -/
def CurrInstance.advertised (inst : CurrInstance) (leafOnly : Bool) : Dio where
  dagId := Memory.store zeros 0 inst.dag.dagId.u8
  rank := if leafOnly then infiniteRank else inst.dag.rank
  version := inst.dag.version
  instanceId := inst.instanceId
  dtsn := inst.dtsnOut
  grounded := if inst.dag.grounded ≠ 0 then dioGrounded else 0
  mop := inst.mop
  preference := inst.dag.preference &&& dioPreferenceMask
  dagIntdoubl := inst.dioIntdoubl
  dagIntmin := inst.dioIntmin
  dagRedund := inst.dioRedundancy
  dagMaxRankinc := inst.maxRankinc
  dagMinHoprankinc := inst.minHoprankinc
  ocp := inst.ocp
  defaultLifetime := inst.defaultLifetime
  lifetimeUnit := inst.lifetimeUnit
  prefixInfo :=
    if 0 < inst.dag.prefixInfo.length then
      { inst.dag.prefixInfo with
        addr := Memory.store zeros 0 (Memory.load inst.dag.prefixInfo.addr 0 16) }
    else {}
  mc := if !leafOnly ∧ inst.mc.type ≠ dagMcNone then inst.mc.sent else {}

theorem DioWellFormed.mono {m : ℕ} (h : DioWellFormed data n i) (hle : n ≤ m) :
    DioWellFormed data m i := ⟨Nat.le_trans h.fits hle, h.accepted, h.object⟩

/-- A payload with well-formed options is clear, and they are all taken. -/
theorem run_dioInput_of_items {cfg : Defaults} (hbase : 24 ≤ n) (hlt : n < 256)
    (h : Items (DioWellFormed data n) (optionLen data) (dioApply data) 24 (dioBase data cfg)
      n dio) :
    DioInside cfg data n ∧ (dioInput cfg n).run data = some (n, dio) := by
  have hmod : n % 256 = n := Nat.mod_eq_of_lt hlt
  constructor
  · refine dioInside_iff.2 ⟨hbase, fun i hlead hi hpad => ?_, fun i hlead hi _ hshort => ?_,
      fun _ => ⟨hlt, fun i hlead hi => (h.ok_of_items hlead hi).object⟩⟩
    · have hfits := (h.ok_of_items hlead (hmod ▸ hi)).fits
      have htwo := two_le_optionLen hpad
      omega
    · exact absurd hshort (h.ok_of_items hlead (hmod ▸ hi)).object
  · refine run_dioInput.2 ⟨Nat.le_of_eq hmod, h.imp fun k _ hk hformed => ?_⟩
    have hfits := hformed.fits
    exact ⟨by omega, by omega, hformed.accepted⟩

/-- An option behind which the rest follows. -/
theorem Items.cons_option {k m : ℕ} {dio' : Dio} (hlen : (optionLen data i : ℕ) = k)
    (hformed : DioWellFormed data (i + k) i) (hle : i + k ≤ n)
    (hrest : Items (DioWellFormed data n) (optionLen data) (dioApply data) (i + k)
      (dioApply data i dio) m dio') :
    Items (DioWellFormed data n) (optionLen data) (dioApply data) i dio m dio' := by
  refine .cons (hformed.mono hle) ?_
  rw [hlen]
  exact hrest

/-- The prefix option, if there is one, ends the message. -/
theorem items_dioPrefixBytes {dio : Dio} (hinfo : dio.prefixInfo = {})
    (h : At data i (dioPrefixBytes inst.dag.prefixInfo))
    (hn : n = i + (dioPrefixBytes inst.dag.prefixInfo).length) :
    Items (DioWellFormed data n) (optionLen data) (dioApply data) i dio n
      { dio with prefixInfo := (inst.advertised true).prefixInfo } := by
  unfold CurrInstance.advertised
  by_cases hlen : 0 < inst.dag.prefixInfo.length
  · obtain ⟨hoption, hformed, happly⟩ := at_dioPrefixBytes dio hlen h
    have hend : n = i + 32 := by
      rw [hn, dioPrefixBytes, if_pos hlen]
      simp [length_set32]
    rw [if_pos hlen]
    subst hend
    refine Items.cons_option hoption hformed (Nat.le_refl _) ?_
    rw [happly, hinfo]
    exact .nil _ _
  · have hend : n = i := by rw [hn, dioPrefixBytes, if_neg hlen]; rfl
    rw [if_neg hlen, hend, ← hinfo]
    exact .nil _ _

theorem length_dioBaseBytes (leafOnly : Bool) : (dioBaseBytes leafOnly inst).length = 24 := by
  simp [dioBaseBytes, length_set16, inst.dag.dagId.length_u8]

theorem length_dioPrefixBytes_le (info : PrefixInfo) : (dioPrefixBytes info).length ≤ 32 := by
  unfold dioPrefixBytes
  split <;> simp [length_set32]

/-- A DIO that is sent is clear for the receiver, who takes what the sender advertises. -/
theorem dioInput_dioOutput (cfg : Defaults) {leafOnly unicast : Bool} {bytes : List UInt8}
    (hmop : inst.mop &&& 0x07 = inst.mop) (hmc : inst.mc.Fits)
    (hbytes : dioOutput leafOnly unicast inst = some bytes) (hdata : At data 0 bytes) :
    DioInside cfg data bytes.length ∧
      (dioInput cfg bytes.length).run data =
        some (bytes.length, inst.advertised leafOnly) := by
  unfold dioOutput at hbytes
  split at hbytes
  · cases hbytes
  · obtain ⟨metric, hmetric, rfl⟩ := Option.map_eq_some_iff.1 hbytes
    simp only [at_append, List.length_append, length_dioBaseBytes, length_dioConfBytes,
      Nat.zero_add] at hdata
    obtain ⟨⟨⟨hbase, hdmetric⟩, hconf⟩, hprefix⟩ := hdata
    have hprefixlen := length_dioPrefixBytes_le inst.dag.prefixInfo
    simp only [List.length_append, length_dioBaseBytes, length_dioConfBytes]
    generalize hn : 24 + metric.length + 16 + (dioPrefixBytes inst.dag.prefixInfo).length = n
    obtain ⟨hoption, hformed, happly⟩ := at_dioConfBytes
      { dioBase data cfg with mc := (inst.advertised leafOnly).mc } hconf
    -- the configuration and the prefix follow what stands before them
    have htail : Items (DioWellFormed data n) (optionLen data) (dioApply data)
        (24 + metric.length) { dioBase data cfg with mc := (inst.advertised leafOnly).mc } n
        (inst.advertised leafOnly) := by
      refine Items.cons_option hoption hformed (by omega) ?_
      rw [happly, at_dioBaseBytes hmop hbase]
      exact items_dioPrefixBytes rfl hprefix hn.symm
    suffices hitems : metric.length ≤ 8 ∧ Items (DioWellFormed data n) (optionLen data)
        (dioApply data) 24 (dioBase data cfg) n (inst.advertised leafOnly) by
      exact run_dioInput_of_items (by omega) (by omega) hitems.2
    unfold dioMetricPart at hmetric
    by_cases hsent : (!leafOnly) = true ∧ inst.mc.type ≠ dagMcNone
    · rw [if_pos hsent] at hmetric
      obtain ⟨hmlen, hmoption, hmformed, hmapply⟩ :=
        at_dioMetricBytes (dioBase data cfg) hmc hsent.2 hmetric hdmetric
      refine ⟨by omega, Items.cons_option hmoption hmformed (by omega) ?_⟩
      have hmcs : (inst.advertised leafOnly).mc = inst.mc.sent := if_pos hsent
      rw [hmlen, hmcs] at htail
      rw [hmapply]
      exact htail
    · rw [if_neg hsent] at hmetric
      obtain rfl := Option.some.inj hmetric
      have hmcs : (inst.advertised leafOnly).mc = {} := if_neg hsent
      rw [hmcs] at htail
      exact ⟨Nat.zero_le 8, htail⟩

/-! ## DAO and DAO-ACK -/

/-- What a node announces to the root. -/
def CurrInstance.announced (inst : CurrInstance) (withDaoAck : Bool) (target parent : Ipaddr)
    (lifetime : UInt8) : Dao where
  parentAddr := Memory.store zeros 0 (inst.dag.dagId.withLinkId parent.linkId).u8
  addr := Memory.store zeros 0 target.u8
  sequence := inst.dag.daoLastSeqno.toUInt16
  instanceId := inst.instanceId
  lifetime := lifetime
  prefixlen := 128
  flags := if withDaoAck ∧ lifetime ≠ 0 then daoKFlag else 0

variable {curr : CurrInstance}

/-- A payload with well-formed options is clear, and a receiver that knows the instance takes
them all. -/
theorem run_daoInput_of_items {dao : Dao} (hstart : optionsStart data ≤ n) (hlt : n < 256)
    (hdag : SameDag curr data)
    (h : Items (DaoWellFormed data n) (optionLen data) (daoApply data) (optionsStart data)
      (daoBase data curr) n dao) :
    DaoInside curr data n ∧
      (Known curr data → (daoInput curr n).run data = some (n, dao)) := by
  have hmod : n % 256 = n := Nat.mod_eq_of_lt hlt
  have hfour : 4 ≤ optionsStart data := by
    unfold optionsStart
    split <;> decide
  have hbelow {k : ℕ} (hk : k < n) : k < n % 256 := hmod.symm ▸ hk
  constructor
  · refine daoInside_iff.2 ⟨by omega, fun _ => hstart, fun _ _ => ?_⟩
    have hitems : Items (fun k => k < n % 256 ∧ DaoWellFormed data n k) (optionLen data)
        (daoApply data) (optionsStart data) (daoBase data curr) n dao :=
      h.imp fun k _ hk hformed => ⟨hbelow hk, hformed⟩
    exact hitems.leads
  · intro hknown
    refine run_daoInput.2 ⟨⟨hknown, hdag⟩, Nat.le_of_eq hmod, h.imp fun k _ hk _ => ?_⟩
    exact ⟨hbelow hk, trivial⟩

section

variable {target parentAddr : Ipaddr} {lifetime flags : UInt8}

/-- The bytes of a DAO, with the address of the parent put together. -/
theorem at_daoBytes (h : At data 0 ([inst.instanceId, flags, 0, inst.dag.daoLastSeqno,
      optionTarget, 18, 0, 128] ++ target.u8 ++ [optionTransit, 20, 0, 0, 0, lifetime] ++
      inst.dag.dagId.u8.take 8 ++ parentAddr.u8.drop 8)) :
    (data 0 = inst.instanceId ∧ data 1 = flags ∧ data 3 = inst.dag.daoLastSeqno) ∧
      (data 4 = optionTarget ∧ data 5 = 18 ∧ data 7 = 128 ∧
        Memory.load data 8 16 = target.u8) ∧
      data 24 = optionTransit ∧ data 25 = 20 ∧ data 29 = lifetime ∧
        Memory.load data 30 16 = (inst.dag.dagId.withLinkId parentAddr.linkId).u8 := by
  rw [List.append_assoc _ (inst.dag.dagId.u8.take 8), at_append, at_append, at_append] at h
  simp only [List.length_append, List.length_cons, List.length_nil, target.length_u8, at_cons,
    Nat.reduceAdd, Nat.zero_add] at h
  obtain ⟨⟨⟨⟨hid, hflags, -, hseq, htype, hlen, -, hbits, -⟩, haddr⟩, ⟨htransit, htlen, -, -, -,
    hlife, -⟩⟩, hparent⟩ := h
  have hlength : (inst.dag.dagId.u8.take 8 ++ parentAddr.u8.drop 8).length = 16 :=
    (inst.dag.dagId.withLinkId parentAddr.linkId).length_u8
  rw [At, target.length_u8] at haddr
  rw [At, hlength] at hparent
  exact ⟨⟨hid, hflags, hseq⟩, ⟨htype, hlen, hbits, haddr⟩, htransit, htlen, hlife, hparent⟩

/-- The target and the transit option are well formed, and give what the sender announces. -/
theorem items_daoBytes (dao : Dao) (htype : data 4 = optionTarget) (hlen : data 5 = 18)
    (hbits : data 7 = 128) (haddr : Memory.load data 8 16 = target.u8)
    (htransit : data 24 = optionTransit) (htlen : data 25 = 20) (hlife : data 29 = lifetime)
    (hparent : Memory.load data 30 16 = parentAddr.u8) (hzero : dao.parentAddr = zeros) :
    Items (DaoWellFormed data 46) (optionLen data) (daoApply data) 4 dao 46
      { dao with
        prefixlen := 128
        addr := Memory.store zeros 0 target.u8
        lifetime := lifetime
        parentAddr := Memory.store zeros 0 parentAddr.u8 } := by
  have hfirst : (optionLen data 4 : ℕ) = 20 := optionLen_of_ne htype (by decide) hlen
  have hsecond : (optionLen data 24 : ℕ) = 22 := optionLen_of_ne htransit (by decide) htlen
  refine .cons ⟨by omega, fun _ => ?_, fun h => absurd (htype.symm.trans h) (by decide)⟩ ?_
  · rw [hfirst, hbits]
    decide
  rw [hfirst]
  change Items _ _ _ 24 _ 46 _
  refine .cons ⟨by omega, fun h => absurd (htransit.symm.trans h) (by decide), fun _ => ?_⟩ ?_
  · rw [hsecond]
    decide
  rw [hsecond]
  change Items _ _ _ 46 _ 46 _
  have htarget : daoApply data 4 dao =
      { dao with prefixlen := 128, addr := Memory.store zeros 0 target.u8 } := by
    have hbytes : prefixBytes 128 = 16 := by decide
    rw [daoApply, if_pos htype, hbits, hbytes, haddr]
  have happly (dao' : Dao) (hdao' : dao'.parentAddr = zeros) : daoApply data 24 dao' =
      { dao' with lifetime := lifetime, parentAddr := Memory.store zeros 0 parentAddr.u8 } := by
    rw [daoApply, if_neg (htransit ▸ by decide), if_pos htransit, hlife, hsecond,
      if_pos (by decide), hdao', hparent]
  rw [htarget, happly { dao with prefixlen := 128, addr := Memory.store zeros 0 target.u8 } hzero]
  exact .nil _ _

end

/-- A DAO that is sent is clear for the receiver. If the receiver is in the instance, it takes what
the sender announces; the address of the parent is in the network of the DAG. -/
theorem daoInput_daoOutput (curr : CurrInstance) {withDaoAck : Bool}
    {globalAddress parent : Option Ipaddr} {lifetime : UInt8} {bytes : List UInt8}
    (hbytes : daoOutput withDaoAck inst globalAddress parent lifetime = some bytes)
    (hdata : At data 0 bytes) :
    ∃ target parentIpaddr, globalAddress = some target ∧ parent = some parentIpaddr ∧
      DaoInside curr data bytes.length ∧
      (curr.used = true → curr.instanceId = inst.instanceId →
        (daoInput curr bytes.length).run data =
          some (bytes.length, inst.announced withDaoAck target parentIpaddr lifetime)) := by
  obtain ⟨target, rfl, hrest⟩ := Option.bind_eq_some_iff.1 hbytes
  obtain ⟨parentIpaddr, rfl, hrest⟩ := Option.bind_eq_some_iff.1 hrest
  refine ⟨target, parentIpaddr, rfl, rfl, ?_⟩
  split at hrest
  · cases hrest
  · obtain rfl := Option.some.inj hrest
    obtain ⟨⟨hid, hflags, hseq⟩, ⟨htype, hlen, hbits, haddr⟩, htransit, htlen, hlife, hparent⟩ :=
      at_daoBytes hdata
    have hlength : ([inst.instanceId, if withDaoAck = true ∧ lifetime ≠ 0 then daoKFlag else 0, 0,
        inst.dag.daoLastSeqno, optionTarget, 18, 0, 128] ++ target.u8 ++
        [optionTransit, 20, 0, 0, 0, lifetime] ++ inst.dag.dagId.u8.take 8 ++
        parentIpaddr.u8.drop 8).length = 46 := by
      simp [target.length_u8, inst.dag.dagId.length_u8, parentIpaddr.length_u8]
    rw [hlength]
    have hflag : ¬ DFlag data := by
      rw [DFlag, hflags]
      split <;> decide
    have hstart : optionsStart data = 4 := if_neg hflag
    have hitems := items_daoBytes (daoBase data curr) htype hlen hbits haddr htransit htlen hlife
      hparent rfl
    rw [← hstart] at hitems
    obtain ⟨hinside, hrun⟩ := run_daoInput_of_items (by omega) (by omega)
      (fun h => absurd h hflag) hitems
    refine ⟨hinside, fun hused hsame => ?_⟩
    rw [hrun ⟨hused, hsame.trans hid.symm⟩, daoBase, hid, hflags, hseq]
    rfl

/-- A DAO-ACK that is sent is clear, and is handed over in its instance. -/
theorem daoAckInput_daoAckOutput {sequence status : UInt8}
    (hdata : At data 0 (daoAckOutput inst sequence status)) :
    (ReadsBelow data 4 (daoAckInput curr) ∧ WritesBelow data 0 (daoAckInput curr)) ∧
      (curr.used = true → curr.instanceId = inst.instanceId →
        (daoAckInput curr).run data = some (sequence, status)) := by
  refine ⟨daoAck_inside_iff.2 (Nat.le_refl 4), fun hused hsame => ?_⟩
  simp only [daoAckOutput, at_cons, Nat.reduceAdd, Nat.zero_add] at hdata
  obtain ⟨hid, -, hseq, hstatus, -⟩ := hdata
  have hknown : curr.used = true ∧ curr.instanceId = data 0 := ⟨hused, hsame.trans hid.symm⟩
  have hrun : (daoAckInput curr).run data = some (data 2, data 3) := by
    rw [daoAckInput]
    simp [run_require, hknown]
  rw [hrun, hseq, hstatus]

end

/-- A control message that a node sends is clear for every receiver, and is taken as it was sent: a
DIO gives what the sender advertises and a DAO what it announces, a DAO-ACK its sequence number and
its status. The mode of operation and the metric container of the sender of a DIO fit into their
fields; DAOs and DAO-ACKs are for receivers in the instance. -/
theorem controlMessage_readBack (cfg : Defaults) (inst curr : CurrInstance) (data : ℕ → UInt8) :
    (∀ leafOnly unicast bytes, inst.mop &&& 0x07 = inst.mop → inst.mc.Fits →
        dioOutput leafOnly unicast inst = some bytes → At data 0 bytes →
        DioInside cfg data bytes.length ∧
          (dioInput cfg bytes.length).run data =
            some (bytes.length, inst.advertised leafOnly)) ∧
      (∀ withDaoAck globalAddress parent lifetime bytes,
        daoOutput withDaoAck inst globalAddress parent lifetime = some bytes → At data 0 bytes →
        ∃ target parentIpaddr, globalAddress = some target ∧ parent = some parentIpaddr ∧
          DaoInside curr data bytes.length ∧
          (curr.used = true → curr.instanceId = inst.instanceId →
            (daoInput curr bytes.length).run data =
              some (bytes.length, inst.announced withDaoAck target parentIpaddr lifetime))) ∧
      ∀ sequence status, At data 0 (daoAckOutput inst sequence status) →
        (ReadsBelow data 4 (daoAckInput curr) ∧ WritesBelow data 0 (daoAckInput curr)) ∧
          (curr.used = true → curr.instanceId = inst.instanceId →
            (daoAckInput curr).run data = some (sequence, status)) :=
  ⟨fun _ _ _ hmop hmc hbytes hdata => dioInput_dioOutput cfg hmop hmc hbytes hdata,
    fun _ _ _ _ _ hbytes hdata => daoInput_daoOutput curr hbytes hdata,
    fun _ _ hdata => daoAckInput_daoAckOutput hdata⟩

/-- A node that advertises a metric container and a prefix. -/
def siteInstance : CurrInstance :=
  { nodeInstance with
    mc := { type := dagMcEtx, flags := 5, aggr := 2, prec := 3, length := 2, obj := .etx 0x180 }
    ocp := 1
    mop := 1
    dtsnOut := 240
    minHoprankinc := 128
    dag := { nodeInstance.dag with
      rank := 0x203
      prefixInfo := ⟨fun i => [0xfd, 0, 0, 1].getD i 0, 3600, 64, 0x40⟩ } }

/-- Its own address and that of its parent. -/
def siteAddress (host : UInt8) : Ipaddr := ⟨0xfd :: (List.replicate 14 0 ++ [host]), rfl⟩

theorem controlMessage_readBack_siteInstance :
    (∃ bytes, dioOutput false true siteInstance = some bytes ∧
      (dioInput {} bytes.length).run (payload bytes) =
        some (bytes.length, siteInstance.advertised false)) ∧
    (∃ bytes, daoOutput true siteInstance (some (siteAddress 2)) (some (siteAddress 1)) 30 =
        some bytes ∧ (daoInput siteInstance bytes.length).run (payload bytes) =
          some (bytes.length, siteInstance.announced true (siteAddress 2) (siteAddress 1) 30)) ∧
    (daoAckInput siteInstance).run (payload (daoAckOutput siteInstance 7 0)) = some (7, 0) := by
  have hfits : siteInstance.mc.Fits := ⟨rfl, rfl⟩
  refine ⟨⟨_, rfl, ((controlMessage_readBack {} siteInstance siteInstance _).1 false true _ rfl hfits
    rfl (at_payload _)).2⟩, ⟨_, rfl, ?_⟩, ?_⟩
  · obtain ⟨_, _, ⟨⟩, ⟨⟩, -, hrun⟩ := (controlMessage_readBack {} siteInstance siteInstance _).2.1
      true (some (siteAddress 2)) (some (siteAddress 1)) 30 _ rfl (at_payload _)
    exact hrun rfl rfl
  · exact ((controlMessage_readBack {} siteInstance siteInstance _).2.2 7 0 (at_payload _)).2 rfl rfl

end Den2ne.Rpl.Icmp6
