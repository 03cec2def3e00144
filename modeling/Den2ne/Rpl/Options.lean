import Den2ne.Reads.Bounded
import Den2ne.Rpl.Icmp6

/-!
# The options of RPL control messages

What the options of a DIO and of a DAO are, and what each of them does to the message. An option
of a DIO is accepted if the function finds nothing wrong with it; a metric container may be
accepted although it is too short for its object. `WellFormed` are the options that end in the
payload and hold what is taken from them.
-/

namespace Den2ne.Rpl.Icmp6

open Reads Reads.Transfer

section

variable (data : ℕ → UInt8)

/-- Two bytes as a number, and four bytes. -/
def word16 (pos : ℕ) : UInt16 := (data pos).toUInt16 <<< 8 ||| (data (pos + 1)).toUInt16

def word32 (pos : ℕ) : UInt32 :=
  (data pos).toUInt32 <<< 24 ||| (data (pos + 1)).toUInt32 <<< 16 |||
    (data (pos + 2)).toUInt32 <<< 8 ||| (data (pos + 3)).toUInt32

/-- The length of the option at `i`, with its header. -/
def optionLen (i : ℕ) : ℕ+ :=
  if data i = optionPad1 then Nat.toPNat 1 Nat.one_pos
  else Nat.toPNat (2 + (data (i + 1)).toNat) (by omega)

/-! ## DIO -/

def MetricOk (i : ℕ) : Prop :=
  6 ≤ (optionLen data i : ℕ) ∧
    (data (i + 2) = dagMcNone ∨ data (i + 2) = dagMcEtx ∨ data (i + 2) = dagMcEnergy)

def RouteOk (i : ℕ) : Prop :=
  9 ≤ (optionLen data i : ℕ) ∧ prefixBytes (data (i + 2)) + 8 ≤ (optionLen data i : ℕ) ∧
    (data (i + 2)).toNat ≤ 128

/-- A DIO may have the option at `i`. -/
def DioAccepted (i : ℕ) : Prop :=
  if data i = optionDagMetricContainer then MetricOk data i
  else if data i = optionRouteInfo then RouteOk data i
  else if data i = optionDagConf then (optionLen data i : ℕ) = 16
  else data i = optionPrefixInfo ∧ (optionLen data i : ℕ) = 32

/-- A metric container that is too short for its object. -/
def Short (i : ℕ) : Prop :=
  data i = optionDagMetricContainer ∧ MetricOk data i ∧ data (i + 2) ≠ dagMcNone ∧
    (optionLen data i : ℕ) < 8

/-- The option at `i` ends in a payload of `n` bytes, and holds what a DIO takes from it. -/
structure DioWellFormed (n i : ℕ) : Prop where
  fits : i + optionLen data i ≤ n
  accepted : DioAccepted data i
  object : ¬ Short data i

def metricContainer (i : ℕ) (obj : MetricObject) : MetricContainer where
  type := data (i + 2)
  flags := data (i + 3) <<< 1 ||| data (i + 4) >>> 7
  aggr := data (i + 4) >>> 4 &&& 0x3
  prec := data (i + 4) &&& 0xf
  length := data (i + 5)
  obj :=
    if data (i + 2) = dagMcNone then obj
    else if data (i + 2) = dagMcEtx then .etx (word16 data (i + 6))
    else .energy (data (i + 6)) (data (i + 7))

/-- What the option at `i` does to the message. -/
def dioApply (i : ℕ) (dio : Dio) : Dio :=
  if data i = optionDagMetricContainer then { dio with mc := metricContainer data i dio.mc.obj }
  else if data i = optionRouteInfo then
    { dio with
      destinationPrefix :=
        { addr := Memory.store dio.destinationPrefix.addr 0
            (Memory.load data (i + 8) (prefixBytes (data (i + 2))))
          lifetime := word32 data (i + 4)
          length := data (i + 2)
          flags := data (i + 3) } }
  else if data i = optionDagConf then
    { dio with
      dagIntdoubl := data (i + 3)
      dagIntmin := data (i + 4)
      dagRedund := data (i + 5)
      dagMaxRankinc := word16 data (i + 6)
      dagMinHoprankinc := word16 data (i + 8)
      ocp := word16 data (i + 10)
      defaultLifetime := data (i + 13)
      lifetimeUnit := word16 data (i + 14) }
  else
    { dio with
      prefixInfo :=
        { addr := Memory.store dio.prefixInfo.addr 0 (Memory.load data (i + 16) 16)
          lifetime := word32 data (i + 8)
          length := data (i + 2)
          flags := data (i + 3) } }

/-- The message before its options. -/
def dioBase (cfg : Defaults) : Dio where
  dagId := Memory.store zeros 0 (Memory.load data 8 16)
  rank := word16 data 2
  version := data 1
  instanceId := data 0
  dtsn := data 5
  grounded := data 4 &&& dioGrounded
  mop := (data 4 &&& dioMopMask) >>> 3
  preference := data 4 &&& dioPreferenceMask
  dagIntdoubl := cfg.dioIntervalDoublings
  dagIntmin := cfg.dioIntervalMin
  dagRedund := cfg.dioRedundancy
  dagMinHoprankinc := cfg.minHoprankinc
  dagMaxRankinc := cfg.maxRankinc
  ocp := cfg.ofOcp
  defaultLifetime := cfg.defaultLifetime
  lifetimeUnit := cfg.defaultLifetimeUnit

/-! ## DAO -/

/-- The option at `i` ends in a payload of `n` bytes, and holds what a DAO takes from it. -/
structure DaoWellFormed (n i : ℕ) : Prop where
  fits : i + optionLen data i ≤ n
  target : data i = optionTarget →
    4 + prefixBytes (data (i + 3)) ≤ (optionLen data i : ℕ) ∧ (data (i + 3)).toNat ≤ 128
  transit : data i = optionTransit →
    6 ≤ (optionLen data i : ℕ) ∧ (20 ≤ (optionLen data i : ℕ) → 22 ≤ (optionLen data i : ℕ))

/-- What the option at `i` does to the message. -/
def daoApply (i : ℕ) (dao : Dao) : Dao :=
  if data i = optionTarget then
    { dao with
      prefixlen := data (i + 3)
      addr := Memory.store zeros 0 (Memory.load data (i + 4) (prefixBytes (data (i + 3)))) }
  else if data i = optionTransit then
    { dao with
      lifetime := data (i + 5)
      parentAddr :=
        if 20 ≤ (optionLen data i : ℕ) then
          Memory.store dao.parentAddr 0 (Memory.load data (i + 6) 16)
        else dao.parentAddr }
  else dao

/-- The message before its options. -/
def daoBase (curr : CurrInstance) : Dao where
  instanceId := data 0
  flags := data 1
  sequence := (data 3).toUInt16
  parentAddr := zeros
  addr := zeros
  lifetime := curr.defaultLifetime
  prefixlen := 0

end

variable {data : ℕ → UInt8} {n m i e : ℕ}

/-! ## Reading -/

theorem safe_get16 {pos : ℕ} (h : pos + 2 ≤ n) :
    Safe data n m (get16 pos) True (word16 data pos) :=
  (Safe.get (by omega)).seq ((Safe.get (by omega)).seq (Safe.done _))

theorem safe_get32 {pos : ℕ} (h : pos + 4 ≤ n) :
    Safe data n m (get32 pos) True (word32 data pos) :=
  (Safe.get (by omega)).seq ((Safe.get (by omega)).seq
    ((Safe.get (by omega)).seq ((Safe.get (by omega)).seq (Safe.done _))))

theorem safe_memcpy {field : ℕ → UInt8} {src k : ℕ} (hsrc : src + k ≤ n) (hdst : k ≤ m) :
    Safe data n m (memcpy field src k) True
      (Memory.store field 0 (Memory.load data src k)) := by
  refine (Safe.gets hsrc).seq ((Safe.puts ?_).seq (Safe.done _))
  rw [Memory.length_load]
  omega

theorem two_le_optionLen (h : data i ≠ optionPad1) : 2 ≤ (optionLen data i : ℕ) := by
  rw [optionLen, if_neg h]
  exact Nat.le_add_right 2 _

theorem safe_suboptLen (h : data i ≠ optionPad1 → i + 1 < n) :
    Safe data n m (suboptLen (data i) i) True (optionLen data i) := by
  unfold suboptLen optionLen
  split
  · exact Safe.done _
  · next hne => exact (Safe.get (h hne)).seq (Safe.done _)

/-! ## The options of a DIO -/

theorem safe_dioMetricContainer (dio : Dio) (htype : data i = optionDagMetricContainer)
    (hfits : i + optionLen data i ≤ n) (hobj : Short data i → i + 8 ≤ n) :
    Safe data n 16 (dioMetricContainer i (optionLen data i) dio) (MetricOk data i)
      { dio with mc := metricContainer data i dio.mc.obj } := by
  refine (Safe.require _).bind fun hlen => ?_
  refine (Safe.get (by omega)).seq ((Safe.get (by omega)).seq ?_)
  refine (Safe.get (by omega)).seq ((Safe.get (by omega)).seq ?_)
  have hroom (hok : MetricOk data i) (hne : data (i + 2) ≠ dagMcNone) : i + 8 ≤ n := by
    by_cases hlt : (optionLen data i : ℕ) < 8
    · exact hobj ⟨htype, hok, hne, hlt⟩
    · omega
  unfold metricContainer
  split
  · next hnone => exact (Safe.done _).congr (iff_of_true trivial (.inl hnone))
  · next hnone =>
      split
      · next hetx =>
          have hle := hroom ⟨hlen, .inr (.inl hetx)⟩ hnone
          refine Safe.congr ?_ (iff_of_true trivial (.inr (.inl hetx)))
          exact (safe_get16 (by omega)).seq (Safe.done _)
      · next hetx =>
          split
          · next henergy =>
              have hle := hroom ⟨hlen, .inr (.inr henergy)⟩ hnone
              refine Safe.congr ?_ (iff_of_true trivial (.inr (.inr henergy)))
              exact (Safe.get (by omega)).seq ((Safe.get (by omega)).seq (Safe.done _))
          · next henergy =>
              refine (Safe.fail _).congr (iff_of_false not_false ?_)
              rintro (h | h | h)
              · exact hnone h
              · exact hetx h
              · exact henergy h

theorem safe_dioRouteInfo (dio : Dio) (hfits : i + optionLen data i ≤ n) :
    Safe data n 16 (dioRouteInfo i (optionLen data i) dio) (RouteOk data i)
      { dio with
        destinationPrefix :=
          { addr := Memory.store dio.destinationPrefix.addr 0
              (Memory.load data (i + 8) (prefixBytes (data (i + 2))))
            lifetime := word32 data (i + 4)
            length := data (i + 2)
            flags := data (i + 3) } } := by
  refine (Safe.require _).bind fun hlen => ?_
  refine (Safe.get (by omega)).seq ((Safe.get (by omega)).seq ?_)
  refine (safe_get32 (by omega)).seq ((Safe.require _).check fun hok => ?_)
  refine (safe_memcpy (by omega) ?_).seq (Safe.done _)
  have hle := hok.2
  unfold prefixBytes
  omega

theorem safe_dioDagConf (dio : Dio) (hfits : i + optionLen data i ≤ n) :
    Safe data n 16 (dioDagConf i (optionLen data i) dio) ((optionLen data i : ℕ) = 16)
      { dio with
        dagIntdoubl := data (i + 3)
        dagIntmin := data (i + 4)
        dagRedund := data (i + 5)
        dagMaxRankinc := word16 data (i + 6)
        dagMinHoprankinc := word16 data (i + 8)
        ocp := word16 data (i + 10)
        defaultLifetime := data (i + 13)
        lifetimeUnit := word16 data (i + 14) } := by
  refine (Safe.require _).check fun hlen => ?_
  refine (Safe.get (by omega)).seq ((Safe.get (by omega)).seq ((Safe.get (by omega)).seq ?_))
  refine (safe_get16 (by omega)).seq ((safe_get16 (by omega)).seq ?_)
  refine (safe_get16 (by omega)).seq ((Safe.get (by omega)).seq ?_)
  exact (safe_get16 (by omega)).seq (Safe.done _)

theorem safe_dioPrefixInfo (dio : Dio) (hfits : i + optionLen data i ≤ n) :
    Safe data n 16 (dioPrefixInfo i (optionLen data i) dio) ((optionLen data i : ℕ) = 32)
      { dio with
        prefixInfo :=
          { addr := Memory.store dio.prefixInfo.addr 0 (Memory.load data (i + 16) 16)
            lifetime := word32 data (i + 8)
            length := data (i + 2)
            flags := data (i + 3) } } := by
  refine (Safe.require _).check fun hlen => ?_
  refine (Safe.get (by omega)).seq ((Safe.get (by omega)).seq ?_)
  exact (safe_get32 (by omega)).seq ((safe_memcpy (by omega) (Nat.le_refl 16)).seq (Safe.done _))

theorem safe_dioSubopt (dio : Dio) (hfits : i + optionLen data i ≤ n)
    (hobj : Short data i → i + 8 ≤ n) :
    Safe data n 16 (dioSubopt (data i) i (optionLen data i) dio) (DioAccepted data i)
      (dioApply data i dio) := by
  unfold dioSubopt DioAccepted dioApply
  split
  · next htype => exact safe_dioMetricContainer dio htype hfits hobj
  · split
    · exact safe_dioRouteInfo dio hfits
    · split
      · exact safe_dioDagConf dio hfits
      · split
        · next htype => exact (safe_dioPrefixInfo dio hfits).congr (and_iff_right htype).symm
        · next htype => exact (Safe.fail _).congr (iff_of_false not_false fun h => htype h.1)

/-- A round of the loop of `dio_input` takes an option that is accepted and ends in time. -/
theorem safe_dioOption (dio : Dio) (hlt : i < n) (hnext : data i ≠ optionPad1 → i + 1 < n)
    (hfits : optionLen data i + i ≤ e → i + optionLen data i ≤ n)
    (hobj : optionLen data i + i ≤ e → Short data i → i + 8 ≤ n) :
    Safe data n 16 (dioOption e i dio) (optionLen data i + i ≤ e ∧ DioAccepted data i)
      (optionLen data i, dioApply data i dio) := by
  refine (Safe.get hlt).seq ((safe_suboptLen hnext).seq ((Safe.require _).bind fun hle => ?_))
  exact (safe_dioSubopt dio (hfits hle) (hobj hle)).check fun _ => Safe.done _

theorem returns_dioOption (e i : ℕ) (dio : Dio) :
    Returns data (dioOption e i dio) (optionLen data i + i ≤ e ∧ DioAccepted data i)
      (optionLen data i, dioApply data i dio) :=
  (safe_dioOption (n := i + optionLen data i + 8) dio (by omega) (fun _ => by omega)
    (fun _ => by omega) fun _ _ => by omega).returns

theorem lt_of_readsBelow_suboptLen (h : ReadsBelow data n (suboptLen (data i) i))
    (hne : data i ≠ optionPad1) : i + 1 < n := by
  rw [suboptLen, if_neg hne] at h
  exact readsBelow_get.1 (readsBelow_bind.1 h).1

/-- The object of a metric container is read even if it is not in it. -/
theorem le_of_readsBelow_dioMetricContainer {len : ℕ} {dio : Dio} (hlen : 6 ≤ len)
    (hnone : data (i + 2) ≠ dagMcNone)
    (htype : data (i + 2) = dagMcEtx ∨ data (i + 2) = dagMcEnergy)
    (h : ReadsBelow data n (dioMetricContainer i len dio)) : i + 8 ≤ n := by
  have h := (readsBelow_bind.1 h).2 () (run_require_eq_some.2 hlen)
  have h := (readsBelow_bind.1 h).2 _ rfl
  have h := (readsBelow_bind.1 h).2 _ rfl
  have h := (readsBelow_bind.1 h).2 _ rfl
  have h := (readsBelow_bind.1 h).2 _ rfl
  dsimp only at h
  rw [if_neg hnone] at h
  rcases htype with hetx | henergy
  · rw [if_pos hetx] at h
    have h := (readsBelow_bind.1 h).1
    have h := (readsBelow_bind.1 h).2 _ rfl
    exact readsBelow_get.1 (readsBelow_bind.1 h).1
  · have hetx : data (i + 2) ≠ dagMcEtx := by
      rw [henergy]
      decide
    rw [if_neg hetx, if_pos henergy] at h
    have h := (readsBelow_bind.1 h).2 _ rfl
    exact readsBelow_get.1 (readsBelow_bind.1 h).1

theorem readsBelow_dioOption (dio : Dio) (hle : e ≤ n) :
    ReadsBelow data n (dioOption e i dio) ↔
      i < n ∧ (data i ≠ optionPad1 → i + 1 < n) ∧
        (optionLen data i + i ≤ e → Short data i → i + 8 ≤ n) := by
  constructor
  · intro h
    have hbyte := readsBelow_get.1 (readsBelow_bind.1 h).1
    have h := (readsBelow_bind.1 h).2 _ rfl
    have hnext := lt_of_readsBelow_suboptLen (readsBelow_bind.1 h).1
    refine ⟨hbyte, hnext, fun hfits hshort => ?_⟩
    obtain ⟨htype, ⟨hlen, hkind⟩, hnone, _⟩ := hshort
    have hsubopt : Safe data n 16 (suboptLen (data i) i) True (optionLen data i) :=
      safe_suboptLen hnext
    have h := (readsBelow_bind.1 h).2 _ (hsubopt.returns.run_eq trivial)
    have h := (readsBelow_bind.1 h).2 () (run_require_eq_some.2 hfits)
    have h := (readsBelow_bind.1 h).1
    rw [dioSubopt, if_pos htype] at h
    exact le_of_readsBelow_dioMetricContainer hlen hnone (hkind.resolve_left hnone) h
  · rintro ⟨hlt, hnext, hobj⟩
    exact (safe_dioOption dio hlt hnext (fun hfits => by omega) hobj).reads

theorem writesBelow_dioOption (dio : Dio) : WritesBelow data 16 (dioOption e i dio) :=
  (safe_dioOption (n := i + optionLen data i + 8) dio (by omega) (fun _ => by omega)
    (fun _ => by omega) fun _ _ => by omega).writes

/-! ## The options of a DAO -/

theorem safe_daoTarget (dao : Dao) (hsrc : i + 4 + prefixBytes (data (i + 3)) ≤ n)
    (hdst : prefixBytes (data (i + 3)) ≤ m) :
    Safe data n m (daoTarget i dao) True
      { dao with
        prefixlen := data (i + 3)
        addr := Memory.store zeros 0
          (Memory.load data (i + 4) (prefixBytes (data (i + 3)))) } :=
  (Safe.get (by omega)).seq ((safe_memcpy hsrc hdst).seq (Safe.done _))

theorem safe_daoTransit (dao : Dao) (hlen : i + 6 ≤ n)
    (haddr : 20 ≤ (optionLen data i : ℕ) → i + 22 ≤ n ∧ 16 ≤ m) :
    Safe data n m (daoTransit i (optionLen data i) dao) True
      { dao with
        lifetime := data (i + 5)
        parentAddr :=
          if 20 ≤ (optionLen data i : ℕ) then
            Memory.store dao.parentAddr 0 (Memory.load data (i + 6) 16)
          else dao.parentAddr } := by
  refine (Safe.get (by omega)).seq ?_
  split
  · next hlong =>
      obtain ⟨hsrc, hdst⟩ := haddr hlong
      exact (safe_memcpy (by omega) hdst).seq (Safe.done _)
  · exact Safe.done _

theorem safe_daoOption (dao : Dao) (hlt : i < n) (hnext : data i ≠ optionPad1 → i + 1 < n)
    (htarget : data i = optionTarget →
      i + 4 + prefixBytes (data (i + 3)) ≤ n ∧ prefixBytes (data (i + 3)) ≤ m)
    (htransit : data i = optionTransit →
      i + 6 ≤ n ∧ (20 ≤ (optionLen data i : ℕ) → i + 22 ≤ n ∧ 16 ≤ m)) :
    Safe data n m (daoOption i dao) True (optionLen data i, daoApply data i dao) := by
  refine (Safe.get hlt).seq ((safe_suboptLen hnext).seq ?_)
  suffices h : Safe data n m (daoSubopt (data i) i (optionLen data i) dao) True
      (daoApply data i dao) from h.seq (Safe.done _)
  unfold daoSubopt daoApply
  split
  · next htype => exact safe_daoTarget dao (htarget htype).1 (htarget htype).2
  · split
    · next htype => exact safe_daoTransit dao (htransit htype).1 (htransit htype).2
    · exact Safe.done _

theorem prefixBytes_le (l : UInt8) : prefixBytes l ≤ 32 := by
  have hlt := l.toNat_lt
  unfold prefixBytes
  omega

theorem prefixBytes_le_iff {l : UInt8} : prefixBytes l ≤ 16 ↔ l.toNat ≤ 128 := by
  unfold prefixBytes
  omega

theorem returns_daoOption (i : ℕ) (dao : Dao) :
    Returns data (daoOption i dao) True (optionLen data i, daoApply data i dao) := by
  have hbytes := prefixBytes_le (data (i + 3))
  exact (safe_daoOption (n := i + 36) (m := 32) dao (by omega) (fun _ => by omega)
    (fun _ => by omega) fun _ => by omega).returns

/-- An option of a DAO that is well formed is taken from the payload. -/
theorem DaoWellFormed.safe (h : DaoWellFormed data n i) (dao : Dao) :
    Safe data n 16 (daoOption i dao) True (optionLen data i, daoApply data i dao) := by
  have hfits := h.fits
  have hpos := (optionLen data i).pos
  refine safe_daoOption dao (by omega) (fun hne => ?_) (fun htype => ?_) fun htype => ?_
  · have htwo := two_le_optionLen hne
    omega
  · obtain ⟨hlen, hbits⟩ := h.target htype
    exact ⟨by omega, prefixBytes_le_iff.2 hbits⟩
  · obtain ⟨hlen, haddr⟩ := h.transit htype
    exact ⟨by omega, fun hlong => ⟨by have := haddr hlong; omega, Nat.le_refl 16⟩⟩

end Den2ne.Rpl.Icmp6
