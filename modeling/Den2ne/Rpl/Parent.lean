import Mathlib.Algebra.Order.Ring.Int
import Mathlib.Data.List.Basic

/-!
# RPL parents and rank

`rpl-neighbor.c`, `rpl-mrhof.c`, `rpl-of0.c` and `rpl_dag_update_state` of `rpl-dag.c`, without
metric containers. A neighbour is known by its address in memory; `Instance` is what an update
of the state reads, and `Dag` what it changes. Values of `rpl_rank_t` have 16 bits and are
computed in integers of 32 bits.
-/

namespace Den2ne

namespace Rpl

/-- The configuration that is compiled in. -/
structure Conf where
  withProbing : Bool
  sendNs : Bool
  squaredEtx : Bool
  maxLinkMetric : ℕ
  maxPathCost : ℕ
  timeThreshold : UInt32
  freshnessExpirationTime : UInt32
  significantChange : ℕ

/-- The objective functions. -/
inductive Of
  | mrhof
  | of0
deriving DecidableEq, Repr

/-- `struct link_stats`, what is read of it. -/
structure LinkStats where
  etx : UInt16
  lastTxTime : UInt32
  freshness : UInt8

/-- `curr_instance` but for the DAG, the table of the neighbours with the rank that each one
advertised, the link statistics, and which neighbours the IPv6 stack knows. -/
structure Instance where
  used : Bool
  objective : Of
  minHoprankinc : UInt16
  maxRankinc : UInt16
  neighbors : List ℕ
  rank : ℕ → UInt16
  linkStats : ℕ → Option LinkStats
  ds6Nbr : ℕ → Bool

/-- `enum rpl_dag_state`. -/
inductive DagState
  | initialized
  | joined
  | reachable
  | poisoning
deriving DecidableEq, Repr

/-- What an update asks the timers for. -/
inductive Request
  | unscheduleStateUpdate
  | dioReset
  | scheduleLeaving
  | unscheduleLeaving
  | scheduleDao
  | schedulePeriodicDis
  | probingNow
deriving DecidableEq, Repr

/-- `curr_instance.dag`, with the field of the neighbours that is changed and the requests to the
timers, the first one first. -/
structure Dag where
  state : DagState
  rank : UInt16
  lowestRank : UInt16
  lastAdvertisedRank : UInt16
  preferredParent : Option ℕ
  urgentProbingTarget : Option ℕ
  unprocessedParentSwitch : Bool
  betterParentSince : ℕ → UInt32
  requests : List Request

/-- `RPL_INFINITE_RANK`. -/
def infiniteRank : UInt16 := 0xFFFF

/-- The value, at most `0xffff`. -/
def saturate (x : ℕ) : UInt16 := UInt16.ofNat (min x 0xFFFF)

/-- `nbr_link_metric` of both objective functions. -/
def nbrLinkMetric (s : Instance) (nbr : ℕ) : UInt16 :=
  match s.linkStats nbr with
  | some stats => stats.etx
  | none => 0xFFFF

/-! ## MRHOF -/

namespace Mrhof

def linkMetricToRank (c : Conf) (etx : UInt16) : UInt16 :=
  if c.squaredEtx then saturate (etx.toNat * etx.toNat / 128) else etx

def nbrPathCost (c : Conf) (s : Instance) : Option ℕ → UInt16
  | none => 0xFFFF
  | some nbr => saturate ((s.rank nbr).toNat + (linkMetricToRank c (nbrLinkMetric s nbr)).toNat)

def rankViaNbr (c : Conf) (s : Instance) (nbr : ℕ) : UInt16 :=
  let bound := saturate ((s.rank nbr).toNat + s.minHoprankinc.toNat)
  let pathCost := nbrPathCost c s (some nbr)
  if pathCost < bound then bound else pathCost

def nbrHasUsableLink (c : Conf) (s : Instance) (nbr : ℕ) : Bool :=
  (nbrLinkMetric s nbr).toNat ≤ c.maxLinkMetric

def nbrIsAcceptableParent (c : Conf) (s : Instance) (nbr : ℕ) : Bool :=
  nbrHasUsableLink c s nbr && (nbrPathCost c s (some nbr)).toNat ≤ c.maxPathCost

/-- `RANK_THRESHOLD`. -/
def rankThreshold (c : Conf) : ℕ := if c.squaredEtx then 384 else 192

def withinHysteresis (c : Conf) (s : Instance) (now : UInt32) (d : Dag) (nbr : ℕ) : Bool :=
  ((nbrPathCost c s d.preferredParent).toNat < (nbrPathCost c s (some nbr)).toNat +
      rankThreshold c) &&
    (d.betterParentSince nbr == 0 || now - d.betterParentSince nbr ≤ c.timeThreshold)

def bestParent (c : Conf) (s : Instance) (now : UInt32) (d : Dag) (nbr₁ nbr₂ : Option ℕ) :
    Option ℕ :=
  match nbr₁.filter (nbrIsAcceptableParent c s), nbr₂.filter (nbrIsAcceptableParent c s) with
  | none, nbr₂ => nbr₂
  | nbr₁, none => nbr₁
  | some nbr₁, some nbr₂ =>
      if d.preferredParent = some nbr₁ ∧ withinHysteresis c s now d nbr₂ then some nbr₁
      else if d.preferredParent = some nbr₂ ∧ withinHysteresis c s now d nbr₁ then some nbr₂
      else if nbrPathCost c s (some nbr₁) < nbrPathCost c s (some nbr₂) then some nbr₁
      else some nbr₂

end Mrhof

/-! ## OF0 -/

namespace Of0

/-- `STEP_OF_RANK`. -/
def stepOfRank (s : Instance) (nbr : ℕ) : ℤ := 3 * (nbrLinkMetric s nbr).toNat / 128 - 2

/-- `(RANK_FACTOR * STEP_OF_RANK(nbr) + RANK_STRETCH) * min_hoprankinc`, returned in 16 bits. -/
def nbrRankIncrease (s : Instance) (nbr : ℕ) : UInt16 :=
  UInt16.ofInt ((1 * stepOfRank s nbr + 0) * s.minHoprankinc.toNat)

def nbrPathCost (s : Instance) (nbr : ℕ) : UInt16 :=
  saturate ((s.rank nbr).toNat + (nbrLinkMetric s nbr).toNat)

def rankViaNbr (s : Instance) (nbr : ℕ) : UInt16 :=
  saturate ((s.rank nbr).toNat + (nbrRankIncrease s nbr).toNat)

def nbrIsAcceptableParent (s : Instance) (nbr : ℕ) : Bool :=
  1 ≤ stepOfRank s nbr && stepOfRank s nbr ≤ 9

def bestParent (s : Instance) (d : Dag) (nbr₁ nbr₂ : Option ℕ) : Option ℕ :=
  match nbr₁.filter (nbrIsAcceptableParent s), nbr₂.filter (nbrIsAcceptableParent s) with
  | none, nbr₂ => nbr₂
  | nbr₁, none => nbr₁
  | some nbr₁, some nbr₂ =>
      if nbrPathCost s nbr₁ ≠ nbrPathCost s nbr₂ then
        if nbrPathCost s nbr₁ < nbrPathCost s nbr₂ then some nbr₁ else some nbr₂
      else if some nbr₁ = d.preferredParent ∨ some nbr₂ = d.preferredParent then
        d.preferredParent
      else if nbrLinkMetric s nbr₁ < nbrLinkMetric s nbr₂ then some nbr₁
      else some nbr₂

end Of0

/-! ## Neighbours -/

/-- `rpl_neighbor_rank_via_nbr`. -/
def rankViaNbr (c : Conf) (s : Instance) : Option ℕ → UInt16
  | none => infiniteRank
  | some nbr =>
      match s.objective with
      | .mrhof => Mrhof.rankViaNbr c s nbr
      | .of0 => Of0.rankViaNbr s nbr

def nbrIsAcceptableParent (c : Conf) (s : Instance) (nbr : ℕ) : Bool :=
  match s.objective with
  | .mrhof => Mrhof.nbrIsAcceptableParent c s nbr
  | .of0 => Of0.nbrIsAcceptableParent s nbr

/-- `curr_instance.of->best_parent`. -/
def ofBestParent (c : Conf) (s : Instance) (now : UInt32) (d : Dag) (nbr₁ nbr₂ : Option ℕ) :
    Option ℕ :=
  match s.objective with
  | .mrhof => Mrhof.bestParent c s now d nbr₁ nbr₂
  | .of0 => Of0.bestParent s d nbr₁ nbr₂

def maxAcceptableRank (s : Instance) (d : Dag) : ℕ :=
  if s.maxRankinc = 0 then infiniteRank.toNat
  else min (d.lowestRank.toNat + s.maxRankinc.toNat) infiniteRank.toNat

/-- `acceptable_rank`; `ROOT_RANK` is `min_hoprankinc`. -/
def acceptableRank (s : Instance) (d : Dag) (rank : UInt16) : Bool :=
  rank != infiniteRank && s.minHoprankinc ≤ rank && rank.toNat ≤ maxAcceptableRank s d

/-- `rpl_neighbor_is_fresh`, by `link_stats_is_fresh`. -/
def isFresh (c : Conf) (s : Instance) (now : UInt32) (nbr : ℕ) : Bool :=
  match s.linkStats nbr with
  | none => false
  | some stats => now - stats.lastTxTime < c.freshnessExpirationTime && 4 ≤ stats.freshness

/-- Whether the loop of `best_parent` goes on with the objective function. -/
def isCandidate (c : Conf) (s : Instance) (now : UInt32) (d : Dag) (freshOnly : Bool) (nbr : ℕ) :
    Bool :=
  acceptableRank s d (rankViaNbr c s (some nbr)) && nbrIsAcceptableParent c s nbr &&
    (!freshOnly || isFresh c s now nbr) && (!c.sendNs || s.ds6Nbr nbr)

def bestParent (c : Conf) (s : Instance) (now : UInt32) (d : Dag) (freshOnly : Bool) :
    Option ℕ :=
  if s.used = false then none
  else
    s.neighbors.foldl (fun best nbr =>
      if isCandidate c s now d freshOnly nbr then ofBestParent c s now d best (some nbr)
      else best) none

/-- `rpl_dag_root_is_root`. -/
def rootIsRoot (s : Instance) (d : Dag) : Bool := s.used && d.rank == s.minHoprankinc

def Dag.request (d : Dag) (r : Request) : Dag := { d with requests := d.requests ++ [r] }

/-- `rpl_neighbor_select_best`. -/
def selectBest (c : Conf) (s : Instance) (now : UInt32) (d : Dag) : Option ℕ × Dag :=
  if rootIsRoot s d then (none, d)
  else
    let best := bestParent c s now d false
    if c.withProbing then
      match best with
      | none => (none, d)
      | some nbr =>
          if isFresh c s now nbr then (best, { d with urgentProbingTarget := none })
          else
            let d' :=
              if d.urgentProbingTarget = none then
                { d with urgentProbingTarget := best }.request .probingNow
              else d
            if best = d.preferredParent then (best, d')
            else
              match bestParent c s now d true with
              | none => if d.preferredParent = none then (none, d') else (best, d')
              | some fresh => (some fresh, d')
    else (best, d)

/-- `rpl_neighbor_set_preferred_parent`. -/
def setPreferredParent (nbr : Option ℕ) (d : Dag) : Dag :=
  if d.preferredParent ≠ nbr then
    { d with preferredParent := nbr, unprocessedParentSwitch := true }
  else d

/-! ## `rpl_dag_update_state` -/

/-- The loop over the neighbours that updates `better_parent_since`. -/
def updateBetterParentSince (c : Conf) (s : Instance) (now : UInt32) (d : Dag) : Dag :=
  { d with
    betterParentSince := fun nbr =>
      if nbr ∈ s.neighbors then
        if rankViaNbr c s (some nbr) < d.rank then
          if d.betterParentSince nbr = 0 then now else d.betterParentSince nbr
        else 0
      else d.betterParentSince nbr }

/-- `lowest_rank` follows the rank down, and is reset if there was no parent. -/
def updateLowestRank (oldParent : Option ℕ) (d : Dag) : Dag :=
  if oldParent = none ∨ d.rank < d.lowestRank then { d with lowestRank := d.rank } else d

/-- The DIO timer is reset in case of a significant change. -/
def significantRankUpdate (c : Conf) (d : Dag) : Dag :=
  if d.lastAdvertisedRank ≠ infiniteRank ∧ d.rank ≠ infiniteRank ∧
      c.significantChange < ((d.rank.toNat : ℤ) - d.lastAdvertisedRank.toNat).natAbs then
    { d with lastAdvertisedRank := d.rank }.request .dioReset
  else d

def parentSwitch (oldParent : Option ℕ) (d : Dag) : Dag :=
  if d.unprocessedParentSwitch then
    let d :=
      if d.preferredParent ≠ none then
        let d :=
          if oldParent = none then
            ({ d with state := .joined }.request .dioReset).request .unscheduleLeaving
          else d
        d.request .scheduleDao
      else
        (({ d with state := .initialized }.request .dioReset).request
          .schedulePeriodicDis).request .scheduleLeaving
    { d with unprocessedParentSwitch := false }
  else d

/-- `rpl_dag_update_state`. -/
def dagUpdateState (c : Conf) (s : Instance) (now : UInt32) (d : Dag) : Dag :=
  if s.used = false then d
  else
    let oldRank := d.rank
    let d := d.request .unscheduleStateUpdate
    if d.state = .poisoning then
      let d := { setPreferredParent none d with rank := infiniteRank }
      if oldRank ≠ infiniteRank then (d.request .dioReset).request .scheduleLeaving else d
    else if rootIsRoot s d = false then
      let oldParent := d.preferredParent
      let (best, d) := selectBest c s now d
      let d := setPreferredParent best d
      let d := { d with rank := rankViaNbr c s d.preferredParent }
      let d := updateBetterParentSince c s now d
      let d := updateLowestRank oldParent d
      let d := significantRankUpdate c d
      parentSwitch oldParent d
    else d

end Rpl

end Den2ne
