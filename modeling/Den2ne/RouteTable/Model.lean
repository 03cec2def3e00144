import Den2ne.Ipv6.Prefix
import Den2ne.Pool.FirstFit
import Den2ne.Transition.Run
import Mathlib.Data.Int.Notation
import Mathlib.Logic.Function.Basic

/-!
# The route table

`uip-ds6-route.c`: a route is a block of `routememb` in a list that is ordered by how recently the
routes were looked up, and a block of `neighborroutememb` in the list of its next hop, an item of
the neighbour table `nbr_routes`. A block is its number, and an item is the link-layer address of
its neighbour. The neighbours are known all along a run, so that their addresses do not change.
-/

namespace Den2ne.RouteTable

/-- `uip_ds6_route_t`, less the link of the list and the state of the routing protocol. -/
structure Route (Addr : Type*) where
  neighborRoutes : Option Addr
  ipaddr : Ipaddr
  length : ℕ

structure Config (Addr : Type*) where
  /-- `UIP_DS6_ROUTE_NB` -/
  routeNb : ℕ
  /-- `UIP_DS6_ROUTE_REMOVE_LEAST_RECENTLY_USED` -/
  removeLeastRecentlyUsed : Bool
  /-- `uip_ds6_nbr_lladdr_from_ipaddr` -/
  lladdrFromIpaddr : Ipaddr → Option Addr
  /-- `uip_ds6_nbr_ipaddr_from_lladdr` -/
  ipaddrFromLladdr : Addr → Option Ipaddr

/-- The variables of the module, and the blocks of its pools. -/
structure State (Addr : Type*) where
  numRoutes : ℤ
  routelist : List ℕ
  routememb : Pool.Blocks
  routes : ℕ → Route Addr
  neighborroutememb : Pool.Blocks
  /-- `nbrr->route` -/
  nbrr : ℕ → ℕ
  /-- the items of `nbr_routes` that are in use -/
  used : List Addr
  /-- `routes->route_list` -/
  routeList : Addr → List ℕ

variable {Addr : Type*}

/-- `uip_ds6_route_init`. -/
def State.init (cfg : Config Addr) : State Addr where
  numRoutes := 0
  routelist := []
  routememb := Pool.init cfg.routeNb
  routes _ := ⟨none, ⟨List.replicate 16 0, List.length_replicate⟩, 0⟩
  neighborroutememb := Pool.init cfg.routeNb
  nbrr _ := 0
  used := []
  routeList _ := []

namespace State

/-- `uip_ds6_route_nexthop`. -/
def nexthop (cfg : Config Addr) (s : State Addr) (r : ℕ) : Option Ipaddr :=
  (s.routes r).neighborRoutes.bind cfg.ipaddrFromLladdr

/-- The loop of `uip_ds6_route_lookup`. -/
def longest (s : State Addr) (addr : Ipaddr) : List ℕ → Option ℕ → ℕ → Option ℕ
  | [], foundRoute, _ => foundRoute
  | r :: rs, foundRoute, longestmatch =>
      if longestmatch ≤ (s.routes r).length ∧
          addr.prefixcmp (s.routes r).ipaddr (s.routes r).length then
        if (s.routes r).length = 128 then some r
        else s.longest addr rs (some r) (s.routes r).length
      else s.longest addr rs foundRoute longestmatch

/-- `uip_ds6_route_lookup`. -/
def lookup (s : State Addr) (addr : Ipaddr) : Option ℕ × State Addr :=
  match s.longest addr s.routelist none 0 with
  | none => (none, s)
  | some r =>
      (some r,
        if s.routelist.head? = some r then s
        else { s with routelist := r :: s.routelist.erase r })

variable [DecidableEq Addr]

/-- `uip_ds6_route_rm`. A neighbour without routes goes from the neighbour table. -/
def rm (s : State Addr) (r : ℕ) : State Addr :=
  match (s.routes r).neighborRoutes with
  | none => s
  | some a =>
      let neighborRoute := (s.routeList a).find? (s.nbrr · = r)
      let routeList := neighborRoute.elim (s.routeList a) (s.routeList a).erase
      { s with
        routelist := s.routelist.erase r
        routeList := Function.update s.routeList a routeList
        used := if routeList = [] then s.used.erase a else s.used
        routememb := Pool.free s.routememb r
        neighborroutememb := neighborRoute.elim s.neighborroutememb (Pool.free s.neighborroutememb)
        numRoutes := s.numRoutes - 1 }

/-- The part of `uip_ds6_route_add` that makes room; `none` where it gives up. -/
def makeRoom (cfg : Config Addr) (s : State Addr) : Option (State Addr) :=
  if s.numRoutes = cfg.routeNb then
    (if cfg.removeLeastRecentlyUsed then s.routelist.getLast? else none).map s.rm
  else some s

/-- The item of `nbr_routes` for a neighbour, which is made if it is not there; `accept` is the
answer of `NBR_TABLE_CAN_ACCEPT_NEW`. -/
def neighborItem (s : State Addr) (a : Addr) (accept : Bool) : Option (State Addr) :=
  if a ∈ s.used then some s
  else if accept then
    some { s with used := s.used ++ [a], routeList := Function.update s.routeList a [] }
  else none

/-- The part of `uip_ds6_route_add` that allocates the route. -/
def allocate (s : State Addr) (ipaddr : Ipaddr) (length : ℕ) (a : Addr) :
    Option ℕ × State Addr :=
  match Pool.alloc s.routememb with
  | none => (none, s)
  | some (r, routememb) =>
      match Pool.alloc s.neighborroutememb with
      | none =>
          (none,
            { s with
              routelist := r :: s.routelist.erase r
              routememb := Pool.free routememb r })
      | some (n, neighborroutememb) =>
          (some r,
            { s with
              routelist := r :: s.routelist.erase r
              routememb := routememb
              neighborroutememb := neighborroutememb
              nbrr := Function.update s.nbrr n r
              routeList :=
                Function.update s.routeList a ((s.routeList a).erase n ++ [n])
              routes := Function.update s.routes r ⟨some a, ipaddr, length⟩
              numRoutes := s.numRoutes + 1 })

/-- The part of `uip_ds6_route_add` after the old route. -/
def insert (cfg : Config Addr) (s : State Addr) (ipaddr : Ipaddr) (length : ℕ) (a : Addr)
    (accept : Bool) : Option ℕ × State Addr :=
  match s.makeRoom cfg with
  | none => (none, s)
  | some s =>
      match s.neighborItem a accept with
      | none => (none, s)
      | some s => s.allocate ipaddr length a

/-- `uip_ds6_route_add`. -/
def add (cfg : Config Addr) (s : State Addr) (ipaddr : Ipaddr) (length : ℕ) (nexthop : Ipaddr)
    (accept : Bool) : Option ℕ × State Addr :=
  match cfg.lladdrFromIpaddr nexthop with
  | none => (none, s)
  | some a =>
      match s.lookup ipaddr with
      | (none, s) => s.insert cfg ipaddr length a accept
      | (some r, s) =>
          if s.nexthop cfg r = some nexthop then (some r, s)
          else (s.rm r).insert cfg ipaddr length a accept

/-- The loop of `rm_routelist`. -/
def rmAll (a : Addr) : ℕ → State Addr → State Addr
  | 0, s => s
  | turns + 1, s =>
      match (s.routeList a).head? with
      | none => s
      | some n => rmAll a turns (s.rm (s.nbrr n))

/-- `rm_routelist`: there are as many turns as elements. -/
def rmRoutelist (s : State Addr) (a : Addr) : State Addr :=
  let s := s.rmAll a (s.routeList a).length
  { s with used := s.used.erase a }

/-- `uip_ds6_route_rm_by_nexthop`. -/
def rmByNexthop (cfg : Config Addr) (s : State Addr) (nexthop : Ipaddr) : State Addr :=
  match (cfg.lladdrFromIpaddr nexthop).filter (· ∈ s.used) with
  | none => s
  | some a => s.rmRoutelist a

end State

/-! ## Runs -/

/-- The calls of the module's functions, with the answer of the neighbour table's policy. -/
inductive Call
  | lookup (addr : Ipaddr)
  | add (ipaddr : Ipaddr) (length : ℕ) (nexthop : Ipaddr) (accept : Bool)
  | rm (route : ℕ)
  | rmByNexthop (nexthop : Ipaddr)
  deriving DecidableEq

/-- The neighbour cache knows the address, and gives it back for its link-layer address. -/
def Config.Known (cfg : Config Addr) (nexthop : Ipaddr) : Prop :=
  ∃ a ∈ cfg.lladdrFromIpaddr nexthop, cfg.ipaddrFromLladdr a = some nexthop

instance (cfg : Config Addr) (nexthop : Ipaddr) : Decidable (cfg.Known nexthop) :=
  inferInstanceAs (Decidable (∃ a ∈ cfg.lladdrFromIpaddr nexthop, _))

/-- A route that is removed is one of the table, and next hops are known. -/
def Callable (cfg : Config Addr) (s : State Addr) : Call → Prop
  | .lookup _ => True
  | .add _ _ nexthop _ => cfg.Known nexthop
  | .rm route => route ∈ s.routelist
  | .rmByNexthop nexthop => cfg.Known nexthop

instance (cfg : Config Addr) (s : State Addr) : ∀ c, Decidable (Callable cfg s c)
  | .lookup _ => inferInstanceAs (Decidable True)
  | .add _ _ nexthop _ => inferInstanceAs (Decidable (cfg.Known nexthop))
  | .rm route => inferInstanceAs (Decidable (route ∈ s.routelist))
  | .rmByNexthop nexthop => inferInstanceAs (Decidable (cfg.Known nexthop))

end Den2ne.RouteTable
