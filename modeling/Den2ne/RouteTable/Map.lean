import Den2ne.Recent.Order
import Den2ne.RouteTable.Sound
import Mathlib.Algebra.Ring.Nat

/-!
# The route table as a map

The keys of the map are prefixes: a length and as many bits. The table is read as a map to the
next hops, and its order as the order of the latest uses, which a run keeps a log of. A call
behaves when it does to the map what its name says.
-/

namespace Den2ne.RouteTable

variable {Addr : Type*}

/-- A prefix: its length, and its bits. -/
abbrev Prefix := ℕ × List Bool

/-- The prefix of an address. -/
def prefixOf (ipaddr : Ipaddr) (length : ℕ) : Prefix := (length, ipaddr.bits.take length)

namespace State

/-- The prefix of a route. -/
def key (s : State Addr) (r : ℕ) : Prefix := prefixOf (s.routes r).ipaddr (s.routes r).length

/-- The prefixes of the table, in its order. -/
def keys (s : State Addr) : List Prefix := s.routelist.map s.key

/-- The table as a map from prefixes to next hops. -/
def toMap (cfg : Config Addr) (s : State Addr) (k : Prefix) : Option Ipaddr :=
  (s.routelist.find? (s.key · = k)).bind (s.nexthop cfg)

/-- The address has the prefix of the route. -/
def Matches (s : State Addr) (addr : Ipaddr) (r : ℕ) : Prop :=
  addr.Agree (s.routes r).ipaddr (s.routes r).length

/-- `uip_ipaddr_prefixcmp` takes the address to have the prefix of the route. -/
def Covers (s : State Addr) (addr : Ipaddr) (r : ℕ) : Prop :=
  addr.prefixcmp (s.routes r).ipaddr (s.routes r).length = true

/-- A route with the longest of the prefixes with `P`; none if there is no such route. -/
def IsLongest (s : State Addr) (P : ℕ → Prop) : Option ℕ → Prop
  | none => ∀ r ∈ s.routelist, ¬ P r
  | some r => r ∈ s.routelist ∧ P r ∧
      ∀ k ∈ s.routelist, P k → (s.routes k).length ≤ (s.routes r).length

instance (s : State Addr) (addr : Ipaddr) (r : ℕ) : Decidable (s.Matches addr r) :=
  inferInstanceAs (Decidable (addr.Agree _ _))

instance (s : State Addr) (addr : Ipaddr) (r : ℕ) : Decidable (s.Covers addr r) :=
  inferInstanceAs (Decidable (_ = true))

instance (s : State Addr) (P : ℕ → Prop) [DecidablePred P] : ∀ r, Decidable (s.IsLongest P r)
  | none => inferInstanceAs (Decidable (∀ r ∈ s.routelist, ¬ P r))
  | some r => inferInstanceAs (Decidable (r ∈ s.routelist ∧ P r ∧
      ∀ k ∈ s.routelist, P k → (s.routes k).length ≤ (s.routes r).length))

/-- One of the routes in `l` goes through `nexthop`. -/
def Via (cfg : Config Addr) (s : State Addr) (l : List ℕ) (nexthop : Ipaddr) : Prop :=
  ∃ r ∈ l, s.nexthop cfg r = some nexthop

instance (cfg : Config Addr) (s : State Addr) (l : List ℕ) (nexthop : Ipaddr) :
    Decidable (s.Via cfg l nexthop) :=
  inferInstanceAs (Decidable (∃ r ∈ l, s.nexthop cfg r = some nexthop))

/-- `num_routes` is the length of the list, and the sum of the lengths of the neighbours' lists. -/
structure Counted (s : State Addr) : Prop where
  list : s.numRoutes = s.routelist.length
  neighbors : s.numRoutes = ((s.used.map fun a => (s.routeList a).length).sum : ℕ)

theorem Sound.counted {cfg : Config Addr} {s : State Addr} (hs : s.Sound cfg) : s.Counted where
  list := hs.count
  neighbors := by
    rw [hs.count, ← hs.length_nbrrs, nbrrs, List.length_flatMap]

end State

/-! ## Runs -/

/-- The table, and the log of the prefixes that were used, the latest first. -/
structure System (Addr : Type*) where
  table : State Addr
  uses : List Prefix

variable [DecidableEq Addr]

/-- The table after a call. -/
def State.call (cfg : Config Addr) (s : State Addr) : Call → State Addr
  | .lookup addr => (s.lookup addr).2
  | .add ipaddr length nexthop accept => (s.add cfg ipaddr length nexthop accept).2
  | .rm route => s.rm route
  | .rmByNexthop nexthop => s.rmByNexthop cfg nexthop

/-- The prefixes that a call uses, the latest first: those of the route it looks up and of the
route it returns. -/
def State.touches (cfg : Config Addr) (s : State Addr) : Call → List Prefix
  | .lookup addr => ((s.lookup addr).1.map s.key).toList
  | .add ipaddr length nexthop accept =>
      let (r, s') := s.add cfg ipaddr length nexthop accept
      (r.map s'.key).toList ++ ((s.lookup ipaddr).1.map s.key).toList
  | .rm _ => []
  | .rmByNexthop _ => []

/-- No routes, and nothing used. -/
def System.init (cfg : Config Addr) : System Addr where
  table := State.init cfg
  uses := []

/-- A call; `none` if it cannot be made. -/
def step (cfg : Config Addr) (c : Call) (x : System Addr) : Option (System Addr) :=
  if Callable cfg x.table c then
    some { table := x.table.call cfg c, uses := x.table.touches cfg c ++ x.uses }
  else none

/-- The call does to the map what it is to do. -/
def Behaves (cfg : Config Addr) (x : System Addr) : Call → Prop
  | .lookup addr =>
      x.table.IsLongest (x.table.Matches addr) (x.table.lookup addr).1 ∧
        (x.table.lookup addr).2.toMap cfg = x.table.toMap cfg
  | .add ipaddr length nexthop accept =>
      let s' := (x.table.add cfg ipaddr length nexthop accept).2
      s'.toMap cfg (prefixOf ipaddr length) = some nexthop ∧
        ∀ k ≠ prefixOf ipaddr length, s'.toMap cfg k = x.table.toMap cfg k ∨
          s'.toMap cfg k = none ∧ x.table.numRoutes = cfg.routeNb ∧
            Recent.leastRecent x.uses x.table.keys = some k
  | .rm route =>
      ∀ k, (x.table.rm route).toMap cfg k =
        if k = x.table.key route then none else x.table.toMap cfg k
  | .rmByNexthop nexthop =>
      ∀ k, (x.table.rmByNexthop cfg nexthop).toMap cfg k =
        if x.table.toMap cfg k = some nexthop then none else x.table.toMap cfg k

/-! ## The condition -/

/-- The route is there already: the lookup of the address finds a route with this next hop. -/
def State.Settled (cfg : Config Addr) (s : State Addr) (ipaddr : Ipaddr) (length : ℕ)
    (nexthop : Ipaddr) : Prop :=
  (∃ r ∈ s.routelist, s.IsLongest (s.Covers ipaddr) (some r) ∧
    s.nexthop cfg r = some nexthop) ∧
    s.toMap cfg (prefixOf ipaddr length) = some nexthop

/-- The lookup finds the route of the prefix, with another next hop. -/
def State.Renewed (cfg : Config Addr) (s : State Addr) (ipaddr : Ipaddr) (length : ℕ)
    (nexthop : Ipaddr) (accept : Bool) : Prop :=
  (∃ r ∈ s.routelist, s.IsLongest (s.Covers ipaddr) (some r) ∧
    s.key r = prefixOf ipaddr length ∧ s.nexthop cfg r ≠ some nexthop) ∧
      (accept = true ∨ s.Via cfg s.routelist nexthop)

/-- The lookup finds nothing, and there is room or a route that can go. -/
def State.Fresh (cfg : Config Addr) (s : State Addr) (ipaddr : Ipaddr) (nexthop : Ipaddr)
    (accept : Bool) : Prop :=
  s.IsLongest (s.Covers ipaddr) none ∧
    if s.numRoutes = cfg.routeNb then
      cfg.removeLeastRecentlyUsed = true ∧ s.routelist ≠ [] ∧
        (accept = true ∨ s.Via cfg s.routelist.dropLast nexthop)
    else accept = true ∨ s.Via cfg s.routelist nexthop

/-- The call does not meet a route that only covers the address. -/
def Plain (cfg : Config Addr) (x : System Addr) : Call → Prop
  | .lookup addr =>
      ∀ r ∈ x.table.routelist, x.table.Covers addr r → x.table.Matches addr r ∨
        ∃ k ∈ x.table.routelist, x.table.Matches addr k ∧
          (x.table.routes r).length < (x.table.routes k).length
  | .add ipaddr length nexthop accept =>
      length ≤ 128 ∧ (x.table.Settled cfg ipaddr length nexthop ∨
        x.table.Renewed cfg ipaddr length nexthop accept ∨
        x.table.Fresh cfg ipaddr nexthop accept)
  | .rm _ => True
  | .rmByNexthop _ => True

instance (cfg : Config Addr) (s : State Addr) (ipaddr : Ipaddr) (length : ℕ) (nexthop : Ipaddr) :
    Decidable (s.Settled cfg ipaddr length nexthop) :=
  inferInstanceAs (Decidable ((∃ r ∈ s.routelist, _ ∧ _) ∧ _ = _))

instance (cfg : Config Addr) (s : State Addr) (ipaddr : Ipaddr) (length : ℕ) (nexthop : Ipaddr)
    (accept : Bool) : Decidable (s.Renewed cfg ipaddr length nexthop accept) :=
  inferInstanceAs (Decidable ((∃ r ∈ s.routelist, _ ∧ _ = _ ∧ _ ≠ _) ∧ (_ ∨ _)))

instance (cfg : Config Addr) (s : State Addr) (ipaddr : Ipaddr) (nexthop : Ipaddr)
    (accept : Bool) : Decidable (s.Fresh cfg ipaddr nexthop accept) :=
  inferInstanceAs (Decidable (_ ∧ ite _ _ _))

instance (cfg : Config Addr) (x : System Addr) : ∀ c, Decidable (Plain cfg x c)
  | .lookup _ => inferInstanceAs (Decidable (∀ r ∈ x.table.routelist, _ → _))
  | .add _ _ _ _ => inferInstanceAs (Decidable (_ ∧ _))
  | .rm _ => inferInstanceAs (Decidable True)
  | .rmByNexthop _ => inferInstanceAs (Decidable True)

end Den2ne.RouteTable
