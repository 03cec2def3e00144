import Den2ne.Ipv6.Address
import Den2ne.Pool.FirstFit
import Den2ne.Transition.Run
import Mathlib.Data.Int.Notation
import Mathlib.Logic.Function.Basic

/-!
# The source-route graph

`uip-sr.c`: the root of a DODAG keeps a node for every address it has heard of, with a pointer to
the node of the parent. A node is the number of its block in `nodememb`; the address of a node is
made, as in `rpl-lite`, of the network of the DODAG and of the identifier in the node.
-/

namespace Den2ne.SourceRoute

/-- `uip_sr_node_t`, less the link of the list. -/
structure Node where
  lifetime : ℕ
  /-- the pointer as a number -/
  graph : ℕ
  linkIdentifier : LinkId
  parent : Option ℕ
  deriving DecidableEq

structure Config where
  /-- `UIP_SR_LINK_NUM` -/
  linkNum : ℕ
  /-- `UIP_SR_REMOVAL_DELAY` -/
  removalDelay : ℕ
  /-- `curr_instance.dag.dag_id` -/
  dagId : Ipaddr

/-- The variables of the module, and the blocks of `nodememb`. -/
structure State where
  numNodes : ℤ
  nodelist : List ℕ
  nodememb : Pool.Blocks
  mem : ℕ → Node

/-- `UIP_SR_INFINITE_LIFETIME`. -/
def infiniteLifetime : ℕ := 0xFFFFFFFF

/-- `memset` of a block. -/
def Node.zero : Node where
  lifetime := 0
  graph := 0
  linkIdentifier := ⟨List.replicate 8 0, List.length_replicate⟩
  parent := none

/-- `uip_sr_init`. -/
def State.init (cfg : Config) : State where
  numNodes := 0
  nodelist := []
  nodememb := Pool.init cfg.linkNum
  mem _ := Node.zero

namespace State

/-- A change of the block `l`. -/
def modify (s : State) (l : ℕ) (f : Node → Node) : State :=
  { s with mem := Function.update s.mem l (f (s.mem l)) }

/-- `node->parent`. -/
def parent (s : State) (l : ℕ) : Option ℕ := (s.mem l).parent

/-- A write of `node->parent`. -/
def turn (s : State) (l : ℕ) (parent : Option ℕ) : State :=
  s.modify l fun n => { n with parent := parent }

/-- `get_sr_node_ipaddr`. -/
def nodeIpaddr (cfg : Config) (s : State) (l : ℕ) : Ipaddr :=
  cfg.dagId.withLinkId (s.mem l).linkIdentifier

/-- `node_matches_address`. -/
def nodeMatchesAddress (cfg : Config) (graph : ℕ) (s : State) (node : Option ℕ)
    (addr : Option Ipaddr) : Bool :=
  match node, addr with
  | some l, some a => graph = (s.mem l).graph ∧ s.nodeIpaddr cfg l = a
  | _, _ => false

/-- `uip_sr_get_node`. -/
def getNode (cfg : Config) (graph : ℕ) (s : State) (addr : Option Ipaddr) : Option ℕ :=
  s.nodelist.find? fun l => s.nodeMatchesAddress cfg graph (some l) addr

/-- The loop of `uip_sr_is_addr_reachable`: the node it ends at. -/
def climb (s : State) (rootNode : Option ℕ) : ℕ → Option ℕ → Option ℕ
  | 0, node => node
  | _ + 1, none => none
  | maxDepth + 1, some l =>
      if some l = rootNode then some l else s.climb rootNode maxDepth (s.parent l)

/-- `uip_sr_is_addr_reachable`. -/
def isAddrReachable (cfg : Config) (graph : ℕ) (s : State) (addr : Ipaddr) : Bool :=
  let rootNode := s.getNode cfg graph (some cfg.dagId)
  let node := s.climb rootNode cfg.linkNum (s.getNode cfg graph (some addr))
  node ≠ none ∧ node = rootNode

/-- `uip_sr_expire_parent`. -/
def expireParent (cfg : Config) (graph : ℕ) (child parent : Ipaddr) (s : State) : State :=
  match s.getNode cfg graph (some child) with
  | none => s
  | some l =>
      if s.nodeMatchesAddress cfg graph (s.parent l) (some parent) ∧
          cfg.removalDelay < (s.mem l).lifetime then
        s.modify l fun n => { n with lifetime := cfg.removalDelay }
      else s

/-- A new block at the end of the list, without a parent. -/
def addNode (s : State) : Option (ℕ × State) :=
  match Pool.alloc s.nodememb with
  | none => none
  | some (l, nodememb) =>
      some (l,
        { s.turn l none with
          nodememb := nodememb
          nodelist := s.nodelist.erase l ++ [l]
          numNodes := s.numNodes + 1 })

/-- The part of `uip_sr_update_node` that writes the graph, the lifetime and the identifier. -/
def initNode (graph : ℕ) (child : Ipaddr) (lifetime : ℕ) (l : ℕ) (s : State) : State :=
  s.modify l fun n =>
    { n with graph := graph, lifetime := lifetime, linkIdentifier := child.linkId }

/-- The part of `uip_sr_update_node` that turns the pointer to the parent, and turns it back when
the node would become unreachable. -/
def setParent (cfg : Config) (graph : ℕ) (child : Ipaddr) (parentNode : Option ℕ) (l : ℕ)
    (s : State) : State :=
  if s.isAddrReachable cfg graph child ∧
      !(s.turn l parentNode).isAddrReachable cfg graph child then
    (s.turn l parentNode).turn l (s.parent l)
  else s.turn l parentNode

/-- `uip_sr_update_node` once the node of the parent is there. -/
def updateChild (cfg : Config) (graph : ℕ) (child : Ipaddr) (childNode parentNode : Option ℕ)
    (lifetime : ℕ) (s : State) : Option ℕ × State :=
  match childNode with
  | some l => (some l, (s.initNode graph child lifetime l).setParent cfg graph child parentNode l)
  | none =>
      match s.addNode with
      | none => (none, s)
      | some (l, s) =>
          (some l, (s.initNode graph child lifetime l).setParent cfg graph child parentNode l)

/-- `uip_sr_update_node`. The node of the child is looked up first; a parent without a node gets
one by the call for the parent, which has no parent of its own. -/
def updateNode (cfg : Config) (graph : ℕ) (child : Ipaddr) (parent : Option Ipaddr)
    (lifetime : ℕ) (s : State) : Option ℕ × State :=
  let childNode := s.getNode cfg graph (some child)
  match parent with
  | none => s.updateChild cfg graph child childNode none lifetime
  | some p =>
      match s.getNode cfg graph parent with
      | some l => s.updateChild cfg graph child childNode (some l) lifetime
      | none =>
          match s.updateChild cfg graph p none none infiniteLifetime with
          | (none, s) => (none, s)
          | (some l, s) => s.updateChild cfg graph child childNode (some l) lifetime

/-- One turn of the loop of `uip_sr_periodic`. -/
def visit (seconds : ℕ) (s : State) (l : ℕ) : State :=
  if (s.mem l).lifetime = 0 then
    if s.nodelist.any fun l₂ => s.parent l₂ = some l then s
    else
      { s with
        nodelist := s.nodelist.erase l
        nodememb := Pool.free s.nodememb l
        numNodes := s.numNodes - 1 }
  else if (s.mem l).lifetime ≠ infiniteLifetime then
    s.modify l fun n =>
      { n with lifetime := if seconds < n.lifetime then n.lifetime - seconds else 0 }
  else s

/-- `uip_sr_periodic`. A turn takes no node from the list but its own, so that the loop comes to
the nodes of the list as it was. -/
def periodic (seconds : ℕ) (s : State) : State := s.nodelist.foldl (visit seconds) s

end State

/-- The calls. -/
inductive Call
  | updateNode (child : Ipaddr) (parent : Option Ipaddr) (lifetime : ℕ)
  | expireParent (child parent : Ipaddr)
  | periodic (seconds : ℕ)

/-- A call on the graph `graph`. -/
def step (cfg : Config) (graph : ℕ) : Call → State → Option State
  | .updateNode child parent lifetime, s =>
      some (s.updateNode cfg graph child parent lifetime).2
  | .expireParent child parent, s => some (s.expireParent cfg graph child parent)
  | .periodic seconds, s => some (s.periodic seconds)

/-- The module after the root has been added. -/
def State.boot (cfg : Config) (graph : ℕ) : State :=
  ((State.init cfg).updateNode cfg graph cfg.dagId none infiniteLifetime).2

end Den2ne.SourceRoute
