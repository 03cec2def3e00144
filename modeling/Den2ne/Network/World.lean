import Mathlib.Algebra.BigOperators.Group.Finset.Basic
import Den2ne.Node.Step
import Den2ne.Transition.Run

/-!
# The network

A `World` is what a deployment fixes: the nodes, the root, who hears whom, and
the build. A `Net` is the state of every node and the frames in the air. A
packet that a node hands to the MAC becomes a frame for every node that hears
it (broadcast) or for its destination. The frames in the air are not ordered:
any one of them may be delivered next, and, where an event says so, lost or
duplicated.
-/

namespace Den2ne

open Transition

/-- What a deployment fixes. `hears u` are the nodes that a broadcast of `u`
reaches; no node has the null address, which stands for broadcast. -/
structure World (α : Type*) where
  nodes : Finset α
  root : α
  hears : α → List α
  linkaddrNull : α
  hlmacCast : HlmacCast
  hlmacMaxHlmac : ℤ
  addrSize : ℕ
  root_mem : root ∈ nodes
  null_notMem : linkaddrNull ∉ nodes
  hears_mem : ∀ u v, v ∈ hears u → v ∈ nodes
  hears_nodup : ∀ u, (hears u).Nodup
  hears_irrefl : ∀ u, u ∉ hears u

/-- A frame in the air for one receiver. `round` is history: the round its
maker was in. -/
structure Frame (α : Type*) where
  src : α
  dst : α
  message : Payload α
  round : ℕ
deriving DecidableEq, Repr

/-- The state of every node, and the frames in the air. -/
structure Net (α : Type*) where
  node : α → Node α
  air : List (Frame α)

/-- What can happen in the network: a timer expires, or a frame is delivered,
lost or duplicated. -/
inductive NetEvent (α : Type*)
  | timer (v : α) (t : Timer) (env : Env α)
  | deliver (i : ℕ) (env : Env α)
  | lose (i : ℕ)
  | duplicate (i : ℕ)

variable {α : Type*} [DecidableEq α]

/-- The network after boot. -/
def Net.boot : Net α := ⟨fun _ => Node.boot, []⟩

namespace World

variable (w : World α)

/-- The build of a node. -/
def config (v : α) : Config α where
  nodeType := if v = w.root then .root else .common
  hlmacCast := w.hlmacCast
  hlmacMaxHlmac := w.hlmacMaxHlmac
  addrSize := w.addrSize
  linkaddrNodeAddr := v
  linkaddrNull := w.linkaddrNull

/-- The nodes that a packet of `v` with this destination reaches. -/
def reaches (v dest : α) : List α :=
  if dest = w.linkaddrNull then w.hears v else if dest ∈ w.nodes then [dest] else []

/-- The frames that a packet of `v` puts in the air. -/
def frames (v : α) (e : PayloadEntry α) : List (Frame α) :=
  (w.reaches v e.dest).map fun u => ⟨v, u, e.payload, e.round⟩

/-- An event at node `v`, with `air` the other frames in the air. -/
def act (s : Net α) (v : α) (env : Env α) (e : Event α) (air : List (Frame α)) :
    Option (Net α) :=
  (Node.step (w.config v) env e (s.node v)).map fun n =>
    ⟨Function.update s.node v { n with macOut := [] }, air ++ n.macOut.flatMap (w.frames v)⟩

/-- One event of the network. -/
def step (e : NetEvent α) (s : Net α) : Option (Net α) :=
  match e with
  | .timer v t env => if v ∈ w.nodes then w.act s v env (.timer t) s.air else none
  | .deliver i env =>
      match s.air[i]? with
      | none => none
      | some f => w.act s f.dst env (.receive f.src f.message f.round) (s.air.eraseIdx i)
  | .lose i => if i < s.air.length then some { s with air := s.air.eraseIdx i } else none
  | .duplicate i =>
      match s.air[i]? with
      | none => none
      | some f => some { s with air := s.air ++ [f] }

/-- The deployment of the nodes `1, …, common + 1`, the first of them the root,
with links that work both ways. -/
def ofLinks (common : ℕ) (links : List (ℕ × ℕ)) (hlmacCast : HlmacCast) (hlmacMaxHlmac : ℤ) :
    World ℕ where
  nodes := (List.range' 1 (common + 1)).toFinset
  root := 1
  hears u := (List.range' 1 (common + 1)).filter fun v =>
    v ≠ u ∧ ((u, v) ∈ links ∨ (v, u) ∈ links)
  linkaddrNull := 0
  hlmacCast := hlmacCast
  hlmacMaxHlmac := hlmacMaxHlmac
  addrSize := 2
  root_mem := by simp
  null_notMem := by simp
  hears_mem u v h := List.mem_toFinset.2 (List.mem_of_mem_filter h)
  hears_nodup _ := List.Nodup.filter _ List.nodup_range'
  hears_irrefl u h := by simpa using List.of_mem_filter h

end World

end Den2ne
