import Den2ne.Pointers.Follow
import Den2ne.SourceRoute.Graph

/-!
# Ways to the root

`Sound` is the invariant of the graph: the blocks in use are the nodes of the list, which have
distinct identifiers, and the parent of a listed node is listed. In a sound graph an address has
one node at most, and the walk of `uip_sr_is_addr_reachable`, which gives up after
`UIP_SR_LINK_NUM` steps, finds the root whenever the pointers lead to it.
-/

namespace Den2ne.SourceRoute

open Pointers

namespace State

/-- The parents lead from the node of the address to the node of the root. -/
def Reaches (cfg : Config) (graph : ℕ) (s : State) (a : Ipaddr) : Prop :=
  ∃ l r, s.getNode cfg graph (some a) = some l ∧ s.getNode cfg graph (some cfg.dagId) = some r ∧
    Leads s.parent l r

/-- No two nodes of the list have the same identifier. -/
def DistinctIds (s : State) : Prop :=
  ∀ l ∈ s.nodelist, ∀ k ∈ s.nodelist,
    (s.mem l).linkIdentifier = (s.mem k).linkIdentifier → l = k

structure Sound (cfg : Config) (graph : ℕ) (s : State) : Prop where
  count : s.numNodes = s.nodelist.length
  blocks : s.nodememb.length = cfg.linkNum
  holds : Pool.Holds s.nodememb s.nodelist
  graphs : ∀ l ∈ s.nodelist, (s.mem l).graph = graph
  ids : s.DistinctIds
  parents : Closed s.parent s.nodelist

/-- The two states have the same nodes in the list. -/
structure SameNodes (s s' : State) : Prop where
  list : s'.nodelist = s.nodelist
  graphs : ∀ l, (s'.mem l).graph = (s.mem l).graph
  ids : ∀ l, (s'.mem l).linkIdentifier = (s.mem l).linkIdentifier

end State

open State

variable {cfg : Config} {graph l r k : ℕ} {s s' : State} {a : Ipaddr}

/-! ## The nodes of the addresses -/

namespace State

theorem nodeMatchesAddress_iff :
    s.nodeMatchesAddress cfg graph (some l) (some a) = true ↔
      graph = (s.mem l).graph ∧ s.nodeIpaddr cfg l = a := decide_eq_true_iff

theorem Sound.eq_of_nodeIpaddr (h : s.Sound cfg graph) (hl : l ∈ s.nodelist)
    (hk : k ∈ s.nodelist) (heq : s.nodeIpaddr cfg l = s.nodeIpaddr cfg k) : l = k := by
  have hid := congrArg Ipaddr.linkId heq
  rw [nodeIpaddr, nodeIpaddr, Ipaddr.linkId_withLinkId, Ipaddr.linkId_withLinkId] at hid
  exact h.ids l hl k hk hid

theorem mem_of_getNode (h : s.getNode cfg graph (some a) = some l) : l ∈ s.nodelist :=
  List.mem_of_find?_eq_some h

theorem nodeIpaddr_of_getNode (h : s.getNode cfg graph (some a) = some l) :
    s.nodeIpaddr cfg l = a := by
  have hmatch := List.find?_some (p := fun l => s.nodeMatchesAddress cfg graph (some l) (some a)) h
  exact (nodeMatchesAddress_iff.1 hmatch).2

/-- The node of an address is the only one of the list that has it. -/
theorem Sound.getNode_eq_some_iff (h : s.Sound cfg graph) :
    s.getNode cfg graph (some a) = some l ↔ l ∈ s.nodelist ∧ s.nodeIpaddr cfg l = a := by
  refine ⟨fun hl => ⟨mem_of_getNode hl, nodeIpaddr_of_getNode hl⟩, ?_⟩
  rintro ⟨hl, ha⟩
  have hsome : (s.getNode cfg graph (some a)).isSome := by
    rw [getNode, List.find?_isSome]
    exact ⟨l, hl, nodeMatchesAddress_iff.2 ⟨(h.graphs l hl).symm, ha⟩⟩
  obtain ⟨k, hk⟩ := Option.isSome_iff_exists.1 hsome
  rw [hk, h.eq_of_nodeIpaddr (mem_of_getNode hk) hl ((nodeIpaddr_of_getNode hk).trans ha.symm)]

/-- An address of the network without a node has an identifier that no node has. -/
theorem Sound.linkId_ne (h : s.Sound cfg graph) (ha : cfg.dagId.SameNetwork a)
    (hnone : s.getNode cfg graph (some a) = none) (hl : l ∈ s.nodelist) :
    (s.mem l).linkIdentifier ≠ a.linkId := fun hid => by
  have hsome := h.getNode_eq_some_iff.2 ⟨hl, (Ipaddr.withLinkId_eq_iff ha).2 hid⟩
  rw [hnone] at hsome
  cases hsome

theorem SameNodes.trans {s'' : State} (h : SameNodes s s') (h' : SameNodes s' s'') :
    SameNodes s s'' :=
  ⟨h'.list.trans h.list, fun l => (h'.graphs l).trans (h.graphs l),
    fun l => (h'.ids l).trans (h.ids l)⟩

theorem SameNodes.getNode (h : SameNodes s s') (addr : Option Ipaddr) :
    s'.getNode cfg graph addr = s.getNode cfg graph addr := by
  rw [State.getNode, State.getNode, h.list]
  congr 1
  funext l
  cases addr with
  | none => rfl
  | some a =>
      have hiff : (graph = (s'.mem l).graph ∧ s'.nodeIpaddr cfg l = a) ↔
          (graph = (s.mem l).graph ∧ s.nodeIpaddr cfg l = a) := by
        rw [nodeIpaddr, nodeIpaddr, h.graphs, h.ids]
      exact decide_eq_decide.2 hiff

/-- With the same nodes and the same parents, the same addresses are reached. -/
theorem SameNodes.reaches (h : SameNodes s s') (hparent : s'.parent = s.parent) :
    s'.Reaches cfg graph a ↔ s.Reaches cfg graph a := by
  simp only [Reaches, h.getNode, hparent]

theorem Sound.of_sameNodes (hs : s.Sound cfg graph) (h : SameNodes s s')
    (hcount : s'.numNodes = s.numNodes) (hmemb : s'.nodememb = s.nodememb)
    (hparents : Closed s'.parent s.nodelist) : s'.Sound cfg graph where
  count := by rw [hcount, h.list, hs.count]
  blocks := by rw [hmemb, hs.blocks]
  holds := by rw [hmemb, h.list]; exact hs.holds
  graphs l hl := by
    rw [h.list] at hl
    rw [h.graphs, hs.graphs l hl]
  ids l hl k hk heq := by
    rw [h.list] at hl hk
    rw [h.ids, h.ids] at heq
    exact hs.ids l hl k hk heq
  parents := by rw [h.list]; exact hparents

/-! ## The walk to the root -/

/-- The walk ends at the root when the parents lead there within its bound. -/
theorem climb_eq_root {n : ℕ} {node : Option ℕ} :
    s.climb (some r) n node = some r ↔
      ∃ l, node = some l ∧ ∃ k ≤ n, follow s.parent k l = some r := by
  induction n generalizing node with
  | zero =>
      rw [climb]
      constructor
      · rintro rfl
        exact ⟨r, rfl, 0, Nat.le_refl _, rfl⟩
      · rintro ⟨l, rfl, k, hk, hfollow⟩
        obtain rfl := Nat.le_zero.1 hk
        exact hfollow
  | succ n ih =>
      cases node with
      | none => simp [climb]
      | some l =>
          by_cases hl : some l = some r
          · rw [climb, if_pos hl]
            exact iff_of_true hl ⟨l, rfl, 0, Nat.zero_le _, hl⟩
          · rw [climb, if_neg hl, ih]
            constructor
            · rintro ⟨m, hm, k, hk, hfollow⟩
              refine ⟨l, rfl, k + 1, Nat.succ_le_succ hk, ?_⟩
              rw [follow_succ, hm]
              exact hfollow
            · rintro ⟨m, hm, k, hk, hfollow⟩
              obtain rfl := Option.some.inj hm
              cases k with
              | zero => exact absurd hfollow hl
              | succ k =>
                  obtain ⟨p, hp, hrest⟩ := Option.bind_eq_some_iff.1 hfollow
                  exact ⟨p, hp, k, Nat.le_of_succ_le_succ hk, hrest⟩

theorem Sound.length_le (h : s.Sound cfg graph) : s.nodelist.length ≤ cfg.linkNum :=
  h.blocks ▸ h.holds.length_le

/-- The bounded walk is right. -/
theorem Sound.isAddrReachable_iff (h : s.Sound cfg graph) (a : Ipaddr) :
    s.isAddrReachable cfg graph a = true ↔ s.Reaches cfg graph a := by
  rw [isAddrReachable, decide_eq_true_iff, Reaches]
  cases hr : s.getNode cfg graph (some cfg.dagId) with
  | none =>
      refine iff_of_false (fun hnode => hnode.1 hnode.2) ?_
      rintro ⟨l, r, -, hr', -⟩
      cases hr'
  | some r =>
      have hroot : (s.climb (some r) cfg.linkNum (s.getNode cfg graph (some a)) ≠ none ∧
          s.climb (some r) cfg.linkNum (s.getNode cfg graph (some a)) = some r) ↔
          s.climb (some r) cfg.linkNum (s.getNode cfg graph (some a)) = some r :=
        and_iff_right_of_imp fun heq => by rw [heq]; exact Option.some_ne_none r
      rw [hroot, climb_eq_root]
      constructor
      · rintro ⟨l, hl, k, -, hk⟩
        exact ⟨l, r, hl, rfl, k, hk⟩
      · rintro ⟨l, r', hl, hr', hleads⟩
        obtain rfl := Option.some.inj hr'
        obtain ⟨k, hk, hfollow⟩ := (h.parents.leads_iff (mem_of_getNode hl)).1 hleads
        exact ⟨l, hl, k, hk.le.trans h.length_le, hfollow⟩

end State

end Den2ne.SourceRoute
