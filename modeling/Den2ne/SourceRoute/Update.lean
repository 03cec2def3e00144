import Den2ne.SourceRoute.Reach

/-!
# What the calls do to the graph

`Extends` says that a call keeps the graph sound and loses no way to the root. A new node is
nobody's parent, so that only its own address is concerned; a pointer is turned only when the
address of its node is still reached, or was not reached before; a node that nobody points to is
on no way but its own.
-/

namespace Den2ne.SourceRoute

open Pointers State

variable {cfg : Config} {graph l r k : ℕ} {s s' s₁ s₂ : State} {a child : Ipaddr}
  {parentNode : Option ℕ}

/-- Every address that is reached in `s` is reached in `s'`. -/
def Preserves (cfg : Config) (graph : ℕ) (s s' : State) : Prop :=
  ∀ a, s.Reaches cfg graph a → s'.Reaches cfg graph a

/-- `s'` is sound, and what is reached in `s` is reached in `s'`. -/
structure Extends (cfg : Config) (graph : ℕ) (s s' : State) : Prop where
  sound : s'.Sound cfg graph
  preserves : Preserves cfg graph s s'

theorem Extends.refl (h : s.Sound cfg graph) : Extends cfg graph s s := ⟨h, fun _ ha => ha⟩

theorem Extends.trans (h₁ : Extends cfg graph s s₁) (h₂ : Extends cfg graph s₁ s₂) :
    Extends cfg graph s s₂ := ⟨h₂.sound, fun a ha => h₂.preserves a (h₁.preserves a ha)⟩

namespace State

@[simp] theorem modify_nodelist (f : Node → Node) : (s.modify l f).nodelist = s.nodelist := rfl

@[simp] theorem modify_nodememb (f : Node → Node) : (s.modify l f).nodememb = s.nodememb := rfl

@[simp] theorem modify_numNodes (f : Node → Node) : (s.modify l f).numNodes = s.numNodes := rfl

theorem modify_mem_self (f : Node → Node) : (s.modify l f).mem l = f (s.mem l) :=
  Function.update_self ..

theorem modify_mem_of_ne (f : Node → Node) (hk : k ≠ l) : (s.modify l f).mem k = s.mem k :=
  Function.update_of_ne hk ..

/-- A field that `f` leaves alone. -/
theorem modify_field {β : Type*} (field : Node → β) (f : Node → Node)
    (hf : field (f (s.mem l)) = field (s.mem l)) (k : ℕ) :
    field ((s.modify l f).mem k) = field (s.mem k) := by
  by_cases hk : k = l
  · subst hk
    rw [modify_mem_self, hf]
  · rw [modify_mem_of_ne f hk]

theorem modify_parent_of_eq (f : Node → Node) (hf : (f (s.mem l)).parent = (s.mem l).parent) :
    (s.modify l f).parent = s.parent := funext (modify_field Node.parent f hf)

theorem sameNodes_modify (f : Node → Node) (hgraph : (f (s.mem l)).graph = (s.mem l).graph)
    (hid : (f (s.mem l)).linkIdentifier = (s.mem l).linkIdentifier) :
    SameNodes s (s.modify l f) :=
  ⟨rfl, modify_field Node.graph f hgraph, modify_field Node.linkIdentifier f hid⟩

/-- A change that leaves nodes and parents alone. -/
theorem Sound.extends_modify (hs : s.Sound cfg graph) (f : Node → Node)
    (hgraph : (f (s.mem l)).graph = (s.mem l).graph)
    (hid : (f (s.mem l)).linkIdentifier = (s.mem l).linkIdentifier)
    (hparent : (f (s.mem l)).parent = (s.mem l).parent) :
    Extends cfg graph s (s.modify l f) := by
  have hsame := sameNodes_modify f hgraph hid
  have heq := modify_parent_of_eq f hparent
  refine ⟨hs.of_sameNodes hsame rfl rfl ?_, fun a ha => (hsame.reaches heq).2 ha⟩
  rw [heq]
  exact hs.parents

theorem Sound.extends_expireParent (hs : s.Sound cfg graph) (child parent : Ipaddr) :
    Extends cfg graph s (s.expireParent cfg graph child parent) := by
  unfold expireParent
  split
  · exact .refl hs
  · split
    · exact hs.extends_modify _ rfl rfl rfl
    · exact .refl hs

/-! ## The update of a node -/

theorem linkIdentifier_of_getNode (hl : s.getNode cfg graph (some child) = some l) :
    (s.mem l).linkIdentifier = child.linkId := by
  have hid := congrArg Ipaddr.linkId (nodeIpaddr_of_getNode hl)
  rwa [nodeIpaddr, Ipaddr.linkId_withLinkId] at hid

/-- The graph and the identifier are written over the same values. -/
theorem Sound.sameNodes_initNode (hs : s.Sound cfg graph) (lifetime : ℕ)
    (hl : s.getNode cfg graph (some child) = some l) :
    SameNodes s (s.initNode graph child lifetime l) :=
  sameNodes_modify _ (hs.graphs l (mem_of_getNode hl)).symm (linkIdentifier_of_getNode hl).symm

theorem Sound.extends_initNode (hs : s.Sound cfg graph) (lifetime : ℕ)
    (hl : s.getNode cfg graph (some child) = some l) :
    Extends cfg graph s (s.initNode graph child lifetime l) :=
  hs.extends_modify _ (hs.graphs l (mem_of_getNode hl)).symm (linkIdentifier_of_getNode hl).symm rfl

theorem parent_turn (p : Option ℕ) : (s.turn l p).parent = Function.update s.parent l p := by
  funext k
  by_cases hk : k = l
  · subst hk
    rw [Function.update_self, State.parent, turn, modify_mem_self]
  · rw [Function.update_of_ne hk, State.parent, turn, modify_mem_of_ne _ hk]
    rfl

theorem sameNodes_turn (s : State) (l : ℕ) (p : Option ℕ) : SameNodes s (s.turn l p) :=
  sameNodes_modify _ rfl rfl

theorem closed_turn (h : Closed s.parent s.nodelist) {p : Option ℕ}
    (hp : ∀ k, p = some k → k ∈ s.nodelist) :
    Closed (Function.update s.parent l p) s.nodelist := by
  intro x hx y hy
  by_cases hxl : x = l
  · subst hxl
    rw [Function.update_self] at hy
    exact hp y hy
  · rw [Function.update_of_ne hxl] at hy
    exact h x hx y hy

/-- To turn the pointer of the node of `child` loses no way, unless `child` is no longer
reached. -/
theorem preserves_turn (hsame : SameNodes s s') (hl : s.getNode cfg graph (some child) = some l)
    (hne : ∀ k, k ≠ l → s'.parent k = s.parent k)
    (hchild : s.Reaches cfg graph child → s'.Reaches cfg graph child) :
    Preserves cfg graph s s' := by
  rintro a ⟨x, r, hx, hr, hleads⟩
  refine ⟨x, r, by rw [hsame.getNode, hx], by rw [hsame.getNode, hr], ?_⟩
  refine hleads.turn hne fun hlr => ?_
  obtain ⟨l', r', hl', hr', hleads'⟩ := hchild ⟨l, r, hl, hr, hlr⟩
  rw [hsame.getNode] at hl' hr'
  obtain rfl := Option.some.inj (hl.symm.trans hl')
  obtain rfl := Option.some.inj (hr.symm.trans hr')
  exact hleads'

theorem sameNodes_setParent (cfg : Config) (graph : ℕ) (child : Ipaddr) (parentNode : Option ℕ)
    (l : ℕ) (s : State) : SameNodes s (s.setParent cfg graph child parentNode l) := by
  unfold setParent
  split
  · exact (sameNodes_turn s l parentNode).trans (sameNodes_turn _ l _)
  · exact sameNodes_turn s l parentNode

theorem Sound.extends_setParent (hs : s.Sound cfg graph)
    (hl : s.getNode cfg graph (some child) = some l)
    (hp : ∀ k, parentNode = some k → k ∈ s.nodelist) :
    Extends cfg graph s (s.setParent cfg graph child parentNode l) := by
  have hturn : (s.turn l parentNode).Sound cfg graph := by
    refine hs.of_sameNodes (sameNodes_turn s l parentNode) rfl rfl ?_
    rw [parent_turn]
    exact closed_turn hs.parents hp
  unfold setParent
  split
  · -- the pointer is turned back: the parents are those from before
    have hsame := (sameNodes_turn s l parentNode).trans (sameNodes_turn _ l (s.parent l))
    have hparent : ((s.turn l parentNode).turn l (s.parent l)).parent = s.parent := by
      rw [parent_turn, parent_turn, Function.update_idem, Function.update_eq_self]
    refine ⟨hs.of_sameNodes hsame rfl rfl ?_, fun a ha => (hsame.reaches hparent).2 ha⟩
    rw [hparent]
    exact hs.parents
  · rename_i hkeep
    refine ⟨hturn, preserves_turn (sameNodes_turn s l parentNode) hl (fun k hk => ?_)
      fun hreach => ?_⟩
    · rw [parent_turn, Function.update_of_ne hk]
    · rw [← hturn.isAddrReachable_iff]
      rw [← hs.isAddrReachable_iff] at hreach
      by_contra hlost
      exact hkeep ⟨hreach, by simpa using hlost⟩

/-! ## New nodes -/

/-- What `uip_sr_update_node` does for an address without a node. -/
theorem addNode_eq_some (hadd : s.addNode = some (l, s')) :
    ∃ memb, Pool.alloc s.nodememb = some (l, memb) ∧
      s' = { s.turn l none with
        nodememb := memb
        nodelist := s.nodelist.erase l ++ [l]
        numNodes := s.numNodes + 1 } := by
  unfold addNode at hadd
  split at hadd
  · cases hadd
  · rename_i l' memb halloc
    obtain ⟨rfl, rfl⟩ := Prod.mk.inj (Option.some.inj hadd)
    exact ⟨memb, halloc, rfl⟩

theorem Sound.not_mem_of_alloc {memb : Pool.Blocks} (hs : s.Sound cfg graph)
    (halloc : Pool.alloc s.nodememb = some (l, memb)) : l ∉ s.nodelist := fun hmem => by
  have hfree := (Pool.alloc_eq_some halloc).1
  rw [(hs.holds.used l).2 hmem] at hfree
  cases hfree

theorem Sound.nodelist_addNode (hs : s.Sound cfg graph) (hadd : s.addNode = some (l, s')) :
    l ∉ s.nodelist ∧ s'.nodelist = s.nodelist ++ [l] := by
  obtain ⟨memb, halloc, rfl⟩ := addNode_eq_some hadd
  have hl := hs.not_mem_of_alloc halloc
  exact ⟨hl, congrArg (· ++ [l]) (List.erase_of_not_mem hl)⟩

/-- A node that was there is as it was. -/
theorem mem_addNode (hadd : s.addNode = some (l, s')) (hk : k ≠ l) (lifetime : ℕ) :
    (s'.initNode graph child lifetime l).mem k = s.mem k := by
  have hinit : (s'.initNode graph child lifetime l).mem k = s'.mem k := modify_mem_of_ne _ hk
  obtain ⟨memb, -, rfl⟩ := addNode_eq_some hadd
  have hturn : (s.turn l none).mem k = s.mem k := modify_mem_of_ne _ hk
  exact hinit.trans hturn

/-- The new node. -/
theorem mem_addNode_self (hadd : s.addNode = some (l, s')) (lifetime : ℕ) :
    (s'.initNode graph child lifetime l).mem l =
      { lifetime := lifetime, graph := graph, linkIdentifier := child.linkId, parent := none } := by
  obtain ⟨memb, -, rfl⟩ := addNode_eq_some hadd
  refine (modify_mem_self _).trans ?_
  have hturn : (s.turn l none).mem l = { s.mem l with parent := none } := modify_mem_self _
  rw [hturn]

theorem Sound.sound_addNode (hs : s.Sound cfg graph)
    (hnew : ∀ k ∈ s.nodelist, (s.mem k).linkIdentifier ≠ child.linkId)
    (hadd : s.addNode = some (l, s')) (lifetime : ℕ) :
    (s'.initNode graph child lifetime l).Sound cfg graph := by
  obtain ⟨hl, hlist⟩ := hs.nodelist_addNode hadd
  have hother : ∀ k ∈ s.nodelist, k ≠ l := fun k hk heq => hl (heq ▸ hk)
  have hmem : ∀ k ∈ s.nodelist, (s'.initNode graph child lifetime l).mem k = s.mem k :=
    fun k hk => mem_addNode hadd (hother k hk) lifetime
  have hself : (s'.initNode graph child lifetime l).mem l = _ := mem_addNode_self hadd lifetime
  have hlist' : (s'.initNode graph child lifetime l).nodelist = s.nodelist ++ [l] := hlist
  refine ⟨?_, ?_, ?_, ?_, ?_, ?_⟩
  · obtain ⟨memb, -, rfl⟩ := addNode_eq_some hadd
    rw [hlist', List.length_append]
    exact congrArg (· + 1) hs.count
  · obtain ⟨memb, halloc, rfl⟩ := addNode_eq_some hadd
    rw [← hs.blocks]
    obtain ⟨-, rfl⟩ := Pool.alloc_eq_some halloc
    exact List.length_set
  · rw [hlist']
    obtain ⟨memb, halloc, rfl⟩ := addNode_eq_some hadd
    exact (hs.holds.alloc halloc).of_perm (List.perm_append_singleton l s.nodelist).symm
  · intro k hk
    rw [hlist', List.mem_append, List.mem_singleton] at hk
    rcases hk with hk | rfl
    · rw [hmem k hk, hs.graphs k hk]
    · rw [hself]
  · intro x hx y hy heq
    rw [hlist', List.mem_append, List.mem_singleton] at hx hy
    rcases hx with hx | rfl <;> rcases hy with hy | rfl
    · rw [hmem x hx, hmem y hy] at heq
      exact hs.ids x hx y hy heq
    · rw [hmem x hx, hself] at heq
      exact absurd heq (hnew x hx)
    · rw [hmem y hy, hself] at heq
      exact absurd heq.symm (hnew y hy)
    · rfl
  · intro x hx y hy
    rw [hlist', List.mem_append, List.mem_singleton] at hx ⊢
    rcases hx with hx | rfl
    · rw [State.parent, hmem x hx] at hy
      exact Or.inl (hs.parents x hx y hy)
    · rw [State.parent, hself] at hy
      cases hy

/-- A new node loses no way. -/
theorem Sound.extends_addNode (hs : s.Sound cfg graph)
    (hnew : ∀ k ∈ s.nodelist, (s.mem k).linkIdentifier ≠ child.linkId)
    (hadd : s.addNode = some (l, s')) (lifetime : ℕ) :
    Extends cfg graph s (s'.initNode graph child lifetime l) := by
  have hsound := hs.sound_addNode hnew hadd lifetime
  obtain ⟨hl, hlist⟩ := hs.nodelist_addNode hadd
  have hmem : ∀ k ∈ s.nodelist, (s'.initNode graph child lifetime l).mem k = s.mem k :=
    fun k hk => mem_addNode hadd (fun heq => hl (heq ▸ hk)) lifetime
  have hnode : ∀ a k, s.getNode cfg graph (some a) = some k →
      (s'.initNode graph child lifetime l).getNode cfg graph (some a) = some k := by
    intro a k hk
    have hkmem := mem_of_getNode hk
    refine hsound.getNode_eq_some_iff.2 ⟨hlist ▸ List.mem_append_left _ hkmem, ?_⟩
    rw [← nodeIpaddr_of_getNode hk, nodeIpaddr, nodeIpaddr, hmem k hkmem]
  refine ⟨hsound, ?_⟩
  rintro a ⟨x, r, hx, hr, hleads⟩
  refine ⟨x, r, hnode a x hx, hnode _ r hr, ?_⟩
  refine (hs.parents.leads_congr (fun k hk => ?_) (mem_of_getNode hx)).2 hleads
  rw [State.parent, hmem k hk]
  rfl

theorem Sound.getNode_addNode (hs : s.Sound cfg graph) (hchild : cfg.dagId.SameNetwork child)
    (hnew : ∀ k ∈ s.nodelist, (s.mem k).linkIdentifier ≠ child.linkId)
    (hadd : s.addNode = some (l, s')) (lifetime : ℕ) :
    (s'.initNode graph child lifetime l).getNode cfg graph (some child) = some l := by
  have hlist := (hs.nodelist_addNode hadd).2
  refine (hs.sound_addNode hnew hadd lifetime).getNode_eq_some_iff.2 ⟨?_, ?_⟩
  · have hmem : l ∈ s'.nodelist := hlist ▸ List.mem_append_right _ List.mem_cons_self
    exact hmem
  · rw [nodeIpaddr, mem_addNode_self hadd]
    exact Ipaddr.withLinkId_linkId hchild

/-- An address that keeps its node, or gets the only one it has. -/
theorem Sound.extends_updateChild (hs : s.Sound cfg graph)
    (hchild : cfg.dagId.SameNetwork child) (parentNode : Option ℕ)
    (hp : ∀ k, parentNode = some k → k ∈ s.nodelist) (lifetime : ℕ) :
    Extends cfg graph s
      (s.updateChild cfg graph child (s.getNode cfg graph (some child)) parentNode lifetime).2 := by
  cases hnode : s.getNode cfg graph (some child) with
  | some l =>
      have hinit := hs.extends_initNode lifetime hnode
      refine hinit.trans (hinit.sound.extends_setParent ?_ hp)
      rw [(hs.sameNodes_initNode lifetime hnode).getNode, hnode]
  | none =>
      rw [updateChild]
      cases hadd : s.addNode with
      | none => exact .refl hs
      | some new =>
          obtain ⟨l, s'⟩ := new
          have hnew := fun k hk => hs.linkId_ne hchild hnode (l := k) hk
          have hinit := hs.extends_addNode hnew hadd lifetime
          refine hinit.trans (hinit.sound.extends_setParent ?_ fun k hk => ?_)
          · exact hs.getNode_addNode hchild hnew hadd lifetime
          · have hmem : k ∈ s'.nodelist :=
              (hs.nodelist_addNode hadd).2 ▸ List.mem_append_left _ (hp k hk)
            exact hmem

/-- A new node takes no address from its node. -/
theorem Sound.getNode_addNode_of_ne (hs : s.Sound cfg graph) {p : Ipaddr}
    (hp : cfg.dagId.SameNetwork p) (hnone : s.getNode cfg graph (some p) = none)
    (hadd : s.addNode = some (l, s')) (lifetime : ℕ) (ha : a ≠ p) :
    (s'.initNode graph p lifetime l).getNode cfg graph (some a) =
      s.getNode cfg graph (some a) := by
  have hnew := fun k hk => hs.linkId_ne hp hnone (l := k) hk
  have hsound := hs.sound_addNode hnew hadd lifetime
  obtain ⟨hl, hlist⟩ := hs.nodelist_addNode hadd
  have hlist' : (s'.initNode graph p lifetime l).nodelist = s.nodelist ++ [l] := hlist
  ext k
  rw [hsound.getNode_eq_some_iff, hs.getNode_eq_some_iff, hlist', List.mem_append,
    List.mem_singleton]
  by_cases hkl : k = l
  · subst hkl
    refine iff_of_false (fun ⟨_, hk⟩ => ha ?_) fun ⟨hk, _⟩ => hl hk
    rw [← hk, nodeIpaddr, mem_addNode_self hadd]
    exact Ipaddr.withLinkId_linkId hp
  · rw [or_iff_left hkl, nodeIpaddr, nodeIpaddr, mem_addNode hadd hkl]

/-- For an address without a node there is no room, or it has a node at the end of the list. -/
theorem Sound.updateChild_none (hs : s.Sound cfg graph) (p : Ipaddr) (parentNode : Option ℕ)
    (lifetime : ℕ) :
    (cfg.linkNum ≤ s.nodelist.length ∧
      s.updateChild cfg graph p none parentNode lifetime = (none, s)) ∨
    ∃ l t s₁, s.nodelist.length < cfg.linkNum ∧ s.addNode = some (l, t) ∧
      s.updateChild cfg graph p none parentNode lifetime = (some l, s₁) ∧
      SameNodes (t.initNode graph p lifetime l) s₁ ∧ s₁.nodelist = s.nodelist ++ [l] := by
  have halloc := hs.holds.alloc_eq_none_iff
  rw [hs.blocks] at halloc
  cases hadd : s.addNode with
  | none =>
      refine Or.inl ⟨halloc.1 ?_, by simp only [updateChild, hadd]⟩
      cases hnone : Pool.alloc s.nodememb with
      | none => rfl
      | some new => simp [addNode, hnone] at hadd
  | some new =>
      obtain ⟨l, t⟩ := new
      have hroom : s.nodelist.length < cfg.linkNum := by
        by_contra hfull
        rw [addNode, halloc.2 (Nat.le_of_not_lt hfull)] at hadd
        cases hadd
      have hsame := sameNodes_setParent cfg graph p parentNode l (t.initNode graph p lifetime l)
      refine Or.inr ⟨l, t, _, hroom, rfl, by simp only [updateChild, hadd], hsame, ?_⟩
      rw [hsame.list]
      exact (hs.nodelist_addNode hadd).2

/-- The call for a parent that gets a node comes before the rest. -/
theorem updateNode_of_none {p : Ipaddr} {lifetime : ℕ}
    (hnone : s.getNode cfg graph (some p) = none)
    (hcall : s.updateChild cfg graph p none none infiniteLifetime = (some l, s₁)) :
    s.updateNode cfg graph child (some p) lifetime =
      s₁.updateChild cfg graph child (s.getNode cfg graph (some child)) (some l) lifetime := by
  simp only [updateNode, hnone, hcall]

/-- The update adds one node for an address, not two. They would be two for an address that is
its own parent and has no node, when there is room for both. -/
def AddsOne (cfg : Config) (graph : ℕ) (child : Ipaddr) (parent : Option Ipaddr) (s : State) :
    Prop :=
  parent = some child → s.getNode cfg graph (some child) = none →
    cfg.linkNum < s.nodelist.length + 2

/-- `uip_sr_update_node` keeps the graph sound and loses no way to the root. -/
theorem Sound.extends_updateNode (hs : s.Sound cfg graph) (hchild : cfg.dagId.SameNetwork child)
    (parent : Option Ipaddr) (hparent : ∀ p, parent = some p → cfg.dagId.SameNetwork p)
    (hok : s.AddsOne cfg graph child parent) (lifetime : ℕ) :
    Extends cfg graph s (s.updateNode cfg graph child parent lifetime).2 := by
  cases parent with
  | none => exact hs.extends_updateChild hchild none (fun k hk => nomatch hk) lifetime
  | some p =>
      have hp := hparent p rfl
      cases hnode : s.getNode cfg graph (some p) with
      | some l =>
          simp only [updateNode, hnode]
          refine hs.extends_updateChild hchild (some l) (fun k hk => ?_) lifetime
          obtain rfl := Option.some.inj hk
          exact mem_of_getNode hnode
      | none =>
          have hfirst := hs.extends_updateChild hp none (fun k hk => nomatch hk)
            infiniteLifetime
          rw [hnode] at hfirst
          rcases hs.updateChild_none p none infiniteLifetime with
            ⟨-, hcall⟩ | ⟨l, t, s₁, hroom, hadd, hcall, hsame, hlist⟩
          · simp only [updateNode, hnode, hcall]
            exact .refl hs
          · rw [hcall] at hfirst
            rw [updateNode_of_none hnode hcall]
            refine hfirst.trans ?_
            by_cases hpc : p = child
            · -- no second node for the same address: there is no room for it
              subst hpc
              have hfull := hok rfl hnode
              have hlength := congrArg List.length hlist
              rw [List.length_append, List.length_singleton] at hlength
              rw [hnode]
              rcases hfirst.sound.updateChild_none p (some l) lifetime with
                ⟨-, hsecond⟩ | ⟨_, _, _, hroom', -⟩
              · rw [hsecond]
                exact .refl hfirst.sound
              · change s₁.nodelist.length < cfg.linkNum at hroom'
                omega
            · have hkeep : s₁.getNode cfg graph (some child) =
                  s.getNode cfg graph (some child) :=
                (hsame.getNode _).trans
                  (hs.getNode_addNode_of_ne hp hnode hadd infiniteLifetime (Ne.symm hpc))
              rw [← hkeep]
              refine hfirst.sound.extends_updateChild hchild (some l) (fun k hk => ?_) lifetime
              obtain rfl := Option.some.inj hk
              change l ∈ s₁.nodelist
              rw [hlist]
              exact List.mem_append_right _ List.mem_cons_self

/-- An address that is its own parent and has no node gets two nodes when there is room. -/
theorem Sound.not_distinctIds_updateNode (hs : s.Sound cfg graph)
    (hchild : cfg.dagId.SameNetwork child) (hnone : s.getNode cfg graph (some child) = none)
    (hroom : s.nodelist.length + 2 ≤ cfg.linkNum) (lifetime : ℕ) :
    ¬ (s.updateNode cfg graph child (some child) lifetime).2.DistinctIds := by
  have hfirst := hs.extends_updateChild hchild none (fun k hk => nomatch hk)
    infiniteLifetime
  rw [hnone] at hfirst
  rcases hs.updateChild_none child none infiniteLifetime with
    ⟨hfull, -⟩ | ⟨l, t, s₁, -, hadd, hcall, hsame, hlist⟩
  · omega
  rw [hcall] at hfirst
  rw [updateNode_of_none hnone hcall, hnone]
  rcases Sound.updateChild_none hfirst.sound child (some l) lifetime with
    ⟨hfull, -⟩ | ⟨k, t', s₂, -, hadd', hcall', hsame', hlist'⟩
  · change cfg.linkNum ≤ s₁.nodelist.length at hfull
    rw [hlist, List.length_append, List.length_singleton] at hfull
    omega
  have hk := (hfirst.sound.nodelist_addNode hadd').1
  have hl₁ : l ∈ s₁.nodelist := hlist ▸ List.mem_append_right _ List.mem_cons_self
  have hne : l ≠ k := fun heq => hk (heq ▸ hl₁)
  rw [hcall']
  intro hids
  refine hne (hids l ?_ k ?_ ?_)
  · exact hlist' ▸ List.mem_append_left _ hl₁
  · exact hlist' ▸ List.mem_append_right _ List.mem_cons_self
  · change (s₂.mem l).linkIdentifier = (s₂.mem k).linkIdentifier
    have hid : (s₁.mem l).linkIdentifier = child.linkId := by
      rw [hsame.ids, mem_addNode_self hadd]
    rw [hsame'.ids, hsame'.ids, mem_addNode_self hadd', mem_addNode hadd' hne]
    exact hid

end State

end Den2ne.SourceRoute
