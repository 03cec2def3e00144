import Den2ne.SourceRoute.Runs

/-!
# What a report writes

What `uip_sr_update_node` does for a child that names a parent: the nodes of all other addresses
stay as they are, and the child's node gets the lifetime and, unless its old way to the root would
be lost, the parent. The addresses are in a set that is no larger than the pool, so that there is
always room.
-/

namespace Den2ne.SourceRoute

open Pointers State

variable {cfg : Config} {graph l k m seconds : ℕ} {s s' s₁ t : State} {a child p : Ipaddr}
  {A : Finset Ipaddr} {lifetime : ℕ} {parentNode : Option ℕ}

/-- All addresses keep their nodes, and only the node of `child` may change. -/
structure Touches (cfg : Config) (graph : ℕ) (child : Ipaddr) (s s' : State) : Prop where
  node : ∀ {a m}, s.getNode cfg graph (some a) = some m → s'.getNode cfg graph (some a) = some m
  mem : ∀ {a m}, a ≠ child → s.getNode cfg graph (some a) = some m → s'.mem m = s.mem m

/-- Sound, with nodes for addresses of `A` only. -/
structure Orderly (cfg : Config) (graph : ℕ) (A : Finset Ipaddr) (s : State) : Prop where
  sound : s.Sound cfg graph
  within : ∀ l ∈ s.nodelist, s.nodeIpaddr cfg l ∈ A

theorem Touches.refl (s : State) : Touches cfg graph child s s := ⟨id, fun _ _ => rfl⟩

theorem Touches.trans (h : Touches cfg graph child s s₁) (h' : Touches cfg graph child s₁ s') :
    Touches cfg graph child s s' :=
  ⟨fun hm => h'.node (h.node hm), fun ha hm => (h'.mem ha (h.node hm)).trans (h.mem ha hm)⟩

/-- To change the node that an address gets is to change none that was there. -/
theorem Touches.trans_of_none (h : Touches cfg graph p s s₁)
    (hp : s.getNode cfg graph (some p) = none) (h' : Touches cfg graph child s₁ s') :
    Touches cfg graph child s s' := by
  refine ⟨fun hm => h'.node (h.node hm), fun {a m} ha hm => (h'.mem ha (h.node hm)).trans ?_⟩
  refine h.mem (fun hap => ?_) hm
  rw [hap, hp] at hm
  cases hm

theorem State.SameNodes.touches (h : SameNodes s s') (hmem : ∀ m, m ≠ l → s'.mem m = s.mem m)
    (hl : s.getNode cfg graph (some child) = some l) : Touches cfg graph child s s' := by
  refine ⟨fun hm => (h.getNode _).trans hm, fun ha hm => hmem _ fun heq => ha ?_⟩
  rw [← nodeIpaddr_of_getNode hm, ← nodeIpaddr_of_getNode hl, heq]

theorem State.SameNodes.within (h : SameNodes s s')
    (hs : ∀ l ∈ s.nodelist, s.nodeIpaddr cfg l ∈ A) :
    ∀ l ∈ s'.nodelist, s'.nodeIpaddr cfg l ∈ A := by
  intro l hl
  rw [h.list] at hl
  rw [nodeIpaddr, h.ids]
  exact hs l hl

/-- An address without a node leaves room for one. -/
theorem Orderly.room (h : Orderly cfg graph A s) (hA : A.card ≤ cfg.linkNum) (ha : a ∈ A)
    (hnone : s.getNode cfg graph (some a) = none) : s.nodelist.length < cfg.linkNum := by
  have hmaps : Set.MapsTo (s.nodeIpaddr cfg) (s.nodelist.toFinset : Set ℕ)
      ((A.erase a : Finset Ipaddr) : Set Ipaddr) := by
    intro l hl
    rw [List.coe_toFinset, Set.mem_ofPred_eq] at hl
    refine Finset.mem_coe.2 (Finset.mem_erase.2 ⟨fun heq => ?_, h.within l hl⟩)
    have hsome := h.sound.getNode_eq_some_iff.2 ⟨hl, heq⟩
    rw [hnone] at hsome
    cases hsome
  have hinj : Set.InjOn (s.nodeIpaddr cfg) (s.nodelist.toFinset : Set ℕ) := by
    intro l hl m hm heq
    rw [List.coe_toFinset, Set.mem_ofPred_eq] at hl hm
    exact h.sound.eq_of_nodeIpaddr hl hm heq
  have hcard := Finset.card_le_card_of_injOn _ hmaps hinj
  rw [List.toFinset_card_of_nodup h.sound.holds.nodup, Finset.card_erase_of_mem ha] at hcard
  have hpos := Finset.card_pos.2 ⟨a, ha⟩
  omega

/-! ## The parent -/

theorem mem_setParent_of_ne (hm : m ≠ l) :
    (s.setParent cfg graph child parentNode l).mem m = s.mem m := by
  unfold setParent turn
  split
  · rw [modify_mem_of_ne _ hm, modify_mem_of_ne _ hm]
  · rw [modify_mem_of_ne _ hm]

theorem lifetime_setParent :
    ((s.setParent cfg graph child parentNode l).mem l).lifetime = (s.mem l).lifetime := by
  unfold setParent turn
  split
  · rw [modify_mem_self, modify_mem_self]
  · rw [modify_mem_self]

/-- The pointer is turned if the child is reached with it. -/
theorem State.Sound.parent_setParent (hs : s.Sound cfg graph)
    (hk : k ∈ s.nodelist)
    (hreach : (s.turn l (some k)).Reaches cfg graph child) :
    (s.setParent cfg graph child (some k) l).parent l = some k := by
  have hturn : (s.turn l (some k)).Sound cfg graph := by
    refine hs.of_sameNodes (sameNodes_turn s l _) rfl rfl ?_
    rw [parent_turn]
    exact closed_turn hs.parents fun x hx => Option.some.inj hx ▸ hk
  rw [setParent, if_neg, parent_turn, Function.update_self]
  rintro ⟨-, hlost⟩
  rw [(hturn.isAddrReachable_iff child).2 hreach] at hlost
  cases hlost

/-! ## The child -/

/-- The child has a node with the lifetime before its pointer is turned, and nothing else has
changed. -/
theorem Orderly.updateChild (h : Orderly cfg graph A s) (hA : A.card ≤ cfg.linkNum) (hchild : child ∈ A)
    (hnet : cfg.dagId.SameNetwork child) (parentNode : Option ℕ) (lifetime : ℕ) :
    ∃ l t, s.updateChild cfg graph child (s.getNode cfg graph (some child)) parentNode lifetime =
        (some l, t.setParent cfg graph child parentNode l) ∧
      Orderly cfg graph A t ∧ t.getNode cfg graph (some child) = some l ∧
      (t.mem l).lifetime = lifetime ∧ s.nodelist ⊆ t.nodelist ∧ Touches cfg graph child s t := by
  cases hnode : s.getNode cfg graph (some child) with
  | some l =>
      have hsame := h.sound.sameNodes_initNode lifetime hnode
      refine ⟨l, s.initNode graph child lifetime l, rfl, ⟨?_, hsame.within h.within⟩, ?_, ?_, ?_,
        ?_⟩
      · exact (h.sound.extends_initNode lifetime hnode).sound
      · rw [hsame.getNode, hnode]
      · rw [initNode, modify_mem_self]
      · exact List.Subset.refl _
      · exact hsame.touches (fun m hm => modify_mem_of_ne _ hm) hnode
  | none =>
      have hroom := h.room hA hchild hnode
      have hnew := fun k hk => h.sound.linkId_ne hnet hnode (l := k) hk
      rcases h.sound.updateChild_none child parentNode lifetime with
        ⟨hfull, -⟩ | ⟨l, t, -, -, hadd, -⟩
      · omega
      · obtain ⟨hl, hlist⟩ := h.sound.nodelist_addNode hadd
        have hsound := h.sound.sound_addNode hnew hadd lifetime
        have hchildNode := h.sound.getNode_addNode hnet hnew hadd lifetime
        have hlist' : (t.initNode graph child lifetime l).nodelist = s.nodelist ++ [l] := hlist
        refine ⟨l, t.initNode graph child lifetime l, ?_, ⟨hsound, fun k hk => ?_⟩, hchildNode,
          ?_, ?_, ⟨fun {a m} hm => ?_, fun {a m} ha hm => ?_⟩⟩
        · simp only [State.updateChild, hadd]
        · rw [hlist', List.mem_append, List.mem_singleton] at hk
          rcases hk with hk | rfl
          · rw [nodeIpaddr, mem_addNode hadd fun heq => hl (heq ▸ hk)]
            exact h.within k hk
          · rwa [nodeIpaddr_of_getNode hchildNode]
        · rw [mem_addNode_self hadd]
        · rw [hlist']
          exact List.subset_append_left _ _
        · have ha : a ≠ child := fun heq => by
            rw [heq, hnode] at hm
            cases hm
          exact (h.sound.getNode_addNode_of_ne hnet hnode hadd lifetime ha).trans hm
        · exact mem_addNode hadd (fun heq => hl (heq ▸ mem_of_getNode hm)) lifetime

/-- What the call for a child leaves: the child's node has the lifetime, and the parent if that is
on a way to the root without the child. -/
theorem Orderly.updateChild_parent (h : Orderly cfg graph A s) (hA : A.card ≤ cfg.linkNum)
    (hchild : child ∈ A) (hnet : cfg.dagId.SameNetwork child)
    (hp : s.getNode cfg graph (some p) = some k) (lifetime : ℕ) :
    ∃ l s', (s.updateChild cfg graph child (s.getNode cfg graph (some child)) (some k)
        lifetime).2 = s' ∧
      Orderly cfg graph A s' ∧ s'.getNode cfg graph (some child) = some l ∧
      (s'.mem l).lifetime = lifetime ∧ Touches cfg graph child s s' ∧
      ((∀ t, Touches cfg graph child s t → t.Reaches cfg graph p) →
        s'.parent l = some k) := by
  obtain ⟨l, t, hcall, horderly, hl, hlife, hsub, htouch⟩ :=
    h.updateChild hA hchild hnet (some k) lifetime
  have hk : k ∈ t.nodelist := hsub (mem_of_getNode hp)
  have hsame := sameNodes_setParent cfg graph child (some k) l t
  have hext : Extends cfg graph t (t.setParent cfg graph child (some k) l) :=
    horderly.sound.extends_setParent hl fun x hx => Option.some.inj hx ▸ hk
  refine ⟨l, _, rfl, ?_⟩
  rw [hcall]
  refine ⟨⟨hext.sound, hsame.within horderly.within⟩, (hsame.getNode _).trans hl,
    lifetime_setParent.trans hlife, ?_, fun hway => ?_⟩
  · exact htouch.trans (hsame.touches (fun m hm => mem_setParent_of_ne hm) hl)
  · refine horderly.sound.parent_setParent hk ?_
    have hturned : Touches cfg graph child s (t.turn l (some k)) :=
      htouch.trans ((sameNodes_turn t l _).touches (fun m hm => modify_mem_of_ne _ hm) hl)
    obtain ⟨k', r, hk', hr, hleads⟩ := hway _ hturned
    obtain rfl : k = k' := Option.some.inj ((hturned.node hp).symm.trans hk')
    refine ⟨l, r, ((sameNodes_turn t l _).getNode _).trans hl, hr, ?_⟩
    obtain ⟨n, hn⟩ := hleads
    refine ⟨n + 1, ?_⟩
    rw [follow_succ, parent_turn, Function.update_self, Option.bind_some, ← parent_turn]
    exact hn

/-- A report: the child's node has the lifetime, and the parent that is named if that is on a way
to the root without the child. -/
theorem Orderly.updateNode (h : Orderly cfg graph A s) (hA : A.card ≤ cfg.linkNum) (hchild : child ∈ A)
    (hnet : cfg.dagId.SameNetwork child) (hp : p ∈ A) (hpnet : cfg.dagId.SameNetwork p)
    (hne : p ≠ child) (lifetime : ℕ) :
    ∃ l s', (s.updateNode cfg graph child (some p) lifetime).2 = s' ∧
      Orderly cfg graph A s' ∧ s'.getNode cfg graph (some child) = some l ∧
      (s'.mem l).lifetime = lifetime ∧ Touches cfg graph child s s' ∧
      ((∀ t, Touches cfg graph child s t → t.Reaches cfg graph p) →
        ∃ k, s'.getNode cfg graph (some p) = some k ∧ s'.parent l = some k) := by
  cases hnode : s.getNode cfg graph (some p) with
  | some k =>
      obtain ⟨l, s', hcall, horderly, hl, hlife, htouch, hparent⟩ :=
        h.updateChild_parent hA hchild hnet hnode lifetime
      refine ⟨l, s', ?_, horderly, hl, hlife, htouch, fun hway => ⟨k, ?_, hparent hway⟩⟩
      · rw [← hcall]
        simp only [State.updateNode, hnode]
      · exact htouch.node hnode
  | none =>
      obtain ⟨k, t, hcall, horderly, hk, -, -, htouch⟩ :=
        h.updateChild hA hp hpnet none infiniteLifetime
      have hsame := sameNodes_setParent cfg graph p none k t
      have hfirst : Extends cfg graph t (t.setParent cfg graph p none k) :=
        horderly.sound.extends_setParent hk fun _ h => by cases h
      rw [hnode] at hcall
      have htouch₁ : Touches cfg graph p s (t.setParent cfg graph p none k) :=
        htouch.trans (hsame.touches (fun m hm => mem_setParent_of_ne hm) hk)
      -- the child has the node it had before the parent got one
      have hsameChild : (t.setParent cfg graph p none k).getNode cfg graph (some child) =
          s.getNode cfg graph (some child) := by
        rcases h.sound.updateChild_none p none infiniteLifetime with
          ⟨-, hfull⟩ | ⟨l, u, s₁, -, hadd, hcall', hsame', -⟩
        · rw [hfull] at hcall
          cases hcall
        · rw [hcall] at hcall'
          obtain ⟨-, rfl⟩ := Prod.mk.inj hcall'
          rw [hsame'.getNode]
          exact h.sound.getNode_addNode_of_ne hpnet hnode hadd _ (Ne.symm hne)
      have hparentNode : (t.setParent cfg graph p none k).getNode cfg graph (some p) = some k :=
        (hsame.getNode _).trans hk
      have horderly₁ : Orderly cfg graph A (t.setParent cfg graph p none k) :=
        ⟨hfirst.sound, hsame.within horderly.within⟩
      obtain ⟨l, s', hcall', horderly', hl, hlife, htouch', hparent⟩ :=
        horderly₁.updateChild_parent hA hchild hnet hparentNode lifetime
      refine ⟨l, s', ?_, horderly', hl, hlife, htouch₁.trans_of_none hnode htouch',
        fun hway => ⟨k, htouch'.node hparentNode, hparent fun u hu => ?_⟩⟩
      · rw [updateNode_of_none hnode hcall, ← hsameChild, hcall']
      · exact hway u (htouch₁.trans_of_none hnode hu)

/-! ## Expiry and aging -/

theorem Orderly.expireParent (h : Orderly cfg graph A s) (child p : Ipaddr) :
    Orderly cfg graph A (s.expireParent cfg graph child p) ∧
      Touches cfg graph child s (s.expireParent cfg graph child p) := by
  have hsound := (h.sound.extends_expireParent child p).sound
  unfold State.expireParent at hsound ⊢
  split at hsound
  · exact ⟨h, .refl s⟩
  · next l hl =>
      split
      · next hexp =>
          rw [if_pos hexp] at hsound
          have hsame := sameNodes_modify (s := s) (l := l)
            (fun n => { n with lifetime := cfg.removalDelay }) rfl rfl
          exact ⟨⟨hsound, hsame.within h.within⟩,
            hsame.touches (fun m hm => modify_mem_of_ne _ hm) hl⟩
      · exact ⟨h, .refl s⟩

/-- A No-Path report for another parent than the node has does nothing. -/
theorem expireParent_of_ne {q : Ipaddr} (hl : s.getNode cfg graph (some child) = some l)
    (hk : s.getNode cfg graph (some q) = some k) (hparent : s.parent l = some k) (hne : p ≠ q) :
    s.expireParent cfg graph child p = s := by
  unfold State.expireParent
  rw [hl]
  refine if_neg fun hexp => hne ?_
  have hmatch := hexp.1
  rw [hparent] at hmatch
  rw [← (nodeMatchesAddress_iff.1 hmatch).2, nodeIpaddr_of_getNode hk]

/-- A lifetime after some seconds. -/
def aged (seconds n : ℕ) : ℕ := if n = infiniteLifetime then n else n - seconds

theorem lifetime_visit_self :
    ((s.visit seconds l).mem l).lifetime = aged seconds (s.mem l).lifetime := by
  unfold visit
  by_cases hzero : (s.mem l).lifetime = 0
  · have haged : aged seconds 0 = 0 := (if_neg (by decide)).trans (Nat.zero_sub seconds)
    rw [if_pos hzero, hzero, haged]
    split <;> exact hzero
  · rw [if_neg hzero]
    by_cases hinf : (s.mem l).lifetime = infiniteLifetime
    · rw [if_neg (not_not.2 hinf), aged, if_pos hinf]
    · rw [if_pos hinf, modify_mem_self, aged, if_neg hinf]
      split
      · rfl
      · next hle => exact (Nat.sub_eq_zero_of_le (Nat.not_lt.1 hle)).symm

theorem mem_visit_of_ne (hm : m ≠ l) : (s.visit seconds l).mem m = s.mem m := by
  unfold visit
  split
  · split <;> rfl
  · split
    · exact modify_mem_of_ne _ hm
    · rfl

theorem lifetime_foldl {ls : List ℕ} (hnodup : ls.Nodup) (m : ℕ) :
    ((ls.foldl (visit seconds) s).mem m).lifetime =
      if m ∈ ls then aged seconds (s.mem m).lifetime else (s.mem m).lifetime := by
  induction ls generalizing s with
  | nil => rfl
  | cons l ls ih =>
      obtain ⟨hnot, hnodup⟩ := List.nodup_cons.1 hnodup
      rw [List.foldl_cons, ih hnodup]
      by_cases hm : m = l
      · subst hm
        rw [if_neg hnot, if_pos List.mem_cons_self, lifetime_visit_self]
      · rw [mem_visit_of_ne hm]
        simp only [List.mem_cons, hm, false_or]

/-- A node with some lifetime left stays in the list, older. -/
theorem State.Sound.getNode_periodic (hs : s.Sound cfg graph) (seconds : ℕ)
    (hl : s.getNode cfg graph (some a) = some l) (hlife : (s.mem l).lifetime ≠ 0) :
    (s.periodic seconds).getNode cfg graph (some a) = some l ∧
      ((s.periodic seconds).mem l).lifetime = aged seconds (s.mem l).lifetime := by
  have haged := hs.aged_periodic seconds
  have hmem := mem_of_getNode hl
  have hkept : l ∈ (s.periodic seconds).nodelist := by
    by_contra hgone
    exact hlife (haged.gone l hmem hgone).2
  refine ⟨haged.sound.getNode_eq_some_iff.2 ⟨hkept, ?_⟩, ?_⟩
  · rw [← nodeIpaddr_of_getNode hl, nodeIpaddr, nodeIpaddr, haged.ids]
  · rw [periodic, lifetime_foldl hs.holds.nodup, if_pos hmem]

/-- With a node, its parent stays. -/
theorem State.Sound.getNode_parent_periodic (hs : s.Sound cfg graph) (seconds : ℕ)
    (hl : l ∈ (s.periodic seconds).nodelist) (hparent : s.parent l = some k)
    (hk : s.getNode cfg graph (some a) = some k) :
    (s.periodic seconds).getNode cfg graph (some a) = some k ∧
      (s.periodic seconds).parent l = some k := by
  have haged := hs.aged_periodic seconds
  have hparent' : (s.periodic seconds).parent l = some k := by rw [haged.parent, hparent]
  refine ⟨haged.sound.getNode_eq_some_iff.2 ⟨haged.sound.parents l hl k hparent', ?_⟩, hparent'⟩
  rw [← nodeIpaddr_of_getNode hk, nodeIpaddr, nodeIpaddr, haged.ids]

theorem Orderly.periodic (h : Orderly cfg graph A s) (seconds : ℕ) :
    Orderly cfg graph A (s.periodic seconds) := by
  have haged := h.sound.aged_periodic seconds
  refine ⟨haged.sound, fun l hl => ?_⟩
  rw [nodeIpaddr, haged.ids]
  exact h.within l (haged.subset hl)

end Den2ne.SourceRoute
