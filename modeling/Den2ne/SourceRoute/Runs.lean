import Den2ne.SourceRoute.Update

/-!
# Runs of the source-route graph

`uip_sr_periodic` takes nodes away, but only nodes with lifetime 0 that are nobody's parent, so
that the parents of the remaining nodes remain. Then `Intact` holds in every state of a run in
which no update makes two nodes for one address, and what is reached is lost only when its own
node is taken away.
-/

namespace Den2ne.SourceRoute

open Pointers State

variable {cfg : Config} {graph l r k seconds : ℕ} {s s' : State} {a : Ipaddr} {c : Call}

/-! ## Aging -/

/-- `s'` is left of `s`, and of the nodes that are gone each is in `ls` and has lifetime 0. -/
structure Aged (cfg : Config) (graph : ℕ) (ls : List ℕ) (s s' : State) : Prop where
  sound : s'.Sound cfg graph
  subset : s'.nodelist ⊆ s.nodelist
  graphs : ∀ k, (s'.mem k).graph = (s.mem k).graph
  ids : ∀ k, (s'.mem k).linkIdentifier = (s.mem k).linkIdentifier
  parent : s'.parent = s.parent
  gone : ∀ k ∈ s.nodelist, k ∉ s'.nodelist → k ∈ ls ∧ (s.mem k).lifetime = 0

/-- A node that is nobody's parent is taken from the list. -/
theorem State.Sound.remove (hs : s.Sound cfg graph) (hl : l ∈ s.nodelist)
    (hnone : ∀ k ∈ s.nodelist, s.parent k ≠ some l) :
    State.Sound cfg graph
      { s with
        nodelist := s.nodelist.erase l
        nodememb := Pool.free s.nodememb l
        numNodes := s.numNodes - 1 } := by
  have hnodup := hs.holds.nodup
  refine ⟨?_, ?_, ?_, ?_, ?_, ?_⟩
  · change s.numNodes - 1 = ((s.nodelist.erase l).length : ℤ)
    have hpos := List.length_pos_of_mem hl
    rw [hs.count, List.length_erase_of_mem hl]
    omega
  · rw [← hs.blocks]
    exact List.length_set
  · exact Pool.Holds.free (hs.holds.of_perm (List.perm_cons_erase hl))
  · exact fun k hk => hs.graphs k (List.mem_of_mem_erase hk)
  · exact fun k hk m hm => hs.ids k (List.mem_of_mem_erase hk) m (List.mem_of_mem_erase hm)
  · intro x hx y hy
    have hx' := List.mem_of_mem_erase hx
    refine (hnodup.mem_erase_iff).2 ⟨?_, hs.parents x hx' y hy⟩
    rintro rfl
    exact hnone x hx' hy

/-- One turn takes the node or changes its lifetime. -/
theorem State.Sound.aged_visit (hs : s.Sound cfg graph) (seconds : ℕ) (hl : l ∈ s.nodelist) :
    Aged cfg graph [l] s (s.visit seconds l) ∧
      ∀ k, k ≠ l → ((s.visit seconds l).mem k).lifetime = (s.mem k).lifetime := by
  have hrefl : Aged cfg graph [l] s s :=
    ⟨hs, List.Subset.refl _, fun _ => rfl, fun _ => rfl, rfl, fun k hk hk' => absurd hk hk'⟩
  unfold visit
  split
  · rename_i hzero
    split
    · exact ⟨hrefl, fun _ _ => rfl⟩
    · rename_i hany
      have hnone : ∀ k ∈ s.nodelist, s.parent k ≠ some l := by
        simpa using hany
      refine ⟨⟨hs.remove hl hnone, List.erase_subset, fun _ => rfl, fun _ => rfl, rfl, ?_⟩,
        fun _ _ => rfl⟩
      intro k hk hgone
      have hkl : k = l := by
        by_contra hne
        exact hgone ((List.mem_erase_of_ne hne).2 hk)
      subst hkl
      exact ⟨List.mem_cons_self, hzero⟩
  · split
    · refine ⟨⟨?_, List.Subset.refl _, ?_, ?_, ?_, fun k hk hk' => absurd hk hk'⟩, ?_⟩
      · exact (hs.extends_modify _ rfl rfl rfl).sound
      · exact modify_field Node.graph _ rfl
      · exact modify_field Node.linkIdentifier _ rfl
      · exact modify_parent_of_eq _ rfl
      · intro k hk
        rw [modify_mem_of_ne _ hk]
    · exact ⟨hrefl, fun _ _ => rfl⟩

/-- The turns of the loop. A node that is gone had lifetime 0 before the first of them, as a turn
changes the lifetime of its own node only. -/
theorem State.Sound.aged_foldl {ls : List ℕ} (hs : s.Sound cfg graph) (hls : ls ⊆ s.nodelist)
    (hnodup : ls.Nodup) : Aged cfg graph ls s (ls.foldl (visit seconds) s) := by
  induction ls generalizing s with
  | nil => exact ⟨hs, List.Subset.refl _, fun _ => rfl, fun _ => rfl, rfl, fun k hk hk' =>
      absurd hk hk'⟩
  | cons l ls ih =>
      obtain ⟨hl, hls⟩ := List.cons_subset.1 hls
      obtain ⟨hnot, hnodup⟩ := List.nodup_cons.1 hnodup
      obtain ⟨hvisit, hlife⟩ := hs.aged_visit seconds hl
      have hrest : ls ⊆ (s.visit seconds l).nodelist := by
        intro k hk
        by_contra hgone
        have hkl := List.mem_singleton.1 (hvisit.gone k (hls hk) hgone).1
        exact hnot (hkl ▸ hk)
      have htail := ih hvisit.sound hrest hnodup
      rw [List.foldl_cons]
      refine ⟨htail.sound, List.Subset.trans htail.subset hvisit.subset,
        fun k => (htail.graphs k).trans (hvisit.graphs k),
        fun k => (htail.ids k).trans (hvisit.ids k), htail.parent.trans hvisit.parent, ?_⟩
      intro k hk hgone
      by_cases hk' : k ∈ (s.visit seconds l).nodelist
      · obtain ⟨hmem, hzero⟩ := htail.gone k hk' hgone
        refine ⟨List.mem_cons_of_mem _ hmem, ?_⟩
        rwa [hlife k fun heq => hnot (heq ▸ hmem)] at hzero
      · obtain ⟨hmem, hzero⟩ := hvisit.gone k hk hk'
        exact ⟨List.mem_cons.2 (Or.inl (List.mem_singleton.1 hmem)), hzero⟩

theorem State.Sound.aged_periodic (hs : s.Sound cfg graph) (seconds : ℕ) :
    Aged cfg graph s.nodelist s (s.periodic seconds) :=
  hs.aged_foldl (List.Subset.refl _) hs.holds.nodup

/-- An address whose node remains is still reached: the nodes on its way remain with it. -/
theorem Aged.reaches {ls : List ℕ} (h : Aged cfg graph ls s s')
    (hreach : s.Reaches cfg graph a) (hl : s.getNode cfg graph (some a) = some l)
    (hkept : l ∈ s'.nodelist) : s'.Reaches cfg graph a := by
  have hnode : ∀ b k, s.getNode cfg graph (some b) = some k → k ∈ s'.nodelist →
      s'.getNode cfg graph (some b) = some k := by
    intro b k hk hmem
    refine h.sound.getNode_eq_some_iff.2 ⟨hmem, ?_⟩
    rw [← nodeIpaddr_of_getNode hk, nodeIpaddr, nodeIpaddr, h.ids]
  obtain ⟨x, r, hx, hr, hleads⟩ := hreach
  obtain rfl := Option.some.inj (hl.symm.trans hx)
  rw [← h.parent] at hleads
  exact ⟨l, r, hnode a l hl hkept, hnode _ r hr (h.sound.parents.leads_mem hkept hleads), hleads⟩

/-! ## Runs -/

/-- What is claimed of every state. -/
structure Intact (cfg : Config) (graph : ℕ) (s : State) : Prop where
  count : s.numNodes = s.nodelist.length
  nodup : s.nodelist.Nodup
  ids : s.DistinctIds
  parents : ∀ l ∈ s.nodelist, s.parent l = none ∨ ∃ p ∈ s.nodelist, s.parent l = some p
  reachable : ∀ a, s.isAddrReachable cfg graph a = true ↔ s.Reaches cfg graph a

theorem State.Sound.intact (hs : s.Sound cfg graph) : Intact cfg graph s where
  count := hs.count
  nodup := hs.holds.nodup
  ids := hs.ids
  parents l hl := by
    cases hp : s.parent l with
    | none => exact Or.inl rfl
    | some p => exact Or.inr ⟨p, hs.parents l hl p hp, rfl⟩
  reachable := hs.isAddrReachable_iff

/-- The addresses of the call are in the network of the DODAG. -/
def Call.InNetwork (cfg : Config) : Call → Prop
  | .updateNode child parent _ =>
      cfg.dagId.SameNetwork child ∧ ∀ p, parent = some p → cfg.dagId.SameNetwork p
  | .expireParent child parent => cfg.dagId.SameNetwork child ∧ cfg.dagId.SameNetwork parent
  | .periodic _ => True

/-- An update does not make two nodes for one address. -/
def Call.AddsOne (cfg : Config) (graph : ℕ) (s : State) : Call → Prop
  | .updateNode child parent _ => s.AddsOne cfg graph child parent
  | _ => True

/-- What is claimed of a call that leads from `s` to `s'`. -/
def LosesOnlyRemoved (cfg : Config) (graph : ℕ) (s s' : State) : Call → Prop
  | .periodic _ =>
      (∀ l ∈ s.nodelist, l ∉ s'.nodelist → (s.mem l).lifetime = 0) ∧
        ∀ a, s.Reaches cfg graph a → ¬ s'.Reaches cfg graph a →
          ∃ l, s.getNode cfg graph (some a) = some l ∧ l ∉ s'.nodelist ∧ (s.mem l).lifetime = 0
  | _ => ∀ a, s.Reaches cfg graph a → s'.Reaches cfg graph a

theorem sound_init : (State.init cfg).Sound cfg graph where
  count := rfl
  blocks := List.length_replicate
  holds := Pool.holds_init cfg.linkNum
  graphs _ hl := nomatch hl
  ids _ hl := nomatch hl
  parents _ hl := nomatch hl

theorem sound_boot : (State.boot cfg graph).Sound cfg graph :=
  (sound_init.extends_updateNode rfl none (fun _ hp => nomatch hp) (fun hp => nomatch hp) _).sound

/-- One call. -/
theorem State.Sound.step (hs : s.Sound cfg graph) (hc : c.InNetwork cfg)
    (hok : Call.AddsOne cfg graph s c)
    (hstep : SourceRoute.step cfg graph c s = some s') :
    s'.Sound cfg graph ∧ LosesOnlyRemoved cfg graph s s' c := by
  cases c with
  | updateNode child parent lifetime =>
      obtain rfl := Option.some.inj hstep
      have hext := hs.extends_updateNode hc.1 parent hc.2 hok lifetime
      exact ⟨hext.sound, hext.preserves⟩
  | expireParent child parent =>
      obtain rfl := Option.some.inj hstep
      have hext := hs.extends_expireParent child parent
      exact ⟨hext.sound, hext.preserves⟩
  | periodic seconds =>
      obtain rfl := Option.some.inj hstep
      have haged := hs.aged_periodic seconds
      refine ⟨haged.sound, fun l hl hgone => (haged.gone l hl hgone).2, fun a hreach hlost => ?_⟩
      obtain ⟨l, r, hl, -⟩ := id hreach
      have hgone : l ∉ (s.periodic seconds).nodelist := fun hkept =>
        hlost (haged.reaches hreach hl hkept)
      exact ⟨l, hl, hgone, (haged.gone l (mem_of_getNode hl) hgone).2⟩

/-- An update that makes two nodes for one address gives them the same identifier. -/
theorem State.Sound.addsOne_of_intact (hs : s.Sound cfg graph) (hc : c.InNetwork cfg)
    (hstep : SourceRoute.step cfg graph c s = some s') (hs' : Intact cfg graph s') :
    Call.AddsOne cfg graph s c := by
  cases c with
  | updateNode child parent lifetime =>
      obtain rfl := Option.some.inj hstep
      rintro rfl hnone
      by_contra hroom
      exact hs.not_distinctIds_updateNode hc.1 hnone (by omega) lifetime hs'.ids
  | expireParent child parent => trivial
  | periodic seconds => trivial

/-- In a run with addresses of the DODAG, from the graph with the root on, every state is intact
and every call loses only what it takes away, if and only if no update makes two nodes for one
address. -/
theorem always_intact_iff (cfg : Config) (graph : ℕ) (calls : List Call)
    (hcalls : Transition.Meets (step cfg graph) (fun _ c => c.InNetwork cfg) calls
      (State.boot cfg graph)) :
    Transition.Always (step cfg graph) (fun s => Intact cfg graph s ∧
        ∀ c s', c.InNetwork cfg → Call.AddsOne cfg graph s c → step cfg graph c s = some s' →
          LosesOnlyRemoved cfg graph s s' c) calls (State.boot cfg graph) ↔
      Transition.Meets (step cfg graph) (Call.AddsOne cfg graph) calls (State.boot cfg graph) := by
  have hclaim : ∀ s, s.Sound cfg graph → Intact cfg graph s ∧
      ∀ c s', c.InNetwork cfg → Call.AddsOne cfg graph s c → step cfg graph c s = some s' →
        LosesOnlyRemoved cfg graph s s' c := fun s hs =>
    ⟨hs.intact, fun c s' hc hok hstep => (hs.step hc hok hstep).2⟩
  refine Transition.always_iff_meets_of_meets
    (fun s c s' hs _ hc hok hstep => (Sound.step hs hc hok hstep).1)
    (fun s c s' hs _ hc hstep => ⟨fun hs' => ?_, fun hok => ?_⟩)
    sound_boot (hclaim _ sound_boot) hcalls
  · exact Sound.addsOne_of_intact hs hc hstep hs'.1
  · exact hclaim s' (Sound.step hs hc hok hstep).1

/-! ## A node that is its own parent -/

/-- An address of the network `fd00::/64`. -/
def sampleAddr (i : UInt8) : Ipaddr where
  u8 := [0xfd, 0, 0, 0, 0, 0, 0, 0, 2, 0, 0, 0, 0, 0, 0, i]
  length_u8 := rfl

def sampleConfig : Config where
  linkNum := 4
  removalDelay := 60
  dagId := sampleAddr 1

/-- A child of the root, the expiry of the link, and time that takes the child away. -/
theorem always_intact_iff_child :
    Transition.Always (step sampleConfig 0) (fun s => Intact sampleConfig 0 s ∧
        ∀ c s', c.InNetwork sampleConfig → Call.AddsOne sampleConfig 0 s c →
          step sampleConfig 0 c s = some s' → LosesOnlyRemoved sampleConfig 0 s s' c)
      [.updateNode (sampleAddr 2) (some (sampleAddr 1)) 1800,
        .expireParent (sampleAddr 2) (sampleAddr 1), .periodic 60, .periodic 60]
      (State.boot sampleConfig 0) := by
  refine (always_intact_iff sampleConfig 0 _ ?_).2 ?_
  · exact ⟨⟨rfl, fun p hp => by obtain rfl := Option.some.inj hp; rfl⟩, ⟨rfl, rfl⟩, trivial,
      trivial, trivial⟩
  · refine ⟨fun heq => ?_, trivial, trivial, trivial, trivial⟩
    exact absurd heq (by decide)

/-- An address that is heard of as its own parent gets two nodes. -/
theorem not_always_intact :
    ¬ ∀ s, Transition.run (step sampleConfig 0)
        [.updateNode (sampleAddr 2) (some (sampleAddr 2)) 1800] (State.boot sampleConfig 0) =
          some s → Intact sampleConfig 0 s := by
  intro h
  have hs := (h _ rfl).ids
  exact absurd (hs 1 (by decide) 2 (by decide) (by decide)) (by decide)

end Den2ne.SourceRoute
