import Den2ne.RouteTable.Model
import Mathlib.Data.List.Basic
import Mathlib.Data.List.Perm.Basic

/-!
# The lists and the pools of the route table

Every route of the table is in the list of exactly one neighbour, and the blocks in use are those
of the lists. The calls keep this, whatever they do: when a route is allocated there is room in
both pools.
-/

namespace Den2ne.RouteTable

variable {Addr α β : Type*}

theorem flatMap_update_of_notMem [DecidableEq α] {f : α → List β} {l : List α} {a : α}
    (m : List β) (ha : a ∉ l) : l.flatMap (Function.update f a m) = l.flatMap f :=
  List.flatMap_congr fun b hb => Function.update_of_ne (fun heq : b = a => ha (heq ▸ hb)) m f

/-- The list of one element comes first, the others as they were. -/
theorem flatMap_update_perm [DecidableEq α] {f : α → List β} {l : List α} {a : α} (m : List β)
    (hnodup : l.Nodup) (ha : a ∈ l) :
    (l.flatMap (Function.update f a m)).Perm (m ++ (l.erase a).flatMap f) := by
  have hperm := (List.perm_cons_erase ha).flatMap_right (Function.update f a m)
  rwa [List.flatMap_cons, Function.update_self,
    flatMap_update_of_notMem m fun hmem => (hnodup.mem_erase_iff.1 hmem).1 rfl] at hperm

theorem flatMap_perm_erase [DecidableEq α] {f : α → List β} {l : List α} {a : α}
    (ha : a ∈ l) : (l.flatMap f).Perm (f a ++ (l.erase a).flatMap f) :=
  (List.perm_cons_erase ha).flatMap_right f

namespace State

/-- The elements of the lists of all neighbours. -/
def nbrrs (s : State Addr) : List ℕ := s.used.flatMap s.routeList

/-- The routes of the table are those of the neighbours. -/
structure Sound (cfg : Config Addr) (s : State Addr) : Prop where
  count : s.numRoutes = s.routelist.length
  routeBlocks : s.routememb.length = cfg.routeNb
  nbrrBlocks : s.neighborroutememb.length = cfg.routeNb
  routeHolds : Pool.Holds s.routememb s.routelist
  nbrrHolds : Pool.Holds s.neighborroutememb s.nbrrs
  used : s.used.Nodup
  routes : (s.nbrrs.map s.nbrr).Perm s.routelist
  linked : ∀ a ∈ s.used, ∀ n ∈ s.routeList a, (s.routes (s.nbrr n)).neighborRoutes = some a

theorem sound_init (cfg : Config Addr) : (init cfg).Sound cfg where
  count := rfl
  routeBlocks := List.length_replicate
  nbrrBlocks := List.length_replicate
  routeHolds := Pool.holds_init _
  nbrrHolds := Pool.holds_init _
  used := List.nodup_nil
  routes := List.Perm.refl _
  linked _ ha := absurd ha List.not_mem_nil

variable {cfg : Config Addr} {s s' : State Addr} {r : ℕ} {a : Addr} {addr : Ipaddr}
  {out : Option ℕ}

theorem Sound.length_nbrrs (hs : s.Sound cfg) : s.nbrrs.length = s.routelist.length := by
  rw [← hs.routes.length_eq, List.length_map]

/-- A route has an element in the list of its neighbour. -/
theorem Sound.exists_of_mem (hs : s.Sound cfg) (hr : r ∈ s.routelist) :
    ∃ a ∈ s.used, (s.routes r).neighborRoutes = some a ∧ ∃ n ∈ s.routeList a, s.nbrr n = r := by
  obtain ⟨n, hn, rfl⟩ := List.mem_map.1 (hs.routes.mem_iff.2 hr)
  obtain ⟨a, ha, hn⟩ := List.mem_flatMap.1 hn
  exact ⟨a, ha, hs.linked a ha n hn, n, hn, rfl⟩

/-- An element of the list of a neighbour has its route. -/
theorem Sound.mem_of_mem (hs : s.Sound cfg) (ha : a ∈ s.used) {n : ℕ} (hn : n ∈ s.routeList a) :
    s.nbrr n ∈ s.routelist :=
  hs.routes.mem_iff.1 (List.mem_map_of_mem (List.mem_flatMap.2 ⟨a, ha, hn⟩))

/-- The order of the table does not matter. -/
theorem Sound.of_perm {l : List ℕ} (hs : s.Sound cfg) (hl : s.routelist.Perm l) :
    Sound cfg { s with routelist := l } where
  count := by rw [hs.count, hl.length_eq]
  routeBlocks := hs.routeBlocks
  nbrrBlocks := hs.nbrrBlocks
  routeHolds := hs.routeHolds.of_perm hl
  nbrrHolds := hs.nbrrHolds
  used := hs.used
  routes := hs.routes.trans hl
  linked := hs.linked

/-! ## Lookup -/

/-- A route is put first. -/
def toFront (s : State Addr) (r : ℕ) : State Addr :=
  { s with routelist := r :: s.routelist.erase r }

/-- What is found is put first. -/
theorem lookup_eq (s : State Addr) (addr : Ipaddr) :
    s.lookup addr = (s.longest addr s.routelist none 0,
      (s.longest addr s.routelist none 0).elim s s.toFront) := by
  unfold lookup
  cases h : s.longest addr s.routelist none 0 with
  | none => rfl
  | some r =>
      dsimp only [Option.elim_some]
      split
      · rename_i hhead
        obtain ⟨l, hl⟩ := List.head?_eq_some_iff.1 hhead
        have hlist : r :: s.routelist.erase r = s.routelist := by
          rw [hl, List.erase_cons_head]
        rw [toFront, hlist]
      · rfl

theorem longest_mem {rs : List ℕ} {found : Option ℕ} {longestmatch : ℕ}
    (h : s.longest addr rs found longestmatch = some r) : r ∈ rs ∨ found = some r := by
  induction rs generalizing found longestmatch with
  | nil => exact Or.inr h
  | cons k rs ih =>
      unfold longest at h
      split at h
      · split at h
        · obtain rfl := Option.some.inj h
          exact Or.inl List.mem_cons_self
        · rcases ih h with hmem | heq
          · exact Or.inl (List.mem_cons_of_mem _ hmem)
          · obtain rfl := Option.some.inj heq
            exact Or.inl List.mem_cons_self
      · rcases ih h with hmem | heq
        · exact Or.inl (List.mem_cons_of_mem _ hmem)
        · exact Or.inr heq

theorem mem_of_longest (h : s.longest addr s.routelist none 0 = some r) : r ∈ s.routelist :=
  (longest_mem h).resolve_right nofun

theorem Sound.toFront (hs : s.Sound cfg) (hr : r ∈ s.routelist) : (s.toFront r).Sound cfg :=
  hs.of_perm (List.perm_cons_erase hr)

/-! ## Removal -/

variable [DecidableEq Addr]

/-- `s'` is `s` without the route `r`, which also leaves the list of its neighbour. -/
structure Removed (cfg : Config Addr) (r : ℕ) (s s' : State Addr) : Prop where
  sound : s'.Sound cfg
  routelist : s'.routelist = s.routelist.erase r
  routes : s'.routes = s.routes
  length : ∀ a, (s.routes r).neighborRoutes = some a →
    (s'.routeList a).length + 1 = (s.routeList a).length
  used : ∀ a, (s.routes r).neighborRoutes = some a → a ∈ s'.used ∨ s'.routeList a = []

theorem Sound.rm (hs : s.Sound cfg) (hr : r ∈ s.routelist) : Removed cfg r s (s.rm r) := by
  obtain ⟨a, ha, howner, n, hn, hnr⟩ := hs.exists_of_mem hr
  obtain ⟨m, hm⟩ : ∃ m, (s.routeList a).find? (s.nbrr · = r) = some m := by
    rw [← Option.isSome_iff_exists, List.find?_isSome]
    exact ⟨n, hn, decide_eq_true hnr⟩
  have hmem := List.mem_of_find?_eq_some hm
  have hmr : s.nbrr m = r := by simpa using List.find?_some hm
  generalize hL : (s.routeList a).erase m = L
  have hrm : s.rm r =
      { s with
        routelist := s.routelist.erase r
        routeList := Function.update s.routeList a L
        used := if L = [] then s.used.erase a else s.used
        routememb := Pool.free s.routememb r
        neighborroutememb := Pool.free s.neighborroutememb m
        numRoutes := s.numRoutes - 1 } := by
    simp only [State.rm, howner, hm, Option.elim_some, hL]
  -- the elements are those of the other neighbours and the rest of the list of `a`
  have hbefore : s.nbrrs.Perm (m :: (L ++ (s.used.erase a).flatMap s.routeList)) := by
    refine (flatMap_perm_erase ha).trans ?_
    rw [← List.cons_append, ← hL]
    exact (List.perm_cons_erase hmem).append_right _
  have hafter : (s.rm r).nbrrs.Perm (L ++ (s.used.erase a).flatMap s.routeList) := by
    have hnot : a ∉ s.used.erase a := fun hmem => (hs.used.mem_erase_iff.1 hmem).1 rfl
    rw [hrm, nbrrs]
    dsimp only
    split
    · rename_i hnil
      rw [flatMap_update_of_notMem _ hnot, hnil]
      exact List.Perm.refl _
    · exact flatMap_update_perm L hs.used ha
  have hnbrrs : s.nbrrs.Perm (m :: (s.rm r).nbrrs) := hbefore.trans (hafter.symm.cons m)
  have hlist := List.perm_cons_erase hr
  have hused : (s.rm r).used ⊆ s.used := by
    rw [hrm]
    dsimp only
    split
    · exact List.erase_subset
    · exact List.Subset.refl _
  have hcount : (s.rm r).Sound cfg := by
    refine ⟨?_, ?_, ?_, ?_, ?_, ?_, ?_, ?_⟩
    · have hpos := List.length_pos_of_mem hr
      rw [hrm]
      change s.numRoutes - 1 = ((s.routelist.erase r).length : ℤ)
      rw [hs.count, List.length_erase_of_mem hr]
      omega
    · rw [hrm, ← hs.routeBlocks]
      exact List.length_set
    · rw [hrm, ← hs.nbrrBlocks]
      exact List.length_set
    · rw [hrm]
      exact (hs.routeHolds.of_perm hlist).free
    · have hfree := (hs.nbrrHolds.of_perm hnbrrs).free
      rwa [show Pool.free s.neighborroutememb m = (s.rm r).neighborroutememb by rw [hrm]] at hfree
    · rw [hrm]
      dsimp only
      split
      · exact hs.used.erase a
      · exact hs.used
    · have hmap := ((hnbrrs.map s.nbrr).symm.trans hs.routes).trans hlist
      rw [List.map_cons, hmr] at hmap
      have hperm := hmap.cons_inv
      rw [hrm] at hperm ⊢
      exact hperm
    · intro b hb k hk
      have hkb : k ∈ s.routeList b := by
        rw [hrm] at hk
        dsimp only at hk
        by_cases hba : b = a
        · subst hba
          rw [Function.update_self, ← hL] at hk
          exact List.mem_of_mem_erase hk
        · rwa [Function.update_of_ne hba] at hk
      rw [hrm]
      exact hs.linked b (hused hb) k hkb
  refine ⟨hcount, by rw [hrm], by rw [hrm], ?_, ?_⟩
  · intro b hb
    obtain rfl := Option.some.inj (howner.symm.trans hb)
    have hpos := List.length_pos_of_mem hmem
    rw [hrm]
    dsimp only
    rw [Function.update_self, ← hL, List.length_erase_of_mem hmem]
    omega
  · intro b hb
    obtain rfl := Option.some.inj (howner.symm.trans hb)
    rw [hrm]
    dsimp only
    rw [Function.update_self]
    split
    · rename_i hnil
      exact Or.inr hnil
    · exact Or.inl ha

/-! ## Allocation -/

/-- There is room for a route that is allocated. -/
theorem Sound.allocate (hs : s.Sound cfg) (ipaddr : Ipaddr) (length : ℕ)
    (hroom : s.routelist.length < cfg.routeNb)
    (ha : a ∈ s.used) :
    ∃ r ∉ s.routelist, (s.allocate ipaddr length a).1 = some r ∧
      (s.allocate ipaddr length a).2.Sound cfg ∧
      (s.allocate ipaddr length a).2.routelist = r :: s.routelist ∧
      (s.allocate ipaddr length a).2.routes =
        Function.update s.routes r ⟨some a, ipaddr, length⟩ := by
  obtain ⟨⟨r, routememb⟩, hr⟩ : ∃ x, Pool.alloc s.routememb = some x := by
    rw [← Option.ne_none_iff_exists']
    intro hnone
    have hle := hs.routeHolds.alloc_eq_none_iff.1 hnone
    have hblocks := hs.routeBlocks
    omega
  obtain ⟨⟨n, nbrrmemb⟩, hn⟩ : ∃ x, Pool.alloc s.neighborroutememb = some x := by
    rw [← Option.ne_none_iff_exists']
    intro hnone
    have hle := hs.nbrrHolds.alloc_eq_none_iff.1 hnone
    have hblocks := hs.nbrrBlocks
    have hlength := hs.length_nbrrs
    omega
  have hrHolds := hs.routeHolds.alloc hr
  have hnHolds := hs.nbrrHolds.alloc hn
  have hrNot := (List.nodup_cons.1 hrHolds.nodup).1
  have hnNot := (List.nodup_cons.1 hnHolds.nodup).1
  have hfresh : ∀ b ∈ s.used, n ∉ s.routeList b := fun b hb hmem =>
    hnNot (List.mem_flatMap.2 ⟨b, hb, hmem⟩)
  have halloc : s.allocate ipaddr length a =
      (some r,
        { s with
          routelist := r :: s.routelist
          routememb := routememb
          neighborroutememb := nbrrmemb
          nbrr := Function.update s.nbrr n r
          routeList := Function.update s.routeList a (s.routeList a ++ [n])
          routes := Function.update s.routes r ⟨some a, ipaddr, length⟩
          numRoutes := s.numRoutes + 1 }) := by
    simp only [State.allocate, hr, hn, List.erase_of_not_mem hrNot,
      List.erase_of_not_mem (hfresh a ha)]
  have hnbrrs : (s.allocate ipaddr length a).2.nbrrs.Perm (n :: s.nbrrs) := by
    rw [halloc]
    refine (flatMap_update_perm _ hs.used ha).trans ?_
    rw [List.append_assoc, List.singleton_append]
    exact List.perm_middle.trans ((flatMap_perm_erase ha).symm.cons n)
  refine ⟨r, hrNot, by rw [halloc], ?_, by rw [halloc], by rw [halloc]⟩
  have hold : ∀ b ∈ s.used, ∀ k ∈ s.routeList b, Function.update s.nbrr n r k = s.nbrr k :=
    fun b hb k hk => Function.update_of_ne (fun heq : k = n => hfresh b hb (heq ▸ hk)) r s.nbrr
  refine ⟨?_, ?_, ?_, ?_, ?_, ?_, ?_, ?_⟩
  · rw [halloc]
    change s.numRoutes + 1 = ((r :: s.routelist).length : ℤ)
    rw [hs.count, List.length_cons]
    omega
  · rw [halloc, ← hs.routeBlocks]
    obtain ⟨-, rfl⟩ := Pool.alloc_eq_some hr
    exact List.length_set
  · rw [halloc, ← hs.nbrrBlocks]
    obtain ⟨-, rfl⟩ := Pool.alloc_eq_some hn
    exact List.length_set
  · rw [halloc]
    exact hrHolds
  · have hperm := hnHolds.of_perm hnbrrs.symm
    rw [halloc] at hperm ⊢
    exact hperm
  · rw [halloc]
    exact hs.used
  · have hmap := hnbrrs.map (Function.update s.nbrr n r)
    have heq : s.nbrrs.map (Function.update s.nbrr n r) = s.nbrrs.map s.nbrr := by
      refine List.map_congr_left fun k hk => ?_
      obtain ⟨b, hb, hk⟩ := List.mem_flatMap.1 hk
      exact hold b hb k hk
    rw [List.map_cons, Function.update_self, heq] at hmap
    rw [halloc] at hmap ⊢
    exact hmap.trans (hs.routes.cons r)
  · rw [halloc]
    intro b hb k hk
    dsimp only at hb hk ⊢
    have hcase : k ∈ s.routeList b ∨ b = a ∧ k = n := by
      by_cases hba : b = a
      · subst hba
        rw [Function.update_self, List.mem_append, List.mem_singleton] at hk
        exact hk.imp_right fun hk => ⟨rfl, hk⟩
      · rw [Function.update_of_ne hba] at hk
        exact Or.inl hk
    rcases hcase with hk | ⟨rfl, rfl⟩
    · have hne : s.nbrr k ≠ r := fun heq => hrNot (heq ▸ hs.mem_of_mem hb hk)
      rw [hold b hb k hk, Function.update_of_ne hne]
      exact hs.linked b hb k hk
    · rw [Function.update_self, Function.update_self]

/-- A neighbour without routes gets an item. -/
theorem Sound.neighborItem {accept : Bool} (hs : s.Sound cfg)
    (h : s.neighborItem a accept = some s') :
    s'.Sound cfg ∧ a ∈ s'.used ∧ s'.routelist = s.routelist ∧ s'.routes = s.routes := by
  unfold State.neighborItem at h
  split at h
  · rename_i ha
    obtain rfl := Option.some.inj h
    exact ⟨hs, ha, rfl, rfl⟩
  · rename_i ha
    split at h
    · obtain rfl := Option.some.inj h
      have hnbrrs : (s.used ++ [a]).flatMap (Function.update s.routeList a []) = s.nbrrs := by
        rw [List.flatMap_append, flatMap_update_of_notMem [] ha, List.flatMap_singleton,
          Function.update_self, List.append_nil]
        rfl
      refine ⟨⟨hs.count, hs.routeBlocks, hs.nbrrBlocks, hs.routeHolds, ?_, ?_, ?_, ?_⟩,
        List.mem_append_right _ List.mem_cons_self, rfl, rfl⟩
      · have hholds := hs.nbrrHolds
        rw [← hnbrrs] at hholds
        exact hholds
      · exact List.nodup_append.2 ⟨hs.used, List.nodup_singleton a, fun b hb c hc heq =>
          ha (List.mem_singleton.1 hc ▸ heq ▸ hb)⟩
      · have hroutes := hs.routes
        rw [← hnbrrs] at hroutes
        exact hroutes
      · intro b hb n hn
        dsimp only at hn
        by_cases hba : b = a
        · subst hba
          rw [Function.update_self] at hn
          exact absurd hn List.not_mem_nil
        · rw [Function.update_of_ne hba] at hn
          refine hs.linked b ?_ n hn
          exact (List.mem_append.1 hb).resolve_right fun h => hba (List.mem_singleton.1 h)
    · cases h

theorem neighborItem_eq_none {accept : Bool} :
    s.neighborItem a accept = none ↔ a ∉ s.used ∧ accept = false := by
  by_cases ha : a ∈ s.used
  · simp [State.neighborItem, ha]
  · cases accept with
    | false => simp [State.neighborItem, ha]
    | true => simp [State.neighborItem, ha]

/-- The last route goes when the table is full. -/
theorem Sound.makeRoom (hs : s.Sound cfg) (h : s.makeRoom cfg = some s') :
    s'.Sound cfg ∧ s'.routes = s.routes ∧ s'.routelist.length < cfg.routeNb ∧
      s'.routelist =
        if s.numRoutes = cfg.routeNb then s.routelist.dropLast else s.routelist := by
  have hle := hs.routeHolds.length_le
  rw [hs.routeBlocks] at hle
  have hcount := hs.count
  unfold State.makeRoom at h
  by_cases hfull : s.numRoutes = cfg.routeNb
  · rw [if_pos hfull] at h ⊢
    obtain ⟨r, hr, rfl⟩ := Option.map_eq_some_iff.1 h
    split at hr
    · have hmem := List.mem_of_getLast? hr
      have hrm := hs.rm hmem
      have hpos := List.length_pos_of_mem hmem
      have hlength := List.length_erase_of_mem hmem
      refine ⟨hrm.sound, hrm.routes, ?_, ?_⟩
      · rw [hrm.routelist]
        omega
      · obtain ⟨l, hl⟩ := List.getLast?_eq_some_iff.1 hr
        have hnodup := hs.routeHolds.nodup
        rw [hl] at hnodup
        have hnot : r ∉ l := fun hrl =>
          (List.nodup_append.1 hnodup).2.2 r hrl r List.mem_cons_self rfl
        rw [hrm.routelist, hl, List.dropLast_concat, List.erase_append_right _ hnot,
          List.erase_cons_head, List.append_nil]
    · cases hr
  · rw [if_neg hfull] at h ⊢
    obtain rfl := Option.some.inj h
    exact ⟨hs, rfl, by omega, rfl⟩

/-- However the route is added, the lists and pools agree. -/
theorem Sound.insert (hs : s.Sound cfg) (ipaddr : Ipaddr) (length : ℕ) (a : Addr)
    (accept : Bool) : (s.insert cfg ipaddr length a accept).2.Sound cfg := by
  unfold State.insert
  cases hroom : s.makeRoom cfg with
  | none => exact hs
  | some s₁ =>
      obtain ⟨hs₁, -, hlt, -⟩ := hs.makeRoom hroom
      dsimp only
      cases hitem : s₁.neighborItem a accept with
      | none => exact hs₁
      | some s₂ =>
          obtain ⟨hs₂, ha, hlist, -⟩ := hs₁.neighborItem hitem
          rw [← hlist] at hlt
          obtain ⟨r, -, -, hsound, -, -⟩ := hs₂.allocate ipaddr length hlt ha
          exact hsound

/-- The route is added when there is room, and an item for its neighbour. -/
theorem Sound.insert_eq {accept : Bool} (hs : s.Sound cfg) (ipaddr : Ipaddr) (length : ℕ)
    (hroom : s.makeRoom cfg = some s')
    (ha : accept = true ∨ a ∈ s'.used) :
    ∃ r ∉ s'.routelist, (s.insert cfg ipaddr length a accept).1 = some r ∧
      (s.insert cfg ipaddr length a accept).2.routelist = r :: s'.routelist ∧
      (s.insert cfg ipaddr length a accept).2.routes =
        Function.update s.routes r ⟨some a, ipaddr, length⟩ := by
  obtain ⟨hs', hroutes, hlt, -⟩ := hs.makeRoom hroom
  cases hitem : s'.neighborItem a accept with
  | none =>
      obtain ⟨hnot, hno⟩ := neighborItem_eq_none.1 hitem
      rcases ha with ha | ha
      · rw [hno] at ha
        cases ha
      · exact absurd ha hnot
  | some s₂ =>
      obtain ⟨hs₂, hused, hlist, hroutes₂⟩ := hs'.neighborItem hitem
      rw [← hlist] at hlt ⊢
      obtain ⟨r, hr, hout, -, hlist', hroutes'⟩ :=
        hs₂.allocate ipaddr length hlt hused
      have hinsert : s.insert cfg ipaddr length a accept = s₂.allocate ipaddr length a := by
        simp only [State.insert, hroom, hitem]
      rw [hinsert]
      exact ⟨r, hr, hout, hlist', by rw [hroutes', hroutes₂, hroutes]⟩

theorem Sound.add (hs : s.Sound cfg) (ipaddr : Ipaddr) (length : ℕ) (nexthop : Ipaddr)
    (accept : Bool) : (s.add cfg ipaddr length nexthop accept).2.Sound cfg := by
  unfold State.add
  cases cfg.lladdrFromIpaddr nexthop with
  | none => exact hs
  | some a =>
      dsimp only
      rw [lookup_eq]
      cases h : s.longest ipaddr s.routelist none 0 with
      | none => exact hs.insert ipaddr length a accept
      | some r =>
          have hr := mem_of_longest h
          have hfront := hs.toFront hr
          dsimp only [Option.elim_some]
          split
          · exact hfront
          · exact (hfront.rm List.mem_cons_self).sound.insert ipaddr length a accept

/-! ## Removal of a neighbour -/

/-- All routes of the neighbour go. -/
theorem Sound.rmAll {turns : ℕ} (hs : s.Sound cfg) (ha : a ∈ s.used ∨ s.routeList a = [])
    (hturns : (s.routeList a).length = turns) :
    (s.rmAll a turns).Sound cfg ∧ (s.rmAll a turns).routes = s.routes ∧
      (s.rmAll a turns).routelist =
        (s.routelist.filter fun r => (s.routes r).neighborRoutes ≠ some a) ∧
      (s.rmAll a turns).routeList a = [] := by
  induction turns generalizing s with
  | zero =>
      have hnil := List.length_eq_zero_iff.1 hturns
      refine ⟨hs, rfl, ?_, hnil⟩
      refine (List.filter_eq_self.2 fun r hr => decide_eq_true ?_).symm
      intro hra
      obtain ⟨b, -, hrb, n, hn, -⟩ := hs.exists_of_mem hr
      obtain rfl := Option.some.inj (hra.symm.trans hrb)
      rw [hnil] at hn
      exact List.not_mem_nil hn
  | succ turns ih =>
      obtain ⟨n, ns, hns⟩ := List.exists_cons_of_length_eq_add_one hturns
      have hn : n ∈ s.routeList a := by
        rw [hns]
        exact List.mem_cons_self
      have hused : a ∈ s.used := ha.resolve_right fun hnil => by
        rw [hns] at hnil
        cases hnil
      have hmem := hs.mem_of_mem hused hn
      have howner := hs.linked a hused n hn
      have hrm := hs.rm hmem
      have hlength := hrm.length a howner
      obtain ⟨hsound, hroutes, hlist, hnil⟩ :=
        ih hrm.sound (hrm.used a howner) (by omega)
      have hstep : s.rmAll a (turns + 1) = (s.rm (s.nbrr n)).rmAll a turns := by
        rw [State.rmAll, hns, List.head?_cons]
      rw [hstep]
      refine ⟨hsound, hroutes.trans hrm.routes, ?_, hnil⟩
      rw [hlist, hrm.routes, hrm.routelist, hs.routeHolds.nodup.erase_eq_filter,
        List.filter_filter]
      refine List.filter_congr fun r hr => ?_
      by_cases hrn : r = s.nbrr n
      · subst hrn
        simp [howner]
      · simp [hrn]

theorem Sound.rmRoutelist (hs : s.Sound cfg) (ha : a ∈ s.used) :
    (s.rmRoutelist a).Sound cfg ∧ (s.rmRoutelist a).routes = s.routes ∧
      (s.rmRoutelist a).routelist =
        s.routelist.filter fun r => (s.routes r).neighborRoutes ≠ some a := by
  obtain ⟨hall, hroutes, hlist, hnil⟩ := hs.rmAll (Or.inl ha) rfl
  refine ⟨?_, hroutes, hlist⟩
  unfold State.rmRoutelist
  generalize s.rmAll a (s.routeList a).length = t at hall hnil ⊢
  have hnbrrs : ((t.used.erase a).flatMap t.routeList).Perm t.nbrrs := by
    by_cases hmem : a ∈ t.used
    · have hperm := (flatMap_perm_erase (f := t.routeList) hmem).symm
      rwa [hnil, List.nil_append] at hperm
    · rw [List.erase_of_not_mem hmem]
      exact List.Perm.refl _
  exact ⟨hall.count, hall.routeBlocks, hall.nbrrBlocks, hall.routeHolds,
    hall.nbrrHolds.of_perm hnbrrs.symm, hall.used.erase a,
    (hnbrrs.map t.nbrr).trans hall.routes,
    fun b hb => hall.linked b (List.mem_of_mem_erase hb)⟩

theorem Sound.rmByNexthop (hs : s.Sound cfg) (nexthop : Ipaddr) :
    (s.rmByNexthop cfg nexthop).Sound cfg := by
  unfold State.rmByNexthop
  split
  · exact hs
  · rename_i a ha
    have hmem := (Option.filter_eq_some_iff.1 ha).2
    exact (hs.rmRoutelist (of_decide_eq_true hmem)).1

end State

end Den2ne.RouteTable
