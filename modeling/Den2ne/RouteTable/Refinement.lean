import Den2ne.RouteTable.Map

/-!
# The route table refines a map

In a run in which no call meets a route that only covers the address, the lookup finds the longest
prefix, a new route displaces nothing but the least recently used one, and a removal takes out its
own prefix.
-/

namespace Den2ne.RouteTable

namespace State

variable {Addr : Type*} {cfg : Config Addr} {s s' : State Addr} {r length : ℕ} {a : Addr}
  {ipaddr addr nexthop : Ipaddr} {k : Prefix} {out : Option ℕ}

/-! ## Lookup -/

/-- What the loop finds among the routes `rs`, after `found` with a length of `longestmatch`. -/
theorem longest_cases {rs : List ℕ} (found : Option ℕ) (longestmatch : ℕ)
    (hshort : ∀ r ∈ rs, (s.routes r).length ≤ 128) :
    (s.longest addr rs found longestmatch = found ∧
        ∀ r ∈ rs, s.Covers addr r → (s.routes r).length < longestmatch) ∨
      ∃ r ∈ rs, s.longest addr rs found longestmatch = some r ∧ s.Covers addr r ∧
        longestmatch ≤ (s.routes r).length ∧
        ∀ k ∈ rs, s.Covers addr k → (s.routes k).length ≤ (s.routes r).length := by
  induction rs generalizing found longestmatch with
  | nil => exact Or.inl ⟨rfl, fun r hr => absurd hr List.not_mem_nil⟩
  | cons r rs ih =>
      have hrest := fun k hk => hshort k (List.mem_cons_of_mem r hk)
      by_cases htake : longestmatch ≤ (s.routes r).length ∧ s.Covers addr r
      · right
        by_cases hfull : (s.routes r).length = 128
        · have heq : s.longest addr (r :: rs) found longestmatch = some r := by
            rw [longest]
            exact (if_pos htake).trans (if_pos hfull)
          exact ⟨r, List.mem_cons_self, heq, htake.2, htake.1, fun k hk _ =>
            hfull ▸ hshort k hk⟩
        · have heq : s.longest addr (r :: rs) found longestmatch =
              s.longest addr rs (some r) (s.routes r).length := by
            rw [longest]
            exact (if_pos htake).trans (if_neg hfull)
          rw [heq]
          rcases ih (some r) (s.routes r).length hrest with
            ⟨hnone, hless⟩ | ⟨m, hm, hsome, hcovers, hle, hmax⟩
          · refine ⟨r, List.mem_cons_self, hnone, htake.2, htake.1, fun k hk hkc => ?_⟩
            rcases List.mem_cons.1 hk with rfl | hk
            · exact Nat.le_refl _
            · exact Nat.le_of_lt (hless k hk hkc)
          · refine ⟨m, List.mem_cons_of_mem _ hm, hsome, hcovers, Nat.le_trans htake.1 hle,
              fun k hk hkc => ?_⟩
            rcases List.mem_cons.1 hk with rfl | hk
            · exact hle
            · exact hmax k hk hkc
      · have heq : s.longest addr (r :: rs) found longestmatch =
            s.longest addr rs found longestmatch := by
          rw [longest]
          exact if_neg htake
        have hless : s.Covers addr r → (s.routes r).length < longestmatch := fun hc =>
          Nat.lt_of_not_le fun hle => htake ⟨hle, hc⟩
        rw [heq]
        rcases ih found longestmatch hrest with
          ⟨hnone, hrs⟩ | ⟨m, hm, hsome, hcovers, hle, hmax⟩
        · refine Or.inl ⟨hnone, fun k hk hkc => ?_⟩
          rcases List.mem_cons.1 hk with rfl | hk
          · exact hless hkc
          · exact hrs k hk hkc
        · refine Or.inr ⟨m, List.mem_cons_of_mem _ hm, hsome, hcovers, hle, fun k hk hkc => ?_⟩
          rcases List.mem_cons.1 hk with rfl | hk
          · exact Nat.le_trans (Nat.le_of_lt (hless hkc)) hle
          · exact hmax k hk hkc

/-- The lookup finds a longest route among those that cover the address. -/
theorem isLongest_longest (hshort : ∀ r ∈ s.routelist, (s.routes r).length ≤ 128)
    (addr : Ipaddr) : s.IsLongest (s.Covers addr) (s.longest addr s.routelist none 0) := by
  rcases longest_cases none 0 hshort with
    ⟨hnone, hless⟩ | ⟨r, hr, hsome, hcovers, -, hmax⟩
  · rw [hnone]
    exact fun r hr hcovers => absurd (hless r hr hcovers) (Nat.not_lt_zero _)
  · rw [hsome]
    exact ⟨hr, hcovers, hmax⟩

/-! ## The routes of a map -/

/-- No two routes are for the same bytes, and the next hop of a route is a known one. -/
structure Tidy (cfg : Config Addr) (s : State Addr) : Prop where
  sound : s.Sound cfg
  short : ∀ r ∈ s.routelist, (s.routes r).length ≤ 128
  apart : ∀ r ∈ s.routelist, ∀ k ∈ s.routelist, (s.routes r).length = (s.routes k).length →
    s.Covers (s.routes r).ipaddr k → r = k
  hops : ∀ r ∈ s.routelist, ∀ a, (s.routes r).neighborRoutes = some a →
    ∃ nexthop, cfg.ipaddrFromLladdr a = some nexthop ∧ cfg.lladdrFromIpaddr nexthop = some a

theorem tidy_init (cfg : Config Addr) : (init cfg).Tidy cfg where
  sound := sound_init cfg
  short _ hr := absurd hr List.not_mem_nil
  apart _ hr := absurd hr List.not_mem_nil
  hops _ hr := absurd hr List.not_mem_nil

/-- Only one route is a longest one. -/
theorem Tidy.isLongest_unique (hs : s.Tidy cfg) {m : ℕ}
    (hr : s.IsLongest (s.Covers addr) (some r)) (hm : s.IsLongest (s.Covers addr) (some m)) :
    r = m := by
  obtain ⟨hr, hrc, hrmax⟩ := hr
  obtain ⟨hm, hmc, hmmax⟩ := hm
  have hlength := Nat.le_antisymm (hmmax r hr hrc) (hrmax m hm hmc)
  refine hs.apart r hr m hm hlength ?_
  rw [Covers, ← hlength] at hmc ⊢
  exact Ipaddr.prefixcmp_trans (Ipaddr.prefixcmp_comm.1 hrc) hmc

theorem Tidy.longest_eq (hs : s.Tidy cfg) (hr : s.IsLongest (s.Covers addr) (some r)) :
    s.longest addr s.routelist none 0 = some r := by
  have hfound := isLongest_longest hs.short addr
  cases h : s.longest addr s.routelist none 0 with
  | none =>
      rw [h] at hfound
      exact absurd hr.2.1 (hfound r hr.1)
  | some m =>
      rw [h] at hfound
      rw [hs.isLongest_unique hr hfound]

theorem Tidy.longest_eq_none (hs : s.Tidy cfg) (hnone : s.IsLongest (s.Covers addr) none) :
    s.longest addr s.routelist none 0 = none := by
  have hfound := isLongest_longest hs.short addr
  cases h : s.longest addr s.routelist none 0 with
  | none => rfl
  | some m =>
      rw [h] at hfound
      exact absurd hfound.2.1 (hnone m hfound.1)

theorem key_eq_prefixOf_iff : s.key r = prefixOf ipaddr length ↔
    (s.routes r).length = length ∧ ipaddr.Agree (s.routes r).ipaddr length := by
  rw [key, prefixOf, prefixOf, Prod.mk.injEq]
  constructor
  · rintro ⟨rfl, hbits⟩
    exact ⟨rfl, hbits.symm⟩
  · rintro ⟨rfl, hbits⟩
    exact ⟨rfl, hbits.symm⟩

/-- Routes of one table that are for the same prefix are the same. -/
theorem Tidy.key_inj (hs : s.Tidy cfg) {m : ℕ} (hr : r ∈ s.routelist) (hm : m ∈ s.routelist)
    (heq : s.key r = s.key m) : r = m := by
  obtain ⟨hlength, hagree⟩ := key_eq_prefixOf_iff.1 heq
  refine hs.apart r hr m hm hlength ?_
  exact hagree.symm.prefixcmp

theorem Tidy.toMap_eq_some_iff (hs : s.Tidy cfg) :
    s.toMap cfg k = some nexthop ↔
      ∃ r ∈ s.routelist, s.key r = k ∧ s.nexthop cfg r = some nexthop := by
  rw [toMap, Option.bind_eq_some_iff]
  constructor
  · rintro ⟨r, hr, hnext⟩
    exact ⟨r, List.mem_of_find?_eq_some hr, by simpa using List.find?_some hr, hnext⟩
  · rintro ⟨r, hr, rfl, hnext⟩
    obtain ⟨m, hm⟩ : ∃ m, s.routelist.find? (s.key · = s.key r) = some m := by
      rw [← Option.isSome_iff_exists, List.find?_isSome]
      exact ⟨r, hr, decide_eq_true rfl⟩
    have hkey : s.key m = s.key r := by simpa using List.find?_some hm
    obtain rfl := hs.key_inj (List.mem_of_find?_eq_some hm) hr hkey
    exact ⟨m, hm, hnext⟩

/-- The next hop of a route tells its neighbour. -/
theorem Tidy.nexthop_iff (hs : s.Tidy cfg) (hr : r ∈ s.routelist)
    (ha : cfg.lladdrFromIpaddr nexthop = some a) (hip : cfg.ipaddrFromLladdr a = some nexthop) :
    s.nexthop cfg r = some nexthop ↔ (s.routes r).neighborRoutes = some a := by
  constructor
  · intro hnext
    obtain ⟨b, hb, hbip⟩ := Option.bind_eq_some_iff.1 hnext
    obtain ⟨h, hh, hback⟩ := hs.hops r hr b hb
    obtain rfl := Option.some.inj (hbip.symm.trans hh)
    rw [hb, ← hback, ha]
  · intro hnext
    rw [State.nexthop, hnext, Option.bind_some, hip]

/-- A part of the routes of a tidy table. -/
theorem Tidy.sub (hs : s.Tidy cfg) (hs' : s'.Sound cfg) (hlist : s'.routelist ⊆ s.routelist)
    (hroutes : s'.routes = s.routes) : s'.Tidy cfg where
  sound := hs'
  short r hr := by
    rw [hroutes]
    exact hs.short r (hlist hr)
  apart r hr m hm := by
    rw [Covers, hroutes]
    exact hs.apart r (hlist hr) m (hlist hm)
  hops r hr := by
    rw [hroutes]
    exact hs.hops r (hlist hr)

theorem key_congr (hroutes : s'.routes = s.routes) : s'.key = s.key := by
  funext r
  rw [key, key, hroutes]

theorem nexthop_congr (hroutes : s'.routes = s.routes) (r : ℕ) :
    s'.nexthop cfg r = s.nexthop cfg r := by
  rw [State.nexthop, State.nexthop, hroutes]

/-- The map of the routes with `q`, where `q` tells which prefixes remain. -/
theorem Tidy.toMap_sub (hs : s.Tidy cfg) (hs' : s'.Tidy cfg) (hroutes : s'.routes = s.routes)
    (gone : Prefix → Prop) [DecidablePred gone]
    (hmem : ∀ r, r ∈ s'.routelist ↔ r ∈ s.routelist ∧ ¬ gone (s.key r)) (k : Prefix) :
    s'.toMap cfg k = if gone k then none else s.toMap cfg k := by
  refine Option.ext fun nexthop => ?_
  rw [hs'.toMap_eq_some_iff]
  by_cases hk : gone k
  · rw [if_pos hk]
    refine iff_of_false ?_ nofun
    rintro ⟨r, hr, rfl, -⟩
    rw [key_congr hroutes] at hk
    exact ((hmem r).1 hr).2 hk
  · rw [if_neg hk, hs.toMap_eq_some_iff]
    simp only [key_congr hroutes, nexthop_congr hroutes]
    constructor
    · rintro ⟨r, hr, hkey, hnext⟩
      exact ⟨r, ((hmem r).1 hr).1, hkey, hnext⟩
    · rintro ⟨r, hr, hkey, hnext⟩
      exact ⟨r, (hmem r).2 ⟨hr, hkey ▸ hk⟩, hkey, hnext⟩

/-- The prefixes of the other routes. -/
theorem Tidy.map_key_erase (hs : s.Tidy cfg) (hr : r ∈ s.routelist) :
    (s.routelist.erase r).map s.key = s.keys.filter (· ≠ s.key r) := by
  rw [keys, List.filter_map, hs.sound.routeHolds.nodup.erase_eq_filter]
  refine congrArg _ (List.filter_congr fun m hm => ?_)
  by_cases hmr : m = r
  · simp [hmr]
  · have hne : s.key m ≠ s.key r := fun heq => hmr (hs.key_inj hm hr heq)
    simp [hmr, hne]

/-- To put a route first changes the order only. -/
theorem Tidy.toFront (hs : s.Tidy cfg) (hr : r ∈ s.routelist) :
    (s.toFront r).Tidy cfg ∧ (s.toFront r).keys = s.key r :: s.keys.filter (· ≠ s.key r) ∧
      (s.toFront r).toMap cfg = s.toMap cfg := by
  have hperm := List.perm_cons_erase hr
  have htidy : (s.toFront r).Tidy cfg :=
    hs.sub (hs.sound.toFront hr) hperm.symm.subset rfl
  refine ⟨htidy, ?_, ?_⟩
  · rw [keys, State.toFront, List.map_cons]
    exact congrArg (s.key r :: ·) (hs.map_key_erase hr)
  · funext k
    have hmap := hs.toMap_sub htidy rfl (fun _ => False)
      (fun m => by rw [not_false_iff, and_true]; exact hperm.symm.mem_iff) k
    rwa [if_neg not_false] at hmap

/-- A neighbour with a route in a tidy table has an item. -/
theorem Tidy.mem_used_of_via (hs : s.Tidy cfg) (ha : cfg.lladdrFromIpaddr nexthop = some a)
    (hip : cfg.ipaddrFromLladdr a = some nexthop) (hvia : s.Via cfg s.routelist nexthop) :
    a ∈ s.used := by
  obtain ⟨r, hr, hnext⟩ := hvia
  obtain ⟨b, hb, hrb, -⟩ := hs.sound.exists_of_mem hr
  obtain rfl := Option.some.inj (hrb.symm.trans ((hs.nexthop_iff hr ha hip).1 hnext))
  exact hb

variable [DecidableEq Addr]

theorem Tidy.rm (hs : s.Tidy cfg) (hr : r ∈ s.routelist) :
    (s.rm r).Tidy cfg ∧ (s.rm r).keys = s.keys.filter (· ≠ s.key r) ∧
      ∀ k, (s.rm r).toMap cfg k = if k = s.key r then none else s.toMap cfg k := by
  have hrm := hs.sound.rm hr
  have htidy : (s.rm r).Tidy cfg := hs.sub hrm.sound (by
    rw [hrm.routelist]
    exact List.erase_subset) hrm.routes
  refine ⟨htidy, ?_, hs.toMap_sub htidy hrm.routes (· = s.key r) fun m => ?_⟩
  · rw [keys, key_congr hrm.routes, hrm.routelist, hs.map_key_erase hr]
  · rw [hrm.routelist, hs.sound.routeHolds.nodup.mem_erase_iff]
    constructor
    · rintro ⟨hne, hm⟩
      exact ⟨hm, fun heq => hne (hs.key_inj hm hr heq)⟩
    · rintro ⟨hm, hne⟩
      exact ⟨fun heq => hne (by rw [heq]), hm⟩

/-- All routes through a known neighbour go. -/
theorem Tidy.rmByNexthop (hs : s.Tidy cfg) (hknown : cfg.Known nexthop) :
    (s.rmByNexthop cfg nexthop).Tidy cfg ∧
      (∃ p, (s.rmByNexthop cfg nexthop).keys = s.keys.filter p) ∧
      ∀ k, (s.rmByNexthop cfg nexthop).toMap cfg k =
        if s.toMap cfg k = some nexthop then none else s.toMap cfg k := by
  obtain ⟨a, ha, hip⟩ := hknown
  have ha : cfg.lladdrFromIpaddr nexthop = some a := ha
  have hrm : (s.rmByNexthop cfg nexthop).Sound cfg ∧
      (s.rmByNexthop cfg nexthop).routes = s.routes ∧
      (s.rmByNexthop cfg nexthop).routelist =
        s.routelist.filter fun r => (s.routes r).neighborRoutes ≠ some a := by
    by_cases hused : a ∈ s.used
    · have heq : s.rmByNexthop cfg nexthop = s.rmRoutelist a := by
        simp [State.rmByNexthop, ha, Option.filter, hused]
      rw [heq]
      exact hs.sound.rmRoutelist hused
    · have heq : s.rmByNexthop cfg nexthop = s := by
        simp [State.rmByNexthop, ha, Option.filter, hused]
      rw [heq]
      refine ⟨hs.sound, rfl, (List.filter_eq_self.2 fun r hr => decide_eq_true ?_).symm⟩
      intro hra
      obtain ⟨b, hb, hrb, -⟩ := hs.sound.exists_of_mem hr
      exact hused (Option.some.inj (hra.symm.trans hrb) ▸ hb)
  obtain ⟨hsound, hroutes, hlist⟩ := hrm
  have hgone : ∀ r ∈ s.routelist,
      (s.routes r).neighborRoutes = some a ↔ s.toMap cfg (s.key r) = some nexthop := by
    intro r hr
    rw [hs.toMap_eq_some_iff, ← hs.nexthop_iff hr ha hip]
    constructor
    · intro hnext
      exact ⟨r, hr, rfl, hnext⟩
    · rintro ⟨m, hm, hkey, hnext⟩
      rwa [← hs.key_inj hm hr hkey]
  have htidy : (s.rmByNexthop cfg nexthop).Tidy cfg := hs.sub hsound (by
    rw [hlist]
    exact List.filter_subset_self _) hroutes
  refine ⟨htidy, ⟨fun k => decide (s.toMap cfg k ≠ some nexthop), ?_⟩,
    hs.toMap_sub htidy hroutes (fun k => s.toMap cfg k = some nexthop) fun r => ?_⟩
  · rw [keys, key_congr hroutes, hlist, keys, List.filter_map]
    refine congrArg _ (List.filter_congr fun r hr => ?_)
    simp [hgone r hr]
  · rw [hlist, List.mem_filter, decide_eq_true_eq]
    constructor
    · rintro ⟨hr, hne⟩
      exact ⟨hr, fun heq => hne ((hgone r hr).2 heq)⟩
    · rintro ⟨hr, hne⟩
      exact ⟨hr, fun heq => hne ((hgone r hr).1 heq)⟩

/-! ## Addition -/

/-- What an addition does to a table `s` with the routes that remain. -/
structure Inserted (cfg : Config Addr) (s : State Addr) (ipaddr : Ipaddr) (length : ℕ)
    (nexthop : Ipaddr) (out : Option ℕ) (s' : State Addr) : Prop where
  tidy : s'.Tidy cfg
  returned : out.map s'.key = some (prefixOf ipaddr length)
  keys : s'.keys = prefixOf ipaddr length :: s.keys
  toMap : ∀ k, s'.toMap cfg k =
    if k = prefixOf ipaddr length then some nexthop else s.toMap cfg k

/-- A route for other bytes than those of the routes that remain is added. -/
theorem Tidy.insert {accept : Bool} (hs : s.Tidy cfg) (ipaddr : Ipaddr)
    (hroom : s.makeRoom cfg = some s')
    (ha : cfg.lladdrFromIpaddr nexthop = some a) (hip : cfg.ipaddrFromLladdr a = some nexthop)
    (hitem : accept = true ∨ s'.Via cfg s'.routelist nexthop) (hlength : length ≤ 128)
    (hnew : ∀ r ∈ s'.routelist, (s.routes r).length = length → ¬ s.Covers ipaddr r) :
    Inserted cfg s' ipaddr length nexthop (s.insert cfg ipaddr length a accept).1
      (s.insert cfg ipaddr length a accept).2 := by
  obtain ⟨hs', hroutes, -, hlist⟩ := hs.sound.makeRoom hroom
  have hsub : s'.routelist ⊆ s.routelist := by
    rw [hlist]
    split
    · exact List.dropLast_subset _
    · exact List.Subset.refl _
  have htidy := hs.sub hs' hsub hroutes
  have hsound := hs.sound.insert ipaddr length a accept
  obtain ⟨r, hr, hout, hinsert, hwrite⟩ := hs.sound.insert_eq ipaddr length
    hroom (hitem.imp_right (htidy.mem_used_of_via ha hip))
  generalize s.insert cfg ipaddr length a accept = o at hsound hout hinsert hwrite ⊢
  obtain ⟨out, t⟩ := o
  dsimp only at hsound hout hinsert hwrite ⊢
  subst hout
  have hself : t.routes r = ⟨some a, ipaddr, length⟩ := by
    rw [hwrite, Function.update_self]
  have hold : ∀ m ∈ s'.routelist, t.routes m = s.routes m := fun m hm => by
    rw [hwrite, Function.update_of_ne fun heq : m = r => hr (heq ▸ hm)]
  have hkey : t.key r = prefixOf ipaddr length := by rw [key, hself]
  have hkeys : ∀ m ∈ s'.routelist, t.key m = s.key m := fun m hm => by
    rw [key, key, hold m hm]
  have hnext : ∀ m ∈ s'.routelist, t.nexthop cfg m = s.nexthop cfg m := fun m hm => by
    rw [State.nexthop, State.nexthop, hold m hm]
  have hapart : ∀ m ∈ s'.routelist, (s.routes m).length = length →
      ¬ (s.routes m).ipaddr.prefixcmp ipaddr length = true := by
    intro m hm heq hcmp
    refine hnew m hm heq ?_
    rw [Covers, heq]
    exact Ipaddr.prefixcmp_comm.1 hcmp
  have htidy' : t.Tidy cfg := by
    refine ⟨hsound, ?_, ?_, ?_⟩
    · intro m hm
      rw [hinsert] at hm
      rcases List.mem_cons.1 hm with rfl | hm
      · rw [hself]
        exact hlength
      · rw [hold m hm]
        exact hs.short m (hsub hm)
    · intro m hm n hn hlen hcovers
      rw [hinsert] at hm hn
      rw [Covers] at hcovers
      rcases List.mem_cons.1 hm with rfl | hm'
      · rcases List.mem_cons.1 hn with rfl | hn'
        · rfl
        · rw [hself, hold n hn'] at hlen hcovers
          exact absurd hcovers (hnew n hn' hlen.symm)
      · rcases List.mem_cons.1 hn with rfl | hn'
        · rw [hself, hold m hm'] at hlen hcovers
          exact absurd hcovers (hapart m hm' hlen)
        · rw [hold m hm', hold n hn'] at hlen hcovers
          exact hs.apart m (hsub hm') n (hsub hn') hlen hcovers
    · intro m hm b hb
      rw [hinsert] at hm
      rcases List.mem_cons.1 hm with rfl | hm
      · rw [hself] at hb
        obtain rfl := Option.some.inj hb
        exact ⟨nexthop, hip, ha⟩
      · rw [hold m hm] at hb
        exact hs.hops m (hsub hm) b hb
  refine ⟨htidy', ?_, ?_, fun k => ?_⟩
  · rw [Option.map_some, hkey]
  · rw [keys, hinsert, List.map_cons, hkey, keys, key_congr hroutes]
    exact congrArg _ (List.map_congr_left hkeys)
  · refine Option.ext fun hop => ?_
    rw [htidy'.toMap_eq_some_iff, hinsert]
    by_cases hk : k = prefixOf ipaddr length
    · rw [if_pos hk, Option.some.injEq]
      have hnr : t.nexthop cfg r = some nexthop := by
        rw [State.nexthop, hself, Option.bind_some, hip]
      constructor
      · rintro ⟨m, hm, hmk, hmn⟩
        have hmr : m = r := by
          rw [← hinsert] at hm
          refine htidy'.key_inj hm ?_ ?_
          · rw [hinsert]
            exact List.mem_cons_self
          · rw [hmk, hk, hkey]
        rw [hmr, hnr] at hmn
        exact Option.some.inj hmn
      · rintro rfl
        exact ⟨r, List.mem_cons_self, hkey.trans hk.symm, hnr⟩
    · rw [if_neg hk, htidy.toMap_eq_some_iff]
      simp only [key_congr hroutes, nexthop_congr hroutes]
      constructor
      · rintro ⟨m, hm, hmk, hmn⟩
        rcases List.mem_cons.1 hm with rfl | hm
        · exact absurd (hmk.symm.trans hkey) hk
        · exact ⟨m, hm, (hkeys m hm).symm.trans hmk, (hnext m hm).symm.trans hmn⟩
      · rintro ⟨m, hm, hmk, hmn⟩
        exact ⟨m, List.mem_cons_of_mem _ hm, (hkeys m hm).trans hmk, (hnext m hm).trans hmn⟩

end State

/-! ## Steps -/

variable {Addr : Type*} {cfg : Config Addr} {x x' : System Addr} {c : Call}

/-- The table is tidy, and in the order of the uses. -/
structure Good (cfg : Config Addr) (x : System Addr) : Prop where
  tidy : x.table.Tidy cfg
  ordered : Recent.Ordered x.uses x.table.keys

theorem good_init (cfg : Config Addr) : Good cfg (System.init cfg) where
  tidy := State.tidy_init cfg
  ordered := Recent.ordered_nil _

variable [DecidableEq Addr]

/-- The state after a call. -/
def System.after (cfg : Config Addr) (x : System Addr) (c : Call) : System Addr where
  table := x.table.call cfg c
  uses := x.table.touches cfg c ++ x.uses

/-- A lookup that meets no route that only covers the address. -/
theorem Good.lookup (hx : Good cfg x) {addr : Ipaddr} (hplain : Plain cfg x (.lookup addr)) :
    Behaves cfg x (.lookup addr) ∧ Good cfg (x.after cfg (.lookup addr)) := by
  have hlongest := State.isLongest_longest hx.tidy.short addr
  have hlookup := State.lookup_eq x.table addr
  cases h : x.table.longest addr x.table.routelist none 0 with
  | none =>
      rw [h] at hlongest hlookup
      have hafter : x.after cfg (.lookup addr) = x := by
        simp only [System.after, State.call, State.touches, hlookup]
        rfl
      rw [Behaves, hlookup, hafter]
      exact ⟨⟨fun r hr hmatch => hlongest r hr hmatch.prefixcmp, rfl⟩, hx⟩
  | some r =>
      rw [h] at hlongest hlookup
      obtain ⟨hr, hcovers, hmax⟩ := hlongest
      obtain ⟨htidy, hkeys, hmap⟩ := hx.tidy.toFront hr
      have hmatch : x.table.Matches addr r := by
        rcases hplain r hr hcovers with hmatch | ⟨k, hk, hmatch, hlt⟩
        · exact hmatch
        · exact absurd (hmax k hk hmatch.prefixcmp) (Nat.not_le_of_lt hlt)
      have hafter : x.after cfg (.lookup addr) =
          { table := x.table.toFront r, uses := x.table.key r :: x.uses } := by
        simp only [System.after, State.call, State.touches, hlookup]
        rfl
      rw [Behaves, hlookup, hafter]
      refine ⟨⟨⟨hr, hmatch, fun k hk hkm => hmax k hk hkm.prefixcmp⟩, hmap⟩, htidy, ?_⟩
      rw [hkeys]
      exact hx.ordered.use _

section Add

variable {ipaddr nexthop : Ipaddr} {length : ℕ} {accept : Bool} {a : Addr}

/-- The prefix is used again: it is the first one already. -/
theorem ordered_again {uses live : List Prefix} {k : Prefix}
    (h : Recent.Ordered uses (k :: live)) : Recent.Ordered (k :: uses) (k :: live) := by
  have hnot := (List.nodup_cons.1 h.nodup).1
  have huse := h.use k
  rwa [List.filter_cons_of_neg (by simp), List.filter_eq_self.2 fun m hm => by
    simpa using fun heq : m = k => hnot (heq ▸ hm)] at huse

/-- The route is there already. -/
theorem Good.add_settled (hx : Good cfg x) (ha : cfg.lladdrFromIpaddr nexthop = some a)
    (h : x.table.Settled cfg ipaddr length nexthop) :
    Behaves cfg x (.add ipaddr length nexthop accept) ∧
      Good cfg (x.after cfg (.add ipaddr length nexthop accept)) := by
  obtain ⟨⟨r, -, hr, hnext⟩, hmap⟩ := h
  have hlookup := State.lookup_eq x.table ipaddr
  rw [hx.tidy.longest_eq hr] at hlookup
  obtain ⟨htidy, hkeys, hsame⟩ := hx.tidy.toFront hr.1
  have hfront : (x.table.toFront r).nexthop cfg r = some nexthop := hnext
  have hadd : x.table.add cfg ipaddr length nexthop accept = (some r, x.table.toFront r) := by
    simp only [State.add, ha, hlookup, Option.elim_some, hfront, if_true]
  have hafter : x.after cfg (.add ipaddr length nexthop accept) =
      { table := x.table.toFront r, uses := x.table.key r :: x.table.key r :: x.uses } := by
    simp only [System.after, State.call, State.touches, hadd, hlookup]
    rfl
  rw [Behaves, hadd, hafter]
  refine ⟨⟨?_, fun k _ => Or.inl (congrFun hsame k)⟩, htidy, ?_⟩
  · rw [hsame]
    exact hmap
  · rw [hkeys]
    exact ordered_again (hx.ordered.use _)

/-- The lookup finds the route of the prefix, which makes room for the new one. -/
theorem Good.add_renewed (hx : Good cfg x) (ha : cfg.lladdrFromIpaddr nexthop = some a)
    (hip : cfg.ipaddrFromLladdr a = some nexthop) (hlength : length ≤ 128)
    (h : x.table.Renewed cfg ipaddr length nexthop accept) :
    Behaves cfg x (.add ipaddr length nexthop accept) ∧
      Good cfg (x.after cfg (.add ipaddr length nexthop accept)) := by
  obtain ⟨⟨r, -, hr, hkey, hnext⟩, hvia⟩ := h
  have hlookup := State.lookup_eq x.table ipaddr
  rw [hx.tidy.longest_eq hr] at hlookup
  obtain ⟨hfront, hkeys, hsame⟩ := hx.tidy.toFront hr.1
  have hnext' : (x.table.toFront r).nexthop cfg r ≠ some nexthop := hnext
  have hadd : x.table.add cfg ipaddr length nexthop accept =
      ((x.table.toFront r).rm r).insert cfg ipaddr length a accept := by
    simp only [State.add, ha, hlookup, Option.elim_some, if_neg hnext']
  have hmem : r ∈ (x.table.toFront r).routelist := List.mem_cons_self
  obtain ⟨htidy, hrest, hgone⟩ := hfront.rm hmem
  have hrm := hfront.sound.rm hmem
  have hfrontKey : (x.table.toFront r).key r = prefixOf ipaddr length := hkey
  have hlist : ((x.table.toFront r).rm r).routelist = x.table.routelist.erase r := by
    rw [hrm.routelist]
    exact List.erase_cons_head ..
  have hroom : ((x.table.toFront r).rm r).makeRoom cfg = some ((x.table.toFront r).rm r) := by
    refine if_neg ?_
    have hle := hx.tidy.sound.routeHolds.length_le
    have hpos := List.length_pos_of_mem hr.1
    rw [hx.tidy.sound.routeBlocks] at hle
    rw [htidy.sound.count, hlist, List.length_erase_of_mem hr.1]
    omega
  have hitem : accept = true ∨
      ((x.table.toFront r).rm r).Via cfg ((x.table.toFront r).rm r).routelist nexthop := by
    refine hvia.imp_right fun ⟨m, hm, hmn⟩ => ⟨m, ?_, ?_⟩
    · rw [hlist, hx.tidy.sound.routeHolds.nodup.mem_erase_iff]
      refine ⟨?_, hm⟩
      rintro rfl
      exact hnext hmn
    · rw [State.nexthop_congr hrm.routes]
      exact hmn
  have hins := htidy.insert ipaddr hroom ha hip hitem hlength fun m hm hml hcovers => by
    rw [hlist, hx.tidy.sound.routeHolds.nodup.mem_erase_iff] at hm
    rw [hrm.routes] at hml
    obtain ⟨hrl, -⟩ := State.key_eq_prefixOf_iff.1 hkey
    refine hm.1 (hx.tidy.isLongest_unique ?_ hr)
    refine ⟨hm.2, ?_, fun k hk hkc => ?_⟩
    · rw [State.Covers, hrm.routes] at hcovers
      exact hcovers
    · have hle := hr.2.2 k hk hkc
      rw [hrl, ← hml] at hle
      exact hle
  have htouches : x.table.touches cfg (.add ipaddr length nexthop accept) =
      [prefixOf ipaddr length, prefixOf ipaddr length] := by
    simp only [State.touches, hadd, hins.returned, hlookup, Option.map_some, hkey]
    rfl
  have hmap : ∀ k, ((x.table.toFront r).rm r).toMap cfg k =
      if k = prefixOf ipaddr length then none else x.table.toMap cfg k := by
    intro k
    rw [hgone, hfrontKey, hsame]
  refine ⟨⟨?_, fun k hk => Or.inl ?_⟩, ?_, ?_⟩
  · rw [hadd, hins.toMap, if_pos rfl]
  · rw [hadd, hins.toMap, if_neg hk, hmap, if_neg hk]
  · rw [System.after, State.call, hadd]
    exact hins.tidy
  · rw [System.after, State.call, hadd, htouches]
    dsimp only
    rw [hins.keys, hrest, hfrontKey, hkeys, hkey]
    have hfilter : (prefixOf ipaddr length ::
        x.table.keys.filter (· ≠ prefixOf ipaddr length)).filter (· ≠ prefixOf ipaddr length) =
          x.table.keys.filter (· ≠ prefixOf ipaddr length) := by
      simp
    rw [hfilter]
    exact ordered_again (hx.ordered.use _)

/-- The room for a new route: the least recently used one goes when the table is full. -/
theorem Good.makeRoom (hx : Good cfg x) (h : x.table.Fresh cfg ipaddr nexthop accept) :
    ∃ s, x.table.makeRoom cfg = some s ∧ s.Tidy cfg ∧ s.routes = x.table.routes ∧
      s.routelist ⊆ x.table.routelist ∧ (accept = true ∨ s.Via cfg s.routelist nexthop) ∧
      Recent.Ordered x.uses s.keys ∧
      ∀ k, s.toMap cfg k = x.table.toMap cfg k ∨ s.toMap cfg k = none ∧
        x.table.numRoutes = cfg.routeNb ∧ Recent.leastRecent x.uses x.table.keys = some k := by
  obtain ⟨-, h⟩ := h
  by_cases hfull : x.table.numRoutes = cfg.routeNb
  · rw [if_pos hfull] at h
    obtain ⟨hlru, hne, hitem⟩ := h
    obtain ⟨r, hr⟩ := Option.ne_none_iff_exists'.1 (mt List.getLast?_eq_none_iff.1 hne)
    have hmem := List.mem_of_getLast? hr
    obtain ⟨htidy, hkeys, hgone⟩ := hx.tidy.rm hmem
    have hrm := hx.tidy.sound.rm hmem
    have hroom : x.table.makeRoom cfg = some (x.table.rm r) := by
      rw [State.makeRoom, if_pos hfull, if_pos hlru, hr]
      rfl
    have hlist := (hx.tidy.sound.makeRoom hroom).2.2.2
    rw [if_pos hfull] at hlist
    refine ⟨x.table.rm r, hroom, htidy, hrm.routes, ?_, ?_, ?_, fun k => ?_⟩
    · rw [hlist]
      exact List.dropLast_subset _
    · refine hitem.imp_right fun ⟨m, hm, hmn⟩ => ⟨m, by rwa [hlist], ?_⟩
      rw [State.nexthop_congr hrm.routes]
      exact hmn
    · rw [hkeys]
      exact hx.ordered.filter _
    · rw [hgone]
      by_cases hk : k = x.table.key r
      · rw [if_pos hk, hx.ordered.leastRecent, State.keys, List.getLast?_map, hr, hk]
        exact Or.inr ⟨rfl, hfull, rfl⟩
      · rw [if_neg hk]
        exact Or.inl rfl
  · rw [if_neg hfull] at h
    exact ⟨x.table, if_neg hfull, hx.tidy, rfl, List.Subset.refl _, h, hx.ordered,
      fun k => Or.inl rfl⟩

/-- The lookup finds nothing. -/
theorem Good.add_fresh (hx : Good cfg x) (ha : cfg.lladdrFromIpaddr nexthop = some a)
    (hip : cfg.ipaddrFromLladdr a = some nexthop) (hlength : length ≤ 128)
    (h : x.table.Fresh cfg ipaddr nexthop accept) :
    Behaves cfg x (.add ipaddr length nexthop accept) ∧
      Good cfg (x.after cfg (.add ipaddr length nexthop accept)) := by
  have hnone := h.1
  have hlookup := State.lookup_eq x.table ipaddr
  rw [hx.tidy.longest_eq_none hnone] at hlookup
  obtain ⟨s, hroom, htidy, hroutes, hsub, hitem, hordered, hmap⟩ := hx.makeRoom h
  have hadd : x.table.add cfg ipaddr length nexthop accept =
      x.table.insert cfg ipaddr length a accept := by
    simp only [State.add, ha, hlookup, Option.elim_none]
  have hins := hx.tidy.insert ipaddr hroom ha hip hitem hlength
    fun m hm _ hcovers => hnone m (hsub hm) hcovers
  have htouches : x.table.touches cfg (.add ipaddr length nexthop accept) =
      [prefixOf ipaddr length] := by
    simp only [State.touches, hadd, hins.returned, hlookup, Option.map_none]
    rfl
  have hnew : prefixOf ipaddr length ∉ s.keys := by
    intro hmem
    obtain ⟨m, hm, hkey⟩ := List.mem_map.1 hmem
    rw [State.key_congr hroutes] at hkey
    obtain ⟨rfl, hagree⟩ := State.key_eq_prefixOf_iff.1 hkey
    exact hnone m (hsub hm) hagree.prefixcmp
  refine ⟨⟨?_, fun k hk => ?_⟩, ?_, ?_⟩
  · rw [hadd, hins.toMap, if_pos rfl]
  · rw [hadd, hins.toMap, if_neg hk]
    exact hmap k
  · rw [System.after, State.call, hadd]
    exact hins.tidy
  · rw [System.after, State.call, hadd, htouches]
    dsimp only
    rw [hins.keys]
    have huse := hordered.use (prefixOf ipaddr length)
    rwa [List.filter_eq_self.2 fun k hk => by
      simpa using fun heq : k = prefixOf ipaddr length => hnew (heq ▸ hk)] at huse

end Add

/-- A plain call behaves, and keeps the table tidy and in order. -/
theorem Good.call (hx : Good cfg x) (hcall : Callable cfg x.table c) (hplain : Plain cfg x c) :
    Behaves cfg x c ∧ Good cfg (x.after cfg c) := by
  cases c with
  | lookup addr => exact hx.lookup hplain
  | add ipaddr length nexthop accept =>
      obtain ⟨a, ha, hip⟩ := hcall
      obtain ⟨hlength, hsettled | hrenewed | hfresh⟩ := hplain
      · exact hx.add_settled ha hsettled
      · exact hx.add_renewed ha hip hlength hrenewed
      · exact hx.add_fresh ha hip hlength hfresh
  | rm route =>
      obtain ⟨htidy, hkeys, hgone⟩ := hx.tidy.rm hcall
      refine ⟨hgone, htidy, ?_⟩
      rw [System.after, State.call, hkeys]
      exact hx.ordered.filter _
  | rmByNexthop nexthop =>
      obtain ⟨htidy, ⟨p, hkeys⟩, hgone⟩ := hx.tidy.rmByNexthop hcall
      refine ⟨hgone, htidy, ?_⟩
      rw [System.after, State.call, hkeys]
      exact hx.ordered.filter p

/-- Whatever a call meets, the lists and the pools agree after it. -/
theorem State.Sound.call {s : State Addr} (hs : s.Sound cfg) (hcall : Callable cfg s c) :
    (s.call cfg c).Sound cfg := by
  cases c with
  | lookup addr =>
      rw [State.call, State.lookup_eq]
      cases h : s.longest addr s.routelist none 0 with
      | none => exact hs
      | some r => exact hs.toFront (State.mem_of_longest h)
  | add ipaddr length nexthop accept => exact hs.add ipaddr length nexthop accept
  | rm route => exact (hs.rm hcall).sound
  | rmByNexthop nexthop => exact hs.rmByNexthop nexthop

/-! ## Runs -/

theorem step_eq_some : step cfg c x = some x' ↔ Callable cfg x.table c ∧ x.after cfg c = x' := by
  rw [step, ← System.after]
  split
  · rename_i hcall
    simp [hcall]
  · rename_i hcall
    simp [hcall]

open Transition in
/-- Every state of a run counts its routes; and in a run in which no call meets a route that only
covers the address, every call does to the map what it is to do. -/
theorem always_counted_and_meets_behaves (cfg : Config Addr) (cs : List Call) :
    Always (step cfg) (·.table.Counted) cs (System.init cfg) ∧
      (Meets (step cfg) (Plain cfg) cs (System.init cfg) →
        Meets (step cfg) (Behaves cfg) cs (System.init cfg)) := by
  refine ⟨always_of_step (I := (·.table.Sound cfg)) ?_ (fun x hx => hx.counted) cs
    (State.sound_init cfg), meets_of_meets (I := Good cfg) ?_ (good_init cfg)⟩
  · intro x c x' hx hstep
    obtain ⟨hcall, rfl⟩ := step_eq_some.1 hstep
    exact hx.call hcall
  · intro x c x' hx hplain hstep
    obtain ⟨hcall, rfl⟩ := step_eq_some.1 hstep
    exact hx.call hcall hplain

/-! ## A covering route -/

/-- An address of the network, and a link-local one. -/
def sampleIpaddr (b : UInt8) : Ipaddr := ⟨0xfd :: List.replicate 14 0 ++ [b], rfl⟩

def sampleNexthop (b : UInt8) : Ipaddr := ⟨0xfe :: 0x80 :: List.replicate 13 0 ++ [b], rfl⟩

/-- Two neighbours and four routes, none of which goes for a new one. -/
def sampleConfig : Config UInt8 where
  routeNb := 4
  removeLeastRecentlyUsed := false
  lladdrFromIpaddr h :=
    if h = sampleNexthop 1 then some 1 else if h = sampleNexthop 2 then some 2 else none
  ipaddrFromLladdr a := if a = 1 ∨ a = 2 then some (sampleNexthop a) else none

/-- A route for a host is added, and changed; then all routes of a neighbour go. -/
def hostCalls : List Call :=
  [.add (sampleIpaddr 1) 128 (sampleNexthop 1) true, .lookup (sampleIpaddr 1),
    .add (sampleIpaddr 1) 128 (sampleNexthop 2) true, .add (sampleIpaddr 2) 128 (sampleNexthop 2) true,
    .rmByNexthop (sampleNexthop 2)]

/-- A route for a network is added, and one for a host in it. -/
def nestedCalls : List Call :=
  [.add (sampleIpaddr 0) 64 (sampleNexthop 1) true, .add (sampleIpaddr 1) 128 (sampleNexthop 2) true]

open Transition in
theorem meets_behaves_hostCalls :
    Always (step sampleConfig) (·.table.Counted) hostCalls (System.init sampleConfig) ∧
      Meets (step sampleConfig) (Behaves sampleConfig) hostCalls (System.init sampleConfig) :=
  have h := always_counted_and_meets_behaves sampleConfig hostCalls
  ⟨h.1, h.2 (by decide +kernel)⟩

open Transition in
/-- The route of the network is gone. -/
theorem not_meets_behaves_nestedCalls :
    ¬ Meets (step sampleConfig) (Behaves sampleConfig) nestedCalls (System.init sampleConfig) := by
  intro h
  have hfirst : step sampleConfig (.add (sampleIpaddr 0) 64 (sampleNexthop 1) true)
      (System.init sampleConfig) = some ((System.init sampleConfig).after sampleConfig
        (.add (sampleIpaddr 0) 64 (sampleNexthop 1) true)) :=
    step_eq_some.2 ⟨by decide +kernel, rfl⟩
  have hsecond : ∃ x, step sampleConfig (.add (sampleIpaddr 1) 128 (sampleNexthop 2) true)
      ((System.init sampleConfig).after sampleConfig
        (.add (sampleIpaddr 0) 64 (sampleNexthop 1) true)) = some x :=
    ⟨_, step_eq_some.2 ⟨by decide +kernel, rfl⟩⟩
  obtain ⟨x, hx⟩ := hsecond
  have hbehaves := ((meets_cons hx).1 ((meets_cons hfirst).1 h).2).1
  have hkept := hbehaves.2 (prefixOf (sampleIpaddr 0) 64) (by decide +kernel)
  revert hkept
  decide +kernel

end Den2ne.RouteTable
