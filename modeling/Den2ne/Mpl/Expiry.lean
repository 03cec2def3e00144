import Den2ne.Mpl.Accepting

/-!
# What the lifetime timer does to the sets

`lifetime_timer_expiration` frees seeds that have expired, gives new domains to the addresses
that are subscribed and frees the domains whose address is not. `Subscribed` says when this does
no harm: no domain is freed, or the scan of `domain_set_free` leaves the memory behind the seed
set alone.
-/

namespace Den2ne.Mpl

section

variable {cfg : Config} {scans : Prop} {fits : State → ℕ → ℕ → Prop} {s s' : State}

theorem decrementLifetime_changes {i : ℕ} (hi : i < cfg.seedSetSize) (s : State) :
    Changes cfg scans fits s (decrementLifetime i s) := by
  unfold decrementLifetime
  dsimp only
  split
  · exact .tail (.single (.freeSeed hi)) (.lifetime i _)
  · exact .single (.lifetime i _)

theorem decrementLifetimes_changes (is : List ℕ) (his : ∀ i ∈ is, i < cfg.seedSetSize)
    (s : State) : Changes cfg scans fits s (decrementLifetimes is s) := by
  induction is generalizing s with
  | nil => exact .refl
  | cons i is ih =>
      exact (decrementLifetime_changes (his i List.mem_cons_self) s).trans
        (ih (fun j hj => his j (List.mem_cons_of_mem _ hj)) _)

/-- The lifetimes do not concern the domains, the addresses and the memory behind the seed
set. -/
theorem decrementLifetimes_frame (is : List ℕ) (his : ∀ i ∈ is, i < cfg.seedSetSize)
    (s : State) : (decrementLifetimes is s).domains = s.domains ∧
      (decrementLifetimes is s).maddrs = s.maddrs ∧
      (decrementLifetimes is s).seeds cfg.seedSetSize = s.seeds cfg.seedSetSize := by
  induction is generalizing s with
  | nil => exact ⟨rfl, rfl, rfl⟩
  | cons i is ih =>
      have hmaddrs : ∀ ms (t : State), (freeAll ms t).maddrs = t.maddrs := fun ms => by
        induction ms with
        | nil => exact fun _ => rfl
        | cons m ms ih => exact fun t => ih _
      have hi : cfg.seedSetSize ≠ i := Nat.ne_of_gt (his i List.mem_cons_self)
      obtain ⟨hdomains, hmaddrs', hseeds⟩ :=
        ih (fun j hj => his j (List.mem_cons_of_mem _ hj)) (decrementLifetime i s)
      have hfree : (seedSetFree i s).domains = s.domains ∧ (seedSetFree i s).maddrs = s.maddrs ∧
          (seedSetFree i s).seeds cfg.seedSetSize = s.seeds cfg.seedSetSize := by
        refine ⟨freeAll_domains _ s, hmaddrs _ s, ?_⟩
        unfold seedSetFree
        rw [State.setSeed_seeds, if_neg hi, freeAll_seeds]
      have hone : (decrementLifetime i s).domains = s.domains ∧
          (decrementLifetime i s).maddrs = s.maddrs ∧
          (decrementLifetime i s).seeds cfg.seedSetSize = s.seeds cfg.seedSetSize := by
        unfold decrementLifetime
        dsimp only
        rw [State.setSeed_seeds, if_neg hi]
        split
        · exact hfree
        · exact ⟨rfl, rfl, rfl⟩
      unfold decrementLifetimes
      rw [hdomains, hmaddrs', hseeds]
      exact hone

theorem allocateDomains_sameSets (cfg : Config) (ks : List ℕ) (s : State) :
    SameSets cfg s (allocateDomains cfg ks s) := by
  induction ks generalizing s with
  | nil => exact .refl cfg s
  | cons k ks ih =>
      unfold allocateDomains
      refine SameSets.trans ?_ (ih _)
      split
      · exact .refl cfg s
      · split
        · rename_i h
          exact (domainSetAllocate_cases h.2).1
        · exact .refl cfg s

/-- The seeds of a domain are freed; the memory behind the seed set is not one of them. -/
theorem freeSeedsOf_changes (scans : Prop) (fits : State → ℕ → ℕ → Prop) {d : ℕ} (is : List ℕ) (his : ∀ i ∈ is, i ≤ cfg.seedSetSize)
    (hbehind : (s.seeds cfg.seedSetSize).domain ≠ some d) :
    Changes cfg scans fits s (freeSeedsOf d is s) ∧
    (∀ i, (i ∈ is ∨ (s.seeds i).domain ≠ some d) →
      ((freeSeedsOf d is s).seeds i).domain ≠ some d) ∧
    (freeSeedsOf d is s).seeds cfg.seedSetSize = s.seeds cfg.seedSetSize := by
  induction is generalizing s with
  | nil => exact ⟨.refl, fun i hi => hi.resolve_left List.not_mem_nil, rfl⟩
  | cons i is ih =>
      have his' : ∀ j ∈ is, j ≤ cfg.seedSetSize := fun j hj => his j (List.mem_cons_of_mem _ hj)
      unfold freeSeedsOf
      split
      · rename_i hd
        have hi : i ≠ cfg.seedSetSize := fun heq => hbehind (heq ▸ hd)
        have hlt : i < cfg.seedSetSize := Nat.lt_of_le_of_ne (his i List.mem_cons_self) hi
        have hseeds : ∀ j, (seedSetFree i s).seeds j =
            if j = i then { s.seeds i with minSeq := [], domain := none } else s.seeds j :=
          fun j => by
            unfold seedSetFree
            rw [State.setSeed_seeds, freeAll_seeds]
        have hsame : (seedSetFree i s).seeds cfg.seedSetSize = s.seeds cfg.seedSetSize := by
          rw [hseeds, if_neg hi.symm]
        obtain ⟨hchanges, hfreed, hrest⟩ := ih his' (s := seedSetFree i s) (hsame ▸ hbehind)
        refine ⟨.trans (.single (.freeSeed hlt)) hchanges, fun j hj => ?_, hrest.trans hsame⟩
        refine hfreed j ?_
        by_cases hji : j = i
        · refine .inr ?_
          rw [hseeds, if_pos hji]
          exact nofun
        · rcases hj with hmem | hne
          · exact .inl ((List.mem_cons.1 hmem).resolve_left hji)
          · refine .inr ?_
            rwa [hseeds, if_neg hji]
      · rename_i hd
        obtain ⟨hchanges, hfreed, hrest⟩ := ih his' hbehind
        refine ⟨hchanges, fun j hj => hfreed j ?_, hrest⟩
        rcases hj with hmem | hne
        · rcases List.mem_cons.1 hmem with rfl | hmem
          · exact .inr hd
          · exact .inl hmem
        · exact .inr hne

theorem maddrRm_sameSets (cfg : Config) (a : Ip6Addr) (s : State) : SameSets cfg s (maddrRm cfg a s) := by
  obtain ⟨maddrs, heq⟩ := maddrRm_eq cfg a s
  rw [heq]
  exact .of_eq rfl rfl rfl rfl

theorem domainSetFree_changes (fits : State → ℕ → ℕ → Prop) {d : ℕ} (hscans : scans)
    (hbehind : (s.seeds cfg.seedSetSize).domain ≠ some d) :
    Changes cfg scans fits s (domainSetFree cfg d s) ∧
    (domainSetFree cfg d s).seeds cfg.seedSetSize = s.seeds cfg.seedSetSize := by
  have hbehind' : ((s.scan cfg).seeds cfg.seedSetSize).domain ≠ some d := hbehind
  obtain ⟨hchanges, hfreed, hseeds⟩ := freeSeedsOf_changes scans fits (scanOrder cfg)
    (fun i hi => mem_scanOrder.1 hi) hbehind'
  unfold domainSetFree
  dsimp only
  generalize freeSeedsOf d (scanOrder cfg) (s.scan cfg) = s₁ at hchanges hfreed hseeds
  have hrm := (maddrRm_sameSets cfg (s₁.domains d).dataAddr s₁).trans
    (maddrRm_sameSets cfg (s₁.domains d).ctrlAddr _)
  refine ⟨.tail (.tail (.trans (.single (.scan hscans _)) hchanges) (.same hrm))
    (.freeDomain hscans (fun i hi => ?_) Bool.false_ne_true), ?_⟩
  · rw [hrm.seeds]
    exact hfreed i (.inl (mem_scanOrder.2 (Nat.le_of_lt hi)))
  · rw [State.setDomain_seeds, hrm.seeds, hseeds]
    rfl

/-- Every domain is subscribed, so that none is freed; or the scans may take place and the memory
behind the seed set does not point to a domain. -/
def Subscribed (cfg : Config) (scans : Prop) (s : State) : Prop :=
  (∀ d < cfg.domainSetSize, (s.domains d).isUsed →
    maddrLookup cfg (s.domains d).dataAddr s ≠ none) ∨
  scans ∧ ∀ d < cfg.domainSetSize, (s.seeds cfg.seedSetSize).domain ≠ some d

theorem freeDomains_eq (ds : List ℕ) (hall : ∀ d ∈ ds, (s.domains d).isUsed →
    maddrLookup cfg (s.domains d).dataAddr s ≠ none) : freeDomains cfg ds s = s := by
  induction ds with
  | nil => rfl
  | cons d ds ih =>
      unfold freeDomains
      rw [if_neg fun hfree => hall d List.mem_cons_self hfree.1 hfree.2]
      exact ih fun k hk => hall k (List.mem_cons_of_mem _ hk)

theorem freeDomains_changes (ds : List ℕ) (hds : ∀ d ∈ ds, d < cfg.domainSetSize)
    (hscans : scans) (hbehind : ∀ d < cfg.domainSetSize,
      (s.seeds cfg.seedSetSize).domain ≠ some d) :
    Changes cfg scans fits s (freeDomains cfg ds s) := by
  induction ds generalizing s with
  | nil => exact .refl
  | cons d ds ih =>
      have hd := hds d List.mem_cons_self
      have hds' : ∀ k ∈ ds, k < cfg.domainSetSize := fun k hk => hds k (List.mem_cons_of_mem _ hk)
      unfold freeDomains
      split
      · obtain ⟨hchanges, hseeds⟩ := domainSetFree_changes fits hscans (hbehind d hd)
        exact hchanges.trans (ih hds' (hseeds ▸ hbehind))
      · exact ih hds' hbehind

theorem maddrAdd_lookup {a b : Ip6Addr} (h : maddrAdd cfg a s = some s')
    (hb : maddrLookup cfg b s ≠ none) : maddrLookup cfg b s' ≠ none := by
  unfold maddrAdd at h
  split at h
  · cases h
  · obtain ⟨k, hk, rfl⟩ := Option.map_eq_some_iff.1 h
    obtain ⟨-, hfree⟩ := findDown_eq_some hk
    unfold maddrLookup at hb ⊢
    rw [Option.ne_none_iff_isSome, List.find?_isSome] at hb ⊢
    obtain ⟨j, hj, hjb⟩ := hb
    refine ⟨j, hj, ?_⟩
    have hslot : s.maddrs j = some b := of_decide_eq_true hjb
    have hjk : j ≠ k := fun heq => by
      rw [heq] at hslot
      rw [hslot] at hfree
      cases hfree
    exact decide_eq_true ((Function.update_of_ne hjk _ _).trans hslot)

theorem subscribe_lookup {a b : Ip6Addr} (h : subscribe cfg a s = some s')
    (hb : maddrLookup cfg b s ≠ none) : maddrLookup cfg b s' ≠ none := by
  unfold subscribe at h
  split at h
  · exact Option.some.inj h ▸ hb
  · exact maddrAdd_lookup h hb

/-- A new domain of a subscribed address does not unsubscribe any address. -/
theorem domainSetAllocate_lookup {a b : Ip6Addr} (hb : maddrLookup cfg b s ≠ none) :
    maddrLookup cfg b (domainSetAllocate cfg a s).2 ≠ none := by
  unfold domainSetAllocate
  split
  · exact hb
  · split
    · exact hb
    · split
      · exact hb
      · rename_i s' hs'
        have hs : maddrLookup cfg b s' ≠ none := subscribe_lookup hs' hb
        dsimp only
        split
        · exact hs
        · exact hs

theorem domainSetAllocate_domains (cfg : Config) (a : Ip6Addr) (s : State) (d : ℕ) :
    (domainSetAllocate cfg a s).2.domains d = s.domains d ∨
    ¬ ((domainSetAllocate cfg a s).2.domains d).isUsed ∨
    ∃ dataAddr ctrlAddr, domainAddrs cfg a s = some (dataAddr, ctrlAddr) ∧
      ((domainSetAllocate cfg a s).2.domains d).dataAddr = dataAddr := by
  unfold domainSetAllocate
  split
  · exact .inl rfl
  · rename_i dataAddr ctrlAddr haddrs
    split
    · exact .inl rfl
    · rename_i k hk
      split
      · exact .inl rfl
      · rename_i s' hs'
        obtain ⟨maddrs, rfl⟩ := subscribe_eq_some hs'
        dsimp only
        by_cases hdk : d = k
        · split
          · refine .inr (.inr ⟨dataAddr, ctrlAddr, haddrs, ?_⟩)
            rw [State.setDomain_domains, if_pos hdk]
          · refine .inr (.inl ?_)
            rw [State.setDomain_domains, if_pos hdk]
            exact Bool.false_ne_true
        · refine .inl ?_
          split
          · rw [State.setDomain_domains, if_neg hdk]
          · rw [State.setDomain_domains, if_neg hdk]

theorem subscribed_allocateDomains (ks : List ℕ) (hks : ∀ k ∈ ks, k < cfg.maddrNb)
    (h : Subscribed cfg scans s) : Subscribed cfg scans (allocateDomains cfg ks s) := by
  induction ks generalizing s with
  | nil => exact h
  | cons k ks ih =>
      unfold allocateDomains
      refine ih (fun j hj => hks j (List.mem_cons_of_mem _ hj)) ?_
      split
      · exact h
      · rename_i a ha
        split
        · rename_i hnew
          have hsame := (domainSetAllocate_cases hnew.2).1
          rcases h with hall | ⟨hscans, hbehind⟩
          · refine .inl fun d hd hused => ?_
            rcases domainSetAllocate_domains cfg a s d with heq | hnot | ⟨x, c, haddrs, hx⟩
            · rw [heq] at hused ⊢
              exact domainSetAllocate_lookup (hall d hd hused)
            · exact absurd hused hnot
            · have hscope : ¬ getAddressScope a = scopeLinkLocal := fun heq => by
                rw [heq] at hnew
                exact absurd hnew.1 (by decide)
              unfold domainAddrs at haddrs
              rw [if_neg hscope, Option.some.injEq, Prod.mk.injEq] at haddrs
              rw [hx, ← haddrs.1]
              refine domainSetAllocate_lookup ?_
              unfold maddrLookup
              rw [Option.ne_none_iff_isSome, List.find?_isSome]
              exact ⟨k, List.mem_range.2 (hks k List.mem_cons_self), decide_eq_true ha⟩
          · refine .inr ⟨hscans, ?_⟩
            rw [hsame.seeds]
            exact hbehind
        · exact h

theorem mem_downTo {n k : ℕ} : k ∈ (List.range n).reverse ↔ k < n := by
  rw [List.mem_reverse, List.mem_range]

/-- If every domain is subscribed, `mpl_maddr_check` only makes new domains. -/
theorem maddrCheck_sameSets (h : Subscribed cfg False s) : SameSets cfg s (maddrCheck cfg s) := by
  have hsame := allocateDomains_sameSets cfg (List.range cfg.maddrNb).reverse s
  have hsub := subscribed_allocateDomains (List.range cfg.maddrNb).reverse
    (fun k hk => mem_downTo.1 hk) h
  unfold maddrCheck
  rw [freeDomains_eq]
  · exact hsame
  · exact fun d hd => hsub.resolve_right (fun hno => hno.1) d (mem_downTo.1 hd)

theorem maddrCheck_changes (h : Subscribed cfg scans s) :
    Changes cfg scans fits s (maddrCheck cfg s) := by
  rcases h with hall | ⟨hscans, hbehind⟩
  · exact .single (.same (maddrCheck_sameSets (.inl hall)))
  · have hsame := allocateDomains_sameSets cfg (List.range cfg.maddrNb).reverse s
    unfold maddrCheck
    refine .trans (.single (.same hsame)) ?_
    refine freeDomains_changes _ (fun d hd => mem_downTo.1 hd) hscans ?_
    rw [hsame.seeds]
    exact hbehind

theorem lifetimeTimerExpiration_changes (h : Subscribed cfg scans s) :
    Changes cfg scans fits s (lifetimeTimerExpiration cfg s) := by
  have his : ∀ i ∈ (List.range cfg.seedSetSize).reverse, i < cfg.seedSetSize :=
    fun i hi => mem_downTo.1 hi
  obtain ⟨hdomains, hmaddrs, hseeds⟩ := decrementLifetimes_frame _ his s
  unfold lifetimeTimerExpiration
  refine (decrementLifetimes_changes _ his s).trans (maddrCheck_changes ?_)
  unfold Subscribed maddrLookup at h ⊢
  rw [hdomains, hmaddrs, hseeds]
  exact h

end

end Den2ne.Mpl
