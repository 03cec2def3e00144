import Den2ne.Mpl.Step

/-!
# What leaves the sets alone

`SameSets` says that a step has changed no list of messages, no seed and no sequence number,
and has freed no domain: it has only worked on timers, on addresses and on new domains. The
parts of `accept` before the seed are of this kind.
-/

namespace Den2ne.Mpl

namespace State

variable (s : State)

@[simp] theorem setMsg_msgs (m : ℕ) (x : Msg) (k : ℕ) :
    (s.setMsg m x).msgs k = if k = m then x else s.msgs k := Function.update_apply ..

@[simp] theorem setMsg_seeds (m : ℕ) (x : Msg) : (s.setMsg m x).seeds = s.seeds := rfl
@[simp] theorem setMsg_domains (m : ℕ) (x : Msg) : (s.setMsg m x).domains = s.domains := rfl
@[simp] theorem setMsg_history (m : ℕ) (x : Msg) : (s.setMsg m x).history = s.history := rfl

@[simp] theorem setSeed_seeds (i : ℕ) (x : Seed) (k : ℕ) :
    (s.setSeed i x).seeds k = if k = i then x else s.seeds k := Function.update_apply ..

@[simp] theorem setSeed_msgs (i : ℕ) (x : Seed) : (s.setSeed i x).msgs = s.msgs := rfl
@[simp] theorem setSeed_domains (i : ℕ) (x : Seed) : (s.setSeed i x).domains = s.domains := rfl
@[simp] theorem setSeed_history (i : ℕ) (x : Seed) : (s.setSeed i x).history = s.history := rfl

@[simp] theorem setDomain_domains (d : ℕ) (x : Domain) (k : ℕ) :
    (s.setDomain d x).domains k = if k = d then x else s.domains k := Function.update_apply ..

@[simp] theorem setDomain_msgs (d : ℕ) (x : Domain) : (s.setDomain d x).msgs = s.msgs := rfl
@[simp] theorem setDomain_seeds (d : ℕ) (x : Domain) : (s.setDomain d x).seeds = s.seeds := rfl
@[simp] theorem setDomain_history (d : ℕ) (x : Domain) :
    (s.setDomain d x).history = s.history := rfl

end State

/-- The control address of a domain belongs to its data address, and no two domains have the
same data address. -/
structure DistinctDomains (cfg : Config) (s : State) : Prop where
  ctrl : ∀ d < cfg.domainSetSize, (s.domains d).isUsed →
    (s.domains d).ctrlAddr = makeLinkLocal (s.domains d).dataAddr
  unique : ∀ d < cfg.domainSetSize, ∀ d' < cfg.domainSetSize, (s.domains d).isUsed →
    (s.domains d').isUsed → (s.domains d).dataAddr = (s.domains d').dataAddr → d = d'

/-- `s'` has the sets of `s`, and perhaps more domains. -/
structure SameSets (cfg : Config) (s s' : State) : Prop where
  seeds : s'.seeds = s.seeds
  seed : ∀ m, (s'.msgs m).seed = (s.msgs m).seed
  sent : ∀ m, (s.msgs m).seed ≠ none → (s'.msgs m).sent = (s.msgs m).sent
  dataAddr : ∀ d, (s.domains d).isUsed → (s'.domains d).dataAddr = (s.domains d).dataAddr
  distinct : DistinctDomains cfg s → DistinctDomains cfg s'
  history : s'.history = s.history

namespace SameSets

variable {cfg : Config} {s s' s'' : State}

/-- No domain is freed. -/
theorem used (h : SameSets cfg s s') (d : ℕ) (hd : (s.domains d).isUsed) :
    (s'.domains d).isUsed := by
  unfold Domain.isUsed at hd ⊢
  rwa [h.dataAddr d hd]

theorem refl (cfg : Config) (s : State) : SameSets cfg s s :=
  ⟨rfl, fun _ => rfl, fun _ _ => rfl, fun _ _ => rfl, fun h => h, rfl⟩

theorem trans (h : SameSets cfg s s') (h' : SameSets cfg s' s'') : SameSets cfg s s'' where
  seeds := h'.seeds.trans h.seeds
  seed m := (h'.seed m).trans (h.seed m)
  sent m hm := (h'.sent m (h.seed m ▸ hm)).trans (h.sent m hm)
  dataAddr d hd := (h'.dataAddr d (h.used d hd)).trans (h.dataAddr d hd)
  distinct hs := h'.distinct (h.distinct hs)
  history := h'.history.trans h.history

/-- Other fields may differ. -/
theorem of_eq (hmsgs : s'.msgs = s.msgs) (hseeds : s'.seeds = s.seeds)
    (hdomains : s'.domains = s.domains) (hhistory : s'.history = s.history) :
    SameSets cfg s s' where
  seeds := hseeds
  seed _ := by rw [hmsgs]
  sent _ _ := by rw [hmsgs]
  dataAddr _ _ := by rw [hdomains]
  distinct h := ⟨by rw [hdomains]; exact h.ctrl, by rw [hdomains]; exact h.unique⟩
  history := hhistory

/-- A message that keeps its seed, and its number if it is in use. -/
theorem setMsg {m : ℕ} {x : Msg} (hseed : x.seed = (s.msgs m).seed)
    (hsent : x.seed ≠ none → x.sent = (s.msgs m).sent) : SameSets cfg s (s.setMsg m x) where
  seeds := rfl
  seed k := by
    rw [State.setMsg_msgs]
    split
    · rename_i hk
      rw [hk, hseed]
    · rfl
  sent k hk := by
    rw [State.setMsg_msgs]
    split
    · rename_i heq
      subst heq
      exact hsent (hseed ▸ hk)
    · rfl
  dataAddr _ _ := rfl
  distinct h := ⟨h.ctrl, h.unique⟩
  history := rfl

/-- The timer of a message. -/
theorem setTimer (m : ℕ) (tt : Trickle) :
    SameSets cfg s (s.setMsg m { s.msgs m with tt := tt }) :=
  .setMsg rfl fun _ => rfl

/-- The timer of a domain. -/
theorem setDomainTimer (d : ℕ) (tt : Trickle) :
    SameSets cfg s (s.setDomain d { s.domains d with tt := tt }) := by
  have hdata : ∀ k, ((s.setDomain d { s.domains d with tt := tt }).domains k).dataAddr =
      (s.domains k).dataAddr := fun k => by
    rw [State.setDomain_domains]
    split
    · rename_i hk
      rw [hk]
    · rfl
  have hctrl : ∀ k, ((s.setDomain d { s.domains d with tt := tt }).domains k).ctrlAddr =
      (s.domains k).ctrlAddr := fun k => by
    rw [State.setDomain_domains]
    split
    · rename_i hk
      rw [hk]
    · rfl
  refine ⟨rfl, fun _ => rfl, fun _ _ => rfl, fun k _ => hdata k, fun h => ⟨fun k hk hused => ?_,
    fun k hk k' hk' hused hused' heq => ?_⟩, rfl⟩
  · unfold Domain.isUsed at hused
    rw [hctrl, hdata]
    rw [hdata] at hused
    exact h.ctrl k hk hused
  · unfold Domain.isUsed at hused hused'
    rw [hdata] at hused hused'
    rw [hdata, hdata] at heq
    exact h.unique k hk k' hk' hused hused' heq

/-- A new domain in a free slot. -/
theorem newDomain {d : ℕ} {x : Domain} (hfree : ¬ (s.domains d).isUsed)
    (hctrl : x.isUsed → x.ctrlAddr = makeLinkLocal x.dataAddr)
    (hnew : ∀ k < cfg.domainSetSize, (s.domains k).isUsed → x.isUsed →
      DistinctDomains cfg s → (s.domains k).dataAddr ≠ x.dataAddr) :
    SameSets cfg s (s.setDomain d x) where
  seeds := rfl
  seed _ := rfl
  sent _ _ := rfl
  dataAddr k hk := by
    rw [State.setDomain_domains, if_neg]
    exact fun h => hfree (h ▸ hk)
  distinct h := by
    refine ⟨fun k hk hused => ?_, fun k hk k' hk' hused hused' heq => ?_⟩
    · rw [State.setDomain_domains] at hused ⊢
      split at hused
      · rename_i hkd
        rw [if_pos hkd]
        exact hctrl hused
      · rename_i hkd
        rw [if_neg hkd]
        exact h.ctrl k hk hused
    · rw [State.setDomain_domains] at hused hused'
      rw [State.setDomain_domains, State.setDomain_domains] at heq
      by_cases hkd : k = d
      · by_cases hkd' : k' = d
        · rw [hkd, hkd']
        · rw [if_pos hkd] at hused heq
          rw [if_neg hkd'] at hused' heq
          exact absurd heq.symm (hnew k' hk' hused' hused h)
      · rw [if_neg hkd] at hused heq
        by_cases hkd' : k' = d
        · rw [if_pos hkd'] at hused' heq
          exact absurd heq (hnew k hk hused hused' h)
        · rw [if_neg hkd'] at hused' heq
          exact h.unique k hk k' hk' hused hused' heq
  history := rfl

end SameSets

/-! ## Domains -/

section Domains

variable {cfg : Config} {s s' : State} {a : Ip6Addr} {d : ℕ}

theorem getAddressScope_makeLinkLocal (a : Ip6Addr) :
    getAddressScope (makeLinkLocal a) = scopeLinkLocal := by
  have hall : ∀ n < 256, (UInt8.ofNat n &&& 0xF0 ||| scopeLinkLocal) &&& 0x0F = scopeLinkLocal := by
    decide +kernel
  have h := hall (a 1).toNat (UInt8.toNat_lt _)
  rw [UInt8.ofNat_toNat] at h
  unfold getAddressScope makeLinkLocal
  rw [Function.update_self]
  exact h

theorem maddrAdd_eq_some (h : maddrAdd cfg a s = some s') :
    ∃ maddrs, s' = { s with maddrs := maddrs } := by
  unfold maddrAdd at h
  split at h
  · cases h
  · obtain ⟨k, -, rfl⟩ := Option.map_eq_some_iff.1 h
    exact ⟨_, rfl⟩

theorem subscribe_eq_some (h : subscribe cfg a s = some s') :
    ∃ maddrs, s' = { s with maddrs := maddrs } := by
  unfold subscribe at h
  split at h
  · exact ⟨s.maddrs, (Option.some.inj h).symm⟩
  · exact maddrAdd_eq_some h

theorem maddrRm_eq (cfg : Config) (a : Ip6Addr) (s : State) :
    ∃ maddrs, maddrRm cfg a s = { s with maddrs := maddrs } := by
  unfold maddrRm
  split
  · exact ⟨s.maddrs, rfl⟩
  · exact ⟨_, rfl⟩

theorem domainSetLookup_eq_none (h : domainSetLookup cfg a s = none)
    (hd : d < cfg.domainSetSize) (hused : (s.domains d).isUsed) :
    (s.domains d).dataAddr ≠ a ∧ (s.domains d).ctrlAddr ≠ a := by
  have hnot := findDown_eq_none.1 h d hd
  rw [hused, Bool.true_and, Bool.or_eq_false_iff, decide_eq_false_iff_not,
    decide_eq_false_iff_not] at hnot
  exact hnot

theorem higherScope_eq (cfg : Config) (s : State) (turns : ℕ) (a : Ip6Addr) :
    ∃ k ≤ turns, higherScope cfg s turns a = Function.update a 1 (a 1 + UInt8.ofNat k) := by
  induction turns generalizing a with
  | zero => exact ⟨0, Nat.le_refl 0, by simp [higherScope]⟩
  | succ turns ih =>
      have hone : ∃ k ≤ turns + 1, Function.update a 1 (a 1 + 1) =
          Function.update a 1 (a 1 + UInt8.ofNat k) := ⟨1, by omega, rfl⟩
      unfold higherScope
      dsimp only
      split
      · exact hone
      · split
        · obtain ⟨k, hk, heq⟩ := ih (Function.update a 1 (a 1 + 1))
          refine ⟨k + 1, by omega, ?_⟩
          rw [heq, Function.update_self, Function.update_idem]
          congr 1
          rw [UInt8.add_assoc, Nat.add_comm k 1, UInt8.ofNat_add]
          rfl
        · exact hone

theorem scopeByte_add {n k : ℕ} (hn : n < 256) (hk : k ≤ 4)
    (h : UInt8.ofNat n &&& 0x0F = scopeLinkLocal) :
    (UInt8.ofNat n + UInt8.ofNat k) &&& 0xF0 ||| scopeLinkLocal = UInt8.ofNat n := by
  have hall : ∀ n < 256, ∀ k < 5, UInt8.ofNat n &&& 0x0F = scopeLinkLocal →
      (UInt8.ofNat n + UInt8.ofNat k) &&& 0xF0 ||| scopeLinkLocal = UInt8.ofNat n := by
    decide +kernel
  exact hall n hn k (by omega) h

/-- The control address of a new domain is made from its data address. -/
theorem domainAddrs_ctrlAddr {dataAddr ctrlAddr : Ip6Addr}
    (h : domainAddrs cfg a s = some (dataAddr, ctrlAddr)) :
    ctrlAddr = makeLinkLocal dataAddr ∧ (dataAddr = a ∨ ctrlAddr = a) := by
  unfold domainAddrs at h
  dsimp only at h
  split at h
  · rename_i hscope
    split at h
    · cases h
    · rw [Option.some.injEq, Prod.mk.injEq] at h
      obtain ⟨rfl, rfl⟩ := h
      obtain ⟨k, hk, heq⟩ := higherScope_eq cfg s 4 a
      refine ⟨?_, .inr rfl⟩
      have hbyte := scopeByte_add (UInt8.toNat_lt (a 1)) hk
        (by rw [UInt8.ofNat_toNat]; exact hscope)
      rw [UInt8.ofNat_toNat] at hbyte
      unfold makeLinkLocal
      rw [heq, Function.update_self, Function.update_idem, hbyte, Function.update_eq_self]
  · rw [Option.some.injEq, Prod.mk.injEq] at h
    obtain ⟨rfl, rfl⟩ := h
    exact ⟨rfl, .inl rfl⟩

/-- A new domain takes a slot that was free. -/
theorem domainSetAllocate_cases (hnone : domainSetLookup cfg a s = none) :
    SameSets cfg s (domainSetAllocate cfg a s).2 ∧
    ∀ d, (domainSetAllocate cfg a s).1 = some d → d < cfg.domainSetSize ∧
      cfg.controlTimerOk = true ∧ ∃ dataAddr ctrlAddr,
        domainAddrs cfg a s = some (dataAddr, ctrlAddr) ∧
        (domainSetAllocate cfg a s).2.domains d = ⟨dataAddr, ctrlAddr, ⟨false, 0⟩⟩ := by
  unfold domainSetAllocate
  split
  · exact ⟨.refl cfg s, nofun⟩
  · rename_i dataAddr ctrlAddr haddrs
    split
    · exact ⟨.refl cfg s, nofun⟩
    · rename_i d hd
      obtain ⟨hlt, hfree⟩ := findDown_eq_some hd
      split
      · exact ⟨.refl cfg s, nofun⟩
      · rename_i s' hs'
        obtain ⟨maddrs, rfl⟩ := subscribe_eq_some hs'
        have hmid : SameSets cfg s { s with maddrs := maddrs } := .of_eq rfl rfl rfl rfl
        have hfree' : ¬ (s.domains d).isUsed := by
          rw [Bool.not_eq_true'] at hfree
          rw [hfree]
          exact Bool.false_ne_true
        obtain ⟨hctrl, heither⟩ := domainAddrs_ctrlAddr haddrs
        dsimp only
        split
        · rename_i hok
          refine ⟨hmid.trans (.newDomain hfree' (fun _ => hctrl) fun k hk hused _ hdistinct heq =>
            ?_), fun d' hd' => ?_⟩
          · obtain ⟨hdata, hctrl'⟩ := domainSetLookup_eq_none hnone hk hused
            rcases heither with rfl | rfl
            · exact hdata heq
            · have hmake : (s.domains k).dataAddr = dataAddr := heq
              refine hctrl' ?_
              rw [hctrl, ← hmake]
              exact hdistinct.ctrl k hk hused
          · obtain rfl := Option.some.inj hd'
            exact ⟨hlt, hok, dataAddr, ctrlAddr, haddrs, by simp⟩
        · have hunused : ∀ c tt, ¬ (⟨fun _ => 0, c, tt⟩ : Domain).isUsed := fun _ _ =>
            Bool.false_ne_true
          exact ⟨hmid.trans (.newDomain hfree' (fun h => absurd h (hunused _ _))
            fun k _ _ h => absurd h (hunused _ _)), nofun⟩

/-- The domain of a data message to a routable multicast address is in use and has this
address. -/
theorem acceptDomain_cases (hroutable : isAddrMcastRoutable a = true)
    (hdistinct : DistinctDomains cfg s) :
    SameSets cfg s (acceptDomain cfg a s).2 ∧
    ∀ d, (acceptDomain cfg a s).1 = some d → d < cfg.domainSetSize ∧
      ((acceptDomain cfg a s).2.domains d).isUsed ∧
      ((acceptDomain cfg a s).2.domains d).dataAddr = a := by
  unfold isAddrMcastRoutable at hroutable
  rw [Bool.and_eq_true, decide_eq_true_eq] at hroutable
  have hscope : ¬ getAddressScope a = scopeLinkLocal := fun h => by
    rw [h] at hroutable
    exact absurd hroutable.2 (by decide)
  unfold acceptDomain
  split
  · rename_i d hd
    refine ⟨.refl cfg s, fun d' hd' => ?_⟩
    obtain rfl := Option.some.inj hd'
    obtain ⟨hlt, hp⟩ := findDown_eq_some hd
    rw [Bool.and_eq_true, Bool.or_eq_true, decide_eq_true_eq, decide_eq_true_eq] at hp
    refine ⟨hlt, hp.1, hp.2.resolve_right fun hctrl => hscope ?_⟩
    rw [← hctrl, hdistinct.ctrl d hlt hp.1]
    exact getAddressScope_makeLinkLocal _
  · rename_i hnone
    have halloc := domainSetAllocate_cases hnone
    split
    · rename_i s' hs'
      rw [hs'] at halloc
      exact ⟨halloc.1, nofun⟩
    · rename_i d s' hs'
      rw [hs'] at halloc
      obtain ⟨hsame, hnew⟩ := halloc
      obtain ⟨hlt, hok, dataAddr, ctrlAddr, haddrs, hdomain⟩ := hnew d rfl
      rw [if_pos hok]
      refine ⟨hsame, fun d' hd' => ?_⟩
      obtain rfl := Option.some.inj hd'
      dsimp only at hdomain ⊢
      unfold domainAddrs at haddrs
      rw [if_neg hscope, Option.some.injEq, Prod.mk.injEq] at haddrs
      rw [hdomain, ← haddrs.1]
      exact ⟨hlt, hroutable.1, rfl⟩

end Domains

end Den2ne.Mpl
