import Den2ne.Rpl.Parent

/-!
# The rank and the preferred parent

What an update of the state selects has an acceptable rank, so the rank of the node is finite
exactly if it has a parent, and within `max_rankinc` of the lowest one. MRHOF adds
`min_hoprankinc` to the rank of the parent or the rank is infinite. OF0 multiplies it by the step
of the link in 16 bits, so that the product may be 0.
-/

namespace Den2ne

namespace Rpl

variable {c : Conf} {s : Instance} {now : UInt32} {d : Dag} {nbr n : ℕ} {nbr₁ nbr₂ : Option ℕ}

/-- The rank is the one through the preferred parent, infinite if there is none, and otherwise
above the parent's and within `max_rankinc` of the lowest rank. -/
structure RankRight (c : Conf) (s : Instance) (d : Dag) : Prop where
  rank_eq : d.rank = rankViaNbr c s d.preferredParent
  infinite_iff : d.rank = infiniteRank ↔ d.preferredParent = none
  parent_lt : ∀ nbr, d.preferredParent = some nbr → s.rank nbr < d.rank
  le_lowest : ∀ nbr, d.preferredParent = some nbr → s.maxRankinc ≠ 0 →
    d.rank.toNat ≤ d.lowestRank.toNat + s.maxRankinc.toNat

/-! ## Ranks through a neighbour -/

theorem toNat_saturate (x : ℕ) : (saturate x).toNat = min x 65535 := by
  rw [saturate, UInt16.toNat_ofNat', Nat.mod_eq_of_lt]
  omega

theorem toNat_infiniteRank : infiniteRank.toNat = 65535 := rfl

theorem ne_infiniteRank_iff {rank : UInt16} : rank ≠ infiniteRank ↔ rank.toNat < 65535 := by
  have hlt := rank.toNat_lt
  rw [Ne, ← UInt16.toNat_inj, toNat_infiniteRank]
  omega

/-- With MRHOF a finite rank is above the neighbour's. -/
theorem Mrhof.lt_rankViaNbr (hinc : 0 < s.minHoprankinc)
    (hfinite : Mrhof.rankViaNbr c s nbr ≠ infiniteRank) :
    s.rank nbr < Mrhof.rankViaNbr c s nbr := by
  have hpos : 0 < s.minHoprankinc.toNat := hinc
  have hbound := toNat_saturate ((s.rank nbr).toNat + s.minHoprankinc.toNat)
  rw [ne_infiniteRank_iff] at hfinite
  rw [UInt16.lt_iff_toNat_lt]
  unfold Mrhof.rankViaNbr at hfinite ⊢
  dsimp only at hfinite ⊢
  split at hfinite
  · rename_i hlt
    rw [if_pos hlt]
    omega
  · rename_i hge
    have hle := UInt16.le_iff_toNat_le.1 (UInt16.not_lt.1 hge)
    rw [if_neg hge]
    omega

/-- With OF0 a finite rank is above the neighbour's unless the increase is 0. -/
theorem Of0.lt_rankViaNbr_iff (hfinite : Of0.rankViaNbr s nbr ≠ infiniteRank) :
    s.rank nbr < Of0.rankViaNbr s nbr ↔ nbrRankIncrease s nbr ≠ 0 := by
  have hzero : nbrRankIncrease s nbr ≠ 0 ↔ (nbrRankIncrease s nbr).toNat ≠ 0 := by
    rw [Ne, ← UInt16.toNat_inj]
    rfl
  rw [ne_infiniteRank_iff] at hfinite
  rw [UInt16.lt_iff_toNat_lt, hzero]
  rw [Of0.rankViaNbr, toNat_saturate] at hfinite ⊢
  omega

/-- The increase is 0 if the product is a multiple of the range of 16 bits. -/
theorem Of0.nbrRankIncrease_eq_zero_iff :
    nbrRankIncrease s nbr = 0 ↔ (65536 : ℤ) ∣ stepOfRank s nbr * s.minHoprankinc.toNat := by
  have hnonneg := Int.emod_nonneg (stepOfRank s nbr * s.minHoprankinc.toNat)
    (by decide : (65536 : ℤ) ≠ 0)
  have hlt := Int.emod_lt_of_pos (stepOfRank s nbr * s.minHoprankinc.toNat)
    (by decide : (0 : ℤ) < 65536)
  have hvalue : (nbrRankIncrease s nbr).toNat =
      (stepOfRank s nbr * s.minHoprankinc.toNat % 65536).toNat := by
    rw [nbrRankIncrease, one_mul, add_zero, UInt16.ofInt, UInt16.toNat_ofNat']
    exact Nat.mod_eq_of_lt (by omega)
  rw [← UInt16.toNat_inj, hvalue, Int.dvd_iff_emod_eq_zero]
  change _ = 0 ↔ _
  omega

/-! ## Selection -/

theorem eq_some_of_filter {o : Option ℕ} {q : ℕ → Bool} (h : o.filter q = some n) : o = some n :=
  (Option.filter_eq_some_iff.1 h).1

theorem Mrhof.bestParent_cases (h : Mrhof.bestParent c s now d nbr₁ nbr₂ = some nbr) :
    nbr₁ = some nbr ∨ nbr₂ = some nbr := by
  unfold Mrhof.bestParent at h
  cases h₁ : nbr₁.filter (Mrhof.nbrIsAcceptableParent c s) with
  | none =>
      rw [h₁] at h
      exact .inr (eq_some_of_filter h)
  | some a =>
      cases h₂ : nbr₂.filter (Mrhof.nbrIsAcceptableParent c s) with
      | none =>
          rw [h₁, h₂] at h
          exact .inl ((eq_some_of_filter h₁).trans h)
      | some b =>
          rw [h₁, h₂] at h
          rw [eq_some_of_filter h₁, eq_some_of_filter h₂]
          dsimp only at h
          split at h
          · exact .inl h
          · split at h
            · exact .inr h
            · split at h
              · exact .inl h
              · exact .inr h

theorem Of0.bestParent_cases (h : Of0.bestParent s d nbr₁ nbr₂ = some nbr) :
    nbr₁ = some nbr ∨ nbr₂ = some nbr := by
  unfold Of0.bestParent at h
  cases h₁ : nbr₁.filter (Of0.nbrIsAcceptableParent s) with
  | none =>
      rw [h₁] at h
      exact .inr (eq_some_of_filter h)
  | some a =>
      cases h₂ : nbr₂.filter (Of0.nbrIsAcceptableParent s) with
      | none =>
          rw [h₁, h₂] at h
          exact .inl ((eq_some_of_filter h₁).trans h)
      | some b =>
          rw [h₁, h₂] at h
          rw [eq_some_of_filter h₁, eq_some_of_filter h₂]
          dsimp only at h
          split at h
          · split at h
            · exact .inl h
            · exact .inr h
          · split at h
            · rename_i htie
              exact htie.imp (·.trans h) (·.trans h)
            · split at h
              · exact .inl h
              · exact .inr h

/-- The objective function picks one of the two. -/
theorem ofBestParent_cases (h : ofBestParent c s now d nbr₁ nbr₂ = some nbr) :
    nbr₁ = some nbr ∨ nbr₂ = some nbr := by
  unfold ofBestParent at h
  split at h
  · exact Mrhof.bestParent_cases h
  · exact Of0.bestParent_cases h

/-- The best parent is a candidate. -/
theorem isCandidate_of_bestParent {freshOnly : Bool}
    (h : bestParent c s now d freshOnly = some nbr) : isCandidate c s now d freshOnly nbr = true := by
  have hfold : ∀ (l : List ℕ) (best : Option ℕ),
      (∀ n, best = some n → isCandidate c s now d freshOnly n = true) → ∀ n,
      l.foldl (fun best nbr => if isCandidate c s now d freshOnly nbr then
        ofBestParent c s now d best (some nbr) else best) best = some n →
      isCandidate c s now d freshOnly n = true := by
    intro l
    induction l with
    | nil => exact fun best hbest n hn => hbest n hn
    | cons a l ih =>
        intro best hbest n hn
        refine ih _ (fun m hm => ?_) n hn
        dsimp only at hm
        split at hm
        · rename_i ha
          rcases ofBestParent_cases hm with hm | hm
          · exact hbest m hm
          · exact Option.some.inj hm ▸ ha
        · exact hbest m hm
  unfold bestParent at h
  split at h
  · cases h
  · exact hfold _ none nofun nbr h

/-- The selected parent was a candidate. -/
theorem isCandidate_of_selectBest (h : (selectBest c s now d).1 = some nbr) :
    ∃ freshOnly, isCandidate c s now d freshOnly nbr = true := by
  have hbest : ∀ {freshOnly}, bestParent c s now d freshOnly = some nbr →
      ∃ freshOnly, isCandidate c s now d freshOnly nbr = true := fun hn =>
    ⟨_, isCandidate_of_bestParent hn⟩
  unfold selectBest at h
  dsimp only at h
  split at h
  · cases h
  · split at h
    · split at h
      · cases h
      · split at h
        · exact hbest h
        · split at h
          · exact hbest h
          · split at h
            · split at h
              · cases h
              · exact hbest h
            · rename_i fresh hfresh
              exact hbest (hfresh.trans h)
    · exact hbest h

theorem acceptableRank_of_selectBest (h : (selectBest c s now d).1 = some nbr) :
    acceptableRank s d (rankViaNbr c s (some nbr)) = true := by
  obtain ⟨freshOnly, hcandidate⟩ := isCandidate_of_selectBest h
  rw [isCandidate, Bool.and_eq_true, Bool.and_eq_true, Bool.and_eq_true] at hcandidate
  exact hcandidate.1.1.1

theorem isAcceptableParent_of_selectBest (h : (selectBest c s now d).1 = some nbr) :
    nbrIsAcceptableParent c s nbr = true := by
  obtain ⟨freshOnly, hcandidate⟩ := isCandidate_of_selectBest h
  rw [isCandidate, Bool.and_eq_true, Bool.and_eq_true, Bool.and_eq_true] at hcandidate
  exact hcandidate.1.1.2

/-! ## The update -/

/-- The parent and the ranks are the same in both. -/
structure SameRank (d d' : Dag) : Prop where
  parent : d'.preferredParent = d.preferredParent
  rank : d'.rank = d.rank
  lowest : d'.lowestRank = d.lowestRank

theorem SameRank.refl (d : Dag) : SameRank d d := ⟨rfl, rfl, rfl⟩

theorem SameRank.trans {d d' d'' : Dag} (h : SameRank d d') (h' : SameRank d' d'') :
    SameRank d d'' :=
  ⟨h'.parent.trans h.parent, h'.rank.trans h.rank, h'.lowest.trans h.lowest⟩

/-- The selection leaves the parent and the ranks. -/
theorem sameRank_selectBest (c : Conf) (s : Instance) (now : UInt32) (d : Dag) :
    SameRank d (selectBest c s now d).2 := by
  have hprobe : ∀ best, SameRank d (if d.urgentProbingTarget = none then
      { d with urgentProbingTarget := best }.request .probingNow else d) := by
    intro best
    split
    · exact ⟨rfl, rfl, rfl⟩
    · exact .refl d
  unfold selectBest
  dsimp only
  split
  · exact .refl d
  · split
    · split
      · exact .refl d
      · split
        · exact ⟨rfl, rfl, rfl⟩
        · split
          · exact hprobe _
          · split
            · split
              · exact hprobe _
              · exact hprobe _
            · exact hprobe _
    · exact .refl d

/-- The requests that were made do not matter for the selection. -/
theorem selectBest_request (c : Conf) (s : Instance) (now : UInt32) (d : Dag) (r : Request) :
    (selectBest c s now (d.request r)).1 = (selectBest c s now d).1 := by
  have hroot : rootIsRoot s (d.request r) = rootIsRoot s d := rfl
  have hbest : ∀ freshOnly,
      bestParent c s now (d.request r) freshOnly = bestParent c s now d freshOnly := fun _ => rfl
  have hparent : (d.request r).preferredParent = d.preferredParent := rfl
  unfold selectBest
  simp only [hroot, hbest, hparent]
  split
  · rfl
  · split
    · split
      · rfl
      · split
        · rfl
        · split
          · rfl
          · split
            · split
              · rfl
              · rfl
            · rfl
    · rfl

theorem preferredParent_setPreferredParent (nbr : Option ℕ) (d : Dag) :
    (setPreferredParent nbr d).preferredParent = nbr := by
  unfold setPreferredParent
  split
  · rfl
  · rename_i h
    exact not_not.1 h

theorem lowestRank_setPreferredParent (nbr : Option ℕ) (d : Dag) :
    (setPreferredParent nbr d).lowestRank = d.lowestRank := by
  unfold setPreferredParent
  split <;> rfl

theorem sameRank_significantRankUpdate (c : Conf) (d : Dag) :
    SameRank d (significantRankUpdate c d) := by
  unfold significantRankUpdate
  split
  · exact ⟨rfl, rfl, rfl⟩
  · exact .refl d

theorem sameRank_parentSwitch (oldParent : Option ℕ) (d : Dag) :
    SameRank d (parentSwitch oldParent d) := by
  unfold parentSwitch
  dsimp only
  split
  · split
    · split
      · exact ⟨rfl, rfl, rfl⟩
      · exact ⟨rfl, rfl, rfl⟩
    · exact ⟨rfl, rfl, rfl⟩
  · exact .refl d

theorem updateLowestRank_eq (oldParent : Option ℕ) (d : Dag) :
    (updateLowestRank oldParent d).preferredParent = d.preferredParent ∧
      (updateLowestRank oldParent d).rank = d.rank ∧
      (updateLowestRank oldParent d).lowestRank =
        if oldParent = none ∨ d.rank < d.lowestRank then d.rank else d.lowestRank := by
  unfold updateLowestRank
  split <;> exact ⟨rfl, rfl, rfl⟩

/-- What an update leaves in a used instance of a node that is not the root and does not
poison. -/
theorem dagUpdateState_eq (c : Conf) (now : UInt32) (hused : s.used = true) (hstate : d.state ≠ .poisoning)
    (hroot : rootIsRoot s d = false) :
    (dagUpdateState c s now d).preferredParent = (selectBest c s now d).1 ∧
      (dagUpdateState c s now d).rank = rankViaNbr c s (selectBest c s now d).1 ∧
      (dagUpdateState c s now d).lowestRank =
        if d.preferredParent = none ∨ rankViaNbr c s (selectBest c s now d).1 < d.lowestRank then
          rankViaNbr c s (selectBest c s now d).1
        else d.lowestRank := by
  have hsame := sameRank_selectBest c s now (d.request .unscheduleStateUpdate)
  have hrequest : (d.request .unscheduleStateUpdate).state = d.state := rfl
  have hroot' : rootIsRoot s (d.request .unscheduleStateUpdate) = false := hroot
  have hunused : ¬ s.used = false := by
    rw [hused]
    decide
  unfold dagUpdateState
  dsimp only
  rw [if_neg hunused, hrequest, if_neg hstate, if_pos hroot']
  generalize hd : updateBetterParentSince c s now { setPreferredParent
    (selectBest c s now (d.request .unscheduleStateUpdate)).1
    (selectBest c s now (d.request .unscheduleStateUpdate)).2 with
      rank := rankViaNbr c s (setPreferredParent
        (selectBest c s now (d.request .unscheduleStateUpdate)).1
        (selectBest c s now (d.request .unscheduleStateUpdate)).2).preferredParent } = d'
  have hparent : d'.preferredParent = (selectBest c s now d).1 := by
    rw [← hd, ← selectBest_request c s now d .unscheduleStateUpdate]
    exact preferredParent_setPreferredParent _ _
  have hrank : d'.rank = rankViaNbr c s (selectBest c s now d).1 := by
    rw [← hd, ← selectBest_request c s now d .unscheduleStateUpdate]
    exact congrArg (rankViaNbr c s) (preferredParent_setPreferredParent _ _)
  have hlow : d'.lowestRank = d.lowestRank := by
    rw [← hd]
    exact (lowestRank_setPreferredParent _ _).trans hsame.lowest
  obtain ⟨hparent', hrank', hlow'⟩ := updateLowestRank_eq d.preferredParent d'
  have hend := (sameRank_significantRankUpdate c (updateLowestRank d.preferredParent d')).trans
    (sameRank_parentSwitch d.preferredParent _)
  rw [hparent] at hparent'
  rw [hrank] at hrank'
  rw [hrank, hlow] at hlow'
  exact ⟨hend.parent.trans hparent', hend.rank.trans hrank', hend.lowest.trans hlow'⟩

/-- An acceptable rank is finite and at most the lowest rank and the increment. -/
theorem acceptableRank_iff {rank : UInt16} (h : acceptableRank s d rank = true) :
    rank ≠ infiniteRank ∧
      (s.maxRankinc ≠ 0 → rank.toNat ≤ d.lowestRank.toNat + s.maxRankinc.toNat) := by
  rw [acceptableRank, Bool.and_eq_true, Bool.and_eq_true, bne_iff_ne, decide_eq_true_iff,
    decide_eq_true_iff] at h
  refine ⟨h.1.1, fun hmax => ?_⟩
  have hle := h.2
  rw [maxAcceptableRank, if_neg hmax] at hle
  omega

/-- When the rank through an acceptable neighbour is above the neighbour's. -/
theorem lt_rankViaNbr_iff (hinc : 0 < s.minHoprankinc)
    (hfinite : rankViaNbr c s (some nbr) ≠ infiniteRank) :
    s.rank nbr < rankViaNbr c s (some nbr) ↔
      (s.objective = .of0 →
        ¬ (65536 : ℤ) ∣ Of0.stepOfRank s nbr * s.minHoprankinc.toNat) := by
  unfold rankViaNbr at hfinite ⊢
  cases hof : s.objective with
  | mrhof =>
      rw [hof] at hfinite
      exact iff_of_true (Mrhof.lt_rankViaNbr hinc hfinite) nofun
  | of0 =>
      rw [hof] at hfinite
      rw [← Of0.nbrRankIncrease_eq_zero_iff]
      exact (Of0.lt_rankViaNbr_iff hfinite).trans ⟨fun h _ => h, fun h => h rfl⟩

/-- After an update the rank is right if, with OF0, the increase of the rank to the selected
neighbour is no multiple of the range of 16 bits. -/
theorem rankRight_of_not_dvd (hused : s.used = true) (hstate : d.state ≠ .poisoning)
    (hroot : rootIsRoot s d = false) (hinc : 0 < s.minHoprankinc)
    (hmul : s.objective = .of0 → ∀ nbr, (selectBest c s now d).1 = some nbr →
      ¬ (65536 : ℤ) ∣ Of0.stepOfRank s nbr * s.minHoprankinc.toNat) :
    RankRight c s (dagUpdateState c s now d) := by
  obtain ⟨hparent, hrank, hlowest⟩ := dagUpdateState_eq c now hused hstate hroot
  refine ⟨by rw [hrank, hparent], ?_, fun nbr hnbr => ?_, fun nbr hnbr hmax => ?_⟩
  · rw [hrank, hparent]
    cases hbest : (selectBest c s now d).1 with
    | none => exact iff_of_true rfl rfl
    | some nbr =>
        have hfinite := (acceptableRank_iff (acceptableRank_of_selectBest hbest)).1
        exact iff_of_false hfinite nofun
  · rw [hparent] at hnbr
    have hfinite := (acceptableRank_iff (acceptableRank_of_selectBest hnbr)).1
    rw [hrank, hnbr]
    exact (lt_rankViaNbr_iff hinc hfinite).2 fun hof => hmul hof nbr hnbr
  · rw [hparent] at hnbr
    have hle := (acceptableRank_iff (acceptableRank_of_selectBest hnbr)).2 hmax
    rw [hrank, hlowest, hnbr]
    split
    · exact Nat.le_add_right _ _
    · exact hle

/-- After an update the rank is right exactly if, with OF0, the increase of the rank to the
selected neighbour is no multiple of the range of 16 bits. -/
theorem rankRight_iff (hused : s.used = true) (hstate : d.state ≠ .poisoning)
    (hroot : rootIsRoot s d = false) (hinc : 0 < s.minHoprankinc) :
    RankRight c s (dagUpdateState c s now d) ↔
      (s.objective = .of0 → ∀ nbr, (selectBest c s now d).1 = some nbr →
        ¬ (65536 : ℤ) ∣ Of0.stepOfRank s nbr * s.minHoprankinc.toNat) := by
  refine ⟨fun hright hof nbr hnbr => ?_, rankRight_of_not_dvd hused hstate hroot hinc⟩
  obtain ⟨hparent, hrank, -⟩ := dagUpdateState_eq c now hused hstate hroot
  have hfinite := (acceptableRank_iff (acceptableRank_of_selectBest hnbr)).1
  have hlt := hright.parent_lt nbr (hparent.trans hnbr)
  rw [hrank, hnbr] at hlt
  exact (lt_rankViaNbr_iff hinc hfinite).1 hlt hof

/-- With an increment that is no multiple of 8192 no step of OF0 makes the increase 0. -/
theorem not_dvd_of_minHoprankinc {step : ℤ} {inc : ℕ} (hstep : 1 ≤ step ∧ step ≤ 9)
    (hinc : ¬ 8192 ∣ inc) : ¬ (65536 : ℤ) ∣ step * inc := by
  obtain ⟨hlow, hhigh⟩ := hstep
  have hcases : step = 1 ∨ step = 2 ∨ step = 3 ∨ step = 4 ∨ step = 5 ∨ step = 6 ∨ step = 7 ∨
      step = 8 ∨ step = 9 := by omega
  rcases hcases with rfl | rfl | rfl | rfl | rfl | rfl | rfl | rfl | rfl <;> omega

/-- With an increment that is no multiple of 8192 the rank is right after every update. -/
theorem rankRight_of_minHoprankinc (hused : s.used = true) (hstate : d.state ≠ .poisoning)
    (hroot : rootIsRoot s d = false) (hinc : ¬ 8192 ∣ s.minHoprankinc.toNat) :
    RankRight c s (dagUpdateState c s now d) := by
  have hpos : 0 < s.minHoprankinc := by
    have hzero : s.minHoprankinc.toNat ≠ 0 := fun h => hinc (h ▸ Nat.dvd_zero 8192)
    exact Nat.pos_of_ne_zero hzero
  refine rankRight_of_not_dvd hused hstate hroot hpos fun hof nbr hnbr => ?_
  have hacceptable := isAcceptableParent_of_selectBest hnbr
  rw [nbrIsAcceptableParent, hof] at hacceptable
  refine not_dvd_of_minHoprankinc ?_ hinc
  simpa [Of0.nbrIsAcceptableParent] using hacceptable

/-- One neighbour of rank 32768, over a link of ETX 171, that the statistics show to be fresh. -/
def doubledLink (objective : Of) (minHoprankinc : UInt16) : Instance where
  used := true
  objective := objective
  minHoprankinc := minHoprankinc
  maxRankinc := 0
  neighbors := [1]
  rank _ := 32768
  linkStats _ := some ⟨171, 0, 16⟩
  ds6Nbr _ := true

/-- The default configuration, with 128 ticks to a second. -/
def Conf.default : Conf where
  withProbing := true
  sendNs := false
  squaredEtx := false
  maxLinkMetric := 512
  maxPathCost := 32768
  timeThreshold := 76800
  freshnessExpirationTime := 76800
  significantChange := 512

/-- A DAG that was just joined. -/
def Dag.fresh : Dag where
  state := .initialized
  rank := infiniteRank
  lowestRank := infiniteRank
  lastAdvertisedRank := infiniteRank
  preferredParent := none
  urgentProbingTarget := none
  unprocessedParentSwitch := false
  betterParentSince _ := 0
  requests := []

theorem rankRight_iff_doubledLink :
    RankRight .default (doubledLink .of0 256) (dagUpdateState .default (doubledLink .of0 256) 100
      .fresh) := by
  have hiff : RankRight .default (doubledLink .of0 256) (dagUpdateState .default
      (doubledLink .of0 256) 100 .fresh) ↔ _ := rankRight_iff rfl nofun rfl (by decide)
  refine hiff.2 fun _ nbr hnbr => ?_
  have hbest : (selectBest .default (doubledLink .of0 256) 100 .fresh).1 = some 1 := by decide
  obtain rfl := Option.some.inj (hbest.symm.trans hnbr)
  decide

/-- With OF0, a step of 2 and 32768 for `min_hoprankinc` the node has the rank of its parent. -/
theorem not_rankRight :
    ¬ ∀ (c : Conf) (s : Instance) (now : UInt32) (d : Dag), s.used = true →
      d.state ≠ .poisoning → rootIsRoot s d = false → 0 < s.minHoprankinc →
      RankRight c s (dagUpdateState c s now d) := by
  intro hall
  have hright := hall .default (doubledLink .of0 32768) 100 .fresh rfl nofun rfl (by decide)
  have hlt := hright.parent_lt 1 rfl
  exact absurd hlt (by decide)

end Rpl

end Den2ne
