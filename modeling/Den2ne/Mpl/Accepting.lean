import Den2ne.Mpl.Links

/-!
# What `accept` does to the sets

The parts of `accept` behind the domain as chains of changes. `BehindQuiet` says when
`buffer_reclaim` does not choose the memory behind the seed set, and `Acceptable` what a message
needs to be stored: a buffer, and what is asked of the messages that are inserted.
-/

namespace Den2ne.Mpl

section

variable {cfg : Config} {scans : Prop} {fits : State → ℕ → ℕ → Prop} {s s' : State}

/-! ## Buffers -/

/-- The memory behind the seed set does not look like a seed with at least as many messages as
all seeds. -/
def BehindQuiet (cfg : Config) (s : State) : Prop :=
  (s.seeds cfg.seedSetSize).domain = none ∨ ∃ i < cfg.seedSetSize, (s.seeds i).domain ≠ none ∧
    (s.seeds cfg.seedSetSize).count < (s.seeds i).count

theorem bufferAllocate_cases {m : ℕ} (h : bufferAllocate cfg s = some (m, s')) :
    m < cfg.bufferedMessageSetSize ∧ (s'.msgs m).seed = none ∧ SameSets cfg s s' := by
  obtain ⟨k, hk, heq⟩ := Option.map_eq_some_iff.1 h
  rw [Prod.mk.injEq] at heq
  obtain ⟨rfl, rfl⟩ := heq
  obtain ⟨hlt, hfree⟩ := findDown_eq_some hk
  have hnone : (s.msgs k).seed = none := by
    unfold Msg.isUsed at hfree
    rwa [Bool.not_eq_true', Option.isSome_eq_false_iff, Option.isNone_iff_eq_none] at hfree
  refine ⟨hlt, ?_, .setMsg hnone.symm fun hne => absurd rfl hne⟩
  rw [State.setMsg_msgs, if_pos rfl]
  rfl

theorem bufferAllocate_eq_none (h : bufferAllocate cfg s = none) {m : ℕ}
    (hm : m < cfg.bufferedMessageSetSize) : (s.msgs m).seed ≠ none := fun hnone => by
  have hused := findDown_eq_none.1 (Option.map_eq_none_iff.1 h) m hm
  unfold Msg.isUsed at hused
  rw [hnone] at hused
  cases hused

/-- The scan finds a used seed with the most messages. -/
theorem largestSeed_eq_some {is : List ℕ} {l : Option ℕ} {i : ℕ}
    (h : largestSeed s is l = some i) :
    (l = some i ∨ i ∈ is ∧ (s.seeds i).domain ≠ none) ∧
    (∀ j ∈ l, (s.seeds j).count ≤ (s.seeds i).count) ∧
    ∀ j ∈ is, (s.seeds j).domain ≠ none → (s.seeds j).count ≤ (s.seeds i).count := by
  induction is generalizing l with
  | nil =>
      refine ⟨.inl h, fun j hj => ?_, fun j hj => absurd hj List.not_mem_nil⟩
      obtain rfl := Option.some.inj ((Option.mem_def.1 hj).symm.trans h)
      exact Nat.le_refl _
  | cons k is ih =>
      unfold largestSeed at h
      obtain ⟨hfrom, hle, his⟩ := ih h
      have hused : (s.seeds k).isUsed = true ↔ (s.seeds k).domain ≠ none :=
        Option.isSome_iff_ne_none
      split at hfrom
      · rename_i hk
        rw [if_pos hk] at hle
        have hki := hle k rfl
        refine ⟨?_, fun j hj => ?_, fun j hj hj' => ?_⟩
        · rcases hfrom with heq | ⟨hmem, hne⟩
          · obtain rfl := Option.some.inj heq
            exact .inr ⟨List.mem_cons_self, hused.1 hk.1⟩
          · exact .inr ⟨List.mem_cons_of_mem _ hmem, hne⟩
        · exact Nat.le_trans (Nat.le_of_lt (hk.2 j hj)) hki
        · rcases List.mem_cons.1 hj with rfl | hmem
          · exact hki
          · exact his j hmem hj'
      · rename_i hk
        rw [if_neg hk] at hle
        refine ⟨?_, hle, fun j hj hj' => ?_⟩
        · rcases hfrom with heq | ⟨hmem, hne⟩
          · exact .inl heq
          · exact .inr ⟨List.mem_cons_of_mem _ hmem, hne⟩
        · rcases List.mem_cons.1 hj with rfl | hmem
          · have hnot : ¬ ∀ a ∈ l, (s.seeds a).count < (s.seeds j).count := fun hall =>
              hk ⟨hused.2 hj', hall⟩
            push Not at hnot
            obtain ⟨a, ha, hle'⟩ := hnot
            exact Nat.le_trans hle' (hle a ha)
          · exact his j hmem hj'

theorem mem_scanOrder {i : ℕ} : i ∈ scanOrder cfg ↔ i ≤ cfg.seedSetSize := by
  unfold scanOrder
  rw [List.mem_reverse, List.mem_range, Nat.lt_succ_iff]

/-- With quiet memory behind the seed set, `buffer_reclaim` takes the largest seed of the
set. -/
theorem largestSeed_lt {i : ℕ} (hquiet : BehindQuiet cfg s)
    (h : largestSeed s (scanOrder cfg) none = some i) :
    i < cfg.seedSetSize ∧ ∀ j < cfg.seedSetSize, (s.seeds j).domain ≠ none →
      (s.seeds j).count ≤ (s.seeds i).count := by
  obtain ⟨hfrom, -, hle⟩ := largestSeed_eq_some h
  obtain ⟨hmem, hne⟩ := hfrom.resolve_left nofun
  refine ⟨Nat.lt_of_le_of_ne (mem_scanOrder.1 hmem) fun heq => ?_,
    fun j hj => hle j (mem_scanOrder.2 (Nat.le_of_lt hj))⟩
  subst heq
  rcases hquiet with hnone | ⟨j, hj, hj', hlt⟩
  · exact hne hnone
  · exact absurd (hle j (mem_scanOrder.2 (Nat.le_of_lt hj)) hj') (Nat.not_le_of_lt hlt)

/-- The seeds have the same ids and domains, and the domains in use the same address. -/
structure SameIds (s s' : State) : Prop where
  seedId : ∀ j, (s'.seeds j).seedId = (s.seeds j).seedId
  domain : ∀ j, (s'.seeds j).domain = (s.seeds j).domain
  dataAddr : ∀ d, (s.domains d).isUsed → (s'.domains d).dataAddr = (s.domains d).dataAddr

theorem SameSets.sameIds (h : SameSets cfg s s') : SameIds s s' :=
  ⟨fun j => by rw [h.seeds], fun j => by rw [h.seeds], h.dataAddr⟩

theorem reclaimFrom_nil {i : ℕ} (hlist : (s.seeds i).minSeq = []) :
    reclaimFrom i s = (none, { s with history := { s.history with nullNext := true } }) := by
  unfold reclaimFrom
  rw [hlist]

/-- `buffer_reclaim` takes the first message of a list. -/
theorem reclaimFrom_cons (cfg : Config) {i m : ℕ} {rest : List ℕ} (hlist : (s.seeds i).minSeq = m :: rest) :
    ∃ minSeqno, (∀ k ∈ rest.head?, minSeqno = (s.msgs k).seq) ∧
      (reclaimFrom i s).1 = some m ∧
      SameSets cfg ((s.setSeed i { s.seeds i with
        minSeq := rest
        minSeqno := minSeqno
        count := ((s.seeds i).count + 255) % 256 }).setMsg m Msg.zero) (reclaimFrom i s).2 := by
  have hreset : ∀ t : State,
      SameSets cfg (t.setMsg m Msg.zero) ((resetDomainOf m t).setMsg m Msg.zero) := fun t => by
    unfold resetDomainOf
    split
    · exact .refl cfg _
    · exact .setDomainTimer _ _
  unfold reclaimFrom
  rw [hlist]
  cases rest with
  | nil => exact ⟨(s.msgs m).seq, nofun, rfl, hreset _⟩
  | cons next rest =>
      refine ⟨(s.msgs next).seq, fun k hk => ?_, rfl, hreset _⟩
      obtain rfl := Option.some.inj hk
      rfl

theorem largestSeed_scan (cfg : Config) (s : State) (is : List ℕ) (l : Option ℕ) :
    largestSeed (s.scan cfg) is l = largestSeed s is l := by
  induction is generalizing l with
  | nil => rfl
  | cons k is ih => exact ih _

theorem bufferReclaim_of_none (h : largestSeed s (scanOrder cfg) none = none) :
    bufferReclaim cfg s = (none, s.scan cfg) := by
  simp only [bufferReclaim, largestSeed_scan, h]

theorem bufferReclaim_of_some {i : ℕ} (h : largestSeed s (scanOrder cfg) none = some i) :
    bufferReclaim cfg s = reclaimFrom i (s.scan cfg) := by
  simp only [bufferReclaim, largestSeed_scan, h]

/-- A buffer that `accept` can take: a free one, or one that is reclaimed while the memory behind
the seed set does no harm. -/
def Buffers (cfg : Config) (scans : Prop) (s : State) : Prop :=
  (∃ m < cfg.bufferedMessageSetSize, (s.msgs m).seed = none) ∨ scans ∧ BehindQuiet cfg s

theorem newBuffer_changes (fits : State → ℕ → ℕ → Prop) (hbuffers : Buffers cfg scans s) (hlinked : Linked cfg s) :
    Changes cfg scans fits s (newBuffer cfg s).2 ∧ SameIds s (newBuffer cfg s).2 ∧
    ∀ m, (newBuffer cfg s).1 = some m →
      m < cfg.bufferedMessageSetSize ∧ ((newBuffer cfg s).2.msgs m).seed = none := by
  unfold newBuffer
  split
  · rename_i m s' hm
    obtain ⟨hlt, hnone, hsame⟩ := bufferAllocate_cases hm
    refine ⟨.single (.same hsame), hsame.sameIds, fun k hk => ?_⟩
    obtain rfl := Option.some.inj hk
    exact ⟨hlt, hnone⟩
  · rename_i hnone
    obtain ⟨hscans, hquiet⟩ := hbuffers.resolve_left fun ⟨m, hm, hfree⟩ =>
      bufferAllocate_eq_none hnone hm hfree
    have hscan : Change cfg scans fits s (s.scan cfg) := .scan hscans _
    cases hlargest : largestSeed s (scanOrder cfg) none with
    | none =>
      rw [bufferReclaim_of_none hlargest]
      exact ⟨.single hscan, ⟨fun _ => rfl, fun _ => rfl, fun _ _ => rfl⟩, nofun⟩
    | some i =>
      rw [bufferReclaim_of_some hlargest]
      obtain ⟨hi, -⟩ := largestSeed_lt hquiet hlargest
      cases hlist : ((s.scan cfg).seeds i).minSeq with
      | nil =>
          rw [reclaimFrom_nil hlist]
          exact ⟨.single (.scan hscans _), ⟨fun _ => rfl, fun _ => rfl, fun _ _ => rfl⟩, nofun⟩
      | cons m rest =>
          obtain ⟨minSeqno, hmin, hsome, hsame⟩ := reclaimFrom_cons cfg hlist
          refine ⟨.tail (.tail (.single hscan) (.pop hscans hi hlist hmin)) (.same hsame),
            ⟨fun j => ?_, fun j => ?_, fun d hd => hsame.dataAddr d hd⟩, fun k hk => ?_⟩
          · rw [hsame.seeds, State.setMsg_seeds, State.setSeed_seeds]
            split
            · rename_i hji
              rw [hji]
              rfl
            · rfl
          · rw [hsame.seeds, State.setMsg_seeds, State.setSeed_seeds]
            split
            · rename_i hji
              rw [hji]
              rfl
            · rfl
          · obtain rfl := Option.some.inj (hsome.symm.trans hk)
            have hlist' : (s.seeds i).minSeq = m :: rest := hlist
            refine ⟨(hlinked.seed_of_mem hi (hlist' ▸ List.mem_cons_self)).1, ?_⟩
            rw [hsame.seed, State.setMsg_msgs, if_pos rfl]
            rfl

/-! ## Data messages -/

theorem keepMsg_changes {d i m : ℕ} {p : DataMessage} (hi : i < cfg.seedSetSize)
    (hused : (s.seeds i).domain ≠ none) (hm : m < cfg.bufferedMessageSetSize)
    (hfree : (s.msgs m).seed = none) (hfits : fits s i p.sent) :
    Changes cfg scans fits s (keepMsg cfg d i m p s) := by
  have hinsert : ∀ tt, Change cfg scans fits s
      ((s.setMsg m ⟨some i, tt, p.srcipaddr, p.sent, p.payload⟩).setSeed i
        ((s.seeds i).insert cfg (fun k =>
          ((s.setMsg m ⟨some i, tt, p.srcipaddr, p.sent, p.payload⟩).msgs k).seq) m p.seq)) :=
    fun tt => .insert hi hused hm hfree rfl hfits
  unfold keepMsg
  dsimp only
  split
  · exact .tail (.single (hinsert _)) (.same (.setDomainTimer d _))
  · exact .single (hinsert _)

/-- What `accept` needs for a new message of the seed `i`. -/
structure Room (cfg : Config) (scans : Prop) (fits : State → ℕ → ℕ → Prop) (i : ℕ)
    (p : DataMessage) (s : State) : Prop where
  buffers : Buffers cfg scans s
  fits : ∀ m s', newBuffer cfg s = (some m, s') → cfg.dataTimerOk = true → fits s' i p.sent

theorem acceptNew_changes {d i : ℕ} {p : DataMessage} (hlinked : Linked cfg s)
    (hi : i < cfg.seedSetSize) (hused : (s.seeds i).domain ≠ none)
    (hroom : Room cfg scans fits i p s) :
    Changes cfg scans fits s (acceptNew cfg d i p s).2 := by
  obtain ⟨hchanges, hids, hnew⟩ := newBuffer_changes fits hroom.buffers hlinked
  unfold acceptNew
  split
  · rename_i s' hs'
    rwa [hs'] at hchanges
  · rename_i m s' hs'
    rw [hs'] at hchanges hids hnew
    obtain ⟨hm, hfree⟩ := hnew m rfl
    split
    · rename_i hok
      refine hchanges.trans (keepMsg_changes hi ?_ hm hfree (hroom.fits m s' hs' hok))
      rw [hids.domain]
      exact hused
    · refine hchanges.tail (.same ?_)
      refine ⟨rfl, fun k => ?_, fun k hk => ?_, fun _ _ => rfl, fun h => ⟨h.ctrl, h.unique⟩, rfl⟩
      · unfold bufferFree
        rw [State.setMsg_msgs]
        split
        · rename_i hkm
          rw [hkm, hfree]
        · rename_i hkm
          rw [State.setMsg_msgs, if_neg hkm]
      · have hkm : k ≠ m := fun heq => hk (heq ▸ hfree)
        unfold bufferFree
        rw [State.setMsg_msgs, if_neg hkm, State.setMsg_msgs, if_neg hkm]

theorem noteSeen_sameSets (p : DataMessage) (i m : ℕ) (s : State) :
    SameSets cfg s (noteSeen p i m s) := by
  unfold noteSeen
  split
  · exact .setTimer m _
  · exact .refl cfg s

theorem seedSetLookup_eq_some {seedId : SeedId} {d i : ℕ}
    (h : seedSetLookup cfg seedId d s = some i) :
    i < cfg.seedSetSize ∧ (s.seeds i).domain = some d ∧
      (s.seeds i).seedId.id = seedId.id := by
  obtain ⟨hi, hp⟩ := findDown_eq_some h
  rw [Bool.and_eq_true, Bool.and_eq_true, beq_iff_eq] at hp
  exact ⟨hi, hp.2, (of_decide_eq_true hp.1.2).symm⟩

theorem seedSetLookup_eq_none {seedId : SeedId} {d : ℕ}
    (h : seedSetLookup cfg seedId d s = none) :
    ∀ j < cfg.seedSetSize, (s.seeds j).domain = some d → (s.seeds j).seedId.id ≠ seedId.id := by
  intro j hj hd hid
  have hnot := findDown_eq_none.1 h j hj
  have hall : ((s.seeds j).isUsed && seedIdCmp seedId (s.seeds j).seedId &&
      (s.seeds j).domain == some d) = true := by
    rw [Bool.and_eq_true, Bool.and_eq_true, beq_iff_eq]
    refine ⟨⟨?_, decide_eq_true hid.symm⟩, hd⟩
    unfold Seed.isUsed
    rw [hd]
    rfl
  rw [hall] at hnot
  cases hnot

theorem seedSetAllocate_eq_some {seedId : SeedId} {d i : ℕ}
    (h : seedSetAllocate cfg seedId d s = some (i, s')) :
    i < cfg.seedSetSize ∧ (s.seeds i).domain = none ∧
      s' = s.setSeed i { Seed.zero with seedId := seedId, domain := some d } := by
  obtain ⟨k, hk, heq⟩ := Option.map_eq_some_iff.1 h
  rw [Prod.mk.injEq] at heq
  obtain ⟨rfl, rfl⟩ := heq
  obtain ⟨hlt, hfree⟩ := findDown_eq_some hk
  refine ⟨hlt, ?_, rfl⟩
  unfold Seed.isUsed at hfree
  rwa [Bool.not_eq_true', Option.isSome_eq_false_iff, Option.isNone_iff_eq_none] at hfree

/-- A data message that `accept` does not drop as old or as seen, of a known seed `i`. -/
def NewTo (i : ℕ) (p : DataMessage) (s : State) : Prop :=
  ¬ SeqValIsLt p.seq (s.seeds i).minSeqno ∧ ∀ m ∈ (s.seeds i).minSeq, (s.msgs m).seq ≠ p.seq

/-- What `accept` needs behind the domain. -/
structure Acceptable (cfg : Config) (scans : Prop) (fits : State → ℕ → ℕ → Prop) (d : ℕ)
    (seedId : SeedId) (p : DataMessage) (s : State) : Prop where
  known : ∀ i, seedSetLookup cfg seedId d s = some i → NewTo i p s → Room cfg scans fits i p s
  unknown : seedSetLookup cfg seedId d s = none →
    ∀ i s', seedSetAllocate cfg seedId d s = some (i, s') → Room cfg scans fits i p s'

theorem acceptSeed_changes {d : ℕ} {seedId : SeedId} {p : DataMessage} (hlinked : Linked cfg s)
    (hd : d < cfg.domainSetSize) (hused : (s.domains d).isUsed)
    (hok : Acceptable cfg scans fits d seedId p s) :
    Changes cfg scans fits s (acceptSeed cfg d seedId p s).2 := by
  unfold acceptSeed
  split
  · rename_i i hi
    obtain ⟨hlt, hdomain, -⟩ := seedSetLookup_eq_some hi
    split
    · exact .refl
    · rename_i hold
      split
      · exact .single (.same (noteSeen_sameSets p i _ s))
      · rename_i hfind
        rw [List.find?_eq_none] at hfind
        have hnew : NewTo i p s := ⟨hold, fun m hm heq => hfind m hm (decide_eq_true heq)⟩
        refine acceptNew_changes hlinked hlt ?_ (hok.known i hi hnew)
        rw [hdomain]
        exact Option.some_ne_none d
  · rename_i hnone
    split
    · exact .refl
    · rename_i i s' hs'
      obtain ⟨hlt, hfree, heq⟩ := seedSetAllocate_eq_some hs'
      have hchange : Change cfg scans fits s s' := by
        rw [heq]
        exact .newSeed hlt hfree hd hused (seedSetLookup_eq_none hnone)
      refine .trans (.single hchange) (acceptNew_changes (hlinked.change hchange) hlt ?_
        (hok.unknown hnone i s' hs'))
      rw [heq, State.setSeed_seeds, if_pos rfl]
      exact Option.some_ne_none d

end

end Den2ne.Mpl
