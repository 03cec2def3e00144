import Den2ne.Tsch.Winner

/-!
# The next active slot

The split modulo of `tsch-asn.h` is the slot number modulo the size of a slotframe, and the time to
a timeslot is the number of slots up to the next one in which the link is active. The search keeps
the links of the earliest such slot.
-/

namespace Den2ne.Tsch

section

variable {asn : Asn} {n k time : ℕ}

/-- The reduction in two parts is exact. -/
theorem asnMod_eq (asn : Asn) (hpos : 0 < n) (hlt : n < 65536) :
    asnMod asn (asnDivisorInit n) = asn.value % n := by
  have hrem : (0xffffffff % n + 1) % n = 0x100000000 % n := Nat.mod_add_mod _ _ _
  have hlow : asn.ls4b.toNat % n < 65536 := Nat.lt_trans (Nat.mod_lt _ hpos) hlt
  have hhigh : asn.ms1b.toNat * (0x100000000 % n) % n < 65536 :=
    Nat.lt_trans (Nat.mod_lt _ hpos) hlt
  simp only [asnMod, asnDivisorInit, hrem]
  rw [Nat.mod_eq_of_lt hlow, Nat.mod_eq_of_lt hhigh, Nat.mul_mod_mod, Nat.add_comm, ← Nat.add_mod,
    Asn.value]

end

variable {α : Type*} {asn : Asn} {p b : Place α} {k : ℕ}

/-- A link as it is in a schedule. -/
structure Place.Fits (p : Place α) : Prop where
  size_pos : 0 < p.size
  size_lt : p.size < 65536
  timeslot_lt : p.link.timeslot < p.size

theorem timeToTimeslot_eq (hp : p.Fits) : timeToTimeslot asn p =
    if asn.value % p.size < p.link.timeslot then p.link.timeslot - asn.value % p.size
    else p.size + p.link.timeslot - asn.value % p.size := by
  have hmod := Nat.mod_lt asn.value hp.size_pos
  have hsize := hp.size_lt
  have hslot := hp.timeslot_lt
  rw [timeToTimeslot, asnMod_eq asn hp.size_pos hsize]
  rw [Nat.mod_eq_of_lt (Nat.lt_trans hmod hsize)]
  split
  · exact Nat.mod_eq_of_lt (by omega)
  · exact Nat.mod_eq_of_lt (by omega)

theorem one_le_timeToTimeslot (hp : p.Fits) : 1 ≤ timeToTimeslot asn p := by
  have hmod := Nat.mod_lt asn.value hp.size_pos
  rw [timeToTimeslot_eq hp]
  split <;> omega

/-- The link is active at the end of the time. -/
theorem activeAt_timeToTimeslot (hp : p.Fits) : p.ActiveAt (asn.value + timeToTimeslot asn p) := by
  have hmod := Nat.mod_lt asn.value hp.size_pos
  have hslot := hp.timeslot_lt
  rw [Place.ActiveAt, timeToTimeslot_eq hp, ← Nat.mod_add_mod]
  split
  · have hsum : asn.value % p.size + (p.link.timeslot - asn.value % p.size) =
        p.link.timeslot := by omega
    rw [hsum, Nat.mod_eq_of_lt hslot]
  · have hsum : asn.value % p.size + (p.size + p.link.timeslot - asn.value % p.size) =
        p.link.timeslot + p.size := by omega
    rw [hsum, Nat.add_mod_right, Nat.mod_eq_of_lt hslot]

/-- It is not active before. -/
theorem timeToTimeslot_le (hp : p.Fits) (hk : 1 ≤ k) (hactive : p.ActiveAt (asn.value + k)) :
    timeToTimeslot asn p ≤ k := by
  have hmod := Nat.mod_lt asn.value hp.size_pos
  have hslot := hp.timeslot_lt
  rw [Place.ActiveAt, ← Nat.mod_add_mod] at hactive
  rw [timeToTimeslot_eq hp]
  by_contra hlt
  by_cases hwrap : asn.value % p.size + k < p.size
  · rw [Nat.mod_eq_of_lt hwrap] at hactive
    split at hlt <;> omega
  · have hrest : asn.value % p.size + k - p.size < p.size := by
      split at hlt <;> omega
    rw [Nat.mod_eq_sub_mod (by omega), Nat.mod_eq_of_lt hrest] at hactive
    split at hlt <;> omega

/-- At a slot before which the link is not active, it is active if the time leads there. -/
theorem activeAt_iff (hp : p.Fits) (hk : 1 ≤ k) (hle : k ≤ timeToTimeslot asn p) :
    p.ActiveAt (asn.value + k) ↔ timeToTimeslot asn p = k := by
  constructor
  · exact fun h => Nat.le_antisymm (timeToTimeslot_le hp hk h) hle
  · intro h
    rw [← h]
    exact activeAt_timeToTimeslot hp

/-! ## The search -/

variable {nbrs : Neighbors α} {s : State α} {links : List (Place α)} {search : Search α}

theorem fits_of_mem_places (hs : Scheduled s) (hp : p ∈ s.places) : p.Fits := by
  obtain ⟨⟨sf, i⟩, hsf, hp⟩ := List.mem_flatMap.1 hp
  obtain ⟨⟨l, j⟩, hl, rfl⟩ := List.mem_map.1 hp
  have hsf := List.fst_mem_of_mem_zipIdx hsf
  have hl := List.fst_mem_of_mem_zipIdx hl
  exact ⟨hs.size_pos sf hsf, hs.size_lt sf hsf, hs.timeslot_lt sf hsf l hl⟩

theorem nodup_zipIdx_snd {β : Type*} (l : List β) : (l.zipIdx.map Prod.snd).Nodup := by
  rw [List.zipIdx_map_snd]
  exact List.nodup_range'

/-- Every link has its own place. -/
theorem nodup_places (s : State α) : s.places.Nodup := by
  refine List.nodup_flatMap.2 ⟨fun (sf, i) _ => ?_, ?_⟩
  · have hidx : ((sf.places i).map Place.index).Nodup := by
      rw [Slotframe.places, List.map_map]
      exact nodup_zipIdx_snd sf.linksList
    exact List.Nodup.of_map _ hidx
  · refine (List.pairwise_map.1 (nodup_zipIdx_snd s.slotframeList)).imp ?_
    intro (sf, i) (sf', j) hij p hp hp'
    obtain ⟨x, -, rfl⟩ := List.mem_map.1 hp
    obtain ⟨y, -, hy⟩ := List.mem_map.1 hp'
    exact hij (congrArg Place.slotframe hy).symm

theorem nodup_activeAt (s : State α) (n : ℕ) : (s.activeAt n).Nodup := (nodup_places s).filter _

theorem NextAt.unique {j : ℕ} (h : NextAt s asn k) (h' : NextAt s asn j) : k = j :=
  Nat.le_antisymm (h.2 j h'.1.1 h'.1.2) (h'.2 k h.1.1 h.1.2)

/-- If no link has a shorter time, the links with this time are those of the slot. -/
theorem activeAt_eq (hs : Scheduled s) (hk : 1 ≤ k)
    (hle : ∀ p ∈ s.places, k ≤ timeToTimeslot asn p) :
    s.activeAt (asn.value + k) = s.places.filter fun p => timeToTimeslot asn p = k := by
  refine List.filter_congr fun p hp => ?_
  rw [decide_eq_decide]
  exact activeAt_iff (fits_of_mem_places hs hp) hk (hle p hp)

/-- The shortest time leads to the next slot with an active link. -/
theorem nextAt_of_le (hs : Scheduled s) (hb : b ∈ s.places) (htime : timeToTimeslot asn b = k)
    (hle : ∀ p ∈ s.places, k ≤ timeToTimeslot asn p) : NextAt s asn k := by
  have hfits := fits_of_mem_places hs hb
  refine ⟨⟨htime ▸ one_le_timeToTimeslot hfits, b, hb, htime ▸ activeAt_timeToTimeslot hfits⟩, ?_⟩
  rintro j hj ⟨p, hp, hactive⟩
  exact Nat.le_trans (hle p hp) (timeToTimeslot_le (fits_of_mem_places hs hp) hj hactive)

/-- The backup link is another link with the Rx option, with the lowest handle among those. -/
structure BackupRight (links : List (Place α)) (b : Place α) (backup : Option (Place α)) :
    Prop where
  other : ∀ x, backup = some x → x ∈ links ∧ x.link.IsRx ∧ x ≠ b
  lowest : ∀ x, backup = some x → ∀ e ∈ links, e.link.IsRx → e ≠ b →
    x.link.slotframeHandle ≤ e.link.slotframeHandle
  none_iff : backup = none ↔ ∀ e ∈ links, e.link.IsRx → e = b

/-- The link is one of the slot, one with the Tx option if there is one, and then with the lowest
handle. -/
structure LinkRight (links : List (Place α)) (b : Place α) : Prop where
  mem : b ∈ links
  tx : b.link.IsTx ∨ ∀ e ∈ links, ¬ e.link.IsTx
  lowest : ∀ e ∈ links, SameTx e b → b.link.slotframeHandle ≤ e.link.slotframeHandle

/-- The result is the next link and a backup link for it. -/
structure NextLinkRight (s : State α) (asn : Asn) (r : NextLink α) : Prop where
  link_eq_none : r.link = none ↔ s.places = []
  right : ∀ b, r.link = some b → ∃ k, r.timeOffset = some k ∧ NextAt s asn k ∧
    LinkRight (s.activeAt (asn.value + k)) b ∧
    BackupRight (s.activeAt (asn.value + k)) b r.backupLink

/-- The backup link is right unless the best link is its own backup. -/
theorem Found.backupRight_iff {backup : Option (Place α)} (h : Found links b backup) :
    BackupRight links b backup ↔ ¬ SelfBackup links b := by
  rw [← h.self]
  constructor
  · exact fun hright hself => (hright.other b hself).2.2 rfl
  · intro hself
    refine ⟨fun x hx => ?_, fun x hx e he hrx hne => ?_, fun hnone e he hrx => ?_, fun hnone => ?_⟩
    · obtain ⟨hmem, hrx⟩ := h.backup_mem x hx
      exact ⟨hmem, hrx, fun hxb => hself (hxb ▸ hx)⟩
    · obtain ⟨y, hy, hle⟩ := h.backup_le e he hrx hne
      obtain rfl := Option.some.inj (hx.symm.trans hy)
      exact hle
    · by_contra hne
      obtain ⟨y, hy, -⟩ := h.backup_le e he hrx hne
      rw [hnone] at hy
      cases hy
    · refine Option.eq_none_iff_forall_ne_some.2 fun x hx => ?_
      obtain ⟨hmem, hrx⟩ := h.backup_mem x hx
      exact hself (hnone x hmem hrx ▸ hx)

variable [DecidableEq α]

/-- The search has found the earliest links, and among these what `run` finds. -/
def Searched (nbrs : Neighbors α) (asn : Asn) (links : List (Place α)) (search : Search α) :
    Prop :=
  match search.currBest with
  | none => links = []
  | some b =>
      run nbrs (links.filter fun p => timeToTimeslot asn p = search.timeToCurrBest) =
          some (b, search.currBackup) ∧
        ∀ p ∈ links, search.timeToCurrBest ≤ timeToTimeslot asn p

theorem searched_visit (h : Searched nbrs asn links search) (p : Place α) :
    Searched nbrs asn (links ++ [p]) (visit nbrs asn search p) := by
  have hself : [p].filter (fun q => timeToTimeslot asn q = timeToTimeslot asn p) = [p] := by
    simp
  unfold Searched at h
  cases hbest : search.currBest with
  | none =>
      rw [hbest] at h
      have hlinks : links = [] := h
      rw [hlinks, visit, hbest]
      refine ⟨?_, fun q hq => ?_⟩
      · rw [List.nil_append, hself]
        rfl
      · exact Nat.le_of_eq (by rw [List.mem_singleton.1 hq])
  | some b =>
      rw [hbest] at h
      obtain ⟨hrun, hle⟩ := h
      rw [visit, hbest]
      dsimp only
      split
      · rename_i hlt
        have hnone : links.filter (fun q => timeToTimeslot asn q = timeToTimeslot asn p) = [] := by
          refine List.filter_eq_nil_iff.2 fun q hq => ?_
          have hq := hle q hq
          rw [decide_eq_true_iff]
          omega
        refine ⟨?_, fun q hq => ?_⟩
        · rw [List.filter_append, hnone, List.nil_append, hself]
          rfl
        · rcases List.mem_append.1 hq with hq | hq
          · exact Nat.le_trans (Nat.le_of_lt hlt) (hle q hq)
          · exact Nat.le_of_eq (by rw [List.mem_singleton.1 hq])
      · split
        · rename_i heq
          refine ⟨?_, fun q hq => ?_⟩
          · rw [List.filter_append, ← heq, hself, run, List.foldl_append]
            change meet nbrs (run nbrs _) p = _
            rw [heq, hrun]
            rfl
          · rcases List.mem_append.1 hq with hq | hq
            · exact hle q hq
            · rw [List.mem_singleton.1 hq]
              exact Nat.le_of_eq heq.symm
        · rename_i hlt hne
          unfold Searched
          rw [hbest]
          refine ⟨?_, fun q hq => ?_⟩
          · have hnone :
                [p].filter (fun q => timeToTimeslot asn q = search.timeToCurrBest) = [] := by
              simpa using hne
            rw [List.filter_append, hnone, List.append_nil]
            exact hrun
          · rcases List.mem_append.1 hq with hq | hq
            · exact hle q hq
            · rw [List.mem_singleton.1 hq]
              exact Nat.not_lt.1 hlt

theorem searched_foldl (nbrs : Neighbors α) (asn : Asn) (links : List (Place α)) :
    Searched nbrs asn links (links.foldl (visit nbrs asn) ⟨0, none, none⟩) := by
  induction links using List.reverseRecOn with
  | nil => rfl
  | append_singleton links p ih =>
      rw [List.foldl_append]
      exact searched_visit ih p

/-- The search goes through all links of the schedule. -/
theorem search_eq (asn : Asn) (s : State α) (search : Search α) :
    s.slotframeList.zipIdx.foldl (fun search (sf, i) =>
        (sf.places i).foldl (visit s.tschNeighbors asn) search) search =
      s.places.foldl (visit s.tschNeighbors asn) search := by
  rw [State.places, List.foldl_flatMap]

/-- What the search returns on a schedule that is not locked. -/
theorem searched_next (asn : Asn) (s : State α) : ∃ search,
    Searched s.tschNeighbors asn s.places search ∧
      tschScheduleGetNextActiveLink false asn s =
        ⟨search.currBest, some search.timeToCurrBest, search.currBackup⟩ := by
  refine ⟨_, searched_foldl s.tschNeighbors asn s.places, ?_⟩
  rw [← search_eq]
  rfl

theorem nextLinkRight_unlocked (hs : Scheduled s) (asn : Asn) :
    NextLinkRight s asn (tschScheduleGetNextActiveLink false asn s) ↔
      ∀ k, NextAt s asn k → ∀ b, Preferred s.tschNeighbors (s.activeAt (asn.value + k)) b →
        ¬ SelfBackup (s.activeAt (asn.value + k)) b := by
  obtain ⟨search, hsearched, hresult⟩ := searched_next asn s
  rw [hresult]
  unfold Searched at hsearched
  cases hbest : search.currBest with
  | none =>
      rw [hbest] at hsearched
      have hnil : s.places = [] := hsearched
      refine iff_of_true ⟨iff_of_true rfl hnil, nofun⟩ ?_
      rintro k ⟨⟨-, p, hp, -⟩, -⟩
      rw [hnil] at hp
      cases hp
  | some b =>
      rw [hbest] at hsearched
      obtain ⟨hrun, hle⟩ := hsearched
      have hmem := (found_of_run ((nodup_places s).filter _) hrun).mem
      obtain ⟨hplace, htime⟩ := List.mem_filter.1 hmem
      have htime := of_decide_eq_true htime
      have hnext := nextAt_of_le hs hplace htime hle
      rw [← activeAt_eq hs hnext.1.1 hle] at hrun
      have hfound := found_of_run (nodup_activeAt s _) hrun
      have hpref := preferred_of_run (nodup_activeAt s _) hrun
      have hlink : LinkRight (s.activeAt (asn.value + search.timeToCurrBest)) b :=
        ⟨hfound.mem, hfound.tx, hfound.lowest⟩
      constructor
      · intro hright k hk c hc
        obtain ⟨j, -, hj, -, hbackup⟩ := hright.right b rfl
        obtain rfl := hj.unique hnext
        obtain rfl := hk.unique hj
        obtain rfl := hc.unique hpref
        exact hfound.backupRight_iff.1 hbackup
      · intro h
        refine ⟨iff_of_false nofun (List.ne_nil_of_mem hplace), fun c hc => ?_⟩
        obtain rfl := Option.some.inj hc
        have hself := h _ hnext _ hpref
        exact ⟨_, rfl, hnext, hlink, hfound.backupRight_iff.2 hself⟩

/-- The result is right exactly if the schedule is not locked, or has no link, and the link that is
to be chosen does not stay its own backup. -/
theorem nextLinkRight_iff (hs : Scheduled s) (asn : Asn) (tschIsLocked : Bool) :
    NextLinkRight s asn (tschScheduleGetNextActiveLink tschIsLocked asn s) ↔
      (tschIsLocked = true → s.places = []) ∧
        (tschIsLocked = false → ∀ k, NextAt s asn k →
          ∀ b, Preferred s.tschNeighbors (s.activeAt (asn.value + k)) b →
            ¬ SelfBackup (s.activeAt (asn.value + k)) b) := by
  cases tschIsLocked with
  | true =>
      have hresult : tschScheduleGetNextActiveLink true asn s = ⟨none, none, none⟩ := rfl
      rw [hresult]
      constructor
      · exact fun h => ⟨fun _ => h.link_eq_none.1 rfl, nofun⟩
      · exact fun h => ⟨iff_of_true rfl (h.1 rfl), nofun⟩
  | false =>
      rw [nextLinkRight_unlocked hs]
      exact ⟨fun h => ⟨nofun, fun _ => h⟩, fun h => h.2 rfl⟩

/-- A slotframe of three slots with one link in its first one. -/
def slotframeOf (handle : ℕ) (linkOptions : UInt8) : Slotframe ℕ :=
  ⟨handle, 3, [⟨handle, 1, handle, 0, 0, linkOptions⟩], fun l hl => by simp_all⟩

/-- Two slotframes, the links of which overlap. -/
def overlapping (first second : UInt8) : State ℕ :=
  ⟨[slotframeOf 0 first, slotframeOf 1 second], 2, fun _ => none⟩

theorem scheduled_overlapping (first second : UInt8) : Scheduled (overlapping first second) := by
  refine ⟨fun sf hsf => ?_, fun sf hsf => ?_, fun sf hsf l hl => ?_⟩
  · simp only [overlapping, List.mem_cons, List.not_mem_nil, or_false] at hsf
    rcases hsf with rfl | rfl <;> simp [slotframeOf]
  · simp only [overlapping, List.mem_cons, List.not_mem_nil, or_false] at hsf
    rcases hsf with rfl | rfl <;> simp [slotframeOf]
  · simp only [overlapping, List.mem_cons, List.not_mem_nil, or_false] at hsf
    rcases hsf with rfl | rfl <;> simp_all [slotframeOf]

/-- A Tx link with a Rx link behind it. -/
theorem nextLinkRight_iff_txRx : NextLinkRight (overlapping 1 2) ⟨0, 0⟩
    (tschScheduleGetNextActiveLink false ⟨0, 0⟩ (overlapping 1 2)) := by
  refine (nextLinkRight_iff (scheduled_overlapping 1 2) ⟨0, 0⟩ false).2
    ⟨nofun, fun _ k _ b hb hself => ?_⟩
  have hplaces : (overlapping 1 2).places =
      [⟨0, 0, 3, ⟨0, 1, 0, 0, 0, 1⟩⟩, ⟨1, 0, 3, ⟨1, 1, 1, 0, 0, 2⟩⟩] := rfl
  obtain ⟨hmem, hactive⟩ := List.mem_filter.1 hb.mem
  rw [hplaces, List.mem_cons, List.mem_singleton] at hmem
  rcases hmem with rfl | rfl
  · exact absurd hself.rx (by decide)
  · -- The other link is active in the same slots, and it is the one with the Tx option.
    refine hb.tx.elim (by decide) fun hnone => ?_
    refine hnone ⟨0, 0, 3, ⟨0, 1, 0, 0, 0, 1⟩⟩ (List.mem_filter.2 ⟨?_, hactive⟩) (by decide)
    rw [hplaces]
    exact List.mem_cons_self

/-- Two Rx links: the first one is found, and it is its own backup. -/
theorem not_nextLinkRight : ¬ NextLinkRight (overlapping 2 2) ⟨0, 0⟩
    (tschScheduleGetNextActiveLink false ⟨0, 0⟩ (overlapping 2 2)) := by
  intro h
  obtain ⟨k, -, -, -, hbackup⟩ := h.right ⟨0, 0, 3, ⟨0, 1, 0, 0, 0, 2⟩⟩ rfl
  exact (hbackup.other _ rfl).2.2 rfl

end Den2ne.Tsch
