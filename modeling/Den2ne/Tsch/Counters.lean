import Den2ne.Tsch.Schedule
import Den2ne.Transition.Run
import Mathlib.Data.List.Perm.Basic

/-!
# Counting the links of a neighbour

A link outlives the entry of its neighbour: the entry may not be there when the link is added, and
be made later, with counters of zero. `always_exact_iff` says in which sequences of calls the
counters of all neighbours stay exact.
-/

namespace Den2ne.Tsch

open Transition

variable {α : Type*} [DecidableEq α]

/-- The number of Tx links to an address. -/
def txLinks (links : List (Link α)) (addr : α) : ℕ :=
  links.countP fun l => l.IsTx ∧ l.addr = addr

/-- The number of those that are not shared. -/
def dedicatedTxLinks (links : List (Link α)) (addr : α) : ℕ :=
  links.countP fun l => (l.IsTx ∧ l.addr = addr) ∧ ¬ l.IsShared

/-- The entry of an address counts these links. -/
def Neighbor.Counts (n : Neighbor) (links : List (Link α)) (addr : α) : Prop :=
  n.txLinksCount.toNat = txLinks links addr ∧
    n.dedicatedTxLinksCount.toNat = dedicatedTxLinks links addr

/-- Every entry does. -/
def Counted (links : List (Link α)) (nbrs : Neighbors α) : Prop :=
  ∀ addr n, nbrs addr = some n → n.Counts links addr

/-- The links of all slotframes. -/
def State.links (s : State α) : List (Link α) := s.slotframeList.flatMap (·.linksList)

/-- The counters are exact. -/
def State.Exact (s : State α) : Prop := Counted s.links s.tschNeighbors

/-- A call frees no neighbour that is the target of a Tx link. -/
def KeepsTargets (cfg : Config α) (s : State α) (call : Call α) : Prop :=
  ∀ s', step cfg call s = some s' → ∀ addr, s.tschNeighbors addr ≠ none →
    s'.tschNeighbors addr = none → txLinks s.links addr = 0

/-- If the entry of an address is made now, there is no Tx link to it. -/
def State.MayAdd (s : State α) (free : Bool) (addr : α) : Prop :=
  s.tschNeighbors addr = none → free = true → txLinks s.links addr = 0

/-- The links that the call does not replace. -/
def AddLink.others (call : AddLink α) (s : State α) (sf : Slotframe α) : List (Link α) :=
  (if call.doRemove then
    s.slotframeList.set call.slotframe (sf.clear call.timeslot call.channelOffset)
  else s.slotframeList).flatMap (·.linksList)

/-- The calls that keep the counters exact: none makes the entry of an address to which there is a
Tx link, and a Tx link is added to a neighbour that has an entry only if there are fewer than 255
other Tx links to it. -/
def Keeps (cfg : Config α) (s : State α) : Call α → Prop
  | .addLink call => ∀ sf, s.slotframeList[call.slotframe]? = some sf →
      call.timeslot ≤ sf.size - 1 → call.linkFree = true →
      call.linkOptions &&& linkOptionTx ≠ 0 →
        let addr := call.address.getD cfg.linkaddrNull
        (s.tschNeighbors addr = none → call.nbrFree = true →
            txLinks (call.others s sf) addr = 0) ∧
          (s.tschNeighbors addr ≠ none → txLinks (call.others s sf) addr < 255)
  | .addPacket free _ addr => s.MayAdd free addr
  | .updateTimeSource free (some addr) => cfg.tschIsCoordinator = false → s.MayAdd free addr
  | _ => True

section Lemmas

variable {links links' removed : List (Link α)} {nbrs : Neighbors α} {l : Link α} {addr b : α}
  {n : Neighbor}

/-! ## Counting -/

theorem txLinks_cons (l : Link α) (links : List (Link α)) (addr : α) :
    txLinks (l :: links) addr =
      txLinks links addr + if l.IsTx ∧ l.addr = addr then 1 else 0 := by
  rw [txLinks, txLinks, List.countP_cons]
  simp only [decide_eq_true_eq]

theorem dedicatedTxLinks_cons (l : Link α) (links : List (Link α)) (addr : α) :
    dedicatedTxLinks (l :: links) addr =
      dedicatedTxLinks links addr +
        if (l.IsTx ∧ l.addr = addr) ∧ ¬ l.IsShared then 1 else 0 := by
  rw [dedicatedTxLinks, dedicatedTxLinks, List.countP_cons]
  simp only [decide_eq_true_eq]

theorem dedicatedTxLinks_le (links : List (Link α)) (addr : α) :
    dedicatedTxLinks links addr ≤ txLinks links addr := by
  refine List.countP_mono_left fun l _ h => ?_
  simp only [decide_eq_true_eq] at h ⊢
  exact h.1

/-- A link counts at its own address only, and only if it is a Tx link. -/
theorem counts_cons_of_not (h : ¬ (l.IsTx ∧ l.addr = addr)) :
    n.Counts (l :: links) addr ↔ n.Counts links addr := by
  rw [Neighbor.Counts, Neighbor.Counts, txLinks_cons, dedicatedTxLinks_cons, if_neg h,
    if_neg fun h' => h h'.1, Nat.add_zero, Nat.add_zero]

theorem Counted.perm (hperm : links.Perm links') (h : Counted links nbrs) :
    Counted links' nbrs := by
  intro addr n hn
  obtain ⟨htx, hdedicated⟩ := h addr n hn
  exact ⟨htx.trans (hperm.countP_eq _), hdedicated.trans (hperm.countP_eq _)⟩

theorem counted_perm (hperm : links.Perm links') : Counted links nbrs ↔ Counted links' nbrs :=
  ⟨Counted.perm hperm, Counted.perm hperm.symm⟩

/-- A new entry at one address, where the links to all others are the same. -/
theorem Counted.update_iff (h : Counted links nbrs)
    (hsame : ∀ (b : α) (n : Neighbor), b ≠ addr → (n.Counts links' b ↔ n.Counts links b)) :
    Counted links' (Function.update nbrs addr (some n)) ↔ n.Counts links' addr := by
  constructor
  · intro h'
    exact h' addr n (Function.update_self ..)
  · intro hn b n' hn'
    by_cases hb : b = addr
    · subst hb
      rw [Function.update_self] at hn'
      exact Option.some.inj hn' ▸ hn
    · rw [Function.update_of_ne hb] at hn'
      exact (hsame b n' hb).2 (h b n' hn')

/-! ## Entries -/

theorem changeNbr_self (addr : α) (f : Neighbor → Neighbor) (nbrs : Neighbors α) :
    changeNbr addr f nbrs addr = (nbrs addr).map f := by
  rw [changeNbr]
  cases h : nbrs addr with
  | none => exact h
  | some n => exact Function.update_self ..

theorem changeNbr_of_ne (h : b ≠ addr) (f : Neighbor → Neighbor) (nbrs : Neighbors α) :
    changeNbr addr f nbrs b = nbrs b := by
  rw [changeNbr]
  cases nbrs addr with
  | none => rfl
  | some n => exact Function.update_of_ne h ..

/-- A change that leaves the counters alone. -/
theorem counted_changeNbr_iff {f : Neighbor → Neighbor}
    (hf : ∀ n, (f n).txLinksCount = n.txLinksCount ∧
      (f n).dedicatedTxLinksCount = n.dedicatedTxLinksCount) :
    Counted links (changeNbr addr f nbrs) ↔ Counted links nbrs := by
  have hcounts : ∀ (b : α) (n : Neighbor), (f n).Counts links b ↔ n.Counts links b := fun b n => by
    rw [Neighbor.Counts, Neighbor.Counts, (hf n).1, (hf n).2]
  constructor
  · intro h b n hn
    by_cases hb : b = addr
    · subst hb
      refine (hcounts b n).1 (h b (f n) ?_)
      rw [changeNbr_self, hn]
      rfl
    · exact h b n (by rw [changeNbr_of_ne hb, hn])
  · intro h b n hn
    by_cases hb : b = addr
    · subst hb
      rw [changeNbr_self, Option.map_eq_some_iff] at hn
      obtain ⟨n', hn', rfl⟩ := hn
      exact (hcounts b n').2 (h b n' hn')
    · rw [changeNbr_of_ne hb] at hn
      exact h b n hn

theorem counted_setTimeSource_iff {timeSource : Option α} :
    Counted links (setTimeSource timeSource nbrs) ↔ Counted links nbrs := by
  constructor
  · intro h b n hn
    exact h b (n.setTimeSource (decide (timeSource = some b))) (by rw [setTimeSource, hn]; rfl)
  · intro h b n hn
    obtain ⟨n', hn', rfl⟩ := Option.map_eq_some_iff.1 hn
    exact h b n' hn'

/-- A new entry counts nothing. -/
theorem Counted.addNbr_iff (h : Counted links nbrs) (cfg : Config α) (free : Bool) (addr : α) :
    Counted links (tschQueueAddNbr cfg free addr nbrs) ↔
      (nbrs addr = none → free = true → txLinks links addr = 0) := by
  have hle := dedicatedTxLinks_le links addr
  rw [tschQueueAddNbr]
  cases hn : nbrs addr with
  | some n => exact iff_of_true h nofun
  | none =>
      cases free with
      | false => exact iff_of_true h fun _ hfree => by cases hfree
      | true =>
          dsimp only
          rw [if_pos rfl, h.update_iff fun _ _ _ => Iff.rfl]
          constructor
          · intro hcounts _ _
            exact hcounts.1.symm
          · intro hzero
            have hzero := hzero rfl rfl
            refine ⟨hzero.symm, ?_⟩
            change 0 = dedicatedTxLinks links addr
            omega

/-! ## Links -/

theorem toNat_sub_one {c : UInt8} {k : ℕ} (h : c.toNat = k + 1) : (c - 1).toNat = k := by
  have hone : (1 : UInt8).toNat = 1 := rfl
  rw [UInt8.toNat_sub, hone, h]
  have hlt := c.toNat_lt
  omega

theorem toNat_add_one (c : UInt8) : (c + 1).toNat = (c.toNat + 1) % 256 := UInt8.toNat_add c 1

/-- A link that is removed is counted no more. -/
theorem Counted.release (h : Counted (l :: links) nbrs) : Counted links (releaseLink nbrs l) := by
  rw [releaseLink]
  by_cases htx : l.IsTx
  · rw [if_pos htx]
    intro b n hn
    by_cases hb : b = l.addr
    · subst hb
      rw [changeNbr_self, Option.map_eq_some_iff] at hn
      obtain ⟨n', hn', rfl⟩ := hn
      obtain ⟨hcount, hdedicated⟩ := h l.addr n' hn'
      rw [txLinks_cons, if_pos ⟨htx, rfl⟩] at hcount
      rw [dedicatedTxLinks_cons] at hdedicated
      refine ⟨toNat_sub_one hcount, ?_⟩
      by_cases hshared : l.IsShared
      · rw [if_neg fun h => h.2 hshared] at hdedicated
        rw [uncountTxLink, if_pos hshared]
        exact hdedicated
      · rw [if_pos ⟨⟨htx, rfl⟩, hshared⟩] at hdedicated
        rw [uncountTxLink, if_neg hshared]
        exact toNat_sub_one hdedicated
    · rw [changeNbr_of_ne hb] at hn
      exact (counts_cons_of_not fun h => hb h.2.symm).1 (h b n hn)
  · rw [if_neg htx]
    intro b n hn
    exact (counts_cons_of_not fun h => htx h.1).1 (h b n hn)

theorem Counted.release_all (h : Counted (removed ++ links) nbrs) :
    Counted links (removed.foldl releaseLink nbrs) := by
  induction removed generalizing nbrs with
  | nil => exact h
  | cons l removed ih => exact ih h.release

/-- What an entry counts with another link to it. -/
theorem counts_countTxLink_iff (htx : l.IsTx) :
    (countTxLink l n).Counts (l :: links) l.addr ↔
      (n.txLinksCount.toNat + 1) % 256 = txLinks links l.addr + 1 ∧
        if l.IsShared then n.dedicatedTxLinksCount.toNat = dedicatedTxLinks links l.addr
        else (n.dedicatedTxLinksCount.toNat + 1) % 256 = dedicatedTxLinks links l.addr + 1 := by
  rw [Neighbor.Counts, txLinks_cons, dedicatedTxLinks_cons, if_pos ⟨htx, rfl⟩, countTxLink,
    toNat_add_one]
  by_cases hshared : l.IsShared
  · rw [if_pos hshared, if_pos hshared, if_neg fun h => h.2 hshared, Nat.add_zero]
    exact Iff.rfl
  · rw [if_neg hshared, if_neg hshared, if_pos ⟨⟨htx, rfl⟩, hshared⟩, toNat_add_one]

/-- A Tx link is counted if its neighbour has an entry that can count it, or gets one and it is the
only one. -/
theorem Counted.register_iff (h : Counted links nbrs) (cfg : Config α) (free : Bool) (l : Link α) :
    Counted (l :: links) (registerLink cfg free nbrs l) ↔
      (l.IsTx → (nbrs l.addr = none → free = true → txLinks links l.addr = 0) ∧
        (nbrs l.addr ≠ none → txLinks links l.addr < 255)) := by
  have hle := dedicatedTxLinks_le links l.addr
  rw [registerLink]
  by_cases htx : l.IsTx
  · rw [if_pos htx, imp_iff_right htx]
    have hsame : ∀ (b : α) (n : Neighbor), b ≠ l.addr →
        (n.Counts (l :: links) b ↔ n.Counts links b) :=
      fun b n hb => counts_cons_of_not fun h => hb h.2.symm
    cases hn : nbrs l.addr with
    | some n =>
        have hcounts := h l.addr n hn
        have hadd : tschQueueAddNbr cfg free l.addr nbrs = nbrs := by rw [tschQueueAddNbr, hn]
        rw [hadd, changeNbr, hn]
        dsimp only
        rw [h.update_iff hsame, counts_countTxLink_iff htx, hcounts.1, hcounts.2]
        constructor
        · rintro ⟨hcount, -⟩
          refine ⟨nofun, fun _ => ?_⟩
          omega
        · rintro ⟨-, hlt⟩
          have hlt := hlt (Option.some_ne_none n)
          refine ⟨by omega, ?_⟩
          split <;> omega
    | none =>
        cases free with
        | false =>
            have hadd : tschQueueAddNbr cfg false l.addr nbrs = nbrs := by
              rw [tschQueueAddNbr, hn]
              rfl
            have hsame' : changeNbr l.addr (countTxLink l) nbrs = nbrs := by rw [changeNbr, hn]
            rw [hadd, hsame']
            refine iff_of_true (fun b n' hn' => (hsame b n' ?_).2 (h b n' hn')) ⟨?_, ?_⟩
            · rintro rfl
              rw [hn] at hn'
              cases hn'
            · intro _ hfree
              cases hfree
            · intro hne
              exact absurd rfl hne
        | true =>
            rw [changeNbr, tschQueueAddNbr, hn]
            dsimp only
            rw [if_pos rfl, Function.update_self]
            dsimp only
            rw [Function.update_idem, h.update_iff hsame, counts_countTxLink_iff htx]
            constructor
            · rintro ⟨hcount, -⟩
              refine ⟨fun _ _ => ?_, fun hne => absurd rfl hne⟩
              exact (Nat.succ.inj hcount).symm
            · rintro ⟨hzero, -⟩
              have hzero := hzero rfl rfl
              rw [hzero] at hle ⊢
              rw [Nat.le_zero.1 hle]
              exact ⟨rfl, by split <;> rfl⟩
  · rw [if_neg htx]
    refine iff_of_true (fun b n hn => ?_) fun htx' => absurd htx' htx
    exact (counts_cons_of_not fun h => htx h.1).2 (h b n hn)

theorem Counted.freeUnused (h : Counted links nbrs) :
    Counted links fun a => (nbrs a).filter fun n => ¬ n.Unused := by
  intro b n hn
  exact h b n (Option.filter_eq_some_iff.1 hn).1

/-! ## Slotframes -/

variable {frames : List (Slotframe α)} {sf sf' : Slotframe α} {i : ℕ}

section

omit [DecidableEq α]

/-- A slotframe loses some links. -/
theorem flatMap_set_perm (hsf : frames[i]? = some sf)
    (hperm : sf.linksList.Perm (removed ++ sf'.linksList)) :
    (frames.flatMap (·.linksList)).Perm
      (removed ++ (frames.set i sf').flatMap (·.linksList)) := by
  induction frames generalizing i with
  | nil => cases hsf
  | cons first frames ih =>
      cases i with
      | zero =>
          obtain rfl : first = sf := Option.some.inj hsf
          rw [List.set_cons_zero, List.flatMap_cons, List.flatMap_cons, ← List.append_assoc]
          exact hperm.append_right _
      | succ i =>
          rw [List.set_cons_succ, List.flatMap_cons, List.flatMap_cons]
          refine ((ih (by exact hsf)).append_left _).trans ?_
          rw [← List.append_assoc, ← List.append_assoc]
          exact List.perm_append_comm.append_right _

/-- A slotframe is removed with its links. -/
theorem flatMap_eraseIdx_perm (hsf : frames[i]? = some sf) :
    (frames.flatMap (·.linksList)).Perm
      (sf.linksList ++ (frames.eraseIdx i).flatMap (·.linksList)) := by
  obtain ⟨hlt, rfl⟩ := List.getElem?_eq_some_iff.1 hsf
  rw [← List.flatMap_cons]
  exact (List.getElem_cons_eraseIdx_perm hlt).symm.flatMap_right _

/-- A slotframe gets another link. -/
theorem flatMap_addLink_perm (hsf : frames[i]? = some sf) (l : Link α)
    (hl : l.slotframeHandle = sf.handle) :
    ((frames.set i (sf.addLink l hl)).flatMap (·.linksList)).Perm
      (l :: frames.flatMap (·.linksList)) := by
  obtain ⟨hlt, rfl⟩ := List.getElem?_eq_some_iff.1 hsf
  have hperm : (frames[i].addLink l hl).linksList.Perm ([l] ++ frames[i].linksList) :=
    List.perm_append_comm
  have hset := flatMap_set_perm (List.getElem?_set_self hlt) hperm
  rw [List.set_set, List.set_getElem_self hlt] at hset
  exact hset

end

end Lemmas

variable {cfg : Config α} {s s' : State α}

/-! ## Which neighbours stay -/

theorem changeNbr_eq_none {addr b : α} {f : Neighbor → Neighbor} {nbrs : Neighbors α} :
    changeNbr addr f nbrs b = none ↔ nbrs b = none := by
  by_cases hb : b = addr
  · subst hb
    rw [changeNbr_self]
    exact Option.map_eq_none_iff
  · rw [changeNbr_of_ne hb]

theorem tschQueueAddNbr_eq_none {free : Bool} {addr b : α} {nbrs : Neighbors α}
    (h : tschQueueAddNbr cfg free addr nbrs b = none) : nbrs b = none := by
  rw [tschQueueAddNbr] at h
  cases hn : nbrs addr with
  | some n =>
      rw [hn] at h
      exact h
  | none =>
      by_cases hb : b = addr
      · rw [hb, hn]
      · cases free with
        | false =>
            rw [hn] at h
            exact h
        | true =>
            rw [hn] at h
            dsimp only at h
            rw [if_pos rfl, Function.update_of_ne hb] at h
            exact h

theorem releaseLink_eq_none {l : Link α} {nbrs : Neighbors α} {b : α} :
    releaseLink nbrs l b = none ↔ nbrs b = none := by
  rw [releaseLink]
  split
  · exact changeNbr_eq_none
  · exact Iff.rfl

theorem foldl_releaseLink_eq_none {links : List (Link α)} {nbrs : Neighbors α} {b : α} :
    links.foldl releaseLink nbrs b = none ↔ nbrs b = none := by
  induction links generalizing nbrs with
  | nil => exact Iff.rfl
  | cons l links ih => exact ih.trans releaseLink_eq_none

theorem registerLink_eq_none {free : Bool} {l : Link α} {nbrs : Neighbors α} {b : α}
    (h : registerLink cfg free nbrs l b = none) : nbrs b = none := by
  rw [registerLink] at h
  split at h
  · exact tschQueueAddNbr_eq_none (changeNbr_eq_none.1 h)
  · exact h

theorem removeLinkByTimeslot_eq_none {i timeslot channelOffset : ℕ} {b : α} :
    (tschScheduleRemoveLinkByTimeslot i timeslot channelOffset s).tschNeighbors b = none ↔
      s.tschNeighbors b = none := by
  rw [tschScheduleRemoveLinkByTimeslot]
  split
  · exact Iff.rfl
  · exact foldl_releaseLink_eq_none

theorem AddLink.cleared_eq_none {call : AddLink α} {b : α} :
    (call.cleared s).tschNeighbors b = none ↔ s.tschNeighbors b = none := by
  rw [AddLink.cleared]
  split
  · exact removeLinkByTimeslot_eq_none
  · exact Iff.rfl

/-! ## Calls -/

theorem State.Exact.removeLinkByTimeslot (h : s.Exact) (i timeslot channelOffset : ℕ) :
    (tschScheduleRemoveLinkByTimeslot i timeslot channelOffset s).Exact := by
  rw [tschScheduleRemoveLinkByTimeslot]
  cases hsf : s.slotframeList[i]? with
  | none => exact h
  | some sf =>
      have hperm := (List.filter_append_perm (fun l => decide (l.At timeslot channelOffset))
        sf.linksList).symm
      refine (Counted.perm (flatMap_set_perm hsf ?_) h).release_all
      simpa [Slotframe.clear] using hperm

/-- The slotframe is still at its place. -/
theorem AddLink.exists_slotframe (call : AddLink α) {sf : Slotframe α}
    (hsf : s.slotframeList[call.slotframe]? = some sf) :
    ∃ sf', (call.cleared s).slotframeList[call.slotframe]? = some sf' := by
  rw [AddLink.cleared]
  split
  · rw [tschScheduleRemoveLinkByTimeslot, hsf]
    exact ⟨_, List.getElem?_set_self (List.getElem?_eq_some_iff.1 hsf).1⟩
  · exact ⟨sf, hsf⟩

theorem AddLink.links_cleared (call : AddLink α) {sf : Slotframe α}
    (hsf : s.slotframeList[call.slotframe]? = some sf) :
    (call.cleared s).links = call.others s sf := by
  rw [AddLink.cleared, AddLink.others]
  split
  · rw [tschScheduleRemoveLinkByTimeslot, hsf]
    rfl
  · rfl

theorem State.Exact.cleared (h : s.Exact) (call : AddLink α) : (call.cleared s).Exact := by
  rw [AddLink.cleared]
  split
  · exact h.removeLinkByTimeslot _ _ _
  · exact h

theorem State.Exact.addLink_iff (h : s.Exact) (cfg : Config α) (call : AddLink α) :
    (tschScheduleAddLink cfg call s).Exact ↔ Keeps cfg s (.addLink call) := by
  rw [tschScheduleAddLink, Keeps]
  cases hsf : s.slotframeList[call.slotframe]? with
  | none =>
      refine iff_of_true h fun sf hsome => ?_
      cases hsome
  | some sf =>
      dsimp only
      by_cases hsize : sf.size - 1 < call.timeslot
      · rw [if_pos hsize]
        refine iff_of_true h fun sf' hsome hle => ?_
        rw [← Option.some.inj hsome] at hle
        exact absurd hle (Nat.not_le.2 hsize)
      · rw [if_neg hsize]
        have hcleared := h.cleared call
        obtain ⟨sf', hsf'⟩ := call.exists_slotframe hsf
        rw [hsf']
        cases hfree : call.linkFree with
        | false =>
            refine iff_of_true hcleared fun _ _ _ hlink => ?_
            cases hlink
        | true =>
            dsimp only
            refine (counted_perm (flatMap_addLink_perm hsf' _ _)).trans ?_
            refine (hcleared.register_iff cfg call.nbrFree _).trans ?_
            rw [call.links_cleared hsf, Ne, AddLink.cleared_eq_none]
            constructor
            · intro hkeeps sf hsome _ _
              obtain rfl := Option.some.inj hsome
              exact hkeeps
            · intro hkeeps
              exact hkeeps sf rfl (Nat.le_of_not_lt hsize) rfl

theorem State.Exact.updateTimeSource_iff (h : s.Exact) (cfg : Config α) (free : Bool)
    (newAddr : Option α) :
    (tschQueueUpdateTimeSource cfg free newAddr s).Exact ↔
      Keeps cfg s (.updateTimeSource free newAddr) := by
  unfold tschQueueUpdateTimeSource
  by_cases hcoordinator : cfg.tschIsCoordinator
  · rw [if_pos hcoordinator]
    refine iff_of_true h ?_
    cases newAddr with
    | none => trivial
    | some addr =>
        intro hnot
        rw [hcoordinator] at hnot
        cases hnot
  · rw [if_neg hcoordinator]
    cases newAddr with
    | none => exact iff_of_true (counted_setTimeSource_iff.2 h) trivial
    | some addr =>
        have hkeeps : Keeps cfg s (.updateTimeSource free (some addr)) ↔ s.MayAdd free addr :=
          imp_iff_right (Bool.eq_false_iff.2 hcoordinator)
        rw [hkeeps]
        dsimp only
        cases hn : tschQueueAddNbr cfg free addr s.tschNeighbors addr with
        | none =>
            refine iff_of_true h fun hnone hfree => ?_
            rw [tschQueueAddNbr, hnone] at hn
            dsimp only at hn
            rw [if_pos hfree, Function.update_self] at hn
            cases hn
        | some n => exact counted_setTimeSource_iff.trans (h.addNbr_iff cfg free addr)

/-- Whether the counters are exact after a call. -/
theorem State.Exact.step_iff (h : s.Exact) {call : Call α} (hstep : step cfg call s = some s') :
    s'.Exact ↔ Keeps cfg s call := by
  cases call with
  | addSlotframe free handle size =>
      obtain rfl := Option.some.inj hstep
      refine iff_of_true ?_ trivial
      rw [tschScheduleAddSlotframe]
      split
      · exact h
      · split
        · exact h
        · split
          · rw [State.Exact, State.links, List.flatMap_append]
            exact (congrArg (Counted · s.tschNeighbors) (List.append_nil _)).mpr h
          · exact h
  | removeSlotframe i =>
      obtain rfl := Option.some.inj hstep
      refine iff_of_true ?_ trivial
      rw [tschScheduleRemoveSlotframe]
      cases hsf : s.slotframeList[i]? with
      | none => exact h
      | some sf => exact (Counted.perm (flatMap_eraseIdx_perm hsf) h).release_all
  | addLink call =>
      obtain rfl := Option.some.inj hstep
      exact h.addLink_iff cfg call
  | removeLink i j =>
      obtain rfl := Option.some.inj hstep
      refine iff_of_true ?_ trivial
      rw [tschScheduleRemoveLink]
      cases hsf : s.slotframeList[i]? with
      | none => exact h
      | some sf =>
          dsimp only
          cases hl : sf.linksList[j]? with
          | none => exact h
          | some l =>
              obtain ⟨hlt, rfl⟩ := List.getElem?_eq_some_iff.1 hl
              have hperm : sf.linksList.Perm ([sf.linksList[j]] ++ (sf.eraseLink j).linksList) :=
                (List.getElem_cons_eraseIdx_perm hlt).symm
              exact (Counted.perm (flatMap_set_perm hsf hperm) h).release
  | removeLinkByTimeslot i timeslot channelOffset =>
      obtain rfl := Option.some.inj hstep
      exact iff_of_true (h.removeLinkByTimeslot _ _ _) trivial
  | addPacket free room addr =>
      obtain rfl := Option.some.inj hstep
      refine Iff.trans ?_ (h.addNbr_iff cfg free addr)
      cases room with
      | false => exact Iff.rfl
      | true => exact counted_changeNbr_iff fun _ => ⟨rfl, rfl⟩
  | packetSent done addr =>
      obtain rfl := Option.some.inj hstep
      refine iff_of_true ?_ trivial
      rw [tschQueuePacketSent]
      split
      · exact (counted_changeNbr_iff (f := fun n : Neighbor =>
          { n with txRingbuf := n.txRingbuf - 1 }) fun _ => ⟨rfl, rfl⟩).2 h
      · exact h
  | updateTimeSource free newAddr =>
      obtain rfl := Option.some.inj hstep
      exact h.updateTimeSource_iff cfg free newAddr
  | freeUnusedNeighbors =>
      obtain rfl := Option.some.inj hstep
      exact iff_of_true h.freeUnused trivial

theorem addLink_eq_none {call : AddLink α} {b : α}
    (h : (tschScheduleAddLink cfg call s).tschNeighbors b = none) : s.tschNeighbors b = none := by
  rw [tschScheduleAddLink] at h
  split at h
  · exact h
  · split at h
    · exact h
    · dsimp only at h
      split at h
      · exact AddLink.cleared_eq_none.1 (registerLink_eq_none h)
      · exact AddLink.cleared_eq_none.1 h

theorem updateTimeSource_eq_none {free : Bool} {newAddr : Option α} {b : α}
    (h : (tschQueueUpdateTimeSource cfg free newAddr s).tschNeighbors b = none) :
    s.tschNeighbors b = none := by
  unfold tschQueueUpdateTimeSource at h
  split at h
  · exact h
  · cases newAddr with
    | none => exact Option.map_eq_none_iff.1 h
    | some addr =>
        dsimp only at h
        split at h
        · exact h
        · exact tschQueueAddNbr_eq_none (Option.map_eq_none_iff.1 h)

/-- No other call frees a neighbour. -/
theorem eq_freeUnused_of_freed {call : Call α} {addr : α} (hstep : step cfg call s = some s')
    (hn : s.tschNeighbors addr ≠ none) (hfreed : s'.tschNeighbors addr = none) :
    call = .freeUnusedNeighbors := by
  cases call with
  | freeUnusedNeighbors => rfl
  | addSlotframe free handle size =>
      obtain rfl := Option.some.inj hstep
      refine absurd ?_ hn
      rw [tschScheduleAddSlotframe] at hfreed
      split_ifs at hfreed <;> exact hfreed
  | removeSlotframe i =>
      obtain rfl := Option.some.inj hstep
      refine absurd ?_ hn
      rw [tschScheduleRemoveSlotframe] at hfreed
      split at hfreed
      · exact hfreed
      · exact foldl_releaseLink_eq_none.1 hfreed
  | addLink call =>
      obtain rfl := Option.some.inj hstep
      exact absurd (addLink_eq_none hfreed) hn
  | removeLink i j =>
      obtain rfl := Option.some.inj hstep
      refine absurd ?_ hn
      rw [tschScheduleRemoveLink] at hfreed
      split at hfreed
      · exact hfreed
      · split at hfreed
        · exact hfreed
        · exact releaseLink_eq_none.1 hfreed
  | removeLinkByTimeslot i timeslot channelOffset =>
      obtain rfl := Option.some.inj hstep
      exact absurd (removeLinkByTimeslot_eq_none.1 hfreed) hn
  | addPacket free room addr =>
      obtain rfl := Option.some.inj hstep
      refine absurd ?_ hn
      cases room with
      | false => exact tschQueueAddNbr_eq_none hfreed
      | true => exact tschQueueAddNbr_eq_none (changeNbr_eq_none.1 hfreed)
  | packetSent done addr =>
      obtain rfl := Option.some.inj hstep
      refine absurd ?_ hn
      rw [tschQueuePacketSent] at hfreed
      split at hfreed
      · exact changeNbr_eq_none.1 hfreed
      · exact hfreed
  | updateTimeSource free newAddr =>
      obtain rfl := Option.some.inj hstep
      exact absurd (updateTimeSource_eq_none hfreed) hn

/-- Where the counters are exact, an unused neighbour is the target of no Tx link. -/
theorem State.Exact.keepsTargets (h : s.Exact) (call : Call α) : KeepsTargets cfg s call := by
  intro s' hstep addr hn hfreed
  obtain rfl := eq_freeUnused_of_freed hstep hn hfreed
  obtain rfl := Option.some.inj hstep
  obtain ⟨n, hsome⟩ := Option.ne_none_iff_exists'.1 hn
  have hunused : n.Unused := by
    simpa [tschQueueFreeUnusedNeighbors, hsome] using hfreed
  obtain ⟨hcount, -⟩ := h addr n hsome
  rw [hunused.2.2.1] at hcount
  exact hcount.symm

theorem exact_init (cfg : Config α) : (init cfg).Exact := by
  have hadd {nbrs : Neighbors α} (h : Counted [] nbrs) (addr : α) :
      Counted [] (tschQueueAddNbr cfg true addr nbrs) := (h.addNbr_iff cfg true addr).2 fun _ _ => rfl
  refine hadd (hadd ?_ _) _
  intro _ _ hn
  cases hn

/-- The counters of all neighbours are exact throughout, and no target of a Tx link is freed, in
exactly the sequences of calls that all meet `Keeps`. -/
theorem always_exact_iff (cfg : Config α) (calls : List (Call α)) :
    Always (step cfg) State.Exact calls (init cfg) ∧
        Meets (step cfg) (KeepsTargets cfg) calls (init cfg) ↔
      Meets (step cfg) (Keeps cfg) calls (init cfg) := by
  have hiff : Always (step cfg) State.Exact calls (init cfg) ↔
      Meets (step cfg) (Keeps cfg) calls (init cfg) :=
    always_iff_meets (I := fun _ => True) (fun _ _ _ _ _ _ _ => trivial)
      (fun _ _ _ _ h hstep => h.step_iff hstep) trivial (exact_init cfg)
  constructor
  · rintro ⟨halways, -⟩
    exact hiff.1 halways
  · intro hkeeps
    refine ⟨hiff.2 hkeeps, ?_⟩
    exact meets_of_meets
      (fun _ call _ h hkeep hstep => ⟨h.keepsTargets call, (h.step_iff hstep).2 hkeep⟩)
      (exact_init cfg) hkeeps

/-- A node with short addresses. -/
def shortConfig : Config ℕ where
  linkaddrNull := 0
  tschEbAddress := 0
  tschBroadcastAddress := 65535
  tschIsCoordinator := false

/-- A Tx link to a neighbour for which there is no room, and later a packet for it. -/
def lateEntry : List (Call ℕ) :=
  [.addSlotframe true 1 7,
    .addLink
      { slotframe := 0
        linkOptions := linkOptionTx
        address := some 5
        timeslot := 3
        channelOffset := 0
        doRemove := true
        linkFree := true
        nbrFree := false },
    .addPacket true true 5]

/-- The entry that is made for the packet does not count the link. -/
theorem not_always_exact_lateEntry :
    ¬ Always (step shortConfig) State.Exact lateEntry (init shortConfig) := fun h => by
  have hexact := always_last h rfl
  have hcount : (0 : ℕ) = 1 := (hexact 5 _ rfl).1
  omega

end Den2ne.Tsch
