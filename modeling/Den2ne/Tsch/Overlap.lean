import Den2ne.Tsch.NextLink
import Mathlib.Data.List.Induction
import Mathlib.Data.List.Nodup

/-!
# Overlapping links

The links of one slot, in the order of the schedule: `run` finds the best link and the backup link
among them. Of two links the one that may send wins, then the one with the lower handle, and among
links of one rank the comparator decides. A link with the Rx option that does not win is taken into
account for the backup; so is the best link itself, once a link of another rank has lost against
it. `SelfBackup` says when it stays the backup.
-/

namespace Den2ne.Tsch

variable {α : Type*} {nbrs : Neighbors α} {a b e l x y : Place α}
  {links pre mid rest post : List (Place α)} {backup : Option (Place α)}

/-- The Tx option is the same in both. -/
def SameTx (a b : Place α) : Prop :=
  a.link.linkOptions &&& linkOptionTx = b.link.linkOptions &&& linkOptionTx

/-- Neither the Tx option nor the handle decides. -/
def SameRank (a b : Place α) : Prop :=
  SameTx a b ∧ a.link.slotframeHandle = b.link.slotframeHandle

instance (a b : Place α) : Decidable (SameTx a b) := inferInstanceAs (Decidable (_ = _))

instance (a b : Place α) : Decidable (SameRank a b) := inferInstanceAs (Decidable (_ ∧ _))

/-- The best link `b` stays its own backup: it has the Rx option, no link with that option has a
lower handle, and the first link after it that is not of its rank comes before any other one that
has the option and the same handle. -/
structure SelfBackup (links : List (Place α)) (b : Place α) : Prop where
  rx : b.link.IsRx
  lowest : ∀ x ∈ links, x.link.IsRx → b.link.slotframeHandle ≤ x.link.slotframeHandle
  first : ∃ pre mid l post, links = pre ++ b :: (mid ++ l :: post) ∧
    (∀ x ∈ mid, SameRank b x) ∧ ¬ SameRank b l ∧
    ∀ x ∈ pre ++ (mid ++ [l]), x.link.IsRx → x.link.slotframeHandle ≠ b.link.slotframeHandle

/-- What the search has found among the links of a slot. -/
structure Found (links : List (Place α)) (b : Place α) (backup : Option (Place α)) : Prop where
  mem : b ∈ links
  tx : b.link.IsTx ∨ ∀ e ∈ links, ¬ e.link.IsTx
  lowest : ∀ e ∈ links, SameTx e b → b.link.slotframeHandle ≤ e.link.slotframeHandle
  backup_mem : ∀ x, backup = some x → x ∈ links ∧ x.link.IsRx
  backup_le : ∀ e ∈ links, e.link.IsRx → e ≠ b →
    ∃ x, backup = some x ∧ x.link.slotframeHandle ≤ e.link.slotframeHandle
  seen : ∀ pre rest, links = pre ++ b :: rest → (∃ l ∈ rest, ¬ SameRank b l) → b.link.IsRx →
    ∃ x, backup = some x ∧ x.link.slotframeHandle ≤ b.link.slotframeHandle
  self : backup = some b ↔ SelfBackup links b

/-! ## Two links -/

theorem txBit_cases : ∀ o : UInt8, o &&& linkOptionTx = 0 ∨ o &&& linkOptionTx = 1 := by
  intro o
  have hbits : ∀ v : BitVec 8, v &&& 1 = 0 ∨ v &&& 1 = 1 := by decide
  rcases hbits o.toBitVec with h | h
  · exact .inl (UInt8.toBitVec_inj.1 h)
  · exact .inr (UInt8.toBitVec_inj.1 h)

theorem isTx_iff : a.link.IsTx ↔ a.link.linkOptions &&& linkOptionTx = 1 := by
  rcases txBit_cases a.link.linkOptions with h | h
  · exact iff_of_false (fun hne => hne h) (by rw [h]; decide)
  · exact iff_of_true (by rw [Link.IsTx, h]; decide) h

theorem SameTx.symm (h : SameTx a b) : SameTx b a := Eq.symm h

theorem SameTx.isTx_iff (h : SameTx a b) : a.link.IsTx ↔ b.link.IsTx := by
  rw [Link.IsTx, Link.IsTx, h]

theorem sameTx_iff : SameTx a b ↔ (a.link.IsTx ↔ b.link.IsTx) := by
  refine ⟨SameTx.isTx_iff, fun h => ?_⟩
  rw [Tsch.isTx_iff, Tsch.isTx_iff] at h
  rw [SameTx]
  rcases txBit_cases a.link.linkOptions with ha | ha
  · rcases txBit_cases b.link.linkOptions with hb | hb
    · rw [ha, hb]
    · rw [h.2 hb, hb]
  · rw [ha, h.1 ha]

section

variable [DecidableEq α]

/-- The comparator picks one of the two. -/
theorem comparator_cases (nbrs : Neighbors α) (a b : Place α) :
    defaultTschLinkComparator nbrs a b = a ∨ defaultTschLinkComparator nbrs a b = b := by
  unfold defaultTschLinkComparator
  split
  · exact .inl rfl
  · split
    · split
      · exact .inl rfl
      · exact .inr rfl
    · exact .inl rfl

/-- How the new link can fare against the best one. -/
inductive Duel (nbrs : Neighbors α) (b l : Place α) : Prop
  | wins (heq : newBest nbrs b l = some l)
      (htx : (l.link.IsTx ∧ ¬ b.link.IsTx) ∨
        (SameTx b l ∧ l.link.slotframeHandle ≤ b.link.slotframeHandle))
  | keeps (heq : newBest nbrs b l = some b) (hrank : SameRank b l)
  | loses (heq : newBest nbrs b l = none)
      (htx : (b.link.IsTx ∧ ¬ l.link.IsTx) ∨
        (SameTx b l ∧ b.link.slotframeHandle < l.link.slotframeHandle))

theorem duel (nbrs : Neighbors α) (b l : Place α) : Duel nbrs b l := by
  by_cases htx : SameTx b l
  · have hbits : b.link.linkOptions &&& linkOptionTx = l.link.linkOptions &&& linkOptionTx := htx
    by_cases hhandle : l.link.slotframeHandle = b.link.slotframeHandle
    · have hnew : newBest nbrs b l = some (defaultTschLinkComparator nbrs b l) := by
        rw [newBest, if_pos hbits, if_neg (not_not.2 hhandle)]
      rcases comparator_cases nbrs b l with hb | hl
      · exact .keeps (by rw [hnew, hb]) ⟨htx, hhandle.symm⟩
      · exact .wins (by rw [hnew, hl]) (.inr ⟨htx, Nat.le_of_eq hhandle⟩)
    · by_cases hlt : l.link.slotframeHandle < b.link.slotframeHandle
      · refine .wins ?_ (.inr ⟨htx, Nat.le_of_lt hlt⟩)
        rw [newBest, if_pos hbits, if_pos hhandle, if_pos hlt]
      · refine .loses ?_ (.inr ⟨htx, by omega⟩)
        rw [newBest, if_pos hbits, if_pos hhandle, if_neg hlt]
  · have hbits : ¬ b.link.linkOptions &&& linkOptionTx = l.link.linkOptions &&& linkOptionTx := htx
    have hne : ¬ (b.link.IsTx ↔ l.link.IsTx) := fun h => htx (sameTx_iff.2 h)
    by_cases hl : l.link.IsTx
    · refine .wins ?_ (.inl ⟨hl, fun hb => hne (iff_of_true hb hl)⟩)
      rw [newBest, if_neg hbits, if_pos hl]
    · refine .loses ?_ (.inl ⟨?_, hl⟩)
      · rw [newBest, if_neg hbits, if_neg hl]
      · by_contra hb
        exact hne (iff_of_false hb hl)

end

/-! ## The backup -/

theorem offer_eq (l : Place α) (backup : Option (Place α)) :
    offer l backup = backup ∨ (offer l backup = some l ∧ l.link.IsRx ∧
      ∀ x, backup = some x → l.link.slotframeHandle < x.link.slotframeHandle) := by
  cases backup with
  | none =>
      rw [offer]
      split
      · rename_i hrx
        exact .inr ⟨rfl, hrx, nofun⟩
      · exact .inl rfl
  | some y =>
      rw [offer]
      split
      · rename_i h
        refine .inr ⟨rfl, h.1, fun x hx => ?_⟩
        obtain rfl := Option.some.inj hx
        exact h.2
      · exact .inl rfl

/-- The backup is at least as low as before. -/
theorem offer_mono {h : ℕ} (hx : ∃ x, backup = some x ∧ x.link.slotframeHandle ≤ h) :
    ∃ x, offer l backup = some x ∧ x.link.slotframeHandle ≤ h := by
  obtain ⟨x, hx, hle⟩ := hx
  rcases offer_eq l backup with heq | ⟨heq, -, hlt⟩
  · exact ⟨x, heq.trans hx, hle⟩
  · exact ⟨l, heq, Nat.le_trans (Nat.le_of_lt (hlt x hx)) hle⟩

/-- A link with the Rx option is not above the backup once it was offered. -/
theorem offer_le (l : Place α) (backup : Option (Place α)) (hrx : l.link.IsRx) :
    ∃ x, offer l backup = some x ∧ x.link.slotframeHandle ≤ l.link.slotframeHandle := by
  cases backup with
  | none => exact ⟨l, if_pos hrx, Nat.le_refl _⟩
  | some y =>
      rw [offer]
      split
      · exact ⟨l, rfl, Nat.le_refl _⟩
      · rename_i h
        exact ⟨y, rfl, Nat.not_lt.1 fun hlt => h ⟨hrx, hlt⟩⟩

/-- A link is taken if it has the Rx option and every backup so far is above it. -/
theorem offer_of_lt (hrx : l.link.IsRx)
    (hlt : ∀ x, backup = some x → l.link.slotframeHandle < x.link.slotframeHandle) :
    offer l backup = some l := by
  cases backup with
  | none => exact if_pos hrx
  | some y => exact if_pos ⟨hrx, hlt y rfl⟩

/-- A backup that is not above the link stays. -/
theorem offer_of_le (hx : ∃ x, backup = some x ∧
    (l.link.IsRx → x.link.slotframeHandle ≤ l.link.slotframeHandle)) :
    offer l backup = backup := by
  obtain ⟨x, rfl, hle⟩ := hx
  exact if_neg fun h => Nat.not_lt.2 (hle h.1) h.2

theorem mem_of_offer (h : offer l backup = some x) : x = l ∧ l.link.IsRx ∨ backup = some x := by
  rcases offer_eq l backup with heq | ⟨heq, hrx, -⟩
  · exact .inr (heq.symm.trans h)
  · exact .inl ⟨(Option.some.inj (heq.symm.trans h)).symm, hrx⟩

/-! ## The links of a slot -/

/-- A link that was not there before is not in front of the rest. -/
theorem rest_eq_nil (hnew : l ∉ links) (h : links ++ [l] = pre ++ l :: rest) : rest = [] := by
  rcases List.eq_nil_or_concat' rest with hnil | ⟨init, z, rfl⟩
  · exact hnil
  · have hsplit : links ++ [l] = (pre ++ l :: init) ++ [z] := by
      rw [h, List.append_assoc, List.cons_append]
    have hlinks := (List.append_inj' hsplit rfl).1
    exact absurd (hlinks ▸ List.mem_append_right pre (List.mem_cons_self ..)) hnew

/-- The last link of a list that another link splits. -/
theorem split_last (hne : l ≠ b) (h : links ++ [l] = pre ++ b :: rest) :
    ∃ init, rest = init ++ [l] ∧ links = pre ++ b :: init := by
  rcases List.eq_nil_or_concat' rest with rfl | ⟨init, z, rfl⟩
  · exact absurd (List.singleton_inj.1 (List.append_inj' h rfl).2) hne
  · have hsplit : links ++ [l] = (pre ++ b :: init) ++ [z] := by
      rw [h, List.append_assoc, List.cons_append]
    obtain ⟨hlinks, hz⟩ := List.append_inj' hsplit rfl
    rw [List.singleton_inj.1 hz]
    exact ⟨init, rfl, hlinks⟩

theorem not_selfBackup_of_new (hnew : l ∉ links) : ¬ SelfBackup (links ++ [l]) l := by
  intro h
  obtain ⟨pre, mid, z, post, heq, -⟩ := h.first
  have hnil := rest_eq_nil hnew heq
  rw [List.append_eq_nil_iff] at hnil
  cases hnil.2

/-- With one more link at the end, the first one of another rank is the new link or was there
before. -/
theorem selfBackup_append_iff (hne : l ≠ b) : SelfBackup (links ++ [l]) b ↔
    (SelfBackup links b ∧ (l.link.IsRx → b.link.slotframeHandle ≤ l.link.slotframeHandle)) ∨
      (¬ SameRank b l ∧ b.link.IsRx ∧
        (l.link.IsRx → b.link.slotframeHandle < l.link.slotframeHandle) ∧
        ∃ pre mid, links = pre ++ b :: mid ∧ (∀ x ∈ mid, SameRank b x) ∧
          ∀ x ∈ pre ++ mid, x.link.IsRx → b.link.slotframeHandle < x.link.slotframeHandle) := by
  constructor
  · intro h
    obtain ⟨pre, mid, z, post, heq, hmid, hz, hfirst⟩ := h.first
    obtain ⟨init, hinit, hlinks⟩ := split_last hne heq
    have hlow : ∀ x ∈ links, x.link.IsRx → b.link.slotframeHandle ≤ x.link.slotframeHandle :=
      fun x hx => h.lowest x (List.mem_append_left _ hx)
    have hlast : l.link.IsRx → b.link.slotframeHandle ≤ l.link.slotframeHandle :=
      h.lowest l (List.mem_append_right _ (List.mem_singleton_self l))
    rcases List.eq_nil_or_concat' post with rfl | ⟨post, y, rfl⟩
    · obtain ⟨rfl, hlz⟩ := List.append_inj' hinit rfl
      obtain rfl := List.singleton_inj.1 hlz
      refine .inr ⟨hz, h.rx, fun hrx => ?_, pre, mid, hlinks, hmid, fun x hx hrx => ?_⟩
      · exact Nat.lt_of_le_of_ne (hlast hrx) fun hh =>
          hfirst z (by simp) hrx hh.symm
      · have hx' : x ∈ links := by
          rw [hlinks]
          rcases List.mem_append.1 hx with hx | hx
          · exact List.mem_append_left _ hx
          · exact List.mem_append_right _ (List.mem_cons_of_mem _ hx)
        refine Nat.lt_of_le_of_ne (hlow x hx' hrx) fun hh => hfirst x ?_ hrx hh.symm
        rw [← List.append_assoc]
        exact List.mem_append_left _ hx
    · have hsplit : mid ++ z :: (post ++ [y]) = (mid ++ z :: post) ++ [y] := by simp
      rw [hsplit] at hinit
      obtain ⟨rfl, -⟩ := List.append_inj' hinit rfl
      exact .inl ⟨⟨h.rx, hlow, pre, mid, z, post, hlinks, hmid, hz, hfirst⟩, hlast⟩
  · rintro (⟨h, hlast⟩ | ⟨hz, hrx, hlast, pre, mid, hlinks, hmid, hfirst⟩)
    · obtain ⟨pre, mid, z, post, heq, hmid, hz, hfirst⟩ := h.first
      refine ⟨h.rx, fun x hx => ?_, pre, mid, z, post ++ [l], ?_, hmid, hz, hfirst⟩
      · rcases List.mem_append.1 hx with hx | hx
        · exact h.lowest x hx
        · exact List.mem_singleton.1 hx ▸ hlast
      · simp [heq]
    · have hall : ∀ x ∈ pre ++ (mid ++ [l]), x.link.IsRx →
          b.link.slotframeHandle < x.link.slotframeHandle := by
        intro x hx
        rw [← List.append_assoc] at hx
        rcases List.mem_append.1 hx with hx | hx
        · exact hfirst x hx
        · exact List.mem_singleton.1 hx ▸ hlast
      refine ⟨hrx, fun x hx hx' => ?_, pre, mid, l, [], by simp [hlinks], hmid, hz,
        fun x hx hx' => Nat.ne_of_gt (hall x hx hx')⟩
      rw [hlinks] at hx
      by_cases hxb : x = b
      · exact Nat.le_of_eq (by rw [hxb])
      · refine Nat.le_of_lt (hall x ?_ hx')
        simp only [List.mem_append, List.mem_cons] at hx ⊢
        tauto

/-- A link that was not the backup before was taken. -/
theorem offer_eq_some (h : offer b backup = some b) (hne : backup ≠ some b) :
    b.link.IsRx ∧ ∀ x, backup = some x → b.link.slotframeHandle < x.link.slotframeHandle := by
  rcases offer_eq b backup with heq | ⟨-, hrx, hlt⟩
  · exact absurd (heq.symm.trans h) hne
  · exact ⟨hrx, hlt⟩

theorem found_singleton (l : Place α) : Found [l] l none where
  mem := List.mem_singleton_self l
  tx := by
    by_cases h : l.link.IsTx
    · exact .inl h
    · exact .inr fun e he => List.mem_singleton.1 he ▸ h
  lowest e he _ := by
    exact Nat.le_of_eq (by rw [List.mem_singleton.1 he])
  backup_mem := nofun
  backup_le e he _ hne := absurd (List.mem_singleton.1 he) hne
  seen pre rest heq := by
    have hnil : rest = [] := rest_eq_nil List.not_mem_nil
      (show [] ++ [l] = pre ++ l :: rest from heq)
    rintro ⟨z, hz, -⟩
    rw [hnil] at hz
    cases hz
  self := by
    have hnew : ¬ SelfBackup ([] ++ [l]) l := not_selfBackup_of_new List.not_mem_nil
    exact iff_of_false nofun hnew

/-- The new link wins, and the best one so far is offered. -/
theorem Found.wins (h : Found links b backup) (hnew : l ∉ links)
    (htx : (l.link.IsTx ∧ ¬ b.link.IsTx) ∨
      (SameTx b l ∧ l.link.slotframeHandle ≤ b.link.slotframeHandle)) :
    Found (links ++ [l]) l (offer b backup) where
  mem := List.mem_append_right _ (List.mem_singleton_self l)
  tx := by
    rcases htx with ⟨hl, -⟩ | ⟨hsame, -⟩
    · exact .inl hl
    · rcases h.tx with hb | hnone
      · exact .inl (hsame.isTx_iff.1 hb)
      · refine .inr fun e he => ?_
        rcases List.mem_append.1 he with he | he
        · exact hnone e he
        · rw [List.mem_singleton.1 he]
          exact fun hl => hnone b h.mem (hsame.isTx_iff.2 hl)
  lowest e he hsame := by
    rcases List.mem_append.1 he with he | he
    · rcases htx with ⟨hl, hb⟩ | ⟨hbl, hle⟩
      · rcases h.tx with hb' | hnone
        · exact absurd hb' hb
        · exact absurd (hsame.isTx_iff.2 hl) (hnone e he)
      · exact Nat.le_trans hle (h.lowest e he (Eq.trans hsame hbl.symm))
    · exact Nat.le_of_eq (by rw [List.mem_singleton.1 he])
  backup_mem x hx := by
    rcases mem_of_offer hx with ⟨rfl, hrx⟩ | hx
    · exact ⟨List.mem_append_left _ h.mem, hrx⟩
    · exact ⟨List.mem_append_left _ (h.backup_mem x hx).1, (h.backup_mem x hx).2⟩
  backup_le e he hrx hne := by
    rcases List.mem_append.1 he with he | he
    · by_cases heb : e = b
      · rw [heb] at hrx ⊢
        exact offer_le b backup hrx
      · exact offer_mono (h.backup_le e he hrx heb)
    · exact absurd (List.mem_singleton.1 he) hne
  seen pre rest heq := by
    rw [rest_eq_nil hnew heq]
    rintro ⟨z, hz, -⟩
    cases hz
  self := by
    refine iff_of_false (fun hl => ?_) (not_selfBackup_of_new hnew)
    rcases mem_of_offer hl with ⟨rfl, -⟩ | hl
    · exact hnew h.mem
    · exact hnew (h.backup_mem l hl).1

/-- The comparator keeps the best link, and the new one is offered. -/
theorem Found.keeps (h : Found links b backup) (hnew : l ∉ links) (hrank : SameRank b l) :
    Found (links ++ [l]) b (offer l backup) where
  mem := List.mem_append_left _ h.mem
  tx := by
    rcases h.tx with hb | hnone
    · exact .inl hb
    · refine .inr fun e he => ?_
      rcases List.mem_append.1 he with he | he
      · exact hnone e he
      · rw [List.mem_singleton.1 he]
        exact fun hl => hnone b h.mem (hrank.1.isTx_iff.2 hl)
  lowest e he hsame := by
    rcases List.mem_append.1 he with he | he
    · exact h.lowest e he hsame
    · rw [List.mem_singleton.1 he]
      exact Nat.le_of_eq hrank.2
  backup_mem x hx := by
    rcases mem_of_offer hx with ⟨rfl, hrx⟩ | hx
    · exact ⟨List.mem_append_right _ (List.mem_singleton_self x), hrx⟩
    · exact ⟨List.mem_append_left _ (h.backup_mem x hx).1, (h.backup_mem x hx).2⟩
  backup_le e he hrx hne := by
    rcases List.mem_append.1 he with he | he
    · exact offer_mono (h.backup_le e he hrx hne)
    · rw [List.mem_singleton.1 he] at hrx ⊢
      exact offer_le l backup hrx
  seen pre rest heq hother hrx := by
    have hne : l ≠ b := fun hl => hnew (hl ▸ h.mem)
    obtain ⟨init, rfl, hlinks⟩ := split_last hne heq
    obtain ⟨z, hz, hzrank⟩ := hother
    rcases List.mem_append.1 hz with hz | hz
    · exact offer_mono (h.seen pre init hlinks ⟨z, hz, hzrank⟩ hrx)
    · exact absurd (List.mem_singleton.1 hz ▸ hrank) hzrank
  self := by
    have hne : l ≠ b := fun hl => hnew (hl ▸ h.mem)
    rw [selfBackup_append_iff hne]
    constructor
    · intro hb
      rcases mem_of_offer hb with ⟨hl, -⟩ | hb
      · exact absurd hl.symm hne
      · exact .inl ⟨h.self.1 hb, fun _ => Nat.le_of_eq hrank.2⟩
    · rintro (⟨hself, -⟩ | ⟨hother, -⟩)
      · have hb := h.self.2 hself
        exact (offer_of_le ⟨b, hb, fun _ => Nat.le_of_eq hrank.2⟩).trans hb
      · exact absurd hrank hother

/-- The new link loses; it is offered, and then the best one is. -/
theorem Found.loses (h : Found links b backup) (hnew : l ∉ links) (hnodup : links.Nodup)
    (htx : (b.link.IsTx ∧ ¬ l.link.IsTx) ∨
      (SameTx b l ∧ b.link.slotframeHandle < l.link.slotframeHandle)) :
    Found (links ++ [l]) b (offer b (offer l backup)) where
  mem := List.mem_append_left _ h.mem
  tx := by
    rcases htx with ⟨hb, -⟩ | ⟨hsame, -⟩
    · exact .inl hb
    · rcases h.tx with hb | hnone
      · exact .inl hb
      · refine .inr fun e he => ?_
        rcases List.mem_append.1 he with he | he
        · exact hnone e he
        · rw [List.mem_singleton.1 he]
          exact fun hl => hnone b h.mem (hsame.isTx_iff.2 hl)
  lowest e he hsame := by
    rcases List.mem_append.1 he with he | he
    · exact h.lowest e he hsame
    · rw [List.mem_singleton.1 he] at hsame ⊢
      rcases htx with ⟨hb, hl⟩ | ⟨-, hlt⟩
      · exact absurd (hsame.isTx_iff.2 hb) hl
      · exact Nat.le_of_lt hlt
  backup_mem x hx := by
    rcases mem_of_offer hx with ⟨rfl, hrx⟩ | hx
    · exact ⟨List.mem_append_left _ h.mem, hrx⟩
    · rcases mem_of_offer hx with ⟨rfl, hrx⟩ | hx
      · exact ⟨List.mem_append_right _ (List.mem_singleton_self x), hrx⟩
      · exact ⟨List.mem_append_left _ (h.backup_mem x hx).1, (h.backup_mem x hx).2⟩
  backup_le e he hrx hne := by
    rcases List.mem_append.1 he with he | he
    · exact offer_mono (offer_mono (h.backup_le e he hrx hne))
    · rw [List.mem_singleton.1 he] at hrx ⊢
      exact offer_mono (offer_le l backup hrx)
  seen _ _ _ _ hrx := offer_le b _ hrx
  self := by
    have hne : l ≠ b := fun hl => hnew (hl ▸ h.mem)
    rw [selfBackup_append_iff hne]
    constructor
    · intro hb
      by_cases hkept : offer l backup = some b
      · refine .inl ⟨?_, fun hrx => ?_⟩
        · rcases mem_of_offer hkept with ⟨hl, -⟩ | hold
          · exact absurd hl.symm hne
          · exact h.self.1 hold
        · obtain ⟨x, hx, hle⟩ := offer_le l backup hrx
          rw [hkept] at hx
          exact Option.some.inj hx ▸ hle
      · obtain ⟨hrx, hlt⟩ := offer_eq_some hb hkept
        obtain ⟨pre, mid, hlinks⟩ := List.append_of_mem h.mem
        have hlow : ∀ x : Place α, (∃ y, offer l backup = some y ∧
            y.link.slotframeHandle ≤ x.link.slotframeHandle) →
            b.link.slotframeHandle < x.link.slotframeHandle := by
          rintro x ⟨y, hy, hle⟩
          exact Nat.lt_of_lt_of_le (hlt y hy) hle
        refine .inr ⟨fun hrank => ?_, hrx, fun hl => hlow l (offer_le l backup hl), pre, mid,
          hlinks, fun x hx => ?_, fun x hx hx' => ?_⟩
        · rcases htx with ⟨hb, hl⟩ | ⟨-, hlt⟩
          · exact hl (hrank.1.isTx_iff.1 hb)
          · exact absurd hrank.2 (Nat.ne_of_lt hlt)
        · by_contra hother
          obtain hseen := offer_mono (l := l) (h.seen pre mid hlinks ⟨x, hx, hother⟩ hrx)
          exact Nat.lt_irrefl _ (hlow b hseen)
        · rw [hlinks, List.nodup_middle] at hnodup
          have hxb : x ≠ b := fun hxb => (List.nodup_cons.1 hnodup).1 (hxb ▸ hx)
          have hmem : x ∈ links := by
            rw [hlinks]
            simp only [List.mem_append, List.mem_cons] at hx ⊢
            tauto
          exact hlow x (offer_mono (h.backup_le x hmem hx' hxb))
    · rintro (⟨hself, hlast⟩ | ⟨-, hrx, hlast, pre, mid, hlinks, -, hfirst⟩)
      · have hold := h.self.2 hself
        have hkept := (offer_of_le ⟨b, hold, hlast⟩).trans hold
        exact (offer_of_le ⟨b, hkept, fun _ => Nat.le_refl _⟩).trans hkept
      · by_cases hkept : offer l backup = some b
        · exact (offer_of_le ⟨b, hkept, fun _ => Nat.le_refl _⟩).trans hkept
        · refine offer_of_lt hrx fun x hx => ?_
          rcases mem_of_offer hx with ⟨rfl, hx'⟩ | hold
          · exact hlast hx'
          · obtain ⟨hmem, hx'⟩ := h.backup_mem x hold
            refine hfirst x ?_ hx'
            have hxb : x ≠ b := fun hxb => hkept (hxb ▸ hx)
            rw [hlinks] at hmem
            simp only [List.mem_append, List.mem_cons] at hmem ⊢
            tauto

variable [DecidableEq α]

/-- Another link of the same slot. -/
def meet (nbrs : Neighbors α) (s : Option (Place α × Option (Place α))) (l : Place α) :
    Option (Place α × Option (Place α)) :=
  match s with
  | none => some (l, none)
  | some (currBest, currBackup) => some (overlap nbrs currBest l currBackup)

/-- The best link of a slot and the backup link. -/
def run (nbrs : Neighbors α) (links : List (Place α)) : Option (Place α × Option (Place α)) :=
  links.foldl (meet nbrs) none

theorem overlap_of_wins (h : newBest nbrs b l = some l) (hne : l ≠ b) :
    overlap nbrs b l backup = (l, offer b backup) := by
  have hb : newBest nbrs b l ≠ some b := by
    rw [h]
    exact fun heq => hne (Option.some.inj heq)
  simp only [overlap]
  rw [if_neg (not_not.2 h), if_pos hb, h, Option.getD_some]

theorem overlap_of_keeps (h : newBest nbrs b l = some b) (hne : l ≠ b) :
    overlap nbrs b l backup = (b, offer l backup) := by
  have hl : newBest nbrs b l ≠ some l := by
    rw [h]
    exact fun heq => hne (Option.some.inj heq).symm
  simp only [overlap]
  rw [if_pos hl, if_neg (not_not.2 h), h, Option.getD_some]

theorem overlap_of_loses (h : newBest nbrs b l = none) :
    overlap nbrs b l backup = (b, offer b (offer l backup)) := by
  simp only [overlap]
  rw [h, if_pos nofun, if_pos nofun, Option.getD_none]

theorem run_eq_none (h : run nbrs links = none) : links = [] := by
  have hsome : ∀ (links : List (Place α)) s, (links.foldl (meet nbrs) (some s)).isSome := by
    intro links
    induction links with
    | nil => exact fun _ => rfl
    | cons l links ih => exact fun s => ih _
  cases links with
  | nil => rfl
  | cons l links =>
      have hsome := hsome links (l, none)
      rw [run, List.foldl_cons] at h
      change links.foldl (meet nbrs) (some (l, none)) = none at h
      rw [h] at hsome
      cases hsome

/-- What the search finds among the links of a slot. -/
theorem found_of_run (hnodup : links.Nodup) (h : run nbrs links = some (b, backup)) :
    Found links b backup := by
  induction links using List.reverseRecOn generalizing b backup with
  | nil => cases h
  | append_singleton links l ih =>
      rw [List.nodup_append] at hnodup
      have hnew : l ∉ links := fun hl => hnodup.2.2 l hl l (List.mem_singleton_self l) rfl
      rw [run, List.foldl_append] at h
      change meet nbrs (run nbrs links) l = some (b, backup) at h
      cases hrun : run nbrs links with
      | none =>
          rw [hrun] at h
          obtain ⟨rfl, rfl⟩ := Prod.mk.inj (Option.some.inj h)
          rw [run_eq_none hrun]
          exact found_singleton l
      | some s =>
          obtain ⟨best, old⟩ := s
          rw [hrun] at h
          have hfound := ih hnodup.1 hrun
          have hne : l ≠ best := fun hl => hnew (hl ▸ hfound.mem)
          have hresult : overlap nbrs best l old = (b, backup) := Option.some.inj h
          rcases duel nbrs best l with ⟨hnew', htx⟩ | ⟨hnew', hrank⟩ | ⟨hnew', htx⟩
          · rw [overlap_of_wins hnew' hne] at hresult
            obtain ⟨rfl, rfl⟩ := Prod.mk.inj hresult
            exact hfound.wins hnew htx
          · rw [overlap_of_keeps hnew' hne] at hresult
            obtain ⟨rfl, rfl⟩ := Prod.mk.inj hresult
            exact hfound.keeps hnew hrank
          · rw [overlap_of_loses hnew'] at hresult
            obtain ⟨rfl, rfl⟩ := Prod.mk.inj hresult
            exact hfound.loses hnew hnodup.1 htx

end Den2ne.Tsch
