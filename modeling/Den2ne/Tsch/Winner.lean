import Den2ne.Tsch.Overlap

/-!
# The best link

Which link wins among those of one slot, said without the search: it may send if any may, it has
the lowest handle among those, and of the links of its rank it is the first one with the most
packets to send.
-/

namespace Den2ne.Tsch

variable {α : Type*} {nbrs : Neighbors α} {a b c l x y : Place α}
  {links pre rest post : List (Place α)} {backup : Option (Place α)}

/-- `b` wins against a link of its rank that comes first. -/
def Beats (nbrs : Neighbors α) (b x : Place α) : Prop :=
  b.link.IsTx ∧ packetCount nbrs x.link.addr < packetCount nbrs b.link.addr

/-- `b` wins against a link of its rank that comes later. -/
def Holds (nbrs : Neighbors α) (b x : Place α) : Prop :=
  b.link.IsTx → packetCount nbrs x.link.addr ≤ packetCount nbrs b.link.addr

/-- `b` is the link that is to be chosen. -/
structure Preferred (nbrs : Neighbors α) (links : List (Place α)) (b : Place α) : Prop where
  tx : b.link.IsTx ∨ ∀ e ∈ links, ¬ e.link.IsTx
  lowest : ∀ e ∈ links, SameTx e b → b.link.slotframeHandle ≤ e.link.slotframeHandle
  place : ∃ pre post, links = pre ++ b :: post ∧ (∀ x ∈ pre, SameRank b x → Beats nbrs b x) ∧
    ∀ x ∈ post, SameRank b x → Holds nbrs b x

theorem Preferred.mem (h : Preferred nbrs links b) : b ∈ links := by
  obtain ⟨pre, post, rfl, -⟩ := h.place
  exact List.mem_append_right _ List.mem_cons_self

theorem SameRank.symm (h : SameRank a b) : SameRank b a := ⟨h.1.symm, h.2.symm⟩

theorem SameRank.trans (h : SameRank a b) (h' : SameRank b c) : SameRank a c :=
  ⟨Eq.trans h.1 h'.1, h.2.trans h'.2⟩

theorem Beats.not_holds (h : Beats nbrs b x) (hrank : SameRank b x) : ¬ Holds nbrs x b :=
  fun hx => Nat.not_lt.2 (hx (hrank.1.isTx_iff.1 h.1)) h.2

/-- Two links that are to be chosen have one rank. -/
theorem Preferred.sameRank (hb : Preferred nbrs links b) (hc : Preferred nbrs links c) :
    SameRank b c := by
  have htx : SameTx b c := by
    refine sameTx_iff.2 ⟨fun h => ?_, fun h => ?_⟩
    · exact hc.tx.resolve_right fun hnone => hnone b hb.mem h
    · exact hb.tx.resolve_right fun hnone => hnone c hc.mem h
  exact ⟨htx, Nat.le_antisymm (hb.lowest c hc.mem htx.symm) (hc.lowest b hb.mem htx)⟩

/-- At most one link is to be chosen. -/
theorem Preferred.unique (hb : Preferred nbrs links b) (hc : Preferred nbrs links c) : b = c := by
  have hrank := hb.sameRank hc
  obtain ⟨pre, post, heq, hpre, hpost⟩ := hb.place
  obtain ⟨pre', post', heq', hpre', hpost'⟩ := hc.place
  rw [heq] at heq'
  rcases List.append_eq_append_iff.1 heq' with ⟨mid, hmid, htail⟩ | ⟨mid, hmid, htail⟩
  · cases mid with
    | nil => exact (List.cons.inj htail).1
    | cons x mid =>
        obtain ⟨rfl, hpost_eq⟩ := List.cons.inj htail
        have hbmem : b ∈ pre' := by simp [hmid]
        have hcmem : c ∈ post := by simp [hpost_eq]
        exact absurd (hpost c hcmem hrank) ((hpre' b hbmem hrank.symm).not_holds hrank.symm)
  · cases mid with
    | nil => exact (List.cons.inj htail).1.symm
    | cons x mid =>
        obtain ⟨rfl, hpost_eq⟩ := List.cons.inj htail
        have hcmem : c ∈ pre := by simp [hmid]
        have hbmem : b ∈ post' := by simp [hpost_eq]
        exact absurd (hpost' b hbmem hrank.symm) ((hpre c hcmem hrank).not_holds hrank)

/-- A new link of the rank of the best one that wins, wins against all. -/
theorem Preferred.beats (h : Preferred nbrs links b) (hlt : b.link.IsTx ∧
    packetCount nbrs b.link.addr < packetCount nbrs l.link.addr) (hrank : SameRank b l)
    (hx : x ∈ links) (hxl : SameRank l x) : Beats nbrs l x := by
  refine ⟨hrank.1.isTx_iff.1 hlt.1, Nat.lt_of_le_of_lt ?_ hlt.2⟩
  have hxb := hrank.trans hxl
  obtain ⟨pre, post, rfl, hpre, hpost⟩ := h.place
  rcases List.mem_append.1 hx with hx | hx
  · exact Nat.le_of_lt (hpre x hx hxb).2
  · rcases List.mem_cons.1 hx with rfl | hx
    · exact Nat.le_refl _
    · exact hpost x hx hxb hlt.1

variable [DecidableEq α]

/-- What the comparator has compared if it picks the new link. -/
theorem beats_of_comparator (hne : l ≠ b) (h : defaultTschLinkComparator nbrs b l = l) :
    b.link.IsTx ∧ packetCount nbrs b.link.addr < packetCount nbrs l.link.addr := by
  unfold defaultTschLinkComparator at h
  split at h
  · exact absurd h.symm hne
  · rename_i htx
    split at h
    · split at h
      · exact absurd h.symm hne
      · rename_i hlt
        exact ⟨not_not.1 htx, Nat.not_le.1 hlt⟩
    · exact absurd h.symm hne

/-- What it has compared if it keeps the best one. -/
theorem holds_of_comparator (hne : l ≠ b) (h : defaultTschLinkComparator nbrs b l = b) :
    Holds nbrs b l := by
  intro htx
  unfold defaultTschLinkComparator at h
  rw [if_neg (not_not.2 htx)] at h
  split at h
  · split at h
    · rename_i hle
      exact hle
    · exact absurd h hne
  · rename_i haddr
    exact Nat.le_of_eq (by rw [not_not.1 haddr])

theorem newBest_of_sameRank (h : SameRank b l) :
    newBest nbrs b l = some (defaultTschLinkComparator nbrs b l) := by
  have hbits : b.link.linkOptions &&& linkOptionTx = l.link.linkOptions &&& linkOptionTx := h.1
  rw [newBest, if_pos hbits, if_neg (not_not.2 h.2.symm)]

/-- The best link that the search finds is the one that is to be chosen. -/
theorem preferred_of_run (hnodup : links.Nodup) (h : run nbrs links = some (b, backup)) :
    Preferred nbrs links b := by
  have hfound := found_of_run hnodup h
  refine ⟨hfound.tx, hfound.lowest, ?_⟩
  induction links using List.reverseRecOn generalizing b backup with
  | nil => cases h
  | append_singleton links l ih =>
      rw [List.nodup_append] at hnodup
      have hnew : l ∉ links := fun hl => hnodup.2.2 l hl l (List.mem_singleton_self l) rfl
      rw [run, List.foldl_append] at h
      change meet nbrs (run nbrs links) l = some (b, backup) at h
      cases hrun : run nbrs links with
      | none =>
          rw [hrun] at h
          obtain ⟨rfl, -⟩ := Prod.mk.inj (Option.some.inj h)
          rw [run_eq_none hrun]
          exact ⟨[], [], rfl, fun _ hx => absurd hx List.not_mem_nil,
            fun _ hx => absurd hx List.not_mem_nil⟩
      | some s =>
          obtain ⟨best, old⟩ := s
          rw [hrun] at h
          have hold := found_of_run hnodup.1 hrun
          have hbest : Preferred nbrs links best :=
            ⟨hold.tx, hold.lowest, ih hnodup.1 hrun hold⟩
          have hne : l ≠ best := fun hl => hnew (hl ▸ hold.mem)
          have hresult : overlap nbrs best l old = (b, backup) := Option.some.inj h
          rcases duel nbrs best l with ⟨hnew', htx⟩ | ⟨hnew', hrank⟩ | ⟨hnew', htx⟩
          · rw [overlap_of_wins hnew' hne] at hresult
            obtain ⟨rfl, -⟩ := Prod.mk.inj hresult
            refine ⟨links, [], rfl, fun x hx hxl => ?_, fun _ hx => absurd hx List.not_mem_nil⟩
            by_cases hrank : SameRank best l
            · rw [newBest_of_sameRank hrank] at hnew'
              exact hbest.beats (beats_of_comparator hne (Option.some.inj hnew')) hrank hx hxl
            · exfalso
              rcases htx with ⟨hl, hb⟩ | ⟨hsame, hle⟩
              · exact (hold.tx.resolve_left hb) x hx (hxl.1.isTx_iff.1 hl)
              · have hlow := hold.lowest x hx (hsame.trans hxl.1).symm
                exact hrank ⟨hsame, Nat.le_antisymm (hxl.2 ▸ hlow) hle⟩
          · rw [overlap_of_keeps hnew' hne] at hresult
            obtain ⟨rfl, -⟩ := Prod.mk.inj hresult
            rw [newBest_of_sameRank hrank] at hnew'
            obtain ⟨pre, post, rfl, hpre, hpost⟩ := hbest.place
            refine ⟨pre, post ++ [l], by simp, hpre, fun x hx hxb => ?_⟩
            rcases List.mem_append.1 hx with hx | hx
            · exact hpost x hx hxb
            · rw [List.mem_singleton.1 hx]
              exact holds_of_comparator hne (Option.some.inj hnew')
          · rw [overlap_of_loses hnew'] at hresult
            obtain ⟨rfl, -⟩ := Prod.mk.inj hresult
            obtain ⟨pre, post, rfl, hpre, hpost⟩ := hbest.place
            refine ⟨pre, post ++ [l], by simp, hpre, fun x hx hxb => ?_⟩
            rcases List.mem_append.1 hx with hx | hx
            · exact hpost x hx hxb
            · rw [List.mem_singleton.1 hx] at hxb
              rw [newBest_of_sameRank hxb] at hnew'
              cases hnew'

end Den2ne.Tsch
