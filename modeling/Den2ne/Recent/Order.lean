import Den2ne.Recent.Table

/-!
# Keys in the order of their uses

A list of keys without gaps or blanks, ordered by how recently each was used: a key that is used
goes to the front, and keys may be taken out anywhere. The last key of such a list is the one
whose latest use is the longest ago.
-/

namespace Recent

variable {κ : Type*} [DecidableEq κ] {uses live : List κ} {k : κ}

/-- The keys `live` in the order of their latest uses in the log `uses`, the latest first. -/
def byUse (uses live : List κ) : List κ := (recents id uses).filter (· ∈ live)

/-- The keys are in the order of their latest uses. -/
def Ordered (uses live : List κ) : Prop := byUse uses live = live

/-- The key whose latest use is the longest ago. -/
def leastRecent (uses live : List κ) : Option κ := (byUse uses live).getLast?

theorem Ordered.leastRecent (h : Ordered uses live) :
    Recent.leastRecent uses live = live.getLast? := by
  rw [Recent.leastRecent, h]

theorem ordered_nil (uses : List κ) : Ordered uses [] := by
  simp [Ordered, byUse]

theorem Ordered.nodup (h : Ordered uses live) : live.Nodup := by
  have hnodup : ((recents id uses).map id).Nodup := nodup_recents uses
  rw [List.map_id] at hnodup
  rw [← h]
  exact hnodup.filter _

/-- A key that is used goes to the front. -/
theorem Ordered.use (h : Ordered uses live) (k : κ) :
    Ordered (k :: uses) (k :: live.filter (· ≠ k)) := by
  have htail : ((recents id uses).filter (· ≠ k)).filter (· ∈ k :: live.filter (· ≠ k)) =
      ((recents id uses).filter (· ∈ live)).filter (· ≠ k) := by
    rw [List.filter_filter, List.filter_filter]
    refine List.filter_congr fun x _ => ?_
    by_cases hx : x = k
    · simp [hx]
    · simp [hx]
  have hlive : (recents id uses).filter (· ∈ live) = live := h
  rw [Ordered, byUse, recents, List.filter_cons_of_pos (by simp)]
  exact congrArg (k :: ·) (htail.trans (by rw [hlive]))

/-- Keys are taken out. -/
theorem Ordered.filter (h : Ordered uses live) (p : κ → Bool) : Ordered uses (live.filter p) := by
  have hlive : (recents id uses).filter (· ∈ live) = live := h
  have hfilter : (recents id uses).filter (· ∈ live.filter p) =
      ((recents id uses).filter (· ∈ live)).filter p := by
    rw [List.filter_filter]
    refine List.filter_congr fun x _ => ?_
    simp [and_comm]
  rw [Ordered, byUse, hfilter, hlive]

end Recent
