import Den2ne.Hlmac.Order
import Den2ne.Hlmac.Table

/-!
# The loop test

`hlmactable_get_longest_matchhed_prefix` looks for the longest proper prefix of the candidate that
is in the table, and compares with `hlmac_cmp`, for which zeros at the end do not count. So an
entry such as `1.0` or `1` hides that the prefix that was found is not in the table itself.
-/

namespace Den2ne

variable {t : HlmacTable} {a : HlmacAddr} {l q : List UInt8}

/-- The buffers of the entries hold their ids. -/
def HlmacTable.Backed (t : HlmacTable) : Prop := ∀ entry ∈ t.entries, entry.address.Backed

instance (t : HlmacTable) : Decidable t.Backed := inferInstanceAs (Decidable (∀ _ ∈ _, _))

/-- Some entry is a non-empty proper prefix of the candidate. -/
def HlmacTable.Matches (t : HlmacTable) (a : HlmacAddr) (l : List UInt8) : Prop :=
  l ≠ [] ∧ l <+: a.ids ∧ l ≠ a.ids ∧ ∃ entry ∈ t.entries, entry.address.ids = l

/-- The loop test answers for exactly the non-empty proper prefixes, and the longest one is found. -/
structure LoopTestExact (t : HlmacTable) (a : HlmacAddr) : Prop where
  hasLoop : hlmactableHasLoop t a = true ↔ ∃ l, t.Matches a l
  longest : (∃ l, t.Matches a l) →
    t.Matches a (hlmactableGetLongestMatchhedPrefix t a).ids ∧
      ∀ l, t.Matches a l → l.length ≤ (hlmactableGetLongestMatchhedPrefix t a).ids.length
  unspecified : (¬ ∃ l, t.Matches a l) →
    hlmactableGetLongestMatchhedPrefix t a = unspecifiedHlmacAddress

/-- Some entry has these ids, up to zeros at the end. -/
def HlmacTable.Hits (t : HlmacTable) (l : List UInt8) : Prop :=
  ∃ entry ∈ t.entries, entry.address.trimmed = l.rdropWhile (· = 0)

instance (t : HlmacTable) (l : List UInt8) : Decidable (t.Hits l) :=
  inferInstanceAs (Decidable (∃ _ ∈ _, _))

/-- The candidate has an id, and behind every prefix of it that is in the table up to zeros at the
end there is one, no shorter, that is in the table itself. -/
def ZerosHarmless (t : HlmacTable) (a : HlmacAddr) : Prop :=
  a.len ≠ 0 ∧ ∀ k, 0 < k → k < a.ids.length → t.Hits (a.ids.take k) →
    ∃ l, t.Matches a l ∧ k ≤ l.length

/-! ## The search -/

theorem trimmed_ofIds (hl : l.length ≤ 255) :
    (HlmacAddr.ofIds l).trimmed = l.rdropWhile (· = 0) := by
  rw [HlmacAddr.trimmed, HlmacAddr.ids_ofIds hl]

theorem any_hlmacCmp_iff (ht : t.Backed) (hl : l.length ≤ 255) :
    (t.entries.any fun entry => hlmacCmp entry.address (HlmacAddr.ofIds l) == 0) = true ↔
      t.Hits l := by
  rw [List.any_eq_true, HlmacTable.Hits]
  refine exists_congr fun entry => and_congr_right fun hentry => ?_
  rw [beq_iff_eq, hlmacCmp_eq_zero_iff (ht entry hentry) (HlmacAddr.backed_ofIds hl),
    trimmed_ofIds hl]

theorem hlmacRemoveLastId_ofIds_singleton (id : UInt8) :
    hlmacRemoveLastId (HlmacAddr.ofIds [id]) = unspecifiedHlmacAddress := rfl

/-- The search stops at the longest prefix that is in the table up to zeros at the end. -/
theorem longestMatchhedPrefix_spec (ht : t.Backed) {turns : ℕ} (hq : q.length ≤ 255)
    (hpos : q ≠ []) (hturns : q.length ≤ turns) :
    (∃ k, 0 < k ∧ k ≤ q.length ∧ t.Hits (q.take k) ∧
        (∀ j, k < j → j ≤ q.length → ¬ t.Hits (q.take j)) ∧
        longestMatchhedPrefix t turns (HlmacAddr.ofIds q) = HlmacAddr.ofIds (q.take k)) ∨
      ((∀ j, 0 < j → j ≤ q.length → ¬ t.Hits (q.take j)) ∧
        longestMatchhedPrefix t turns (HlmacAddr.ofIds q) = unspecifiedHlmacAddress) := by
  have hlength := List.length_pos_iff.2 hpos
  induction turns generalizing q with
  | zero => omega
  | succ turns ih =>
      have hlen : 0 < hlmacGetLen (HlmacAddr.ofIds q) := by
        rw [UInt8.lt_iff_toNat_lt, hlmacGetLen, HlmacAddr.toNat_ofIds_len hq]
        simpa using hlength
      rw [longestMatchhedPrefix, if_pos hlen]
      by_cases hhit : t.Hits q
      · rw [if_pos ((any_hlmacCmp_iff ht hq).2 hhit)]
        refine .inl ⟨q.length, hlength, Nat.le_refl _, ?_, fun j hj hj' => ?_, ?_⟩
        · rwa [List.take_length]
        · omega
        · rw [List.take_length]
      · rw [if_neg fun h => hhit ((any_hlmacCmp_iff ht hq).1 h)]
        have hself : ¬ t.Hits (q.take q.length) := by rwa [List.take_length]
        rcases Nat.eq_or_lt_of_le (Nat.succ_le_of_lt hlength) with hone | htwo
        · -- the last id goes
          obtain ⟨id, rfl⟩ := List.length_eq_one_iff.1 hone.symm
          rw [hlmacRemoveLastId_ofIds_singleton]
          refine .inr ⟨fun j hj hj' => ?_, ?_⟩
          · obtain rfl : j = 1 := by
              rw [List.length_singleton] at hj'
              omega
            exact hself
          · cases turns <;> rfl
        · have hdrop : q.dropLast.length = q.length - 1 := List.length_dropLast
          have htake : ∀ j, j ≤ q.dropLast.length → q.dropLast.take j = q.take j := by
            intro j hj
            rw [List.dropLast_eq_take, List.take_take, Nat.min_eq_left (by omega)]
          rw [hlmacRemoveLastId_ofIds hq htwo]
          have hnone : ∀ j, q.dropLast.length < j → j ≤ q.length → ¬ t.Hits (q.take j) := by
            intro j hj hj'
            obtain rfl : j = q.length := by omega
            exact hself
          rcases ih (q := q.dropLast) (by omega) (by rintro h; simp [h] at hdrop; omega)
            (by omega) (by omega) with
            ⟨k, hk, hk', hhits, hmax, hresult⟩ | ⟨hmiss, hresult⟩
          · rw [htake k hk'] at hhits hresult
            refine .inl ⟨k, hk, by omega, hhits, fun j hj hj' => ?_, hresult⟩
            rcases Nat.lt_or_ge q.dropLast.length j with hlt | hle
            · exact hnone j hlt hj'
            · rw [← htake j hle]
              exact hmax j hj hle
          · refine .inr ⟨fun j hj hj' => ?_, hresult⟩
            rcases Nat.lt_or_ge q.dropLast.length j with hlt | hle
            · exact hnone j hlt hj'
            · rw [← htake j hle]
              exact hmiss j hj hle

/-- What `hlmactable_get_longest_matchhed_prefix` returns for a candidate with an id. -/
theorem longest_spec (ht : t.Backed) (ha : a.Backed) (hne : a.len ≠ 0) :
    (∃ k, 0 < k ∧ k < a.ids.length ∧ t.Hits (a.ids.take k) ∧
        (∀ j, k < j → j < a.ids.length → ¬ t.Hits (a.ids.take j)) ∧
        hlmactableGetLongestMatchhedPrefix t a = HlmacAddr.ofIds (a.ids.take k)) ∨
      ((∀ j, 0 < j → j < a.ids.length → ¬ t.Hits (a.ids.take j)) ∧
        hlmactableGetLongestMatchhedPrefix t a = unspecifiedHlmacAddress) := by
  have hlength := HlmacAddr.backed_iff.1 ha
  have hle : a.ids.length ≤ 255 := by
    have hlt := a.len.toNat_lt
    omega
  have hpos : a.len.toNat ≠ 0 := fun h => hne (UInt8.toNat_inj.1 h)
  have hcopy : (⟨some a.ids, a.len⟩ : HlmacAddr) = HlmacAddr.ofIds a.ids := by
    rw [HlmacAddr.ofIds, hlength, UInt8.ofNat_toNat]
  rw [hlmactableGetLongestMatchhedPrefix, hcopy, ← hlength]
  rcases Nat.lt_or_ge 1 a.ids.length with htwo | hone
  · have hdrop : a.ids.dropLast.length = a.ids.length - 1 := List.length_dropLast
    have hnil : a.ids.dropLast ≠ [] := fun h => by
      rw [h, List.length_nil] at hdrop
      omega
    have htake : ∀ j, j < a.ids.length → a.ids.dropLast.take j = a.ids.take j := by
      intro j hj
      rw [List.dropLast_eq_take, List.take_take, Nat.min_eq_left (by omega)]
    rw [hlmacRemoveLastId_ofIds hle htwo]
    have hturns : a.ids.dropLast.length ≤ a.ids.length := by omega
    rcases longestMatchhedPrefix_spec ht (show _ ≤ 255 by omega) hnil hturns with
      ⟨k, hk, hk', hhits, hmax, hresult⟩ | ⟨hmiss, hresult⟩
    · rw [htake k (by omega)] at hhits hresult
      refine .inl ⟨k, hk, by omega, hhits, fun j hj hj' => ?_, hresult⟩
      rw [← htake j hj']
      exact hmax j hj (by omega)
    · refine .inr ⟨fun j hj hj' => ?_, hresult⟩
      rw [← htake j hj']
      exact hmiss j hj (by omega)
  · obtain ⟨id, hid⟩ := List.length_eq_one_iff.1 (show a.ids.length = 1 by omega)
    rw [hid, hlmacRemoveLastId_ofIds_singleton]
    refine .inr ⟨fun j hj hj' => ?_, rfl⟩
    rw [List.length_singleton] at hj'
    omega

/-- A candidate without ids is not shortened, and is not the unspecified address. -/
theorem longest_of_len_eq_zero (t : HlmacTable) (h : a.len = 0) :
    hlmactableGetLongestMatchhedPrefix t a ≠ unspecifiedHlmacAddress := by
  obtain ⟨address, len⟩ := a
  obtain rfl : len = 0 := h
  intro hunspecified
  cases congrArg HlmacAddr.address hunspecified

/-! ## Exactness -/

theorem HlmacTable.Matches.length_lt (h : t.Matches a l) :
    0 < l.length ∧ l.length < a.ids.length := by
  obtain ⟨hnil, hstart, hne, -⟩ := h
  exact ⟨List.length_pos_iff.2 hnil,
    Nat.lt_of_le_of_ne hstart.length_le fun heq => hne (hstart.eq_of_length heq)⟩

theorem HlmacTable.Matches.eq_take (h : t.Matches a l) : l = a.ids.take l.length :=
  List.prefix_iff_eq_take.1 h.2.1

theorem HlmacTable.Matches.hits (h : t.Matches a l) : t.Hits (a.ids.take l.length) := by
  obtain ⟨entry, hentry, hids⟩ := h.2.2.2
  refine ⟨entry, hentry, ?_⟩
  rw [← h.eq_take, HlmacAddr.trimmed, hids]

theorem hlmactableHasLoop_iff : hlmactableHasLoop t a = true ↔
    hlmactableGetLongestMatchhedPrefix t a ≠ unspecifiedHlmacAddress := by
  rw [hlmactableHasLoop, Bool.not_eq_true', Ne, ← hlmacIsUnspecifiedAddr_iff, Bool.not_eq_true]

/-- The loop test is exact if and only if zeros at the end of ids do no harm. -/
theorem loopTestExact_iff (ht : t.Backed) (ha : a.Backed) :
    LoopTestExact t a ↔ ZerosHarmless t a := by
  have hle : a.ids.length ≤ 255 := by
    have hlength := HlmacAddr.backed_iff.1 ha
    have hlt := a.len.toNat_lt
    omega
  have hids : ∀ k, k < a.ids.length → (HlmacAddr.ofIds (a.ids.take k)).ids = a.ids.take k :=
    fun k hk => HlmacAddr.ids_ofIds (by rw [List.length_take]; omega)
  constructor
  · intro h
    have hne : a.len ≠ 0 := by
      intro hzero
      have hnone : ¬ ∃ l, t.Matches a l := by
        rintro ⟨l, hl⟩
        have hlt := hl.length_lt.2
        rw [HlmacAddr.backed_iff.1 ha, hzero] at hlt
        exact Nat.not_lt_zero _ hlt
      exact longest_of_len_eq_zero t hzero (h.unspecified hnone)
    refine ⟨hne, fun k hk hk' hhits => ?_⟩
    rcases longest_spec ht ha hne with ⟨k', hpos, hk'', -, hmax, hresult⟩ | ⟨hmiss, -⟩
    · have hloop : hlmactableHasLoop t a = true := by
        rw [hlmactableHasLoop_iff, hresult]
        intro hunspecified
        cases congrArg HlmacAddr.address hunspecified
      obtain ⟨hmatches, -⟩ := h.longest (h.hasLoop.1 hloop)
      rw [hresult, hids k' hk''] at hmatches
      refine ⟨_, hmatches, ?_⟩
      rw [List.length_take, Nat.min_eq_left (Nat.le_of_lt hk'')]
      exact Nat.le_of_not_lt fun hlt => hmax k hlt hk' hhits
    · exact absurd hhits (hmiss k hk hk')
  · rintro ⟨hne, hharmless⟩
    rcases longest_spec ht ha hne with ⟨k, hk, hk', hhits, hmax, hresult⟩ | ⟨hmiss, hresult⟩
    · obtain ⟨l, hl, hkl⟩ := hharmless k hk hk' hhits
      have hlk : l.length ≤ k := Nat.le_of_not_lt fun hlt => hmax _ hlt hl.length_lt.2 hl.hits
      have hself : t.Matches a (a.ids.take k) := by
        rw [← Nat.le_antisymm hlk hkl, ← hl.eq_take]
        exact hl
      refine ⟨iff_of_true ?_ ⟨_, hself⟩, fun _ => ?_, fun hnone => absurd ⟨_, hself⟩ hnone⟩
      · rw [hlmactableHasLoop_iff, hresult]
        intro hunspecified
        cases congrArg HlmacAddr.address hunspecified
      · rw [hresult, hids k hk']
        refine ⟨hself, fun l' hl' => ?_⟩
        rw [List.length_take, Nat.min_eq_left (Nat.le_of_lt hk')]
        exact Nat.le_of_not_lt fun hlt => hmax _ hlt hl'.length_lt.2 hl'.hits
    · have hnone : ¬ ∃ l, t.Matches a l := by
        rintro ⟨l, hl⟩
        exact hmiss _ hl.length_lt.1 hl.length_lt.2 hl.hits
      refine ⟨iff_of_false ?_ hnone, fun h => absurd h hnone, fun _ => hresult⟩
      rw [hlmactableHasLoop_iff, hresult]
      exact fun h => h rfl

/-- The table with the address `1`. -/
def oneEntryTable : HlmacTable := ⟨[⟨HlmacAddr.ofIds [1], 0⟩], 1⟩

theorem loopTestExact_iff_oneEntryTable :
    LoopTestExact oneEntryTable (HlmacAddr.ofIds [1, 2]) ↔
      ZerosHarmless oneEntryTable (HlmacAddr.ofIds [1, 2]) :=
  loopTestExact_iff (by decide) (by decide)

/-- For the candidate `1.0.2` the search returns `1.0`, which is not in the table. -/
theorem not_loopTestExact_zero :
    ¬ LoopTestExact oneEntryTable (HlmacAddr.ofIds [1, 0, 2]) := by
  intro h
  have hfound : hlmactableGetLongestMatchhedPrefix oneEntryTable (HlmacAddr.ofIds [1, 0, 2]) =
      HlmacAddr.ofIds [1, 0] := by decide
  have hloop : hlmactableHasLoop oneEntryTable (HlmacAddr.ofIds [1, 0, 2]) = true := by decide
  obtain ⟨⟨-, -, -, hentry⟩, -⟩ := h.longest (h.hasLoop.1 hloop)
  rw [hfound] at hentry
  revert hentry
  decide

end Den2ne
