import Den2ne.Sicslowpan.Frames

/-!
# What the contexts hold

`Inv` says what is known of a context that is in use: the packet that has opened it, and that its
buffers hold different pieces of this packet, so that `reassembled_len` is the number of bytes that
were received. Clearing contexts keeps it.
-/

namespace Den2ne.Sicslowpan

open Memory Pieces

variable {α : Type*} {cfg : Config α}

/-- The bytes in the buffers of a context. -/
def stored (cfg : Config α) (s : State α) (c : ℕ) : ℕ :=
  ∑ k ∈ Finset.range cfg.fragmentBuffers, if s.Live c k then (s.buf k).len else 0

/-- The context `c` reassembles the packet `p`. -/
structure Holds (s : State α) (received : List (Packet cfg × Option ℕ)) (p : Packet cfg)
    (c : ℕ) : Prop where
  received_first : (p, none) ∈ received
  sender : (s.info c).sender = p.sender
  tag : (s.info c).tag = p.tag
  len : (s.info c).len = p.size
  firstFragLen : (s.info c).firstFragLen = p.head.length
  firstFrag : load (s.info c).firstFrag 0 p.head.length = p.head
  pieces : ∀ k, s.Live c k → ∃ j < p.pieces.length, (s.buf k).offset = p.offset j ∧
    (s.buf k).len = (piece p.pieces j).length ∧ (s.buf k).data = piece p.pieces j ∧
    (p, some j) ∈ received
  unique : ∀ k k', s.Live c k → s.Live c k' → (s.buf k).offset = (s.buf k').offset → k = k'
  count : (s.info c).reassembledLen = p.head.length + stored cfg s c

/-- Every context that is in use reassembles the packet that has opened it, and every buffer that
is in use belongs to such a context. -/
structure Inv (s : State α) (opened : ℕ → Option (Packet cfg))
    (received : List (Packet cfg × Option ℕ)) : Prop where
  holds : ∀ c, 0 < (s.info c).len → ∃ p, opened c = some p ∧ Holds s received p c
  live : ∀ c k, s.Live c k → c < cfg.reassContexts ∧ k < cfg.fragmentBuffers ∧ 0 < (s.info c).len

variable {s s' : State α} {opened opened' : ℕ → Option (Packet cfg)}
  {received received' : List (Packet cfg × Option ℕ)} {p : Packet cfg} {c i k : ℕ}

/-- The buffers of a context are the same in both states. -/
def SameBufs (s s' : State α) (c : ℕ) : Prop :=
  ∀ k, (s'.Live c k ↔ s.Live c k) ∧ (s.Live c k → s'.buf k = s.buf k)

theorem SameBufs.of_eq (h : s'.buf = s.buf) (c : ℕ) : SameBufs s s' c := fun k => by
  unfold State.Live
  rw [h]
  exact ⟨Iff.rfl, fun _ => rfl⟩

theorem SameBufs.trans {s'' : State α} (h : SameBufs s s' c) (h' : SameBufs s' s'' c) :
    SameBufs s s'' c := fun k =>
  ⟨(h' k).1.trans (h k).1, fun hk => ((h' k).2 ((h k).1.2 hk)).trans ((h k).2 hk)⟩

theorem SameBufs.stored (h : SameBufs s s' c) : stored cfg s' c = stored cfg s c := by
  refine Finset.sum_congr rfl fun k _ => ?_
  by_cases hk : s.Live c k
  · rw [if_pos hk, if_pos ((h k).1.2 hk), (h k).2 hk]
  · rw [if_neg hk, if_neg fun hk' => hk ((h k).1.1 hk')]

/-- Neither the other contexts nor the timers matter, and more may have been received. -/
theorem Holds.of_same (h : Holds s received p c) (hbufs : SameBufs s s' c)
    (hinfo : ∃ e, s'.info c = { s.info c with expired := e })
    (hreceived : received ⊆ received') : Holds s' received' p c := by
  obtain ⟨e, he⟩ := hinfo
  constructor
  · exact hreceived h.received_first
  · rw [he]
    exact h.sender
  · rw [he]
    exact h.tag
  · rw [he]
    exact h.len
  · rw [he]
    exact h.firstFragLen
  · rw [he]
    exact h.firstFrag
  · intro k hk
    have hk' := (hbufs k).1.1 hk
    obtain ⟨j, hj, hoffset, hlen, hdata, hmem⟩ := h.pieces k hk'
    rw [(hbufs k).2 hk']
    exact ⟨j, hj, hoffset, hlen, hdata, hreceived hmem⟩
  · intro k k' hk hk' heq
    have hk₁ := (hbufs k).1.1 hk
    have hk₂ := (hbufs k').1.1 hk'
    rw [(hbufs k).2 hk₁, (hbufs k').2 hk₂] at heq
    exact h.unique k k' hk₁ hk₂ heq
  · rw [he, hbufs.stored]
    exact h.count

theorem Inv.of_same (h : Inv s opened received) (hbuf : s'.buf = s.buf)
    (hinfo : ∀ c, ∃ e, s'.info c = { s.info c with expired := e })
    (hreceived : received ⊆ received') : Inv s' opened received' := by
  have hlen (c : ℕ) : (s'.info c).len = (s.info c).len := by
    obtain ⟨e, he⟩ := hinfo c
    rw [he]
  constructor
  · intro c hc
    rw [hlen] at hc
    obtain ⟨p, hp, hholds⟩ := h.holds c hc
    exact ⟨p, hp, hholds.of_same (SameBufs.of_eq hbuf c) (hinfo c) hreceived⟩
  · intro c k hk
    rw [hlen]
    exact h.live c k (((SameBufs.of_eq hbuf c) k).1.1 hk)

/-! ## Clearing -/

theorem info_clearFragments (h : i ≠ c) (s : State α) :
    (clearFragments c s).info i = s.info i := Function.update_of_ne h _ _

theorem len_clearFragments (c : ℕ) (s : State α) : ((clearFragments c s).info c).len = 0 := by
  simp [clearFragments, State.setInfo]

theorem not_live_clearFragments (c k : ℕ) (s : State α) : ¬ (clearFragments c s).Live c k := by
  unfold State.Live clearFragments
  dsimp only
  split
  · rintro ⟨hlen, -⟩
    exact absurd hlen (Nat.lt_irrefl 0)
  · assumption

theorem sameBufs_clearFragments (h : i ≠ c) (s : State α) :
    SameBufs s (clearFragments c s) i := by
  intro k
  by_cases hk : s.Live c k
  · have hi : ¬ s.Live i k := fun hi => h (hi.2.symm.trans hk.2)
    have hbuf : (clearFragments c s).buf k = { s.buf k with len := 0 } := if_pos hk
    refine ⟨iff_of_false ?_ hi, fun h => absurd h hi⟩
    unfold State.Live
    rw [hbuf]
    exact fun h => absurd h.1 (Nat.lt_irrefl 0)
  · have hbuf : (clearFragments c s).buf k = s.buf k := if_neg hk
    unfold State.Live
    rw [hbuf]
    exact ⟨Iff.rfl, fun _ => rfl⟩

/-- A context is cleared, whatever was last written to it. -/
theorem Inv.clear (h : Inv s opened received) (hbuf : s'.buf = s.buf)
    (hinfo : ∀ i, i ≠ c → s'.info i = s.info i) (hopened : ∀ i, i ≠ c → opened' i = opened i)
    (hreceived : received ⊆ received') : Inv (clearFragments c s') opened' received' := by
  constructor
  · intro i hi
    have hne : i ≠ c := by
      rintro rfl
      exact absurd hi (by rw [len_clearFragments]; exact Nat.lt_irrefl 0)
    rw [info_clearFragments hne, hinfo i hne] at hi
    obtain ⟨p, hp, hholds⟩ := h.holds i hi
    have hbufs := (SameBufs.of_eq hbuf i).trans (sameBufs_clearFragments hne s')
    refine ⟨p, (hopened i hne).trans hp, hholds.of_same hbufs ?_ hreceived⟩
    exact ⟨(s.info i).expired, (info_clearFragments hne s').trans (hinfo i hne)⟩
  · intro i k hk
    have hne : i ≠ c := by
      rintro rfl
      exact not_live_clearFragments i k s' hk
    have hbufs := (SameBufs.of_eq hbuf i).trans (sameBufs_clearFragments hne s')
    rw [info_clearFragments hne, hinfo i hne]
    exact h.live i k ((hbufs k).1.1 hk)

theorem Inv.clearFragments (h : Inv s opened received) (c : ℕ) :
    Inv (clearFragments c s) opened received :=
  h.clear rfl (fun _ _ => rfl) (fun _ _ => rfl) (List.Subset.refl _)

/-- What a context that has expired keeps when it is cleared. -/
theorem expire_spec (i : ℕ) (h : Inv s opened received)
    (hs' : s' = if 0 < (s.info i).len ∧ (s.info i).expired = true then clearFragments i s
      else s) :
    Inv s' opened received ∧
      (∀ c, (s'.info c).firstFrag = (s.info c).firstFrag ∧
        (s'.info c).expired = (s.info c).expired ∧
        ((s.info c).len = 0 → (s'.info c).len = 0) ∧
        ((s'.info c).len = 0 → (s.info c).len = 0 ∨ (s.info c).expired = true)) ∧
      ((s.info i).expired = true → (s'.info i).len = 0) := by
  by_cases hi : 0 < (s.info i).len ∧ (s.info i).expired = true
  · rw [if_pos hi] at hs'
    subst hs'
    refine ⟨h.clearFragments i, fun c => ?_, fun _ => len_clearFragments i s⟩
    by_cases hc : c = i
    · subst hc
      refine ⟨?_, ?_, fun _ => len_clearFragments c s, fun _ => Or.inr hi.2⟩
      · simp [clearFragments, State.setInfo]
      · simp [clearFragments, State.setInfo]
    · rw [info_clearFragments hc]
      exact ⟨rfl, rfl, id, Or.inl⟩
  · rw [if_neg hi] at hs'
    subst hs'
    refine ⟨h, fun c => ⟨rfl, rfl, id, Or.inl⟩, fun he => ?_⟩
    exact Nat.eq_zero_of_not_pos fun hpos => hi ⟨hpos, he⟩

/-- The context that `freeContext` finds, and what is left of the contexts. -/
theorem freeContext_spec (is : List ℕ) (found : Option ℕ) (h : Inv s opened received) :
    (freeContext is found s).1 = found.or
        (is.find? fun c => (s.info c).len = 0 ∨ (s.info c).expired = true) ∧
      Inv (freeContext is found s).2 opened received ∧
      (∀ c, ((freeContext is found s).2.info c).firstFrag = (s.info c).firstFrag) ∧
      (∀ c, (s.info c).len = 0 → ((freeContext is found s).2.info c).len = 0) ∧
      ∀ c ∈ is, (s.info c).expired = true → ((freeContext is found s).2.info c).len = 0 := by
  induction is generalizing found s with
  | nil =>
      refine ⟨?_, h, fun _ => rfl, fun _ => id, fun c hc => ?_⟩
      · rw [List.find?_nil, Option.or_none]
        rfl
      · cases hc
  | cons i is ih =>
      rw [freeContext]
      generalize hs' : (if 0 < (s.info i).len ∧ (s.info i).expired = true then
        clearFragments i s else s) = s'
      obtain ⟨hinv, hinfo, hexpired⟩ := expire_spec i h hs'.symm
      obtain ⟨h₁, h₂, h₃, h₄, h₅⟩ := ih
        (if found = none ∧ (s'.info i).len = 0 then some i else found) hinv
      have hiff (c : ℕ) : ((s'.info c).len = 0 ∨ (s'.info c).expired = true) ↔
          ((s.info c).len = 0 ∨ (s.info c).expired = true) := by
        obtain ⟨-, he, hzero, hzero'⟩ := hinfo c
        rw [he]
        exact ⟨fun h => h.elim hzero' Or.inr, fun h => h.imp_left hzero⟩
      refine ⟨?_, h₂, fun c => (h₃ c).trans (hinfo c).1,
        fun c hc => h₄ c ((hinfo c).2.2.1 hc), fun c hc he => ?_⟩
      · rw [h₁]
        simp only [hiff]
        cases found with
        | some c =>
            rw [if_neg fun h => Option.some_ne_none c h.1]
            rfl
        | none =>
            by_cases hi : (s.info i).len = 0 ∨ (s.info i).expired = true
            · have hzero : (s'.info i).len = 0 := hi.elim (hinfo i).2.2.1 hexpired
              rw [if_pos ⟨rfl, hzero⟩, List.find?_cons_of_pos (by simpa using hi)]
              rfl
            · have hne : ¬ (s'.info i).len = 0 := fun hzero => hi ((hinfo i).2.2.2 hzero)
              rw [if_neg fun h => hne h.2, List.find?_cons_of_neg (by simpa using hi)]
      · rcases List.mem_cons.1 hc with rfl | hmem
        · exact h₄ c (hexpired he)
        · exact h₅ c hmem ((hinfo c).2.1.trans he)

variable (cfg) in
/-- `timeout_fragments` leaves the context `c` alone. If it clears a buffer, this is one of another
context that has expired. -/
theorem timeoutFragments_spec (c : ℕ) (is : List ℕ) (h : Inv s opened received) :
    Inv (timeoutFragments cfg c is s).2 opened received ∧
      (timeoutFragments cfg c is s).2.info c = s.info c ∧
      SameBufs s (timeoutFragments cfg c is s).2 c ∧
      (0 < (timeoutFragments cfg c is s).1 →
        ∃ i ∈ is, i ≠ c ∧ (s.info i).expired = true ∧ ∃ k < cfg.fragmentBuffers, s.Live i k) := by
  induction is generalizing s with
  | nil =>
      refine ⟨h, rfl, SameBufs.of_eq rfl c, fun hpos => absurd hpos (Nat.lt_irrefl 0)⟩
  | cons i is ih =>
      rw [timeoutFragments]
      by_cases hi : 0 < (s.info i).len ∧ i ≠ c ∧ (s.info i).expired = true
      · obtain ⟨h₁, h₂, h₃, h₄⟩ := ih (h.clearFragments i)
        rw [if_pos hi]
        refine ⟨h₁, h₂.trans (info_clearFragments hi.2.1.symm s),
          (sameBufs_clearFragments hi.2.1.symm s).trans h₃, fun hpos => ?_⟩
        by_cases hcount : 0 < clearCount cfg i s
        · obtain ⟨k, hk, hlive⟩ := List.countP_pos_iff.1 hcount
          exact ⟨i, List.mem_cons_self, hi.2.1, hi.2.2, k, List.mem_range.1 hk,
            of_decide_eq_true hlive⟩
        · obtain ⟨i', hmem, hne, hexpired, k, hk, hlive⟩ := h₄ (Nat.pos_of_ne_zero fun hzero => by
            have hsum : clearCount cfg i s +
                (timeoutFragments cfg c is (clearFragments i s)).1 = 0 := by omega
            exact absurd hpos (Nat.not_lt.2 (Nat.le_of_eq hsum)))
          have hi' : i' ≠ i := by
            rintro rfl
            exact not_live_clearFragments i' k s hlive
          rw [info_clearFragments hi'] at hexpired
          exact ⟨i', List.mem_cons_of_mem i hmem, hne, hexpired, k, hk,
            (sameBufs_clearFragments hi' s k).1.1 hlive⟩
      · rw [if_neg hi]
        obtain ⟨h₁, h₂, h₃, h₄⟩ := ih h
        refine ⟨h₁, h₂, h₃, fun hpos => ?_⟩
        obtain ⟨i', hmem, hrest⟩ := h₄ hpos
        exact ⟨i', List.mem_cons_of_mem i hmem, hrest⟩

end Den2ne.Sicslowpan
