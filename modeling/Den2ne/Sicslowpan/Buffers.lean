import Den2ne.Sicslowpan.Contexts
import Mathlib.Algebra.BigOperators.Group.Finset.Piecewise

/-!
# Storing and copying fragments

A fragment that is stored adds a new piece, and once the count has reached the size of the packet
all pieces are there, so that what is copied to `uip_buf` is the packet.
-/

namespace Den2ne.Sicslowpan

open Memory Pieces

variable {α : Type*} {cfg : Config α} {s s' : State α} {opened : ℕ → Option (Packet cfg)}
  {received : List (Packet cfg × Option ℕ)} {p : Packet cfg} {c i j k : ℕ}

/-- The pieces that the buffers of a context hold are different ones. -/
theorem exists_numbering
    (hpieces : ∀ k, s.Live c k → ∃ j < p.pieces.length, (s.buf k).offset = p.offset j ∧
      (s.buf k).len = (piece p.pieces j).length ∧ (s.buf k).data = piece p.pieces j ∧
      (p, some j) ∈ received)
    (hunique : ∀ k k', s.Live c k → s.Live c k' → (s.buf k).offset = (s.buf k').offset →
      k = k') :
    ∃ f : ℕ → ℕ, (∀ k, s.Live c k → f k < p.pieces.length ∧ (s.buf k).offset = p.offset (f k) ∧
        (s.buf k).data = piece p.pieces (f k) ∧ (p, some (f k)) ∈ received) ∧
      Set.InjOn f ((Finset.range cfg.fragmentBuffers).filter fun k => s.Live c k) ∧
      stored cfg s c = ∑ k ∈ (Finset.range cfg.fragmentBuffers).filter fun k => s.Live c k,
        (piece p.pieces (f k)).length := by
  have hnumber : ∀ k, ∃ j, s.Live c k → j < p.pieces.length ∧ (s.buf k).offset = p.offset j ∧
      (s.buf k).len = (piece p.pieces j).length ∧ (s.buf k).data = piece p.pieces j ∧
      (p, some j) ∈ received := by
    intro k
    by_cases hk : s.Live c k
    · obtain ⟨j, hj, hrest⟩ := hpieces k hk
      exact ⟨j, fun _ => ⟨hj, hrest⟩⟩
    · exact ⟨0, fun h => absurd h hk⟩
  choose f hf using hnumber
  refine ⟨f, fun k hk => ?_, fun k hk k' hk' heq => ?_, ?_⟩
  · obtain ⟨hj, hoffset, -, hdata, hmem⟩ := hf k hk
    exact ⟨hj, hoffset, hdata, hmem⟩
  · have hlive := (Finset.mem_filter.1 hk).2
    have hlive' := (Finset.mem_filter.1 hk').2
    refine hunique k k' hlive hlive' ?_
    rw [(hf k hlive).2.1, (hf k' hlive').2.1, heq]
  · rw [stored, ← Finset.sum_filter]
    exact Finset.sum_congr rfl fun k hk => (hf k (Finset.mem_filter.1 hk).2).2.2.1

/-- Once the count has reached the size, every piece is in a buffer. -/
theorem Holds.exists_buf (h : Holds s received p c)
    (hlive : ∀ k, s.Live c k → k < cfg.fragmentBuffers)
    (hsize : p.size ≤ (s.info c).reassembledLen) (hj : j < p.pieces.length) :
    (p, some j) ∈ received ∧
      ∃ k < cfg.fragmentBuffers, s.Live c k ∧ (s.buf k).offset = p.offset j ∧
        (s.buf k).data = piece p.pieces j := by
  obtain ⟨f, hf, hinj, hsum⟩ := exists_numbering h.pieces h.unique
  rw [h.count, p.size_eq, hsum] at hsize
  obtain ⟨k, hk, rfl⟩ := exists_of_le_sum p.pieces_ne
    (fun k hk => (hf k (Finset.mem_filter.1 hk).2).1) hinj (Nat.le_of_add_le_add_left hsize) hj
  have hk' := (Finset.mem_filter.1 hk).2
  obtain ⟨-, hoffset, hdata, hmem⟩ := hf k hk'
  exact ⟨hmem, k, hlive k hk', hk', hoffset, hdata⟩

/-- The state once a fragment is in a buffer and counted. -/
def storeState (s : State α) (c k offset : ℕ) (bytes : List UInt8) : State α :=
  ({ s with buf := Function.update s.buf k ⟨c, offset, bytes.length, bytes⟩ } : State α).setInfo c
    { s.info c with reassembledLen := ((s.info c).reassembledLen + bytes.length) % 65536 }

theorem live_storeState {offset : ℕ} {bytes : List UInt8} (hbytes : 0 < bytes.length)
    (hfree : (s.buf k).len = 0) (i k' : ℕ) :
    (storeState s c k offset bytes).Live i k' ↔ s.Live i k' ∨ (i = c ∧ k' = k) := by
  unfold State.Live storeState State.setInfo
  dsimp only
  by_cases hk : k' = k
  · subst hk
    rw [Function.update_self, hfree]
    dsimp only
    constructor
    · rintro ⟨-, rfl⟩
      exact Or.inr ⟨rfl, rfl⟩
    · rintro (⟨hlt, -⟩ | ⟨rfl, -⟩)
      · exact absurd hlt (Nat.lt_irrefl 0)
      · exact ⟨hbytes, rfl⟩
  · rw [Function.update_of_ne hk]
    exact ⟨Or.inl, fun h => h.elim id fun h => absurd h.2 hk⟩

theorem stored_storeState {offset : ℕ} {bytes : List UInt8} (hbytes : 0 < bytes.length)
    (hk : k < cfg.fragmentBuffers) (hfree : (s.buf k).len = 0) :
    stored cfg (storeState s c k offset bytes) c = stored cfg s c + bytes.length := by
  have hcount : (fun k' => if (storeState s c k offset bytes).Live c k' then
      ((storeState s c k offset bytes).buf k').len else 0) =
      Function.update (fun k' => if s.Live c k' then (s.buf k').len else 0) k bytes.length := by
    funext k'
    by_cases hk' : k' = k
    · subst hk'
      rw [Function.update_self, if_pos ((live_storeState hbytes hfree c k').2 (Or.inr ⟨rfl, rfl⟩))]
      simp [storeState, State.setInfo]
    · rw [Function.update_of_ne hk']
      have hbuf : (storeState s c k offset bytes).buf k' = s.buf k' := Function.update_of_ne hk' _ _
      have hiff : (storeState s c k offset bytes).Live c k' ↔ s.Live c k' := by
        rw [live_storeState hbytes hfree]
        exact ⟨fun h => h.elim id fun h => absurd h.2 hk', Or.inl⟩
      simp only [hiff, hbuf]
  have hzero : (if s.Live c k then (s.buf k).len else 0) = 0 := by
    rw [hfree]
    exact ite_self 0
  unfold stored
  rw [hcount, Finset.sum_update_of_mem (Finset.mem_range.2 hk),
    ← Finset.sum_sdiff (Finset.singleton_subset_iff.2 (Finset.mem_range.2 hk)),
    Finset.sum_singleton, hzero]
  omega

/-- A new piece in a buffer of its context. -/
theorem Holds.add (h : Holds s received p c) (hj : j < p.pieces.length)
    (hnew : ∀ k, s.Live c k → (s.buf k).offset ≠ p.offset j) (hk : k < cfg.fragmentBuffers)
    (hfree : (s.buf k).len = 0) :
    Holds (storeState s c k (p.offset j) (piece p.pieces j)) ((p, some j) :: received) p c := by
  have hpos := length_piece_pos p.pieces_ne hj
  have hinfo : (storeState s c k (p.offset j) (piece p.pieces j)).info c = { s.info c with
      reassembledLen := ((s.info c).reassembledLen + (piece p.pieces j).length) % 65536 } :=
    Function.update_self _ _ _
  have hself : (storeState s c k (p.offset j) (piece p.pieces j)).buf k =
      ⟨c, p.offset j, (piece p.pieces j).length, piece p.pieces j⟩ := Function.update_self _ _ _
  have hother {k' : ℕ} (hk' : s.Live c k') :
      (storeState s c k (p.offset j) (piece p.pieces j)).buf k' = s.buf k' := by
    refine Function.update_of_ne ?_ _ _
    rintro rfl
    exact absurd hk'.1 (by rw [hfree]; exact Nat.lt_irrefl 0)
  have hpieces : ∀ k', (storeState s c k (p.offset j) (piece p.pieces j)).Live c k' →
      ∃ j' < p.pieces.length,
        ((storeState s c k (p.offset j) (piece p.pieces j)).buf k').offset = p.offset j' ∧
        ((storeState s c k (p.offset j) (piece p.pieces j)).buf k').len =
          (piece p.pieces j').length ∧
        ((storeState s c k (p.offset j) (piece p.pieces j)).buf k').data = piece p.pieces j' ∧
        (p, some j') ∈ (p, some j) :: received := by
    intro k' hk'
    rcases (live_storeState hpos hfree c k').1 hk' with hlive | ⟨-, rfl⟩
    · obtain ⟨j', hj', hoffset, hlen, hdata, hmem⟩ := h.pieces k' hlive
      rw [hother hlive]
      exact ⟨j', hj', hoffset, hlen, hdata, List.mem_cons_of_mem _ hmem⟩
    · rw [hself]
      exact ⟨j, hj, rfl, rfl, rfl, List.mem_cons_self⟩
  have hunique : ∀ k₁ k₂, (storeState s c k (p.offset j) (piece p.pieces j)).Live c k₁ →
      (storeState s c k (p.offset j) (piece p.pieces j)).Live c k₂ →
      ((storeState s c k (p.offset j) (piece p.pieces j)).buf k₁).offset =
        ((storeState s c k (p.offset j) (piece p.pieces j)).buf k₂).offset → k₁ = k₂ := by
    intro k₁ k₂ hk₁ hk₂ heq
    rcases (live_storeState hpos hfree c k₁).1 hk₁ with hlive₁ | ⟨-, rfl⟩
    · rcases (live_storeState hpos hfree c k₂).1 hk₂ with hlive₂ | ⟨-, rfl⟩
      · rw [hother hlive₁, hother hlive₂] at heq
        exact h.unique k₁ k₂ hlive₁ hlive₂ heq
      · rw [hother hlive₁, hself] at heq
        exact absurd heq (hnew k₁ hlive₁)
    · rcases (live_storeState hpos hfree c k₂).1 hk₂ with hlive₂ | ⟨-, rfl⟩
      · rw [hother hlive₂, hself] at heq
        exact absurd heq.symm (hnew k₂ hlive₂)
      · rfl
  refine ⟨List.mem_cons_of_mem _ h.received_first, ?_, ?_, ?_, ?_, ?_, hpieces, hunique, ?_⟩
  · rw [hinfo]
    exact h.sender
  · rw [hinfo]
    exact h.tag
  · rw [hinfo]
    exact h.len
  · rw [hinfo]
    exact h.firstFragLen
  · rw [hinfo]
    exact h.firstFrag
  · -- All pieces together are shorter than a packet can be, so that the counter does not wrap.
    obtain ⟨f, hf, hinj, hsum⟩ := exists_numbering hpieces hunique
    have hle := sum_le (fun k' hk' => (hf k' (Finset.mem_filter.1 hk').2).1) hinj
    have hsize := p.size_lt_2048
    rw [p.size_eq] at hsize
    rw [← hsum, stored_storeState hpos hk hfree] at hle
    rw [hinfo, stored_storeState hpos hk hfree]
    dsimp only
    rw [h.count, Nat.mod_eq_of_lt (by omega), Nat.add_assoc]

theorem Inv.add (h : Inv s opened received) (hopened : opened c = some p)
    (hlen : 0 < (s.info c).len) (hc : c < cfg.reassContexts) (hj : j < p.pieces.length)
    (hnew : ∀ k, s.Live c k → (s.buf k).offset ≠ p.offset j) (hk : k < cfg.fragmentBuffers)
    (hfree : (s.buf k).len = 0) :
    Inv (storeState s c k (p.offset j) (piece p.pieces j)) opened ((p, some j) :: received) := by
  have hpos := length_piece_pos p.pieces_ne hj
  have hlens (i : ℕ) : ((storeState s c k (p.offset j) (piece p.pieces j)).info i).len =
      (s.info i).len := by
    by_cases hi : i = c
    · subst hi
      simp [storeState, State.setInfo]
    · exact congrArg FragInfo.len (Function.update_of_ne hi _ _)
  constructor
  · intro i hi
    rw [hlens] at hi
    obtain ⟨p', hp', hholds⟩ := h.holds i hi
    by_cases hic : i = c
    · subst hic
      obtain rfl := Option.some.inj (hopened.symm.trans hp')
      exact ⟨p, hopened, hholds.add hj hnew hk hfree⟩
    · refine ⟨p', hp', hholds.of_same (fun k' => ?_) ⟨(s.info i).expired, ?_⟩
        (List.subset_cons_self _ _)⟩
      · refine ⟨?_, fun hlive => ?_⟩
        · rw [live_storeState hpos hfree]
          exact ⟨fun h => h.elim id fun h => absurd h.1 hic, Or.inl⟩
        · refine Function.update_of_ne ?_ _ _
          rintro rfl
          exact absurd hlive.1 (by rw [hfree]; exact Nat.lt_irrefl 0)
      · exact Function.update_of_ne hic _ _
  · intro i k' hk'
    rw [hlens]
    rcases (live_storeState hpos hfree i k').1 hk' with hlive | ⟨rfl, rfl⟩
    · exact h.live i k' hlive
    · exact ⟨hc, hk, hlen⟩

/-! ## Copying -/

/-- The fragments are copied over what is there; if the data agree with `P` so does the result,
where it did before and where there is a fragment. -/
theorem copyBufs_spec (P : ℕ → UInt8)
    (hdata : ∀ k, s.Live c k → ∀ x < ((s.buf k).data.take (s.buf k).len).length,
      ((s.buf k).data.take (s.buf k).len)[x]? = some (P ((s.buf k).offset * 8 + x)))
    (ks : List ℕ) {m m' : ℕ → UInt8} (h : copyBufs cfg s c ks m = (true, m')) (x : ℕ)
    (hx : m x = P x ∨ ∃ k ∈ ks, s.Live c k ∧ (s.buf k).offset * 8 ≤ x ∧
      x < (s.buf k).offset * 8 + ((s.buf k).data.take (s.buf k).len).length) : m' x = P x := by
  induction ks generalizing m with
  | nil =>
      obtain ⟨-, rfl⟩ := Prod.mk.inj h
      refine hx.elim id ?_
      rintro ⟨k, hk, -⟩
      cases hk
  | cons k ks ih =>
      rw [copyBufs] at h
      by_cases hk : s.Live c k
      · rw [if_pos hk] at h
        split at h
        · cases (Prod.mk.inj h).1
        · refine ih h ?_
          by_cases hin : (s.buf k).offset * 8 ≤ x ∧
              x < (s.buf k).offset * 8 + ((s.buf k).data.take (s.buf k).len).length
          · obtain ⟨hle, hlt⟩ := hin
            have hget := hdata k hk (x - (s.buf k).offset * 8) (by omega)
            rw [Nat.add_sub_cancel' hle] at hget
            refine Or.inl ?_
            rw [store_of_ge hle, hget]
            rfl
          · have hout : store m ((s.buf k).offset * 8) ((s.buf k).data.take (s.buf k).len) x =
                m x := store_of_outside (by omega)
            rw [hout]
            refine hx.imp_right ?_
            rintro ⟨k', hmem, hlive, hrange⟩
            rcases List.mem_cons.1 hmem with rfl | hmem
            · exact absurd hrange hin
            · exact ⟨k', hmem, hlive, hrange⟩
      · rw [if_neg hk] at h
        refine ih h (hx.imp_right ?_)
        rintro ⟨k', hmem, hlive, hrange⟩
        rcases List.mem_cons.1 hmem with rfl | hmem
        · exact absurd hlive hk
        · exact ⟨k', hmem, hlive, hrange⟩

/-- A piece in the packet. -/
theorem Packet.getElem?_bytes (p : Packet cfg) (hj : j < p.pieces.length) {x : ℕ}
    (hx : x < (piece p.pieces j).length) :
    p.bytes[p.offset j * 8 + x]? = (piece p.pieces j)[x]? := by
  rw [p.offset_mul hj, Nat.add_assoc, Packet.bytes,
    List.getElem?_append_right (Nat.le_add_right _ _), Nat.add_sub_cancel_left,
    getElem?_start hj hx]

/-- What `copy_frags2uip` hands over once all pieces are there is the packet. -/
theorem Holds.copyFrags2uip (h : Holds s received p c)
    (hall : ∀ j < p.pieces.length, ∃ k < cfg.fragmentBuffers, s.Live c k ∧
      (s.buf k).offset = p.offset j ∧ (s.buf k).data = piece p.pieces j)
    (hbuf : s'.buf = s.buf) {r : ℕ}
    (hinfo : s'.info c = { s.info c with reassembledLen := r }) :
    ∃ m, (copyFrags2uip cfg c s').2 = clearFragments c { s' with uip := m } ∧
      ((copyFrags2uip cfg c s').1 = true → load m 0 p.size = p.bytes) := by
  unfold Sicslowpan.copyFrags2uip
  rw [hinfo]
  dsimp only
  rw [h.len, h.firstFragLen, h.firstFrag]
  split
  · exact ⟨s'.uip, rfl, fun h => Bool.noConfusion h⟩
  · generalize hm : store (store s'.uip 0 p.head) p.head.length
      (List.replicate (p.size - p.head.length) 0) = m
    cases hcopy : copyBufs cfg s' c (List.range cfg.fragmentBuffers) m with
    | mk copied m' =>
        refine ⟨m', rfl, fun hcopied => ?_⟩
        obtain rfl : copied = true := hcopied
        have hsame := SameBufs.of_eq hbuf c
        have hstored {k : ℕ} (hk : s.Live c k) : ∃ j < p.pieces.length,
            (s.buf k).offset = p.offset j ∧
              (s.buf k).data.take (s.buf k).len = piece p.pieces j := by
          obtain ⟨j, hj, hoffset, hlen, hdata, -⟩ := h.pieces k hk
          rw [hlen, hdata, List.take_length]
          exact ⟨j, hj, hoffset, rfl⟩
        have hbytes (x : ℕ) (hx : x < p.size) : p.bytes[x]? = some (p.bytes.getD x 0) := by
          rw [List.getD_eq_getElem?_getD, List.getElem?_eq_getElem hx]
          rfl
        have hagree : ∀ x < p.size, m' x = p.bytes.getD x 0 := by
          intro x hx
          refine copyBufs_spec (fun x => p.bytes.getD x 0) (fun k hk y hy => ?_) _ hcopy x ?_
          · obtain ⟨j, hj, hoffset, hdata⟩ := hstored ((hsame k).1.1 hk)
            rw [hbuf] at hy ⊢
            rw [hdata] at hy ⊢
            have hget := p.getElem?_bytes hj hy
            rw [← hget, hoffset, hbytes]
            have hlt := (List.getElem?_eq_some_iff.1 (hget.trans (List.getElem?_eq_getElem hy))).1
            exact hlt
          · by_cases hhead : x < p.head.length
            · refine Or.inl ?_
              rw [← hm, store_of_lt hhead, store_of_ge (Nat.zero_le x), Nat.sub_zero,
                List.getD_eq_getElem?_getD, Packet.bytes, List.getElem?_append_left hhead,
                List.getElem?_eq_getElem hhead]
              rfl
            · rw [p.size_eq] at hx
              have hrest : x - p.head.length < p.pieces.flatten.length := by omega
              obtain ⟨j, hj, hle, hlt⟩ := exists_piece hrest
              obtain ⟨k, hk, hlive, hoffset, hdata⟩ := hall j hj
              have hmul := p.offset_mul hj
              refine Or.inr ⟨k, List.mem_range.2 hk, (hsame k).1.2 hlive, ?_⟩
              obtain ⟨j', hj', hoffset', hdata'⟩ := hstored hlive
              obtain rfl := p.offset_inj hj hj' (hoffset.symm.trans hoffset')
              rw [hbuf, hdata', hoffset, hmul]
              exact ⟨by omega, by omega⟩
        refine List.ext_getElem? fun x => ?_
        by_cases hx : x < p.size
        · rw [getElem?_load hx, Nat.zero_add, hagree x hx, hbytes x hx]
        · have hle := Nat.le_of_not_lt hx
          rw [List.getElem?_eq_none (by rwa [length_load]), List.getElem?_eq_none hle]

end Den2ne.Sicslowpan
