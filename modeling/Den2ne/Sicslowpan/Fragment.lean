import Den2ne.Sicslowpan.Buffers

/-!
# A fragment arrives

What `input` does with a first fragment and with another one: both keep what is known of the
contexts, and a packet that is handed to the IP layer is the one that was sent.
-/

namespace Den2ne.Sicslowpan

open Memory Pieces

variable {α : Type*} [DecidableEq α] {cfg : Config α} {s : State α}
  {opened : ℕ → Option (Packet cfg)} {received : List (Packet cfg × Option ℕ)} {p : Packet cfg}
  {c j : ℕ}

/-! ## A first fragment -/

theorem input_frag1 (p : Packet cfg) (junk : ℕ → UInt8) (s : State α) :
    input cfg (p.frag1 junk) s = (inputFrag1 cfg (p.frag1 junk) s, none) := by
  have hlen := p.frag1_datalen junk
  rw [input, if_neg (by omega), if_pos (p.isFrag1 junk)]

/-- The context that is found is opened. -/
def openContext (found : ℕ) (f : Frame α) (tag fragSize : ℕ) (s : State α) : State α :=
  s.setInfo found { s.info found with
    len := fragSize
    tag := tag
    sender := f.sender
    expired := false }

theorem addFragment_zero (f : Frame α) (tag fragSize : ℕ) (s : State α) :
    addFragment cfg f tag fragSize 0 s =
      ((freeContext (List.range cfg.reassContexts) none s).1,
        (freeContext (List.range cfg.reassContexts) none s).1.elim
          (freeContext (List.range cfg.reassContexts) none s).2
          fun c => openContext c f tag fragSize
            (freeContext (List.range cfg.reassContexts) none s).2) := by
  rw [addFragment, if_pos rfl]
  generalize freeContext (List.range cfg.reassContexts) none s = result
  obtain ⟨found, s'⟩ := result
  cases found with
  | none => rfl
  | some c => rfl

omit [DecidableEq α] in
/-- The context `c`, which is free, is opened with the head. -/
theorem Inv.first (h : Inv s opened received) (hfree : (s.info c).len = 0) {s' : State α}
    {m : ℕ → UInt8} (hbuf : s'.buf = s.buf) (hinfo : ∀ i, i ≠ c → s'.info i = s.info i)
    (hself : s'.info c =
      ⟨p.sender, p.tag, p.size, p.head.length, false, p.head.length, m⟩)
    (hm : load m 0 p.head.length = p.head) :
    Inv s' (fun i => if some c = some i then some p else opened i) ((p, none) :: received) := by
  have hnone (k : ℕ) : ¬ s.Live c k := fun hk =>
    absurd (h.live c k hk).2.2 (by rw [hfree]; exact Nat.lt_irrefl 0)
  have hlive (i k : ℕ) : s'.Live i k ↔ s.Live i k := ((SameBufs.of_eq hbuf i) k).1
  constructor
  · intro i hi
    by_cases hic : i = c
    · subst hic
      refine ⟨p, if_pos rfl, List.mem_cons_self, ?_, ?_, ?_, ?_, ?_, ?_, ?_, ?_⟩
      · rw [hself]
      · rw [hself]
      · rw [hself]
      · rw [hself]
      · rw [hself]
        exact hm
      · exact fun k hk => absurd ((hlive i k).1 hk) (hnone k)
      · exact fun k _ hk => absurd ((hlive i k).1 hk) (hnone k)
      · have hzero : stored cfg s' i = 0 :=
          Finset.sum_eq_zero fun k _ => if_neg fun hk => hnone k ((hlive i k).1 hk)
        rw [hself, hzero]
        rfl
    · rw [hinfo i hic] at hi
      obtain ⟨p', hp', hholds⟩ := h.holds i hi
      refine ⟨p', ?_, hholds.of_same (SameBufs.of_eq hbuf i) ⟨(s.info i).expired, hinfo i hic⟩
        (List.subset_cons_self _ _)⟩
      rw [if_neg fun heq => hic (Option.some.inj heq).symm]
      exact hp'
  · intro i k hk
    obtain ⟨hi, hk', hlen⟩ := h.live i k ((hlive i k).1 hk)
    have hic : i ≠ c := by
      rintro rfl
      exact hnone k ((hlive i k).1 hk)
    rw [hinfo i hic]
    exact ⟨hi, hk', hlen⟩

/-- A first fragment opens a context, or clears it again. -/
theorem inputFrag1_inv (h : Inv s opened received) (junk : ℕ → UInt8)
    (hkeep : ∀ c, free cfg s = some c →
      Uncompressed cfg (p.frag1 junk) p.size (s.info c).firstFrag) :
    Inv (inputFrag1 cfg (p.frag1 junk) s)
      (fun c => if (freeContext (List.range cfg.reassContexts) none s).1 = some c then some p
        else opened c) ((p, none) :: received) := by
  obtain ⟨hfound, hinv, hfirst, hzero, hexpired⟩ :=
    freeContext_spec (List.range cfg.reassContexts) none h
  rw [Option.none_or] at hfound
  unfold inputFrag1
  rw [p.frag1_size, p.frag1_tag]
  dsimp only
  rw [addFragment_zero]
  generalize freeContext (List.range cfg.reassContexts) none s = result at *
  obtain ⟨found, s₁⟩ := result
  dsimp only at hfound hinv hfirst hzero hexpired ⊢
  cases found with
  | none => exact hinv.of_same rfl (fun c => ⟨(s₁.info c).expired, rfl⟩) (List.subset_cons_self _ _)
  | some c =>
      have hfree : free cfg s = some c := hfound.symm
      have hlen : (s₁.info c).len = 0 := by
        have hc := List.find?_some hfree
        exact (of_decide_eq_true hc).elim (hzero c) (hexpired c (List.mem_of_find?_eq_some hfree))
      obtain ⟨hdet, m', uncomp, hdrLen, hheaders, hle, hfits⟩ := hkeep c hfree
      dsimp only [Option.elim_some]
      have hm : ((openContext c (p.frag1 junk) p.tag p.size s₁).info c).firstFrag =
          (s.info c).firstFrag := by
        rw [← hfirst c]
        simp [openContext, State.setInfo]
      rw [hm, hheaders]
      dsimp only
      rw [if_neg (Nat.not_lt.2 hle)]
      split
      · refine hinv.clear rfl (fun i hi => ?_) (fun i hi => ?_) (List.subset_cons_self _ _)
        · simp [openContext, State.setInfo, hi]
        · rw [if_neg fun heq => hi (Option.some.inj heq).symm]
      · rename_i hroom
        have hpayload : load (p.frag1 junk).data hdrLen ((p.frag1 junk).datalen - hdrLen) =
            (fragHeader 0xC0 p.size p.tag ++ p.first).drop hdrLen := load_frame hdrLen
        have hhead : load m' 0 uncomp ++
            load (p.frag1 junk).data hdrLen ((p.frag1 junk).datalen - hdrLen) = p.head := by
          rw [hpayload]
          exact p.head_eq hdet hheaders hle
        have hlength : uncomp + ((p.frag1 junk).datalen - hdrLen) = p.head.length := by
          rw [← hhead, List.length_append, length_load, length_load]
        rw [if_neg (by omega), if_pos p.size_pos, hlength]
        refine hinv.first hlen (m := store m' uncomp
          (load (p.frag1 junk).data hdrLen ((p.frag1 junk).datalen - hdrLen))) rfl
          (fun i hi => ?_) ?_ ?_
        · simp [openContext, State.setInfo, hi]
        · simp only [openContext, State.setInfo, Function.update_self]
          rfl
        · have hstored := load_store m' uncomp
            (load (p.frag1 junk).data hdrLen ((p.frag1 junk).datalen - hdrLen))
          rw [length_load] at hstored
          rw [← hlength, load_add, Nat.zero_add, hstored,
            load_store_of_disjoint (Or.inl (Nat.le_of_eq (Nat.zero_add uncomp)))]
          exact hhead

/-! ## Another fragment -/

theorem input_fragN (p : Packet cfg) (j : ℕ) (junk : ℕ → UInt8) (s : State α) :
    input cfg (p.fragN j junk) s = inputFragN cfg (p.fragN j junk) s := by
  have hlen := p.fragN_datalen j junk
  rw [input, if_neg (by omega), if_neg (p.not_isFrag1 j junk), if_pos (p.isFragN j junk)]

omit [DecidableEq α] in
theorem storeFragment_spec {junk : ℕ → UInt8} {s' : State α}
    (h : storeFragment cfg (p.fragN j junk) c (p.offset j) s = some s') :
    (piece p.pieces j).length ≤ cfg.fragmentSize ∧ ∃ k < cfg.fragmentBuffers,
      (s.buf k).len = 0 ∧
        s'.setInfo c { s'.info c with reassembledLen :=
            ((s'.info c).reassembledLen + ((p.fragN j junk).datalen - 5)) % 65536 } =
          storeState s c k (p.offset j) (piece p.pieces j) := by
  have hlen : (p.fragN j junk).datalen - 5 = (piece p.pieces j).length := by
    rw [p.fragN_datalen, Nat.add_sub_cancel]
  have hdata := p.load_fragN j junk
  rw [hlen] at hdata
  unfold storeFragment at h
  rw [hlen] at h
  dsimp only at h
  rw [hdata] at h
  split at h
  · cases h
  · rename_i hsize
    obtain ⟨k, hk, rfl⟩ := Option.map_eq_some_iff.1 h
    have hfree := List.find?_some hk
    refine ⟨by omega, k, List.mem_range.1 (List.mem_of_find?_eq_some hk),
      of_decide_eq_true hfree, ?_⟩
    rw [hlen]
    rfl

/-- A fragment is stored in the context of its packet, or nothing but the other contexts changes. -/
theorem addFragment_spec (h : Inv s opened received) (hj : j < p.pieces.length)
    (junk : ℕ → UInt8)
    (hkeep : ∀ c, context cfg p.sender p.tag s = some c →
      (piece p.pieces j).length ≤ cfg.fragmentSize → Room cfg s c →
        opened c = some p ∧ ∀ k, s.Live c k → (s.buf k).offset ≠ p.offset j) :
    Inv (addFragment cfg (p.fragN j junk) p.tag p.size (p.offset j) s).2 opened
        ((p, some j) :: received) ∧
      ∀ c, (addFragment cfg (p.fragN j junk) p.tag p.size (p.offset j) s).1 = some c →
        Holds (addFragment cfg (p.fragN j junk) p.tag p.size (p.offset j) s).2
          ((p, some j) :: received) p c := by
  have hinv : Inv s opened ((p, some j) :: received) :=
    h.of_same rfl (fun c => ⟨(s.info c).expired, rfl⟩) (List.subset_cons_self _ _)
  have hsender : (p.fragN j junk).sender = p.sender := rfl
  rw [addFragment, if_neg (Nat.ne_of_gt (p.offset_pos hj)), hsender]
  cases hcontext : context cfg p.sender p.tag s with
  | none =>
      refine ⟨hinv, fun c hc => ?_⟩
      cases hc
  | some c =>
      have hfound := List.find?_some hcontext
      have hc := List.mem_range.1 (List.mem_of_find?_eq_some hcontext)
      -- What a fragment that is stored in one of the two attempts leaves.
      have hadd : ∀ s₁ s₂ : State α, Inv s₁ opened received → s₁.info c = s.info c →
          SameBufs s s₁ c → (∀ k < cfg.fragmentBuffers, (s₁.buf k).len = 0 → Room cfg s c) →
          storeFragment cfg (p.fragN j junk) c (p.offset j) s₁ = some s₂ →
          ∃ s', s₂.setInfo c { s₂.info c with reassembledLen :=
              ((s₂.info c).reassembledLen + ((p.fragN j junk).datalen - 5)) % 65536 } = s' ∧
            Inv s' opened ((p, some j) :: received) ∧ Holds s' ((p, some j) :: received) p c := by
        intro s₁ s₂ h₁ hinfo hbufs hroom hstore
        obtain ⟨hsize, k, hk, hfree, heq⟩ := storeFragment_spec hstore
        obtain ⟨hopened, hnew⟩ := hkeep c hcontext hsize (hroom k hk hfree)
        have hnew₁ : ∀ k, s₁.Live c k → (s₁.buf k).offset ≠ p.offset j := fun k hk => by
          have hk' := (hbufs k).1.1 hk
          rw [(hbufs k).2 hk']
          exact hnew k hk'
        have hlen : 0 < (s₁.info c).len := by
          rw [hinfo]
          exact (of_decide_eq_true hfound).2.1
        obtain ⟨p', hp', hholds⟩ := h₁.holds c hlen
        obtain rfl := Option.some.inj (hopened.symm.trans hp')
        exact ⟨_, heq, h₁.add hopened hlen hc hj hnew₁ hk hfree, hholds.add hj hnew₁ hk hfree⟩
      dsimp only
      cases hstore : storeFragment cfg (p.fragN j junk) c (p.offset j) s with
      | some s₂ =>
          obtain ⟨s', heq, hinv', hholds⟩ := hadd s s₂ h rfl (SameBufs.of_eq rfl c)
            (fun k hk hfree => ⟨k, hk, Or.inl hfree⟩) hstore
          dsimp only
          rw [heq]
          refine ⟨hinv', fun i hi => ?_⟩
          obtain rfl := Option.some.inj hi
          exact hholds
      | none =>
          obtain ⟨h₁, hinfo, hbufs, hcleared⟩ :=
            timeoutFragments_spec cfg c (List.range cfg.reassContexts) h
          dsimp only
          generalize timeoutFragments cfg c (List.range cfg.reassContexts) s = result at *
          obtain ⟨count, s₁⟩ := result
          dsimp only at h₁ hinfo hbufs hcleared ⊢
          have hinv₁ : Inv s₁ opened ((p, some j) :: received) :=
            h₁.of_same rfl (fun c => ⟨(s₁.info c).expired, rfl⟩) (List.subset_cons_self _ _)
          by_cases hcount : 0 < count
          · rw [if_pos hcount]
            cases hstore₁ : storeFragment cfg (p.fragN j junk) c (p.offset j) s₁ with
            | some s₂ =>
                obtain ⟨i, hi, hne, hexpired, k, hk, hlive⟩ := hcleared hcount
                have hroom : Room cfg s c := ⟨k, hk, Or.inr (by
                  rw [hlive.2]
                  exact ⟨List.mem_range.1 hi, hne, hexpired⟩)⟩
                obtain ⟨s', heq, hinv', hholds⟩ := hadd s₁ s₂ h₁ hinfo hbufs
                  (fun _ _ _ => hroom) hstore₁
                dsimp only
                rw [heq]
                refine ⟨hinv', fun i hi => ?_⟩
                obtain rfl := Option.some.inj hi
                exact hholds
            | none =>
                refine ⟨hinv₁, fun c hc => ?_⟩
                cases hc
          · rw [if_neg hcount]
            refine ⟨hinv₁, fun c hc => ?_⟩
            cases hc

/-- A fragment keeps the invariant, and what it hands over is the packet. -/
theorem inputFragN_spec (h : Inv s opened received) (hj : j < p.pieces.length)
    (junk : ℕ → UInt8)
    (hkeep : ∀ c, context cfg p.sender p.tag s = some c →
      (piece p.pieces j).length ≤ cfg.fragmentSize → Room cfg s c →
        opened c = some p ∧ ∀ k, s.Live c k → (s.buf k).offset ≠ p.offset j) :
    Inv (inputFragN cfg (p.fragN j junk) s).1 opened ((p, some j) :: received) ∧
      ∀ bytes, (inputFragN cfg (p.fragN j junk) s).2 = some bytes →
        bytes = p.bytes ∧ (p, none) ∈ (p, some j) :: received ∧
          ∀ i < p.pieces.length, (p, some i) ∈ (p, some j) :: received := by
  obtain ⟨hinv, hholds⟩ := addFragment_spec h hj junk hkeep
  have hdatalen := p.fragN_datalen j junk
  unfold inputFragN
  rw [p.fragN_size, p.fragN_tag, p.fragN_offset hj]
  dsimp only
  generalize addFragment cfg (p.fragN j junk) p.tag p.size (p.offset j) s = result at *
  obtain ⟨found, s₁⟩ := result
  dsimp only at hinv hholds ⊢
  cases found with
  | none =>
      refine ⟨hinv, fun bytes hbytes => ?_⟩
      cases hbytes
  | some c =>
      have hholds := hholds c rfl
      dsimp only
      rw [if_neg (by omega)]
      by_cases hroom : cfg.bufSize < p.offset j * 8 + ((p.fragN j junk).datalen - 5)
      · rw [if_pos hroom]
        refine ⟨hinv.clearFragments c, fun bytes hbytes => ?_⟩
        cases hbytes
      · rw [if_neg hroom]
        by_cases hcount : p.size ≤ (s₁.info c).reassembledLen
        · rw [if_pos hcount, if_pos p.size_pos]
          have hall := fun i (hi : i < p.pieces.length) =>
            hholds.exists_buf (fun k hk => (hinv.live c k hk).2.1) hcount hi
          generalize hs₂ : s₁.setInfo c { s₁.info c with reassembledLen := p.size } = s₂
          have hbuf : s₂.buf = s₁.buf := by
            rw [← hs₂]
            rfl
          have hself : s₂.info c = { s₁.info c with reassembledLen := p.size } := by
            rw [← hs₂]
            exact Function.update_self _ _ _
          have hother (i : ℕ) (hi : i ≠ c) : s₂.info i = s₁.info i := by
            rw [← hs₂]
            exact Function.update_of_ne hi _ _
          obtain ⟨m, hstate, hcopied⟩ :=
            hholds.copyFrags2uip (fun i hi => (hall i hi).2) hbuf hself
          have hcleared : Inv (clearFragments c { s₂ with uip := m }) opened
              ((p, some j) :: received) :=
            hinv.clear hbuf hother (fun _ _ => rfl) (List.Subset.refl _)
          generalize copyFrags2uip cfg c s₂ = copy at *
          obtain ⟨copied, s₃⟩ := copy
          dsimp only at hstate hcopied ⊢
          subst hstate
          cases copied with
          | false =>
              refine ⟨hcleared, fun bytes hbytes => ?_⟩
              cases hbytes
          | true =>
              refine ⟨hcleared, fun bytes hbytes => ?_⟩
              obtain rfl := Option.some.inj hbytes
              exact ⟨hcopied rfl, hholds.received_first, fun i hi => (hall i hi).1⟩
        · rw [if_neg hcount]
          refine ⟨hinv, fun bytes hbytes => ?_⟩
          cases hbytes

end Den2ne.Sicslowpan
