import Den2ne.Mpl.Steps

/-!
# The order of the messages of a seed

`Sorted` says that the list of a seed is strictly increasing, both in the order in which the
seed has sent the messages and by the bytes that `mpl.c` compares, and that `min_seqno` is the
first of the bytes. `accept` keeps it for a message whose byte compares to those of the list as
its number does. What the events do to one list is said by `list_cases`, once for all changes.
-/

namespace Den2ne.Mpl

/-- The list of the seed `x` is sorted. -/
structure Sorted (s : State) (x : Seed) : Prop where
  sent : x.minSeq.Pairwise fun a b => (s.msgs a).sent < (s.msgs b).sent
  seq : x.minSeq.Pairwise fun a b => (s.msgs a).seq < (s.msgs b).seq
  min : ∀ m ∈ x.minSeq.head?, x.minSeqno = (s.msgs m).seq

/-- The bytes tell the order of the message `sent` among the messages of the seed `x`, and the
message is not old. -/
structure Comparable (s : State) (x : Seed) (sent : ℕ) : Prop where
  order : ∀ m ∈ x.minSeq, (s.msgs m).seq < sent % 256 ↔ (s.msgs m).sent < sent
  new : ∀ m ∈ x.minSeq, (s.msgs m).seq ≠ sent % 256
  min : x.minSeq ≠ [] → x.minSeqno ≤ sent % 256

section

variable {cfg : Config} {scans : Prop} {fits : State → ℕ → ℕ → Prop} {s s' : State} {i m : ℕ}
  {x y : Seed}

theorem Msg.seq_lt (n : Msg) : n.seq < 256 := Nat.mod_lt _ (by omega)

namespace Sorted

theorem of_nil (h : x.minSeq = []) : Sorted s x := by
  refine ⟨?_, ?_, ?_⟩
  · rw [h]
    exact .nil
  · rw [h]
    exact .nil
  · rw [h]
    exact nofun

/-- Only the list, `min_seqno` and the numbers of the messages count. -/
theorem congr (h : Sorted s x) (hlist : y.minSeq = x.minSeq)
    (hmin : y.minSeqno = x.minSeqno)
    (hsent : ∀ m ∈ x.minSeq, (s'.msgs m).sent = (s.msgs m).sent) : Sorted s' y := by
  have hseq : ∀ m ∈ x.minSeq, (s'.msgs m).seq = (s.msgs m).seq := fun m hm => by
    unfold Msg.seq
    rw [hsent m hm]
  refine ⟨?_, ?_, fun m hm => ?_⟩
  · rw [hlist]
    refine h.sent.imp_of_mem fun ha hb hab => ?_
    rwa [hsent _ ha, hsent _ hb]
  · rw [hlist]
    refine h.seq.imp_of_mem fun ha hb hab => ?_
    rwa [hseq _ ha, hseq _ hb]
  · rw [hlist] at hm
    rw [hmin, h.min m hm, hseq m (List.mem_of_mem_head? hm)]

/-- `buffer_reclaim` takes the first message. -/
theorem tail {rest : List ℕ} (h : Sorted s x) (hlist : x.minSeq = m :: rest)
    (hy : y.minSeq = rest) (hmin : ∀ k ∈ rest.head?, y.minSeqno = (s.msgs k).seq) :
    Sorted s y := by
  have hsent := h.sent
  have hseq := h.seq
  rw [hlist, List.pairwise_cons] at hsent hseq
  refine ⟨hy ▸ hsent.2, hy ▸ hseq.2, ?_⟩
  rw [hy]
  exact hmin

end Sorted

/-- With sorted bytes, the loop of `accept` places a message behind all smaller ones. -/
theorem insertMsg_sorted {seqOf : ℕ → ℕ} {seq a : ℕ} {rest : List ℕ}
    (hbyte : ∀ k, seqOf k < 256) (hseq : seq < 256)
    (hsorted : (a :: rest).Pairwise fun k l => seqOf k < seqOf l) (ha : seqOf a < seq)
    (hnew : ∀ k ∈ rest, seqOf k ≠ seq) :
    ∃ l₁ l₂, rest = l₁ ++ l₂ ∧ insertMsg seqOf m seq (a :: rest) = a :: l₁ ++ m :: l₂ ∧
      (∀ k ∈ l₁, seqOf k < seq) ∧ ∀ k ∈ l₂, seq < seqOf k := by
  induction rest generalizing a with
  | nil => exact ⟨[], [], rfl, rfl, fun k hk => absurd hk List.not_mem_nil,
      fun k hk => absurd hk List.not_mem_nil⟩
  | cons b rest ih =>
      obtain ⟨hahead, htail⟩ := List.pairwise_cons.1 hsorted
      have hb : seqOf b ≠ seq := hnew b List.mem_cons_self
      have hgt : SeqValIsGt seq (seqOf a) := (seqValIsGt_iff hseq (hbyte a)).2 ha
      unfold insertMsg
      by_cases hlt : seq < seqOf b
      · rw [if_pos ⟨hgt, (seqValIsLt_iff hseq (hbyte b)).2 hlt⟩]
        refine ⟨[], b :: rest, rfl, rfl, fun k hk => absurd hk List.not_mem_nil, fun k hk => ?_⟩
        rcases List.mem_cons.1 hk with rfl | hk
        · exact hlt
        · exact Nat.lt_trans hlt ((List.pairwise_cons.1 htail).1 k hk)
      · rw [if_neg fun h => hlt ((seqValIsLt_iff hseq (hbyte b)).1 h.2)]
        have hbseq : seqOf b < seq := by omega
        obtain ⟨l₁, l₂, hsplit, heq, h₁, h₂⟩ :=
          ih htail hbseq fun k hk => hnew k (List.mem_cons_of_mem _ hk)
        refine ⟨b :: l₁, l₂, by rw [hsplit]; rfl, by rw [heq]; rfl, fun k hk => ?_, h₂⟩
        rcases List.mem_cons.1 hk with rfl | hk
        · exact hbseq
        · exact h₁ k hk

/-- A new message between smaller and larger ones. -/
theorem pairwise_middle {f : ℕ → ℕ} {l₁ l₂ : List ℕ}
    (h : (l₁ ++ l₂).Pairwise fun a b => f a < f b) (h₁ : ∀ k ∈ l₁, f k < f m)
    (h₂ : ∀ k ∈ l₂, f m < f k) : (l₁ ++ m :: l₂).Pairwise fun a b => f a < f b := by
  rw [List.pairwise_append] at h ⊢
  refine ⟨h.1, List.pairwise_cons.2 ⟨h₂, h.2.1⟩, fun a ha b hb => ?_⟩
  rcases List.mem_cons.1 hb with rfl | hb
  · exact h₁ a ha
  · exact h.2.2 a ha b hb

/-- `accept` keeps a list sorted if the bytes tell the order of the new message. -/
theorem Sorted.insert {n : Msg} (h : Sorted s x) (hm : m ∉ x.minSeq)
    (hcomparable : Comparable s x n.sent) :
    Sorted (s.setMsg m n) (x.insert cfg (fun k => ((s.setMsg m n).msgs k).seq) m n.seq) := by
  have hnew : (s.setMsg m n).msgs m = n := by rw [State.setMsg_msgs, if_pos rfl]
  have hold : ∀ k ∈ x.minSeq, (s.setMsg m n).msgs k = s.msgs k := fun k hk => by
    have hkm : k ≠ m := fun heq => hm (heq ▸ hk)
    rw [State.setMsg_msgs, if_neg hkm]
  have hkept : Sorted (s.setMsg m n) x := h.congr rfl rfl fun k hk => by rw [hold k hk]
  have horder : ∀ k ∈ x.minSeq, (((s.setMsg m n).msgs k).seq < n.seq ↔
      ((s.setMsg m n).msgs k).sent < n.sent) := fun k hk => by
    rw [hold k hk]
    exact hcomparable.order k hk
  have hdiffer : ∀ k ∈ x.minSeq, ((s.setMsg m n).msgs k).seq ≠ n.seq := fun k hk => by
    rw [hold k hk]
    exact hcomparable.new k hk
  have hmin := hcomparable.min
  generalize s.setMsg m n = t at *
  cases hlist : x.minSeq with
  | nil =>
      unfold Seed.insert
      rw [hlist]
      refine ⟨List.pairwise_singleton _ _, List.pairwise_singleton _ _, fun k hk => ?_⟩
      obtain rfl := Option.some.inj hk
      rw [hnew]
      rfl
  | cons a rest =>
      have hamem : a ∈ x.minSeq := hlist ▸ List.mem_cons_self
      have hhead : x.minSeqno = (t.msgs a).seq := hkept.min a (by rw [hlist]; rfl)
      have ha : (t.msgs a).seq < n.seq :=
        Nat.lt_of_le_of_ne (hhead ▸ hmin (List.ne_nil_of_mem hamem)) (hdiffer a hamem)
      have hsent := hkept.sent
      have hseq := hkept.seq
      rw [hlist] at hsent hseq
      obtain ⟨l₁, l₂, hsplit, heq, h₁, h₂⟩ := insertMsg_sorted (m := m)
        (fun k => (t.msgs k).seq_lt) n.seq_lt hseq ha fun k hk =>
          hdiffer k (hlist ▸ List.mem_cons_of_mem _ hk)
      have hmem : ∀ k, k ∈ a :: l₁ ∨ k ∈ l₂ → k ∈ x.minSeq := fun k hk => by
        rw [hlist, hsplit, ← List.cons_append, List.mem_append]
        exact hk
      have hbelow : ∀ k ∈ a :: l₁, (t.msgs k).seq < n.seq := fun k hk => by
        rcases List.mem_cons.1 hk with rfl | hk
        · exact ha
        · exact h₁ k hk
      rw [hsplit, ← List.cons_append] at hsent hseq
      unfold Seed.insert
      rw [hlist, heq]
      refine ⟨pairwise_middle hsent (fun k hk => ?_) (fun k hk => ?_),
        pairwise_middle hseq (fun k hk => ?_) (fun k hk => ?_), fun k hk => ?_⟩
      · rw [hnew]
        exact (horder k (hmem k (.inl hk))).1 (hbelow k hk)
      · rw [hnew]
        have hlt := h₂ k hk
        have hle : ¬ (t.msgs k).sent < n.sent := fun hsent =>
          absurd ((horder k (hmem k (.inr hk))).2 hsent) (by omega)
        have hne : (t.msgs k).sent ≠ n.sent := fun heq =>
          hdiffer k (hmem k (.inr hk)) (by unfold Msg.seq; rw [heq])
        omega
      · rw [hnew]
        exact hbelow k hk
      · rw [hnew]
        exact h₂ k hk
      · obtain rfl := Option.some.inj hk
        exact hhead

/-! ## What a change does to one list -/

/-- What a change does to the list of the seed `i`. -/
inductive ListChange (cfg : Config) (scans : Prop) (fits : State → ℕ → ℕ → Prop) (i : ℕ)
    (s s' : State) : Prop
  | kept (hlist : (s'.seeds i).minSeq = (s.seeds i).minSeq)
      (hmin : (s'.seeds i).minSeqno = (s.seeds i).minSeqno)
      (hsent : ∀ m ∈ (s.seeds i).minSeq, (s'.msgs m).sent = (s.msgs m).sent)
  | inserted (m : ℕ) (n : Msg) (hm : m ∉ (s.seeds i).minSeq) (hmsgs : s'.msgs = (s.setMsg m n).msgs)
      (hseed : s'.seeds i = (s.seeds i).insert cfg (fun k => ((s.setMsg m n).msgs k).seq) m n.seq)
      (hfits : fits s i n.sent)
  | popped (hscans : scans) (m : ℕ) (hlist : (s.seeds i).minSeq = m :: (s'.seeds i).minSeq)
      (hmin : ∀ k ∈ (s'.seeds i).minSeq.head?, (s'.seeds i).minSeqno = (s.msgs k).seq)
      (hsent : ∀ k ∈ (s'.seeds i).minSeq, (s'.msgs k).sent = (s.msgs k).sent)
  | cleared (hlist : (s'.seeds i).minSeq = [])

theorem freeAll_sent (ms : List ℕ) (s : State) (m : ℕ) :
    ((freeAll ms s).msgs m).sent = (s.msgs m).sent := by
  induction ms generalizing s with
  | nil => rfl
  | cons k ms ih =>
      unfold freeAll
      rw [ih]
      unfold bufferFree
      rw [State.setMsg_msgs]
      split
      · rename_i hm
        rw [hm]
      · rfl

theorem Change.list_cases (hlinked : Linked cfg s) (hi : i < cfg.seedSetSize)
    (h : Change cfg scans fits s s') : ListChange cfg scans fits i s s' := by
  have hother : ∀ {j : ℕ} {y : Seed}, i ≠ j → (s.setSeed j y).seeds i = s.seeds i :=
    fun hij => by rw [State.setSeed_seeds, if_neg hij]
  cases h with
  | same hsame =>
      refine .kept (by rw [hsame.seeds]) (by rw [hsame.seeds]) fun m hm => hsame.sent m ?_
      rw [(hlinked.seed_of_mem hi hm).2]
      exact Option.some_ne_none i
  | scan hscans hist => exact .kept rfl rfl fun _ _ => rfl
  | behind y =>
      have hseed := hother (y := y) (Nat.ne_of_lt hi)
      exact .kept (by rw [hseed]) (by rw [hseed]) fun _ _ => rfl
  | @newSeed j d seedId hj hfree hd hused hnew =>
      by_cases hij : i = j
      · refine .cleared ?_
        rw [State.setSeed_seeds, if_pos hij]
        rfl
      · have hseed := hother (y := { Seed.zero with seedId := seedId, domain := some d }) hij
        exact .kept (by rw [hseed]) (by rw [hseed]) fun _ _ => rfl
  | @insert j m n hj hused hm hfree hn hfits =>
      have hmem : m ∉ (s.seeds i).minSeq := hlinked.held.not_mem_of_free hfree hi
      by_cases hij : i = j
      · subst hij
        exact .inserted m n hmem rfl (by rw [State.setSeed_seeds, if_pos rfl]) hfits
      · refine .kept ?_ ?_ fun k hk => ?_
        · rw [State.setSeed_seeds, if_neg hij]
          rfl
        · rw [State.setSeed_seeds, if_neg hij]
          rfl
        · have hkm : k ≠ m := fun heq => hmem (heq ▸ hk)
          rw [State.setSeed_msgs, State.setMsg_msgs, if_neg hkm]
  | @pop j m minSeqno rest hscans hj hlist hmin =>
      have hnodup := hlinked.held.nodup j hj
      by_cases hij : i = j
      · subst hij
        rw [hlist, List.nodup_cons] at hnodup
        refine .popped hscans m ?_ ?_ ?_
        · rw [State.setMsg_seeds, State.setSeed_seeds, if_pos rfl, hlist]
        · rw [State.setMsg_seeds, State.setSeed_seeds, if_pos rfl]
          exact hmin
        · rw [State.setMsg_seeds, State.setSeed_seeds, if_pos rfl]
          intro k hk
          have hkm : k ≠ m := fun heq => hnodup.1 (heq ▸ hk)
          rw [State.setMsg_msgs, if_neg hkm, State.setSeed_msgs]
      · have hm := (hlinked.seed_of_mem hj (hlist ▸ List.mem_cons_self)).2
        refine .kept ?_ ?_ fun k hk => ?_
        · rw [State.setMsg_seeds, State.setSeed_seeds, if_neg hij]
        · rw [State.setMsg_seeds, State.setSeed_seeds, if_neg hij]
        · have hkm : k ≠ m := fun heq => by
            have hk' := (hlinked.seed_of_mem hi hk).2
            rw [heq, hm] at hk'
            exact hij (Option.some.inj hk').symm
          rw [State.setMsg_msgs, if_neg hkm, State.setSeed_msgs]
  | @freeSeed j hj =>
      unfold seedSetFree
      by_cases hij : i = j
      · refine .cleared ?_
        rw [State.setSeed_seeds, if_pos hij]
      · refine .kept ?_ ?_ fun k hk => ?_
        · rw [State.setSeed_seeds, if_neg hij, freeAll_seeds]
        · rw [State.setSeed_seeds, if_neg hij, freeAll_seeds]
        · rw [State.setSeed_msgs, freeAll_sent]
  | lifetime j lifetime =>
      refine .kept ?_ ?_ fun _ _ => rfl
      · rw [State.setSeed_seeds]
        split
        · rename_i hij
          rw [hij]
        · rfl
      · rw [State.setSeed_seeds]
        split
        · rename_i hij
          rw [hij]
        · rfl
  | freeDomain hscans hno hx => exact .kept rfl rfl fun _ _ => rfl

/-- A list stays sorted if the bytes tell the order of each message that is inserted. -/
theorem Sorted.change (h : Sorted s (s.seeds i)) (hchange : ListChange cfg scans fits i s s')
    (hfits : ∀ sent, fits s i sent → Comparable s (s.seeds i) sent) :
    Sorted s' (s'.seeds i) := by
  cases hchange with
  | kept hlist hmin hsent => exact h.congr hlist hmin hsent
  | inserted m n hm hmsgs hseed hfit =>
      rw [hseed]
      exact (h.insert hm (hfits _ hfit)).congr rfl rfl fun k _ => by rw [hmsgs]
  | popped hscans m hlist hmin hsent => exact (h.tail hlist rfl hmin).congr rfl rfl hsent
  | cleared hlist => exact .of_nil hlist

end

end Den2ne.Mpl
