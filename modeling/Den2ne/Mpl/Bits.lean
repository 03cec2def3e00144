import Den2ne.Mpl.Timers

/-!
# The bits that a comparison looks at

A control message is read `Inside` if only its bytes are read and only bits that their entry
announces. Since both are bounds, it is enough to look at the largest bit: `avail` is the number
of bits of an entry that are announced and received. `Compares` says that the loops of the
comparison stay below it.
-/

namespace Den2ne.Mpl

/-- Only bytes of the message have been read, and only bits that are announced. -/
def Walk.Inside (p : Icmp) (w : Walk) : Prop :=
  (∀ k ∈ w.reads, k < p.len) ∧ ∀ g ∈ w.gets, g.1 < g.2

namespace Icmp

variable (cfg : Config) (p : Icmp)

/-- The number of bits of an entry that are announced and inside the message. -/
def avail (pos : ℕ) : ℕ := 8 * min (p.getLen pos) (p.len - p.vector cfg pos)

/-- The bit of a sequence number. -/
def bitOf (pos seq : ℕ) : ℕ := (seq + 256 - (p.payload pos).toNat) % 256

end Icmp

/-- The largest bit from `r` on to the bit `o`, which may be reached only behind the bit 255. -/
def reach (r o : ℕ) : ℕ := if r ≤ o then o else 255

/-- The comparison of the bits `os` of the local messages, from the bit `r` on, looks at `A` bits
only: each message whose turn comes is below `A` and so are the bits before it, and if the
vector of `V` bits goes on behind the last message, all of it is below `A`. -/
def Compares (A V : ℕ) : List ℕ → ℕ → Prop
  | [], r => r < V → V ≤ A
  | o :: os, r => reach r o < A ∧ ((o + 1) % 256 ≤ V → Compares A V os ((o + 1) % 256))

namespace Walk

variable {p : Icmp} {w : Walk}

theorem inside_read (ks : List ℕ) :
    (w.read ks).Inside p ↔ w.Inside p ∧ ∀ k ∈ ks, k < p.len := by
  unfold Inside read
  constructor
  · rintro ⟨hreads, hgets⟩
    exact ⟨⟨fun k hk => hreads k (List.mem_append_left _ hk), hgets⟩,
      fun k hk => hreads k (List.mem_append_right _ hk)⟩
  · rintro ⟨⟨hreads, hgets⟩, hks⟩
    exact ⟨fun k hk => (List.mem_append.1 hk).elim (hreads k) (hks k), hgets⟩

theorem inside_restartAll (ms : List ℕ) : (w.restartAll ms).Inside p ↔ w.Inside p := by
  induction ms generalizing w with
  | nil => exact Iff.rfl
  | cons m ms ih => exact ih

/-- The sequence numbers of the messages in a walk. -/
def HasSeqs (seqOf : ℕ → ℕ) (w : Walk) : Prop := ∀ m, (w.state.msgs m).seq = seqOf m

theorem HasSeqs.restart {seqOf : ℕ → ℕ} (h : w.HasSeqs seqOf) (m : ℕ) :
    (w.restart m).HasSeqs seqOf := fun k => by
  unfold Walk.restart
  rw [State.setMsg_msgs]
  split
  · rename_i hk
    rw [hk]
    exact h m
  · exact h k

end Walk

section

variable {cfg : Config} {p : Icmp} {w w' : Walk} {pos r : ℕ}

theorem getBit_inside :
    (p.getBit cfg pos r w).Inside p ↔ w.Inside p ∧ r < p.avail cfg pos := by
  unfold Walk.Inside Icmp.getBit Walk.read Icmp.avail
  simp only [List.mem_append, List.mem_singleton]
  constructor
  · rintro ⟨hreads, hgets⟩
    have hbyte := hreads _ (.inr rfl)
    have hbit := hgets _ (.inr rfl)
    dsimp only at hbit
    exact ⟨⟨fun k hk => hreads k (.inl hk), fun g hg => hgets g (.inl hg)⟩, by omega⟩
  · rintro ⟨⟨hreads, hgets⟩, hr⟩
    refine ⟨?_, ?_⟩
    · rintro k (hk | rfl)
      · exact hreads k hk
      · omega
    · rintro g (hg | rfl)
      · exact hgets g hg
      · dsimp only
        omega

theorem bitOf_lt (pos seq : ℕ) : p.bitOf pos seq < 256 := Nat.mod_lt _ (by omega)

theorem bitSeq_eq_iff {seq : ℕ} (hseq : seq < 256) (hr : r < 256) :
    seq = p.bitSeq pos r ↔ r = p.bitOf pos seq := by
  have hmin := UInt8.toNat_lt (p.payload pos)
  unfold Icmp.bitSeq Icmp.bitOf seqValAdd
  constructor
  · intro h
    omega
  · intro h
    omega

/-! ## The loops -/

variable (cfg w) in
theorem sync_spec {seq turns : ℕ} (hseq : seq < 256) (hr : r < 256)
    (hturns : (p.bitOf pos seq + 256 - r) % 256 ≤ turns) :
    (p.sync cfg pos seq turns r w).1 = p.bitOf pos seq ∧
    (p.sync cfg pos seq turns r w).2.state = w.state ∧
    ((p.sync cfg pos seq turns r w).2.Inside p ∧ p.bitOf pos seq < p.avail cfg pos ↔
      w.Inside p ∧ reach r (p.bitOf pos seq) < p.avail cfg pos) := by
  have ho := bitOf_lt (p := p) pos seq
  induction turns generalizing r w with
  | zero =>
      have hro : r = p.bitOf pos seq := by omega
      refine ⟨hro, rfl, ?_⟩
      unfold reach
      rw [if_pos (Nat.le_of_eq hro)]
      exact Iff.rfl
  | succ turns ih =>
      unfold Icmp.sync
      by_cases hro : r = p.bitOf pos seq
      · rw [if_neg (not_not.2 ((bitSeq_eq_iff hseq hr).2 hro))]
        refine ⟨hro, rfl, ?_⟩
        unfold reach
        rw [if_pos (Nat.le_of_eq hro)]
      · rw [if_pos fun heq => hro ((bitSeq_eq_iff hseq hr).1 heq)]
        have hmod : (r + 1) % 256 < 256 := Nat.mod_lt _ (by omega)
        have hcond : (r < p.avail cfg pos ∧
            reach ((r + 1) % 256) (p.bitOf pos seq) < p.avail cfg pos) ↔
            reach r (p.bitOf pos seq) < p.avail cfg pos := by
          unfold reach
          split <;> split <;> omega
        have hflag : ∀ b : Bool,
            (if b then ({ p.getBit cfg pos r w with lMissing := true } : Walk)
              else p.getBit cfg pos r w).state = w.state ∧
            ((if b then ({ p.getBit cfg pos r w with lMissing := true } : Walk)
              else p.getBit cfg pos r w).Inside p ↔ w.Inside p ∧ r < p.avail cfg pos) := by
          rintro (_ | _)
          · exact ⟨rfl, getBit_inside⟩
          · exact ⟨rfl, getBit_inside⟩
        obtain ⟨hstate, hinside⟩ := hflag (p.bit cfg pos r)
        obtain ⟨hfst, hstate', hiff⟩ := ih (w := if p.bit cfg pos r then
          { p.getBit cfg pos r w with lMissing := true } else p.getBit cfg pos r w) hmod (by omega)
        refine ⟨hfst, hstate'.trans hstate, hiff.trans ?_⟩
        rw [hinside, and_assoc, hcond]

theorem remainder_inside {turns : ℕ} (hr : r < 256)
    (hturns : p.vectorLen pos - r ≤ turns) :
    (p.remainder cfg pos turns r w).Inside p ↔
      w.Inside p ∧ (r < p.vectorLen pos → p.vectorLen pos ≤ p.avail cfg pos) := by
  have hV : p.vectorLen pos < 256 := Nat.mod_lt _ (by omega)
  induction turns generalizing r w with
  | zero =>
      unfold Icmp.remainder
      exact ⟨fun h => ⟨h, fun hlt => by omega⟩, fun h => h.1⟩
  | succ turns ih =>
      unfold Icmp.remainder
      by_cases hlt : r < p.vectorLen pos
      · rw [if_pos hlt]
        have hflag : ∀ b : Bool,
            ((if b then ({ p.getBit cfg pos r w with lMissing := true } : Walk)
              else p.getBit cfg pos r w).Inside p ↔ w.Inside p ∧ r < p.avail cfg pos) := by
          rintro (_ | _)
          · exact getBit_inside
          · exact getBit_inside
        have hnext : (r + 1) % 256 = r + 1 := Nat.mod_eq_of_lt (by omega)
        have hrest := ih (r := (r + 1) % 256) (w := if p.bit cfg pos r then
          { p.getBit cfg pos r w with lMissing := true } else p.getBit cfg pos r w)
          (Nat.mod_lt _ (by omega)) (by omega)
        refine hrest.trans ?_
        rw [hflag, hnext, and_assoc]
        refine and_congr_right fun _ => ?_
        constructor
        · rintro ⟨hr', hrest⟩ -
          by_cases hend : r + 1 < p.vectorLen pos
          · exact hrest hend
          · omega
        · intro hall
          exact ⟨Nat.lt_of_lt_of_le hlt (hall hlt), fun _ => hall hlt⟩
      · rw [if_neg hlt]
        exact ⟨fun h => ⟨h, fun h' => absurd h' hlt⟩, fun h => h.1⟩

variable (cfg p pos) in
/-- The comparison of the local messages and what comes behind them. -/
theorem overlap_inside {seqOf : ℕ → ℕ} (hbyte : ∀ m, seqOf m < 256) (ms : List ℕ) (hr : r < 256)
    (hw : w.HasSeqs seqOf) :
    ((p.overlap cfg pos ms r w).2.2.Inside p ∧
      ((p.overlap cfg pos ms r w).2.1 < p.vectorLen pos →
        p.vectorLen pos ≤ p.avail cfg pos) ↔
      w.Inside p ∧ Compares (p.avail cfg pos) (p.vectorLen pos)
        (ms.map fun m => p.bitOf pos (seqOf m)) r) ∧
    (p.overlap cfg pos ms r w).2.1 < 256 ∧
    ((p.overlap cfg pos ms r w).1 ≠ [] →
      p.vectorLen pos < (p.overlap cfg pos ms r w).2.1) := by
  induction ms generalizing r w with
  | nil => exact ⟨Iff.rfl, hr, fun h => absurd rfl h⟩
  | cons m ms ih =>
      unfold Icmp.overlap
      have hturns : (p.bitOf pos (seqOf m) + 256 - r) % 256 ≤ 256 :=
        Nat.le_of_lt (Nat.mod_lt _ (by omega))
      have hspec := sync_spec cfg w (hbyte m) hr hturns
      rw [hw m]
      generalize p.sync cfg pos (seqOf m) 256 r w = synced at hspec
      obtain ⟨r₁, w₁⟩ := synced
      obtain ⟨rfl, hstate, hsync⟩ := hspec
      have hflag : ∀ b : Bool,
          ((if b then p.getBit cfg pos (p.bitOf pos (seqOf m)) w₁
            else ({ p.getBit cfg pos (p.bitOf pos (seqOf m)) w₁ with rMissing := true } :
              Walk).restart m).Inside p ↔
            w₁.Inside p ∧ p.bitOf pos (seqOf m) < p.avail cfg pos) ∧
          (if b then p.getBit cfg pos (p.bitOf pos (seqOf m)) w₁
            else ({ p.getBit cfg pos (p.bitOf pos (seqOf m)) w₁ with rMissing := true } :
              Walk).restart m).HasSeqs seqOf := by
        have hw₁ : w₁.HasSeqs seqOf := fun k => by rw [hstate, hw k]
        rintro (_ | _)
        · have hget : ({ p.getBit cfg pos (p.bitOf pos (seqOf m)) w₁ with rMissing := true } :
            Walk).HasSeqs seqOf := hw₁
          exact ⟨getBit_inside, hget.restart m⟩
        · exact ⟨getBit_inside, hw₁⟩
      obtain ⟨hinside, hseqs⟩ := hflag (p.bit cfg pos (p.bitOf pos (seqOf m)))
      dsimp only at hsync ⊢
      generalize (if p.bit cfg pos (p.bitOf pos (seqOf m)) then
        p.getBit cfg pos (p.bitOf pos (seqOf m)) w₁
        else ({ p.getBit cfg pos (p.bitOf pos (seqOf m)) w₁ with rMissing := true } :
          Walk).restart m) = w₂ at hinside hseqs ⊢
      have hnext : (p.bitOf pos (seqOf m) + 1) % 256 < 256 := Nat.mod_lt _ (by omega)
      have hhere : w₂.Inside p ↔
          w.Inside p ∧ reach r (p.bitOf pos (seqOf m)) < p.avail cfg pos := hinside.trans hsync
      rw [List.map_cons]
      unfold Compares
      by_cases hgo : ms ≠ [] ∧ (p.bitOf pos (seqOf m) + 1) % 256 ≤ p.vectorLen pos
      · rw [if_pos hgo]
        obtain ⟨hiff, hlt, hrest⟩ := ih hnext hseqs
        refine ⟨hiff.trans ?_, hlt, hrest⟩
        rw [hhere, and_assoc]
        exact and_congr_right fun _ => and_congr_right fun _ =>
          ⟨fun h _ => h, fun h => h hgo.2⟩
      · rw [if_neg hgo]
        refine ⟨?_, hnext, fun hne => ?_⟩
        · rw [hhere, and_assoc]
          refine and_congr_right fun _ => and_congr_right fun _ => ?_
          cases ms with
          | nil => exact ⟨fun h _ => h, fun h hlt => h (Nat.le_of_lt hlt) hlt⟩
          | cons k ms =>
              have hbehind : ¬ (p.bitOf pos (seqOf m) + 1) % 256 ≤ p.vectorLen pos :=
                fun hle => hgo ⟨List.cons_ne_nil _ _, hle⟩
              exact ⟨fun _ hle => absurd hle hbehind,
                fun _ hlt => absurd (Nat.le_of_lt hlt) hbehind⟩
        · exact Nat.lt_of_not_le fun hle => hgo ⟨hne, hle⟩

/-- The comparison stays inside exactly if `Compares` holds. -/
theorem compare_inside {seqOf : ℕ → ℕ} (hbyte : ∀ m, seqOf m < 256) (ms : List ℕ) (hr : r < 256)
    (hw : w.HasSeqs seqOf) :
    (p.compare cfg pos ms r w).Inside p ↔ w.Inside p ∧
      Compares (p.avail cfg pos) (p.vectorLen pos) (ms.map fun m => p.bitOf pos (seqOf m)) r := by
  have hV : p.vectorLen pos < 256 := Nat.mod_lt _ (by omega)
  have hspec := overlap_inside cfg p pos hbyte ms hr hw
  unfold Icmp.compare
  generalize p.overlap cfg pos ms r w = overlapped at hspec
  obtain ⟨ms', r', w'⟩ := overlapped
  obtain ⟨hiff, hlt, hrest⟩ := hspec
  refine Iff.trans ?_ hiff
  dsimp only at hlt hrest ⊢
  by_cases hgo : ms' ≠ [] ∨ r' < p.vectorLen pos
  · rw [if_pos hgo]
    exact remainder_inside hlt (by omega)
  · rw [if_neg hgo]
    have hend : ¬ r' < p.vectorLen pos := fun h => hgo (.inr h)
    have hsame : w'.Inside p ↔
        w'.Inside p ∧ (r' < p.vectorLen pos → p.vectorLen pos ≤ p.avail cfg pos) :=
      ⟨fun h => ⟨h, fun h' => absurd h' hend⟩, fun h => h.1⟩
    split
    · exact (Walk.inside_restartAll ms').trans hsame
    · exact hsame

/-! ## The search for the last bit -/

theorem lastBit_spec {fuel r' : ℕ} (hr : r < 256)
    (h : p.lastBit cfg pos fuel r w = some (r', w')) :
    r' < 256 ∧ p.bit cfg pos r' = true ∧ w'.state = w.state ∧
    (w'.Inside p ↔ w.Inside p ∧ (if r' ≤ r then r else 255) < p.avail cfg pos) ∧
    (r < r' → ∀ q ≤ r, p.bit cfg pos q = false) := by
  induction fuel generalizing r w with
  | zero => cases h
  | succ fuel ih =>
      unfold Icmp.lastBit at h
      dsimp only at h
      by_cases hbit : p.bit cfg pos r = true
      · rw [if_pos hbit] at h
        obtain ⟨rfl, rfl⟩ := Prod.mk.inj (Option.some.inj h)
        rw [if_pos (Nat.le_refl _)]
        exact ⟨hr, hbit, rfl, getBit_inside, fun hlt => absurd hlt (Nat.lt_irrefl _)⟩
      · rw [if_neg hbit] at h
        obtain ⟨hlt, hset, hstate, hinside, hclear⟩ := ih (Nat.mod_lt _ (by omega)) h
        have hne : r' ≠ r := fun heq => hbit (heq ▸ hset)
        refine ⟨hlt, hset, hstate, hinside.trans ?_, fun hlt' q hq => ?_⟩
        · rw [getBit_inside, and_assoc]
          refine and_congr_right fun _ => ?_
          split <;> split <;> omega
        · by_cases hqr : q = r
          · rw [hqr]
            exact Bool.eq_false_iff.2 hbit
          · exact hclear (by omega) q (by omega)

theorem lastBit_eq_some {fuel q : ℕ} (hr : r < 256) (hq : q < 256)
    (hbit : p.bit cfg pos q = true) (hfuel : (r + 256 - q) % 256 < fuel) :
    ∃ r' w', p.lastBit cfg pos fuel r w = some (r', w') := by
  induction fuel generalizing r w with
  | zero => omega
  | succ fuel ih =>
      unfold Icmp.lastBit
      dsimp only
      split
      · exact ⟨_, _, rfl⟩
      · rename_i hno
        have hne : q ≠ r := fun heq => hno (heq ▸ hbit)
        exact ih (Nat.mod_lt _ (by omega)) (by omega)

end

end Den2ne.Mpl
