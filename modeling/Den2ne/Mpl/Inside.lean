import Den2ne.Mpl.Bits
import Den2ne.Mpl.Buffer
import Mathlib.Data.List.TakeWhile

/-!
# Where control messages are read

`icmpIn_inside_iff` says which messages `icmp_in` reads inside their bounds, and ends on. The first
pass looks for the seeds that are known, each from where the search for the one before has ended;
the second one comes to every entry.
-/

namespace Den2ne.Mpl

namespace Icmp

variable (cfg : Config) (p : Icmp)

/-- The length and the seed id of an entry are in the message, where the seed id stands `pad` bytes
behind the length. -/
def HeaderInside (pad pos : ℕ) : Prop :=
  pos + 1 < p.len ∧ (0 < idLen (p.getS pos) → pos + 1 + pad + idLen (p.getS pos) < p.len)

/-- The first pass reads a 64-bit seed id where its structure has it. -/
def remotePad (pos : ℕ) : ℕ := if p.getS pos = 2 then cfg.seedInfoPad else 0

/-- The search for a seed: whether it is found, where the search ends, the seed id that was read
last and the entries that it has come to. -/
def search (seedId : SeedId) : ℕ → ℕ → SeedId → Bool × ℕ × SeedId × List ℕ
  | 0, pos, dst => (false, pos, dst, [])
  | turns + 1, pos, dst =>
      if pos < p.len then
        let remote := p.remoteSeed cfg dst pos
        if seedIdCmp remote seedId then (true, p.next cfg pos, remote, [pos])
        else
          let (found, pos', dst', visited) := search seedId turns (p.next cfg pos) remote
          (found, pos', dst', pos :: visited)
      else (false, pos, dst, [])

/-- The searches for these seeds, one after the other: the seed id that was read last and the
entries that they have come to. -/
def searches : List SeedId → ℕ → SeedId → SeedId × List ℕ
  | [], _, dst => (dst, [])
  | seedId :: seedIds, pos, dst =>
      let (_, pos, dst, visited) := p.search cfg seedId p.len pos dst
      let (dst, visited') := searches seedIds pos dst
      (dst, visited ++ visited')

/-- The entries of a message with the seed ids that the second pass reads. -/
def entryList : ℕ → ℕ → SeedId → List (ℕ × SeedId)
  | 0, _, _ => []
  | turns + 1, pos, dst =>
      if pos < p.len then
        (pos, p.entrySeed dst pos) :: entryList turns (p.next cfg pos) (p.entrySeed dst pos)
      else []

/-- The search for the last bit that is set ends, and inside. -/
def LastOk (pos : ℕ) : Prop :=
  p.vectorLen pos < p.avail cfg pos ∧
    ((∃ q ≤ p.vectorLen pos, p.bit cfg pos q = true) ∨
      (∃ q < 256, p.bit cfg pos q = true) ∧ 255 < p.avail cfg pos)

/-- The comparison of an entry with the sequence numbers of the local messages. -/
def KnownOk (pos : ℕ) : List ℕ → Prop
  | [] => p.vector cfg pos < p.len
  | seq :: seqs =>
      if (p.payload pos).toNat ≤ seq then
        if p.bitOf pos seq ≤ p.vectorLen pos then
          Compares (p.avail cfg pos) (p.vectorLen pos) ((seq :: seqs).map (p.bitOf pos))
            (p.bitOf pos seq)
        else p.LastOk cfg pos
      else if (p.payload pos).toNat ∈ seq :: seqs then
        Compares (p.avail cfg pos) (p.vectorLen pos)
          (((seq :: seqs).dropWhile (· ≠ (p.payload pos).toNat)).map (p.bitOf pos)) 0
      else p.LastOk cfg pos

/-- An entry that the second pass comes to. -/
def EntryOk (s : State) (d : ℕ) (e : ℕ × SeedId) : Prop :=
  p.HeaderInside 0 e.1 ∧
    ∀ i, seedSetLookup cfg e.2 d s = some i →
      p.KnownOk cfg e.1 ((s.seeds i).minSeq.map fun m => (s.msgs m).seq)

/-- The seeds of a domain in the order of the first pass. -/
def domainSeeds (s : State) (d : ℕ) : List SeedId :=
  ((List.range cfg.seedSetSize).reverse.filter fun i => (s.seeds i).domain = some d).map
    fun i => (s.seeds i).seedId

/-- The messages that are read inside their bounds. -/
def Ok (s : State) : Prop :=
  p.checks cfg = true → ∀ d s', p.domain cfg s = (some d, s') →
    (∀ pos ∈ (p.searches cfg (domainSeeds cfg s' d) 0 s'.icmpSeedId).2,
      p.HeaderInside (p.remotePad cfg pos) pos) ∧
    ∀ e ∈ p.entryList cfg p.len 0 (p.searches cfg (domainSeeds cfg s' d) 0 s'.icmpSeedId).1,
      p.EntryOk cfg s' d e

end Icmp

variable {cfg : Config} {p : Icmp} {s : State} {w w' : Walk} {pos : ℕ}

/-! ## The first pass -/

theorem remoteReads_inside :
    (∀ k ∈ p.remoteReads cfg pos, k < p.len) ↔ p.HeaderInside (p.remotePad cfg pos) pos := by
  unfold Icmp.remoteReads Icmp.HeaderInside Icmp.remotePad
  generalize (if p.getS pos = 2 then cfg.seedInfoPad else 0) = pad
  generalize Icmp.idLen (p.getS pos) = n
  simp only [List.mem_cons, List.mem_map, List.mem_range]
  constructor
  · intro h
    refine ⟨h _ (Or.inl rfl), fun hn => ?_⟩
    have hlast := h (pos + 2 + pad + (n - 1)) (Or.inr ⟨n - 1, by omega, rfl⟩)
    omega
  · rintro ⟨hlen, hid⟩ k (rfl | ⟨j, hj, rfl⟩)
    · exact hlen
    · have hlast := hid (by omega)
      omega

theorem entryReads_inside :
    (∀ k ∈ p.entryReads pos, k < p.len) ↔ p.HeaderInside 0 pos := by
  unfold Icmp.entryReads Icmp.HeaderInside
  generalize Icmp.idLen (p.getS pos) = n
  simp only [List.mem_cons, List.mem_map, List.mem_range]
  constructor
  · intro h
    refine ⟨h _ (Or.inl rfl), fun hn => ?_⟩
    have hlast := h (pos + 2 + (n - 1)) (Or.inr ⟨n - 1, by omega, rfl⟩)
    omega
  · rintro ⟨hlen, hid⟩ k (rfl | ⟨j, hj, rfl⟩)
    · exact hlen
    · have hlast := hid (by omega)
      omega

variable (cfg p) in
/-- The search does what `search` says. -/
theorem findRemote_eq (seedId : SeedId) (turns pos : ℕ) (w : Walk) :
    (p.findRemote cfg seedId turns pos w).1 =
        (p.search cfg seedId turns pos w.state.icmpSeedId).1 ∧
      (p.findRemote cfg seedId turns pos w).2.1 =
        (p.search cfg seedId turns pos w.state.icmpSeedId).2.1 ∧
      (p.findRemote cfg seedId turns pos w).2.2.state.icmpSeedId =
        (p.search cfg seedId turns pos w.state.icmpSeedId).2.2.1 ∧
      ((p.findRemote cfg seedId turns pos w).2.2.Inside p ↔ w.Inside p ∧
        ∀ pos' ∈ (p.search cfg seedId turns pos w.state.icmpSeedId).2.2.2,
          p.HeaderInside (p.remotePad cfg pos') pos') := by
  induction turns generalizing pos w with
  | zero => simp [Icmp.findRemote, Icmp.search]
  | succ turns ih =>
      unfold Icmp.findRemote Icmp.search
      by_cases hpos : pos < p.len
      · rw [if_pos hpos, if_pos hpos]
        dsimp only
        have hread : ({ w.read (p.remoteReads cfg pos) with
            state := { w.state with
              icmpSeedId := p.remoteSeed cfg w.state.icmpSeedId pos } } : Walk).Inside p ↔
            w.Inside p ∧ p.HeaderInside (p.remotePad cfg pos) pos := by
          refine Iff.trans ?_ (and_congr_right fun _ => remoteReads_inside)
          exact Walk.inside_read _
        by_cases hfound : seedIdCmp (p.remoteSeed cfg w.state.icmpSeedId pos) seedId = true
        · rw [if_pos hfound, if_pos hfound]
          refine ⟨rfl, rfl, rfl, hread.trans ?_⟩
          simp
        · rw [if_neg hfound, if_neg hfound]
          obtain ⟨h₁, h₂, h₃, h₄⟩ := ih (p.next cfg pos) { w.read (p.remoteReads cfg pos) with
            state := { w.state with icmpSeedId := p.remoteSeed cfg w.state.icmpSeedId pos } }
          refine ⟨h₁, h₂, h₃, h₄.trans ?_⟩
          rw [hread, and_assoc, List.forall_mem_cons]
      · rw [if_neg hpos, if_neg hpos]
        simp

theorem restartAll_icmpSeedId (ms : List ℕ) (w : Walk) :
    (w.restartAll ms).state.icmpSeedId = w.state.icmpSeedId := by
  induction ms generalizing w with
  | nil => rfl
  | cons m ms ih => exact ih (w.restart m)

variable (cfg p) in
/-- The first pass stays inside if all its searches do. -/
theorem checkSeeds_spec (d : ℕ) (is : List ℕ) (pos : ℕ) {w : Walk} (hw : w.state.seeds = s.seeds) :
    (p.checkSeeds cfg d is pos w).state.icmpSeedId =
        (p.searches cfg ((is.filter fun i => (s.seeds i).domain = some d).map
          fun i => (s.seeds i).seedId) pos w.state.icmpSeedId).1 ∧
      ((p.checkSeeds cfg d is pos w).Inside p ↔ w.Inside p ∧
        ∀ pos' ∈ (p.searches cfg ((is.filter fun i => (s.seeds i).domain = some d).map
          fun i => (s.seeds i).seedId) pos w.state.icmpSeedId).2,
          p.HeaderInside (p.remotePad cfg pos') pos') := by
  induction is generalizing pos w with
  | nil => simp [Icmp.checkSeeds, Icmp.searches]
  | cons i is ih =>
      unfold Icmp.checkSeeds
      rw [hw]
      by_cases hd : (s.seeds i).domain = some d
      · obtain ⟨-, hpos, hid, hinside⟩ := findRemote_eq cfg p (s.seeds i).seedId p.len pos w
        have hseeds : (p.findRemote cfg (s.seeds i).seedId p.len pos w).2.2.state.seeds = s.seeds :=
          (findRemote_timers p _ p.len pos (OnlyTimers.refl cfg w.state)).seeds.trans hw
        have hfilter : (i :: is).filter (fun i => (s.seeds i).domain = some d) =
            i :: is.filter fun i => (s.seeds i).domain = some d :=
          List.filter_cons_of_pos (by simpa using hd)
        rw [if_pos hd, hfilter, List.map_cons, Icmp.searches]
        generalize p.findRemote cfg (s.seeds i).seedId p.len pos w = found at *
        obtain ⟨found, pos₁, w₁⟩ := found
        generalize p.search cfg (s.seeds i).seedId p.len pos w.state.icmpSeedId = result at *
        obtain ⟨found', pos₁', dst, visited⟩ := result
        dsimp only at hpos hid hinside hseeds ⊢
        subst hpos hid
        have hmissing : ∀ b : Bool,
            (if b then w₁ else ({ w₁ with rMissing := true } : Walk).restartAll
              (w₁.state.seeds i).minSeq).state.icmpSeedId = w₁.state.icmpSeedId ∧
            (if b then w₁ else ({ w₁ with rMissing := true } : Walk).restartAll
              (w₁.state.seeds i).minSeq).state.seeds = s.seeds ∧
            ((if b then w₁ else ({ w₁ with rMissing := true } : Walk).restartAll
              (w₁.state.seeds i).minSeq).Inside p ↔ w₁.Inside p) := by
          rintro (_ | _)
          · refine ⟨restartAll_icmpSeedId _ _, ?_, Walk.inside_restartAll _⟩
            exact (restartAll_timers (w := { w₁ with rMissing := true }) _
              (OnlyTimers.refl cfg w₁.state)).seeds.trans hseeds
          · exact ⟨rfl, hseeds, Iff.rfl⟩
        obtain ⟨hid, hseeds', hsame⟩ := hmissing found
        obtain ⟨h₁, h₂⟩ := ih pos₁ hseeds'
        rw [hid] at h₁ h₂
        refine ⟨h₁, h₂.trans ?_⟩
        rw [hsame, hinside, and_assoc, List.forall_mem_append]
      · have hfilter : (i :: is).filter (fun i => (s.seeds i).domain = some d) =
            is.filter fun i => (s.seeds i).domain = some d :=
          List.filter_cons_of_neg (by simpa using hd)
        rw [if_neg hd, hfilter]
        exact ih pos hw

/-! ## An entry -/

section Entry

variable {r fuel : ℕ}

variable (cfg p pos) in
theorem sync_state (seq turns r : ℕ) (w : Walk) :
    (p.sync cfg pos seq turns r w).2.state = w.state := by
  induction turns generalizing r w with
  | zero => rfl
  | succ turns ih =>
      unfold Icmp.sync
      split
      · refine (ih _ _).trans ?_
        split <;> rfl
      · rfl

theorem remainder_state (turns r : ℕ) (w : Walk) :
    (p.remainder cfg pos turns r w).state = w.state := by
  induction turns generalizing r w with
  | zero => rfl
  | succ turns ih =>
      unfold Icmp.remainder
      split
      · refine (ih _ _).trans ?_
        split <;> rfl
      · rfl

variable (cfg p pos) in
theorem overlap_icmpSeedId (ms : List ℕ) (r : ℕ) (w : Walk) :
    (p.overlap cfg pos ms r w).2.2.state.icmpSeedId = w.state.icmpSeedId := by
  induction ms generalizing r w with
  | nil => rfl
  | cons m ms ih =>
      have hsync := sync_state cfg p pos (w.state.msgs m).seq 256 r w
      unfold Icmp.overlap
      generalize p.sync cfg pos (w.state.msgs m).seq 256 r w = synced at hsync
      obtain ⟨r', w'⟩ := synced
      have hstep : ∀ b : Bool,
          (if b then p.getBit cfg pos r' w'
            else ({ p.getBit cfg pos r' w' with rMissing := true } : Walk).restart
              m).state.icmpSeedId = w.state.icmpSeedId := by
        have hid := congrArg State.icmpSeedId hsync
        rintro (_ | _)
        · exact hid
        · exact hid
      dsimp only
      split
      · exact (ih _ _).trans (hstep _)
      · exact hstep _

theorem compare_icmpSeedId (ms : List ℕ) (r : ℕ) (w : Walk) :
    (p.compare cfg pos ms r w).state.icmpSeedId = w.state.icmpSeedId := by
  have hoverlap := overlap_icmpSeedId cfg p pos ms r w
  unfold Icmp.compare
  generalize p.overlap cfg pos ms r w = overlapped at hoverlap
  obtain ⟨ms', r', w'⟩ := overlapped
  dsimp only at hoverlap ⊢
  split
  · rw [remainder_state, hoverlap]
  · split
    · exact (restartAll_icmpSeedId ms' _).trans hoverlap
    · exact hoverlap

theorem vectorLen_le (pos : ℕ) : p.vectorLen pos ≤ 248 := by
  unfold Icmp.vectorLen
  omega

/-- The loop for the bit of the smallest local message stops at the bit, or behind the vector. -/
theorem offset_eq {seq turns : ℕ} (hseq : seq < 256)
    (hr : r ≤ min (p.bitOf pos seq) (p.vectorLen pos + 1))
    (hturns : min (p.bitOf pos seq) (p.vectorLen pos + 1) - r ≤ turns) :
    p.offset pos seq turns r = min (p.bitOf pos seq) (p.vectorLen pos + 1) := by
  have hV := vectorLen_le (p := p) pos
  induction turns generalizing r with
  | zero =>
      unfold Icmp.offset
      omega
  | succ turns ih =>
      unfold Icmp.offset
      have hiff : seq = p.bitSeq pos r ↔ r = p.bitOf pos seq := bitSeq_eq_iff hseq (by omega)
      by_cases hgo : seq ≠ p.bitSeq pos r ∧ r ≤ p.vectorLen pos
      · have hne : r ≠ p.bitOf pos seq := fun h => hgo.1 (hiff.2 h)
        have hnext : (r + 1) % 256 = r + 1 := Nat.mod_eq_of_lt (by omega)
        rw [if_pos hgo, hnext]
        exact ih (by omega) (by omega)
      · rw [if_neg hgo]
        by_cases hat : r = p.bitOf pos seq
        · omega
        · have hbehind : ¬ r ≤ p.vectorLen pos := fun h => hgo ⟨fun heq => hat (hiff.1 heq), h⟩
          omega

theorem noOverlap_spec {ms : List ℕ} {last : ℕ}
    (h : p.noOverlap cfg fuel pos ms last w = some w') :
    (w'.Inside p ↔ w.Inside p ∧ p.LastOk cfg pos) ∧
      w'.state.icmpSeedId = w.state.icmpSeedId := by
  have hV := vectorLen_le (p := p) pos
  obtain ⟨⟨r', w₁⟩, hlast, hw'⟩ := Option.map_eq_some_iff.1 h
  obtain ⟨hlt, hbit, hstate, hinside, hclear⟩ := lastBit_spec (by omega) hlast
  have hok : ((if r' ≤ p.vectorLen pos then p.vectorLen pos else 255) < p.avail cfg pos) ↔
      p.LastOk cfg pos := by
    unfold Icmp.LastOk
    split
    · rename_i hle
      exact ⟨fun h => ⟨h, Or.inl ⟨r', hle, hbit⟩⟩, fun h => h.1⟩
    · rename_i hle
      constructor
      · exact fun h => ⟨by omega, Or.inr ⟨⟨r', hlt, hbit⟩, h⟩⟩
      · rintro ⟨-, ⟨q, hq, hset⟩ | ⟨-, h⟩⟩
        · rw [hclear (by omega) q hq] at hset
          cases hset
        · exact h
  rw [hok] at hinside
  have hid : w₁.state.icmpSeedId = w.state.icmpSeedId := by rw [hstate]
  subst hw'
  dsimp only
  split
  · exact ⟨(Walk.inside_restartAll ms).trans hinside, (restartAll_icmpSeedId ms _).trans hid⟩
  · exact ⟨hinside, hid⟩

theorem exists_noOverlap (h : p.LastOk cfg pos) (ms : List ℕ) (last : ℕ) (w : Walk) :
    ∃ w', p.noOverlap cfg 256 pos ms last w = some w' := by
  have hV := vectorLen_le (p := p) pos
  have hset : ∃ q < 256, p.bit cfg pos q = true := by
    rcases h.2 with ⟨q, hq, hset⟩ | ⟨hset, -⟩
    · exact ⟨q, by omega, hset⟩
    · exact hset
  obtain ⟨q, hq, hset⟩ := hset
  have hlast : ∃ r' w', p.lastBit cfg pos 256 (p.vectorLen pos) w = some (r', w') :=
    lastBit_eq_some (by omega) hq hset (Nat.mod_lt _ (by omega))
  obtain ⟨r', w₁, hlast⟩ := hlast
  unfold Icmp.noOverlap
  rw [hlast]
  exact ⟨_, rfl⟩

theorem bitOf_of_le {seq : ℕ} (hseq : seq < 256) (h : (p.payload pos).toNat ≤ seq) :
    p.bitOf pos seq = seq - (p.payload pos).toNat := by
  unfold Icmp.bitOf
  omega

/-- Whether the sets overlap, and where the comparison begins. -/
theorem knownSeed_cons (fuel m : ℕ) (rest : List ℕ) (w : Walk) :
    p.knownSeed cfg fuel pos (m :: rest) w =
      if (p.payload pos).toNat ≤ (w.state.msgs m).seq then
        if p.bitOf pos (w.state.msgs m).seq ≤ p.vectorLen pos then
          some (p.compare cfg pos (m :: rest) (p.bitOf pos (w.state.msgs m).seq) (w.read [pos]))
        else p.noOverlap cfg fuel pos (m :: rest) (rest.getLastD m) (w.read [pos])
      else if ∃ k ∈ m :: rest, (w.state.msgs k).seq = (p.payload pos).toNat then
        some (p.compare cfg pos
          ((m :: rest).dropWhile fun k => (w.state.msgs k).seq ≠ (p.payload pos).toNat) 0
          (w.read [pos]))
      else p.noOverlap cfg fuel pos (m :: rest) (rest.getLastD m) (w.read [pos]) := by
  have hV := vectorLen_le (p := p) pos
  have hmin := UInt8.toNat_lt (p.payload pos)
  have hseq : (w.state.msgs m).seq < 256 := Nat.mod_lt _ (by omega)
  have hstate : (w.read [pos]).state = w.state := rfl
  rw [Icmp.knownSeed]
  dsimp only
  rw [hstate]
  by_cases hle : (p.payload pos).toNat ≤ (w.state.msgs m).seq
  · have hbit := bitOf_of_le hseq hle
    rw [if_pos hle]
    by_cases heq : (w.state.msgs m).seq = (p.payload pos).toNat
    · rw [if_pos heq, if_pos (by omega), hbit, heq, Nat.sub_self]
    · have hgt : SeqValIsGt (w.state.msgs m).seq (p.payload pos).toNat :=
        (seqValIsGt_iff hseq hmin).2 (by omega)
      have hstart : p.start pos (m :: rest) (w.state.msgs m).seq w.state =
          (m :: rest, min (p.bitOf pos (w.state.msgs m).seq) (p.vectorLen pos + 1)) := by
        rw [Icmp.start, if_pos hgt, offset_eq hseq (Nat.zero_le _) (by omega)]
      rw [if_neg heq, hstart]
      by_cases hoverlap : p.bitOf pos (w.state.msgs m).seq ≤ p.vectorLen pos
      · have hnot : ¬ (p.vectorLen pos < p.bitOf pos (w.state.msgs m).seq ∨ m :: rest = []) := by
          rintro (hlt | hnil)
          · omega
          · cases hnil
        rw [if_pos hoverlap, Nat.min_eq_left (by omega), if_neg hnot]
      · rw [if_neg hoverlap, if_pos (Or.inl (by omega))]
  · have hgt : ¬ SeqValIsGt (w.state.msgs m).seq (p.payload pos).toNat := fun h =>
      hle (Nat.le_of_lt ((seqValIsGt_iff hseq hmin).1 h))
    have hstart : p.start pos (m :: rest) (w.state.msgs m).seq w.state =
        ((m :: rest).dropWhile fun k => (w.state.msgs k).seq ≠ (p.payload pos).toNat, 0) := by
      rw [Icmp.start, if_neg hgt]
    rw [if_neg hle, if_neg fun heq => hle (Nat.le_of_eq heq.symm), hstart]
    by_cases hmem : ∃ k ∈ m :: rest, (w.state.msgs k).seq = (p.payload pos).toNat
    · have hnot : ¬ (p.vectorLen pos < 0 ∨
          ((m :: rest).dropWhile fun k => (w.state.msgs k).seq ≠ (p.payload pos).toNat) = []) := by
        rintro (hlt | hnil)
        · exact Nat.not_lt_zero _ hlt
        · obtain ⟨k, hk, heq⟩ := hmem
          exact of_decide_eq_true (List.dropWhile_eq_nil_iff.1 hnil k hk) heq
      rw [if_pos hmem, if_neg hnot]
    · rw [if_neg hmem, if_pos (Or.inr (List.dropWhile_eq_nil_iff.2 fun k hk => ?_))]
      exact decide_eq_true fun heq => hmem ⟨k, hk, heq⟩

/-- What an entry of a seed that is known reads. -/
theorem knownSeed_spec {ms : List ℕ} (hpos : pos < p.len)
    (h : p.knownSeed cfg fuel pos ms w = some w') :
    (w'.Inside p ↔ w.Inside p ∧ p.KnownOk cfg pos (ms.map fun m => (w.state.msgs m).seq)) ∧
      w'.state.icmpSeedId = w.state.icmpSeedId := by
  cases ms with
  | nil =>
      have hread : (w.read [p.vector cfg pos]).Inside p ↔
          w.Inside p ∧ p.vector cfg pos < p.len := by
        rw [Walk.inside_read]
        simp
      obtain rfl := Option.some.inj h
      split
      · exact ⟨hread, rfl⟩
      · exact ⟨hread, rfl⟩
  | cons m rest =>
      have hread : (w.read [pos]).Inside p ↔ w.Inside p := by
        rw [Walk.inside_read]
        simp [hpos]
      have hbyte (m : ℕ) : (w.state.msgs m).seq < 256 := Nat.mod_lt _ (by omega)
      have hseqs : (w.read [pos]).HasSeqs fun m => (w.state.msgs m).seq := fun _ => rfl
      have hcompare (ms : List ℕ) {r : ℕ} (hr : r < 256) :
          ((p.compare cfg pos ms r (w.read [pos])).Inside p ↔ w.Inside p ∧
            Compares (p.avail cfg pos) (p.vectorLen pos)
              ((ms.map fun m => (w.state.msgs m).seq).map (p.bitOf pos)) r) ∧
          (p.compare cfg pos ms r (w.read [pos])).state.icmpSeedId = w.state.icmpSeedId := by
        rw [List.map_map]
        exact ⟨(compare_inside hbyte ms hr hseqs).trans (and_congr_left fun _ => hread),
          compare_icmpSeedId ms r _⟩
      have hlast (h : p.noOverlap cfg fuel pos (m :: rest) (rest.getLastD m) (w.read [pos]) =
          some w') : (w'.Inside p ↔ w.Inside p ∧ p.LastOk cfg pos) ∧
            w'.state.icmpSeedId = w.state.icmpSeedId := by
        obtain ⟨hinside, hid⟩ := noOverlap_spec h
        exact ⟨hinside.trans (and_congr_left fun _ => hread), hid⟩
      rw [knownSeed_cons] at h
      rw [List.map_cons, Icmp.KnownOk]
      split at h
      · rename_i hle
        rw [if_pos hle]
        split at h
        · rename_i hoverlap
          obtain rfl := Option.some.inj h
          rw [if_pos hoverlap]
          exact hcompare (m :: rest) (bitOf_lt _ _)
        · rename_i hoverlap
          rw [if_neg hoverlap]
          exact hlast h
      · rename_i hle
        rw [if_neg hle]
        split at h
        · rename_i hmem
          have hmap : (p.payload pos).toNat ∈
              (w.state.msgs m).seq :: rest.map fun m => (w.state.msgs m).seq :=
            List.mem_map.2 hmem
          have hdrop : ((w.state.msgs m).seq :: rest.map fun m => (w.state.msgs m).seq).dropWhile
              (· ≠ (p.payload pos).toNat) =
                ((m :: rest).dropWhile fun k =>
                  (w.state.msgs k).seq ≠ (p.payload pos).toNat).map fun m => (w.state.msgs m).seq :=
            List.dropWhile_map (f := fun m => (w.state.msgs m).seq) (l := m :: rest)
          obtain rfl := Option.some.inj h
          rw [if_pos hmap, hdrop]
          exact hcompare _ (by omega)
        · rename_i hmem
          have hmap : (p.payload pos).toNat ∉
              (w.state.msgs m).seq :: rest.map fun m => (w.state.msgs m).seq :=
            fun h => hmem (List.mem_map.1 h)
          rw [if_neg hmap]
          exact hlast h

theorem exists_knownSeed {ms : List ℕ}
    (h : p.KnownOk cfg pos (ms.map fun m => (w.state.msgs m).seq)) :
    ∃ w', p.knownSeed cfg 256 pos ms w = some w' := by
  cases ms with
  | nil => exact ⟨_, rfl⟩
  | cons m rest =>
      rw [List.map_cons, Icmp.KnownOk] at h
      rw [knownSeed_cons]
      split
      · rename_i hle
        rw [if_pos hle] at h
        split
        · exact ⟨_, rfl⟩
        · rename_i hoverlap
          rw [if_neg hoverlap] at h
          exact exists_noOverlap h _ _ _
      · rename_i hle
        rw [if_neg hle] at h
        split
        · exact ⟨_, rfl⟩
        · rename_i hmem
          have hmap : (p.payload pos).toNat ∉
              (w.state.msgs m).seq :: rest.map fun m => (w.state.msgs m).seq :=
            fun h => hmem (List.mem_map.1 h)
          rw [if_neg hmap] at h
          exact exists_noOverlap h _ _ _

end Entry

/-! ## The second pass -/

theorem seedSetLookup_congr {s' : State} (h : s'.seeds = s.seeds) (seedId : SeedId) (d : ℕ) :
    seedSetLookup cfg seedId d s' = seedSetLookup cfg seedId d s := by
  unfold seedSetLookup
  rw [h]

variable (p pos) in
/-- One turn of the second pass, once the seed id is read. -/
theorem entry_eq (fuel d : ℕ) (hw : OnlyTimers cfg s w.state) :
    ∃ w₁ : Walk, (w₁.Inside p ↔ w.Inside p ∧ p.HeaderInside 0 pos) ∧
      w₁.state.icmpSeedId = p.entrySeed w.state.icmpSeedId pos ∧
      (∀ m, (w₁.state.msgs m).seq = (s.msgs m).seq) ∧
      p.entry cfg fuel d pos w =
        (seedSetLookup cfg (p.entrySeed w.state.icmpSeedId pos) d s).elim
          (some { w₁ with lMissing := true })
          fun i => p.knownSeed cfg fuel pos (s.seeds i).minSeq w₁ := by
  refine ⟨{ w.read (p.entryReads pos) with
    state := { w.state with icmpSeedId := p.entrySeed w.state.icmpSeedId pos } },
    ?_, rfl, hw.seq, ?_⟩
  · refine Iff.trans ?_ (and_congr_right fun _ => entryReads_inside)
    exact Walk.inside_read _
  · rw [Icmp.entry]
    dsimp only
    rw [seedSetLookup_congr (s := s) (by exact hw.seeds)]
    cases seedSetLookup cfg (p.entrySeed w.state.icmpSeedId pos) d s with
    | none => rfl
    | some i =>
        dsimp only
        rw [hw.seeds]
        rfl

theorem entry_spec {fuel d : ℕ} (hw : OnlyTimers cfg s w.state) (hpos : pos < p.len)
    (h : p.entry cfg fuel d pos w = some w') :
    (w'.Inside p ↔ w.Inside p ∧
        p.EntryOk cfg s d (pos, p.entrySeed w.state.icmpSeedId pos)) ∧
      w'.state.icmpSeedId = p.entrySeed w.state.icmpSeedId pos := by
  obtain ⟨w₁, hread, hid, hseq, heq⟩ := entry_eq p pos fuel d hw
  rw [heq] at h
  unfold Icmp.EntryOk
  dsimp only
  cases hlookup : seedSetLookup cfg (p.entrySeed w.state.icmpSeedId pos) d s with
  | none =>
      rw [hlookup] at h
      obtain rfl := Option.some.inj h
      refine ⟨?_, hid⟩
      have hnone : (∀ i, (none : Option ℕ) = some i →
          p.KnownOk cfg pos ((s.seeds i).minSeq.map fun m => (s.msgs m).seq)) := fun i hi => by
        cases hi
      rw [and_iff_left hnone]
      exact hread
  | some i =>
      rw [hlookup] at h
      obtain ⟨hinside, hid'⟩ := knownSeed_spec hpos h
      rw [hread, List.map_congr_left fun m _ => hseq m] at hinside
      refine ⟨hinside.trans ?_, hid'.trans hid⟩
      rw [and_assoc]
      refine and_congr_right fun _ => and_congr_right fun _ => ⟨fun hok j hj => ?_, fun hok => ?_⟩
      · obtain rfl := Option.some.inj hj
        exact hok
      · exact hok i rfl

theorem exists_entry {d : ℕ} (hw : OnlyTimers cfg s w.state)
    (h : p.EntryOk cfg s d (pos, p.entrySeed w.state.icmpSeedId pos)) :
    ∃ w', p.entry cfg 256 d pos w = some w' := by
  obtain ⟨w₁, -, -, hseq, heq⟩ := entry_eq p pos 256 d hw
  rw [heq]
  cases hlookup : seedSetLookup cfg (p.entrySeed w.state.icmpSeedId pos) d s with
  | none => exact ⟨_, rfl⟩
  | some i =>
      refine exists_knownSeed ?_
      rw [List.map_congr_left fun m _ => hseq m]
      exact h.2 i hlookup

theorem entries_spec {fuel d turns : ℕ} (hw : OnlyTimers cfg s w.state)
    (h : p.entries cfg fuel d turns pos w = some w') :
    w'.Inside p ↔ w.Inside p ∧
      ∀ e ∈ p.entryList cfg turns pos w.state.icmpSeedId, p.EntryOk cfg s d e := by
  induction turns generalizing pos w with
  | zero =>
      obtain rfl := Option.some.inj h
      simp [Icmp.entryList]
  | succ turns ih =>
      rw [Icmp.entries] at h
      rw [Icmp.entryList]
      by_cases hpos : pos < p.len
      · rw [if_pos hpos] at h ⊢
        obtain ⟨w₁, hentry, hrest⟩ := Option.bind_eq_some_iff.1 h
        obtain ⟨hinside, hid⟩ := entry_spec hw hpos hentry
        have hiff := ih (entry_timers p hw hentry) hrest
        rw [hid, hinside, and_assoc] at hiff
        rw [hiff, List.forall_mem_cons]
      · rw [if_neg hpos] at h ⊢
        obtain rfl := Option.some.inj h
        simp

theorem exists_entries {d turns : ℕ} (hw : OnlyTimers cfg s w.state)
    (h : ∀ e ∈ p.entryList cfg turns pos w.state.icmpSeedId, p.EntryOk cfg s d e) :
    ∃ w', p.entries cfg 256 d turns pos w = some w' := by
  induction turns generalizing pos w with
  | zero => exact ⟨w, rfl⟩
  | succ turns ih =>
      rw [Icmp.entryList] at h
      rw [Icmp.entries]
      by_cases hpos : pos < p.len
      · rw [if_pos hpos] at h ⊢
        rw [List.forall_mem_cons] at h
        obtain ⟨w₁, hentry⟩ := exists_entry hw h.1
        rw [hentry, Option.bind_some]
        refine ih (entry_timers p hw hentry) ?_
        rw [(entry_spec hw hpos hentry).2]
        exact h.2
      · rw [if_neg hpos]
        exact ⟨w, rfl⟩

/-! ## The handler -/

theorem Walk.inside_start (s : State) : Walk.Inside p ⟨s, [], [], false, false⟩ := by
  constructor
  · intro k hk
    cases hk
  · intro g hg
    cases hg

theorem settle_inside (d : ℕ) (w : Walk) : (Icmp.settle d w).Inside p ↔ w.Inside p := by
  unfold Icmp.settle
  split
  · exact Iff.rfl
  · split
    · exact Iff.rfl
    · exact Iff.rfl

section Handler

/-- The messages that are read inside their bounds, seen from the walk behind the first pass. -/
theorem ok_iff {d : ℕ} {s' : State} (hchecks : p.checks cfg = true)
    (hdomain : p.domain cfg s = (some d, s')) :
    p.Ok cfg s ↔
      (p.checkSeeds cfg d (List.range cfg.seedSetSize).reverse 0
        ⟨s', [], [], false, false⟩).Inside p ∧
      ∀ e ∈ p.entryList cfg p.len 0 (p.checkSeeds cfg d (List.range cfg.seedSetSize).reverse 0
        ⟨s', [], [], false, false⟩).state.icmpSeedId, p.EntryOk cfg s' d e := by
  obtain ⟨hid, hinside⟩ := checkSeeds_spec cfg p d (List.range cfg.seedSetSize).reverse 0
    (show (⟨s', [], [], false, false⟩ : Walk).state.seeds = s'.seeds from rfl)
  rw [hid, hinside, and_iff_right (Walk.inside_start s')]
  constructor
  · exact fun h => h hchecks d s' hdomain
  · intro h _ d' s'' heq
    obtain ⟨hd, rfl⟩ := Prod.mk.inj (hdomain.symm.trans heq)
    obtain rfl := Option.some.inj hd
    exact h

/-- A message that is handled is read inside exactly if it is `Ok`. -/
theorem icmpIn_spec {fuel : ℕ} (h : icmpIn cfg fuel p s = some w) :
    w.Inside p ↔ p.Ok cfg s := by
  unfold icmpIn at h
  by_cases hchecks : p.checks cfg = true
  · rw [if_pos hchecks] at h
    cases hdomain : p.domain cfg s with
    | mk found s' =>
        rw [hdomain] at h
        cases found with
        | none =>
            obtain rfl := Option.some.inj h
            refine iff_of_true (Walk.inside_start s') fun _ d s'' heq => ?_
            rw [hdomain] at heq
            cases heq
        | some d =>
            obtain ⟨w₁, hentries, rfl⟩ := Option.map_eq_some_iff.1 h
            have htimers : OnlyTimers cfg s' (p.checkSeeds cfg d
                (List.range cfg.seedSetSize).reverse 0 ⟨s', [], [], false, false⟩).state :=
              checkSeeds_timers p d _ 0 (OnlyTimers.refl cfg s')
            rw [settle_inside, entries_spec htimers hentries, ok_iff hchecks hdomain]
  · rw [if_neg hchecks] at h
    obtain rfl := Option.some.inj h
    exact iff_of_true (Walk.inside_start s) fun hc => absurd hc hchecks

/-- A message that is `Ok` is handled to its end. -/
theorem exists_icmpIn (h : p.Ok cfg s) : ∃ w, icmpIn cfg 256 p s = some w := by
  unfold icmpIn
  by_cases hchecks : p.checks cfg = true
  · rw [if_pos hchecks]
    cases hdomain : p.domain cfg s with
    | mk found s' =>
        cases found with
        | none => exact ⟨_, rfl⟩
        | some d =>
            have htimers : OnlyTimers cfg s' (p.checkSeeds cfg d
                (List.range cfg.seedSetSize).reverse 0 ⟨s', [], [], false, false⟩).state :=
              checkSeeds_timers p d _ 0 (OnlyTimers.refl cfg s')
            obtain ⟨w, hw⟩ := exists_entries htimers ((ok_iff hchecks hdomain).1 h).2
            exact ⟨_, congrArg (Option.map (Icmp.settle d)) hw⟩
  · rw [if_neg hchecks]
    exact ⟨_, rfl⟩

end Handler

/-- `icmp_in` ends and reads inside the message exactly if the message is `Ok`. -/
theorem icmpIn_inside_iff (cfg : Config) (p : Icmp) (s : State) :
    (∃ fuel w, icmpIn cfg fuel p s = some w ∧ w.Inside p) ↔ p.Ok cfg s := by
  constructor
  · rintro ⟨fuel, w, hw, hin⟩
    exact (icmpIn_spec hw).1 hin
  · intro h
    obtain ⟨w, hw⟩ := exists_icmpIn h
    exact ⟨256, w, hw, (icmpIn_spec hw).2 h⟩

/-- An entry of the seed `fd00::1` from the seed itself: the message 5 and seven bits more. -/
def fiveMessage : Icmp where
  srcipaddr := (seedMessage 0).srcipaddr
  destipaddr := fun i => if i.val = 1 then 0x02 else siteAddr i
  type := Icmp.icmp6Mpl
  icode := 0
  ttl := 0xFF
  payload := fun k => if k = 0 then 5 else if k = 1 then 4 else if k = 2 then 0x80 else 0
  len := 3

/-- Where the message 20 is buffered, the search for the last bit of an entry of eight bits
begins at the bit 8. -/
theorem not_icmpIn_inside_eight : ¬ ∀ (cfg : Config) (maddrs : ℕ → Option Ip6Addr)
    (behind : Seed) (global : Option Ip6Addr) (es : List Event) (s : State),
    Transition.run (step cfg) es (boot cfg maddrs behind global) = some s →
      ∀ p : Icmp, ∃ fuel w, icmpIn cfg fuel p s = some w ∧ w.Inside p := by
  intro h
  have hrun : (Transition.run (step smallConfig) [.data (seedMessage 20) false] smallBoot).map
      (fun s => ((fiveMessage.domain smallConfig s).1,
        seedSetLookup smallConfig (fiveMessage.entrySeed s.icmpSeedId 0) 0
          (fiveMessage.domain smallConfig s).2,
        ((fiveMessage.domain smallConfig s).2.seeds 0).minSeq.map fun m =>
          ((fiveMessage.domain smallConfig s).2.msgs m).seq)) =
      some (some 0, some 0, [20]) := by
    decide +kernel
  obtain ⟨s, hs, hstate⟩ := Option.map_eq_some_iff.1 hrun
  obtain ⟨hdomain, hrest⟩ := Prod.mk.inj hstate
  obtain ⟨hlookup, hseqs⟩ := Prod.mk.inj hrest
  obtain ⟨fuel, w, hw, hin⟩ := h smallConfig smallMaddrs Seed.zero none _ s hs fiveMessage
  obtain ⟨-, hentries⟩ := (icmpIn_spec hw).1 hin (by decide) 0 _ (Prod.ext hdomain rfl)
  obtain ⟨-, hknown⟩ := hentries _ List.mem_cons_self
  have hlast : fiveMessage.KnownOk smallConfig 0 [20] := hseqs ▸ hknown 0 hlookup
  rw [Icmp.KnownOk, if_pos (by decide), if_neg (by decide)] at hlast
  exact absurd hlast.1 (by decide)

end Den2ne.Mpl
