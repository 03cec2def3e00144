import Den2ne.Frame802154e.Elements

/-!
# Single elements

What is parsed from the memory: numbers, links and the content of one element, with the condition
under which it is accepted. The content of each kind is read within its length, but for two kinds
in which a fixed byte is read first.
-/

namespace Den2ne.Frame802154e

open Reads Reads.Transfer

variable {data : ℕ → UInt8} {n m buf len subId k : ℕ} {cfg : Config}

/-- The 16-bit number at `p`. -/
def valueAt (data : ℕ → UInt8) (p : ℕ) : ℕ := (data p).toNat + 256 * (data (p + 1)).toNat

/-- The `k` numbers from `p` on. -/
def valuesAt (data : ℕ → UInt8) (p : ℕ) : ℕ → List UInt16
  | 0 => []
  | k + 1 => UInt16.ofNat (valueAt data p) :: valuesAt data (p + 2) k

/-- The `k` links from `p` on. -/
def linksAt (data : ℕ → UInt8) (p : ℕ) : ℕ → List IeLink
  | 0 => []
  | k + 1 =>
      ⟨UInt16.ofNat (valueAt data p), UInt16.ofNat (valueAt data (p + 2)), data (p + 4)⟩ ::
        linksAt data (p + 5) k

theorem safe_read16 (h : buf + 2 ≤ n) : Safe data n m (read16 buf) True (valueAt data buf) :=
  (Safe.get (by omega)).seq ((Safe.get (by omega)).seq (Safe.done _))

theorem readsBelow_read16 : ReadsBelow data n (read16 buf) ↔ buf + 2 ≤ n := by
  constructor
  · intro h
    rw [read16, readsBelow_bind] at h
    have h := h.2 _ (run_get data buf)
    rw [readsBelow_bind, readsBelow_get] at h
    omega
  · exact fun h => (safe_read16 (m := 0) h).reads

theorem safe_read16s (h : buf + 2 * k ≤ n) :
    Safe data n m (read16s buf k) True (valuesAt data buf k) := by
  induction k generalizing buf with
  | zero => exact Safe.done _
  | succ k ih => exact (safe_read16 (by omega)).seq ((ih (by omega)).seq (Safe.done _))

theorem safe_readBytes (h : buf + k ≤ n) :
    Safe data n m (readBytes buf k) True (Memory.load data buf k) := by
  induction k generalizing buf with
  | zero => exact Safe.done _
  | succ k ih =>
      rw [Memory.load_succ]
      exact (Safe.get (by omega)).seq ((ih (by omega)).seq (Safe.done _))

theorem safe_readLinks (h : buf + 5 * k ≤ n) :
    Safe data n m (readLinks buf k) True (linksAt data buf k) := by
  induction k generalizing buf with
  | zero => exact Safe.done _
  | succ k ih =>
      refine (safe_read16 (by omega)).seq ((safe_read16 (by omega)).seq ?_)
      exact (Safe.get (by omega)).seq ((ih (by omega)).seq (Safe.done _))

/-! ## What is accepted -/

/-- A header element that is accepted. -/
def HeaderOk (len subId : ℕ) : Prop := subId = headerIeAckNackTimeCorrection ∧ len = 2

/-- A short sub-element that is accepted. -/
def ShortOk (data : ℕ → UInt8) (buf len subId : ℕ) : Prop :=
  (subId = mlmeShortIeTschSloftrameAndLink ∧ 1 ≤ len ∧ (data buf = 0 ∨ data buf = 1 ∧
    (data (buf + 4)).toNat ≤ frame802154eIeMaxLinks ∧ len = 5 + 5 * (data (buf + 4)).toNat)) ∨
  (subId = mlmeShortIeTschSynchronization ∧ len = 6) ∨
  (subId = mlmeShortIeTschTimeslot ∧ (len = 1 ∨ len = 25))

/-- A long sub-element that is accepted. -/
def LongOk (len subId : ℕ) : Prop := subId = mlmeLongIeTschChannelHoppingSequence ∧ 0 < len

instance : Decidable (HeaderOk len subId) := inferInstanceAs (Decidable (_ ∧ _))

instance : Decidable (ShortOk data buf len subId) := inferInstanceAs (Decidable (_ ∨ _))

instance : Decidable (LongOk len subId) := inferInstanceAs (Decidable (_ ∧ _))

/-- What a header element leads to. -/
def headerIes (data : ℕ → UInt8) (buf : ℕ) (ies : Ies) : Ies :=
  { ies with
    ieIsNack := if 0x8000 ≤ valueAt data buf then 1 else 0
    ieTimeCorrection := driftUs (valueAt data buf) }

/-- What the element with the slotframe and its links leads to. -/
def slotframeIes (data : ℕ → UInt8) (buf : ℕ) (ies : Ies) : Ies :=
  if data buf = 0 then ies
  else { ies with ieTschSlotframeAndLink :=
    ⟨data buf, data (buf + 1), UInt16.ofNat (valueAt data (buf + 2)), data (buf + 4),
      Memory.store ies.ieTschSlotframeAndLink.links 0
        (linksAt data (buf + 5) (data (buf + 4)).toNat)⟩ }

/-- What the synchronization element leads to. -/
def synchronizationIes (data : ℕ → UInt8) (buf : ℕ) (ies : Ies) : Ies :=
  { ies with
    ieAsn := ⟨UInt32.ofNat (valueAt data buf + 65536 * valueAt data (buf + 2)), data (buf + 4)⟩
    ieJoinPriority := data (buf + 5) }

/-- What the timeslot element leads to. -/
def timeslotIes (data : ℕ → UInt8) (buf len : ℕ) (ies : Ies) : Ies :=
  { ies with
    ieTschTimeslotId := data buf
    ieTschTimeslot :=
      if len = 25 then
        Memory.store ies.ieTschTimeslot 0 (valuesAt data (buf + 1) tschTsElementsCount)
      else ies.ieTschTimeslot }

/-- What a short sub-element leads to. -/
def shortIes (data : ℕ → UInt8) (buf len subId : ℕ) (ies : Ies) : Ies :=
  if subId = mlmeShortIeTschSloftrameAndLink then slotframeIes data buf ies
  else if subId = mlmeShortIeTschSynchronization then synchronizationIes data buf ies
  else timeslotIes data buf len ies

/-- What a long sub-element leads to. -/
def longIes (cfg : Config) (data : ℕ → UInt8) (buf len : ℕ) (ies : Ies) : Ies :=
  { ies with
    ieChannelHoppingSequenceId := data buf
    ieHoppingSequenceLen :=
      if 1 < len then UInt16.ofNat (valueAt data (buf + 8)) else ies.ieHoppingSequenceLen
    ieHoppingSequenceList :=
      if 1 < len ∧ valueAt data (buf + 8) ≤ cfg.tschHoppingSequenceMaxLen ∧
          len = 12 + valueAt data (buf + 8) then
        Memory.store ies.ieHoppingSequenceList 0
          (Memory.load data (buf + 10) (valueAt data (buf + 8)))
      else ies.ieHoppingSequenceList }

/-! ## The parsers -/

theorem safe_parseHeaderIe (ies : Ies) (h : buf + len ≤ n) :
    Safe data n m (frame802154eParseHeaderIe buf len subId ies) (HeaderOk len subId)
      (headerIes data buf ies) := by
  unfold frame802154eParseHeaderIe
  split
  · rename_i hid
    refine Safe.congr ((Safe.require _).check fun hlen => ?_) (and_iff_right hid).symm
    exact (safe_read16 (by omega)).seq (Safe.done _)
  · rename_i hid
    exact (Safe.fail _).congr (iff_of_false id fun h => hid h.1)

theorem u8_eq_zero_or_one {b : UInt8} (h : b ≠ 0) : b.toNat ≤ 1 ↔ b = 1 := by
  have hpos : b.toNat ≠ 0 := fun h0 => h (UInt8.toNat_inj.1 h0)
  constructor
  · intro hle
    exact UInt8.toNat_inj.1 (by rw [UInt8.toNat_one]; omega)
  · intro hb
    rw [hb]
    decide

theorem safe_slotframe (ies : Ies) (h : buf + len ≤ n)
    (hfit : subId = mlmeShortIeTschSloftrameAndLink → 1 ≤ len → buf + 5 ≤ n)
    (hid : subId = mlmeShortIeTschSloftrameAndLink) :
    Safe data n m (frame802154eParseMlmeShortIe buf len subId ies)
      (1 ≤ len ∧ (data buf = 0 ∨ data buf = 1 ∧
        (data (buf + 4)).toNat ≤ frame802154eIeMaxLinks ∧ len = 5 + 5 * (data (buf + 4)).toNat))
      (slotframeIes data buf ies) := by
  unfold frame802154eParseMlmeShortIe slotframeIes
  rw [if_pos hid]
  refine (Safe.require _).bind fun hlen => ?_
  have hroom := hfit hid hlen
  refine (Safe.get (by omega)).seq ((Safe.get (by omega)).seq ?_)
  by_cases hzero : data buf = 0
  · rw [if_pos hzero, if_pos hzero]
    exact (Safe.done _).congr (iff_of_true trivial (.inl hzero))
  · rw [if_neg hzero, if_neg hzero]
    refine Safe.congr ((Safe.require _).check fun hok => ?_) ?_
    · obtain ⟨hone, -, hlen'⟩ := hok
      rw [(u8_eq_zero_or_one hzero).1 hone, UInt8.toNat_one] at hlen'
      refine (Safe.get (by omega)).seq ((safe_read16 (by omega)).seq ?_)
      exact (safe_readLinks (by omega)).seq (Safe.done _)
    · rw [u8_eq_zero_or_one hzero, or_iff_right hzero]
      refine and_congr_right fun hone => and_congr_right fun _ => ?_
      rw [hone, UInt8.toNat_one]
      omega

theorem safe_parseMlmeShortIe (ies : Ies) (h : buf + len ≤ n)
    (hfit : subId = mlmeShortIeTschSloftrameAndLink → 1 ≤ len → buf + 5 ≤ n) :
    Safe data n m (frame802154eParseMlmeShortIe buf len subId ies) (ShortOk data buf len subId)
      (shortIes data buf len subId ies) := by
  by_cases hslotframe : subId = mlmeShortIeTschSloftrameAndLink
  · rw [shortIes, if_pos hslotframe]
    refine (safe_slotframe ies h hfit hslotframe).congr ?_
    rw [ShortOk, hslotframe]
    simp [mlmeShortIeTschSloftrameAndLink, mlmeShortIeTschSynchronization,
      mlmeShortIeTschTimeslot]
  · rw [frame802154eParseMlmeShortIe, shortIes, if_neg hslotframe, if_neg hslotframe]
    by_cases hsync : subId = mlmeShortIeTschSynchronization
    · rw [if_pos hsync, if_pos hsync]
      refine Safe.congr ((Safe.require _).check fun hlen => ?_) ?_
      · refine (safe_read16 (by omega)).seq ((safe_read16 (by omega)).seq ?_)
        exact (Safe.get (by omega)).seq ((Safe.get (by omega)).seq (Safe.done _))
      · rw [ShortOk, hsync]
        simp [mlmeShortIeTschSloftrameAndLink, mlmeShortIeTschSynchronization,
          mlmeShortIeTschTimeslot]
    · rw [if_neg hsync, if_neg hsync]
      by_cases htimeslot : subId = mlmeShortIeTschTimeslot
      · rw [if_pos htimeslot]
        refine Safe.congr ((Safe.require _).check fun hlen => ?_) ?_
        · refine (Safe.get (by omega)).seq ?_
          unfold timeslotIes
          split
          · rename_i hfull
            exact (safe_read16s (by rw [tschTsElementsCount]; omega)).seq (Safe.done _)
          · exact Safe.done _
        · rw [ShortOk, htimeslot]
          simp [mlmeShortIeTschSloftrameAndLink, mlmeShortIeTschSynchronization,
            mlmeShortIeTschTimeslot]
      · rw [if_neg htimeslot]
        refine (Safe.fail _).congr (iff_of_false id ?_)
        rintro (⟨h, -⟩ | ⟨h, -⟩ | ⟨h, -⟩)
        · exact hslotframe h
        · exact hsync h
        · exact htimeslot h

theorem safe_parseMlmeLongIe (ies : Ies) (h : buf + len ≤ n)
    (hfit : subId = mlmeLongIeTschChannelHoppingSequence → 1 < len → buf + 10 ≤ n) :
    Safe data n m (frame802154eParseMlmeLongIe cfg buf len subId ies) (LongOk len subId)
      (longIes cfg data buf len ies) := by
  unfold frame802154eParseMlmeLongIe longIes
  split
  · rename_i hid
    refine Safe.congr ((Safe.require _).check fun hpos => ?_) (and_iff_right hid).symm
    refine (Safe.get (by omega)).seq ?_
    by_cases hlong : 1 < len
    · have hroom := hfit hid hlong
      simp only [hlong, true_and]
      refine (safe_read16 (by omega)).seq ?_
      split
      · rename_i hlist
        exact (safe_readBytes (by omega)).seq (Safe.done _)
      · exact Safe.done _
    · simp only [hlong, false_and, if_false]
      exact Safe.done _
  · rename_i hid
    exact (Safe.fail _).congr (iff_of_false id fun h => hid h.1)

/-- The fifth byte of a slotframe element is read even if the element is shorter. -/
theorem not_readsBelow_slotframe (ies : Ies) (hid : subId = mlmeShortIeTschSloftrameAndLink)
    (hlen : 1 ≤ len) (hroom : n < buf + 5) :
    ¬ ReadsBelow data n (frame802154eParseMlmeShortIe buf len subId ies) := by
  unfold frame802154eParseMlmeShortIe
  rw [if_pos hid, readsBelow_bind, run_require, if_pos hlen]
  intro h
  have h := h.2 () rfl
  rw [readsBelow_bind] at h
  have h := h.2 _ (run_get data buf)
  rw [readsBelow_bind, readsBelow_get] at h
  omega

/-- The length of a hopping sequence is read even if the element is shorter. -/
theorem not_readsBelow_hopping (ies : Ies) (hid : subId = mlmeLongIeTschChannelHoppingSequence)
    (hlen : 1 < len) (hroom : n < buf + 10) :
    ¬ ReadsBelow data n (frame802154eParseMlmeLongIe cfg buf len subId ies) := by
  have hpos : 0 < len := by omega
  unfold frame802154eParseMlmeLongIe
  rw [if_pos hid, readsBelow_bind, run_require, if_pos hpos]
  intro h
  have h := h.2 () rfl
  rw [readsBelow_bind] at h
  have h := h.2 _ (run_get data buf)
  rw [if_pos hlen, readsBelow_bind, readsBelow_read16] at h
  omega

end Den2ne.Frame802154e
