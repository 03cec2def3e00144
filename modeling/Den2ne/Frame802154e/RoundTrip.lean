import Den2ne.Frame802154e.Create
import Den2ne.Frame802154e.Inside
import Den2ne.Memory.At

/-!
# Information elements are read back

Every function writes its element within the length that it is given, but for the hopping sequence
with the identifier 0; and the parser takes from the elements of a frame what was put in.
-/

namespace Den2ne.Frame802154e

open Reads Reads.Transfer
open Memory (At at_nil at_cons at_append load store)

variable {cfg : Config} {data m m' : ℕ → UInt8} {p q size len v : ℕ} {src dst ies : Ies}
  {c : Created} {e : Element} {es : List Element} {sub : SubElement} {subs : List SubElement}

/-! ## Numbers -/

@[simp] theorem length_write16 (v : ℕ) : (write16 v).length = 2 := rfl

theorem valueAt_eq_mod (h : At data p (write16 v)) : valueAt data p = v % 65536 := by
  obtain ⟨hlow, hhigh, -⟩ := (at_cons.1 h).imp_right at_cons.1
  rw [valueAt, hlow, hhigh, UInt8.toNat_ofNat', UInt8.toNat_ofNat']
  omega

theorem valueAt_of_at (h : At data p (write16 v)) (hv : v < 65536) : valueAt data p = v :=
  (valueAt_eq_mod h).trans (Nat.mod_eq_of_lt hv)

theorem valuesAt_of_at {vs : List UInt16} (h : At data p (vs.flatMap fun v => write16 v.toNat)) :
    valuesAt data p vs.length = vs := by
  induction vs generalizing p with
  | nil => rfl
  | cons v vs ih =>
      rw [List.flatMap_cons, at_append, length_write16] at h
      rw [List.length_cons, valuesAt, valueAt_of_at h.1 v.toNat_lt, UInt16.ofNat_toNat, ih h.2]

theorem linksAt_of_at {ls : List IeLink} (h : At data p (ls.flatMap linkBytes)) :
    linksAt data p ls.length = ls := by
  induction ls generalizing p with
  | nil => rfl
  | cons l ls ih =>
      simp only [List.flatMap_cons, linkBytes, at_append, at_cons, List.length_append,
        length_write16, List.length_singleton, Nat.reduceAdd] at h
      obtain ⟨⟨⟨htimeslot, hchannel⟩, hoptions, -⟩, hrest⟩ := h
      rw [List.length_cons, linksAt, valueAt_of_at htimeslot l.timeslot.toNat_lt,
        valueAt_of_at hchannel l.channelOffset.toNat_lt, hoptions, UInt16.ofNat_toNat,
        UInt16.ofNat_toNat, ih hrest]

/-- A signed number of 12 bits is taken from its field again. -/
theorem driftUs_field {x : ℤ} {b : ℕ} (hlow : -2048 ≤ x) (hhigh : x < 2048) (hb : b % 0x1000 = 0) :
    driftUs ((x % 0x1000).toNat + b) = x := by
  unfold driftUs
  split <;> omega

/-! ## Bounds -/

/-- The length of the content of an element, which the descriptor announces; an MLME element
announces the elements that follow it. -/
def Element.contentLen (e : Element) (ieDesc : ℕ) : ℕ :=
  match e with
  | .ackNackTimeCorrection | .headerListTermination1 | .headerListTermination2 => headerLen ieDesc
  | .payloadListTermination | .sub .channelHoppingSequence => payloadLen ieDesc
  | .mlme => 0
  | .sub _ => shortLen ieDesc

/-- The element is written within the length, and what is returned is the length of the descriptor
and of the content. -/
structure Created.Inside (c : Created) (e : Element) (len : ℕ) : Prop where
  written : 2 + c.content.length ≤ len
  value : c.value = 2 + e.contentLen c.ieDesc

theorem createEmpty_eq_some {ieDesc : ℕ} (h : createEmpty ieDesc len = some c) :
    2 ≤ len ∧ c = ⟨ieDesc, [], 2⟩ := by
  unfold createEmpty at h
  split at h
  · next hlen => exact ⟨hlen, (Option.some.inj h).symm⟩
  · cases h

theorem length_links (ls : List IeLink) : (ls.flatMap linkBytes).length = 5 * ls.length := by
  induction ls with
  | nil => rfl
  | cons l ls ih =>
      rw [List.flatMap_cons, List.length_append, ih, List.length_cons]
      simp only [linkBytes, List.length_append, length_write16, List.length_singleton]
      omega

theorem length_values (vs : List UInt16) :
    (vs.flatMap fun v => write16 v.toNat).length = 2 * vs.length := by
  induction vs with
  | nil => rfl
  | cons v vs ih =>
      rw [List.flatMap_cons, List.length_append, ih, List.length_cons, length_write16]
      omega

/-- A slotframe element that is written has one slotframe or none. -/
theorem createIeTschSlotframeAndLink_eq_some
    (h : createIeTschSlotframeAndLink len src = some c) :
    (src.ieTschSlotframeAndLink.numSlotframes = 0 ∧ 3 ≤ len ∧
      c = ⟨createMlmeShortIeDescriptor mlmeShortIeTschSloftrameAndLink 1, [0], 3⟩) ∨
    (src.ieTschSlotframeAndLink.numSlotframes = 1 ∧
      src.ieTschSlotframeAndLink.numLinks.toNat ≤ 4 ∧
      7 + 5 * src.ieTschSlotframeAndLink.numLinks.toNat ≤ len ∧
      c = ⟨createMlmeShortIeDescriptor mlmeShortIeTschSloftrameAndLink
          (5 + 5 * src.ieTschSlotframeAndLink.numLinks.toNat),
        1 :: src.ieTschSlotframeAndLink.slotframeHandle ::
          write16 src.ieTschSlotframeAndLink.slotframeSize.toNat ++
          src.ieTschSlotframeAndLink.numLinks ::
            ((load src.ieTschSlotframeAndLink.links 0
              src.ieTschSlotframeAndLink.numLinks.toNat).flatMap linkBytes),
        7 + 5 * src.ieTschSlotframeAndLink.numLinks.toNat⟩) := by
  unfold createIeTschSlotframeAndLink at h
  generalize src.ieTschSlotframeAndLink = s at h ⊢
  dsimp only at h
  split at h
  · cases h
  · next hok =>
      simp only [not_or, Nat.not_lt, frame802154eIeMaxLinks] at hok
      obtain ⟨hone, hlinks, hlen⟩ := hok
      obtain rfl := (Option.some.inj h).symm
      by_cases hzero : s.numSlotframes = 0
      · refine .inl ⟨hzero, ?_, ?_⟩
        · rw [hzero] at hlen
          simpa using hlen
        · simp [hzero]
      · have hs : s.numSlotframes = 1 := (u8_eq_zero_or_one hzero).1 hone
        have hieLen : 1 + s.numSlotframes.toNat * (4 + 5 * s.numLinks.toNat) =
            5 + 5 * s.numLinks.toNat := by
          rw [hs, UInt8.toNat_one]
          omega
        rw [hieLen] at hlen ⊢
        refine .inr ⟨hs, hlinks, by omega, ?_⟩
        rw [if_pos hs, hs, show 2 + (5 + 5 * s.numLinks.toNat) = 7 + 5 * s.numLinks.toNat by omega]
        rfl

theorem createIeTschTimeslot_eq_some (h : createIeTschTimeslot len src = some c) :
    ∃ ieLen, ieLen = (if src.ieTschTimeslotId = 0 then 1 else 25) ∧ 2 + ieLen ≤ len ∧
      c = ⟨createMlmeShortIeDescriptor mlmeShortIeTschTimeslot ieLen,
        src.ieTschTimeslotId ::
          if src.ieTschTimeslotId ≠ 0 then
            (load src.ieTschTimeslot 0 tschTsElementsCount).flatMap fun v => write16 v.toNat
          else [],
        2 + ieLen⟩ := by
  unfold createIeTschTimeslot at h
  by_cases hlen : 2 + (if src.ieTschTimeslotId = 0 then 1 else 25) ≤ len
  · rw [if_pos hlen] at h
    exact ⟨_, rfl, hlen, (Option.some.inj h).symm⟩
  · rw [if_neg hlen] at h
    cases h

theorem createIeTschChannelHoppingSequence_eq_some
    (h : createIeTschChannelHoppingSequence cfg len src = some c) :
    ∃ ieLen, ieLen = (if src.ieChannelHoppingSequenceId = 0 then 1
        else 12 + src.ieHoppingSequenceLen.toNat) ∧
      src.ieHoppingSequenceLen.toNat ≤ cfg.tschHoppingSequenceMaxLen ∧ 2 + ieLen ≤ len ∧
      c = ⟨createMlmeLongIeDescriptor mlmeLongIeTschChannelHoppingSequence ieLen,
        [src.ieChannelHoppingSequenceId, 0] ++ write16 0 ++ write16 0 ++ write16 0 ++
          write16 src.ieHoppingSequenceLen.toNat ++
          load src.ieHoppingSequenceList 0 src.ieHoppingSequenceLen.toNat ++ write16 0,
        2 + ieLen⟩ := by
  unfold createIeTschChannelHoppingSequence at h
  by_cases hok : src.ieHoppingSequenceLen.toNat ≤ cfg.tschHoppingSequenceMaxLen ∧
      2 + (if src.ieChannelHoppingSequenceId = 0 then 1
        else 12 + src.ieHoppingSequenceLen.toNat) ≤ len
  · rw [if_pos hok] at h
    exact ⟨_, rfl, hok.1, hok.2, (Option.some.inj h).symm⟩
  · rw [if_neg hok] at h
    cases h

/-- The functions stay within the length that they are given, but for the hopping sequence with
the identifier 0. -/
theorem inside_of_create (h : e.create cfg len (some src) = some c)
    (hhopping : e = .sub .channelHoppingSequence → src.ieChannelHoppingSequenceId ≠ 0 ∧
      12 + src.ieHoppingSequenceLen.toNat < 0x800) : c.Inside e len := by
  rw [Element.create, Option.bind_some] at h
  match e with
  | .ackNackTimeCorrection =>
      dsimp only at h
      unfold createIeHeaderAckNackTimeCorrection at h
      split at h
      · next hlen =>
          obtain rfl := (Option.some.inj h).symm
          exact ⟨hlen, by simp only [Element.contentLen]; decide⟩
      · cases h
  | .headerListTermination1 =>
      obtain ⟨hlen, rfl⟩ := createEmpty_eq_some h
      exact ⟨hlen, rfl⟩
  | .headerListTermination2 =>
      obtain ⟨hlen, rfl⟩ := createEmpty_eq_some h
      exact ⟨hlen, rfl⟩
  | .payloadListTermination =>
      obtain ⟨hlen, rfl⟩ := createEmpty_eq_some h
      exact ⟨hlen, rfl⟩
  | .mlme =>
      obtain ⟨hlen, rfl⟩ := createEmpty_eq_some h
      exact ⟨hlen, rfl⟩
  | .sub .synchronization =>
      dsimp only [SubElement.create] at h
      unfold createIeTschSynchronization at h
      split at h
      · next hlen =>
          obtain rfl := (Option.some.inj h).symm
          exact ⟨hlen, by simp only [Element.contentLen]; decide⟩
      · cases h
  | .sub .slotframeAndLink =>
      rcases createIeTschSlotframeAndLink_eq_some h with ⟨-, hlen, rfl⟩ | ⟨-, hlinks, hlen, rfl⟩
      · exact ⟨hlen, by simp only [Element.contentLen]; decide⟩
      · refine ⟨?_, ?_⟩
        · simp only [List.length_cons, List.length_append, length_write16, length_links,
            Memory.length_load]
          omega
        · simp only [Element.contentLen, shortLen, createMlmeShortIeDescriptor]
          omega
  | .sub .timeslot =>
      obtain ⟨ieLen, hieLen, hlen, rfl⟩ := createIeTschTimeslot_eq_some h
      by_cases hzero : src.ieTschTimeslotId = 0
      · rw [if_pos hzero] at hieLen
        subst hieLen
        refine ⟨?_, by simp only [Element.contentLen]; decide⟩
        rw [if_neg (not_not.2 hzero)]
        exact hlen
      · rw [if_neg hzero] at hieLen
        subst hieLen
        refine ⟨?_, by simp only [Element.contentLen]; decide⟩
        rw [if_pos hzero, List.length_cons, length_values, Memory.length_load]
        exact hlen
  | .sub .channelHoppingSequence =>
      obtain ⟨hid, hmax⟩ := hhopping rfl
      obtain ⟨ieLen, hieLen, -, hlen, rfl⟩ := createIeTschChannelHoppingSequence_eq_some h
      rw [if_neg hid] at hieLen
      refine ⟨?_, ?_⟩
      · simp only [List.length_append, length_write16, Memory.length_load, List.length_cons,
          List.length_nil]
        omega
      · simp only [Element.contentLen, payloadLen, createMlmeLongIeDescriptor]
        omega

/-! ## What is in the memory -/

/-- The element is in the memory from `p` on; what a function writes behind the element does not
count. -/
structure Created.Holds (c : Created) (data : ℕ → UInt8) (p : ℕ) : Prop where
  two_le : 2 ≤ c.value
  ieDesc : At data p (write16 c.ieDesc)
  content : At data (p + 2) (c.content.take (c.value - 2))

/-- The elements are in the memory from `p` to `q`. -/
def HoldsAll (cfg : Config) (size : ℕ) (src : Ies) (data : ℕ → UInt8) : List Element → ℕ → ℕ → Prop
  | [], p, q => p = q
  | e :: es, p, q =>
      ∃ c, e.create cfg (size - p) (some src) = some c ∧ c.Holds data p ∧
        HoldsAll cfg size src data es (p + c.value) q

theorem two_le_value (h : e.create cfg len (some src) = some c) : 2 ≤ c.value := by
  rw [Element.create, Option.bind_some] at h
  match e with
  | .ackNackTimeCorrection =>
      dsimp only at h
      unfold createIeHeaderAckNackTimeCorrection at h
      split at h
      · obtain rfl := (Option.some.inj h).symm
        exact Nat.le_add_left 2 2
      · cases h
  | .headerListTermination1 | .headerListTermination2 | .payloadListTermination | .mlme =>
      obtain ⟨-, rfl⟩ := createEmpty_eq_some h
      exact Nat.le_refl 2
  | .sub .synchronization =>
      dsimp only [SubElement.create] at h
      unfold createIeTschSynchronization at h
      split at h
      · obtain rfl := (Option.some.inj h).symm
        exact Nat.le_add_left 2 6
      · cases h
  | .sub .slotframeAndLink =>
      rcases createIeTschSlotframeAndLink_eq_some h with ⟨-, -, rfl⟩ | ⟨-, -, -, rfl⟩
      · exact Nat.le_succ 2
      · dsimp only
        omega
  | .sub .timeslot =>
      obtain ⟨ieLen, -, -, rfl⟩ := createIeTschTimeslot_eq_some h
      exact Nat.le_add_right 2 ieLen
  | .sub .channelHoppingSequence =>
      obtain ⟨ieLen, -, -, -, rfl⟩ := createIeTschChannelHoppingSequence_eq_some h
      exact Nat.le_add_right 2 ieLen

theorem Created.store_of_lt (c : Created) (m : ℕ → UInt8) {i : ℕ} (hi : i < p) :
    c.store p m i = m i := by
  rw [Created.store, Memory.store_of_lt hi, Memory.store_of_lt (Nat.lt_add_right 2 hi)]

theorem Created.holds_store (c : Created) (m : ℕ → UInt8) (h : 2 ≤ c.value) :
    c.Holds (c.store p m) p := by
  refine ⟨h, Memory.at_store _ p _, At.take ?_ _⟩
  exact (Memory.at_store m (p + 2) c.content).store (.inr (Nat.le_refl _))

theorem Created.Holds.congr (h : c.Holds m p)
    (heq : ∀ i < p + c.value, m' i = m i) : c.Holds m' p := by
  have htwo := h.two_le
  refine ⟨htwo, h.ieDesc.congr fun i _ hi => heq i ?_, h.content.congr fun i _ hi => heq i ?_⟩
  · rw [length_write16] at hi
    omega
  · rw [List.length_take] at hi
    omega

/-- An element that is written lies before those that are written after it. -/
theorem createAll_spec (h : createAll cfg size src es p m = some (m', q)) :
    HoldsAll cfg size src m' es p q ∧ p ≤ q ∧ ∀ i < p, m' i = m i := by
  induction es generalizing p m with
  | nil =>
      obtain ⟨rfl, rfl⟩ := Prod.mk.inj (Option.some.inj h)
      exact ⟨rfl, Nat.le_refl _, fun _ _ => rfl⟩
  | cons e es ih =>
      rw [createAll] at h
      split at h
      · cases h
      · next c hc =>
          obtain ⟨hrest, hle, hsame⟩ := ih h
          have htwo := two_le_value hc
          refine ⟨⟨c, hc, (c.holds_store m htwo).congr hsame, hrest⟩, by omega,
            fun i hi => ?_⟩
          rw [hsame i (Nat.lt_add_right _ hi), c.store_of_lt m hi]

/-! ## Descriptors -/

section

variable {ieLen subId : ℕ}

theorem shortLen_create (hlen : ieLen < 0x100) :
    shortLen (createMlmeShortIeDescriptor subId ieLen) = ieLen := by
  rw [shortLen, createMlmeShortIeDescriptor]
  omega

theorem shortId_create (hlen : ieLen < 0x100) (hid : subId < 0x80) :
    shortId (createMlmeShortIeDescriptor subId ieLen) = subId := by
  rw [shortId, createMlmeShortIeDescriptor]
  omega

theorem createMlmeShortIeDescriptor_lt :
    createMlmeShortIeDescriptor subId ieLen < 0x8000 := by
  rw [createMlmeShortIeDescriptor]
  omega

theorem payloadLen_create (hlen : ieLen < 0x800) :
    payloadLen (createPayloadIeDescriptor subId ieLen) = ieLen := by
  rw [payloadLen, createPayloadIeDescriptor]
  omega

theorem payloadId_create (hid : subId < 0x10) :
    payloadId (createPayloadIeDescriptor subId ieLen) = subId := by
  rw [payloadId, createPayloadIeDescriptor]
  omega

theorem createPayloadIeDescriptor_bounds : 0x8000 ≤ createPayloadIeDescriptor subId ieLen ∧
    createPayloadIeDescriptor subId ieLen < 65536 := by
  rw [createPayloadIeDescriptor]
  omega

end

/-! ## Rounds of the parser -/

section

variable {cur : Cursor} {ieDesc ieLen subId : ℕ}

theorem Cursor.Fits.bufSize_advance (hc : cur.Fits size) (h2 : 2 ≤ cur.bufSize.toNat) :
    (cur.advance 2).bufSize.toNat = cur.bufSize.toNat - 2 := by
  have hadvance := hc.advance h2
  unfold Cursor.Fits at hc hadvance
  change cur.buf + 2 + (cur.advance 2).bufSize.toNat = size at hadvance
  omega

/-- A round with a descriptor that was written. -/
theorem run_parseIe_of_at (hc : cur.Fits size) (h2 : 2 ≤ cur.bufSize.toNat)
    (hdesc : At data cur.buf (write16 ieDesc)) (hlt : ieDesc < 65536) :
    (parseIe cfg cur).run data = (parseElement cfg ieDesc (cur.advance 2)).run data := by
  rw [run_parseIe hc h2, valueAt_of_at hdesc hlt]

theorem parseElement_subie (hstate : cur.parsingState = .parsingMlmeSubie) :
    parseElement cfg ieDesc (cur.advance 2) = parseSubie cfg ieDesc (cur.advance 2) := by
  rw [parseElement, show (cur.advance 2).parsingState = .parsingMlmeSubie from hstate]

/-- A round with a short sub-element. -/
theorem run_short (hc : cur.Fits size) (hstate : cur.parsingState = .parsingMlmeSubie)
    (hid : subId < 0x80)
    (hdesc : At data cur.buf (write16 (createMlmeShortIeDescriptor subId ieLen)))
    (hlen : 2 + ieLen ≤ cur.bufSize.toNat) (hnested : 2 + ieLen ≤ cur.nestedMlmeLen)
    (hok : ShortOk data (cur.buf + 2) ieLen subId)
    (hfit : subId = mlmeShortIeTschSloftrameAndLink → 5 ≤ ieLen) :
    (parseIe cfg cur).run data = some (.next ((cur.advance 2).leave ieLen
      (shortIes data (cur.buf + 2) ieLen subId cur.ies))) := by
  have h2 : 2 ≤ cur.bufSize.toNat := Nat.le_trans (Nat.le_add_right 2 _) hlen
  have hbyte := cur.bufSize.toNat_lt
  have hsize := hc.bufSize_advance h2
  have hroom := hc
  unfold Cursor.Fits at hroom
  have hshort : shortLen (createMlmeShortIeDescriptor subId ieLen) = ieLen :=
    shortLen_create (by omega)
  have hshortId : shortId (createMlmeShortIeDescriptor subId ieLen) = subId :=
    shortId_create (by omega) hid
  have hlt : createMlmeShortIeDescriptor subId ieLen < 0x8000 := createMlmeShortIeDescriptor_lt
  rw [run_parseIe_of_at hc h2 hdesc (by omega), parseElement_subie hstate]
  have hsafe : Safe data size 0 (parseSubie cfg _ (cur.advance 2)) _ _ :=
    safe_parseSubie_short (hc.advance h2) hlt fun h _ _ => by
      have hfive := hfit (hshortId.symm.trans h)
      change cur.buf + 2 + 5 ≤ size
      omega
  rw [hshort, hshortId] at hsafe
  exact hsafe.returns.run_eq ⟨by omega, hok, hnested⟩

/-- A round with a long sub-element. -/
theorem run_long (hc : cur.Fits size) (hstate : cur.parsingState = .parsingMlmeSubie)
    (hid : subId < 0x10)
    (hdesc : At data cur.buf (write16 (createMlmeLongIeDescriptor subId ieLen)))
    (hlen : 2 + ieLen ≤ cur.bufSize.toNat) (hnested : 2 + ieLen ≤ cur.nestedMlmeLen)
    (hok : LongOk ieLen subId) (hfit : 1 < ieLen → 10 ≤ ieLen) :
    (parseIe cfg cur).run data = some (.next ((cur.advance 2).leave ieLen
      (longIes cfg data (cur.buf + 2) ieLen cur.ies))) := by
  have h2 : 2 ≤ cur.bufSize.toNat := Nat.le_trans (Nat.le_add_right 2 _) hlen
  have hbyte := cur.bufSize.toNat_lt
  have hsize := hc.bufSize_advance h2
  have hroom := hc
  unfold Cursor.Fits at hroom
  have hlong : payloadLen (createMlmeLongIeDescriptor subId ieLen) = ieLen :=
    payloadLen_create (by omega)
  have hlongId : payloadId (createMlmeLongIeDescriptor subId ieLen) = subId :=
    payloadId_create hid
  obtain ⟨htype, hlt⟩ :
      0x8000 ≤ createMlmeLongIeDescriptor subId ieLen ∧ createMlmeLongIeDescriptor subId ieLen < 65536 :=
    createPayloadIeDescriptor_bounds
  rw [run_parseIe_of_at hc h2 hdesc hlt, parseElement_subie hstate]
  have hsafe : Safe data size 0 (parseSubie cfg _ (cur.advance 2)) _ _ :=
    safe_parseSubie_long (hc.advance h2) (Nat.not_lt.2 htype) fun _ h _ => by
      rw [hlong] at h
      have hten := hfit h
      change cur.buf + 2 + 10 ≤ size
      omega
  rw [hlong, hlongId] at hsafe
  exact hsafe.returns.run_eq ⟨by omega, hok, hnested⟩

/-! ## Sub-elements -/

/-- What is taken from a sub-element: what was put in, or nothing for no slotframe, a timeslot
template that is known by its identifier, or such a hopping sequence. -/
def SubElement.copy (src dst : Ies) : SubElement → Ies
  | .synchronization => { dst with ieAsn := src.ieAsn, ieJoinPriority := src.ieJoinPriority }
  | .slotframeAndLink =>
      if src.ieTschSlotframeAndLink.numSlotframes = 0 then dst
      else
        { dst with
          ieTschSlotframeAndLink :=
            { src.ieTschSlotframeAndLink with
              links := store dst.ieTschSlotframeAndLink.links 0
                (load src.ieTschSlotframeAndLink.links 0
                  src.ieTschSlotframeAndLink.numLinks.toNat) } }
  | .timeslot =>
      { dst with
        ieTschTimeslotId := src.ieTschTimeslotId
        ieTschTimeslot :=
          if src.ieTschTimeslotId = 0 then dst.ieTschTimeslot
          else store dst.ieTschTimeslot 0 (load src.ieTschTimeslot 0 tschTsElementsCount) }
  | .channelHoppingSequence =>
      { dst with
        ieChannelHoppingSequenceId := src.ieChannelHoppingSequenceId
        ieHoppingSequenceLen :=
          if src.ieChannelHoppingSequenceId = 0 then dst.ieHoppingSequenceLen
          else src.ieHoppingSequenceLen
        ieHoppingSequenceList :=
          if src.ieChannelHoppingSequenceId = 0 then dst.ieHoppingSequenceList
          else store dst.ieHoppingSequenceList 0
            (load src.ieHoppingSequenceList 0 src.ieHoppingSequenceLen.toNat) }

theorem asn_eq (asn : Tsch.Asn) :
    UInt32.ofNat (asn.ls4b.toNat % 65536 + 65536 * (asn.ls4b.toNat / 65536)) = asn.ls4b := by
  rw [Nat.mod_add_div, UInt32.ofNat_toNat]

theorem run_synchronization (hc : cur.Fits size) (hstate : cur.parsingState = .parsingMlmeSubie)
    (hcreate : createIeTschSynchronization len src = some c) (hholds : c.Holds data cur.buf)
    (hlen : c.value ≤ cur.bufSize.toNat) (hnested : c.value ≤ cur.nestedMlmeLen) :
    (parseIe cfg cur).run data =
      some (.next ((cur.advance 2).leave (c.value - 2)
        (SubElement.synchronization.copy src cur.ies))) := by
  unfold createIeTschSynchronization at hcreate
  split at hcreate
  · obtain rfl := (Option.some.inj hcreate).symm
    have hcontent : At data (cur.buf + 2) (write16 src.ieAsn.ls4b.toNat ++
      write16 (src.ieAsn.ls4b.toNat / 65536) ++ [src.ieAsn.ms1b, src.ieJoinPriority]) :=
        hholds.content
    simp only [at_append, at_cons, List.length_append, length_write16] at hcontent
    obtain ⟨⟨hlow, hhigh⟩, hms1b, hpriority, -⟩ := hcontent
    have hshort : 2 + 6 ≤ cur.bufSize.toNat := hlen
    rw [run_short hc hstate (by decide) hholds.ieDesc hshort hnested
      (.inr (.inl ⟨rfl, rfl⟩)) (by decide)]
    have hls4b := src.ieAsn.ls4b.toNat_lt
    have hies : synchronizationIes data (cur.buf + 2) cur.ies =
        SubElement.synchronization.copy src cur.ies := by
      rw [synchronizationIes, SubElement.copy, valueAt_eq_mod hlow,
        valueAt_of_at hhigh (by omega), asn_eq]
      simp only [hms1b, hpriority]
    rw [← hies]
    rfl
  · cases hcreate

/-- A slotframe element of one byte; the number of links is read behind it. -/
theorem run_emptySlotframe (hc : cur.Fits size) (hstate : cur.parsingState = .parsingMlmeSubie)
    (hdesc : At data cur.buf
      (write16 (createMlmeShortIeDescriptor mlmeShortIeTschSloftrameAndLink 1)))
    (hzero : data (cur.buf + 2) = 0) (hlen : 3 ≤ cur.bufSize.toNat)
    (hnested : 3 ≤ cur.nestedMlmeLen) :
    (parseIe cfg cur).run data = some (.next ((cur.advance 2).leave 1 cur.ies)) := by
  have h2 : 2 ≤ cur.bufSize.toNat := Nat.le_of_succ_le hlen
  have hsize := hc.bufSize_advance h2
  have hone : 1 ≤ (cur.advance 2).bufSize.toNat := by omega
  have hleave : (leaveSubie 1 cur.ies (cur.advance 2)).run data =
      some (.next ((cur.advance 2).leave 1 cur.ies)) :=
    (safe_leaveSubie (n := size) 1 cur.ies (cur.advance 2)).returns.run_eq hnested
  have hies : (frame802154eParseMlmeShortIe (cur.buf + 2) 1 mlmeShortIeTschSloftrameAndLink
      cur.ies).run data = some cur.ies := by
    unfold frame802154eParseMlmeShortIe
    simp [run_require, hzero]
  rw [run_parseIe_of_at hc h2 hdesc (by decide), parseElement_subie hstate, parseSubie,
    if_pos (by decide)]
  change ((require (1 ≤ (cur.advance 2).bufSize.toNat)) >>= fun _ =>
    frame802154eParseMlmeShortIe (cur.buf + 2) 1 mlmeShortIeTschSloftrameAndLink cur.ies >>=
      fun ies => leaveSubie 1 ies (cur.advance 2)).run data = _
  rw [run_bind, run_require, if_pos hone, Option.bind_some, run_bind, hies, Option.bind_some,
    hleave]

theorem run_slotframeAndLink (hc : cur.Fits size)
    (hstate : cur.parsingState = .parsingMlmeSubie)
    (hcreate : createIeTschSlotframeAndLink len src = some c) (hholds : c.Holds data cur.buf)
    (hlen : c.value ≤ cur.bufSize.toNat) (hnested : c.value ≤ cur.nestedMlmeLen) :
    (parseIe cfg cur).run data =
      some (.next ((cur.advance 2).leave (c.value - 2)
        (SubElement.slotframeAndLink.copy src cur.ies))) := by
  rcases createIeTschSlotframeAndLink_eq_some hcreate with
    ⟨hzero, -, rfl⟩ | ⟨hone, hlinks, -, rfl⟩
  · have hcontent : At data (cur.buf + 2) [0] := hholds.content
    have hslotframes : data (cur.buf + 2) = 0 := (at_cons.1 hcontent).1
    rw [run_emptySlotframe hc hstate hholds.ieDesc hslotframes hlen hnested]
    rw [SubElement.copy, if_pos hzero]
    rfl
  · have hvalue : 7 + 5 * src.ieTschSlotframeAndLink.numLinks.toNat - 2 =
        5 + 5 * src.ieTschSlotframeAndLink.numLinks.toNat := by omega
    have hcontent := hholds.content
    dsimp only at hcontent hlen hnested ⊢
    rw [hvalue] at hcontent ⊢
    rw [List.take_of_length_le (by
      simp only [List.length_cons, List.length_append, length_write16, length_links,
        Memory.length_load]
      omega)] at hcontent
    simp only [List.cons_append, at_cons, at_append, length_write16] at hcontent
    obtain ⟨hslotframes, hhandle, hsize, hnumLinks, hlinksAt⟩ := hcontent
    replace hsize : valueAt data (cur.buf + 2 + 2) =
        src.ieTschSlotframeAndLink.slotframeSize.toNat :=
      valueAt_of_at hsize src.ieTschSlotframeAndLink.slotframeSize.toNat_lt
    replace hnumLinks : data (cur.buf + 2 + 4) = src.ieTschSlotframeAndLink.numLinks := hnumLinks
    replace hlinksAt : linksAt data (cur.buf + 2 + 5)
        src.ieTschSlotframeAndLink.numLinks.toNat = load src.ieTschSlotframeAndLink.links 0
          src.ieTschSlotframeAndLink.numLinks.toNat := by
      have hlinks := linksAt_of_at hlinksAt
      rwa [Memory.length_load] at hlinks
    have hok : ShortOk data (cur.buf + 2) (5 + 5 * src.ieTschSlotframeAndLink.numLinks.toNat)
        mlmeShortIeTschSloftrameAndLink :=
      .inl ⟨rfl, by omega, .inr ⟨hslotframes, by rw [hnumLinks]; exact hlinks, by rw [hnumLinks]⟩⟩
    have hies : slotframeIes data (cur.buf + 2) cur.ies =
        SubElement.slotframeAndLink.copy src cur.ies := by
      have hone' : src.ieTschSlotframeAndLink.numSlotframes ≠ 0 := by
        rw [hone]
        decide
      rw [slotframeIes, SubElement.copy, hslotframes, if_neg (by decide), if_neg hone', hhandle,
        hsize, hnumLinks, hlinksAt, UInt16.ofNat_toNat, ← hone]
    rw [run_short hc hstate (by decide) hholds.ieDesc (by omega) (by omega) hok (by omega), ← hies]
    rfl

theorem run_timeslot (hc : cur.Fits size) (hstate : cur.parsingState = .parsingMlmeSubie)
    (hcreate : createIeTschTimeslot len src = some c) (hholds : c.Holds data cur.buf)
    (hlen : c.value ≤ cur.bufSize.toNat) (hnested : c.value ≤ cur.nestedMlmeLen) :
    (parseIe cfg cur).run data =
      some (.next ((cur.advance 2).leave (c.value - 2)
        (SubElement.timeslot.copy src cur.ies))) := by
  obtain ⟨ieLen, hieLen, -, rfl⟩ := createIeTschTimeslot_eq_some hcreate
  by_cases hzero : src.ieTschTimeslotId = 0
  · rw [if_pos hzero] at hieLen
    subst hieLen
    have hid : data (cur.buf + 2) = src.ieTschTimeslotId := (at_cons.1 hholds.content).1
    have hies : timeslotIes data (cur.buf + 2) 1 cur.ies =
        SubElement.timeslot.copy src cur.ies := by
      rw [timeslotIes, SubElement.copy, hid, if_pos hzero, if_neg (by decide)]
    rw [run_short hc hstate (by decide) hholds.ieDesc hlen hnested
      (.inr (.inr ⟨rfl, .inl rfl⟩)) (by decide), ← hies]
    rfl
  · rw [if_neg hzero] at hieLen
    subst hieLen
    have hcontent := hholds.content
    dsimp only at hcontent
    rw [if_pos hzero, List.take_of_length_le (by
      simp only [List.length_cons, length_values, Memory.length_load]
      decide), at_cons] at hcontent
    obtain ⟨hid, hvalues⟩ := hcontent
    replace hvalues : valuesAt data (cur.buf + 2 + 1) tschTsElementsCount =
        load src.ieTschTimeslot 0 tschTsElementsCount := by
      have hvalues := valuesAt_of_at hvalues
      rwa [Memory.length_load] at hvalues
    have hies : timeslotIes data (cur.buf + 2) 25 cur.ies =
        SubElement.timeslot.copy src cur.ies := by
      rw [timeslotIes, SubElement.copy, hid, if_neg hzero, if_pos rfl, hvalues]
    rw [run_short hc hstate (by decide) hholds.ieDesc hlen hnested
      (.inr (.inr ⟨rfl, .inr rfl⟩)) (by decide), ← hies]
    rfl

theorem run_channelHoppingSequence (hc : cur.Fits size)
    (hstate : cur.parsingState = .parsingMlmeSubie)
    (hcreate : createIeTschChannelHoppingSequence cfg len src = some c)
    (hholds : c.Holds data cur.buf) (hlen : c.value ≤ cur.bufSize.toNat)
    (hnested : c.value ≤ cur.nestedMlmeLen) :
    (parseIe cfg cur).run data =
      some (.next ((cur.advance 2).leave (c.value - 2)
        (SubElement.channelHoppingSequence.copy src cur.ies))) := by
  obtain ⟨ieLen, hieLen, hmax, -, rfl⟩ := createIeTschChannelHoppingSequence_eq_some hcreate
  by_cases hzero : src.ieChannelHoppingSequenceId = 0
  · rw [if_pos hzero] at hieLen
    subst hieLen
    have hid : data (cur.buf + 2) = src.ieChannelHoppingSequenceId :=
      (at_cons.1 hholds.content).1
    have hies : longIes cfg data (cur.buf + 2) 1 cur.ies =
        SubElement.channelHoppingSequence.copy src cur.ies := by
      rw [longIes, SubElement.copy, hid, if_pos hzero, if_pos hzero]
      rfl
    rw [run_long hc hstate (by decide) hholds.ieDesc hlen hnested ⟨rfl, Nat.one_pos⟩
      (fun h => absurd h (Nat.lt_irrefl 1)), ← hies]
    rfl
  · rw [if_neg hzero] at hieLen
    subst hieLen
    have hcontent := hholds.content
    dsimp only at hcontent hlen hnested ⊢
    rw [Nat.add_sub_cancel_left] at hcontent ⊢
    rw [List.take_of_length_le (by
      simp only [List.length_cons, List.length_append, length_write16, Memory.length_load,
        List.length_nil]
      omega)] at hcontent
    simp only [at_append, at_cons, List.length_append, length_write16, List.length_cons,
      List.length_nil] at hcontent
    obtain ⟨⟨⟨⟨⟨⟨⟨hid, -⟩, -⟩, -⟩, -⟩, hsequenceLen⟩, hlist⟩, -⟩ := hcontent
    replace hsequenceLen : valueAt data (cur.buf + 2 + 8) = src.ieHoppingSequenceLen.toNat :=
      valueAt_of_at hsequenceLen src.ieHoppingSequenceLen.toNat_lt
    replace hlist : load data (cur.buf + 2 + 10) src.ieHoppingSequenceLen.toNat =
        load src.ieHoppingSequenceList 0 src.ieHoppingSequenceLen.toNat := by
      rwa [At, Memory.length_load] at hlist
    have hies : longIes cfg data (cur.buf + 2) (12 + src.ieHoppingSequenceLen.toNat) cur.ies =
        SubElement.channelHoppingSequence.copy src cur.ies := by
      have hlong : 1 < 12 + src.ieHoppingSequenceLen.toNat := by omega
      rw [longIes, SubElement.copy, hsequenceLen, hid, if_neg hzero, if_neg hzero, if_pos hlong,
        if_pos ⟨hlong, hmax, rfl⟩, hlist, UInt16.ofNat_toNat]
    rw [run_long hc hstate (by decide) hholds.ieDesc hlen hnested ⟨rfl, by omega⟩
      (fun _ => by omega), ← hies]

theorem run_sub (hc : cur.Fits size) (hstate : cur.parsingState = .parsingMlmeSubie)
    (hcreate : sub.create cfg len src = some c) (hholds : c.Holds data cur.buf)
    (hlen : c.value ≤ cur.bufSize.toNat) (hnested : c.value ≤ cur.nestedMlmeLen) :
    (parseIe cfg cur).run data =
      some (.next ((cur.advance 2).leave (c.value - 2) (sub.copy src cur.ies))) := by
  cases sub with
  | synchronization => exact run_synchronization hc hstate hcreate hholds hlen hnested
  | slotframeAndLink => exact run_slotframeAndLink hc hstate hcreate hholds hlen hnested
  | timeslot => exact run_timeslot hc hstate hcreate hholds hlen hnested
  | channelHoppingSequence =>
      exact run_channelHoppingSequence hc hstate hcreate hholds hlen hnested

/-! ## The other elements -/

/-- What is taken from a header element. -/
def headerCopy (src dst : Ies) : Ies :=
  { dst with
    ieIsNack := if src.ieIsNack = 0 then 0 else 1
    ieTimeCorrection := src.ieTimeCorrection }

theorem run_header (hc : cur.Fits size) (hstate : cur.parsingState = .parsingHeaderIe)
    (hlow : -2048 ≤ src.ieTimeCorrection) (hhigh : src.ieTimeCorrection < 2048)
    (hcreate : createIeHeaderAckNackTimeCorrection len src = some c)
    (hholds : c.Holds data cur.buf) (hlen : c.value ≤ cur.bufSize.toNat) :
    (parseIe cfg cur).run data = some (.next
      (((cur.advance 2).accept [cur.buf + 2 + 2] (headerCopy src cur.ies)).advance 2)) := by
  unfold createIeHeaderAckNackTimeCorrection at hcreate
  split at hcreate
  · obtain rfl := (Option.some.inj hcreate).symm
    have hfour : 4 ≤ cur.bufSize.toNat := hlen
    have h2 : 2 ≤ cur.bufSize.toNat := by omega
    have hsize := hc.bufSize_advance h2
    have hfield : valueAt data (cur.buf + 2) = (src.ieTimeCorrection % 0x1000).toNat +
        if src.ieIsNack ≠ 0 then 0x8000 else 0 :=
      valueAt_of_at hholds.content (by split <;> omega)
    have hies : headerIes data (cur.buf + 2) cur.ies = headerCopy src cur.ies := by
      rw [headerIes, headerCopy, hfield]
      by_cases hnack : src.ieIsNack = 0
      · rw [if_neg (not_not.2 hnack), driftUs_field hlow hhigh rfl, if_pos hnack,
          if_neg (by omega)]
      · rw [if_pos hnack, driftUs_field hlow hhigh rfl, if_neg hnack, if_pos (by omega)]
    have hdesc : At data cur.buf
        (write16 (createHeaderIeDescriptor headerIeAckNackTimeCorrection 2)) := hholds.ieDesc
    have hid : headerId (createHeaderIeDescriptor headerIeAckNackTimeCorrection 2) =
        headerIeAckNackTimeCorrection := by decide
    rw [run_parseIe_of_at hc h2 hdesc (by decide), parseElement,
      show (cur.advance 2).parsingState = .parsingHeaderIe from hstate, ← hies]
    refine (safe_parseHeader (hc.advance h2) (by rw [hid]; decide)
      (by rw [hid]; decide)).returns.run_eq ⟨by decide, ?_, by decide⟩
    change 2 ≤ (cur.advance 2).bufSize.toNat
    omega
  · cases hcreate

theorem run_listTermination1 (hc : cur.Fits size) (hstate : cur.parsingState = .parsingHeaderIe)
    (hcreate : createIeHeaderListTermination1 len = some c) (hholds : c.Holds data cur.buf)
    (h2 : 2 ≤ cur.bufSize.toNat) :
    ∃ cur' : Cursor, (parseIe cfg cur).run data = some (.next cur') ∧ cur'.Fits size ∧
      cur'.parsingState = .parsingPayloadIe ∧ cur'.buf = cur.buf + c.value ∧
      cur'.ies = { cur.ies with iePayloadIeOffset := UInt8.ofNat (cur.buf + c.value) } := by
  obtain ⟨-, rfl⟩ := createEmpty_eq_some hcreate
  have hid : headerId (createHeaderIeDescriptor headerIeListTermination1 0) =
      headerIeListTermination1 := by decide
  have hrun : (parseIe cfg cur).run data = some (.next
      { (cur.advance 2).accept [cur.buf + 2]
          { cur.ies with iePayloadIeOffset := UInt8.ofNat (cur.buf + 2) } with
        parsingState := .parsingPayloadIe }) := by
    rw [run_parseIe_of_at hc h2 hholds.ieDesc (by decide), parseElement,
      show (cur.advance 2).parsingState = .parsingHeaderIe from hstate]
    exact (safe_parseHeader_listTermination1 (n := size) hid).returns.run_eq
      ⟨by decide, by decide⟩
  exact ⟨_, hrun, hc.advance h2, rfl, rfl, rfl⟩

theorem run_mlme (hc : cur.Fits size) (hstate : cur.parsingState = .parsingPayloadIe)
    (hmlme : src.ieMlmeLen.toNat < 0x800) (hcreate : createIeMlme len src = some c)
    (hholds : c.Holds data cur.buf) (h2 : 2 ≤ cur.bufSize.toNat) :
    ∃ cur' : Cursor, (parseIe cfg cur).run data = some (.next cur') ∧ cur'.Fits size ∧
      cur'.parsingState = .parsingMlmeSubie ∧ cur'.buf = cur.buf + c.value ∧
      cur'.ies = cur.ies ∧ cur'.nestedMlmeLen = src.ieMlmeLen.toNat := by
  obtain ⟨-, rfl⟩ := createEmpty_eq_some hcreate
  have hdesc : 0x8000 ≤ createPayloadIeDescriptor payloadIeMlme src.ieMlmeLen.toNat ∧
      createPayloadIeDescriptor payloadIeMlme src.ieMlmeLen.toNat < 65536 :=
    createPayloadIeDescriptor_bounds
  have hid : payloadId (createPayloadIeDescriptor payloadIeMlme src.ieMlmeLen.toNat) =
      payloadIeMlme := payloadId_create (by decide)
  have hsafe : Safe data size 0 (parsePayload cfg _ (cur.advance 2)) _ _ :=
    safe_parsePayload_mlme hid
  rw [payloadLen_create hmlme] at hsafe
  have hrun : (parseIe cfg cur).run data = some (.next
      { (cur.advance 2).accept [cur.buf + 2 + src.ieMlmeLen.toNat] cur.ies with
        parsingState := .parsingMlmeSubie
        nestedMlmeLen := src.ieMlmeLen.toNat }) := by
    rw [run_parseIe_of_at hc h2 hholds.ieDesc hdesc.2, parseElement,
      show (cur.advance 2).parsingState = .parsingPayloadIe from hstate]
    exact hsafe.returns.run_eq hdesc.1
  exact ⟨_, hrun, hc.advance h2, rfl, rfl, rfl, rfl⟩

theorem run_payloadListTermination (hc : cur.Fits size)
    (hstate : cur.parsingState = .parsingPayloadIe)
    (hcreate : createIePayloadListTermination len = some c) (hholds : c.Holds data cur.buf)
    (h2 : 2 ≤ cur.bufSize.toNat) :
    (parseIe cfg cur).run data =
      some (.parsed ⟨cur.buf + 2, cur.ies, cur.accepted ++ [cur.buf + 2]⟩) := by
  obtain ⟨-, rfl⟩ := createEmpty_eq_some hcreate
  have hid : payloadId (createPayloadIeDescriptor payloadIeListTermination 0) =
      payloadIeListTermination := by decide
  rw [run_parseIe_of_at hc h2 hholds.ieDesc (by decide), parseElement,
    show (cur.advance 2).parsingState = .parsingPayloadIe from hstate]
  exact (safe_parsePayload_listTermination (n := size) hid).returns.run_eq
    ⟨by decide, by decide⟩

/-! ## All rounds -/

/-- From the cursor on the parser accepts the frame, returns `q` and has taken `ies` from it. -/
def Yields (cfg : Config) (data : ℕ → UInt8) (cur : Cursor) (q : ℕ) (ies : Ies) : Prop :=
  ∃ fuel r, (parseLoop cfg fuel cur).run data = some (some r) ∧ r.value = q ∧ r.ies = ies

theorem yields_of_next {cur' : Cursor} (h2 : 2 ≤ cur.bufSize.toNat)
    (hrun : (parseIe cfg cur).run data = some (.next cur')) (h : Yields cfg data cur' q ies) :
    Yields cfg data cur q ies := by
  obtain ⟨fuel, r, hr, hsame⟩ := h
  refine ⟨fuel + 1, r, ?_, hsame⟩
  rw [parseLoop_succ (by omega), run_bind, hrun]
  exact hr

theorem yields_of_parsed {r : Parsed} (h2 : 2 ≤ cur.bufSize.toNat)
    (hrun : (parseIe cfg cur).run data = some (.parsed r)) :
    Yields cfg data cur r.value r.ies := by
  refine ⟨1, r, ?_, rfl, rfl⟩
  rw [parseLoop_succ (by omega), run_bind, hrun]
  rfl

/-- An element takes two bytes at least. -/
theorem HoldsAll.le (h : HoldsAll cfg size src data es p q) : p + 2 * es.length ≤ q := by
  induction es generalizing p with
  | nil => exact Nat.le_of_eq h
  | cons e es ih =>
      obtain ⟨c, -, hholds, hrest⟩ := h
      have hle := ih hrest
      have htwo := hholds.two_le
      rw [List.length_cons]
      omega

/-- What is taken from the sub-elements. -/
def copySubs (src : Ies) (subs : List SubElement) (dst : Ies) : Ies :=
  subs.foldl (fun ies sub => sub.copy src ies) dst

/-- The sub-elements are left when the last of them was read. -/
theorem yields_subs (hc : cur.Fits q)
    (hstate : cur.parsingState = if subs = [] then .parsingPayloadIe else .parsingMlmeSubie)
    (hnested : subs ≠ [] → cur.buf + cur.nestedMlmeLen + 2 = q)
    (hholds : HoldsAll cfg size src data (subs.map .sub ++ [.payloadListTermination]) cur.buf q) :
    Yields cfg data cur q (copySubs src subs cur.ies) := by
  induction subs generalizing cur with
  | nil =>
      obtain ⟨c, hcreate, hhold, hrest⟩ := hholds
      obtain ⟨-, rfl⟩ := createEmpty_eq_some hcreate
      have hq : cur.buf + 2 = q := hrest
      have h2 : 2 ≤ cur.bufSize.toNat := by
        unfold Cursor.Fits at hc
        omega
      rw [if_pos rfl] at hstate
      have hrun : (parseIe cfg cur).run data = _ :=
        run_payloadListTermination hc hstate hcreate hhold h2
      have hyields := yields_of_parsed h2 hrun
      rwa [hq] at hyields
  | cons sub subs ih =>
      rw [List.map_cons, List.cons_append] at hholds
      obtain ⟨c, hcreate, hhold, hrest⟩ := hholds
      have hle := hrest.le
      rw [List.length_append, List.length_map, List.length_singleton] at hle
      have hnested' := hnested (List.cons_ne_nil sub subs)
      have htwo := hhold.two_le
      have hroom := hc
      unfold Cursor.Fits at hroom
      have h2 : 2 ≤ cur.bufSize.toNat := by omega
      have hsize := hc.bufSize_advance h2
      rw [if_neg (List.cons_ne_nil sub subs)] at hstate
      have hrun := run_sub hc hstate hcreate hhold (by omega) (by omega)
      have hbuf : cur.buf + 2 + (c.value - 2) = cur.buf + c.value := by omega
      have hleft : cur.nestedMlmeLen - (2 + (c.value - 2)) = 0 ↔ subs = [] := by
        constructor
        · intro hzero
          exact List.length_eq_zero_iff.1 (by omega)
        · rintro rfl
          have hq : cur.buf + c.value + 2 = q := by
            obtain ⟨c', hcreate', -, hrest'⟩ := hrest
            obtain ⟨-, rfl⟩ := createEmpty_eq_some hcreate'
            exact hrest'
          omega
      refine yields_of_next h2 hrun (ih ?_ ?_ (fun hsubs => ?_) ?_)
      · exact Cursor.Fits.advance (hc.advance h2) (by
          change c.value - 2 ≤ (cur.advance 2).bufSize.toNat
          omega)
      · change (if cur.nestedMlmeLen - (2 + (c.value - 2)) = 0 then ParsingState.parsingPayloadIe
          else cur.parsingState) = _
        rw [hstate]
        exact if_congr hleft rfl rfl
      · change cur.buf + 2 + (c.value - 2) + (cur.nestedMlmeLen - (2 + (c.value - 2))) + 2 = q
        have hne : cur.nestedMlmeLen - (2 + (c.value - 2)) ≠ 0 := fun h => hsubs (hleft.1 h)
        omega
      · change HoldsAll cfg size src data _ (cur.buf + 2 + (c.value - 2)) q
        rwa [hbuf]

/-- What is taken from the header elements. -/
def copyHeaders (src : Ies) : ℕ → Ies → Ies
  | 0, dst => dst
  | _ + 1, dst => headerCopy src dst

theorem copyHeaders_headerCopy (src dst : Ies) (headers : ℕ) :
    copyHeaders src headers (headerCopy src dst) = copyHeaders src (headers + 1) dst := by
  cases headers with
  | zero => rfl
  | succ headers => rfl

/-- The header elements are read one after the other. -/
theorem yields_headers {headers : ℕ} (hlow : -2048 ≤ src.ieTimeCorrection)
    (hhigh : src.ieTimeCorrection < 2048) (hc : cur.Fits q)
    (hstate : cur.parsingState = .parsingHeaderIe)
    (hholds : HoldsAll cfg size src data (List.replicate headers .ackNackTimeCorrection ++ es)
      cur.buf q)
    (hrest : ∀ cur' : Cursor, cur'.Fits q → cur'.parsingState = .parsingHeaderIe →
      cur'.buf = cur.buf + 4 * headers → cur'.ies = copyHeaders src headers cur.ies →
      HoldsAll cfg size src data es cur'.buf q → Yields cfg data cur' q ies) :
    Yields cfg data cur q ies := by
  induction headers generalizing cur with
  | zero => exact hrest cur hc hstate rfl rfl hholds
  | succ headers ih =>
      rw [List.replicate_succ, List.cons_append] at hholds
      obtain ⟨c, hcreate, hhold, hbehind⟩ := hholds
      have hle := hbehind.le
      have hvalue : c.value = 4 := by
        have h : createIeHeaderAckNackTimeCorrection _ src = some c := hcreate
        unfold createIeHeaderAckNackTimeCorrection at h
        split at h
        · obtain rfl := (Option.some.inj h).symm
          rfl
        · cases h
      have hroom := hc
      unfold Cursor.Fits at hroom
      have h2 : 2 ≤ cur.bufSize.toNat := by omega
      have hsize := hc.bufSize_advance h2
      have hrun : (parseIe cfg cur).run data = _ :=
        run_header hc hstate hlow hhigh hcreate hhold (by omega)
      refine yields_of_next h2 hrun (ih ?_ hstate ?_ fun cur' hc' hstate' hbuf hies => ?_)
      · exact Cursor.Fits.advance (hc.advance h2) (by
          change 2 ≤ (cur.advance 2).bufSize.toNat
          omega)
      · rwa [hvalue] at hbehind
      · refine hrest cur' hc' hstate' ?_ (hies.trans (copyHeaders_headerCopy src cur.ies headers))
        rw [hbuf]
        change cur.buf + 2 + 2 + 4 * headers = _
        omega

/-- A frame is parsed to its end, and what is in its elements is taken. -/
theorem yields_frame {headers : ℕ} (hlow : -2048 ≤ src.ieTimeCorrection)
    (hhigh : src.ieTimeCorrection < 2048) (hq : q < 256) (hsubs : subs ≠ [])
    (hmlme : src.ieMlmeLen.toNat + 4 * headers + 6 = q) (hc : cur.Fits q)
    (hstate : cur.parsingState = .parsingHeaderIe) (hbuf : cur.buf = 0)
    (hholds : HoldsAll cfg size src data (frameElements headers subs) 0 q) :
    Yields cfg data cur q (copySubs src subs
      { copyHeaders src headers cur.ies with
        iePayloadIeOffset := UInt8.ofNat (4 * headers + 2) }) := by
  rw [← hbuf] at hholds
  refine yields_headers hlow hhigh hc hstate hholds fun cur₁ hc₁ hstate₁ hbuf₁ hies₁ h₁ => ?_
  obtain ⟨c₁, hcreate₁, hhold₁, c₂, hcreate₂, hhold₂, h₂⟩ := h₁
  have hle := h₂.le
  have htwo₁ := hhold₁.two_le
  have htwo₂ := hhold₂.two_le
  have hvalue₁ : c₁.value = 2 := by
    obtain ⟨-, rfl⟩ := createEmpty_eq_some (hcreate₁ : createIeHeaderListTermination1 _ = _)
    rfl
  have hvalue₂ : c₂.value = 2 := by
    obtain ⟨-, rfl⟩ := createEmpty_eq_some (hcreate₂ : createIeMlme _ src = _)
    rfl
  rw [hbuf, Nat.zero_add] at hbuf₁
  have hroom₁ := hc₁
  unfold Cursor.Fits at hroom₁
  have hlarge₁ : 2 ≤ cur₁.bufSize.toNat := by omega
  obtain ⟨cur₂, hrun₁, hc₂, hstate₂, hbuf₂, hies₂⟩ : ∃ cur', (parseIe cfg cur₁).run data = _ ∧ _ :=
    run_listTermination1 hc₁ hstate₁ hcreate₁ hhold₁ hlarge₁
  have hroom₂ := hc₂
  unfold Cursor.Fits at hroom₂
  have hlarge₂ : 2 ≤ cur₂.bufSize.toNat := by omega
  rw [← hbuf₂] at hcreate₂ hhold₂ h₂
  obtain ⟨cur₃, hrun₂, hc₃, hstate₃, hbuf₃, hies₃, hnested₃⟩ :
      ∃ cur', (parseIe cfg cur₂).run data = _ ∧ _ :=
    run_mlme hc₂ hstate₂ (by omega) hcreate₂ hhold₂ hlarge₂
  rw [← hbuf₃] at h₂
  refine yields_of_next hlarge₁ hrun₁ (yields_of_next hlarge₂ hrun₂ ?_)
  have hyields := yields_subs hc₃ (hstate₃.trans (if_neg hsubs).symm) (fun _ => by omega) h₂
  rwa [hies₃, hies₂, hies₁, hbuf₁, hvalue₁] at hyields

end

/-! ## What was put in -/

theorem store_load {α : Type} {f g : ℕ → α} {n i : ℕ} (hi : i < n) : store f 0 (load g 0 n) i = g i := by
  rw [Memory.store_of_ge (Nat.zero_le i), Nat.sub_zero, Memory.getElem?_load hi, Nat.zero_add]
  rfl

/-- The fields that are sent in a sub-element are the same. A slotframe is sent if there is one,
and a timeslot template and a hopping sequence with an identifier other than 0. -/
def SubElement.Same (src ies : Ies) : SubElement → Prop
  | .synchronization => ies.ieAsn = src.ieAsn ∧ ies.ieJoinPriority = src.ieJoinPriority
  | .slotframeAndLink => src.ieTschSlotframeAndLink.numSlotframes ≠ 0 →
      ies.ieTschSlotframeAndLink =
        { src.ieTschSlotframeAndLink with links := ies.ieTschSlotframeAndLink.links } ∧
      ∀ i < src.ieTschSlotframeAndLink.numLinks.toNat,
        ies.ieTschSlotframeAndLink.links i = src.ieTschSlotframeAndLink.links i
  | .timeslot => ies.ieTschTimeslotId = src.ieTschTimeslotId ∧ (src.ieTschTimeslotId ≠ 0 →
      ∀ i < tschTsElementsCount, ies.ieTschTimeslot i = src.ieTschTimeslot i)
  | .channelHoppingSequence =>
      ies.ieChannelHoppingSequenceId = src.ieChannelHoppingSequenceId ∧
        (src.ieChannelHoppingSequenceId ≠ 0 →
          ies.ieHoppingSequenceLen = src.ieHoppingSequenceLen ∧
          ∀ i < src.ieHoppingSequenceLen.toNat,
            ies.ieHoppingSequenceList i = src.ieHoppingSequenceList i)

theorem same_copy (src dst : Ies) (sub : SubElement) : sub.Same src (sub.copy src dst) := by
  cases sub with
  | synchronization => exact ⟨rfl, rfl⟩
  | slotframeAndLink =>
      intro hslotframes
      rw [SubElement.copy, if_neg hslotframes]
      exact ⟨rfl, fun i hi => store_load hi⟩
  | timeslot =>
      refine ⟨rfl, fun hid i hi => ?_⟩
      rw [SubElement.copy]
      dsimp only
      rw [if_neg hid, store_load hi]
  | channelHoppingSequence =>
      refine ⟨rfl, fun hid => ?_⟩
      rw [SubElement.copy]
      dsimp only
      rw [if_neg hid, if_neg hid]
      exact ⟨rfl, fun i hi => store_load hi⟩

/-- Other sub-elements leave the fields as they are. -/
theorem same_copy_of_ne {sub' : SubElement} (h : sub.Same src ies) (hne : sub ≠ sub') :
    sub.Same src (sub'.copy src ies) := by
  cases sub <;> cases sub' <;> first | exact absurd rfl hne | exact h | skip
  all_goals
    rw [SubElement.copy]
    split
    · exact h
    · exact h

theorem same_copy_of_same {sub' : SubElement} (h : sub.Same src ies) : sub.Same src (sub'.copy src ies) := by
  by_cases heq : sub = sub'
  · rw [heq]
    exact same_copy src ies sub'
  · exact same_copy_of_ne h heq

theorem same_copySubs (src dst : Ies) (hsub : sub ∈ subs ∨ sub.Same src dst) :
    sub.Same src (copySubs src subs dst) := by
  induction subs generalizing dst with
  | nil => exact hsub.resolve_left List.not_mem_nil
  | cons sub' subs ih =>
      refine ih (sub'.copy src dst) ?_
      rcases hsub with hmem | hsame
      · rcases List.mem_cons.1 hmem with rfl | hmem
        · exact .inr (same_copy src dst sub)
        · exact .inl hmem
      · exact .inr (same_copy_of_same hsame)

theorem header_copySubs (src dst : Ies) :
    (copySubs src subs dst).ieIsNack = dst.ieIsNack ∧
      (copySubs src subs dst).ieTimeCorrection = dst.ieTimeCorrection := by
  induction subs generalizing dst with
  | nil => exact ⟨rfl, rfl⟩
  | cons sub subs ih =>
      have hcopy : (sub.copy src dst).ieIsNack = dst.ieIsNack ∧
          (sub.copy src dst).ieTimeCorrection = dst.ieTimeCorrection := by
        cases sub with
        | slotframeAndLink =>
            rw [SubElement.copy]
            split <;> exact ⟨rfl, rfl⟩
        | synchronization | timeslot | channelHoppingSequence => exact ⟨rfl, rfl⟩
      obtain ⟨hnack, hcorrection⟩ := ih (sub.copy src dst)
      exact ⟨hnack.trans hcopy.1, hcorrection.trans hcopy.2⟩

theorem header_copyHeaders (src dst : Ies) {headers : ℕ} (hpos : 0 < headers) :
    (copyHeaders src headers dst).ieIsNack = (if src.ieIsNack = 0 then 0 else 1) ∧
      (copyHeaders src headers dst).ieTimeCorrection = src.ieTimeCorrection := by
  cases headers with
  | zero => exact absurd hpos (Nat.lt_irrefl 0)
  | succ headers => exact ⟨rfl, rfl⟩

/-- What is parsed from a frame of elements is what was put in. -/
theorem readBack_frameElements (dst : Ies) {headers : ℕ} (hlow : -2048 ≤ src.ieTimeCorrection)
    (hhigh : src.ieTimeCorrection < 2048)
    (hcreate : createAll cfg size src (frameElements headers subs) 0 m = some (data, q))
    (hq : q < 256) (hsubs : subs ≠ []) (hmlme : src.ieMlmeLen.toNat + 4 * headers + 6 = q) :
    ∃ fuel r, (frame802154eParseInformationElements cfg (UInt8.ofNat q) (some dst) fuel).run
        data = some (some r) ∧ r.value = q ∧
      (0 < headers → r.ies.ieTimeCorrection = src.ieTimeCorrection ∧
        (r.ies.ieIsNack ≠ 0 ↔ src.ieIsNack ≠ 0)) ∧
      ∀ sub ∈ subs, sub.Same src r.ies := by
  have hsize : (UInt8.ofNat q).toNat = q := by
    rw [UInt8.toNat_ofNat', Nat.mod_eq_of_lt hq]
  have hfits : Cursor.Fits
      ⟨0, UInt8.ofNat q, .parsingHeaderIe, 0, { dst with iePayloadIeOffset := 0 }, []⟩ q :=
    (Nat.zero_add _).trans hsize
  obtain ⟨fuel, r, hrun, hvalue, hies⟩ := yields_frame hlow hhigh hq hsubs hmlme hfits rfl rfl
    (createAll_spec hcreate).1
  refine ⟨fuel, r, hrun, hvalue, fun hpos => ?_, fun sub hsub => ?_⟩
  · rw [hies, (header_copySubs src _).1, (header_copySubs src _).2]
    obtain ⟨hnack, hcorrection⟩ :=
      header_copyHeaders src { dst with iePayloadIeOffset := 0 } hpos
    refine ⟨hcorrection, ?_⟩
    dsimp only
    rw [hnack]
    split
    · next hzero => exact iff_of_false (fun h => h rfl) (fun h => h hzero)
    · next hzero => exact iff_of_true (by decide) hzero
  · rw [hies]
    exact same_copySubs src _ (.inl hsub)

/-- An element is written within the length that is given, and what is returned is the length that
its descriptor announces and 2. What is parsed from a frame of elements is what was put in. -/
theorem elements_written_readBack (cfg : Config) (src dst : Ies) :
    (∀ (e : Element) (len : ℕ) (c : Created), e.create cfg len (some src) = some c →
      (e = .sub .channelHoppingSequence → src.ieChannelHoppingSequenceId ≠ 0 ∧
        12 + src.ieHoppingSequenceLen.toNat < 0x800) → c.Inside e len) ∧
    (-2048 ≤ src.ieTimeCorrection → src.ieTimeCorrection < 2048 →
      ∀ size headers subs m data q,
        createAll cfg size src (frameElements headers subs) 0 m = some (data, q) → q < 256 →
        subs ≠ [] → src.ieMlmeLen.toNat + 4 * headers + 6 = q →
        ∃ fuel r, (frame802154eParseInformationElements cfg (UInt8.ofNat q) (some dst) fuel).run
            data = some (some r) ∧ r.value = q ∧
          (0 < headers → r.ies.ieTimeCorrection = src.ieTimeCorrection ∧
            (r.ies.ieIsNack ≠ 0 ↔ src.ieIsNack ≠ 0)) ∧
          ∀ sub ∈ subs, sub.Same src r.ies) := by
  constructor
  · intro e len c hcreate hhopping
    exact inside_of_create hcreate hhopping
  · intro hlow hhigh size headers subs m data q hcreate hq hsubs hmlme
    exact readBack_frameElements dst hlow hhigh hcreate hq hsubs hmlme

/-- A negative correction, a number of a slot and a join priority. -/
def exampleIes : Ies :=
  { zeroIes with
    ieTimeCorrection := -5
    ieIsNack := 1
    ieMlmeLen := 8
    ieAsn := ⟨0x01020304, 5⟩
    ieJoinPriority := 3 }

theorem elements_written_readBack_example : ∃ data fuel r,
    createAll ⟨false, 16⟩ 20 exampleIes (frameElements 1 [.synchronization]) 0 (fun _ => 0) =
      some (data, 18) ∧
    (frame802154eParseInformationElements ⟨false, 16⟩ 18 (some zeroIes) fuel).run data =
      some (some r) ∧
    r.ies.ieTimeCorrection = -5 ∧ r.ies.ieAsn = ⟨0x01020304, 5⟩ ∧ r.ies.ieJoinPriority = 3 := by
  obtain ⟨fuel, r, hrun, -, hheader, hsubs⟩ :=
    (elements_written_readBack ⟨false, 16⟩ exampleIes zeroIes).2 (by decide) (by decide)
      20 1 [.synchronization] (fun _ => 0) _ 18 rfl (by decide) (by decide) rfl
  have hsame := hsubs .synchronization (List.mem_singleton_self _)
  exact ⟨_, fuel, r, rfl, hrun, (hheader (by decide)).1, hsame.1, hsame.2⟩

/-- A timeslot template with the identifier 0, which is not sent. -/
def templateIes : Ies := { zeroIes with ieMlmeLen := 3, ieTschTimeslot := fun _ => 1 }

/-- An MLME element announces more than it has, and a template without an identifier is not taken
from a frame. -/
theorem elements_not_written_readBack :
    (∃ c, createIeMlme 20 templateIes = some c ∧ c.value ≠ 2 + payloadLen c.ieDesc) ∧
    ∃ data r, createAll ⟨false, 16⟩ 20 templateIes (frameElements 0 [.timeslot]) 0 (fun _ => 0) =
        some (data, 9) ∧
      templateIes.ieMlmeLen.toNat + 6 = 9 ∧
      (frame802154eParseInformationElements ⟨false, 16⟩ 9 (some zeroIes) 4).run data =
        some (some r) ∧
      r.ies.ieTschTimeslot 0 ≠ templateIes.ieTschTimeslot 0 := by
  refine ⟨⟨_, rfl, by decide⟩, _, _, rfl, rfl, rfl, by decide⟩

end Den2ne.Frame802154e
