import Den2ne.Frame802154e.Grammar
import Mathlib.Logic.Relation

/-!
# The elements of a frame

A grammar of the elements of a frame: `Follows` leads from one place to the next one over an
element that is accepted and has room in the frame, `Ends` are the places where the parser stops.
`ReadsFit` says at which places only bytes of the frame are read: the content of three kinds of
elements is read before its length is known to be there. `Overlong` are the elements that are
accepted although they do not end in the frame.
-/

namespace Den2ne.Frame802154e

open Reads Reads.Transfer

/-! ## The grammar -/

/-- A place in the frame: what is expected there, and how much of the MLME element is left. -/
structure Place where
  state : ParsingState
  pos : ℕ
  nested : ℕ

/-- The place behind a sub-element. -/
def behindSubie (pos nested : ℕ) : Place :=
  ⟨if nested = 0 then .parsingPayloadIe else .parsingMlmeSubie, pos, nested⟩

section

variable (cfg : Config) (data : ℕ → UInt8) (size : ℕ)

/-- An element that is accepted leads from the first place to the second one. -/
inductive Follows : Place → Place → Prop
  | header {pos nested : ℕ} (htype : valueAt data pos < 0x8000)
      (hfit : pos + 2 + headerLen (valueAt data pos) ≤ size)
      (hok : HeaderOk (headerLen (valueAt data pos)) (headerId (valueAt data pos))) :
      Follows ⟨.parsingHeaderIe, pos, nested⟩
        ⟨.parsingHeaderIe, pos + 2 + headerLen (valueAt data pos), nested⟩
  | listTermination1 {pos nested : ℕ} (htype : valueAt data pos < 0x8000) (hfit : pos + 2 ≤ size)
      (hid : headerId (valueAt data pos) = headerIeListTermination1)
      (hlen : headerLen (valueAt data pos) = 0) :
      Follows ⟨.parsingHeaderIe, pos, nested⟩ ⟨.parsingPayloadIe, pos + 2, nested⟩
  | mlme {pos nested : ℕ} (htype : 0x8000 ≤ valueAt data pos) (hfit : pos + 2 ≤ size)
      (hid : payloadId (valueAt data pos) = payloadIeMlme) :
      Follows ⟨.parsingPayloadIe, pos, nested⟩
        ⟨.parsingMlmeSubie, pos + 2, payloadLen (valueAt data pos)⟩
  | ietf {pos nested : ℕ} (hcfg : cfg.tschWithSixtop) (htype : 0x8000 ≤ valueAt data pos)
      (hid : payloadId (valueAt data pos) = payloadIeIetf) (hsub : pos + 2 < size)
      (hfit : pos + 2 + payloadLen (valueAt data pos) ≤ size) :
      Follows ⟨.parsingPayloadIe, pos, nested⟩
        ⟨.parsingPayloadIe, pos + 2 + payloadLen (valueAt data pos), nested⟩
  | short {pos nested : ℕ} (htype : valueAt data pos < 0x8000)
      (hfit : pos + 2 + shortLen (valueAt data pos) ≤ size)
      (hok : ShortOk data (pos + 2) (shortLen (valueAt data pos)) (shortId (valueAt data pos)))
      (hnested : 2 + shortLen (valueAt data pos) ≤ nested) :
      Follows ⟨.parsingMlmeSubie, pos, nested⟩
        (behindSubie (pos + 2 + shortLen (valueAt data pos))
          (nested - (2 + shortLen (valueAt data pos))))
  | long {pos nested : ℕ} (htype : 0x8000 ≤ valueAt data pos)
      (hfit : pos + 2 + payloadLen (valueAt data pos) ≤ size)
      (hok : LongOk (payloadLen (valueAt data pos)) (payloadId (valueAt data pos)))
      (hnested : 2 + payloadLen (valueAt data pos) ≤ nested) :
      Follows ⟨.parsingMlmeSubie, pos, nested⟩
        (behindSubie (pos + 2 + payloadLen (valueAt data pos))
          (nested - (2 + payloadLen (valueAt data pos))))

/-- The parser stops at the place and accepts what was there before. -/
inductive Ends : Place → Prop
  | size {state : ParsingState} {nested : ℕ} : Ends ⟨state, size, nested⟩
  | listTermination2 {pos nested : ℕ} (htype : valueAt data pos < 0x8000) (hfit : pos + 2 ≤ size)
      (hid : headerId (valueAt data pos) = headerIeListTermination2)
      (hlen : headerLen (valueAt data pos) = 0) :
      Ends ⟨.parsingHeaderIe, pos, nested⟩
  | listTermination {pos nested : ℕ} (htype : 0x8000 ≤ valueAt data pos) (hfit : pos + 2 ≤ size)
      (hid : payloadId (valueAt data pos) = payloadIeListTermination)
      (hlen : payloadLen (valueAt data pos) = 0) :
      Ends ⟨.parsingPayloadIe, pos, nested⟩

/-- Elements that are accepted lead from the first place to the second one. -/
def Leads : Place → Place → Prop := Relation.ReflTransGen (Follows cfg data size)

/-- The frame is accepted from the place on. -/
def Accepts (p : Place) : Prop := ∃ q, Leads cfg data size p q ∧ Ends data size q

/-- At the place only bytes of the frame are read: an IETF element has a sub-identifier in the
frame and ends in it, or 255 bytes behind it (modulo 256), where the parser fails; an element with a
slotframe has 5 bytes in the frame, and a hopping sequence 10. -/
def ReadsFit (p : Place) : Prop :=
  p.pos + 2 ≤ size →
    match p.state with
    | .parsingHeaderIe => True
    | .parsingPayloadIe =>
        0x8000 ≤ valueAt data p.pos → cfg.tschWithSixtop →
        payloadId (valueAt data p.pos) = payloadIeIetf →
          p.pos + 2 < size ∧ (p.pos + 2 + payloadLen (valueAt data p.pos) ≤ size ∨
            (payloadLen (valueAt data p.pos) + 1) % 256 = size - (p.pos + 2))
    | .parsingMlmeSubie =>
        (valueAt data p.pos < 0x8000 →
          shortId (valueAt data p.pos) = mlmeShortIeTschSloftrameAndLink →
          1 ≤ shortLen (valueAt data p.pos) →
          p.pos + 2 + shortLen (valueAt data p.pos) ≤ size → p.pos + 2 + 5 ≤ size) ∧
        (0x8000 ≤ valueAt data p.pos →
          payloadId (valueAt data p.pos) = mlmeLongIeTschChannelHoppingSequence →
          1 < payloadLen (valueAt data p.pos) →
          p.pos + 2 + payloadLen (valueAt data p.pos) ≤ size → p.pos + 2 + 10 ≤ size)

/-- At the place there is an element that is accepted although it does not end in the frame: an MLME
element that is longer than what is left, or an empty IETF element before the identifier of 6top. -/
def Overlong (p : Place) : Prop :=
  (p.pos + 2 ≤ size ∧ p.state = .parsingPayloadIe ∧ 0x8000 ≤ valueAt data p.pos) ∧
    ((payloadId (valueAt data p.pos) = payloadIeMlme ∧
        size < p.pos + 2 + payloadLen (valueAt data p.pos)) ∨
      (cfg.tschWithSixtop ∧ payloadId (valueAt data p.pos) = payloadIeIetf ∧
        payloadLen (valueAt data p.pos) = 0 ∧ data (p.pos + 2) = ietfIe6top))

/-- Every place that elements lead to is one where only the frame is read, and an element that does
not end in the frame is not followed by anything that is accepted. -/
def Clear (p : Place) : Prop :=
  ∀ q, Leads cfg data size p q →
    ReadsFit cfg data size q ∧ (Overlong cfg data size q → ¬ Accepts cfg data size q)

end

variable {cfg : Config} {data : ℕ → UInt8} {size : ℕ} {p q : Place}

/-! ## Inversion -/

section

variable {pos nested : ℕ}

theorem follows_header_iff : Follows cfg data size ⟨.parsingHeaderIe, pos, nested⟩ q ↔
    valueAt data pos < 0x8000 ∧
      ((pos + 2 + headerLen (valueAt data pos) ≤ size ∧
          HeaderOk (headerLen (valueAt data pos)) (headerId (valueAt data pos)) ∧
          q = ⟨.parsingHeaderIe, pos + 2 + headerLen (valueAt data pos), nested⟩) ∨
        (pos + 2 ≤ size ∧ headerId (valueAt data pos) = headerIeListTermination1 ∧
          headerLen (valueAt data pos) = 0 ∧ q = ⟨.parsingPayloadIe, pos + 2, nested⟩)) := by
  constructor
  · intro h
    cases h with
    | header htype hfit hok => exact ⟨htype, .inl ⟨hfit, hok, rfl⟩⟩
    | listTermination1 htype hfit hid hlen => exact ⟨htype, .inr ⟨hfit, hid, hlen, rfl⟩⟩
  · rintro ⟨htype, ⟨hfit, hok, rfl⟩ | ⟨hfit, hid, hlen, rfl⟩⟩
    · exact .header htype hfit hok
    · exact .listTermination1 htype hfit hid hlen

theorem follows_payload_iff : Follows cfg data size ⟨.parsingPayloadIe, pos, nested⟩ q ↔
    0x8000 ≤ valueAt data pos ∧
      ((pos + 2 ≤ size ∧ payloadId (valueAt data pos) = payloadIeMlme ∧
          q = ⟨.parsingMlmeSubie, pos + 2, payloadLen (valueAt data pos)⟩) ∨
        (cfg.tschWithSixtop ∧ payloadId (valueAt data pos) = payloadIeIetf ∧ pos + 2 < size ∧
          pos + 2 + payloadLen (valueAt data pos) ≤ size ∧
          q = ⟨.parsingPayloadIe, pos + 2 + payloadLen (valueAt data pos), nested⟩)) := by
  constructor
  · intro h
    cases h with
    | mlme htype hfit hid => exact ⟨htype, .inl ⟨hfit, hid, rfl⟩⟩
    | ietf hcfg htype hid hsub hfit => exact ⟨htype, .inr ⟨hcfg, hid, hsub, hfit, rfl⟩⟩
  · rintro ⟨htype, ⟨hfit, hid, rfl⟩ | ⟨hcfg, hid, hsub, hfit, rfl⟩⟩
    · exact .mlme htype hfit hid
    · exact .ietf hcfg htype hid hsub hfit

theorem follows_subie_iff : Follows cfg data size ⟨.parsingMlmeSubie, pos, nested⟩ q ↔
    (valueAt data pos < 0x8000 ∧ pos + 2 + shortLen (valueAt data pos) ≤ size ∧
        ShortOk data (pos + 2) (shortLen (valueAt data pos)) (shortId (valueAt data pos)) ∧
        2 + shortLen (valueAt data pos) ≤ nested ∧
        q = behindSubie (pos + 2 + shortLen (valueAt data pos))
          (nested - (2 + shortLen (valueAt data pos)))) ∨
      (0x8000 ≤ valueAt data pos ∧ pos + 2 + payloadLen (valueAt data pos) ≤ size ∧
        LongOk (payloadLen (valueAt data pos)) (payloadId (valueAt data pos)) ∧
        2 + payloadLen (valueAt data pos) ≤ nested ∧
        q = behindSubie (pos + 2 + payloadLen (valueAt data pos))
          (nested - (2 + payloadLen (valueAt data pos)))) := by
  constructor
  · intro h
    cases h with
    | short htype hfit hok hnested => exact .inl ⟨htype, hfit, hok, hnested, rfl⟩
    | long htype hfit hok hnested => exact .inr ⟨htype, hfit, hok, hnested, rfl⟩
  · rintro (⟨htype, hfit, hok, hnested, rfl⟩ | ⟨htype, hfit, hok, hnested, rfl⟩)
    · exact .short htype hfit hok hnested
    · exact .long htype hfit hok hnested

theorem ends_header_iff (hpos : pos + 2 ≤ size) :
    Ends data size ⟨.parsingHeaderIe, pos, nested⟩ ↔ valueAt data pos < 0x8000 ∧
      headerId (valueAt data pos) = headerIeListTermination2 ∧
      headerLen (valueAt data pos) = 0 := by
  constructor
  · intro h
    cases h with
    | size => omega
    | listTermination2 htype _ hid hlen => exact ⟨htype, hid, hlen⟩
  · exact fun h => .listTermination2 h.1 hpos h.2.1 h.2.2

theorem ends_payload_iff (hpos : pos + 2 ≤ size) :
    Ends data size ⟨.parsingPayloadIe, pos, nested⟩ ↔ 0x8000 ≤ valueAt data pos ∧
      payloadId (valueAt data pos) = payloadIeListTermination ∧
      payloadLen (valueAt data pos) = 0 := by
  constructor
  · intro h
    cases h with
    | size => omega
    | listTermination htype _ hid hlen => exact ⟨htype, hid, hlen⟩
  · exact fun h => .listTermination h.1 hpos h.2.1 h.2.2

theorem not_ends_subie (hpos : pos + 2 ≤ size) :
    ¬ Ends data size ⟨.parsingMlmeSubie, pos, nested⟩ := by
  intro h
  cases h with
  | size => omega

end

end Den2ne.Frame802154e
