import Den2ne.Frame802154e.Places

/-!
# The parser stays inside the frame

The parser is followed along the grammar, round by round: a round fails, or reads outside of the
frame, or jumps behind it, or ends, or steps to the next place.
-/

namespace Den2ne.Frame802154e

open Reads Reads.Transfer

/-- What was parsed lies in the frame. -/
structure Parsed.Inside (size : ℕ) (r : Parsed) : Prop where
  value_le : r.value ≤ size
  accepted_le : ∀ e ∈ r.accepted, e ≤ size

/-- The computation has ended with -1 or with something in the frame, and has read nothing outside
of it. -/
structure EndsInside (data : ℕ → UInt8) (size : ℕ) (t : Transfer UInt8 (Option Parsed)) :
    Prop where
  reads : ReadsBelow data size t
  result : t.run data = none ∨ ∃ r, t.run data = some (some r) ∧ r.Inside size

/-- The parser ends, and stays in the frame. -/
def Inside (data : ℕ → UInt8) (size : ℕ) (t : ℕ → Transfer UInt8 (Option Parsed)) : Prop :=
  ∃ fuel, EndsInside data size (t fuel)

variable {cfg : Config} {data : ℕ → UInt8} {size : ℕ} {c c' : Cursor} {p q : Place}

/-- Where the parser is. -/
def Cursor.place (c : Cursor) : Place := ⟨c.parsingState, c.buf, c.nestedMlmeLen⟩

/-- What is left is what is left of the frame. -/
def Cursor.Fits (c : Cursor) (size : ℕ) : Prop := c.buf + c.bufSize.toNat = size

theorem Cursor.Fits.advance {len : ℕ} (h : c.Fits size) (hle : len ≤ c.bufSize.toNat) :
    (c.advance len).Fits size := by
  have hlt := c.bufSize.toNat_lt
  have hlen : (UInt8.ofNat len).toNat = len := by
    rw [UInt8.toNat_ofNat', Nat.mod_eq_of_lt (by omega)]
  have hsub : (c.bufSize - UInt8.ofNat len).toNat = c.bufSize.toNat - len := by
    rw [UInt8.toNat_sub_of_le _ _ (by rw [UInt8.le_iff_toNat_le, hlen]; exact hle), hlen]
  unfold Cursor.Fits at h ⊢
  change c.buf + len + (c.bufSize - UInt8.ofNat len).toNat = size
  omega

/-- How a round goes. -/
inductive Round (cfg : Config) (data : ℕ → UInt8) (size : ℕ) (c : Cursor) : Prop
  | fails (hrun : (parseIe cfg c).run data = none)
      (hreads : ReadsBelow data size (parseIe cfg c)) (hfit : ReadsFit cfg data size c.place)
      (hnext : ∀ q, ¬ Follows cfg data size c.place q) (hend : ¬ Ends data size c.place)
  | leaves (hreads : ¬ ReadsBelow data size (parseIe cfg c))
      (hfit : ¬ ReadsFit cfg data size c.place)
  | jumps (c' : Cursor) (hrun : (parseIe cfg c).run data = some (.next c'))
      (hreads : ReadsBelow data size (parseIe cfg c)) (hbuf : size < c'.buf)
      (hfit : ReadsFit cfg data size c.place ↔ c'.bufSize.toNat = 1)
      (hnext : ∀ q, ¬ Follows cfg data size c.place q) (hend : ¬ Ends data size c.place)
  | ends (r : Parsed) (hrun : (parseIe cfg c).run data = some (.parsed r))
      (hreads : ReadsBelow data size (parseIe cfg c)) (hfit : ReadsFit cfg data size c.place)
      (hnext : ∀ q, ¬ Follows cfg data size c.place q) (hend : Ends data size c.place)
      (hover : ¬ Overlong cfg data size c.place)
      (hinside : r.Inside size ↔ ∀ e ∈ c.accepted, e ≤ size)
  | steps (c' : Cursor) (hrun : (parseIe cfg c).run data = some (.next c'))
      (hreads : ReadsBelow data size (parseIe cfg c)) (hfit : ReadsFit cfg data size c.place)
      (hnext : ∀ q, Follows cfg data size c.place q ↔ q = c'.place)
      (hend : ¬ Ends data size c.place) (hfits : c'.Fits size) (hlt : c.buf < c'.buf)
      (hacc : (∀ e ∈ c'.accepted, e ≤ size) ↔
        (∀ e ∈ c.accepted, e ≤ size) ∧ ¬ Overlong cfg data size c.place)

/-! ## One round -/

theorem Cursor.Fits.room (h : c.Fits size) (h2 : 2 ≤ c.bufSize.toNat) : c.buf + 2 ≤ size := by
  unfold Cursor.Fits at h
  omega

/-- The descriptor lies in the frame. -/
theorem safe_parseIe {ok : Prop} {a : Outcome} (hc : c.Fits size) (h2 : 2 ≤ c.bufSize.toNat)
    (hs : Safe data size 0 (parseElement cfg (valueAt data c.buf) (c.advance 2)) ok a) :
    Safe data size 0 (parseIe cfg c) ok a :=
  ((Safe.require _).bind fun _ => (safe_read16 (hc.room h2)).seq hs).congr (and_iff_right h2)

theorem readsBelow_parseIe (hc : c.Fits size) (h2 : 2 ≤ c.bufSize.toNat) :
    ReadsBelow data size (parseIe cfg c) ↔
      ReadsBelow data size (parseElement cfg (valueAt data c.buf) (c.advance 2)) := by
  have hread : Safe data size 0 (read16 c.buf) True (valueAt data c.buf) :=
    safe_read16 (hc.room h2)
  unfold parseIe
  rw [(Safe.require (m := 0) _).readsBelow_bind, forall_prop_of_true h2, hread.readsBelow_bind,
    forall_prop_of_true trivial]

theorem run_parseIe (hc : c.Fits size) (h2 : 2 ≤ c.bufSize.toNat) :
    (parseIe cfg c).run data =
      (parseElement cfg (valueAt data c.buf) (c.advance 2)).run data := by
  have hread : Safe data size 0 (read16 c.buf) True (valueAt data c.buf) :=
    safe_read16 (hc.room h2)
  unfold parseIe
  rw [run_bind, run_require, if_pos h2, Option.bind_some, run_bind, hread.returns.run_eq trivial]
  rfl

theorem Round.of_next {ok : Prop} (hs : Safe data size 0 (parseIe cfg c) ok (.next c'))
    (hfit : ReadsFit cfg data size c.place) (hend : ¬ Ends data size c.place)
    (hnext : ∀ q, Follows cfg data size c.place q ↔ ok ∧ q = c'.place)
    (hok : ok → c'.Fits size ∧ c.buf < c'.buf ∧ ((∀ e ∈ c'.accepted, e ≤ size) ↔
      (∀ e ∈ c.accepted, e ≤ size) ∧ ¬ Overlong cfg data size c.place)) :
    Round cfg data size c := by
  by_cases h : ok
  · obtain ⟨hfits, hlt, hacc⟩ := hok h
    refine .steps c' (hs.returns.run_eq h) hs.reads hfit (fun q => ?_) hend hfits hlt hacc
    rw [hnext, and_iff_right h]
  · exact .fails (hs.returns.run_none h) hs.reads hfit (fun q hq => h ((hnext q).1 hq).1) hend

theorem Round.of_parsed {ok : Prop} {r : Parsed}
    (hs : Safe data size 0 (parseIe cfg c) ok (.parsed r))
    (hfit : ReadsFit cfg data size c.place) (hend : Ends data size c.place ↔ ok)
    (hnext : ∀ q, ¬ Follows cfg data size c.place q) (hover : ¬ Overlong cfg data size c.place)
    (hinside : r.Inside size ↔ ∀ e ∈ c.accepted, e ≤ size) : Round cfg data size c := by
  by_cases h : ok
  · exact .ends r (hs.returns.run_eq h) hs.reads hfit hnext (hend.2 h) hover hinside
  · exact .fails (hs.returns.run_none h) hs.reads hfit hnext fun he => h (hend.1 he)

/-- One more element that ends in the frame, or not. -/
theorem forall_mem_accept {l : List ℕ} {e n : ℕ} :
    (∀ x ∈ l ++ [e], x ≤ n) ↔ (∀ x ∈ l, x ≤ n) ∧ e ≤ n := by
  rw [List.forall_mem_append, List.forall_mem_singleton]

section

variable {ieDesc len : ℕ} {ies : Ies} {n : ℕ}

theorem safe_parseHeader_listTermination1 (hid : headerId ieDesc = headerIeListTermination1) :
    Safe data n 0 (parseHeader ieDesc c) (ieDesc < 0x8000 ∧ headerLen ieDesc = 0)
      (.next { c.accept [c.buf] { c.ies with iePayloadIeOffset := UInt8.ofNat c.buf } with
        parsingState := .parsingPayloadIe }) := by
  unfold parseHeader
  refine (Safe.require _).bind fun _ => ?_
  dsimp only
  rw [if_pos hid]
  exact (Safe.require _).check fun _ => Safe.done _

theorem safe_parseHeader_listTermination2 (hid : headerId ieDesc = headerIeListTermination2) :
    Safe data n 0 (parseHeader ieDesc c) (ieDesc < 0x8000 ∧ headerLen ieDesc = 0)
      (.parsed ⟨c.buf, { c.ies with iePayloadIeOffset := UInt8.ofNat c.buf },
        c.accepted ++ [c.buf]⟩) := by
  have hne : headerId ieDesc ≠ headerIeListTermination1 := by
    rw [hid]
    decide
  unfold parseHeader
  refine (Safe.require _).bind fun _ => ?_
  dsimp only
  rw [if_neg hne, if_pos hid]
  exact (Safe.require _).check fun _ => Safe.done _

theorem safe_parseHeader (hc : c.Fits n) (h1 : headerId ieDesc ≠ headerIeListTermination1)
    (h2 : headerId ieDesc ≠ headerIeListTermination2) :
    Safe data n 0 (parseHeader ieDesc c) (ieDesc < 0x8000 ∧ headerLen ieDesc ≤ c.bufSize.toNat ∧
        HeaderOk (headerLen ieDesc) (headerId ieDesc))
      (.next ((c.accept [c.buf + headerLen ieDesc] (headerIes data c.buf c.ies)).advance
        (headerLen ieDesc))) := by
  unfold parseHeader
  refine (Safe.require _).bind fun _ => ?_
  dsimp only
  rw [if_neg h1, if_neg h2]
  refine (Safe.require _).bind fun hlen => ?_
  have hroom : c.buf + headerLen ieDesc ≤ n := by
    unfold Cursor.Fits at hc
    omega
  exact (safe_parseHeaderIe c.ies hroom).check fun _ => Safe.done _

end

theorem round_header (hc : c.Fits size) (h2 : 2 ≤ c.bufSize.toNat)
    (hstate : c.parsingState = .parsingHeaderIe) : Round cfg data size c := by
  have hroom := hc.room h2
  have hc' := hc.advance h2
  obtain ⟨buf, bufSize, state, nested, ies, accepted⟩ := c
  obtain rfl := hstate
  have hbuf : buf + 2 + (bufSize - UInt8.ofNat 2).toNat = size := hc'
  have hfit : ReadsFit cfg data size ⟨.parsingHeaderIe, buf, nested⟩ := fun _ => trivial
  have hshort : ¬ Overlong cfg data size ⟨.parsingHeaderIe, buf, nested⟩ := fun h => nomatch h.1.2.1
  by_cases hterm : headerId (valueAt data buf) = headerIeListTermination1
  · refine Round.of_next (safe_parseIe hc h2 (safe_parseHeader_listTermination1 hterm)) hfit ?_
      (fun q => ?_) (fun h => ?_)
    · rw [Cursor.place, ends_header_iff hroom, hterm]
      exact fun h => absurd h.2.1 (by decide)
    · rw [Cursor.place, follows_header_iff, and_assoc]
      refine and_congr_right fun _ => ?_
      rw [or_iff_right]
      · exact ⟨fun h => ⟨h.2.2.1, h.2.2.2⟩, fun h => ⟨hroom, hterm, h.1, h.2⟩⟩
      · rintro ⟨-, hok, -⟩
        exact absurd (hterm.symm.trans hok.1) (by decide)
    · refine ⟨hc', Nat.lt_add_of_pos_right (by decide), forall_mem_accept.trans ?_⟩
      exact and_congr_right fun _ => iff_of_true hroom hshort
  · by_cases hend : headerId (valueAt data buf) = headerIeListTermination2
    · refine Round.of_parsed (safe_parseIe hc h2 (safe_parseHeader_listTermination2 hend)) hfit ?_
        (fun q => ?_) hshort ?_
      · rw [Cursor.place, ends_header_iff hroom, hend]
        exact and_congr_right fun _ => and_iff_right rfl
      · rw [Cursor.place, follows_header_iff]
        rintro ⟨-, ⟨-, hok, -⟩ | ⟨-, hid, -⟩⟩
        · exact absurd (hend.symm.trans hok.1) (by decide)
        · exact hterm hid
      · refine ⟨fun h e he => h.accepted_le e (List.mem_append_left _ he), fun h => ⟨hroom, ?_⟩⟩
        exact forall_mem_accept.2 ⟨h, hroom⟩
    · refine Round.of_next (safe_parseIe hc h2 (safe_parseHeader hc' hterm hend)) hfit ?_
        (fun q => ?_) (fun h => ?_)
      · rw [Cursor.place, ends_header_iff hroom]
        exact fun h => hend h.2.1
      · rw [Cursor.place, follows_header_iff, and_assoc]
        refine and_congr_right fun _ => ?_
        rw [or_iff_left fun h => hterm h.2.1, and_assoc]
        refine and_congr ?_ Iff.rfl
        change buf + 2 + headerLen (valueAt data buf) ≤ size ↔
          headerLen (valueAt data buf) ≤ (bufSize - UInt8.ofNat 2).toNat
        omega
      · refine ⟨hc'.advance h.2.1, ?_, forall_mem_accept.trans ?_⟩
        · change buf < buf + 2 + _
          omega
        · refine and_congr_right fun _ => iff_of_true ?_ hshort
          have hlen : headerLen (valueAt data buf) ≤ (bufSize - UInt8.ofNat 2).toNat := h.2.1
          change buf + 2 + headerLen (valueAt data buf) ≤ size
          omega

section

variable {ieDesc len : ℕ} {ies : Ies} {n : ℕ}

theorem safe_parsePayload_mlme (hid : payloadId ieDesc = payloadIeMlme) :
    Safe data n 0 (parsePayload cfg ieDesc c) (0x8000 ≤ ieDesc)
      (.next { c.accept [c.buf + payloadLen ieDesc] c.ies with
        parsingState := .parsingMlmeSubie
        nestedMlmeLen := payloadLen ieDesc }) := by
  unfold parsePayload
  refine (Safe.require _).check fun _ => ?_
  dsimp only
  rw [if_pos hid]
  exact Safe.done _

/-- What an IETF element leads to. -/
def ietfCursor (data : ℕ → UInt8) (len : ℕ) (c : Cursor) : Cursor :=
  if data c.buf = ietfIe6top then
    ((c.accept [c.buf + len, c.buf + 1 + (UInt16.ofNat (len + 65535)).toNat]
      { c.ies with
        sixtopIeContentPtr := some (c.buf + 1)
        sixtopIeContentLen := UInt16.ofNat (len + 65535) }).advance len)
  else (c.accept [c.buf + len] c.ies).advance len

theorem safe_parsePayload_ietf (hcfg : cfg.tschWithSixtop)
    (hid : payloadId ieDesc = payloadIeIetf) (hsub : c.buf < n) :
    Safe data n 0 (parsePayload cfg ieDesc c) (0x8000 ≤ ieDesc)
      (.next (ietfCursor data (payloadLen ieDesc) c)) := by
  have hne : payloadId ieDesc ≠ payloadIeMlme := by
    rw [hid]
    decide
  unfold parsePayload ietfCursor
  refine (Safe.require _).check fun _ => ?_
  dsimp only
  rw [if_neg hne, if_pos ⟨hcfg, hid⟩]
  refine (Safe.get hsub).seq ?_
  split <;> exact Safe.done _

theorem not_readsBelow_parsePayload_ietf (hcfg : cfg.tschWithSixtop) (htype : 0x8000 ≤ ieDesc)
    (hid : payloadId ieDesc = payloadIeIetf) (hsub : n ≤ c.buf) :
    ¬ ReadsBelow data n (parsePayload cfg ieDesc c) := by
  have hne : payloadId ieDesc ≠ payloadIeMlme := by
    rw [hid]
    decide
  unfold parsePayload
  rw [(Safe.require (m := 0) _).readsBelow_bind, forall_prop_of_true htype]
  dsimp only
  rw [if_neg hne, if_pos ⟨hcfg, hid⟩, readsBelow_bind, readsBelow_get]
  exact fun h => Nat.not_lt.2 hsub h.1

theorem safe_parsePayload_listTermination
    (hid : payloadId ieDesc = payloadIeListTermination) :
    Safe data n 0 (parsePayload cfg ieDesc c) (0x8000 ≤ ieDesc ∧ payloadLen ieDesc = 0)
      (.parsed ⟨c.buf, c.ies, c.accepted ++ [c.buf]⟩) := by
  have hmlme : payloadId ieDesc ≠ payloadIeMlme := by
    rw [hid]
    decide
  have hietf : ¬ (cfg.tschWithSixtop ∧ payloadId ieDesc = payloadIeIetf) := by
    rw [hid]
    exact fun h => absurd h.2 (by decide)
  unfold parsePayload
  refine (Safe.require _).bind fun _ => ?_
  dsimp only
  rw [if_neg hmlme, if_neg hietf, if_pos hid]
  exact (Safe.require _).check fun _ => Safe.done _

theorem safe_parsePayload_other (a : Outcome) (hmlme : payloadId ieDesc ≠ payloadIeMlme)
    (hietf : ¬ (cfg.tschWithSixtop ∧ payloadId ieDesc = payloadIeIetf))
    (hterm : payloadId ieDesc ≠ payloadIeListTermination) :
    Safe data n 0 (parsePayload cfg ieDesc c) False a := by
  unfold parsePayload
  refine Safe.congr ((Safe.require _).bind fun _ => ?_) (iff_of_eq (and_false _))
  dsimp only
  rw [if_neg hmlme, if_neg hietf, if_neg hterm]
  exact Safe.fail a

end

/-- The elements of an IETF element end in the frame if it is not an empty one of 6top. -/
theorem accepted_ietfCursor {len : ℕ} (hbuf : c.buf < size) (hfit : c.buf + len ≤ size)
    (hsize : size < 256) : (∀ e ∈ (ietfCursor data len c).accepted, e ≤ size) ↔
      (∀ e ∈ c.accepted, e ≤ size) ∧ ¬ (len = 0 ∧ data c.buf = ietfIe6top) := by
  unfold ietfCursor
  split
  · rename_i hsub
    have hlen : (UInt16.ofNat (len + 65535)).toNat = if len = 0 then 65535 else len - 1 := by
      rw [UInt16.toNat_ofNat']
      split <;> omega
    have happ : ((c.accept [c.buf + len, c.buf + 1 + (UInt16.ofNat (len + 65535)).toNat]
        { c.ies with
          sixtopIeContentPtr := some (c.buf + 1)
          sixtopIeContentLen := UInt16.ofNat (len + 65535) }).advance len).accepted =
        c.accepted ++ [c.buf + len, c.buf + 1 + (UInt16.ofNat (len + 65535)).toNat] := rfl
    rw [happ, List.forall_mem_append, List.forall_mem_cons, List.forall_mem_singleton, hlen]
    refine and_congr_right fun _ => ?_
    split <;> simp_all <;> omega
  · rename_i hsub
    have happ : ((c.accept [c.buf + len] c.ies).advance len).accepted =
        c.accepted ++ [c.buf + len] := rfl
    rw [happ, forall_mem_accept]
    exact and_congr_right fun _ => iff_of_true hfit fun h => hsub h.2

theorem ietfCursor_eq (data : ℕ → UInt8) (len : ℕ) (c : Cursor) :
    ∃ ends ies, ietfCursor data len c = (c.accept ends ies).advance len := by
  unfold ietfCursor
  split
  · exact ⟨_, _, rfl⟩
  · exact ⟨_, _, rfl⟩

theorem safe_parsePayload_type {ieDesc : ℕ} (a : Outcome) (htype : ¬ 0x8000 ≤ ieDesc) :
    Safe data size 0 (parsePayload cfg ieDesc c) False a := by
  have hzero : Safe data size 0 (require (0x8000 ≤ ieDesc)) False () :=
    (Safe.require _).congr (iff_false_intro htype)
  exact Safe.congr (hzero.bind False.elim) (iff_of_eq (and_self False))

/-- An IETF element: whether its identifier is in the frame decides first, then its length. -/
theorem round_ietf (hc : c.Fits size) (hsize : size < 256) (h2 : 2 ≤ c.bufSize.toNat)
    (hstate : c.parsingState = .parsingPayloadIe) (htype : 0x8000 ≤ valueAt data c.buf)
    (hcfg : cfg.tschWithSixtop) (hid : payloadId (valueAt data c.buf) = payloadIeIetf) :
    Round cfg data size c := by
  have hroom := hc.room h2
  have hc' := hc.advance h2
  have hbyte := c.bufSize.toNat_lt
  obtain ⟨buf, bufSize, state, nested, ies, accepted⟩ := c
  obtain rfl := hstate
  change 0x8000 ≤ valueAt data buf at htype
  change payloadId (valueAt data buf) = payloadIeIetf at hid
  change buf + 2 ≤ size at hroom
  change bufSize.toNat < 256 at hbyte
  have hleft : buf + bufSize.toNat = size := hc
  have hbuf : buf + 2 + (bufSize - UInt8.ofNat 2).toNat = size := hc'
  have hmlme : payloadId (valueAt data buf) ≠ payloadIeMlme := by
    rw [hid]
    decide
  have hend : ¬ Ends data size ⟨.parsingPayloadIe, buf, nested⟩ := by
    rw [ends_payload_iff hroom, hid]
    exact fun h => absurd h.2.1 (by decide)
  have hfollows : ∀ q, Follows cfg data size ⟨.parsingPayloadIe, buf, nested⟩ q ↔
      buf + 2 < size ∧ buf + 2 + payloadLen (valueAt data buf) ≤ size ∧
        q = ⟨.parsingPayloadIe, buf + 2 + payloadLen (valueAt data buf), nested⟩ := by
    intro q
    rw [follows_payload_iff, and_iff_right htype, or_iff_right fun h => hmlme h.2.1,
      and_iff_right hcfg, and_iff_right hid]
  have hreadsFit : ReadsFit cfg data size ⟨.parsingPayloadIe, buf, nested⟩ ↔
      buf + 2 < size ∧ (buf + 2 + payloadLen (valueAt data buf) ≤ size ∨
        (payloadLen (valueAt data buf) + 1) % 256 = size - (buf + 2)) :=
    ⟨fun h => h hroom htype hcfg hid, fun h _ _ _ _ => h⟩
  by_cases hsub : buf + 2 < size
  · have hsafe : Safe data size 0 (parseIe cfg _) _ (.next _) :=
      safe_parseIe hc h2 (safe_parsePayload_ietf hcfg hid hsub)
    obtain ⟨ends, ies', heq⟩ := ietfCursor_eq data (payloadLen (valueAt data buf))
      (Cursor.advance ⟨buf, bufSize, .parsingPayloadIe, nested, ies, accepted⟩ 2)
    by_cases hlen : buf + 2 + payloadLen (valueAt data buf) ≤ size
    · refine .steps _ (hsafe.returns.run_eq htype) hsafe.reads (hreadsFit.2 ⟨hsub, .inl hlen⟩)
        (fun q => ?_) hend ?_ ?_ ?_
      · rw [Cursor.place, hfollows, and_iff_right hsub, and_iff_right hlen]
        rw [heq]
        rfl
      · rw [heq]
        refine Cursor.Fits.advance hc' ?_
        change payloadLen (valueAt data buf) ≤ (bufSize - UInt8.ofNat 2).toNat
        omega
      · change buf < (ietfCursor _ _ _).buf
        rw [heq]
        change buf < buf + 2 + payloadLen (valueAt data buf)
        omega
      · refine (accepted_ietfCursor hsub hlen hsize).trans ?_
        refine and_congr_right fun _ => not_congr ⟨fun h => ?_, ?_⟩
        · exact ⟨⟨hroom, rfl, htype⟩, .inr ⟨hcfg, hid, h.1, h.2⟩⟩
        · rintro ⟨-, ⟨h, -⟩ | ⟨-, -, h⟩⟩
          · exact absurd h hmlme
          · exact h
    · refine .jumps _ (hsafe.returns.run_eq htype) hsafe.reads ?_ ?_ (fun q hq => ?_) hend
      · rw [heq]
        exact Nat.not_le.1 hlen
      · change ReadsFit cfg data size ⟨.parsingPayloadIe, buf, nested⟩ ↔
          (ietfCursor _ _ _).bufSize.toNat = 1
        rw [hreadsFit, and_iff_right hsub, or_iff_right hlen, heq]
        change _ ↔ (bufSize - UInt8.ofNat 2 -
          UInt8.ofNat (payloadLen (valueAt data buf))).toNat = 1
        rw [UInt8.toNat_sub, UInt8.toNat_ofNat']
        omega
      · exact hlen ((hfollows q).1 hq).2.1
  · refine .leaves ?_ fun h => hsub (hreadsFit.1 h).1
    rw [readsBelow_parseIe hc h2]
    exact not_readsBelow_parsePayload_ietf hcfg htype hid (Nat.not_lt.1 hsub)

theorem round_payload (hc : c.Fits size) (hsize : size < 256) (h2 : 2 ≤ c.bufSize.toNat)
    (hstate : c.parsingState = .parsingPayloadIe) : Round cfg data size c := by
  have hroom := hc.room h2
  have hc' := hc.advance h2
  by_cases hietf : cfg.tschWithSixtop ∧ payloadId (valueAt data c.buf) = payloadIeIetf
  · by_cases htype : 0x8000 ≤ valueAt data c.buf
    · exact round_ietf hc hsize h2 hstate htype hietf.1 hietf.2
    · obtain ⟨buf, bufSize, state, nested, ies, accepted⟩ := c
      obtain rfl := hstate
      have hsafe : Safe data size 0 (parseIe cfg _) False (.next _) :=
        safe_parseIe hc h2
          (safe_parsePayload_type (.next ⟨0, 0, .parsingHeaderIe, 0, ies, []⟩) htype)
      refine .fails (hsafe.returns.run_none id) hsafe.reads (fun _ h => absurd h htype)
        (fun q hq => htype (follows_payload_iff.1 hq).1) fun h => ?_
      exact htype ((ends_payload_iff hroom).1 h).1
  obtain ⟨buf, bufSize, state, nested, ies, accepted⟩ := c
  obtain rfl := hstate
  change ¬ (cfg.tschWithSixtop ∧ payloadId (valueAt data buf) = payloadIeIetf) at hietf
  have hfit : ReadsFit cfg data size ⟨.parsingPayloadIe, buf, nested⟩ :=
    fun _ _ hcfg hid => absurd ⟨hcfg, hid⟩ hietf
  by_cases hmlme : payloadId (valueAt data buf) = payloadIeMlme
  · refine Round.of_next (safe_parseIe hc h2 (safe_parsePayload_mlme hmlme)) hfit ?_ (fun q => ?_)
      (fun htype => ?_)
    · rw [Cursor.place, ends_payload_iff hroom, hmlme]
      exact fun h => absurd h.2.1 (by decide)
    · rw [Cursor.place, follows_payload_iff]
      refine and_congr_right fun _ => ?_
      rw [or_iff_left fun h => hietf ⟨h.1, h.2.1⟩, and_iff_right hroom, and_iff_right hmlme]
      rfl
    · refine ⟨hc', Nat.lt_add_of_pos_right (by decide), forall_mem_accept.trans ?_⟩
      refine and_congr_right fun _ => ⟨fun hle hover => ?_, fun hover => ?_⟩
      · rcases hover.2 with ⟨-, hlt⟩ | ⟨hcfg, hid, -⟩
        · exact Nat.not_lt.2 hle hlt
        · exact hietf ⟨hcfg, hid⟩
      · by_contra hlt
        exact hover ⟨⟨hroom, rfl, htype⟩, .inl ⟨hmlme, Nat.not_le.1 hlt⟩⟩
  · by_cases hterm : payloadId (valueAt data buf) = payloadIeListTermination
    · refine Round.of_parsed (safe_parseIe hc h2 (safe_parsePayload_listTermination hterm)) hfit ?_
        (fun q => ?_) (fun hover => ?_) ?_
      · rw [Cursor.place, ends_payload_iff hroom]
        exact and_congr_right fun _ => and_iff_right hterm
      · rw [Cursor.place, follows_payload_iff]
        rintro ⟨-, ⟨-, h, -⟩ | ⟨hcfg, hid, -⟩⟩
        · exact hmlme h
        · exact hietf ⟨hcfg, hid⟩
      · rcases hover.2 with ⟨h, -⟩ | ⟨hcfg, hid, -⟩
        · exact hmlme h
        · exact hietf ⟨hcfg, hid⟩
      · refine ⟨fun h e he => h.accepted_le e (List.mem_append_left _ he), fun h => ⟨hroom, ?_⟩⟩
        exact forall_mem_accept.2 ⟨h, hroom⟩
    · have hsafe : Safe data size 0 (parseIe cfg _) False (.next _) :=
        safe_parseIe hc h2 (safe_parsePayload_other (.next ⟨0, 0, .parsingHeaderIe, 0, ies, []⟩)
          hmlme hietf hterm)
      refine .fails (hsafe.returns.run_none id) hsafe.reads hfit (fun q hq => ?_) fun h => ?_
      · rcases (follows_payload_iff.1 hq).2 with ⟨-, h, -⟩ | ⟨hcfg, hid, -⟩
        · exact hmlme h
        · exact hietf ⟨hcfg, hid⟩
      · exact hterm ((ends_payload_iff hroom).1 h).2.1

/-- The cursor behind a sub-element. -/
def Cursor.leave (c : Cursor) (len : ℕ) (ies : Ies) : Cursor :=
  { c.accept [c.buf + len] ies with
    nestedMlmeLen := c.nestedMlmeLen - (2 + len)
    parsingState :=
      if c.nestedMlmeLen - (2 + len) = 0 then .parsingPayloadIe else c.parsingState }.advance len

theorem safe_leaveSubie {n : ℕ} (len : ℕ) (ies : Ies) (c : Cursor) :
    Safe data n 0 (leaveSubie len ies c) (2 + len ≤ c.nestedMlmeLen) (.next (c.leave len ies)) :=
  (Safe.require _).check fun _ => Safe.done _

section

variable {ieDesc n : ℕ}

theorem safe_parseSubie_short (hc : c.Fits n) (htype : ieDesc < 0x8000)
    (hfit : shortId ieDesc = mlmeShortIeTschSloftrameAndLink → 1 ≤ shortLen ieDesc →
      shortLen ieDesc ≤ c.bufSize.toNat → c.buf + 5 ≤ n) :
    Safe data n 0 (parseSubie cfg ieDesc c) (shortLen ieDesc ≤ c.bufSize.toNat ∧
        ShortOk data c.buf (shortLen ieDesc) (shortId ieDesc) ∧
        2 + shortLen ieDesc ≤ c.nestedMlmeLen)
      (.next (c.leave (shortLen ieDesc)
        (shortIes data c.buf (shortLen ieDesc) (shortId ieDesc) c.ies))) := by
  unfold parseSubie
  rw [if_pos htype]
  refine (Safe.require _).bind fun hlen => ?_
  have hroom : c.buf + shortLen ieDesc ≤ n := by
    unfold Cursor.Fits at hc
    omega
  exact (safe_parseMlmeShortIe c.ies hroom fun hid hpos => hfit hid hpos hlen).bind
    fun _ => safe_leaveSubie _ _ c

theorem safe_parseSubie_long (hc : c.Fits n) (htype : ¬ ieDesc < 0x8000)
    (hfit : payloadId ieDesc = mlmeLongIeTschChannelHoppingSequence → 1 < payloadLen ieDesc →
      payloadLen ieDesc ≤ c.bufSize.toNat → c.buf + 10 ≤ n) :
    Safe data n 0 (parseSubie cfg ieDesc c) (payloadLen ieDesc ≤ c.bufSize.toNat ∧
        LongOk (payloadLen ieDesc) (payloadId ieDesc) ∧
        2 + payloadLen ieDesc ≤ c.nestedMlmeLen)
      (.next (c.leave (payloadLen ieDesc)
        (longIes cfg data c.buf (payloadLen ieDesc) c.ies))) := by
  unfold parseSubie
  rw [if_neg htype]
  refine (Safe.require _).bind fun hlen => ?_
  have hroom : c.buf + payloadLen ieDesc ≤ n := by
    unfold Cursor.Fits at hc
    omega
  exact (safe_parseMlmeLongIe c.ies hroom fun hid hpos => hfit hid hpos hlen).bind
    fun _ => safe_leaveSubie _ _ c

theorem not_readsBelow_parseSubie_short (htype : ieDesc < 0x8000)
    (hid : shortId ieDesc = mlmeShortIeTschSloftrameAndLink) (hpos : 1 ≤ shortLen ieDesc)
    (hlen : shortLen ieDesc ≤ c.bufSize.toNat) (hroom : n < c.buf + 5) :
    ¬ ReadsBelow data n (parseSubie cfg ieDesc c) := by
  unfold parseSubie
  rw [if_pos htype, (Safe.require (m := 0) _).readsBelow_bind, forall_prop_of_true hlen,
    readsBelow_bind]
  exact fun h => not_readsBelow_slotframe c.ies hid hpos hroom h.1

theorem not_readsBelow_parseSubie_long (htype : ¬ ieDesc < 0x8000)
    (hid : payloadId ieDesc = mlmeLongIeTschChannelHoppingSequence)
    (hpos : 1 < payloadLen ieDesc) (hlen : payloadLen ieDesc ≤ c.bufSize.toNat)
    (hroom : n < c.buf + 10) : ¬ ReadsBelow data n (parseSubie cfg ieDesc c) := by
  unfold parseSubie
  rw [if_neg htype, (Safe.require (m := 0) _).readsBelow_bind, forall_prop_of_true hlen,
    readsBelow_bind]
  exact fun h => not_readsBelow_hopping c.ies hid hpos hroom h.1

end

theorem round_subie (hc : c.Fits size) (h2 : 2 ≤ c.bufSize.toNat)
    (hstate : c.parsingState = .parsingMlmeSubie) : Round cfg data size c := by
  have hroom := hc.room h2
  have hc' := hc.advance h2
  obtain ⟨buf, bufSize, state, nested, ies, accepted⟩ := c
  obtain rfl := hstate
  change buf + 2 ≤ size at hroom
  have hbuf : buf + 2 + (bufSize - UInt8.ofNat 2).toNat = size := hc'
  have hend : ¬ Ends data size ⟨.parsingMlmeSubie, buf, nested⟩ := not_ends_subie hroom
  have hshort : ¬ Overlong cfg data size ⟨.parsingMlmeSubie, buf, nested⟩ :=
    fun h => nomatch h.1.2.1
  have hroom_iff : ∀ len, len ≤ (bufSize - UInt8.ofNat 2).toNat ↔ buf + 2 + len ≤ size := by
    intro len
    omega
  by_cases htype : valueAt data buf < 0x8000
  · by_cases hfit : shortId (valueAt data buf) = mlmeShortIeTschSloftrameAndLink →
        1 ≤ shortLen (valueAt data buf) → buf + 2 + shortLen (valueAt data buf) ≤ size →
        buf + 2 + 5 ≤ size
    · have hreads : ReadsFit cfg data size ⟨.parsingMlmeSubie, buf, nested⟩ :=
        fun _ => ⟨fun _ => hfit, fun h => absurd htype (Nat.not_lt.2 h)⟩
      refine Round.of_next (safe_parseIe hc h2 (safe_parseSubie_short hc' htype
        fun hid hpos hlen => hfit hid hpos ((hroom_iff _).1 hlen))) hreads hend (fun q => ?_)
        (fun h => ?_)
      · rw [Cursor.place, follows_subie_iff, or_iff_left fun h => Nat.not_lt.2 h.1 htype,
          and_iff_right htype, ← hroom_iff, and_assoc, and_assoc]
        rfl
      · have hlen := (hroom_iff _).1 h.1
        refine ⟨hc'.advance h.1, ?_, forall_mem_accept.trans ?_⟩
        · change buf < buf + 2 + shortLen (valueAt data buf)
          omega
        · exact and_congr_right fun _ => iff_of_true hlen hshort
    · simp only [Classical.not_imp, Nat.not_le] at hfit
      obtain ⟨hid, hpos, hlen, hlt⟩ := hfit
      refine .leaves ?_ fun h => Nat.not_le.2 hlt ((h hroom).1 htype hid hpos hlen)
      rw [readsBelow_parseIe hc h2]
      exact not_readsBelow_parseSubie_short htype hid hpos ((hroom_iff _).2 hlen) hlt
  · by_cases hfit : payloadId (valueAt data buf) = mlmeLongIeTschChannelHoppingSequence →
        1 < payloadLen (valueAt data buf) → buf + 2 + payloadLen (valueAt data buf) ≤ size →
        buf + 2 + 10 ≤ size
    · have hreads : ReadsFit cfg data size ⟨.parsingMlmeSubie, buf, nested⟩ :=
        fun _ => ⟨fun h => absurd h htype, fun _ => hfit⟩
      refine Round.of_next (safe_parseIe hc h2 (safe_parseSubie_long hc' htype
        fun hid hpos hlen => hfit hid hpos ((hroom_iff _).1 hlen))) hreads hend (fun q => ?_)
        (fun h => ?_)
      · rw [Cursor.place, follows_subie_iff, or_iff_right fun h => htype h.1,
          and_iff_right (Nat.not_lt.1 htype), ← hroom_iff, and_assoc, and_assoc]
        rfl
      · have hlen := (hroom_iff _).1 h.1
        refine ⟨hc'.advance h.1, ?_, forall_mem_accept.trans ?_⟩
        · change buf < buf + 2 + payloadLen (valueAt data buf)
          omega
        · exact and_congr_right fun _ => iff_of_true hlen hshort
    · simp only [Classical.not_imp, Nat.not_le] at hfit
      obtain ⟨hid, hpos, hlen, hlt⟩ := hfit
      refine .leaves ?_ fun h => Nat.not_le.2 hlt ((h hroom).2 (Nat.not_lt.1 htype) hid hpos hlen)
      rw [readsBelow_parseIe hc h2]
      exact not_readsBelow_parseSubie_long htype hid hpos ((hroom_iff _).2 hlen) hlt

theorem round (hc : c.Fits size) (hsize : size < 256) (h2 : 2 ≤ c.bufSize.toNat) :
    Round cfg data size c := by
  cases hstate : c.parsingState with
  | parsingHeaderIe => exact round_header hc h2 hstate
  | parsingPayloadIe => exact round_payload hc hsize h2 hstate
  | parsingMlmeSubie => exact round_subie hc h2 hstate

/-! ## All rounds -/

theorem Follows.room (h : Follows cfg data size p q) : p.pos + 2 ≤ size := by
  cases h with
  | header _ hfit => exact Nat.le_trans (Nat.le_add_right _ _) hfit
  | listTermination1 _ hfit => exact hfit
  | mlme _ hfit => exact hfit
  | ietf _ _ _ hsub => exact Nat.le_of_lt hsub
  | short _ hfit => exact Nat.le_trans (Nat.le_add_right _ _) hfit
  | long _ hfit => exact Nat.le_trans (Nat.le_add_right _ _) hfit

theorem Ends.room (h : Ends data size p) : p.pos = size ∨ p.pos + 2 ≤ size := by
  cases h with
  | size => exact .inl rfl
  | listTermination2 _ hfit => exact .inr hfit
  | listTermination _ hfit => exact .inr hfit

theorem accepts_iff : Accepts cfg data size p ↔
    Ends data size p ∨ ∃ q, Follows cfg data size p q ∧ Accepts cfg data size q := by
  constructor
  · rintro ⟨r, hlead, hend⟩
    rcases hlead.cases_head with rfl | ⟨q, hfollows, hlead⟩
    · exact .inl hend
    · exact .inr ⟨q, hfollows, r, hlead, hend⟩
  · rintro (hend | ⟨q, hfollows, r, hlead, hend⟩)
    · exact ⟨p, .refl, hend⟩
    · exact ⟨r, .head hfollows hlead, hend⟩

theorem clear_iff : Clear cfg data size p ↔
    (ReadsFit cfg data size p ∧ (Overlong cfg data size p → ¬ Accepts cfg data size p)) ∧
      ∀ q, Follows cfg data size p q → Clear cfg data size q := by
  constructor
  · exact fun h => ⟨h p .refl, fun q hfollows r hlead => h r (.head hfollows hlead)⟩
  · rintro ⟨hp, hnext⟩ r hlead
    rcases hlead.cases_head with rfl | ⟨q, hfollows, hlead⟩
    · exact hp
    · exact hnext q hfollows r hlead

/-- Where there is no room for a descriptor nothing is read and nothing follows. -/
theorem clear_of_no_room (h : size < p.pos + 2) : Clear cfg data size p := by
  refine clear_iff.2 ⟨⟨fun hroom => ?_, fun hover => ?_⟩, fun q hq => ?_⟩
  · exact absurd hroom (Nat.not_le.2 h)
  · exact absurd hover.1.1 (Nat.not_le.2 h)
  · exact absurd hq.room (Nat.not_le.2 h)

section

variable {fuel : ℕ}

theorem not_endsInside_zero : ¬ EndsInside data size (parseLoop cfg 0 c) := by
  intro h
  rcases h.result with hnone | ⟨r, hr, -⟩
  · cases hnone
  · cases hr

theorem parseLoop_succ (hpos : 0 < c.bufSize.toNat) : parseLoop cfg (fuel + 1) c =
    parseIe cfg c >>= fun o => match o with
      | .next c => parseLoop cfg fuel c
      | .parsed r => pure (some r) :=
  if_pos hpos

theorem parseLoop_finish (hpos : ¬ 0 < c.bufSize.toNat) :
    parseLoop cfg (fuel + 1) c = pure (some c.finish) :=
  if_neg hpos

/-- A round in which the parser returns -1. -/
theorem endsInside_of_none (hpos : 0 < c.bufSize.toNat) (hrun : (parseIe cfg c).run data = none)
    (hreads : ReadsBelow data size (parseIe cfg c)) :
    EndsInside data size (parseLoop cfg (fuel + 1) c) := by
  rw [parseLoop_succ hpos]
  refine ⟨readsBelow_bind.2 ⟨hreads, fun o ho => ?_⟩, .inl ?_⟩
  · rw [hrun] at ho
    cases ho
  · rw [run_bind, hrun]
    rfl

theorem endsInside_succ_iff (hpos : 0 < c.bufSize.toNat)
    (hrun : (parseIe cfg c).run data = some (.next c'))
    (hreads : ReadsBelow data size (parseIe cfg c)) :
    EndsInside data size (parseLoop cfg (fuel + 1) c) ↔
      EndsInside data size (parseLoop cfg fuel c') := by
  have hresult : (parseLoop cfg (fuel + 1) c).run data = (parseLoop cfg fuel c').run data := by
    rw [parseLoop_succ hpos, run_bind, hrun]
    rfl
  have hread : ReadsBelow data size (parseLoop cfg (fuel + 1) c) ↔
      ReadsBelow data size (parseLoop cfg fuel c') := by
    rw [parseLoop_succ hpos, readsBelow_bind, and_iff_right hreads]
    refine ⟨fun h => h _ hrun, fun h o ho => ?_⟩
    obtain rfl := Option.some.inj (hrun.symm.trans ho)
    exact h
  exact ⟨fun h => ⟨hread.1 h.reads, hresult ▸ h.result⟩,
    fun h => ⟨hread.2 h.reads, hresult ▸ h.result⟩⟩

/-- Without room for a descriptor the parser returns -1. -/
theorem endsInside_of_one (h1 : c.bufSize.toNat = 1) :
    EndsInside data size (parseLoop cfg (fuel + 1) c) := by
  have hsafe : Safe data size 0 (require (2 ≤ c.bufSize.toNat)) False () :=
    (Safe.require _).congr (iff_of_false (by omega) id)
  refine endsInside_of_none (by omega) ?_ ?_
  · unfold parseIe
    rw [run_bind, hsafe.returns.run_none id]
    rfl
  · unfold parseIe
    exact hsafe.readsBelow_bind.2 False.elim

/-- Behind the frame the parser only stays out of trouble if it has one byte left. -/
theorem endsInside_jump_iff (hbuf : size < c.buf) :
    EndsInside data size (parseLoop cfg (fuel + 1) c) ↔ c.bufSize.toNat = 1 := by
  refine ⟨fun h => ?_, endsInside_of_one⟩
  by_cases hpos : 0 < c.bufSize.toNat
  · by_contra hne
    have h2 : 2 ≤ c.bufSize.toNat := by omega
    have hreads := h.reads
    rw [parseLoop_succ hpos, readsBelow_bind] at hreads
    have hreads := hreads.1
    unfold parseIe at hreads
    rw [(Safe.require (m := 0) _).readsBelow_bind, forall_prop_of_true h2, readsBelow_bind,
      readsBelow_read16] at hreads
    omega
  · rw [parseLoop_finish hpos] at h
    rcases h.result with hnone | ⟨r, hr, hinside⟩
    · cases hnone
    · obtain rfl := Option.some.inj (Option.some.inj hr)
      exact absurd hinside.value_le (Nat.not_le.2 hbuf)

end

/-- Where no round is left, what was accepted counts. -/
theorem endsInside_finish (hc : c.Fits size) (hzero : ¬ 0 < c.bufSize.toNat) :
    (∃ fuel, EndsInside data size (parseLoop cfg fuel c)) ↔ ∀ e ∈ c.accepted, e ≤ size := by
  constructor
  · rintro ⟨fuel, h⟩
    cases fuel with
    | zero => exact absurd h not_endsInside_zero
    | succ fuel =>
        rw [parseLoop_finish hzero] at h
        rcases h.result with hnone | ⟨r, hr, hinside⟩
        · cases hnone
        · obtain rfl := Option.some.inj (Option.some.inj hr)
          exact hinside.accepted_le
  · intro h
    have hvalue : c.buf ≤ size := Nat.le_trans (Nat.le_add_right _ _) (Nat.le_of_eq hc)
    refine ⟨1, ?_⟩
    rw [parseLoop_finish hzero]
    exact ⟨readsBelow_pure _, .inr ⟨_, rfl, hvalue, h⟩⟩

/-- Where the parser stops, what was parsed counts. -/
theorem endsInside_parsed {r : Parsed} (hpos : 0 < c.bufSize.toNat)
    (hrun : (parseIe cfg c).run data = some (.parsed r))
    (hreads : ReadsBelow data size (parseIe cfg c)) :
    (∃ fuel, EndsInside data size (parseLoop cfg fuel c)) ↔ r.Inside size := by
  have hresult : ∀ fuel, (parseLoop cfg (fuel + 1) c).run data = some (some r) := by
    intro fuel
    rw [parseLoop_succ hpos, run_bind, hrun]
    rfl
  constructor
  · rintro ⟨fuel, h⟩
    cases fuel with
    | zero => exact absurd h not_endsInside_zero
    | succ fuel =>
        rcases h.result with hnone | ⟨r', hr, hinside⟩
        · rw [hresult] at hnone
          cases hnone
        · rw [hresult] at hr
          obtain rfl := Option.some.inj (Option.some.inj hr)
          exact hinside
  · intro h
    refine ⟨1, ?_, .inr ⟨r, hresult 0, h⟩⟩
    rw [parseLoop_succ hpos, readsBelow_bind, and_iff_right hreads]
    intro o ho
    obtain rfl := Option.some.inj (hrun.symm.trans ho)
    exact readsBelow_pure _

/-- From a place on, the parser stays in the frame exactly if the frame is clear from there on and
what was accepted before lies in the frame, should the frame be accepted. -/
theorem endsInside_iff (hc : c.Fits size) (hsize : size < 256) :
    (∃ fuel, EndsInside data size (parseLoop cfg fuel c)) ↔ Clear cfg data size c.place ∧
      (Accepts cfg data size c.place → ∀ e ∈ c.accepted, e ≤ size) := by
  induction hn : c.bufSize.toNat using Nat.strongRecOn generalizing c with
  | _ n ih =>
      have hleft : c.buf + c.bufSize.toNat = size := hc
      by_cases h2 : 2 ≤ c.bufSize.toNat
      · have hpos : 0 < c.bufSize.toNat := by omega
        have hround : Round cfg data size c := round hc hsize h2
        have haccepts : Accepts cfg data size c.place ↔ _ := accepts_iff
        cases hround with
        | fails hrun hreads hfit hnext hend =>
            have hno : ¬ Accepts cfg data size c.place := fun h =>
              (haccepts.1 h).elim hend fun ⟨q, hq, _⟩ => hnext q hq
            exact iff_of_true ⟨1, endsInside_of_none hpos hrun hreads⟩
              ⟨clear_iff.2 ⟨⟨hfit, fun _ => hno⟩, fun q hq => absurd hq (hnext q)⟩,
                fun h => absurd h hno⟩
        | leaves hreads hfit =>
            refine iff_of_false ?_ fun h => hfit (clear_iff.1 h.1).1.1
            rintro ⟨fuel, h⟩
            cases fuel with
            | zero => exact not_endsInside_zero h
            | succ fuel =>
                have hall := h.reads
                rw [parseLoop_succ hpos, readsBelow_bind] at hall
                exact hreads hall.1
        | jumps c' hrun hreads hbuf hfit hnext hend =>
            have hno : ¬ Accepts cfg data size c.place := fun h =>
              (haccepts.1 h).elim hend fun ⟨q, hq, _⟩ => hnext q hq
            have hright : Clear cfg data size c.place ↔ c'.bufSize.toNat = 1 := by
              rw [clear_iff, hfit]
              exact ⟨fun h => h.1.1,
                fun h => ⟨⟨h, fun _ => hno⟩, fun q hq => absurd hq (hnext q)⟩⟩
            rw [hright, and_iff_left fun h => absurd h hno]
            constructor
            · rintro ⟨fuel, h⟩
              cases fuel with
              | zero => exact absurd h not_endsInside_zero
              | succ fuel =>
                  rw [endsInside_succ_iff hpos hrun hreads] at h
                  cases fuel with
                  | zero => exact absurd h not_endsInside_zero
                  | succ fuel => exact (endsInside_jump_iff hbuf).1 h
            · exact fun h => ⟨2, (endsInside_succ_iff hpos hrun hreads).2 (endsInside_of_one h)⟩
        | ends r hrun hreads hfit hnext hend hover hinside =>
            have hclear : Clear cfg data size c.place :=
              clear_iff.2 ⟨⟨hfit, fun h => absurd h hover⟩, fun q hq => absurd hq (hnext q)⟩
            rw [and_iff_right hclear, forall_prop_of_true (haccepts.2 (.inl hend)), ← hinside]
            exact endsInside_parsed hpos hrun hreads
        | steps c' hrun hreads hfit hnext hend hfits hlt hacc =>
            have hleft' : c'.buf + c'.bufSize.toNat = size := hfits
            have hsame : Accepts cfg data size c.place ↔ Accepts cfg data size c'.place := by
              rw [haccepts, or_iff_right hend]
              exact ⟨fun ⟨q, hq, h⟩ => (hnext q).1 hq ▸ h, fun h => ⟨_, (hnext _).2 rfl, h⟩⟩
            have hrest : (∃ fuel, EndsInside data size (parseLoop cfg fuel c)) ↔
                ∃ fuel, EndsInside data size (parseLoop cfg fuel c') := by
              constructor
              · rintro ⟨fuel, h⟩
                cases fuel with
                | zero => exact absurd h not_endsInside_zero
                | succ fuel => exact ⟨fuel, (endsInside_succ_iff hpos hrun hreads).1 h⟩
              · exact fun ⟨fuel, h⟩ => ⟨fuel + 1, (endsInside_succ_iff hpos hrun hreads).2 h⟩
            have hclear : Clear cfg data size c.place ↔
                (Overlong cfg data size c.place → ¬ Accepts cfg data size c'.place) ∧
                  Clear cfg data size c'.place := by
              rw [clear_iff, and_iff_right hfit, hsame]
              exact and_congr_right fun _ =>
                ⟨fun h => h _ ((hnext _).2 rfl), fun h q hq => (hnext q).1 hq ▸ h⟩
            rw [hrest, ih _ (by omega) hfits rfl, hclear, hsame, hacc]
            constructor
            · rintro ⟨hrest, h⟩
              exact ⟨⟨fun hover ha => (h ha).2 hover, hrest⟩, fun ha => (h ha).1⟩
            · rintro ⟨⟨hover, hrest⟩, h⟩
              exact ⟨hrest, fun ha => ⟨h ha, fun ho => hover ho ha⟩⟩
      · have hnoroom : size < c.place.pos + 2 := by
          change size < c.buf + 2
          omega
        rw [and_iff_right (clear_of_no_room hnoroom)]
        by_cases hpos : 0 < c.bufSize.toNat
        · have hno : ¬ Accepts cfg data size c.place := by
            intro h
            rcases accepts_iff.1 h with hend | ⟨q, hq, -⟩
            · have hroom : c.buf = size ∨ c.buf + 2 ≤ size := hend.room
              omega
            · exact absurd hq.room (Nat.not_le.2 hnoroom)
          exact iff_of_true ⟨1, endsInside_of_one (by omega)⟩ fun h => absurd h hno
        · have hend : Ends data size c.place := by
            have hbuf : c.buf = size := by omega
            unfold Cursor.place
            rw [hbuf]
            exact .size
          rw [forall_prop_of_true (accepts_iff.2 (.inl hend))]
          exact endsInside_finish hc hpos

/-- The parser ends and stays in the frame exactly if there is no structure to fill, or every place
that accepted elements lead to is one where only the frame is read, and elements that do not end in
the frame are followed by something that is not accepted. -/
theorem elements_inside_iff (cfg : Config) (data : ℕ → UInt8) (bufSize : UInt8) (ies : Option Ies) :
    Inside data bufSize.toNat (frame802154eParseInformationElements cfg bufSize ies) ↔
      ies = none ∨ Clear cfg data bufSize.toNat ⟨.parsingHeaderIe, 0, 0⟩ := by
  cases ies with
  | none => exact iff_of_true ⟨0, readsBelow_fail, .inl rfl⟩ (.inl rfl)
  | some ies =>
      rw [or_iff_right nofun]
      have hfits : Cursor.Fits ⟨0, bufSize, .parsingHeaderIe, 0,
        { ies with iePayloadIeOffset := 0 }, []⟩ bufSize.toNat := Nat.zero_add _
      refine (endsInside_iff hfits bufSize.toNat_lt).trans ?_
      exact and_iff_left fun _ => nofun

/-- A list termination, an MLME element of 3 bytes and in it an element with no slotframe. -/
def shortSlotframe : List UInt8 := [0x00, 0x3f, 0x03, 0x88, 0x01, 0x1b, 0x00]

/-- A structure that is all zero. -/
def zeroIes : Ies :=
  ⟨0, 0, 0, 0, ⟨0, 0⟩, 0, 0, fun _ => 0, ⟨0, 0, 0, 0, fun _ => ⟨0, 0, 0⟩⟩, 0, 0, fun _ => 0, none,
    0⟩

/-- The number of links is read three bytes behind the end of the frame. -/
theorem elements_not_inside : ¬ Inside (fun p => shortSlotframe.getD p 0) 7
    (frame802154eParseInformationElements ⟨false, 4⟩ 7 (some zeroIes)) := by
  intro h
  have hfits : Cursor.Fits ⟨0, 7, .parsingHeaderIe, 0, zeroIes, []⟩ 7 := rfl
  have hclear := ((endsInside_iff hfits (by decide)).1 h).1
  have hfirst : Follows ⟨false, 4⟩ (fun p => shortSlotframe.getD p 0) 7 ⟨.parsingHeaderIe, 0, 0⟩
      ⟨.parsingPayloadIe, 2, 0⟩ :=
    .listTermination1 (by decide) (by decide) (by decide) (by decide)
  have hsecond : Follows ⟨false, 4⟩ (fun p => shortSlotframe.getD p 0) 7 ⟨.parsingPayloadIe, 2, 0⟩
      ⟨.parsingMlmeSubie, 4, 3⟩ := .mlme (by decide) (by decide) (by decide)
  have hread := (hclear ⟨.parsingMlmeSubie, 4, 3⟩ (.head hfirst (.single hsecond))).1 (by decide)
  exact absurd (hread.1 (by decide) (by decide) (by decide) (by decide)) (by decide)

end Den2ne.Frame802154e
