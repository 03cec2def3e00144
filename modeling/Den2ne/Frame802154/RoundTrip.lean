import Den2ne.Frame802154.Header
import Mathlib.Data.List.Basic
import Mathlib.Tactic.Common

/-!
# Frame headers read back

A header that `frame802154_create` has written, with a payload behind it, is read
back by `frame802154_parse` unless the two disagree on which fields are there:
on a destination PAN id without any address (version 2015), and on the frame
counter once its size bit is set, since the parser takes that bit for the
suppression of the counter too.
-/

namespace Den2ne.Frame802154

/-- The bit widths of the fields, the address modes and the versions in use. -/
structure WellFormed (p : Frame802154) : Prop where
  frameType : p.fcf.frameType < 8
  securityEnabled : p.fcf.securityEnabled < 2
  framePending : p.fcf.framePending < 2
  ackRequired : p.fcf.ackRequired < 2
  panidCompression : p.fcf.panidCompression < 2
  sequenceNumberSuppression : p.fcf.sequenceNumberSuppression < 2
  ieListPresent : p.fcf.ieListPresent < 2
  destAddrMode : p.fcf.destAddrMode = noAddr ∨ p.fcf.destAddrMode = shortAddrMode ∨
    p.fcf.destAddrMode = longAddrMode
  frameVersion : p.fcf.frameVersion ≤ ieee802154v2015
  srcAddrMode : p.fcf.srcAddrMode = noAddr ∨ p.fcf.srcAddrMode = shortAddrMode ∨
    p.fcf.srcAddrMode = longAddrMode
  securityLevel : p.auxHdr.securityControl.securityLevel < 8
  keyIdMode : p.auxHdr.securityControl.keyIdMode < 4
  frameCounterSuppression : p.auxHdr.securityControl.frameCounterSuppression < 2
  frameCounterSize : p.auxHdr.securityControl.frameCounterSize < 2

/-- The fields of an auxiliary security header that a frame carries. -/
structure SameAux (cfg : Config) (aux aux' : AuxHdr) : Prop where
  securityLevel : aux'.securityControl.securityLevel = aux.securityControl.securityLevel
  keyIdMode : cfg.usesExplicitKeys →
    aux'.securityControl.keyIdMode = aux.securityControl.keyIdMode
  frameCounterSuppression : aux'.securityControl.frameCounterSuppression =
    aux.securityControl.frameCounterSuppression
  frameCounterSize : aux'.securityControl.frameCounterSize =
    aux.securityControl.frameCounterSize
  frameCounter : aux.securityControl.frameCounterSuppression = 0 →
    aux'.frameCounter = aux.frameCounter
  keySource : cfg.usesExplicitKeys → aux.securityControl.keyIdMode ≠ 0 →
    aux'.keySource.toList.take ((aux.securityControl.keyIdMode.toNat - 1) * 4) =
      aux.keySource.toList.take ((aux.securityControl.keyIdMode.toNat - 1) * 4)
  keyIndex : cfg.usesExplicitKeys → aux.securityControl.keyIdMode ≠ 0 →
    aux'.keyIndex = aux.keyIndex

/-- `q` has every field that a frame `p` carries, and its payload begins at
`header` and has `payloadLen` bytes. -/
structure Recovers (cfg : Config) (p q : Frame802154) (header payloadLen : ℕ) : Prop where
  fcf : q.fcf = p.fcf
  seq : p.fcf.sequenceNumberSuppression = 0 → q.seq = p.seq
  destPid : (hasPanid p.fcf).2 → q.destPid = p.destPid
  srcPid : (hasPanid p.fcf).1 → q.srcPid = p.srcPid
  destAddr : q.destAddr.toList.take (addrLen p.fcf.destAddrMode) =
    p.destAddr.toList.take (addrLen p.fcf.destAddrMode)
  srcAddr : q.srcAddr.toList.take (addrLen p.fcf.srcAddrMode) =
    p.srcAddr.toList.take (addrLen p.fcf.srcAddrMode)
  auxHdr : cfg.usesAuxHeader → p.fcf.securityEnabled = 1 → SameAux cfg p.auxHdr q.auxHdr
  payload : q.payload = header
  payloadLen : q.payloadLen = payloadLen

/-- The memory from `p` on holds what was written into the cells. -/
def HoldsAt (data : ℕ → UInt8) (p : ℕ) (cells : List (Option UInt8)) : Prop :=
  ∀ i b, cells[i]? = some (some b) → data (p + i) = b

/-- The header is written as `frame802154_hdrlen` says, and `frame802154_parse`
reads it and the payload back, whatever lies behind the frame in memory and in
the structure that it fills in. The frame to be read back is that which
`frame802154_create` leaves in its argument: before the 2015 version it decides
on the compression bit itself. -/
structure RoundTrips (cfg : Config) (p : Frame802154) (payload : List UInt8) : Prop where
  written : ∀ c ∈ (create cfg p).2, c ≠ none
  length : (create cfg p).2.length = hdrlen cfg p
  parsed : ∀ data pf, HoldsAt data 0 ((create cfg p).2 ++ payload.map some) →
    (parse cfg data (hdrlen cfg p + payload.length) pf).1 = hdrlen cfg p ∧
      Recovers cfg (create cfg p).1 (parse cfg data (hdrlen cfg p + payload.length) pf).2
        (hdrlen cfg p) payload.length

/-- A destination PAN id without any address. -/
def LonePanid (p : Frame802154) : Prop :=
  p.fcf.frameVersion = ieee802154v2015 ∧ p.fcf.destAddrMode = noAddr ∧
    p.fcf.srcAddrMode = noAddr ∧ p.fcf.panidCompression = 1

/-- An auxiliary security header with the bit for a long frame counter. -/
def LongCounter (cfg : Config) (p : Frame802154) : Prop :=
  cfg.usesAuxHeader ∧ p.fcf.securityEnabled = 1 ∧
    p.auxHdr.securityControl.frameCounterSize = 1

/-! ## Cells in memory -/

section

variable {data : ℕ → UInt8} {p : ℕ} {b : UInt8} {xs ys : List (Option UInt8)}

theorem holdsAt_cons : HoldsAt data p (some b :: xs) ↔ data p = b ∧ HoldsAt data (p + 1) xs := by
  constructor
  · intro h
    refine ⟨h 0 b rfl, fun i c hc => ?_⟩
    have := h (i + 1) c (by simpa using hc)
    rwa [← Nat.add_assoc, Nat.add_right_comm] at this
  · rintro ⟨hb, hxs⟩ i c hc
    cases i with
    | zero =>
        have hbc : b = c := by simpa using hc
        rw [← hbc]
        exact hb
    | succ i =>
        have := hxs i c (by simpa using hc)
        rwa [Nat.add_right_comm] at this

theorem holdsAt_append :
    HoldsAt data p (xs ++ ys) ↔ HoldsAt data p xs ∧ HoldsAt data (p + xs.length) ys := by
  constructor
  · intro h
    refine ⟨fun i c hc => h i c ?_, fun i c hc => ?_⟩
    · have hi : i < xs.length := (List.getElem?_eq_some_iff.1 hc).1
      rwa [List.getElem?_append_left hi]
    · rw [Nat.add_assoc]
      apply h
      rwa [List.getElem?_append_right (Nat.le_add_right _ _), Nat.add_sub_cancel_left]
  · rintro ⟨hxs, hys⟩ i c hc
    rcases Nat.lt_or_ge i xs.length with hi | hi
    · rw [List.getElem?_append_left hi] at hc
      exact hxs i c hc
    · rw [List.getElem?_append_right hi] at hc
      have := hys _ c hc
      rwa [Nat.add_assoc, Nat.add_sub_cancel' hi] at this

/-- A written cell of a list of bytes. -/
theorem HoldsAt.getElem {bs : List UInt8} (h : HoldsAt data p (bs.map some)) {i : ℕ}
    (hi : i < bs.length) : data (p + i) = bs[i] := h i _ (by simp [hi])

end

/-- There is a memory with these cells. -/
theorem exists_holdsAt (cells : List (Option UInt8)) : ∃ data, HoldsAt data 0 cells := by
  refine ⟨fun i => (cells[i]?.join).getD 0, fun i b h => ?_⟩
  simp [h]

/-! ## The frame control field -/

theorem exists_fin_of_lt {x : UInt8} {n : ℕ} (h : x.toNat < n) :
    ∃ i : Fin n, x = UInt8.ofNat i.val := ⟨⟨x.toNat, h⟩, by simp⟩

theorem first_byte {a b c d e : UInt8} (ha : a < 8) (hb : b < 2) (hc : c < 2) (hd : d < 2)
    (he : e < 2) :
    let x := bits a 7 0 ||| bits b 1 3 ||| bits c 1 4 ||| bits d 1 5 ||| bits e 1 6
    x &&& 7 = a ∧ (x >>> 3) &&& 1 = b ∧ (x >>> 4) &&& 1 = c ∧ (x >>> 5) &&& 1 = d ∧
      (x >>> 6) &&& 1 = e := by
  obtain ⟨a, rfl⟩ := exists_fin_of_lt (n := 8) ha
  obtain ⟨b, rfl⟩ := exists_fin_of_lt (n := 2) hb
  obtain ⟨c, rfl⟩ := exists_fin_of_lt (n := 2) hc
  obtain ⟨d, rfl⟩ := exists_fin_of_lt (n := 2) hd
  obtain ⟨e, rfl⟩ := exists_fin_of_lt (n := 2) he
  clear ha hb hc hd he
  revert a b c d e
  decide +kernel

theorem second_byte {a b c d e : UInt8} (ha : a < 2) (hb : b < 2) (hc : c < 4) (hd : d < 4)
    (he : e < 4) :
    let x := bits a 1 0 ||| bits b 1 1 ||| bits c 3 2 ||| bits d 3 4 ||| bits e 3 6
    x &&& 1 = a ∧ (x >>> 1) &&& 1 = b ∧ (x >>> 2) &&& 3 = c ∧ (x >>> 4) &&& 3 = d ∧
      (x >>> 6) &&& 3 = e := by
  obtain ⟨a, rfl⟩ := exists_fin_of_lt (n := 2) ha
  obtain ⟨b, rfl⟩ := exists_fin_of_lt (n := 2) hb
  obtain ⟨c, rfl⟩ := exists_fin_of_lt (n := 4) hc
  obtain ⟨d, rfl⟩ := exists_fin_of_lt (n := 4) hd
  obtain ⟨e, rfl⟩ := exists_fin_of_lt (n := 4) he
  clear ha hb hc hd he
  revert a b c d e
  decide +kernel

theorem scf_byte {a b c d : UInt8} (ha : a < 8) (hb : b < 4) (hc : c < 2) (hd : d < 2) :
    let x := a ||| (b <<< 3) ||| (c <<< 5) ||| (d <<< 6)
    x &&& 7 = a ∧ (x >>> 3) &&& 3 = b ∧ x >>> 5 = c ||| (d <<< 1) ∧ x >>> 6 = d := by
  obtain ⟨a, rfl⟩ := exists_fin_of_lt (n := 8) ha
  obtain ⟨b, rfl⟩ := exists_fin_of_lt (n := 4) hb
  obtain ⟨c, rfl⟩ := exists_fin_of_lt (n := 2) hc
  obtain ⟨d, rfl⟩ := exists_fin_of_lt (n := 2) hd
  clear ha hb hc hd
  revert a b c d
  decide +kernel

theorem and_one_of_lt {x : UInt8} (h : x < 2) : x &&& 1 = x := by
  obtain ⟨x, rfl⟩ := exists_fin_of_lt (n := 2) h
  clear h
  revert x
  decide +kernel

theorem eq_zero_or_eq_one {x : UInt8} (h : x < 2) : x = 0 ∨ x = 1 := by
  obtain ⟨x, rfl⟩ := exists_fin_of_lt (n := 2) h
  clear h
  revert x
  decide +kernel

/-- The frame control field is read back. -/
theorem parseFcf_createFcf {data : ℕ → UInt8} {p : Frame802154} (hp : WellFormed p)
    (h : HoldsAt data 0 ((createFcf p.fcf).map some)) : parseFcf (data 0) (data 1) = p.fcf := by
  have hd : ∀ {m : UInt8}, m = noAddr ∨ m = shortAddrMode ∨ m = longAddrMode → m < 4 := by
    rintro m (rfl | rfl | rfl) <;> decide
  have hv : p.fcf.frameVersion < 4 := UInt8.lt_of_le_of_lt hp.frameVersion (by decide)
  obtain ⟨h₀, h₁⟩ : data 0 = _ ∧ data 1 = _ :=
    ⟨h.getElem (i := 0) (Nat.succ_pos _), h.getElem (i := 1) (Nat.lt_succ_self _)⟩
  obtain ⟨ha, hb, hc, hd', he⟩ := first_byte hp.frameType hp.securityEnabled hp.framePending
    hp.ackRequired hp.panidCompression
  obtain ⟨hf, hg, hi, hj, hk⟩ := second_byte hp.sequenceNumberSuppression hp.ieListPresent
    (hd hp.destAddrMode) hv (hd hp.srcAddrMode)
  simp only [createFcf, List.getElem_cons_zero, List.getElem_cons_succ] at h₀ h₁
  rw [h₀, h₁, parseFcf, ha, hb, hc, hd', he, hf, hg, hi, hj, hk]

/-! ## The fields, one after the other -/

section

variable {cfg : Config} {data : ℕ → UInt8} {fcf : Fcf}

theorem parseSeqno_eq {s : Cursor} {seq : UInt8}
    (h : HoldsAt data s.p (if fcf.sequenceNumberSuppression = 0 then [some seq] else [])) :
    parseSeqno fcf data s =
      { p := s.p + (if fcf.sequenceNumberSuppression = 0 then 1 else 0)
        pf := { s.pf with
          seq := if fcf.sequenceNumberSuppression = 0 then seq else s.pf.seq } } := by
  unfold parseSeqno
  split
  next hs =>
    rw [if_pos hs] at h
    rw [(holdsAt_cons.1 h).1]
  next hs => rfl

theorem parsePid_eq {p : ℕ} {pid : UInt16} (h : HoldsAt data p ((pidBytes pid).map some)) :
    parsePid data p = pid := by
  obtain ⟨h₀, h₁⟩ := holdsAt_cons.1 h
  rw [parsePid, h₀, (holdsAt_cons.1 h₁).1]
  apply UInt16.toNat_inj.1
  have hlt : pid.toNat < 65536 := pid.toNat_lt
  have hand (n : ℕ) : n &&& 255 = n % 256 := Nat.and_two_pow_sub_one_eq_mod n 8
  simp [Nat.shiftLeft_eq, Nat.shiftRight_eq_div_pow, hand]
  omega

theorem length_addrBytes (addr : Vector UInt8 8) (mode : UInt8) :
    (addrBytes addr (addrLen mode)).length = addrLen mode := by
  have h : addrLen mode ≤ 8 := by
    unfold addrLen
    split
    · decide
    · split <;> decide
  simp [addrBytes, h]

/-- The bytes of an address stand in memory from the last one on. -/
theorem HoldsAt.addr {p n : ℕ} {addr : Vector UInt8 8} (h : HoldsAt data p
    ((addrBytes addr n).map some)) (hn : n ≤ 8) {i : ℕ} (hi : i < n) :
    data (p + i) = addr[n - 1 - i] := by
  rw [h.getElem (by simp [addrBytes]; omega)]
  simp only [addrBytes, List.getElem_reverse, List.getElem_take, Vector.getElem_toList,
    List.length_take, Vector.length_toList, Nat.min_eq_left hn]

variable (cfg) in
/-- An address of the mode that wrote it is read back. -/
theorem take_parseAddr {mode : UInt8} {p : ℕ} {addr : Vector UInt8 8} (dst : Vector UInt8 8)
    (hmode : mode = shortAddrMode ∨ mode = longAddrMode)
    (h : HoldsAt data p ((addrBytes addr (addrLen mode)).map some)) :
    (parseAddr cfg mode data p dst).toList.take (addrLen mode) =
      addr.toList.take (addrLen mode) := by
  obtain rfl | rfl := hmode
  · have h₀ : data p = addr[1] := h.addr (by decide) (i := 0) (by decide)
    have h₁ : data (p + 1) = addr[0] := h.addr (by decide) (i := 1) (by decide)
    have hread : parseAddr cfg shortAddrMode data p dst = Vector.ofFn fun i =>
        if i.val = 0 then addr[0] else if i.val = 1 then addr[1]
        else (clearLinkaddr cfg dst).get i := by
      rw [parseAddr, if_pos rfl, h₀, h₁]
    rw [hread]
    apply List.ext_getElem (by simp)
    intro i hi _
    have hi : i < 2 := Nat.lt_of_lt_of_le hi (List.length_take_le _ _)
    rw [List.getElem_take, Vector.getElem_toList, List.getElem_take, Vector.getElem_toList,
      Vector.getElem_ofFn]
    obtain rfl | rfl : i = 0 ∨ i = 1 := by omega
    · rfl
    · rfl
  · have hall : parseAddr cfg longAddrMode data p dst = addr := by
      rw [parseAddr, if_neg (by decide), if_pos rfl]
      ext i hi
      rw [Vector.getElem_ofFn, h.addr (by decide) (by change 7 - i < 8; omega)]
      simp only [show addrLen longAddrMode - 1 - (7 - i) = i by change 7 - (7 - i) = i; omega]
    rw [hall]

/-- The cells of a PAN id, where there is one, and of an address. -/
def sideCells (pan : Bool) (pid : UInt16) (mode : UInt8) (addr : Vector UInt8 8) :
    List (Option UInt8) :=
  (if pan then (pidBytes pid).map some else []) ++ (addrBytes addr (addrLen mode)).map some

theorem length_sideCells (pan : Bool) (pid : UInt16) (mode : UInt8) (addr : Vector UInt8 8) :
    (sideCells pan pid mode addr).length = (if pan then 2 else 0) + addrLen mode := by
  rw [sideCells, List.length_append, List.length_map, length_addrBytes]
  cases pan <;> rfl

variable (cfg) in
theorem parseDest_eq {s : Cursor} {pid : UInt16} {addr : Vector UInt8 8}
    (hmode : fcf.destAddrMode = noAddr ∨ fcf.destAddrMode = shortAddrMode ∨
      fcf.destAddrMode = longAddrMode)
    (hpan : (hasPanid fcf).2 → fcf.destAddrMode ≠ noAddr)
    (h : HoldsAt data s.p (sideCells (hasPanid fcf).2 pid fcf.destAddrMode addr)) :
    ∃ a q, parseDest cfg fcf data s =
        { p := s.p + ((if (hasPanid fcf).2 then 2 else 0) + addrLen fcf.destAddrMode)
          pf := { s.pf with destAddr := a, destPid := q } } ∧
      ((hasPanid fcf).2 → q = pid) ∧
      a.toList.take (addrLen fcf.destAddrMode) =
        addr.toList.take (addrLen fcf.destAddrMode) := by
  obtain hmode | hmode := hmode
  · have hnp : (hasPanid fcf).2 = false := by
      by_contra hp
      exact hpan (by simpa using hp) hmode
    have h₀ : fcf.destAddrMode = 0 := hmode
    refine ⟨clearLinkaddr cfg s.pf.destAddr, 0, ?_, fun hp => ?_, ?_⟩
    · simp [parseDest, h₀, hnp, addrLen, shortAddrMode, longAddrMode]
    · rw [hnp] at hp
      exact absurd hp (by decide)
    · simp [h₀, addrLen, shortAddrMode, longAddrMode]
  · have hne : fcf.destAddrMode ≠ 0 := by
      rintro h₀
      rw [h₀] at hmode
      revert hmode
      decide
    cases hp : (hasPanid fcf).2 with
    | false =>
        rw [hp] at h
        refine ⟨_, 0, ?_, fun hq => absurd hq (by decide), take_parseAddr cfg
          s.pf.destAddr hmode h⟩
        simp [parseDest, hne, hp]
    | true =>
        rw [hp] at h
        obtain ⟨hpid, haddr⟩ := holdsAt_append.1 h
        refine ⟨_, pid, ?_, fun _ => rfl, take_parseAddr cfg
          s.pf.destAddr hmode haddr⟩
        simp [parseDest, hne, hp, parsePid_eq hpid, pidBytes, Nat.add_assoc]

variable (cfg) in
theorem parseSrc_eq {s : Cursor} {pid : UInt16} {addr : Vector UInt8 8}
    (hmode : fcf.srcAddrMode = noAddr ∨ fcf.srcAddrMode = shortAddrMode ∨
      fcf.srcAddrMode = longAddrMode)
    (hpan : (hasPanid fcf).1 → fcf.srcAddrMode ≠ noAddr)
    (h : HoldsAt data s.p (sideCells (hasPanid fcf).1 pid fcf.srcAddrMode addr)) :
    ∃ a q d, parseSrc cfg fcf data s =
        { p := s.p + ((if (hasPanid fcf).1 then 2 else 0) + addrLen fcf.srcAddrMode)
          pf := { s.pf with srcAddr := a, srcPid := q, destPid := d } } ∧
      ((hasPanid fcf).1 → q = pid) ∧ ((hasPanid fcf).2 → d = s.pf.destPid) ∧
      a.toList.take (addrLen fcf.srcAddrMode) = addr.toList.take (addrLen fcf.srcAddrMode) := by
  obtain hmode | hmode := hmode
  · have hnp : (hasPanid fcf).1 = false := by
      by_contra hp
      exact hpan (by simpa using hp) hmode
    have h₀ : fcf.srcAddrMode = 0 := hmode
    refine ⟨clearLinkaddr cfg s.pf.srcAddr, 0, s.pf.destPid, ?_, fun hp => ?_, fun _ => rfl, ?_⟩
    · simp [parseSrc, h₀, hnp, addrLen, shortAddrMode, longAddrMode]
    · rw [hnp] at hp
      exact absurd hp (by decide)
    · simp [h₀, addrLen, shortAddrMode, longAddrMode]
  · have hne : fcf.srcAddrMode ≠ 0 := by
      rintro h₀
      rw [h₀] at hmode
      revert hmode
      decide
    cases hp : (hasPanid fcf).1 with
    | false =>
        rw [hp] at h
        refine ⟨_, s.pf.destPid, s.pf.destPid, ?_, fun hq => absurd hq (by decide), fun _ => rfl,
          take_parseAddr cfg s.pf.srcAddr hmode h⟩
        simp [parseSrc, hne, hp]
    | true =>
        rw [hp] at h
        obtain ⟨hpid, haddr⟩ := holdsAt_append.1 h
        refine ⟨_, pid, if (hasPanid fcf).2 then s.pf.destPid else pid, ?_, fun _ => rfl,
          fun hd => if_pos hd, take_parseAddr cfg s.pf.srcAddr hmode haddr⟩
        simp [parseSrc, hne, hp, parsePid_eq hpid, pidBytes, Nat.add_assoc]

/-- What is copied is what stood in memory. -/
theorem take_copyBytes {m p n : ℕ} {src : Vector UInt8 m} (dst : Vector UInt8 m)
    (h : HoldsAt data p ((src.toList.take n).map some)) :
    (copyBytes data p n dst).toList.take n = src.toList.take n := by
  apply List.ext_getElem (by simp)
  intro i hi hi'
  have hin : i < n := Nat.lt_of_lt_of_le hi (List.length_take_le _ _)
  rw [List.getElem_take, Vector.getElem_toList]
  unfold copyBytes
  rw [Vector.getElem_ofFn, if_pos hin, h.getElem hi']

theorem copyBytes_all {m p : ℕ} {src dst : Vector UInt8 m}
    (h : HoldsAt data p (src.toList.map some)) : copyBytes data p m dst = src := by
  have hlen (v : Vector UInt8 m) : v.toList.take m = v.toList := by
    rw [List.take_of_length_le (by simp)]
  have := take_copyBytes (n := m) dst (by rwa [hlen])
  rwa [hlen, hlen, Vector.toList_inj] at this

variable (cfg) in
/-- The bits of the security control field are read back, but the suppression of
the counter is read together with the bit for its size. -/
theorem parseScf_scfByte {scf : Scf} (dst : Scf) (h₁ : scf.securityLevel < 8) (h₂ : scf.keyIdMode < 4)
    (h₃ : scf.frameCounterSuppression < 2) (h₄ : scf.frameCounterSize < 2) :
    parseScf cfg (scfByte cfg scf) dst =
      { securityLevel := scf.securityLevel
        keyIdMode := if cfg.usesExplicitKeys then scf.keyIdMode else dst.keyIdMode
        frameCounterSuppression := scf.frameCounterSuppression ||| (scf.frameCounterSize <<< 1)
        frameCounterSize := scf.frameCounterSize } := by
  cases hc : cfg.usesExplicitKeys with
  | true =>
      obtain ⟨ha, hb, hd, he⟩ := scf_byte h₁ h₂ h₃ h₄
      simp only [parseScf, scfByte, hc, if_true, ha, hb, hd, he]
  | false =>
      obtain ⟨ha, -, hd, he⟩ := scf_byte (b := 0) h₁ (by decide) h₃ h₄
      rw [UInt8.zero_shiftLeft] at ha hd he
      simp only [parseScf, scfByte, hc, Bool.false_eq_true, if_false, ha, hd, he]

/-- The length that `get_key_id_len` gives is that of what is written. -/
theorem getKeyIdLen_eq {mode : UInt8} (h : mode < 4) :
    getKeyIdLen mode = if mode = 0 then 0 else (mode.toNat - 1) * 4 + 1 := by
  obtain ⟨mode, rfl⟩ := exists_fin_of_lt (n := 4) h
  clear h
  revert mode
  decide +kernel

theorem length_counterCells (aux : AuxHdr) :
    (counterCells aux).length =
      if aux.securityControl.frameCounterSuppression = 0 then
        if aux.securityControl.frameCounterSize = 1 then 5 else 4
      else 0 := by
  unfold counterCells
  split
  · split <;> simp
  · rfl

theorem length_keyCells {aux : AuxHdr} (h : aux.securityControl.keyIdMode < 4) :
    (keyCells cfg aux).length =
      if cfg.usesExplicitKeys then getKeyIdLen aux.securityControl.keyIdMode else 0 := by
  have hbound : (aux.securityControl.keyIdMode.toNat - 1) * 4 ≤ 8 := by
    have : aux.securityControl.keyIdMode.toNat < 4 := h
    omega
  rw [keyCells, getKeyIdLen_eq h]
  by_cases hm : aux.securityControl.keyIdMode = 0
  · simp [hm]
  · cases hc : cfg.usesExplicitKeys <;> simp [hm, hbound]

theorem length_auxCells {p : Frame802154} (huses : cfg.usesAuxHeader)
    (hsec : p.fcf.securityEnabled = 1) (h : p.auxHdr.securityControl.keyIdMode < 4) :
    (auxCells cfg p.auxHdr).length = auxSecLen cfg p := by
  have hon : cfg.usesAuxHeader ∧ p.fcf.securityEnabled &&& 1 ≠ 0 := by
    refine ⟨huses, ?_⟩
    rw [hsec]
    decide
  rw [auxCells, List.length_cons, List.length_append, length_counterCells, length_keyCells h,
    auxSecLen, if_pos hon]
  omega

/-- A counter of four bytes is read back. -/
theorem parseCounter_eq {p : ℕ} {aux : AuxHdr} (scf : Scf) (dst : Vector UInt8 4)
    (hscf : scf.frameCounterSuppression = aux.securityControl.frameCounterSuppression)
    (hsize : scf.frameCounterSize = 0) (hsize' : aux.securityControl.frameCounterSize = 0)
    (h : HoldsAt data p (counterCells aux)) :
    ∃ c, parseCounter scf data p dst = (p + (counterCells aux).length, c) ∧
      (aux.securityControl.frameCounterSuppression = 0 → c = aux.frameCounter) := by
  have hne : ¬ (0 : UInt8) = 1 := by decide
  rw [length_counterCells, parseCounter, hscf, hsize, hsize', if_neg hne, if_neg hne]
  rw [counterCells, hsize', if_neg hne, List.append_nil] at h
  by_cases hs : aux.securityControl.frameCounterSuppression = 0
  · rw [if_pos hs] at h ⊢
    exact ⟨_, by rw [if_pos hs], fun _ => copyBytes_all h⟩
  · rw [if_neg hs]
    exact ⟨dst, by rw [if_neg hs, Nat.add_zero], fun h₀ => absurd h₀ hs⟩

/-- The key is read back. -/
theorem parseKey_eq {p : ℕ} {aux : AuxHdr} (aux' : AuxHdr) (hlt : aux.securityControl.keyIdMode < 4)
    (hmode : cfg.usesExplicitKeys →
      aux'.securityControl.keyIdMode = aux.securityControl.keyIdMode)
    (h : HoldsAt data p (keyCells cfg aux)) :
    ∃ source index, parseKey cfg data p aux' = (p + (keyCells cfg aux).length,
        { aux' with keySource := source, keyIndex := index }) ∧
      (cfg.usesExplicitKeys → aux.securityControl.keyIdMode ≠ 0 →
        source.toList.take ((aux.securityControl.keyIdMode.toNat - 1) * 4) =
          aux.keySource.toList.take ((aux.securityControl.keyIdMode.toNat - 1) * 4) ∧
        index = aux.keyIndex) := by
  have hbound : (aux.securityControl.keyIdMode.toNat - 1) * 4 ≤ 8 := by
    have : aux.securityControl.keyIdMode.toNat < 4 := hlt
    omega
  by_cases hk : cfg.usesExplicitKeys ∧ aux.securityControl.keyIdMode ≠ 0
  · rw [keyCells, if_pos hk] at h ⊢
    obtain ⟨hsource, hindex⟩ := holdsAt_append.1 h
    rw [List.length_map, List.length_take, Vector.length_toList, Nat.min_eq_left hbound] at hindex
    rw [parseKey, hmode hk.1, if_pos hk]
    refine ⟨copyBytes data p ((aux.securityControl.keyIdMode.toNat - 1) * 4) aux'.keySource,
      aux.keyIndex, ?_, fun _ _ => ⟨take_copyBytes _ hsource, rfl⟩⟩
    simp [(holdsAt_cons.1 hindex).1, hbound, Nat.add_assoc]
  · refine ⟨aux'.keySource, aux'.keyIndex, ?_, fun hc hm => absurd ⟨hc, hm⟩ hk⟩
    rw [keyCells, if_neg hk, parseKey, if_neg]
    · rfl
    · rintro ⟨hc, hm⟩
      exact hk ⟨hc, hmode hc ▸ hm⟩

/-- The auxiliary security header is read back, if its counter is a short one. -/
theorem parseAux_eq {s : Cursor} {aux : AuxHdr} (huses : cfg.usesAuxHeader)
    (hsec : fcf.securityEnabled ≠ 0) (h₁ : aux.securityControl.securityLevel < 8)
    (h₂ : aux.securityControl.keyIdMode < 4)
    (h₃ : aux.securityControl.frameCounterSuppression < 2)
    (h₄ : aux.securityControl.frameCounterSize = 0)
    (h : HoldsAt data s.p (auxCells cfg aux)) :
    ∃ aux', parseAux cfg fcf data s =
        { p := s.p + (auxCells cfg aux).length, pf := { s.pf with auxHdr := aux' } } ∧
      SameAux cfg aux aux' := by
  have hscf := parseScf_scfByte cfg s.pf.auxHdr.securityControl h₁ h₂ h₃
    (h₄ ▸ (by decide : (0 : UInt8) < 2))
  have hshift : ((0 : UInt8) <<< 1) = 0 := rfl
  rw [h₄, hshift, UInt8.or_zero] at hscf
  obtain ⟨hbyte, hrest⟩ := holdsAt_cons.1 h
  obtain ⟨hcounter, hkey⟩ := holdsAt_append.1 hrest
  rw [← hbyte] at hscf
  obtain ⟨counter, hc, hceq⟩ := parseCounter_eq
    (parseScf cfg (data s.p) s.pf.auxHdr.securityControl) s.pf.auxHdr.frameCounter
    (by rw [hscf]) (by rw [hscf]) h₄ hcounter
  have hmode : cfg.usesExplicitKeys →
      (parseScf cfg (data s.p) s.pf.auxHdr.securityControl).keyIdMode =
        aux.securityControl.keyIdMode := by
    intro he
    rw [hscf]
    exact if_pos he
  obtain ⟨source, index, hk, hkeq⟩ := parseKey_eq { s.pf.auxHdr with
    securityControl := parseScf cfg (data s.p) s.pf.auxHdr.securityControl
    frameCounter := counter } h₂ hmode hkey
  refine ⟨{ s.pf.auxHdr with
    securityControl := parseScf cfg (data s.p) s.pf.auxHdr.securityControl
    frameCounter := counter
    keySource := source
    keyIndex := index }, ?_, ?_⟩
  · rw [parseAux, if_pos ⟨huses, hsec⟩]
    simp only [hc, hk, auxCells, List.length_cons, List.length_append]
    congr 1
    omega
  · exact
      { securityLevel := by rw [hscf]
        keyIdMode := hmode
        frameCounterSuppression := by rw [hscf]
        frameCounterSize := by rw [hscf, h₄]
        frameCounter := hceq
        keySource := fun he hm => (hkeq he hm).1
        keyIndex := fun he hm => (hkeq he hm).2 }

end

/-! ## The header as a whole -/

theorem compressPanid_of_v2015 {p : Frame802154} (h : p.fcf.frameVersion = ieee802154v2015) :
    compressPanid p = p := by
  rw [compressPanid, h, if_neg (by decide)]

theorem WellFormed.compressPanid {p : Frame802154} (hp : WellFormed p) :
    WellFormed (compressPanid p) := by
  unfold Frame802154.compressPanid
  split
  · refine { hp with panidCompression := ?_ }
    split
    · exact (by decide : (1 : UInt8) < 2)
    · exact (by decide : (0 : UInt8) < 2)
  · exact hp

theorem LonePanid.of_compressPanid {p : Frame802154} (h : LonePanid (compressPanid p)) :
    LonePanid p := by
  unfold Frame802154.compressPanid at h
  split at h
  next hlt =>
    have hv : p.fcf.frameVersion = ieee802154v2015 := h.1
    rw [hv] at hlt
    exact absurd hlt (by decide)
  next => exact h

/-- Only an address goes with a source PAN id. -/
theorem srcAddrMode_ne {fcf : Fcf} (h : (hasPanid fcf).1) : fcf.srcAddrMode ≠ noAddr := by
  intro h₀
  unfold hasPanid at h
  split at h <;> simp [h₀, noAddr, shortAddrMode, longAddrMode] at h

/-- Only an address goes with a destination PAN id, but for one case. -/
theorem destAddrMode_ne {p : Frame802154} (hlone : ¬ LonePanid p) (h : (hasPanid p.fcf).2) :
    p.fcf.destAddrMode ≠ noAddr := by
  intro h₀
  unfold hasPanid at h
  split at h
  next hv =>
    simp [h₀, noAddr, shortAddrMode, longAddrMode] at h
    exact hlone ⟨hv, h₀, of_decide_eq_true h.1, h.2⟩
  next => simp [h₀, noAddr] at h

/-- The cells of the auxiliary security header, where there is one. -/
def securityCells (cfg : Config) (p : Frame802154) : List (Option UInt8) :=
  if cfg.usesAuxHeader ∧ p.fcf.securityEnabled = 1 then auxCells cfg p.auxHdr else []

theorem mode_and_three {m : UInt8}
    (h : m = noAddr ∨ m = shortAddrMode ∨ m = longAddrMode) : m &&& 3 = m := by
  rcases h with rfl | rfl | rfl <;> decide

theorem length_securityCells {cfg : Config} {p : Frame802154} (hp : WellFormed p) :
    (securityCells cfg p).length = auxSecLen cfg p := by
  unfold securityCells
  split
  next h => exact length_auxCells h.1 h.2 hp.keyIdMode
  next h =>
    rw [auxSecLen, and_one_of_lt hp.securityEnabled, if_neg]
    · rfl
    · rintro ⟨hc, hs⟩
      exact h ⟨hc, (eq_zero_or_eq_one hp.securityEnabled).resolve_left hs⟩

/-- The cells of a frame whose compression bit is set, field by field. -/
def headerCells (cfg : Config) (q : Frame802154) : List (Option UInt8) :=
  (createFcf q.fcf).map some ++
    ((if q.fcf.sequenceNumberSuppression = 0 then [some q.seq] else []) ++
      (sideCells (hasPanid q.fcf).2 q.destPid q.fcf.destAddrMode q.destAddr ++
        (sideCells (hasPanid q.fcf).1 q.srcPid q.fcf.srcAddrMode q.srcAddr ++
          securityCells cfg q)))

theorem create_eq (cfg : Config) {p : Frame802154} (hp : WellFormed p) :
    create cfg p = (compressPanid p, headerCells cfg (compressPanid p)) := by
  have hq := hp.compressPanid
  have hsec : securityCells cfg (compressPanid p) =
      if auxSecLen cfg (compressPanid p) ≠ 0 then auxCells cfg (compressPanid p).auxHdr
      else [] := by
    rw [← length_securityCells hq]
    unfold securityCells
    split
    · rw [if_pos (by rw [auxCells]; exact Nat.succ_ne_zero _)]
    · rfl
  have hone (c : Prop) [Decidable c] (xs : List (Option UInt8)) :
      (if (if c then 1 else 0) = 1 then xs else []) = if c then xs else [] := by
    by_cases hc : c <;> simp [hc]
  have htwo (b : Bool) (xs : List (Option UInt8)) :
      (if (if b then 2 else 0) = 2 then xs else []) = if b then xs else [] := by
    cases b <;> rfl
  simp only [create, fieldLen, cells, headerCells, sideCells, hsec, hone, htwo,
    and_one_of_lt hq.sequenceNumberSuppression, mode_and_three hq.destAddrMode,
    mode_and_three hq.srcAddrMode, List.append_assoc]

theorem length_seqnoCells (q : Frame802154) :
    (if q.fcf.sequenceNumberSuppression = 0 then [some q.seq] else []).length =
      if q.fcf.sequenceNumberSuppression = 0 then 1 else 0 := by
  split <;> rfl

theorem hdrlen_eq (cfg : Config) {p : Frame802154} (hp : WellFormed p) :
    hdrlen cfg p = (headerCells cfg (compressPanid p)).length := by
  have hq := hp.compressPanid
  have hfcf : ((createFcf (compressPanid p).fcf).map some).length = 2 := rfl
  simp only [headerCells, List.length_append, hfcf, length_sideCells, length_securityCells hq,
    length_seqnoCells, hdrlen, fieldLen, and_one_of_lt hq.sequenceNumberSuppression,
    mode_and_three hq.destAddrMode, mode_and_three hq.srcAddrMode]
  omega

/-- The cursor of `frame802154_parse` in front of the auxiliary security header. -/
def parseFields (cfg : Config) (fcf : Fcf) (data : ℕ → UInt8) (pf : Frame802154) : Cursor :=
  parseSrc cfg fcf data <| parseDest cfg fcf data <| parseSeqno fcf data
    { p := 2, pf := { pf with fcf := fcf } }

/-- Every field in front of the auxiliary security header is that of `q`. -/
structure FieldsRead (q pf : Frame802154) : Prop where
  fcf : pf.fcf = q.fcf
  seq : q.fcf.sequenceNumberSuppression = 0 → pf.seq = q.seq
  destPid : (hasPanid q.fcf).2 → pf.destPid = q.destPid
  srcPid : (hasPanid q.fcf).1 → pf.srcPid = q.srcPid
  destAddr : pf.destAddr.toList.take (addrLen q.fcf.destAddrMode) =
    q.destAddr.toList.take (addrLen q.fcf.destAddrMode)
  srcAddr : pf.srcAddr.toList.take (addrLen q.fcf.srcAddrMode) =
    q.srcAddr.toList.take (addrLen q.fcf.srcAddrMode)

/-- Up to the auxiliary security header, every field is read back. -/
theorem parseFields_of_holdsAt {cfg : Config} {q : Frame802154} (hq : WellFormed q)
    (hlone : ¬ LonePanid q) {data : ℕ → UInt8} (h : HoldsAt data 0 (headerCells cfg q))
    (pf : Frame802154) :
    (parseFields cfg q.fcf data pf).p + (securityCells cfg q).length =
        (headerCells cfg q).length ∧
      HoldsAt data (parseFields cfg q.fcf data pf).p (securityCells cfg q) ∧
      FieldsRead q (parseFields cfg q.fcf data pf).pf := by
  obtain ⟨hfcf, h⟩ := holdsAt_append.1 h
  obtain ⟨hseq, h⟩ := holdsAt_append.1 h
  obtain ⟨hdest, h⟩ := holdsAt_append.1 h
  obtain ⟨hsrc, hsec⟩ := holdsAt_append.1 h
  have h₂ : 0 + ((createFcf q.fcf).map some).length = 2 := rfl
  rw [h₂] at hseq hdest hsrc hsec
  rw [length_seqnoCells] at hdest hsrc hsec
  rw [length_sideCells] at hsrc hsec
  rw [length_sideCells] at hsec
  obtain ⟨s₁, hs₁⟩ : ∃ s, s = parseSeqno q.fcf data { p := 2, pf := { pf with fcf := q.fcf } } :=
    ⟨_, rfl⟩
  rw [parseSeqno_eq hseq] at hs₁
  obtain ⟨a, pid, hd, hpid, ha⟩ := parseDest_eq cfg (s := s₁) hq.destAddrMode
    (destAddrMode_ne hlone) (by rw [hs₁]; exact hdest)
  obtain ⟨s₂, hs₂⟩ : ∃ s, s = parseDest cfg q.fcf data s₁ := ⟨_, rfl⟩
  rw [hd] at hs₂
  obtain ⟨b, spid, dpid, hs, hspid, hdpid, hb⟩ := parseSrc_eq cfg (s := s₂)
    hq.srcAddrMode srcAddrMode_ne (by rw [hs₂, hs₁]; exact hsrc)
  have hcursor : parseFields cfg q.fcf data pf = parseSrc cfg q.fcf data s₂ := by
    rw [parseFields, parseSeqno_eq hseq, ← hs₁, hd, ← hs₂]
  rw [hcursor, hs, hs₂, hs₁]
  refine ⟨?_, hsec, ?_⟩
  · have hlen : ((createFcf q.fcf).map some).length = 2 := rfl
    simp only [headerCells, List.length_append, hlen, length_sideCells, length_seqnoCells]
    omega
  · exact
      { fcf := rfl
        seq := fun h => if_pos h
        destPid := fun h => by
          rw [hdpid h, hs₂]
          exact hpid h
        srcPid := hspid
        destAddr := ha
        srcAddr := hb }

theorem parse_eq {cfg : Config} {data : ℕ → UInt8} {len : ℕ} {pf : Frame802154} {fcf : Fcf}
    (hlen : 2 ≤ len) (hfcf : parseFcf (data 0) (data 1) = fcf) :
    parse cfg data len pf =
      (if (parseAux cfg fcf data (parseFields cfg fcf data pf)).p > len then 0
        else (parseAux cfg fcf data (parseFields cfg fcf data pf)).p,
        { (parseAux cfg fcf data (parseFields cfg fcf data pf)).pf with
          payloadLen := (len : ℤ) - (parseAux cfg fcf data (parseFields cfg fcf data pf)).p
          payload := (parseAux cfg fcf data (parseFields cfg fcf data pf)).p }) := by
  rw [parse, if_neg (Nat.not_lt.2 hlen)]
  simp only [hfcf]
  rfl

theorem fcf_of_holdsAt {cfg : Config} {q : Frame802154} (hq : WellFormed q) {data : ℕ → UInt8}
    (h : HoldsAt data 0 (headerCells cfg q)) : parseFcf (data 0) (data 1) = q.fcf :=
  parseFcf_createFcf hq (holdsAt_append.1 h).1

/-- The auxiliary security header is read back, where there is one. -/
theorem parseAux_of_holdsAt {cfg : Config} {q : Frame802154} (hq : WellFormed q)
    (hshort : ¬ LongCounter cfg q) {data : ℕ → UInt8} {s : Cursor}
    (h : HoldsAt data s.p (securityCells cfg q)) :
    ∃ aux, parseAux cfg q.fcf data s =
        { p := s.p + (securityCells cfg q).length, pf := { s.pf with auxHdr := aux } } ∧
      (cfg.usesAuxHeader → q.fcf.securityEnabled = 1 → SameAux cfg q.auxHdr aux) := by
  by_cases hon : cfg.usesAuxHeader ∧ q.fcf.securityEnabled = 1
  · have hsize : q.auxHdr.securityControl.frameCounterSize = 0 :=
      (eq_zero_or_eq_one hq.frameCounterSize).resolve_right
        fun h₁ => hshort ⟨hon.1, hon.2, h₁⟩
    rw [securityCells, if_pos hon] at h ⊢
    obtain ⟨aux, haux, hsame⟩ := parseAux_eq hon.1 (by rw [hon.2]; decide) hq.securityLevel
      hq.keyIdMode hq.frameCounterSuppression hsize h
    exact ⟨aux, haux, fun _ _ => hsame⟩
  · refine ⟨s.pf.auxHdr, ?_, fun hc hs => absurd ⟨hc, hs⟩ hon⟩
    rw [securityCells, if_neg hon, parseAux, if_neg]
    · rfl
    · rintro ⟨hc, hs⟩
      exact hon ⟨hc, (eq_zero_or_eq_one hq.securityEnabled).resolve_left hs⟩

theorem longCounter_compressPanid {cfg : Config} {p : Frame802154} :
    LongCounter cfg (compressPanid p) ↔ LongCounter cfg p := by
  unfold compressPanid
  split <;> rfl

/-- Without a long counter every cell is written. -/
theorem ne_none_of_mem_headerCells {cfg : Config} {q : Frame802154}
    (hshort : ¬ LongCounter cfg q) : ∀ c ∈ headerCells cfg q, c ≠ none := by
  have hsome (bs : List UInt8) : ∀ c ∈ bs.map some, c ≠ none := by
    intro c hc
    obtain ⟨b, -, rfl⟩ := List.mem_map.1 hc
    exact Option.some_ne_none b
  have hside (pan : Bool) (pid : UInt16) (mode : UInt8) (addr : Vector UInt8 8) :
      ∀ c ∈ sideCells pan pid mode addr, c ≠ none := by
    refine List.forall_mem_append.2 ⟨?_, hsome _⟩
    cases pan
    · simp
    · exact hsome _
  refine List.forall_mem_append.2 ⟨hsome _, List.forall_mem_append.2 ⟨?_,
    List.forall_mem_append.2 ⟨hside _ _ _ _, List.forall_mem_append.2 ⟨hside _ _ _ _, ?_⟩⟩⟩⟩
  · split
    · exact hsome [q.seq]
    · simp
  · unfold securityCells
    split
    next hon =>
      have hsize : q.auxHdr.securityControl.frameCounterSize ≠ 1 :=
        fun h => hshort ⟨hon.1, hon.2, h⟩
      rw [auxCells, counterCells, if_neg hsize, List.append_nil]
      refine List.forall_mem_cons.2 ⟨Option.some_ne_none _, List.forall_mem_append.2 ⟨?_, ?_⟩⟩
      · split
        · exact hsome _
        · simp
      · unfold keyCells
        split
        · exact List.forall_mem_append.2 ⟨hsome _, hsome [q.auxHdr.keyIndex]⟩
        · simp
    next => simp

/-- **Round trip.** A header that is written is read back. -/
theorem roundTrips_of_covered {cfg : Config} {p : Frame802154} (hp : WellFormed p)
    (hlone : ¬ LonePanid p) (hshort : ¬ LongCounter cfg p) (payload : List UInt8) :
    RoundTrips cfg p payload := by
  have hq := hp.compressPanid
  have hlone' : ¬ LonePanid (compressPanid p) := fun h => hlone h.of_compressPanid
  have hshort' : ¬ LongCounter cfg (compressPanid p) :=
    fun h => hshort (longCounter_compressPanid.1 h)
  refine ⟨?_, ?_, ?_⟩
  · rw [create_eq cfg hp]
    exact ne_none_of_mem_headerCells hshort'
  · rw [create_eq cfg hp, hdrlen_eq cfg hp]
  · intro data pf h
    rw [create_eq cfg hp] at h ⊢
    rw [hdrlen_eq cfg hp]
    have hcells := (holdsAt_append.1 h).1
    obtain ⟨hpos, hsec, hfields⟩ := parseFields_of_holdsAt hq hlone' hcells pf
    obtain ⟨aux, haux, hsame⟩ := parseAux_of_holdsAt hq hshort' hsec
    have hlen : 2 ≤ (headerCells cfg (compressPanid p)).length + payload.length := by
      have : 2 ≤ (headerCells cfg (compressPanid p)).length := by
        rw [← hdrlen_eq cfg hp, hdrlen]
        omega
      omega
    rw [parse_eq hlen (fcf_of_holdsAt hq hcells), haux, hpos]
    refine ⟨if_neg (Nat.not_lt.2 (Nat.le_add_right _ _)), ?_⟩
    exact
      { fcf := hfields.fcf
        seq := hfields.seq
        destPid := hfields.destPid
        srcPid := hfields.srcPid
        destAddr := hfields.destAddr
        srcAddr := hfields.srcAddr
        auxHdr := hsame
        payload := rfl
        payloadLen := by
          simp only [Int.natCast_add]
          omega }

/-! ## The two disagreements -/

theorem shiftRight_six_ne_one {b : UInt8} (h : b >>> 5 = 0) : b >>> 6 ≠ 1 := by
  obtain ⟨b, rfl⟩ := exists_fin_of_lt (n := 256) b.toNat_lt
  revert b
  decide +kernel

theorem and_three_lt (b : UInt8) : b &&& 3 < 4 := by
  obtain ⟨b, rfl⟩ := exists_fin_of_lt (n := 256) b.toNat_lt
  revert b
  decide +kernel

theorem getKeyIdLen_mem (mode : UInt8) : getKeyIdLen mode ∈ [0, 1, 5, 9] := by
  unfold getKeyIdLen
  split
  · decide
  · split
    · decide
    · split <;> decide

/-- The lengths that the parser can give an auxiliary security header: a counter
of five bytes is not among them. -/
theorem parseAux_p {cfg : Config} {fcf : Fcf} (hon : cfg.usesAuxHeader ∧ fcf.securityEnabled ≠ 0)
    (data : ℕ → UInt8) (s : Cursor) :
    ∃ counter ∈ [0, 4], ∃ key ∈ [0, 1, 5, 9],
      (parseAux cfg fcf data s).p = s.p + 1 + counter + key := by
  rw [parseAux, if_pos hon]
  have hcounter : ∃ counter ∈ [0, 4], (parseCounter
      (parseScf cfg (data s.p) s.pf.auxHdr.securityControl) data (s.p + 1)
        s.pf.auxHdr.frameCounter).1 = s.p + 1 + counter := by
    unfold parseCounter
    split
    next h =>
      have hne : (parseScf cfg (data s.p) s.pf.auxHdr.securityControl).frameCounterSize ≠ 1 :=
        shiftRight_six_ne_one h
      exact ⟨4, by decide, by rw [if_neg hne]⟩
    next => exact ⟨0, by decide, rfl⟩
  obtain ⟨counter, hmem, hcounter⟩ := hcounter
  have hkey (p : ℕ) (aux : AuxHdr) (haux : cfg.usesExplicitKeys →
      aux.securityControl.keyIdMode < 4) : ∃ key ∈ [0, 1, 5, 9],
      (parseKey cfg data p aux).1 = p + key := by
    unfold parseKey
    split
    next h =>
      refine ⟨getKeyIdLen aux.securityControl.keyIdMode, getKeyIdLen_mem _, ?_⟩
      rw [getKeyIdLen_eq (haux h.1), if_neg h.2]
      rfl
    next => exact ⟨0, by decide, rfl⟩
  obtain ⟨key, hkmem, hkey⟩ := hkey (s.p + 1 + counter)
    { s.pf.auxHdr with
      securityControl := parseScf cfg (data s.p) s.pf.auxHdr.securityControl
      frameCounter := (parseCounter (parseScf cfg (data s.p) s.pf.auxHdr.securityControl) data
        (s.p + 1) s.pf.auxHdr.frameCounter).2 }
    (fun he => by
      change (if cfg.usesExplicitKeys then (data s.p >>> 3) &&& 3 else _) < 4
      rw [if_pos he]
      exact and_three_lt _)
  exact ⟨counter, hmem, key, hkmem, by simp only [hcounter, hkey]⟩

theorem exists_auxSecLen {cfg : Config} {p : Frame802154}
    (hon : cfg.usesAuxHeader ∧ p.fcf.securityEnabled &&& 1 ≠ 0) :
    ∃ counter ∈ [0, 4, 5], ∃ key ∈ [0, 1, 5, 9], auxSecLen cfg p = 1 + counter + key := by
  rw [auxSecLen, if_pos hon]
  refine ⟨_, ?_, _, ?_, rfl⟩
  · split
    · split <;> decide
    · decide
  · split
    · exact getKeyIdLen_mem _
    · decide

theorem parseAux_securityControl {cfg : Config} {fcf : Fcf}
    (hon : cfg.usesAuxHeader ∧ fcf.securityEnabled ≠ 0) (data : ℕ → UInt8) (s : Cursor) :
    (parseAux cfg fcf data s).pf.auxHdr.securityControl =
      parseScf cfg (data s.p) s.pf.auxHdr.securityControl := by
  rw [parseAux, if_pos hon]
  simp only [parseKey]
  split <;> rfl

/-- A PAN id without an address is written, and not read. -/
theorem not_lonePanid_of_roundTrips {cfg : Config} {p : Frame802154} (hp : WellFormed p)
    {payload : List UInt8} (h : RoundTrips cfg p payload) : ¬ LonePanid p := by
  rintro ⟨hversion, hdest, hsrc, hcompression⟩
  have hcomp : compressPanid p = p := compressPanid_of_v2015 hversion
  obtain ⟨data, hdata⟩ := exists_holdsAt ((create cfg p).2 ++ payload.map some)
  obtain ⟨hparsed, -⟩ := h.parsed data p hdata
  rw [create_eq cfg hp, hcomp] at hdata
  have hpan : hasPanid p.fcf = (false, true) := by
    simp [hasPanid, hversion, hdest, hsrc, hcompression, noAddr, shortAddrMode, longAddrMode]
  have hlen : hdrlen cfg p = 2 + (if p.fcf.sequenceNumberSuppression = 0 then 1 else 0) + 2 +
      auxSecLen cfg p := by
    simp only [hdrlen, fieldLen, hcomp, hpan, hdest, hsrc,
      and_one_of_lt hp.sequenceNumberSuppression]
    rfl
  have hfields : (parseFields cfg p.fcf data p).p =
      2 + if p.fcf.sequenceNumberSuppression = 0 then 1 else 0 := by
    have hd : p.fcf.destAddrMode = 0 := hdest
    have hs : p.fcf.srcAddrMode = 0 := hsrc
    simp only [parseFields, parseSrc, parseDest, parseSeqno, hd, hs, ne_eq, not_true_eq_false,
      if_false]
    split <;> rfl
  rw [parse_eq (by omega) (fcf_of_holdsAt hp (holdsAt_append.1 hdata).1)] at hparsed
  have hpos : (parseAux cfg p.fcf data (parseFields cfg p.fcf data p)).p ≠ hdrlen cfg p := by
    rw [hlen]
    by_cases hon : cfg.usesAuxHeader ∧ p.fcf.securityEnabled &&& 1 ≠ 0
    · obtain ⟨c, hc, k, hk, hwritten⟩ := exists_auxSecLen hon
      rw [and_one_of_lt hp.securityEnabled] at hon
      obtain ⟨c', hc', k', hk', hread⟩ := parseAux_p hon data (parseFields cfg p.fcf data p)
      simp only [List.mem_cons, List.not_mem_nil, or_false] at hc hk hc' hk'
      omega
    · rw [auxSecLen, if_neg hon]
      rw [and_one_of_lt hp.securityEnabled] at hon
      rw [parseAux, if_neg hon]
      omega
  split at hparsed
  · omega
  · exact hpos hparsed

theorem not_longCounter_of_roundTrips {cfg : Config} {p : Frame802154} (hp : WellFormed p)
    (hlone : ¬ LonePanid p) {payload : List UInt8} (h : RoundTrips cfg p payload) :
    ¬ LongCounter cfg p := by
  intro hlong
  have hq := hp.compressPanid
  have hlone' : ¬ LonePanid (compressPanid p) := fun h => hlone h.of_compressPanid
  obtain ⟨huses, hsec, hsize⟩ := longCounter_compressPanid.2 hlong
  obtain ⟨data, hdata⟩ := exists_holdsAt ((create cfg p).2 ++ payload.map some)
  obtain ⟨-, hrec⟩ := h.parsed data p hdata
  have hlen : 2 ≤ hdrlen cfg p + payload.length := by
    rw [hdrlen]
    omega
  rw [create_eq cfg hp] at hdata hrec
  have hcells := (holdsAt_append.1 hdata).1
  obtain ⟨-, hat, -⟩ := parseFields_of_holdsAt hq hlone' hcells p
  rw [securityCells, if_pos ⟨huses, hsec⟩, auxCells, holdsAt_cons] at hat
  have hsame := (hrec.auxHdr huses hsec).frameCounterSuppression
  rw [parse_eq hlen (fcf_of_holdsAt hq hcells)] at hsame
  have hon : cfg.usesAuxHeader ∧ (compressPanid p).fcf.securityEnabled ≠ 0 :=
    ⟨huses, by rw [hsec]; decide⟩
  have hread := congrArg Scf.frameCounterSuppression
    (parseAux_securityControl hon data (parseFields cfg (compressPanid p).fcf data p))
  rw [hat.1, parseScf_scfByte cfg _ hq.securityLevel hq.keyIdMode hq.frameCounterSuppression
    hq.frameCounterSize, hsize] at hread
  have hbits : (compressPanid p).auxHdr.securityControl.frameCounterSuppression |||
      ((1 : UInt8) <<< 1) =
        (compressPanid p).auxHdr.securityControl.frameCounterSuppression := hread.symm.trans hsame
  rcases eq_zero_or_eq_one hq.frameCounterSuppression with hs | hs
  · rw [hs] at hbits
    exact absurd hbits (by decide)
  · rw [hs] at hbits
    exact absurd hbits (by decide)

/-- A header and the payload behind it are read back as they were written
exactly when there is no destination PAN id without an address, and no frame
counter announced as a long one. -/
theorem roundTrips_iff (cfg : Config) (p : Frame802154) (hp : WellFormed p)
    (payload : List UInt8) :
    RoundTrips cfg p payload ↔ ¬ LonePanid p ∧ ¬ LongCounter cfg p := by
  constructor
  · intro h
    have hlone := not_lonePanid_of_roundTrips hp h
    exact ⟨hlone, not_longCounter_of_roundTrips hp hlone h⟩
  · rintro ⟨hlone, hshort⟩
    exact roundTrips_of_covered hp hlone hshort payload

/-- A data frame of the 2015 version between two long addresses, with a secured
header and a frame counter of five bytes. -/
def longCounterFrame : Frame802154 where
  destAddr := .replicate 8 1
  srcAddr := .replicate 8 2
  fcf :=
    { frameType := 1, securityEnabled := 1, framePending := 0, ackRequired := 1
      panidCompression := 0, sequenceNumberSuppression := 0, ieListPresent := 0
      destAddrMode := longAddrMode, frameVersion := ieee802154v2015
      srcAddrMode := longAddrMode }
  seq := 7
  destPid := 0xabcd
  srcPid := 0xabcd
  auxHdr :=
    { securityControl :=
        { securityLevel := 5, keyIdMode := 1, frameCounterSuppression := 0
          frameCounterSize := 1 }
      frameCounter := .replicate 4 3
      keySource := .replicate 8 0
      keyIndex := 1 }
  payload := 0
  payloadLen := 0

/-- `LLSEC802154_CONF_ENABLED`, with addresses of eight bytes. -/
def securedConfig : Config where
  usesAuxHeader := true
  usesExplicitKeys := true
  linkaddrSize := 8

theorem wellFormed_longCounterFrame : WellFormed longCounterFrame := by
  constructor <;> decide

/-- Headers are not always read back as they were written. -/
theorem not_roundTrips : ¬ ∀ (cfg : Config) (p : Frame802154), WellFormed p →
    ∀ payload, RoundTrips cfg p payload := by
  intro h
  have hrt := h securedConfig longCounterFrame wellFormed_longCounterFrame []
  exact not_longCounter_of_roundTrips wellFormed_longCounterFrame (by unfold LonePanid; decide)
    hrt (by unfold LongCounter; decide)

/-- The frame is not read back, and would be with a counter of four bytes. -/
theorem roundTrips_iff_longCounterFrame :
    RoundTrips securedConfig longCounterFrame [1, 2, 3] ↔
      ¬ LonePanid longCounterFrame ∧ ¬ LongCounter securedConfig longCounterFrame :=
  roundTrips_iff securedConfig longCounterFrame wellFormed_longCounterFrame [1, 2, 3]

end Den2ne.Frame802154
