import Den2ne.Pieces.Cut
import Den2ne.Sicslowpan.Output
import Mathlib.Algebra.Order.Ring.Int
import Mathlib.Data.List.Infix

/-!
# The fragments of a packet

The frames that `output` sends are the beginning of a list that does not depend on the lower
layers: the first fragment, and one fragment for each of the pieces of what is left. The offset
of a fragment has eight bits and counts units of eight bytes.
-/

namespace Den2ne.Sicslowpan

open Memory Pieces

/-! ## Rounding -/

theorem testBit_mask : ∀ i < 32, Nat.testBit 0xfffffff8 i = decide (3 ≤ i) := by decide

theorem and_mask {n : ℕ} (h : n < 2 ^ 32) : n &&& 0xfffffff8 = n / 8 * 8 := by
  have hshift : n / 8 * 8 = n >>> 3 <<< 3 := by
    rw [Nat.shiftLeft_eq, Nat.shiftRight_eq_div_pow]
  rw [hshift]
  apply Nat.eq_of_testBit_eq
  intro i
  rw [Nat.testBit_and, Nat.testBit_shiftLeft, Nat.testBit_shiftRight]
  by_cases hi : i < 32
  · rw [testBit_mask i hi, Bool.and_comm]
    by_cases h3 : 3 ≤ i
    · rw [Nat.add_sub_cancel' h3]
    · rw [decide_eq_false h3]
      rfl
  · have hbit : n.testBit i = false :=
      Nat.testBit_lt_two_pow (h.trans_le (Nat.pow_le_pow_right (by decide) (Nat.le_of_not_lt hi)))
    rw [hbit, Nat.add_sub_cancel' (by omega), hbit, Bool.and_false, Bool.false_and]

/-- A length is rounded down to a multiple of eight. -/
theorem mask8_eq {x : ℤ} (hlow : -2147483648 ≤ x) (hhigh : x < 2147483648) :
    mask8 x = x / 8 * 8 := by
  have hlt : (x % 4294967296).toNat < 2 ^ 32 := by omega
  have hmask : mask8 x = Int.bmod (((x % 4294967296).toNat / 8 * 8 : ℕ) : ℤ) 4294967296 := by
    rw [← and_mask hlt]
    rfl
  rw [hmask, Int.bmod_def]
  split <;> omega

/-! ## The lengths -/

namespace Datagram

variable (d : Datagram)

/-- What is left of the packet behind the headers that are compressed. -/
def payload : List UInt8 :=
  load d.uip d.uncompHdrLen.toNat (d.uipLen.toNat - d.uncompHdrLen.toNat)

/-- The length of the payload of the first fragment. -/
def firstLen : ℕ := d.frag1Payload.toNat

/-- The length of the payload of a fragment in the middle. -/
def unitLen : ℕ := d.fragnMaxPayload.toNat

/-- The length that the payload of the last fragment can have. -/
def lastLen : ℕ := d.lastFragnMaxPayload.toNat

/-- The number of the fragments in the middle. -/
def middles : ℕ :=
  fulls d.unitLen d.lastLen (d.uipLen.toNat - d.uncompHdrLen.toNat - d.firstLen)

/-- Where the payload of the fragment behind the first one and `k` more begins. -/
def begins (k : ℕ) : ℕ := d.uncompHdrLen.toNat + d.firstLen + k * d.unitLen

/-- The length of the payload of that fragment. -/
def lengthOf (k : ℕ) : ℕ := if k < d.middles then d.unitLen else d.uipLen.toNat - d.begins k

/-- The packet is cut: it is too large for a frame, frames have room for a unit, and the headers
fit the first fragment. -/
structure Cut : Prop where
  needed : d.FragNeeded
  room : 13 ≤ d.macMaxPayload
  headers : 0 ≤ d.frag1Payload

variable {d}

namespace Cut

variable (h : d.Cut)
include h

theorem frag1Payload_eq : d.frag1Payload = d.firstLen := (Int.toNat_of_nonneg h.headers).symm

theorem frag1Payload_mask :
    d.frag1Payload = (d.macMaxPayload - d.packetbufHdrLen.toNat - 4) / 8 * 8 := by
  have hle := d.macMaxPayload_le
  have hroom := h.room
  have hhdr := d.packetbufHdrLen.toNat_lt
  exact mask8_eq (by omega) (by omega)

theorem fragnMaxPayload_mask : d.fragnMaxPayload = (d.macMaxPayload - 5) / 8 * 8 := by
  have hle := d.macMaxPayload_le
  have hroom := h.room
  exact mask8_eq (by omega) (by omega)

theorem dvd_firstLen : 8 ∣ d.firstLen := by
  have hmask := h.frag1Payload_mask
  rw [h.frag1Payload_eq] at hmask
  omega

theorem firstLen_le : (d.firstLen : ℤ) + d.packetbufHdrLen.toNat + 4 ≤ d.macMaxPayload := by
  have hmask := h.frag1Payload_mask
  rw [h.frag1Payload_eq] at hmask
  omega

theorem fragnMaxPayload_eq : d.fragnMaxPayload = d.unitLen := by
  have hmask := h.fragnMaxPayload_mask
  have hroom := h.room
  exact (Int.toNat_of_nonneg (by omega)).symm

theorem dvd_unitLen : 8 ∣ d.unitLen := by
  have hmask := h.fragnMaxPayload_mask
  rw [h.fragnMaxPayload_eq] at hmask
  omega

theorem unitLen_pos : 0 < d.unitLen := by
  have hmask := h.fragnMaxPayload_mask
  have hroom := h.room
  rw [h.fragnMaxPayload_eq] at hmask
  omega

theorem lastFragnMaxPayload_eq : d.lastFragnMaxPayload = d.lastLen := by
  have hroom := h.room
  have hdef : d.lastFragnMaxPayload = d.macMaxPayload - 5 := rfl
  exact (Int.toNat_of_nonneg (by omega)).symm

theorem lastLen_add : (d.lastLen : ℤ) + 5 = d.macMaxPayload := by
  rw [← h.lastFragnMaxPayload_eq]
  exact Int.sub_add_cancel _ _

theorem unitLen_le : d.unitLen ≤ d.lastLen := by
  have hmask := h.fragnMaxPayload_mask
  have hlast := h.lastLen_add
  rw [h.fragnMaxPayload_eq] at hmask
  omega

/-- The first fragment does not carry the whole packet. -/
theorem firstLen_lt : d.uncompHdrLen.toNat + d.firstLen < d.uipLen.toNat := by
  have hneeded : d.macMaxPayload <
      (d.uipLen.toNat : ℤ) - d.uncompHdrLen.toNat + d.packetbufHdrLen.toNat := h.needed
  have hfirst := h.firstLen_le
  omega

/-- The last fragment begins in the packet. -/
theorem begins_lt : d.begins d.middles < d.uipLen.toNat := by
  have hlt := h.firstLen_lt
  have hmul : d.middles * d.unitLen < d.uipLen.toNat - d.uncompHdrLen.toNat - d.firstLen :=
    fulls_mul_lt h.unitLen_pos h.unitLen_le (by omega)
  rw [begins]
  omega

/-- All but the last of the fragments are in the middle. -/
theorem lt_middles_iff {k : ℕ} :
    k < d.middles ↔ d.lastLen < d.uipLen.toNat - d.begins k := by
  have hlt := h.firstLen_lt
  have hiff : k < d.middles ↔
      d.lastLen + k * d.unitLen < d.uipLen.toNat - d.uncompHdrLen.toNat - d.firstLen :=
    lt_fulls_iff h.unitLen_pos
  rw [hiff, begins]
  omega

theorem lengthOf_le {k : ℕ} : d.lengthOf k ≤ d.lastLen := by
  rw [lengthOf]
  split
  · exact h.unitLen_le
  · rename_i hk
    exact Nat.le_of_not_lt fun hlt => hk (h.lt_middles_iff.2 hlt)

theorem fragmentCount_eq : d.fragmentCount = d.middles + 2 := by
  have hlt := h.firstLen_lt
  have hmiddle : d.middleFragnTotalPayload =
      (d.uipLen.toNat - d.uncompHdrLen.toNat - d.firstLen - d.lastLen : ℕ) := by
    rw [middleFragnTotalPayload, totalPayload, h.frag1Payload_eq, h.lastFragnMaxPayload_eq]
    omega
  rw [fragmentCount, hmiddle, h.fragnMaxPayload_eq, middles, fulls]
  generalize d.uipLen.toNat - d.uncompHdrLen.toNat - d.firstLen - d.lastLen = left
  rw [Nat.add_comm 2]
  refine congrArg (· + 2) ?_
  cases left with
  | zero => exact (Nat.div_eq_of_lt (by have := h.unitLen_pos; omega)).symm
  | succ left =>
      have hsum : left + 1 + (d.unitLen - 1) = left + d.unitLen := by
        have := h.unitLen_pos
        omega
      rw [if_pos (by omega), hsum, Nat.add_div_right _ h.unitLen_pos]
      have hcast : ((left + 1 : ℕ) : ℤ) - 1 = left := by omega
      rw [hcast, Int.tdiv_eq_ediv_of_nonneg (Int.natCast_nonneg left), ← Int.natCast_ediv]
      generalize left / d.unitLen = quotient
      omega

end Cut

/-- Where the fragment behind the first one and `k` more begins, or the end of the packet. -/
def place (d : Datagram) (k : ℕ) : ℕ := if k ≤ d.middles then d.begins k else d.uipLen.toNat

/-- The frame of the fragment behind the first one and `k` more. -/
def laterFrame (d : Datagram) (header : List UInt8) (k : ℕ) : List UInt8 :=
  header ++ UInt8.ofNat (d.begins k / 8) :: load d.uip (d.begins k) (d.lengthOf k)

/-- The frames behind the first `k` and the first one, `n` of them. -/
def laterFrames (d : Datagram) (header : List UInt8) (k n : ℕ) : List (List UInt8) :=
  (List.range' k n).map (d.laterFrame header)

end Datagram

/-! ## One fragment -/

/-- The fragment was sent, and the MAC layer has not failed. -/
def Reply.Accepted : Reply → Prop
  | .noBuffer => False
  | .sent lastTxStatus _ => ¬ (lastTxStatus = 1 ∨ 4 ≤ lastTxStatus)

theorem load_store_behind (m : ℕ → UInt8) (p : ℕ) (xs : List UInt8) :
    load (store m p xs) 0 (p + xs.length) = load m 0 p ++ xs := by
  rw [load_add, load_store_of_disjoint (Or.inl (Nat.zero_add p).le), Nat.zero_add, load_store]

/-- A fragment is sent with what stands before its payload, or the packet is given up. -/
theorem fragmentCopyPayloadAndSend_cases (uip : ℕ → UInt8) (uipOffset : ℕ) (reply : Reply)
    (s : Sending) {hdrLen payloadLen : ℕ} (hlen : payloadLen + hdrLen < 65536) :
    (∃ s' j, fragmentCopyPayloadAndSend uip uipOffset hdrLen payloadLen reply s = (false, s') ∧
        ¬ reply.Accepted ∧ j ≤ 1 ∧
        s'.frames = s.frames ++ [load s.packetbuf 0 hdrLen ++ load uip uipOffset payloadLen].take j) ∨
      ∃ s', fragmentCopyPayloadAndSend uip uipOffset hdrLen payloadLen reply s = (true, s') ∧
        s'.frames = s.frames ++ [load s.packetbuf 0 hdrLen ++ load uip uipOffset payloadLen] ∧
        load s'.packetbuf 0 (hdrLen + payloadLen) =
          load s.packetbuf 0 hdrLen ++ load uip uipOffset payloadLen := by
  have hframe : load (store s.packetbuf hdrLen (load uip uipOffset payloadLen)) 0
      ((payloadLen + hdrLen) % 65536) =
        load s.packetbuf 0 hdrLen ++ load uip uipOffset payloadLen := by
    have hbehind := load_store_behind s.packetbuf hdrLen (load uip uipOffset payloadLen)
    rwa [length_load, Nat.add_comm, ← Nat.mod_eq_of_lt hlen] at hbehind
  simp only [fragmentCopyPayloadAndSend, Int.toNat_natCast, hframe]
  cases reply with
  | noBuffer => exact .inl ⟨_, 0, rfl, id, Nat.zero_le 1, (List.append_nil _).symm⟩
  | sent lastTxStatus left =>
      dsimp only
      by_cases hstatus : lastTxStatus = 1 ∨ 4 ≤ lastTxStatus
      · rw [decide_eq_false (not_not.2 hstatus)]
        exact .inl ⟨_, 1, rfl, not_not.2 hstatus, Nat.le_refl 1, rfl⟩
      · rw [decide_eq_true hstatus]
        refine .inr ⟨_, rfl, rfl, ?_⟩
        have hstore := load_store left 0
          (load s.packetbuf 0 hdrLen ++ load uip uipOffset payloadLen)
        rwa [List.length_append, length_load, length_load] at hstore

/-! ## The loop -/

variable {d : Datagram}

/-- The header of a fragment behind the first one: the offset follows four bytes that stay. -/
theorem load_offset (m : ℕ → UInt8) (b : UInt8) :
    load (store m 4 [b]) 0 5 = load m 0 4 ++ [b] := load_store_behind m 4 [b]

theorem begins_succ (d : Datagram) (k : ℕ) : d.begins (k + 1) = d.begins k + d.unitLen := by
  rw [Datagram.begins, Nat.succ_mul, ← Nat.add_assoc]
  rfl

namespace Datagram.Cut

variable (h : d.Cut) {k : ℕ}
include h

theorem begins_lt_of_le (hk : k ≤ d.middles) : d.begins k < d.uipLen.toNat :=
  Nat.lt_of_le_of_lt (Nat.add_le_add_left (Nat.mul_le_mul_right _ hk) _) h.begins_lt

theorem place_le : d.place k ≤ d.uipLen.toNat := by
  rw [place]
  split
  · exact (h.begins_lt_of_le ‹_›).le
  · exact Nat.le_refl _

/-- A fragment ends where the next one begins, and the last one at the end of the packet. -/
theorem place_succ (hk : k ≤ d.middles) : d.place (k + 1) = d.begins k + d.lengthOf k := by
  rw [place, lengthOf]
  by_cases hlt : k < d.middles
  · rw [if_pos (Nat.succ_le_of_lt hlt), if_pos hlt, begins_succ]
  · have hbegins := h.begins_lt_of_le hk
    rw [if_neg (Nat.not_le.2 (Nat.lt_succ_of_le (Nat.le_of_not_lt hlt))), if_neg hlt]
    omega

/-- The loop computes the length of a fragment. -/
theorem payloadLen_eq (hk : k ≤ d.middles) :
    (if d.lastFragnMaxPayload < (d.uipLen.toNat : ℤ) - d.begins k then d.fragnMaxPayload
      else (d.uipLen.toNat : ℤ) - d.begins k) = d.lengthOf k := by
  have hlt := h.begins_lt_of_le hk
  have hiff := h.lt_middles_iff (k := k)
  rw [h.lastFragnMaxPayload_eq, h.fragnMaxPayload_eq, lengthOf]
  split <;> split <;> omega

end Datagram.Cut

/-- One turn of the loop. -/
theorem outputLoop_turn (h : d.Cut) (replies : ℕ → Reply) {k : ℕ} (hk : k ≤ d.middles)
    (s : Sending) :
    (∃ s' j, j ≤ 1 ∧
        (∀ fuel, outputLoop d replies (fuel + 1) k (d.begins k) s = some (false, s')) ∧
        ¬ (replies (k + 1)).Accepted ∧
        s'.frames = s.frames ++ [d.laterFrame (load s.packetbuf 0 4) k].take j) ∨
      ∃ s', (∀ fuel, outputLoop d replies (fuel + 1) k (d.begins k) s =
          outputLoop d replies fuel (k + 1) (d.place (k + 1)) s') ∧
        s'.frames = s.frames ++ [d.laterFrame (load s.packetbuf 0 4) k] ∧
        load s'.packetbuf 0 4 = load s.packetbuf 0 4 := by
  have hbegins := h.begins_lt_of_le hk
  have hpayload := h.payloadLen_eq hk
  have hplace := h.place_succ hk
  have hle : d.begins k + d.lengthOf k ≤ d.uipLen.toNat := hplace ▸ h.place_le
  have hlast := h.lengthOf_le (k := k)
  have hmac := h.lastLen_add
  have hmax := d.macMaxPayload_le
  have hsize := d.uipLen.toNat_lt
  have hnext : (((d.begins k : ℤ) + d.lengthOf k) % 65536).toNat = d.place (k + 1) := by
    omega
  have hloop (fuel : ℕ) := outputLoop.eq_2 d replies k (d.begins k) s fuel
  simp only [if_pos hbegins, hpayload, hnext] at hloop
  have hframe : load (store s.packetbuf 4 [UInt8.ofNat (d.begins k / 8)]) 0 5 ++
      load d.uip (d.begins k) (d.lengthOf k) = d.laterFrame (load s.packetbuf 0 4) k := by
    rw [load_offset, List.append_assoc]
    rfl
  have hlen : d.lengthOf k + 5 < 65536 := by omega
  have hcases := fragmentCopyPayloadAndSend_cases d.uip (d.begins k) (replies (k + 1))
    { s with packetbuf := store s.packetbuf 4 [UInt8.ofNat (d.begins k / 8)] } hlen
  rw [hframe] at hcases
  rcases hcases with ⟨s', j, heq, hreply, hj, hframes⟩ | ⟨s', heq, hframes, hload⟩
  · rw [heq] at hloop
    exact .inl ⟨s', j, hj, hloop, hreply, hframes⟩
  · rw [heq] at hloop
    refine .inr ⟨s', hloop, hframes, ?_⟩
    have htake := congrArg (List.take 4) hload
    rwa [take_load (by omega), Datagram.laterFrame, List.take_left' (length_load _ _ _)] at htake

/-- The loop sends the fragments that are left, or the first ones of them. -/
theorem outputLoop_spec (h : d.Cut) (replies : ℕ → Reply) (n : ℕ) :
    ∀ (k : ℕ) (s : Sending), k + n = d.middles + 1 →
    ∃ (s' : Sending) (value : Bool) (j : ℕ), j ≤ n ∧
      (∀ fuel, n < fuel → outputLoop d replies fuel k (d.place k) s = some (value, s')) ∧
      s'.frames = s.frames ++ d.laterFrames (load s.packetbuf 0 4) k j ∧
      (value = true → j = n) ∧ ((∀ i, (replies i).Accepted) → value = true) := by
  induction n with
  | zero =>
      intro k s hk
      have hplace : d.place k = d.uipLen.toNat := if_neg (by omega)
      refine ⟨s, true, 0, Nat.le_refl 0, fun fuel hfuel => ?_, (List.append_nil _).symm,
        fun _ => rfl, fun _ => rfl⟩
      obtain ⟨fuel, rfl⟩ := Nat.exists_eq_add_of_le' hfuel
      rw [outputLoop, hplace, if_neg (Nat.lt_irrefl _)]
  | succ n ih =>
      intro k s hk
      have hle : k ≤ d.middles := by omega
      have hplace : d.place k = d.begins k := if_pos hle
      rw [hplace]
      rcases outputLoop_turn h replies hle s with
        ⟨s', j, hj, hloop, hreply, hframes⟩ | ⟨s', hloop, hframes, hheader⟩
      · refine ⟨s', false, j, by omega, fun fuel hfuel => ?_, ?_, fun hvalue => absurd hvalue Bool.false_ne_true,
          fun haccepted => absurd (haccepted (k + 1)) hreply⟩
        · obtain ⟨fuel, rfl⟩ := Nat.exists_eq_add_of_le' (Nat.zero_lt_of_lt hfuel)
          exact hloop fuel
        · rw [hframes]
          rcases Nat.le_one_iff_eq_zero_or_eq_one.1 hj with rfl | rfl
          · rfl
          · rfl
      · obtain ⟨s'', value, j, hj, hrun, hlater, hall, haccepted⟩ := ih (k + 1) s' (by omega)
        refine ⟨s'', value, j + 1, Nat.succ_le_succ hj, fun fuel hfuel => ?_, ?_,
          fun hvalue => congrArg (· + 1) (hall hvalue), haccepted⟩
        · obtain ⟨fuel, rfl⟩ := Nat.exists_eq_add_of_le' (Nat.zero_lt_of_lt hfuel)
          rw [hloop fuel]
          exact hrun fuel (by omega)
        · rw [hlater, hframes, hheader, List.append_assoc, Datagram.laterFrames,
            Datagram.laterFrames, List.range'_succ, List.map_cons]
          rfl

/-! ## The packet -/

theorem set16_dispatch (m : ℕ → UInt8) (a n : ℕ) :
    set16 m 0 (a <<< 8 ||| n) =
      store m 0 [UInt8.ofNat a ||| UInt8.ofNat (n / 256), UInt8.ofNat n] := by
  have hhigh : UInt8.ofNat ((a <<< 8 ||| n) / 256) = UInt8.ofNat a ||| UInt8.ofNat (n / 256) := by
    have hshift : (a <<< 8 ||| n) / 256 = a ||| n / 256 := by
      rw [← Nat.shiftRight_eq_div_pow _ 8, Nat.shiftRight_or_distrib, Nat.shiftLeft_shiftRight,
        Nat.shiftRight_eq_div_pow]
    rw [hshift, UInt8.ofNat_or]
  have hlow : UInt8.ofNat (a <<< 8 ||| n) = UInt8.ofNat n := by
    have hzero : UInt8.ofNat (a <<< 8) = 0 := by
      apply UInt8.toNat_inj.1
      rw [UInt8.toNat_ofNat', Nat.shiftLeft_eq]
      exact Nat.mul_mod_left a 256
    rw [UInt8.ofNat_or, hzero, UInt8.zero_or]
  rw [set16, hhigh, hlow]

namespace Datagram

/-- `packetbuf` with the headers of the first fragment. -/
def firstHeaders (d : Datagram) : ℕ → UInt8 :=
  set16 (set16 (store d.packetbuf 4 (load d.packetbuf 0 d.packetbufHdrLen.toNat)) 0
    (0xC0 <<< 8 ||| d.uipLen.toNat)) 2 d.myTag.toNat

/-- The frame of the first fragment. -/
def firstFrame (d : Datagram) : List UInt8 :=
  load d.firstHeaders 0 (d.packetbufHdrLen + 4).toNat ++
    load d.uip d.uncompHdrLen.toNat d.firstLen

/-- All frames, if the header of the other fragments begins with `header`. -/
def allFrames (d : Datagram) (header : List UInt8) : List (List UInt8) :=
  d.firstFrame :: d.laterFrames header 0 (d.middles + 1)

theorem toNat_hdrLen (hhdr : d.packetbufHdrLen < 252) :
    (d.packetbufHdrLen + 4).toNat = 4 + d.packetbufHdrLen.toNat := by
  have hlt : d.packetbufHdrLen.toNat < 252 := hhdr
  rw [UInt8.toNat_add, Nat.add_comm]
  exact Nat.mod_eq_of_lt (by change 4 + _ < _; omega)

theorem load_firstHeaders (d : Datagram) :
    load d.firstHeaders 0 (4 + d.packetbufHdrLen.toNat) =
      fragHeader 0xC0 d.uipLen.toNat d.myTag.toNat ++
        load d.packetbuf 0 d.packetbufHdrLen.toNat := by
  have hstore (m : ℕ → UInt8) (a b c e : UInt8) :
      store (store m 0 [a, b]) 2 [c, e] = store m 0 [a, b, c, e] := (store_append m 0 [a, b] _).symm
  have hmoved := load_store d.packetbuf 4 (load d.packetbuf 0 d.packetbufHdrLen.toNat)
  rw [length_load] at hmoved
  rw [firstHeaders, set16_dispatch, set16, hstore, load_add, Nat.zero_add]
  refine congrArg₂ (· ++ ·) (load_store _ 0 (fragHeader 0xC0 d.uipLen.toNat d.myTag.toNat)) ?_
  rw [load_store_of_disjoint (Or.inr (Nat.le_refl 4)), hmoved]

theorem allFrames_take (header : List UInt8) {j : ℕ} (hj : j ≤ d.middles + 1) :
    (d.allFrames header).take (j + 1) = d.firstFrame :: d.laterFrames header 0 j := by
  rw [allFrames, List.take_succ_cons, laterFrames, laterFrames, ← List.map_take,
    List.take_range'_of_length_ge hj]

theorem firstFrame_eq (hhdr : d.packetbufHdrLen < 252) :
    d.firstFrame = fragHeader 0xC0 d.uipLen.toNat d.myTag.toNat ++
      (load d.packetbuf 0 d.packetbufHdrLen.toNat ++
        load d.uip d.uncompHdrLen.toNat d.firstLen) := by
  rw [firstFrame, toNat_hdrLen hhdr, load_firstHeaders, List.append_assoc]

end Datagram

/-- The header of the other fragments follows from the one of the first. -/
theorem load_dispatch {m : ℕ → UInt8} {size tag : ℕ}
    (hload : load m 0 4 = fragHeader 0xC0 size tag) :
    load (set16 m 0 (0xE0 <<< 8 ||| size)) 0 4 = fragHeader 0xE0 size tag := by
  have hdrop := congrArg (List.drop 2) hload
  rw [drop_load] at hdrop
  have hlater : load (set16 m 0 (0xE0 <<< 8 ||| size)) 2 2 = load m 2 2 := by
    rw [set16_dispatch]
    exact load_store_of_disjoint (Or.inr (Nat.le_refl 2))
  have hfirst : load (set16 m 0 (0xE0 <<< 8 ||| size)) 0 2 =
      [0xE0 ||| UInt8.ofNat (size / 256), UInt8.ofNat size] := by
    rw [set16_dispatch]
    exact load_store m 0 [0xE0 ||| UInt8.ofNat (size / 256), UInt8.ofNat size]
  rw [load_add _ 0 2 2, hfirst, Nat.zero_add, hlater]
  exact congrArg _ hdrop

/-- `output` cuts a packet if there is room in the queue. -/
theorem outputFragments_spec (h : d.Cut) {numfree : ℕ} (hfree : d.fragmentCount < numfree)
    (replies : ℕ → Reply) :
    ∃ (value : Bool) (j : ℕ) (header : List UInt8), j ≤ d.middles + 2 ∧ header.length = 4 ∧
      (d.packetbufHdrLen < 252 → header = fragHeader 0xE0 d.uipLen.toNat d.myTag.toNat) ∧
      (∀ fuel, d.middles + 1 < fuel → outputFragments d numfree replies fuel =
        some ⟨value, (d.allFrames header).take j, d.myTag + 1⟩) ∧
      (value = true → j = d.middles + 2) ∧ ((∀ i, (replies i).Accepted) → value = true) := by
  have hle := h.firstLen_le
  have hlt := h.firstLen_lt
  have hmax := d.macMaxPayload_le
  have hsize := d.uipLen.toNat_lt
  have hhdr : (d.packetbufHdrLen + 4).toNat ≤ d.packetbufHdrLen.toNat + 4 := by
    rw [UInt8.toNat_add]
    exact Nat.mod_le _ _
  have hnext : (((d.uncompHdrLen.toNat : ℤ) + d.firstLen) % 65536).toNat = d.place 0 := by
    rw [Datagram.place, if_pos (Nat.zero_le _), Datagram.begins, Nat.zero_mul]
    omega
  have hnew : ¬ numfree < d.fragmentCount + 1 := by omega
  have hpos : ¬ (d.firstLen : ℤ) < 0 := Int.not_lt.2 (Int.natCast_nonneg d.firstLen)
  have hrun (fuel : ℕ) := outputFragments.eq_1 d numfree replies fuel
  simp only [if_neg hnew, h.frag1Payload_eq, if_neg hpos, hnext] at hrun
  have hlen : d.firstLen + (d.packetbufHdrLen + 4).toNat < 65536 := by omega
  rcases fragmentCopyPayloadAndSend_cases d.uip d.uncompHdrLen.toNat (replies 0)
    ⟨d.firstHeaders, []⟩ hlen with ⟨s', j, heq, hreply, hj, hframes⟩ | ⟨s', heq, hframes, hload⟩
  · rw [Datagram.firstHeaders] at heq
    simp only [heq] at hrun
    refine ⟨false, j, fragHeader 0xE0 d.uipLen.toNat d.myTag.toNat, by omega, rfl, fun _ => rfl,
      fun fuel _ => ?_, fun hvalue => absurd hvalue Bool.false_ne_true,
      fun haccepted => absurd (haccepted 0) hreply⟩
    rw [hrun fuel, hframes]
    rcases Nat.le_one_iff_eq_zero_or_eq_one.1 hj with rfl | rfl
    · rfl
    · rfl
  · obtain ⟨s'', value, j, hj, hloop, hlater, hall, haccepted⟩ :=
      outputLoop_spec h replies (d.middles + 1) 0
        { s' with packetbuf := set16 s'.packetbuf 0 (0xE0 <<< 8 ||| d.uipLen.toNat) }
        (Nat.zero_add _)
    rw [Datagram.firstHeaders] at heq
    simp only [heq] at hrun
    refine ⟨value, j + 1, load (set16 s'.packetbuf 0 (0xE0 <<< 8 ||| d.uipLen.toNat)) 0 4,
      Nat.succ_le_succ hj, length_load _ _ _, fun hlow => ?_, fun fuel hfuel => ?_,
      fun hvalue => congrArg (· + 1) (hall hvalue), haccepted⟩
    · have hfour := Datagram.toNat_hdrLen hlow
      have htake := congrArg (List.take 4) hload
      rw [take_load (by omega)] at htake
      refine load_dispatch (htake.trans ?_)
      exact (congrArg (List.take 4) (Datagram.firstFrame_eq hlow)).trans
        (List.take_left' rfl)
    · rw [hrun fuel, hloop fuel hfuel, Option.map_some, hlater, hframes,
        Datagram.allFrames_take _ hj]
      rfl

/-! ## The pieces -/

/-- The frames carry the headers and the pieces, one after the other from the first byte of the
payload on: an offset says, in units of eight bytes, how much of the packet came before. A packet
that is not given up is sent completely. -/
structure Sent.Partitions (r : Sent) (d : Datagram) (pieces : List (List UInt8)) : Prop where
  length : pieces.length = r.frames.length
  first : ∀ f, r.frames[0]? = some f →
    f = fragHeader 0xC0 d.uipLen.toNat d.myTag.toNat ++
      (load d.packetbuf 0 d.packetbufHdrLen.toNat ++ piece pieces 0)
  later : ∀ k f, r.frames[k + 1]? = some f → ∃ offset : UInt8,
    f = fragHeader 0xE0 d.uipLen.toNat d.myTag.toNat ++ offset :: piece pieces (k + 1) ∧
      offset.toNat * 8 = d.uncompHdrLen.toNat + start pieces (k + 1)
  fits : ∀ f ∈ r.frames, (f.length : ℤ) ≤ d.macMaxPayload
  inside : pieces.flatten <+: d.payload
  complete : r.value = true → pieces.flatten = d.payload ∧ r.frames.length = d.fragmentCount

/-- `output` comes to an end, and what it has sent is a partition. -/
def Datagram.Partitioned (d : Datagram) (numfree : ℕ) (replies : ℕ → Reply) : Prop :=
  ∃ r, (∃ n, ∀ fuel, n ≤ fuel → output d numfree replies fuel = some r) ∧
    ∃ pieces, r.Partitions d pieces

namespace Datagram

/-- What the fragments carry. -/
def allPieces (d : Datagram) : List (List UInt8) :=
  load d.uip d.uncompHdrLen.toNat d.firstLen ::
    (List.range (d.middles + 1)).map fun k => load d.uip (d.begins k) (d.lengthOf k)

theorem piece_allPieces_zero :
    piece d.allPieces 0 = load d.uip d.uncompHdrLen.toNat d.firstLen := by
  rw [piece, allPieces, List.getD_cons_zero]

theorem piece_allPieces_succ {k : ℕ} (hk : k ≤ d.middles) :
    piece d.allPieces (k + 1) = load d.uip (d.begins k) (d.lengthOf k) := by
  have hget : d.allPieces[k + 1]? = some (load d.uip (d.begins k) (d.lengthOf k)) := by
    rw [allPieces, List.getElem?_cons_succ, List.getElem?_map,
      List.getElem?_range (Nat.lt_succ_of_le hk), Option.map_some]
  rw [piece, List.getD_eq_getElem?_getD, hget, Option.getD_some]

theorem length_allPieces : d.allPieces.length = d.middles + 2 := by
  rw [allPieces, List.length_cons, List.length_map, List.length_range]

namespace Cut

variable (h : d.Cut)
include h

/-- The pieces before a fragment are what stands before its place. -/
theorem flatten_take {k : ℕ} (hk : k ≤ d.middles + 1) :
    (d.allPieces.take (k + 1)).flatten =
      load d.uip d.uncompHdrLen.toNat (d.place k - d.uncompHdrLen.toNat) := by
  induction k with
  | zero =>
      have hplace : d.place 0 - d.uncompHdrLen.toNat = d.firstLen := by
        rw [place, if_pos (Nat.zero_le _), begins]
        omega
      rw [hplace, allPieces, List.take_succ_cons, List.take_zero, List.flatten_singleton]
  | succ k ih =>
      have hle := Nat.le_of_succ_le_succ hk
      have hlt : k + 1 < d.allPieces.length := by
        rw [length_allPieces]
        omega
      have hplace : d.place k = d.begins k := if_pos hle
      have hbegins : d.begins k = d.uncompHdrLen.toNat + (d.place k - d.uncompHdrLen.toNat) := by
        rw [hplace, begins]
        omega
      have hsub : d.place (k + 1) - d.uncompHdrLen.toNat =
          d.place k - d.uncompHdrLen.toNat + d.lengthOf k := by
        rw [h.place_succ hle]
        omega
      rw [List.take_succ_eq_append_getElem hlt, List.flatten_append, List.flatten_singleton,
        ← piece_eq hlt, piece_allPieces_succ hle, ih (Nat.le_of_succ_le hk), hsub, load_add,
        ← hbegins]

theorem start_allPieces {k : ℕ} (hk : k ≤ d.middles + 1) :
    d.uncompHdrLen.toNat + start d.allPieces (k + 1) = d.place k := by
  have hle : d.uncompHdrLen.toNat ≤ d.place k := by
    have hlt := h.firstLen_lt
    rw [place, begins]
    split <;> omega
  rw [start, h.flatten_take hk, length_load]
  omega

theorem flatten_prefix {j : ℕ} (hj : j ≤ d.middles + 2) :
    (d.allPieces.take j).flatten <+: d.payload := by
  cases j with
  | zero => exact List.nil_prefix
  | succ k =>
      have hplace := h.place_le (k := k)
      rw [h.flatten_take (Nat.le_of_succ_le_succ hj), payload,
        ← take_load (Nat.sub_le_sub_right hplace _)]
      exact List.take_prefix _ _

theorem flatten_all : (d.allPieces.take (d.middles + 2)).flatten = d.payload := by
  rw [h.flatten_take (Nat.le_refl _), place, if_neg (Nat.not_succ_le_self _)]
  rfl

theorem length_firstFrame_le : (d.firstFrame.length : ℤ) ≤ d.macMaxPayload := by
  have hle := h.firstLen_le
  have hhdr : (d.packetbufHdrLen + 4).toNat ≤ d.packetbufHdrLen.toNat + 4 := by
    rw [UInt8.toNat_add]
    exact Nat.mod_le _ _
  rw [firstFrame, List.length_append, length_load, length_load]
  omega

theorem length_laterFrame_le {header : List UInt8} (hheader : header.length = 4) (k : ℕ) :
    ((d.laterFrame header k).length : ℤ) ≤ d.macMaxPayload := by
  have hle := h.lengthOf_le (k := k)
  have hlast := h.lastLen_add
  rw [laterFrame, List.length_append, List.length_cons, length_load, hheader]
  omega

end Cut

theorem getElem?_laterFrames {header : List UInt8} {j k : ℕ} {f : List UInt8}
    (hf : (d.laterFrames header 0 j)[k]? = some f) : k < j ∧ f = d.laterFrame header k := by
  have hk : k < j := by
    have hlt := (List.getElem?_eq_some_iff.1 hf).1
    rwa [laterFrames, List.length_map, List.length_range'] at hlt
  rw [laterFrames, List.getElem?_map, List.getElem?_range' hk, Option.map_some, Nat.zero_add,
    Nat.one_mul] at hf
  exact ⟨hk, (Option.some.inj hf).symm⟩

end Datagram

/-- The offset of a fragment is exact if its place is a multiple of eight below 2048. -/
theorem offset_iff {n : ℕ} : (UInt8.ofNat (n / 8)).toNat * 8 = n ↔ 8 ∣ n ∧ n < 2048 := by
  rw [UInt8.toNat_ofNat']
  omega

/-- What is sent of a packet is a partition if the offsets can say where the pieces begin. -/
theorem partitions_take (h : d.Cut) (hhdr : d.packetbufHdrLen < 252)
    (haligned : 8 ∣ d.uncompHdrLen.toNat) (hlast : d.begins d.middles < 2048) {value : Bool}
    {j : ℕ} (hj : j ≤ d.middles + 2) (hall : value = true → j = d.middles + 2) (tag : UInt16) :
    (Sent.mk value ((d.allFrames (fragHeader 0xE0 d.uipLen.toNat d.myTag.toNat)).take j)
      tag).Partitions d (d.allPieces.take j) where
  length := by
    rw [List.length_take, List.length_take, Datagram.length_allPieces, Datagram.allFrames,
      List.length_cons, Datagram.laterFrames, List.length_map, List.length_range']
  first := by
    intro f hf
    cases j with
    | zero => cases hf
    | succ j =>
        rw [Datagram.allFrames_take _ (Nat.le_of_succ_le_succ hj), List.getElem?_cons_zero] at hf
        rw [← Option.some.inj hf, Datagram.firstFrame_eq hhdr, piece_take (Nat.succ_pos j),
          Datagram.piece_allPieces_zero]
  later := by
    intro k f hf
    cases j with
    | zero => cases hf
    | succ j =>
        rw [Datagram.allFrames_take _ (Nat.le_of_succ_le_succ hj), List.getElem?_cons_succ] at hf
        obtain ⟨hk, rfl⟩ := Datagram.getElem?_laterFrames hf
        have hle : k ≤ d.middles := by omega
        have hbegins : d.begins k ≤ d.begins d.middles :=
          Nat.add_le_add_left (Nat.mul_le_mul_right _ hle) _
        have hmul : 8 ∣ d.begins k :=
          Nat.dvd_add (Nat.dvd_add haligned h.dvd_firstLen) (h.dvd_unitLen.mul_left k)
        have hplace : d.place k = d.begins k := if_pos hle
        refine ⟨UInt8.ofNat (d.begins k / 8), ?_, ?_⟩
        · rw [piece_take (Nat.succ_lt_succ hk), Datagram.piece_allPieces_succ hle]
          rfl
        · rw [start_take (Nat.succ_le_succ hk.le), h.start_allPieces (by omega), hplace]
          exact offset_iff.2 ⟨hmul, Nat.lt_of_le_of_lt hbegins hlast⟩
  fits := by
    intro f hf
    rcases List.mem_cons.1 (List.mem_of_mem_take hf) with rfl | hlater
    · exact h.length_firstFrame_le
    · obtain ⟨k, -, rfl⟩ := List.mem_map.1 hlater
      exact h.length_laterFrame_le rfl k
  inside := h.flatten_prefix hj
  complete := by
    intro hvalue
    rw [hall hvalue]
    refine ⟨h.flatten_all, ?_⟩
    rw [h.fragmentCount_eq, List.length_take, Datagram.allFrames, List.length_cons,
      Datagram.laterFrames, List.length_map, List.length_range']
    exact Nat.min_self _

/-- A packet is sent completely if all its fragments are accepted. Then the pieces are as long as
the fragments are. -/
theorem partitioned_imp (h : d.Cut)
    (hparts : ∀ numfree replies, d.Partitioned numfree replies) :
    8 ∣ d.uncompHdrLen.toNat ∧ d.packetbufHdrLen < 252 ∧ d.begins d.middles < 2048 := by
  have haccepted : ∀ i : ℕ, ((fun _ => .sent 0 fun _ => 0 : ℕ → Reply) i).Accepted := by
    intro i hstatus
    rcases hstatus with hstatus | hstatus
    · cases hstatus
    · exact absurd hstatus (by decide)
  obtain ⟨r, ⟨n, hr⟩, pieces, hpieces⟩ :=
    hparts (d.fragmentCount + 1) fun _ => .sent 0 fun _ => 0
  obtain ⟨value, j, header, -, hheader, -, hrun, hall, hvalue⟩ :=
    outputFragments_spec h (Nat.lt_succ_self d.fragmentCount) fun _ => .sent 0 fun _ => 0
  obtain rfl := hvalue haccepted
  obtain rfl := hall rfl
  have hout := hr (n + (d.middles + 2)) (Nat.le_add_right _ _)
  rw [output, if_pos h.needed, hrun _ (Nat.le_add_left _ _), Datagram.allFrames_take _
    (Nat.le_refl _)] at hout
  obtain rfl := Option.some.inj hout
  -- what a fragment behind the first one carries
  have hlater : ∀ k ≤ d.middles, piece pieces (k + 1) = load d.uip (d.begins k) (d.lengthOf k) ∧
      (UInt8.ofNat (d.begins k / 8)).toNat * 8 = d.uncompHdrLen.toNat + start pieces (k + 1) := by
    intro k hk
    obtain ⟨offset, hframe, hoffset⟩ := hpieces.later k (d.laterFrame header k) (by
      rw [List.getElem?_cons_succ, Datagram.laterFrames, List.getElem?_map,
        List.getElem?_range' (Nat.lt_succ_of_le hk), Option.map_some, Nat.zero_add, Nat.one_mul])
    have htail := (List.append_inj hframe hheader).2
    obtain ⟨rfl, hpiece⟩ := List.cons.inj htail
    exact ⟨hpiece.symm, hoffset⟩
  have hlength : pieces.length = d.middles + 2 := by
    rw [hpieces.length, List.length_cons, Datagram.laterFrames, List.length_map,
      List.length_range']
  have hstart : ∀ k ≤ d.middles + 1, start pieces (k + 1) + (d.uncompHdrLen.toNat + d.firstLen) =
      (piece pieces 0).length + d.place k := by
    intro k hk
    induction k with
    | zero =>
        have hzero : start pieces 0 = 0 := by rw [start, List.take_zero, List.flatten_nil,
          List.length_nil]
        rw [start_succ (by omega), hzero, Nat.zero_add, Datagram.place, if_pos (Nat.zero_le _),
          Datagram.begins, Nat.zero_mul, Nat.add_zero]
    | succ k ih =>
        have hle : k ≤ d.middles := Nat.le_of_succ_le_succ hk
        have hplace : d.place k = d.begins k := if_pos hle
        have hbefore := ih (Nat.le_of_succ_le hk)
        rw [start_succ (by omega), (hlater k hle).1, length_load, h.place_succ hle]
        omega
  -- the packet is complete, so that the first piece is as long as it should be
  have hfirst : (piece pieces 0).length = d.firstLen := by
    have hlt := h.firstLen_lt
    have hend : d.place (d.middles + 1) = d.uipLen.toNat := if_neg (Nat.not_succ_le_self _)
    have htotal : start pieces (d.middles + 1 + 1) = d.uipLen.toNat - d.uncompHdrLen.toNat := by
      rw [start, List.take_of_length_le hlength.le, (hpieces.complete rfl).1, Datagram.payload,
        length_load]
    have hall := hstart (d.middles + 1) (Nat.le_refl _)
    omega
  have hframe := congrArg List.length (hpieces.first d.firstFrame List.getElem?_cons_zero)
  have hdr := d.packetbufHdrLen.toNat_lt
  rw [Datagram.firstFrame, List.length_append, List.length_append, List.length_append, length_load,
    length_load, length_load, hfirst, UInt8.toNat_add] at hframe
  have hlast := (hlater d.middles (Nat.le_refl _)).2
  have hplace : d.place d.middles = d.begins d.middles := if_pos (Nat.le_refl _)
  have hbegins := hstart d.middles (Nat.le_succ _)
  rw [hplace] at hbegins
  obtain ⟨hdvd, hlt⟩ := offset_iff.1 (show _ = d.begins d.middles by omega)
  refine ⟨?_, ?_, hlt⟩
  · rw [Datagram.begins] at hdvd
    have hmul := h.dvd_unitLen.mul_left d.middles
    have hfirstLen := h.dvd_firstLen
    omega
  · have hheaders : (fragHeader 0xC0 d.uipLen.toNat d.myTag.toNat).length = 4 := rfl
    have hfour : (4 : UInt8).toNat = 4 := rfl
    rw [hheaders, hfour] at hframe
    have hlt : d.packetbufHdrLen.toNat < 252 := by omega
    exact hlt

/-- A packet of zeros, with headers of 40 bytes that are compressed to 7. -/
def zeros (uipLen : UInt16) : Datagram where
  uip := fun _ => 0
  uipLen := uipLen
  uncompHdrLen := 40
  packetbuf := fun _ => 0
  packetbufHdrLen := 7
  macMaxPayload := 102
  myTag := 0
  macMaxPayload_le := by decide

end Den2ne.Sicslowpan
