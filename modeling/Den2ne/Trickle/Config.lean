import Den2ne.Trickle.Timer

/-!
# The configuration of a trickle timer

The test of the pair compares `i_min` and `i_max` with half of the clock range, unless it shifts
by more than its type has bits. `max_imax` counts the leading zeros of `i_min - 1` by halving;
for 64 bits its first mask covers only bits 32 to 47, so that a number that has none of these
but higher ones loses them.
-/

namespace Den2ne

namespace Trickle

open Bits

/-- `i_min * 2^i_max` is at most half of the range of the clock. -/
def Fits (p : Platform) (iMin iMax : ℕ) : Prop := iMin * 2 ^ iMax ≤ (p.clockMax >>> 1) + 1

/-- None of the bits that the first mask of 64 bits covers is set, but one above them. -/
def Hole (v : ℕ) : Prop := v / 2 ^ 32 % 2 ^ 16 = 0 ∧ 2 ^ 48 ≤ v

/-- The stored maximum is the requested one if that fits, and else the largest that does; the
longest interval is the smallest one doubled so often. -/
structure ConfigRight (p : Platform) (iMin iMax : ℕ) (tt : TrickleTimer) : Prop where
  requested : Fits p iMin iMax → tt.iMax = iMax
  largest : ¬ Fits p iMin iMax → Fits p iMin tt.iMax ∧ ∀ m, Fits p iMin m → m ≤ tt.iMax
  longest : tt.iMaxAbs = iMin * 2 ^ tt.iMax

/-- The pair fits, or the test finds that it does not, without a shift that is too wide or by
what such a shift happens to give, and `max_imax` counts the zeros. -/
def Handled (p : Platform) (iMin iMax : ℕ) : Prop :=
  Fits p iMin iMax ∨
    ((iMax + 1 < p.shiftBits ∨ p.wideShr (iMax + 1) < iMin - 1) ∧
      (p.width = .w64 → ¬ Hole (iMin - 1)))

variable {p : Platform} {w : ClockWidth} {bits i j mask zeros value v z iMin iMax k m : ℕ}
  {tt tt₀ : TrickleTimer}

/-! ## The numbers of a width -/

theorem ClockWidth.bits_pos (w : ClockWidth) : 16 ≤ w.bits ∧ w.bits ≤ 64 := by
  cases w <;> exact ⟨by decide, by decide⟩

theorem two_pow_sub_one_shiftRight (b n : ℕ) : (2 ^ b - 1) >>> n = 2 ^ (b - n) - 1 := by
  rw [Nat.shiftRight_eq_div_pow]
  by_cases hn : n ≤ b
  · have hsplit : 2 ^ b = 2 ^ n * 2 ^ (b - n) := by
      rw [← Nat.pow_add, Nat.add_sub_cancel' hn]
    have hpos := Nat.two_pow_pos n
    have hrest : 2 ^ b - 1 = (2 ^ n - 1) + 2 ^ n * (2 ^ (b - n) - 1) := by
      rw [Nat.mul_sub_one, hsplit]
      have hle := Nat.le_mul_of_pos_right (2 ^ n) (Nat.two_pow_pos (b - n))
      omega
    rw [hrest, Nat.add_mul_div_left _ _ hpos, Nat.div_eq_of_lt (by omega), Nat.zero_add]
  · have hlt : 2 ^ b < 2 ^ n := Nat.pow_lt_pow_right (by decide) (by omega)
    have hpos := Nat.two_pow_pos b
    have hzero : b - n = 0 := by omega
    rw [Nat.div_eq_of_lt (by omega), hzero]
    rfl

theorem half_clockMax (p : Platform) : (p.clockMax >>> 1) + 1 = 2 ^ (p.width.bits - 1) := by
  rw [Platform.clockMax, Platform.modulus, two_pow_sub_one_shiftRight,
    Nat.sub_add_cancel (Nat.two_pow_pos _)]

theorem half_lt_modulus (p : Platform) : 2 ^ (p.width.bits - 1) < p.modulus := by
  have hbits := p.width.bits_pos
  exact Nat.pow_lt_pow_right (by decide) (by omega)

/-- A number that is not zero has leading zeros. -/
theorem exists_hasLeading (hv : 0 < v) (hlt : v < 2 ^ bits) : ∃ z, HasLeading bits v z := by
  have hlog : v.log2 < bits := (Nat.log2_lt hv.ne').2 hlt
  refine ⟨bits - 1 - v.log2, ?_, ?_⟩
  · have heq : bits - 1 - (bits - 1 - v.log2) = v.log2 := by omega
    rw [heq]
    exact Nat.log2_self_le hv.ne'
  · have heq : bits - (bits - 1 - v.log2) = v.log2 + 1 := by omega
    rw [heq]
    exact Nat.lt_log2_self

/-- Which pairs fit, by the leading zeros of `iMin - 1`. -/
theorem fits_iff (h : HasLeading p.width.bits (iMin - 1) z) (hmin : 0 < iMin) :
    Fits p iMin m ↔ m < z := by
  have hsucc : iMin - 1 + 1 = iMin := Nat.sub_add_cancel hmin
  rw [Fits, half_clockMax, ← hsucc]
  exact h.mul_two_pow_le_iff

/-! ## `max_imax` -/

theorem maxImaxLoop_zero (bits mask zeros value : ℕ) :
    maxImaxLoop bits 0 mask zeros value = zeros := by
  rw [maxImaxLoop, if_pos rfl]

/-- The loop adds the leading zeros, if they are less than twice the bits that it begins with. -/
theorem maxImaxLoop_eq (bits j mask zeros value : ℕ) (hbits : 2 ^ (j + 1) ≤ bits)
    (hmask : mask <<< 2 ^ j % 2 ^ bits = highMask bits (2 ^ j))
    (hlow : 2 ^ (bits - 2 ^ (j + 1)) ≤ value) (hvalue : value < 2 ^ bits)
    (hzeros : zeros + 2 ^ (j + 1) ≤ 256) :
    ∃ z, maxImaxLoop bits (2 ^ j) mask zeros value = zeros + z ∧ HasLeading bits value z := by
  induction j generalizing mask zeros value with
  | zero =>
      have hhalf : 2 ^ 0 / 2 = 0 := by decide
      have hone : 2 ^ 0 ≤ bits := by omega
      rw [maxImaxLoop, if_neg (by decide), hmask, hhalf]
      simp only [land_highMask_eq_zero hvalue hone]
      split
      · rename_i hlt
        rw [maxImaxLoop_zero, Nat.mod_eq_of_lt (by omega)]
        exact ⟨1, rfl, hlow, hlt⟩
      · rename_i hge
        rw [maxImaxLoop_zero]
        exact ⟨0, rfl, Nat.not_lt.1 hge, hvalue⟩
  | succ j ih =>
      have hpos := Nat.two_pow_pos (j + 1)
      have hdouble : 2 ^ (j + 1 + 1) = 2 ^ (j + 1) + 2 ^ (j + 1) := by
        rw [Nat.pow_succ, Nat.mul_two]
      have hhalf : 2 ^ (j + 1) / 2 = 2 ^ j := by
        rw [Nat.pow_succ, Nat.mul_div_cancel _ (by decide)]
      have hnext : highMask bits (2 ^ (j + 1)) <<< 2 ^ j % 2 ^ bits = highMask bits (2 ^ j) := by
        have hsum : 2 ^ (j + 1) = 2 ^ j + 2 ^ j := by rw [Nat.pow_succ, Nat.mul_two]
        rw [hsum]
        exact highMask_shiftLeft (by omega)
      rw [maxImaxLoop, if_neg hpos.ne', hmask, hhalf]
      simp only [land_highMask_eq_zero hvalue (by omega : 2 ^ (j + 1) ≤ bits)]
      split
      · rename_i hlt
        have hshift : value <<< 2 ^ (j + 1) % 2 ^ bits = value * 2 ^ 2 ^ (j + 1) := by
          rw [Nat.shiftLeft_eq, Nat.mod_eq_of_lt]
          have hpow : 2 ^ bits = 2 ^ (bits - 2 ^ (j + 1)) * 2 ^ 2 ^ (j + 1) := by
            rw [← Nat.pow_add, Nat.sub_add_cancel (by omega)]
          rw [hpow]
          exact Nat.mul_lt_mul_of_pos_right hlt (Nat.two_pow_pos _)
        have hfit : value * 2 ^ 2 ^ (j + 1) < 2 ^ bits := by
          rw [← hshift]
          exact Nat.mod_lt _ (Nat.two_pow_pos _)
        have hlarge : 2 ^ (bits - 2 ^ (j + 1)) ≤ value * 2 ^ 2 ^ (j + 1) := by
          have hpow : 2 ^ (bits - 2 ^ (j + 1)) = 2 ^ (bits - 2 ^ (j + 1 + 1)) * 2 ^ 2 ^ (j + 1) := by
            rw [← Nat.pow_add]
            exact congrArg (2 ^ ·) (by omega)
          rw [hpow]
          exact Nat.mul_le_mul_right _ hlow
        rw [hshift, Nat.mod_eq_of_lt (by omega : zeros + 2 ^ (j + 1) < 256)]
        obtain ⟨z, hloop, hz⟩ := ih _ _ _ (by omega) hnext hlarge hfit
          (by omega : zeros + 2 ^ (j + 1) + 2 ^ (j + 1) ≤ 256)
        have hvpos : 0 < value := Nat.lt_of_lt_of_le (Nat.two_pow_pos _) hlow
        exact ⟨2 ^ (j + 1) + z, by rw [hloop, Nat.add_assoc], hz.of_shift hvpos⟩
      · rename_i hge
        exact ih _ _ _ (by omega) hnext (Nat.not_lt.1 hge) hvalue (by omega)

theorem value_maxImax (hmin : 0 < iMin) (hlt : iMin < 2 ^ bits) :
    (iMin + (2 ^ bits - 1)) % 2 ^ bits = iMin - 1 := by
  have hsum : iMin + (2 ^ bits - 1) = iMin - 1 + 2 ^ bits := by omega
  rw [hsum, Nat.add_mod_right, Nat.mod_eq_of_lt (by omega)]

/-- The first turn of the loop for 64 bits. -/
theorem maxImaxLoop_w64 (value : ℕ) : maxImaxLoop 64 32 0xFFFF 0 value =
    if value / 2 ^ 32 % 2 ^ 16 = 0 then
      maxImaxLoop 64 16 (0xFFFF <<< 32) 32 (value <<< 32 % 2 ^ 64)
    else maxImaxLoop 64 16 (0xFFFF <<< 32) 0 value := by
  have hmask : (0xFFFF : ℕ) <<< 32 = (2 ^ 16 - 1) * 2 ^ 32 := by decide
  have hmod : (0xFFFF : ℕ) <<< 32 % 2 ^ 64 = 0xFFFF <<< 32 := by decide
  rw [maxImaxLoop, if_neg (by decide), hmod]
  refine if_congr ?_ rfl rfl
  rw [hmask]
  exact land_mask_eq_zero value 16 32

/-- Except for the hole, the loop counts the leading zeros. -/
theorem maxImaxLoop_of_not_hole (hpos : 0 < v) (hlt : v < 2 ^ w.bits)
    (hhole : w = .w64 → ¬ Hole v) :
    HasLeading w.bits v (maxImaxLoop w.bits (w.size * 4) 0xFFFF 0 v) := by
  have hfull : ∀ n, 2 ^ (n - n) ≤ v := by
    intro n
    rw [Nat.sub_self]
    exact hpos
  cases w with
  | w16 =>
      obtain ⟨z, hloop, hz⟩ := maxImaxLoop_eq 16 3 0xFFFF 0 v
        (by decide) (by decide) (hfull 16) hlt (by decide)
      rw [Nat.zero_add] at hloop
      exact hloop.symm ▸ hz
  | w32 =>
      obtain ⟨z, hloop, hz⟩ := maxImaxLoop_eq 32 4 0xFFFF 0 v
        (by decide) (by decide) (hfull 32) hlt (by decide)
      rw [Nat.zero_add] at hloop
      exact hloop.symm ▸ hz
  | w64 =>
      have hlt : v < 2 ^ 64 := hlt
      change HasLeading 64 v (maxImaxLoop 64 32 0xFFFF 0 v)
      rw [maxImaxLoop_w64]
      split
      · rename_i hbits
        have hsmall : v < 2 ^ 48 := Nat.not_le.1 fun h => hhole rfl ⟨hbits, h⟩
        have hlow : v < 2 ^ 32 := by omega
        have hshift : v <<< 32 % 2 ^ 64 = v * 2 ^ 32 := by
          rw [Nat.shiftLeft_eq, Nat.mod_eq_of_lt (by omega)]
        rw [hshift]
        obtain ⟨z, hloop, hz⟩ := maxImaxLoop_eq 64 4 (0xFFFF <<< 32) 32 (v * 2 ^ 32)
          (by decide) (by decide) (by omega) (by omega) (by decide)
        exact hloop.symm ▸ hz.of_shift hpos
      · rename_i hbits
        obtain ⟨z, hloop, hz⟩ := maxImaxLoop_eq 64 4 (0xFFFF <<< 32) 0 v
          (by decide) (by decide) (by omega) hlt (by decide)
        rw [Nat.zero_add] at hloop
        exact hloop.symm ▸ hz

/-- Whatever the masks are, the loop adds less than twice the bits that it begins with. -/
theorem maxImaxLoop_bounds (bits j mask zeros value : ℕ) (hzeros : zeros + 2 ^ (j + 1) ≤ 256) :
    zeros ≤ maxImaxLoop bits (2 ^ j) mask zeros value ∧
      maxImaxLoop bits (2 ^ j) mask zeros value < zeros + 2 ^ (j + 1) := by
  induction j generalizing mask zeros value with
  | zero =>
      have hhalf : 2 ^ 0 / 2 = 0 := by decide
      rw [maxImaxLoop, if_neg (by decide), hhalf]
      simp only [maxImaxLoop_zero]
      split
      · rw [Nat.mod_eq_of_lt (by omega)]
        omega
      · omega
  | succ j ih =>
      have hpos := Nat.two_pow_pos (j + 1)
      have hdouble : 2 ^ (j + 1 + 1) = 2 ^ (j + 1) + 2 ^ (j + 1) := by
        rw [Nat.pow_succ, Nat.mul_two]
      have hhalf : 2 ^ (j + 1) / 2 = 2 ^ j := by
        rw [Nat.pow_succ, Nat.mul_div_cancel _ (by decide)]
      rw [maxImaxLoop, if_neg hpos.ne', hhalf]
      dsimp only
      split
      · rw [Nat.mod_eq_of_lt (by omega : zeros + 2 ^ (j + 1) < 256)]
        have hrest := ih (mask <<< 2 ^ (j + 1) % 2 ^ bits) (zeros + 2 ^ (j + 1))
          (value <<< 2 ^ (j + 1) % 2 ^ bits) (by omega)
        omega
      · have hrest := ih (mask <<< 2 ^ (j + 1) % 2 ^ bits) zeros value (by omega)
        omega

/-- In the hole the upper 32 bits count as zeros. -/
theorem le_maxImax_of_hole (hmin : 0 < iMin) (hlt : iMin < 2 ^ 64) (hhole : Hole (iMin - 1)) :
    31 ≤ maxImax .w64 iMin := by
  have hloop : maxImaxLoop 64 32 0xFFFF 0 (iMin - 1) =
      maxImaxLoop 64 (2 ^ 4) (0xFFFF <<< 32) 32 ((iMin - 1) <<< 32 % 2 ^ 64) := by
    rw [maxImaxLoop_w64, if_pos hhole.1]
    rfl
  have hbounds := maxImaxLoop_bounds 64 4 (0xFFFF <<< 32) 32 ((iMin - 1) <<< 32 % 2 ^ 64)
    (by decide)
  rw [← hloop] at hbounds
  have hvalue : (iMin + (2 ^ 64 - 1)) % 2 ^ 64 = iMin - 1 := value_maxImax hmin hlt
  change 31 ≤ (maxImaxLoop 64 32 0xFFFF 0 ((iMin + (2 ^ 64 - 1)) % 2 ^ 64) + 255) % 256
  rw [hvalue]
  omega

/-- Except for the hole, one more than the result is the number of leading zeros. -/
theorem hasLeading_maxImax (hmin : 1 < iMin) (hlt : iMin ≤ 2 ^ (w.bits - 1))
    (hhole : w = .w64 → ¬ Hole (iMin - 1)) :
    HasLeading w.bits (iMin - 1) (maxImax w iMin + 1) := by
  have hbits := w.bits_pos
  have hhalf : 2 ^ (w.bits - 1) < 2 ^ w.bits := Nat.pow_lt_pow_right (by decide) (by omega)
  have hloop := maxImaxLoop_of_not_hole (by omega) (by omega) hhole
  have hwidth := hloop.lt_width
  have hpos : maxImaxLoop w.bits (w.size * 4) 0xFFFF 0 (iMin - 1) ≠ 0 := by
    intro hzero
    have hle := hloop.le
    rw [hzero, Nat.sub_zero] at hle
    omega
  have heq : maxImax w iMin + 1 = maxImaxLoop w.bits (w.size * 4) 0xFFFF 0 (iMin - 1) := by
    rw [maxImax, value_maxImax (by omega) (by omega)]
    omega
  exact heq ▸ hloop

/-! ## `trickle_timer_config` -/

theorem iminIsBad_eq_false_iff :
    iminIsBad p iMin = false ↔ 1 < iMin ∧ iMin < 2 ^ (p.width.bits - 1) := by
  have hhalf := half_clockMax p
  simp only [iminIsBad, Bool.or_eq_false_iff, decide_eq_false_iff_not]
  omega

/-- With few enough bits to shift by, the test says whether the pair fits. -/
theorem ipairIsBad_iff (hshift : iMax + 1 < p.shiftBits)
    (h : HasLeading p.width.bits (iMin - 1) z) (hmin : 0 < iMin) :
    ipairIsBad p iMin iMax = true ↔ ¬ Fits p iMin iMax := by
  have hz := h.lt_width
  rw [ipairIsBad, decide_eq_true_iff, Platform.clockMaxShr, if_pos hshift, Platform.clockMax,
    Platform.modulus, two_pow_sub_one_shiftRight, fits_iff h hmin]
  have hpos := Nat.two_pow_pos (p.width.bits - (iMax + 1))
  constructor
  · intro hbad hlt
    have hle : 2 ^ (p.width.bits - z) ≤ 2 ^ (p.width.bits - (iMax + 1)) :=
      Nat.pow_le_pow_right (by decide) (by omega)
    have := h.lt
    omega
  · intro hge
    have hle : 2 ^ (p.width.bits - (iMax + 1)) ≤ 2 ^ (p.width.bits - 1 - z) :=
      Nat.pow_le_pow_right (by decide) (by omega)
    have := h.le
    omega

/-- A pair that fits passes the test. -/
theorem ipairIsBad_of_fits (h : HasLeading p.width.bits (iMin - 1) z) (hmin : 0 < iMin)
    (hfits : Fits p iMin iMax) : ipairIsBad p iMin iMax = false := by
  have hz := h.lt_width
  have hbits := p.bits_le
  have hlt := (fits_iff h hmin).1 hfits
  have hshift : iMax + 1 < p.shiftBits := by omega
  have hiff := ipairIsBad_iff hshift h hmin
  rw [← Bool.not_eq_true, hiff]
  exact not_not.2 hfits

/-- When the test finds a pair that does not fit. -/
theorem ipairIsBad_iff_of_not_fits (h : HasLeading p.width.bits (iMin - 1) z) (hmin : 0 < iMin)
    (hfits : ¬ Fits p iMin iMax) :
    ipairIsBad p iMin iMax = true ↔
      iMax + 1 < p.shiftBits ∨ p.wideShr (iMax + 1) < iMin - 1 := by
  by_cases hshift : iMax + 1 < p.shiftBits
  · exact iff_of_true ((ipairIsBad_iff hshift h hmin).2 hfits) (.inl hshift)
  · rw [ipairIsBad, decide_eq_true_iff, Platform.clockMaxShr, if_neg hshift]
    exact (or_iff_right hshift).symm

/-- What a configuration that succeeds stores. -/
theorem config_eq_some (h : trickleTimerConfig p iMin iMax k tt₀ = some tt) :
    1 < iMin ∧ iMin < 2 ^ (p.width.bits - 1) ∧ tt =
      { tt₀ with
        iMin := iMin
        iMax := if ipairIsBad p iMin iMax then maxImax p.width iMin else iMax
        iMaxAbs := p.shl iMin (if ipairIsBad p iMin iMax then maxImax p.width iMin else iMax)
        k := k
        iCur := 0
        cb := false } := by
  unfold trickleTimerConfig at h
  split at h
  · cases h
  · rename_i hmin
    split at h
    · cases h
    · obtain ⟨hlow, hhigh⟩ := iminIsBad_eq_false_iff.1 (Bool.not_eq_true _ ▸ hmin)
      exact ⟨hlow, hhigh, (Option.some.inj h).symm⟩

/-- What fits is shifted without overflow. -/
theorem shl_of_fits (h : HasLeading p.width.bits (iMin - 1) z) (hmin : 0 < iMin)
    (hfits : Fits p iMin m) : p.shl iMin m = iMin * 2 ^ m := by
  have hz := h.lt_width
  have hbits := p.bits_le
  have hm := (fits_iff h hmin).1 hfits
  have hhalf := half_lt_modulus p
  rw [Fits, half_clockMax] at hfits
  rw [Platform.shl, if_pos (by omega), Nat.shiftLeft_eq, Nat.mod_eq_of_lt (by omega)]

/-- The stored values are right exactly if the pair is handled. -/
theorem configRight_iff (h : trickleTimerConfig p iMin iMax k tt₀ = some tt) :
    ConfigRight p iMin iMax tt ↔ Handled p iMin iMax := by
  obtain ⟨hlow, hhigh, rfl⟩ := config_eq_some h
  have hhalf := half_lt_modulus p
  rw [Platform.modulus] at hhalf
  have hlead : iMin - 1 < 2 ^ p.width.bits := by omega
  obtain ⟨z, hz⟩ := exists_hasLeading (by omega) hlead
  by_cases hfits : Fits p iMin iMax
  · refine iff_of_true ?_ (.inl hfits)
    have hbad := ipairIsBad_of_fits hz (by omega) hfits
    simp only [hbad, Bool.false_eq_true, if_false]
    exact ⟨fun _ => rfl, fun hnot => absurd hfits hnot, shl_of_fits hz (by omega) hfits⟩
  · have htest := ipairIsBad_iff_of_not_fits hz (by omega) hfits
    rw [Handled, or_iff_right hfits, ← htest]
    by_cases hbad : ipairIsBad p iMin iMax = true
    · simp only [hbad, if_true, true_and]
      constructor
      · intro hright hwide hhole
        have hlarge := (hright.largest hfits).1
        have hle : 31 ≤ maxImax p.width iMin := by
          have hnum : (2 : ℕ) ^ (ClockWidth.w64.bits - 1) < 2 ^ 64 := by decide
          rw [hwide] at hhigh ⊢
          exact le_maxImax_of_hole (by omega) (by omega) hhole
        have hfit : iMin * 2 ^ maxImax p.width iMin ≤ (p.clockMax >>> 1) + 1 := hlarge
        rw [half_clockMax, hwide] at hfit
        have hpow : 2 ^ 31 ≤ 2 ^ maxImax ClockWidth.w64 iMin :=
          Nat.pow_le_pow_right (by decide) (hwide ▸ hle)
        have hhigh := hhole.2
        have hprod : (2 ^ 48 + 1) * 2 ^ 31 ≤ iMin * 2 ^ maxImax ClockWidth.w64 iMin :=
          Nat.mul_le_mul (by omega) hpow
        have hnum : (2 : ℕ) ^ (ClockWidth.w64.bits - 1) < (2 ^ 48 + 1) * 2 ^ 31 := by decide
        omega
      · intro hhole
        have hlead := hasLeading_maxImax hlow (Nat.le_of_lt hhigh) hhole
        have hfit : Fits p iMin (maxImax p.width iMin) :=
          (fits_iff hlead (by omega)).2 (Nat.lt_succ_self _)
        refine ⟨fun hnot => absurd hnot hfits, fun _ => ⟨hfit, fun m hm => ?_⟩,
          shl_of_fits hz (by omega) hfit⟩
        exact Nat.le_of_lt_succ ((fits_iff hlead (by omega)).1 hm)
    · rw [iff_false_right (fun hboth => hbad hboth.1)]
      intro hright
      have hlarge := (hright.largest hfits).1
      simp only [hbad, Bool.false_eq_true, if_false] at hlarge
      exact hfits hlarge

end Trickle

end Den2ne
