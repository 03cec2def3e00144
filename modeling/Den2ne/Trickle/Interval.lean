import Den2ne.Transition.Run
import Den2ne.Trickle.Config

/-!
# The intervals of a trickle timer

While a timer runs, its interval lies between the smallest and the longest one, and the point
drawn in it lies in its second half. `Ranged` is that as an invariant of every function of the
library, `Scheduled` says what the `ctimer` is set for: the point in the interval, or its end,
and at once if that is in the past already.
-/

namespace Den2ne

namespace Trickle

open Transition

variable {p : Platform} {lo hi now r r' : ℕ} {tt tt' : TrickleTimer}

/-- The `ctimer` expires at `time`; at once if that lies in the half of the clock range before the
time at which it was set. -/
def Ctimer.Due (p : Platform) (ct : Ctimer) (time : ℕ) : Prop :=
  p.add ct.start ct.interval = time ∨
    (ct.interval = 0 ∧ p.clockMax >>> 1 < p.sub time ct.start)

/-- The `ctimer` is set for the point of the interval or for its end. -/
def Scheduled (p : Platform) (tt : TrickleTimer) : Prop :=
  ∃ ct, tt.ct = some ct ∧ ct.Due p (p.add tt.iStart
    (match ct.callback with
      | .fire => tt.offset
      | .doubleInterval => tt.iCur))

/-- A timer that runs as it should: the interval is in its range, the point of the interval is in
its second half, and the `ctimer` is set for that point or for the end of the interval. -/
structure Paced (p : Platform) (lo hi : ℕ) (tt : TrickleTimer) : Prop where
  min_le : lo ≤ tt.iCur
  le_max : tt.iCur ≤ hi
  half_le : tt.iCur / 2 ≤ tt.offset
  offset_lt : tt.offset < tt.iCur
  scheduled : Scheduled p tt

/-- The bounds of the timer, and of the interval while it runs. -/
structure Ranged (p : Platform) (lo hi : ℕ) (tt : TrickleTimer) : Prop where
  two_le : 2 ≤ lo
  lo_le : lo ≤ hi
  hi_le : hi ≤ (p.clockMax >>> 1) + 1
  iMin_eq : tt.iMin = lo
  iMaxAbs_eq : tt.iMaxAbs = hi
  iStart_lt : isRunning tt = true → tt.iStart < p.modulus
  interval : isRunning tt = true → lo ≤ tt.iCur ∧ tt.iCur ≤ hi
  offset : isRunning tt = true → tt.iCur / 2 ≤ tt.offset ∧ tt.offset < tt.iCur

/-- A timer that does not run has no `ctimer` set. -/
def Idle (tt : TrickleTimer) : Prop := isRunning tt = false → tt.ct = none

/-- The invariant between the events. -/
structure Inv (p : Platform) (lo hi : ℕ) (tt : TrickleTimer) : Prop where
  ranged : Ranged p lo hi tt
  idle : Idle tt
  scheduled : isRunning tt = true → Scheduled p tt

/-! ## Arithmetic of the clock -/

theorem modulus_pos (p : Platform) : 0 < p.modulus := Nat.two_pow_pos _

theorem clockTime_lt (p : Platform) (now : ℕ) : p.clockTime now < p.modulus :=
  Nat.mod_lt _ (modulus_pos p)

theorem add_lt (p : Platform) (x y : ℕ) : p.add x y < p.modulus := Nat.mod_lt _ (modulus_pos p)

theorem half_succ_lt (p : Platform) : (p.clockMax >>> 1) + 1 < p.modulus := by
  rw [half_clockMax]
  exact half_lt_modulus p

theorem add_of_lt {x y : ℕ} (h : x + y < p.modulus) : p.add x y = x + y := Nat.mod_eq_of_lt h

theorem sub_of_le {x y : ℕ} (hx : x < p.modulus) (h : y ≤ x) : p.sub x y = x - y := by
  have hsum : x + (p.modulus - y) = x - y + p.modulus := by omega
  rw [Platform.sub, Nat.mod_eq_of_lt (Nat.lt_of_le_of_lt h hx), hsum, Nat.add_mod_right,
    Nat.mod_eq_of_lt (by omega)]

/-- What is added to a difference gives back the time. -/
theorem add_sub {x y : ℕ} (hx : x < p.modulus) (hy : y < p.modulus) : p.add y (p.sub x y) = x := by
  have hsum : y + (x + (p.modulus - y)) = x + p.modulus := by omega
  rw [Platform.add, Platform.sub, Nat.mod_eq_of_lt hy, Nat.add_mod_mod, hsum, Nat.add_mod_right,
    Nat.mod_eq_of_lt hx]

/-- The `ctimer` is set for the time that remains. -/
theorem due_remaining {time start : ℕ} (c : Callback) (htime : time < p.modulus)
    (hstart : start < p.modulus) : (⟨c, start, remaining p time start⟩ : Ctimer).Due p time := by
  rw [Ctimer.Due, remaining]
  split
  · rename_i hpast
    exact .inr ⟨rfl, hpast⟩
  · exact .inl (add_sub htime hstart)

/-- The point that is drawn lies in the second half of the interval. -/
theorem getT_range {i : ℕ} (r : ℕ) (hlow : 2 ≤ i) (hhigh : i < p.modulus) :
    i / 2 ≤ getT p i r ∧ getT p i r < i := by
  have hmod := Nat.mod_lt r (by omega : 0 < i / 2)
  rw [getT, Nat.shiftRight_one, add_of_lt (by omega)]
  omega

/-! ## The functions of the library -/

theorem isRunning_iff : isRunning tt = true ↔ tt.iCur ≠ 0 := by
  rw [isRunning, bne_iff_ne]

theorem Ranged.lt_modulus (h : Ranged p lo hi tt) : hi < p.modulus :=
  Nat.lt_of_le_of_lt h.hi_le (half_succ_lt p)

/-- An interval in the range, with a point drawn in it. -/
theorem Ranged.of_draw (h : Ranged p lo hi tt) (hmin : tt'.iMin = tt.iMin)
    (hmax : tt'.iMaxAbs = tt.iMaxAbs) (hstart : tt'.iStart < p.modulus)
    (hinterval : lo ≤ tt'.iCur ∧ tt'.iCur ≤ hi) (hoffset : tt'.offset = getT p tt'.iCur r) :
    Ranged p lo hi tt' where
  two_le := h.two_le
  lo_le := h.lo_le
  hi_le := h.hi_le
  iMin_eq := hmin.trans h.iMin_eq
  iMaxAbs_eq := hmax.trans h.iMaxAbs_eq
  iStart_lt _ := hstart
  interval _ := hinterval
  offset _ := by
    have htwo := h.two_le
    have hlt := h.lt_modulus
    rw [hoffset]
    exact getT_range r (by omega) (by omega)

theorem inv_newInterval (h : Ranged p lo hi tt) (now r : ℕ) {i : ℕ} (hmin : lo ≤ i)
    (hmax : i ≤ hi) (cb : Bool) :
    Inv p lo hi (newInterval p now r { tt with cb := cb, iCur := i }) where
  ranged := h.of_draw rfl rfl (clockTime_lt p now) ⟨hmin, hmax⟩ rfl
  idle hstopped := by
    have hzero : i ≠ 0 := by
      have htwo := h.two_le
      omega
    exact absurd hstopped (Bool.not_eq_false _ ▸ isRunning_iff.2 hzero)
  scheduled _ := ⟨_, rfl, .inl rfl⟩

/-- Only the counter is changed. -/
theorem Ranged.set_c (h : Ranged p lo hi tt) (c : ℕ) : Ranged p lo hi { tt with c := c } :=
  ⟨h.two_le, h.lo_le, h.hi_le, h.iMin_eq, h.iMaxAbs_eq, h.iStart_lt, h.interval, h.offset⟩

theorem Ranged.clear_ct (h : Ranged p lo hi tt) : Ranged p lo hi { tt with ct := none } :=
  ⟨h.two_le, h.lo_le, h.hi_le, h.iMin_eq, h.iMaxAbs_eq, h.iStart_lt, h.interval, h.offset⟩

/-- A stopped timer keeps its bounds. -/
theorem Ranged.inv_of_stopped (h : Ranged p lo hi tt) (hcur : tt'.iCur = 0) (hct : tt'.ct = none)
    (hmin : tt'.iMin = tt.iMin) (hmax : tt'.iMaxAbs = tt.iMaxAbs) : Inv p lo hi tt' := by
  have hstopped : ∀ {q : Prop}, isRunning tt' = true → q := fun hrun =>
    absurd hcur (isRunning_iff.1 hrun)
  exact ⟨⟨h.two_le, h.lo_le, h.hi_le, hmin.trans h.iMin_eq, hmax.trans h.iMaxAbs_eq, hstopped,
    hstopped, hstopped⟩, fun _ => hct, hstopped⟩

/-- What `trickle_timer_set` draws lies in the range. -/
theorem draw_range (h : Ranged p lo hi tt) (r : ℕ) :
    lo ≤ p.add tt.iMin (r % p.add (p.sub tt.iMaxAbs tt.iMin) 1) ∧
      p.add tt.iMin (r % p.add (p.sub tt.iMaxAbs tt.iMin) 1) ≤ hi := by
  have htwo := h.two_le
  have hle := h.lo_le
  have hlt := h.lt_modulus
  rw [h.iMin_eq, h.iMaxAbs_eq, sub_of_le hlt hle, add_of_lt (by omega : hi - lo + 1 < p.modulus)]
  have hmod := Nat.mod_lt r (by omega : 0 < hi - lo + 1)
  rw [add_of_lt (by omega)]
  omega

/-- A call leaves the timer as it should be, or changes nothing but the counter. -/
theorem call_cases (h : Ranged p lo hi tt) (c : Call) :
    Inv p lo hi (call p c tt) ∨ ∃ n, call p c tt = { tt with c := n } := by
  cases c with
  | set protoCb now r r' =>
      simp only [call, trickleTimerSet]
      split
      · exact .inr ⟨tt.c, rfl⟩
      · exact .inl (inv_newInterval h now r' (draw_range h r).1 (draw_range h r).2 true)
  | stop => exact .inl (h.inv_of_stopped rfl rfl rfl rfl)
  | consistency =>
      simp only [call, trickleTimerConsistency]
      split
      · exact .inr ⟨tt.c, rfl⟩
      · split
        · exact .inr ⟨_, rfl⟩
        · exact .inr ⟨tt.c, rfl⟩
  | inconsistency now r =>
      simp only [call, trickleTimerInconsistency]
      split
      · exact .inr ⟨tt.c, rfl⟩
      · split
        · have hmin := h.iMin_eq
          exact .inl (inv_newInterval h now r (Nat.le_of_eq hmin.symm) (hmin ▸ h.lo_le) tt.cb)
        · exact .inr ⟨tt.c, rfl⟩

theorem inv_call (h : Inv p lo hi tt) (c : Call) : Inv p lo hi (call p c tt) := by
  rcases call_cases h.ranged c with hinv | ⟨n, heq⟩
  · exact hinv
  · rw [heq]
    exact ⟨h.ranged.set_c n, h.idle, h.scheduled⟩

/-- The calls from the callback, while no `ctimer` is set. -/
theorem ranged_calls (h : Ranged p lo hi tt) (hidle : Idle tt) (calls : List Call) :
    Ranged p lo hi (calls.foldl (fun tt c => call p c tt) tt) ∧
      Idle (calls.foldl (fun tt c => call p c tt) tt) := by
  induction calls generalizing tt with
  | nil => exact ⟨h, hidle⟩
  | cons c calls ih =>
      rcases call_cases h c with hinv | ⟨n, heq⟩
      · exact ih hinv.ranged hinv.idle
      · rw [List.foldl_cons, heq]
        exact ih (h.set_c n) hidle

theorem inv_scheduleForEnd (h : Ranged p lo hi tt) (hrun : isRunning tt = true) (now : ℕ) :
    Inv p lo hi (scheduleForEnd p now tt) where
  ranged := ⟨h.two_le, h.lo_le, h.hi_le, h.iMin_eq, h.iMaxAbs_eq, h.iStart_lt, h.interval,
    h.offset⟩
  idle hstopped := absurd hrun (Bool.not_eq_true _ ▸ hstopped)
  scheduled _ := ⟨_, rfl, due_remaining _ (add_lt p _ _) (clockTime_lt p now)⟩

theorem inv_fire (h : Ranged p lo hi tt) (hidle : Idle tt) (now : ℕ) (calls : Bool → List Call) :
    Inv p lo hi (fire p now calls tt) := by
  have hcalls : ∀ tt', Ranged p lo hi tt' ∧ Idle tt' →
      Inv p lo hi (if isRunning tt' then scheduleForEnd p now tt' else tt') := by
    rintro tt' ⟨hranged, hidle⟩
    split
    · rename_i hrun
      exact inv_scheduleForEnd hranged hrun now
    · rename_i hrun
      exact ⟨hranged, hidle, fun h => absurd h hrun⟩
  rw [fire]
  refine hcalls _ ?_
  split
  · exact ranged_calls h hidle _
  · exact ⟨h, hidle⟩

theorem doubled_range (h : Ranged p lo hi tt) (hrun : isRunning tt = true) :
    lo ≤ doubled p tt ∧ doubled p tt ≤ hi := by
  obtain ⟨hmin, hmax⟩ := h.interval hrun
  have hlt := h.lt_modulus
  have hle := h.lo_le
  have hbits := p.width.bits_pos
  have hshift := p.bits_le
  rw [doubled, h.iMaxAbs_eq, Nat.shiftRight_one]
  split
  · rw [Platform.shl, if_pos (by omega), Nat.shiftLeft_eq, Nat.mod_eq_of_lt (by omega)]
    omega
  · exact ⟨hle, Nat.le_refl hi⟩

theorem inv_doubleInterval (h : Ranged p lo hi tt) (hrun : isRunning tt = true) (now r : ℕ) :
    Inv p lo hi (doubleInterval p now r tt) := by
  have hrange := doubled_range h hrun
  have hzero : doubled p tt ≠ 0 := by
    have htwo := h.two_le
    omega
  have hidle : ∀ {tt' : TrickleTimer}, tt'.iCur = doubled p tt → Idle tt' := fun heq hstopped =>
    absurd hstopped (Bool.not_eq_false _ ▸ isRunning_iff.2 (heq ▸ hzero))
  unfold doubleInterval
  dsimp only
  split
  · exact ⟨h.of_draw rfl rfl (add_lt p _ _) hrange rfl, hidle rfl,
      fun _ => ⟨_, rfl, due_remaining _ (add_lt p _ _) (clockTime_lt p now)⟩⟩
  · exact ⟨h.of_draw rfl rfl (clockTime_lt p now) hrange rfl, hidle rfl,
      fun _ => ⟨_, rfl, .inl rfl⟩⟩

/-! ## Runs -/

/-- Every event keeps the invariant. -/
theorem inv_step (e : Event) (h : Inv p lo hi tt) (hs : step p e tt = some tt') :
    Inv p lo hi tt' := by
  cases e with
  | call c =>
      obtain rfl := Option.some.inj hs
      exact inv_call h c
  | expire now r calls =>
      cases hct : tt.ct with
      | none => simp [step, hct] at hs
      | some ct =>
          have hrun : isRunning tt = true := by
            by_contra hstopped
            rw [h.idle (Bool.not_eq_true _ ▸ hstopped)] at hct
            cases hct
          simp only [step, hct] at hs
          cases hcb : ct.callback with
          | fire =>
              rw [hcb] at hs
              obtain rfl := Option.some.inj hs
              exact inv_fire h.ranged.clear_ct (fun _ => rfl) now calls
          | doubleInterval =>
              rw [hcb] at hs
              obtain rfl := Option.some.inj hs
              exact inv_doubleInterval h.ranged.clear_ct hrun now r

theorem Inv.paced (h : Inv p lo hi tt) (hrun : isRunning tt = true) : Paced p lo hi tt where
  min_le := (h.ranged.interval hrun).1
  le_max := (h.ranged.interval hrun).2
  half_le := (h.ranged.offset hrun).1
  offset_lt := (h.ranged.offset hrun).2
  scheduled := h.scheduled hrun

/-- After a configuration whose values are right. -/
theorem inv_config {iMin iMax k : ℕ} {tt₀ : TrickleTimer} (hct : tt₀.ct = none)
    (h : trickleTimerConfig p iMin iMax k tt₀ = some tt) (hright : ConfigRight p iMin iMax tt) :
    Inv p iMin tt.iMaxAbs tt := by
  have hfits : Fits p iMin tt.iMax := by
    by_cases hreq : Fits p iMin iMax
    · rw [hright.requested hreq]
      exact hreq
    · exact (hright.largest hreq).1
  have hle : iMin ≤ tt.iMaxAbs := by
    rw [hright.longest]
    exact Nat.le_mul_of_pos_right iMin (Nat.two_pow_pos _)
  have hhalf : tt.iMaxAbs ≤ (p.clockMax >>> 1) + 1 := by
    rw [hright.longest]
    exact hfits
  obtain ⟨hmin, -, rfl⟩ := config_eq_some h
  have hstopped : ∀ {q : Prop}, (0 != 0) = true → q := fun hrun => absurd hrun (by decide)
  exact ⟨⟨hmin, hle, hhalf, rfl, rfl, hstopped, hstopped, hstopped⟩, fun _ => hct, hstopped⟩

/-- The stored maximum and the longest interval are right, and a timer that runs is in its range
and scheduled within its interval after every sequence of events, exactly if the pair is
handled. -/
theorem trickle_paced_iff {iMin iMax k : ℕ} {tt₀ : TrickleTimer} (hct : tt₀.ct = none)
    (h : trickleTimerConfig p iMin iMax k tt₀ = some tt) :
    (ConfigRight p iMin iMax tt ∧
      ∀ es, Always (step p) (fun s => isRunning s = true → Paced p iMin tt.iMaxAbs s) es tt) ↔
      Handled p iMin iMax := by
  refine ⟨fun hall => (configRight_iff h).1 hall.1, fun hhandled => ?_⟩
  have hright := (configRight_iff h).2 hhandled
  refine ⟨hright, fun es => ?_⟩
  exact always_of_step (fun _ e _ hinv hs => inv_step e hinv hs) (fun _ hinv => hinv.paced) es
    (inv_config hct h hright)

/-- A platform with a clock of some width and 32-bit integers at least. -/
def Platform.plain (w : ClockWidth) : Platform where
  width := w
  shiftBits := max w.bits 32
  bits_le := Nat.le_max_left _ _
  wideShr _ := 0
  wideShl _ _ := 0
  compensateDrift := true

/-- A timer that was never set. -/
def TrickleTimer.unset : TrickleTimer := ⟨0, 0, 0, 0, none, false, 0, 0, 0, 0⟩

theorem trickle_paced_iff_plain :
    ConfigRight (.plain .w32) 16 10 { TrickleTimer.unset with
        iMin := 16, iMax := 10, iMaxAbs := 16384, k := 1 } ∧
      ∀ es, Always (step (.plain .w32))
        (fun s => isRunning s = true → Paced (.plain .w32) 16 16384 s) es
        { TrickleTimer.unset with iMin := 16, iMax := 10, iMaxAbs := 16384, k := 1 } := by
  have hct : TrickleTimer.unset.ct = none := rfl
  have hconfig : trickleTimerConfig (.plain .w32) 16 10 1 .unset =
      some { TrickleTimer.unset with iMin := 16, iMax := 10, iMaxAbs := 16384, k := 1 } := rfl
  refine (trickle_paced_iff hct hconfig).2 (.inl ?_)
  unfold Fits
  decide

/-- With a clock of 64 bits and `2 ^ 48 + 1` ticks, 62 doublings are stored for 14. -/
theorem not_trickle_paced :
    ¬ ∀ (p : Platform) (iMin iMax k : ℕ) (tt₀ tt : TrickleTimer), tt₀.ct = none →
      trickleTimerConfig p iMin iMax k tt₀ = some tt →
      ConfigRight p iMin iMax tt ∧
        ∀ es, Always (step p) (fun s => isRunning s = true → Paced p iMin tt.iMaxAbs s) es tt := by
  intro hall
  have hconfig : trickleTimerConfig (.plain .w64) (2 ^ 48 + 1) 20 1 .unset = some _ := rfl
  have hright := (hall _ _ _ _ _ _ rfl hconfig).1
  rcases (configRight_iff hconfig).1 hright with hfits | ⟨-, hhole⟩
  · exact absurd hfits (by unfold Fits; decide)
  · exact hhole rfl ⟨by decide, by decide⟩

end Trickle

end Den2ne
