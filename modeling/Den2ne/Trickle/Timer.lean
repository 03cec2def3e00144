import Den2ne.Bits.Leading

/-!
# Trickle timers

`trickle-timer.c`, with error checking and the generic `max_imax`. Values of `clock_time_t` are
numbers below `2 ^ bits`, with every operation taken modulo that power. A shift by as many bits
as its type has, or more, is undefined in C; what the platform makes of it is a parameter. Every
random value and every reading of the clock is an input, read once per handler.

`offset` is history: the point `t` that was drawn for the current interval.
-/

namespace Den2ne

namespace Trickle

/-- The widths of `clock_time_t`. -/
inductive ClockWidth
  | w16
  | w32
  | w64
deriving DecidableEq, Repr

/-- `sizeof(clock_time_t)`. -/
def ClockWidth.size : ClockWidth → ℕ
  | w16 => 2
  | w32 => 4
  | w64 => 8

def ClockWidth.bits (w : ClockWidth) : ℕ := 8 * w.size

/-- What the platform and the configuration decide: `shiftBits` is the width of the type to which
a `clock_time_t` is promoted before it is shifted, and `wideShr` and `wideShl` are what shifts by
that width or more result in. -/
structure Platform where
  width : ClockWidth
  shiftBits : ℕ
  bits_le : width.bits ≤ shiftBits
  wideShr : ℕ → ℕ
  wideShl : ℕ → ℕ → ℕ
  compensateDrift : Bool

/-- The number of values of a `clock_time_t`. -/
def Platform.modulus (p : Platform) : ℕ := 2 ^ p.width.bits

/-- `TRICKLE_TIMER_CLOCK_MAX`. -/
def Platform.clockMax (p : Platform) : ℕ := p.modulus - 1

/-- `TRICKLE_TIMER_CLOCK_MAX >> n`. -/
def Platform.clockMaxShr (p : Platform) (n : ℕ) : ℕ :=
  if n < p.shiftBits then p.clockMax >>> n else p.wideShr n

/-- `x << n`, stored in a `clock_time_t`. -/
def Platform.shl (p : Platform) (x n : ℕ) : ℕ :=
  (if n < p.shiftBits then x <<< n else p.wideShl x n) % p.modulus

/-- A sum in `clock_time_t`. -/
def Platform.add (p : Platform) (x y : ℕ) : ℕ := (x + y) % p.modulus

/-- A difference in `clock_time_t`. -/
def Platform.sub (p : Platform) (x y : ℕ) : ℕ := (x + (p.modulus - y % p.modulus)) % p.modulus

/-- `clock_time()`. -/
def Platform.clockTime (p : Platform) (now : ℕ) : ℕ := now % p.modulus

/-! ## Configuration -/

/-- `TRICKLE_TIMER_IMIN_IS_BAD`. -/
def iminIsBad (p : Platform) (iMin : ℕ) : Bool := iMin < 2 || p.clockMax >>> 1 < iMin

/-- `TRICKLE_TIMER_IPAIR_IS_BAD`. -/
def ipairIsBad (p : Platform) (iMin iMax : ℕ) : Bool := p.clockMaxShr (iMax + 1) < iMin - 1

/-- The loop of `max_imax`, `for(; i > 0; i >>= 1)`: the number of zeros. -/
def maxImaxLoop (bits i mask zeros value : ℕ) : ℕ :=
  if i = 0 then zeros
  else
    let mask := mask <<< i % 2 ^ bits
    if value &&& mask = 0 then
      maxImaxLoop bits (i / 2) mask ((zeros + i) % 256) (value <<< i % 2 ^ bits)
    else maxImaxLoop bits (i / 2) mask zeros value
termination_by i

/-- `max_imax`, the generic one. -/
def maxImax (w : ClockWidth) (value : ℕ) : ℕ :=
  let value := (value + (2 ^ w.bits - 1)) % 2 ^ w.bits
  (maxImaxLoop w.bits (w.size * 4) 0xFFFF 0 value + 255) % 256

/-- The callbacks that the library gives to its `ctimer`. -/
inductive Callback
  | fire
  | doubleInterval
deriving DecidableEq, Repr

/-- A `ctimer` that is set. -/
structure Ctimer where
  callback : Callback
  start : ℕ
  interval : ℕ
deriving DecidableEq, Repr

/-- `struct trickle_timer`; `cb` says whether there is a callback of the protocol. -/
structure TrickleTimer where
  iMin : ℕ
  iCur : ℕ
  iStart : ℕ
  iMaxAbs : ℕ
  ct : Option Ctimer
  cb : Bool
  iMax : ℕ
  k : ℕ
  c : ℕ
  offset : ℕ
deriving DecidableEq, Repr

/-- `trickle_timer_config`, for a timer that is not `NULL`; `none` is `TRICKLE_TIMER_ERROR`. -/
def trickleTimerConfig (p : Platform) (iMin iMax k : ℕ) (tt : TrickleTimer) :
    Option TrickleTimer :=
  if iminIsBad p iMin then none
  else if iMax = 0 ∨ k = 0 then none
  else
    let iMax := if ipairIsBad p iMin iMax then maxImax p.width iMin else iMax
    some { tt with
      iMin := iMin
      iMax := iMax
      iMaxAbs := p.shl iMin iMax
      k := k
      iCur := 0
      cb := false }

/-! ## Running -/

/-- `get_t`, for the random value `r`. -/
def getT (p : Platform) (iCur r : ℕ) : ℕ := p.add (iCur >>> 1) (r % (iCur >>> 1))

/-- `TRICKLE_TIMER_INTERVAL_END`. -/
def intervalEnd (p : Platform) (tt : TrickleTimer) : ℕ := p.add tt.iStart tt.iCur

/-- `trickle_timer_is_running`. -/
def isRunning (tt : TrickleTimer) : Bool := tt.iCur != 0

/-- `TRICKLE_TIMER_PROTO_TX_ALLOW`. -/
def protoTxAllow (tt : TrickleTimer) : Bool := tt.k == 0 || tt.c < tt.k

/-- How long the `ctimer` is set for to expire at `time`; not at all if that is in the past. -/
def remaining (p : Platform) (time now : ℕ) : ℕ :=
  if p.clockMax >>> 1 < p.sub time now then 0 else p.sub time now

def scheduleForEnd (p : Platform) (now : ℕ) (tt : TrickleTimer) : TrickleTimer :=
  let now := p.clockTime now
  { tt with ct := some ⟨.doubleInterval, now, remaining p (intervalEnd p tt) now⟩ }

/-- The next interval length in `double_interval`. -/
def doubled (p : Platform) (tt : TrickleTimer) : ℕ :=
  if tt.iCur ≤ tt.iMaxAbs >>> 1 then p.shl tt.iCur 1 else tt.iMaxAbs

def doubleInterval (p : Platform) (now r : ℕ) (tt : TrickleTimer) : TrickleTimer :=
  let now := p.clockTime now
  let lastEnd := intervalEnd p tt
  let iCur := doubled p tt
  let t := getT p iCur r
  if p.compensateDrift then
    { tt with
      c := 0
      iCur := iCur
      offset := t
      ct := some ⟨.fire, now, remaining p (p.add lastEnd t) now⟩
      iStart := lastEnd }
  else
    { tt with
      c := 0
      iCur := iCur
      offset := t
      ct := some ⟨.fire, now, t⟩
      iStart := now }

def newInterval (p : Platform) (now r : ℕ) (tt : TrickleTimer) : TrickleTimer :=
  let now := p.clockTime now
  let t := getT p tt.iCur r
  { tt with c := 0, offset := t, ct := some ⟨.fire, now, t⟩, iStart := now }

def trickleTimerConsistency (tt : TrickleTimer) : TrickleTimer :=
  if tt.iCur = 0 then tt
  else if tt.c < 0xFF then { tt with c := tt.c + 1 }
  else tt

def trickleTimerInconsistency (p : Platform) (now r : ℕ) (tt : TrickleTimer) : TrickleTimer :=
  if tt.iCur = 0 then tt
  else if tt.iCur ≠ tt.iMin then newInterval p now r { tt with iCur := tt.iMin }
  else tt

/-- `trickle_timer_set`; without a callback it returns `TRICKLE_TIMER_ERROR`. -/
def trickleTimerSet (p : Platform) (protoCb : Bool) (now r r' : ℕ) (tt : TrickleTimer) :
    TrickleTimer :=
  if protoCb = false then tt
  else
    newInterval p now r'
      { tt with
        cb := true
        iCur := p.add tt.iMin (r % p.add (p.sub tt.iMaxAbs tt.iMin) 1) }

def trickleTimerStop (tt : TrickleTimer) : TrickleTimer := { tt with ct := none, iCur := 0 }

/-- What the protocol calls, from its own code or from the callback. -/
inductive Call
  | set (protoCb : Bool) (now r r' : ℕ)
  | stop
  | consistency
  | inconsistency (now r : ℕ)

def call (p : Platform) : Call → TrickleTimer → TrickleTimer
  | .set protoCb now r r', tt => trickleTimerSet p protoCb now r r' tt
  | .stop, tt => trickleTimerStop tt
  | .consistency, tt => trickleTimerConsistency tt
  | .inconsistency now r, tt => trickleTimerInconsistency p now r tt

/-- `fire`: the protocol's callback is told whether it may transmit; `calls` is what it does. -/
def fire (p : Platform) (now : ℕ) (calls : Bool → List Call) (tt : TrickleTimer) :
    TrickleTimer :=
  let tt := if tt.cb then (calls (protoTxAllow tt)).foldl (fun tt c => call p c tt) tt else tt
  if isRunning tt then scheduleForEnd p now tt else tt

/-- A call, or the expiration of the timer that is set. -/
inductive Event
  | call (c : Call)
  | expire (now r : ℕ) (calls : Bool → List Call)

/-- One event; a timer that is not set does not expire. -/
def step (p : Platform) : Event → TrickleTimer → Option TrickleTimer
  | .call c, tt => some (call p c tt)
  | .expire now r calls, tt =>
      match tt.ct with
      | none => none
      | some ct =>
          let tt := { tt with ct := none }
          match ct.callback with
          | .fire => some (fire p now calls tt)
          | .doubleInterval => some (doubleInterval p now r tt)

end Trickle

end Den2ne
