import Den2ne.Flash.Pages
import Den2ne.Log.Decode
import Den2ne.Transition.Run
import Mathlib.Data.List.GetD

/-!
# The log in the flash memory

The log lives in flash pages, and its length in a word of the page before them.
After a reset the counter of the log starts at `0`, and a timer runs `read_log`
once, which prints the log of the last boot and erases it. A handler that logs
before that writes over the log of the last boot. `Boot.step` is a node over
any sequence of boots; `survives_of_run` says in which runs each boot prints
what the boot before it has logged.
-/

namespace Den2ne

open Transition

namespace Log

/-- `log`, where the log starts. -/
@[irreducible] def log : ℕ := 0xA0000

/-- `page_mem_counter`, the page that ends with the length of the log. -/
@[irreducible] def pageMemCounter : ℕ := log - 0x1000

/-- A node with its flash memory. `logSize` bytes are there for the log. -/
structure Board (addrSize : ℕ) where
  device : Flash.Device
  pageSize_eq : device.pageSize = 0x1000
  logSize : ℕ
  logSize_lt : logSize < 2 ^ 31
  linkaddrNodeAddr : LinkAddr addrSize
  nodeType : NodeType

/-- The flash memory and the variables of the log. History: what was logged in
this boot and in the last one, and for each execution of `read_log` what was
logged in the boot before it and what was printed. -/
structure Boot (addrSize : ℕ) where
  flash : Flash.Memory
  memCounter : ℕ
  logTimer : Bool
  logged : List (LogEvent addrSize)
  before : List (LogEvent addrSize)
  reads : List (List (LogEvent addrSize) × Output)

/-- A handler logs an event, the timer of `read_log` expires, or the node is
reset. -/
inductive BootEvent (addrSize : ℕ)
  | log (e : { e : LogEvent addrSize // Loggable e })
  | logTimer
  | reset

variable {addrSize : ℕ}

/-! ## Writing and erasing -/

/-- `update_mem_counter`. -/
def updateMemCounter (d : Flash.Device) (memCounter : ℕ) (m : Flash.Memory) : Flash.Memory :=
  Flash.write d (pageMemCounter + 0xFFC) (Bytes.ofInt 4 memCounter)
    (Flash.erase d pageMemCounter m)

/-- A handler appends a record and updates the length; `check_write` succeeds. -/
@[irreducible] def appendRecord (d : Flash.Device) (e : LogEvent addrSize) (memCounter : ℕ)
    (m : Flash.Memory) : Flash.Memory :=
  updateMemCounter d (memCounter + (record e).length)
    (Flash.write d (log + memCounter) (record e) m)

/-- The end of `read_log` erases the pages of the log and that of its length. -/
@[irreducible] def eraseLog (d : Flash.Device) (memUsed : ℤ) (m : Flash.Memory) : Flash.Memory :=
  Flash.erase d pageMemCounter (Flash.eraseMany d log (memUsed.tdiv 0x1000 + 1).toNat m)

/-- The word of the length. -/
def memUsed (m : Flash.Memory) : ℤ := Bytes.toInt (Wire.copy m (pageMemCounter + 0xFFC) 4)

namespace Boot

/-- A handler logs an event. -/
def append (b : Board addrSize) (e : LogEvent addrSize) (s : Boot addrSize) : Boot addrSize :=
  { s with
    flash := appendRecord b.device e s.memCounter s.flash
    memCounter := s.memCounter + (record e).length
    logged := s.logged ++ [e] }

/-- `read_log` prints the log and erases it. -/
def expire (b : Board addrSize) (s : Boot addrSize) : Boot addrSize :=
  { s with
    flash := eraseLog b.device (memUsed s.flash) s.flash
    logTimer := false
    reads := (s.before, (readLog b.linkaddrNodeAddr (fun i => s.flash (log + i)) b.nodeType
      (memUsed s.flash)).1) :: s.reads }

/-- A reset keeps nothing but the flash memory. -/
def reset (s : Boot addrSize) : Boot addrSize :=
  { s with
    memCounter := 0
    logTimer := true
    logged := []
    before := s.logged }

/-- A node whose log has never been written. -/
def first : Boot addrSize := ⟨fun _ => 255, 0, true, [], [], []⟩

/-- One event; the log must not grow over its region. -/
def step (b : Board addrSize) (e : BootEvent addrSize) (s : Boot addrSize) :
    Option (Boot addrSize) :=
  match e with
  | .log e =>
      if s.memCounter + (record e.val).length ≤ b.logSize then some (s.append b e.val) else none
  | .logTimer => if s.logTimer then some (s.expire b) else none
  | .reset => some s.reset

/-- Each execution of `read_log` has printed exactly the events that were logged
in the boot before it. -/
def Survives (b : Board addrSize) (s : Boot addrSize) : Prop :=
  ∀ r ∈ s.reads, r.2 = printLog b.linkaddrNodeAddr b.nodeType
    (Json.commas (r.1.map (printed b.linkaddrNodeAddr)))

instance (b : Board addrSize) (s : Boot addrSize) : Decidable (s.Survives b) :=
  inferInstanceAs (Decidable (∀ r ∈ s.reads, _))

/-- After `read_log`, nothing is left of the log that it has printed: the pages
behind the log of this boot are erased. -/
def Erased (s : Boot addrSize) : Prop :=
  s.logTimer = false → ∀ i, (records s.logged).length ≤ i → s.flash (log + i) = 255

/-- In a boot that follows one with a log, an event is logged after `read_log`
has run, and so is the next reset. Nothing is logged before `read_log` runs. -/
def InTime (s : Boot addrSize) (e : BootEvent addrSize) : Prop :=
  match e with
  | .log _ => s.logTimer = true → s.before = []
  | .logTimer => s.logged = []
  | .reset => s.logTimer = true → s.before = []

instance (s : Boot addrSize) : ∀ e, Decidable (s.InTime e)
  | .log _ => inferInstanceAs (Decidable (_ → _))
  | .logTimer => inferInstanceAs (Decidable (_ = _))
  | .reset => inferInstanceAs (Decidable (_ → _))

end Boot

/-! ## What the flash holds -/

/-- The flash holds the log of `es`, erased behind it, and its length; the word
of an empty log is erased. -/
structure Holds (m : Flash.Memory) (es : List (LogEvent addrSize)) : Prop where
  records : ∀ i, m (log + i) = (records es).getD i 255
  length : Wire.copy m (pageMemCounter + 0xFFC) 4 =
    if es = [] then [255, 255, 255, 255] else Bytes.ofInt 4 (Log.records es).length

variable {b : Board addrSize} {d : Flash.Device} {m : Flash.Memory}
  {es : List (LogEvent addrSize)} {e : LogEvent addrSize}

/-- The word of the length is in the page before those of the log. -/
theorem page_length (hd : d.pageSize = 0x1000) {k : ℕ} (hk : k < 4) :
    (pageMemCounter + 0xFFC + k) / d.pageSize = pageMemCounter / d.pageSize := by
  rw [hd]
  unfold pageMemCounter log
  omega

theorem page_log (hd : d.pageSize = 0x1000) (i : ℕ) :
    (log + i) / d.pageSize ≠ pageMemCounter / d.pageSize := by
  rw [hd]
  unfold pageMemCounter log
  omega

theorem le_log : pageMemCounter + 0xFFC + 4 ≤ log := by
  unfold pageMemCounter log
  omega

/-- Bytes that are written over erased ones are read back. -/
theorem copy_write {p : ℕ} {l : List UInt8} (h : ∀ k < l.length, m (p + k) = 255) :
    Wire.copy (Flash.write d p l m) p l.length = l := by
  refine List.ext_getElem (by simp [Wire.copy]) fun k _ hk => ?_
  simp only [Wire.copy, List.getElem_map, List.getElem_range]
  rw [Flash.write_erased hk (h k hk), List.getD_eq_getElem _ _ hk]

theorem copy_of_erased {p n : ℕ} (h : ∀ k < n, m (p + k) = 255) :
    Wire.copy m p n = List.replicate n 255 := by
  refine List.ext_getElem (by simp [Wire.copy]) fun k _ hk => ?_
  simp only [Wire.copy, List.getElem_map, List.getElem_range, List.getElem_replicate]
  exact h k (by simpa using hk)

/-- An erased flash holds an empty log. -/
theorem holds_nil (hlog : ∀ i, m (log + i) = 255)
    (hlength : ∀ k < 4, m (pageMemCounter + 0xFFC + k) = 255) :
    Holds m ([] : List (LogEvent addrSize)) where
  records := hlog
  length := copy_of_erased hlength

/-- An update of the length leaves the log as it is. -/
theorem holds_updateMemCounter (hd : d.pageSize = 0x1000) (hne : es ≠ [])
    (hrecords : ∀ i, m (log + i) = (records es).getD i 255) :
    Holds (updateMemCounter d (records es).length m) es where
  records i := by
    rw [updateMemCounter, Flash.write_of_outside (.inr _), Flash.erase_other (page_log hd i),
      hrecords]
    rw [Bytes.length_ofInt]
    exact Nat.le_add_right_of_le le_log
  length := by
    rw [if_neg hne]
    refine copy_write (l := Bytes.ofInt 4 (records es).length) fun k hk => ?_
    rw [Bytes.length_ofInt] at hk
    exact Flash.erase_same (page_length hd hk)

theorem records_append (es : List (LogEvent addrSize)) (e : LogEvent addrSize) :
    records (es ++ [e]) = records es ++ record e := by
  simp [records]

/-- A record that is appended to the log that the flash holds. -/
theorem holds_appendRecord (hd : d.pageSize = 0x1000) (h : Holds m es) :
    Holds (appendRecord d e (records es).length m) (es ++ [e]) := by
  unfold appendRecord
  rw [← List.length_append, ← records_append]
  refine holds_updateMemCounter hd (by simp) fun i => ?_
  rw [records_append]
  by_cases hold : i < (records es).length
  · rw [Flash.write_of_outside (.inl (Nat.add_lt_add_left hold log)), h.records,
      List.getD_append _ _ _ _ hold]
  · obtain ⟨k, rfl⟩ := Nat.exists_eq_add_of_le (Nat.not_lt.1 hold)
    have herased : m (log + ((records es).length + k)) = 255 := by
      rw [h.records, List.getD_eq_default _ _ (Nat.le_add_right _ _)]
    rw [List.getD_append_right _ _ _ _ (Nat.le_add_right _ _), Nat.add_sub_cancel_left]
    by_cases hnew : k < (record e).length
    · rw [← Nat.add_assoc, Flash.write_erased hnew (by rwa [Nat.add_assoc])]
    · rw [Flash.write_of_outside (.inr (by omega)), herased,
        List.getD_eq_default _ _ (Nat.not_lt.1 hnew)]

/-- The word of the length is `-1` where no log has been written. -/
theorem memUsed_of_holds (h : Holds m es) (hlt : (records es).length < 2 ^ 31) :
    memUsed m = if es = [] then -1 else ((records es).length : ℤ) := by
  rw [memUsed, h.length]
  split
  · decide
  · rw [Bytes.toInt_ofInt, Int.bmod_eq_of_le (by omega) (by omega)]

/-- `read_log` prints the log that the flash holds. -/
theorem readLog_of_holds (self : LinkAddr addrSize) (nodeType : NodeType) (h : Holds m es)
    (hlt : (records es).length < 2 ^ 31) (hes : ∀ e ∈ es, Loggable e) :
    (readLog self (fun i => m (log + i)) nodeType (memUsed m)).1 =
      printLog self nodeType (Json.commas (es.map (printed self))) := by
  have hmem : (fun i => m (log + i)) = Wire.memory (records es) fun _ => 255 := funext h.records
  rw [hmem, memUsed_of_holds h hlt]
  split
  case isTrue hnil => rw [hnil]; rfl
  case isFalse => rw [readLog_eq _ self nodeType hes]

/-- `read_log` leaves an erased flash. -/
theorem holds_eraseLog (hd : d.pageSize = 0x1000) (h : Holds m es)
    (hlt : (records es).length < 2 ^ 31) :
    Holds (eraseLog d (memUsed m) m) ([] : List (LogEvent addrSize)) := by
  rw [eraseLog]
  refine holds_nil (fun i => Flash.erase_of_erased ?_)
    fun k hk => Flash.erase_same (page_length hd hk)
  by_cases hi : i < (records es).length
  · have hne : es ≠ [] := by
      rintro rfl
      exact absurd hi (Nat.not_lt_zero i)
    rw [memUsed_of_holds h hlt, if_neg hne]
    have hpages : (((records es).length : ℤ).tdiv 0x1000 + 1).toNat =
        (records es).length / 0x1000 + 1 := by
      rw [Int.tdiv_eq_ediv_of_nonneg (Int.natCast_nonneg _)]
      omega
    rw [hpages]
    apply Flash.eraseMany_same
    · rw [hd]
      exact Nat.div_le_div_right (Nat.le_add_right log i)
    · rw [hd]
      unfold log
      omega
  · refine Flash.eraseMany_of_erased ?_
    rw [h.records, List.getD_eq_default _ _ (Nat.not_lt.1 hi)]

/-! ## Runs -/

namespace Boot

/-- What the flash holds: the log of this boot, and that of the boot before as
long as `read_log` has not run. -/
def kept (s : Boot addrSize) : List (LogEvent addrSize) :=
  if s.logTimer then s.before ++ s.logged else s.logged

/-- In a run in time. -/
structure Inv (b : Board addrSize) (s : Boot addrSize) : Prop where
  holds : Holds s.flash s.kept
  counter : s.memCounter = (records s.logged).length
  size : (records s.kept).length ≤ b.logSize
  loggable : ∀ e ∈ s.kept, Loggable e
  survives : s.Survives b

theorem inv_first : (first : Boot addrSize).Inv b where
  holds := holds_nil (fun _ => rfl) fun _ _ => rfl
  counter := rfl
  size := Nat.zero_le _
  loggable := List.forall_mem_nil _
  survives := List.forall_mem_nil _

variable {s : Boot addrSize}

/-- In a boot with its log in the flash alone. -/
theorem kept_eq_logged (h : s.logTimer = true → s.before = []) : s.kept = s.logged := by
  rw [kept]
  split
  case isTrue htimer => rw [h htimer, List.nil_append]
  case isFalse => rfl

theorem inv_append (h : s.Inv b) {e : { e : LogEvent addrSize // Loggable e }}
    (hok : InTime s (.log e)) (hroom : s.memCounter + (record e.val).length ≤ b.logSize) :
    (s.append b e.val).Inv b := by
  have hbefore : s.logTimer = true → s.before = [] := hok
  have hkept : s.kept = s.logged := kept_eq_logged hbefore
  have hkept' : (s.append b e.val).kept = s.kept ++ [e.val] := by
    rw [hkept]
    exact kept_eq_logged (s := s.append b e.val) hbefore
  have hcounter : s.memCounter = (records s.kept).length := by
    rw [hkept]
    exact h.counter
  refine ⟨?_, ?_, ?_, ?_, h.survives⟩
  · rw [hkept', append, hcounter]
    exact holds_appendRecord b.pageSize_eq h.holds
  · rw [append, h.counter, records_append, List.length_append]
  · rw [hkept', records_append, List.length_append, ← hcounter]
    exact hroom
  · rw [hkept']
    exact List.forall_mem_append.2 ⟨h.loggable, List.forall_mem_singleton.2 e.property⟩

theorem inv_expire (h : s.Inv b) (hok : InTime s .logTimer) (htimer : s.logTimer = true) :
    (s.expire b).Inv b := by
  have hkept : s.kept = s.before := by
    rw [kept, if_pos htimer, show s.logged = [] from hok, List.append_nil]
  have hkept' : (s.expire b).kept = [] := hok
  have hlt : (records s.kept).length < 2 ^ 31 := h.size.trans_lt b.logSize_lt
  refine ⟨?_, h.counter, ?_, ?_, ?_⟩
  · rw [hkept']
    exact holds_eraseLog b.pageSize_eq h.holds hlt
  · rw [hkept']
    exact Nat.zero_le _
  · rw [hkept']
    exact List.forall_mem_nil _
  · refine List.forall_mem_cons.2 ⟨?_, h.survives⟩
    rw [readLog_of_holds b.linkaddrNodeAddr b.nodeType h.holds hlt h.loggable, hkept]

theorem inv_reset (h : s.Inv b) (hok : InTime s .reset) : s.reset.Inv b := by
  have hkept : s.kept = s.logged := kept_eq_logged hok
  have hkept' : s.reset.kept = s.kept := by
    rw [hkept]
    exact List.append_nil _
  exact ⟨hkept' ▸ h.holds, rfl, hkept' ▸ h.size, hkept' ▸ h.loggable, h.survives⟩

theorem inv_step {s' : Boot addrSize} {e : BootEvent addrSize} (h : s.Inv b) (hok : InTime s e)
    (hs : step b e s = some s') : s'.Inv b := by
  cases e with
  | log e =>
      obtain ⟨hroom, hs⟩ := Option.ite_none_right_eq_some.1 hs
      obtain rfl := Option.some.inj hs
      exact inv_append h hok hroom
  | logTimer =>
      obtain ⟨htimer, hs⟩ := Option.ite_none_right_eq_some.1 hs
      obtain rfl := Option.some.inj hs
      exact inv_expire h hok htimer
  | reset =>
      cases hs
      exact inv_reset h hok

theorem Inv.erased (h : s.Inv b) : s.Erased := by
  intro htimer i hi
  have hkept : s.kept = s.logged := by rw [kept, htimer]; rfl
  rw [h.holds.records, hkept, List.getD_eq_default _ _ hi]

/-- In a run in time, each boot prints what the boot before it has logged, and
erases it. -/
theorem survives_of_run (es : List (BootEvent addrSize)) (hok : Meets (step b) InTime es first) :
    Always (step b) (fun s => s.Survives b ∧ s.Erased) es first :=
  always_of_meets (fun _ _ _ => inv_step) (fun _ h => ⟨h.survives, h.erased⟩) inv_first hok

/-- A flash that only clears bits. -/
def sampleDevice : Flash.Device := ⟨(· &&& ·), fun _ => UInt8.neg_one_and, 0x1000, by decide⟩

def sampleBoard : Board 2 := ⟨sampleDevice, rfl, 0x1000, by decide, #v[1, 1], .common⟩

def sampleHello (sender : LinkAddr 2) : BootEvent 2 := .log ⟨.helloReceived sender, trivial⟩

/-- A boot that logs a Hello, and a reset. -/
def sampleBoot : List (BootEvent 2) := [.logTimer, sampleHello (.replicate 2 2), .reset]

theorem survives_of_run_sample :
    Always (step sampleBoard) (fun s => s.Survives sampleBoard ∧ s.Erased)
      (sampleBoot ++ [.logTimer, sampleHello #v[3, 3]]) first :=
  survives_of_run _ (by decide +kernel)

/-- A Hello from `04.04` arrives before `read_log` has run, and is logged over the
one from `02.02`: what is printed is a Hello from `00.00`. -/
theorem not_survives : ¬ ∀ es : List (BootEvent 2),
    Always (step sampleBoard) (fun s => s.Survives sampleBoard) es first := by
  intro h
  have hrun := h (sampleBoot ++ [sampleHello #v[4, 4], .logTimer])
  revert hrun
  decide +kernel

end Boot

end Log

end Den2ne
