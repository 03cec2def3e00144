import Den2ne.Tsch.Schedule

/-!
# The next active link

`tsch_schedule_get_next_active_link` of `tsch-schedule.c` and the arithmetic of `tsch-asn.h`. A
pointer to a link is its place in the schedule: of the slotframe in `slotframe_list`, and of the
link in `links_list`. `int` has 32 bits.
-/

namespace Den2ne.Tsch

variable {α : Type*} [DecidableEq α]

/-- `struct tsch_asn_t`. -/
structure Asn where
  ls4b : UInt32
  ms1b : UInt8
deriving DecidableEq, Repr

/-- The absolute slot number. -/
def Asn.value (asn : Asn) : ℕ := asn.ms1b.toNat * 0x100000000 + asn.ls4b.toNat

/-- `struct tsch_asn_divisor_t`. -/
structure AsnDivisor where
  val : ℕ
  asnMs1bRemainder : ℕ
deriving DecidableEq, Repr

/-- `TSCH_ASN_DIVISOR_INIT`. -/
def asnDivisorInit (val : ℕ) : AsnDivisor := ⟨val, (0xffffffff % val + 1) % val⟩

/-- `TSCH_ASN_MOD`. -/
def asnMod (asn : Asn) (div : AsnDivisor) : ℕ :=
  (asn.ls4b.toNat % div.val % 65536 +
    asn.ms1b.toNat * div.asnMs1bRemainder % div.val % 65536) % div.val

/-- `LINK_OPTION_RX`. -/
def linkOptionRx : UInt8 := 2

/-- The link is an Rx link. -/
def Link.IsRx (l : Link α) : Prop := l.linkOptions &&& linkOptionRx ≠ 0

instance (l : Link α) : Decidable l.IsRx := inferInstanceAs (Decidable (_ ≠ _))

/-- A link with its place in the schedule and the size of its slotframe. -/
structure Place (α : Type*) where
  slotframe : ℕ
  index : ℕ
  size : ℕ
  link : Link α
deriving DecidableEq, Repr

/-- How many packets are in the queue of a neighbour. -/
def packetCount (nbrs : Neighbors α) (addr : α) : ℕ :=
  match nbrs addr with
  | some n => n.txRingbuf
  | none => 0

/-- `default_tsch_link_comparator`. -/
def defaultTschLinkComparator (nbrs : Neighbors α) (a b : Place α) : Place α :=
  if ¬ a.link.IsTx then a
  else if a.link.addr ≠ b.link.addr then
    if packetCount nbrs b.link.addr ≤ packetCount nbrs a.link.addr then a else b
  else a

/-- `new_best` for a link that overlaps with the best one so far; `none` is the NULL pointer. -/
def newBest (nbrs : Neighbors α) (currBest l : Place α) : Option (Place α) :=
  if currBest.link.linkOptions &&& linkOptionTx = l.link.linkOptions &&& linkOptionTx then
    if l.link.slotframeHandle ≠ currBest.link.slotframeHandle then
      if l.link.slotframeHandle < currBest.link.slotframeHandle then some l else none
    else some (defaultTschLinkComparator nbrs currBest l)
  else if l.link.IsTx then some l
  else none

/-- The backup link after `l` was considered for it. -/
def offer (l : Place α) (currBackup : Option (Place α)) : Option (Place α) :=
  match currBackup with
  | none => if l.link.IsRx then some l else none
  | some backup =>
      if l.link.IsRx ∧ l.link.slotframeHandle < backup.link.slotframeHandle then some l
      else some backup

/-- The best link and the backup link after a link that overlaps with the best one. -/
def overlap (nbrs : Neighbors α) (currBest l : Place α) (currBackup : Option (Place α)) :
    Place α × Option (Place α) :=
  let new := newBest nbrs currBest l
  let currBackup := if new ≠ some l then offer l currBackup else currBackup
  let currBackup := if new ≠ some currBest then offer currBest currBackup else currBackup
  (new.getD currBest, currBackup)

/-- The variables of the search. -/
structure Search (α : Type*) where
  timeToCurrBest : ℕ
  currBest : Option (Place α)
  currBackup : Option (Place α)

/-- `time_to_timeslot`. -/
def timeToTimeslot (asn : Asn) (p : Place α) : ℕ :=
  let timeslot := asnMod asn (asnDivisorInit p.size) % 65536
  (if timeslot < p.link.timeslot then p.link.timeslot - timeslot
    else p.size + p.link.timeslot - timeslot) % 65536

/-- One link of the loops. -/
def visit (nbrs : Neighbors α) (asn : Asn) (s : Search α) (l : Place α) : Search α :=
  let time := timeToTimeslot asn l
  match s.currBest with
  | none => ⟨time, some l, none⟩
  | some currBest =>
      if time < s.timeToCurrBest then ⟨time, some l, none⟩
      else if time = s.timeToCurrBest then
        let (best, backup) := overlap nbrs currBest l s.currBackup
        ⟨s.timeToCurrBest, some best, backup⟩
      else s

/-- The links of the `i`-th slotframe. -/
def Slotframe.places (sf : Slotframe α) (i : ℕ) : List (Place α) :=
  sf.linksList.zipIdx.map fun (l, j) => ⟨i, j, sf.size, l⟩

/-- What is returned; `timeOffset` is `none` if it is not written. -/
structure NextLink (α : Type*) where
  link : Option (Place α)
  timeOffset : Option ℕ
  backupLink : Option (Place α)

/-- `tsch_schedule_get_next_active_link`. -/
def tschScheduleGetNextActiveLink (tschIsLocked : Bool) (asn : Asn) (s : State α) : NextLink α :=
  if tschIsLocked then ⟨none, none, none⟩
  else
    let search := s.slotframeList.zipIdx.foldl (fun search (sf, i) =>
      (sf.places i).foldl (visit s.tschNeighbors asn) search) ⟨0, none, none⟩
    ⟨search.currBest, some search.timeToCurrBest, search.currBackup⟩

/-! ## Schedules -/

/-- A schedule as `tsch_schedule_add_slotframe` and `tsch_schedule_add_link` build it. -/
structure Scheduled (s : State α) : Prop where
  size_pos : ∀ sf ∈ s.slotframeList, 0 < sf.size
  size_lt : ∀ sf ∈ s.slotframeList, sf.size < 65536
  timeslot_lt : ∀ sf ∈ s.slotframeList, ∀ l ∈ sf.linksList, l.timeslot < sf.size

/-- All links in the order of the schedule. -/
def State.places (s : State α) : List (Place α) :=
  s.slotframeList.zipIdx.flatMap fun (sf, i) => sf.places i

/-- The link is active in the slot with this number. -/
def Place.ActiveAt (p : Place α) (asn : ℕ) : Prop := asn % p.size = p.link.timeslot

instance (p : Place α) (asn : ℕ) : Decidable (p.ActiveAt asn) :=
  inferInstanceAs (Decidable (_ = _))

/-- The links that are active in a slot, in the order of the schedule. -/
def State.activeAt (s : State α) (asn : ℕ) : List (Place α) :=
  s.places.filter fun p => p.ActiveAt asn

/-- `k` slots on there is the next active link. -/
def NextAt (s : State α) (asn : Asn) (k : ℕ) : Prop :=
  (1 ≤ k ∧ ∃ p ∈ s.places, p.ActiveAt (asn.value + k)) ∧
    ∀ j, 1 ≤ j → (∃ p ∈ s.places, p.ActiveAt (asn.value + j)) → k ≤ j

end Den2ne.Tsch
