import Mathlib.Data.List.Basic
import Mathlib.Logic.Function.Basic

/-!
# Links and neighbours of TSCH

`tsch-schedule.c` and `tsch-queue.c`. A neighbour counts the links with `LINK_OPTION_TX` to it. The
entry of a neighbour is made when it is first needed, which may fail, and is freed when it is not
used; its two counters have eight bits.

Pointers to slotframes and links are their places in `slotframe_list` and `links_list`. What
`memb_alloc` and `nbr_table_add_lladdr` answer is up to the environment, as is the room in the ring
buffer of a queue, of which only the number of packets matters here. The lock is free between two
calls. The backoff of a neighbour and the type and data of a link are left out, since nothing here
reads them.
-/

namespace Den2ne.Tsch

variable {α : Type*} [DecidableEq α]

/-- `LINK_OPTION_TX`. -/
def linkOptionTx : UInt8 := 1

/-- `LINK_OPTION_SHARED`. -/
def linkOptionShared : UInt8 := 4

/-- `struct tsch_link`. -/
structure Link (α : Type*) where
  handle : ℕ
  addr : α
  slotframeHandle : ℕ
  timeslot : ℕ
  channelOffset : ℕ
  linkOptions : UInt8
deriving DecidableEq, Repr

/-- The link is a Tx link. -/
def Link.IsTx (l : Link α) : Prop := l.linkOptions &&& linkOptionTx ≠ 0

/-- The link is shared. -/
def Link.IsShared (l : Link α) : Prop := l.linkOptions &&& linkOptionShared ≠ 0

instance (l : Link α) : Decidable l.IsTx := inferInstanceAs (Decidable (_ ≠ _))

instance (l : Link α) : Decidable l.IsShared := inferInstanceAs (Decidable (_ ≠ _))

/-- The link is installed at this place of the slotframe. -/
def Link.At (l : Link α) (timeslot channelOffset : ℕ) : Prop :=
  l.timeslot = timeslot ∧ l.channelOffset = channelOffset

instance (l : Link α) (timeslot channelOffset : ℕ) : Decidable (l.At timeslot channelOffset) :=
  inferInstanceAs (Decidable (_ ∧ _))

/-- `struct tsch_slotframe`. Its links know its handle, so that `tsch_schedule_remove_link` does not
refuse them. -/
structure Slotframe (α : Type*) where
  handle : ℕ
  size : ℕ
  linksList : List (Link α)
  owned : ∀ l ∈ linksList, l.slotframeHandle = handle

/-- `struct tsch_neighbor`, with the number of packets in `tx_ringbuf`. -/
structure Neighbor where
  isBroadcast : Bool
  isTimeSource : Bool
  txLinksCount : UInt8
  dedicatedTxLinksCount : UInt8
  txRingbuf : ℕ
deriving DecidableEq, Repr

/-- Set or clear `is_time_source`. -/
def Neighbor.setTimeSource (isTimeSource : Bool) (n : Neighbor) : Neighbor :=
  { n with isTimeSource := isTimeSource }

/-- `tsch_neighbors`. -/
abbrev Neighbors (α : Type*) := α → Option Neighbor

/-- What is fixed for a node. -/
structure Config (α : Type*) where
  linkaddrNull : α
  tschEbAddress : α
  tschBroadcastAddress : α
  tschIsCoordinator : Bool

/-- The schedule and the queues. -/
structure State (α : Type*) where
  slotframeList : List (Slotframe α)
  currentLinkHandle : ℕ
  tschNeighbors : Neighbors α

/-! ## The queues -/

/-- `tsch_queue_add_nbr`; `free` says whether the table can take another neighbour. -/
def tschQueueAddNbr (cfg : Config α) (free : Bool) (addr : α) (nbrs : Neighbors α) : Neighbors α :=
  match nbrs addr with
  | some _ => nbrs
  | none =>
      if free then
        Function.update nbrs addr (some
          { isBroadcast := decide (addr = cfg.tschEbAddress ∨ addr = cfg.tschBroadcastAddress)
            isTimeSource := false
            txLinksCount := 0
            dedicatedTxLinksCount := 0
            txRingbuf := 0 })
      else nbrs

/-- Change the entry of a neighbour, if there is one. -/
def changeNbr (addr : α) (f : Neighbor → Neighbor) (nbrs : Neighbors α) : Neighbors α :=
  match nbrs addr with
  | none => nbrs
  | some n => Function.update nbrs addr (some (f n))

/-- `tsch_queue_add_packet`; `room` says whether there is a packet, a buffer and a place in the
queue. -/
def tschQueueAddPacket (cfg : Config α) (free room : Bool) (addr : α) (s : State α) : State α :=
  let nbrs := tschQueueAddNbr cfg free addr s.tschNeighbors
  { s with tschNeighbors :=
      if room then changeNbr addr (fun n => { n with txRingbuf := n.txRingbuf + 1 }) nbrs
      else nbrs }

/-- `tsch_queue_packet_sent`; `done` says that the packet was sent, or for the last time. -/
def tschQueuePacketSent (done : Bool) (addr : α) (s : State α) : State α :=
  if done then
    { s with tschNeighbors :=
        changeNbr addr (fun n => { n with txRingbuf := n.txRingbuf - 1 }) s.tschNeighbors }
  else s

/-- Make one neighbour, or none, the time source; there is at most one other. -/
def setTimeSource (timeSource : Option α) (nbrs : Neighbors α) : Neighbors α := fun a =>
  (nbrs a).map (Neighbor.setTimeSource (decide (timeSource = some a)))

/-- `tsch_queue_update_time_source`. -/
def tschQueueUpdateTimeSource (cfg : Config α) (free : Bool) (newAddr : Option α) (s : State α) :
    State α :=
  if cfg.tschIsCoordinator then s
  else
    match newAddr with
    | none => { s with tschNeighbors := setTimeSource none s.tschNeighbors }
    | some addr =>
        let nbrs := tschQueueAddNbr cfg free addr s.tschNeighbors
        match nbrs addr with
        | none => s
        | some _ => { s with tschNeighbors := setTimeSource (some addr) nbrs }

/-- A neighbour that `tsch_queue_free_unused_neighbors` frees. -/
def Neighbor.Unused (n : Neighbor) : Prop :=
  n.isBroadcast = false ∧ n.isTimeSource = false ∧ n.txLinksCount = 0 ∧ n.txRingbuf = 0

instance (n : Neighbor) : Decidable n.Unused := inferInstanceAs (Decidable (_ ∧ _))

/-- `tsch_queue_free_unused_neighbors`. -/
def tschQueueFreeUnusedNeighbors (s : State α) : State α :=
  { s with tschNeighbors := fun a => (s.tschNeighbors a).filter (fun n => ¬ n.Unused) }

/-! ## The schedule -/

/-- What a new link changes in the entry of its neighbour. -/
def countTxLink (l : Link α) (n : Neighbor) : Neighbor :=
  { n with
    txLinksCount := n.txLinksCount + 1
    dedicatedTxLinksCount :=
      if l.IsShared then n.dedicatedTxLinksCount else n.dedicatedTxLinksCount + 1 }

/-- What a removed link changes in the entry of its neighbour. -/
def uncountTxLink (l : Link α) (n : Neighbor) : Neighbor :=
  { n with
    txLinksCount := n.txLinksCount - 1
    dedicatedTxLinksCount :=
      if l.IsShared then n.dedicatedTxLinksCount else n.dedicatedTxLinksCount - 1 }

/-- The end of `tsch_schedule_remove_link`, once the link has left its list. -/
def releaseLink (nbrs : Neighbors α) (l : Link α) : Neighbors α :=
  if l.IsTx then changeNbr l.addr (uncountTxLink l) nbrs else nbrs

/-- The end of `tsch_schedule_add_link`. -/
def registerLink (cfg : Config α) (free : Bool) (nbrs : Neighbors α) (l : Link α) : Neighbors α :=
  if l.IsTx then changeNbr l.addr (countTxLink l) (tschQueueAddNbr cfg free l.addr nbrs) else nbrs

namespace Slotframe

/-- The slotframe without its link at place `j`. -/
def eraseLink (sf : Slotframe α) (j : ℕ) : Slotframe α :=
  { sf with
    linksList := sf.linksList.eraseIdx j
    owned := fun l hl => sf.owned l (List.mem_of_mem_eraseIdx hl) }

/-- The slotframe without its links at a timeslot and channel offset. -/
def clear (sf : Slotframe α) (timeslot channelOffset : ℕ) : Slotframe α :=
  { sf with
    linksList := sf.linksList.filter fun l => ¬ l.At timeslot channelOffset
    owned := fun l hl => sf.owned l (List.mem_filter.1 hl).1 }

/-- The slotframe with another link at the end of its list. -/
def addLink (sf : Slotframe α) (l : Link α) (hl : l.slotframeHandle = sf.handle) : Slotframe α :=
  { sf with
    linksList := sf.linksList ++ [l]
    owned := fun l' hl' => by
      rcases List.mem_append.1 hl' with hl' | hl'
      · exact sf.owned l' hl'
      · rw [List.mem_singleton.1 hl', hl] }

end Slotframe

/-- `tsch_schedule_add_slotframe`; `free` says whether there is a block. -/
def tschScheduleAddSlotframe (free : Bool) (handle size : ℕ) (s : State α) : State α :=
  if size = 0 then s
  else if s.slotframeList.any (·.handle = handle) then s
  else if free then { s with slotframeList := s.slotframeList ++ [⟨handle, size, [], nofun⟩] }
  else s

/-- `tsch_schedule_remove_slotframe`. -/
def tschScheduleRemoveSlotframe (i : ℕ) (s : State α) : State α :=
  match s.slotframeList[i]? with
  | none => s
  | some sf =>
      { s with
        slotframeList := s.slotframeList.eraseIdx i
        tschNeighbors := sf.linksList.foldl releaseLink s.tschNeighbors }

/-- `tsch_schedule_remove_link` of a link of the slotframe. -/
def tschScheduleRemoveLink (i j : ℕ) (s : State α) : State α :=
  match s.slotframeList[i]? with
  | none => s
  | some sf =>
      match sf.linksList[j]? with
      | none => s
      | some l =>
          { s with
            slotframeList := s.slotframeList.set i (sf.eraseLink j)
            tschNeighbors := releaseLink s.tschNeighbors l }

/-- `tsch_schedule_remove_link_by_timeslot`. -/
def tschScheduleRemoveLinkByTimeslot (i timeslot channelOffset : ℕ) (s : State α) : State α :=
  match s.slotframeList[i]? with
  | none => s
  | some sf =>
      { s with
        slotframeList := s.slotframeList.set i (sf.clear timeslot channelOffset)
        tschNeighbors := (sf.linksList.filter fun l => l.At timeslot channelOffset).foldl
          releaseLink s.tschNeighbors }

/-- A call of `tsch_schedule_add_link`: the slotframe, the arguments, and whether there is a block
for the link and room for its neighbour. -/
structure AddLink (α : Type*) where
  slotframe : ℕ
  linkOptions : UInt8
  address : Option α
  timeslot : ℕ
  channelOffset : ℕ
  doRemove : Bool
  linkFree : Bool
  nbrFree : Bool

/-- The link that the call adds to a slotframe. -/
def AddLink.link (cfg : Config α) (call : AddLink α) (currentLinkHandle : ℕ) (sf : Slotframe α) :
    Link α :=
  { handle := currentLinkHandle % 65536
    addr := call.address.getD cfg.linkaddrNull
    slotframeHandle := sf.handle
    timeslot := call.timeslot
    channelOffset := call.channelOffset
    linkOptions := call.linkOptions }

/-- `tsch_schedule_add_link` begins with removing what is installed at its place. -/
def AddLink.cleared (call : AddLink α) (s : State α) : State α :=
  if call.doRemove then
    tschScheduleRemoveLinkByTimeslot call.slotframe call.timeslot call.channelOffset s
  else s

/-- `tsch_schedule_add_link`. -/
def tschScheduleAddLink (cfg : Config α) (call : AddLink α) (s : State α) : State α :=
  match s.slotframeList[call.slotframe]? with
  | none => s
  | some sf =>
      if sf.size - 1 < call.timeslot then s
      else
        let s := call.cleared s
        match call.linkFree, s.slotframeList[call.slotframe]? with
        | true, some sf =>
            let l := call.link cfg s.currentLinkHandle sf
            { slotframeList := s.slotframeList.set call.slotframe (sf.addLink l rfl)
              currentLinkHandle := s.currentLinkHandle + 1
              tschNeighbors := registerLink cfg call.nbrFree s.tschNeighbors l }
        | _, _ => s

/-! ## Runs -/

/-- A call of the schedule or the queues. -/
inductive Call (α : Type*)
  | addSlotframe (free : Bool) (handle size : ℕ)
  | removeSlotframe (slotframe : ℕ)
  | addLink (call : AddLink α)
  | removeLink (slotframe link : ℕ)
  | removeLinkByTimeslot (slotframe timeslot channelOffset : ℕ)
  | addPacket (free room : Bool) (addr : α)
  | packetSent (done : Bool) (addr : α)
  | updateTimeSource (free : Bool) (newAddr : Option α)
  | freeUnusedNeighbors

/-- The state after a call. -/
def step (cfg : Config α) (call : Call α) (s : State α) : Option (State α) :=
  match call with
  | .addSlotframe free handle size => some (tschScheduleAddSlotframe free handle size s)
  | .removeSlotframe i => some (tschScheduleRemoveSlotframe i s)
  | .addLink call => some (tschScheduleAddLink cfg call s)
  | .removeLink i j => some (tschScheduleRemoveLink i j s)
  | .removeLinkByTimeslot i timeslot channelOffset =>
      some (tschScheduleRemoveLinkByTimeslot i timeslot channelOffset s)
  | .addPacket free room addr => some (tschQueueAddPacket cfg free room addr s)
  | .packetSent done addr => some (tschQueuePacketSent done addr s)
  | .updateTimeSource free newAddr => some (tschQueueUpdateTimeSource cfg free newAddr s)
  | .freeUnusedNeighbors => some (tschQueueFreeUnusedNeighbors s)

/-- `tsch_queue_init`, in an empty schedule. -/
def init (cfg : Config α) : State α where
  slotframeList := []
  currentLinkHandle := 0
  tschNeighbors := tschQueueAddNbr cfg true cfg.tschBroadcastAddress
    (tschQueueAddNbr cfg true cfg.tschEbAddress fun _ => none)

end Den2ne.Tsch
