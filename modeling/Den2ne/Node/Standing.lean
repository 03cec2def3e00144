import Den2ne.Keyed.Update
import Den2ne.Node.Step

/-!
# What places a node in its round

`Node.standing` keeps of a node what decides which round it is in, who its
parent is and which neighbours have answered: the HLMAC table, the marks of the
neighbours, `number_of_neighbours_flag`, the timestamps, and their history.
`Standing.step` is the machine that these fields form by themselves: it looks
neither at the loads nor at the counters of the convergecast nor at what is
sent. `standing_step` says that every event takes the standing of a node to the
next standing, so that a result about these fields is a result about
`Standing.step`.
-/

namespace Den2ne

open Keyed

/-- What a table says about a neighbour besides its load. -/
structure Mark (α : Type*) where
  addr : α
  lastHello : ℕ
  numberId : UInt8
  flag : ℤ
deriving DecidableEq, Repr

/-- The fields that place a node in its round. -/
structure Standing (α : Type*) where
  hlmacTable : HlmacTable
  marks : List (Mark α)
  numberOfNeighboursFlag : ℤ
  lastTimestamp : ℕ
  timestamp : ℕ
  numberOfHelloMessages : ℕ
  helloTimer : Bool
  sethlmacTimer : Bool
  accepted : List (Accept α)
  heard : List α
  parent : Option α

variable {α : Type*}

def NeighbourTableEntry.mark (nb : NeighbourTableEntry α) : Mark α :=
  ⟨nb.addr, nb.lastHello, nb.numberId, nb.flag⟩

def NeighbourTable.marks (t : NeighbourTable α) : List (Mark α) := t.entries.map (·.mark)

/-- The fields of `n` that place it in its round. -/
def Node.standing (n : Node α) : Standing α where
  hlmacTable := n.hlmacTable
  marks := n.neighbourTable.marks
  numberOfNeighboursFlag := n.numberOfNeighboursFlag
  lastTimestamp := n.lastTimestamp
  timestamp := n.timestamp
  numberOfHelloMessages := n.numberOfHelloMessages
  helloTimer := n.helloTimer
  sethlmacTimer := n.sethlmacTimer
  accepted := n.history.accepted
  heard := n.history.heard
  parent := n.history.parent

namespace Standing

/-- The addresses of the marked neighbours, in table order. -/
def addrs (s : Standing α) : List α := s.marks.map (·.addr)

/-- The neighbour has missed too many Hellos. -/
def missing (numberOfHelloMessages : ℕ) (m : Mark α) : Bool :=
  iotoriiMaxHelloDiff < (numberOfHelloMessages : ℤ) - m.lastHello

/-- Give every neighbour the flag `0`. -/
def unmark (s : Standing α) : Standing α :=
  { s with marks := s.marks.map fun m => { m with flag := 0 } }

variable [DecidableEq α]

/-- A Hello from `sender`. -/
def hello (sender : α) (s : Standing α) : Standing α :=
  if s.marks.length < 256 then
    if sender ∈ s.addrs then
      { s with
        marks := updateAt (·.addr) sender
          (fun m => { m with lastHello := s.numberOfHelloMessages }) s.marks }
    else
      { s with marks := s.marks ++
          [⟨sender, s.numberOfHelloMessages, UInt8.ofNat (s.marks.length + 1), 0⟩] }
  else s

/-- A Hello changes the marks only. -/
theorem hello_eq (sender : α) (s : Standing α) :
    s.hello sender = { s with marks := (s.hello sender).marks } := by
  unfold hello
  split
  · split
    · rfl
    · rfl
  · rfl

/-- The hello timer: forget the first neighbour that is missing, and let the
root arm its round timer while it has sent few Hellos. -/
def tick (cfg : Config α) (s : Standing α) : Standing α :=
  let number := (s.numberOfHelloMessages + 1) % 65536
  { s with
    numberOfHelloMessages := number
    helloTimer := number ≤ 500
    sethlmacTimer :=
      if number ≤ 500 then armSethlmac cfg s.sethlmacTimer else s.sethlmacTimer
    marks := s.marks.eraseP (missing number)
    parent := dropParent s.parent ((s.marks.find? (missing number)).map (·.addr)) }

/-- The root starts a round and stores its own address. -/
def storeRoot (cfg : Config α) (s : Standing α) : Standing α :=
  let timestamp := nextTimestamp s.timestamp
  let stored := hlmactableAdd cfg.hlmacMaxHlmac s.hlmacTable (hlmacCreateRootAddr 1) timestamp
  { s with
    timestamp := timestamp
    hlmacTable := stored.2
    accepted := if stored.1 then
      ⟨cfg.linkaddrNodeAddr, timestamp, hlmacCreateRootAddr 1⟩ :: s.accepted else s.accepted }

/-- The round timer of the root. -/
def startRound (cfg : Config α) (s : Standing α) : Standing α :=
  { (s.storeRoot cfg).unmark with
    sethlmacTimer := false
    numberOfNeighboursFlag := s.marks.length
    heard := [] }

/-- The guard of the SetHLMAC branch. -/
def accepts (s : Standing α) (timestamp : ℕ) (addr : HlmacAddr) : Bool :=
  s.lastTimestamp < timestamp ||
    (!hlmactableHasLoop s.hlmacTable addr && timestamp == s.lastTimestamp)

/-- Whether an address that was stored makes the node start over. -/
def enters (s : Standing α) (timestamp : ℕ) : Bool :=
  s.lastTimestamp < timestamp || s.lastTimestamp == 0

/-- What the node resets when it enters a round. -/
def enter (timestamp : ℕ) (s : Standing α) : Standing α :=
  { s.unmark with
    lastTimestamp := timestamp
    numberOfNeighboursFlag := s.marks.length
    heard := []
    parent := none }

/-- A node that stored an address enters its round if that is a new one. -/
def adopt (sender : α) (timestamp : ℕ) (addr : HlmacAddr) (s : Standing α) : Standing α :=
  let s := if s.enters timestamp then s.enter timestamp else s
  { s with accepted := ⟨sender, timestamp, addr⟩ :: s.accepted }

/-- Store an address if there is room for it. -/
def store (cfg : Config α) (sender : α) (timestamp : ℕ) (addr : HlmacAddr)
    (s : Standing α) : Bool × Standing α :=
  let stored := hlmactableAdd cfg.hlmacMaxHlmac s.hlmacTable addr timestamp
  let s := { s with hlmacTable := stored.2 }
  (stored.1, if stored.1 then s.adopt sender timestamp addr else s)

/-- Mark the sender of a SetHLMAC that was not a loop. -/
def markSender (sender : α) (isAdded : Bool) (s : Standing α) : Standing α :=
  { s with
    marks := updateAt (·.addr) sender (fun m => { m with flag := if isAdded then 1 else -1 })
      s.marks
    numberOfNeighboursFlag := s.numberOfNeighboursFlag - 1
    heard := sender :: s.heard
    parent := if isAdded ∧ sender ∈ s.addrs then some sender else s.parent }

/-- A SetHLMAC that offers the node an address. -/
def offer (cfg : Config α) (sender : α) (timestamp : ℕ) (addr : HlmacAddr)
    (s : Standing α) : Standing α :=
  if s.accepts timestamp addr then
    markSender sender (s.store cfg sender timestamp addr).1
      (s.store cfg sender timestamp addr).2
  else s

/-- A received packet. -/
def receive (cfg : Config α) (sender : α) (message : Payload α) (s : Standing α) : Standing α :=
  match message with
  | .hello => s.hello sender
  | .load _ => s
  | .share _ => s
  | .sethlmac timestamp _ _ =>
      let addr := iotoriiExtractAddress cfg.linkaddrNodeAddr message
      if hlmacIsUnspecifiedAddr addr then s else s.offer cfg sender timestamp addr

/-- One event. -/
def step (cfg : Config α) (e : Event α) (s : Standing α) : Standing α :=
  match e with
  | .timer .hello => s.tick cfg
  | .timer .sethlmac => s.startRound cfg
  | .timer (.sendMessage _) => s
  | .timer .statistic => s
  | .receive sender message _ =>
      if sender = cfg.linkaddrNodeAddr then s else s.receive cfg sender message

/-- Whether the event can happen to a node with this standing: the timer that
expires must be armed. -/
structure Enabled (s : Standing α) (e : Event α) : Prop where
  hello : e = .timer .hello → s.helloTimer = true
  sethlmac : e = .timer .sethlmac → s.sethlmacTimer = true

end Standing

/-! ## The marks of a changed table -/

namespace NeighbourTable

variable (t : NeighbourTable α)

theorem addrs_eq_marks : t.addrs = t.marks.map (·.addr) := by
  simp only [addrs, marks, List.map_map]
  rfl

theorem numberOfNeighbours_eq_marks : t.numberOfNeighbours = t.marks.length := by
  rw [marks, List.length_map, t.counted]

/-- The marks of a neighbour table name no address twice. -/
theorem nodup_marks : (t.marks.map (·.addr)).Nodup := by
  rw [← addrs_eq_marks]
  exact t.nodup

theorem parents_eq_marks : t.parents = (t.marks.filter (·.flag = 1)).map (·.addr) := by
  simp only [parents, marks, List.filter_map, List.map_map]
  rfl

theorem hijos_eq_marks : t.hijos = t.marks.countP fun m => !(m.flag = 1 || m.flag = -1) := by
  simp only [hijos, marks, List.countP_map]
  rfl

theorem marks_map (f : NeighbourTableEntry α → NeighbourTableEntry α)
    (hf : ∀ nb, (f nb).addr = nb.addr) (g : Mark α → Mark α)
    (hg : ∀ nb, (f nb).mark = g nb.mark) : (t.map f hf).marks = t.marks.map g := by
  simp only [marks, map, List.map_map]
  exact List.map_congr_left fun nb _ => hg nb

theorem marks_map_of_mark (f : NeighbourTableEntry α → NeighbourTableEntry α)
    (hf : ∀ nb, (f nb).addr = nb.addr) (hg : ∀ nb, (f nb).mark = nb.mark) :
    (t.map f hf).marks = t.marks := by
  rw [marks_map t f hf id hg, List.map_id]

@[simp] theorem marks_setParentsInOut (inOut : ℤ) :
    (t.setParentsInOut inOut).marks = t.marks := by
  refine marks_map_of_mark t _ _ fun nb => ?_
  split <;> rfl

theorem marks_iotoriiNeighboursFlag :
    t.iotoriiNeighboursFlag.marks = t.marks.map fun m => { m with flag := 0 } :=
  marks_map t _ _ _ fun _ => rfl

theorem marks_add (nb : NeighbourTableEntry α) (h : nb.addr ∉ t.addrs) :
    (t.add nb h).marks = t.marks ++ [nb.mark] := by
  simp [marks, add]

theorem marks_removeFirst (p : NeighbourTableEntry α → Bool) (q : Mark α → Bool)
    (hpq : ∀ nb, p nb = q nb.mark) : (t.removeFirst p).marks = t.marks.eraseP q := by
  have hp : p = q ∘ fun nb => nb.mark := funext hpq
  rw [marks, marks, removeFirst, List.eraseP_map, hp]

variable [DecidableEq α]

theorem flagOf_eq_marks (a : α) : t.flagOf a = (t.marks.find? (·.addr = a)).map (·.flag) := by
  simp only [flagOf, find, marks, List.find?_map, Option.map_map]
  rfl

@[simp] theorem marks_setLoad (a : α) (load : ℤ) : (t.setLoad a load).marks = t.marks := by
  refine marks_map_of_mark t _ _ fun nb => ?_
  split <;> rfl

@[simp] theorem marks_setInOut (a : α) (inOut : ℤ) : (t.setInOut a inOut).marks = t.marks := by
  refine marks_map_of_mark t _ _ fun nb => ?_
  split <;> rfl

theorem marks_setLastHello (a : α) (lastHello : ℕ) :
    (t.setLastHello a lastHello).marks =
      updateAt (·.addr) a (fun m => { m with lastHello := lastHello }) t.marks := by
  refine marks_map t _ _ _ fun nb => ?_
  by_cases h : nb.addr = a <;> simp [NeighbourTableEntry.mark, h]

theorem marks_setFlag (a : α) (flag : ℤ) :
    (t.setFlag a flag).marks =
      updateAt (·.addr) a (fun m => { m with flag := flag }) t.marks := by
  refine marks_map t _ _ _ fun nb => ?_
  by_cases h : nb.addr = a <;> simp [NeighbourTableEntry.mark, h]

end NeighbourTable

end Den2ne
