import Mathlib.Data.List.Nodup
import Den2ne.Hlmac.Table

/-!
# The state of a node

The globals of `iotorii-csma.c` as one record, in the build without IPv6
(`IOTORII_IPV6 == 0`) and with `LOG_DBG_STATISTIC == 1`. Link-layer addresses
are an arbitrary type `α`, since the file only compares and copies `addr_t`.

A `ctimer` is modelled by whether it is armed: its expiry may come at any
time. `macOut` is what the handlers have passed to `csma_output_packet` in the
current step; the network takes it over when the step ends. The flash log and
the strings of `this_node` are left out, since no handler reads them, and so
are the clock and the statistics that are only printed.

`History` holds what happened and what no handler reads: it is there to state
and prove results about runs.
-/

namespace Den2ne

/-- `IOTORII_NODE_TYPE`. -/
inductive NodeType
  | root
  | common
deriving DecidableEq, Repr

/-- `IOTORII_HLMAC_CAST`: `0` is unicast, `1` is broadcast. -/
inductive HlmacCast
  | unicast
  | broadcast
deriving DecidableEq, Repr

/-- What the build and the board fix for one node. -/
structure Config (α : Type*) where
  nodeType : NodeType
  hlmacCast : HlmacCast
  hlmacMaxHlmac : ℤ
  addrSize : ℕ
  linkaddrNodeAddr : α
  linkaddrNull : α

/-- The contents of a received packet. The receiver tells them apart by their
length: `0` is a Hello, `4` a LOAD, `2` a SHARE, anything else a SetHLMAC with
its timestamp, the prefix and the `(id, MAC)` entries. -/
inductive Payload (α : Type*)
  | hello
  | load (load : ℤ)
  | share (extraLoad : ℤ)
  | sethlmac (timestamp : ℕ) (hlmacPrefix : List UInt8) (assigned : List (UInt8 × α))
deriving DecidableEq, Repr

/-- `neighbour_table_entry_t`. `flag` is `1` for a parent, `-1` for a neighbour
whose SetHLMAC was not taken, and `0` otherwise. -/
structure NeighbourTableEntry (α : Type*) where
  addr : α
  lastHello : ℕ
  numberId : UInt8
  flag : ℤ
  load : ℤ
  inOut : ℤ
deriving DecidableEq, Repr

/-- `neighbour_table_entry_list` and `number_of_neighbours`: no address occurs
twice, and the counter is the length of the list. -/
structure NeighbourTable (α : Type*) where
  entries : List (NeighbourTableEntry α)
  numberOfNeighbours : ℕ
  nodup : (entries.map (·.addr)).Nodup
  counted : numberOfNeighbours = entries.length

/-- `payload_entry_t`. `round` is history: the round its maker was in. -/
structure PayloadEntry (α : Type*) where
  payload : Payload α
  dest : α
  round : ℕ
deriving DecidableEq, Repr

/-- `this_node_t`. -/
structure ThisNode where
  load : ℤ
deriving DecidableEq, Repr

/-- An address that was stored, with the node whose SetHLMAC carried it. -/
structure Accept (α : Type*) where
  sender : α
  timestamp : ℕ
  address : HlmacAddr
deriving DecidableEq, Repr

/-- History of a node. `accepted` lists the stored addresses, the last one
first; `heard` the senders of the non-looping SetHLMACs since the node entered
its round; `parent` the neighbour whose SetHLMAC took it there, as long as its
entry stays in the table; `awaited` the neighbours that the two counters of
children were set for in this round; `loadRuns` and `shareCalls` the executions
of the two upstream handlers, the latter with the load and the number of
parents found; `received` the messages handled since the node entered its
round, the last one first, and the round each was made in. -/
structure History (α : Type*) where
  accepted : List (Accept α)
  heard : List α
  parent : Option α
  awaited : List α
  loadRuns : ℕ
  shareCalls : List (ℤ × ℕ)
  received : List (α × Payload α × ℕ)
deriving DecidableEq, Repr

/-- The globals of a node. -/
structure Node (α : Type*) where
  hlmacTable : HlmacTable
  neighbourTable : NeighbourTable α
  numberOfNeighboursFlag : ℤ
  payloadEntryList : List (PayloadEntry α)
  nodeList : List ThisNode
  nHijosLoad : ℕ
  nHijosShare : ℕ
  edge : Bool
  sentLoad : Bool
  sentShare : Bool
  hasConverged : Bool
  lastTimestamp : ℕ
  timestamp : ℕ
  numberOfHelloMessages : ℕ
  helloTimer : Bool
  sethlmacTimer : Bool
  sendSethlmacTimer : Bool
  statisticTimer : Bool
  macOut : List (PayloadEntry α)
  history : History α

/-- The values that the environment supplies to one step: the header length
that the framer reports, the draws of `random_rand`, and what `malloc` left in
the destination field of a new payload entry. -/
structure Env (α : Type*) where
  framerHdrlen : ℤ
  priorities : List ℕ
  loadDraw : ℕ
  junk : α

section Table

variable {α : Type*} [DecidableEq α]

namespace NeighbourTable

def empty : NeighbourTable α := ⟨[], 0, List.nodup_nil, rfl⟩

/-- The addresses of the table, in table order. -/
def addrs (t : NeighbourTable α) : List α := t.entries.map (·.addr)

/-- The entry of an address. -/
def find (t : NeighbourTable α) (a : α) : Option (NeighbourTableEntry α) :=
  t.entries.find? (·.addr = a)

/-- The flag of an address that is in the table. -/
def flagOf (t : NeighbourTable α) (a : α) : Option ℤ := (t.find a).map (·.flag)

/-- Change entries without changing their addresses. -/
def map (t : NeighbourTable α) (f : NeighbourTableEntry α → NeighbourTableEntry α)
    (hf : ∀ nb, (f nb).addr = nb.addr) : NeighbourTable α where
  entries := t.entries.map f
  numberOfNeighbours := t.numberOfNeighbours
  nodup := by
    have h : (·.addr) ∘ f = fun nb : NeighbourTableEntry α => nb.addr := funext hf
    rw [List.map_map, h]
    exact t.nodup
  counted := by rw [List.length_map, t.counted]

omit [DecidableEq α] in
theorem addrs_map (t : NeighbourTable α) {f : NeighbourTableEntry α → NeighbourTableEntry α}
    (hf : ∀ nb, (f nb).addr = nb.addr) : (t.map f hf).addrs = t.addrs := by
  rw [addrs, map, List.map_map]
  exact List.map_congr_left fun nb _ => hf nb

/-- `for nb in table: if nb->addr == a then nb->flag = flag`. -/
def setFlag (t : NeighbourTable α) (a : α) (flag : ℤ) : NeighbourTable α :=
  t.map (fun nb => if nb.addr = a then { nb with flag := flag } else nb) fun nb => by
    split <;> rfl

/-- `iotorii_neighbours_flag`: every flag becomes `0`. -/
def iotoriiNeighboursFlag (t : NeighbourTable α) : NeighbourTable α :=
  t.map (fun nb => { nb with flag := 0 }) fun _ => rfl

def setLoad (t : NeighbourTable α) (a : α) (load : ℤ) : NeighbourTable α :=
  t.map (fun nb => if nb.addr = a then { nb with load := load } else nb) fun nb => by
    split <;> rfl

def setLastHello (t : NeighbourTable α) (a : α) (lastHello : ℕ) : NeighbourTable α :=
  t.map (fun nb => if nb.addr = a then { nb with lastHello := lastHello } else nb) fun nb => by
    split <;> rfl

/-- Record the flow towards every parent. -/
def setParentsInOut (t : NeighbourTable α) (inOut : ℤ) : NeighbourTable α :=
  t.map (fun nb => if nb.flag = 1 then { nb with inOut := inOut } else nb) fun nb => by
    split <;> rfl

/-- Record the flow from `a` unless one is recorded already. -/
def setInOut (t : NeighbourTable α) (a : α) (inOut : ℤ) : NeighbourTable α :=
  t.map (fun nb => if nb.addr = a ∧ inOut ≠ 0 ∧ nb.inOut = 0 then
    { nb with inOut := inOut } else nb) fun nb => by
      split <;> rfl

/-- `list_add` of a new entry whose address is not in the table. -/
def add (t : NeighbourTable α) (nb : NeighbourTableEntry α) (h : nb.addr ∉ t.addrs) :
    NeighbourTable α where
  entries := t.entries ++ [nb]
  numberOfNeighbours := t.numberOfNeighbours + 1
  nodup := by
    rw [List.map_append, List.nodup_append]
    refine ⟨t.nodup, by simp, ?_⟩
    rintro a ha b hb rfl
    simp only [List.map_cons, List.map_nil, List.mem_singleton] at hb
    exact h (hb ▸ ha)
  counted := by rw [List.length_append, t.counted]; rfl

/-- Remove the first entry with property `p`. -/
def removeFirst (t : NeighbourTable α) (p : NeighbourTableEntry α → Bool) :
    NeighbourTable α where
  entries := t.entries.eraseP p
  numberOfNeighbours :=
    if t.entries.any p then t.numberOfNeighbours - 1 else t.numberOfNeighbours
  nodup := t.nodup.sublist (List.eraseP_sublist.map _)
  counted := by
    rw [List.length_eraseP, t.counted]

end NeighbourTable

end Table

end Den2ne
