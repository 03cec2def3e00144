import Den2ne.Pool.FirstFit
import Den2ne.Transition.Run
import Mathlib.Logic.Function.Basic

/-!
# The neighbour tables

`nbr-table.c`: up to eight tables over one list of keys, each key a slot of
`neighbor_addr_mem` with an address. For every slot a bit map tells which tables
use it, and another one which tables lock it; a table's item for a neighbour is
the element of the table's array at the slot of the key, so that an item is
modelled by its slot. Which key goes when all are taken is for the policy
functions to say, which a configuration can replace.
-/

namespace Den2ne.NbrTable

/-- A table: the pointer as a number, and whether it has a callback. -/
structure Table where
  id : ℕ
  callback : Bool
  deriving DecidableEq

/-- The variables of the module, and the arrays of the tables. -/
structure State (Addr Data : Type*) where
  /-- `all_tables`, up to `num_tables` -/
  allTables : List Table
  /-- the slots of `nbr_table_keys` -/
  keys : List ℕ
  /-- `key->lladdr` -/
  lladdr : ℕ → Addr
  /-- `neighbor_addr_mem` -/
  mem : Pool.Blocks
  usedMap : ℕ → BitVec 8
  lockedMap : ℕ → BitVec 8
  /-- `table->data` -/
  data : ℕ → ℕ → Data

/-- `NBR_TABLE_GC_GET_WORST` and `NBR_TABLE_CAN_ACCEPT_NEW`, for one call of
`nbr_table_add_lladdr` (its reason and its data are theirs). The first is given
the number of tables that use an address, and picks one of two, or `NULL`. -/
structure Policy (Addr : Type*) where
  gcGetWorst : (Addr → ℕ) → Addr → Addr → Option Addr
  canAcceptNew : Addr → Option Addr → Bool
  gcGetWorst_mem : ∀ used a b c, gcGetWorst used a b = some c → c = a ∨ c = b

/-- `MAX_NUM_TABLES`. -/
def maxNumTables : ℕ := 8

variable {Addr Data : Type*}

theorem eq_of_ite_eq_some {p : Prop} [Decidable p] {a b c : Addr}
    (h : some (if p then b else a) = some c) : c = a ∨ c = b := by
  rw [← Option.some.inj h]
  split
  · exact Or.inr rfl
  · exact Or.inl rfl

/-- `nbr_table_gc_get_worst` and `nbr_table_can_accept_new`. -/
def defaultPolicy : Policy Addr where
  gcGetWorst used a b := some (if used b < used a then b else a)
  canAcceptNew _ _ := true
  gcGetWorst_mem _ _ _ _ := eq_of_ite_eq_some

/-- `rpl_nbr_gc_get_worst` of RPL Lite, with `nbr_table_can_accept_new`. `getRank`
is `RPL_INFINITE_RANK` for an address that is no RPL neighbour. -/
def rplPolicy (getRank : Addr → ℕ) : Policy Addr where
  gcGetWorst _ a b := some (if getRank a < getRank b then b else a)
  canAcceptNew _ _ := true
  gcGetWorst_mem _ _ _ _ := eq_of_ite_eq_some

/-- `rpl_nbr_gc_get_worst` of `iotorii-routing.c`. -/
def iotoriiPolicy : Policy Addr where
  gcGetWorst _ _ _ := none
  canAcceptNew _ _ := true
  gcGetWorst_mem _ _ _ _ := nofun

namespace State

/-- No tables and no neighbours, with room for `n`. -/
def init (n : ℕ) [Inhabited Addr] [Inhabited Data] : State Addr Data where
  allTables := []
  keys := []
  lladdr _ := default
  mem := Pool.init n
  usedMap _ := 0
  lockedMap _ := 0
  data _ _ := default

/-- `nbr_table_is_registered`. -/
def Registered (s : State Addr Data) (table : ℕ) : Prop := table ∈ s.allTables.map Table.id

instance (s : State Addr Data) (table : ℕ) : Decidable (s.Registered table) :=
  inferInstanceAs (Decidable (table ∈ s.allTables.map Table.id))

/-- `table->index`, which is zero until the table is registered. -/
def index (s : State Addr Data) (table : ℕ) : ℕ :=
  (s.allTables.findIdx? (·.id = table)).getD 0

/-- `nbr_table_register`. -/
def register (s : State Addr Data) (table : ℕ) (callback : Bool) : State Addr Data :=
  if s.Registered table then
    { s with allTables :=
        s.allTables.map fun t => if t.id = table then { t with callback := callback } else t }
  else if s.allTables.length < maxNumTables then
    { s with allTables := s.allTables ++ [{ id := table, callback := callback }] }
  else s

/-- `nbr_get_bit` on `used_map`. -/
def used (s : State Addr Data) (table i : ℕ) : Bool := (s.usedMap i).getLsbD (s.index table)

/-- A map with one bit set. -/
def setBit (map : ℕ → BitVec 8) (i j : ℕ) : ℕ → BitVec 8 :=
  Function.update map i (map i ||| (1#8 <<< j))

/-- A map with one bit cleared. -/
def clearBit (map : ℕ → BitVec 8) (i j : ℕ) : ℕ → BitVec 8 :=
  Function.update map i (map i &&& ~~~(1#8 <<< j))

/-- `remove_key`: the tables whose callback is called, and the state. -/
def removeKey (s : State Addr Data) (key : ℕ) (doFree : Bool) : List ℕ × State Addr Data :=
  ((s.allTables.filter fun t => t.callback && s.used t.id key).map Table.id,
    { s with
      usedMap := Function.update s.usedMap key 0
      lockedMap := Function.update s.lockedMap key 0
      keys := s.keys.erase key
      mem := if doFree then Pool.free s.mem key else s.mem })

/-- A write to the data of an item. -/
def setData (s : State Addr Data) (table i : ℕ) (value : Data) : State Addr Data :=
  { s with data := Function.update s.data table (Function.update (s.data table) i value) }

section

variable [DecidableEq Addr]

/-- `index_from_lladdr`. -/
def indexFromLladdr (s : State Addr Data) (lladdr : Addr) : Option ℕ :=
  s.keys.find? (s.lladdr · = lladdr)

/-- The loop of `used_count`, which ends when no bit is left: after at most
eight turns. -/
def countBits : ℕ → ℕ → ℕ
  | 0, _ => 0
  | turns + 1, used => used % 2 + countBits turns (used / 2)

/-- `used_count`. -/
def usedCount (s : State Addr Data) (lladdr : Addr) : ℕ :=
  match s.indexFromLladdr lladdr with
  | none => 0
  | some i => countBits 8 (s.usedMap i).toNat

/-- The loop of `select_for_removal`. -/
def worst (policy : Policy Addr) (s : State Addr Data) : List ℕ → Option Addr → Option Addr
  | [], worstLladdr => worstLladdr
  | k :: ks, worstLladdr =>
      worst policy s ks <|
        if s.lockedMap k ≠ 0 then worstLladdr
        else
          match worstLladdr with
          | none => some (s.lladdr k)
          | some a => policy.gcGetWorst s.usedCount a (s.lladdr k)

/-- `select_for_removal`. -/
def selectForRemoval (policy : Policy Addr) (s : State Addr Data) (new : Addr) : Option Addr :=
  match worst policy s s.keys none with
  | none => none
  | some a => if policy.canAcceptNew new (some a) then some a else none

/-- `nbr_table_get_from_lladdr`. -/
def getFromLladdr (s : State Addr Data) (table : ℕ) (lladdr : Addr) : Option ℕ :=
  (s.indexFromLladdr lladdr).filter (s.used table)

/-- `entry_is_allowed`: whether the entry is, and the key that is to go. -/
def entryIsAllowed (policy : Policy Addr) (s : State Addr Data) (table : ℕ) (lladdr : Addr) :
    Bool × Option Addr :=
  if (s.getFromLladdr table lladdr).isSome then (true, none)
  else if (s.indexFromLladdr lladdr).isSome ∨ false ∈ s.mem then
    (policy.canAcceptNew lladdr none, none)
  else
    let toBeRemoved := selectForRemoval policy s lladdr
    (toBeRemoved.isSome, toBeRemoved)

/-- What `nbr_table_add_lladdr` did. -/
structure Added (Addr Data : Type*) where
  /-- the item; `none` for `NULL` -/
  item : Option ℕ
  /-- the address that had to go, and the tables whose callback was called -/
  evicted : Option (Addr × List ℕ)
  state : State Addr Data

/-- `nbr_table_allocate`, with a memory block or with the slot of the key that
is to go: the slot, what was evicted, and the state. -/
def allocate (s : State Addr Data) (toBeRemoved : Option Addr) :
    Option (ℕ × Option (Addr × List ℕ) × State Addr Data) :=
  match Pool.alloc s.mem with
  | some (i, mem) => some (i, none, { s with mem := mem })
  | none =>
      match toBeRemoved with
      | none => none
      | some a =>
          match s.indexFromLladdr a with
          | none => none
          | some i =>
              let (called, s) := s.removeKey i false
              some (i, some (a, called), s)

/-- The item of a table at a slot, with its used bit set and its data cleared. -/
def useItem [Inhabited Data] (s : State Addr Data) (table i : ℕ) : State Addr Data :=
  { s.setData table i default with usedMap := setBit s.usedMap i (s.index table) }

/-- A new key at the end of the list. -/
def addKey (s : State Addr Data) (i : ℕ) (lladdr : Addr) : State Addr Data :=
  { s with keys := s.keys ++ [i], lladdr := Function.update s.lladdr i lladdr }

/-- `nbr_table_add_lladdr`. -/
def addLladdr [Inhabited Data] (policy : Policy Addr) (s : State Addr Data) (table : ℕ)
    (lladdr : Addr) : Added Addr Data :=
  let (allowed, toBeRemoved) := entryIsAllowed policy s table lladdr
  if ¬ allowed then { item := none, evicted := none, state := s }
  else
    match s.indexFromLladdr lladdr with
    | some i => { item := some i, evicted := none, state := s.useItem table i }
    | none =>
        match s.allocate toBeRemoved with
        | none => { item := none, evicted := none, state := s }
        | some (i, evicted, s) =>
            { item := some i, evicted := evicted, state := (s.addKey i lladdr).useItem table i }

end

/-- `nbr_table_remove`. -/
def remove (s : State Addr Data) (table i : ℕ) : State Addr Data :=
  { s with
    usedMap := clearBit s.usedMap i (s.index table)
    lockedMap := clearBit s.lockedMap i (s.index table) }

/-- `nbr_table_lock`. -/
def lock (s : State Addr Data) (table i : ℕ) : State Addr Data :=
  { s with lockedMap := setBit s.lockedMap i (s.index table) }

/-- `nbr_table_unlock`. -/
def unlock (s : State Addr Data) (table i : ℕ) : State Addr Data :=
  { s with lockedMap := clearBit s.lockedMap i (s.index table) }

/-- The loop of `nbr_table_clear`, which removes the first key until none is
left. -/
def clearKeys : ℕ → State Addr Data → State Addr Data
  | 0, s => s
  | turns + 1, s =>
      match s.keys.head? with
      | none => s
      | some k => clearKeys turns (s.removeKey k true).2

/-- `nbr_table_clear`: there are as many turns as keys. -/
def clear (s : State Addr Data) : State Addr Data := clearKeys s.keys.length s

/-- The keys behind a key, along `list_item_next`. -/
def keysAfter (s : State Addr Data) (i : ℕ) : List ℕ := (s.keys.dropWhile (· ≠ i)).tail

/-- `nbr_table_next`. -/
def next (s : State Addr Data) (table : ℕ) : Option ℕ → Option ℕ
  | none => none
  | some i => (s.keysAfter i).find? (s.used table)

/-- `nbr_table_head`. -/
def head (s : State Addr Data) (table : ℕ) : Option ℕ :=
  match s.keys.head? with
  | none => s.next table none
  | some i => if s.used table i then some i else s.next table (some i)

end State

/-! ## Runs -/

/-- The calls of the module's functions, and the writes to an item through the
pointer that they return. An address or an item can be `NULL`. -/
inductive Event (Addr Data : Type*)
  | register (table : ℕ) (callback : Bool)
  | addLladdr (table : ℕ) (lladdr : Option Addr) (policy : Policy Addr)
  | remove (table : ℕ) (item : Option ℕ)
  | lock (table : ℕ) (item : Option ℕ)
  | unlock (table : ℕ) (item : Option ℕ)
  | write (table i : ℕ) (value : Data)
  | clear

/-- What a call did to the tables. A lock of an item whose slot has no key is one
of no address. -/
inductive Effect (Addr Data : Type*)
  | added (table : ℕ) (lladdr : Addr)
  | wrote (table : ℕ) (lladdr : Addr) (value : Data)
  | removed (table : ℕ) (lladdr : Addr)
  | locked (table : ℕ) (lladdr : Option Addr)
  | unlocked (table : ℕ) (lladdr : Addr)
  | evicted (lladdr : Addr) (called : List ℕ)
  | cleared

variable [DecidableEq Addr] [Inhabited Addr] [Inhabited Data]

/-- A call: what it did, in this order, and the state. `linkaddr_null` stands in
for an address that is `NULL`; an item that is `NULL` is left alone. -/
def State.call (s : State Addr Data) : Event Addr Data → List (Effect Addr Data) × State Addr Data
  | .register table callback => ([], s.register table callback)
  | .addLladdr table lladdr policy =>
      let lladdr := lladdr.getD default
      let r := s.addLladdr policy table lladdr
      ((r.evicted.toList.map fun e => .evicted e.1 e.2) ++
        (if r.item.isSome then [.added table lladdr] else []), r.state)
  | .remove table item =>
      match item with
      | none => ([], s)
      | some i =>
          (if i ∈ s.keys then [.removed table (s.lladdr i)] else [], s.remove table i)
  | .lock table item =>
      match item with
      | none => ([], s)
      | some i => ([.locked table (if i ∈ s.keys then some (s.lladdr i) else none)], s.lock table i)
  | .unlock table item =>
      match item with
      | none => ([], s)
      | some i => (if i ∈ s.keys then [.unlocked table (s.lladdr i)] else [], s.unlock table i)
  | .write table i value =>
      (if i ∈ s.keys ∧ s.used table i then [.wrote table (s.lladdr i) value] else [],
        s.setData table i value)
  | .clear => ([.cleared], s.clear)

end Den2ne.NbrTable
