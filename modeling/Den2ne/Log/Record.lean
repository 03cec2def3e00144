import Den2ne.Node.Outgoing
import Den2ne.Wire.Parse

/-!
# The event log

The records that the handlers append to the log, and `read_log`, which prints
them. A record is a code and the values of the event, 32 bits each but for the
addresses. The reader keeps a counter into the log; in the middle of a record
the counter is the size of the code behind the position that it reads next.
-/

namespace Den2ne

/-- The events that a node logs, with the values that their records hold. -/
inductive LogEvent (addrSize : ℕ)
  | helloSent (numberOfHelloMessages : ℕ)
  | helloReceived (sender : LinkAddr addrSize)
  | sethlmacSent (timestamp : ℕ) (hlmacPrefix : List UInt8)
      (assigned : List (LinkAddr addrSize × UInt8))
  | sethlmacReceived (sender : LinkAddr addrSize) (timestamp : ℕ) (address : List UInt8)
  | loadSent (load : ℤ)
  | loadReceived (sender : LinkAddr addrSize) (load : ℤ)
  | shareSent (extraLoad : ℤ)
  | shareReceived (sender : LinkAddr addrSize) (extraLoad : ℤ)
  | edge
  | hlmacAdded (address : List UInt8) (timestamp : ℕ)
  | convergence (convergenceTime : ℕ)
deriving DecidableEq, Repr

namespace Log

variable {addrSize : ℕ}

/-! ## Writing -/

/-- `write_log`: the argument is passed as a pointer of 32 bits. -/
def writeLog (element : ℤ) : List UInt8 := Bytes.ofInt 4 element

def writeIds (ids : List UInt8) : List UInt8 := ids.flatMap fun id => writeLog id.toNat

/-- An address and the id assigned to it. -/
def writeAssigned (a : LinkAddr addrSize × UInt8) : List UInt8 := a.1.toList ++ writeLog a.2.toNat

/-- The bytes that the handlers append for an event. In the record of a sent
SetHLMAC, `i` is the 8-bit counter of the loop that made the packet, and a `do`
loop up to it writes the entries. -/
def record : LogEvent addrSize → List UInt8
  | .helloSent numberOfHelloMessages => writeLog 0xFFFF1111 ++ writeLog numberOfHelloMessages
  | .helloReceived sender => writeLog 0xFFFF2222 ++ sender.toList
  | .sethlmacSent timestamp hlmacPrefix assigned =>
      let i := (assigned.length + 1) % 256
      writeLog 0xFFFF3333 ++ writeLog timestamp ++ writeLog hlmacPrefix.length ++
        writeIds hlmacPrefix ++ writeLog i ++ (assigned.take (max 1 (i - 1))).flatMap writeAssigned
  | .sethlmacReceived sender timestamp address =>
      writeLog 0xFFFF4444 ++ sender.toList ++ writeLog timestamp ++ writeLog address.length ++
        writeIds address
  | .loadSent load => writeLog 0xFFFF5555 ++ writeLog load
  | .loadReceived sender load => writeLog 0xFFFF6666 ++ sender.toList ++ writeLog load
  | .shareSent extraLoad => writeLog 0xFFFF7777 ++ writeLog extraLoad
  | .shareReceived sender extraLoad => writeLog 0xFFFF8888 ++ sender.toList ++ writeLog extraLoad
  | .edge => writeLog 0xFFFF9999
  | .hlmacAdded address timestamp =>
      writeLog 0xFFFFAAAA ++ writeLog address.length ++ writeIds address ++ writeLog timestamp
  | .convergence convergenceTime => writeLog 0xFFFFBBBB ++ writeLog convergenceTime

/-- The log after a sequence of events. -/
def records (es : List (LogEvent addrSize)) : List UInt8 := es.flatMap record

/-- What a handler can log: the lengths that are kept in 8 bits, and the ids and
entries that there always are. A sent SetHLMAC has at most 254 entries, since
the loop that makes it does not end at 255. -/
def Loggable : LogEvent addrSize → Prop
  | .sethlmacSent _ hlmacPrefix assigned =>
      hlmacPrefix ≠ [] ∧ hlmacPrefix.length ≤ 255 ∧ assigned ≠ [] ∧ assigned.length ≤ 254
  | .sethlmacReceived _ _ address => 2 ≤ address.length ∧ address.length ≤ 255
  | .hlmacAdded address _ => address ≠ [] ∧ address.length ≤ 255
  | _ => True

theorem length_packEntries {α : Type*} [DecidableEq α] (macMaxPayload : ℤ) (addrSize d : ℕ)
    (nbs : List (NeighbourTableEntry α)) :
    (packEntries macMaxPayload addrSize d nbs).length ≤ 1 ∨
      (d + (packEntries macMaxPayload addrSize d nbs).length * (addrSize + 1) : ℤ) ≤
        macMaxPayload := by
  induction nbs generalizing d with
  | nil => exact .inl (Nat.zero_le 1)
  | cons nb nbs ih =>
      rw [packEntries, List.length_cons]
      split
      · rename_i hfit
        refine .inr ?_
        have hrest := ih (d + 1 + addrSize)
        generalize (packEntries macMaxPayload addrSize (d + 1 + addrSize) nbs).length = rest at hrest ⊢
        rw [Nat.cast_add, add_mul, Nat.cast_one, one_mul]
        rcases hrest with hone | hmany
        · rcases Nat.le_one_iff_eq_zero_or_eq_one.1 hone with rfl | rfl <;> omega
        · omega
      · exact .inl (Nat.le_refl 1)

/-- The broadcast packet has no room for more than 125 bytes. -/
theorem length_packEntries_le {α : Type*} [DecidableEq α] (framerHdrlen : ℤ) (addrSize d : ℕ)
    (nbs : List (NeighbourTableEntry α)) :
    (packEntries (maxPayload framerHdrlen) addrSize d nbs).length ≤ 125 := by
  have hmac := maxPayload_le framerHdrlen
  rcases length_packEntries (maxPayload framerHdrlen) addrSize d nbs with hone | hmany
  · omega
  · have hnonneg : (0 : ℤ) ≤
        (packEntries (maxPayload framerHdrlen) addrSize d nbs).length * (addrSize : ℤ) :=
      Int.mul_nonneg (Int.natCast_nonneg _) (Int.natCast_nonneg _)
    rw [mul_add, mul_one] at hmany
    omega

theorem length_unicastTargets {α : Type*} [DecidableEq α] {macMaxPayload : ℤ} {addrSize : ℕ}
    {addr : HlmacAddr} {nbs l : List (NeighbourTableEntry α)} (hnbs : nbs.length ≤ 255)
    (h : unicastTargets macMaxPayload addrSize addr nbs = some l) : l.length ≤ 254 := by
  unfold unicastTargets at h
  split at h
  · split at h
    · cases h
    · obtain rfl := Option.some.inj h
      omega
  · obtain rfl := Option.some.inj h
    rw [List.length_take]
    omega

/-- The addresses and ids in the payload entries of a SetHLMAC. -/
def assignedIn (es : List (PayloadEntry (LinkAddr addrSize))) : List (LinkAddr addrSize × UInt8) :=
  es.flatMap fun e =>
    match e.payload with
    | .sethlmac _ _ assigned => assigned.map Prod.swap
    | _ => []

/-- What `iotorii_send_sethlmac` sends can be logged. -/
theorem loggable_sethlmacSent {cfg : Config (LinkAddr addrSize)} {framerHdrlen : ℤ}
    {addr : HlmacAddr} {timestamp : ℕ}
    {randomList : List (Option (NeighbourTableEntry (LinkAddr addrSize)))}
    {es : List (PayloadEntry (LinkAddr addrSize))}
    (h : sethlmacEntries cfg (maxPayload framerHdrlen) addr timestamp randomList = some es)
    (hes : es ≠ []) (hids : addr.ids ≠ []) (hlen : addr.ids.length ≤ 255)
    (hlist : randomList.length ≤ 255) :
    Loggable (.sethlmacSent timestamp addr.ids (assignedIn es)) := by
  refine ⟨hids, hlen, ?_⟩
  unfold sethlmacEntries at h
  split at h
  · split at h
    · split at h
      · cases h
      · rename_i nbs hnbs
        have hcount := (mapM_id_eq_some hnbs).2
        split at h
        · obtain rfl := Option.some.inj h
          have hle := length_packEntries_le framerHdrlen cfg.addrSize (4 + 1 + addr.len.toNat) nbs
          simp only [assignedIn, List.flatMap_cons, List.flatMap_nil, List.append_nil,
            List.map_map, List.length_map, ne_eq, List.map_eq_nil_iff]
          refine ⟨?_, hle.trans (by decide)⟩
          cases nbs with
          | nil => exact absurd hcount (by simp)
          | cons nb nbs => exact List.cons_ne_nil _ _
        · obtain ⟨l, hl, rfl⟩ := Option.map_eq_some_iff.1 h
          have hassigned : assignedIn (l.map fun nb => (⟨.sethlmac timestamp addr.ids
              [(nb.numberId, nb.addr)], nb.addr, timestamp⟩ : PayloadEntry (LinkAddr addrSize))) =
              l.map fun nb => (nb.addr, nb.numberId) := by
            rw [assignedIn, List.flatMap_map]
            exact List.flatMap_pure_eq_map _ l
          rw [hassigned, List.length_map]
          refine ⟨fun hnil => hes ?_, length_unicastTargets (hcount ▸ hlist) hl⟩
          rw [List.map_eq_nil_iff.1 hnil, List.map_nil]
    · exact absurd (Option.some.inj h).symm hes
  · exact absurd (Option.some.inj h).symm hes

/-! ## Printing -/

abbrev Output := List Char

/-- `%02x` of a byte. -/
def print02x (b : UInt8) : Output := [Nat.digitChar (b.toNat / 16), Nat.digitChar (b.toNat % 16)]

/-- `%2.2X`. -/
def print2X (n : ℕ) : Output :=
  (if n < 16 then ['0'] else []) ++ (Nat.toDigits 16 n).map Char.toUpper

/-- `%d`. -/
def printD (x : ℤ) : Output := (if x < 0 then ['-'] else []) ++ Nat.toDigits 10 x.natAbs

/-- The loop that prints an address, with a point before every second byte. -/
def printAddr (a : LinkAddr addrSize) : Output :=
  (List.finRange addrSize).flatMap fun i =>
    (if 0 < i.val ∧ i.val % 2 = 0 then ['.'] else []) ++ print02x a[i]

/-- `IOTORII_NODE_TYPE` as it is printed. -/
def printType : NodeType → Output
  | .root => "Root".toList
  | .common => "Common".toList

/-! ### The `printf` calls of `read_log` -/

def printHello (addr : LinkAddr addrSize) : Output :=
  printAddr addr ++ "\",".toList ++ "\n\r\t\t\t\"Type\"    :\t\"Hello\"".toList

def printEdge (addr : LinkAddr addrSize) : Output :=
  printAddr addr ++ "\",".toList ++ "\n\r\t\t\t\"Type\"    :\t\"INFO\",".toList ++
    "\n\r\t\t\t\"Content\" :\t\"Edge\"".toList

def typeLoad : Output := "\n\r\t\t\t\"Type\"    :\t\"Load\",".toList

def typeShare : Output := "\n\r\t\t\t\"Type\"    :\t\"Share\",".toList

def typeConvergence : Output :=
  "\n\r\t\t\t\"Type\"    :\t\"INFO\",".toList ++
    "\n\r\t\t\t\"Content\" :\t\"Convergence\",".toList

def printValue (addr : LinkAddr addrSize) (type value : Output) : Output :=
  printAddr addr ++ "\",".toList ++ type ++ "\n\r\t\t\t\"Value\"   :\t\"".toList ++ value ++
    "\"".toList

def printSethlmac (addr : LinkAddr addrSize) (timestamp : ℤ) (ids assigned : Output) : Output :=
  printAddr addr ++ "\",".toList ++ "\n\r\t\t\t\"Type\"    :\t\"SetHLMAC\",".toList ++
    "\n\r\t\t\t\"Content\" :\n\r\t\t\t\x7b".toList ++ "\n\r\t\t\t\t\"Timestamp\"  :\t\"".toList ++
    printD timestamp ++ "\",".toList ++ "\n\r\t\t\t\t\"Prefix\"     :\t\"".toList ++ ids ++
    "\",".toList ++ "\n\r\t\t\t\t\"HLMAC\"      :".toList ++
    "\n\r\t\t\t\t\t\x7b".toList ++ assigned ++
    "\n\r\t\t\t\t\t\x7d".toList ++ "\n\r\t\t\t\x7d".toList

/-- An address and its id; `more` of them follow. -/
def printAssigned (addr : LinkAddr addrSize) (id more : ℕ) : Output :=
  "\n\r\t\t\t\t\t\t\"".toList ++ printAddr addr ++ "\" :\t\"".toList ++ print2X id ++
    "\"".toList ++ if 0 < more then ",".toList else []

def printHlmacAdded (addr : LinkAddr addrSize) (ids : Output) (timestamp : ℤ) : Output :=
  printAddr addr ++ "\",".toList ++ "\n\r\t\t\t\"Type\"    :\t\"INFO\",".toList ++
    "\n\r\t\t\t\"Content\" :\t\"HLMAC added\",".toList ++ "\n\r\t\t\t\"Value\"   :\t\"".toList ++
    ids ++ "\",".toList ++ "\n\r\t\t\t\"Timestamp\"   :\t\"".toList ++ printD timestamp ++
    "\"".toList

/-- A turn of the loop over the records, with `out` from its `switch`. -/
def printObject (out : Output) (last : Bool) : Output :=
  "\n\r\t\t\x7b".toList ++ "\n\r\t\t\t\"Origin\"  :\t\"".toList ++ out ++
    if last then "\n\r\t\t\x7d".toList else "\n\r\t\t\x7d,".toList

/-- What is printed around the records. -/
def printLog (self : LinkAddr addrSize) (nodeType : NodeType) (out : Output) : Output :=
  "\n\r\t\x7b\n\r\t\t\"MAC\"      :\t\"".toList ++ printAddr self ++ "\",".toList ++
    "\n\r\t\t\"Type\"     :\t\"".toList ++ printType nodeType ++ "\",".toList ++
    "\n\r\t\t\"Message\"  :\t[".toList ++ out ++ "\n\r\t\t]".toList ++ "\n\r\t\x7d\n\r".toList

/-! ## Reading -/

section Read

variable (self : LinkAddr addrSize) (mem : ℕ → UInt8)

/-- Four bytes of the log as an `int`. -/
def readInt (p : ℕ) : ℤ := Bytes.toInt (Wire.copy mem p 4)

/-- Four bytes of the log as `switch` and `%X` take them. -/
def readUnsigned (p : ℕ) : ℕ := Bytes.toNat (Wire.copy mem p 4)

/-- The loops over the ids of an address behind its first one. -/
def readIds : ℕ → ℕ → Output × ℕ
  | 0, counter => ([], counter)
  | k + 1, counter =>
      let id := readUnsigned mem (counter + 4)
      let rest := readIds k (counter + 4)
      ('.' :: print2X id ++ rest.1, rest.2)

/-- The loop over the addresses that got an id. -/
def readAssigned (addrSize : ℕ) : ℕ → ℕ → Output × ℕ
  | 0, counter => ([], counter)
  | k + 1, counter =>
      let addr : LinkAddr addrSize := Wire.copyAddr mem (counter + 4)
      let counter := counter + addrSize
      let id := readUnsigned mem (counter + 4)
      let rest := readAssigned addrSize k (counter + 4)
      (printAssigned addr id k ++ rest.1, rest.2)

/-- The branches of the `switch` that read one value behind the address. -/
def readValue (addr : LinkAddr addrSize) (type : Output) (counter : ℕ) : Output × ℕ :=
  (printValue addr type (printD (readInt mem (counter + 4))), counter + 4)

/-- `case 0xFFFF3333`. -/
def readSethlmacSent (counter : ℕ) : Output × ℕ :=
  let timestamp := readInt mem (counter + 4)
  let counter := counter + 4
  let len := readInt mem (counter + 4)
  let counter := counter + 4
  let first := readUnsigned mem (counter + 4)
  let ids := readIds mem (len - 1).toNat (counter + 4)
  let len := readInt mem (ids.2 + 4)
  let assigned := readAssigned mem addrSize (len - 1).toNat (ids.2 + 4)
  (printSethlmac self timestamp (print2X first ++ ids.1) assigned.1, assigned.2)

/-- `case 0xFFFF4444`. -/
def readSethlmacReceived (counter : ℕ) : Output × ℕ :=
  let addr : LinkAddr addrSize := Wire.copyAddr mem (counter + 4)
  let counter := counter + addrSize
  let timestamp := readInt mem (counter + 4)
  let counter := counter + 4
  let len := readInt mem (counter + 4)
  let counter := counter + 4
  let first := readUnsigned mem (counter + 4)
  let ids := readIds mem (len - 2).toNat (counter + 4)
  let last := readUnsigned mem (ids.2 + 4)
  (printSethlmac addr timestamp (print2X first ++ ids.1) (printAssigned self last 0), ids.2 + 4)

/-- `case 0xFFFFAAAA`. -/
def readHlmacAdded (counter : ℕ) : Output × ℕ :=
  let len := readInt mem (counter + 4)
  let counter := counter + 4
  let first := readUnsigned mem (counter + 4)
  let ids := readIds mem (len - 1).toNat (counter + 4)
  let timestamp := readInt mem (ids.2 + 4)
  (printHlmacAdded self (print2X first ++ ids.1) timestamp, ids.2 + 4)

/-- The `switch` of `read_log`, with `counter` at the code: what is printed, and
where it leaves the counter. -/
def readRecord (counter : ℕ) : Output × ℕ :=
  let addr : LinkAddr addrSize := Wire.copyAddr mem (counter + 4)
  match readUnsigned mem counter with
  | 0xFFFF1111 => (printHello self, counter + 4)
  | 0xFFFF2222 => (printHello addr, counter + addrSize)
  | 0xFFFF3333 => readSethlmacSent self mem counter
  | 0xFFFF4444 => readSethlmacReceived self mem counter
  | 0xFFFF5555 => readValue mem self typeLoad counter
  | 0xFFFF6666 => readValue mem addr typeLoad (counter + addrSize)
  | 0xFFFF7777 => readValue mem self typeShare counter
  | 0xFFFF8888 => readValue mem addr typeShare (counter + addrSize)
  | 0xFFFF9999 => (printEdge self, counter)
  | 0xFFFFAAAA => readHlmacAdded self mem counter
  | 0xFFFFBBBB => readValue mem self typeConvergence counter
  | _ => ([], counter)

/-- The loop of `read_log`. Each turn passes a code, so that there are at most as
many turns as there are bytes. -/
def readRecords (memUsed : ℤ) : ℕ → ℕ → Output × ℕ
  | 0, counter => ([], counter)
  | turns + 1, counter =>
      if (counter : ℤ) < memUsed then
        let object := readRecord self mem counter
        let rest := readRecords memUsed turns (object.2 + 4)
        (printObject object.1 (memUsed ≤ object.2 + 4) ++ rest.1, rest.2)
      else ([], counter)

/-- What `read_log` prints, and where the counter stops. -/
def readLog (nodeType : NodeType) (memUsed : ℤ) : Output × ℕ :=
  let objects := readRecords self mem memUsed memUsed.toNat 0
  (printLog self nodeType objects.1, objects.2)

end Read

end Log

end Den2ne
