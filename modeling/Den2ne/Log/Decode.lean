import Den2ne.Log.Layout

/-!
# Reading the log back

`read_log` reads what the handlers have written: it stops at the end of the last
record, and prints a JSON text with one object for each event, in their order
(`readLog_records`).
-/

namespace Den2ne

namespace Log

open Json (Field quoted)

variable {addrSize : ℕ}

/-! ## Reading what was written -/

section Read

variable {data l rest : List UInt8} {p c : ℕ} (beyond : ℕ → UInt8)

/-- What follows a piece of the log. -/
theorem drop_next (h : data.drop p = l ++ rest) : data.drop (p + l.length) = rest := by
  rw [← List.drop_drop, h, List.drop_left]

@[simp] theorem length_writeLog (x : ℤ) : (writeLog x).length = 4 := Bytes.length_ofInt 4 x

/-- What follows a value in the log. -/
theorem drop_writeLog {x : ℤ} (h : data.drop p = writeLog x ++ rest) :
    data.drop (p + 4) = rest := by
  rw [← length_writeLog x]
  exact drop_next h

/-- What follows an address in the log. -/
theorem drop_addr {a : LinkAddr addrSize} (h : data.drop p = a.toList ++ rest) :
    data.drop (p + addrSize) = rest := by
  rw [← a.length_toList]
  exact drop_next h

theorem readInt_writeLog {x : ℤ} (h : data.drop p = writeLog x ++ rest) :
    readInt (Wire.memory data beyond) p = int32 x := by
  have hcopy := Wire.copy_of_drop beyond h
  rw [length_writeLog] at hcopy
  rw [readInt, hcopy, writeLog, Bytes.toInt_ofInt]
  rfl

theorem readUnsigned_writeLog {n : ℕ} (hn : n < 2 ^ 32) (h : data.drop p = writeLog n ++ rest) :
    readUnsigned (Wire.memory data beyond) p = n := by
  have hcopy := Wire.copy_of_drop beyond h
  rw [length_writeLog] at hcopy
  rw [readUnsigned, hcopy, writeLog, Bytes.ofInt, Bytes.toNat_ofNat]
  omega

theorem readUnsigned_id {id : UInt8} (h : data.drop p = writeLog id.toNat ++ rest) :
    readUnsigned (Wire.memory data beyond) p = id.toNat :=
  readUnsigned_writeLog beyond (id.toNat_lt.trans (by decide)) h

/-- A length is read as it is. -/
theorem readInt_length {n : ℕ} (hn : n < 256) (h : data.drop p = writeLog n ++ rest) :
    readInt (Wire.memory data beyond) p = n := by
  rw [readInt_writeLog beyond h, int32, Int.bmod_eq_of_le (by omega) (by omega)]

theorem readIds_writeIds (ids : List UInt8)
    (h : data.drop (c + 4) = writeIds ids ++ rest) :
    readIds (Wire.memory data beyond) ids.length c =
      (ids.flatMap fun id => '.' :: print2X id.toNat, c + (writeIds ids).length) ∧
    data.drop (c + (writeIds ids).length + 4) = rest := by
  induction ids generalizing c with
  | nil => exact ⟨rfl, h⟩
  | cons id ids ih =>
      rw [writeIds, List.flatMap_cons, List.append_assoc] at h
      obtain ⟨hread, hdrop⟩ := ih (c := c + 4) (drop_writeLog h)
      have hlength : (writeIds (id :: ids)).length = 4 + (writeIds ids).length := by
        simp [writeIds]
      rw [List.length_cons, readIds, readUnsigned_id beyond h, hread, hlength, ← Nat.add_assoc]
      exact ⟨rfl, hdrop⟩

theorem readAssigned_writeAssigned (assigned : List (LinkAddr addrSize × UInt8))
    (h : data.drop (c + 4) = assigned.flatMap writeAssigned ++ rest) :
    readAssigned (Wire.memory data beyond) addrSize assigned.length c =
      (Json.commas (((assigned.map fun a => (printAddr a.1, print2X a.2.toNat)).map
          assignedField).map Field.member), c + (assigned.flatMap writeAssigned).length) := by
  induction assigned generalizing c with
  | nil => simp [readAssigned, Json.commas]
  | cons a assigned ih =>
      rw [List.flatMap_cons, writeAssigned, List.append_assoc, List.append_assoc] at h
      have hid := drop_addr h
      rw [Nat.add_right_comm] at hid
      have hread := ih (c := c + addrSize + 4) (drop_writeLog hid)
      have hlength : ((a :: assigned).flatMap writeAssigned).length =
          addrSize + 4 + (assigned.flatMap writeAssigned).length := by
        simp [writeAssigned, Nat.add_assoc]
      rw [List.length_cons, readAssigned, Wire.copyAddr_of_drop beyond h,
        readUnsigned_id beyond hid, hread, hlength, ← Nat.add_assoc, ← Nat.add_assoc]
      cases assigned with
      | nil =>
          unfold printAssigned
          simp [Json.commas, assignedField, stringField, Field.member, quoted]
      | cons b assigned =>
          unfold printAssigned
          simp [Json.commas, assignedField, stringField, Field.member, quoted]

/-- A turn of the loop prints the object of its record. -/
theorem printObject_true (self : LinkAddr addrSize) (e : LogEvent addrSize) :
    printObject (printAddr (origin self e) ++ "\",".toList ++
      Json.commas ((detailFields self e).map Field.member)) true = printed self e := by
  have hne : detailFields self e ≠ [] := by cases e <;> simp [detailFields]
  obtain ⟨f, fs, hfs⟩ := List.exists_cons_of_ne_nil hne
  unfold printObject printed fields
  rw [hfs]
  simp [Field.object, Json.commas, eventField, stringField, Field.member, quoted]

theorem printObject_false (out : Output) :
    printObject out false = printObject out true ++ [','] := by
  unfold printObject
  simp

theorem printSethlmac_eq (addr : LinkAddr addrSize) (timestamp : ℤ) (ids : Output)
    (assigned : List (Output × Output)) :
    printSethlmac addr timestamp ids (Json.commas ((assigned.map assignedField).map Field.member)) =
      printAddr addr ++ "\",".toList ++ Json.commas
        ([eventField "Type".toList "    ".toList "SetHLMAC".toList,
          sethlmacField timestamp ids assigned].map Field.member) := by
  unfold printSethlmac sethlmacField
  simp [objectField, contentField, eventField, stringField, Field.object, Json.commas,
    Field.member, quoted]

theorem printHello_eq (addr : LinkAddr addrSize) :
    printHello addr = printAddr addr ++ "\",".toList ++ Json.commas
      ([eventField "Type".toList "    ".toList "Hello".toList].map Field.member) := by
  unfold printHello
  simp [eventField, stringField, Json.commas, Field.member, quoted]

theorem printEdge_eq (addr : LinkAddr addrSize) :
    printEdge addr = printAddr addr ++ "\",".toList ++ Json.commas
      ([eventField "Type".toList "    ".toList "INFO".toList,
        eventField "Content".toList " ".toList "Edge".toList].map Field.member) := by
  unfold printEdge
  simp [eventField, stringField, Json.commas, Field.member, quoted]

theorem printHlmacAdded_eq (addr : LinkAddr addrSize) (ids : Output) (timestamp : ℤ) :
    printHlmacAdded addr ids timestamp = printAddr addr ++ "\",".toList ++ Json.commas
      ([eventField "Type".toList "    ".toList "INFO".toList,
        eventField "Content".toList " ".toList "HLMAC added".toList,
        eventField "Value".toList "   ".toList ids,
        eventField "Timestamp".toList "   ".toList (printD timestamp)].map Field.member) := by
  unfold printHlmacAdded
  simp [eventField, stringField, Json.commas, Field.member, quoted]

theorem printLoad_eq (addr : LinkAddr addrSize) (value : Output) :
    printValue addr typeLoad value = printAddr addr ++ "\",".toList ++ Json.commas
      ([eventField "Type".toList "    ".toList "Load".toList,
        eventField "Value".toList "   ".toList value].map Field.member) := by
  unfold printValue typeLoad
  simp [eventField, stringField, Json.commas, Field.member, quoted]

theorem printShare_eq (addr : LinkAddr addrSize) (value : Output) :
    printValue addr typeShare value = printAddr addr ++ "\",".toList ++ Json.commas
      ([eventField "Type".toList "    ".toList "Share".toList,
        eventField "Value".toList "   ".toList value].map Field.member) := by
  unfold printValue typeShare
  simp [eventField, stringField, Json.commas, Field.member, quoted]

theorem printConvergence_eq (addr : LinkAddr addrSize) (value : Output) :
    printValue addr typeConvergence value = printAddr addr ++ "\",".toList ++ Json.commas
      ([eventField "Type".toList "    ".toList "INFO".toList,
        eventField "Content".toList " ".toList "Convergence".toList,
        eventField "Value".toList "   ".toList value].map Field.member) := by
  unfold printValue typeConvergence
  simp [eventField, stringField, Json.commas, Field.member, quoted]

theorem readSethlmacSent_record (self : LinkAddr addrSize) {timestamp : ℕ}
    {hlmacPrefix : List UInt8} {assigned : List (LinkAddr addrSize × UInt8)}
    (he : Loggable (.sethlmacSent timestamp hlmacPrefix assigned))
    (h : data.drop c = record (.sethlmacSent timestamp hlmacPrefix assigned) ++ rest) :
    ∃ counter, counter + 4 = c + (record (.sethlmacSent timestamp hlmacPrefix assigned)).length ∧
      readSethlmacSent self (Wire.memory data beyond) c =
        (printSethlmac self (int32 timestamp) (dotted hlmacPrefix)
          (Json.commas (((assigned.map fun a => (printAddr a.1, print2X a.2.toNat)).map
            assignedField).map Field.member)), counter) := by
  obtain ⟨hne, hlength, hassigned, hcount⟩ := he
  obtain ⟨id, ids, rfl⟩ := List.exists_cons_of_ne_nil hne
  have hpos := List.length_pos_iff.2 hassigned
  have hi : (assigned.length + 1) % 256 = assigned.length + 1 := Nat.mod_eq_of_lt (by omega)
  have hall : assigned.take (max 1 (assigned.length + 1 - 1)) = assigned :=
    List.take_of_length_le (by omega)
  simp only [record, hi, hall, writeIds, List.flatMap_cons, List.append_assoc] at h ⊢
  have htimestamp := drop_writeLog h
  have hlen := drop_writeLog htimestamp
  have hfirst := drop_writeLog hlen
  obtain ⟨hids, hcounter⟩ := readIds_writeIds beyond ids (drop_writeLog hfirst)
  have hentries := readAssigned_writeAssigned beyond assigned (drop_writeLog hcounter)
  have hlen' : ((((id :: ids).length : ℕ) : ℤ) - 1).toNat = ids.length := by
    rw [List.length_cons]
    omega
  have hturns : (((assigned.length + 1 : ℕ) : ℤ) - 1).toNat = assigned.length := by omega
  refine ⟨c + 4 + 4 + 4 + (writeIds ids).length + 4 + (assigned.flatMap writeAssigned).length,
    ?_, ?_⟩
  · simp only [writeIds, List.length_append, length_writeLog]
    omega
  · unfold readSethlmacSent
    dsimp only
    rw [readInt_writeLog beyond htimestamp, readInt_length beyond (Nat.lt_succ_of_le hlength) hlen,
      readUnsigned_id beyond hfirst, hlen', hids]
    dsimp only
    rw [readInt_length beyond (Nat.lt_succ_of_le (Nat.succ_le_succ hcount)) hcounter, hturns,
      hentries]
    rfl

/-- An address with at least two ids, its first and its last one apart. -/
theorem exists_first_last {address : List UInt8} (h : 2 ≤ address.length) :
    ∃ first ids last, address = first :: (ids ++ [last]) := by
  cases address with
  | nil => cases h
  | cons first tail =>
      rcases List.eq_nil_or_concat tail with rfl | ⟨ids, last, rfl⟩
      · simp at h
      · exact ⟨first, ids, last, by rw [List.concat_eq_append]⟩

theorem readSethlmacReceived_record (self : LinkAddr addrSize) {sender : LinkAddr addrSize}
    {timestamp : ℕ} {address : List UInt8}
    (he : Loggable (.sethlmacReceived sender timestamp address))
    (h : data.drop c = record (.sethlmacReceived sender timestamp address) ++ rest) :
    ∃ counter, counter + 4 = c + (record (.sethlmacReceived sender timestamp address)).length ∧
      readSethlmacReceived self (Wire.memory data beyond) c =
        (printSethlmac sender (int32 timestamp) (dotted address.dropLast)
          (Json.commas (([(printAddr self, dotted (address.drop (address.length - 1)))].map
            assignedField).map Field.member)), counter) := by
  obtain ⟨hlength, hle⟩ := he
  obtain ⟨id, ids, last, rfl⟩ := exists_first_last hlength
  have hlast : dotted ((id :: (ids ++ [last])).drop ((id :: (ids ++ [last])).length - 1)) =
      print2X last.toNat := by
    simp [dotted]
  have hfront : dotted (id :: (ids ++ [last])).dropLast =
      print2X id.toNat ++ ids.flatMap fun id => '.' :: print2X id.toNat := by
    rw [List.dropLast_cons_of_ne_nil (by simp), List.dropLast_concat, dotted]
  have hassigned : printAssigned self last.toNat 0 =
      Json.commas
        (([(printAddr self, print2X last.toNat)].map assignedField).map Field.member) := by
    unfold printAssigned
    simp [Json.commas, assignedField, stringField, Field.member, quoted]
  have hcount : ((((id :: (ids ++ [last])).length : ℕ) : ℤ) - 2).toNat = ids.length := by
    rw [List.length_cons, List.length_append, List.length_singleton]
    omega
  simp only [record, writeIds, List.flatMap_cons, List.flatMap_append, List.flatMap_nil,
    List.append_nil, List.append_assoc] at h ⊢
  have haddr := drop_writeLog h
  have htimestamp := drop_addr haddr
  rw [Nat.add_right_comm] at htimestamp
  have hlen := drop_writeLog htimestamp
  have hfirst := drop_writeLog hlen
  obtain ⟨hids, hcounter⟩ := readIds_writeIds beyond ids (drop_writeLog hfirst)
  refine ⟨c + addrSize + 4 + 4 + 4 + (writeIds ids).length + 4, ?_, ?_⟩
  · simp only [writeIds, List.length_append, length_writeLog, Vector.length_toList]
    omega
  · unfold readSethlmacReceived
    dsimp only
    rw [Wire.copyAddr_of_drop beyond haddr, readInt_writeLog beyond htimestamp,
      readInt_length beyond (Nat.lt_succ_of_le hle) hlen, readUnsigned_id beyond hfirst, hcount,
      hids, readUnsigned_id beyond hcounter, hlast, hfront, hassigned]

theorem readHlmacAdded_record (self : LinkAddr addrSize) {timestamp : ℕ} {address : List UInt8}
    (he : Loggable (.hlmacAdded address timestamp : LogEvent addrSize))
    (h : data.drop c = record (.hlmacAdded address timestamp : LogEvent addrSize) ++ rest) :
    ∃ counter,
      counter + 4 = c + (record (.hlmacAdded address timestamp : LogEvent addrSize)).length ∧
      readHlmacAdded self (Wire.memory data beyond) c =
        (printHlmacAdded self (dotted address) (int32 timestamp), counter) := by
  obtain ⟨hne, hlength⟩ := he
  obtain ⟨id, ids, rfl⟩ := List.exists_cons_of_ne_nil hne
  have hcount : ((((id :: ids).length : ℕ) : ℤ) - 1).toNat = ids.length := by
    rw [List.length_cons]
    omega
  simp only [record, writeIds, List.flatMap_cons, List.append_assoc] at h ⊢
  have hlen := drop_writeLog h
  have hfirst := drop_writeLog hlen
  obtain ⟨hids, hcounter⟩ := readIds_writeIds beyond ids (drop_writeLog hfirst)
  refine ⟨c + 4 + 4 + (writeIds ids).length + 4, ?_, ?_⟩
  · simp only [writeIds, List.length_append, length_writeLog]
    omega
  · unfold readHlmacAdded
    dsimp only
    rw [readInt_length beyond (Nat.lt_succ_of_le hlength) hlen, readUnsigned_id beyond hfirst,
      hcount, hids, readInt_writeLog beyond hcounter, dotted]

/-- The code of a record, and what follows it. -/
theorem readCode (code : ℕ) (hcode : code < 2 ^ 32) (h : data.drop c = writeLog code ++ rest) :
    readUnsigned (Wire.memory data beyond) c = code ∧ data.drop (c + 4) = rest :=
  ⟨readUnsigned_writeLog beyond hcode h, drop_writeLog h⟩

/-- A record with one value. -/
theorem readValue_writeLog (addr : LinkAddr addrSize) (type : Output) {x : ℤ}
    (h : data.drop (c + 4) = writeLog x ++ rest) :
    readValue (Wire.memory data beyond) addr type c =
      (printValue addr type (printD (int32 x)), c + 4) := by
  rw [readValue, readInt_writeLog beyond h]

/-- The `switch` reads the record that stands at the counter: it prints the
members of its object, and leaves the counter a code before the next record. -/
theorem readRecord_record (self : LinkAddr addrSize) {e : LogEvent addrSize} (he : Loggable e)
    (h : data.drop c = record e ++ rest) :
    ∃ counter, counter + 4 = c + (record e).length ∧
      readRecord self (Wire.memory data beyond) c =
        (printAddr (origin self e) ++ "\",".toList ++
          Json.commas ((detailFields self e).map Field.member), counter) := by
  cases e with
  | helloSent number =>
      rw [record, List.append_assoc] at h
      obtain ⟨hcode, -⟩ := readCode beyond 0xFFFF1111 (by decide) h
      refine ⟨c + 4, by simp [record], ?_⟩
      simp only [readRecord, hcode]
      exact congrArg (·, c + 4) (printHello_eq self)
  | helloReceived sender =>
      rw [record, List.append_assoc] at h
      obtain ⟨hcode, haddr⟩ := readCode beyond 0xFFFF2222 (by decide) h
      refine ⟨c + addrSize, by simp [record]; omega, ?_⟩
      simp only [readRecord, hcode, Wire.copyAddr_of_drop beyond haddr]
      exact congrArg (·, c + addrSize) (printHello_eq sender)
  | sethlmacSent timestamp hlmacPrefix assigned =>
      obtain ⟨counter, hcounter, hread⟩ := readSethlmacSent_record beyond self he h
      simp only [record, List.append_assoc] at h
      obtain ⟨hcode, -⟩ := readCode beyond 0xFFFF3333 (by decide) h
      refine ⟨counter, hcounter, ?_⟩
      simp only [readRecord, hcode, hread]
      exact congrArg (·, counter) (printSethlmac_eq self _ _ _)
  | sethlmacReceived sender timestamp address =>
      obtain ⟨counter, hcounter, hread⟩ := readSethlmacReceived_record beyond self he h
      simp only [record, List.append_assoc] at h
      obtain ⟨hcode, -⟩ := readCode beyond 0xFFFF4444 (by decide) h
      refine ⟨counter, hcounter, ?_⟩
      simp only [readRecord, hcode, hread]
      exact congrArg (·, counter) (printSethlmac_eq sender _ _ _)
  | loadSent load =>
      rw [record, List.append_assoc] at h
      obtain ⟨hcode, hvalue⟩ := readCode beyond 0xFFFF5555 (by decide) h
      refine ⟨c + 4, by simp [record], ?_⟩
      simp only [readRecord, hcode, readValue_writeLog beyond self typeLoad hvalue]
      exact congrArg (·, c + 4) (printLoad_eq self _)
  | loadReceived sender load =>
      simp only [record, List.append_assoc] at h
      obtain ⟨hcode, haddr⟩ := readCode beyond 0xFFFF6666 (by decide) h
      have hvalue := drop_addr haddr
      rw [Nat.add_right_comm] at hvalue
      refine ⟨c + addrSize + 4, by simp [record]; omega, ?_⟩
      simp only [readRecord, hcode, Wire.copyAddr_of_drop beyond haddr,
        readValue_writeLog beyond sender typeLoad hvalue]
      exact congrArg (·, c + addrSize + 4) (printLoad_eq sender _)
  | shareSent extraLoad =>
      rw [record, List.append_assoc] at h
      obtain ⟨hcode, hvalue⟩ := readCode beyond 0xFFFF7777 (by decide) h
      refine ⟨c + 4, by simp [record], ?_⟩
      simp only [readRecord, hcode, readValue_writeLog beyond self typeShare hvalue]
      exact congrArg (·, c + 4) (printShare_eq self _)
  | shareReceived sender extraLoad =>
      simp only [record, List.append_assoc] at h
      obtain ⟨hcode, haddr⟩ := readCode beyond 0xFFFF8888 (by decide) h
      have hvalue := drop_addr haddr
      rw [Nat.add_right_comm] at hvalue
      refine ⟨c + addrSize + 4, by simp [record]; omega, ?_⟩
      simp only [readRecord, hcode, Wire.copyAddr_of_drop beyond haddr,
        readValue_writeLog beyond sender typeShare hvalue]
      exact congrArg (·, c + addrSize + 4) (printShare_eq sender _)
  | edge =>
      rw [record] at h
      obtain ⟨hcode, -⟩ := readCode beyond 0xFFFF9999 (by decide) h
      refine ⟨c, by simp [record], ?_⟩
      simp only [readRecord, hcode]
      exact congrArg (·, c) (printEdge_eq self)
  | hlmacAdded address timestamp =>
      obtain ⟨counter, hcounter, hread⟩ := readHlmacAdded_record beyond self he h
      simp only [record, List.append_assoc] at h
      obtain ⟨hcode, -⟩ := readCode beyond 0xFFFFAAAA (by decide) h
      refine ⟨counter, hcounter, ?_⟩
      simp only [readRecord, hcode, hread]
      exact congrArg (·, counter) (printHlmacAdded_eq self _ _)
  | convergence convergenceTime =>
      rw [record, List.append_assoc] at h
      obtain ⟨hcode, hvalue⟩ := readCode beyond 0xFFFFBBBB (by decide) h
      refine ⟨c + 4, by simp [record], ?_⟩
      simp only [readRecord, hcode, readValue_writeLog beyond self typeConvergence hvalue]
      exact congrArg (·, c + 4) (printConvergence_eq self _)

theorem four_le_length_record (e : LogEvent addrSize) : 4 ≤ (record e).length := by
  cases e <;> simp [record]

/-- The loop reads all records, stops at the end of the last one, and prints
their objects with commas between them. -/
theorem readRecords_records (self : LinkAddr addrSize) {es : List (LogEvent addrSize)}
    (hes : ∀ e ∈ es, Loggable e) (turns : ℕ) (h : data.drop c = records es)
    (hc : c + (records es).length = data.length) (hturns : data.length ≤ c + turns) :
    readRecords self (Wire.memory data beyond) data.length turns c =
      (Json.commas (es.map (printed self)), data.length) := by
  induction es generalizing c turns with
  | nil =>
      rw [records, List.flatMap_nil, List.length_nil, Nat.add_zero] at hc
      subst hc
      cases turns with
      | zero => rfl
      | succ turns =>
          rw [readRecords, if_neg (by omega)]
          rfl
  | cons e es ih =>
      have hlength := four_le_length_record e
      rw [records, List.flatMap_cons, ← records] at h hc
      rw [List.length_append] at hc
      obtain ⟨turns, rfl⟩ : ∃ k, turns = k + 1 := ⟨turns - 1, by omega⟩
      obtain ⟨counter, hcounter, hread⟩ :=
        readRecord_record beyond self (hes e List.mem_cons_self) h
      have hrest := ih (fun f hf => hes f (List.mem_cons_of_mem _ hf)) (c := counter + 4)
        turns (by rw [hcounter]; exact drop_next h) (by omega) (by omega)
      rw [readRecords, if_pos (by omega), hread]
      dsimp only
      rw [hrest]
      refine congrArg (·, data.length) ?_
      cases es with
      | nil =>
          have hlast : ((data.length : ℤ) ≤ (counter : ℤ) + 4) = True := by
            rw [records, List.flatMap_nil, List.length_nil] at hc
            exact eq_true (by omega)
          simp only [hlast, decide_true, List.map_nil, Json.commas, List.append_nil,
            List.map_singleton]
          exact printObject_true self e
      | cons f es =>
          have hmore := four_le_length_record f
          have hlast : ((data.length : ℤ) ≤ (counter : ℤ) + 4) = False := by
            rw [records, List.flatMap_cons, List.length_append] at hc
            exact eq_false (by omega)
          simp only [hlast, decide_false, List.map_cons, Json.commas]
          rw [printObject_false, printObject_true, List.append_assoc]
          rfl

/-! ## The whole log -/

/-- The members of the printed log, with `out` between the brackets. -/
def logFields (self : LinkAddr addrSize) (nodeType : NodeType) (es : List (LogEvent addrSize)) :
    List Field :=
  [stringField "\n\r\t\t".toList "MAC".toList "      ".toList "\t".toList (printAddr self),
    stringField "\n\r\t\t".toList "Type".toList "     ".toList "\t".toList (printType nodeType),
    ⟨"\n\r\t\t".toList, "Message".toList, "  ".toList,
      "\t".toList ++ ('[' :: Json.commas (es.map (printed self)) ++ "\n\r\t\t".toList ++ [']']),
      .arr (es.map (json self))⟩]

theorem printLog_eq (self : LinkAddr addrSize) (nodeType : NodeType)
    (es : List (LogEvent addrSize)) :
    printLog self nodeType (Json.commas (es.map (printed self))) =
      "\n\r\t".toList ++ Field.object (logFields self nodeType es) "\n\r\t".toList ++
        "\n\r".toList := by
  unfold printLog logFields
  simp [stringField, Field.object, Json.commas, Field.member, quoted]

theorem plain_printType (nodeType : NodeType) : Json.Plain (printType nodeType) := by
  cases nodeType <;> decide

theorem text_printLog (self : LinkAddr addrSize) (nodeType : NodeType)
    (es : List (LogEvent addrSize)) :
    Json.Text (printLog self nodeType (Json.commas (es.map (printed self))))
      (jsonLog self nodeType es) := by
  rw [printLog_eq]
  refine .ws (by decide) (Field.text_object ?_ (by decide)) (by decide)
  refine List.forall_mem_cons.2 ⟨?_, List.forall_mem_cons.2 ⟨?_, List.forall_mem_singleton.2 ?_⟩⟩
  · exact valid_stringField (by decide) (by decide) (by decide) (by decide) (plain_printAddr self)
  · exact valid_stringField (by decide) (by decide) (by decide) (by decide)
      (plain_printType nodeType)
  · have hindent : Json.Ws "\n\r\t\t".toList := by decide
    have hname : Json.Plain "Message".toList := by decide
    have hgap : Json.Ws "  ".toList := by decide
    have htab : Json.Ws "\t".toList := by decide
    exact ⟨hindent, hname, hgap,
      (Json.Text.arr (Json.items_commas fun e _ => text_printed self e) hindent).indent htab⟩

/-- The log of any sequence of events is read to its end, whatever lies behind
it. -/
theorem readLog_eq (self : LinkAddr addrSize) (nodeType : NodeType)
    {es : List (LogEvent addrSize)} (hes : ∀ e ∈ es, Loggable e) :
    readLog self (Wire.memory (records es) beyond) nodeType (records es).length =
      (printLog self nodeType (Json.commas (es.map (printed self))), (records es).length) := by
  have hread := readRecords_records beyond self hes (c := 0) (records es).length
    List.drop_zero (Nat.zero_add _) (by omega)
  rw [readLog, Int.toNat_natCast, hread]

/-- The reader stops at the end of the log, and prints a JSON text of one object
for each event, in their order and with their values. -/
theorem readLog_records (self : LinkAddr addrSize) (nodeType : NodeType)
    (es : List (LogEvent addrSize)) (hes : ∀ e ∈ es, Loggable e) :
    (readLog self (Wire.memory (records es) beyond) nodeType (records es).length).2 =
        (records es).length ∧
      Json.Text (readLog self (Wire.memory (records es) beyond) nodeType (records es).length).1
        (jsonLog self nodeType es) := by
  rw [readLog_eq beyond self nodeType hes]
  exact ⟨rfl, text_printLog self nodeType es⟩

end Read

/-- A Hello, and a SetHLMAC that is received and passed on. -/
def sampleLog : List (LogEvent 2) :=
  [.helloReceived #v[2, 2], .sethlmacReceived #v[2, 2] 0 [1, 4], .hlmacAdded [1, 4] 0,
    .sethlmacSent 0 [1, 4] [(#v[3, 3], 7)]]

theorem readLog_records_sample :
    (readLog #v[1, 1] (Wire.memory (records sampleLog) fun _ => 255) .common
        (records sampleLog).length).2 = (records sampleLog).length ∧
      Json.Text (readLog #v[1, 1] (Wire.memory (records sampleLog) fun _ => 255) .common
        (records sampleLog).length).1 (jsonLog #v[1, 1] .common sampleLog) :=
  readLog_records (fun _ => 255) #v[1, 1] .common sampleLog (by simp [sampleLog, Loggable])

/-- Two logs that differ in the number of a sent Hello are printed alike. -/
theorem not_readLog_injective :
    ¬ ∀ es es' : List (LogEvent 2), (∀ e ∈ es, Loggable e) → (∀ e ∈ es', Loggable e) →
      (readLog #v[1, 1] (Wire.memory (records es) fun _ => 0) .common (records es).length).1 =
        (readLog #v[1, 1] (Wire.memory (records es') fun _ => 0) .common (records es').length).1 →
      es = es' := by
  intro h
  have hloggable : ∀ number, ∀ e ∈ [(.helloSent number : LogEvent 2)], Loggable e :=
    fun _ => List.forall_mem_singleton.2 trivial
  have hsame : ∀ number, printed (#v[1, 1] : LinkAddr 2) (.helloSent number) =
      printed #v[1, 1] (.helloSent 0) := fun _ => rfl
  have heq := h [.helloSent 0] [.helloSent 1] (hloggable 0) (hloggable 1) (by
    rw [readLog_eq _ _ _ (hloggable 0), readLog_eq _ _ _ (hloggable 1), List.map_singleton,
      List.map_singleton, hsame 1])
  rw [List.cons.injEq, LogEvent.helloSent.injEq] at heq
  exact absurd heq.1 (by decide)

end Log

end Den2ne
