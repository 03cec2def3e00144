import Den2ne.Bytes.LittleEndian
import Den2ne.Node.Receive
import Mathlib.Data.List.Range

/-!
# Packets as bytes

What `iotorii_send_sethlmac` and the two upstream handlers write into a packet,
and how `iotorii_operation` reads it. The two functions that parse a SetHLMAC
work on a copy of the packet, run before its kind is known, and do not stop at
its end: they are given all the memory from the start of the copy on, and return
the positions they have read next to their result.
-/

namespace Den2ne

/-- `linkaddr_t`, with `ADDR_SIZE` bytes. -/
abbrev LinkAddr (addrSize : ℕ) := Vector UInt8 addrSize

namespace Wire

variable {addrSize : ℕ}

/-- `linkaddr_null`. -/
def linkaddrNull (addrSize : ℕ) : LinkAddr addrSize := Vector.replicate addrSize 0

/-- An `(id, MAC)` entry. -/
def entryBytes (e : UInt8 × LinkAddr addrSize) : List UInt8 := e.1 :: e.2.toList

/-- The payload that a node builds for a message. -/
def payloadBytes : Payload (LinkAddr addrSize) → List UInt8
  | .hello => []
  | .load load => Bytes.ofInt 4 load
  | .share extraLoad => Bytes.ofInt 2 extraLoad
  | .sethlmac timestamp hlmacPrefix assigned =>
      Bytes.ofNat 4 timestamp ++ UInt8.ofNat hlmacPrefix.length :: hlmacPrefix ++
        assigned.flatMap entryBytes

/-- The memory from the start of a copy of `data` on; `beyond` is what lies
behind the copy. -/
def memory (data : List UInt8) (beyond : ℕ → UInt8) (i : ℕ) : UInt8 := data.getD i (beyond i)

/-- `memcpy` of `n` bytes from the position `p`. -/
def copy (mem : ℕ → UInt8) (p n : ℕ) : List UInt8 := (List.range n).map fun i => mem (p + i)

/-- `memcpy` of an address from the position `p`. -/
def copyAddr (mem : ℕ → UInt8) (p : ℕ) : LinkAddr addrSize := Vector.ofFn fun i => mem (p + i)

/-- The variables of the loop of `iotorii_extract_address`: `packetbuf_ptr` and
`datalen_counter` always agree. -/
structure Scan (addrSize : ℕ) where
  pos : ℕ
  id : UInt8
  linkAddress : LinkAddr addrSize
  reads : List ℕ

/-- The loop of `iotorii_extract_address`. Each turn reads an entry, so that
there are at most as many turns as there are bytes. -/
def scanEntries (self : LinkAddr addrSize) (datalen : ℕ) (mem : ℕ → UInt8) :
    ℕ → Scan addrSize → Scan addrSize
  | 0, s => s
  | turns + 1, s =>
      if s.pos < datalen ∧ s.linkAddress ≠ self then
        scanEntries self datalen mem turns
          { pos := s.pos + 1 + addrSize
            id := mem s.pos
            linkAddress := copyAddr mem (s.pos + 1)
            reads := s.reads ++ List.range' s.pos (1 + addrSize) }
      else s

/-- What `iotorii_extract_address` reads before its loop: the length of the
prefix, and the prefix. -/
def scanHeader (mem : ℕ → UInt8) : Scan addrSize where
  pos := 5 + (mem 4).toNat
  id := 0
  linkAddress := linkaddrNull addrSize
  reads := 4 :: List.range' 5 (mem 4).toNat

/-- `iotorii_extract_address`. -/
def iotoriiExtractAddress (self : LinkAddr addrSize) (datalen : ℕ) (mem : ℕ → UInt8) :
    HlmacAddr × List ℕ :=
  let hlmacPrefix : HlmacAddr := ⟨some (copy mem 5 (mem 4).toNat), mem 4⟩
  let s := scanEntries self datalen mem datalen (scanHeader mem)
  (if s.linkAddress = self then hlmacAddNewId hlmacPrefix s.id else unspecifiedHlmacAddress,
    s.reads)

/-- `iotorii_extract_timestamp`. -/
def iotoriiExtractTimestamp (mem : ℕ → UInt8) : ℕ × List ℕ :=
  (Bytes.toNat (copy mem 0 4), List.range' 0 4)

/-- `iotorii_operation` with `iotorii_handle_incoming_sethlmac_or_load`; the
memory behind the two copies of the packet may differ. -/
def iotoriiOperation (cfg : Config (LinkAddr addrSize)) (env : Env (LinkAddr addrSize))
    (sender : LinkAddr addrSize) (data : List UInt8) (beyond beyond' : ℕ → UInt8)
    (n : Node (LinkAddr addrSize)) : Option (Node (LinkAddr addrSize)) :=
  if data.length = 0 then some (iotoriiHandleIncomingHello sender n)
  else
    let addr := (iotoriiExtractAddress cfg.linkaddrNodeAddr data.length (memory data beyond)).1
    let timestamp := (iotoriiExtractTimestamp (memory data beyond')).1
    if hlmacIsUnspecifiedAddr addr then
      if data.length = 4 then some (incomingLoad cfg sender (Bytes.toInt data) n)
      else if data.length = 2 then incomingShare cfg env.junk sender (Bytes.toInt data) n
      else some n
    else incomingSethlmac cfg env sender timestamp addr n

/-! ## Reading what is there -/

variable {data l rest : List UInt8} {p : ℕ} {self : LinkAddr addrSize} (beyond : ℕ → UInt8)

theorem memory_of_drop (h : data.drop p = l ++ rest) {i : ℕ} (hi : i < l.length) :
    memory data beyond (p + i) = l[i] := by
  have hget : data[p + i]? = some l[i] := by
    rw [← List.getElem?_drop, h, List.getElem?_append_left hi, List.getElem?_eq_getElem hi]
  rw [memory, List.getD_eq_getElem?_getD, hget, Option.getD_some]

theorem copy_of_drop (h : data.drop p = l ++ rest) : copy (memory data beyond) p l.length = l := by
  refine List.ext_getElem (by simp [copy]) fun i _ hi => ?_
  simp only [copy, List.getElem_map, List.getElem_range]
  exact memory_of_drop beyond h hi

theorem copyAddr_of_drop {a : LinkAddr addrSize} (h : data.drop p = a.toList ++ rest) :
    copyAddr (memory data beyond) p = a := by
  refine Vector.ext fun i hi => ?_
  have hget := memory_of_drop beyond h (i := i) (by simpa using hi)
  rw [copyAddr, Vector.getElem_ofFn, hget, Vector.getElem_toList]

@[simp] theorem length_entryBytes (e : UInt8 × LinkAddr addrSize) :
    (entryBytes e).length = 1 + addrSize := by
  rw [entryBytes, List.length_cons, Vector.length_toList, Nat.add_comm]

/-- A turn at an entry reads the entry. -/
theorem scan_entry {e : UInt8 × LinkAddr addrSize} (h : data.drop p = entryBytes e ++ rest) :
    memory data beyond p = e.1 ∧ copyAddr (memory data beyond) (p + 1) = e.2 := by
  constructor
  · exact memory_of_drop beyond h (i := 0) (by rw [length_entryBytes]; omega)
  · have hdrop : data.drop (p + 1) = e.2.toList ++ rest := by
      rw [← List.drop_drop, h]
      rfl
    exact copyAddr_of_drop beyond hdrop

/-! ## The entries -/

variable {entries : List (UInt8 × LinkAddr addrSize)} {tail : List UInt8} {s : Scan addrSize}
  {turns : ℕ}

/-- The loop stops at the first entry that names the receiver, and reads no
further. -/
theorem scanEntries_of_find? {id : UInt8} {a : LinkAddr addrSize}
    (hdrop : data.drop s.pos = entries.flatMap entryBytes ++ tail)
    (hfind : entries.find? (·.2 = self) = some (id, a)) (hself : s.linkAddress ≠ self)
    (hturns : data.length ≤ s.pos + turns) (hreads : ∀ i ∈ s.reads, i < data.length) :
    (scanEntries self data.length (memory data beyond) turns s).linkAddress = self ∧
      (scanEntries self data.length (memory data beyond) turns s).id = id ∧
      ∀ i ∈ (scanEntries self data.length (memory data beyond) turns s).reads,
        i < data.length := by
  induction entries generalizing s turns with
  | nil => cases hfind
  | cons e entries ih =>
      rw [List.flatMap_cons, List.append_assoc] at hdrop
      have hlength := congrArg List.length hdrop
      rw [List.length_drop, List.length_append, length_entryBytes] at hlength
      obtain ⟨turns, rfl⟩ : ∃ k, turns = k + 1 := ⟨turns - 1, by omega⟩
      obtain ⟨hid, haddr⟩ := scan_entry beyond hdrop
      rw [scanEntries, if_pos ⟨by omega, hself⟩, hid, haddr]
      have hreads' : ∀ i ∈ s.reads ++ List.range' s.pos (1 + addrSize), i < data.length := by
        intro i hi
        rcases List.mem_append.1 hi with hi | hi
        · exact hreads i hi
        · rw [List.mem_range'_1] at hi
          omega
      by_cases he : e.2 = self
      · rw [List.find?_cons_of_pos (by simpa using he), Option.some.injEq] at hfind
        subst hfind
        have hstop : ∀ k, scanEntries self data.length (memory data beyond) k
            ⟨s.pos + 1 + addrSize, id, a, s.reads ++ List.range' s.pos (1 + addrSize)⟩ =
            ⟨s.pos + 1 + addrSize, id, a, s.reads ++ List.range' s.pos (1 + addrSize)⟩ := by
          intro k
          cases k with
          | zero => rfl
          | succ k => rw [scanEntries, if_neg fun h => h.2 he]
        rw [hstop]
        exact ⟨he, rfl, hreads'⟩
      · rw [List.find?_cons_of_neg (by simpa using he)] at hfind
        have hdrop' : data.drop (s.pos + 1 + addrSize) = entries.flatMap entryBytes ++ tail := by
          rw [Nat.add_assoc, ← List.drop_drop, hdrop, ← length_entryBytes e, List.drop_left]
        exact ih hdrop' hfind he (by simp only; omega) hreads'

/-- The loop runs to the end of whole entries of which none names the receiver,
and reads no further. -/
theorem scanEntries_of_not_named (turns : ℕ) (hdrop : data.drop s.pos = entries.flatMap entryBytes)
    (hfind : entries.find? (·.2 = self) = none) (hself : s.linkAddress ≠ self)
    (hreads : ∀ i ∈ s.reads, i < data.length) :
    (scanEntries self data.length (memory data beyond) turns s).linkAddress ≠ self ∧
      ∀ i ∈ (scanEntries self data.length (memory data beyond) turns s).reads,
        i < data.length := by
  induction entries generalizing s turns with
  | nil =>
      have hend : ¬ s.pos < data.length := by
        have hlength := congrArg List.length hdrop
        simp only [List.length_drop, List.flatMap_nil, List.length_nil] at hlength
        omega
      cases turns with
      | zero => exact ⟨hself, hreads⟩
      | succ turns =>
          rw [scanEntries, if_neg fun h => hend h.1]
          exact ⟨hself, hreads⟩
  | cons e entries ih =>
      cases turns with
      | zero => exact ⟨hself, hreads⟩
      | succ turns =>
          rw [List.flatMap_cons] at hdrop
          have hlength := congrArg List.length hdrop
          rw [List.length_drop, List.length_append, length_entryBytes] at hlength
          obtain ⟨hid, haddr⟩ := scan_entry beyond hdrop
          have he : e.2 ≠ self := by simpa using List.find?_eq_none.1 hfind e List.mem_cons_self
          rw [List.find?_cons_of_neg (by simpa using he)] at hfind
          rw [scanEntries, if_pos ⟨by omega, hself⟩, hid, haddr]
          have hdrop' : data.drop (s.pos + 1 + addrSize) = entries.flatMap entryBytes := by
            rw [Nat.add_assoc, ← List.drop_drop, hdrop, ← length_entryBytes e, List.drop_left]
          refine ih turns hdrop' hfind he fun i hi => ?_
          rcases List.mem_append.1 hi with hi | hi
          · exact hreads i hi
          · rw [List.mem_range'_1] at hi
            omega

/-- Whole entries up to one that names the receiver. -/
def Named (self : LinkAddr addrSize) (l : List UInt8) : Prop :=
  ∃ (entries : List (UInt8 × LinkAddr addrSize)) (id : UInt8) (tail : List UInt8),
    l = entries.flatMap entryBytes ++ entryBytes (id, self) ++ tail

/-- Whole entries and nothing else. -/
def Whole (addrSize : ℕ) (l : List UInt8) : Prop :=
  ∃ entries : List (UInt8 × LinkAddr addrSize), l = entries.flatMap entryBytes

theorem reads_subset {mem : ℕ → UInt8} {datalen : ℕ} :
    s.reads ⊆ (scanEntries self datalen mem turns s).reads := by
  induction turns generalizing s with
  | zero => exact List.Subset.refl _
  | succ turns ih =>
      rw [scanEntries]
      split
      · exact fun i hi => ih (List.mem_append_left _ hi)
      · exact List.Subset.refl _

/-- As many bytes as an entry has are an entry. -/
theorem exists_entry (addrSize : ℕ) (h : p + 1 + addrSize ≤ data.length) :
    ∃ e : UInt8 × LinkAddr addrSize,
      data.drop p = entryBytes e ++ data.drop (p + 1 + addrSize) := by
  have hdrop : data.drop p = data[p] :: data.drop (p + 1) := List.drop_eq_getElem_cons (by omega)
  have hlength : ((data.drop (p + 1)).take addrSize).length = addrSize := by
    rw [List.length_take, List.length_drop]
    omega
  have hsplit : data.drop (p + 1) =
      (data.drop (p + 1)).take addrSize ++ data.drop (p + 1 + addrSize) := by
    rw [← List.drop_drop (i := addrSize), List.take_append_drop]
  refine ⟨(data[p], ⟨((data.drop (p + 1)).take addrSize).toArray, by simpa using hlength⟩), ?_⟩
  exact hdrop.trans (congrArg (data[p] :: ·) hsplit)

/-- If the loop reads nothing that lies behind the packet, it has read whole
entries, up to one that names the receiver or to the end. -/
theorem named_or_whole (hpos : s.pos ≤ data.length) (hself : s.linkAddress ≠ self)
    (hturns : data.length ≤ s.pos + turns)
    (hreads : ∀ i ∈ (scanEntries self data.length (memory data beyond) turns s).reads,
      i < data.length) :
    Named self (data.drop s.pos) ∨ Whole addrSize (data.drop s.pos) := by
  induction turns generalizing s with
  | zero => exact .inr ⟨[], List.drop_eq_nil_of_le (by omega)⟩
  | succ turns ih =>
      by_cases hend : s.pos = data.length
      · exact .inr ⟨[], List.drop_eq_nil_of_le hend.ge⟩
      · rw [scanEntries, if_pos ⟨by omega, hself⟩] at hreads
        have hlast : s.pos + addrSize < data.length := by
          refine hreads _ (reads_subset ?_)
          refine List.mem_append_right _ ?_
          rw [List.mem_range'_1]
          omega
        obtain ⟨⟨id, a⟩, hdrop⟩ :=
          exists_entry addrSize (show s.pos + 1 + addrSize ≤ data.length by omega)
        obtain ⟨hid, haddr⟩ := scan_entry beyond hdrop
        rw [hid, haddr] at hreads
        by_cases ha : a = self
        · subst ha
          exact .inl ⟨[], id, _, hdrop⟩
        · rw [hdrop]
          rcases ih (by simp only; omega) ha (by simp only; omega) hreads with
            ⟨entries, id', tail, hrest⟩ | ⟨entries, hrest⟩
          · refine .inl ⟨(id, a) :: entries, id', tail, ?_⟩
            simp only at hrest
            rw [hrest, List.flatMap_cons]
            simp only [List.append_assoc]
          · refine .inr ⟨(id, a) :: entries, ?_⟩
            simp only at hrest
            rw [hrest, List.flatMap_cons]

/-! ## The header -/

/-- A payload of a timestamp, the length of a prefix, the prefix, and a rest
with property `P`. -/
def Headed (P : List UInt8 → Prop) (data : List UInt8) : Prop :=
  ∃ timestamp hlmacPrefix rest, timestamp.length = 4 ∧ hlmacPrefix.length ≤ 255 ∧
    data = timestamp ++ UInt8.ofNat hlmacPrefix.length :: hlmacPrefix ++ rest ∧ P rest

/-- What the parser finds in the header. -/
theorem header_of_eq {timestamp hlmacPrefix : List UInt8} (hts : timestamp.length = 4)
    (hpre : hlmacPrefix.length ≤ 255)
    (h : data = timestamp ++ UInt8.ofNat hlmacPrefix.length :: hlmacPrefix ++ rest) :
    copy (memory data beyond) 0 4 = timestamp ∧
      memory data beyond 4 = UInt8.ofNat hlmacPrefix.length ∧
      (memory data beyond 4).toNat = hlmacPrefix.length ∧
      copy (memory data beyond) 5 hlmacPrefix.length = hlmacPrefix ∧
      data.drop (5 + hlmacPrefix.length) = rest := by
  have hzero : data.drop 0 = timestamp ++ (UInt8.ofNat hlmacPrefix.length :: hlmacPrefix ++ rest) := by
    rw [h, List.append_assoc]
    rfl
  have hfour : data.drop 4 = [UInt8.ofNat hlmacPrefix.length] ++ (hlmacPrefix ++ rest) := by
    rw [h, List.append_assoc, ← hts, List.drop_left]
    rfl
  have hfive : data.drop 5 = hlmacPrefix ++ rest := by
    rw [← List.drop_drop (i := 1) (j := 4), hfour]
    rfl
  have hlen : memory data beyond 4 = UInt8.ofNat hlmacPrefix.length :=
    memory_of_drop beyond hfour (i := 0) (by simp)
  refine ⟨?_, hlen, ?_, copy_of_drop beyond hfive, ?_⟩
  · rw [← hts]
    exact copy_of_drop beyond hzero
  · rw [hlen, UInt8.toNat_ofNat']
    omega
  · rw [← List.drop_drop, hfive, List.drop_left]

theorem headed_iff {P : List UInt8 → Prop} : Headed P data ↔
    5 + (memory data beyond 4).toNat ≤ data.length ∧
      P (data.drop (5 + (memory data beyond 4).toNat)) := by
  constructor
  · rintro ⟨timestamp, hlmacPrefix, rest, hts, hpre, heq, hP⟩
    obtain ⟨-, -, htoNat, -, hrest⟩ := header_of_eq beyond hts hpre heq
    rw [htoNat, hrest]
    refine ⟨?_, hP⟩
    rw [heq, List.length_append, List.length_append, List.length_cons, hts]
    omega
  · rintro ⟨hlength, hP⟩
    refine ⟨data.take 4, (data.drop 5).take (memory data beyond 4).toNat, _, ?_, ?_, ?_, hP⟩
    · rw [List.length_take]
      omega
    · rw [List.length_take]
      have := (memory data beyond 4).toNat_lt
      omega
    · have hlen : ((data.drop 5).take (memory data beyond 4).toNat).length =
          (memory data beyond 4).toNat := by
        rw [List.length_take, List.length_drop]
        omega
      have hfour : data.drop 4 = data[4] :: data.drop 5 := List.drop_eq_getElem_cons (by omega)
      have hbyte : memory data beyond 4 = data[4] := by
        have hall : data.drop 0 = data ++ [] := by simp
        have hget := memory_of_drop beyond hall (i := 4) (by omega)
        rwa [Nat.zero_add] at hget
      rw [hlen, UInt8.ofNat_toNat, ← List.drop_drop, List.append_assoc, List.cons_append,
        List.take_append_drop, hbyte, ← hfour, List.take_append_drop]

end Wire

end Den2ne
