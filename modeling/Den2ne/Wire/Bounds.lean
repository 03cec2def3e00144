import Den2ne.Wire.Parse

/-!
# Reading past the end of a packet

`iotorii_extract_address` compares its counter with the length of the packet
before each entry, but reads the header and then whole entries without looking
at the length again, and it is run on every packet that is not empty, LOADs and
SHAREs included. `parse_safe_iff` says which packets it reads within their
bounds and takes an address from only where there is one.
-/

namespace Den2ne

namespace Wire

variable {addrSize : ℕ} {self : LinkAddr addrSize} {data : List UInt8}
  {beyond beyond' : ℕ → UInt8}

theorem named_iff {l : List UInt8} : Named self l ↔
    ∃ (entries : List (UInt8 × LinkAddr addrSize)) (tail : List UInt8),
      l = entries.flatMap entryBytes ++ tail ∧ (entries.find? (·.2 = self)).isSome = true := by
  constructor
  · rintro ⟨entries, id, tail, rfl⟩
    refine ⟨entries ++ [(id, self)], tail, by simp, ?_⟩
    rw [List.find?_isSome]
    exact ⟨(id, self), by simp, by simp⟩
  · rintro ⟨entries, tail, rfl, hfind⟩
    obtain ⟨⟨id, a⟩, hfind⟩ := Option.isSome_iff_exists.1 hfind
    obtain ⟨ha, l₁, l₂, rfl, -⟩ := List.find?_eq_some_iff_append.1 hfind
    obtain rfl : a = self := by simpa using ha
    exact ⟨l₁, id, l₂.flatMap entryBytes ++ tail, by simp⟩

theorem header_reads (hlength : 5 + (memory data beyond 4).toNat ≤ data.length) :
    ∀ i ∈ (scanHeader (memory data beyond) : Scan addrSize).reads, i < data.length := by
  intro i hi
  rcases List.mem_cons.1 hi with rfl | hi
  · omega
  · rw [List.mem_range'_1] at hi
    omega

/-- If the header lies within the packet, and what follows is whole entries up
to the end or up to one that names the receiver, then so do all reads. -/
theorem scan_of_rest (hlength : 5 + (memory data beyond 4).toNat ≤ data.length)
    (hrest : Named self (data.drop (5 + (memory data beyond 4).toNat)) ∨
      self ≠ linkaddrNull addrSize ∧
        Whole addrSize (data.drop (5 + (memory data beyond 4).toNat))) :
    let s := scanEntries self data.length (memory data beyond) data.length
      (scanHeader (memory data beyond))
    (∀ i ∈ s.reads, i < data.length) ∧
      (s.linkAddress = self → Named self (data.drop (5 + (memory data beyond 4).toNat))) := by
  have hheader : ∀ i ∈ (scanHeader (memory data beyond) : Scan addrSize).reads,
      i < data.length := header_reads hlength
  by_cases hself : linkaddrNull addrSize = self
  · -- the loop finds the null address before its first turn
    have hstop : scanEntries self data.length (memory data beyond) data.length
        (scanHeader (memory data beyond)) = scanHeader (memory data beyond) := by
      cases data.length with
      | zero => rfl
      | succ k => rw [scanEntries, if_neg fun h => h.2 hself]
    dsimp only
    rw [hstop]
    exact ⟨hheader, fun _ => hrest.resolve_right fun h => h.1 hself.symm⟩
  · have hentries : ∃ (entries : List (UInt8 × LinkAddr addrSize)) (tail : List UInt8),
        data.drop (5 + (memory data beyond 4).toNat) = entries.flatMap entryBytes ++ tail ∧
          ((entries.find? (·.2 = self)).isSome = true ∨ tail = []) := by
      rcases hrest with hnamed | ⟨-, entries, hentries⟩
      · obtain ⟨entries, tail, heq, hfind⟩ := named_iff.1 hnamed
        exact ⟨entries, tail, heq, .inl hfind⟩
      · exact ⟨entries, [], by rw [hentries, List.append_nil], .inr rfl⟩
    obtain ⟨entries, tail, heq, hor⟩ := hentries
    cases hfind : entries.find? (·.2 = self) with
    | some e =>
        have hscan := scanEntries_of_find? beyond (s := scanHeader (memory data beyond)) heq hfind
          hself (Nat.le_add_left _ _) hheader
        exact ⟨hscan.2.2, fun _ => named_iff.2 ⟨entries, tail, heq, by rw [hfind]; rfl⟩⟩
    | none =>
        obtain rfl := hor.resolve_left (by rw [hfind]; exact Bool.false_ne_true)
        rw [List.append_nil] at heq
        have hscan := scanEntries_of_not_named beyond (s := scanHeader (memory data beyond))
          data.length heq hfind hself hheader
        exact ⟨hscan.2, fun h => absurd h hscan.1⟩

/-- If the loop reads nothing behind the packet, the header lies within it. -/
theorem header_of_reads {turns : ℕ}
    (hreads : ∀ i ∈ (scanEntries self data.length (memory data beyond) turns
      (scanHeader (memory data beyond))).reads, i < data.length) :
    5 + (memory data beyond 4).toNat ≤ data.length := by
  have hfour : 4 < data.length := hreads 4 (reads_subset List.mem_cons_self)
  by_cases hempty : (memory data beyond 4).toNat = 0
  · omega
  · have hlast : 5 + (memory data beyond 4).toNat - 1 < data.length := by
      refine hreads _ (reads_subset (List.mem_cons_of_mem _ ?_))
      rw [List.mem_range'_1]
      omega
    omega

/-- The address is specified when the loop has ended at the receiver's own. -/
theorem hlmacIsUnspecifiedAddr_extract {datalen : ℕ} {mem : ℕ → UInt8} :
    hlmacIsUnspecifiedAddr (iotoriiExtractAddress self datalen mem).1 = false ↔
      (scanEntries self datalen mem datalen (scanHeader mem)).linkAddress = self := by
  simp only [iotoriiExtractAddress]
  split
  · exact iff_of_true (hlmacIsUnspecifiedAddr_hlmacAddNewId _ _) ‹_›
  · exact iff_of_false (by decide) ‹_›

/-- The parser reads only what was received, and takes an address only from a
packet with whole entries up to one that names the receiver. -/
def Safe (self : LinkAddr addrSize) (data : List UInt8) (beyond beyond' : ℕ → UInt8) : Prop :=
  data.length ≠ 0 →
    (∀ i ∈ (iotoriiExtractAddress self data.length (memory data beyond)).2, i < data.length) ∧
    (∀ i ∈ (iotoriiExtractTimestamp (memory data beyond')).2, i < data.length) ∧
    (hlmacIsUnspecifiedAddr (iotoriiExtractAddress self data.length (memory data beyond)).1 = false →
      Headed (Named self) data)

end Wire

/-- The packets that the parser treats safely: the empty one, those with a
header and whole entries up to one that names the receiver, and, for a receiver
with an address, those with a header and whole entries to the end. This holds
whatever lies behind the two copies of the packet. -/
theorem parse_safe_iff {addrSize : ℕ} (self : LinkAddr addrSize) (data : List UInt8)
    (beyond beyond' : ℕ → UInt8) :
    Wire.Safe self data beyond beyond' ↔
      data.length = 0 ∨ Wire.Headed (Wire.Named self) data ∨
        self ≠ Wire.linkaddrNull addrSize ∧ Wire.Headed (Wire.Whole addrSize) data := by
  rw [Wire.headed_iff beyond, Wire.headed_iff beyond]
  constructor
  · intro hsafe
    by_cases hempty : data.length = 0
    · exact .inl hempty
    · obtain ⟨hreads, -, hspecified⟩ := hsafe hempty
      have hheader := Wire.header_of_reads hreads
      rw [Wire.hlmacIsUnspecifiedAddr_extract, Wire.headed_iff beyond] at hspecified
      by_cases hself : Wire.linkaddrNull addrSize = self
      · refine .inr (.inl (hspecified ?_))
        cases data.length with
        | zero => exact hself
        | succ k =>
            rw [Wire.scanEntries, if_neg fun h => h.2 hself]
            exact hself
      · rcases Wire.named_or_whole beyond hheader hself (Nat.le_add_left _ _) hreads with h | h
        · exact .inr (.inl ⟨hheader, h⟩)
        · exact .inr (.inr ⟨Ne.symm hself, hheader, h⟩)
  · rintro hor hne
    have hrest := hor.resolve_left hne
    have hheader : 5 + (Wire.memory data beyond 4).toNat ≤ data.length := by
      rcases hrest with h | ⟨-, h⟩
      · exact h.1
      · exact h.1
    obtain ⟨hreads, hnamed⟩ := Wire.scan_of_rest hheader
      (hrest.imp And.right fun h => ⟨h.1, h.2.2⟩)
    refine ⟨hreads, fun i hi => ?_, fun hspecified => ?_⟩
    · have hlt : i < 4 := by simpa using List.mem_range'_1.1 hi
      omega
    · rw [Wire.hlmacIsUnspecifiedAddr_extract] at hspecified
      exact (Wire.headed_iff beyond).2 ⟨hheader, hnamed hspecified⟩

/-- A LOAD: the length of a prefix is read behind its four bytes. -/
theorem not_parse_safe : ¬ ∀ (data : List UInt8) (beyond beyond' : ℕ → UInt8),
    Wire.Safe (Vector.replicate 2 1 : LinkAddr 2) data beyond beyond' := by
  intro h
  have hload := (h [100, 0, 0, 0] (fun _ => 0) (fun _ => 0) (by decide)).1 4
  revert hload
  decide +kernel

end Den2ne
