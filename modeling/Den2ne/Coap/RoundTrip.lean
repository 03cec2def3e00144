import Den2ne.Coap.Built
import Den2ne.Coap.InPlace

/-!
# Parsing what was serialized

The parser undoes the serialization of a message unless the last option is empty and nothing follows
it, a path or a query loses a separator, or the flag of Block1 is not one bit.
-/

namespace Den2ne.Coap

open Memory

variable {cfg : Config} {m : Message Text} {m' : Message (List UInt8)} {bytes : List UInt8}

/-- The parsed message is the one that was sent. -/
structure Recovered (m : Message Text) (m' : Message (List UInt8)) : Prop where
  type : m'.type = m.type
  code : m'.code = m.code
  mid : m'.mid = m.mid
  tokenLen : m'.tokenLen = m.tokenLen
  token : m'.token = m.token
  options : ∀ n, m'.isOption n = m.isOption n
  int : ∀ o, m.isOption o.number → m'.int o = m.int o
  bytes : ∀ o, m.isOption o.number → m'.bytes o = m.bytes o
  block : ∀ o, m.isOption o.number → (m'.block o).num = (m.block o).num ∧
    (m'.block o).more = (m.block o).more ∧ (m'.block o).size = (m.block o).size
  string : ∀ o, m.isOption o.number → m'.string o = (m.string o).value
  payload : m'.payload = m.payload.value

/-- `coap_parse_message` on exactly these bytes returns `NO_ERROR` and recovers the message. -/
def Undoes (cfg : Config) (m : Message Text) (bytes : List UInt8) : Prop :=
  ∀ b : Buffer, load b.mem 0 b.dataLen = bytes →
    ∃ p b', parseMessage cfg b = some (p, b') ∧ p.outcome.status = .noError ∧
      ∃ m' ∈ p.message, Recovered m (m'.view b')

/-- The value of the option has no bytes. -/
def Message.EmptyValue (m : Message Text) : Kind → Prop
  | .int o => m.int o = 0
  | .bytes o => m.bytes o = []
  | .ifNoneMatch => True
  | .block o => (m.block o).num = 0 ∧ (m.block o).more = 0 ∧ (m.block o).size = 16
  | .string o => (m.string o).len = 0
  | .proxy o => (m.proxy o).len = 0
  | .unknown => False

/-- What the parser needs to recover the message. -/
structure Recoverable (m : Message Text) : Prop where
  /-- Something follows the header of the last option. -/
  last : m.payload.len = 0 → ∀ n ∈ m.present.getLast?, ¬ m.EmptyValue (kind n)
  /-- The paths and queries are split and merged without a loss. -/
  clean : ∀ o separator, StringOption.separator o = some separator → m.isOption o.number →
    Clean separator (m.string o).value
  /-- The flag of Block1 is one bit. -/
  more : m.isOption BlockOption.block1.number → (m.block .block1).more ≤ 1

/-! ## The header -/

/-- The message before its options are parsed. -/
def Message.received (m : Message Text) : Message (List UInt8) :=
  { Message.zero [] with
    version := 1
    type := m.type
    code := m.code
    mid := m.mid
    tokenLen := m.tokenLen
    token := m.token }

/-- The parser reads the header and the token, and then decodes the options. -/
theorem parseBytes_serialized (h : Built cfg m) (options : List UInt8) :
    parseBytes cfg (m.serializeHeader ++ m.token.take m.tokenLen ++ options) =
      interpret cfg m.received
        (decode (options.length + m.tokenLen + 5) 0 options).1
        (decode (options.length + m.tokenLen + 5) 0 options).2 := by
  have htype := h.type
  have htoken := h.token
  have hlen := h.tokenLen
  have hfirst : (UInt8.ofNat (64 + m.type % 4 * 16 + m.tokenLen % 16)).toNat =
      64 + m.type * 16 + m.tokenLen := by
    rw [UInt8.toNat_ofNat']
    omega
  have htake : m.token.take m.tokenLen = m.token := by
    rw [hlen, List.take_length]
  have hfault : headerFault (UInt8.ofNat (64 + m.type % 4 * 16 + m.tokenLen % 16))
      (m.token ++ options).length = none := by
    rw [headerFault_eq_none_iff, hfirst, List.length_append]
    omega
  have hmid : UInt16.ofNat ((UInt8.ofNat (m.mid.toNat / 256)).toNat * 256 +
      (UInt8.ofNat m.mid.toNat).toNat) = m.mid := by
    have hlt := m.mid.toNat_lt
    rw [UInt8.toNat_ofNat', UInt8.toNat_ofNat',
      show m.mid.toNat / 256 % 2 ^ 8 * 256 + m.mid.toNat % 2 ^ 8 = m.mid.toNat by omega,
      UInt16.ofNat_toNat]
  have hdata : m.serializeHeader ++ m.token.take m.tokenLen ++ options =
      UInt8.ofNat (64 + m.type % 4 * 16 + m.tokenLen % 16) :: m.code ::
        UInt8.ofNat (m.mid.toNat / 256) :: UInt8.ofNat m.mid.toNat :: (m.token ++ options) := by
    rw [htake, Message.serializeHeader]
    rfl
  have hoptions : optionsOf (m.serializeHeader ++ m.token.take m.tokenLen ++ options) =
      decode (options.length + m.tokenLen + 5) 0 options := by
    rw [hdata, optionsOf, List.headD_cons, hfirst]
    have hdrop : (64 + m.type * 16 + m.tokenLen) % 16 = m.tokenLen := by omega
    rw [hdrop]
    congr 1
    · simp only [List.length_cons, List.length_append]
      omega
    · rw [Nat.add_comm]
      simp only [List.drop_succ_cons]
      rw [hlen, List.drop_left]
  have hmessage : { headerMessage [] (UInt8.ofNat (64 + m.type % 4 * 16 + m.tokenLen % 16)) m.code
      (UInt8.ofNat (m.mid.toNat / 256)) (UInt8.ofNat m.mid.toNat) with
        token := (m.token ++ options).take
          ((UInt8.ofNat (64 + m.type % 4 * 16 + m.tokenLen % 16)).toNat % 16) } =
      m.received := by
    rw [headerMessage, Message.received, hmid, hfirst]
    have hversion : (64 + m.type * 16 + m.tokenLen) / 64 = 1 := by omega
    have htype' : (64 + m.type * 16 + m.tokenLen) / 16 % 4 = m.type := by omega
    have hlen' : (64 + m.type * 16 + m.tokenLen) % 16 = m.tokenLen := by omega
    rw [hversion, htype', hlen']
    rw [hlen, List.take_left]
  rw [← hoptions, hdata, parseBytes, hfault, hmessage]

/-! ## The options -/

theorem taken_eq_self {opts : List CodedOption} (h : ∀ o ∈ opts, rejection o.1 = none) :
    taken opts = opts := by
  induction opts with
  | nil => rfl
  | cons o opts ih =>
      rw [taken, h o List.mem_cons_self, ih fun p hp => h p (List.mem_cons_of_mem o hp)]
      rfl

theorem interpret_of_accepted {opts : List CodedOption} (h : ∀ o ∈ opts, rejection o.1 = none)
    (ending : Ending) :
    interpret cfg m' opts ending =
      match ending with
      | .finished => ⟨Outcome.noError, some (opts.foldl (Message.addOption cfg) m')⟩
      | .payload bytes =>
          ⟨Outcome.noError, some { opts.foldl (Message.addOption cfg) m' with
            payload := bytes.take cfg.maxChunkSize }⟩
      | .malformed => ⟨Outcome.malformed, some (opts.foldl (Message.addOption cfg) m')⟩ := by
  have hnone : opts.findSome? (fun o => rejection o.1) = none := List.findSome?_eq_none_iff.2 h
  cases ending <;> simp only [interpret, hnone, taken_eq_self h]

/-- The last option is lost: its value is empty and nothing follows it. -/
def Message.Lost (m : Message Text) : Prop :=
  m.ending = .finished ∧ ∃ o ∈ m.coded.getLast?, o.2 = []

/-- The message with the options that were written, and the payload. -/
def Message.decoded (cfg : Config) (m : Message Text) : Message (List UInt8) :=
  { m.coded.foldl (Message.addOption cfg) m.received with payload := m.payload.value }

theorem rejection_coded (h : Built cfg m) : ∀ o ∈ m.coded, rejection o.1 = none := fun o ho =>
  (h.known o.1 (Message.mem_coded ho).2).2

/-- The message is parsed as it was written, unless the last option is lost. -/
theorem parseBytes_of_serializeMessage (h : Built cfg m) (hcode : m.code ≠ 0)
    (hbytes : serializeMessage cfg m = some bytes) :
    (m.Lost → (parseBytes cfg bytes).outcome = Outcome.malformed) ∧
      (¬ m.Lost → parseBytes cfg bytes = ⟨Outcome.noError, some (m.decoded cfg)⟩) := by
  obtain ⟨rfl, hlength⟩ := serializeMessage_eq hcode hbytes
  have hpacket := cfg.packet
  have hending : m.ending ≠ .malformed := by
    unfold Message.ending
    split <;> exact nofun
  rw [parseBytes_serialized h, decode_encodeOptions (Message.codable_coded (by omega)) hending
    (by omega)]
  unfold Message.Lost
  constructor
  · intro hlost
    rw [if_pos hlost, interpret_of_accepted fun o ho =>
      rejection_coded h o (List.dropLast_subset _ ho)]
  · intro hlost
    rw [if_neg hlost, interpret_of_accepted (rejection_coded h)]
    unfold Message.ending Message.decoded
    by_cases hpayload : m.payload.len = 0
    · have hvalue : m.payload.value = [] := by
        rw [Text.value, hpayload, load_zero]
      have hfixed := Message.fixed_foldl cfg m.coded m.received
      have hnil : (m.coded.foldl (Message.addOption cfg) m.received).payload = [] :=
        congrArg (fun x => x.2.2.2.2.2) hfixed
      rw [if_pos hpayload, hvalue]
      dsimp only
      rw [← hnil]
    · have htake : m.payload.value.take cfg.maxChunkSize = m.payload.value := by
        refine List.take_of_length_le ?_
        rw [Text.value, length_load]
        exact h.payload
      rw [if_neg hpayload]
      dsimp only
      rw [htake]

/-! ## The fields -/

/-- The values of an option that is present. -/
theorem partsOf_present (h : Built cfg m) {k : Kind} (hk : k ≠ .unknown)
    (ho : m.isOption k.number) : partsOf k.number m.coded = m.valuesOf k := by
  rw [Message.partsOf_coded (h.known _ ho).1, if_pos ho, kind_number hk]

theorem int_decoded (h : Built cfg m) {o : IntOption} (ho : m.isOption o.number) :
    (m.decoded cfg).int o = m.int o := by
  have hparts : partsOf o.number m.coded = [intBytes (m.int o)] :=
    partsOf_present h (k := .int o) nofun ho
  have hwidth : (2 : ℕ) ^ o.width ≤ 2 ^ 32 := by cases o <;> decide
  have hint := h.int o
  change (m.coded.foldl (Message.addOption cfg) m.received).int o = m.int o
  rw [Message.int_foldl, hparts, List.foldl_cons, List.foldl_nil,
    intValue_intBytes (Nat.lt_of_lt_of_le hint hwidth), Nat.mod_eq_of_lt hint]

theorem bytes_decoded (h : Built cfg m) {o : ByteOption} (ho : m.isOption o.number) :
    (m.decoded cfg).bytes o = m.bytes o := by
  have hparts : partsOf o.number m.coded = [m.bytes o] :=
    partsOf_present h (k := .bytes o) nofun ho
  change (m.coded.foldl (Message.addOption cfg) m.received).bytes o = m.bytes o
  rw [Message.bytes_foldl, hparts, List.foldl_cons, List.foldl_nil,
    List.take_of_length_le (h.bytes o)]

/-- Of the flag of a block only one bit is recovered. -/
theorem block_decoded (h : Built cfg m) {o : BlockOption} (ho : m.isOption o.number) :
    ((m.decoded cfg).block o).num = (m.block o).num ∧
      ((m.decoded cfg).block o).more = (if (m.block o).more ≠ 0 then 1 else 0) ∧
      ((m.decoded cfg).block o).size = (m.block o).size := by
  have hparts : partsOf o.number m.coded = [intBytes (m.block o).toNum] :=
    partsOf_present h (k := .block o) nofun ho
  obtain ⟨hnum, k, hk, hsize⟩ := h.block o ho
  obtain ⟨hlt, hblock⟩ := ofNum_toNum hnum k hk hsize
  have heq : (m.decoded cfg).block o = Block.ofNum (m.block o).toNum := by
    change (m.coded.foldl (Message.addOption cfg) m.received).block o = _
    rw [Message.block_foldl, hparts, List.foldl_cons, List.foldl_nil, intValue_intBytes hlt]
  rw [heq]
  exact hblock

theorem string_decoded (h : Built cfg m) {o : StringOption} (ho : m.isOption o.number) :
    (m.decoded cfg).string o = (m.string o).value ↔
      ∀ separator, o.separator = some separator → Clean separator (m.string o).value := by
  have hparts : partsOf o.number m.coded = m.valuesOf (.string o) :=
    partsOf_present h (k := .string o) (by intro hnone; cases hnone) ho
  change (m.coded.foldl (Message.addOption cfg) m.received).string o = _ ↔ _
  rw [Message.string_foldl, hparts, Message.valuesOf.eq_def]
  dsimp only
  cases hsep : o.separator with
  | none =>
      refine iff_of_true ?_ fun separator h => ?_
      · rw [List.foldl_cons, List.foldl_nil, Message.mergeString, hsep]
      · cases h
  | some separator =>
      have hnil : m.received.string o = [] := rfl
      simp only [Option.some.injEq, forall_eq']
      rw [Message.mergeString_of_separator hsep, hnil, foldl_merge_nil]
      exact joined_splitParts_iff (h.string o separator hsep)

theorem isOption_decoded (h : Built cfg m) (n : ℕ) :
    (m.decoded cfg).isOption n = m.isOption n := by
  change (m.coded.foldl (Message.addOption cfg) m.received).isOption n = m.isOption n
  have hnone : m.received.isOption n = false := by
    simp [Message.isOption, Message.received, Message.zero]
  rw [Message.isOption_foldl, hnone]
  cases hn : m.isOption n with
  | false =>
      have hparts : partsOf n m.coded = [] := by
        rw [partsOf, List.filter_eq_nil_iff.2, List.map_nil]
        rintro o ho heq
        have hpresent := (Message.mem_coded ho).2
        rw [of_decide_eq_true heq, hn] at hpresent
        cases hpresent
      rw [hparts]
      rfl
  | true =>
      have hnumber := (h.known n hn).1
      have hle : n ≤ optionSize1 := (show ∀ n ∈ numbers, n ≤ optionSize1 by decide) n hnumber
      obtain ⟨value, values, hvalues⟩ :=
        List.exists_cons_of_ne_nil (m.valuesOf_ne_nil (Message.kind_ne_unknown n hnumber))
      rw [Message.partsOf_coded hnumber, if_pos hn, hvalues, List.foldl_cons, decide_eq_true hle,
        Bool.false_or]
      clear hvalues
      induction values with
      | nil => rfl
      | cons _ values ih => exact ih

/-- All but the separators and the flag of Block1 is recovered. -/
theorem recovered_decoded (h : Built cfg m) :
    Recovered m (m.decoded cfg) ↔
      (∀ o separator, StringOption.separator o = some separator → m.isOption o.number →
        Clean separator (m.string o).value) ∧
      (m.isOption BlockOption.block1.number → (m.block .block1).more ≤ 1) := by
  constructor
  · intro hrec
    refine ⟨fun o separator hsep ho => (string_decoded h ho).1 (hrec.string o ho) separator hsep,
      fun ho => ?_⟩
    rw [← (hrec.block .block1 ho).2.1, (block_decoded h ho).2.1]
    split <;> decide
  · rintro ⟨hclean, hmore⟩
    have hfixed := Message.fixed_foldl cfg m.coded m.received
    simp only [Message.fixed, Prod.mk.injEq] at hfixed
    obtain ⟨htype, hcode, hmid, htokenLen, htoken, -⟩ := hfixed
    refine ⟨htype, hcode, hmid, htokenLen, htoken, isOption_decoded h, fun _ => int_decoded h,
      fun _ => bytes_decoded h, fun o ho => ?_, fun o ho => ?_, rfl⟩
    · obtain ⟨hnum, hflag, hsize⟩ := block_decoded h ho
      refine ⟨hnum, ?_, hsize⟩
      have hle : (m.block o).more ≤ 1 := by
        cases o with
        | block2 => exact h.more
        | block1 => exact hmore ho
      rw [hflag]
      split <;> omega
    · exact (string_decoded h ho).2 fun separator hsep => hclean o separator hsep ho

/-! ## The end -/

theorem nil_mem_getLast?_singleton {value : List UInt8} : [] ∈ [value].getLast? ↔ value = [] :=
  Option.mem_some_iff

theorem Text.value_eq_nil_iff {t : Text} : t.value = [] ↔ t.len = 0 := by
  rw [← List.length_eq_zero_iff, Text.value, length_load]

theorem Block.toNum_eq_zero_iff {b : Block} (h : b.Valid) :
    b.toNum = 0 ↔ b.num = 0 ∧ b.more = 0 ∧ b.size = 16 := by
  obtain ⟨hnum, k, hk, hsize⟩ := h
  constructor
  · intro hzero
    obtain ⟨-, hnum', hmore, hsize'⟩ := ofNum_toNum hnum k hk hsize
    rw [hzero] at hnum' hmore hsize'
    refine ⟨hnum'.symm, ?_, hsize'.symm⟩
    by_contra hne
    rw [if_pos hne] at hmore
    cases hmore
  · rintro ⟨hnum, hmore, hsize⟩
    rw [Block.toNum, hnum, hmore, hsize]
    decide

theorem emptyValue_iff (h : Built cfg m) {n : ℕ} (hn : n ∈ m.present)
    (hclean : ∀ o separator, StringOption.separator o = some separator → m.isOption o.number →
      Clean separator (m.string o).value) :
    [] ∈ (m.valuesOf (kind n)).getLast? ↔ m.EmptyValue (kind n) := by
  obtain ⟨hnumber, ho⟩ := List.mem_filter.1 hn
  have hknown := Message.kind_ne_unknown n hnumber
  rw [← number_kind hknown] at ho
  generalize kind n = k at hknown ho
  cases k with
  | unknown => exact absurd rfl hknown
  | ifNoneMatch => exact iff_of_true rfl trivial
  | int o => exact nil_mem_getLast?_singleton.trans intBytes_eq_nil_iff
  | bytes o => exact nil_mem_getLast?_singleton
  | block o =>
      exact nil_mem_getLast?_singleton.trans
        (intBytes_eq_nil_iff.trans (Block.toNum_eq_zero_iff (h.block o ho)))
  | proxy o => exact nil_mem_getLast?_singleton.trans Text.value_eq_nil_iff
  | string o =>
      rw [Message.valuesOf.eq_def]
      dsimp only
      cases hsep : o.separator with
      | none => exact nil_mem_getLast?_singleton.trans Text.value_eq_nil_iff
      | some separator =>
          exact (getLast?_splitParts (hclean o separator hsep ho)).trans Text.value_eq_nil_iff

/-- The last option is lost if it has an empty value and nothing follows it. -/
theorem lost_iff (h : Built cfg m)
    (hclean : ∀ o separator, StringOption.separator o = some separator → m.isOption o.number →
      Clean separator (m.string o).value) :
    m.Lost ↔ m.payload.len = 0 ∧ ∃ n ∈ m.present.getLast?, m.EmptyValue (kind n) := by
  have hfinished : m.ending = .finished ↔ m.payload.len = 0 := by
    unfold Message.ending
    split
    · exact iff_of_true rfl ‹_›
    · exact iff_of_false nofun ‹_›
  have hlast : (∃ o ∈ m.coded.getLast?, o.2 = []) ↔
      [] ∈ m.coded.getLast?.map Prod.snd := by
    simp only [Option.mem_def, Option.map_eq_some_iff]
  rw [Message.Lost, hfinished, hlast, m.getLast?_coded]
  refine and_congr_right fun _ => ?_
  rw [Option.mem_def, Option.bind_eq_some_iff]
  refine exists_congr fun n => and_congr_right fun hn => ?_
  exact emptyValue_iff h (List.mem_of_getLast? hn) hclean

/-- A buffer with these bytes. -/
def Buffer.ofList (bytes : List UInt8) : Buffer := ⟨store (fun _ => 0) 0 bytes, bytes.length⟩

/-- What the parser of the bytes returns decides. -/
theorem undoes_iff : Undoes cfg m bytes ↔
    (parseBytes cfg bytes).outcome.status = .noError ∧
      ∃ m' ∈ (parseBytes cfg bytes).message, Recovered m m' := by
  constructor
  · intro h
    have hload : load (Buffer.ofList bytes).mem 0 (Buffer.ofList bytes).dataLen = bytes :=
      load_store _ 0 bytes
    obtain ⟨p, b', hparse, hstatus, m', hm', hrec⟩ := h _ hload
    obtain ⟨p₁, b₁, hparse₁, hview, -⟩ := parseMessage_spec cfg (Buffer.ofList bytes)
    obtain ⟨rfl, rfl⟩ := Prod.mk.inj (Option.some.inj (hparse.symm.trans hparse₁))
    have hbytes : (Buffer.ofList bytes).tail 0 = bytes := hload
    rw [← hbytes, ← hview]
    exact ⟨hstatus, m'.view b', Option.mem_map_of_mem _ hm', hrec⟩
  · rintro ⟨hstatus, m', hm', hrec⟩ b hload
    obtain ⟨p, b', hparse, hview, -⟩ := parseMessage_spec cfg b
    have hbytes : b.tail 0 = bytes := hload
    rw [hbytes] at hview
    rw [← hview] at hstatus hm'
    obtain ⟨m₁, hm₁, rfl⟩ := Option.mem_map.1 hm'
    exact ⟨p, b', hparse, hstatus, m₁, hm₁, hrec⟩

/-- The parser undoes the serialization of a message exactly if the message is recoverable. -/
theorem undoes_iff_recoverable (cfg : Config) {type : ℕ} (htype : type < 4) (code : UInt8)
    (mid : UInt16) {calls : List Setter} (hcalls : ∀ c ∈ calls, c.Allowed cfg)
    (hcode : (build cfg type code mid calls).code ≠ 0) {bytes : List UInt8}
    (hbytes : serializeMessage cfg (build cfg type code mid calls) = some bytes) :
    Undoes cfg (build cfg type code mid calls) bytes ↔
      Recoverable (build cfg type code mid calls) := by
  have h := Built.build htype code mid hcalls
  generalize build cfg type code mid calls = m at *
  obtain ⟨hlost, hkept⟩ := parseBytes_of_serializeMessage h hcode hbytes
  rw [undoes_iff]
  by_cases hm : m.Lost
  · refine iff_of_false ?_ fun hrec => ?_
    · rw [hlost hm]
      exact fun hstatus => nomatch hstatus.1
    · obtain ⟨hpayload, n, hn, hempty⟩ := (lost_iff h hrec.clean).1 hm
      exact hrec.last hpayload n hn hempty
  · rw [hkept hm]
    constructor
    · rintro ⟨-, m', hm', hrec⟩
      obtain rfl := Option.some.inj hm'
      obtain ⟨hclean, hmore⟩ := (recovered_decoded h).1 hrec
      exact ⟨fun hpayload n hn hempty => hm ((lost_iff h hclean).2 ⟨hpayload, n, hn, hempty⟩),
        hclean, hmore⟩
    · intro hrec
      exact ⟨rfl, _, rfl, (recovered_decoded h).2 ⟨hrec.clean, hrec.more⟩⟩

/-- The default sizes. -/
def sampleConfig : Config := ⟨62, 64, false, by decide⟩

/-- The characters of `a/b`. -/
def samplePath : CString := ⟨[97, 47, 98], fun _ => 0, by decide⟩

theorem undoes_iff_recoverable_samplePath :
    serializeMessage sampleConfig
        (build sampleConfig 0 3 5 [.string .uriPath samplePath, .payload [7]]) =
      some [64, 3, 0, 5, 177, 97, 1, 98, 255, 7] ∧
    (Undoes sampleConfig
        (build sampleConfig 0 3 5 [.string .uriPath samplePath, .payload [7]])
        [64, 3, 0, 5, 177, 97, 1, 98, 255, 7] ↔
      Recoverable (build sampleConfig 0 3 5 [.string .uriPath samplePath, .payload [7]])) := by
  have hbytes : serializeMessage sampleConfig
      (build sampleConfig 0 3 5 [.string .uriPath samplePath, .payload [7]]) =
        some [64, 3, 0, 5, 177, 97, 1, 98, 255, 7] := by decide +kernel
  refine ⟨hbytes, undoes_iff_recoverable sampleConfig (by decide) 3 5 ?_ (by decide) hbytes⟩
  intro c hc
  simp only [List.mem_cons, List.not_mem_nil, or_false] at hc
  rcases hc with rfl | rfl
  · trivial
  · exact (by decide : [(7 : UInt8)].length ≤ 64)

/-- A request that accepts `text/plain`, which has the number zero, is rejected. -/
theorem not_undoes_acceptText :
    (∀ c ∈ [Setter.int .accept 0], c.Allowed sampleConfig) ∧
      (build sampleConfig 0 1 5 [.int .accept 0]).code ≠ 0 ∧
      serializeMessage sampleConfig (build sampleConfig 0 1 5 [.int .accept 0]) =
        some [64, 1, 0, 5, 208, 4] ∧
      ¬ Undoes sampleConfig (build sampleConfig 0 1 5 [.int .accept 0]) [64, 1, 0, 5, 208, 4] := by
  refine ⟨fun c hc => ?_, by decide, by decide +kernel, fun h => ?_⟩
  · obtain rfl := List.mem_singleton.1 hc
    trivial
  · exact absurd (undoes_iff.1 h).1 (by decide +kernel)

end Den2ne.Coap
