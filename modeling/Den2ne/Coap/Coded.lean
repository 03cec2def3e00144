import Den2ne.Coap.Codec
import Den2ne.Coap.Split
import Mathlib.Data.List.Basic

/-!
# The options of a serialized message

The options that `coap_serialize_message` writes, as a list: for every option of the message its
value, or the parts of its value.
-/

namespace Den2ne.Coap

variable {cfg : Config} {m : Message Text} {n number : ℕ}

/-- The known options, in the order of their numbers. -/
def numbers : List ℕ := [1, 3, 4, 5, 6, 7, 8, 11, 12, 14, 15, 17, 20, 23, 27, 28, 35, 39, 60]

namespace Message

/-- The values that are written for an option. -/
def valuesOf (m : Message Text) : Kind → List (List UInt8)
  | .int o => [intBytes (m.int o)]
  | .bytes o => [m.bytes o]
  | .ifNoneMatch => [[]]
  | .block o => [intBytes (m.block o).toNum]
  | .string o =>
      match o.separator with
      | none => [(m.string o).value]
      | some separator => splitParts (m.string o) separator ((m.string o).len + 2) 0 0
  | .proxy o => [(m.proxy o).value]
  | .unknown => []

/-- The options that the message has. -/
def present (m : Message Text) : List ℕ := numbers.filter m.isOption

/-- The options that are written for the numbers `ns`. -/
def codedOf (m : Message Text) (ns : List ℕ) : List CodedOption :=
  ns.flatMap fun n => (m.valuesOf (kind n)).map fun value => (n, value)

end Message

theorem Text.value_ofList (bytes : List UInt8) : (Text.ofList bytes).value = bytes :=
  Memory.load_store _ 0 bytes

theorem serializeParts_eq (number current : ℕ) (parts : List (List UInt8)) :
    serializeParts number current parts =
      encodeOptions current (parts.map fun part => (number, part)) := by
  induction parts generalizing current with
  | nil => rfl
  | cons part parts ih => rw [serializeParts, ih, List.map_cons, encodeOptions]

theorem serializeIntOption_eq (number current value : ℕ) :
    serializeIntOption number current value = serializeParts number current [intBytes value] :=
  (List.append_nil _).symm

theorem serializeArrayOption_none (number current : ℕ) (t : Text) :
    serializeArrayOption number current t none = serializeParts number current [t.value] := by
  rw [serializeParts, serializeParts, List.append_nil, Text.value, Memory.length_load]
  rfl

namespace Message

/-- One step of the serialization, for an option of any kind. -/
def serializeNumber (m : Message Text) (written : ℕ × List UInt8) (number : ℕ) :
    ℕ × List UInt8 :=
  m.serializeOption number (serializeParts number · (m.valuesOf (kind number))) written

theorem serializeInt_eq (o : IntOption) (written : ℕ × List UInt8) :
    m.serializeInt o written = m.serializeNumber written o.number := by
  rw [serializeInt, serializeNumber]
  simp only [serializeIntOption_eq]
  cases o <;> rfl

theorem serializeBytes_eq (o : ByteOption) (written : ℕ × List UInt8) :
    m.serializeBytes o written = m.serializeNumber written o.number := by
  rw [serializeBytes, serializeNumber]
  simp only [serializeArrayOption_none, Text.value_ofList]
  cases o <;> rfl

theorem serializeBlock_eq (o : BlockOption) (written : ℕ × List UInt8) :
    m.serializeBlock o written = m.serializeNumber written o.number := by
  rw [serializeBlock, serializeNumber]
  simp only [serializeIntOption_eq]
  cases o <;> rfl

theorem serializeProxy_eq (o : ProxyOption) (written : ℕ × List UInt8) :
    m.serializeProxy o written = m.serializeNumber written o.number := by
  rw [serializeProxy, serializeNumber]
  simp only [serializeArrayOption_none]
  cases o <;> rfl

theorem serializeString_eq (o : StringOption) (written : ℕ × List UInt8) :
    m.serializeString o written = m.serializeNumber written o.number := by
  rw [serializeString, serializeNumber]
  cases o with
  | uriHost =>
      simp only [StringOption.separator, serializeArrayOption_none]
      rfl
  | locationPath | uriPath | uriQuery | locationQuery => rfl

theorem serializeIfNoneMatch_eq (written : ℕ × List UInt8) :
    m.serializeOption optionIfNoneMatch (serializeIntOption optionIfNoneMatch · 0) written =
      m.serializeNumber written optionIfNoneMatch := by
  simp only [serializeIntOption_eq]
  rfl

/-- The options are serialized in the order of their numbers. -/
theorem serializeOptions_eq (m : Message Text) :
    m.serializeOptions = numbers.foldl m.serializeNumber (0, []) := by
  simp only [serializeOptions, serializeInt_eq, serializeBytes_eq, serializeString_eq,
    serializeBlock_eq, serializeProxy_eq, serializeIfNoneMatch_eq]
  rfl

theorem valuesOf_ne_nil (m : Message Text) {k : Kind} (hk : k ≠ .unknown) : m.valuesOf k ≠ [] := by
  cases k with
  | unknown => exact absurd rfl hk
  | string o =>
      rw [valuesOf.eq_def]
      dsimp only
      split
      · exact List.cons_ne_nil _ _
      · exact splitParts_ne_nil
  | int | bytes | ifNoneMatch | block | proxy => exact List.cons_ne_nil _ _

/-- The numbers are written one after the other, those that are not present left out. -/
theorem foldl_serializeNumber (ns : List ℕ) (hns : ∀ n ∈ ns, kind n ≠ .unknown)
    (written : ℕ × List UInt8) :
    (ns.foldl m.serializeNumber written).2 =
      written.2 ++ encodeOptions written.1 (m.codedOf (ns.filter m.isOption)) := by
  induction ns generalizing written with
  | nil => exact (List.append_nil _).symm
  | cons n ns ih =>
      rw [List.foldl_cons, ih fun n hn => hns n (List.mem_cons_of_mem _ hn), serializeNumber,
        serializeOption]
      cases hn : m.isOption n with
      | false => rw [if_neg (by simp), List.filter_cons_of_neg (by simp [hn])]
      | true =>
          obtain ⟨value, values, hvalues⟩ :=
            List.exists_cons_of_ne_nil (m.valuesOf_ne_nil (hns n List.mem_cons_self))
          have hlast : lastNumber written.1 ((m.valuesOf (kind n)).map fun value => (n, value)) =
              n := by
            rw [lastNumber, List.getLast?_map, hvalues, List.getLast?_cons]
            rfl
          rw [if_pos rfl, List.filter_cons_of_pos hn, codedOf, codedOf, List.flatMap_cons,
            encodeOptions_append, hlast, serializeParts_eq, List.append_assoc]

/-- The options of the message, as they are written. -/
def coded (m : Message Text) : List CodedOption := m.codedOf m.present

theorem kind_ne_unknown : ∀ n ∈ numbers, kind n ≠ .unknown := by
  decide

theorem serializeOptions_coded (m : Message Text) :
    m.serializeOptions.2 = encodeOptions 0 m.coded := by
  rw [serializeOptions_eq, foldl_serializeNumber numbers kind_ne_unknown]
  rfl

theorem mem_coded {o : CodedOption} (h : o ∈ m.coded) : o.1 ∈ numbers ∧ m.isOption o.1 := by
  obtain ⟨n, hn, ho⟩ := List.mem_flatMap.1 h
  obtain ⟨value, -, rfl⟩ := List.mem_map.1 ho
  exact List.mem_filter.1 hn

theorem pairwise_codedOf {ns : List ℕ} (h : ns.Pairwise (· < ·)) :
    (m.codedOf ns).Pairwise fun o p => o.1 ≤ p.1 := by
  refine List.pairwise_flatMap.2 ⟨fun n _ => ?_, h.imp fun hlt o ho p hp => ?_⟩
  · rw [List.pairwise_map]
    exact List.pairwise_of_forall fun _ _ => Nat.le_refl n
  · obtain ⟨_, -, rfl⟩ := List.mem_map.1 ho
    obtain ⟨_, -, rfl⟩ := List.mem_map.1 hp
    exact Nat.le_of_lt hlt

theorem codable_coded (h : (encodeOptions 0 m.coded).length < 65536) : Codable 0 m.coded where
  ge _ _ := Nat.zero_le _
  le o ho := by
    have hnumbers : ∀ n ∈ numbers, n ≤ optionSize1 := by decide
    exact hnumbers _ (mem_coded ho).1
  sorted := pairwise_codedOf (List.Pairwise.filter _ (by decide))
  length o ho := Nat.lt_of_le_of_lt (length_le_encodeOptions ho 0) h

/-- The values of one option are those that were written for it. -/
theorem partsOf_codedOf {ns : List ℕ} (h : ns.Nodup) (n : ℕ) :
    partsOf n (m.codedOf ns) = if n ∈ ns then m.valuesOf (kind n) else [] := by
  induction ns with
  | nil => rfl
  | cons k ns ih =>
      obtain ⟨hk, hns⟩ := List.nodup_cons.1 h
      have hsplit : partsOf n (m.codedOf (k :: ns)) =
          partsOf n ((m.valuesOf (kind k)).map fun value => (k, value)) ++
            partsOf n (m.codedOf ns) := by
        rw [codedOf, List.flatMap_cons, partsOf, List.filter_append, List.map_append]
        rfl
      rw [hsplit, ih hns]
      by_cases hnk : n = k
      · subst hnk
        rw [if_neg hk, if_pos List.mem_cons_self, List.append_nil, partsOf,
          List.filter_eq_self.2 (by simp), List.map_map]
        exact List.map_id _
      · have hnone : partsOf n ((m.valuesOf (kind k)).map fun value => (k, value)) = [] := by
          rw [partsOf, List.filter_eq_nil_iff.2 (by simp [Ne.symm hnk])]
          rfl
        rw [hnone, List.nil_append]
        simp only [List.mem_cons, hnk, false_or]

theorem partsOf_coded (hn : n ∈ numbers) :
    partsOf n m.coded = if m.isOption n then m.valuesOf (kind n) else [] := by
  have hnodup : m.present.Nodup := List.Pairwise.filter _ (by decide)
  rw [coded, partsOf_codedOf hnodup]
  simp only [present, List.mem_filter, hn, true_and]

/-- The last value that is written is one of the last option. -/
theorem getLast?_coded (m : Message Text) :
    m.coded.getLast?.map Prod.snd =
      m.present.getLast?.bind fun n => (m.valuesOf (kind n)).getLast? := by
  have hpresent : ∀ n ∈ m.present, kind n ≠ .unknown := fun n hn =>
    kind_ne_unknown n (List.mem_filter.1 hn).1
  rw [coded]
  cases hns : m.present using List.reverseRecOn with
  | nil => rfl
  | append_singleton ns n =>
      have hn : m.valuesOf (kind n) ≠ [] :=
        m.valuesOf_ne_nil (hpresent n (by rw [hns]; simp))
      rw [codedOf, List.flatMap_append, List.flatMap_singleton,
        List.getLast?_append_of_ne_nil _ (by simpa using hn), List.getLast?_map,
        List.getLast?_concat, Option.map_map, Option.bind_some]
      exact congrFun Option.map_id _

end Message

/-- The end of the message. -/
def Message.ending (m : Message Text) : Ending :=
  if m.payload.len = 0 then .finished else .payload m.payload.value

/-- The bytes of a message that is serialized. -/
theorem serializeMessage_eq (hcode : m.code ≠ 0) {bytes : List UInt8}
    (h : serializeMessage cfg m = some bytes) :
    bytes = m.serializeHeader ++ m.token.take m.tokenLen ++
        (encodeOptions 0 m.coded ++ codedEnding m.ending) ∧
      (encodeOptions 0 m.coded).length ≤ cfg.maxHeaderSize := by
  unfold serializeMessage at h
  rw [if_neg hcode, m.serializeOptions_coded] at h
  dsimp only at h
  split at h
  · rename_i hlength
    simp only [List.length_append] at hlength
    refine ⟨?_, by omega⟩
    rw [← Option.some.inj h, Message.ending]
    by_cases hpayload : m.payload.len = 0
    · rw [if_pos hpayload, if_neg (not_not.2 hpayload), Text.value, hpayload, Memory.load_zero]
      simp [codedEnding]
    · rw [if_neg hpayload, if_pos hpayload]
      simp [codedEnding]
  · cases h

end Den2ne.Coap
