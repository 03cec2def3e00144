import Den2ne.Coap.Fields
import Mathlib.Order.Basic

/-!
# The in-place parser against the bytes

The parser stays in the message, and computes what the bytes of the message say. What carries the
proof is where the strings are: each one ends before the cursor, in the order of the option
numbers, so that the parts of the last string are merged into bytes that no other one needs.
-/

namespace Den2ne.Coap

open Memory

variable {cfg : Config} {b b' : Buffer} {pkt pkt' : Message Span} {m : Message (List UInt8)}
  {cur cur' number length nibble : ℕ} {separator : UInt8}

namespace Buffer

/-- The bytes of the message from the cursor on. -/
def tail (b : Buffer) (cur : ℕ) : List UInt8 := load b.mem cur (b.dataLen - cur)

/-- The bytes of a range. -/
def value (b : Buffer) (s : Span) : List UInt8 := load b.mem s.start s.len

theorem tail_of_lt (h : cur < b.dataLen) : b.tail cur = b.mem cur :: b.tail (cur + 1) := by
  rw [tail, tail, show b.dataLen - cur = b.dataLen - (cur + 1) + 1 by omega, load_succ]

theorem tail_of_le (h : b.dataLen ≤ cur) : b.tail cur = [] := by
  rw [tail, Nat.sub_eq_zero_of_le h, load_zero]

theorem tail_eq_nil_iff : b.tail cur = [] ↔ b.dataLen ≤ cur := by
  rw [← List.length_eq_zero_iff, tail, length_load]
  omega

theorem length_tail : (b.tail cur).length = b.dataLen - cur := length_load _ _ _

theorem get_of_lt (h : cur < b.dataLen) : b.get cur = some (b.mem cur) := if_pos h

theorem read_of_le (h : cur + length ≤ b.dataLen) :
    b.read cur length = some (load b.mem cur length) := if_pos h

theorem take_tail (h : cur + length ≤ b.dataLen) : (b.tail cur).take length = load b.mem cur length :=
  take_load (by omega)

theorem drop_tail : (b.tail cur).drop length = b.tail (cur + length) := by
  rw [tail, drop_load, tail, Nat.sub_add_eq]

/-! ## Headers -/

/-- The extension of a delta or a length is read inside the message. -/
theorem extension_cases (h : cur < b.dataLen) :
    b.extension nibble cur = some none ∧ decodeExtension nibble (b.tail cur) = none ∨
      ∃ v cur', b.extension nibble cur = some (some (v, cur')) ∧
        decodeExtension nibble (b.tail cur) = some (v, b.tail cur') ∧
        cur ≤ cur' ∧ cur' ≤ b.dataLen := by
  by_cases h13 : nibble = 13
  · refine Or.inr ⟨13 + (b.mem cur).toNat, cur + 1, ?_, ?_, Nat.le_succ _, h⟩
    · rw [extension, if_pos h13, get_of_lt h]
      rfl
    · rw [decodeExtension.eq_def, if_pos h13, tail_of_lt h]
  · by_cases h14 : nibble = 14
    · by_cases hlast : b.dataLen ≤ cur + 1
      · refine Or.inl ⟨?_, ?_⟩
        · rw [extension, if_neg h13, if_pos h14, get_of_lt h]
          exact if_pos hlast
        · rw [decodeExtension.eq_def, if_neg h13, if_pos h14, tail_of_lt h, tail_of_le hlast]
      · have hlt := Nat.lt_of_not_le hlast
        refine Or.inr ⟨14 + 255 + (b.mem cur).toNat * 256 + (b.mem (cur + 1)).toNat, cur + 2,
          ?_, ?_, by omega, by omega⟩
        · rw [extension, if_neg h13, if_pos h14, get_of_lt h]
          refine (if_neg hlast).trans ?_
          rw [get_of_lt hlt]
          rfl
        · rw [decodeExtension.eq_def, if_neg h13, if_pos h14, tail_of_lt h, tail_of_lt hlt]
    · refine Or.inr ⟨nibble, cur, ?_, ?_, Nat.le_refl _, Nat.le_of_lt h⟩
      · rw [extension, if_neg h13, if_neg h14]
      · rw [decodeExtension.eq_def, if_neg h13, if_neg h14]

/-- So is the header of an option, and its value is in the message. -/
theorem optionHeader_cases (b : Buffer) (first : UInt8) (cur : ℕ) :
    b.optionHeader first cur = some none ∧ decodeOption first (b.tail (cur + 1)) = none ∨
      ∃ delta length cur', b.optionHeader first cur = some (some (delta, length, cur')) ∧
        decodeOption first (b.tail (cur + 1)) =
          some (delta, load b.mem cur' length, b.tail (cur' + length)) ∧
        cur < cur' ∧ cur' + length ≤ b.dataLen := by
  rw [optionHeader, decodeOption]
  by_cases h : b.dataLen ≤ cur + 1
  · exact Or.inl ⟨if_pos h, if_pos (tail_eq_nil_iff.2 h)⟩
  rw [if_neg h, if_neg (mt tail_eq_nil_iff.1 h)]
  rcases extension_cases (Nat.lt_of_not_le h) with ⟨hext, hdec⟩ | ⟨delta, cur₁, hext, hdec, hle, -⟩
  · left
    rw [hext, hdec]
    exact ⟨rfl, rfl⟩
  rw [hext, hdec]
  dsimp only
  by_cases h₁ : b.dataLen ≤ cur₁
  · exact Or.inl ⟨if_pos h₁, if_pos (tail_eq_nil_iff.2 h₁)⟩
  rw [if_neg h₁, if_neg (mt tail_eq_nil_iff.1 h₁)]
  rcases extension_cases (Nat.lt_of_not_le h₁) with ⟨hext, hdec⟩ | ⟨length, cur₂, hext, hdec, hle₂, hend⟩
  · left
    rw [hext, hdec]
    exact ⟨rfl, rfl⟩
  rw [hext, hdec]
  dsimp only
  rw [length_tail]
  by_cases h₂ : b.dataLen < cur₂ + length
  · refine Or.inl ⟨if_pos h₂, if_pos ?_⟩
    omega
  · have hfit := Nat.le_of_not_lt h₂
    refine Or.inr ⟨delta, length, cur₂, if_neg h₂, ?_, by omega, hfit⟩
    by_cases hzero : b.dataLen - cur₂ < length
    · omega
    · rw [if_neg hzero, take_tail hfit, drop_tail]

/-! ## Merging -/

/-- Only bytes of the range change. -/
structure Same (b b' : Buffer) (lo hi : ℕ) : Prop where
  dataLen : b'.dataLen = b.dataLen
  mem : ∀ i, i < lo ∨ hi ≤ i → b'.mem i = b.mem i

theorem Same.refl (b : Buffer) (lo hi : ℕ) : Same b b lo hi := ⟨rfl, fun _ _ => rfl⟩

theorem Same.value_eq {lo hi : ℕ} (h : Same b b' lo hi) {s : Span} (hs : s.start + s.len ≤ lo) :
    b'.value s = b.value s :=
  load_congr fun i _ hi => h.mem i (Or.inl (Nat.lt_of_lt_of_le hi hs))

theorem Same.tail_eq {lo hi : ℕ} (h : Same b b' lo hi) : b'.tail hi = b.tail hi := by
  rw [tail, tail, h.dataLen]
  exact load_congr fun i hi _ => h.mem i (Or.inr hi)

/-- The part is merged behind the string, in bytes before the end of the part. -/
theorem mergeMultiOption_spec {dst : Span} (separator : UInt8) (hdst : dst.start + dst.len < cur)
    (hcur : cur + length ≤ b.dataLen) :
    ∃ dst' b', b.mergeMultiOption dst cur length separator = some (dst', b') ∧
      b'.value dst' = merge separator (b.value dst) (load b.mem cur length) ∧
      Same b b' (dst.start + dst.len) (cur + length) ∧ dst'.start + dst'.len ≤ cur + length ∧
      (0 < dst.len ∧ dst'.start = dst.start ∨ b' = b ∧ dst'.start = cur) := by
  by_cases hpos : 0 < dst.len
  · have hsep : b.write (dst.start + dst.len) [separator] =
        some { b with mem := store b.mem (dst.start + dst.len) [separator] } :=
      if_pos (by rw [List.length_singleton]; omega)
    have hread : load (store b.mem (dst.start + dst.len) [separator]) cur length =
        load b.mem cur length :=
      load_store_of_disjoint (Or.inr (by rw [List.length_singleton]; omega))
    have hstore : store (store b.mem (dst.start + dst.len) [separator]) (dst.start + (dst.len + 1))
        (load b.mem cur length) =
          store b.mem (dst.start + dst.len) (separator :: load b.mem cur length) := by
      have happend := store_append b.mem (dst.start + dst.len) [separator] (load b.mem cur length)
      rw [List.length_singleton, List.singleton_append] at happend
      rw [happend, Nat.add_assoc]
    refine ⟨⟨dst.start, dst.len + 1 + length⟩,
      { b with mem := store b.mem (dst.start + dst.len) (separator :: load b.mem cur length) },
      ?_, ?_, ⟨rfl, fun i hi => ?_⟩, ?_, Or.inl ⟨hpos, rfl⟩⟩
    · rw [mergeMultiOption, if_pos hpos, hsep]
      simp only [Option.bind_eq_bind, Option.bind_some, read, write, hread]
      rw [if_pos hcur, Option.bind_some, length_load, if_pos (by omega), Option.bind_some, hstore]
    · have hne : b.value dst ≠ [] := by
        rw [Ne, ← List.length_eq_zero_iff, value, length_load]
        omega
      have hlen : (separator :: load b.mem cur length).length = 1 + length := by
        rw [List.length_cons, length_load, Nat.add_comm]
      have hload := load_store b.mem (dst.start + dst.len) (separator :: load b.mem cur length)
      rw [hlen] at hload
      rw [merge, if_neg hne, value, Nat.add_assoc, load_add, hload,
        load_store_of_disjoint (Or.inl (Nat.le_refl _)), value]
    · refine store_of_outside (hi.imp_right fun hi => ?_)
      rw [List.length_cons, length_load]
      omega
    · dsimp only
      omega
  · have hzero : dst.len = 0 := by omega
    refine ⟨⟨cur, length⟩, b, if_neg hpos, ?_, Same.refl _ _ _, Nat.le_refl _, Or.inr ⟨rfl, rfl⟩⟩
    have hnil : b.value dst = [] := by rw [value, hzero, load_zero]
    rw [merge, if_pos hnil, value]

end Buffer

/-! ## Options -/

/-- Where the strings are: before the cursor, in the order of their numbers, and none for a number
that is still to come. -/
structure Placed (pkt : Message Span) (number cur : ℕ) : Prop where
  before : ∀ o, (pkt.string o).start + (pkt.string o).len ≤ cur
  apart : ∀ o k : StringOption, o.number < k.number → 0 < (pkt.string k).len →
    (pkt.string o).start + (pkt.string o).len ≤ (pkt.string k).start
  later : ∀ o : StringOption, number < o.number → (pkt.string o).len = 0
  proxy : ∀ o, (pkt.proxy o).len = 0
  payload : pkt.payload.len = 0

/-- The strings of a message as they are in the buffer. -/
def Message.view (b : Buffer) (pkt : Message Span) : Message (List UInt8) := pkt.map b.value

theorem StringOption.number_injective {o k : StringOption} (h : o.number = k.number) : o = k := by
  revert h
  cases o <;> cases k <;> decide

namespace Message

variable {Str Str' : Type*}

theorem map_setOption (f : Str → Str') (m : Message Str) (opt : ℕ) :
    (m.setOption opt).map f = (m.map f).setOption opt := by
  unfold setOption
  split <;> rfl

theorem string_setOption (m : Message Str) (opt : ℕ) : (m.setOption opt).string = m.string := by
  unfold setOption
  split <;> rfl

theorem proxy_setOption (m : Message Str) (opt : ℕ) : (m.setOption opt).proxy = m.proxy := by
  unfold setOption
  split <;> rfl

theorem payload_setOption (m : Message Str) (opt : ℕ) : (m.setOption opt).payload = m.payload := by
  unfold setOption
  split <;> rfl

theorem map_setString (f : Str → Str') (m : Message Str) (o : StringOption) (s : Str) :
    (m.setString o s).map f = (m.map f).setString o (f s) := by
  rw [map, map, setString, setString]
  congr 1
  funext k
  exact apply_ite f _ _ _

theorem map_setProxy (f : Str → Str') (m : Message Str) (o : ProxyOption) (s : Str) :
    (m.setProxy o s).map f = (m.map f).setProxy o (f s) := by
  rw [map, map, setProxy, setProxy]
  congr 1
  funext k
  exact apply_ite f _ _ _

end Message

theorem Placed.setOption (h : Placed pkt number cur) (opt : ℕ) :
    Placed (pkt.setOption opt) number cur := by
  obtain ⟨hbefore, hapart, hlater, hproxy, hpayload⟩ := h
  rw [← pkt.string_setOption opt] at hbefore hapart hlater
  rw [← pkt.proxy_setOption opt] at hproxy
  rw [← pkt.payload_setOption opt] at hpayload
  exact ⟨hbefore, hapart, hlater, hproxy, hpayload⟩

/-- The cursor and the number go on. -/
theorem Placed.mono (h : Placed pkt number cur) {number' : ℕ} (hnumber : number ≤ number')
    (hcur : cur ≤ cur') (hstring : pkt'.string = pkt.string) (hproxy : pkt'.proxy = pkt.proxy)
    (hpayload : pkt'.payload = pkt.payload) : Placed pkt' number' cur' := by
  refine ⟨fun o => ?_, ?_, fun o ho => ?_, ?_, ?_⟩
  · rw [hstring]
    exact Nat.le_trans (h.before o) hcur
  · rw [hstring]
    exact h.apart
  · rw [hstring]
    exact h.later o (Nat.lt_of_le_of_lt hnumber ho)
  · rw [hproxy]
    exact h.proxy
  · rw [hpayload]
    exact h.payload

/-- The last string is set, from a place behind the others on. -/
theorem Placed.setString {o : StringOption} (h : Placed pkt number cur)
    (hnumber : number ≤ o.number) (hcur : cur ≤ cur') {dst : Span}
    (hend : dst.start + dst.len ≤ cur')
    (hstart : dst.start = (pkt.string o).start ∧ 0 < (pkt.string o).len ∨ cur ≤ dst.start) :
    Placed (pkt.setString o dst) o.number cur' := by
  have hself : (pkt.setString o dst).string o = dst := if_pos rfl
  have hother : ∀ k, k ≠ o → (pkt.setString o dst).string k = pkt.string k := fun k hk => if_neg hk
  refine ⟨fun k => ?_, fun k l hkl hpos => ?_, fun k hk => ?_, h.proxy, h.payload⟩
  · by_cases hko : k = o
    · rw [hko, hself]
      exact hend
    · rw [hother k hko]
      exact Nat.le_trans (h.before k) hcur
  · by_cases hlo : l = o
    · subst hlo
      have hk : k ≠ l := fun heq => Nat.lt_irrefl _ (heq ▸ hkl)
      rw [hother k hk, hself]
      rcases hstart with ⟨heq, hlen⟩ | hle
      · rw [heq]
        exact h.apart k l hkl hlen
      · exact Nat.le_trans (h.before k) hle
    · rw [hother l hlo] at hpos ⊢
      by_cases hko : k = o
      · subst hko
        have hzero := h.later l (Nat.lt_of_le_of_lt hnumber hkl)
        omega
      · rw [hother k hko]
        exact h.apart k l hkl hpos
  · have hko : k ≠ o := fun heq => Nat.lt_irrefl _ (heq ▸ hk)
    rw [hother k hko]
    exact h.later k (Nat.lt_of_le_of_lt hnumber hk)

/-- The strings before the last one, and the empty ones, keep their bytes. -/
theorem Placed.view_setString {o : StringOption} (h : Placed pkt number cur)
    (hnumber : number ≤ o.number) (dst : Span) {hi : ℕ}
    (hsame : Buffer.Same b b' ((pkt.string o).start + (pkt.string o).len) hi)
    (hlen : 0 < (pkt.string o).len ∨ b' = b) :
    (pkt.setString o dst).view b' = (pkt.view b).setString o (b'.value dst) := by
  rw [Message.view, Message.map_setString, Message.view]
  have hzero : ∀ s : Span, s.len = 0 → b'.value s = b.value s := fun s hs => by
    rw [Buffer.value, Buffer.value, hs, load_zero, load_zero]
  have hstring : ∀ k, k ≠ o → b'.value (pkt.string k) = b.value (pkt.string k) := by
    intro k hk
    rcases hlen with hpos | rfl
    · rcases Nat.lt_or_ge k.number o.number with hlt | hge
      · refine hsame.value_eq (Nat.le_trans (h.apart k o hlt hpos) (Nat.le_add_right _ _))
      · have hne : k.number ≠ o.number := fun heq => hk (StringOption.number_injective heq)
        exact hzero _ (h.later k (by omega))
    · rfl
  rw [Message.setString, Message.setString, Message.map, Message.map]
  congr 1
  · funext k
    dsimp only
    split
    · rfl
    · rename_i hk
      exact hstring k hk
  · funext k
    exact hzero _ (h.proxy k)
  · exact hzero _ h.payload

namespace Buffer

theorem Same.mono {lo lo' hi : ℕ} (h : Same b b' lo hi) (hle : lo' ≤ lo) : Same b b' lo' hi :=
  ⟨h.dataLen, fun i hi => h.mem i (hi.imp_left fun hi => Nat.lt_of_lt_of_le hi hle)⟩

theorem load_take (m : ℕ → UInt8) (p n k : ℕ) : (load m p n).take k = load m p (min k n) := by
  rcases Nat.le_total k n with h | h
  · rw [take_load h, Nat.min_eq_left h]
  · rw [List.take_of_length_le (by rwa [length_load]), Nat.min_eq_right h]

/-- An option is put into the message as its bytes say. -/
theorem option_spec (cfg : Config) (hplaced : Placed pkt number cur) {number' : ℕ}
    (hnumber : number ≤ number') (hcur : cur < cur') (hend : cur' + length ≤ b.dataLen) :
    ∃ pkt' b', b.option cfg (pkt.setOption number') number' cur' length =
        some (rejection number', pkt', b') ∧
      pkt'.view b' = (pkt.view b).addOption cfg (number', load b.mem cur' length) ∧
      Same b b' 0 (cur' + length) ∧
      (rejection number' = none → Placed pkt' number' (cur' + length)) := by
  have hopt := hplaced.setOption number'
  have hread := read_of_le hend
  have hview : (pkt.setOption number').view b = (pkt.view b).setOption number' :=
    Message.map_setOption _ _ _
  have hmono : ∀ p : Message Span, p.string = (pkt.setOption number').string →
      p.proxy = (pkt.setOption number').proxy → p.payload = (pkt.setOption number').payload →
      Placed p number' (cur' + length) :=
    fun p => hopt.mono hnumber (by omega)
  rw [option, rejection, Message.addOption, ← hview]
  cases hkind : kind number' with
  | int o =>
      refine ⟨(pkt.setOption number').setInt o (intValue (load b.mem cur' length)), b, ?_, rfl,
        Same.refl _ _ _, fun _ => hmono _ rfl rfl rfl⟩
      rw [hread]
      rfl
  | bytes o =>
      have hmin : b.read cur' (min 8 length) = some (load b.mem cur' (min 8 length)) :=
        read_of_le (by omega)
      refine ⟨(pkt.setOption number').setBytes o (load b.mem cur' (min 8 length)), b, ?_, ?_,
        Same.refl _ _ _, fun _ => hmono _ rfl rfl rfl⟩
      · rw [hmin]
        rfl
      · dsimp only [Message.put]
        rw [load_take]
        rfl
  | ifNoneMatch =>
      exact ⟨_, b, rfl, rfl, Same.refl _ _ _, fun _ => hmono _ rfl rfl rfl⟩
  | block o =>
      refine ⟨(pkt.setOption number').setBlock o (Block.ofNum (intValue (load b.mem cur' length))),
        b, ?_, rfl, Same.refl _ _ _, fun _ => hmono _ rfl rfl rfl⟩
      rw [hread]
      rfl
  | proxy o =>
      refine ⟨_, b, rfl, ?_, Same.refl _ _ _, fun hnone => ?_⟩
      · dsimp only [Message.put]
        split
        · exact Message.map_setProxy _ _ _ _
        · rfl
      · cases hnone
  | unknown =>
      exact ⟨_, b, rfl, rfl, Same.refl _ _ _, fun _ => hmono _ rfl rfl rfl⟩
  | string o =>
      have hknown : kind number' ≠ .unknown := by
        rw [hkind]
        exact Kind.noConfusion
      obtain rfl : number' = o.number := (kind_eq_iff (hkind ▸ hknown)).1 hkind
      dsimp only [Message.put]
      cases hsep : o.separator with
      | none =>
          exact ⟨_, b, rfl, Message.map_setString _ _ _ _, Same.refl _ _ _,
            fun _ => hopt.setString hnumber (by omega) (Nat.le_refl _)
              (Or.inr (Nat.le_of_lt hcur))⟩
      | some separator =>
          have hbefore : ((pkt.setOption o.number).string o).start +
              ((pkt.setOption o.number).string o).len < cur' :=
            Nat.lt_of_le_of_lt (hopt.before o) hcur
          obtain ⟨dst, b', hmerge, hvalue, hsame, hdst, hstart⟩ :=
            mergeMultiOption_spec separator hbefore hend
          refine ⟨(pkt.setOption o.number).setString o dst, b', ?_, ?_, hsame.mono (Nat.zero_le _),
            fun _ => ?_⟩
          · dsimp only
            rw [hmerge]
            rfl
          · rw [hopt.view_setString hnumber dst hsame ?_, hvalue]
            · rfl
            · exact hstart.imp And.left And.left
          · refine hopt.setString hnumber (by omega) hdst ?_
            rcases hstart with ⟨hpos, heq⟩ | ⟨-, heq⟩
            · exact Or.inl ⟨heq, hpos⟩
            · exact Or.inr (by omega)

end Buffer

/-! ## The loop -/

theorem interpret_cons (cfg : Config) (m : Message (List UInt8)) (o : CodedOption)
    (opts : List CodedOption) (ending : Ending) :
    interpret cfg m (o :: opts) ending =
      match rejection o.1 with
      | some outcome => ⟨outcome, some (m.addOption cfg o)⟩
      | none => interpret cfg (m.addOption cfg o) opts ending := by
  cases h : rejection o.1 with
  | none => simp only [interpret, taken, h, List.findSome?_cons, Option.isSome_none,
      Bool.false_eq_true, if_false, List.foldl_cons]
  | some outcome => simp only [interpret, taken, h, List.findSome?_cons, Option.isSome_some,
      if_true, List.foldl_cons, List.foldl_nil]

/-- What is parsed, as it is in the buffer. -/
def Parsed.view (b : Buffer) (p : Parsed Span) : Parsed (List UInt8) :=
  ⟨p.outcome, p.message.map (Message.view b)⟩

/-- Behind the message only the byte at its end is written, with the NUL of a payload that ends
there. -/
structure Contained (b : Buffer) (p : Parsed Span) (b' : Buffer) : Prop where
  behind : ∀ i, b.dataLen < i → b'.mem i = b.mem i
  terminated : b'.mem b.dataLen = b.mem b.dataLen ∨
    b'.mem b.dataLen = 0 ∧
      ∃ m ∈ p.message, m.payload.start + m.payload.len = b.dataLen

theorem Contained.of_same {hi : ℕ} {p : Parsed Span} {b'' : Buffer} (h : Buffer.Same b b' 0 hi)
    (hhi : hi ≤ b.dataLen) (hrest : Contained b' p b'') : Contained b p b'' where
  behind i hib := by
    rw [hrest.behind i (h.dataLen ▸ hib), h.mem i (Or.inr (by omega))]
  terminated := by
    have hterm := hrest.terminated
    rwa [h.dataLen, h.mem _ (Or.inr hhi)] at hterm

theorem Contained.refl (b : Buffer) (p : Parsed Span) : Contained b p b :=
  ⟨fun _ _ => rfl, Or.inl rfl⟩

/-- The loop does what the decoded options say. Every turn takes the cursor forward. -/
theorem parseOptions_spec (cfg : Config) {turns : ℕ} (hplaced : Placed pkt number cur)
    (hturns : b.dataLen - cur < turns) (hcur : cur ≤ b.dataLen) :
    ∃ p b', parseOptions cfg turns pkt b cur number = some (p, b') ∧
      p.view b' = interpret cfg (pkt.view b) (decode turns number (b.tail cur)).1
        (decode turns number (b.tail cur)).2 ∧
      Contained b p b' := by
  induction turns generalizing pkt b cur number with
  | zero => omega
  | succ turns ih =>
      by_cases hlt : cur < b.dataLen
      · rw [Buffer.tail_of_lt hlt, decode, parseOptions, if_pos hlt, Buffer.get_of_lt hlt]
        simp only [Option.bind_eq_bind, Option.bind_some]
        by_cases hmarker : (b.mem cur).toNat / 16 = 15
        · -- the payload, and its NUL
          rw [if_pos hmarker, if_pos hmarker]
          generalize hlen : min (b.dataLen - (cur + 1)) cfg.maxChunkSize = len
          have hle : cur + 1 + len ≤ b.dataLen := by omega
          have hterm : b.terminate (cur + 1 + len) =
              some { b with mem := store b.mem (cur + 1 + len) [0] } := if_pos hle
          rw [hterm]
          refine ⟨_, _, rfl, ?_, fun i hi => ?_, ?_⟩
          · have hvalue : ∀ s : Span, s.start + s.len ≤ cur + 1 + len →
                Buffer.value { b with mem := store b.mem (cur + 1 + len) [0] } s = b.value s :=
              fun s hs => load_store_of_disjoint (Or.inl hs)
            have hnull : ∀ s : Span, s.len = 0 →
                Buffer.value { b with mem := store b.mem (cur + 1 + len) [0] } s = b.value s :=
              fun s hs => by rw [Buffer.value, Buffer.value, hs, load_zero, load_zero]
            have hstrings : ∀ o, Buffer.value { b with mem := store b.mem (cur + 1 + len) [0] }
                (pkt.string o) = b.value (pkt.string o) := fun o =>
              hvalue _ (Nat.le_trans (hplaced.before o) (by omega))
            have hpayload : b.value ⟨cur + 1, len⟩ = (b.tail (cur + 1)).take cfg.maxChunkSize := by
              rw [Buffer.tail, Buffer.load_take, ← hlen, Nat.min_comm]
              rfl
            simp only [Parsed.view, Message.view, interpret, taken, List.foldl_nil,
              List.findSome?_nil, Option.map_some, Message.map, hstrings, hpayload.symm,
              hvalue ⟨cur + 1, len⟩ (Nat.le_refl _)]
            congr 3
            funext o
            exact hnull _ (hplaced.proxy o)
          · exact store_of_outside (Or.inr (by rw [List.length_singleton]; omega))
          · rcases Nat.lt_or_ge (cur + 1 + len) b.dataLen with hlt' | hge
            · exact Or.inl (store_of_outside (Or.inr (by rw [List.length_singleton]; omega)))
            · have heq : cur + 1 + len = b.dataLen := by omega
              refine Or.inr ⟨?_, _, rfl, heq⟩
              dsimp only
              rw [heq, store_self]
        · rw [if_neg hmarker, if_neg hmarker]
          rcases Buffer.optionHeader_cases b (b.mem cur) cur with
            ⟨hheader, hdecode⟩ | ⟨delta, length, cur', hheader, hdecode, hcur', hend⟩
          · rw [hheader, hdecode]
            exact ⟨_, b, rfl, rfl, Contained.refl b _⟩
          · rw [hheader, hdecode]
            simp only [Option.bind_some]
            by_cases hlarge : optionSize1 < number + delta
            · rw [if_pos hlarge, if_pos hlarge]
              exact ⟨_, b, rfl, rfl, Contained.refl b _⟩
            · rw [if_neg hlarge, if_neg hlarge]
              obtain ⟨pkt', b₁, hoption, hview, hsame, hplaced'⟩ :=
                Buffer.option_spec cfg hplaced (Nat.le_add_right number delta)
                  hcur' hend
              rw [hoption]
              dsimp only [Option.bind_some]
              rw [interpret_cons]
              dsimp only
              rw [← hview]
              cases hreject : rejection (number + delta) with
              | some outcome =>
                  exact ⟨_, b₁, rfl, rfl, Contained.of_same hsame hend (Contained.refl b₁ _)⟩
              | none =>
                  have hdata := hsame.dataLen
                  obtain ⟨p, b', hparse, hp, hcontained⟩ :=
                    ih (b := b₁) (hplaced' hreject) (by omega) (by omega)
                  rw [hsame.tail_eq] at hp
                  exact ⟨p, b', hparse, hp, hcontained.of_same hsame hend⟩
      · rw [Buffer.tail_of_le (Nat.le_of_not_lt hlt), decode, parseOptions, if_neg hlt]
        exact ⟨_, b, rfl, rfl, Contained.refl b _⟩

/-! ## The message -/

@[simp] theorem tokenLen_headerMessage {Str : Type*} (null : Str) (first code hi lo : UInt8) :
    (headerMessage null first code hi lo).tokenLen = first.toNat % 16 := rfl

theorem placed_header (first code hi lo : UInt8) (token : List UInt8) :
    Placed { headerMessage ⟨0, 0⟩ first code hi lo with token := token } 0 (4 + first.toNat % 16) where
  before _ := Nat.zero_le _
  apart _ _ _ hpos := absurd hpos (Nat.lt_irrefl 0)
  later _ _ := rfl
  proxy _ := rfl
  payload := rfl

theorem tail_zero (h : 4 ≤ b.dataLen) :
    b.tail 0 = b.mem 0 :: b.mem 1 :: b.mem 2 :: b.mem 3 :: b.tail 4 := by
  rw [Buffer.tail_of_lt (by omega), Buffer.tail_of_lt (by omega), Buffer.tail_of_lt (by omega),
    Buffer.tail_of_lt (by omega)]

theorem parseBytes_of_short {data : List UInt8} (h : data.length < 4) :
    parseBytes cfg data = ⟨Outcome.malformed, none⟩ := by
  match data with
  | [] | [_] | [_, _] | [_, _, _] => rfl
  | _ :: _ :: _ :: _ :: _ =>
      simp only [List.length_cons] at h
      omega

theorem headerFault_eq_none_iff {first : UInt8} :
    headerFault first length = none ↔
      first.toNat / 64 = 1 ∧ first.toNat % 16 ≤ 8 ∧ first.toNat % 16 ≤ length := by
  unfold headerFault
  split
  · simp_all
  · split
    · simp; omega
    · split
      · simp; omega
      · simp; omega

/-- The parser of the bytes, once the header is read. -/
theorem parseBytes_tail (cfg : Config) (h : 4 ≤ b.dataLen) :
    parseBytes cfg (b.tail 0) =
      match headerFault (b.mem 0) (b.dataLen - 4) with
      | some outcome =>
          ⟨outcome, some (headerMessage [] (b.mem 0) (b.mem 1) (b.mem 2) (b.mem 3))⟩
      | none =>
          interpret cfg
            { headerMessage [] (b.mem 0) (b.mem 1) (b.mem 2) (b.mem 3) with
              token := (b.tail 4).take ((b.mem 0).toNat % 16) }
            (optionsOf (b.tail 0)).1 (optionsOf (b.tail 0)).2 := by
  have hlength : (b.tail 4).length = b.dataLen - 4 := Buffer.length_tail
  rw [tail_zero h, ← hlength]
  rfl

theorem optionsOf_tail (h : 4 ≤ b.dataLen) :
    optionsOf (b.tail 0) = decode (b.dataLen + 1) 0 (b.tail (4 + (b.mem 0).toNat % 16)) := by
  have hhead : (b.tail 0).headD 0 = b.mem 0 := by
    rw [tail_zero h]
    rfl
  rw [optionsOf, hhead, Buffer.drop_tail, Nat.zero_add, Buffer.length_tail, Nat.sub_zero]

/-- The parser stays inside the message, and computes what its bytes say. -/
theorem parseMessage_spec (cfg : Config) (b : Buffer) :
    ∃ p b', parseMessage cfg b = some (p, b') ∧ p.view b' = parseBytes cfg (b.tail 0) ∧
      Contained b p b' := by
  by_cases hshort : b.dataLen < 4
  · have hbytes : parseBytes cfg (b.tail 0) = ⟨Outcome.malformed, none⟩ :=
      parseBytes_of_short (by rwa [Buffer.length_tail])
    exact ⟨_, b, if_pos hshort, hbytes.symm, Contained.refl b _⟩
  have h4 := Nat.le_of_not_lt hshort
  rw [parseBytes_tail cfg h4, parseMessage, if_neg hshort, Buffer.get_of_lt (by omega),
    Buffer.get_of_lt (by omega), Buffer.get_of_lt (by omega), Buffer.get_of_lt (by omega)]
  simp only [Option.bind_eq_bind, Option.bind_some]
  by_cases hversion : (b.mem 0).toNat / 64 ≠ 1
  · have hfault : headerFault (b.mem 0) (b.dataLen - 4) = some Outcome.version := if_pos hversion
    rw [hfault]
    exact ⟨_, b, if_pos hversion, rfl, Contained.refl b _⟩
  by_cases htoken : 8 < (b.mem 0).toNat % 16
  · have hfault : headerFault (b.mem 0) (b.dataLen - 4) = some Outcome.tokenLength :=
      (if_neg hversion).trans (if_pos htoken)
    rw [hfault]
    exact ⟨_, b, (if_neg hversion).trans (if_pos htoken), rfl, Contained.refl b _⟩
  by_cases hfit : b.dataLen < 4 + (b.mem 0).toNat % 16
  · have hfault : headerFault (b.mem 0) (b.dataLen - 4) = some Outcome.malformed :=
      (if_neg hversion).trans ((if_neg htoken).trans (if_pos (by omega)))
    rw [hfault]
    exact ⟨_, b, (if_neg hversion).trans ((if_neg htoken).trans (if_pos hfit)), rfl,
      Contained.refl b _⟩
  have hend : 4 + (b.mem 0).toNat % 16 ≤ b.dataLen := Nat.le_of_not_lt hfit
  have hfault : headerFault (b.mem 0) (b.dataLen - 4) = none :=
    headerFault_eq_none_iff.2 ⟨by omega, by omega, by omega⟩
  obtain ⟨p, b', hparse, hview, hcontained⟩ := parseOptions_spec cfg (b := b)
    (placed_header (b.mem 0) (b.mem 1) (b.mem 2) (b.mem 3)
      (load b.mem 4 ((b.mem 0).toNat % 16))) (Nat.lt_succ_of_le (Nat.sub_le _ _)) hend
  rw [hfault, optionsOf_tail h4, Buffer.take_tail hend]
  refine ⟨p, b', (if_neg hversion).trans ((if_neg htoken).trans ((if_neg hfit).trans ?_)), hview,
    hcontained⟩
  rw [tokenLen_headerMessage, Buffer.read_of_le hend]
  exact hparse

/-! ## The strings -/

theorem string_interpret {o : StringOption} (hsep : o.separator = some separator)
    (hm : m.string o = []) {opts : List CodedOption} {ending : Ending}
    {m' : Message (List UInt8)} (h : m' ∈ (interpret cfg m opts ending).message) :
    m'.string o = joined separator (partsOf o.number (taken opts)) := by
  have hfold := Message.string_foldl cfg (taken opts) m o
  rw [Message.mergeString_of_separator hsep, hm, foldl_merge_nil] at hfold
  rw [← hfold]
  unfold interpret at h
  dsimp only at h
  split at h
  · rw [Option.mem_some_iff.1 h]
  · split at h
    · rw [Option.mem_some_iff.1 h]
    · rw [← Option.mem_some_iff.1 h]
    · rw [Option.mem_some_iff.1 h]

/-- The strings that the parser leaves are the parts of the message, joined. -/
theorem string_parseBytes {o : StringOption} (hsep : o.separator = some separator)
    {data : List UInt8} (h : m ∈ (parseBytes cfg data).message) :
    m.string o = joined separator (partsOf o.number (accepted data)) := by
  match data with
  | [] | [_] | [_, _] | [_, _, _] => cases h
  | first :: code :: hi :: lo :: rest =>
      rw [parseBytes] at h
      rw [accepted]
      cases hfault : headerFault first rest.length with
      | some outcome =>
          rw [hfault] at h
          rw [← Option.mem_some_iff.1 h, if_neg nofun]
          rfl
      | none =>
          rw [hfault] at h
          rw [if_pos rfl]
          exact string_interpret hsep rfl h

/-- `coap_parse_message` ends, stays inside the message (but for the NUL at the end of the
payload), and leaves the message that the bytes say, with its strings joined. -/
theorem parseMessage_faithful (cfg : Config) (b : Buffer) :
    ∃ p b', parseMessage cfg b = some (p, b') ∧ Contained b p b' ∧
      p.view b' = parseBytes cfg (load b.mem 0 b.dataLen) ∧
      ∀ o separator, StringOption.separator o = some separator → ∀ m ∈ p.message,
        b'.value (m.string o) =
          joined separator (partsOf o.number (accepted (load b.mem 0 b.dataLen))) := by
  obtain ⟨p, b', hparse, hview, hcontained⟩ := parseMessage_spec cfg b
  refine ⟨p, b', hparse, hcontained, hview, fun o separator hsep m hm => ?_⟩
  have hmem : m.view b' ∈ (parseBytes cfg (b.tail 0)).message := by
    rw [← hview, Parsed.view, Option.mem_def.1 hm]
    rfl
  exact string_parseBytes hsep hmem

end Den2ne.Coap
