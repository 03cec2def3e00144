import Den2ne.Coap.Coded
import Den2ne.Coap.Fields

/-!
# Messages that the setters build

What holds of a message that is built by `coap_init_message` and the setters.
-/

namespace Den2ne.Coap

open Memory

variable {cfg : Config} {m : Message Text} {n : ℕ}

theorem separator_ne_zero {o : StringOption} {separator : UInt8}
    (h : o.separator = some separator) : separator ≠ 0 := by
  cases o <;> cases h <;> decide

theorem CString.mem_length (s : CString) : s.mem s.chars.length = 0 := by
  rw [mem, List.getElem?_eq_none (Nat.le_refl _), if_pos rfl, Option.getD_none]

theorem CString.mem_of_getElem? {s : CString} {i : ℕ} {c : UInt8} (h : s.chars[i]? = some c) :
    s.mem i = c := by
  rw [mem, h, Option.getD_some]

/-- The calls: block sizes `2^4` to `2^10`, and payloads that fit a chunk. -/
def Setter.Allowed (cfg : Config) : Setter → Prop
  | block _ _ _ size => ∃ k ≤ 6, size = 16 * 2 ^ k
  | payload value => value.length ≤ cfg.maxChunkSize
  | _ => True

/-- The message that the calls build. -/
def build (cfg : Config) (type : ℕ) (code : UInt8) (mid : UInt16) (calls : List Setter) :
    Message Text :=
  calls.foldl (Setter.apply cfg) (Message.init type code mid)

/-- A block that was set. -/
def Block.Valid (b : Block) : Prop := b.num ≤ 0x0FFFFF ∧ ∃ k < 8, b.size = 16 * 2 ^ k

/-- The fields hold values of their range, and only known options are present, of which none is for
a proxy. -/
structure Built (cfg : Config) (m : Message Text) : Prop where
  type : m.type < 4
  tokenLen : m.tokenLen = m.token.length
  token : m.token.length ≤ 8
  int : ∀ o, m.int o < 2 ^ o.width
  bytes : ∀ o, (m.bytes o).length ≤ 8
  more : (m.block .block2).more ≤ 1
  block : ∀ o, m.isOption o.number → (m.block o).Valid
  string : ∀ o separator, StringOption.separator o = some separator →
    (m.string o).mem (m.string o).len ≠ separator
  known : ∀ n, m.isOption n → n ∈ numbers ∧ rejection n = none
  payload : m.payload.len ≤ cfg.maxChunkSize

namespace Built

theorem init {type : ℕ} (htype : type < 4) (code : UInt8) (mid : UInt16) :
    Built cfg (Message.init type code mid) where
  type := htype
  tokenLen := rfl
  token := Nat.zero_le _
  int _ := Nat.two_pow_pos _
  bytes _ := Nat.zero_le _
  more := Nat.zero_le _
  block o h := by simp [Message.isOption, Message.init, Message.zero] at h
  string _ _ h := (separator_ne_zero h).symm
  known n h := by simp [Message.isOption, Message.init, Message.zero] at h
  payload := Nat.zero_le _

/-- An option is present, whose field is set if it is a block. -/
theorem setOption (h : Built cfg m) (hn : n ∈ numbers ∧ rejection n = none)
    (hblock : ∀ o : BlockOption, o.number = n → (m.block o).Valid) : Built cfg (m.setOption n) := by
  obtain ⟨x, hx⟩ : ∃ x, m.setOption n = { m with options := x } := by
    unfold Message.setOption
    split
    · exact ⟨m.options, rfl⟩
    · exact ⟨_, rfl⟩
  have hopt := m.isOption_setOption n
  rw [hx] at hopt ⊢
  refine { h with block := fun o ho => ?_, known := fun k hk => ?_ }
  · rw [hopt, Bool.or_eq_true, decide_eq_true_eq] at ho
    rcases ho with ho | ⟨ho, -⟩
    · exact h.block o ho
    · exact hblock o ho
  · rw [hopt, Bool.or_eq_true, decide_eq_true_eq] at hk
    rcases hk with hk | ⟨rfl, -⟩
    · exact h.known k hk
    · exact hn

theorem setHeaderInt (h : Built cfg m) (o : IntOption) (value : ℕ) :
    Built cfg (m.setHeaderInt o value) := by
  have hint : Built cfg (m.setInt o value) := { h with
    int := fun k => by
      change (if k = o then value % 2 ^ o.width else m.int k) < _
      split
      · rename_i hk
        rw [hk]
        exact Nat.mod_lt _ (Nat.two_pow_pos _)
      · exact h.int k }
  refine hint.setOption (by cases o <;> decide) fun p hp => ?_
  cases o <;> cases p <;> cases hp

theorem setHeaderBytes (h : Built cfg m) (o : ByteOption) (value : List UInt8) :
    Built cfg (m.setHeaderBytes o value) := by
  have hbytes : Built cfg (m.setBytes o (value.take 8)) := { h with
    bytes := fun k => by
      change (if k = o then value.take 8 else m.bytes k).length ≤ 8
      split
      · exact List.length_take_le _ _
      · exact h.bytes k }
  refine hbytes.setOption (by cases o <;> decide) fun p hp => ?_
  cases o <;> cases p <;> cases hp

/-- A string is set, at whose end there is no separator. -/
theorem setString (h : Built cfg m) (o : StringOption) (t : Text)
    (hend : ∀ separator, o.separator = some separator → t.mem t.len ≠ separator) :
    Built cfg (m.setString o t) := { h with
  string := fun k separator hk => by
    by_cases hko : k = o
    · subst hko
      have hself : (m.setString k t).string k = t := if_pos rfl
      rw [hself]
      exact hend separator hk
    · have hother : (m.setString o t).string k = m.string k := if_neg hko
      rw [hother]
      exact h.string k separator hk }

theorem setStringOption (h : Built cfg m) (o : StringOption) :
    Built cfg (m.setOption o.number) := by
  refine h.setOption (by cases o <;> decide) fun p hp => ?_
  cases o <;> cases p <;> cases hp

theorem setCString (h : Built cfg m) (o : StringOption) (s : CString) :
    Built cfg (m.setString o s.text) :=
  h.setString o s.text fun separator hsep => by
    have hend : s.text.mem s.text.len = 0 := s.mem_length
    rw [hend]
    exact (separator_ne_zero hsep).symm

/-- A string and its option are set. -/
theorem setHeaderString (h : Built cfg m) (o : StringOption) (s : CString) :
    Built cfg ((m.setString o s.text).setOption o.number) :=
  (h.setCString o s).setStringOption o

theorem setHeaderLocationPath (h : Built cfg m) (path : CString) :
    Built cfg (m.setHeaderLocationPath path) := by
  have hset : ∀ {m' : Message Text} {len : ℕ}, Built cfg m' →
      (path.skip 47).mem len ≠ 47 →
      Built cfg (if 0 < len then
        (m'.setString .locationPath ⟨(path.skip 47).mem, len⟩).setOption
          StringOption.locationPath.number
        else m'.setString .locationPath ⟨(path.skip 47).mem, len⟩) := by
    intro m' len hm' hend
    have hstring := hm'.setString .locationPath ⟨(path.skip 47).mem, len⟩ fun separator hsep => by
      rw [← Option.some.inj hsep]
      exact hend
    split
    · exact hstring.setStringOption _
    · exact hstring
  unfold Message.setHeaderLocationPath
  dsimp only
  cases hfind : (path.skip 47).chars.findIdx? (· = 63) with
  | none =>
      refine hset h ?_
      rw [CString.mem_length]
      decide
  | some i =>
      refine hset (h.setHeaderString .locationQuery (((path.skip 47).drop (i + 1)).skip 63)) ?_
      obtain ⟨hi, hchar, -⟩ := List.findIdx?_eq_some_iff_getElem.1 hfind
      rw [CString.mem_of_getElem? (List.getElem?_eq_getElem hi), of_decide_eq_true hchar]
      decide

theorem setHeaderBlock (h : Built cfg m) (o : BlockOption) (num : ℕ) (more : UInt8) {size k : ℕ}
    (hk : k ≤ 6) (hsize : size = 16 * 2 ^ k) : Built cfg (m.setHeaderBlock o num more size) := by
  unfold Message.setHeaderBlock
  split
  · exact h
  · rename_i hrange
    have hnum : num ≤ 0x0FFFFF := by omega
    dsimp only
    generalize hb : ({ m.block o with num := num, more := _, size := size } : Block) = b
    have hvalid : b.Valid := by
      rw [← hb]
      exact ⟨hnum, k, by omega, hsize⟩
    have hself : (m.setBlock o b).block o = b := if_pos rfl
    have hother : ∀ p, p ≠ o → (m.setBlock o b).block p = m.block p := fun p hp => if_neg hp
    have hblock : Built cfg (m.setBlock o b) := { h with
      more := by
        cases o with
        | block1 =>
            rw [hother .block2 nofun]
            exact h.more
        | block2 =>
            rw [hself, ← hb]
            dsimp only
            split <;> decide
      block := fun p hp => by
        by_cases hpo : p = o
        · rw [hpo, hself]
          exact hvalid
        · rw [hother p hpo]
          exact h.block p hp }
    refine hblock.setOption (by cases o <;> decide) fun p hp => ?_
    obtain rfl : p = o := by cases o <;> cases p <;> first | rfl | cases hp
    rw [hself]
    exact hvalid

/-- Every call keeps the message well formed. -/
theorem apply (h : Built cfg m) {c : Setter} (hc : c.Allowed cfg) : Built cfg (c.apply cfg m) := by
  cases c with
  | statusCode code =>
      rw [Setter.apply, Message.setStatusCode]
      split
      · exact { h with }
      · exact h
  | token value =>
      exact { h with
        tokenLen := List.length_take.symm
        token := List.length_take_le _ _ }
  | int o value => exact h.setHeaderInt o value
  | bytes o value => exact h.setHeaderBytes o value
  | ifNoneMatch =>
      refine h.setOption (n := optionIfNoneMatch) (by decide) fun p hp => ?_
      cases p <;> cases hp
  | block o num more size =>
      obtain ⟨k, hk, hsize⟩ := hc
      exact h.setHeaderBlock o num more hk hsize
  | string o s =>
      cases o with
      | uriHost => exact h.setHeaderString .uriHost s
      | locationPath => exact h.setHeaderLocationPath s
      | uriPath => exact h.setHeaderString .uriPath (s.skip 47)
      | uriQuery => exact h.setHeaderString .uriQuery (s.skip 63)
      | locationQuery => exact h.setHeaderString .locationQuery (s.skip 63)
  | payload value => exact { h with payload := Nat.min_le_left _ _ }

theorem build {type : ℕ} (htype : type < 4) (code : UInt8) (mid : UInt16) {calls : List Setter}
    (hcalls : ∀ c ∈ calls, c.Allowed cfg) : Built cfg (Coap.build cfg type code mid calls) :=
  List.foldlRecOn calls _ (init htype code mid) fun _ h c hc => h.apply (hcalls c hc)

end Built

end Den2ne.Coap
