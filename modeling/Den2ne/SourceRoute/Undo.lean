import Den2ne.SourceRoute.Chain

/-!
# What the removal leaves

`rpl_ext_header_remove` removes the headers at the front of a chain one after the other. Once it has
gone on to a header that is kept, `prev_proto_ptr` is the next-header field of the header that is
looked at and not of the one before it: a header that is removed there stays named, and the loop
goes on with the protocol behind the header that has moved up.
-/

namespace Den2ne.SourceRoute

open Memory

/-- The datagram with these extension headers. -/
def Datagram.withExts (d : Datagram) (hs : List ExtHdr) : Datagram := { d with exts := hs }

/-- The datagram without the headers that RPL has added. -/
def Datagram.removed (d : Datagram) : Datagram := d.withExts (withoutRpl d.exts)

/-- The rest of the packet from `pos` on. -/
structure Packet.Rest (p : Packet) (pos : ℕ) (upper : UInt8) (hs : List ExtHdr)
    (payload : List UInt8) : Prop where
  len : p.len = pos + (chainBytes upper hs ++ payload).length
  load : load p.buf pos (chainBytes upper hs ++ payload).length = chainBytes upper hs ++ payload

variable {p q : Packet} {d : Datagram} {h g : ExtHdr} {hs gs : List ExtHdr} {upper u v : UInt8}
  {payload : List UInt8} {pos prev : ℕ}

theorem Packet.Parts.rest (hp : p.Parts d) : p.Rest iphLen d.upper d.exts d.payload :=
  ⟨hp.len, hp.body⟩

/-! ## A header -/

/-- The first header of the rest. -/
structure Packet.HeaderAt (p : Packet) (pos : ℕ) (upper : UInt8) (h : ExtHdr) (hs : List ExtHdr)
    (payload : List UInt8) : Prop where
  next : p.buf pos = nextProto upper hs
  len : p.extHdrLen pos = h.size
  option : h.data.head? = some (p.buf (pos + 2))
  rest : p.Rest (pos + h.size) upper hs payload

theorem Packet.Rest.headerAt (hp : p.Rest pos upper (h :: hs) payload) :
    p.HeaderAt pos upper h hs payload := by
  have hbytes : chainBytes upper (h :: hs) ++ payload =
      nextProto upper hs :: h.len :: (h.data ++ (chainBytes upper hs ++ payload)) := by
    rw [chainBytes_cons, List.cons_append, List.cons_append, List.append_assoc]
  have hdata := h.length_data
  have hload := hp.load
  have hlen := hp.len
  rw [hbytes] at hload hlen
  rw [List.length_cons, List.length_cons, List.length_append] at hload hlen
  rw [load_succ, load_succ, load_add, List.cons.injEq, List.cons.injEq] at hload
  obtain ⟨hnext, hfield, hrest⟩ := hload
  obtain ⟨hdatas, hrest⟩ := List.append_inj hrest (length_load _ _ _)
  have hsize : pos + 1 + 1 + h.data.length = pos + h.size := by
    rw [hdata, ExtHdr.size]
    omega
  rw [hsize] at hrest
  refine ⟨hnext, ?_, ?_, ?_, hrest⟩
  · rw [Packet.extHdrLen, hfield]
    rfl
  · obtain ⟨b, bs, hb⟩ := List.exists_cons_of_length_eq_add_one hdata
    rw [hb, List.length_cons, load_succ, List.cons.injEq] at hdatas
    rw [hb, List.head?_cons, ← hdatas.1]
  · omega

theorem Packet.HeaderAt.removes_iff (hp : p.HeaderAt pos upper h hs payload) :
    p.Removes pos h.proto ↔ h.IsRpl := by
  unfold Packet.Removes ExtHdr.IsRpl
  rw [hp.option, Option.some.injEq]

theorem Packet.Rest.le_len (hp : p.Rest pos upper hs payload) : pos ≤ p.len := by
  rw [hp.len]
  exact Nat.le_add_right pos _

/-! ## A turn of the loop -/

variable {protocol proto : UInt8} {next i : ℕ}

theorem removeFrom_upper (hupper : Packet.isProtoExtHdr protocol = false) :
    removeFrom p pos prev protocol = (true, p) := by
  rw [removeFrom, hupper]
  rfl

theorem removeFrom_refused (hext : Packet.isProtoExtHdr protocol = true)
    (hrem : p.Removes pos protocol)
    (hsub : (p.relink pos prev).subExtHdr ((p.relink pos prev).extHdrLen pos) = none) :
    removeFrom p pos prev protocol = (false, p.relink pos prev) := by
  rw [removeFrom, if_pos hext, if_pos hrem]
  dsimp only
  split
  · rfl
  · rename_i q hq
    rw [hsub] at hq
    cases hq

theorem removeFrom_removed (hext : Packet.isProtoExtHdr protocol = true)
    (hrem : p.Removes pos protocol)
    (hsub : (p.relink pos prev).subExtHdr ((p.relink pos prev).extHdrLen pos) = some q) :
    removeFrom p pos prev protocol =
      if q.len ≤ pos then (false, q.setLenField q.payloadLen)
      else
        let r := (q.setLenField q.payloadLen).moveLeft pos ((p.relink pos prev).extHdrLen pos)
        removeFrom r pos prev (r.buf prev) := by
  rw [removeFrom, if_pos hext, if_pos hrem]
  dsimp only
  split
  · rename_i hq
    rw [hsub] at hq
    cases hq
  · rename_i q' hq
    obtain rfl := Option.some.inj (hsub.symm.trans hq)
    split <;> rfl

theorem removeFrom_last (hext : Packet.isProtoExtHdr protocol = true)
    (hrem : ¬ p.Removes pos protocol)
    (hnext : Packet.getNextHeader p.buf pos (p.len - pos) false = (none, proto)) :
    removeFrom p pos prev protocol = (true, p) := by
  rw [removeFrom, if_pos hext, if_neg hrem]
  split
  · rfl
  · rename_i hsome
    rw [hnext] at hsome
    cases hsome

theorem removeFrom_next (hext : Packet.isProtoExtHdr protocol = true)
    (hrem : ¬ p.Removes pos protocol)
    (hnext : Packet.getNextHeader p.buf pos (p.len - pos) false = (some next, proto)) :
    removeFrom p pos prev protocol = removeFrom p next next proto := by
  rw [removeFrom, if_pos hext, if_neg hrem]
  split
  · rename_i hnone
    rw [hnext] at hnone
    cases hnone
  · rename_i hsome
    rw [hnext, Prod.mk.injEq, Option.some.injEq] at hsome
    obtain ⟨rfl, rfl⟩ := hsome
    rfl

/-- Nothing before the header that is looked at is changed, except for the length of the packet. -/
theorem removeFrom_before (hprev : prev = pos) (hi : i < pos) (hfour : i ≠ 4) (hfive : i ≠ 5) :
    (removeFrom p pos prev protocol).2.buf i = p.buf i := by
  have hlink : ∀ (p : Packet) {pos : ℕ}, i < pos → (p.relink pos pos).buf i = p.buf i :=
    fun p pos hi => store_of_lt hi
  have hfield : ∀ (p : Packet) (n : ℕ), (p.setLenField n).buf i = p.buf i := fun p n =>
    store_of_outside (by rw [List.length_cons, List.length_singleton]; omega)
  induction p, pos, prev, protocol using removeFrom.induct with
  | case1 p pos prev protocol hext hrem extLen hsub =>
      subst hprev
      rw [removeFrom_refused hext hrem hsub]
      exact hlink p hi
  | case2 p pos prev protocol hext hrem extLen q hsub hend =>
      subst hprev
      obtain ⟨_, _, _, rfl⟩ := Packet.subExtHdr_eq_some hsub
      rw [removeFrom_removed hext hrem hsub, if_pos hend]
      exact (hfield _ _).trans (hlink p hi)
  | case3 p pos prev protocol hext hrem extLen q hsub hend r ih =>
      subst hprev
      obtain ⟨_, _, _, rfl⟩ := Packet.subExtHdr_eq_some hsub
      rw [removeFrom_removed hext hrem hsub, if_neg hend]
      have hmove : r.buf i = p.buf i :=
        (store_of_lt hi).trans ((hfield _ _).trans (hlink p hi))
      exact (ih rfl hi).trans hmove
  | case4 p pos prev protocol hext hrem proto hnext =>
      rw [removeFrom_last hext hrem hnext]
  | case5 p pos prev protocol hext hrem next proto hnext ih =>
      obtain ⟨hnext', _, _⟩ := getNextHeader_eq_some hnext
      rw [removeFrom_next hext hrem hnext]
      exact ih rfl (by omega)
  | case6 p pos prev protocol hext =>
      rw [removeFrom_upper (Bool.eq_false_iff.2 hext)]

theorem removeFrom_len_le : (removeFrom p pos prev protocol).2.len ≤ p.len := by
  induction p, pos, prev, protocol using removeFrom.induct with
  | case1 p pos prev protocol hext hrem extLen hsub =>
      exact Nat.le_of_eq (congrArg (fun r => r.2.len) (removeFrom_refused hext hrem hsub))
  | case2 p pos prev protocol hext hrem extLen q hsub hend =>
      obtain ⟨_, _, _, rfl⟩ := Packet.subExtHdr_eq_some hsub
      rw [removeFrom_removed hext hrem hsub, if_pos hend]
      exact Nat.sub_le p.len extLen
  | case3 p pos prev protocol hext hrem extLen q hsub hend r ih =>
      obtain ⟨_, _, _, rfl⟩ := Packet.subExtHdr_eq_some hsub
      rw [removeFrom_removed hext hrem hsub, if_neg hend]
      exact Nat.le_trans ih (Nat.sub_le p.len extLen)
  | case4 p pos prev protocol hext hrem proto hnext =>
      exact Nat.le_of_eq (congrArg (fun r => r.2.len) (removeFrom_last hext hrem hnext))
  | case5 p pos prev protocol hext hrem next proto hnext ih =>
      rw [removeFrom_next hext hrem hnext]
      exact ih
  | case6 p pos prev protocol hext =>
      have hupper := Bool.eq_false_iff.2 hext
      exact Nat.le_of_eq (congrArg (fun r => r.2.len) (removeFrom_upper hupper))

/-- If no header is taken off the length, no byte is changed but the one at `prev_proto_ptr`. -/
theorem removeFrom_of_len (hlen : (removeFrom p pos prev protocol).2.len = p.len)
    (hi : i ≠ prev ∨ prev = pos) : (removeFrom p pos prev protocol).2.buf i = p.buf i := by
  induction p, pos, prev, protocol using removeFrom.induct with
  | case1 p pos prev protocol hext hrem extLen hsub =>
      rw [removeFrom_refused hext hrem hsub]
      change store p.buf prev [p.buf pos] i = p.buf i
      by_cases hprev : i = prev
      · have hsame := hi.resolve_left (not_not.2 hprev)
        rw [hprev, store_self, hsame]
      · exact store_of_outside (by rw [List.length_singleton]; omega)
  | case2 p pos prev protocol hext hrem extLen q hsub hend =>
      obtain ⟨hsize, _, _, rfl⟩ := Packet.subExtHdr_eq_some hsub
      rw [removeFrom_removed hext hrem hsub, if_pos hend] at hlen
      have height : 8 ≤ extLen := Nat.le_add_left 8 _
      have hlen : p.len - extLen = p.len := hlen
      have hsize : extLen ≤ p.len := hsize
      omega
  | case3 p pos prev protocol hext hrem extLen q hsub hend r ih =>
      obtain ⟨hsize, _, _, rfl⟩ := Packet.subExtHdr_eq_some hsub
      rw [removeFrom_removed hext hrem hsub, if_neg hend] at hlen
      have height : 8 ≤ extLen := Nat.le_add_left 8 _
      have hshort : (removeFrom r pos prev (r.buf prev)).2.len ≤ p.len - extLen :=
        removeFrom_len_le
      have hlen : (removeFrom r pos prev (r.buf prev)).2.len = p.len := hlen
      have hsize : extLen ≤ p.len := hsize
      omega
  | case4 p pos prev protocol hext hrem proto hnext =>
      rw [removeFrom_last hext hrem hnext]
  | case5 p pos prev protocol hext hrem next proto hnext ih =>
      rw [removeFrom_next hext hrem hnext] at hlen ⊢
      exact ih hlen (.inr rfl)
  | case6 p pos prev protocol hext =>
      rw [removeFrom_upper (Bool.eq_false_iff.2 hext)]

/-! ## Headers that are kept -/

/-- A header that is kept before another one is gone over. -/
theorem removeFrom_kept (hp : p.Rest pos upper (h :: g :: gs) payload) (hkeep : ¬ h.IsRpl) :
    removeFrom p pos prev h.proto =
      removeFrom p (pos + h.size) (pos + h.size) g.proto := by
  have hat := hp.headerAt
  have hat' := hat.rest.headerAt
  have hend := hat'.rest.le_len
  have hlen : (p.buf (pos + 1)).toNat * 8 + 8 = h.size := hat.len
  have hlen' : (p.buf (pos + h.size + 1)).toNat * 8 + 8 = g.size := hat'.len
  have hnext : Packet.getNextHeader p.buf pos (p.len - pos) false =
      (some (pos + h.size), g.proto) := by
    unfold Packet.getNextHeader
    simp only [Bool.false_eq_true, if_false, hat.next, hlen, nextProto, g.isExt, if_true, hlen']
    have hg : 8 ≤ g.size := Nat.le_add_left 8 _
    rw [if_neg (by omega)]
  exact removeFrom_next h.isExt (mt hat.removes_iff.1 hkeep) hnext

theorem removeFrom_kept_last (hp : p.Rest pos upper [h] payload) (hkeep : ¬ h.IsRpl)
    (hupper : Packet.isProtoExtHdr upper = false) : (removeFrom p pos prev h.proto).2 = p := by
  have hat := hp.headerAt
  have hrem := mt hat.removes_iff.1 hkeep
  rcases hnext : Packet.getNextHeader p.buf pos (p.len - pos) false with ⟨_ | next, proto⟩
  · rw [removeFrom_last h.isExt hrem hnext]
  · obtain ⟨_, _, hproto⟩ := getNextHeader_eq_some hnext
    rw [removeFrom_next h.isExt hrem hnext, hproto, hat.next, nextProto, removeFrom_upper hupper]

/-- Nothing is changed if all headers are kept. -/
theorem removeFrom_all_kept (hp : p.Rest pos upper hs payload) (hkeep : ∀ h ∈ hs, ¬ h.IsRpl)
    (hupper : Packet.isProtoExtHdr upper = false) :
    (removeFrom p pos prev (nextProto upper hs)).2 = p := by
  induction hs generalizing pos prev with
  | nil => exact congrArg Prod.snd (removeFrom_upper hupper)
  | cons h hs ih =>
      obtain ⟨hhead, htail⟩ := List.forall_mem_cons.1 hkeep
      cases hs with
      | nil => exact removeFrom_kept_last hp hhead hupper
      | cons g gs =>
          rw [nextProto, removeFrom_kept hp hhead]
          exact ih hp.headerAt.rest htail

/-- Headers that are kept are gone over up to one that is not. -/
theorem removeFrom_append (hp : p.Rest pos upper (gs ++ h :: hs) payload)
    (hkeep : ∀ g ∈ gs, ¬ g.IsRpl) (hne : gs ≠ []) :
    removeFrom p pos prev (nextProto upper (gs ++ h :: hs)) =
      removeFrom p (pos + (gs.map ExtHdr.size).sum) (pos + (gs.map ExtHdr.size).sum) h.proto := by
  induction gs generalizing pos prev with
  | nil => exact absurd rfl hne
  | cons g gs ih =>
      obtain ⟨hhead, htail⟩ := List.forall_mem_cons.1 hkeep
      cases gs with
      | nil =>
          rw [List.singleton_append] at hp ⊢
          rw [nextProto, removeFrom_kept hp hhead]
          rfl
      | cons g' gs =>
          rw [List.cons_append, List.cons_append] at hp ⊢
          rw [nextProto, removeFrom_kept hp hhead]
          have hrest : removeFrom p (pos + g.size) (pos + g.size)
              (nextProto upper (g' :: gs ++ h :: hs)) = _ :=
            ih hp.headerAt.rest htail (List.cons_ne_nil _ _)
          rw [List.cons_append, nextProto] at hrest
          have hsum : pos + ((g :: g' :: gs).map ExtHdr.size).sum =
              pos + g.size + ((g' :: gs).map ExtHdr.size).sum := by
            rw [List.map_cons, List.sum_cons, Nat.add_assoc]
          rw [hsum, hrest]

/-! ## Headers at the front -/

/-- The packet without the header of `size` bytes behind the IPv6 header. -/
def Packet.withoutFirst (p : Packet) (size : ℕ) : Packet :=
  let shorter : Packet := { p.relink iphLen 6 with len := p.len - size, extLen := p.extLen - size }
  (shorter.setLenField shorter.payloadLen).moveLeft iphLen size

theorem extHdrLen_relink (p : Packet) :
    (p.relink iphLen 6).extHdrLen iphLen = p.extHdrLen iphLen := by
  have hbyte : store p.buf 6 [p.buf iphLen] (iphLen + 1) = p.buf (iphLen + 1) :=
    store_of_le (by rw [List.length_singleton]; decide)
  change (store p.buf 6 [p.buf iphLen] (iphLen + 1)).toNat * 8 + 8 = _
  rw [Packet.extHdrLen, hbyte]

theorem Packet.moveLeft_of_le (p : Packet) (size : ℕ) (hle : p.len ≤ pos) :
    p.moveLeft pos size = p := by
  rw [Packet.moveLeft, Nat.sub_eq_zero_of_le hle, load_zero, store_nil]

theorem Packet.Holds.withoutFirst (hp : p.Holds d) (hd : d.exts = h :: hs)
    (hlen : p.len < 65536) : (p.withoutFirst h.size).Holds (d.withExts hs) := by
  have hparts := holds_iff.1 hp
  have hrest := hparts.rest
  rw [hd] at hrest
  have hat := hrest.headerAt
  have hiph : iphLen = 40 := rfl
  have hbody : (d.withExts hs).body = chainBytes d.upper hs ++ d.payload := rfl
  have hsize := hat.rest.len
  have hload := hat.rest.load
  rw [← hbody] at hsize hload
  have hfield : (p.len - h.size + 65536 - iphLen) % 65536 = (d.withExts hs).body.length := by
    omega
  rw [holds_iff]
  have hbuf : (p.withoutFirst h.size).buf = store (store (store p.buf 6 [p.buf iphLen]) 4
      [.ofNat ((d.withExts hs).body.length / 256), .ofNat (d.withExts hs).body.length]) iphLen
      (load p.buf (iphLen + h.size) (d.withExts hs).body.length) := by
    rw [Packet.withoutFirst, Packet.moveLeft]
    dsimp only [Packet.setLenField, Packet.payloadLen, Packet.relink]
    rw [hfield]
    have hmoved : p.len - h.size - iphLen = (d.withExts hs).body.length := by omega
    rw [hmoved, load_store_of_disjoint (by simp; omega), load_store_of_disjoint (by simp; omega)]
  have hlen' : (p.withoutFirst h.size).len = p.len - h.size := rfl
  refine ⟨by omega, ?_, ?_, ?_, ?_, ?_⟩
  · rw [hbuf, load_store_of_disjoint (by omega), load_store_of_disjoint (by simp),
      load_store_of_disjoint (by simp)]
    exact hparts.first
  · rw [hbuf, load_store_of_disjoint (by omega)]
    exact load_store _ 4 [_, _]
  · rw [hbuf, store_of_lt (by omega), store_of_outside (by simp), store_self]
    exact hat.next
  · rw [hbuf, load_store_of_disjoint (by omega), load_store_of_disjoint (by simp),
      load_store_of_disjoint (by simp)]
    exact hparts.fixed
  · have hstore := load_store (store (store p.buf 6 [p.buf iphLen]) 4
      [.ofNat ((d.withExts hs).body.length / 256), .ofNat (d.withExts hs).body.length]) iphLen
      (load p.buf (iphLen + h.size) (d.withExts hs).body.length)
    rw [length_load] at hstore
    rw [hbuf, hstore, hload]

/-- A header at the front is removed, and the loop goes on with what is left. -/
theorem removeFrom_first (hp : p.Holds d) (hd : d.exts = h :: hs) (hrpl : h.IsRpl)
    (hext : h.size ≤ p.extLen) (hmtu : p.len ≤ linkMtu + h.size) :
    (removeFrom p iphLen 6 h.proto).2 =
      (removeFrom (p.withoutFirst h.size) iphLen 6 (nextProto d.upper hs)).2 := by
  have hrest := (holds_iff.1 hp).rest
  rw [hd] at hrest
  have hat := hrest.headerAt
  have hsize : h.size < 65536 - linkMtu := by
    have hlt := h.len.toNat_lt
    have hmtu : linkMtu = 1280 := rfl
    rw [ExtHdr.size]
    omega
  have hholds := hp.withoutFirst hd (by omega)
  have hproto : (p.withoutFirst h.size).buf 6 = nextProto d.upper hs := (holds_iff.1 hholds).proto
  have hle : h.size ≤ p.len := by
    have hend := hat.rest.le_len
    omega
  have hsub : (p.relink iphLen 6).subExtHdr ((p.relink iphLen 6).extHdrLen iphLen) =
      some { p.relink iphLen 6 with len := p.len - h.size, extLen := p.extLen - h.size } := by
    rw [extHdrLen_relink, hat.len]
    exact if_pos ⟨hmtu, hle, hext⟩
  rw [removeFrom_removed h.isExt (hat.removes_iff.2 hrpl) hsub, extHdrLen_relink, hat.len]
  split
  · rename_i hend
    -- Nothing is left to be moved.
    have hend : p.len - h.size ≤ iphLen := hend
    have hnil : hs = [] := by
      cases hs with
      | nil => rfl
      | cons g gs =>
          have hlen := hat.rest.headerAt.rest.len
          have hg : 8 ≤ g.size := Nat.le_add_left 8 _
          omega
    rw [hnil, nextProto, removeFrom_upper d.upper_eq]
    exact (Packet.moveLeft_of_le _ h.size hend).symm
  · rw [← hproto]
    rfl

/-- A header at the front that cannot be taken off the lengths stays. -/
theorem len_removeFrom_of_refused (hp : p.Holds d) (hd : d.exts = h :: hs) (hrpl : h.IsRpl)
    (hrefused : ¬ (h.size ≤ p.extLen ∧ p.len ≤ linkMtu + h.size)) :
    (removeFrom p iphLen 6 h.proto).2.len = p.len := by
  have hrest := (holds_iff.1 hp).rest
  rw [hd] at hrest
  have hat := hrest.headerAt
  have hsub : (p.relink iphLen 6).subExtHdr ((p.relink iphLen 6).extHdrLen iphLen) = none := by
    rw [extHdrLen_relink, hat.len]
    exact if_neg fun hfit => hrefused ⟨hfit.2.2, hfit.1⟩
  rw [removeFrom_refused h.isExt (hat.removes_iff.2 hrpl) hsub]
  rfl

/-! ## The order of the headers -/

/-- No header to remove comes after one to keep. -/
def FrontRpl (hs : List ExtHdr) : Prop := hs.Pairwise fun a b => b.IsRpl → a.IsRpl

/-- The headers to remove are counted in `uip_ext_len`, and the packet is not too long without the
first of them. -/
def Countable (p : Packet) (hs : List ExtHdr) : Prop :=
  rplSize hs ≤ p.extLen ∧ ∀ h ∈ hs.head?, h.IsRpl → p.len ≤ linkMtu + h.size

/-- There is one hop-by-hop header at most. -/
def HbhoOnce (hs : List ExtHdr) : Prop :=
  hs.Pairwise fun a b => ¬ (a.proto = protoHbho ∧ b.proto = protoHbho)

theorem rplSize_cons_of_rpl (hrpl : h.IsRpl) : rplSize (h :: hs) = h.size + rplSize hs := by
  have hfilter : (h :: hs).filter (·.IsRpl) = h :: hs.filter (·.IsRpl) :=
    List.filter_cons_of_pos (by simpa using hrpl)
  rw [rplSize, hfilter]
  rfl

theorem rplSize_cons_of_kept (hkeep : ¬ h.IsRpl) : rplSize (h :: hs) = rplSize hs := by
  have hfilter : (h :: hs).filter (·.IsRpl) = hs.filter (·.IsRpl) :=
    List.filter_cons_of_neg (by simpa using hkeep)
  rw [rplSize, hfilter]
  rfl

theorem withoutRpl_cons_of_kept (hkeep : ¬ h.IsRpl) :
    withoutRpl (h :: hs) = h :: withoutRpl hs :=
  List.filter_cons_of_pos (by simpa using hkeep)

theorem withoutRpl_cons_of_rpl (hrpl : h.IsRpl) : withoutRpl (h :: hs) = withoutRpl hs :=
  List.filter_cons_of_neg (by simpa using hrpl)

theorem withoutRpl_of_kept (hkeep : ∀ h ∈ hs, ¬ h.IsRpl) : withoutRpl hs = hs :=
  List.filter_eq_self.2 fun h hh => by simpa using hkeep h hh

theorem rplSize_of_kept (hkeep : ∀ h ∈ hs, ¬ h.IsRpl) : rplSize hs = 0 := by
  have hnil : hs.filter (·.IsRpl) = [] := List.filter_eq_nil_iff.2 fun h hh => by
    simpa using hkeep h hh
  rw [rplSize, hnil]
  rfl

/-- The headers are those to remove and those to keep. -/
theorem rplSize_add (hs : List ExtHdr) :
    rplSize hs + ((withoutRpl hs).map ExtHdr.size).sum = (hs.map ExtHdr.size).sum := by
  induction hs with
  | nil => rfl
  | cons h hs ih =>
      rw [List.map_cons, List.sum_cons, ← ih]
      by_cases hrpl : h.IsRpl
      · rw [rplSize_cons_of_rpl hrpl, withoutRpl_cons_of_rpl hrpl, Nat.add_assoc]
      · rw [rplSize_cons_of_kept hrpl, withoutRpl_cons_of_kept hrpl, List.map_cons, List.sum_cons]
        omega

theorem removed_of_kept (hkeep : ∀ h ∈ d.exts, ¬ h.IsRpl) : d.removed = d := by
  rw [Datagram.removed, withoutRpl_of_kept hkeep]
  rfl

theorem removed_withExts (hd : d.exts = h :: hs) (hrpl : h.IsRpl) :
    (d.withExts hs).removed = d.removed := by
  rw [Datagram.removed, Datagram.removed, hd, withoutRpl_cons_of_rpl hrpl]
  rfl

theorem countable_cons (hrpl : h.IsRpl) :
    Countable p (h :: hs) ↔ (h.size ≤ p.extLen ∧ p.len ≤ linkMtu + h.size) ∧
      Countable (p.withoutFirst h.size) hs := by
  have hlen : (p.withoutFirst h.size).len = p.len - h.size := rfl
  have hext : (p.withoutFirst h.size).extLen = p.extLen - h.size := rfl
  unfold Countable
  rw [rplSize_cons_of_rpl hrpl, hlen, hext, List.head?_cons]
  constructor
  · rintro ⟨hsum, hmtu⟩
    have hmtu := hmtu h rfl hrpl
    exact ⟨⟨by omega, hmtu⟩, by omega, fun g _ _ => by omega⟩
  · rintro ⟨⟨hle, hmtu⟩, hsum, _⟩
    refine ⟨by omega, fun g hg _ => ?_⟩
    obtain rfl := Option.some.inj hg
    exact hmtu

/-- The length of the packet is that of what is to be left and of what is to be removed. -/
theorem len_add_rplSize (hp : p.Holds d) :
    p.len = iphLen + d.removed.body.length + rplSize d.exts := by
  have hsum := rplSize_add d.exts
  have hremoved : d.removed.body =
      chainBytes d.upper (withoutRpl d.exts) ++ d.payload := rfl
  rw [(holds_iff.1 hp).len, hremoved, Datagram.body, List.length_append, List.length_append,
    length_chainBytes, length_chainBytes]
  omega

/-- If nothing to remove comes after what is kept, what is to be removed is removed. -/
theorem holds_removed (hp : p.Holds d) (hlen : p.len < 65536) (hfront : FrontRpl d.exts)
    (hcount : Countable p d.exts) :
    (removeFrom p iphLen 6 (nextProto d.upper d.exts)).2.Holds d.removed := by
  generalize hd : d.exts = hs at hfront hcount
  induction hs generalizing p d with
  | nil =>
      rw [nextProto, removeFrom_upper d.upper_eq, removed_of_kept (by rw [hd]; exact nofun)]
      exact hp
  | cons h hs ih =>
      obtain ⟨hhead, htail⟩ := List.pairwise_cons.1 hfront
      by_cases hrpl : h.IsRpl
      · obtain ⟨⟨hle, hmtu⟩, hcount⟩ := (countable_cons hrpl).1 hcount
        have hshort : (p.withoutFirst h.size).len ≤ p.len := Nat.sub_le _ _
        have hrest := ih (hp.withoutFirst hd hlen) (by omega) rfl htail hcount
        rw [removed_withExts hd hrpl] at hrest
        rw [nextProto, removeFrom_first hp hd hrpl hle hmtu]
        exact hrest
      · have hkeep : ∀ g ∈ d.exts, ¬ g.IsRpl := by
          rw [hd]
          exact List.forall_mem_cons.2 ⟨hrpl, fun g hg => mt (hhead g hg) hrpl⟩
        rw [← hd, removeFrom_all_kept (holds_iff.1 hp).rest hkeep d.upper_eq, removed_of_kept hkeep]
        exact hp

/-! ## Headers to remove after kept ones -/

theorem exists_first_rpl (hmem : ∃ h ∈ hs, h.IsRpl) :
    ∃ gs r rest, hs = gs ++ r :: rest ∧ r.IsRpl ∧ ∀ g ∈ gs, ¬ g.IsRpl := by
  have hsome : (hs.find? (·.IsRpl)).isSome := by
    rw [List.find?_isSome]
    obtain ⟨h, hh, hrpl⟩ := hmem
    exact ⟨h, hh, decide_eq_true hrpl⟩
  obtain ⟨r, hr⟩ := Option.isSome_iff_exists.1 hsome
  obtain ⟨hrpl, gs, rest, hsplit, hkeep⟩ := List.find?_eq_some_iff_append.1 hr
  exact ⟨gs, r, rest, hsplit, by simpa using hrpl, fun g hg => by simpa using hkeep g hg⟩

/-- The header before one that is removed later goes on naming it. -/
theorem not_holds_removed {r : ExtHdr} {rest : List ExtHdr} (hp : p.Holds d)
    (hd : d.exts = gs ++ r :: rest) (hkeep : ∀ g ∈ gs, ¬ g.IsRpl) (hne : gs ≠ []) (hrpl : r.IsRpl)
    (honce : HbhoOnce d.exts) :
    ¬ (removeFrom p iphLen 6 (nextProto d.upper d.exts)).2.Holds d.removed := by
  intro hholds
  have hrest := (holds_iff.1 hp).rest
  rw [hd] at hrest hholds honce
  rw [removeFrom_append hrest hkeep hne] at hholds
  have hremoved := (holds_iff.1 hholds).rest
  have hexts : d.removed.exts = gs ++ withoutRpl rest := by
    have hgs : withoutRpl gs = gs := withoutRpl_of_kept hkeep
    rw [Datagram.removed, Datagram.withExts, hd]
    change withoutRpl (gs ++ r :: rest) = _
    rw [withoutRpl, List.filter_append]
    change withoutRpl gs ++ withoutRpl (r :: rest) = _
    rw [hgs, withoutRpl_cons_of_rpl hrpl]
  have hupper : d.removed.upper = d.upper := rfl
  rw [hexts, hupper] at hremoved
  -- The last header that is kept is where it was, and names the same protocol.
  have hnames : chainBytes r.proto gs = chainBytes (nextProto d.upper (withoutRpl rest)) gs := by
    have hbefore := hrest.load
    have hafter := hremoved.load
    rw [chainBytes_append, List.append_assoc, List.length_append, load_add] at hbefore hafter
    obtain ⟨hbefore, _⟩ := List.append_inj hbefore (length_load _ _ _)
    obtain ⟨hafter, _⟩ := List.append_inj hafter (length_load _ _ _)
    rw [length_chainBytes] at hbefore hafter
    rw [← hafter]
    refine hbefore.symm.trans (load_congr fun i hi hlt => ?_)
    have hiph : iphLen = 40 := rfl
    exact (removeFrom_before rfl hlt (by omega) (by omega)).symm
  have hproto := chainBytes_inj hne hnames
  cases hkept : withoutRpl rest with
  | nil =>
      rw [hkept, nextProto] at hproto
      have hext := r.isExt
      rw [hproto, d.upper_eq] at hext
      exact Bool.false_ne_true hext
  | cons x xs =>
      rw [hkept, nextProto] at hproto
      have hmem : x ∈ withoutRpl rest := by
        rw [hkept]
        exact List.mem_cons_self
      obtain ⟨hx, hkeepx⟩ := List.mem_filter.1 hmem
      have hkeepx : ¬ x.IsRpl := by simpa using hkeepx
      rcases hrpl with hrouting | ⟨hhbho, _⟩
      · exact hkeepx (.inl (hproto ▸ hrouting))
      · have hpairs := (List.pairwise_cons.1 (List.pairwise_append.1 honce).2.1).1
        exact hpairs x hx ⟨hhbho, hproto ▸ hhbho⟩

/-- What is to be removed is removed only if nothing of it comes after what is kept. -/
theorem front_of_holds_removed (hp : p.Holds d) (hlen : p.len < 65536) (honce : HbhoOnce d.exts)
    (h : (removeFrom p iphLen 6 (nextProto d.upper d.exts)).2.Holds d.removed) :
    FrontRpl d.exts ∧ Countable p d.exts := by
  generalize hd : d.exts = hs at honce h
  induction hs generalizing p d with
  | nil => exact ⟨List.Pairwise.nil, Nat.zero_le _, nofun⟩
  | cons g gs ih =>
      by_cases hrpl : g.IsRpl
      · by_cases hfit : g.size ≤ p.extLen ∧ p.len ≤ linkMtu + g.size
        · have hshort : (p.withoutFirst g.size).len ≤ p.len := Nat.sub_le _ _
          rw [nextProto, removeFrom_first hp hd hrpl hfit.1 hfit.2,
            ← removed_withExts hd hrpl] at h
          obtain ⟨hfront, hcount⟩ := ih (hp.withoutFirst hd hlen) (by omega) rfl
            (List.pairwise_cons.1 honce).2 h
          exact ⟨List.pairwise_cons.2 ⟨fun _ _ _ => hrpl, hfront⟩,
            (countable_cons hrpl).2 ⟨hfit, hcount⟩⟩
        · have hsame := (holds_iff.1 h).len
          rw [nextProto, len_removeFrom_of_refused hp hd hrpl hfit] at hsame
          have hless := len_add_rplSize hp
          rw [hd, rplSize_cons_of_rpl hrpl] at hless
          have hg : 8 ≤ g.size := Nat.le_add_left 8 _
          omega
      · by_cases hmem : ∃ r ∈ gs, r.IsRpl
        · obtain ⟨as, r, rest, rfl, hr, hkeep⟩ := exists_first_rpl hmem
          rw [← hd] at h honce
          exact absurd h (not_holds_removed hp hd (List.forall_mem_cons.2 ⟨hrpl, hkeep⟩)
            (List.cons_ne_nil g as) hr honce)
        · have hkeep : ∀ r ∈ g :: gs, ¬ r.IsRpl :=
            List.forall_mem_cons.2 ⟨hrpl, fun r hr hr' => hmem ⟨r, hr, hr'⟩⟩
          refine ⟨?_, ?_, fun r hr hr' => ?_⟩
          · exact List.pairwise_of_forall_mem_list fun _ _ r hr hr' => absurd hr' (hkeep r hr)
          · rw [rplSize_of_kept hkeep]
            exact Nat.zero_le _
          · exact absurd hr' (hkeep r (List.mem_of_mem_head? hr))

theorem getNextHeader_start_snd (buf : ℕ → UInt8) (size : ℕ) :
    (Packet.getNextHeader buf 0 size true).2 = buf 6 := by
  unfold Packet.getNextHeader
  simp only [if_true]
  generalize (if Packet.isProtoExtHdr (buf (0 + 6)) = true then _ else _ : ℕ) = nextHdrLen
  split <;> rfl

/-- The loop begins at the first header, if there is any. -/
theorem rplExtHeaderRemove_eq (hp : p.Holds d) :
    (rplExtHeaderRemove p).2 = (removeFrom p iphLen 6 (nextProto d.upper d.exts)).2 := by
  have hparts := holds_iff.1 hp
  have hrest := hparts.rest
  have hproto := hparts.proto
  unfold rplExtHeaderRemove
  cases hd : d.exts with
  | nil =>
      rw [hd] at hproto
      rw [nextProto, removeFrom_upper d.upper_eq]
      rcases hnext : Packet.getNextHeader p.buf 0 p.len true with ⟨_ | pos, proto⟩
      · rfl
      · have hsame : proto = p.buf 6 := by
          have hsnd := getNextHeader_start_snd p.buf p.len
          rwa [hnext] at hsnd
        dsimp only
        rw [hsame, hproto, nextProto, removeFrom_upper d.upper_eq]
  | cons h hs =>
      rw [hd] at hproto hrest
      have hat := hrest.headerAt
      have hend := hat.rest.le_len
      have hfield : (p.buf (iphLen + 1)).toNat * 8 + 8 = h.size := hat.len
      have hsix : p.buf (0 + 6) = h.proto := hproto
      have hfirst : 0 + iphLen = iphLen := rfl
      have hsize : 8 ≤ h.size := Nat.le_add_left 8 _
      have hnext : Packet.getNextHeader p.buf 0 p.len true = (some iphLen, h.proto) := by
        unfold Packet.getNextHeader
        simp only [if_true, hsix, h.isExt, hfirst, hfield]
        rw [if_neg (by omega)]
      rw [hnext, nextProto]

end Den2ne.SourceRoute
