import Den2ne.SourceRoute.Routing
import Den2ne.SourceRoute.Undo

/-!
# Removing what was inserted

A header that `insert_hbh_header` or `insert_srh_header` puts in front of the others is one that
`rpl_ext_header_remove` removes again. The source routing header is written behind the IPv6 header,
but room for it is made behind the extension headers that are there; so it has to be the only one.
Its length is measured up to the root, but for a packet to the root itself the addresses are written
up to a node without a parent, one more than there is room for.
-/

namespace Den2ne.SourceRoute

open Memory

/-- The datagram with another destination. -/
def Datagram.withDest (d : Datagram) (a : Ipaddr) : Datagram :=
  { d with
    fixed := d.fixed.take 17 ++ a.u8
    length_fixed := by
      rw [List.length_append, List.length_take, d.length_fixed, a.length_u8]
      rfl }

variable {p q : Packet} {d : Datagram} {stack : Stack} {inst : Instance} {s : State}
  {graph size : ℕ} {pos : ℕ} {bytes : List UInt8} {buf buf' : ℕ → UInt8}

/-! ## A header in front -/

/-- The packet is the datagram with a header of `size` bytes in front of the others. -/
structure Packet.HasFront (q : Packet) (d : Datagram) (size : ℕ) : Prop where
  len : q.len = iphLen + size + d.body.length
  first : load q.buf 0 4 = d.first
  field : load q.buf 4 2 = [.ofNat ((q.len - iphLen) / 256), .ofNat (q.len - iphLen)]
  proto : Packet.isProtoExtHdr (q.buf 6) = true
  fixed : load q.buf 7 33 = d.fixed
  next : q.buf iphLen = nextProto d.upper d.exts
  header : q.extHdrLen iphLen = size
  body : load q.buf (iphLen + size) d.body.length = d.body

/-- The header in front. -/
def Packet.HasFront.hdr (h : q.HasFront d size) : ExtHdr where
  proto := q.buf 6
  len := q.buf (iphLen + 1)
  data := load q.buf (iphLen + 2) ((q.buf (iphLen + 1)).toNat * 8 + 6)
  isExt := h.proto
  length_data := length_load _ _ _

theorem Packet.HasFront.size_hdr (h : q.HasFront d size) : h.hdr.size = size := h.header

theorem Packet.HasFront.holds (h : q.HasFront d size) :
    q.Holds (d.withExts (h.hdr :: d.exts)) := by
  have hsize : (q.buf (iphLen + 1)).toNat * 8 + 8 = size := h.header
  have hbody : (d.withExts (h.hdr :: d.exts)).body =
      nextProto d.upper d.exts :: q.buf (iphLen + 1) :: (h.hdr.data ++ d.body) := by
    change chainBytes d.upper (h.hdr :: d.exts) ++ d.payload = _
    rw [chainBytes_cons, List.cons_append, List.cons_append, List.append_assoc]
    rfl
  have hdata : h.hdr.data.length = size - 2 := by
    rw [h.hdr.length_data]
    change (q.buf (iphLen + 1)).toNat * 8 + 6 = _
    omega
  have hlen : (d.withExts (h.hdr :: d.exts)).body.length = size + d.body.length := by
    rw [hbody, List.length_cons, List.length_cons, List.length_append, hdata]
    omega
  have hqlen := h.len
  rw [holds_iff]
  refine ⟨by omega, h.first, ?_, rfl, h.fixed, ?_⟩
  · have hfield : q.len - iphLen = (d.withExts (h.hdr :: d.exts)).body.length := by omega
    rw [h.field, hfield]
  · have hsplit : size + d.body.length = size - 2 + d.body.length + 1 + 1 := by omega
    have hrest : iphLen + 1 + 1 + (size - 2) = iphLen + size := by omega
    rw [hlen, hbody, hsplit, load_succ, load_succ, load_add, hrest, h.next, h.body]
    congr 3
    change _ = load q.buf (iphLen + 2) ((q.buf (iphLen + 1)).toNat * 8 + 6)
    congr 1
    omega

/-- A header in front that is to be removed is removed, and no other one is. -/
theorem Packet.HasFront.removed (h : q.HasFront d size) (hrem : q.Removes iphLen (q.buf 6))
    (hkeep : ∀ g ∈ d.exts, ¬ g.IsRpl) (hext : size ≤ q.extLen) (hmtu : q.len ≤ linkMtu) :
    (rplExtHeaderRemove q).2.Holds d := by
  have hholds := h.holds
  have hexts : (d.withExts (h.hdr :: d.exts)).exts = h.hdr :: d.exts := rfl
  have hrest := (holds_iff.1 hholds).rest
  rw [hexts] at hrest
  have hrpl : h.hdr.IsRpl := hrest.headerAt.removes_iff.1 hrem
  have hsize := h.size_hdr
  have hsmall : linkMtu = 1280 := rfl
  have hremoved : (d.withExts (h.hdr :: d.exts)).removed = d := by
    rw [Datagram.removed, hexts, withoutRpl_cons_of_rpl hrpl, withoutRpl_of_kept hkeep]
    rfl
  rw [rplExtHeaderRemove_eq hholds]
  have hleft := holds_removed hholds (by omega) (List.pairwise_cons.2 ⟨fun _ _ _ => hrpl,
    List.pairwise_of_forall_mem_list fun _ _ r hr hr' => absurd hr' (hkeep r hr)⟩) ⟨?_, ?_⟩
  · rw [hremoved] at hleft
    exact hleft
  · rw [hexts, rplSize_cons_of_rpl hrpl, rplSize_of_kept hkeep, hsize]
    exact hext
  · exact fun _ _ _ => Nat.le_add_right_of_le hmtu

/-! ## The hop-by-hop header -/

theorem put_eq_some : put size (pos : ℤ) bytes buf = some buf' ↔
    pos + bytes.length ≤ size ∧ store buf pos bytes = buf' := by
  rw [put_natCast]
  split
  · rename_i hfit
    rw [Option.some.injEq]
    exact (and_iff_right hfit).symm
  · rename_i hfit
    exact iff_of_false nofun fun h => hfit h.1

/-- The buffer that `insert_hbh_header` makes. -/
def hbhBuf (inst : Instance) (p : Packet) : ℕ → UInt8 :=
  let moved := store (store p.buf (iphLen + 8) (load p.buf iphLen (p.len - iphLen))) iphLen
    (List.replicate 8 0)
  let named := store (store moved iphLen [p.buf 6]) 6 [protoHbho]
  let opt := store named (iphLen + 1) [0, optRpl, hdrOptLen, 0, inst.instanceId,
    .ofNat (inst.rank.toNat / 256), .ofNat inst.rank.toNat]
  store opt 4 [.ofNat ((p.len + 8 - iphLen) / 256), .ofNat (p.len + 8 - iphLen)]

theorem insertHbhHeader_eq_some (hlen : iphLen ≤ p.len)
    (h : insertHbhHeader stack inst p = some (true, q)) :
    p.len + 8 ≤ linkMtu ∧
      updateHbhHeader inst ⟨hbhBuf inst p, p.len + 8, p.extLen + 8⟩ = (true, q) := by
  unfold insertHbhHeader at h
  split at h
  · cases h
  · rename_i hmtu
    have hmtu := Nat.le_of_not_lt hmtu
    have hmove : ((iphLen : ℕ) : ℤ) + ((hopByHopLen : ℕ) : ℤ) = ((iphLen + 8 : ℕ) : ℤ) := rfl
    have hnext : ((iphLen : ℕ) : ℤ) + 1 = ((iphLen + 1 : ℕ) : ℤ) := rfl
    have hsix : (6 : ℤ) = ((6 : ℕ) : ℤ) := rfl
    simp only [Option.bind_eq_bind, Option.bind_eq_some_iff, hmove, hnext, hsix, put_eq_some] at h
    obtain ⟨_, ⟨_, rfl⟩, _, ⟨_, rfl⟩, _, ⟨_, rfl⟩, _, ⟨_, rfl⟩, _, ⟨_, rfl⟩, hq⟩ := h
    have hproto : store (store p.buf (iphLen + 8) (load p.buf iphLen (p.len - iphLen))) iphLen
        (List.replicate hopByHopLen 0) 6 = p.buf 6 := by
      rw [store_of_lt (by decide), store_of_lt (by decide)]
    have hsmall : linkMtu = 1280 := rfl
    have hfit : hopByHopLen + p.len ≤ linkMtu := by omega
    have hiph : iphLen = 40 := rfl
    have hfield : (p.len + 8 + 65536 - iphLen) % 65536 = p.len + 8 - iphLen := by
      have height : hopByHopLen = 8 := rfl
      omega
    rw [hproto] at hq
    have hq := Option.some.inj hq
    rw [Packet.addExtHdr, if_pos hfit] at hq
    refine ⟨hmtu, hq ▸ ?_⟩
    rw [Packet.setLenField, Packet.payloadLen]
    change _ = updateHbhHeader inst ⟨store _ 4 [.ofNat ((p.len + 8 + 65536 - iphLen) % 65536 / 256),
      .ofNat ((p.len + 8 + 65536 - iphLen) % 65536)], p.len + 8, p.extLen + 8⟩
    rw [hfield]
    rfl

/-- `update_hbh_header` writes to the option only. -/
theorem updateHbhHeader_snd (inst : Instance) (p : Packet) :
    (updateHbhHeader inst p).2.len = p.len ∧ (updateHbhHeader inst p).2.extLen = p.extLen ∧
      ∀ i, i < iphLen + 5 ∨ iphLen + 8 ≤ i → (updateHbhHeader inst p).2.buf i = p.buf i := by
  unfold updateHbhHeader
  split
  · split
    · exact ⟨rfl, rfl, fun _ _ => rfl⟩
    · split
      · exact ⟨rfl, rfl, fun _ _ => rfl⟩
      · exact ⟨rfl, rfl, fun i hi => store_of_outside hi⟩
  · exact ⟨rfl, rfl, fun _ _ => rfl⟩

theorem hbhBuf_of_fixed {i : ℕ} (hi : i < 4 ∨ 7 ≤ i) (hlt : i < iphLen) :
    hbhBuf inst p i = p.buf i := by
  have hiph : iphLen = 40 := rfl
  unfold hbhBuf
  rw [store_of_outside (by simp; omega), store_of_outside (by simp; omega),
    store_of_outside (by simp; omega), store_of_outside (by simp; omega),
    store_of_outside (by simp; omega), store_of_lt (by omega)]

theorem load_hbhBuf_field : load (hbhBuf inst p) 4 2 =
    [.ofNat ((p.len + 8 - iphLen) / 256), .ofNat (p.len + 8 - iphLen)] :=
  load_store _ 4 [_, _]

theorem hbhBuf_six : hbhBuf inst p 6 = protoHbho := by
  unfold hbhBuf
  rw [store_of_outside (.inr (by simp)), store_of_lt (by decide), store_self]

theorem hbhBuf_next : hbhBuf inst p iphLen = p.buf 6 := by
  unfold hbhBuf
  rw [store_of_outside (.inr (by simp [iphLen])), store_of_lt (Nat.lt_succ_self _),
    store_of_outside (.inr (by simp [iphLen])), store_self]

theorem load_hbhBuf_option (inst : Instance) (p : Packet) : load (hbhBuf inst p) (iphLen + 1) 7 =
    [0, optRpl, hdrOptLen, 0, inst.instanceId, .ofNat (inst.rank.toNat / 256),
      .ofNat inst.rank.toNat] := by
  unfold hbhBuf
  dsimp only
  rw [load_store_of_disjoint (.inr (by simp [iphLen]))]
  exact load_store _ (iphLen + 1) [_, _, _, _, _, _, _]

theorem load_hbhBuf_rest (inst : Instance) (p : Packet) :
    load (hbhBuf inst p) (iphLen + 8) (p.len - iphLen) =
    load p.buf iphLen (p.len - iphLen) := by
  unfold hbhBuf
  dsimp only
  rw [load_store_of_disjoint (.inr (by simp [iphLen])),
    load_store_of_disjoint (.inr (by simp [iphLen])),
    load_store_of_disjoint (.inr (by simp [iphLen])),
    load_store_of_disjoint (.inr (by simp [iphLen])),
    load_store_of_disjoint (.inr (by simp [iphLen]))]
  have h := load_store p.buf (iphLen + 8) (load p.buf iphLen (p.len - iphLen))
  rwa [length_load] at h

/-- The header that `insert_hbh_header` makes is in front, and it is one to remove. -/
theorem hasFront_hbhBuf (hp : p.Holds d)
    (hq : updateHbhHeader inst ⟨hbhBuf inst p, p.len + 8, p.extLen + 8⟩ = (true, q)) :
    q.HasFront d 8 ∧ q.Removes iphLen (q.buf 6) ∧ q.len = p.len + 8 ∧
      q.extLen = p.extLen + 8 := by
  have hparts := holds_iff.1 hp
  have hiph : iphLen = 40 := rfl
  obtain ⟨hlen, hext, hbuf⟩ := updateHbhHeader_snd inst ⟨hbhBuf inst p, p.len + 8, p.extLen + 8⟩
  rw [hq] at hlen hext hbuf
  dsimp only at hlen hext hbuf
  have hplen := hparts.len
  have hsix : q.buf 6 = protoHbho := (hbuf 6 (.inl (by decide))).trans hbhBuf_six
  have hoption : load q.buf (iphLen + 1) 2 = [0, optRpl] := by
    have htake := congrArg (List.take 2) (load_hbhBuf_option inst p)
    rw [take_load (by decide)] at htake
    exact (load_congr fun i _ hi => hbuf i (.inl (by omega))).trans htake
  obtain ⟨hzero, hopt⟩ := List.cons.inj hoption
  have hopt : q.buf (iphLen + 2) = optRpl := (List.cons.inj hopt).1
  have hzero : q.buf (iphLen + 1) = 0 := hzero
  refine ⟨⟨by omega, ?_, ?_, ?_, ?_, ?_, ?_, ?_⟩, .inr ⟨hsix, hopt⟩, hlen, hext⟩
  · rw [← hparts.first]
    exact load_congr fun i _ hi => (hbuf i (.inl (by omega))).trans
      (hbhBuf_of_fixed (.inl (by omega)) (by omega))
  · rw [hlen]
    exact (load_congr fun i _ hi => hbuf i (.inl (by omega))).trans load_hbhBuf_field
  · rw [hsix]
    rfl
  · rw [← hparts.fixed]
    exact load_congr fun i hge hi => (hbuf i (.inl (by omega))).trans
      (hbhBuf_of_fixed (.inr hge) (by omega))
  · rw [hbuf iphLen (.inl (by omega)), hbhBuf_next, hparts.proto]
  · rw [Packet.extHdrLen, hzero]
    rfl
  · have hrest : p.len - iphLen = d.body.length := by omega
    have hload := load_hbhBuf_rest inst p
    rw [hrest, hparts.body] at hload
    exact (load_congr fun i hge _ => hbuf i (.inr hge)).trans hload

/-- The removal undoes the insertion of the hop-by-hop header. -/
theorem holds_remove_insertHbh (hp : p.Holds d) (hkeep : ∀ g ∈ d.exts, ¬ g.IsRpl)
    (h : insertHbhHeader stack inst p = some (true, q)) :
    (rplExtHeaderRemove q).2.Holds d := by
  have hlen := (holds_iff.1 hp).len
  obtain ⟨hmtu, hq⟩ := insertHbhHeader_eq_some (by omega) h
  obtain ⟨hfront, hrem, hqlen, hext⟩ := hasFront_hbhBuf hp hq
  exact hfront.removed hrem hkeep (by omega) (by omega)

/-! ## The source routing header -/

variable {a b nodeAddr : Ipaddr} {l c pad r destNode root fuel : ℕ} {e : Option ℕ} {up : List ℕ}

/-- From `l` on, each node of the list is the parent of the one before, and `e` is the parent of
the last one; the root is not among them. -/
def Trail (s : State) (root : ℕ) (e : Option ℕ) : ℕ → List ℕ → Prop
  | l, [] => s.parent l = e
  | l, k :: ks => k ≠ root ∧ s.parent l = some k ∧ Trail s root e k ks

/-- The loop that measures the path walks along a trail, to the root or to a node that has no
parent. -/
theorem exists_trail {cfg : Config} {dest : Ipaddr} {k : ℕ} {m : ℕ × ℕ} (hk : k < 256)
    (h : measurePath cfg s root dest fuel (s.parent l) k c = some m) :
    ∃ e up, (e = some root ∨ e = none) ∧ Trail s root e l up ∧
      m = ((k + up.length) % 256, sharedBytes cfg s dest c up) := by
  induction fuel generalizing l k c with
  | zero => cases h
  | succ fuel ih =>
      have hstop : (k, c) = ((k + ([] : List ℕ).length) % 256, sharedBytes cfg s dest c []) := by
        rw [List.length_nil, Nat.add_zero, Nat.mod_eq_of_lt hk]
        rfl
      cases hparent : s.parent l with
      | none =>
          rw [hparent] at h
          exact ⟨none, [], .inr rfl, hparent, (Option.some.inj h).symm.trans hstop⟩
      | some j =>
          rw [hparent, measurePath] at h
          split at h
          · rename_i hroot
            exact ⟨some root, [], .inl rfl, hparent.trans (congrArg some hroot),
              (Option.some.inj h).symm.trans hstop⟩
          · rename_i hroot
            obtain ⟨e, up, he, ht, hm⟩ := ih (Nat.mod_lt _ (by decide)) h
            refine ⟨e, j :: up, he, ⟨hroot, hparent, ht⟩, ?_⟩
            rw [hm, List.length_cons]
            have hcount : ((k + 1) % 256 + up.length) % 256 = (k + (up.length + 1)) % 256 := by
              omega
            rw [hcount]
            rfl

/-- A node that the walk leads from to the root has no trail to another end. -/
theorem not_trail_none {n : ℕ} (hclimb : s.climb (some root) n (some l) = some root)
    (hne : l ≠ root) : ¬ Trail s root none l up := by
  induction n generalizing l up with
  | zero => exact absurd (Option.some.inj hclimb) hne
  | succ n ih =>
      rw [State.climb, if_neg fun heq => hne (Option.some.inj heq)] at hclimb
      cases up with
      | nil =>
          intro ht
          rw [show s.parent l = none from ht] at hclimb
          cases n <;> cases hclimb
      | cons k up =>
          rintro ⟨hk, hparent, ht⟩
          rw [hparent] at hclimb
          exact ih hclimb hk ht

theorem le_sharedBytes {cfg : Config} {dest : Ipaddr} {m : ℕ} (hm : m ≤ c)
    (h : ∀ k ∈ up, m ≤ countMatchingBytes (s.nodeIpaddr cfg k).u8 dest.u8) :
    m ≤ sharedBytes cfg s dest c up := by
  induction up generalizing c with
  | nil => exact hm
  | cons k up ih =>
      exact ih (Nat.le_min.2 ⟨hm, h k List.mem_cons_self⟩)
        fun j hj => h j (List.mem_cons_of_mem _ hj)

theorem of_put {pos : ℤ} (h : put size pos bytes buf = some buf') :
    0 ≤ pos ∧ buf' = store buf pos.toNat bytes := by
  obtain ⟨hfit, hbuf⟩ := Option.ite_none_right_eq_some.1 h
  exact ⟨hfit.1, (Option.some.inj hbuf).symm⟩

/-- The addresses are written one before the other. At the end of a trail to the root the last
node is not written; where the trail ends at a node without a parent it is. -/
theorem of_putHops (hc : c ≤ 15) (ht : Trail s root e l up) (he : e = some root ∨ e = none)
    {hopPtr : ℤ} (hpos : 0 ≤ hopPtr)
    (h : putHops stack s root c fuel (some l) hopPtr nodeAddr buf = some (a, buf')) :
    ∃ lo bytes, buf' = store buf lo bytes ∧ ((lo : ℕ) : ℤ) + bytes.length = hopPtr ∧
      bytes.length = (up.length + if e = none then 1 else 0) * (16 - c) := by
  induction up generalizing l fuel hopPtr nodeAddr buf with
  | nil =>
      have hparent : s.parent l = e := ht
      cases fuel with
      | zero => cases h
      | succ fuel =>
          rw [putHops, hparent] at h
          rcases he with rfl | rfl
          · rw [if_pos rfl] at h
            obtain ⟨-, rfl⟩ := Prod.mk.inj (Option.some.inj h)
            refine ⟨hopPtr.toNat, [], (store_nil _ _).symm, ?_, by simp⟩
            rw [List.length_nil]
            omega
          · rw [if_neg (Option.some_ne_none root).symm, Option.bind_eq_some_iff] at h
            obtain ⟨buf₁, hbuf, hrest⟩ := h
            obtain ⟨hlow, rfl⟩ := of_put hbuf
            cases fuel with
            | zero => cases hrest
            | succ fuel =>
                obtain ⟨-, rfl⟩ := Prod.mk.inj (Option.some.inj hrest)
                refine ⟨_, _, rfl, ?_, ?_⟩
                · rw [length_drop_u8]
                  omega
                · rw [length_drop_u8]
                  simp
  | cons k up ih =>
      obtain ⟨hk, hparent, ht⟩ := ht
      cases fuel with
      | zero => cases h
      | succ fuel =>
          rw [putHops, hparent, if_neg fun heq => hk (Option.some.inj heq),
            Option.bind_eq_some_iff] at h
          obtain ⟨buf₁, hbuf, hrest⟩ := h
          obtain ⟨hlow, rfl⟩ := of_put hbuf
          obtain ⟨lo, bytes, rfl, hlo, hbytes⟩ := ih ht hlow hrest
          refine ⟨lo, bytes ++ (s.nodeIpaddr stack.sr l).u8.drop c, ?_, ?_, ?_⟩
          · have hend : (hopPtr - (16 - c)).toNat = lo + bytes.length := by omega
            rw [hend, store_append']
          · rw [List.length_append, length_drop_u8]
            push_cast [Nat.cast_sub (show c ≤ 16 by omega)]
            omega
          · rw [List.length_append, length_drop_u8, hbytes, List.length_cons]
            ring

/-- The packet with a source routing header of `r` bytes behind the IPv6 header, on its way to `a`;
what is behind the old extension headers has been moved, and the bytes between are cleared. -/
structure Packet.Fronted (q p : Packet) (r : ℕ) (a : Ipaddr) : Prop where
  len : q.len = p.len + r
  extLen : q.extLen = p.extLen + r
  first : load q.buf 0 4 = load p.buf 0 4
  field : load q.buf 4 2 = [.ofNat ((q.len - iphLen) / 256), .ofNat (q.len - iphLen)]
  proto : q.buf 6 = protoRouting
  fixed : load q.buf 7 17 = load p.buf 7 17
  dest : load q.buf 24 16 = a.u8
  next : q.buf iphLen = p.buf 6
  header : q.extHdrLen iphLen = r
  old : ∀ i, iphLen + r ≤ i → i < iphLen + p.extLen → q.buf i = p.buf i
  zero : ∀ i, iphLen + r ≤ i → iphLen + p.extLen ≤ i → i < iphLen + p.extLen + r → q.buf i = 0
  moved : load q.buf (iphLen + p.extLen + r) (p.len - iphLen) =
    load p.buf (iphLen + p.extLen) (p.len - iphLen)

/-- The buffer with room for `r` bytes, which are cleared, behind the extension headers. -/
def movedBuf (p : Packet) (r : ℕ) : ℕ → UInt8 :=
  store (store p.buf (iphLen + p.extLen + r) (load p.buf (iphLen + p.extLen) (p.len - iphLen)))
    (iphLen + p.extLen) (List.replicate r 0)

/-- The buffer that `insert_srh_header` makes. Behind its first two bytes the header has `fields`,
and the addresses `hops` at `lo`. -/
def srhBuf (p : Packet) (r : ℕ) (fields : List UInt8) (lo : ℕ) (hops : List UInt8) (a : Ipaddr) :
    ℕ → UInt8 :=
  let named := store (store (movedBuf p r) iphLen
    (p.buf 6 :: .ofInt (((r : ℤ) - 8).tdiv 8) :: fields)) 6 [protoRouting]
  store (store (store named lo hops) 24 a.u8) 4
    [.ofNat ((p.len + r - iphLen) / 256), .ofNat (p.len + r - iphLen)]

/-- The addresses are behind the first two bytes of the header, and do not leave it. There is a hop
too much where the trail does not end at the root; then the first two bytes are left alone if the
addresses are shortened by ten bytes at least. -/
theorem writeSrh_eq_srhBuf {pathLen : ℕ} (hc : c ≤ 15) (ht : Trail s root e destNode up)
    (he : e = some root ∨ e = none) (hclean : e = none → 10 ≤ c)
    (hpad : pad < 8) (hr : 8 + up.length * (16 - c) + pad = r)
    (hmtu : p.len + r % 256 ≤ linkMtu)
    (h : writeSrh stack s destNode root pathLen c (r % 256) pad p = some q) :
    r < 256 ∧ ∃ fields lo hops a, fields.length = 4 ∧ iphLen + 2 ≤ lo ∧
      lo + hops.length ≤ iphLen + r ∧
      q = ⟨srhBuf p r fields lo hops a, p.len + r, p.extLen + r⟩ := by
  have hiph : iphLen = 40 := rfl
  have hmove : ((iphLen + p.extLen : ℕ) : ℤ) + ((r % 256 : ℕ) : ℤ) =
      ((iphLen + p.extLen + r % 256 : ℕ) : ℤ) := rfl
  have hclear : ((iphLen : ℕ) : ℤ) + ((p.extLen : ℕ) : ℤ) = ((iphLen + p.extLen : ℕ) : ℤ) := rfl
  have h24 : (24 : ℤ) = ((24 : ℕ) : ℤ) := rfl
  have h6 : (6 : ℤ) = ((6 : ℕ) : ℤ) := rfl
  simp only [writeSrh, Option.bind_eq_bind, Option.bind_eq_some_iff, hmove, hclear, h24, h6,
    put_eq_some, List.length_replicate] at h
  obtain ⟨_, ⟨_, rfl⟩, _, ⟨_, rfl⟩, _, ⟨_, rfl⟩, _, ⟨_, rfl⟩, ⟨a, buf⟩, hput, _,
    ⟨_, rfl⟩, hq⟩ := h
  obtain ⟨lo, hops, rfl, hlo, hhops⟩ := of_putHops hc ht he (by omega) hput
  have hmul : up.length * (16 - c) ≤ hops.length := by
    rw [hhops]
    exact Nat.mul_le_mul_right _ (Nat.le_add_right _ _)
  have hbyte : r < 256 := by omega
  rw [Nat.mod_eq_of_lt hbyte] at *
  have hlow : iphLen + 2 ≤ lo := by
    rcases he with rfl | rfl
    · rw [if_neg (Option.some_ne_none root), Nat.add_zero] at hhops
      omega
    · have hten := hclean rfl
      rw [if_pos rfl, Nat.succ_mul] at hhops
      omega
  have hproto : store (store p.buf (iphLen + p.extLen + r)
      (load p.buf (iphLen + p.extLen) (p.len - iphLen))) (iphLen + p.extLen)
      (List.replicate r 0) 6 = p.buf 6 := by
    rw [store_of_lt (by omega), store_of_lt (by omega)]
  have hfit : r + p.len ≤ linkMtu := by omega
  have hq := Option.some.inj hq
  rw [Packet.addExtHdr, if_pos hfit, hproto] at hq
  exact ⟨hbyte, _, lo, hops, a, rfl, hlow, by omega, hq.symm⟩

section

variable {fields hops : List UInt8} {lo i : ℕ}

theorem srhBuf_of_fixed (hlow : iphLen + 2 ≤ lo) (hi : i < 4 ∨ 7 ≤ i) (hlt : i < 24) :
    srhBuf p r fields lo hops a i = p.buf i := by
  have hiph : iphLen = 40 := rfl
  unfold srhBuf movedBuf
  rw [store_of_outside (by simp; omega), store_of_lt hlt, store_of_lt (by omega),
    store_of_outside (by simp; omega), store_of_lt (by omega), store_of_lt (by omega),
    store_of_lt (by omega)]

theorem load_srhBuf_field : load (srhBuf p r fields lo hops a) 4 2 =
    [.ofNat ((p.len + r - iphLen) / 256), .ofNat (p.len + r - iphLen)] :=
  load_store _ 4 [_, _]

theorem srhBuf_six (hlow : iphLen + 2 ≤ lo) :
    srhBuf p r fields lo hops a 6 = protoRouting := by
  have hiph : iphLen = 40 := rfl
  unfold srhBuf
  rw [store_of_outside (.inr (by simp)), store_of_lt (by omega), store_of_lt (by omega),
    store_self]

theorem load_srhBuf_dest : load (srhBuf p r fields lo hops a) 24 16 = a.u8 := by
  unfold srhBuf
  dsimp only
  rw [load_store_of_disjoint (.inr (by simp)), ← a.length_u8, load_store]

/-- Of the header the addresses leave the first two bytes alone. -/
theorem srhBuf_front (hlow : iphLen + 2 ≤ lo) {k : ℕ} (hk : k < 2) :
    srhBuf p r fields lo hops a (iphLen + k) =
      [p.buf 6, .ofInt (((r : ℤ) - 8).tdiv 8)].get ⟨k, hk⟩ := by
  have hiph : iphLen = 40 := rfl
  unfold srhBuf
  rw [store_of_outside (.inr (by simp; omega)),
    store_of_outside (.inr (by rw [a.length_u8]; omega)),
    store_of_lt (by omega), store_of_outside (.inr (by simp; omega)), store_add (by simp; omega)]
  obtain rfl | rfl : k = 0 ∨ k = 1 := by omega
  · rfl
  · rfl

/-- Behind the header the buffer is as it was moved. -/
theorem srhBuf_behind (hfields : fields.length = 4) (hr : 8 ≤ r)
    (hhigh : lo + hops.length ≤ iphLen + r) (hi : iphLen + r ≤ i) :
    srhBuf p r fields lo hops a i = movedBuf p r i := by
  have hiph : iphLen = 40 := rfl
  unfold srhBuf
  rw [store_of_outside (.inr (by simp; omega)),
    store_of_outside (.inr (by rw [a.length_u8]; omega)),
    store_of_outside (.inr (by omega)), store_of_outside (.inr (by simp; omega)),
    store_of_outside (.inr (by rw [List.length_cons, List.length_cons, hfields]; omega))]

theorem movedBuf_of_lt (hi : i < iphLen + p.extLen) : movedBuf p r i = p.buf i := by
  unfold movedBuf
  rw [store_of_lt hi, store_of_lt (by omega)]

theorem movedBuf_of_room (hge : iphLen + p.extLen ≤ i) (hlt : i < iphLen + p.extLen + r) :
    movedBuf p r i = 0 := by
  obtain ⟨k, rfl⟩ := Nat.exists_eq_add_of_le hge
  have hk : k < (List.replicate r (0 : UInt8)).length := by
    rw [List.length_replicate]
    omega
  rw [movedBuf, store_add hk, List.getElem_replicate]

theorem load_movedBuf (p : Packet) (r : ℕ) :
    load (movedBuf p r) (iphLen + p.extLen + r) (p.len - iphLen) =
      load p.buf (iphLen + p.extLen) (p.len - iphLen) := by
  rw [movedBuf, load_store_of_disjoint (by simp)]
  have h := load_store p.buf (iphLen + p.extLen + r)
    (load p.buf (iphLen + p.extLen) (p.len - iphLen))
  rwa [length_load] at h

/-- The packet with this buffer has the header behind the IPv6 header. -/
theorem fronted_srhBuf (hbyte : r < 256) (height : r % 8 = 0) (hr : 8 ≤ r)
    (hfields : fields.length = 4) (hlow : iphLen + 2 ≤ lo)
    (hhigh : lo + hops.length ≤ iphLen + r) :
    Packet.Fronted ⟨srhBuf p r fields lo hops a, p.len + r, p.extLen + r⟩ p r a where
  len := rfl
  extLen := rfl
  first := load_congr fun i _ hi => srhBuf_of_fixed hlow (.inl (by omega)) (by omega)
  field := load_srhBuf_field
  proto := srhBuf_six (a := a) hlow
  fixed := load_congr fun i hi hi' => srhBuf_of_fixed hlow (.inr hi) (by omega)
  dest := load_srhBuf_dest
  next := srhBuf_front hlow Nat.zero_lt_two
  header := by
    rw [Packet.extHdrLen]
    dsimp only
    rw [srhBuf_front hlow Nat.one_lt_two]
    exact units_ofInt hr height hbyte
  old := fun i hi hlt => (srhBuf_behind hfields hr hhigh hi).trans (movedBuf_of_lt hlt)
  zero := fun i hi hge hlt =>
    (srhBuf_behind hfields hr hhigh hi).trans (movedBuf_of_room hge hlt)
  moved := (load_congr fun i hi _ =>
    srhBuf_behind hfields hr hhigh (by omega)).trans (load_movedBuf p r)

end

/-- The header that is written is behind the IPv6 header. -/
theorem fronted_of_writeSrh {pathLen : ℕ} (hc : c ≤ 15) (ht : Trail s root e destNode up)
    (he : e = some root ∨ e = none) (hclean : e = none → 10 ≤ c)
    (hpad : pad < 8) (hr : 8 + up.length * (16 - c) + pad = r) (height : r % 8 = 0)
    (hmtu : p.len + r % 256 ≤ linkMtu)
    (h : writeSrh stack s destNode root pathLen c (r % 256) pad p = some q) :
    r < 256 ∧ ∃ a, q.Fronted p r a := by
  obtain ⟨hbyte, fields, lo, hops, a, hfields, hlow, hhigh, rfl⟩ :=
    writeSrh_eq_srhBuf hc ht he hclean hpad hr hmtu h
  exact ⟨hbyte, a, fronted_srhBuf hbyte height (by omega) hfields hlow hhigh⟩

/-- With no other header the new one is in front of the payload, and it is one to remove. -/
theorem Packet.Fronted.hasFront (h : q.Fronted p r a) (hp : p.Holds d) (hext : p.extLen = 0) :
    q.HasFront (d.withDest a) r := by
  have hparts := holds_iff.1 hp
  have hplen := hparts.len
  have hqlen := h.len
  have hbody : (d.withDest a).body = d.body := rfl
  refine ⟨by rw [hbody]; omega, h.first.trans hparts.first, h.field, ?_, ?_, ?_, h.header, ?_⟩
  · rw [h.proto]
    rfl
  · have hfixed := congrArg (List.take 17) hparts.fixed
    rw [take_load (by decide)] at hfixed
    have hsplit := load_add q.buf 7 17 16
    rw [h.fixed, h.dest, hfixed] at hsplit
    exact hsplit
  · exact h.next.trans hparts.proto
  · have hmoved := h.moved
    have hrest : p.len - iphLen = d.body.length := by omega
    rw [hext, Nat.add_zero, hrest, hparts.body] at hmoved
    exact hmoved

/-- Where the destination is the root itself and its parents do not lead back to it, they share ten
bytes with it at least. -/
def OwnAddressFits (stack : Stack) (graph : ℕ) (s : State) (p : Packet) : Prop :=
  ∀ root up, s.getNode stack.sr graph (some p.destipaddr) = some root →
    s.getNode stack.sr graph (some stack.sr.dagId) = some root → Trail s root none root up →
    ∀ k ∈ up, 10 ≤ countMatchingBytes (s.nodeIpaddr stack.sr k).u8 p.destipaddr.u8

/-- What `insert_srh_header` does, when it does not fail. -/
theorem insertSrhHeader_cases (h : insertSrhHeader stack graph s p = some (true, q)) :
    q = p ∨ ∃ destNode root pathLen c,
      s.getNode stack.sr graph (some p.destipaddr) = some destNode ∧
      s.getNode stack.sr graph (some stack.sr.dagId) = some root ∧
      s.isAddrReachable stack.sr graph p.destipaddr = true ∧
      measurePath stack.sr s root p.destipaddr (stack.sr.linkNum + 1) (s.parent destNode) 0 15 =
        some (pathLen, c) ∧
      p.len + (fieldsLen pathLen c + padding (fieldsLen pathLen c)) % 256 ≤ linkMtu ∧
      writeSrh stack s destNode root pathLen c
        ((fieldsLen pathLen c + padding (fieldsLen pathLen c)) % 256)
        (padding (fieldsLen pathLen c)) p = some q := by
  unfold insertSrhHeader at h
  dsimp only at h
  split at h
  · exact .inl (Prod.mk.inj (Option.some.inj h)).2.symm
  · split at h
    · exact .inl (Prod.mk.inj (Option.some.inj h)).2.symm
    · cases h
    · rename_i destNode root hdest hroot
      split at h
      · cases h
      · rename_i hreach
        split at h
        · cases h
        · rename_i pathLen c hmeasure
          split at h
          · cases h
          · rename_i hmtu
            obtain ⟨q', hwrite, hq⟩ := Option.map_eq_some_iff.1 h
            obtain rfl : q' = q := (Prod.mk.inj hq).2
            exact .inr ⟨destNode, root, pathLen, c, hdest, hroot, by simpa using hreach, hmeasure,
              Nat.le_of_not_lt hmtu, hwrite⟩

/-- The packet is left as it is, or has a source routing header behind the IPv6 header. -/
theorem fronted_of_insert (hown : OwnAddressFits stack graph s p)
    (h : insertSrhHeader stack graph s p = some (true, q)) :
    q = p ∨ ∃ r a, q.Fronted p r a ∧ 8 ≤ r ∧ p.len + r ≤ linkMtu := by
  rcases insertSrhHeader_cases h with hsame |
    ⟨destNode, root, pathLen, c, hdest, hroot, hreach, hmeasure, hmtu, hwrite⟩
  · exact .inl hsame
  · rw [State.isAddrReachable, hroot, hdest] at hreach
    obtain ⟨e, up, he, ht, hm⟩ := exists_trail (by decide) hmeasure
    obtain ⟨rfl, rfl⟩ := Prod.mk.inj hm
    have hc := (sharedBytes_le stack.sr s p.destipaddr 15 up).1
    -- only the trail of the root itself ends elsewhere
    have hclean : e = none → 10 ≤ sharedBytes stack.sr s p.destipaddr 15 up := by
      rintro rfl
      by_cases hself : destNode = root
      · subst hself
        exact le_sharedBytes (by decide) (hown destNode up hdest hroot ht)
      · exact absurd ht (not_trail_none (decide_eq_true_iff.1 hreach).2 hself)
    generalize sharedBytes stack.sr s p.destipaddr 15 up = c at hmtu hwrite hc hclean
    have hpad := padding_lt (headerLen up.length c)
    have height := eight_dvd_add_padding (headerLen up.length c)
    rw [Nat.zero_add, fieldsLen_eq hc, padding_mod, Nat.mod_add_mod] at hmtu hwrite
    generalize padding (headerLen up.length c) = pad at hmtu hwrite hpad height
    obtain ⟨hbyte, a, hfronted⟩ := fronted_of_writeSrh hc ht he hclean hpad rfl height hmtu hwrite
    rw [headerLen, Nat.mod_eq_of_lt hbyte] at hmtu
    refine .inr ⟨_, a, hfronted, ?_, hmtu⟩
    rw [Nat.add_assoc]
    exact Nat.le_add_right _ _

theorem withDest_self (hp : p.Holds d) : d.withDest p.destipaddr = d := by
  have hfixed := (holds_iff.1 hp).fixed
  have hsplit := load_add p.buf 7 17 16
  have htake := congrArg (List.take 17) hfixed
  rw [take_load (by decide)] at htake
  have hsame : d.fixed.take 17 ++ p.destipaddr.u8 = d.fixed := by
    rw [← htake, ← hfixed]
    exact hsplit.symm
  cases d
  unfold Datagram.withDest
  simp only [Datagram.mk.injEq, true_and, and_true]
  exact hsame

/-- The removal undoes the insertion of the source routing header, except for the destination. -/
theorem holds_remove_insertSrh (hp : p.Holds d) (hkeep : ∀ g ∈ d.exts, ¬ g.IsRpl)
    (hext : p.extLen = 0) (hown : OwnAddressFits stack graph s p)
    (h : insertSrhHeader stack graph s p = some (true, q)) :
    ∃ a, (rplExtHeaderRemove q).2.Holds (d.withDest a) := by
  have hplen := (holds_iff.1 hp).len
  rcases fronted_of_insert hown h with rfl | ⟨r, a, hfronted, hr, hmtu⟩
  · refine ⟨q.destipaddr, ?_⟩
    rw [withDest_self hp, rplExtHeaderRemove_eq hp,
      removeFrom_all_kept (holds_iff.1 hp).rest hkeep d.upper_eq]
    exact hp
  · have hqlen := hfronted.len
    have hqext := hfronted.extLen
    exact ⟨a, (hfronted.hasFront hp hext).removed (.inl hfronted.proto) hkeep (by omega)
      (by omega)⟩

/-- The upper layer is named at the end of the headers. -/
theorem upper_mem_chainBytes (upper : UInt8) {hs : List ExtHdr} (hne : hs ≠ []) :
    upper ∈ chainBytes upper hs := by
  induction hs with
  | nil => exact absurd rfl hne
  | cons h hs ih =>
      rw [chainBytes_cons]
      cases hs with
      | nil => exact List.mem_cons_self
      | cons g gs =>
          have hmem := ih (List.cons_ne_nil g gs)
          exact List.mem_cons_of_mem _ (List.mem_cons_of_mem _ (List.mem_append_right _ hmem))

/-- Removing the header in front leaves what is behind it. -/
theorem remove_fronted (ho : q.Fronted p r a) (hr : 8 ≤ r) (hlen : iphLen < p.len)
    (hmtu : p.len + r ≤ linkMtu) :
    (rplExtHeaderRemove q).2 =
      (removeFrom (q.withoutFirst r) iphLen 6 ((q.withoutFirst r).buf 6)).2 := by
  have hqlen := ho.len
  have hqext := ho.extLen
  have hiph : iphLen = 40 := rfl
  have hsix : q.buf (0 + 6) = protoRouting := ho.proto
  have hfield : (q.buf (iphLen + 1)).toNat * 8 + 8 = r := ho.header
  have hext : Packet.isProtoExtHdr protoRouting = true := rfl
  have hfirst : 0 + iphLen = iphLen := rfl
  have hnext : Packet.getNextHeader q.buf 0 q.len true = (some iphLen, protoRouting) := by
    unfold Packet.getNextHeader
    simp only [if_true, hsix, hext, hfirst, hfield]
    rw [if_neg (by omega)]
  have hsub : (q.relink iphLen 6).subExtHdr ((q.relink iphLen 6).extHdrLen iphLen) =
      some { q.relink iphLen 6 with len := q.len - r, extLen := q.extLen - r } := by
    rw [extHdrLen_relink, ho.header]
    refine if_pos ⟨?_, ?_, ?_⟩
    · exact Nat.le_add_right_of_le (by rw [← hqlen] at hmtu; exact hmtu)
    · exact Nat.le_of_add_left_le (Nat.le_of_eq hqlen.symm)
    · exact Nat.le_of_add_left_le (Nat.le_of_eq hqext.symm)
  have hrem : q.Removes iphLen protoRouting := .inl rfl
  rw [rplExtHeaderRemove, hnext]
  dsimp only
  rw [removeFrom_removed hext hrem hsub, extHdrLen_relink, ho.header]
  have hlong : ¬ q.len - r ≤ iphLen := by omega
  rw [if_neg hlong]
  rfl

theorem buf_withoutFirst {j : ℕ} (hj : j < q.len - r - iphLen) :
    (q.withoutFirst r).buf (iphLen + j) = q.buf (iphLen + r + j) := by
  have hiph : iphLen = 40 := rfl
  unfold Packet.withoutFirst Packet.moveLeft
  dsimp only [Packet.setLenField, Packet.relink]
  have hlt : j < (load (store (store q.buf 6 [q.buf iphLen]) 4 [UInt8.ofNat
      (Packet.payloadLen ⟨store q.buf 6 [q.buf iphLen], q.len - r, q.extLen - r⟩ / 256),
      UInt8.ofNat (Packet.payloadLen ⟨store q.buf 6 [q.buf iphLen], q.len - r, q.extLen - r⟩)])
      (iphLen + r) (q.len - r - iphLen)).length := by
    rwa [length_load]
  rw [store_add hlt]
  have hget := List.getElem?_eq_getElem hlt
  rw [getElem?_load hj, Option.some.injEq] at hget
  rw [← hget, store_of_outside (.inr (by simp; omega)), store_of_outside (.inr (by simp; omega))]

/-- If the removal gives the packet back, what was behind the IPv6 header is behind the header in
front. -/
theorem buf_of_removed (hp : p.Holds d) (ho : q.Fronted p r b) (hr : 8 ≤ r)
    (hmtu : p.len + r ≤ linkMtu) (hpos : 0 < d.body.length)
    (h : (rplExtHeaderRemove q).2.Holds (d.withDest a)) {j : ℕ} (hj : j < d.body.length) :
    p.buf (iphLen + j) = q.buf (iphLen + r + j) := by
  have hiph : iphLen = 40 := rfl
  have hparts := holds_iff.1 hp
  have hplen := hparts.len
  have hqlen := ho.len
  have hshort : (q.withoutFirst r).len = q.len - r := rfl
  rw [remove_fronted ho hr (by omega) hmtu] at h
  have hfinal := holds_iff.1 h
  have hflen := hfinal.len
  have hbody : (d.withDest a).body = d.body := rfl
  rw [hbody] at hflen
  have hload : load (removeFrom (q.withoutFirst r) iphLen 6 ((q.withoutFirst r).buf 6)).2.buf
      iphLen d.body.length = load p.buf iphLen d.body.length :=
    hfinal.body.trans hparts.body.symm
  have hget := congrArg (fun l => l[j]?) hload
  simp only [getElem?_load hj, Option.some.injEq] at hget
  rw [← hget, removeFrom_of_len (by omega) (.inl (by omega)), buf_withoutFirst (by omega)]

/-- Then the old headers were all zero: what follows them `r` bytes on was cleared. -/
theorem Packet.Fronted.zero_of_moved (ho : q.Fronted p r b) (hr : 8 ≤ r)
    (hmoved : ∀ j < p.extLen, p.buf (iphLen + j) = q.buf (iphLen + r + j)) :
    ∀ k j, j < p.extLen → p.extLen - j ≤ k → p.buf (iphLen + j) = 0 := by
  intro k
  induction k with
  | zero => exact fun j hj hk => absurd hk (by omega)
  | succ k ih =>
      intro j hj hk
      rw [hmoved j hj]
      by_cases hold : r + j < p.extLen
      · rw [ho.old _ (by omega) (by omega), Nat.add_assoc]
        exact ih (r + j) hold (by omega)
      · exact ho.zero _ (by omega) (by omega) (by omega)

/-- A source routing header that was written over other headers is not undone. -/
theorem not_holds_of_fronted (hp : p.Holds d) (hne : d.exts ≠ [])
    (hext : p.extLen = (d.exts.map ExtHdr.size).sum) (ho : q.Fronted p r b) (hr : 8 ≤ r)
    (hmtu : p.len + r ≤ linkMtu) (a : Ipaddr) :
    ¬ (rplExtHeaderRemove q).2.Holds (d.withDest a) := by
  intro hholds
  have hchain := length_chainBytes d.upper d.exts
  have hlength : d.body.length = p.extLen + d.payload.length := by
    rw [Datagram.body, List.length_append, hchain, hext]
  -- the upper layer is named in the headers, and it is not zero
  have hmem := upper_mem_chainBytes d.upper hne
  have hpos : 0 < p.extLen := by
    rw [hext, ← hchain]
    exact List.length_pos_of_mem hmem
  have hload : chainBytes d.upper d.exts = load p.buf iphLen p.extLen := by
    have htake := congrArg (List.take p.extLen) (holds_iff.1 hp).body
    rw [take_load (by omega), Datagram.body, List.take_left' (by rw [hchain, hext])] at htake
    exact htake.symm
  rw [hload, load, List.mem_map] at hmem
  obtain ⟨j, hj, hupper⟩ := hmem
  have hzero := ho.zero_of_moved hr (fun j hj =>
    buf_of_removed hp ho hr hmtu (by omega) hholds (by omega)) p.extLen j (List.mem_range.1 hj)
      (Nat.sub_le _ _)
  rw [hzero] at hupper
  have hlast := d.upper_eq
  rw [← hupper] at hlast
  exact absurd hlast (by decide)

/-! ## The removal -/

/-- The insertion of the source routing header is undone if and only if there was no other header,
or nothing was inserted. -/
theorem holds_remove_insertSrh_iff (hp : p.Holds d) (hkeep : ∀ g ∈ d.exts, ¬ g.IsRpl)
    (hext : p.extLen = (d.exts.map ExtHdr.size).sum) (hown : OwnAddressFits stack graph s p)
    (h : insertSrhHeader stack graph s p = some (true, q)) :
    (∃ a, (rplExtHeaderRemove q).2.Holds (d.withDest a)) ↔ d.exts = [] ∨ q = p := by
  have hplen := (holds_iff.1 hp).len
  constructor
  · rintro ⟨a, hholds⟩
    by_contra hboth
    obtain ⟨hexts, hinserted⟩ := not_or.1 hboth
    obtain ⟨r, b, hfronted, hr, hmtu⟩ :=
      (fronted_of_insert hown h).resolve_left hinserted
    exact not_holds_of_fronted hp hexts hext hfronted hr hmtu a hholds
  · rintro (hnil | rfl)
    · rw [hnil] at hext
      exact holds_remove_insertSrh hp hkeep hext hown h
    · refine ⟨q.destipaddr, ?_⟩
      rw [withDest_self hp, rplExtHeaderRemove_eq hp,
        removeFrom_all_kept (holds_iff.1 hp).rest hkeep d.upper_eq]
      exact hp

/-- An extension header of eight bytes. -/
def shortHdr (proto : UInt8) (h : Packet.isProtoExtHdr proto = true) (option : UInt8) : ExtHdr :=
  ⟨proto, 0, [option, 4, 0, 0, 0, 0], h, rfl⟩

/-- A datagram with these headers before eight bytes of UDP. -/
def udpDatagram (hs : List ExtHdr) : Datagram :=
  ⟨[0x60, 0, 0, 0], List.replicate 33 0, hs, 17, List.replicate 8 0, rfl, rfl, rfl⟩

/-- The packet of a datagram. -/
def packetOf (d : Datagram) : Packet where
  buf i := d.bytes[i]?.getD 0
  len := d.bytes.length
  extLen := (d.exts.map ExtHdr.size).sum

theorem packetOf_holds (d : Datagram) : (packetOf d).Holds d := by
  change load (packetOf d).buf 0 d.bytes.length = d.bytes
  refine List.ext_getElem? fun i => ?_
  by_cases hi : i < d.bytes.length
  · rw [getElem?_load hi, List.getElem?_eq_getElem hi]
    change some (d.bytes[0 + i]?.getD 0) = _
    rw [Nat.zero_add, List.getElem?_eq_getElem hi]
    rfl
  · have hle := Nat.le_of_not_lt hi
    rw [List.getElem?_eq_none hle, List.getElem?_eq_none]
    rwa [length_load]

end Den2ne.SourceRoute
