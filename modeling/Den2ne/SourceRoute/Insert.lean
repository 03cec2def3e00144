import Den2ne.SourceRoute.Hops
import Den2ne.SourceRoute.Reach

/-!
# Packets from the root

What `insert_srh_header` writes is a header that `Carries` the path, if the length of the header
fits its type and the packet with the header fits `uip_buf`. A header that is longer than 255
bytes makes `ext_len` wrap around, and the addresses are written from a place that is too low: to
addresses before `uip_buf`.
-/

namespace Den2ne.SourceRoute

open Memory State

variable {stack : Stack} {s : State} {p : Packet} {c n k l root fuel graph : ℕ} {a : Ipaddr}
  {as : List Ipaddr} {up : List ℕ} {size : ℕ} {bytes : List UInt8} {buf : ℕ → UInt8}

/-! ## The path -/

/-- A node that the walk leads from to the root has a path. -/
theorem exists_ascent (hclimb : s.climb (some root) n (some l) = some root) (hne : l ≠ root) :
    ∃ up, Ascent s root (l :: up) ∧ up.length < n := by
  induction n generalizing l with
  | zero => exact absurd (Option.some.inj hclimb) hne
  | succ n ih =>
      rw [climb, if_neg fun heq => hne (Option.some.inj heq)] at hclimb
      cases hparent : s.parent l with
      | none =>
          rw [hparent] at hclimb
          cases n <;> cases hclimb
      | some m =>
          rw [hparent] at hclimb
          by_cases hm : m = root
          · subst hm
            exact ⟨[], ⟨hne, hparent⟩, Nat.succ_pos n⟩
          · obtain ⟨up, hup, hlength⟩ := ih hclimb hm
            exact ⟨m :: up, ⟨hne, hparent, hup⟩, Nat.succ_lt_succ hlength⟩

/-- The bytes that the nodes of a list share with the address, as `cmpri` counts them from `c`
on. -/
def sharedBytes (cfg : Config) (s : State) (dest : Ipaddr) (c : ℕ) (up : List ℕ) : ℕ :=
  up.foldl (fun c l => min c (countMatchingBytes (s.nodeIpaddr cfg l).u8 dest.u8)) c

theorem sharedBytes_le (cfg : Config) (s : State) (dest : Ipaddr) (c : ℕ) (up : List ℕ) :
    sharedBytes cfg s dest c up ≤ c ∧ ∀ l ∈ up,
      sharedBytes cfg s dest c up ≤ countMatchingBytes (s.nodeIpaddr cfg l).u8 dest.u8 := by
  induction up generalizing c with
  | nil => exact ⟨Nat.le_refl c, fun l hl => nomatch hl⟩
  | cons k up ih =>
      obtain ⟨hle, hall⟩ := ih (min c (countMatchingBytes (s.nodeIpaddr cfg k).u8 dest.u8))
      refine ⟨hle.trans (Nat.min_le_left _ _), fun l hl => ?_⟩
      rcases List.mem_cons.1 hl with rfl | hl
      · exact hle.trans (Nat.min_le_right _ _)
      · exact hall l hl

/-- The first loop of `insert_srh_header`. -/
theorem measurePath_eq (cfg : Config) (dest : Ipaddr) (c : ℕ) (hup : Ascent s root (l :: up))
    (hfuel : up.length < fuel) (hk : k < 256) :
    measurePath cfg s root dest fuel (s.parent l) k c =
      some ((k + up.length) % 256, sharedBytes cfg s dest c up) := by
  induction up generalizing l k c fuel with
  | nil =>
      obtain ⟨fuel, rfl⟩ := Nat.exists_eq_succ_of_ne_zero (Nat.ne_of_gt hfuel)
      rw [hup.2, measurePath, if_pos rfl, List.length_nil, Nat.add_zero, Nat.mod_eq_of_lt hk]
      rfl
  | cons m up ih =>
      obtain ⟨fuel, rfl⟩ := Nat.exists_eq_succ_of_ne_zero (Nat.ne_zero_of_lt hfuel)
      obtain ⟨-, hparent, hrest⟩ := hup
      have hm : m ≠ root := by
        cases up with
        | nil => exact hrest.1
        | cons _ _ => exact hrest.1
      rw [hparent, measurePath, if_neg hm,
        ih _ hrest (Nat.lt_of_succ_lt_succ hfuel) (Nat.mod_lt _ (by omega)), List.length_cons]
      congr 2
      omega

/-- The addresses from the child of the root on. -/
def pathAddrs (cfg : Config) (s : State) (up : List ℕ) : List Ipaddr :=
  (up.map (s.nodeIpaddr cfg)).reverse

theorem pathAddrs_cons (cfg : Config) (s : State) (l : ℕ) (up : List ℕ) :
    pathAddrs cfg s (l :: up) = pathAddrs cfg s up ++ [s.nodeIpaddr cfg l] := by
  rw [pathAddrs, List.map_cons, List.reverse_cons]
  rfl

theorem length_pathAddrs (cfg : Config) (s : State) (up : List ℕ) :
    (pathAddrs cfg s up).length = up.length := by
  rw [pathAddrs, List.length_reverse, List.length_map]

/-! ## The writes -/

theorem put_natCast (size pos : ℕ) (bytes : List UInt8) (buf : ℕ → UInt8) :
    put size (pos : ℤ) bytes buf =
      if pos + bytes.length ≤ size then some (store buf pos bytes) else none := by
  rw [put, Int.toNat_natCast]
  refine if_congr ?_ rfl rfl
  omega

theorem put_of_neg {pos : ℤ} (hpos : pos < 0) : put size pos bytes buf = none :=
  if_neg fun h => absurd h.1 (not_le.2 hpos)

theorem length_flatMap_drop (as : List Ipaddr) (c : ℕ) :
    (as.flatMap fun a => a.u8.drop c).length = as.length * (16 - c) := by
  induction as with
  | nil => simp
  | cons a as ih =>
      rw [List.flatMap_cons, List.length_append, ih, length_drop_u8, List.length_cons,
        Nat.succ_mul, Nat.add_comm]

theorem Ascent.ne_root (hup : Ascent s root (l :: up)) : some l ≠ some root := by
  cases up with
  | nil => exact fun heq => hup.1 (Option.some.inj heq)
  | cons _ _ => exact fun heq => hup.1 (Option.some.inj heq)

/-- The second loop of `insert_srh_header`, when it stays in the buffer. -/
theorem putHops_eq {pos : ℕ} {nodeAddr : Ipaddr} (hc : c ≤ 15) (hup : Ascent s root (l :: up))
    (hfuel : up.length < fuel) (hsize : pos + up.length * (16 - c) ≤ stack.bufSize)
    (hpath : pathAddrs stack.sr s (l :: up) = a :: as) :
    putHops stack s root c fuel (some l) ((pos + up.length * (16 - c) : ℕ) : ℤ) nodeAddr buf =
      some (a, store buf pos (as.flatMap fun a => a.u8.drop c)) := by
  induction up generalizing l fuel nodeAddr buf as with
  | nil =>
      obtain ⟨fuel, rfl⟩ := Nat.exists_eq_succ_of_ne_zero (Nat.ne_of_gt hfuel)
      obtain ⟨rfl, rfl⟩ := List.cons.inj hpath
      simp only [putHops, hup.2, if_true, List.flatMap_nil, store_nil]
  | cons m up ih =>
      obtain ⟨fuel, rfl⟩ := Nat.exists_eq_succ_of_ne_zero (Nat.ne_zero_of_lt hfuel)
      obtain ⟨-, hparent, hrest⟩ := hup
      have hm := hrest.ne_root
      have hlength := length_pathAddrs stack.sr s (m :: up)
      have hsome : 0 < (pathAddrs stack.sr s (m :: up)).length := by
        rw [hlength]
        exact Nat.succ_pos _
      obtain ⟨b, bs, hbs⟩ := List.exists_cons_of_length_pos hsome
      rw [pathAddrs_cons, hbs, List.cons_append] at hpath
      obtain ⟨rfl, rfl⟩ := List.cons.inj hpath
      rw [hbs, List.length_cons, List.length_cons, Nat.succ_inj] at hlength
      have hpos : ((pos + (m :: up).length * (16 - c) : ℕ) : ℤ) - (16 - c) =
          ((pos + up.length * (16 - c) : ℕ) : ℤ) := by
        rw [List.length_cons, Nat.succ_mul]
        omega
      rw [List.length_cons, Nat.succ_mul, ← Nat.add_assoc] at hsize
      simp only [putHops, hparent, if_neg hm, hpos, put_natCast, length_drop_u8, if_pos hsize,
        Option.bind_some]
      rw [ih hrest (Nat.lt_of_succ_lt_succ hfuel) (by omega) hbs, List.flatMap_append,
        List.flatMap_singleton, store_append', length_flatMap_drop, hlength]

/-- The second loop, when it comes to addresses before the buffer. -/
theorem putHops_eq_none {pos : ℤ} {nodeAddr : Ipaddr}
    (hup : Ascent s root (l :: up)) (hpos : pos < up.length * (16 - c)) (hne : up ≠ []) :
    putHops stack s root c fuel (some l) pos nodeAddr buf = none := by
  induction up generalizing l fuel nodeAddr buf pos with
  | nil => exact absurd rfl hne
  | cons m up ih =>
      cases fuel with
      | zero => rfl
      | succ fuel =>
          obtain ⟨-, hparent, hrest⟩ := hup
          have hm := hrest.ne_root
          simp only [putHops, hparent, if_neg hm]
          rw [List.length_cons, Nat.cast_succ, add_mul, one_mul] at hpos
          cases up with
          | nil =>
              rw [put_of_neg (by simp at hpos; omega)]
              rfl
          | cons j up =>
              rw [Option.bind_eq_none_iff]
              intro buf' _
              exact ih hrest (by omega) (List.cons_ne_nil _ _)

/-! ## The lengths -/

/-- The header with the fixed fields and `n` addresses without the `c` bytes that they share. -/
def headerLen (n c : ℕ) : ℕ := 8 + n * (16 - c)

theorem fieldsLen_eq (hc : c ≤ 15) : fieldsLen (n % 256) c = headerLen n c % 256 := by
  have hsub : (16 - c : ℤ) = ((16 - c : ℕ) : ℤ) := by omega
  have hsum : 4 + 4 + (((n % 256 : ℕ) : ℤ) - 1) * (16 - c) + (16 - c) =
      ((8 + n % 256 * (16 - c) : ℕ) : ℤ) := by
    rw [hsub]
    push_cast
    ring
  have hmod : (8 + n % 256 * (16 - c)) % 256 = (8 + n * (16 - c)) % 256 := by
    rw [Nat.add_mod, Nat.mul_mod, Nat.mod_mod, ← Nat.mul_mod, ← Nat.add_mod]
  rw [fieldsLen, hsum, headerLen, ← hmod]
  rfl

theorem padding_mod (n : ℕ) : padding (n % 256) = padding n := by
  have hmod : n % 256 % 8 = n % 8 := Nat.mod_mod_of_dvd n (by decide)
  rw [padding, padding, hmod]

theorem padding_lt (n : ℕ) : padding n < 8 := by
  unfold padding
  split <;> omega

theorem eight_dvd_add_padding (n : ℕ) : (n + padding n) % 8 = 0 := by
  unfold padding
  split <;> omega

/-- The packet that the root sends, with a header of `r` bytes for a path of `n` addresses behind
the address `a`. -/
def sentPacket (p : Packet) (n c pad r : ℕ) (a : Ipaddr) (as : List Ipaddr) : Packet where
  buf :=
    let moved := store (store p.buf (iphLen + r) (load p.buf iphLen (p.len - iphLen))) iphLen
      (List.replicate r 0)
    let header := store (store moved iphLen [p.buf 6, .ofInt (((r : ℤ) - 8).tdiv 8), typeSrh,
      .ofNat n, .ofNat (c * 16 + c), .ofNat (pad * 16)]) 6 [protoRouting]
    let hops := store header (iphLen + 8) (as.flatMap fun a => a.u8.drop c)
    store (store hops 24 a.u8) 4
      [.ofNat ((p.len + r - iphLen) / 256), .ofNat (p.len + r - iphLen)]
  len := p.len + r
  extLen := p.extLen + r

/-- The writes of `insert_srh_header`, when they stay in the buffer. -/
theorem writeSrh_eq_some {destNode pad r : ℕ} (hc : c ≤ 15) (hup : Ascent s root (destNode :: up))
    (hfuel : up.length ≤ stack.sr.linkNum)
    (hpath : pathAddrs stack.sr s (destNode :: up) = a :: as) (hlen : iphLen ≤ p.len)
    (hext : p.extLen = 0) (hr : r = headerLen up.length c + pad)
    (hsize : p.len + r ≤ stack.bufSize) (hmtu : p.len + r ≤ linkMtu) :
    writeSrh stack s destNode root up.length c r pad p =
      some (sentPacket p up.length c pad r a as) := by
  have hiph : iphLen = 40 := rfl
  have hroom : r = 8 + up.length * (16 - c) + pad := hr
  have hmove : ((iphLen : ℕ) : ℤ) + ((r : ℕ) : ℤ) = ((iphLen + r : ℕ) : ℤ) := rfl
  have hstart : ((iphLen + r : ℕ) : ℤ) - ((pad : ℕ) : ℤ) =
      ((iphLen + 8 + up.length * (16 - c) : ℕ) : ℤ) := by
    omega
  have hclear : ((iphLen : ℕ) : ℤ) + ((0 : ℕ) : ℤ) = ((iphLen : ℕ) : ℤ) := by omega
  have h24 : (24 : ℤ) = ((24 : ℕ) : ℤ) := rfl
  have h6 : (6 : ℤ) = ((6 : ℕ) : ℤ) := rfl
  have hproto : store (store p.buf (iphLen + r) (load p.buf iphLen (p.len - iphLen))) iphLen
      (List.replicate r 0) 6 = p.buf 6 := by
    rw [store_of_lt (by omega), store_of_lt (by omega)]
  have hmtu' : r + p.len ≤ linkMtu := by omega
  simp only [writeSrh, hext, hmove, hclear, hstart, h24, h6, put_natCast, Option.bind_eq_bind,
    length_load, List.length_replicate, List.length_cons, List.length_nil, Nat.add_zero]
  rw [if_pos (by omega), Option.bind_some, if_pos (by omega), Option.bind_some,
    if_pos (by omega), Option.bind_some, if_pos (by omega), Option.bind_some,
    putHops_eq hc hup (Nat.lt_succ_of_le hfuel) (by omega) hpath, Option.bind_some]
  simp only [a.length_u8]
  rw [if_pos (by omega), Option.bind_some, hproto]
  simp only [Packet.addExtHdr, hmtu', if_true, Packet.setLenField]
  rw [sentPacket, hext]
  rfl

/-- The length field of a header of `r` bytes. -/
theorem units_ofInt {r : ℕ} (hle : 8 ≤ r) (height : r % 8 = 0) (hfits : r < 256) :
    (UInt8.ofInt (((r : ℤ) - 8).tdiv 8)).toNat * 8 + 8 = r := by
  have hdiv : ((r : ℤ) - 8).tdiv 8 = ((r / 8 - 1 : ℕ) : ℤ) := by
    rw [Int.tdiv_eq_ediv_of_nonneg (by omega)]
    omega
  have hbyte : UInt8.ofInt ((r / 8 - 1 : ℕ) : ℤ) = UInt8.ofNat (r / 8 - 1) := by
    have hmod : (((r / 8 - 1 : ℕ) : ℤ) % 2 ^ 8).toNat = r / 8 - 1 := by omega
    rw [UInt8.ofInt, hmod]
  rw [hdiv, hbyte, UInt8.toNat_ofNat', Nat.mod_eq_of_lt (by omega)]
  omega

/-- The packet that the root sends is on its way to `a` and carries the rest of the path. -/
theorem carries_sentPacket (stack : Stack) (p : Packet) (a : Ipaddr) {pad r : ℕ} (hc : c ≤ 15)
    (hn : as.length = n) (hpad : pad < 8) (hr : r = headerLen n c + pad) (height : r % 8 = 0)
    (hfits : r < 256) (hlen : iphLen ≤ p.len)
    (hsize : p.len + r ≤ stack.bufSize) (hmtu : p.len + r ≤ linkMtu) :
    Carries stack p c n pad as (sentPacket p n c pad r a as) ∧
      (sentPacket p n c pad r a as).destipaddr = a := by
  have hiph : iphLen = 40 := rfl
  have hlink : linkMtu = 1280 := rfl
  have hroom : r = 8 + n * (16 - c) + pad := hr
  have hmul := Nat.le_mul_of_pos_right n (show 0 < 16 - c by omega)
  have hhops : (as.flatMap fun a => a.u8.drop c).length = n * (16 - c) := by
    rw [length_flatMap_drop, hn]
  generalize hq : sentPacket p n c pad r a as = q
  have hbuf := congrArg Packet.buf hq
  simp only [sentPacket] at hbuf
  have hqlen : q.len = p.len + r := by rw [← hq]; rfl
  -- outside the length, the destination and the addresses the packet is as the header left it
  have hkeep : ∀ i, i < 4 ∨ 6 ≤ i → i < 24 ∨ iphLen ≤ i →
      i < iphLen + 8 ∨ iphLen + 8 + n * (16 - c) ≤ i →
      q.buf i = store (store (store (store p.buf (iphLen + r)
        (load p.buf iphLen (p.len - iphLen))) iphLen (List.replicate r 0)) iphLen [p.buf 6,
          .ofInt (((r : ℤ) - 8).tdiv 8), typeSrh, .ofNat n, .ofNat (c * 16 + c),
          .ofNat (pad * 16)]) 6 [protoRouting] i := by
    intro i h₁ h₂ h₃
    rw [← hbuf, store_of_outside (by simpa using h₁),
      store_of_outside (by rw [a.length_u8]; omega), store_of_outside (by rw [hhops]; omega)]
  have hheader : ∀ j b, [p.buf 6, .ofInt (((r : ℤ) - 8).tdiv 8), typeSrh, .ofNat n,
      .ofNat (c * 16 + c), .ofNat (pad * 16)][j]? = some b → q.buf (iphLen + j) = b := by
    intro j b hj
    obtain ⟨hlt, hb⟩ := List.getElem?_eq_some_iff.1 hj
    have hlt' : j < 6 := hlt
    rw [hkeep _ (by omega) (by omega) (by omega), store_of_outside (by simp; omega),
      store_add hlt, hb]
  have hnbyte : ∀ k, k < 256 → (UInt8.ofNat k).toNat = k := fun k hk => by
    rw [UInt8.toNat_ofNat']
    exact Nat.mod_eq_of_lt hk
  refine ⟨⟨hc, hn.le, by omega, hpad, ⟨?_, ?_, ?_, ?_⟩, by omega, hlen, ?_, ?_, ?_, ?_, ?_, ?_⟩,
    Ipaddr.ext ?_⟩
  · rw [hqlen, hr]
    rfl
  · have hfield : load q.buf 4 2 = [.ofNat ((p.len + r - iphLen) / 256),
        .ofNat (p.len + r - iphLen)] := by
      rw [← hbuf]
      exact load_store _ 4 [_, _]
    have h4 : q.buf 4 = .ofNat ((p.len + r - iphLen) / 256) := List.head_eq_of_cons_eq hfield
    have h5 : q.buf 5 = .ofNat (p.len + r - iphLen) :=
      List.head_eq_of_cons_eq (List.tail_eq_of_cons_eq hfield)
    rw [Packet.lenField, h4, h5, hqlen, UInt8.toNat_ofNat', UInt8.toNat_ofNat']
    omega
  · rw [hheader 1 _ rfl, units_ofInt (by omega) height hfits, hroom]
  · rw [← hroom]
    refine (load_congr fun i hi hi' => hkeep i (by omega) (by omega) (by omega)).trans ?_
    rw [load_store_of_disjoint (by simp; omega), load_store_of_disjoint (by simp; omega),
      load_store_of_disjoint (by simp)]
    have h := load_store p.buf (iphLen + r) (load p.buf iphLen (p.len - iphLen))
    rwa [length_load] at h
  · rw [hkeep 6 (by omega) (by omega) (by omega)]
    exact store_self _ 6 protoRouting []
  · exact hheader 2 _ rfl
  · rw [hheader 3 _ rfl, hn, hnbyte _ (by omega)]
  · rw [hheader 4 _ rfl, hnbyte _ (by omega)]
  · rw [hheader 5 _ rfl, hnbyte _ (by omega)]
  · rw [hn, Nat.sub_self, Nat.zero_mul, Nat.add_zero, ← hbuf,
      load_store_of_disjoint (by simp), load_store_of_disjoint (by rw [a.length_u8]; omega),
      ← hhops, load_store]
  · change load q.buf 24 16 = a.u8
    rw [← hbuf, load_store_of_disjoint (by simp), ← a.length_u8, load_store]

end Den2ne.SourceRoute
