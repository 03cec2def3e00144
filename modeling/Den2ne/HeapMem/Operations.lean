import Den2ne.HeapMem.Coalesce

/-!
# Allocating, freeing and changing the size

What the functions of the interface do to the chunks and to what their owners have put there.
-/

namespace Den2ne.HeapMem

open Memory Pointers

variable {cfg : Config} {X : ℕ → Prop} {L N : ℕ → Option ℕ} {m : ℕ → Cell Chunk UInt8}
  {s s' : Heap} {bs l r : List Block} {fl : List ℕ} {b : Block} {c k size zone : ℕ}
  {f : Chunk → Chunk}

/-- The counters of the zones do not matter. -/
theorem Repr.setZones (h : Repr cfg X L N m s bs fl) (zones : List Zone) :
    Repr cfg X L N m { s with zones := zones } bs fl :=
  ⟨⟨h.tiles, h.usage_le, h.intact, h.size, h.flag, h.aligned, h.live, h.owned, h.kept, h.fixed⟩,
    h.linked, h.nodup, h.mem_free⟩

theorem Repr.heapmemZoneRegister (h : Repr cfg X L N m s bs fl) (name : Option String)
    (zoneSize : ℕ) : Repr cfg X L N m (s.heapmemZoneRegister name zoneSize).2 bs fl := by
  unfold Heap.heapmemZoneRegister
  split
  · exact h
  · split
    · exact h
    · split
      · exact h
      · split
        · exact h.setZones _
        · exact h

/-- The flag of a chunk that was taken is set. -/
theorem Repr.setUsed (h : Repr cfg (fun a => a = b.addr) L N m s bs fl) (hb : b ∈ bs)
    (hall : b.allocated = true) (hsize : ∀ x, (f x).size = x.size)
    (hflag : ∀ x, (f x).allocated = true) :
    Repr cfg Settled L N m (s.modify cfg b.addr f) bs fl := by
  have hshape := h.toShape.modify_exempt hb hsize
  have hchunk := fun (x : Block) hx => h.toShape.chunk_modify hb (hx : x ∈ _) f
  have hused : Shape cfg Settled L N m (s.modify cfg b.addr f) bs := by
    refine ⟨hshape.tiles, hshape.usage_le, hshape.intact, hshape.size, fun x hx _ => ?_,
      hshape.aligned, hshape.live, hshape.owned, hshape.kept, hshape.fixed⟩
    by_cases heq : b.addr = x.addr
    · rw [hchunk x hx, if_pos heq, hflag, ← h.tiles.eq_of_addr cfg.sizeof_pos hb hx heq, hall]
    · exact hshape.flag x hx fun hX => heq (or_self_iff.1 hX).symm
  refine ⟨hused, h.linked.congr fun a ha => ?_, h.nodup, h.mem_free⟩
  obtain ⟨x, hx, rfl⟩ := h.mem_of_free ha
  have hne : b.addr ≠ x.addr := fun heq => h.not_mem_free hb hall (heq ▸ ha)
  rw [hchunk x hx, if_neg hne]
  exact ⟨rfl, rfl⟩

/-- The end of an allocation. -/
theorem Repr.handOut (h : Repr cfg (fun a => a = b.addr) L N m s bs fl) (hb : b ∈ bs)
    (hall : b.allocated = true) :
    (s.handOut cfg zone size b.addr).1 = some (b.addr + cfg.sizeofChunk) ∧
      Repr cfg Settled L N m (s.handOut cfg zone size b.addr).2 bs fl := by
  refine ⟨rfl, ?_⟩
  have hused := h.setUsed
    (f := (fun c => { c with zone := zone }) ∘ fun c => { c with allocated := true }) hb hall
    (fun _ => rfl) fun _ => rfl
  rw [← Heap.modify_modify] at hused
  exact hused.setZones _

/-- A new chunk behind the others; its flag is not set yet. -/
theorem Repr.extend (h : Repr cfg Settled L N m s bs fl)
    (hroom : cfg.sizeofChunk + size ≤ cfg.heapmemArenaSize - s.heapUsage)
    (haligned : cfg.heapmemAlignment ∣ size) (hsize : ∀ x, (f x).size = size) :
    L s.heapUsage = none ∧ Repr cfg (fun a => a = s.heapUsage)
      (Function.update L s.heapUsage (some 0)) N m
      ({ s with heapUsage := s.heapUsage + (cfg.sizeofChunk + size) }.modify cfg s.heapUsage f)
      (bs ++ [⟨s.heapUsage, size, true⟩]) fl := by
  have hbefore : ∀ x ∈ bs, x.stop cfg.sizeofChunk ≤ s.heapUsage := fun x hx =>
    (h.tiles.inside hx).2
  have hne : ∀ x ∈ bs, x.addr ≠ s.heapUsage := fun x hx heq => by
    have hle := hbefore x hx
    have hpos := cfg.sizeof_pos
    rw [Block.stop] at hle
    omega
  have hnone : L s.heapUsage = none := by
    cases hL : L s.heapUsage with
    | none => rfl
    | some k =>
        obtain ⟨x, hx, haddr, -⟩ := h.owned _ k hL
        exact absurd haddr (hne x hx)
  refine ⟨hnone, ?_⟩
  generalize hs' : ({ s with heapUsage := s.heapUsage + (cfg.sizeofChunk + size) }.modify cfg
    s.heapUsage f) = s'
  have hcells : ∀ i < s.heapUsage, s'.heapBase i = s.heapBase i := fun i hi => by
    rw [← hs', Heap.heapBase_modify (.inl hi)]
  have hold : ∀ x ∈ bs, s'.chunk cfg x.addr = s.chunk cfg x.addr ∧ s'.Intact cfg x.addr := by
    intro x hx
    refine (h.intact x hx).chunk_eq fun i _ hi => hcells i ?_
    have hle := hbefore x hx
    rw [Block.stop] at hle
    omega
  have hnew : (s'.chunk cfg s.heapUsage).size = size ∧ s'.Intact cfg s.heapUsage := by
    rw [← hs']
    exact ⟨by rw [Heap.chunk_modify_self, hsize], Heap.intact_modify_self _ _ f⟩
  have husage : s'.heapUsage = s.heapUsage + (cfg.sizeofChunk + size) := by
    rw [← hs']
    rfl
  have hfree : s'.freeList = s.freeList := by
    rw [← hs']
    rfl
  have hmem : ∀ x, x ∈ bs ++ [⟨s.heapUsage, size, true⟩] ↔
      x ∈ bs ∨ x = ⟨s.heapUsage, size, true⟩ := fun x => by
    rw [List.mem_append, List.mem_singleton]
  refine ⟨⟨?_, ?_, fun x hx => ?_, fun x hx => ?_, fun x hx hX => ?_, fun hdvd x hx => ?_,
    fun x hx hx' => ?_, fun a k ha => ?_, fun a k ha i hi => ?_, fun a k ha => ?_⟩, ?_, h.nodup,
    fun a => ?_⟩
  · rw [husage, tiles_append]
    exact ⟨s.heapUsage, h.tiles, rfl, Nat.add_assoc _ _ _⟩
  · have hle := h.usage_le
    rw [husage]
    omega
  · rcases (hmem x).1 hx with hx | rfl
    · exact (hold x hx).2
    · exact hnew.2
  · rcases (hmem x).1 hx with hx | rfl
    · rw [(hold x hx).1, h.size x hx]
    · exact hnew.1
  · rcases (hmem x).1 hx with hx | rfl
    · rw [(hold x hx).1, h.flag x hx id]
    · exact absurd rfl hX
  · rcases (hmem x).1 hx with hx | rfl
    · exact h.aligned hdvd x hx
    · exact haligned
  · rcases (hmem x).1 hx with hx | rfl
    · rw [Function.update_of_ne (hne x hx)]
      exact h.live x hx hx'
    · exact ⟨0, Function.update_self ..⟩
  · by_cases heq : a = s.heapUsage
    · subst heq
      rw [Function.update_self] at ha
      obtain rfl := Option.some.inj ha
      exact ⟨_, (hmem _).2 (.inr rfl), rfl, rfl, Nat.zero_le _⟩
    · rw [Function.update_of_ne heq] at ha
      obtain ⟨x, hx, hrest⟩ := h.owned a k ha
      exact ⟨x, (hmem x).2 (.inl hx), hrest⟩
  · by_cases heq : a = s.heapUsage
    · subst heq
      rw [Function.update_self] at ha
      obtain rfl := Option.some.inj ha
      exact absurd hi (Nat.not_lt_zero i)
    · rw [Function.update_of_ne heq] at ha
      obtain ⟨x, hx, rfl, -, hk⟩ := h.owned a k ha
      have hle := hbefore x hx
      rw [Block.stop] at hle
      rw [hcells _ (by omega), h.kept x.addr k ha i hi]
  · obtain ⟨x, hx, hrest⟩ := h.fixed a k ha
    exact ⟨x, (hmem x).2 (.inl hx), hrest⟩
  · rw [hfree]
    refine h.linked.congr fun a ha => ?_
    obtain ⟨x, hx, rfl⟩ := h.mem_of_free ha
    rw [(hold x hx).1]
    exact ⟨rfl, rfl⟩
  · rw [h.mem_free]
    constructor
    · rintro ⟨x, hx, hrest⟩
      exact ⟨x, (hmem x).2 (.inl hx), hrest⟩
    · rintro ⟨x, hx, haddr, hx'⟩
      rcases (hmem x).1 hx with hx | rfl
      · exact ⟨x, hx, haddr, hx'⟩
      · cases hx'

/-! ## Allocation -/

/-- A function that hands out memory hands out a chunk of its own that is large enough, and fails
otherwise; what the owners of other chunks have put there is kept. -/
structure Allocates (cfg : Config) (L N : ℕ → Option ℕ) (m : ℕ → Cell Chunk UInt8) (size : ℕ)
    (result : Option ℕ × Heap) : Prop where
  fails : result.1 = none → ∃ bs fl, Repr cfg Settled L N m result.2 bs fl
  hands : ∀ ptr, result.1 = some ptr → ∃ c, ptr = c + cfg.sizeofChunk ∧ L c = none ∧
    ∃ bs fl, Repr cfg Settled (Function.update L c (some 0)) N m result.2 bs fl ∧
      ∃ b ∈ bs, b.addr = c ∧ b.allocated = true ∧ size ≤ b.size

theorem Repr.heapmemZoneAlloc (h : Repr cfg Settled L N m s bs fl) (zone size : ℕ) :
    Allocates cfg L N m (cfg.align size) (s.heapmemZoneAlloc cfg zone size) := by
  have hsame : Allocates cfg L N m (cfg.align size) (none, s) :=
    ⟨fun _ => ⟨bs, fl, h⟩, fun _ hptr => by cases hptr⟩
  unfold Heap.heapmemZoneAlloc
  split
  · exact hsame
  · split
    · exact hsame
    · dsimp only
      split
      · exact hsame
      · split
        · exact hsame
        · obtain ⟨hnone, hsome⟩ := h.getFreeChunk (cfg.align_align size)
          split
          · next c s₁ hget =>
              obtain ⟨hL, bs₁, fl₁, h₁, b, hb, rfl, hall, hle⟩ := hsome c s₁ hget
              refine ⟨fun hfail => (by cases hfail), fun ptr hptr => ?_⟩
              obtain rfl := Option.some.inj hptr
              exact ⟨b.addr, rfl, hL, bs₁, fl₁, (h₁.handOut hb hall).2, b, hb, rfl, hall, hle⟩
          · next s₁ hget =>
              obtain ⟨bs₁, fl₁, h₁⟩ := hnone s₁ hget
              unfold Heap.extendSpace
              split
              · next s₂ hext =>
                  split at hext
                  · obtain ⟨-, rfl⟩ := Prod.mk.inj hext
                    exact ⟨fun _ => ⟨bs₁, fl₁, h₁⟩, fun _ hptr => by cases hptr⟩
                  · cases hext
              · next c s₂ hext =>
                  split at hext
                  · cases hext
                  · next hroom =>
                      obtain ⟨hc, rfl⟩ := Prod.mk.inj hext
                      obtain rfl := Option.some.inj hc
                      obtain ⟨hL, h₂⟩ := h₁.extend (f := fun c => { c with size := cfg.align size })
                        (Nat.not_lt.1 hroom) (cfg.dvd_align size) fun _ => rfl
                      refine ⟨fun hfail => (by cases hfail), fun ptr hptr => ?_⟩
                      obtain rfl := Option.some.inj hptr
                      have hb : (⟨s₁.heapUsage, cfg.align size, true⟩ : Block) ∈
                          bs₁ ++ [⟨s₁.heapUsage, cfg.align size, true⟩] :=
                        List.mem_append_right _ List.mem_cons_self
                      exact ⟨s₁.heapUsage, rfl, hL, _, fl₁, (h₂.handOut hb rfl).2, _, hb, rfl, rfl,
                        Nat.le_refl _⟩

/-! ## What is regarded as used -/

/-- No size has to stay as it is. -/
def Unfixed : ℕ → Option ℕ := fun _ => none

theorem Repr.refresh (h : Repr cfg X L N m s bs fl) : Repr cfg X L N s.heapBase s bs fl :=
  ⟨⟨h.tiles, h.usage_le, h.intact, h.size, h.flag, h.aligned, h.live, h.owned,
    fun _ _ _ _ _ => rfl, h.fixed⟩, h.linked, h.nodup, h.mem_free⟩

/-- The owner of a chunk uses another part of it from now on. -/
theorem Repr.resize (h : Repr cfg X L N m s bs fl) (hb : b ∈ bs) (hall : b.allocated = true)
    (hk : k ≤ b.size) :
    Repr cfg X (Function.update L b.addr (some k)) N s.heapBase s bs fl := by
  refine ⟨⟨h.tiles, h.usage_le, h.intact, h.size, h.flag, h.aligned, fun x hx hx' => ?_,
    fun a j ha => ?_, fun _ _ _ _ _ => rfl, h.fixed⟩, h.linked, h.nodup, h.mem_free⟩
  · by_cases heq : x.addr = b.addr
    · exact ⟨k, by rw [heq, Function.update_self]⟩
    · rw [Function.update_of_ne heq]
      exact h.live x hx hx'
  · by_cases heq : a = b.addr
    · subst heq
      rw [Function.update_self] at ha
      obtain rfl := Option.some.inj ha
      exact ⟨b, hb, rfl, hall, hk⟩
    · rw [Function.update_of_ne heq] at ha
      exact h.owned a j ha

/-- The size of a chunk has to stay as it is from now on. -/
theorem Repr.fix (h : Repr cfg X L N m s bs fl) (hb : b ∈ bs) (hall : b.allocated = true) :
    Repr cfg X L (Function.update Unfixed b.addr (some b.size)) m s bs fl := by
  refine ⟨⟨h.tiles, h.usage_le, h.intact, h.size, h.flag, h.aligned, h.live, h.owned, h.kept,
    fun a n ha => ?_⟩, h.linked, h.nodup, h.mem_free⟩
  by_cases heq : a = b.addr
  · subst heq
    rw [Function.update_self] at ha
    exact ⟨b, hb, rfl, hall, Option.some.inj ha⟩
  · rw [Function.update_of_ne heq] at ha
    cases ha

theorem Repr.unfix (h : Repr cfg X L N m s bs fl) : Repr cfg X L Unfixed m s bs fl :=
  ⟨⟨h.tiles, h.usage_le, h.intact, h.size, h.flag, h.aligned, h.live, h.owned, h.kept,
    fun _ _ ha => by cases ha⟩, h.linked, h.nodup, h.mem_free⟩

/-- Something is put into a chunk. -/
theorem Repr.write (h : Repr cfg X L N m s bs fl) (s' : Heap) (hb : b ∈ bs)
    (hout : ∀ i, i < b.addr + cfg.sizeofChunk ∨ b.stop cfg.sizeofChunk ≤ i →
      s'.heapBase i = s.heapBase i)
    (husage : s'.heapUsage = s.heapUsage) (hfree : s'.freeList = s.freeList) :
    Repr cfg X L N s'.heapBase s' bs fl ∧ ∀ a k, a ≠ b.addr → L a = some k → ∀ i < k,
      s'.heapBase (a + cfg.sizeofChunk + i) = m (a + cfg.sizeofChunk + i) := by
  have hchunk : ∀ x ∈ bs, s'.chunk cfg x.addr = s.chunk cfg x.addr ∧ s'.Intact cfg x.addr := by
    intro x hx
    refine (h.intact x hx).chunk_eq fun i hle hlt => hout i ?_
    by_cases heq : x.addr = b.addr
    · omega
    · have hapart := h.tiles.apart hb hx (Ne.symm heq)
      rw [Block.stop, Block.stop] at hapart
      rw [Block.stop]
      omega
  refine ⟨⟨⟨husage ▸ h.tiles, husage ▸ h.usage_le, fun x hx => (hchunk x hx).2, fun x hx => ?_,
    fun x hx hX => ?_, h.aligned, h.live, h.owned, fun _ _ _ _ _ => rfl, h.fixed⟩, ?_, h.nodup,
    h.mem_free⟩, fun a k hne ha i hi => ?_⟩
  · rw [(hchunk x hx).1, h.size x hx]
  · rw [(hchunk x hx).1, h.flag x hx hX]
  · rw [hfree]
    refine h.linked.congr fun a ha => ?_
    obtain ⟨x, hx, rfl⟩ := h.mem_of_free ha
    rw [(hchunk x hx).1]
    exact ⟨rfl, rfl⟩
  · rw [← h.kept a k ha i hi]
    obtain ⟨x, hx, rfl, -, hk⟩ := h.owned a k ha
    have hapart := h.tiles.apart hb hx (Ne.symm hne)
    rw [Block.stop, Block.stop] at hapart
    refine hout _ ?_
    rw [Block.stop]
    omega

/-! ## Freeing -/

theorem Repr.heapmemFree (h : Repr cfg Settled L Unfixed m s bs fl) (hb : b ∈ bs)
    (hall : b.allocated = true) :
    (s.heapmemFree cfg (some (b.addr + cfg.sizeofChunk))).1 = true ∧
      ∃ bs' fl', Repr cfg Settled (Function.update L b.addr none) Unfixed m
        (s.heapmemFree cfg (some (b.addr + cfg.sizeofChunk))).2 bs' fl' := by
  have hflag : (s.chunk cfg b.addr).allocated = true := (h.flag b hb id).trans hall
  unfold Heap.heapmemFree
  dsimp only
  rw [Nat.add_sub_cancel, if_pos hflag]
  refine ⟨rfl, ?_⟩
  obtain ⟨l, r, rfl⟩ := List.append_of_mem hb
  obtain ⟨bs', fl', hrepr, -⟩ := (h.setZones _).freeChunk hall rfl
  exact ⟨bs', fl', hrepr.mono fun a ha => ha.1⟩

/-! ## Changing the size -/

/-- A function that changes the size of the chunk at `c` fails and leaves everything to its owners,
or there is a chunk for the new size, at the same place or at one that had no owner, with what was
in the old one. -/
structure Reallocates (cfg : Config) (L : ℕ → Option ℕ) (s : Heap) (c len size : ℕ)
    (result : Option ℕ × Heap) : Prop where
  fails : result.1 = none → ∃ bs fl, Repr cfg Settled L Unfixed s.heapBase result.2 bs fl
  places : ∀ ptr, result.1 = some ptr → ∃ q, ptr = q + cfg.sizeofChunk ∧ (q = c ∨ L q = none) ∧
    (∃ bs fl, Repr cfg Settled (Function.update (Function.update L c none) q (some size)) Unfixed
      result.2.heapBase result.2 bs fl) ∧
    (∀ a k, a ≠ c → L a = some k → ∀ i < k,
      result.2.heapBase (a + cfg.sizeofChunk + i) = s.heapBase (a + cfg.sizeofChunk + i)) ∧
    ∀ i, i < len → i < size →
      result.2.heapBase (q + cfg.sizeofChunk + i) = s.heapBase (c + cfg.sizeofChunk + i)

/-- A heap in which the chunk at `c` is used for the new size. -/
theorem reallocates_of_repr {t : Heap} {len : ℕ} {c : ℕ}
    (h : Repr cfg Settled (Function.update L c (some size)) Unfixed t.heapBase t bs fl)
    (hkeeps : ∀ a k, a ≠ c → L a = some k → ∀ i < k,
      t.heapBase (a + cfg.sizeofChunk + i) = s.heapBase (a + cfg.sizeofChunk + i))
    (hc : ∀ i, i < len → i < size →
      t.heapBase (c + cfg.sizeofChunk + i) = s.heapBase (c + cfg.sizeofChunk + i)) :
    Reallocates cfg L s c len size (some (c + cfg.sizeofChunk), t) := by
  refine ⟨fun hfail => (by cases hfail), fun ptr hptr => ?_⟩
  obtain rfl := Option.some.inj hptr
  refine ⟨c, rfl, .inl rfl, ⟨bs, fl, ?_⟩, hkeeps, hc⟩
  rw [Function.update_idem]
  exact h

/-- What is left of a chunk that is large enough is split off. -/
theorem Repr.reallocates_split (h : Repr cfg Settled L Unfixed s.heapBase s' bs fl) (hb : b ∈ bs)
    (hall : b.allocated = true) (hL : L b.addr = some k) (hsize : cfg.align size ≤ b.size)
    (zone : ℕ) (adj : ℤ) :
    Reallocates cfg L s b.addr k size (some (b.addr + cfg.sizeofChunk),
      (s'.splitChunk cfg b.addr (cfg.align size)).addAllocated cfg zone adj) := by
  have hle := cfg.le_align size
  have hresize := h.resize hb hall (Nat.le_trans hle hsize)
  obtain ⟨l, r, rfl⟩ := List.append_of_mem hb
  obtain ⟨bs', fl', hrepr, -⟩ := hresize.splitChunk hall rfl (cfg.align size) fun j hj => by
    rw [Function.update_self] at hj
    obtain rfl := Option.some.inj hj
    rw [cfg.align_align]
    exact hle
  refine reallocates_of_repr ((hrepr.setZones _).refresh) (fun a j ha hj i hi => ?_)
    fun i hi hi' => ?_
  · have hold : Function.update L b.addr (some size) a = some j := by
      rw [Function.update_of_ne ha, hj]
    exact (hrepr.kept a j hold i hi).trans (h.kept a j hj i hi)
  · exact (hrepr.kept b.addr size (Function.update_self ..) i hi').trans (h.kept b.addr k hL i hi)

/-- The last chunk grows with the part that is used. -/
theorem Repr.growLast (h : Repr cfg Settled L Unfixed m s (l ++ [b]) fl) (hall : b.allocated = true)
    {n : ℕ} (hroom : n ≤ cfg.heapmemArenaSize - s.heapUsage)
    (haligned : cfg.heapmemAlignment ∣ b.size + n) (hsize : ∀ x, (f x).size = b.size + n)
    (hflag : ∀ x, (f x).allocated = x.allocated) :
    Repr cfg Settled L Unfixed m
      ({ s with heapUsage := s.heapUsage + n }.modify cfg b.addr f)
      (l ++ [{ b with size := b.size + n }]) fl := by
  have hb : b ∈ l ++ [b] := List.mem_append_right _ List.mem_cons_self
  obtain ⟨hl, hr⟩ := tiles_middle.1 h.tiles
  have hother : ∀ x ∈ l, x ∈ l ++ [b] ∧ b.addr ≠ x.addr := fun x hx =>
    ⟨List.mem_append_left _ hx,
      (h.tiles.addr_ne cfg.sizeof_pos (List.mem_append_left _ hx)).symm⟩
  have hchunk := fun (x : Block) hx => h.toShape.chunk_modify hb (hx : x ∈ _) f
  have hintact := fun (x : Block) hx => h.toShape.intact_modify hb (hx : x ∈ _) f
  have hmem : ∀ x, x ∈ l ++ [{ b with size := b.size + n }] ↔
      x ∈ l ∨ x = { b with size := b.size + n } := fun x => by
    rw [List.mem_append, List.mem_singleton]
  refine ⟨⟨?_, ?_, fun x hx => ?_, fun x hx => ?_, fun x hx hX => ?_, fun hdvd x hx => ?_,
    fun x hx hx' => ?_, fun a k ha => ?_, fun a k ha i hi => h.kept_modify hb f ha hi,
    fun _ _ ha => (by cases ha)⟩, h.linked.congr fun a ha => ?_, h.nodup, fun a => ?_⟩
  · refine tiles_middle.2 ⟨hl, ?_⟩
    change b.addr + cfg.sizeofChunk + (b.size + n) = s.heapUsage + n
    rw [← show b.addr + cfg.sizeofChunk + b.size = s.heapUsage from hr, Nat.add_assoc _ b.size]
  · have hle := h.usage_le
    change s.heapUsage + n ≤ _
    omega
  · rcases (hmem x).1 hx with hx | rfl
    · exact hintact x (hother x hx).1
    · exact hintact b hb
  · rcases (hmem x).1 hx with hx | rfl
    · refine (congrArg Chunk.size (hchunk x (hother x hx).1)).trans ?_
      rw [if_neg (hother x hx).2, h.size x (hother x hx).1]
    · refine (congrArg Chunk.size (hchunk b hb)).trans ?_
      rw [if_pos rfl, hsize]
  · rcases (hmem x).1 hx with hx | rfl
    · refine (congrArg Chunk.allocated (hchunk x (hother x hx).1)).trans ?_
      rw [if_neg (hother x hx).2, h.flag x (hother x hx).1 hX]
    · refine (congrArg Chunk.allocated (hchunk b hb)).trans ?_
      rw [if_pos rfl, hflag, h.flag b hb hX]
  · rcases (hmem x).1 hx with hx | rfl
    · exact h.aligned hdvd x (hother x hx).1
    · exact haligned
  · rcases (hmem x).1 hx with hx | rfl
    · exact h.live x (hother x hx).1 hx'
    · exact h.live b hb hall
  · obtain ⟨x, hx, rfl, hx', hk⟩ := h.owned a k ha
    rcases List.mem_append.1 hx with hx | hx
    · exact ⟨x, (hmem x).2 (.inl hx), rfl, hx', hk⟩
    · obtain rfl := List.mem_singleton.1 hx
      exact ⟨_, (hmem _).2 (.inr rfl), rfl, hx', Nat.le_trans hk (Nat.le_add_right _ _)⟩
  · obtain ⟨x, hx, rfl⟩ := h.mem_of_free ha
    have hne : b.addr ≠ x.addr := fun heq => h.not_mem_free hb hall (heq ▸ ha)
    have hsame := (hchunk x hx).trans (if_neg hne)
    exact ⟨congrArg Chunk.prev hsame, congrArg Chunk.next hsame⟩
  · rw [h.mem_free]
    constructor
    · rintro ⟨x, hx, rfl, hx'⟩
      rcases List.mem_append.1 hx with hx | hx
      · exact ⟨x, (hmem x).2 (.inl hx), rfl, hx'⟩
      · obtain rfl := List.mem_singleton.1 hx
        rw [hall] at hx'
        cases hx'
    · rintro ⟨x, hx, rfl, hx'⟩
      rcases (hmem x).1 hx with hx | rfl
      · exact ⟨x, (hother x hx).1, rfl, hx'⟩
      · rw [hall] at hx'
        cases hx'

/-- The object is placed elsewhere, and its old chunk is freed. -/
theorem Repr.reallocates_move (h : Repr cfg Settled L Unfixed s.heapBase s' bs fl) (hb : b ∈ bs)
    (hall : b.allocated = true) (hL : L b.addr = some k) (hk : k ≤ b.size)
    (hsize : b.size < cfg.align size) :
    Reallocates cfg L s b.addr k size (s'.moveChunk cfg b.addr (cfg.align size)) := by
  obtain ⟨hfails, hhands⟩ := (h.fix hb hall).heapmemZoneAlloc (s'.chunk cfg b.addr).zone
    (cfg.align size)
  unfold Heap.moveChunk
  split
  · next s₁ halloc =>
      rw [halloc] at hfails
      obtain ⟨bs₁, fl₁, h₁⟩ := hfails rfl
      exact ⟨fun _ => ⟨bs₁, fl₁, h₁.unfix⟩, fun _ hptr => by cases hptr⟩
  · next newptr s₁ halloc =>
      rw [halloc] at hhands
      obtain ⟨q, rfl, hq, bs₁, fl₁, h₁, d, hd, rfl, halld, hled⟩ := hhands newptr rfl
      rw [cfg.align_align] at hled
      obtain ⟨x, hx, hxaddr, hxall, hxsize⟩ := h₁.fixed b.addr b.size (Function.update_self ..)
      have hne : b.addr ≠ d.addr := fun heq => by
        rw [← heq, hL] at hq
        cases hq
      have hlen : (s₁.chunk cfg b.addr).size = b.size := by
        rw [← hxaddr, h₁.size x hx, hxsize]
      dsimp only
      rw [hlen]
      generalize hs₂ : s₁.memcpy (d.addr + cfg.sizeofChunk) (b.addr + cfg.sizeofChunk) b.size = s₂
      have hcells : ∀ i, s₂.heapBase i = if d.addr + cfg.sizeofChunk ≤ i ∧
          i < d.addr + cfg.sizeofChunk + b.size then
            s₁.heapBase (b.addr + cfg.sizeofChunk + (i - (d.addr + cfg.sizeofChunk)))
          else s₁.heapBase i := fun i => by
        rw [← hs₂]
        rfl
      have h₂ := h₁.unfix.write s₂ hd (fun i hi => by
        rw [Block.stop] at hi
        rw [hcells, if_neg]
        omega) (by rw [← hs₂]; rfl) (by rw [← hs₂]; rfl)
      have hfit : size ≤ d.size :=
        Nat.le_trans (cfg.le_align size) hled
      have h₃ := h₂.1.resize hd halld hfit
      rw [Function.update_idem] at h₃
      obtain ⟨l, r, rfl⟩ := List.append_of_mem hx
      obtain ⟨bs₄, fl₄, h₄, -⟩ := h₃.freeChunk hxall rfl
      rw [hxaddr, Function.update_comm hne.symm] at h₄
      refine ⟨fun hfail => (by cases hfail), fun ptr hptr => ?_⟩
      obtain rfl := Option.some.inj hptr
      refine ⟨d.addr, rfl, .inr hq, ⟨bs₄, fl₄, ((h₄.mono fun a ha => ha.1).refresh)⟩,
        fun a j ha hj i hi => ?_, fun i hi hi' => ?_⟩
      · have had : a ≠ d.addr := fun heq => by
          rw [heq, hq] at hj
          cases hj
        have hnew : Function.update (Function.update L b.addr none) d.addr (some size) a =
            some j := by
          rw [Function.update_of_ne had, Function.update_of_ne ha, hj]
        refine (h₄.kept a j hnew i hi).trans (h₂.2 a j had ?_ i hi)
        rw [Function.update_of_ne had, hj]
      · refine (h₄.kept d.addr size (Function.update_self ..) i hi').trans ?_
        rw [hcells, if_pos ⟨Nat.le_add_right _ _, by omega⟩, Nat.add_sub_cancel_left]
        refine h₁.kept b.addr k ?_ i hi
        rw [Function.update_of_ne hne, hL]

theorem Repr.heapmemRealloc (h : Repr cfg Settled L Unfixed s.heapBase s bs fl) (hb : b ∈ bs)
    (hall : b.allocated = true) (hL : L b.addr = some k) (hsize : size ≠ 0) :
    Reallocates cfg L s b.addr k size
      (s.heapmemRealloc cfg (some (b.addr + cfg.sizeofChunk)) size) := by
  have hflag : (s.chunk cfg b.addr).allocated = true := (h.flag b hb id).trans hall
  obtain ⟨b', hb', haddr, -, hk⟩ := h.owned b.addr k hL
  rw [h.tiles.eq_of_addr cfg.sizeof_pos hb' hb haddr] at hk
  obtain ⟨l, r, rfl⟩ := List.append_of_mem hb
  unfold Heap.heapmemRealloc
  by_cases harena : cfg.heapmemArenaSize < size
  · rw [if_pos harena]
    exact ⟨fun _ => ⟨_, fl, h⟩, fun _ hptr => by cases hptr⟩
  · rw [if_neg harena]
    dsimp only
    rw [if_neg hsize, Nat.add_sub_cancel, if_pos hflag, h.size b hb]
    split
    · next hadj => exact h.reallocates_split hb hall hL (by omega) _ _
    · next hadj =>
        have hlarge : b.size < cfg.align size := by omega
        split
        · next hlast =>
            have hstop := (h.isLastChunk_iff hb).1 hlast
            obtain ⟨-, hr⟩ := tiles_middle.1 h.tiles
            rw [hstop] at hr
            obtain rfl := hr.eq_nil cfg.sizeof_pos
            have hgrown : b.size + ((cfg.align size : ℤ) - b.size).toNat = cfg.align size := by
              omega
            unfold Heap.extendSpace
            split
            · next c s₁ hext =>
                split at hext
                · cases hext
                · next hroom =>
                    obtain ⟨-, rfl⟩ := Prod.mk.inj hext
                    have hgrow := h.growLast (f := fun c => { c with size := cfg.align size }) hall
                      (Nat.not_lt.1 hroom) (by rw [hgrown]; exact cfg.dvd_align size)
                      (fun _ => hgrown.symm) fun _ => rfl
                    have hfit : size ≤ b.size + ((cfg.align size : ℤ) - b.size).toNat := by
                      rw [hgrown]
                      exact cfg.le_align size
                    have hresize := hgrow.resize (List.mem_append_right _ List.mem_cons_self) hall
                      hfit
                    exact reallocates_of_repr (hresize.setZones _)
                      (fun a j _ hj i hi => hgrow.kept a j hj i hi)
                      fun i hi _ => hgrow.kept b.addr k hL i hi
            · next s₁ hext =>
                split at hext
                · obtain ⟨-, rfl⟩ := Prod.mk.inj hext
                  exact h.reallocates_move hb hall hL hk hlarge
                · cases hext
        · obtain ⟨b₁, r₁, fl₁, h₁, haddr₁, hall₁, hle, -⟩ := h.coalesceChunks rfl
          have hb₁ : b₁ ∈ l ++ b₁ :: r₁ := mem_middle.2 (.inl rfl)
          have hsize₁ : ((s.coalesceChunks cfg b.addr).chunk cfg b.addr).size = b₁.size := by
            have hchunk := h₁.size b₁ hb₁
            rwa [haddr₁] at hchunk
          have hL₁ : L b₁.addr = some k := by rw [haddr₁, hL]
          rw [hsize₁]
          split
          · next hfit =>
              have hsplit := h₁.reallocates_split hb₁ (hall₁.trans hall) hL₁ hfit
              rw [haddr₁] at hsplit
              exact hsplit _ _
          · next hfit =>
              have hmove := h₁.reallocates_move hb₁ (hall₁.trans hall) hL₁ (Nat.le_trans hk hle)
                (Nat.not_le.1 hfit)
              rwa [haddr₁] at hmove

end Den2ne.HeapMem
