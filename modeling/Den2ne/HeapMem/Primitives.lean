import Den2ne.HeapMem.Tiling

/-!
# What the primitives do to the chunks

One specification for each of the functions that change headers: which chunks there are afterwards,
and that the free list and what the owners have put into their chunks is kept.
-/

namespace Den2ne.HeapMem

open Memory Pointers

variable {cfg : Config} {X X' : ℕ → Prop} {L L' N : ℕ → Option ℕ} {m : ℕ → Cell Chunk UInt8}
  {s s' : Heap} {bs l r : List Block} {fl : List ℕ} {b b' : Block} {a c k i : ℕ} {p : Option ℕ}
  {f : Chunk → Chunk}

/-! ## Writes through a pointer -/

theorem Shape.chunk_modifyPtr (h : Shape cfg X L N m s bs)
    (hp : ∀ a, p = some a → ∃ b ∈ bs, b.addr = a) (hb : b ∈ bs) (f : Chunk → Chunk) :
    (s.modifyPtr cfg p f).chunk cfg b.addr =
      if p = some b.addr then f (s.chunk cfg b.addr) else s.chunk cfg b.addr := by
  cases p with
  | none => rfl
  | some a =>
      obtain ⟨b', hb', rfl⟩ := hp a rfl
      rw [Heap.modifyPtr, h.chunk_modify hb' hb f]
      exact if_congr Option.some_inj.symm rfl rfl

theorem Shape.modifyPtr (h : Shape cfg X L N m s bs)
    (hp : ∀ a, p = some a → ∃ b ∈ bs, b.addr = a)
    (hf : ∀ x, (f x).size = x.size ∧ (f x).allocated = x.allocated) :
    Shape cfg X L N m (s.modifyPtr cfg p f) bs := by
  cases p with
  | none => exact h
  | some a =>
      obtain ⟨b, hb, rfl⟩ := hp a rfl
      exact h.modify hb hf

@[simp] theorem Heap.freeList_modifyPtr (s : Heap) (p : Option ℕ) (f : Chunk → Chunk) :
    (s.modifyPtr cfg p f).freeList = s.freeList := by cases p <;> rfl

@[simp] theorem Heap.heapUsage_modifyPtr (s : Heap) (p : Option ℕ) (f : Chunk → Chunk) :
    (s.modifyPtr cfg p f).heapUsage = s.heapUsage := by cases p <;> rfl

@[simp] theorem Heap.heapUsage_removeChunk (s : Heap) (c : ℕ) :
    (s.removeChunkFromFreeList cfg c).heapUsage = s.heapUsage := by
  unfold Heap.removeChunkFromFreeList
  split <;> simp only [Heap.heapUsage_modifyPtr]

/-! ## The chunk behind -/

theorem Shape.nextChunk (h : Shape cfg X L N m s bs) (hb : b ∈ bs) :
    s.nextChunk cfg b.addr = b.stop cfg.sizeofChunk := by
  rw [Heap.nextChunk, h.size b hb, Block.stop]

theorem Shape.isLastChunk_iff (h : Shape cfg X L N m s bs) (hb : b ∈ bs) :
    s.IsLastChunk cfg b.addr ↔ b.stop cfg.sizeofChunk = s.heapUsage := by
  rw [Heap.IsLastChunk, h.nextChunk hb]

/-! ## Out of the free list -/

/-- The cell is taken out of the list; of the headers only links change. -/
theorem Repr.removeChunk (h : Repr cfg X L N m s bs fl) (hc : c ∈ fl) :
    Shape cfg X L N m (s.removeChunkFromFreeList cfg c) bs ∧
      Double (fun a => ((s.removeChunkFromFreeList cfg c).chunk cfg a).prev)
        (fun a => ((s.removeChunkFromFreeList cfg c).chunk cfg a).next) none
        (s.removeChunkFromFreeList cfg c).freeList (fl.erase c) := by
  obtain ⟨l, r, rfl⟩ := List.append_of_mem hc
  have hnodup := h.nodup
  have hcl : c ∉ l := fun hmem =>
    (List.nodup_append.1 hnodup).2.2 c hmem c List.mem_cons_self rfl
  have hcr : c ∉ r := (List.nodup_cons.1 (List.nodup_append.1 hnodup).2.1).1
  rw [List.erase_append_right _ hcl, List.erase_cons_head]
  have hprev : (s.chunk cfg c).prev = l.getLast? := by
    rw [← Option.or_none (o := l.getLast?)]
    exact h.linked.prev_eq
  have hnext : (s.chunk cfg c).next = r.head? := h.linked.next_eq
  have haddr : ∀ a ∈ l ++ c :: r, ∃ b ∈ bs, b.addr = a := fun a ha => h.mem_of_free ha
  have hhead : s.freeList = (l ++ c :: r).head? := h.linked.head?
  have hnextSelf : (s.chunk cfg c).next ≠ some c := fun heq =>
    hcr (List.mem_of_mem_head? (hnext.symm.trans heq))
  have hprevSelf : (s.chunk cfg c).prev ≠ some c := fun heq =>
    hcl (List.mem_of_getLast? (hprev.symm.trans heq))
  have hnextMem : ∀ a, (s.chunk cfg c).next = some a → ∃ b ∈ bs, b.addr = a := fun a ha =>
    haddr a (List.mem_append_right l
      (List.mem_cons_of_mem c (List.mem_of_mem_head? (hnext.symm.trans ha))))
  have hprevMem : ∀ a, (s.chunk cfg c).prev = some a → ∃ b ∈ bs, b.addr = a := fun a ha =>
    haddr a (List.mem_append_left _ (List.mem_of_getLast? (hprev.symm.trans ha)))
  obtain ⟨b, hb, rfl⟩ := haddr c (List.mem_append_right l List.mem_cons_self)
  have hremove : ∀ s₁ s₂ : Heap, Shape cfg X L N m s₁ bs →
      s₁.chunk cfg b.addr = s.chunk cfg b.addr →
      (∀ b' ∈ bs, (s₁.chunk cfg b'.addr).next =
        if (s.chunk cfg b.addr).prev = some b'.addr then (s.chunk cfg b.addr).next
        else (s.chunk cfg b'.addr).next) →
      (∀ b' ∈ bs, (s.chunk cfg b.addr).next ≠ some b'.addr →
        (s₁.chunk cfg b'.addr).prev = (s.chunk cfg b'.addr).prev) →
      s₁.freeList = (if l = [] then (s.chunk cfg b.addr).next else s.freeList) →
      s₂ = (s₁.modifyPtr cfg (s₁.chunk cfg b.addr).next fun c =>
          { c with prev := (s₁.chunk cfg b.addr).prev }) →
      Shape cfg X L N m s₂ bs ∧
        Double (fun a => (s₂.chunk cfg a).prev) (fun a => (s₂.chunk cfg a).next) none
          s₂.freeList (l ++ r) := by
    rintro s₁ s₂ h₁ hself hnext₁ hprev₁ hfree rfl
    rw [hself]
    refine ⟨h₁.modifyPtr hnextMem fun _ => ⟨rfl, rfl⟩, ?_⟩
    rw [Heap.freeList_modifyPtr, hfree]
    have hchunk := fun b' hb' => h₁.chunk_modifyPtr (b := b') hnextMem hb'
      fun c => { c with prev := (s.chunk cfg b.addr).prev }
    have hmem : ∀ a ∈ l ++ r, ∃ b' ∈ bs, b'.addr = a := fun a ha =>
      haddr a (List.mem_append.2 ((List.mem_append.1 ha).imp_right (List.mem_cons_of_mem _)))
    refine h.linked.remove hnodup (fun y hy => by cases hy) (fun y hy => ?_) fun y hy => ?_
    · obtain ⟨b', hb', rfl⟩ := hmem y hy
      rw [hchunk b' hb', ← hnext₁ b' hb']
      split <;> rfl
    · obtain ⟨b', hb', rfl⟩ := hmem y hy
      rw [hchunk b' hb']
      split
      · rfl
      · next hne => exact hprev₁ b' hb' hne
  unfold Heap.removeChunkFromFreeList
  dsimp only
  by_cases hl : l = []
  · subst hl
    have hfirst : s.freeList = some b.addr := hhead
    have hnone : (s.chunk cfg b.addr).prev = none := hprev
    have h₀ := h.toShape.setFreeList (s.chunk cfg b.addr).next
    have hchunk := fun b' hb' => h₀.chunk_modifyPtr (b := b') hnextMem hb'
      fun c => { c with prev := none }
    have h₁ := h₀.modifyPtr (f := fun c => { c with prev := none }) hnextMem fun _ => ⟨rfl, rfl⟩
    rw [if_pos hfirst]
    refine hremove _ _ h₁ ?_ (fun b' hb' => ?_) (fun b' hb' hne => ?_) ?_ rfl
    · rw [hchunk b hb, if_neg hnextSelf]
      rfl
    · rw [hnone, if_neg (fun heq => by cases heq), hchunk b' hb']
      split <;> rfl
    · rw [hchunk b' hb', if_neg hne]
      rfl
    · rw [Heap.freeList_modifyPtr, if_pos rfl]
  · have hfirst : s.freeList ≠ some b.addr := by
      obtain ⟨x, l, rfl⟩ := List.exists_cons_of_ne_nil hl
      rw [hhead]
      intro heq
      exact hcl (Option.some.inj heq ▸ List.mem_cons_self)
    have hchunk := fun b' hb' => h.toShape.chunk_modifyPtr (b := b') hprevMem hb'
      fun c => { c with next := (s.chunk cfg b.addr).next }
    have h₁ := h.toShape.modifyPtr
      (f := fun c => { c with next := (s.chunk cfg b.addr).next }) hprevMem fun _ => ⟨rfl, rfl⟩
    rw [if_neg hfirst]
    refine hremove _ _ h₁ ?_ (fun b' hb' => ?_) (fun b' hb' hne => ?_) ?_ rfl
    · rw [hchunk b hb, if_neg hprevSelf]
    · rw [hchunk b' hb']
      split <;> rfl
    · rw [hchunk b' hb']
      split <;> rfl
    · rw [Heap.freeList_modifyPtr, if_neg hl]

/-! ## One chunk -/

/-- A header is written without its size, and its flag does not count. -/
theorem Shape.modify_exempt (h : Shape cfg X L N m s bs) (hb : b ∈ bs)
    (hf : ∀ x, (f x).size = x.size) :
    Shape cfg (fun a => X a ∨ a = b.addr) L N m (s.modify cfg b.addr f) bs where
  tiles := h.tiles
  usage_le := h.usage_le
  intact b' hb' := h.intact_modify hb hb' f
  size b' hb' := by
    rw [h.chunk_modify hb hb' f]
    split
    · rw [hf, h.size b' hb']
    · exact h.size b' hb'
  flag b' hb' hX := by
    rw [h.chunk_modify hb hb' f, if_neg fun heq => hX (.inr heq.symm)]
    exact h.flag b' hb' fun hX' => hX (.inl hX')
  aligned := h.aligned
  live := h.live
  owned := h.owned
  kept _ _ ha _ hi := h.kept_modify hb f ha hi
  fixed := h.fixed

/-- A chunk is seen in another way. -/
theorem Shape.replace (h : Shape cfg X L N m s (l ++ b :: r)) (haddr : b'.addr = b.addr)
    (hsize : b'.size = b.size) (hX : ∀ a, a ≠ b.addr → X a → X' a)
    (hflag : ¬ X' b.addr → (s.chunk cfg b.addr).allocated = b'.allocated)
    (hL : ∀ a, a ≠ b.addr → L' a = L a) (hfree : b'.allocated = false → L' b.addr = none)
    (hlive : b'.allocated = true → ∃ k, L' b.addr = some k)
    (hkept : ∀ k, L' b.addr = some k → k ≤ b.size ∧ ∀ i < k,
      s.heapBase (b.addr + cfg.sizeofChunk + i) = m (b.addr + cfg.sizeofChunk + i))
    (hfixed : ∀ n, N b.addr = some n → b'.allocated = true) :
    Shape cfg X' L' N m s (l ++ b' :: r) := by
  have hb : b ∈ l ++ b :: r := mem_middle.2 (.inl rfl)
  have hother : ∀ x ∈ l ++ r, x ∈ l ++ b :: r ∧ x.addr ≠ b.addr := fun x hx =>
    ⟨mem_middle.2 (.inr hx), h.tiles.addr_ne cfg.sizeof_pos hx⟩
  refine ⟨?_, h.usage_le, fun x hx => ?_, fun x hx => ?_, fun x hx hX' => ?_, fun hdvd x hx => ?_,
    fun x hx hx' => ?_, fun a k ha => ?_, fun a k ha i hi => ?_, fun a n ha => ?_⟩
  · obtain ⟨hl, hr⟩ := tiles_middle.1 h.tiles
    rw [tiles_middle, haddr, Block.stop, haddr, hsize]
    exact ⟨hl, hr⟩
  · rcases mem_middle.1 hx with rfl | hx
    · rw [haddr]
      exact h.intact b hb
    · exact h.intact x (hother x hx).1
  · rcases mem_middle.1 hx with rfl | hx
    · rw [haddr, hsize]
      exact h.size b hb
    · exact h.size x (hother x hx).1
  · rcases mem_middle.1 hx with rfl | hx
    · rw [haddr] at hX' ⊢
      exact hflag hX'
    · exact h.flag x (hother x hx).1 fun hXx => hX' (hX x.addr (hother x hx).2 hXx)
  · rcases mem_middle.1 hx with rfl | hx
    · rw [hsize]
      exact h.aligned hdvd b hb
    · exact h.aligned hdvd x (hother x hx).1
  · rcases mem_middle.1 hx with rfl | hx
    · rw [haddr]
      exact hlive hx'
    · rw [hL x.addr (hother x hx).2]
      exact h.live x (hother x hx).1 hx'
  · by_cases heq : a = b.addr
    · subst heq
      refine ⟨b', mem_middle.2 (.inl rfl), haddr, ?_, hsize ▸ (hkept k ha).1⟩
      cases hall : b'.allocated with
      | true => rfl
      | false =>
          rw [hfree hall] at ha
          cases ha
    · rw [hL a heq] at ha
      obtain ⟨x, hx, rfl, hx', hk⟩ := h.owned a k ha
      rcases mem_middle.1 hx with rfl | hx
      · exact absurd rfl heq
      · exact ⟨x, mem_middle.2 (.inr hx), rfl, hx', hk⟩
  · by_cases heq : a = b.addr
    · subst heq
      exact (hkept k ha).2 i hi
    · rw [hL a heq] at ha
      exact h.kept a k ha i hi
  · obtain ⟨x, hx, rfl, hx', hn⟩ := h.fixed a n ha
    rcases mem_middle.1 hx with rfl | hx
    · exact ⟨b', mem_middle.2 (.inl rfl), haddr, hfixed n ha, hsize.trans hn⟩
    · exact ⟨x, mem_middle.2 (.inr hx), rfl, hx', hn⟩

theorem Shape.not_allocated (h : Shape cfg X L N m s bs) {P : Block → Prop} (hb : b ∈ bs)
    (hfree : b.allocated = false) :
    ¬ ∃ b' ∈ bs, b'.addr = b.addr ∧ b'.allocated = true ∧ P b' := by
  rintro ⟨b', hb', haddr, hall, -⟩
  rw [h.tiles.eq_of_addr cfg.sizeof_pos hb' hb haddr, hfree] at hall
  cases hall

/-- A chunk that is not allocated has no owner. -/
theorem Shape.not_owned (h : Shape cfg X L N m s bs) (hb : b ∈ bs) (hfree : b.allocated = false) :
    L b.addr = none :=
  Option.eq_none_iff_forall_ne_some.2 fun k hk => h.not_allocated hb hfree (h.owned b.addr k hk)

theorem Shape.not_fixed (h : Shape cfg X L N m s bs) (hb : b ∈ bs) (hfree : b.allocated = false) :
    N b.addr = none :=
  Option.eq_none_iff_forall_ne_some.2 fun n hn => h.not_allocated hb hfree (h.fixed b.addr n hn)

theorem Repr.not_mem_free (h : Repr cfg X L N m s bs fl) (hb : b ∈ bs) (hall : b.allocated = true) :
    b.addr ∉ fl := by
  intro hmem
  obtain ⟨b', hb', haddr, hfree⟩ := (h.mem_free b.addr).1 hmem
  rw [h.tiles.eq_of_addr cfg.sizeof_pos hb' hb haddr, hall] at hfree
  cases hfree

/-- A chunk is taken out of the free list; its flag is not set yet. -/
theorem Repr.take (h : Repr cfg X L N m s (l ++ b :: r) fl) (hfree : b.allocated = false) :
    Repr cfg (fun a => X a ∨ a = b.addr) (Function.update L b.addr (some 0)) N m
      (s.removeChunkFromFreeList cfg b.addr) (l ++ { b with allocated := true } :: r)
      (fl.erase b.addr) := by
  have hb : b ∈ l ++ b :: r := mem_middle.2 (.inl rfl)
  have hc : b.addr ∈ fl := (h.mem_free b.addr).2 ⟨b, hb, rfl, hfree⟩
  obtain ⟨hshape, hlinked⟩ := h.removeChunk hc
  refine ⟨hshape.replace rfl rfl (fun a _ => .inl) (fun hX => absurd (.inr rfl) hX)
    (fun a ha => Function.update_of_ne ha _ _) (fun hall => by cases hall)
    (fun _ => ⟨0, Function.update_self ..⟩) (fun k hk => ?_) fun _ _ => rfl, hlinked,
    h.nodup.erase _, fun a => ?_⟩
  · rw [Function.update_self] at hk
    obtain rfl := Option.some.inj hk
    exact ⟨Nat.zero_le _, fun i hi => absurd hi (Nat.not_lt_zero i)⟩
  · rw [h.nodup.mem_erase_iff, h.mem_free]
    constructor
    · rintro ⟨hne, x, hx, rfl, hx'⟩
      rcases mem_middle.1 hx with rfl | hx
      · exact absurd rfl hne
      · exact ⟨x, mem_middle.2 (.inr hx), rfl, hx'⟩
    · rintro ⟨x, hx, rfl, hx'⟩
      rcases mem_middle.1 hx with rfl | hx
      · cases hx'
      · exact ⟨h.tiles.addr_ne cfg.sizeof_pos hx, x, mem_middle.2 (.inr hx), rfl, hx'⟩

/-! ## To the free list -/

/-- The chunk is free, or not part of the heap any more; the others are as they were. -/
theorem Repr.freeChunk (h : Repr cfg X L N m s (l ++ b :: r) fl) (hall : b.allocated = true)
    (hN : N b.addr = none) :
    ∃ bs' fl', Repr cfg (fun a => X a ∧ a ≠ b.addr) (Function.update L b.addr none) N m
      (s.freeChunk cfg b.addr) bs' fl' ∧ ∀ x ∈ l ++ r, x ∈ bs' := by
  have hb : b ∈ l ++ b :: r := mem_middle.2 (.inl rfl)
  have hc := h.not_mem_free hb hall
  have hmem : ∀ a ∈ fl, ∃ x ∈ l ++ b :: r, x.addr = a := fun a ha => h.mem_of_free ha
  have h₁ := h.toShape.modify_exempt (f := fun c => { c with allocated := false }) hb fun _ => rfl
  have hchunk₁ := fun (x : Block) hx => h.toShape.chunk_modify hb (hx : x ∈ _)
    fun c => { c with allocated := false }
  have hother : ∀ x ∈ l ++ r, x ∈ l ++ b :: r ∧ x.addr ≠ b.addr := fun x hx =>
    ⟨mem_middle.2 (.inr hx), h.tiles.addr_ne cfg.sizeof_pos hx⟩
  have hsame₁ : ∀ a ∈ fl, (s.modify cfg b.addr fun c => { c with allocated := false }).chunk cfg a =
      s.chunk cfg a := fun a ha => by
    obtain ⟨x, hx, rfl⟩ := hmem a ha
    rw [hchunk₁ x hx, if_neg]
    intro heq
    rw [heq] at hc
    exact hc ha
  generalize hs₁ : (s.modify cfg b.addr fun c => { c with allocated := false }) = s₁
    at h₁ hchunk₁ hsame₁
  have hfree₁ : s₁.freeList = s.freeList := by rw [← hs₁]; rfl
  have husage₁ : s₁.heapUsage = s.heapUsage := by rw [← hs₁]; rfl
  have hlinked₁ : Double (fun a => (s₁.chunk cfg a).prev) (fun a => (s₁.chunk cfg a).next) none
      s₁.freeList fl := by
    rw [hfree₁]
    refine h.linked.congr fun a ha => ?_
    rw [hsame₁ a ha]
    exact ⟨rfl, rfl⟩
  have hsize₁ := h₁.size b hb
  have hflag₁ : (s₁.chunk cfg b.addr).allocated = false := by rw [hchunk₁ b hb, if_pos rfl]
  obtain ⟨hl, hr⟩ := tiles_middle.1 h₁.tiles
  unfold Heap.freeChunk
  rw [hs₁]
  dsimp only
  by_cases hlast : s₁.IsLastChunk cfg b.addr
  · rw [if_pos hlast]
    have hstop := (h₁.isLastChunk_iff hb).1 hlast
    rw [hstop] at hr
    obtain rfl := hr.eq_nil cfg.sizeof_pos
    have husage : s₁.heapUsage - (cfg.sizeofChunk + (s₁.chunk cfg b.addr).size) = b.addr := by
      rw [← hstop, hsize₁, Block.stop]
      omega
    rw [husage]
    refine ⟨l, fl, ⟨⟨hl, ?_, fun x hx => ?_, fun x hx => ?_, fun x hx hX' => ?_,
      fun hdvd x hx => ?_,
      fun x hx hx' => ?_, fun a k ha => ?_, fun a k ha => ?_, fun a n ha => ?_⟩, hlinked₁, h.nodup,
      fun a => ?_⟩, fun x hx => by rwa [List.append_nil] at hx⟩
    · have hle := h₁.usage_le
      rw [← hstop, Block.stop] at hle
      exact Nat.le_trans (Nat.le_add_right _ _) (Nat.le_trans (Nat.le_add_right _ _) hle)
    · exact h₁.intact x (List.mem_append_left _ hx)
    · exact h₁.size x (List.mem_append_left _ hx)
    · refine h₁.flag x (List.mem_append_left _ hx) fun hXx => ?_
      have hne := (hother x (List.mem_append_left _ hx)).2
      exact hX' ⟨hXx.resolve_right hne, hne⟩
    · exact h₁.aligned hdvd x (List.mem_append_left _ hx)
    · rw [Function.update_of_ne (hother x (List.mem_append_left _ hx)).2]
      exact h₁.live x (List.mem_append_left _ hx) hx'
    · by_cases heq : a = b.addr
      · subst heq
        rw [Function.update_self] at ha
        cases ha
      · rw [Function.update_of_ne heq] at ha
        obtain ⟨x, hx, rfl, hrest⟩ := h₁.owned a k ha
        rcases mem_middle.1 hx with rfl | hx
        · exact absurd rfl heq
        · rw [List.append_nil] at hx
          exact ⟨x, hx, rfl, hrest⟩
    · by_cases heq : a = b.addr
      · subst heq
        rw [Function.update_self] at ha
        cases ha
      · rw [Function.update_of_ne heq] at ha
        exact h₁.kept a k ha
    · obtain ⟨x, hx, rfl, hrest⟩ := h₁.fixed a n ha
      rcases mem_middle.1 hx with rfl | hx
      · rw [hN] at ha
        cases ha
      · rw [List.append_nil] at hx
        exact ⟨x, hx, rfl, hrest⟩
    · rw [h.mem_free]
      constructor
      · rintro ⟨x, hx, rfl, hx'⟩
        rcases mem_middle.1 hx with rfl | hx
        · rw [hall] at hx'
          cases hx'
        · rw [List.append_nil] at hx
          exact ⟨x, hx, rfl, hx'⟩
      · rintro ⟨x, hx, rfl, hx'⟩
        exact ⟨x, List.mem_append_left _ hx, rfl, hx'⟩
  · rw [if_neg hlast]
    have hhead : ∀ a, s₁.freeList = some a → a ∈ fl := fun a ha =>
      List.mem_of_mem_head? (hlinked₁.head?.symm.trans ha)
    have hheadMem : ∀ a, s₁.freeList = some a → ∃ x ∈ l ++ b :: r, x.addr = a := fun a ha =>
      hmem a (hhead a ha)
    have hself : s₁.freeList ≠ some b.addr := fun heq => hc (hhead b.addr heq)
    have h₂ := h₁.modify (f := fun c => { c with prev := none, next := s₁.freeList }) hb
      fun _ => ⟨rfl, rfl⟩
    have hchunk₂ := fun (x : Block) hx => h₁.chunk_modify hb (hx : x ∈ _)
      fun c => { c with prev := none, next := s₁.freeList }
    have h₃ := h₂.modifyPtr (f := fun c => { c with prev := some b.addr }) hheadMem
      fun _ => ⟨rfl, rfl⟩
    have hchunk₃ := fun x hx => h₂.chunk_modifyPtr (b := x) hheadMem hx
      fun c => { c with prev := some b.addr }
    have hself₃ : ((s₁.modify cfg b.addr fun c =>
        { c with prev := none, next := s₁.freeList }).modifyPtr cfg s₁.freeList fun c =>
          { c with prev := some b.addr }).chunk cfg b.addr =
        { s₁.chunk cfg b.addr with prev := none, next := s₁.freeList } := by
      rw [hchunk₃ b hb, if_neg hself, hchunk₂ b hb, if_pos rfl]
    have h₄ : Shape cfg (fun a => X a ∧ a ≠ b.addr) (Function.update L b.addr none) N m _
        (l ++ { b with allocated := false } :: r) :=
      h₃.replace rfl rfl (fun a ha hXa => ⟨hXa.resolve_right ha, ha⟩)
        (fun _ => (congrArg Chunk.allocated hself₃).trans hflag₁)
        (fun a ha => Function.update_of_ne ha _ _) (fun _ => Function.update_self ..)
        (fun hall' => by cases hall') (fun k hk => by
          rw [Function.update_self] at hk
          cases hk) (fun n hn => by
          rw [hN] at hn
          cases hn)
    refine ⟨l ++ { b with allocated := false } :: r, b.addr :: fl,
      ⟨h₄.setFreeList (some b.addr), ?_, ?_, fun a => ?_⟩, fun x hx => mem_middle.2 (.inr hx)⟩
    · refine hlinked₁.push h.nodup ?_ ?_ (fun y hy => ?_) fun y hy => ?_
      · exact congrArg Chunk.prev hself₃
      · exact congrArg Chunk.next hself₃
      · obtain ⟨x, hx, rfl⟩ := hheadMem y hy
        exact congrArg Chunk.prev ((hchunk₃ x hx).trans (if_pos hy))
      · obtain ⟨x, hx, rfl⟩ := hmem y hy
        have hne : b.addr ≠ x.addr := fun heq => hc (heq ▸ hy)
        have hx₂ := (hchunk₂ x hx).trans (if_neg hne)
        refine ⟨fun hother => ?_, ?_⟩
        · exact congrArg Chunk.prev (((hchunk₃ x hx).trans (if_neg hother)).trans hx₂)
        · refine (congrArg Chunk.next (hchunk₃ x hx)).trans ?_
          rw [← hx₂]
          split <;> rfl
    · exact List.nodup_cons.2 ⟨hc, h.nodup⟩
    · rw [List.mem_cons, h.mem_free]
      constructor
      · rintro (rfl | ⟨x, hx, rfl, hx'⟩)
        · exact ⟨_, mem_middle.2 (.inl rfl), rfl, rfl⟩
        · rcases mem_middle.1 hx with rfl | hx
          · rw [hall] at hx'
            cases hx'
          · exact ⟨x, mem_middle.2 (.inr hx), rfl, hx'⟩
      · rintro ⟨x, hx, rfl, hx'⟩
        rcases mem_middle.1 hx with rfl | hx
        · exact .inl rfl
        · exact .inr ⟨x, mem_middle.2 (.inr hx), rfl, hx'⟩

/-! ## Splitting -/

theorem Heap.modifyPtr_modify_comm (s : Heap) {g : Chunk → Chunk}
    (hapart : ∀ a, p = some a → c + cfg.sizeofChunk ≤ a ∨ a + cfg.sizeofChunk ≤ c) :
    (s.modify cfg c f).modifyPtr cfg p g = (s.modifyPtr cfg p g).modify cfg c f := by
  cases p with
  | none => rfl
  | some a => exact s.modify_comm f g (hapart a rfl)

/-- A header that the function does not meet may as well be written before. -/
theorem Heap.freeChunk_modify_comm (s : Heap)
    (hapart : c + cfg.sizeofChunk ≤ a ∨ a + cfg.sizeofChunk ≤ c)
    (hfree : ∀ x, s.freeList = some x → c + cfg.sizeofChunk ≤ x ∨ x + cfg.sizeofChunk ≤ c) :
    (s.freeChunk cfg a).modify cfg c f = (s.modify cfg c f).freeChunk cfg a := by
  have hfirst := s.modify_comm f (fun x => { x with allocated := false }) hapart
  have hchunk := (s.modify cfg a fun x => { x with allocated := false }).chunk_modify_of_apart f
    hapart
  have hlast : ((s.modify cfg a fun x => { x with allocated := false }).modify cfg c f).IsLastChunk
      cfg a ↔ (s.modify cfg a fun x => { x with allocated := false }).IsLastChunk cfg a := by
    rw [Heap.IsLastChunk, Heap.nextChunk, hchunk]
    exact Iff.rfl
  unfold Heap.freeChunk
  dsimp only
  rw [hfirst]
  by_cases h : (s.modify cfg a fun x => { x with allocated := false }).IsLastChunk cfg a
  · rw [if_pos h, if_pos (hlast.2 h), hchunk]
    rfl
  · rw [if_neg h, if_neg fun h' => h (hlast.1 h')]
    have hlist : (s.modify cfg a fun x => { x with allocated := false }).freeList =
        s.freeList := rfl
    generalize (s.modify cfg a fun x => { x with allocated := false }) = s₁ at hlist
    rw [← hlist] at hfree
    have hsecond := s₁.modify_comm f (fun x => { x with prev := none, next := s₁.freeList }) hapart
    have hthird := (s₁.modify cfg a fun x =>
      { x with prev := none, next := s₁.freeList }).modifyPtr_modify_comm (f := f)
      (g := fun x => { x with prev := some a }) hfree
    rw [← hsecond] at hthird
    exact congrArg (fun t : Heap => { t with freeList := some a }) hthird.symm

/-- The chunk is written that the rest of a larger one becomes. -/
theorem Repr.carve (h : Repr cfg X L N m s (l ++ b :: r) fl) (hall : b.allocated = true)
    {offset : ℕ} (hoffset : cfg.heapmemAlignment ∣ offset)
    (hlt : offset + cfg.sizeofChunk < b.size) (hk : ∀ k, L b.addr = some k → k ≤ offset)
    (hN : N b.addr = none) :
    Repr cfg (fun a => X a ∨ a = b.addr + cfg.sizeofChunk + offset)
      (Function.update L (b.addr + cfg.sizeofChunk + offset) (some 0)) N m
      ((s.modify cfg b.addr fun c => { c with size := offset, next := none, prev := none }).modify
        cfg (b.addr + cfg.sizeofChunk + offset) fun c =>
          { c with size := b.size - cfg.sizeofChunk - offset, allocated := false })
      (l ++ { b with size := offset } :: ⟨b.addr + cfg.sizeofChunk + offset,
        b.size - cfg.sizeofChunk - offset, true⟩ :: r) fl ∧
    L (b.addr + cfg.sizeofChunk + offset) = none ∧
    N (b.addr + cfg.sizeofChunk + offset) = none := by
  have hb : b ∈ l ++ b :: r := mem_middle.2 (.inl rfl)
  have hc := h.not_mem_free hb hall
  have hother : ∀ x ∈ l ++ r, x ∈ l ++ b :: r ∧ x.addr ≠ b.addr := fun x hx =>
    ⟨mem_middle.2 (.inr hx), h.tiles.addr_ne cfg.sizeof_pos hx⟩
  obtain ⟨hl, hr⟩ := tiles_middle.1 h.tiles
  have hout : ∀ x ∈ l ++ r, x.stop cfg.sizeofChunk ≤ b.addr ∨ b.stop cfg.sizeofChunk ≤ x.addr :=
    fun x hx => (List.mem_append.1 hx).imp (fun hx => (hl.inside hx).2) fun hx => (hr.inside hx).1
  have hinner : ∀ x ∈ l ++ b :: r, x.addr ≠ b.addr + cfg.sizeofChunk + offset := by
    intro x hx heq
    have hpos := cfg.sizeof_pos
    rcases mem_middle.1 hx with rfl | hx
    · omega
    · have hapart := hout x hx
      rw [Block.stop, Block.stop] at hapart
      omega
  have hnone : L (b.addr + cfg.sizeofChunk + offset) = none := by
    cases hL : L (b.addr + cfg.sizeofChunk + offset) with
    | none => rfl
    | some k =>
        obtain ⟨x, hx, haddr, -⟩ := h.owned _ k hL
        exact absurd haddr (hinner x hx)
  have hnotFixed : N (b.addr + cfg.sizeofChunk + offset) = none := by
    cases hN' : N (b.addr + cfg.sizeofChunk + offset) with
    | none => rfl
    | some k =>
        obtain ⟨x, hx, haddr, -⟩ := h.fixed _ k hN'
        exact absurd haddr (hinner x hx)
  refine ⟨?_, hnone, hnotFixed⟩
  generalize hn : b.addr + cfg.sizeofChunk + offset = n at hnone hinner ⊢
  generalize hs₁ : (s.modify cfg b.addr fun c =>
    { c with size := offset, next := none, prev := none }) = s₁
  generalize hs₂ : (s₁.modify cfg n fun c =>
    { c with size := b.size - cfg.sizeofChunk - offset, allocated := false }) = s₂
  have hbn : b.addr + cfg.sizeofChunk ≤ n := by omega
  -- the headers afterwards
  have hself₁ : s₁.chunk cfg b.addr =
      { s.chunk cfg b.addr with size := offset, next := none, prev := none } := by
    rw [← hs₁, Heap.chunk_modify_self]
  have hintact₁ : s₁.Intact cfg b.addr := by
    rw [← hs₁]
    exact s.intact_modify_self b.addr _
  have hself₂ : s₂.chunk cfg b.addr =
      { s.chunk cfg b.addr with size := offset, next := none, prev := none } ∧
      s₂.Intact cfg b.addr := by
    rw [← hs₂, ← hself₁]
    exact hintact₁.modify (.inr hbn)
  have hnew : (s₂.chunk cfg n).size = b.size - cfg.sizeofChunk - offset ∧
      s₂.Intact cfg n := by
    rw [← hs₂]
    exact ⟨by rw [Heap.chunk_modify_self], s₁.intact_modify_self n _⟩
  have hrest : ∀ x ∈ l ++ r, s₂.chunk cfg x.addr = s.chunk cfg x.addr ∧ s₂.Intact cfg x.addr := by
    intro x hx
    have hapart := hout x hx
    rw [Block.stop, Block.stop] at hapart
    have h₁ := (h.intact x (hother x hx).1).modify (c := b.addr)
      (f := fun c => { c with size := offset, next := none, prev := none }) (by omega)
    rw [hs₁] at h₁
    have h₂ := h₁.2.modify (c := n)
      (f := fun c => { c with size := b.size - cfg.sizeofChunk - offset, allocated := false })
      (by omega)
    rw [hs₂] at h₂
    exact ⟨h₂.1.trans h₁.1, h₂.2⟩
  have hcells : ∀ i, (i < b.addr ∨ b.addr + cfg.sizeofChunk ≤ i) →
      (i < n ∨ n + cfg.sizeofChunk ≤ i) → s₂.heapBase i = s.heapBase i := by
    intro i hi hi'
    rw [← hs₂, Heap.heapBase_modify hi', ← hs₁, Heap.heapBase_modify hi]
  have husage : s₂.heapUsage = s.heapUsage := by
    rw [← hs₂, ← hs₁]
    rfl
  have hfree : s₂.freeList = s.freeList := by
    rw [← hs₂, ← hs₁]
    rfl
  have hmem : ∀ x, x ∈ l ++ { b with size := offset } ::
      ⟨n, b.size - cfg.sizeofChunk - offset, true⟩ :: r ↔
      x = { b with size := offset } ∨ x = ⟨n, b.size - cfg.sizeofChunk - offset, true⟩ ∨
        x ∈ l ++ r := by
    intro x
    rw [mem_middle, mem_middle]
  have hne : ∀ x ∈ l ++ r, x.addr ≠ n := fun x hx => hinner x (hother x hx).1
  refine ⟨⟨?_, ?_, fun x hx => ?_, fun x hx => ?_, fun x hx hX => ?_, fun hdvd x hx => ?_,
    fun x hx hx' => ?_, fun a k ha => ?_, fun a k ha i hi => ?_, fun a k ha => ?_⟩, ?_, h.nodup,
    fun a => ?_⟩
  · rw [husage, tiles_middle]
    refine ⟨hl, hn.symm, ?_⟩
    have hstop : n + cfg.sizeofChunk + (b.size - cfg.sizeofChunk - offset) =
        b.stop cfg.sizeofChunk := by
      rw [Block.stop]
      omega
    rw [Block.stop, hstop]
    exact hr
  · rw [husage]
    exact h.usage_le
  · rcases (hmem x).1 hx with rfl | rfl | hx
    · exact hself₂.2
    · exact hnew.2
    · exact (hrest x hx).2
  · rcases (hmem x).1 hx with rfl | rfl | hx
    · rw [hself₂.1]
    · exact hnew.1
    · rw [(hrest x hx).1, h.size x (hother x hx).1]
  · rcases (hmem x).1 hx with rfl | rfl | hx
    · rw [hself₂.1]
      exact h.flag b hb fun hX' => hX (.inl hX')
    · exact absurd (.inr rfl) hX
    · rw [(hrest x hx).1]
      exact h.flag x (hother x hx).1 fun hX' => hX (.inl hX')
  · rcases (hmem x).1 hx with rfl | rfl | hx
    · exact hoffset
    · exact Nat.dvd_sub (Nat.dvd_sub (h.aligned hdvd b hb) hdvd) hoffset
    · exact h.aligned hdvd x (hother x hx).1
  · rcases (hmem x).1 hx with rfl | rfl | hx
    · rw [Function.update_of_ne (hinner b hb)]
      exact h.live b hb hall
    · exact ⟨0, Function.update_self ..⟩
    · rw [Function.update_of_ne (hne x hx)]
      exact h.live x (hother x hx).1 hx'
  · by_cases heq : a = n
    · subst heq
      rw [Function.update_self] at ha
      obtain rfl := Option.some.inj ha
      exact ⟨_, (hmem _).2 (.inr (.inl rfl)), rfl, rfl, Nat.zero_le _⟩
    · rw [Function.update_of_ne heq] at ha
      obtain ⟨x, hx, rfl, hx', hsize⟩ := h.owned a k ha
      rcases mem_middle.1 hx with rfl | hx
      · exact ⟨_, (hmem _).2 (.inl rfl), rfl, hall, hk k ha⟩
      · exact ⟨x, (hmem x).2 (.inr (.inr hx)), rfl, hx', hsize⟩
  · by_cases heq : a = n
    · subst heq
      rw [Function.update_self] at ha
      obtain rfl := Option.some.inj ha
      exact absurd hi (Nat.not_lt_zero i)
    · rw [Function.update_of_ne heq] at ha
      rw [← h.kept a k ha i hi]
      obtain ⟨x, hx, rfl, -, hsize⟩ := h.owned a k ha
      rcases mem_middle.1 hx with rfl | hx
      · have hle := hk k ha
        exact hcells _ (.inr (by omega)) (.inl (by omega))
      · have hapart := hout x hx
        rw [Block.stop, Block.stop] at hapart
        exact hcells _ (by omega) (by omega)
  · obtain ⟨x, hx, rfl, hrest⟩ := h.fixed a k ha
    rcases mem_middle.1 hx with rfl | hx
    · rw [hN] at ha
      cases ha
    · exact ⟨x, (hmem x).2 (.inr (.inr hx)), rfl, hrest⟩
  · rw [hfree]
    refine h.linked.congr fun a ha => ?_
    obtain ⟨x, hx, rfl⟩ := h.mem_of_free ha
    rcases mem_middle.1 hx with rfl | hx
    · exact absurd ha hc
    · rw [(hrest x hx).1]
      exact ⟨rfl, rfl⟩
  · rw [h.mem_free]
    constructor
    · rintro ⟨x, hx, rfl, hx'⟩
      rcases mem_middle.1 hx with rfl | hx
      · rw [hall] at hx'
        cases hx'
      · exact ⟨x, (hmem x).2 (.inr (.inr hx)), rfl, hx'⟩
    · rintro ⟨x, hx, rfl, hx'⟩
      rcases (hmem x).1 hx with rfl | rfl | hx
      · rw [hall] at hx'
        cases hx'
      · cases hx'
      · exact ⟨x, (hother x hx).1, rfl, hx'⟩

theorem Config.dvd_align (cfg : Config) (n : ℕ) : cfg.heapmemAlignment ∣ cfg.align n :=
  Nat.dvd_mul_left _ _

theorem Config.le_align (cfg : Config) (n : ℕ) : n ≤ cfg.align n := by
  have hpos := cfg.alignment_pos
  have hmod := Nat.div_add_mod (n + (cfg.heapmemAlignment - 1)) cfg.heapmemAlignment
  have hlt := Nat.mod_lt (n + (cfg.heapmemAlignment - 1)) hpos
  rw [Config.align, Nat.mul_comm]
  omega

theorem Config.align_align (cfg : Config) (n : ℕ) : cfg.align (cfg.align n) = cfg.align n := by
  have hpos := cfg.alignment_pos
  obtain ⟨q, hq⟩ := cfg.dvd_align n
  rw [hq, Config.align, Nat.mul_add_div hpos, Nat.div_eq_of_lt (by omega), Nat.add_zero,
    Nat.mul_comm]

theorem Repr.mono (h : Repr cfg X L N m s bs fl) (hX : ∀ a, X a → X' a) :
    Repr cfg X' L N m s bs fl :=
  ⟨⟨h.tiles, h.usage_le, h.intact, h.size, fun b hb hX' => h.flag b hb fun hXb => hX' (hX _ hXb),
    h.aligned, h.live, h.owned, h.kept, h.fixed⟩, h.linked, h.nodup, h.mem_free⟩

/-- What is behind `offset` bytes of a chunk becomes a free chunk if there is room for a header. -/
theorem Repr.splitChunk (h : Repr cfg X L N m s (l ++ b :: r) fl) (hall : b.allocated = true)
    (hN : N b.addr = none) (offset : ℕ) (hk : ∀ k, L b.addr = some k → k ≤ cfg.align offset) :
    ∃ bs' fl', Repr cfg X L N m (s.splitChunk cfg b.addr offset) bs' fl' ∧
      ∃ b' ∈ bs', b'.addr = b.addr ∧ b'.allocated = true ∧ (b'.size = b.size ∨
        b'.size = cfg.align offset) := by
  have hb : b ∈ l ++ b :: r := mem_middle.2 (.inl rfl)
  unfold Heap.splitChunk
  dsimp only
  rw [h.size b hb]
  split
  · next hlt =>
      obtain ⟨hcarve, hnone, hnotFixed⟩ := h.carve hall (cfg.dvd_align offset) hlt hk hN
      have hapart : b.addr + cfg.sizeofChunk ≤ b.addr + cfg.sizeofChunk + cfg.align offset :=
        Nat.le_add_right _ _
      have hlist : ∀ x, s.freeList = some x →
          b.addr + cfg.sizeofChunk ≤ x ∨ x + cfg.sizeofChunk ≤ b.addr := by
        intro x hx
        have hfl : x ∈ fl := List.mem_of_mem_head? (h.linked.head?.symm.trans hx)
        obtain ⟨y, hy, rfl⟩ := h.mem_of_free hfl
        exact h.apart hb hy fun heq => h.not_mem_free hb hall (heq ▸ hfl)
      rw [Heap.freeChunk_modify_comm (s.modify cfg _ _) (.inl hapart) hlist,
        Heap.modify_comm s _ _ (.inr hapart)]
      have hassoc : ∀ x y : Block, l ++ x :: y :: r = (l ++ [x]) ++ y :: r := fun x y => by
        rw [List.append_assoc]
        rfl
      rw [hassoc] at hcarve
      obtain ⟨bs', fl', hrepr, hmem⟩ := hcarve.freeChunk rfl hnotFixed
      refine ⟨bs', fl', ?_, _, hmem _ (List.mem_append_left _ (List.mem_append_right _
        List.mem_cons_self)), rfl, hall, .inr rfl⟩
      have hupdate : Function.update (Function.update L (b.addr + cfg.sizeofChunk +
          cfg.align offset) (some 0)) (b.addr + cfg.sizeofChunk + cfg.align offset) none = L := by
        rw [Function.update_idem, ← hnone, Function.update_eq_self]
      rw [hupdate] at hrepr
      exact hrepr.mono fun a ha => ha.1.resolve_right ha.2
  · exact ⟨_, fl, h, b, hb, rfl, hall, .inl rfl⟩

end Den2ne.HeapMem
