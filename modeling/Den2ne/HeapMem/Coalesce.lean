import Den2ne.HeapMem.Primitives

/-!
# Coalescing and searching

A chunk takes in the free chunks behind it, so that none is left there; the search for a free chunk
does so along the free list, and then takes a chunk that is large enough out of it.
-/

namespace Den2ne.HeapMem

open Memory Pointers

variable {cfg : Config} {X X' : ℕ → Prop} {L L' N : ℕ → Option ℕ} {m : ℕ → Cell Chunk UInt8}
  {s s' : Heap} {bs l r : List Block} {fl : List ℕ} {b b' n : Block} {a c k i : ℕ} {p : Option ℕ}
  {f : Chunk → Chunk}

/-! ## Coalescing -/

/-- A size and links are written in any order. -/
theorem Heap.modifyPtr_modify_of_links (s : Heap) {g : Chunk → Chunk}
    (hcomm : ∀ x, g (f x) = f (g x))
    (hp : ∀ a, p = some a → a = c ∨ c + cfg.sizeofChunk ≤ a ∨ a + cfg.sizeofChunk ≤ c) :
    (s.modify cfg c f).modifyPtr cfg p g = (s.modifyPtr cfg p g).modify cfg c f := by
  cases p with
  | none => rfl
  | some a =>
      rcases hp a rfl with rfl | hapart
      · rw [Heap.modifyPtr, Heap.modifyPtr, Heap.modify_modify, Heap.modify_modify]
        exact congrArg (fun k => s.modify cfg a k) (funext hcomm)
      · exact s.modify_comm f g hapart

theorem Heap.chunk_modifyPtr_of_apart (s : Heap)
    (hp : ∀ x, p = some x → x + cfg.sizeofChunk ≤ a ∨ a + cfg.sizeofChunk ≤ x) :
    (s.modifyPtr cfg p f).chunk cfg a = s.chunk cfg a := by
  cases p with
  | none => rfl
  | some x => exact s.chunk_modify_of_apart f (hp x rfl)

/-- The size of another chunk may as well be written afterwards. -/
theorem Heap.removeChunk_modify_comm (s : Heap)
    (hapart : c + cfg.sizeofChunk ≤ a ∨ a + cfg.sizeofChunk ≤ c)
    (hlinks : ∀ x, (s.chunk cfg a).prev = some x ∨ (s.chunk cfg a).next = some x →
      (x = c ∨ c + cfg.sizeofChunk ≤ x ∨ x + cfg.sizeofChunk ≤ c) ∧
        (x + cfg.sizeofChunk ≤ a ∨ a + cfg.sizeofChunk ≤ x))
    (hprev : ∀ x v, f { x with prev := v } = { f x with prev := v })
    (hnext : ∀ x v, f { x with next := v } = { f x with next := v }) :
    (s.modify cfg c f).removeChunkFromFreeList cfg a =
      (s.removeChunkFromFreeList cfg a).modify cfg c f := by
  have hchunk := s.chunk_modify_of_apart f hapart
  have hsecond : ∀ t : Heap, t.chunk cfg a = s.chunk cfg a →
      (t.modify cfg c f).modifyPtr cfg ((t.modify cfg c f).chunk cfg a).next
          (fun x => { x with prev := ((t.modify cfg c f).chunk cfg a).prev }) =
        (t.modifyPtr cfg (t.chunk cfg a).next fun x =>
          { x with prev := (t.chunk cfg a).prev }).modify cfg c f := by
    intro t ht
    rw [t.chunk_modify_of_apart f hapart, ht]
    exact t.modifyPtr_modify_of_links (fun x => (hprev x _).symm) fun x hx => (hlinks x (.inr hx)).1
  unfold Heap.removeChunkFromFreeList
  dsimp only
  rw [hchunk]
  by_cases hfirst : s.freeList = some a
  · have hfirst' : (s.modify cfg c f).freeList = some a := hfirst
    rw [if_pos hfirst, if_pos hfirst']
    have hcomm := Heap.modifyPtr_modify_of_links (p := (s.chunk cfg a).next) (c := c)
      (f := f) { s with freeList := (s.chunk cfg a).next }
      (g := fun x => { x with prev := none }) (fun x => (hprev x _).symm)
      fun x hx => (hlinks x (.inr hx)).1
    rw [← hsecond]
    · exact congrArg (fun t : Heap => t.modifyPtr cfg (t.chunk cfg a).next fun x =>
        { x with prev := (t.chunk cfg a).prev }) hcomm
    · exact Heap.chunk_modifyPtr_of_apart _ fun x hx => (hlinks x (.inr hx)).2
  · have hfirst' : ¬ (s.modify cfg c f).freeList = some a := hfirst
    rw [if_neg hfirst, if_neg hfirst']
    have hcomm := s.modifyPtr_modify_of_links (p := (s.chunk cfg a).prev) (c := c)
      (f := f) (g := fun x => { x with next := (s.chunk cfg a).next }) (fun x => (hnext x _).symm)
      fun x hx => (hlinks x (.inl hx)).1
    rw [← hsecond]
    · exact congrArg (fun t : Heap => t.modifyPtr cfg (t.chunk cfg a).next fun x =>
        { x with prev := (t.chunk cfg a).prev }) hcomm
    · exact Heap.chunk_modifyPtr_of_apart _ fun x hx => (hlinks x (.inl hx)).2

/-- No flag is left open. -/
def Settled : ℕ → Prop := fun _ => False

/-- The chunk behind a chunk becomes part of it. -/
theorem Shape.merge (h : Shape cfg X L N m s (l ++ b :: n :: r)) (hfree : n.allocated = false)
    (hN : N b.addr = none)
    (hsize : ∀ x, (f x).size = x.size + (cfg.sizeofChunk + n.size))
    (hflag : ∀ x, (f x).allocated = x.allocated) :
    Shape cfg X L N m (s.modify cfg b.addr f)
      (l ++ { b with size := b.size + (cfg.sizeofChunk + n.size) } :: r) := by
  have hb : b ∈ l ++ b :: n :: r := mem_middle.2 (.inl rfl)
  have hn : n ∈ l ++ b :: n :: r := by simp
  obtain ⟨hl, hnext, hr⟩ := tiles_middle.1 h.tiles
  have hother : ∀ x ∈ l ++ r, x ∈ l ++ b :: n :: r ∧ b.addr ≠ x.addr := by
    intro x hx
    have hx' : x ∈ l ++ n :: r := mem_middle.2 (.inr hx)
    exact ⟨mem_middle.2 (.inr hx'), (h.tiles.addr_ne cfg.sizeof_pos hx').symm⟩
  refine ⟨?_, h.usage_le, fun x hx => ?_, fun x hx => ?_, fun x hx hX => ?_, fun hdvd x hx => ?_,
    fun x hx hx' => ?_, fun a k ha => ?_, fun a k ha i hi => h.kept_modify hb f ha hi,
    fun a k ha => ?_⟩
  · refine tiles_middle.2 ⟨hl, ?_⟩
    have hstop : Block.stop cfg.sizeofChunk
        { b with size := b.size + (cfg.sizeofChunk + n.size) } = n.stop cfg.sizeofChunk := by
      simp only [Block.stop] at hnext ⊢
      omega
    rw [hstop]
    exact hr
  · rcases mem_middle.1 hx with rfl | hx
    · exact h.intact_modify hb hb f
    · exact h.intact_modify hb (hother x hx).1 f
  · rcases mem_middle.1 hx with rfl | hx
    · rw [h.chunk_modify hb hb f, if_pos rfl, hsize, h.size b hb]
    · rw [h.chunk_modify hb (hother x hx).1 f, if_neg (hother x hx).2, h.size x (hother x hx).1]
  · rcases mem_middle.1 hx with rfl | hx
    · rw [h.chunk_modify hb hb f, if_pos rfl, hflag]
      exact h.flag b hb hX
    · rw [h.chunk_modify hb (hother x hx).1 f, if_neg (hother x hx).2]
      exact h.flag x (hother x hx).1 hX
  · rcases mem_middle.1 hx with rfl | hx
    · exact Nat.dvd_add (h.aligned hdvd b hb) (Nat.dvd_add hdvd (h.aligned hdvd n hn))
    · exact h.aligned hdvd x (hother x hx).1
  · rcases mem_middle.1 hx with rfl | hx
    · exact h.live b hb hx'
    · exact h.live x (hother x hx).1 hx'
  · obtain ⟨x, hx, rfl, hx', hk⟩ := h.owned a k ha
    rcases mem_middle.1 hx with rfl | hx
    · exact ⟨_, mem_middle.2 (.inl rfl), rfl, hx', Nat.le_trans hk (Nat.le_add_right _ _)⟩
    · rcases mem_middle.1 hx with rfl | hx
      · rw [hfree] at hx'
        cases hx'
      · exact ⟨x, mem_middle.2 (.inr hx), rfl, hx', hk⟩
  · obtain ⟨x, hx, rfl, hx', hk⟩ := h.fixed a k ha
    rcases mem_middle.1 hx with rfl | hx
    · rw [hN] at ha
      cases ha
    · rcases mem_middle.1 hx with rfl | hx
      · rw [hfree] at hx'
        cases hx'
      · exact ⟨x, mem_middle.2 (.inr hx), rfl, hx', hk⟩

/-- A round of `coalesce_chunks`. -/
theorem Repr.absorb (h : Repr cfg X L N m s (l ++ b :: n :: r) fl) (hfree : n.allocated = false)
    (hN : N b.addr = none) :
    Repr cfg X L N m
        ((s.modify cfg b.addr fun c =>
          { c with size := c.size + (cfg.sizeofChunk + n.size) }).removeChunkFromFreeList cfg
            n.addr)
        (l ++ { b with size := b.size + (cfg.sizeofChunk + n.size) } :: r) (fl.erase n.addr) ∧
      (((s.modify cfg b.addr fun c =>
        { c with size := c.size + (cfg.sizeofChunk + n.size) }).removeChunkFromFreeList cfg
          n.addr).chunk cfg n.addr).size = n.size := by
  have hb : b ∈ l ++ b :: n :: r := mem_middle.2 (.inl rfl)
  have hn : n ∈ l ++ b :: n :: r := by simp
  have hne : b.addr ≠ n.addr :=
    (h.tiles.addr_ne cfg.sizeof_pos (List.mem_append_right l List.mem_cons_self)).symm
  have hc : n.addr ∈ fl := (h.mem_free n.addr).2 ⟨n, hn, rfl, hfree⟩
  obtain ⟨hshape, hlinked⟩ := h.removeChunk hc
  have hlink : ∀ x, (s.chunk cfg n.addr).prev = some x ∨ (s.chunk cfg n.addr).next = some x →
      x ∈ fl ∧ x ≠ n.addr := by
    obtain ⟨before, after, rfl⟩ := List.append_of_mem hc
    have hprev : (s.chunk cfg n.addr).prev = before.getLast?.or none := h.linked.prev_eq
    have hnext : (s.chunk cfg n.addr).next = after.head? := h.linked.next_eq
    have hnodup := h.nodup
    rw [Option.or_none] at hprev
    rw [hprev, hnext]
    rintro x (hx | hx)
    · have hmem := List.mem_of_getLast? hx
      exact ⟨List.mem_append_left _ hmem, fun heq =>
        (List.nodup_append.1 hnodup).2.2 x hmem n.addr List.mem_cons_self heq⟩
    · have hmem := List.mem_of_mem_head? hx
      refine ⟨List.mem_append_right _ (List.mem_cons_of_mem _ hmem), fun heq => ?_⟩
      rw [heq] at hmem
      exact (List.nodup_cons.1 (List.nodup_append.1 hnodup).2.1).1 hmem
  have hcomm := s.removeChunk_modify_comm (a := n.addr) (c := b.addr)
    (f := fun c => { c with size := c.size + (cfg.sizeofChunk + n.size) }) (h.apart hb hn hne)
    (fun x hx => by
      obtain ⟨hfl, hxn⟩ := hlink x hx
      obtain ⟨y, hy, rfl⟩ := h.mem_of_free hfl
      refine ⟨?_, h.apart hy hn hxn⟩
      by_cases heq : y.addr = b.addr
      · exact .inl heq
      · exact .inr (h.apart hb hy (Ne.symm heq)))
    (fun _ _ => rfl) (fun _ _ => rfl)
  rw [hcomm]
  generalize s.removeChunkFromFreeList cfg n.addr = t at hshape hlinked
  have hchunk := fun (x : Block) hx => hshape.chunk_modify hb (hx : x ∈ _)
    fun c => { c with size := c.size + (cfg.sizeofChunk + n.size) }
  refine ⟨⟨hshape.merge hfree hN (fun _ => rfl) fun _ => rfl, ?_, h.nodup.erase _, fun a => ?_⟩, ?_⟩
  · refine hlinked.congr fun a ha => ?_
    obtain ⟨x, hx, rfl⟩ := h.mem_of_free (List.mem_of_mem_erase ha)
    rw [hchunk x hx]
    split <;> exact ⟨rfl, rfl⟩
  · rw [h.nodup.mem_erase_iff, h.mem_free]
    constructor
    · rintro ⟨hne', x, hx, rfl, hx'⟩
      rcases mem_middle.1 hx with rfl | hx
      · exact ⟨_, mem_middle.2 (.inl rfl), rfl, hx'⟩
      · rcases mem_middle.1 hx with rfl | hx
        · exact absurd rfl hne'
        · exact ⟨x, mem_middle.2 (.inr hx), rfl, hx'⟩
    · rintro ⟨x, hx, rfl, hx'⟩
      rcases mem_middle.1 hx with rfl | hx
      · exact ⟨hne, b, hb, rfl, hx'⟩
      · have hother : x ∈ l ++ b :: n :: r := mem_middle.2 (.inr (mem_middle.2 (.inr hx)))
        refine ⟨fun heq => ?_, x, hother, rfl, hx'⟩
        have htiles := h.tiles
        rw [show l ++ b :: n :: r = (l ++ [b]) ++ n :: r by simp] at htiles
        refine htiles.addr_ne cfg.sizeof_pos ?_ heq
        rw [List.append_assoc]
        exact List.mem_append.2 ((List.mem_append.1 hx).imp_right (List.mem_cons_of_mem b))
  · rw [hchunk n hn, if_neg hne, hshape.size n hn]

/-- The chunk grows over the free chunks behind it; with enough rounds none is left there. -/
theorem Repr.coalesceFrom (h : Repr cfg Settled L N m s (l ++ b :: r) fl) (hN : N b.addr = none)
    (fuel : ℕ) :
    ∃ b' r' fl', Repr cfg Settled L N m (s.coalesceFrom cfg b.addr fuel (b.stop cfg.sizeofChunk))
        (l ++ b' :: r') fl' ∧ b'.addr = b.addr ∧ b'.allocated = b.allocated ∧ b.size ≤ b'.size ∧
      (s.heapUsage ≤ b.stop cfg.sizeofChunk + fuel → ∀ n ∈ r'.head?, n.allocated = true) := by
  induction fuel generalizing s b r fl with
  | zero =>
      refine ⟨b, r, fl, h, rfl, rfl, Nat.le_refl _, fun hle n hn => ?_⟩
      obtain ⟨-, hr⟩ := tiles_middle.1 h.tiles
      have heq : b.stop cfg.sizeofChunk = s.heapUsage := Nat.le_antisymm hr.le hle
      rw [heq] at hr
      rw [hr.eq_nil cfg.sizeof_pos] at hn
      cases hn
  | succ fuel ih =>
      rw [Heap.coalesceFrom]
      by_cases hnext : b.stop cfg.sizeofChunk < s.heapUsage ∧
          (s.chunk cfg (b.stop cfg.sizeofChunk)).allocated = false
      · rw [if_pos hnext]
        obtain ⟨-, hr⟩ := tiles_middle.1 h.tiles
        cases r with
        | nil => exact absurd hnext.1 (Nat.not_lt.2 (Nat.le_of_eq hr.symm))
        | cons n r =>
            have haddr : n.addr = b.stop cfg.sizeofChunk := hr.1
            have hn : n ∈ l ++ b :: n :: r := by simp
            rw [← haddr] at hnext ⊢
            have hfree : n.allocated = false := (h.flag n hn id).symm.trans hnext.2
            obtain ⟨habsorb, hsize⟩ := h.absorb hfree hN
            have hstop : Block.stop cfg.sizeofChunk
                { b with size := b.size + (cfg.sizeofChunk + n.size) } =
                n.addr + cfg.sizeofChunk + n.size := by
              rw [haddr]
              simp only [Block.stop]
              omega
            obtain ⟨b', r', fl', hrepr, hb', hall, hle, hbehind⟩ := ih habsorb hN
            dsimp only
            rw [h.size n hn, Heap.nextChunk, hsize, ← hstop]
            refine ⟨b', r', fl', hrepr, hb', hall, Nat.le_trans (Nat.le_add_right _ _) hle,
              fun hfuel => hbehind ?_⟩
            have hpos := cfg.sizeof_pos
            rw [Heap.heapUsage_removeChunk, hstop]
            change s.heapUsage ≤ _
            omega
      · rw [if_neg hnext]
        refine ⟨b, r, fl, h, rfl, rfl, Nat.le_refl _, fun _ n hn => ?_⟩
        obtain ⟨-, hr⟩ := tiles_middle.1 h.tiles
        cases r with
        | nil => cases hn
        | cons n' r =>
            obtain rfl : n' = n := Option.some.inj hn
            obtain ⟨haddr, hr⟩ := hr
            have hn' : n' ∈ l ++ b :: n' :: r := by simp
            have hflag := h.flag n' hn' id
            have hle := hr.le
            rw [← haddr] at hnext
            rw [Block.stop] at hle
            have hpos := cfg.sizeof_pos
            rw [← hflag]
            cases hall : (s.chunk cfg n'.addr).allocated with
            | true => rfl
            | false => exact absurd ⟨by omega, hall⟩ hnext

/-- `coalesce_chunks`: no free chunk is left behind the chunk. -/
theorem Repr.coalesceChunks (h : Repr cfg Settled L N m s (l ++ b :: r) fl)
    (hN : N b.addr = none) :
    ∃ b' r' fl', Repr cfg Settled L N m (s.coalesceChunks cfg b.addr) (l ++ b' :: r') fl' ∧
      b'.addr = b.addr ∧ b'.allocated = b.allocated ∧ b.size ≤ b'.size ∧
      ∀ n ∈ r'.head?, n.allocated = true := by
  have hb : b ∈ l ++ b :: r := mem_middle.2 (.inl rfl)
  rw [Heap.coalesceChunks, h.nextChunk hb]
  obtain ⟨b', r', fl', hrepr, hb', hall, hle, hbehind⟩ := h.coalesceFrom hN s.heapUsage
  exact ⟨b', r', fl', hrepr, hb', hall, hle, hbehind (Nat.le_add_left _ _)⟩

/-! ## Searching -/

theorem Repr.defragFrom (h : Repr cfg Settled L N m s bs fl) (hp : ∀ a, p = some a → a ∈ fl)
    (i : ℕ) : ∃ bs' fl', Repr cfg Settled L N m (s.defragFrom cfg i p) bs' fl' := by
  induction i generalizing s bs fl p with
  | zero => exact ⟨bs, fl, h⟩
  | succ i ih =>
      cases p with
      | none => exact ⟨bs, fl, h⟩
      | some c =>
          obtain ⟨b, hb, rfl, hfree⟩ := (h.mem_free c).1 (hp c rfl)
          obtain ⟨l, r, rfl⟩ := List.append_of_mem hb
          obtain ⟨b', r', fl', hrepr, hb', hall, -⟩ := h.coalesceChunks (h.not_fixed hb hfree)
          have hc : b.addr ∈ fl' :=
            (hrepr.mem_free b.addr).2 ⟨b', mem_middle.2 (.inl rfl), hb', hall.trans hfree⟩
          exact ih hrepr fun a ha => hrepr.linked.mem_of_next hc ha

theorem Repr.defragChunks (h : Repr cfg Settled L N m s bs fl) :
    ∃ bs' fl', Repr cfg Settled L N m (s.defragChunks cfg) bs' fl' :=
  h.defragFrom (fun _ ha => List.mem_of_mem_head? (h.linked.head?.symm.trans ha)) _

/-- The chunk that is found is in the free list and is large enough. -/
theorem Repr.searchFrom (h : Repr cfg X L N m s bs fl) (hp : ∀ a, p = some a → a ∈ fl)
    (size : ℕ) {best : Option ℕ}
    (hbest : ∀ a, best = some a → a ∈ fl ∧ size ≤ (s.chunk cfg a).size) (i : ℕ) :
    ∀ a, s.searchFrom cfg size i p best = some a → a ∈ fl ∧ size ≤ (s.chunk cfg a).size := by
  induction i generalizing p best with
  | zero => exact hbest
  | succ i ih =>
      cases p with
      | none => exact hbest
      | some c =>
          have hc := hp c rfl
          have hnext : ∀ a, (s.chunk cfg c).next = some a → a ∈ fl := fun a ha =>
            h.linked.mem_of_next hc ha
          unfold Heap.searchFrom
          split
          · next hle =>
              have hchoice : ∀ a, some (s.better cfg c best) = some a →
                  a ∈ fl ∧ size ≤ (s.chunk cfg a).size := by
                intro a ha
                obtain rfl := Option.some.inj ha
                cases best with
                | none => exact ⟨hc, hle⟩
                | some b =>
                    rw [Heap.better]
                    split
                    · exact ⟨hc, hle⟩
                    · exact hbest b rfl
              dsimp only
              split
              · exact hchoice
              · exact ih hnext hchoice
          · exact ih hnext hbest

/-- The chunk that is found is taken, and what is not needed of it is left free. -/
theorem Repr.getFreeChunk (h : Repr cfg Settled L N m s bs fl) {size : ℕ}
    (hsize : cfg.align size = size) :
    (∀ s', s.getFreeChunk cfg size = (none, s') → ∃ bs' fl', Repr cfg Settled L N m s' bs' fl') ∧
    ∀ c s', s.getFreeChunk cfg size = (some c, s') → L c = none ∧
      ∃ bs' fl', Repr cfg (fun a => a = c) (Function.update L c (some 0)) N m s' bs' fl' ∧
        ∃ b ∈ bs', b.addr = c ∧ b.allocated = true ∧ size ≤ b.size := by
  obtain ⟨bs₁, fl₁, h₁⟩ := h.defragChunks
  have hfound := h₁.searchFrom
    (fun _ ha => List.mem_of_mem_head? (h₁.linked.head?.symm.trans ha)) size
    (fun _ (ha : none = _) => by cases ha) cfg.chunkSearchMax
  unfold Heap.getFreeChunk
  dsimp only
  cases hsearch : (s.defragChunks cfg).searchFrom cfg size cfg.chunkSearchMax
      (s.defragChunks cfg).freeList none with
  | none =>
      refine ⟨fun s' hs' => ?_, fun c s' hs' => by cases hs'⟩
      obtain ⟨-, rfl⟩ := Prod.mk.inj hs'
      exact ⟨bs₁, fl₁, h₁⟩
  | some best =>
      refine ⟨fun s' hs' => (by cases hs'), fun c s' hs' => ?_⟩
      obtain ⟨hc, rfl⟩ := Prod.mk.inj hs'
      obtain rfl := Option.some.inj hc
      obtain ⟨hmem, hle⟩ := hfound best hsearch
      obtain ⟨b, hb, rfl, hfree⟩ := (h₁.mem_free best).1 hmem
      rw [h₁.size b hb] at hle
      refine ⟨h₁.not_owned hb hfree, ?_⟩
      obtain ⟨l, r, rfl⟩ := List.append_of_mem hb
      have hnotFixed := h₁.not_fixed hb hfree
      have htake := h₁.take hfree
      obtain ⟨bs', fl', hrepr, b', hb', haddr, hall, hsz⟩ := htake.splitChunk rfl
        hnotFixed size fun k hk => by
          rw [Function.update_self] at hk
          obtain rfl := Option.some.inj hk
          exact Nat.zero_le _
      refine ⟨bs', fl', hrepr.mono fun a ha => ha.resolve_left id, b', hb', haddr, hall, ?_⟩
      rcases hsz with hsz | hsz
      · rw [hsz]
        exact hle
      · exact Nat.le_of_eq (hsize.symm.trans hsz.symm)

end Den2ne.HeapMem
