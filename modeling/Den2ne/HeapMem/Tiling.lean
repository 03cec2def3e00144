import Den2ne.HeapMem.Model
import Den2ne.Pointers.Double
import Mathlib.Logic.Function.Basic

/-!
# The chunks of a heap

What a heap looks like: its chunks tile the part that is used, the chunks that are not allocated are
the cells of the free list, and behind the header of an allocated chunk lies what its owner has put
there. `Shape` is what holds of the chunks alone and `Repr` adds the free list. While a function
works on a chunk that it has taken out of the free list, its flag is not set yet: `X` are the chunks
whose flag does not count.
-/

namespace Den2ne.HeapMem

open Memory Pointers

/-- A chunk: where its header is, how many bytes follow, and whether it is allocated. -/
structure Block where
  addr : ℕ
  size : ℕ
  allocated : Bool

/-- Where the chunk ends. -/
def Block.stop (n : ℕ) (b : Block) : ℕ := b.addr + n + b.size

/-- The chunks, with headers of `n` cells, fill the cells from `p` to `e`. -/
def Tiles (n : ℕ) : ℕ → List Block → ℕ → Prop
  | p, [], e => p = e
  | p, b :: bs, e => b.addr = p ∧ Tiles n (b.stop n) bs e

section Tiles

variable {n p e : ℕ} {b b' : Block} {bs l r : List Block}

theorem tiles_append : Tiles n p (l ++ r) e ↔ ∃ q, Tiles n p l q ∧ Tiles n q r e := by
  induction l generalizing p with
  | nil => exact ⟨fun h => ⟨p, rfl, h⟩, fun ⟨_, rfl, h⟩ => h⟩
  | cons b l ih =>
      constructor
      · rintro ⟨hp, h⟩
        obtain ⟨q, hl, hr⟩ := ih.1 h
        exact ⟨q, ⟨hp, hl⟩, hr⟩
      · rintro ⟨q, ⟨hp, hl⟩, hr⟩
        exact ⟨hp, ih.2 ⟨q, hl, hr⟩⟩

theorem Tiles.le (h : Tiles n p bs e) : p ≤ e := by
  induction bs generalizing p with
  | nil => exact Nat.le_of_eq h
  | cons b bs ih =>
      obtain ⟨rfl, hrest⟩ := h
      have hle := ih hrest
      rw [Block.stop] at hle
      omega

theorem Tiles.inside (h : Tiles n p bs e) (hb : b ∈ bs) : p ≤ b.addr ∧ b.stop n ≤ e := by
  obtain ⟨l, r, rfl⟩ := List.append_of_mem hb
  obtain ⟨q, hl, rfl, hr⟩ := tiles_append.1 h
  exact ⟨hl.le, hr.le⟩

/-- Where headers and sizes are multiples, the chunks lie at multiples. -/
theorem Tiles.dvd_addr {d : ℕ} (h : Tiles n p bs e) (hp : d ∣ p) (hn : d ∣ n)
    (hsize : ∀ x ∈ bs, d ∣ x.size) (hb : b ∈ bs) : d ∣ b.addr := by
  induction bs generalizing p with
  | nil => exact absurd hb List.not_mem_nil
  | cons x bs ih =>
      obtain ⟨rfl, hrest⟩ := h
      rcases List.mem_cons.1 hb with rfl | hmem
      · exact hp
      · have hx := hsize x List.mem_cons_self
        exact ih hrest (Nat.dvd_add (Nat.dvd_add hp hn) hx)
          (fun y hy => hsize y (List.mem_cons_of_mem x hy)) hmem

/-- Two chunks are apart, or they are the same one. -/
theorem Tiles.apart (h : Tiles n p bs e) (hb : b ∈ bs) (hb' : b' ∈ bs)
    (hne : b.addr ≠ b'.addr) : b.stop n ≤ b'.addr ∨ b'.stop n ≤ b.addr := by
  induction bs generalizing p with
  | nil => exact absurd hb List.not_mem_nil
  | cons x bs ih =>
      obtain ⟨-, hrest⟩ := h
      rcases List.mem_cons.1 hb with rfl | hmem
      · rcases List.mem_cons.1 hb' with rfl | hmem'
        · exact absurd rfl hne
        · exact .inl (hrest.inside hmem').1
      · rcases List.mem_cons.1 hb' with rfl | hmem'
        · exact .inr (hrest.inside hmem).1
        · exact ih hrest hmem hmem'

theorem Tiles.eq_of_addr (h : Tiles n p bs e) (hn : 0 < n) (hb : b ∈ bs) (hb' : b' ∈ bs)
    (heq : b.addr = b'.addr) : b = b' := by
  induction bs generalizing p with
  | nil => exact absurd hb List.not_mem_nil
  | cons x bs ih =>
      obtain ⟨-, hrest⟩ := h
      have hlt : ∀ y ∈ bs, x.addr ≠ y.addr := fun y hy => by
        have hle := (hrest.inside hy).1
        rw [Block.stop] at hle
        omega
      rcases List.mem_cons.1 hb with rfl | hmem
      · rcases List.mem_cons.1 hb' with rfl | hmem'
        · rfl
        · exact absurd heq (hlt b' hmem')
      · rcases List.mem_cons.1 hb' with rfl | hmem'
        · exact absurd heq.symm (hlt b hmem)
        · exact ih hrest hmem hmem'

theorem mem_middle {x : Block} : x ∈ l ++ b :: r ↔ x = b ∨ x ∈ l ++ r := by
  rw [List.mem_append, List.mem_cons, List.mem_append, or_left_comm]

/-- A chunk ends where the next one begins. -/
theorem tiles_middle : Tiles n p (l ++ b :: r) e ↔
    Tiles n p l b.addr ∧ Tiles n (b.stop n) r e := by
  rw [tiles_append]
  constructor
  · rintro ⟨q, hl, rfl, hr⟩
    exact ⟨hl, hr⟩
  · exact fun ⟨hl, hr⟩ => ⟨b.addr, hl, rfl, hr⟩

/-- The other chunks are at other places. -/
theorem Tiles.addr_ne {x : Block} (h : Tiles n p (l ++ b :: r) e) (hn : 0 < n)
    (hx : x ∈ l ++ r) : x.addr ≠ b.addr := by
  obtain ⟨hl, hr⟩ := tiles_middle.1 h
  rcases List.mem_append.1 hx with hx | hx
  · have hle := (hl.inside hx).2
    rw [Block.stop] at hle
    omega
  · have hle := (hr.inside hx).1
    rw [Block.stop] at hle
    omega

/-- Nothing is behind a chunk that ends with the part that is used. -/
theorem Tiles.eq_nil (h : Tiles n p bs p) (hn : 0 < n) : bs = [] := by
  cases bs with
  | nil => rfl
  | cons b bs =>
      obtain ⟨rfl, hrest⟩ := h
      have hle := hrest.le
      rw [Block.stop] at hle
      omega

end Tiles

variable {cfg : Config} {s : Heap} {a c i : ℕ} {f g : Chunk → Chunk}

/-! ## Headers -/

namespace Heap

/-- The header at `a` is whole. -/
def Intact (cfg : Config) (s : Heap) (a : ℕ) : Prop :=
  HasRecord cfg.sizeofChunk s.heapBase a (s.chunk cfg a)

theorem Intact.chunk_eq {s' : Heap} (h : s.Intact cfg a)
    (heq : ∀ i, a ≤ i → i < a + cfg.sizeofChunk → s'.heapBase i = s.heapBase i) :
    s'.chunk cfg a = s.chunk cfg a ∧ s'.Intact cfg a := by
  have hrec : HasRecord cfg.sizeofChunk s'.heapBase a (s.chunk cfg a) := HasRecord.congr h heq
  have hchunk : s'.chunk cfg a = s.chunk cfg a := hrec.getRecord cfg.sizeof_pos
  refine ⟨hchunk, ?_⟩
  rw [Intact, hchunk]
  exact hrec

@[simp] theorem chunk_modify_self (s : Heap) (c : ℕ) (f : Chunk → Chunk) :
    (s.modify cfg c f).chunk cfg c = f (s.chunk cfg c) :=
  (hasRecord_putRecord s.heapBase c _).getRecord cfg.sizeof_pos

theorem intact_modify_self (s : Heap) (c : ℕ) (f : Chunk → Chunk) :
    (s.modify cfg c f).Intact cfg c := by
  rw [Intact, chunk_modify_self]
  exact hasRecord_putRecord s.heapBase c _

theorem heapBase_modify (h : i < c ∨ c + cfg.sizeofChunk ≤ i) :
    (s.modify cfg c f).heapBase i = s.heapBase i := putRecord_of_outside h

theorem chunk_modify_of_apart (s : Heap) (f : Chunk → Chunk)
    (hapart : c + cfg.sizeofChunk ≤ a ∨ a + cfg.sizeofChunk ≤ c) :
    (s.modify cfg c f).chunk cfg a = s.chunk cfg a :=
  getRecord_congr cfg.sizeof_pos fun i hle hlt => heapBase_modify (by omega)

/-- Two headers that do not meet are written in any order. -/
theorem modify_comm (s : Heap) (f g : Chunk → Chunk)
    (hapart : c + cfg.sizeofChunk ≤ a ∨ a + cfg.sizeofChunk ≤ c) :
    (s.modify cfg c f).modify cfg a g = (s.modify cfg a g).modify cfg c f := by
  have hc := s.chunk_modify_of_apart f hapart
  have ha := s.chunk_modify_of_apart g hapart.symm
  rw [modify, hc, modify, modify, ha, modify]
  exact congrArg (fun m => (⟨m, s.heapUsage, s.freeList, s.zones⟩ : Heap))
    (putRecord_comm s.heapBase _ _ hapart)

theorem modify_modify (s : Heap) (f g : Chunk → Chunk) :
    (s.modify cfg c f).modify cfg c g = s.modify cfg c (g ∘ f) := by
  have hself : (s.modify cfg c f).chunk cfg c = f (s.chunk cfg c) := s.chunk_modify_self c f
  rw [modify, hself, modify, modify]
  exact congrArg (fun m => (⟨m, s.heapUsage, s.freeList, s.zones⟩ : Heap))
    (putRecord_putRecord s.heapBase c _ _)

theorem Intact.modify (h : s.Intact cfg a)
    (hapart : c + cfg.sizeofChunk ≤ a ∨ a + cfg.sizeofChunk ≤ c) :
    (s.modify cfg c f).chunk cfg a = s.chunk cfg a ∧ (s.modify cfg c f).Intact cfg a := by
  refine h.chunk_eq fun i hle hlt => heapBase_modify ?_
  omega

end Heap

/-! ## Shape -/

/-- The chunks of the heap, without the free list. `L` says of an allocated chunk how many of its
bytes its owner may use; these are as in `m`. `N` gives the sizes of allocated chunks that have to
stay as they are. -/
structure Shape (cfg : Config) (X : ℕ → Prop) (L N : ℕ → Option ℕ) (m : ℕ → Cell Chunk UInt8)
    (s : Heap) (bs : List Block) : Prop where
  tiles : Tiles cfg.sizeofChunk 0 bs s.heapUsage
  usage_le : s.heapUsage ≤ cfg.heapmemArenaSize
  intact : ∀ b ∈ bs, s.Intact cfg b.addr
  size : ∀ b ∈ bs, (s.chunk cfg b.addr).size = b.size
  flag : ∀ b ∈ bs, ¬ X b.addr → (s.chunk cfg b.addr).allocated = b.allocated
  aligned : cfg.heapmemAlignment ∣ cfg.sizeofChunk → ∀ b ∈ bs, cfg.heapmemAlignment ∣ b.size
  live : ∀ b ∈ bs, b.allocated = true → ∃ k, L b.addr = some k
  owned : ∀ a k, L a = some k → ∃ b ∈ bs, b.addr = a ∧ b.allocated = true ∧ k ≤ b.size
  kept : ∀ a k, L a = some k → ∀ i < k,
    s.heapBase (a + cfg.sizeofChunk + i) = m (a + cfg.sizeofChunk + i)
  fixed : ∀ a n, N a = some n → ∃ b ∈ bs, b.addr = a ∧ b.allocated = true ∧ b.size = n

/-- The chunks of the heap and its free list. -/
structure Repr (cfg : Config) (X : ℕ → Prop) (L N : ℕ → Option ℕ) (m : ℕ → Cell Chunk UInt8)
    (s : Heap) (bs : List Block) (fl : List ℕ) : Prop extends Shape cfg X L N m s bs where
  linked : Double (fun a => (s.chunk cfg a).prev) (fun a => (s.chunk cfg a).next) none
    s.freeList fl
  nodup : fl.Nodup
  mem_free : ∀ a, a ∈ fl ↔ ∃ b ∈ bs, b.addr = a ∧ b.allocated = false

section

variable {X : ℕ → Prop} {L N : ℕ → Option ℕ} {m : ℕ → Cell Chunk UInt8} {bs l r : List Block}
  {fl : List ℕ} {b b' : Block}

/-- Headers at different places are apart. -/
theorem Shape.apart (h : Shape cfg X L N m s bs) (hb : b ∈ bs) (hb' : b' ∈ bs)
    (hne : b.addr ≠ b'.addr) :
    b.addr + cfg.sizeofChunk ≤ b'.addr ∨ b'.addr + cfg.sizeofChunk ≤ b.addr := by
  have hapart := h.tiles.apart hb hb' hne
  rw [Block.stop, Block.stop] at hapart
  omega

/-- A header is written: what the headers are then. -/
theorem Shape.chunk_modify (h : Shape cfg X L N m s bs) (hb : b ∈ bs) (hb' : b' ∈ bs)
    (f : Chunk → Chunk) : (s.modify cfg b.addr f).chunk cfg b'.addr =
      if b.addr = b'.addr then f (s.chunk cfg b'.addr) else s.chunk cfg b'.addr := by
  split
  · next heq => rw [heq, Heap.chunk_modify_self]
  · next hne => exact ((h.intact b' hb').modify (h.apart hb hb' hne)).1

theorem Shape.intact_modify (h : Shape cfg X L N m s bs) (hb : b ∈ bs) (hb' : b' ∈ bs)
    (f : Chunk → Chunk) : (s.modify cfg b.addr f).Intact cfg b'.addr := by
  by_cases heq : b.addr = b'.addr
  · rw [heq]
    exact s.intact_modify_self b'.addr f
  · exact ((h.intact b' hb').modify (h.apart hb hb' heq)).2

/-- What an owner has put into a chunk is not part of a header. -/
theorem Shape.kept_modify (h : Shape cfg X L N m s bs) (hb : b ∈ bs) (f : Chunk → Chunk) {a k : ℕ}
    (ha : L a = some k) (hi : i < k) :
    (s.modify cfg b.addr f).heapBase (a + cfg.sizeofChunk + i) = m (a + cfg.sizeofChunk + i) := by
  obtain ⟨b', hb', rfl, -, hk⟩ := h.owned a k ha
  rw [← h.kept b'.addr k ha i hi]
  refine Heap.heapBase_modify ?_
  by_cases heq : b.addr = b'.addr
  · omega
  · have hapart := h.tiles.apart hb hb' heq
    rw [Block.stop, Block.stop] at hapart
    omega

/-- Links are written. -/
theorem Shape.modify (h : Shape cfg X L N m s bs) (hb : b ∈ bs)
    (hf : ∀ x, (f x).size = x.size ∧ (f x).allocated = x.allocated) :
    Shape cfg X L N m (s.modify cfg b.addr f) bs where
  tiles := h.tiles
  usage_le := h.usage_le
  intact b' hb' := h.intact_modify hb hb' f
  size b' hb' := by
    rw [h.chunk_modify hb hb' f]
    split
    · rw [(hf _).1, h.size b' hb']
    · exact h.size b' hb'
  flag b' hb' hX := by
    rw [h.chunk_modify hb hb' f]
    split
    · rw [(hf _).2, h.flag b' hb' hX]
    · exact h.flag b' hb' hX
  aligned := h.aligned
  live := h.live
  owned := h.owned
  kept _ _ ha _ hi := h.kept_modify hb f ha hi
  fixed := h.fixed

theorem Shape.setFreeList (h : Shape cfg X L N m s bs) (p : Option ℕ) :
    Shape cfg X L N m { s with freeList := p } bs :=
  ⟨h.1, h.2, h.3, h.4, h.5, h.6, h.7, h.8, h.9, h.10⟩

theorem Repr.mem_of_free (h : Repr cfg X L N m s bs fl) (ha : a ∈ fl) : ∃ b ∈ bs, b.addr = a :=
  ((h.mem_free a).1 ha).imp fun _ hb => ⟨hb.1, hb.2.1⟩

end

end Den2ne.HeapMem
