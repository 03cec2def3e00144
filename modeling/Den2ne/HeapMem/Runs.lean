import Den2ne.HeapMem.Operations
import Den2ne.Transition.Run

/-!
# Runs of the heap

The heap together with those who use it: a pointer that was handed out belongs to its owner until it
is given back, and the owner knows what it has written there. In every run in which only pointers
are given back that were handed out, the chunks tile the heap, the free list has the chunks that are
free, and every owner finds what it has written.
-/

namespace Den2ne.HeapMem

open Memory Pointers Transition

/-! ## Statistics -/

/-- The bytes in chunks that are allocated, or free. -/
def bytesIn (allocated : Bool) (bs : List Block) : ℕ :=
  ((bs.filter fun b => b.allocated = allocated).map Block.size).sum

/-- The number of chunks that are allocated. -/
def usedChunks (bs : List Block) : ℕ := (bs.filter fun b => b.allocated).length

variable {cfg : Config} {L : ℕ → Option ℕ} {m : ℕ → Cell Chunk UInt8} {s : Heap}
  {bs l r : List Block} {fl : List ℕ} {b : Block} {chunk : ℕ}

@[simp] theorem bytesIn_nil (allocated : Bool) : bytesIn allocated [] = 0 := rfl

theorem bytesIn_cons (allocated : Bool) : bytesIn allocated (b :: bs) =
    (if b.allocated = allocated then b.size else 0) + bytesIn allocated bs := by
  by_cases h : b.allocated = allocated <;> simp [bytesIn, h]

@[simp] theorem usedChunks_nil : usedChunks [] = 0 := rfl

theorem usedChunks_cons :
    usedChunks (b :: bs) = (if b.allocated then 1 else 0) + usedChunks bs := by
  by_cases h : b.allocated <;> simp [usedChunks, h, Nat.add_comm]

/-- The headers, what is allocated and what is free make up the part that is used. -/
theorem Tiles.bytes {n p e : ℕ} (h : Tiles n p bs e) :
    p + (n * bs.length + bytesIn true bs + bytesIn false bs) = e := by
  induction bs generalizing p with
  | nil => exact h
  | cons b bs ih =>
      obtain ⟨rfl, hrest⟩ := h
      rw [← ih hrest, bytesIn_cons, bytesIn_cons, List.length_cons, Nat.mul_succ, Block.stop]
      cases b.allocated <;> simp <;> omega

theorem Tiles.stop_unique {n p e e' : ℕ} (h : Tiles n p bs e) (h' : Tiles n p bs e') : e = e' := by
  rw [← h.bytes, ← h'.bytes]

@[simp] theorem Heap.heapUsage_coalesceFrom (s : Heap) (chunk fuel next : ℕ) :
    (s.coalesceFrom cfg chunk fuel next).heapUsage = s.heapUsage := by
  induction fuel generalizing s next with
  | zero => rfl
  | succ fuel ih =>
      rw [Heap.coalesceFrom]
      split
      · rw [ih, Heap.heapUsage_removeChunk]
        rfl
      · rfl

/-- The loop goes on behind the chunk. -/
theorem Repr.walk (h : Repr cfg Settled L Unfixed m s (l ++ b :: r) fl)
    (hl : Tiles cfg.sizeofChunk 0 l b.addr) :
    s.nextChunk cfg b.addr = b.stop cfg.sizeofChunk ∧
      Tiles cfg.sizeofChunk 0 (l ++ [b]) (b.stop cfg.sizeofChunk) ∧
      Repr cfg Settled L Unfixed m s ((l ++ [b]) ++ r) fl := by
  refine ⟨h.nextChunk (mem_middle.2 (.inl rfl)), tiles_middle.2 ⟨hl, rfl⟩, ?_⟩
  rwa [List.append_assoc]

theorem Repr.statsFrom (h : Repr cfg Settled L Unfixed m s (l ++ r) fl)
    (hl : Tiles cfg.sizeofChunk 0 l chunk) (stats : Heap.Stats) (fuel : ℕ)
    (hfuel : s.heapUsage ≤ chunk + fuel) :
    ∃ r' fl', Repr cfg Settled L Unfixed m (s.statsFrom cfg fuel chunk stats).2 (l ++ r') fl' ∧
      (s.statsFrom cfg fuel chunk stats).1 =
        { stats with
          allocated := stats.allocated + bytesIn true r'
          overhead := stats.overhead + cfg.sizeofChunk * usedChunks r'
          available := stats.available + bytesIn false r' } := by
  obtain ⟨q, hq, hr⟩ := tiles_append.1 h.tiles
  obtain rfl := hl.stop_unique hq
  induction fuel generalizing s l r fl chunk stats with
  | zero =>
      obtain rfl := Nat.le_antisymm hr.le hfuel
      obtain rfl := hr.eq_nil cfg.sizeof_pos
      exact ⟨[], fl, h, rfl⟩
  | succ fuel ih =>
      rw [Heap.statsFrom]
      cases r with
      | nil =>
          rw [if_neg (Nat.not_lt.2 (Nat.le_of_eq hr.symm))]
          exact ⟨[], fl, h, rfl⟩
      | cons b r =>
          have hb : b ∈ l ++ b :: r := mem_middle.2 (.inl rfl)
          obtain ⟨rfl, hrest⟩ := hr
          have hle := hrest.le
          have hpos := cfg.sizeof_pos
          rw [Block.stop] at hle
          rw [if_pos (by omega), h.flag b hb id]
          split
          · next hall =>
              obtain ⟨hnext, hl', h'⟩ := h.walk hl
              rw [hnext, h.size b hb]
              obtain ⟨r', fl', hrepr, hstats⟩ := ih h' hl' _ (by rw [Block.stop]; omega) hl' hrest
              refine ⟨b :: r', fl', ?_, ?_⟩
              · rwa [List.append_assoc] at hrepr
              · rw [hstats, bytesIn_cons, bytesIn_cons, usedChunks_cons, hall, Nat.mul_add]
                simp [Nat.add_assoc]
          · next hall =>
              obtain ⟨b₁, r₁, fl₁, h₁, haddr, hall₁, -⟩ := h.coalesceChunks rfl
              have husage : (s.coalesceChunks cfg b.addr).heapUsage = s.heapUsage :=
                s.heapUsage_coalesceFrom _ _ _
              generalize s.coalesceChunks cfg b.addr = s₁ at h₁ husage
              rw [← haddr] at hl ⊢
              have hb₁ : b₁ ∈ l ++ b₁ :: r₁ := mem_middle.2 (.inl rfl)
              have hfree : b₁.allocated = false := by simpa [hall₁] using hall
              obtain ⟨hnext, hl', h'⟩ := h₁.walk hl
              dsimp only
              rw [hnext, h₁.size b₁ hb₁]
              obtain ⟨r', fl', hrepr, hstats⟩ := ih h' hl' _ (by rw [Block.stop]; omega) hl'
                (tiles_middle.1 h₁.tiles).2
              refine ⟨b₁ :: r', fl', ?_, ?_⟩
              · rwa [List.append_assoc] at hrepr
              · rw [hstats, bytesIn_cons, bytesIn_cons, usedChunks_cons, hfree]
                simp [Nat.add_assoc]

/-- What `heapmem_stats` says of the chunks that it leaves. -/
theorem Repr.heapmemStats (h : Repr cfg Settled L Unfixed m s bs fl) :
    ∃ bs' fl', Repr cfg Settled L Unfixed m (s.heapmemStats cfg).2 bs' fl' ∧
      (s.heapmemStats cfg).1 =
        { allocated := bytesIn true bs'
          overhead := cfg.sizeofChunk * usedChunks bs'
          available := bytesIn false bs' +
            (cfg.heapmemArenaSize - (s.heapmemStats cfg).2.heapUsage)
          footprint := (s.heapmemStats cfg).2.heapUsage
          chunks := usedChunks bs' } := by
  obtain ⟨bs', fl', hrepr, hstats⟩ := Repr.statsFrom (l := []) h rfl ⟨0, 0, 0, 0, 0⟩ s.heapUsage
    (Nat.le_add_left _ _)
  refine ⟨bs', fl', hrepr, ?_⟩
  rw [Heap.heapmemStats]
  dsimp only
  rw [hstats]
  simp [Nat.mul_div_cancel_left _ cfg.sizeof_pos]

/-! ## Those who use the heap -/

/-- The heap, and what the owner of each pointer that was handed out knows of its bytes; `none` is a
byte that was not written since. -/
structure Client where
  heap : Heap
  live : ℕ → Option (List (Option UInt8))

/-- What is asked of the heap, or done to what it has handed out. -/
inductive Request
  | register (name : Option String) (zoneSize : ℕ)
  | alloc (zone size : ℕ)
  | free (ptr : Option ℕ)
  | realloc (ptr : Option ℕ) (size : ℕ)
  | write (ptr i : ℕ) (byte : UInt8)
  | stats

/-- What is known of the bytes after their number has changed. -/
def resized (size : ℕ) (content : List (Option UInt8)) : List (Option UInt8) :=
  content.take size ++ List.replicate (size - content.length) none

namespace Client

/-- The state after a function that hands out `size` bytes. -/
def handed (size : ℕ) (live : ℕ → Option (List (Option UInt8))) : Option ℕ × Heap → Client
  | (none, s) => ⟨s, live⟩
  | (some ptr, s) => ⟨s, Function.update live ptr (some (List.replicate size none))⟩

/-- The state after `heapmem_realloc`; what is resized to nothing is given back. -/
def moved (ptr size : ℕ) (content : List (Option UInt8)) (live : ℕ → Option (List (Option UInt8))) :
    Option ℕ × Heap → Client
  | (none, s) => ⟨s, if size = 0 then Function.update live ptr none else live⟩
  | (some ptr', s) =>
      ⟨s, Function.update (Function.update live ptr none) ptr' (some (resized size content))⟩

/-- A request is served; only pointers that were handed out are given back or written behind. -/
def step (cfg : Config) : Request → Client → Option Client
  | .register name zoneSize, c =>
      some { c with heap := (c.heap.heapmemZoneRegister name zoneSize).2 }
  | .alloc zone size, c => some (handed size c.live (c.heap.heapmemZoneAlloc cfg zone size))
  | .free none, c => some { c with heap := (c.heap.heapmemFree cfg none).2 }
  | .free (some ptr), c =>
      (c.live ptr).map fun _ =>
        ⟨(c.heap.heapmemFree cfg (some ptr)).2, Function.update c.live ptr none⟩
  | .realloc none size, c => some (handed size c.live (c.heap.heapmemRealloc cfg none size))
  | .realloc (some ptr) size, c =>
      (c.live ptr).map fun content =>
        moved ptr size content c.live (c.heap.heapmemRealloc cfg (some ptr) size)
  | .write ptr i byte, c =>
      (c.live ptr).bind fun content =>
        if i < content.length then
          some
            { heap :=
                { c.heap with heapBase := Function.update c.heap.heapBase (ptr + i) (.byte byte) }
              live := Function.update c.live ptr (some (content.set i (some byte))) }
        else none
  | .stats, c => some { c with heap := (c.heap.heapmemStats cfg).2 }

/-- The heap before the first call; nothing was handed out. -/
def boot (cfg : Config) : Client := ⟨Heap.boot cfg, fun _ => none⟩

/-- How many bytes behind a header are in use. -/
def lens (cfg : Config) (c : Client) (chunk : ℕ) : Option ℕ :=
  (c.live (chunk + cfg.sizeofChunk)).map List.length

/-- What holds in every run: `bs` are the chunks, and `fl` is the free list. -/
structure Sound (cfg : Config) (c : Client) (bs : List Block) (fl : List ℕ) : Prop where
  /-- The chunks lie one behind the other in the part of the arena that is used. -/
  tiles : Tiles cfg.sizeofChunk 0 bs c.heap.heapUsage
  usage_le : c.heap.heapUsage ≤ cfg.heapmemArenaSize
  /-- No header was written over. -/
  headers : ∀ b ∈ bs, HasRecord cfg.sizeofChunk c.heap.heapBase b.addr (c.heap.chunk cfg b.addr) ∧
    (c.heap.chunk cfg b.addr).size = b.size ∧
    (c.heap.chunk cfg b.addr).allocated = b.allocated
  aligned : cfg.heapmemAlignment ∣ cfg.sizeofChunk → ∀ b ∈ bs, cfg.heapmemAlignment ∣ b.addr
  /-- The free list leads through the free chunks, forth and back, each once. -/
  linked : Double (fun a => (c.heap.chunk cfg a).prev) (fun a => (c.heap.chunk cfg a).next) none
    c.heap.freeList fl
  nodup : fl.Nodup
  free : ∀ a, a ∈ fl ↔ ∃ b ∈ bs, b.addr = a ∧ b.allocated = false
  /-- The allocated chunks are those that have owners. -/
  owner : ∀ b ∈ bs, b.allocated = true → ∃ content, c.live (b.addr + cfg.sizeofChunk) = some content
  owned : ∀ ptr content, c.live ptr = some content →
    ∃ b ∈ bs, ptr = b.addr + cfg.sizeofChunk ∧ b.allocated = true ∧ content.length ≤ b.size
  /-- Owners do not meet. -/
  apart : ∀ ptr content ptr' content', c.live ptr = some content → c.live ptr' = some content' →
    ptr ≠ ptr' → ptr + content.length ≤ ptr' ∨ ptr' + content'.length ≤ ptr
  /-- An owner finds what it has written. -/
  known : ∀ ptr content i byte, c.live ptr = some content → content[i]? = some (some byte) →
    c.heap.heapBase (ptr + i) = .byte byte

/-- What every step keeps. -/
structure Inv (cfg : Config) (c : Client) : Prop where
  repr : ∃ bs fl, Repr cfg Settled (c.lens cfg) Unfixed c.heap.heapBase c.heap bs fl
  behind : ∀ ptr content, c.live ptr = some content → cfg.sizeofChunk ≤ ptr
  known : ∀ ptr content i byte, c.live ptr = some content → content[i]? = some (some byte) →
    c.heap.heapBase (ptr + i) = .byte byte

variable {c : Client} {h : Heap} {live : ℕ → Option (List (Option UInt8))}

theorem lens_update (ptr : ℕ) (content : Option (List (Option UInt8)))
    (hptr : cfg.sizeofChunk ≤ ptr) :
    lens cfg ⟨h, Function.update live ptr content⟩ =
      Function.update (lens cfg ⟨h, live⟩) (ptr - cfg.sizeofChunk) (content.map List.length) := by
  funext a
  simp only [lens, Function.update_apply]
  by_cases heq : a = ptr - cfg.sizeofChunk
  · rw [if_pos heq, if_pos (by omega)]
  · rw [if_neg heq, if_neg (by omega)]

theorem update_eq_some {ptr ptr' : ℕ} {v : Option (List (Option UInt8))}
    {content : List (Option UInt8)} : Function.update live ptr v ptr' = some content ↔
      (ptr' = ptr ∧ v = some content) ∨ (ptr' ≠ ptr ∧ live ptr' = some content) := by
  rw [Function.update_apply]
  split <;> simp [*]

theorem inv_boot : Inv cfg (boot cfg) := by
  refine ⟨⟨[], [], ⟨⟨rfl, Nat.zero_le _, ?_, ?_, ?_, ?_, ?_, ?_, ?_, ?_⟩, rfl, List.nodup_nil, ?_⟩⟩,
    ?_, ?_⟩
  all_goals simp [boot, lens, Unfixed]

theorem lens_eq (hc : Inv cfg c) {ptr : ℕ} {content : List (Option UInt8)}
    (hptr : c.live ptr = some content) :
    c.lens cfg (ptr - cfg.sizeofChunk) = some content.length := by
  rw [lens, Nat.sub_add_cancel (hc.behind ptr content hptr), hptr, Option.map_some]

/-- The chunk that a pointer was handed out of. -/
theorem Inv.block (hc : Inv cfg c) {ptr : ℕ} {content : List (Option UInt8)}
    (hptr : c.live ptr = some content) :
    ∃ bs fl b, Repr cfg Settled (c.lens cfg) Unfixed c.heap.heapBase c.heap bs fl ∧ b ∈ bs ∧
      ptr = b.addr + cfg.sizeofChunk ∧ b.allocated = true ∧ content.length ≤ b.size := by
  obtain ⟨bs, fl, hrepr⟩ := hc.repr
  obtain ⟨b, hb, haddr, hall, hle⟩ := hrepr.owned _ _ (lens_eq hc hptr)
  refine ⟨bs, fl, b, hrepr, hb, ?_, hall, hle⟩
  rw [haddr, Nat.sub_add_cancel (hc.behind ptr content hptr)]

/-- What is known of the bytes behind a pointer stays so as long as they are kept. -/
theorem Inv.known_of_kept (hc : Inv cfg c) {L : ℕ → Option ℕ} {bs : List Block} {fl : List ℕ}
    (hrepr : Repr cfg Settled L Unfixed c.heap.heapBase h bs fl) {ptr i : ℕ}
    {content : List (Option UInt8)} {byte : UInt8} (hptr : c.live ptr = some content)
    (hL : L (ptr - cfg.sizeofChunk) = c.lens cfg (ptr - cfg.sizeofChunk))
    (hi : content[i]? = some (some byte)) : h.heapBase (ptr + i) = .byte byte := by
  rw [lens_eq hc hptr] at hL
  have hkept := hrepr.kept _ _ hL i (List.getElem?_eq_some_iff.1 hi).1
  rw [Nat.sub_add_cancel (hc.behind ptr content hptr)] at hkept
  rw [hkept, hc.known ptr content i byte hptr hi]

theorem Inv.of_repr (hc : Inv cfg c) {bs : List Block} {fl : List ℕ}
    (hrepr : Repr cfg Settled (c.lens cfg) Unfixed c.heap.heapBase h bs fl) :
    Inv cfg ⟨h, c.live⟩ :=
  ⟨⟨bs, fl, hrepr.refresh⟩, hc.behind, fun _ _ _ _ hptr hi => hc.known_of_kept hrepr hptr rfl hi⟩

theorem Inv.handed (hc : Inv cfg c) {size n : ℕ} {result : Option ℕ × Heap}
    (hresult : Allocates cfg (c.lens cfg) Unfixed c.heap.heapBase n result) (hle : size ≤ n) :
    Inv cfg (handed size c.live result) := by
  obtain ⟨p, h⟩ := result
  cases p with
  | none =>
      obtain ⟨bs, fl, hrepr⟩ := hresult.fails rfl
      exact hc.of_repr hrepr
  | some ptr =>
      obtain ⟨q, rfl, hq, bs, fl, hrepr, b, hb, rfl, hall, hsize⟩ := hresult.hands ptr rfl
      refine ⟨⟨bs, fl, ?_⟩, fun ptr content hptr => ?_, fun ptr content i byte hptr hi => ?_⟩
      · have hresize := hrepr.resize hb hall (Nat.le_trans hle hsize)
        rw [Function.update_idem] at hresize
        rw [Client.handed, lens_update _ _ (Nat.le_add_left _ _), Nat.add_sub_cancel,
          Option.map_some, List.length_replicate]
        exact hresize
      · rcases update_eq_some.1 hptr with ⟨rfl, -⟩ | ⟨-, hptr⟩
        · exact Nat.le_add_left _ _
        · exact hc.behind ptr content hptr
      · rcases update_eq_some.1 hptr with ⟨-, hnew⟩ | ⟨hne, hptr⟩
        · obtain rfl := Option.some.inj hnew
          rw [List.getElem?_replicate] at hi
          split at hi <;> cases hi
        · have hbehind := hc.behind ptr content hptr
          exact hc.known_of_kept hrepr hptr (Function.update_of_ne (by omega) _ _) hi

/-- What is behind a pointer is given back. -/
theorem Inv.freed (hc : Inv cfg c) {ptr : ℕ} {content : List (Option UInt8)}
    (hptr : c.live ptr = some content) :
    Inv cfg ⟨(c.heap.heapmemFree cfg (some ptr)).2, Function.update c.live ptr none⟩ := by
  obtain ⟨bs, fl, b, hrepr, hb, rfl, hall, -⟩ := hc.block hptr
  obtain ⟨-, bs', fl', hrepr'⟩ := hrepr.heapmemFree hb hall
  have hother : ∀ ptr content, Function.update c.live (b.addr + cfg.sizeofChunk) none ptr =
      some content → ptr ≠ b.addr + cfg.sizeofChunk ∧ c.live ptr = some content :=
    fun _ _ hptr => (update_eq_some.1 hptr).resolve_left fun hnone => by cases hnone.2
  refine ⟨⟨bs', fl', ?_⟩, fun ptr content hptr => ?_, fun ptr content i byte hptr hi => ?_⟩
  · rw [lens_update _ _ (Nat.le_add_left _ _), Nat.add_sub_cancel]
    exact hrepr'.refresh
  · exact hc.behind ptr content (hother ptr content hptr).2
  · obtain ⟨hne, hptr⟩ := hother ptr content hptr
    have hbehind := hc.behind ptr content hptr
    exact hc.known_of_kept hrepr' hptr (Function.update_of_ne (by omega) _ _) hi

theorem getElem?_resized {size i : ℕ} {content : List (Option UInt8)} {byte : UInt8}
    (hi : (resized size content)[i]? = some (some byte)) :
    i < size ∧ content[i]? = some (some byte) := by
  rw [resized, List.getElem?_append] at hi
  split at hi
  · next hlt =>
      rw [List.length_take] at hlt
      rw [List.getElem?_take] at hi
      split at hi
      · next hsize => exact ⟨hsize, hi⟩
      · cases hi
  · simp [List.getElem?_replicate] at hi

theorem length_resized (size : ℕ) (content : List (Option UInt8)) :
    (resized size content).length = size := by
  simp [resized]
  omega

theorem Inv.moved (hc : Inv cfg c) {ptr size : ℕ} {content : List (Option UInt8)}
    (hptr : c.live ptr = some content) {result : Option ℕ × Heap} (hsize : size ≠ 0)
    (hresult : Reallocates cfg (c.lens cfg) c.heap (ptr - cfg.sizeofChunk) content.length size
      result) : Inv cfg (moved ptr size content c.live result) := by
  obtain ⟨p, h⟩ := result
  have hbehind := hc.behind ptr content hptr
  cases p with
  | none =>
      obtain ⟨bs, fl, hrepr⟩ := hresult.fails rfl
      rw [Client.moved, if_neg hsize]
      exact hc.of_repr hrepr
  | some ptr' =>
      obtain ⟨q, rfl, -, ⟨bs, fl, hrepr⟩, hkeeps, hcopied⟩ := hresult.places ptr' rfl
      have hother : ∀ ptr' content', Function.update c.live ptr none ptr' = some content' →
          ptr' ≠ ptr ∧ c.live ptr' = some content' :=
        fun _ _ hptr' => (update_eq_some.1 hptr').resolve_left fun hnone => by cases hnone.2
      refine ⟨⟨bs, fl, ?_⟩, fun ptr' content' hptr' => ?_, fun ptr' content' i byte hptr' hi => ?_⟩
      · rw [Client.moved, lens_update _ _ (Nat.le_add_left _ _), Nat.add_sub_cancel,
          lens_update _ _ hbehind, Option.map_some, length_resized]
        exact hrepr
      · rcases update_eq_some.1 hptr' with ⟨rfl, -⟩ | ⟨-, hptr'⟩
        · exact Nat.le_add_left _ _
        · exact hc.behind ptr' content' (hother ptr' content' hptr').2
      · rcases update_eq_some.1 hptr' with ⟨rfl, hnew⟩ | ⟨-, hptr'⟩
        · obtain rfl := Option.some.inj hnew
          obtain ⟨hlt, hi⟩ := getElem?_resized hi
          have hcopy := hcopied i (List.getElem?_eq_some_iff.1 hi).1 hlt
          rw [Nat.sub_add_cancel hbehind] at hcopy
          exact hcopy.trans (hc.known ptr content i byte hptr hi)
        · obtain ⟨hne, hptr'⟩ := hother ptr' content' hptr'
          have hbehind' := hc.behind ptr' content' hptr'
          have hkept := hkeeps (ptr' - cfg.sizeofChunk) _ (by omega) (lens_eq hc hptr') i
            (List.getElem?_eq_some_iff.1 hi).1
          rw [Nat.sub_add_cancel hbehind'] at hkept
          exact hkept.trans (hc.known ptr' content' i byte hptr' hi)

/-- A byte is written by its owner. -/
theorem Inv.written (hc : Inv cfg c) {ptr i : ℕ} {content : List (Option UInt8)} (byte : UInt8)
    (hptr : c.live ptr = some content) (hi : i < content.length) :
    Inv cfg
      { heap := { c.heap with heapBase := Function.update c.heap.heapBase (ptr + i) (.byte byte) }
        live := Function.update c.live ptr (some (content.set i (some byte))) } := by
  obtain ⟨bs, fl, b, hrepr, hb, rfl, -, hle⟩ := hc.block hptr
  have hwrite := hrepr.write { c.heap with
      heapBase := Function.update c.heap.heapBase (b.addr + cfg.sizeofChunk + i) (.byte byte) } hb
    (fun j hj => Function.update_of_ne (by rw [Block.stop] at hj; omega) _ _) rfl rfl
  refine ⟨⟨bs, fl, ?_⟩, fun ptr content hptr => ?_, fun ptr' content' j byte' hptr' hj => ?_⟩
  · rw [lens_update _ _ (Nat.le_add_left _ _), Option.map_some, List.length_set, ← lens_eq hc hptr]
    refine Eq.mp (congrArg (fun L => Repr cfg Settled L Unfixed _ _ bs fl) ?_) hwrite.1
    exact (Function.update_eq_self _ _).symm
  · rcases update_eq_some.1 hptr with ⟨rfl, -⟩ | ⟨-, hptr⟩
    · exact Nat.le_add_left _ _
    · exact hc.behind ptr content hptr
  · rcases update_eq_some.1 hptr' with ⟨rfl, hnew⟩ | ⟨hne, hptr'⟩
    · obtain rfl := Option.some.inj hnew
      rw [List.getElem?_set] at hj
      split at hj
      · next heq =>
          subst heq
          obtain rfl := Option.some.inj (Option.some.inj hj)
          exact Function.update_self ..
      · next hij =>
          refine (Function.update_of_ne (by omega) _ _).trans ?_
          exact hc.known _ content j byte' hptr hj
    · have hbehind := hc.behind ptr' content' hptr'
      have hkept := hwrite.2 (ptr' - cfg.sizeofChunk) _ (by omega) (lens_eq hc hptr') j
        (List.getElem?_eq_some_iff.1 hj).1
      rw [Nat.sub_add_cancel hbehind] at hkept
      exact hkept.trans (hc.known ptr' content' j byte' hptr' hj)

/-! ## Runs -/

theorem step_inv (hc : Inv cfg c) (req : Request) {c' : Client} (hstep : step cfg req c = some c') :
    Inv cfg c' := by
  obtain ⟨bs, fl, hrepr⟩ := hc.repr
  cases req with
  | register name zoneSize =>
      obtain rfl := Option.some.inj hstep
      exact hc.of_repr (hrepr.heapmemZoneRegister name zoneSize)
  | alloc zone size =>
      obtain rfl := Option.some.inj hstep
      exact hc.handed (hrepr.heapmemZoneAlloc zone size) (cfg.le_align size)
  | free ptr =>
      cases ptr with
      | none =>
          obtain rfl := Option.some.inj hstep
          exact hc
      | some ptr =>
          obtain ⟨content, hptr, rfl⟩ := Option.map_eq_some_iff.1 hstep
          exact hc.freed hptr
  | realloc ptr size =>
      cases ptr with
      | none =>
          obtain rfl := Option.some.inj hstep
          unfold Heap.heapmemRealloc
          split
          · exact hc
          · exact hc.handed (hrepr.heapmemZoneAlloc heapmemZoneGeneral size) (cfg.le_align size)
      | some ptr =>
          obtain ⟨content, hptr, rfl⟩ := Option.map_eq_some_iff.1 hstep
          by_cases hsize : size = 0
          · subst hsize
            exact hc.freed hptr
          · obtain ⟨bs, fl, b, hrepr, hb, rfl, hall, hle⟩ := hc.block hptr
            refine hc.moved hptr hsize ?_
            have hlens := lens_eq hc hptr
            rw [Nat.add_sub_cancel] at hlens ⊢
            exact hrepr.heapmemRealloc hb hall hlens hsize
  | write ptr i byte =>
      obtain ⟨content, hptr, hwrite⟩ := Option.bind_eq_some_iff.1 hstep
      split at hwrite
      · next hi =>
          obtain rfl := Option.some.inj hwrite
          exact hc.written byte hptr hi
      · cases hwrite
  | stats =>
      obtain rfl := Option.some.inj hstep
      obtain ⟨bs', fl', hrepr', -⟩ := hrepr.heapmemStats
      exact hc.of_repr hrepr'

theorem run_inv {reqs : List Request} (hrun : run (step cfg) reqs (boot cfg) = some c) :
    Inv cfg c :=
  run_invariant_of_step (fun _ req _ hc hstep => step_inv hc req hstep) inv_boot hrun

theorem Inv.sound (hc : Inv cfg c) {bs : List Block} {fl : List ℕ}
    (hrepr : Repr cfg Settled (c.lens cfg) Unfixed c.heap.heapBase c.heap bs fl) :
    Sound cfg c bs fl := by
  have howned : ∀ ptr content, c.live ptr = some content →
      ∃ b ∈ bs, ptr = b.addr + cfg.sizeofChunk ∧ b.allocated = true ∧
        content.length ≤ b.size := by
    intro ptr content hptr
    obtain ⟨b, hb, haddr, hrest⟩ := hrepr.owned _ _ (lens_eq hc hptr)
    have hbehind := hc.behind ptr content hptr
    exact ⟨b, hb, by omega, hrest⟩
  refine ⟨hrepr.tiles, hrepr.usage_le,
    fun b hb => ⟨hrepr.intact b hb, hrepr.size b hb, hrepr.flag b hb id⟩,
    fun hdvd b hb => hrepr.tiles.dvd_addr (Nat.dvd_zero _) hdvd (hrepr.aligned hdvd) hb,
    hrepr.linked, hrepr.nodup, hrepr.mem_free, fun b hb hall => ?_, howned,
    fun ptr content ptr' content' hptr hptr' hne => ?_, hc.known⟩
  · obtain ⟨k, hk⟩ := hrepr.live b hb hall
    obtain ⟨content, hcontent, -⟩ := Option.map_eq_some_iff.1 hk
    exact ⟨content, hcontent⟩
  · obtain ⟨b, hb, rfl, -, hle⟩ := howned ptr content hptr
    obtain ⟨b', hb', rfl, -, hle'⟩ := howned ptr' content' hptr'
    have hapart := hrepr.tiles.apart hb hb' fun heq => hne (by rw [heq])
    rw [Block.stop, Block.stop] at hapart
    omega

/-- In every run the chunks tile the part of the arena that is used, the free list leads through the
free ones, the memory that was handed out and not given back does not meet, neither each other nor a
header, and every owner finds there what it has written. -/
theorem run_sound {reqs : List Request} (hrun : run (step cfg) reqs (boot cfg) = some c) :
    ∃ bs fl, Sound cfg c bs fl := by
  have hc := run_inv hrun
  obtain ⟨bs, fl, hrepr⟩ := hc.repr
  exact ⟨bs, fl, hc.sound hrepr⟩

theorem small_alignment_pos : 0 < 4 := by decide

theorem small_sizeof_pos : 0 < 8 := by decide

theorem small_arena_le : 64 + 4 + 8 ≤ 2 ^ 31 := by decide

theorem small_sizeBits_ge : 32 ≤ 32 := le_rfl

/-- A heap of 64 bytes. -/
def small : Config where
  heapmemArenaSize := 64
  chunkSearchMax := 4
  heapmemAlignment := 4
  sizeofChunk := 8
  heapmemMaxZones := 1
  sizeBits := 32
  alignment_pos := small_alignment_pos
  sizeof_pos := small_sizeof_pos
  arena_le := small_arena_le
  sizeBits_ge := small_sizeBits_ge

/-- Three objects; the one in the middle is freed, and the first one grows over it. -/
def smallRun : List Request :=
  [.alloc 0 5, .alloc 0 4, .alloc 0 4, .write 8 4 9, .free (some 24), .realloc (some 8) 6,
    .realloc (some 8) 10, .stats]

theorem run_sound_small : ∃ c, run (step small) smallRun (boot small) = some c ∧
    c.live 8 = some [none, none, none, none, some 9, none, none, none, none, none] ∧
    c.live 36 = some [none, none, none, none] ∧ ∃ bs fl, Sound small c bs fl :=
  ⟨_, rfl, by decide, by decide, run_sound (rfl : run (step small) smallRun _ = some _)⟩

/-- After every run, `heapmem_stats` tells what is in the chunks that it leaves; together with the
headers these fill the arena. -/
theorem heapmemStats_eq {reqs : List Request} (hrun : run (step cfg) reqs (boot cfg) = some c) :
    ∃ bs fl, Sound cfg ⟨(c.heap.heapmemStats cfg).2, c.live⟩ bs fl ∧
      (c.heap.heapmemStats cfg).1.allocated = bytesIn true bs ∧
      (c.heap.heapmemStats cfg).1.chunks = usedChunks bs ∧
      (c.heap.heapmemStats cfg).1.overhead = cfg.sizeofChunk * usedChunks bs ∧
      (c.heap.heapmemStats cfg).1.allocated + (c.heap.heapmemStats cfg).1.available +
        cfg.sizeofChunk * bs.length = cfg.heapmemArenaSize := by
  have hc := run_inv hrun
  obtain ⟨bs, fl, hrepr⟩ := hc.repr
  obtain ⟨bs', fl', hrepr', hstats⟩ := hrepr.heapmemStats
  refine ⟨bs', fl', (hc.of_repr hrepr').sound hrepr'.refresh, ?_⟩
  have hbytes := hrepr'.tiles.bytes
  have hle := hrepr'.usage_le
  rw [hstats]
  refine ⟨rfl, rfl, rfl, ?_⟩
  dsimp only
  omega

theorem heapmemStats_eq_small : ∃ c, run (step small) smallRun (boot small) = some c ∧
    (c.heap.heapmemStats small).1 = ⟨24, 16, 24, 40, 2⟩ ∧ ∃ bs, bytesIn true bs = 24 ∧
      usedChunks bs = 2 := by
  obtain ⟨bs, fl, -, hbytes, hchunks, -⟩ :=
    heapmemStats_eq (rfl : run (step small) smallRun _ = some _)
  exact ⟨_, rfl, by decide, bs, hbytes.symm, hchunks.symm⟩

end Client

end Den2ne.HeapMem
