import Den2ne.Memory.Record
import Mathlib.Algebra.Order.Ring.Int

/-!
# The heap

The allocator of `heapmem.c`. Positions are counted from `heap_base`, and a pointer is a position or
`none`, the NULL pointer. The headers of the chunks lie in the arena, between what is handed out: a
header that is written destroys what it meets. What is logged and what is only kept for debugging is
left out.

`IN_HEAP` has no brackets around it, so that `!IN_HEAP(ptr)` holds only of pointers below
`heap_base`: of the pointers here only `none` is refused.
-/

namespace Den2ne.HeapMem

open Memory

/-- What is configured: `HEAPMEM_ARENA_SIZE`, `CHUNK_SEARCH_MAX`, `HEAPMEM_ALIGNMENT`,
`sizeof(chunk_t)`, `HEAPMEM_MAX_ZONES` and the bits of a `size_t`. A difference of sizes is an
`int`. -/
structure Config where
  heapmemArenaSize : ℕ
  chunkSearchMax : ℕ
  heapmemAlignment : ℕ
  sizeofChunk : ℕ
  heapmemMaxZones : ℕ
  sizeBits : ℕ
  alignment_pos : 0 < heapmemAlignment
  sizeof_pos : 0 < sizeofChunk
  arena_le : heapmemArenaSize + heapmemAlignment + sizeofChunk ≤ 2 ^ 31
  sizeBits_ge : 32 ≤ sizeBits

/-- `chunk_t`; of the flags there is one. -/
structure Chunk where
  prev : Option ℕ
  next : Option ℕ
  size : ℕ
  allocated : Bool
  zone : ℕ
deriving DecidableEq, Repr

/-- What is read where there is no header. -/
def Chunk.junk : Chunk := ⟨none, none, 0, false, 0⟩

/-- `struct heapmem_zone`. -/
structure Zone where
  name : Option String
  zoneSize : ℕ
  allocated : ℕ
deriving DecidableEq, Repr

/-- `HEAPMEM_ZONE_GENERAL`. -/
def heapmemZoneGeneral : ℕ := 0

/-- The variables of the module. -/
structure Heap where
  heapBase : ℕ → Cell Chunk UInt8
  heapUsage : ℕ
  freeList : Option ℕ
  zones : List Zone

variable (cfg : Config)

/-- `ALIGN`. -/
def Config.align (size : ℕ) : ℕ :=
  (size + (cfg.heapmemAlignment - 1)) / cfg.heapmemAlignment * cfg.heapmemAlignment

/-- A `size_t`. -/
def Config.wrap (n : ℤ) : ℕ := (n % 2 ^ cfg.sizeBits).toNat

/-- The heap before the first call. -/
def Heap.boot : Heap where
  heapBase := fun _ => .byte 0
  heapUsage := 0
  freeList := none
  zones := ⟨some "GENERAL", cfg.heapmemArenaSize, 0⟩ ::
    List.replicate (cfg.heapmemMaxZones - 1) ⟨none, 0, 0⟩

namespace Heap

/-- The header at `chunk`. -/
def chunk (s : Heap) (chunk : ℕ) : Chunk := getRecord cfg.sizeofChunk Chunk.junk s.heapBase chunk

/-- Write to fields of a header. -/
def modify (chunk : ℕ) (f : Chunk → Chunk) (s : Heap) : Heap :=
  { s with heapBase := putRecord cfg.sizeofChunk s.heapBase chunk (f (s.chunk cfg chunk)) }

/-- Write to fields of the header that a pointer leads to; through NULL nothing is written. -/
def modifyPtr (ptr : Option ℕ) (f : Chunk → Chunk) (s : Heap) : Heap :=
  match ptr with
  | none => s
  | some chunk => s.modify cfg chunk f

/-- `NEXT_CHUNK`. -/
def nextChunk (s : Heap) (chunk : ℕ) : ℕ := chunk + cfg.sizeofChunk + (s.chunk cfg chunk).size

/-- `IS_LAST_CHUNK`. -/
def IsLastChunk (s : Heap) (chunk : ℕ) : Prop := s.nextChunk cfg chunk = s.heapUsage

instance (s : Heap) (chunk : ℕ) : Decidable (s.IsLastChunk cfg chunk) :=
  inferInstanceAs (Decidable (_ = _))

/-- `extend_space`. -/
def extendSpace (size : ℕ) (s : Heap) : Option ℕ × Heap :=
  if cfg.heapmemArenaSize - s.heapUsage < size then (none, s)
  else (some s.heapUsage, { s with heapUsage := s.heapUsage + size })

/-- `free_chunk`. -/
def freeChunk (chunk : ℕ) (s : Heap) : Heap :=
  let s := s.modify cfg chunk fun c => { c with allocated := false }
  if s.IsLastChunk cfg chunk then
    { s with heapUsage := s.heapUsage - (cfg.sizeofChunk + (s.chunk cfg chunk).size) }
  else
    let s := s.modify cfg chunk fun c => { c with prev := none, next := s.freeList }
    let s := s.modifyPtr cfg s.freeList fun c => { c with prev := some chunk }
    { s with freeList := some chunk }

/-- `remove_chunk_from_free_list`. -/
def removeChunkFromFreeList (chunk : ℕ) (s : Heap) : Heap :=
  let s :=
    if s.freeList = some chunk then
      let s := { s with freeList := (s.chunk cfg chunk).next }
      s.modifyPtr cfg s.freeList fun c => { c with prev := none }
    else
      s.modifyPtr cfg (s.chunk cfg chunk).prev fun c => { c with next := (s.chunk cfg chunk).next }
  s.modifyPtr cfg (s.chunk cfg chunk).next fun c => { c with prev := (s.chunk cfg chunk).prev }

/-- `split_chunk`. -/
def splitChunk (chunk offset : ℕ) (s : Heap) : Heap :=
  let offset := cfg.align offset
  if offset + cfg.sizeofChunk < (s.chunk cfg chunk).size then
    let newChunk := chunk + cfg.sizeofChunk + offset
    let size := (s.chunk cfg chunk).size - cfg.sizeofChunk - offset
    let s := s.modify cfg newChunk fun c => { c with size := size, allocated := false }
    let s := s.freeChunk cfg newChunk
    s.modify cfg chunk fun c => { c with size := offset, next := none, prev := none }
  else s

/-- The loop of `coalesce_chunks`, for at most `fuel` rounds; every round goes on by a header. -/
def coalesceFrom (chunk : ℕ) : ℕ → ℕ → Heap → Heap
  | 0, _, s => s
  | fuel + 1, next, s =>
      if next < s.heapUsage ∧ (s.chunk cfg next).allocated = false then
        let size := (s.chunk cfg next).size
        let s := s.modify cfg chunk fun c =>
          { c with size := c.size + (cfg.sizeofChunk + size) }
        let s := s.removeChunkFromFreeList cfg next
        coalesceFrom chunk fuel (s.nextChunk cfg next) s
      else s

/-- `coalesce_chunks`. -/
def coalesceChunks (chunk : ℕ) (s : Heap) : Heap :=
  s.coalesceFrom cfg chunk s.heapUsage (s.nextChunk cfg chunk)

/-- The loop of `defrag_chunks`. -/
def defragFrom : ℕ → Option ℕ → Heap → Heap
  | 0, _, s => s
  | _ + 1, none, s => s
  | i + 1, some chunk, s =>
      let s := s.coalesceChunks cfg chunk
      defragFrom i (s.chunk cfg chunk).next s

/-- `defrag_chunks`. -/
def defragChunks (s : Heap) : Heap := s.defragFrom cfg cfg.chunkSearchMax s.freeList

/-- The chunk that is `best` after `chunk`, which is large enough. -/
def better (s : Heap) (chunk : ℕ) : Option ℕ → ℕ
  | none => chunk
  | some best => if (s.chunk cfg chunk).size < (s.chunk cfg best).size then chunk else best

/-- The loop of `get_free_chunk`. -/
def searchFrom (s : Heap) (size : ℕ) : ℕ → Option ℕ → Option ℕ → Option ℕ
  | 0, _, best => best
  | _ + 1, none, best => best
  | i + 1, some chunk, best =>
      if size ≤ (s.chunk cfg chunk).size then
        let best := s.better cfg chunk best
        if (s.chunk cfg best).size = size then some best
        else searchFrom s size i (s.chunk cfg chunk).next (some best)
      else searchFrom s size i (s.chunk cfg chunk).next best

/-- `get_free_chunk`. -/
def getFreeChunk (size : ℕ) (s : Heap) : Option ℕ × Heap :=
  let s := s.defragChunks cfg
  match s.searchFrom cfg size cfg.chunkSearchMax s.freeList none with
  | none => (none, s)
  | some best => (some best, (s.removeChunkFromFreeList cfg best).splitChunk cfg best size)

/-- Add to the counter of a zone. -/
def addAllocated (zone : ℕ) (n : ℤ) (s : Heap) : Heap :=
  { s with
    zones := s.zones.modify zone fun z => { z with allocated := cfg.wrap (z.allocated + n) } }

/-- `heapmem_zone_register`; `none` is the invalid zone. -/
def heapmemZoneRegister (name : Option String) (zoneSize : ℕ) (s : Heap) : Option ℕ × Heap :=
  match s.zones with
  | [] => (none, s)
  | general :: zones =>
      if general.zoneSize < zoneSize ∨ name = none ∨ zoneSize = 0 then (none, s)
      else
        match zones.findIdx? fun z => z.name = none ∨ z.name = name with
        | none => (none, s)
        | some i =>
            if (zones[i]?.bind Zone.name) = none then
              (some (i + 1),
                { s with
                  zones := { general with zoneSize := general.zoneSize - zoneSize } ::
                    zones.modify i fun z => { z with name := name, zoneSize := zoneSize } })
            else (none, s)

/-- The end of `heapmem_zone_alloc`, from the flags on. -/
def handOut (zone size chunk : ℕ) (s : Heap) : Option ℕ × Heap :=
  let s := s.modify cfg chunk fun c => { c with allocated := true }
  let s := s.modify cfg chunk fun c => { c with zone := zone }
  (some (chunk + cfg.sizeofChunk), s.addAllocated cfg zone (cfg.sizeofChunk + size : ℕ))

/-- `heapmem_zone_alloc`. -/
def heapmemZoneAlloc (zone size : ℕ) (s : Heap) : Option ℕ × Heap :=
  if cfg.heapmemArenaSize < size then (none, s)
  else
    match s.zones[zone]? with
    | none => (none, s)
    | some z =>
        if z.name = none then (none, s)
        else
          let size := cfg.align size
          if cfg.wrap (z.zoneSize - z.allocated) < cfg.sizeofChunk + size then (none, s)
          else
            match s.getFreeChunk cfg size with
            | (some chunk, s) => s.handOut cfg zone size chunk
            | (none, s) =>
                match s.extendSpace cfg (cfg.sizeofChunk + size) with
                | (none, s) => (none, s)
                | (some chunk, s) =>
                    (s.modify cfg chunk fun c => { c with size := size }).handOut cfg zone size
                      chunk

/-- `heapmem_free`. -/
def heapmemFree (ptr : Option ℕ) (s : Heap) : Bool × Heap :=
  match ptr with
  | none => (false, s)
  | some ptr =>
      let chunk := ptr - cfg.sizeofChunk
      if (s.chunk cfg chunk).allocated then
        let s := s.addAllocated cfg (s.chunk cfg chunk).zone
          (-(cfg.sizeofChunk + (s.chunk cfg chunk).size : ℕ))
        (true, s.freeChunk cfg chunk)
      else (false, s)

/-- `memcpy`, between places that do not meet. -/
def memcpy (dst src n : ℕ) (s : Heap) : Heap :=
  { s with heapBase := fun i =>
      if dst ≤ i ∧ i < dst + n then s.heapBase (src + (i - dst)) else s.heapBase i }

/-- The end of `heapmem_realloc`, where the object is placed elsewhere. -/
def moveChunk (chunk size : ℕ) (s : Heap) : Option ℕ × Heap :=
  match s.heapmemZoneAlloc cfg (s.chunk cfg chunk).zone size with
  | (none, s) => (none, s)
  | (some newptr, s) =>
      let s := s.memcpy newptr (chunk + cfg.sizeofChunk) (s.chunk cfg chunk).size
      (some newptr, s.freeChunk cfg chunk)

/-- `heapmem_realloc`. -/
def heapmemRealloc (ptr : Option ℕ) (size : ℕ) (s : Heap) : Option ℕ × Heap :=
  if cfg.heapmemArenaSize < size then (none, s)
  else
    match ptr with
    | none => s.heapmemZoneAlloc cfg heapmemZoneGeneral size
    | some ptr =>
        if size = 0 then (none, (s.heapmemFree cfg (some ptr)).2)
        else
          let chunk := ptr - cfg.sizeofChunk
          if (s.chunk cfg chunk).allocated then
            let size := cfg.align size
            let sizeAdj : ℤ := size - (s.chunk cfg chunk).size
            let zone := (s.chunk cfg chunk).zone
            if sizeAdj ≤ 0 then
              (some ptr, (s.splitChunk cfg chunk size).addAllocated cfg zone sizeAdj)
            else if s.IsLastChunk cfg chunk then
              match s.extendSpace cfg sizeAdj.toNat with
              | (some _, s) =>
                  (some ptr, (s.modify cfg chunk fun c => { c with size := size }).addAllocated cfg
                    zone sizeAdj)
              | (none, s) => s.moveChunk cfg chunk size
            else
              let s := s.coalesceChunks cfg chunk
              if size ≤ (s.chunk cfg chunk).size then
                (some ptr, (s.splitChunk cfg chunk size).addAllocated cfg zone sizeAdj)
              else s.moveChunk cfg chunk size
          else (none, s)

/-- `heapmem_stats_t`. -/
structure Stats where
  allocated : ℕ
  overhead : ℕ
  available : ℕ
  footprint : ℕ
  chunks : ℕ
deriving DecidableEq, Repr

/-- The loop of `heapmem_stats`, for at most `fuel` rounds. -/
def statsFrom : ℕ → ℕ → Stats → Heap → Stats × Heap
  | 0, _, stats, s => (stats, s)
  | fuel + 1, chunk, stats, s =>
      if chunk < s.heapUsage then
        if (s.chunk cfg chunk).allocated then
          statsFrom fuel (s.nextChunk cfg chunk)
            { stats with
              allocated := stats.allocated + (s.chunk cfg chunk).size
              overhead := stats.overhead + cfg.sizeofChunk } s
        else
          let s := s.coalesceChunks cfg chunk
          statsFrom fuel (s.nextChunk cfg chunk)
            { stats with available := stats.available + (s.chunk cfg chunk).size } s
      else (stats, s)

/-- `heapmem_stats`. -/
def heapmemStats (s : Heap) : Stats × Heap :=
  let (stats, s) := s.statsFrom cfg s.heapUsage 0 ⟨0, 0, 0, 0, 0⟩
  ({ stats with
      available := stats.available + (cfg.heapmemArenaSize - s.heapUsage)
      footprint := s.heapUsage
      chunks := stats.overhead / cfg.sizeofChunk }, s)

end Heap

end Den2ne.HeapMem
