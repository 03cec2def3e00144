import Den2ne.Mpl.State

/-!
# Control messages

`icmp_out` writes an entry for each seed of a domain: its smallest sequence number, the
seed id and a bit vector of the messages that are buffered. `icmp_in` compares such entries
with the own sets. A received payload is a function from the offset, since the loops of
`icmp_in` may read behind its end; a `Walk` collects the offsets that are read, and the
indices of `BIT_VECTOR_GET_BIT` with the vector length that the entry announces.

`turns` bounds the loops that end anyway. The search for the last bit that is set goes on
for ever if none is set, so it has `fuel` and runs out of it.
-/

namespace Den2ne.Mpl

/-- A received control message: `len` is `uip_len - uip_l3_icmp_hdr_len`. -/
structure Icmp where
  srcipaddr : Ip6Addr
  destipaddr : Ip6Addr
  type : UInt8
  icode : UInt8
  ttl : UInt8
  payload : ℕ → UInt8
  len : ℕ

/-- `icmp_in` so far. `gets` are the bits that were looked at, with the number of bits that
their entry announces. -/
structure Walk where
  state : State
  reads : List ℕ
  gets : List (ℕ × ℕ)
  lMissing : Bool
  rMissing : Bool

namespace Walk

def read (ks : List ℕ) (w : Walk) : Walk := { w with reads := w.reads ++ ks }

/-- The timer of a message that the remote side misses is started and reset. -/
def restart (m : ℕ) (w : Walk) : Walk :=
  { w with state := w.state.setMsg m { w.state.msgs m with tt := Trickle.start } }

/-- The timers of all messages of a seed. -/
def restartAll : List ℕ → Walk → Walk
  | [], w => w
  | m :: ms, w => restartAll ms (w.restart m)

end Walk

/-! ## Entries -/

/-- An address as the bytes behind a pointer to it. -/
def addrBytes (a : Ip6Addr) (k : ℕ) : UInt8 := a ⟨k % 16, Nat.mod_lt k (Nat.succ_pos 15)⟩

/-- The size of the part of an entry before its vector. -/
def seedInfoSize (cfg : Config) : ℕ → ℕ
  | 0 => 2
  | 1 => 4
  | 2 => 10 + cfg.seedInfoPad
  | _ => 18

namespace Icmp

variable (cfg : Config) (p : Icmp)

/-- `SEED_INFO_GET_S`. -/
def getS (pos : ℕ) : ℕ := (p.payload (pos + 1) &&& 0x03).toNat

/-- `SEED_INFO_GET_LEN`. -/
def getLen (pos : ℕ) : ℕ := (p.payload (pos + 1) >>> 2).toNat

/-- Where the bit vector starts. -/
def vector (pos : ℕ) : ℕ := pos + seedInfoSize cfg (p.getS pos)

/-- Where the next entry starts. -/
def next (pos : ℕ) : ℕ := p.vector cfg pos + p.getLen pos

/-- The seed id of an entry, as the first loop reads it. -/
def remoteSeed (dst : SeedId) (pos : ℕ) : SeedId :=
  match p.getS pos with
  | 0 => seedIdNetToHost dst (addrBytes p.srcipaddr) 0
  | 1 => seedIdNetToHost dst (fun k => p.payload (pos + 2 + k)) 1
  | 2 => seedIdNetToHost dst (fun k => p.payload (pos + 2 + cfg.seedInfoPad + k)) 2
  | _ => seedIdNetToHost dst (fun k => p.payload (pos + 2 + k)) 3

/-- The number of bytes that `seed_id_net_to_host` reads. -/
def idLen (s : ℕ) : ℕ :=
  match s with
  | 0 => 0
  | 1 => 2
  | 2 => 8
  | _ => 16

/-- The offsets that reading this seed id takes. -/
def remoteReads (pos : ℕ) : List ℕ :=
  (pos + 1) :: (List.range (idLen (p.getS pos))).map fun k =>
    pos + 2 + (if p.getS pos = 2 then cfg.seedInfoPad else 0) + k

/-- The seed id of an entry, as the second loop reads it: through `struct seed_info_s1`, and
with `S == 3` for an id that is the source address. -/
def entrySeed (dst : SeedId) (pos : ℕ) : SeedId :=
  if 0 < p.getS pos then
    seedIdNetToHost dst (fun k => p.payload (pos + 2 + k)) (p.getS pos)
  else seedIdNetToHost dst (addrBytes p.srcipaddr) 3

def entryReads (pos : ℕ) : List ℕ :=
  (pos + 1) :: (List.range (idLen (p.getS pos))).map fun k => pos + 2 + k

/-! ## The seeds that the remote side does not mention -/

/-- The `while` loop of the first pass: go on to the entry of a seed. -/
def findRemote (seedId : SeedId) : ℕ → ℕ → Walk → Bool × ℕ × Walk
  | 0, pos, w => (false, pos, w)
  | turns + 1, pos, w =>
      if pos < p.len then
        let remote := p.remoteSeed cfg w.state.icmpSeedId pos
        let w := { w.read (p.remoteReads cfg pos) with
          state := { w.state with icmpSeedId := remote } }
        if seedIdCmp remote seedId then (true, p.next cfg pos, w)
        else findRemote seedId turns (p.next cfg pos) w
      else (false, pos, w)

/-- The first pass. The entry pointer is not set back between two seeds. -/
def checkSeeds (d : ℕ) : List ℕ → ℕ → Walk → Walk
  | [], _, w => w
  | i :: is, pos, w =>
      if (w.state.seeds i).domain = some d then
        let (found, pos, w) := p.findRemote cfg (w.state.seeds i).seedId p.len pos w
        checkSeeds d is pos
          (if found then w
          else ({ w with rMissing := true } : Walk).restartAll (w.state.seeds i).minSeq)
      else checkSeeds d is pos w

/-! ## Comparing the vectors -/

/-- `vector_len`, an 8-bit number of bits. -/
def vectorLen (pos : ℕ) : ℕ := p.getLen pos * 8 % 256

/-- `BIT_VECTOR_GET_BIT`. -/
def bit (pos r : ℕ) : Bool :=
  p.payload (p.vector cfg pos + r / 8) &&& (0x80 >>> UInt8.ofNat (r % 8)) ==
    0x80 >>> UInt8.ofNat (r % 8)

/-- The access that `BIT_VECTOR_GET_BIT` makes. -/
def getBit (pos r : ℕ) (w : Walk) : Walk :=
  { w.read [p.vector cfg pos + r / 8] with gets := w.gets ++ [(r, p.getLen pos * 8)] }

/-- The sequence number of a bit. -/
def bitSeq (pos r : ℕ) : ℕ := seqValAdd (p.payload pos).toNat r

/-- The loop that looks for the bit of the smallest local message. -/
def offset (pos seq : ℕ) : ℕ → ℕ → ℕ
  | 0, r => r
  | turns + 1, r =>
      if seq ≠ p.bitSeq pos r ∧ r ≤ p.vectorLen pos then offset pos seq turns ((r + 1) % 256)
      else r

/-- The loop that looks for the last bit that is set. Its 8-bit index goes on at `255` below
`0`. -/
def lastBit (pos : ℕ) : ℕ → ℕ → Walk → Option (ℕ × Walk)
  | 0, _, _ => none
  | fuel + 1, r, w =>
      let w := p.getBit cfg pos r w
      if p.bit cfg pos r then some (r, w) else lastBit pos fuel ((r + 255) % 256) w

/-- The loop that skips a gap of the local list. -/
def sync (pos seq : ℕ) : ℕ → ℕ → Walk → ℕ × Walk
  | 0, r, w => (r, w)
  | turns + 1, r, w =>
      if seq ≠ p.bitSeq pos r then
        let w := p.getBit cfg pos r w
        sync pos seq turns ((r + 1) % 256)
          (if p.bit cfg pos r then { w with lMissing := true } else w)
      else (r, w)

/-- The `do` loop over the local messages; what is left of the list, the next bit. -/
def overlap (pos : ℕ) : List ℕ → ℕ → Walk → List ℕ × ℕ × Walk
  | [], r, w => ([], r, w)
  | m :: ms, r, w =>
      let (r, w) := p.sync cfg pos (w.state.msgs m).seq 256 r w
      let w := p.getBit cfg pos r w
      let w := if p.bit cfg pos r then w else ({ w with rMissing := true } : Walk).restart m
      let r := (r + 1) % 256
      if ms ≠ [] ∧ r ≤ p.vectorLen pos then overlap pos ms r w else (ms, r, w)

/-- The loop over the bits behind the local list. -/
def remainder (pos : ℕ) : ℕ → ℕ → Walk → Walk
  | 0, _, w => w
  | turns + 1, r, w =>
      if r < p.vectorLen pos then
        let w := p.getBit cfg pos r w
        remainder pos turns ((r + 1) % 256)
          (if p.bit cfg pos r then { w with lMissing := true } else w)
      else w

/-- The sets overlap: compare them message by message. -/
def compare (pos : ℕ) (ms : List ℕ) (r : ℕ) (w : Walk) : Walk :=
  let (ms, r, w) := p.overlap cfg pos ms r w
  if ms ≠ [] ∨ r < p.vectorLen pos then p.remainder cfg pos 256 r w
  else if p.vectorLen pos ≤ r ∧ ms ≠ [] then
    ({ w with rMissing := true } : Walk).restartAll ms
  else w

/-- The sets do not overlap: the one with the smaller last message is behind. -/
def noOverlap (fuel pos : ℕ) (ms : List ℕ) (last : ℕ) (w : Walk) : Option Walk :=
  (p.lastBit cfg pos fuel (p.vectorLen pos) w).map fun (r, w) =>
    if SeqValIsGt (w.state.msgs last).seq (p.bitSeq pos r) then
      ({ w with rMissing := true } : Walk).restartAll ms
    else { w with lMissing := true }

/-- Where the comparison begins if the smallest messages differ: what is left of the local
list, and the bit. -/
def start (pos : ℕ) (ms : List ℕ) (seq : ℕ) (s : State) : List ℕ × ℕ :=
  if SeqValIsGt seq (p.payload pos).toNat then (ms, p.offset pos seq 256 0)
  else (ms.dropWhile fun m => (s.msgs m).seq ≠ (p.payload pos).toNat, 0)

/-- An entry of a seed that is known, with the local list of messages. -/
def knownSeed (fuel pos : ℕ) (ms : List ℕ) (w : Walk) : Option Walk :=
  match ms with
  | [] =>
      let w := w.read [p.vector cfg pos]
      some (if 0 < p.payload (p.vector cfg pos) then { w with lMissing := true } else w)
  | m :: rest =>
      let w := w.read [pos]
      let seq := (w.state.msgs m).seq
      if seq = (p.payload pos).toNat then some (p.compare cfg pos ms 0 w)
      else
        let first := p.start pos ms seq w.state
        if p.vectorLen pos < first.2 ∨ first.1 = [] then
          p.noOverlap cfg fuel pos ms (rest.getLastD m) w
        else some (p.compare cfg pos first.1 first.2 w)

/-- One turn of the second pass. -/
def entry (fuel d pos : ℕ) (w : Walk) : Option Walk :=
  let seedId := p.entrySeed w.state.icmpSeedId pos
  let w := { w.read (p.entryReads pos) with state := { w.state with icmpSeedId := seedId } }
  match seedSetLookup cfg seedId d w.state with
  | none => some { w with lMissing := true }
  | some i => p.knownSeed cfg fuel pos (w.state.seeds i).minSeq w

/-- The second pass. -/
def entries (fuel d : ℕ) : ℕ → ℕ → Walk → Option Walk
  | 0, _, w => some w
  | turns + 1, pos, w =>
      if pos < p.len then
        (p.entry cfg fuel d pos w).bind (entries fuel d turns (p.next cfg pos))
      else some w

/-! ## The handler -/

/-- `ICMP6_MPL`. -/
def icmp6Mpl : UInt8 := 159

/-- The checks under `UIP_CONF_IPV6_CHECKS`. -/
def checks : Bool :=
  !cfg.ipv6Checks ||
    (isAddrMcast p.destipaddr && getAddressScope p.destipaddr ≤ 2 && p.type == icmp6Mpl &&
      p.icode == 0 && p.ttl == 0xFF)

/-- The domain of the message, which gets a running timer if it is new. -/
def domain (s : State) : Option ℕ × State :=
  match domainSetLookup cfg p.destipaddr s with
  | some d => (some d, s)
  | none =>
      match domainSetAllocate cfg p.destipaddr s with
      | (none, s) => (none, s)
      | (some d, s) => (some d, s.setDomain d { s.domains d with tt := Trickle.start })

/-- The control timer of the domain after both passes. -/
def settle (d : ℕ) (w : Walk) : Walk :=
  if w.lMissing then
    { w with state := w.state.setDomain d { w.state.domains d with tt := Trickle.start } }
  else if w.rMissing then
    { w with state := w.state.setDomain d { w.state.domains d with
      tt := if (w.state.domains d).tt.running then (w.state.domains d).tt.inconsistency
        else (w.state.domains d).tt } }
  else w

end Icmp

/-- `icmp_in`. -/
def icmpIn (cfg : Config) (fuel : ℕ) (p : Icmp) (s : State) : Option Walk :=
  if p.checks cfg then
    match p.domain cfg s with
    | (none, s) => some ⟨s, [], [], false, false⟩
    | (some d, s) =>
        let w := p.checkSeeds cfg d (List.range cfg.seedSetSize).reverse 0
          ⟨s, [], [], false, false⟩
        (p.entries cfg fuel d p.len 0 w).map (Icmp.settle d)
  else some ⟨s, [], [], false, false⟩

/-! ## Sending -/

/-- `vec_len` and the bits that are set, after the messages `seqs` of a seed. -/
def vectorBits (minSeqno : ℕ) : List ℕ → ℕ → List ℕ → ℕ × List ℕ
  | [], vecLen, bits => (vecLen, bits)
  | seq :: seqs, vecLen, bits =>
      let curSeq := seqValAdd minSeqno vecLen
      let vecLen := if seq = curSeq then vecLen else (vecLen + 256 + seq - curSeq) % 256
      vectorBits minSeqno seqs ((vecLen + 1) % 256) (bits ++ [vecLen])

/-- `BIT_VECTOR_SET_BIT` for all these bits, in a byte. -/
def vectorByte (bits : List ℕ) (k : ℕ) : UInt8 :=
  ((bits.filter fun b => b / 8 = k).map fun b => (0x80 : UInt8) >>> UInt8.ofNat (b % 8)).foldl
    (· ||| ·) 0

/-- `vec_size`; the subtraction is one of `int`. -/
def vecSize (vecLen : ℕ) : ℕ := (Int.tdiv ((vecLen : ℤ) - 1) 8 + 1).toNat

/-- The `S` of the entry of a seed: an id of size `0` is compared with the source address in
host order. -/
def entryS (src : Ip6Addr) (id : SeedId) : ℕ :=
  match id.s with
  | 0 => if id.id = src then 0 else 3
  | s => s

/-- The entry of a seed; `junk` is what the buffer holds where nothing is written. -/
def seedInfo (cfg : Config) (src : Ip6Addr) (junk : UInt8) (seqs : List ℕ) (i : Seed) :
    List UInt8 :=
  let (vecLen, bits) := vectorBits i.minSeqno seqs 0 []
  let s := entryS src i.seedId
  [UInt8.ofNat i.minSeqno, UInt8.ofNat (vecSize vecLen) <<< 2 ||| UInt8.ofNat s] ++
    (match s with
    | 0 => []
    | 2 => List.replicate cfg.seedInfoPad junk ++ seedIdHostToNet i.seedId
    | _ => seedIdHostToNet i.seedId) ++
    (List.range (vecSize vecLen)).map (vectorByte bits)

/-- The payload that `icmp_out` builds for a domain, with the source address `src`. -/
def icmpOut (cfg : Config) (src : Ip6Addr) (junk : UInt8) (d : ℕ) (s : State) : List UInt8 :=
  (List.range cfg.seedSetSize).reverse.flatMap fun i =>
    if (s.seeds i).domain = some d then
      seedInfo cfg src junk ((s.seeds i).minSeq.map fun m => (s.msgs m).seq) (s.seeds i)
    else []

end Den2ne.Mpl
