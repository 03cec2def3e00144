import Mathlib.Data.Fintype.Pi
import Mathlib.Logic.Function.Basic

/-!
# The sets of MPL

The data of `mpl.c`, the multicast protocol for low-power and lossy networks: the
buffered message set, the seed set and the domain set, with the functions that look up,
allocate and free their entries. The three arrays are functions from the index; a pointer
to an entry is its index, and a message list is the list of indices that it links. The
index `MPL_SEED_SET_SIZE` of the seed set stands for the memory behind the array, since
two scans of the source begin there.

A trickle timer is modelled by whether it is running and by its expiration count. The
sequence number of a message is kept as the number of messages its seed had sent; the byte
in the message is that number modulo 256. `History` notes which elements of the seed set
`buffer_reclaim` and `domain_set_free` access.
-/

namespace Den2ne.Mpl

/-- `uip_ip6addr_t`. -/
abbrev Ip6Addr := Fin 16 → UInt8

/-- `uip_is_addr_mcast`. -/
def isAddrMcast (a : Ip6Addr) : Bool := a 0 == 0xFF

/-- `uip_mcast6_get_address_scope`. -/
def getAddressScope (a : Ip6Addr) : UInt8 := a 1 &&& 0x0F

def scopeLinkLocal : UInt8 := 2
def scopeSiteLocal : UInt8 := 5

/-- `UIP_ADDR_MAKE_LINK_LOCAL`. -/
def makeLinkLocal (a : Ip6Addr) : Ip6Addr :=
  Function.update a 1 ((a 1 &&& 0xF0) ||| scopeLinkLocal)

/-- `seed_id_t`. -/
structure SeedId where
  s : ℕ
  id : Fin 16 → UInt8
deriving DecidableEq

/-- `MPL_SEED_ID_UNKNOWN`. -/
def seedIdUnknown : ℕ := 0xFF

/-- `seed_id_cmp`: the size does not count. -/
def seedIdCmp (a b : SeedId) : Bool := a.id = b.id

/-- `seed_id_net_to_host`. With a 16-bit id, the loop that clears the rest stops before the
last byte. -/
def seedIdNetToHost (dst : SeedId) (ptr : ℕ → UInt8) (s : ℕ) : SeedId :=
  match s with
  | 0 => ⟨0, fun i => ptr (15 - i)⟩
  | 1 => ⟨1, fun i =>
      if i = 0 then ptr 1 else if i = 1 then ptr 0 else if i < 15 then 0 else dst.id i⟩
  | 2 => ⟨2, fun i => if i < 8 then ptr (7 - i) else 0⟩
  | 3 => ⟨3, fun i => ptr (15 - i)⟩
  | _ => dst

/-- The bytes that `seed_id_host_to_net` writes. -/
def seedIdHostToNet (src : SeedId) : List UInt8 :=
  match src.s with
  | 0 | 3 => (List.finRange 16).map fun i => src.id (Fin.rev i)
  | 1 => [src.id 1, src.id 0]
  | 2 => (List.finRange 8).map fun i => src.id ((Fin.rev i).castLE (by decide))
  | _ => []

/-! ## Sequence numbers -/

/-- Conversion to `int16_t`. -/
def int16 (x : ℤ) : ℤ := Int.bmod x 65536

/-- `SEQ_VAL_IS_LT`. -/
def SeqValIsLt (i1 i2 : ℕ) : Prop :=
  i1 ≠ i2 ∧ ((i1 < i2 ∧ int16 (i2 - i1) < 0x100) ∨ (i1 > i2 ∧ int16 (i1 - i2) > 0x100))

/-- `SEQ_VAL_IS_GT`. -/
def SeqValIsGt (i1 i2 : ℕ) : Prop :=
  i1 ≠ i2 ∧ ((i1 < i2 ∧ int16 (i2 - i1) > 0x100) ∨ (i1 > i2 ∧ int16 (i1 - i2) < 0x100))

instance (i1 i2 : ℕ) : Decidable (SeqValIsLt i1 i2) :=
  inferInstanceAs (Decidable (_ ∧ (_ ∨ _)))

instance (i1 i2 : ℕ) : Decidable (SeqValIsGt i1 i2) :=
  inferInstanceAs (Decidable (_ ∧ (_ ∨ _)))

/-- `SEQ_VAL_ADD`. -/
def seqValAdd (s n : ℕ) : ℕ := (s + n) % 0x100

theorem int16_of_lt {x : ℤ} (h₀ : 0 ≤ x) (h : x < 256) : int16 x = x :=
  Int.bmod_eq_of_le (by omega) (by omega)

/-- Bytes are never `0x100` apart, so the serial number arithmetic is that of numbers. -/
theorem seqValIsLt_iff {a b : ℕ} (ha : a < 256) (hb : b < 256) : SeqValIsLt a b ↔ a < b := by
  constructor
  · rintro ⟨-, ⟨hlt, -⟩ | ⟨hgt, hfar⟩⟩
    · exact hlt
    · rw [int16_of_lt (by omega) (by omega)] at hfar
      omega
  · intro hlt
    refine ⟨Nat.ne_of_lt hlt, .inl ⟨hlt, ?_⟩⟩
    rw [int16_of_lt (by omega) (by omega)]
    omega

theorem seqValIsGt_iff {a b : ℕ} (ha : a < 256) (hb : b < 256) : SeqValIsGt a b ↔ b < a := by
  constructor
  · rintro ⟨-, ⟨hlt, hfar⟩ | ⟨hgt, -⟩⟩
    · rw [int16_of_lt (by omega) (by omega)] at hfar
      omega
    · exact hgt
  · intro hgt
    refine ⟨Nat.ne_of_gt hgt, .inr ⟨hgt, ?_⟩⟩
    rw [int16_of_lt (by omega) (by omega)]
    omega

/-! ## The arrays -/

/-- `struct trickle_timer`, with the expiration count `e` that `mpl.c` keeps beside it. -/
structure Trickle where
  running : Bool
  e : ℕ
deriving DecidableEq, Repr

namespace Trickle

/-- `mpl_control_trickle_timer_start` and `mpl_data_trickle_timer_start`. -/
def start : Trickle := ⟨true, 0⟩

/-- `mpl_trickle_timer_inconsistency` and `mpl_trickle_timer_reset`, which do not start a
stopped timer. -/
def inconsistency (t : Trickle) : Trickle := { t with e := 0 }

/-- `trickle_timer_stop`. -/
def stop (t : Trickle) : Trickle := { t with running := false }

end Trickle

/-- `struct mpl_msg`. `sent` is the number of messages that the seed had sent. -/
structure Msg where
  seed : Option ℕ
  tt : Trickle
  srcipaddr : Ip6Addr
  sent : ℕ
  data : List UInt8
deriving DecidableEq

/-- `struct mpl_seed`. -/
structure Seed where
  seedId : SeedId
  minSeqno : ℕ
  lifetime : ℕ
  count : ℕ
  minSeq : List ℕ
  domain : Option ℕ
deriving DecidableEq

/-- `struct mpl_domain`. -/
structure Domain where
  dataAddr : Ip6Addr
  ctrlAddr : Ip6Addr
  tt : Trickle
deriving DecidableEq

/-- What `memset` to `0` leaves. -/
def Msg.zero : Msg := ⟨none, ⟨false, 0⟩, fun _ => 0, 0, []⟩
def Seed.zero : Seed := ⟨⟨0, fun _ => 0⟩, 0, 0, 0, [], none⟩
def Domain.zero : Domain := ⟨fun _ => 0, fun _ => 0, ⟨false, 0⟩⟩

/-- The sequence number in the message. -/
def Msg.seq (m : Msg) : ℕ := m.sent % 256

/-- `MSG_SET_IS_USED`. -/
def Msg.isUsed (m : Msg) : Bool := m.seed.isSome

/-- `SEED_SET_IS_USED`. -/
def Seed.isUsed (s : Seed) : Bool := s.domain.isSome

/-- `DOMAIN_SET_IS_USED`. -/
def Domain.isUsed (d : Domain) : Bool := isAddrMcast d.dataAddr

/-- What the build fixes. `controlTimerOk` and `dataTimerOk` are the answers of
`trickle_timer_config` to the constants of the two kinds of timers; `seedInfoPad` is the
padding that the target puts before the `uint64_t` of `struct seed_info_s2`. -/
structure Config where
  bufferedMessageSetSize : ℕ
  seedSetSize : ℕ
  domainSetSize : ℕ
  maddrNb : ℕ
  seedIdType : ℕ
  seedId : Fin 16 → UInt8
  proactiveForwarding : Bool
  seedSetEntryLifetime : ℕ
  dataMessageTimerExpirations : ℕ
  controlMessageTimerExpirations : ℕ
  subToAllForwarders : Bool
  ipv6Checks : Bool
  controlTimerOk : Bool
  dataTimerOk : Bool
  seedInfoPad : ℕ

/-- The elements of the seed set that `buffer_reclaim` and `domain_set_free` have
accessed, and whether the first of them has taken the successor of a `NULL` message. -/
structure History where
  accessed : List ℕ
  nullNext : Bool
deriving DecidableEq, Repr

/-- The globals of `mpl.c`, and the table of multicast addresses of the interface.
`acceptSeedId` and `icmpSeedId` are the static variables `seed_id` of `accept` and
`icmp_in`; `last_seq` is `lastSent` modulo 256. -/
structure State where
  msgs : ℕ → Msg
  seeds : ℕ → Seed
  domains : ℕ → Domain
  maddrs : ℕ → Option Ip6Addr
  lastSent : ℕ
  localSeedId : SeedId
  acceptSeedId : SeedId
  icmpSeedId : SeedId
  history : History

namespace State

def setMsg (m : ℕ) (x : Msg) (s : State) : State := { s with msgs := Function.update s.msgs m x }

def setSeed (i : ℕ) (x : Seed) (s : State) : State :=
  { s with seeds := Function.update s.seeds i x }

def setDomain (d : ℕ) (x : Domain) (s : State) : State :=
  { s with domains := Function.update s.domains d x }

end State

/-- A loop from the last index of an array to the first one that has property `p`. -/
def findDown (n : ℕ) (p : ℕ → Bool) : Option ℕ := (List.range n).reverse.find? p

theorem findDown_eq_some {n : ℕ} {p : ℕ → Bool} {i : ℕ} (h : findDown n p = some i) :
    i < n ∧ p i = true := by
  refine ⟨?_, List.find?_some h⟩
  have hmem := List.mem_of_find?_eq_some h
  rwa [List.mem_reverse, List.mem_range] at hmem

theorem findDown_eq_none {n : ℕ} {p : ℕ → Bool} :
    findDown n p = none ↔ ∀ i < n, p i = false := by
  simp [findDown]

/-! ## The table of multicast addresses -/

/-- `uip_ds6_maddr_lookup`: the first slot that holds the address. -/
def maddrLookup (cfg : Config) (a : Ip6Addr) (s : State) : Option ℕ :=
  (List.range cfg.maddrNb).find? fun i => s.maddrs i = some a

/-- `uip_ds6_maddr_add`: `uip_ds6_list_loop` finds the last free slot, unless the address
is there already. -/
def maddrAdd (cfg : Config) (a : Ip6Addr) (s : State) : Option State :=
  match maddrLookup cfg a s with
  | some _ => none
  | none => (findDown cfg.maddrNb fun i => (s.maddrs i).isNone).map fun i =>
      { s with maddrs := Function.update s.maddrs i (some a) }

/-- `uip_ds6_maddr_rm` of the address, if it is there. -/
def maddrRm (cfg : Config) (a : Ip6Addr) (s : State) : State :=
  match maddrLookup cfg a s with
  | none => s
  | some i => { s with maddrs := Function.update s.maddrs i none }

/-! ## The buffered message set -/

/-- `buffer_allocate`. -/
def bufferAllocate (cfg : Config) (s : State) : Option (ℕ × State) :=
  (findDown cfg.bufferedMessageSetSize fun m => !(s.msgs m).isUsed).map fun m =>
    (m, s.setMsg m Msg.zero)

/-- `buffer_free`. -/
def bufferFree (m : ℕ) (s : State) : State :=
  s.setMsg m { s.msgs m with tt := (s.msgs m).tt.stop, seed := none }

/-- The order in which `buffer_reclaim` and `domain_set_free` go through the seed set: the
loops begin at `&seed_set[MPL_SEED_SET_SIZE]`. -/
def scanOrder (cfg : Config) : List ℕ := (List.range (cfg.seedSetSize + 1)).reverse

/-- Note the accesses of such a scan. -/
def State.scan (cfg : Config) (s : State) : State :=
  { s with history := { s.history with accessed := s.history.accessed ++ scanOrder cfg } }

/-- The loop of `buffer_reclaim` for the seed with the most messages. -/
def largestSeed (s : State) : List ℕ → Option ℕ → Option ℕ
  | [], largest => largest
  | i :: is, largest =>
      largestSeed s is
        (if (s.seeds i).isUsed ∧ ∀ j ∈ largest, (s.seeds j).count < (s.seeds i).count then some i
        else largest)

/-- The domain of the seed of a message gets its timer reset. -/
def resetDomainOf (m : ℕ) (s : State) : State :=
  match (s.msgs m).seed.bind fun i => (s.seeds i).domain with
  | none => s
  | some d => s.setDomain d { s.domains d with tt := (s.domains d).tt.inconsistency }

/-- `buffer_reclaim` from the seed that was found. With an empty list it takes the successor of
`NULL` and reads its sequence number. -/
def reclaimFrom (i : ℕ) (s : State) : Option ℕ × State :=
  match (s.seeds i).minSeq with
  | [] => (none, { s with history := { s.history with nullNext := true } })
  | reclaim :: rest =>
      let minSeqno :=
        match rest with
        | [] => (s.msgs reclaim).seq
        | next :: _ => (s.msgs next).seq
      let s := s.setSeed i { s.seeds i with
        minSeq := rest
        minSeqno := minSeqno
        count := ((s.seeds i).count + 255) % 256 }
      (some reclaim, (resetDomainOf reclaim s).setMsg reclaim Msg.zero)

/-- `buffer_reclaim`. -/
def bufferReclaim (cfg : Config) (s : State) : Option ℕ × State :=
  let s := s.scan cfg
  match largestSeed s (scanOrder cfg) none with
  | none => (none, s)
  | some i => reclaimFrom i s

/-! ## The seed set -/

/-- `seed_set_lookup`. -/
def seedSetLookup (cfg : Config) (seedId : SeedId) (domain : ℕ) (s : State) : Option ℕ :=
  findDown cfg.seedSetSize fun i =>
    (s.seeds i).isUsed && seedIdCmp seedId (s.seeds i).seedId && (s.seeds i).domain == some domain

/-- `seed_set_allocate`, with the fields that `accept` sets next. -/
def seedSetAllocate (cfg : Config) (seedId : SeedId) (domain : ℕ) (s : State) :
    Option (ℕ × State) :=
  (findDown cfg.seedSetSize fun i => !(s.seeds i).isUsed).map fun i =>
    (i, s.setSeed i { Seed.zero with seedId := seedId, domain := some domain })

/-- The loop of `seed_set_free`. -/
def freeAll : List ℕ → State → State
  | [], s => s
  | m :: ms, s => freeAll ms (bufferFree m s)

/-- `seed_set_free`. -/
def seedSetFree (i : ℕ) (s : State) : State :=
  (freeAll (s.seeds i).minSeq s).setSeed i { s.seeds i with minSeq := [], domain := none }

/-! ## The domain set -/

/-- `domain_set_lookup`. -/
def domainSetLookup (cfg : Config) (a : Ip6Addr) (s : State) : Option ℕ :=
  findDown cfg.domainSetSize fun d =>
    (s.domains d).isUsed && ((s.domains d).dataAddr = a || (s.domains d).ctrlAddr = a)

/-- The loop of `domain_set_allocate` for a subscribed address of a higher scope; the
scope grows in every turn, so there are at most four. -/
def higherScope (cfg : Config) (s : State) : ℕ → Ip6Addr → Ip6Addr
  | 0, a => a
  | turns + 1, a =>
      let a := Function.update a 1 (a 1 + 1)
      if (maddrLookup cfg a s).isSome then a
      else if getAddressScope a ≤ scopeSiteLocal then higherScope cfg s turns a
      else a

/-- The data and the control address of a new domain. -/
def domainAddrs (cfg : Config) (a : Ip6Addr) (s : State) : Option (Ip6Addr × Ip6Addr) :=
  if getAddressScope a = scopeLinkLocal then
    let dataAddr := higherScope cfg s 4 a
    if getAddressScope dataAddr > scopeSiteLocal then none else some (dataAddr, a)
  else some (a, makeLinkLocal a)

/-- Subscribe to a control address. -/
def subscribe (cfg : Config) (a : Ip6Addr) (s : State) : Option State :=
  if (maddrLookup cfg a s).isSome then some s else maddrAdd cfg a s

/-- `domain_set_allocate`. -/
def domainSetAllocate (cfg : Config) (a : Ip6Addr) (s : State) : Option ℕ × State :=
  match domainAddrs cfg a s with
  | none => (none, s)
  | some (dataAddr, ctrlAddr) =>
      match findDown cfg.domainSetSize fun d => !(s.domains d).isUsed with
      | none => (none, s)
      | some d =>
          match subscribe cfg ctrlAddr s with
          | none => (none, s)
          | some s =>
              let domain : Domain := ⟨dataAddr, ctrlAddr, ⟨false, 0⟩⟩
              if cfg.controlTimerOk then (some d, s.setDomain d domain)
              else (none, s.setDomain d { domain with dataAddr := fun _ => 0 })

/-- The loop of `domain_set_free` over the seed set. -/
def freeSeedsOf (d : ℕ) : List ℕ → State → State
  | [], s => s
  | i :: is, s =>
      freeSeedsOf d is (if (s.seeds i).domain = some d then seedSetFree i s else s)

/-- `domain_set_free`. -/
def domainSetFree (cfg : Config) (d : ℕ) (s : State) : State :=
  let s := freeSeedsOf d (scanOrder cfg) (s.scan cfg)
  let s := maddrRm cfg (s.domains d).ctrlAddr (maddrRm cfg (s.domains d).dataAddr s)
  s.setDomain d { s.domains d with
    tt := (s.domains d).tt.stop
    dataAddr := fun _ => 0 }

end Den2ne.Mpl
