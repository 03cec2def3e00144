import Den2ne.Hlmac.Buffers
import Den2ne.Node.Provenance
import Den2ne.Transition.Run
import Den2ne.Wire.RoundTrip

/-!
# The addresses a node has stored

The part of a node that allocates and frees buffers of ids: the round timer of
the root, and the SetHLMAC branch of a received packet. Both pass the address
that they have built to `hlmactable_add` and free its buffer afterwards, also
when the table has kept the pointer. So no buffer is ever freed twice
(`released_nodup_of_run`), and the entries of the table refer to live buffers
exactly as long as nothing is stored (`addressesAlive_iff`).

`follows_receive` and `follows_sethlmacTimer` connect this with the node that
has its addresses by value: as long as freed buffers keep their contents, the
two store the same addresses and are in the same round.
-/

namespace Den2ne

open Cells Transition

namespace Owned

/-- What of a node refers to buffers, and the timestamps that decide about
them. -/
structure State where
  heap : Buffers
  hlmacTable : HlmacTable
  lastTimestamp : ℕ
  timestamp : ℕ
deriving DecidableEq, Repr

/-- A packet comes with what lies behind the two copies of it, and with what
reads of freed buffers find. -/
inductive Event
  | sethlmacTimer
  | receive (data : List UInt8) (beyond beyond' : ℕ → UInt8) (stale : ℕ → ℕ → List UInt8)

variable {addrSize : ℕ}

/-- `iotorii_extract_address`: the buffer of a prefix that is of no use is
lost. -/
def iotoriiExtractAddress (self : LinkAddr addrSize) (datalen : ℕ) (mem : ℕ → UInt8)
    (stale : ℕ → List UInt8) (h : Buffers) : HlmacAddr × Buffers :=
  let (i, h) := h.alloc (Wire.copy mem 5 (mem 4).toNat)
  let s := Wire.scanEntries self datalen mem datalen (Wire.scanHeader mem)
  if s.linkAddress = self then hlmacAddNewId stale ⟨some i, mem 4⟩ s.id h else (⟨none, 0⟩, h)

/-- The guard of the SetHLMAC branch; the loop test runs only if the timestamp
is not newer. -/
def acceptsSethlmac (stale : ℕ → ℕ → List UInt8) (timestamp : ℕ) (addr : HlmacAddr) (s : State) :
    Bool × Buffers :=
  if s.lastTimestamp < timestamp then (true, s.heap)
  else
    let (loop, h) := hlmactableHasLoop stale s.hlmacTable addr s.heap
    (!loop && timestamp == s.lastTimestamp, h)

/-- The SetHLMAC branch: every way through it frees the buffer. -/
def incomingSethlmac {α : Type*} (cfg : Config α) (stale : ℕ → ℕ → List UInt8)
    (timestamp : ℕ) (addr : HlmacAddr) (s : State) : State :=
  let (accepted, h) := acceptsSethlmac stale timestamp addr s
  if accepted then
    let (isAdded, table) := hlmactableAdd cfg.hlmacMaxHlmac s.hlmacTable addr timestamp h
    { s with
      heap := h.free addr.address
      hlmacTable := table
      lastTimestamp :=
        if isAdded ∧ (s.lastTimestamp < timestamp ∨ s.lastTimestamp = 0) then timestamp
        else s.lastTimestamp }
  else { s with heap := h.free addr.address }

/-- `iotorii_operation`. -/
def receive (cfg : Config (LinkAddr addrSize)) (data : List UInt8) (beyond beyond' : ℕ → UInt8)
    (stale : ℕ → ℕ → List UInt8) (s : State) : State :=
  if data.length = 0 then s
  else
    let (addr, h) := iotoriiExtractAddress cfg.linkaddrNodeAddr data.length
      (Wire.memory data beyond) (stale 0) s.heap
    let timestamp := (Wire.iotoriiExtractTimestamp (Wire.memory data beyond')).1
    if hlmacIsUnspecifiedAddr addr then { s with heap := h }
    else incomingSethlmac cfg stale timestamp addr { s with heap := h }

/-- `iotorii_handle_sethlmac_timer`. -/
def handleSethlmacTimer {α : Type*} (cfg : Config α) (s : State) : State :=
  let timestamp := nextTimestamp s.timestamp
  let (rootAddr, h) := hlmacCreateRootAddr 1 s.heap
  { s with
    heap := h.free rootAddr.address
    hlmacTable := (hlmactableAdd cfg.hlmacMaxHlmac s.hlmacTable rootAddr timestamp h).2
    timestamp := timestamp }

namespace State

/-- `init`. -/
def boot : State := ⟨Heap.empty, ⟨[], 0⟩, 0, 4294967295⟩

/-- One event. Only the root has a round timer. -/
def step (cfg : Config (LinkAddr addrSize)) (e : Event) (s : State) : Option State :=
  match e with
  | .sethlmacTimer =>
      match cfg.nodeType with
      | .root => some (handleSethlmacTimer cfg s)
      | .common => none
  | .receive data beyond beyond' stale => some (receive cfg data beyond beyond' stale s)

/-- Every entry of the table refers to a live buffer with the ids that were
passed to `hlmactable_add`, and no buffer was freed twice. -/
def AddressesAlive (s : State) : Prop :=
  (∀ entry ∈ s.hlmacTable.entries,
    entry.address.address.bind s.heap.read = some entry.passed) ∧ s.heap.released.Nodup

instance (s : State) : Decidable s.AddressesAlive :=
  inferInstanceAs (Decidable ((∀ entry ∈ s.hlmacTable.entries, _) ∧ _))

end State

/-- The event gives an address to a node that has none: the round timer, or a
SetHLMAC that names the node, but for one of round `0` whose prefix has 255 ids,
so that the address has the length `0`. -/
def Event.Assigns (cfg : Config (LinkAddr addrSize)) (e : Event) : Prop :=
  match e with
  | .sethlmacTimer => True
  | .receive data beyond beyond' _ =>
      let addr := (Wire.iotoriiExtractAddress cfg.linkaddrNodeAddr data.length
        (Wire.memory data beyond)).1
      data.length ≠ 0 ∧ Den2ne.hlmacIsUnspecifiedAddr addr = false ∧
        (0 < (Wire.iotoriiExtractTimestamp (Wire.memory data beyond')).1 ∨ addr.len ≠ 0)

variable {base : Buffers} {s s' : State} {addr : HlmacAddr} {stale : ℕ → ℕ → List UInt8}
  {timestamp : ℕ}

section

variable {cfg : Config (LinkAddr addrSize)} {e : Event}

/-! ## What happens to the heap -/

/-- The extracted address is the caller's, and has the value that the packet
gives it. -/
theorem owns_iotoriiExtractAddress {h : Buffers} (hs : h.Sound) (self : LinkAddr addrSize)
    (datalen : ℕ) (mem : ℕ → UInt8) (stale : ℕ → List UInt8) :
    h.Owns (iotoriiExtractAddress self datalen mem stale h).1.address
        (iotoriiExtractAddress self datalen mem stale h).2 ∧
      (iotoriiExtractAddress self datalen mem stale h).1.deref stale
        (iotoriiExtractAddress self datalen mem stale h).2 =
        (Wire.iotoriiExtractAddress self datalen mem).1 := by
  have hids := hs.owns.alloc (Wire.copy mem 5 (mem 4).toNat)
  simp only [iotoriiExtractAddress, Wire.iotoriiExtractAddress]
  split
  · refine ⟨owns_hlmacAddNewId (a := ⟨some _, mem 4⟩) hids _, ?_⟩
    rw [deref_hlmacAddNewId (a := ⟨some _, mem 4⟩) hids, deref_alloc]
  · exact ⟨⟨hids.sound, hids.extension, fun _ hi => by cases hi⟩, rfl⟩

theorem owns_acceptsSethlmac (ho : base.Owns addr.address s.heap) :
    base.Owns addr.address (acceptsSethlmac stale timestamp addr s).2 := by
  rw [acceptsSethlmac]
  split
  · exact ho
  · exact ho.trans (owns_hlmactableHasLoop stale s.hlmacTable addr ho.sound)

theorem extends_acceptsSethlmac (hs : s.heap.Sound) :
    s.heap.Extends (acceptsSethlmac stale timestamp addr s).2 := by
  rw [acceptsSethlmac]
  split
  · exact Heap.Extends.refl s.heap
  · exact (owns_hlmactableHasLoop stale s.hlmacTable addr hs).extension

theorem heap_incomingSethlmac {α : Type*} (cfg : Config α) :
    (incomingSethlmac cfg stale timestamp addr s).heap =
      (acceptsSethlmac stale timestamp addr s).2.free addr.address := by
  unfold incomingSethlmac
  dsimp only
  split <;> rfl

theorem sound_step (hs : s.heap.Sound) (h : State.step cfg e s = some s') : s'.heap.Sound := by
  cases e with
  | sethlmacTimer =>
      simp only [State.step] at h
      split at h
      · obtain rfl := Option.some.inj h
        exact (owns_hlmacCreateRootAddr hs 1).free.sound
      · cases h
  | receive data beyond beyond' stale =>
      obtain rfl := Option.some.inj h
      have hext := (owns_iotoriiExtractAddress hs cfg.linkaddrNodeAddr data.length
        (Wire.memory data beyond) (stale 0)).1
      unfold receive
      dsimp only
      split
      · exact hs
      · split
        · exact hext.sound
        · rw [heap_incomingSethlmac cfg]
          exact (owns_acceptsSethlmac hext).free.sound

/-- No buffer is freed twice, in no run. -/
theorem released_nodup_of_run {es : List Event} (h : run (State.step cfg) es State.boot = some s) :
    s.heap.released.Nodup :=
  (run_invariant_of_step (fun _ _ _ hs hstep => sound_step hs hstep) Heap.sound_empty h).nodup

/-! ## What is stored -/

/-- Nothing has been stored yet. -/
structure State.Unassigned (s : State) : Prop where
  sound : s.heap.Sound
  empty : s.hlmacTable = ⟨[], 0⟩
  lastTimestamp : s.lastTimestamp = 0

theorem State.unassigned_boot : State.boot.Unassigned := ⟨Heap.sound_empty, rfl, rfl⟩

theorem State.Unassigned.addressesAlive (hu : s.Unassigned) : s.AddressesAlive := by
  refine ⟨fun entry hentry => ?_, hu.sound.nodup⟩
  rw [hu.empty] at hentry
  cases hentry

theorem hlmactableAdd_of_empty (maxHlmac : ℤ) (addr : HlmacAddr) (timestamp : ℕ) (h : Buffers) :
    (Roomy maxHlmac → hlmactableAdd maxHlmac ⟨[], 0⟩ addr timestamp h =
      (true, ⟨[⟨addr, timestamp, (addr.address.bind h.read).getD []⟩], 1⟩)) ∧
    (¬ Roomy maxHlmac → hlmactableAdd maxHlmac ⟨[], 0⟩ addr timestamp h = (false, ⟨[], 0⟩)) := by
  have hcond : (maxHlmac = -1 ∨ (maxHlmac ≠ -1 ∧ ((0 : ℕ) : ℤ) < maxHlmac)) ↔ Roomy maxHlmac := by
    unfold Roomy
    omega
  have hrenew : hlmactableRenew ⟨[], 0⟩ timestamp = ⟨[], 0⟩ := rfl
  constructor
  · intro hroom
    rw [hlmactableAdd, hrenew]
    dsimp only
    rw [if_neg (by omega), if_pos (hcond.2 hroom)]
    rfl
  · intro hroom
    rw [hlmactableAdd, hrenew]
    dsimp only
    rw [if_neg (by omega), if_neg fun h => hroom (hcond.1 h)]

/-- An address whose buffer is freed after it was stored is not alive. -/
theorem not_addressesAlive_of_stored {h : Buffers} {entry : HlmacTableEntry}
    {entries : List HlmacTableEntry} {number lastTimestamp timestamp : ℕ}
    (hentry : entry ∈ entries) (haddr : entry.address = addr) :
    ¬ State.AddressesAlive ⟨h.free addr.address, ⟨entries, number⟩, lastTimestamp, timestamp⟩ := by
  intro halive
  have hread := halive.1 entry hentry
  rw [haddr, Heap.bind_read_free] at hread
  cases hread

theorem faithful_nil (h : Buffers) : HlmacTable.Faithful ⟨[], 0⟩ h stale where
  placed _ hentry := nomatch hentry
  reads _ hentry := nomatch hentry

theorem fst_acceptsSethlmac_of_unassigned (stale : ℕ → ℕ → List UInt8) (timestamp : ℕ)
    (hu : s.Unassigned) {value : Den2ne.HlmacAddr}
    (hvalue : ∀ turn, addr.deref (stale turn) s.heap = value) :
    (acceptsSethlmac stale timestamp addr s).1 = true ↔ 0 < timestamp ∨ value.len ≠ 0 := by
  have hloop : (hlmactableHasLoop stale s.hlmacTable addr s.heap).1 = (value.len == 0) := by
    have hnil : HlmacTable.Faithful ⟨[], 0⟩ s.heap stale := faithful_nil s.heap
    rw [hu.empty, fst_hlmactableHasLoop hu.sound hnil.placed (hnil.readsAs value) hvalue]
    exact hlmactableHasLoop_nil rfl value
  rw [acceptsSethlmac, hu.lastTimestamp]
  split
  · exact iff_of_true rfl (.inl ‹_›)
  · rename_i hts
    have hzero : timestamp = 0 := Nat.eq_zero_of_not_pos hts
    simp [hloop, hzero]

/-- A SetHLMAC that reaches a node without an address. -/
theorem incomingSethlmac_of_unassigned (cfg : Config (LinkAddr addrSize))
    (stale : ℕ → ℕ → List UInt8) (timestamp : ℕ) (hu : s.Unassigned)
    (ho : base.Owns addr.address s.heap) {value : Den2ne.HlmacAddr}
    (hvalue : ∀ turn, addr.deref (stale turn) s.heap = value) :
    (Roomy cfg.hlmacMaxHlmac ∧ (0 < timestamp ∨ value.len ≠ 0) →
      ¬ (incomingSethlmac cfg stale timestamp addr s).AddressesAlive) ∧
    (¬ (Roomy cfg.hlmacMaxHlmac ∧ (0 < timestamp ∨ value.len ≠ 0)) →
      (incomingSethlmac cfg stale timestamp addr s).Unassigned) := by
  have haccepts := fst_acceptsSethlmac_of_unassigned stale timestamp hu hvalue
  have hsound : ((acceptsSethlmac stale timestamp addr s).2.free addr.address).Sound :=
    (owns_acceptsSethlmac ho).free.sound
  obtain ⟨hadd, hnotAdd⟩ := hlmactableAdd_of_empty cfg.hlmacMaxHlmac addr timestamp
    (acceptsSethlmac stale timestamp addr s).2
  simp only [incomingSethlmac, hu.empty]
  constructor
  · rintro ⟨hroom, hguard⟩
    rw [if_pos (haccepts.2 hguard), hadd hroom]
    exact not_addressesAlive_of_stored List.mem_cons_self rfl
  · intro hnot
    split
    · rename_i haccepted
      rw [hnotAdd fun hroom => hnot ⟨hroom, haccepts.1 haccepted⟩]
      exact ⟨hsound, rfl, hu.lastTimestamp⟩
    · exact ⟨hsound, rfl, hu.lastTimestamp⟩

/-- A node without an address keeps its invariant until it is given one. -/
theorem step_of_unassigned (hu : s.Unassigned) (h : State.step cfg e s = some s') :
    (Roomy cfg.hlmacMaxHlmac ∧ e.Assigns cfg → ¬ s'.AddressesAlive) ∧
    (¬ (Roomy cfg.hlmacMaxHlmac ∧ e.Assigns cfg) → s'.Unassigned) := by
  cases e with
  | sethlmacTimer =>
      have hsound := sound_step hu.sound h
      simp only [State.step] at h
      split at h
      · obtain rfl := Option.some.inj h
        obtain ⟨hadd, hnotAdd⟩ := hlmactableAdd_of_empty cfg.hlmacMaxHlmac
          (hlmacCreateRootAddr 1 s.heap).1 (nextTimestamp s.timestamp)
          (hlmacCreateRootAddr 1 s.heap).2
        refine ⟨fun hassigns => ?_, fun hnot => ⟨hsound, ?_, hu.lastTimestamp⟩⟩
        · rw [handleSethlmacTimer, hu.empty]
          dsimp only
          rw [hadd hassigns.1]
          exact not_addressesAlive_of_stored List.mem_cons_self rfl
        · rw [handleSethlmacTimer, hu.empty]
          dsimp only
          rw [hnotAdd fun hroom => hnot ⟨hroom, trivial⟩]
      · cases h
  | receive data beyond beyond' stale =>
      obtain rfl := Option.some.inj h
      obtain ⟨hown, hvalue⟩ := owns_iotoriiExtractAddress hu.sound cfg.linkaddrNodeAddr data.length
        (Wire.memory data beyond) (stale 0)
      have hunspecified := hlmacIsUnspecifiedAddr_deref (stale 0)
        (a := (iotoriiExtractAddress cfg.linkaddrNodeAddr data.length (Wire.memory data beyond)
          (stale 0) s.heap).1)
        (h := (iotoriiExtractAddress cfg.linkaddrNodeAddr data.length (Wire.memory data beyond)
          (stale 0) s.heap).2)
      rw [hvalue] at hunspecified
      simp only [Event.Assigns, receive, hunspecified]
      split
      · rename_i hlength
        exact ⟨fun hassigns => absurd hlength hassigns.2.1, fun _ => hu⟩
      · split
        · rename_i hspecified
          refine ⟨fun hassigns => ?_, fun _ => ⟨hown.sound, hu.empty, hu.lastTimestamp⟩⟩
          rw [hspecified] at hassigns
          exact Bool.noConfusion hassigns.2.2.1
        · rename_i hlength hspecified
          have hoffer := incomingSethlmac_of_unassigned cfg stale
            (Wire.iotoriiExtractTimestamp (Wire.memory data beyond')).1 (s := { s with heap := _ })
            ⟨hown.sound, hu.empty, hu.lastTimestamp⟩ hown
            fun turn => (deref_of_owns hown (stale turn) (stale 0)).trans hvalue
          refine ⟨fun hassigns => hoffer.1 ⟨hassigns.1, hassigns.2.2.2⟩, fun hnot => hoffer.2 ?_⟩
          rintro ⟨hroom, hguard⟩
          exact hnot ⟨hroom, hlength, Bool.eq_false_iff.2 hspecified, hguard⟩

/-- The entries of the table refer to live buffers with their ids, and no
buffer was freed twice, in every state of the run, exactly if no event of the
run gives the node an address. -/
theorem addressesAlive_iff (cfg : Config (LinkAddr addrSize)) (es : List Event) :
    Always (State.step cfg) State.AddressesAlive es State.boot ↔
      Meets (State.step cfg) (fun _ e => ¬ (Roomy cfg.hlmacMaxHlmac ∧ e.Assigns cfg)) es
        State.boot := by
  refine always_iff_meets (I := State.Unassigned) ?_ ?_ State.unassigned_boot
    State.unassigned_boot.addressesAlive
  · intro s e s' hu _ hok h
    exact (step_of_unassigned hu h).2 hok
  · intro s e s' hu _ h
    obtain ⟨hbad, hgood⟩ := step_of_unassigned hu h
    exact ⟨fun halive hassigns => hbad hassigns halive, fun hok => (hgood hok).addressesAlive⟩

/-- A SetHLMAC gives the node `01.01` its first address, in the default build. -/
theorem not_addressesAlive :
    ¬ Always (State.step ⟨.common, .broadcast, 1, 2, #v[1, 1], #v[0, 0]⟩) State.AddressesAlive
      [.receive (Wire.payloadBytes (.sethlmac 0 [1] [(4, (#v[1, 1] : LinkAddr 2))])) (fun _ => 0)
        (fun _ => 0) (fun _ _ => [])] State.boot := by
  decide +kernel

end

/-! ## The node that has its addresses by value -/

section

variable {α : Type*} [DecidableEq α] {cfg : Config α} {env : Env α} {n n' : Node α}

/-- The two nodes have stored the same addresses and are in the same round. -/
structure Follows (s : State) (n : Node α) : Prop where
  hlmacTable : n.hlmacTable = s.hlmacTable.value
  lastTimestamp : n.lastTimestamp = s.lastTimestamp
  timestamp : n.timestamp = s.timestamp

section

omit [DecidableEq α]

theorem follows_boot : Follows State.boot (Node.boot : Node α) := ⟨rfl, rfl, rfl⟩

/-- Only three fields of the standing of a node count. -/
theorem Follows.of_standing {s' : State} {standing : Standing α}
    (h : n'.standing = standing) (htable : standing.hlmacTable = s'.hlmacTable.value)
    (hlast : standing.lastTimestamp = s'.lastTimestamp)
    (hts : standing.timestamp = s'.timestamp) : Follows s' n' := by
  subst h
  exact ⟨htable, hlast, hts⟩

end

/-- The round timer makes the same table, whether addresses are values or
pointers. -/
theorem follows_sethlmacTimer (hf : Follows s n)
    (h : iotoriiHandleSethlmacTimer cfg env n = some n') :
    Follows (handleSethlmacTimer cfg s) n' := by
  have hroot : (hlmacCreateRootAddr 1 s.heap).1.address.bind (hlmacCreateRootAddr 1 s.heap).2.read =
      some [1] := Heap.read_alloc_self [1] s.heap
  refine Follows.of_standing (standing_iotoriiHandleSethlmacTimer cfg env h) ?_ hf.lastTimestamp
    (congrArg nextTimestamp hf.timestamp)
  have hadd := (value_hlmactableAdd cfg.hlmacMaxHlmac s.hlmacTable (nextTimestamp s.timestamp)
    hroot).2
  rw [← hf.hlmacTable, ← hf.timestamp] at hadd
  rw [handleSethlmacTimer]
  dsimp only
  rw [← hf.timestamp, hadd]
  rfl

theorem HlmacTable.Placed.of_extends {t : HlmacTable} {h : Buffers} (hplaced : t.Placed base)
    (hext : base.Extends h) : t.Placed h :=
  fun entry hentry i hi => Nat.lt_of_lt_of_le (hplaced entry hentry i hi) hext.length_le

section

omit [DecidableEq α]

/-- The guard decides as it does on values, if in a message of the node's round
the loop test finds what was stored. -/
theorem fst_acceptsSethlmac (timestamp : ℕ) (hf : Follows s n) (hs : s.heap.Sound)
    (hplaced : s.hlmacTable.Placed s.heap) {value : Den2ne.HlmacAddr}
    (hreads : timestamp = s.lastTimestamp → s.hlmacTable.ReadsAs s.heap stale value)
    (hvalue : ∀ turn, addr.deref (stale turn) s.heap = value) :
    (acceptsSethlmac stale timestamp addr s).1 = Den2ne.acceptsSethlmac n timestamp value := by
  rw [acceptsSethlmac, Den2ne.acceptsSethlmac, hf.hlmacTable, hf.lastTimestamp]
  split
  next hlt => rw [decide_eq_true hlt, Bool.true_or]
  next hlt =>
    rw [decide_eq_false hlt, Bool.false_or]
    change (!(hlmactableHasLoop stale s.hlmacTable addr s.heap).1 &&
      timestamp == s.lastTimestamp) = _
    by_cases heq : timestamp = s.lastTimestamp
    · rw [fst_hlmactableHasLoop hs hplaced (hreads heq) hvalue]
    · rw [beq_eq_false_iff_ne.2 heq, Bool.and_false, Bool.and_false]

/-- The round of a node after it was offered an address that it accepts. -/
theorem timestamps_store (cfg : Config α) (sender : α) {value : Den2ne.HlmacAddr}
    (standing : Standing α) {isAdded : Bool}
    (hadded : (Den2ne.hlmactableAdd cfg.hlmacMaxHlmac standing.hlmacTable value timestamp).1 =
      isAdded) :
    (standing.store cfg sender timestamp value).2.lastTimestamp =
        (if isAdded ∧ (standing.lastTimestamp < timestamp ∨ standing.lastTimestamp = 0) then
          timestamp else standing.lastTimestamp) ∧
      (standing.store cfg sender timestamp value).2.timestamp = standing.timestamp := by
  cases isAdded with
  | false => simp [Standing.store, hadded]
  | true =>
      simp only [Standing.store, hadded, Standing.adopt, Standing.enters, if_true, true_and,
        Bool.or_eq_true, decide_eq_true_eq, beq_iff_eq]
      split
      · exact ⟨rfl, rfl⟩
      · exact ⟨rfl, rfl⟩

end

/-- The SetHLMAC branch makes the same table and enters the same round, whether
addresses are values or pointers. -/
theorem follows_incomingSethlmac {sender : α} (hf : Follows s n)
    (ho : base.Owns addr.address s.heap) (hplaced : s.hlmacTable.Placed s.heap) {ids : List UInt8}
    (hreads : timestamp = s.lastTimestamp →
      s.hlmacTable.ReadsAs s.heap stale ⟨some ids, addr.len⟩)
    (hvalue : ∀ turn, addr.deref (stale turn) s.heap = ⟨some ids, addr.len⟩)
    (h : Den2ne.incomingSethlmac cfg env sender timestamp ⟨some ids, addr.len⟩ n = some n') :
    Follows (incomingSethlmac cfg stale timestamp addr s) n' := by
  have haccepts : (acceptsSethlmac stale timestamp addr s).1 =
      n.standing.accepts timestamp ⟨some ids, addr.len⟩ :=
    fst_acceptsSethlmac timestamp hf ho.sound hplaced hreads hvalue
  have hderef : addr.deref (stale 0) (acceptsSethlmac stale timestamp addr s).2 =
      ⟨some ids, addr.len⟩ := by
    rw [← hvalue 0]
    exact deref_of_extends (extends_acceptsSethlmac ho.sound) fun i hi =>
      Heap.lt_of_read_isSome (ho.live i hi).2
  have hread : addr.address.bind (acceptsSethlmac stale timestamp addr s).2.read = some ids :=
    read_of_deref (owns_acceptsSethlmac ho) hderef
  obtain ⟨hadded, htable⟩ := value_hlmactableAdd cfg.hlmacMaxHlmac s.hlmacTable timestamp hread
  rw [← hf.hlmacTable] at hadded htable
  have hstanding := standing_incomingSethlmac cfg env h
  unfold Standing.offer at hstanding
  unfold incomingSethlmac
  dsimp only
  rw [haccepts]
  split at hstanding
  · rename_i haccepted
    rw [if_pos haccepted]
    obtain ⟨hlast, htimestamp⟩ := timestamps_store cfg sender n.standing hadded.symm
    have hlast' : n.standing.lastTimestamp = s.lastTimestamp := hf.lastTimestamp
    rw [hlast'] at hlast
    exact Follows.of_standing hstanding ((hlmacTable_store sender).trans htable.symm) hlast
      (htimestamp.trans hf.timestamp)
  · rename_i hrejected
    rw [if_neg hrejected]
    exact Follows.of_standing hstanding hf.hlmacTable hf.lastTimestamp hf.timestamp

end

/-- The address of a packet has a buffer unless it is unspecified. -/
theorem extractAddress_cases (self : LinkAddr addrSize) (datalen : ℕ) (mem : ℕ → UInt8) :
    (Wire.iotoriiExtractAddress self datalen mem).1 = unspecifiedHlmacAddress ∨
      ∃ ids len, (Wire.iotoriiExtractAddress self datalen mem).1 = ⟨some ids, len⟩ := by
  simp only [Wire.iotoriiExtractAddress]
  split
  · exact .inr ⟨_, _, rfl⟩
  · exact .inl rfl

/-- A received packet makes the same table and enters the same round, whether
addresses are values or pointers, as long as freed buffers keep their ids. -/
theorem follows_receive {cfg : Config (LinkAddr addrSize)} {env : Env (LinkAddr addrSize)}
    {n n' : Node (LinkAddr addrSize)} {sender : LinkAddr addrSize} {data : List UInt8}
    {beyond beyond' : ℕ → UInt8} (hf : Follows s n) (hs : s.heap.Sound)
    (hfaithful : s.hlmacTable.Faithful s.heap stale)
    (h : Wire.iotoriiOperation cfg env sender data beyond beyond' n = some n') :
    Follows (receive cfg data beyond beyond' stale s) n' := by
  obtain ⟨hown, hvalue⟩ := owns_iotoriiExtractAddress hs cfg.linkaddrNodeAddr data.length
    (Wire.memory data beyond) (stale 0)
  have hunspecified := hlmacIsUnspecifiedAddr_deref (stale 0)
    (a := (iotoriiExtractAddress cfg.linkaddrNodeAddr data.length (Wire.memory data beyond)
      (stale 0) s.heap).1)
    (h := (iotoriiExtractAddress cfg.linkaddrNodeAddr data.length (Wire.memory data beyond)
      (stale 0) s.heap).2)
  rw [hvalue] at hunspecified
  have hsame : ∀ {m : Node (LinkAddr addrSize)}, m.standing = n.standing → ∀ heap,
      Follows { s with heap := heap } m :=
    fun hm _ => Follows.of_standing hm hf.hlmacTable hf.lastTimestamp hf.timestamp
  unfold Wire.iotoriiOperation at h
  unfold receive
  dsimp only at h ⊢
  rw [← hunspecified]
  split at h
  · rename_i hlength
    obtain rfl := Option.some.inj h
    rw [if_pos hlength]
    have hhello := standing_iotoriiHandleIncomingHello sender n
    rw [Standing.hello_eq] at hhello
    exact Follows.of_standing hhello hf.hlmacTable hf.lastTimestamp hf.timestamp
  · rename_i hlength
    rw [if_neg hlength]
    split at h
    · rename_i hun
      rw [if_pos hun]
      refine hsame ?_ _
      split at h
      · rw [← Option.some.inj h]
        exact standing_incomingLoad cfg sender _ n
      · split at h
        · exact standing_incomingShare cfg h
        · rw [Option.some.inj h]
    · rename_i hspecified
      rw [if_neg hspecified]
      rcases extractAddress_cases cfg.linkaddrNodeAddr data.length (Wire.memory data beyond) with
        hnone | ⟨ids, len, haddr⟩
      · exact absurd (hlmacIsUnspecifiedAddr_iff.2 hnone) hspecified
      · rw [haddr] at h hvalue
        obtain rfl := congrArg Den2ne.HlmacAddr.len hvalue
        exact follows_incomingSethlmac (s := { s with heap := _ })
          ⟨hf.hlmacTable, hf.lastTimestamp, hf.timestamp⟩ hown
          (hfaithful.placed.of_extends hown.extension)
          (fun _ => (hfaithful.readsAs _).of_extends hfaithful.placed hown.extension)
          (fun turn => (deref_of_owns hown (stale turn) (stale 0)).trans hvalue) h

end Owned

end Den2ne
