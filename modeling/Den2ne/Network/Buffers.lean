import Den2ne.Network.LoopFree
import Den2ne.Node.Ownership

/-!
# The loop test on freed buffers

The network once more, each node with the heap of its buffers of ids. The loop
test of the SetHLMAC branch reads there what the entries of the table point to,
and these buffers were freed when the addresses had been stored. As long as it
finds in them what was stored, the nodes do what they do by value, and their
addresses are simple paths exactly if every event spares the root.
-/

namespace Den2ne

open Cells Transition

namespace Owned

variable {α : Type*} [DecidableEq α]

/-- `iotorii_extract_address` on a message. What is not a SetHLMAC has an empty
prefix, whose buffer is lost. -/
def extractAddress (self : α) (stale : ℕ → List UInt8) (message : Payload α) (h : Buffers) :
    HlmacAddr × Buffers :=
  match message with
  | .sethlmac _ hlmacPrefix assigned =>
      let (i, h) := h.alloc hlmacPrefix
      match assigned.find? (·.2 = self) with
      | some (id, _) => hlmacAddNewId stale ⟨some i, UInt8.ofNat hlmacPrefix.length⟩ id h
      | none => (⟨none, 0⟩, h)
  | _ => (⟨none, 0⟩, (h.alloc []).2)

/-- `iotorii_operation`, with a guard that reads the buffers. -/
def operation (cfg : Config α) (env : Env α) (stale : ℕ → ℕ → List UInt8) (sender : α)
    (message : Payload α) (n : Node α) (s : State) : Option (Node α × State) :=
  let (addr, h) := extractAddress cfg.linkaddrNodeAddr (stale 0) message s.heap
  match message with
  | .hello => some (iotoriiHandleIncomingHello sender n, s)
  | .load load => some (incomingLoad cfg sender load n, { s with heap := h })
  | .share extra =>
      (incomingShare cfg env.junk sender extra n).map fun n => (n, { s with heap := h })
  | .sethlmac timestamp _ _ =>
      let s := { s with heap := h }
      if hlmacIsUnspecifiedAddr addr then some (n, s)
      else
        let (accepted, _) := acceptsSethlmac stale timestamp addr s
        (settleSethlmac cfg env sender timestamp (addr.deref (stale 0) h) accepted n).map fun n =>
          (n, incomingSethlmac cfg stale timestamp addr s)

/-- One event at a node, with what reads of freed buffers find. -/
def step (cfg : Config α) (env : Env α) (stale : ℕ → ℕ → List UInt8) (e : Den2ne.Event α)
    (n : Node α) (s : State) : Option (Node α × State) :=
  match e with
  | .timer .sethlmac =>
      (n.expire cfg env .sethlmac).map fun n => (n, handleSethlmacTimer cfg s)
  | .timer t => (n.expire cfg env t).map fun n => (n, s)
  | .receive sender message round =>
      if sender = cfg.linkaddrNodeAddr then some (n, s)
      else
        operation cfg env stale sender message
          { n with history := { n.history with
            received := (sender, message, round) :: n.history.received } } s

/-- If the message is of the node's round, the loop test finds what was stored. -/
def State.Reads (s : State) (stale : ℕ → ℕ → List UInt8) (self : α) (message : Payload α) : Prop :=
  match message with
  | .sethlmac timestamp _ _ => timestamp = s.lastTimestamp →
      s.hlmacTable.ReadsAs s.heap stale (Den2ne.iotoriiExtractAddress self message)
  | _ => True

/-- The network, and what of its nodes refers to buffers. -/
structure Net (α : Type*) where
  net : Den2ne.Net α
  memory : α → State

/-- An event, and what reads of freed buffers find in it. -/
structure NetEvent (α : Type*) where
  event : Den2ne.NetEvent α
  stale : ℕ → ℕ → List UInt8

def Net.boot : Net α := ⟨Den2ne.Net.boot, fun _ => State.boot⟩

end Owned

namespace World

variable {α : Type*} [DecidableEq α] (w : World α)

/-- `act`, in the heap of the node. -/
def actOwned (s : Owned.Net α) (v : α) (env : Env α) (stale : ℕ → ℕ → List UInt8) (e : Event α)
    (air : List (Frame α)) : Option (Owned.Net α) :=
  (Owned.step (w.config v) env stale e (s.net.node v) (s.memory v)).map fun r =>
    { net := ⟨Function.update s.net.node v { r.1 with macOut := [] },
        air ++ r.1.macOut.flatMap (w.frames v)⟩
      memory := Function.update s.memory v r.2 }

/-- One event of the network. -/
def stepOwned (e : Owned.NetEvent α) (s : Owned.Net α) : Option (Owned.Net α) :=
  match e.event with
  | .timer v t env =>
      if v ∈ w.nodes then w.actOwned s v env e.stale (.timer t) s.net.air else none
  | .deliver i env =>
      match s.net.air[i]? with
      | none => none
      | some f => w.actOwned s f.dst env e.stale (.receive f.src f.message f.round)
          (s.net.air.eraseIdx i)
  | event => (w.step event s.net).map fun net => { s with net := net }

end World

/-- Where a SetHLMAC of the receiver's round is delivered, the loop test finds
what was stored. -/
def Owned.Net.Reads {α : Type*} [DecidableEq α] (s : Owned.Net α) (e : Owned.NetEvent α) : Prop :=
  match e.event with
  | .deliver i _ => ∀ f ∈ s.net.air[i]?, f.src ≠ f.dst →
      (s.memory f.dst).Reads e.stale f.dst f.message
  | _ => True

instance {α : Type*} [DecidableEq α] (s : Owned.State) (stale : ℕ → ℕ → List UInt8) (self : α)
    (message : Payload α) : Decidable (s.Reads stale self message) :=
  match message with
  | .hello | .load _ | .share _ => inferInstanceAs (Decidable True)
  | .sethlmac .. => inferInstanceAs (Decidable (_ = s.lastTimestamp → _))

instance {α : Type*} [DecidableEq α] (s : Owned.Net α) (e : Owned.NetEvent α) :
    Decidable (s.Reads e) :=
  match e with
  | ⟨.deliver i _, _⟩ => inferInstanceAs (Decidable (∀ f ∈ s.net.air[i]?, _))
  | ⟨.timer .., _⟩ | ⟨.lose _, _⟩ | ⟨.duplicate _, _⟩ => inferInstanceAs (Decidable True)

namespace Owned

variable {α : Type*} [DecidableEq α] {cfg : Config α} {env : Env α}
  {stale : ℕ → ℕ → List UInt8} {s s' : State} {n n' : Node α}

/-! ## One event of a node -/

/-- The extracted address is the caller's, and has the value that the message
gives it. -/
theorem owns_extractAddress {h : Buffers} (hs : h.Sound) (self : α) (stale : ℕ → List UInt8)
    (message : Payload α) :
    h.Owns (extractAddress self stale message h).1.address
        (extractAddress self stale message h).2 ∧
      (extractAddress self stale message h).1.deref stale
        (extractAddress self stale message h).2 = Den2ne.iotoriiExtractAddress self message := by
  have hlost (ids : List UInt8) : h.Owns none (h.alloc ids).2 :=
    ⟨(hs.owns.alloc ids).sound, (hs.owns.alloc ids).extension, nofun⟩
  cases message with
  | hello => exact ⟨hlost [], rfl⟩
  | load load => exact ⟨hlost [], rfl⟩
  | share extra => exact ⟨hlost [], rfl⟩
  | sethlmac timestamp hlmacPrefix assigned =>
      simp only [extractAddress, Den2ne.iotoriiExtractAddress]
      cases assigned.find? (·.2 = self) with
      | none => exact ⟨hlost hlmacPrefix, rfl⟩
      | some entry =>
          have hids := hs.owns.alloc hlmacPrefix
          refine ⟨owns_hlmacAddNewId (a := ⟨some _, _⟩) hids _, ?_⟩
          rw [deref_hlmacAddNewId (a := ⟨some _, _⟩) hids, deref_alloc]
          rfl

theorem iotoriiExtractAddress_cases (self : α) (message : Payload α) :
    Den2ne.iotoriiExtractAddress self message = unspecifiedHlmacAddress ∨
      ∃ ids len, Den2ne.iotoriiExtractAddress self message = ⟨some ids, len⟩ := by
  unfold Den2ne.iotoriiExtractAddress
  split
  · split
    · exact .inr ⟨_, _, rfl⟩
    · exact .inl rfl
  · exact .inl rfl

theorem placed_hlmactableAdd {maxHlmac : ℤ} {t : HlmacTable} {addr : HlmacAddr} {timestamp : ℕ}
    {h : Buffers} (hplaced : t.Placed h)
    (haddr : ∀ i, addr.address = some i → i < h.cells.length) :
    (hlmactableAdd maxHlmac t addr timestamp h).2.Placed h := by
  have hrenew : (hlmactableRenew t timestamp).Placed h := by
    have hempty : (hlmactableClean t).Placed h := fun _ hentry => nomatch hentry
    unfold hlmactableRenew
    split
    · split
      · exact hplaced
      · split
        · exact hempty
        · exact hplaced
    · exact hplaced
  simp only [hlmactableAdd]
  split
  · exact hrenew
  · split
    · intro entry hentry
      rcases List.mem_append.1 hentry with hentry | hentry
      · exact hrenew entry hentry
      · rw [List.mem_singleton.1 hentry]
        exact haddr
    · exact hrenew

/-- The memory of a node: it follows the node, and its table points into the heap. -/
structure Backs (s : State) (n : Node α) : Prop extends Follows s n where
  sound : s.heap.Sound
  placed : s.hlmacTable.Placed s.heap

section

omit [DecidableEq α]

theorem backs_boot : Backs State.boot (Node.boot : Node α) where
  toFollows := follows_boot
  sound := Heap.sound_empty
  placed _ hentry := nomatch hentry

/-- An event that changes neither the table nor the round. -/
theorem Backs.quiet (hb : Backs s n) {standing : Standing α} (h : n'.standing = standing)
    (htable : standing.hlmacTable = n.hlmacTable)
    (hlast : standing.lastTimestamp = n.lastTimestamp) (hts : standing.timestamp = n.timestamp)
    {heap : Buffers} (hsound : heap.Sound) (hext : s.heap.Extends heap) :
    Backs { s with heap := heap } n' where
  toFollows := Follows.of_standing h (htable.trans hb.hlmacTable) (hlast.trans hb.lastTimestamp)
    (hts.trans hb.timestamp)
  sound := hsound
  placed := hb.placed.of_extends hext

end

/-- The SetHLMAC branch. -/
theorem Backs.incomingSethlmac {base : Buffers} {addr : HlmacAddr} {timestamp : ℕ} {sender : α}
    {ids : List UInt8} (hb : Backs s n) (ho : base.Owns addr.address s.heap)
    (hreads : timestamp = s.lastTimestamp →
      s.hlmacTable.ReadsAs s.heap stale ⟨some ids, addr.len⟩)
    (hvalue : ∀ turn, addr.deref (stale turn) s.heap = ⟨some ids, addr.len⟩)
    (h : Den2ne.incomingSethlmac cfg env sender timestamp ⟨some ids, addr.len⟩ n = some n') :
    Backs (incomingSethlmac cfg stale timestamp addr s) n' where
  toFollows := follows_incomingSethlmac hb.toFollows ho hb.placed hreads hvalue h
  sound := by
    rw [heap_incomingSethlmac cfg]
    exact (owns_acceptsSethlmac ho).free.sound
  placed := by
    have hext : s.heap.Extends (acceptsSethlmac stale timestamp addr s).2 :=
      extends_acceptsSethlmac ho.sound
    have haddr : ∀ i, addr.address = some i →
        i < (acceptsSethlmac stale timestamp addr s).2.cells.length := fun i hi =>
      Nat.lt_of_lt_of_le (Heap.lt_of_read_isSome (ho.live i hi).2) hext.length_le
    intro entry hentry i hi
    rw [heap_incomingSethlmac cfg, Heap.length_free]
    unfold Owned.incomingSethlmac at hentry
    dsimp only at hentry
    split at hentry
    · exact placed_hlmactableAdd (hb.placed.of_extends hext) haddr entry hentry i hi
    · exact hb.placed.of_extends hext entry hentry i hi

/-- The round timer. -/
theorem Backs.handleSethlmacTimer (hb : Backs s n)
    (h : iotoriiHandleSethlmacTimer cfg env n = some n') :
    Backs (handleSethlmacTimer cfg s) n' where
  toFollows := follows_sethlmacTimer hb.toFollows h
  sound := (owns_hlmacCreateRootAddr hb.sound 1).free.sound
  placed := by
    have hown := owns_hlmacCreateRootAddr hb.sound 1
    intro entry hentry i hi
    change i < ((hlmacCreateRootAddr 1 s.heap).2.free _).cells.length
    rw [Heap.length_free]
    exact placed_hlmactableAdd (hb.placed.of_extends hown.extension)
      (fun j hj => Heap.lt_of_read_isSome (hown.live j hj).2) entry hentry i hi

omit [DecidableEq α] in
theorem map_fst_map (x : Option (Node α)) (f : Node α → State) :
    (x.map fun n => (n, f n)).map Prod.fst = x := by
  rw [Option.map_map]
  exact Option.map_id'

/-- The SetHLMAC branch of `iotorii_operation`, and the guard before it. -/
theorem operation_sethlmac {sender : α} {timestamp : ℕ} {hlmacPrefix : List UInt8}
    {assigned : List (UInt8 × α)} (hb : Backs s n)
    (hreads : s.Reads stale cfg.linkaddrNodeAddr (.sethlmac timestamp hlmacPrefix assigned)) :
    (operation cfg env stale sender (.sethlmac timestamp hlmacPrefix assigned) n s).map Prod.fst =
        iotoriiOperation cfg env sender (.sethlmac timestamp hlmacPrefix assigned) n ∧
      ∀ r, operation cfg env stale sender (.sethlmac timestamp hlmacPrefix assigned) n s = some r →
        Backs r.2 r.1 := by
  obtain ⟨hown, hvalue⟩ := owns_extractAddress hb.sound cfg.linkaddrNodeAddr (stale 0)
    (.sethlmac timestamp hlmacPrefix assigned)
  have hb' : Backs { s with heap := (extractAddress cfg.linkaddrNodeAddr (stale 0)
      (.sethlmac timestamp hlmacPrefix assigned) s.heap).2 } n :=
    hb.quiet rfl rfl rfl rfl hown.sound hown.extension
  have hunspecified := hlmacIsUnspecifiedAddr_deref (stale 0)
    (a := (extractAddress cfg.linkaddrNodeAddr (stale 0)
      (.sethlmac timestamp hlmacPrefix assigned) s.heap).1)
    (h := (extractAddress cfg.linkaddrNodeAddr (stale 0)
      (.sethlmac timestamp hlmacPrefix assigned) s.heap).2)
  rw [hvalue] at hunspecified
  simp only [operation, iotoriiOperation]
  rw [hunspecified]
  split
  · exact ⟨rfl, fun r hr => Option.some.inj hr ▸ hb'⟩
  · rename_i hspecified
    rcases iotoriiExtractAddress_cases cfg.linkaddrNodeAddr
        (.sethlmac timestamp hlmacPrefix assigned)
      with hnone | ⟨ids, len, haddr⟩
    · rw [← hunspecified, hnone] at hspecified
      exact absurd rfl hspecified
    · -- the buffer of the address has its ids at every turn of the loop test
      rw [haddr] at hvalue ⊢
      have hlen := congrArg Den2ne.HlmacAddr.len hvalue
      change _ = len at hlen
      subst hlen
      have hall (turn : ℕ) := (deref_of_owns hown (stale turn) (stale 0)).trans hvalue
      have hreads' : timestamp = s.lastTimestamp → s.hlmacTable.ReadsAs _ stale _ :=
        fun heq => (haddr ▸ hreads heq).of_extends hb.placed hown.extension
      have haccepts := fst_acceptsSethlmac timestamp hb'.toFollows hown.sound hb'.placed
        hreads' hall
      rw [hvalue, haccepts]
      refine ⟨map_fst_map _ _, fun r hr => ?_⟩
      obtain ⟨m, hm, rfl⟩ := Option.map_eq_some_iff.1 hr
      exact hb'.incomingSethlmac hown hreads' hall hm

theorem operation_of_reads {sender : α} {message : Payload α} (hb : Backs s n)
    (hreads : s.Reads stale cfg.linkaddrNodeAddr message) :
    (operation cfg env stale sender message n s).map Prod.fst =
        iotoriiOperation cfg env sender message n ∧
      ∀ r, operation cfg env stale sender message n s = some r → Backs r.2 r.1 := by
  obtain ⟨hown, -⟩ := owns_extractAddress hb.sound cfg.linkaddrNodeAddr (stale 0) message
  cases message with
  | hello =>
      refine ⟨rfl, ?_⟩
      rintro r ⟨⟩
      have hhello := standing_iotoriiHandleIncomingHello sender n
      rw [Standing.hello_eq] at hhello
      exact hb.quiet hhello rfl rfl rfl hb.sound (Heap.Extends.refl s.heap)
  | load load =>
      refine ⟨rfl, ?_⟩
      rintro r ⟨⟩
      exact hb.quiet (standing_incomingLoad cfg sender load n) rfl rfl rfl hown.sound
        hown.extension
  | share extra =>
      refine ⟨map_fst_map _ _, fun r hr => ?_⟩
      obtain ⟨m, hm, rfl⟩ := Option.map_eq_some_iff.1 hr
      exact hb.quiet (standing_incomingShare cfg hm) rfl rfl rfl hown.sound hown.extension
  | sethlmac timestamp hlmacPrefix assigned => exact operation_sethlmac hb hreads

/-- As long as the loop test finds what was stored, the node does what it does
by value. -/
theorem step_of_reads {e : Den2ne.Event α} (hb : Backs s n)
    (hreads : ∀ sender message round, e = .receive sender message round →
      sender ≠ cfg.linkaddrNodeAddr → s.Reads stale cfg.linkaddrNodeAddr message) :
    (step cfg env stale e n s).map Prod.fst = Node.step cfg env e n ∧
      ∀ r, step cfg env stale e n s = some r → Backs r.2 r.1 := by
  have hquiet (t : Timer) (ht : t ≠ .sethlmac) :
      ((n.expire cfg env t).map fun n => (n, s)).map Prod.fst = n.expire cfg env t ∧
        ∀ r, ((n.expire cfg env t).map fun n => (n, s)) = some r → Backs r.2 r.1 := by
    refine ⟨map_fst_map _ _, fun r hr => ?_⟩
    obtain ⟨m, hm, rfl⟩ := Option.map_eq_some_iff.1 hr
    have hstanding := standing_expire cfg env hm
    cases t with
    | sethlmac => exact absurd rfl ht
    | hello => exact hb.quiet hstanding rfl rfl rfl hb.sound (Heap.Extends.refl s.heap)
    | sendMessage csma => exact hb.quiet hstanding rfl rfl rfl hb.sound (Heap.Extends.refl s.heap)
    | statistic => exact hb.quiet hstanding rfl rfl rfl hb.sound (Heap.Extends.refl s.heap)
  cases e with
  | timer t =>
      cases t with
      | sethlmac =>
          refine ⟨map_fst_map _ _, fun r hr => ?_⟩
          obtain ⟨m, hm, rfl⟩ := Option.map_eq_some_iff.1 hr
          simp only [Node.expire] at hm
          split at hm
          · exact Backs.handleSethlmacTimer (n := { n with sethlmacTimer := false })
              ⟨⟨hb.hlmacTable, hb.lastTimestamp, hb.timestamp⟩, hb.sound, hb.placed⟩ hm
          · cases hm
      | hello => exact hquiet .hello (by simp)
      | sendMessage csma => exact hquiet (.sendMessage csma) (by simp)
      | statistic => exact hquiet .statistic (by simp)
  | receive sender message round =>
      simp only [step, Node.step]
      split
      · exact ⟨rfl, fun r hr => Option.some.inj hr ▸ hb⟩
      · rename_i hne
        exact operation_of_reads ⟨⟨hb.hlmacTable, hb.lastTimestamp, hb.timestamp⟩, hb.sound,
          hb.placed⟩ (hreads sender message round rfl hne)

/-! ## One event of the network -/

/-- Every node has its memory. -/
def Net.Backed (s : Net α) : Prop := ∀ v, Backs (s.memory v) (s.net.node v)

omit [DecidableEq α] in
theorem Net.backed_boot : (Net.boot : Net α).Backed := fun _ => backs_boot

variable {w : World α} {x x' : Net α}

theorem Net.Backed.act (hx : x.Backed) {v : α} {e : Den2ne.Event α} {air : List (Frame α)}
    (hreads : ∀ sender message round, e = .receive sender message round → sender ≠ v →
      (x.memory v).Reads stale v message) :
    (w.actOwned x v env stale e air).map Net.net = w.act x.net v env e air ∧
      ∀ x', w.actOwned x v env stale e air = some x' → x'.Backed := by
  obtain ⟨hfst, hbacks⟩ : (step (w.config v) env stale e (x.net.node v) (x.memory v)).map Prod.fst =
      Node.step (w.config v) env e (x.net.node v) ∧ _ := step_of_reads (hx v) hreads
  refine ⟨?_, fun x' hx' => ?_⟩
  · rw [World.act, ← hfst, World.actOwned, Option.map_map, Option.map_map]
    rfl
  · obtain ⟨r, hr, rfl⟩ := Option.map_eq_some_iff.1 hx'
    have hr' := hbacks r hr
    intro u
    by_cases huv : u = v
    · subst huv
      simp only [Function.update_self]
      exact ⟨⟨hr'.hlmacTable, hr'.lastTimestamp, hr'.timestamp⟩, hr'.sound, hr'.placed⟩
    · simp only [Function.update_of_ne huv]
      exact hx u

omit [DecidableEq α] in
/-- An event of the air. -/
theorem Net.Backed.of_node (hx : x.Backed) {next : Option (Den2ne.Net α)}
    (h : ∀ net, next = some net → net.node = x.net.node) :
    (next.map fun net => { x with net := net }).map Net.net = next ∧
      ∀ x', next.map (fun net => { x with net := net }) = some x' → x'.Backed := by
  refine ⟨?_, fun x' hx' => ?_⟩
  · rw [Option.map_map]
    exact Option.map_id'
  · obtain ⟨net, hnet, rfl⟩ := Option.map_eq_some_iff.1 hx'
    intro v
    change Backs (x.memory v) (net.node v)
    rw [h net hnet]
    exact hx v

/-- As long as the loop test finds what was stored, the network does what it
does by value. -/
theorem Net.Backed.step (hx : x.Backed) {e : NetEvent α} (hreads : x.Reads e) :
    (w.stepOwned e x).map Net.net = w.step e.event x.net ∧
      ∀ x', w.stepOwned e x = some x' → x'.Backed := by
  obtain ⟨event, stale⟩ := e
  cases event with
  | timer v t env =>
      simp only [World.stepOwned, World.step]
      split
      · exact hx.act fun _ _ _ heq _ => by cases heq
      · exact ⟨rfl, fun _ h => by cases h⟩
  | deliver i env =>
      simp only [World.stepOwned, World.step]
      cases hf : x.net.air[i]? with
      | none => exact ⟨rfl, fun _ h => by cases h⟩
      | some f =>
          refine hx.act fun sender message round heq hne => ?_
          obtain ⟨rfl, rfl, rfl⟩ := Den2ne.Event.receive.inj heq
          exact hreads f hf hne
  | lose i =>
      refine hx.of_node fun net hnet => ?_
      simp only [World.step] at hnet
      split at hnet
      · exact Option.some.inj hnet ▸ rfl
      · cases hnet
  | duplicate i =>
      refine hx.of_node fun net hnet => ?_
      simp only [World.step] at hnet
      split at hnet
      · cases hnet
      · exact Option.some.inj hnet ▸ rfl

end Owned

/-! ## Runs -/

/-- In every run in which the loop test finds what was stored, whatever the
bound on the number of addresses, no node has stored an address that loops in
any state exactly if every event spares the root. -/
theorem always_loopFree_iff {α : Type*} [DecidableEq α] (w : World α)
    (es : List (Owned.NetEvent α))
    (hreads : Meets w.stepOwned Owned.Net.Reads es Owned.Net.boot) :
    Always w.stepOwned (fun s => w.LoopFree s.net) es Owned.Net.boot ↔
      Meets w.stepOwned (fun s e => w.SparesRoot s.net e.event) es Owned.Net.boot := by
  have hnet {s s' : Owned.Net α} {e : Owned.NetEvent α} (hbacked : s.Backed) (hr : s.Reads e)
      (hstep : w.stepOwned e s = some s') : w.step e.event s.net = some s'.net := by
    rw [← (hbacked.step hr).1, hstep]
    rfl
  refine always_iff_meets_of_meets (I := fun s => s.Backed ∧ s.net.Orderly w) ?_ ?_
    ⟨Owned.Net.backed_boot, Net.orderly_boot w⟩ (fun _ _ => List.Pairwise.nil) hreads
  · rintro s e s' ⟨hbacked, h⟩ - hr - hstep
    exact ⟨(hbacked.step hr).2 s' hstep, (h.step (hnet hbacked hr hstep)).1⟩
  · rintro s e s' ⟨hbacked, h⟩ hfree hr hstep
    exact (h.step (hnet hbacked hr hstep)).2 hfree

/-- In the diamond of `1` (the root), `2`, `3` and `4`, node `3` passes on what
it has from node `2`, and so does node `4`, to node `2` again. The reads of
freed buffers find `stale`. -/
def diamondRun (stale : List UInt8) : List (Owned.NetEvent ℕ) :=
  (([.timer 1 .hello ⟨15, [0, 1], 150, 9⟩, .timer 2 .hello ⟨15, [0, 1], 150, 9⟩,
    .timer 3 .hello ⟨15, [0, 1], 150, 9⟩, .timer 4 .hello ⟨15, [0, 1], 150, 9⟩] ++
    List.replicate 8 (.deliver 0 ⟨15, [0, 1], 150, 9⟩) ++
    [.timer 1 .sethlmac ⟨15, [0, 1], 150, 9⟩,
      .timer 1 (.sendMessage .scheduled) ⟨15, [0, 1], 150, 9⟩, .deliver 0 ⟨15, [0, 1], 150, 9⟩,
      .timer 2 (.sendMessage .scheduled) ⟨15, [0, 1], 150, 9⟩, .deliver 1 ⟨15, [0, 1], 150, 9⟩,
      .timer 3 (.sendMessage .scheduled) ⟨15, [0, 1], 150, 9⟩, .deliver 3 ⟨15, [0, 1], 150, 9⟩,
      .timer 4 (.sendMessage .scheduled) ⟨15, [0, 1], 150, 9⟩,
      .deliver 3 ⟨15, [0, 1], 150, 9⟩] : List (NetEvent ℕ))).map fun e => ⟨e, fun _ _ => stale⟩

/-- The freed buffer of node `2` still holds its address `1.1`, and the loop is
found. -/
theorem always_loopFree_iff_diamond :
    Always (World.ofLinks 3 [(1, 2), (2, 3), (2, 4), (3, 4)] .broadcast (-1)).stepOwned
      (fun s => (World.ofLinks 3 [(1, 2), (2, 3), (2, 4), (3, 4)] .broadcast (-1)).LoopFree s.net)
      (diamondRun [1, 1]) Owned.Net.boot := by
  refine (always_loopFree_iff _ _ ?_).2 ?_
  · decide +kernel
  · decide +kernel

/-- Something else was written to that buffer, and node `2` stores an extension
of its address. -/
theorem not_always_loopFree_diamond :
    ¬ Always (World.ofLinks 3 [(1, 2), (2, 3), (2, 4), (3, 4)] .broadcast (-1)).stepOwned
      (fun s => (World.ofLinks 3 [(1, 2), (2, 3), (2, 4), (3, 4)] .broadcast (-1)).LoopFree s.net)
      (diamondRun [9, 9]) Owned.Net.boot := by
  decide +kernel

/-- In round `1` of a triangle, node `3` passes on to the root the address that
it got from node `2`, and the root stores it behind its own, without a loop
test. -/
theorem not_always_loopFree :
    ¬ Always (World.ofLinks 2 [(1, 2), (1, 3), (2, 3)] .broadcast (-1)).stepOwned
      (fun s => (World.ofLinks 2 [(1, 2), (1, 3), (2, 3)] .broadcast (-1)).LoopFree s.net)
      (List.map (fun e => ⟨e, fun _ _ => [9, 9]⟩)
      [.timer 1 .hello ⟨15, [0, 1], 150, 9⟩, .timer 2 .hello ⟨15, [0, 1], 150, 9⟩,
       .timer 3 .hello ⟨15, [0, 1], 150, 9⟩, .deliver 0 ⟨15, [0, 1], 150, 9⟩,
       .deliver 0 ⟨15, [0, 1], 150, 9⟩, .deliver 0 ⟨15, [0, 1], 150, 9⟩,
       .deliver 0 ⟨15, [0, 1], 150, 9⟩, .deliver 0 ⟨15, [0, 1], 150, 9⟩,
       .deliver 0 ⟨15, [0, 1], 150, 9⟩, .timer 1 .sethlmac ⟨15, [0, 1], 150, 9⟩,
       .timer 1 (.sendMessage .scheduled) ⟨15, [0, 1], 150, 9⟩,
       .timer 1 .hello ⟨15, [0, 1], 150, 9⟩, .timer 1 .sethlmac ⟨15, [0, 1], 150, 9⟩,
       .timer 1 (.sendMessage .scheduled) ⟨15, [0, 1], 150, 9⟩,
       .deliver 4 ⟨15, [0, 1], 150, 9⟩, .deliver 4 ⟨15, [0, 1], 150, 9⟩,
       .timer 2 (.sendMessage .scheduled) ⟨15, [0, 1], 150, 9⟩,
       .deliver 5 ⟨15, [0, 1], 150, 9⟩,
       .timer 3 (.sendMessage .scheduled) ⟨15, [0, 1], 150, 9⟩,
       .timer 3 (.sendMessage .scheduled) ⟨15, [0, 1], 150, 9⟩,
       .deliver 7 ⟨15, [0, 1], 150, 9⟩]) Owned.Net.boot := by
  decide +kernel

end Den2ne
