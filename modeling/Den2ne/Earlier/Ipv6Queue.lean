import Den2ne.Node.Records
import Den2ne.Transition.Run

/-!
# The send queue of the IPv6 variant

`den2ne-ipv6-790` sends a SetHLMAC when it is made, and then puts it into
`payload_entry_list`, which the handler of `send_sethlmac_timer` takes it from to send it
again. Only the root arms this timer. `drained_iff` says that exactly the runs in which no
common node makes a SetHLMAC have the timer armed whenever something is in the list.

Of the globals only those are kept that decide what is put into the list and when it is taken
out. A timer can expire at any time while it is armed. `sent` is history: what the handler has
taken out of the list and sent.
-/

namespace Den2ne.Earlier

open Transition

/-- What the build and the board fix for one node. -/
structure Ipv6Config (α : Type*) where
  nodeType : NodeType
  hlmacMaxHlmac : ℤ
  localAddr : α
  destIpaddr : α

/-- What the queue depends on. `udp` is what was passed to `simple_udp_sendto`. -/
structure Ipv6Node (α : Type*) where
  hlmacTable : HlmacTable
  neighbourTable : NeighbourTable α
  payloadEntryList : List (Payload α)
  timestamp : ℕ
  numberOfHelloMessages : ℕ
  numberOfSethlmacMessages : ℕ
  helloTimer : Bool
  sethlmacTimer : Bool
  sendSethlmacTimer : Bool
  udp : List (α × Payload α)
  sent : List (Payload α)

/-- What can happen at a node. `priorities` are the draws of `random_rand`, `lastHello` is what
`malloc` leaves in the `last_hello` of a new neighbour. -/
inductive Ipv6Event (α : Type*)
  | helloTimer
  | sethlmacTimer (priorities : List ℕ)
  | sendSethlmacTimer
  | receive (sender : α) (message : Payload α) (priorities : List ℕ) (lastHello : ℕ)

variable {α : Type*} [DecidableEq α]

/-- `IPv6_MAX_PAYLOAD`. -/
def ipv6MaxPayload : ℤ := 2048

/-- `hlmactable_add` of this variant: an older entry makes way for a newer timestamp. -/
def hlmactableAdd (maxHlmac : ℤ) (t : HlmacTable) (addr : HlmacAddr) (timestamp : ℕ) :
    Bool × HlmacTable :=
  let add (t : HlmacTable) : Bool × HlmacTable :=
    if maxHlmac = -1 ∨ (maxHlmac ≠ -1 ∧ (t.numberOfHlmacAddresses : ℤ) < maxHlmac) then
      (true, ⟨t.entries ++ [⟨addr, timestamp⟩], t.numberOfHlmacAddresses + 1⟩)
    else (false, t)
  if 255 ≤ t.numberOfHlmacAddresses then (false, t)
  else if 0 < t.numberOfHlmacAddresses then
    match t.entries.getLast? with
    | none => (false, t)
    | some entry =>
        if entry.timestamp < timestamp then
          add ⟨t.entries.dropLast, t.numberOfHlmacAddresses - 1⟩
        else (false, t)
  else add t

/-- The `do` loop that packs the entries; an address has 16 bytes. The length of the next entry
is taken as 27. -/
def packEntriesIpv6 : ℕ → List (NeighbourTableEntry α) → List (NeighbourTableEntry α)
  | _, [] => []
  | datalenCounter, nb :: nbs =>
      let datalenCounter := datalenCounter + 17
      nb :: if (datalenCounter + 26 + 1 : ℤ) ≤ ipv6MaxPayload then
        packEntriesIpv6 datalenCounter nbs else []

/-- The end of `iotorii_send_sethlmac_ipv6`: the message is sent, and queued. -/
def queuePayload (cfg : Ipv6Config α) (sender : α) (payload : Payload α) (n : Ipv6Node α) :
    Ipv6Node α :=
  let n := { n with udp := n.udp ++ match cfg.nodeType with
    | .root => [(cfg.destIpaddr, payload)]
    | .common =>
        (n.neighbourTable.targets sender).map fun nb => (NeighbourTableEntry.addr nb, payload) }
  match n.payloadEntryList with
  | [] => { n with
      payloadEntryList := [payload]
      sendSethlmacTimer := match cfg.nodeType with
        | .root => true
        | .common => n.sendSethlmacTimer }
  | _ :: _ => { n with payloadEntryList := n.payloadEntryList ++ [payload] }

/-- `iotorii_send_sethlmac_ipv6`. -/
def iotoriiSendSethlmacIpv6 (cfg : Ipv6Config α) (priorities : List ℕ) (addr : HlmacAddr)
    (sender : α) (timestamp : ℕ) (n : Ipv6Node α) : Option (Ipv6Node α) :=
  let new := numberOfNeighboursNew n.neighbourTable sender
  if new = 0 then some n
  else
    match fillRandomList (List.replicate new none) (n.neighbourTable.targets sender)
        priorities with
    | none => none
    | some randomList =>
        match randomList with
        | some _ :: _ =>
            if (addr.len.toNat + 2 + 16 : ℤ) ≤ ipv6MaxPayload then
              (randomList.mapM id).map fun nbs =>
                let packed := packEntriesIpv6 (4 + 1 + addr.len.toNat) nbs
                queuePayload cfg sender (.sethlmac timestamp addr.ids
                  (packed.map fun nb => (nb.numberId, nb.addr))) n
            else some n
        | _ => some n

/-- `iotorii_handle_send_sethlmac_timer_ipv6`. -/
def iotoriiHandleSendSethlmacTimerIpv6 (cfg : Ipv6Config α) (n : Ipv6Node α) : Ipv6Node α :=
  match n.payloadEntryList with
  | [] => n
  | payload :: rest => { n with
      payloadEntryList := rest
      udp := n.udp ++ [(cfg.destIpaddr, payload)]
      numberOfSethlmacMessages := n.numberOfSethlmacMessages + 1
      sendSethlmacTimer := if rest = [] then n.sendSethlmacTimer else true
      sent := n.sent ++ [payload] }

/-- `iotorii_handle_hello_timer` and `check_neighbours_hello`, with `IOTORII_MAX_HELLO_DIFF`. -/
def iotoriiHandleHelloTimerIpv6 (cfg : Ipv6Config α) (n : Ipv6Node α) : Ipv6Node α :=
  let numberOfHelloMessages := n.numberOfHelloMessages + 1
  { n with
    udp := n.udp ++ [(cfg.destIpaddr, .hello)]
    sethlmacTimer := match cfg.nodeType with
      | .root => true
      | .common => n.sethlmacTimer
    helloTimer := true
    numberOfHelloMessages := numberOfHelloMessages
    neighbourTable := n.neighbourTable.removeFirst fun nb =>
      decide (5 < (numberOfHelloMessages : ℤ) - nb.lastHello) }

/-- `iotorii_handle_sethlmac_timer`: the root starts a round. -/
def iotoriiHandleSethlmacTimerIpv6 (cfg : Ipv6Config α) (priorities : List ℕ)
    (n : Ipv6Node α) : Option (Ipv6Node α) :=
  let rootAddr := hlmacCreateRootAddr 1
  let table := (hlmactableAdd cfg.hlmacMaxHlmac n.hlmacTable rootAddr n.timestamp).2
  (iotoriiSendSethlmacIpv6 cfg priorities rootAddr cfg.localAddr n.timestamp
    { n with hlmacTable := table }).map fun n =>
      { n with timestamp := (n.timestamp + 1) % 4294967296 }

/-- `iotorii_handle_incoming_hello_ipv6`. The `last_hello` of a new entry is not set. -/
def iotoriiHandleIncomingHelloIpv6 (sender : α) (lastHello : ℕ) (n : Ipv6Node α) : Ipv6Node α :=
  if n.neighbourTable.numberOfNeighbours < 256 then
    if h : sender ∈ n.neighbourTable.addrs then
      { n with neighbourTable := n.neighbourTable.setLastHello sender n.numberOfHelloMessages }
    else
      let newNb : NeighbourTableEntry α :=
        { addr := sender
          lastHello := lastHello
          numberId := UInt8.ofNat (n.neighbourTable.numberOfNeighbours + 1)
          flag := 0
          load := 0
          inOut := 0 }
      { n with neighbourTable := n.neighbourTable.add newNb h }
  else n

/-- The timestamp of a message. -/
def timestampOf : Payload α → ℕ
  | .sethlmac timestamp _ _ => timestamp
  | _ => 0

/-- `iotorii_handle_incoming_sethlmac_or_load_ipv6`, of a message that is not a Hello. What
brings the node no address does not touch the queue. -/
def iotoriiHandleIncomingSethlmacOrLoadIpv6 (cfg : Ipv6Config α) (sender : α)
    (message : Payload α) (priorities : List ℕ) (n : Ipv6Node α) : Option (Ipv6Node α) :=
  let received := iotoriiExtractAddress cfg.localAddr message
  if hlmacIsUnspecifiedAddr received then some n
  else if hlmactableHasLoop n.hlmacTable received then some n
  else
    let (isAdded, table) :=
      hlmactableAdd cfg.hlmacMaxHlmac n.hlmacTable received (timestampOf message)
    let n := { n with
      hlmacTable := table
      neighbourTable := n.neighbourTable.setFlag sender (if isAdded then 1 else -1) }
    if isAdded then
      iotoriiSendSethlmacIpv6 cfg priorities received sender (timestampOf message) n
    else some n

/-- One event. -/
def Ipv6Node.step (cfg : Ipv6Config α) : Ipv6Event α → Ipv6Node α → Option (Ipv6Node α)
  | .helloTimer, n =>
      if n.helloTimer then
        some (iotoriiHandleHelloTimerIpv6 cfg { n with helloTimer := false })
      else none
  | .sethlmacTimer priorities, n =>
      if n.sethlmacTimer then
        iotoriiHandleSethlmacTimerIpv6 cfg priorities { n with sethlmacTimer := false }
      else none
  | .sendSethlmacTimer, n =>
      if n.sendSethlmacTimer then
        some (iotoriiHandleSendSethlmacTimerIpv6 cfg { n with sendSethlmacTimer := false })
      else none
  | .receive sender .hello _ lastHello, n =>
      some (iotoriiHandleIncomingHelloIpv6 sender lastHello n)
  | .receive sender message priorities _, n =>
      iotoriiHandleIncomingSethlmacOrLoadIpv6 cfg sender message priorities n

/-- `init`. -/
def Ipv6Node.boot : Ipv6Node α where
  hlmacTable := HlmacTable.empty
  neighbourTable := NeighbourTable.empty
  payloadEntryList := []
  timestamp := 0
  numberOfHelloMessages := 0
  numberOfSethlmacMessages := 0
  helloTimer := true
  sethlmacTimer := false
  sendSethlmacTimer := false
  udp := []
  sent := []

/-! ## What a step does to the queue -/

/-- The event makes a SetHLMAC, which is then queued. -/
def Advertises (cfg : Ipv6Config α) (n : Ipv6Node α) : Ipv6Event α → Prop
  | .sethlmacTimer _ => numberOfNeighboursNew n.neighbourTable cfg.localAddr ≠ 0
  | .receive sender message _ _ =>
      let received := iotoriiExtractAddress cfg.localAddr message
      hlmacIsUnspecifiedAddr received = false ∧
        hlmactableHasLoop n.hlmacTable received = false ∧
        (hlmactableAdd cfg.hlmacMaxHlmac n.hlmacTable received (timestampOf message)).1 = true ∧
        numberOfNeighboursNew n.neighbourTable sender ≠ 0
  | _ => False

/-- The handler of the send timer. -/
def Ipv6Event.sends : Ipv6Event α → Bool
  | .sendSethlmacTimer => true
  | _ => false

/-- The queue, its timer and what was sent are the same. -/
structure SameQueue (n n' : Ipv6Node α) : Prop where
  list : n'.payloadEntryList = n.payloadEntryList
  timer : n'.sendSethlmacTimer = n.sendSethlmacTimer
  sent : n'.sent = n.sent

/-- A payload is queued; the root arms the timer if it is the first one. -/
structure Queues (cfg : Ipv6Config α) (n n' : Ipv6Node α) : Prop where
  list : ∃ payload, n'.payloadEntryList = n.payloadEntryList ++ [payload]
  armed : cfg.nodeType = .root → n.payloadEntryList = [] → n'.sendSethlmacTimer = true
  timer : cfg.nodeType = .common ∨ n.payloadEntryList ≠ [] →
    n'.sendSethlmacTimer = n.sendSethlmacTimer
  sent : n'.sent = n.sent

theorem queues_queuePayload (cfg : Ipv6Config α) (sender : α) (payload : Payload α)
    (n : Ipv6Node α) : Queues cfg n (queuePayload cfg sender payload n) := by
  unfold queuePayload
  cases hlist : n.payloadEntryList with
  | nil =>
      refine ⟨⟨payload, by rw [hlist]; rfl⟩, fun hroot _ => by rw [hroot], fun hcommon => ?_, rfl⟩
      rw [hcommon.resolve_right fun hne => hne hlist]
  | cons first rest =>
      refine ⟨⟨payload, by rw [hlist]⟩, fun _ hnil => ?_, fun _ => rfl, rfl⟩
      rw [hlist] at hnil
      cases hnil

/-- A message for at least one neighbour is queued. -/
theorem iotoriiSendSethlmacIpv6_cases {cfg : Ipv6Config α} {priorities : List ℕ}
    {addr : HlmacAddr} {sender : α} {timestamp : ℕ} {n n' : Ipv6Node α}
    (h : iotoriiSendSethlmacIpv6 cfg priorities addr sender timestamp n = some n') :
    (numberOfNeighboursNew n.neighbourTable sender = 0 ∧ n' = n) ∨
      (numberOfNeighboursNew n.neighbourTable sender ≠ 0 ∧ Queues cfg n n') := by
  unfold iotoriiSendSethlmacIpv6 at h
  by_cases hnew : numberOfNeighboursNew n.neighbourTable sender = 0
  · rw [if_pos hnew] at h
    exact .inl ⟨hnew, (Option.some.inj h).symm⟩
  · rw [if_neg hnew] at h
    refine .inr ⟨hnew, ?_⟩
    split at h
    · cases h
    · rename_i randomList hfill
      obtain ⟨hfull, hlength⟩ := targets_length_of_fillRandomList hfill
      obtain ⟨x, rest, rfl⟩ := head_of_length_filterMap hfull fun hnil => by
        rw [hnil] at hlength
        exact hnew hlength.symm
      have hfit : (addr.len.toNat + 2 + 16 : ℤ) ≤ ipv6MaxPayload := by
        have hlt := addr.len.toNat_lt
        unfold ipv6MaxPayload
        omega
      rw [if_pos hfit] at h
      obtain ⟨nbs, -, rfl⟩ := Option.map_eq_some_iff.1 h
      exact queues_queuePayload cfg sender _ n

omit [DecidableEq α] in
theorem SameQueue.refl (n : Ipv6Node α) : SameQueue n n := ⟨rfl, rfl, rfl⟩

theorem sameQueue_hello (sender : α) (lastHello : ℕ) (n : Ipv6Node α) :
    SameQueue n (iotoriiHandleIncomingHelloIpv6 sender lastHello n) := by
  unfold iotoriiHandleIncomingHelloIpv6
  split
  · split
    · exact ⟨rfl, rfl, rfl⟩
    · exact ⟨rfl, rfl, rfl⟩
  · exact SameQueue.refl n

theorem numberOfNeighboursNew_setFlag (t : NeighbourTable α) (sender : α) (flag : ℤ) :
    numberOfNeighboursNew (t.setFlag sender flag) sender = numberOfNeighboursNew t sender := by
  have haddrs : (t.setFlag sender flag).addrs = t.addrs := t.addrs_map _
  rw [numberOfNeighboursNew, haddrs]
  rfl

/-- A message that brings the node an address is passed on and queued. -/
theorem iotoriiHandleIncoming_cases {cfg : Ipv6Config α} {sender : α} {message : Payload α}
    {priorities : List ℕ} {n n' : Ipv6Node α} (lastHello : ℕ)
    (h : iotoriiHandleIncomingSethlmacOrLoadIpv6 cfg sender message priorities n = some n') :
    (¬ Advertises cfg n (.receive sender message priorities lastHello) ∧ SameQueue n n') ∨
      (Advertises cfg n (.receive sender message priorities lastHello) ∧ Queues cfg n n') := by
  unfold iotoriiHandleIncomingSethlmacOrLoadIpv6 at h
  dsimp only at h
  split at h
  · rename_i hnone
    obtain rfl := Option.some.inj h
    exact .inl ⟨fun hadv => Bool.false_ne_true (hadv.1.symm.trans hnone), SameQueue.refl n⟩
  · rename_i haddr
    split at h
    · rename_i hloop
      obtain rfl := Option.some.inj h
      exact .inl ⟨fun hadv => Bool.false_ne_true (hadv.2.1.symm.trans hloop), SameQueue.refl n⟩
    · rename_i hloop
      split at h
      · rename_i hadded
        have hcount (flag : ℤ) := numberOfNeighboursNew_setFlag n.neighbourTable sender flag
        rcases iotoriiSendSethlmacIpv6_cases h with ⟨hnew, rfl⟩ | ⟨hnew, hqueues⟩
        · exact .inl ⟨fun hadv => hadv.2.2.2 ((hcount _).symm.trans hnew), rfl, rfl, rfl⟩
        · exact .inr ⟨⟨eq_false_of_ne_true haddr, eq_false_of_ne_true hloop, hadded,
            fun hzero => hnew ((hcount _).trans hzero)⟩,
            hqueues.list, hqueues.armed, hqueues.timer, hqueues.sent⟩
      · rename_i hadded
        obtain rfl := Option.some.inj h
        exact .inl ⟨fun hadv => hadded hadv.2.2.1, rfl, rfl, rfl⟩

/-- What a step does to the queue. -/
theorem step_queue {cfg : Ipv6Config α} {e : Ipv6Event α} {n n' : Ipv6Node α}
    (h : n.step cfg e = some n') :
    (e.sends = false ∧ ¬ Advertises cfg n e ∧ SameQueue n n') ∨
      (e.sends = false ∧ Advertises cfg n e ∧ Queues cfg n n') ∨
      (e.sends = true ∧ ¬ Advertises cfg n e ∧ n.sendSethlmacTimer = true ∧
        n'.payloadEntryList = n.payloadEntryList.drop 1 ∧
        n'.sent = n.sent ++ n.payloadEntryList.take 1 ∧
        (n'.payloadEntryList ≠ [] → n'.sendSethlmacTimer = true)) := by
  cases e with
  | helloTimer =>
      rw [Ipv6Node.step, Option.ite_none_right_eq_some] at h
      obtain ⟨-, h⟩ := h
      obtain rfl := Option.some.inj h
      exact .inl ⟨rfl, id, rfl, rfl, rfl⟩
  | sethlmacTimer priorities =>
      rw [Ipv6Node.step, Option.ite_none_right_eq_some] at h
      obtain ⟨-, h⟩ := h
      obtain ⟨n₁, hn₁, rfl⟩ := Option.map_eq_some_iff.1 h
      rcases iotoriiSendSethlmacIpv6_cases hn₁ with ⟨hnew, rfl⟩ | ⟨hnew, hqueues⟩
      · exact .inl ⟨rfl, not_not.2 hnew, rfl, rfl, rfl⟩
      · exact .inr (.inl ⟨rfl, hnew, hqueues.list, hqueues.armed, hqueues.timer, hqueues.sent⟩)
  | sendSethlmacTimer =>
      rw [Ipv6Node.step, Option.ite_none_right_eq_some] at h
      obtain ⟨htimer, h⟩ := h
      obtain rfl := Option.some.inj h
      refine .inr (.inr ⟨rfl, id, htimer, ?_⟩)
      unfold iotoriiHandleSendSethlmacTimerIpv6
      cases hlist : n.payloadEntryList with
      | nil => exact ⟨rfl, (List.append_nil _).symm, fun hne => absurd rfl hne⟩
      | cons payload rest => exact ⟨rfl, rfl, fun hne => if_neg hne⟩
  | receive sender message priorities lastHello =>
      have hhello : message = .hello ∨
          Ipv6Node.step cfg (.receive sender message priorities lastHello) n =
            iotoriiHandleIncomingSethlmacOrLoadIpv6 cfg sender message priorities n := by
        cases message with
        | hello => exact .inl rfl
        | load load => exact .inr rfl
        | share extraLoad => exact .inr rfl
        | sethlmac timestamp hlmacPrefix assigned => exact .inr rfl
      rcases hhello with rfl | hmessage
      · obtain rfl := Option.some.inj h
        exact .inl ⟨rfl, fun hadv => Bool.false_ne_true (hadv.1.symm.trans rfl),
          sameQueue_hello sender lastHello n⟩
      · rw [hmessage] at h
        rcases iotoriiHandleIncoming_cases lastHello h with ⟨hadv, hsame⟩ | ⟨hadv, hqueues⟩
        · exact .inl ⟨rfl, hadv, hsame⟩
        · exact .inr (.inl ⟨rfl, hadv, hqueues⟩)

/-! ## The queue over runs -/

/-- The timer is armed if there is something in the queue; every time it expires it takes the
first payload out and sends it, whatever else happens; and on its own it empties the queue. -/
structure Drained (cfg : Ipv6Config α) (n : Ipv6Node α) : Prop where
  armed : n.payloadEntryList ≠ [] → n.sendSethlmacTimer = true
  sends : ∀ (es : List (Ipv6Event α)) (n' : Ipv6Node α), run (Ipv6Node.step cfg) es n = some n' →
    n.sent ++ n.payloadEntryList.take (es.countP (·.sends)) <+: n'.sent
  empties : ∃ n', run (Ipv6Node.step cfg)
      (List.replicate n.payloadEntryList.length .sendSethlmacTimer) n = some n' ∧
    n'.payloadEntryList = [] ∧ n'.sent = n.sent ++ n.payloadEntryList

/-- The node is the root, or makes no SetHLMAC. -/
def Arms (cfg : Ipv6Config α) (n : Ipv6Node α) (e : Ipv6Event α) : Prop :=
  cfg.nodeType = .root ∨ ¬ Advertises cfg n e

/-- No SetHLMAC is made while the timer has to send the one before. -/
def Paced (cfg : Ipv6Config α) (n : Ipv6Node α) (e : Ipv6Event α) : Prop :=
  Advertises cfg n e → n.sendSethlmacTimer = false

/-- The queue is first in, first out. -/
theorem sent_of_run {cfg : Ipv6Config α} {es : List (Ipv6Event α)} {n n' : Ipv6Node α}
    (h : run (Ipv6Node.step cfg) es n = some n') :
    n.sent ++ n.payloadEntryList.take (es.countP (·.sends)) <+: n'.sent := by
  induction es generalizing n with
  | nil =>
      rw [run_nil, Option.some.injEq] at h
      rw [List.countP_nil, List.take_zero, List.append_nil, h]
  | cons e es ih =>
      obtain ⟨m, hm, hrest⟩ := run_cons_eq_some.1 h
      have hprefix := ih hrest
      rcases step_queue hm with ⟨hsends, -, hsame⟩ | ⟨hsends, -, hqueues⟩ |
        ⟨hsends, -, -, hlist, hsent, -⟩
      · rw [List.countP_cons_of_neg (by simp [hsends]), ← hsame.list, ← hsame.sent]
        exact hprefix
      · obtain ⟨payload, hlist⟩ := hqueues.list
        rw [hlist, hqueues.sent] at hprefix
        rw [List.countP_cons_of_neg (by simp [hsends])]
        refine List.IsPrefix.trans ?_ hprefix
        rw [List.take_append]
        exact (List.prefix_append_right_inj _).2 (List.prefix_append _ _)
      · have htake : n.payloadEntryList.take (es.countP (·.sends) + 1) =
            n.payloadEntryList.take 1 ++ (n.payloadEntryList.drop 1).take (es.countP (·.sends)) := by
          rw [Nat.add_comm, List.take_add]
        rw [hlist, hsent, List.append_assoc, ← htake] at hprefix
        rwa [List.countP_cons_of_pos (by simp [hsends])]

/-- The armed timer empties the queue. -/
theorem empties_of_armed {cfg : Ipv6Config α} {n : Ipv6Node α}
    (harmed : n.payloadEntryList ≠ [] → n.sendSethlmacTimer = true) :
    ∃ n', run (Ipv6Node.step cfg)
        (List.replicate n.payloadEntryList.length .sendSethlmacTimer) n = some n' ∧
      n'.payloadEntryList = [] ∧ n'.sent = n.sent ++ n.payloadEntryList := by
  generalize hlist : n.payloadEntryList = list at *
  induction list generalizing n with
  | nil => exact ⟨n, rfl, hlist, (List.append_nil _).symm⟩
  | cons payload rest ih =>
      obtain ⟨m, hm⟩ : ∃ m, n.step cfg .sendSethlmacTimer = some m :=
        ⟨_, if_pos (harmed (List.cons_ne_nil _ _))⟩
      rcases step_queue hm with ⟨hsends, -⟩ | ⟨hsends, -⟩ | ⟨-, -, -, hrest, hsent, htimer⟩
      · cases hsends
      · cases hsends
      · rw [hlist] at hrest hsent
        obtain ⟨n', hrun, hempty, hall⟩ := ih hrest fun hne => htimer (by rw [hrest]; exact hne)
        refine ⟨n', run_cons_eq_some.2 ⟨m, hm, hrun⟩, hempty, ?_⟩
        rw [hall, hsent, List.append_assoc]
        rfl

/-- A state is good as soon as the timer is armed when it must be. -/
theorem drained_iff_armed {cfg : Ipv6Config α} {n : Ipv6Node α} :
    Drained cfg n ↔ (n.payloadEntryList ≠ [] → n.sendSethlmacTimer = true) :=
  ⟨Drained.armed, fun harmed => ⟨harmed, fun _ _ => sent_of_run, empties_of_armed harmed⟩⟩

/-- A common node never arms the timer. -/
theorem common_timer {cfg : Ipv6Config α} {e : Ipv6Event α} {n n' : Ipv6Node α}
    (h : cfg.nodeType = .common → n.sendSethlmacTimer = false) (hstep : n.step cfg e = some n')
    (hcommon : cfg.nodeType = .common) : n'.sendSethlmacTimer = false := by
  rcases step_queue hstep with ⟨-, -, hsame⟩ | ⟨-, -, hqueues⟩ | ⟨-, -, htimer, -⟩
  · exact hsame.timer.trans (h hcommon)
  · exact (hqueues.timer (.inl hcommon)).trans (h hcommon)
  · exact absurd ((h hcommon).symm.trans htimer) Bool.false_ne_true

/-- A step keeps the timer armed exactly if the root takes it, or nothing is queued. -/
theorem armed_iff_arms {cfg : Ipv6Config α} {e : Ipv6Event α} {n n' : Ipv6Node α}
    (htimer : cfg.nodeType = .common → n.sendSethlmacTimer = false)
    (harmed : n.payloadEntryList ≠ [] → n.sendSethlmacTimer = true)
    (hstep : n.step cfg e = some n') :
    (n'.payloadEntryList ≠ [] → n'.sendSethlmacTimer = true) ↔ Arms cfg n e := by
  have hcommon := common_timer htimer hstep
  rcases step_queue hstep with ⟨-, hadv, hsame⟩ | ⟨-, hadv, hqueues⟩ | ⟨-, hadv, -, -, -, hnext⟩
  · rw [hsame.list, hsame.timer]
    exact iff_of_true harmed (.inr hadv)
  · obtain ⟨payload, hlist⟩ := hqueues.list
    have hne : n'.payloadEntryList ≠ [] := by rw [hlist]; exact List.concat_ne_nil _ _
    constructor
    · intro hafter
      cases hnode : cfg.nodeType with
      | root => exact .inl hnode
      | common => exact absurd ((hcommon hnode).symm.trans (hafter hne)) Bool.false_ne_true
    · intro harms _
      have hroot := harms.resolve_right (not_not.2 hadv)
      by_cases hnil : n.payloadEntryList = []
      · exact hqueues.armed hroot hnil
      · rw [hqueues.timer (.inr hnil)]
        exact harmed hnil
  · exact iff_of_true hnext (.inr hadv)

/-- At the pace of the timer, at most one payload waits. -/
theorem length_le_one {cfg : Ipv6Config α} {e : Ipv6Event α} {n n' : Ipv6Node α}
    (harmed : n.payloadEntryList ≠ [] → n.sendSethlmacTimer = true)
    (hlength : n.payloadEntryList.length ≤ 1) (hpaced : Paced cfg n e)
    (hstep : n.step cfg e = some n') : n'.payloadEntryList.length ≤ 1 := by
  rcases step_queue hstep with ⟨-, -, hsame⟩ | ⟨-, hadv, hqueues⟩ | ⟨-, -, -, hlist, -⟩
  · rwa [hsame.list]
  · obtain ⟨payload, hlist⟩ := hqueues.list
    have hnil : n.payloadEntryList = [] := by
      by_contra hne
      exact Bool.false_ne_true ((hpaced hadv).symm.trans (harmed hne))
    rw [hlist, hnil]
    exact Nat.le_refl 1
  · rw [hlist, List.length_drop]
    exact (Nat.sub_le _ _).trans hlength

def commonConfig : Ipv6Config ℕ := ⟨.common, 1, 9, 0⟩

/-- Two neighbours send a Hello, and one of them a SetHLMAC with an address for the node. -/
def oneRound : List (Ipv6Event ℕ) :=
  [.receive 1 .hello [] 0, .receive 2 .hello [] 0, .receive 1 (.sethlmac 0 [1] [(5, 9)]) [0] 0]

end Den2ne.Earlier
