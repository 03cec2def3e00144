import Den2ne.Csma.Output
import Den2ne.Node.Queue
import Den2ne.Transition.Run

/-!
# Handing the queue of a node to the MAC

The send timer hands the head of the queue of a node to `csma_output_packet`,
and in the unicast build it infers from `transmission_delay` whether the packet
was queued: only `schedule_transmission` sets the delay, and only for a packet
that becomes the head of the queue of its receiver. `Handoff.step` is the node
and its output queue together; `handed_once_iff` says for which runs the
inference is right.
-/

namespace Den2ne

open Transition

variable {α : Type*} [DecidableEq α]

section Output

variable {β γ : Type*}

namespace Csma

/-- A packet for `a` finds the blocks and the buffer that it needs. -/
def room (cfg : CsmaConfig α) (env : OutputEnv) (a : α) (s : Csma α β γ) : Bool :=
  (match s.neighbourList.find? (·.addr = a) with
    | some n => decide (n.packetQueue.length < cfg.csmaMaxPacketPerNeighbor)
    | none => (Pool.alloc s.neighborMemb).isSome) &&
  (Pool.alloc s.packetMemb).isSome && (Pool.alloc s.metadataMemb).isSome && env.queuebuf

/-- No packet for `a` is waiting. -/
def idle (a : α) (s : Csma α β γ) : Bool :=
  (s.neighbourList.find? (·.addr = a)).all (·.packetQueue.isEmpty)

/-- The delay that a packet for `a` gets if it is scheduled at once. -/
def delayFor (cfg : CsmaConfig α) (env : OutputEnv) (a : α) (s : Csma α β γ) : ℕ :=
  backoffDelay cfg env.delayDraw ((s.neighbourList.find? (·.addr = a)).elim 0 (·.collisions))

variable {cfg : CsmaConfig α} {s : Csma α β γ} {n : NeighborQueue α β γ}

section

omit [DecidableEq α]

@[simp] theorem enqueued_dropQueue : (s.dropQueue n).enqueued = s.enqueued := by
  unfold dropQueue
  split <;> rfl

@[simp] theorem transmissionDelay_dropQueue :
    (s.dropQueue n).transmissionDelay = s.transmissionDelay := by
  unfold dropQueue
  split <;> rfl

end

/-- What a call leaves of the log of queued packets and of the last delay. -/
def Leaves (s' : Csma α β γ) (enqueued : List (Enqueued α β)) (delay : ℕ) : Prop :=
  s'.enqueued = enqueued ∧ s'.transmissionDelay = delay

omit [DecidableEq α] in
theorem leaves_enqueuePacket (hu : cfg.hlmacCast = .unicast) (env : OutputEnv) (sent : γ) (buf : β)
    (attr seqno call : ℕ) :
    let fits := decide (n.packetQueue.length < cfg.csmaMaxPacketPerNeighbor) &&
      (Pool.alloc s.packetMemb).isSome && (Pool.alloc s.metadataMemb).isSome && env.queuebuf
    (fits = true → Leaves (s.enqueuePacket cfg env sent buf attr seqno call n)
      (s.enqueued ++ [⟨call, n.addr, buf⟩])
      (if n.packetQueue.isEmpty then backoffDelay cfg env.delayDraw n.collisions
        else s.transmissionDelay)) ∧
    (fits = false → Leaves (s.enqueuePacket cfg env sent buf attr seqno call n) s.enqueued
      s.transmissionDelay) := by
  unfold enqueuePacket
  by_cases hlength : n.packetQueue.length < cfg.csmaMaxPacketPerNeighbor
  · rw [if_pos hlength]
    cases hpacket : Pool.alloc s.packetMemb with
    | none => simp [Leaves, dropPacket, callSentCallback]
    | some p =>
        dsimp only
        cases hmetadata : Pool.alloc s.metadataMemb with
        | none => simp [Leaves, dropPacket, callSentCallback]
        | some m =>
            cases hbuf : env.queuebuf with
            | false => simp [Leaves, dropPacket, callSentCallback]
            | true =>
                cases hempty : n.packetQueue.isEmpty with
                | true => simp [Leaves, hlength, scheduleTransmission, put, hu]
                | false => simp [Leaves, hlength, put]
  · simp [Leaves, hlength, dropPacket, callSentCallback]

/-- `csma_output_packet` queues a packet if there is room for it, and sets the
delay if no packet for the receiver is waiting. -/
theorem leaves_csmaOutputPacket (hu : cfg.hlmacCast = .unicast) (env : OutputEnv) (sent : γ) (a : α)
    (buf : β) (attr : ℕ) :
    (s.room cfg env a = true → Leaves (s.csmaOutputPacket cfg env sent a buf attr)
      (s.enqueued ++ [⟨s.calls, a, buf⟩])
      (if s.idle a then s.delayFor cfg env a else s.transmissionDelay)) ∧
    (s.room cfg env a = false → Leaves (s.csmaOutputPacket cfg env sent a buf attr) s.enqueued
      s.transmissionDelay) := by
  unfold room idle delayFor csmaOutputPacket
  dsimp only
  cases hfind : s.neighbourList.find? (·.addr = a) with
  | some n =>
      have ha : n.addr = a := by simpa using List.find?_some hfind
      have hleaves := leaves_enqueuePacket (n := n) (s := { s with
        calls := s.calls + 1
        seqno := some ((nextSeqno env.seqnoDraw s.seqno + 1) % 256) }) hu env sent buf attr
        (nextSeqno env.seqnoDraw s.seqno) s.calls
      rw [ha] at hleaves
      exact hleaves
  | none =>
      cases hmemb : Pool.alloc s.neighborMemb with
      | none => simp [Leaves, dropPacket, callSentCallback]
      | some p =>
          have hleaves := leaves_enqueuePacket (n := ⟨p.1, a, 0, 0, []⟩) (s := { s with
            calls := s.calls + 1
            seqno := some ((nextSeqno env.seqnoDraw s.seqno + 1) % 256)
            neighborMemb := p.2
            neighbourList := s.neighbourList ++ [⟨p.1, a, 0, 0, []⟩] }) hu env sent buf attr
            (nextSeqno env.seqnoDraw s.seqno) s.calls
          have hlimit := cfg.csmaMaxPacketPerNeighbor_pos
          simpa [hlimit] using hleaves

end Csma

end Output

/-! ## A node and its output queue -/

/-- A node with its output queue. `accepted` and `queued` are history: the
entries that the send timer handed over and that were queued below, and all
entries that were put into the queue of the node. -/
structure Handoff (α : Type*) where
  node : Node α
  csma : Csma α (Payload α) Unit
  accepted : List (PayloadEntry α)
  queued : List (PayloadEntry α)

/-- An event at the node, the expiry of its send timer, or an event of the
output queue. What the Hello handler hands over is an event of the latter. -/
inductive HandoffEvent (α : Type*)
  | node (env : Env α) (e : Event α)
  | send (env : OutputEnv)
  | csma (e : CsmaEvent α (Payload α) Unit)

/-- What `transmission_delay`, set to `1000` before, says after the call. -/
def csmaOutcome {β γ : Type*} (before after : Csma α β γ) : CsmaOutcome :=
  if after.transmissionDelay ≠ 1000 then .scheduled
  else if before.enqueued.length < after.enqueued.length then .behind
  else .refused

namespace Handoff

/-- Before the first expiry of the send timer, with anything in the queues. -/
def start (n : Node α) (m : Csma α (Payload α) Unit) : Handoff α :=
  ⟨n, m, [], n.payloadEntryList⟩

/-- `prepare_packet`, as `iotorii_handle_send_message_timer` calls it. -/
def preparePacket (ccfg : CsmaConfig α) (env : OutputEnv) (entry : PayloadEntry α)
    (m : Csma α (Payload α) Unit) : Csma α (Payload α) Unit :=
  { m with transmissionDelay := 1000 }.csmaOutputPacket ccfg env () entry.dest entry.payload 0

/-- The expiry of the send timer. -/
def send (cfg : Config α) (ccfg : CsmaConfig α) (env : OutputEnv) (s : Handoff α) :
    Option (Handoff α) :=
  match s.node.payloadEntryList with
  | [] => none
  | entry :: _ =>
      if s.node.sendSethlmacTimer then
        let m := preparePacket ccfg env entry s.csma
        (iotoriiHandleSendMessageTimer cfg (csmaOutcome s.csma m)
          { s.node with sendSethlmacTimer := false }).map fun n =>
            { s with
              node := { n with macOut := [] }
              csma := m
              accepted :=
                if s.csma.enqueued.length < m.enqueued.length then s.accepted ++ [entry]
                else s.accepted }
      else none

/-- One event. -/
def step (cfg : Config α) (ccfg : CsmaConfig α) (e : HandoffEvent α) (s : Handoff α) :
    Option (Handoff α) :=
  match e with
  | .node _ (.timer (.sendMessage _)) => none
  | .node env e => (Node.step cfg env e s.node).map fun n =>
      { s with
        node := { n with macOut := [] }
        queued := s.queued ++ n.payloadEntryList.drop s.node.payloadEntryList.length }
  | .send env => s.send cfg ccfg env
  | .csma e => (Csma.step ccfg e s.csma).map fun m => { s with csma := m }

/-- The entries went to the output queue once each, in the order in which they
were put into the queue of the node, and those that did not are still there. -/
def OnceInOrder (s : Handoff α) : Prop := s.accepted ++ s.node.payloadEntryList = s.queued

instance (s : Handoff α) : Decidable s.OnceInOrder := inferInstanceAs (Decidable (_ = _))

/-- If there is room for the entry that is handed over, no packet for its
receiver is waiting, and the delay drawn for it is not `1000`. -/
def Visible (ccfg : CsmaConfig α) (s : Handoff α) (e : HandoffEvent α) : Prop :=
  ∀ env entry, e = .send env → entry ∈ s.node.payloadEntryList.head? →
    s.csma.room ccfg env entry.dest = true →
      s.csma.idle entry.dest = true ∧ s.csma.delayFor ccfg env entry.dest ≠ 1000

end Handoff

variable {cfg : Config α} {ccfg : CsmaConfig α} {n n' : Node α}

omit [DecidableEq α] in
theorem outgrowth_queue :
    Outgrowth cfg fun n n' => n.payloadEntryList <+: n'.payloadEntryList where
  of_same h := h.queue ▸ List.prefix_refl _
  trans h₁ h₂ := h₁.trans h₂
  send _ := by
    rw [Node.send_eq]
    exact List.prefix_append _ _
  advertise n _ _ _ _ es _ := by
    rw [Node.foldl_enqueue]
    exact List.prefix_append _ _
  hello _ := List.prefix_refl _

namespace Handoff

variable {s s' : Handoff α}

/-- What `transmission_delay` says of a packet. -/
theorem csmaOutcome_preparePacket (hcu : ccfg.hlmacCast = .unicast) (env : OutputEnv)
    (entry : PayloadEntry α) (m : Csma α (Payload α) Unit) :
    (m.enqueued.length < (preparePacket ccfg env entry m).enqueued.length ↔
      m.room ccfg env entry.dest = true) ∧
    (csmaOutcome m (preparePacket ccfg env entry m) = .scheduled ↔
      m.room ccfg env entry.dest = true ∧ m.idle entry.dest = true ∧
        m.delayFor ccfg env entry.dest ≠ 1000) := by
  obtain ⟨hroom, hfull⟩ := Csma.leaves_csmaOutputPacket
    (s := { m with transmissionDelay := 1000 }) hcu env () entry.dest entry.payload 0
  cases h : m.room ccfg env entry.dest with
  | true =>
      obtain ⟨henqueued, hdelay⟩ := hroom h
      refine ⟨?_, ?_⟩
      · rw [preparePacket, henqueued, List.length_append]
        simp
      · rw [csmaOutcome, preparePacket, hdelay, henqueued]
        have hidle : ({ m with transmissionDelay := 1000 } : Csma α (Payload α) Unit).idle entry.dest
            = m.idle entry.dest := rfl
        have hfor : ({ m with transmissionDelay := 1000 } : Csma α (Payload α) Unit).delayFor ccfg env
            entry.dest = m.delayFor ccfg env entry.dest := rfl
        rw [hidle, hfor]
        cases m.idle entry.dest <;> by_cases hd : m.delayFor ccfg env entry.dest = 1000 <;> simp [hd]
  | false =>
      obtain ⟨henqueued, hdelay⟩ := hfull h
      rw [csmaOutcome, preparePacket, hdelay, henqueued]
      simp

/-- What the expiry of the send timer does to the entry at the head. -/
theorem send_eq_some (hu : cfg.hlmacCast = .unicast) (hcu : ccfg.hlmacCast = .unicast)
    {env : OutputEnv} (hs : s.send cfg ccfg env = some s') :
    ∃ entry rest, s.node.payloadEntryList = entry :: rest ∧ s'.queued = s.queued ∧
      (s'.accepted =
        if s.csma.room ccfg env entry.dest then s.accepted ++ [entry] else s.accepted) ∧
      (s'.node.payloadEntryList =
        if s.csma.room ccfg env entry.dest ∧ s.csma.idle entry.dest ∧
          s.csma.delayFor ccfg env entry.dest ≠ 1000 then rest else entry :: rest) := by
  unfold send at hs
  split at hs
  · cases hs
  · rename_i entry rest hqueue
    obtain ⟨hlog, hscheduled⟩ := csmaOutcome_preparePacket hcu env entry s.csma
    rw [Option.ite_none_right_eq_some] at hs
    obtain ⟨n, hn, rfl⟩ := Option.map_eq_some_iff.1 hs.2
    refine ⟨entry, rest, hqueue, rfl, ?_, ?_⟩
    · exact if_congr hlog rfl rfl
    · simp only [iotoriiHandleSendMessageTimer, hqueue, hu] at hn
      refine Eq.trans ?_ (if_congr hscheduled rfl rfl)
      cases hout : csmaOutcome s.csma (preparePacket ccfg env entry s.csma) with
      | scheduled =>
          rw [hout] at hn
          obtain rfl := Option.some.inj hn
          exact (if_pos rfl).symm
      | behind =>
          rw [hout] at hn
          obtain rfl := Option.some.inj hn
          exact (if_neg (by decide)).symm
      | refused =>
          rw [hout] at hn
          obtain rfl := Option.some.inj hn
          exact (if_neg (by decide)).symm

/-- A step keeps every entry accounted for once exactly when the send timer sees
what became of the packet. -/
theorem onceInOrder_step (hu : cfg.hlmacCast = .unicast) (hcu : ccfg.hlmacCast = .unicast)
    {e : HandoffEvent α} (h : s.OnceInOrder) (hs : Handoff.step cfg ccfg e s = some s') :
    s'.OnceInOrder ↔ Visible ccfg s e := by
  have hnode : ∀ env e, (Node.step cfg env e s.node).map (fun n => { s with
        node := { n with macOut := [] }
        queued := s.queued ++ n.payloadEntryList.drop s.node.payloadEntryList.length }) = some s' →
      (∀ csma, e ≠ .timer (.sendMessage csma)) → s'.OnceInOrder := by
    intro env e hs he
    obtain ⟨n, hn, rfl⟩ := Option.map_eq_some_iff.1 hs
    obtain ⟨q, hq⟩ := outgrowth_queue.step he hn (List.prefix_refl _)
    have hdrop : n.payloadEntryList.drop s.node.payloadEntryList.length = q := by
      rw [← hq, List.drop_left]
    have hall : s.accepted ++ n.payloadEntryList =
        s.queued ++ n.payloadEntryList.drop s.node.payloadEntryList.length := by
      rw [hdrop, ← hq, ← List.append_assoc, h]
    exact hall
  cases e with
  | node env e =>
      refine iff_of_true ?_ fun _ _ heq => by cases heq
      cases e with
      | receive sender message round => exact hnode env _ hs fun _ => by simp
      | timer t =>
          cases t with
          | sendMessage csma => cases hs
          | hello => exact hnode env _ hs fun _ => by simp
          | sethlmac => exact hnode env _ hs fun _ => by simp
          | statistic => exact hnode env _ hs fun _ => by simp
  | csma e =>
      refine iff_of_true ?_ fun _ _ heq => by cases heq
      obtain ⟨m, -, rfl⟩ := Option.map_eq_some_iff.1 hs
      exact h
  | send env =>
      obtain ⟨entry, rest, hqueue, hqueued, haccepted, hlist⟩ := send_eq_some hu hcu hs
      have hvisible : Visible ccfg s (.send env) ↔ (s.csma.room ccfg env entry.dest = true →
          s.csma.idle entry.dest = true ∧ s.csma.delayFor ccfg env entry.dest ≠ 1000) := by
        constructor
        · intro hv
          exact hv env entry rfl (by rw [hqueue]; rfl)
        · intro hv env' entry' heq hmem
          obtain rfl := HandoffEvent.send.inj heq
          rw [hqueue] at hmem
          obtain rfl := Option.some.inj hmem
          exact hv
      rw [hvisible, OnceInOrder, hqueued, ← h, haccepted, hlist, hqueue]
      by_cases hroom : s.csma.room ccfg env entry.dest = true
      · by_cases hsees : s.csma.idle entry.dest = true ∧ s.csma.delayFor ccfg env entry.dest ≠ 1000
        · simp [hroom, hsees]
        · rw [if_pos hroom, if_neg fun hall => hsees hall.2]
          simp [hroom, hsees]
      · simp [hroom]

end Handoff

/-- In the unicast build, whatever the node, its queue and the queues below hold
at the start, all entries go to the output queue once each and in order, in all
states of a run, exactly when no expiry of the send timer finds room for a
packet behind another one for its receiver, or draws the delay `1000`. -/
theorem handed_once_iff (cfg : Config α) (ccfg : CsmaConfig α) (hu : cfg.hlmacCast = .unicast)
    (hcu : ccfg.hlmacCast = .unicast) (es : List (HandoffEvent α)) (n : Node α)
    (m : Csma α (Payload α) Unit) :
    Always (Handoff.step cfg ccfg) Handoff.OnceInOrder es (.start n m) ↔
      Meets (Handoff.step cfg ccfg) (Handoff.Visible ccfg) es (.start n m) :=
  always_iff_meets (I := fun _ => True) (fun _ _ _ _ _ _ _ => trivial)
    (fun _ _ _ _ h hs => Handoff.onceInOrder_step hu hcu h hs) trivial rfl

/-- A common node with the address `1`, in the unicast build. -/
def unicastConfig : Config ℕ := { defaultConfig 1 with hlmacCast := .unicast }

/-- A leaf joins a round: a LOAD and a SHARE for its parent stand in its queue,
and the LOAD is handed over. -/
def leafEvents : List (HandoffEvent ℕ) :=
  [.node ⟨21, [], 100, 0⟩ (.receive 2 .hello 0),
    .node ⟨21, [], 100, 0⟩ (.receive 2 (.sethlmac 0 [1] [(1, 1)]) 0),
    .send ⟨7, 5, true⟩]

/-- The LOAD has left when the timer of the queue expires again. -/
theorem handed_once_iff_leaf :
    Always (Handoff.step unicastConfig unicastCsmaConfig) Handoff.OnceInOrder
        (leafEvents ++ [.csma (.transmit 0 (.txOk (some true)) 0), .send ⟨7, 5, true⟩])
        (.start Node.boot (Csma.init unicastCsmaConfig)) ↔
      Meets (Handoff.step unicastConfig unicastCsmaConfig) (Handoff.Visible unicastCsmaConfig)
        (leafEvents ++ [.csma (.transmit 0 (.txOk (some true)) 0), .send ⟨7, 5, true⟩])
        (.start Node.boot (Csma.init unicastCsmaConfig)) :=
  handed_once_iff unicastConfig unicastCsmaConfig rfl rfl _ Node.boot (Csma.init unicastCsmaConfig)

/-- The LOAD is still waiting: the SHARE is queued behind it, and pushed back. -/
theorem not_handed_once : ¬ ∀ es : List (HandoffEvent ℕ),
    Always (Handoff.step unicastConfig unicastCsmaConfig) Handoff.OnceInOrder es
      (.start Node.boot (Csma.init unicastCsmaConfig)) := by
  intro h
  have hrun := h (leafEvents ++ [.send ⟨7, 5, true⟩])
  revert hrun
  decide +kernel

end Den2ne
