import Den2ne.Node.Outgoing
import Den2ne.Node.StandingStep

/-!
# Counting the children

`Node.flow` keeps of a node what the convergecast of a round works on: the two
counters of children, `edge`, what was sent, the convergence of the root and
the statistic timer, with their history. Given the standing of the node, these
fields form a machine of their own, `Flow.step`: which handlers of LOAD and
SHARE run depends neither on the loads nor on what is queued. `flow_step` says
that every event takes the flow of a node to the next flow.
-/

namespace Den2ne

/-- The fields of a node that count its children. `shareRuns` is the number of
share calls. -/
structure Flow (α : Type*) where
  nHijosLoad : ℕ
  nHijosShare : ℕ
  edge : Bool
  sentLoad : Bool
  sentShare : Bool
  hasConverged : Bool
  statisticTimer : Bool
  awaited : List α
  received : List (α × Payload α × ℕ)
  loadRuns : ℕ
  shareRuns : ℕ

variable {α : Type*}

def Node.flow (n : Node α) : Flow α where
  nHijosLoad := n.nHijosLoad
  nHijosShare := n.nHijosShare
  edge := n.edge
  sentLoad := n.sentLoad
  sentShare := n.sentShare
  hasConverged := n.hasConverged
  statisticTimer := n.statisticTimer
  awaited := n.history.awaited
  received := n.history.received
  loadRuns := n.history.loadRuns
  shareRuns := n.history.shareCalls.length

variable [DecidableEq α]

/-- The flag of a marked neighbour. -/
def Standing.flagOf (s : Standing α) (a : α) : Option ℤ :=
  (s.marks.find? (·.addr = a)).map (·.flag)

namespace Flow

/-- `iotorii_handle_load_timer` has run. -/
def runLoad (f : Flow α) : Flow α := { f with sentLoad := true, loadRuns := f.loadRuns + 1 }

/-- `iotorii_handle_share_upstream_timer` has run. -/
def runShare (f : Flow α) : Flow α := { f with sentShare := true, shareRuns := f.shareRuns + 1 }

def loadWhenDone (f : Flow α) : Flow α :=
  if f.edge = false ∧ f.nHijosLoad = 0 ∧ f.sentLoad = false then f.runLoad else f

def shareWhenDone (f : Flow α) : Flow α :=
  if f.edge = false ∧ f.nHijosShare = 0 ∧ f.sentShare = false then f.runShare else f

/-- The convergence test of the root. -/
def test (f : Flow α) : Flow α :=
  { f with hasConverged := f.hasConverged || (f.nHijosLoad == 0 && f.nHijosShare == 0) }

/-- One neighbour less to wait for. -/
def countDown (f : Flow α) : Flow α :=
  { f with nHijosLoad := f.nHijosLoad - 1, nHijosShare := f.nHijosShare - 1 }

/-- A LOAD of a neighbour in the table. -/
def load (cfg : Config α) (s : Standing α) (sender : α) (f : Flow α) : Flow α :=
  let f := if s.flagOf sender = some 0 ∧ f.edge = false then
    { f with nHijosLoad := f.nHijosLoad - 1 } else f
  match cfg.nodeType with
  | .root => f.test
  | .common => f.loadWhenDone

/-- A SHARE. -/
def share (cfg : Config α) (s : Standing α) (sender : α) (f : Flow α) : Flow α :=
  if s.flagOf sender = some 0 ∧ f.edge = false ∧ f.nHijosShare ≠ 0 then
    let f := { f with nHijosShare := f.nHijosShare - 1 }
    match cfg.nodeType with
    | .root => f.test
    | .common => f.shareWhenDone
  else f

/-- What a node with these neighbours resets when it enters a round. -/
def enter (cfg : Config α) (addrs : List α) (f : Flow α) : Flow α :=
  let f := { f with
    sentLoad := false
    sentShare := false
    awaited := []
    received := f.received.take 1 }
  match cfg.hlmacCast with
  | .broadcast => f
  | .unicast => { f with
      nHijosLoad := addrs.length % 256
      nHijosShare := addrs.length % 256
      edge := false
      awaited := addrs }

/-- The broadcast build arms the statistic timer. -/
def arm (cfg : Config α) (f : Flow α) : Flow α :=
  match cfg.hlmacCast with
  | .broadcast => { f with statisticTimer := true }
  | .unicast => f

/-- An address was stored: the node enters its round if it is a new one, and
passes the address on. -/
def adopt (cfg : Config α) (s : Standing α) (timestamp : ℕ) (f : Flow α) : Flow α :=
  (if s.enters timestamp then f.enter cfg s.addrs else f).arm cfg

/-- Without neighbours left that have not answered, the node is an edge. -/
def becomeEdge (numberOfNeighboursFlag : ℤ) (f : Flow α) : Flow α :=
  if numberOfNeighboursFlag = 0 then ({ f with edge := true } : Flow α).runLoad.runShare else f

/-- A SetHLMAC that is not a loop; `s` is the standing before it. -/
def take (cfg : Config α) (s : Standing α) (sender : α) (timestamp : ℕ) (addr : HlmacAddr)
    (f : Flow α) : Flow α :=
  let f := if (s.store cfg sender timestamp addr).1 then f.adopt cfg s timestamp else f
  match cfg.hlmacCast with
  | .broadcast => f
  | .unicast =>
      let s := (s.store cfg sender timestamp addr).2
      (f.countDown.becomeEdge (s.numberOfNeighboursFlag - 1)).loadWhenDone.shareWhenDone

/-- A SetHLMAC that is a loop or older than the node's round. -/
def leave (cfg : Config α) (f : Flow α) : Flow α :=
  match cfg.hlmacCast with
  | .broadcast => f
  | .unicast => f.countDown.loadWhenDone.shareWhenDone

/-- A SetHLMAC that offers the node an address. -/
def offer (cfg : Config α) (s : Standing α) (sender : α) (timestamp : ℕ) (addr : HlmacAddr)
    (f : Flow α) : Flow α :=
  let f := if s.accepts timestamp addr then f.take cfg s sender timestamp addr else f.leave cfg
  match cfg.nodeType with
  | .root => f.test
  | .common => f

/-- A received packet. -/
def receive (cfg : Config α) (s : Standing α) (sender : α) (message : Payload α) (f : Flow α) :
    Flow α :=
  match message with
  | .hello => f
  | .load _ => if sender ∈ s.addrs then f.load cfg s sender else f
  | .share _ => f.share cfg s sender
  | .sethlmac timestamp _ _ =>
      let addr := iotoriiExtractAddress cfg.linkaddrNodeAddr message
      if hlmacIsUnspecifiedAddr addr then f else f.offer cfg s sender timestamp addr

/-- The marked neighbours that the statistic timer takes for children. -/
def children (s : Standing α) : List α :=
  (s.marks.filter fun m => !(m.flag = 1 || m.flag = -1)).map (·.addr)

/-- The statistic timer, for a node with a node record. -/
def statistic (cfg : Config α) (s : Standing α) (f : Flow α) : Flow α :=
  let f := { f with
    statisticTimer := false
    nHijosLoad := (children s).length % 256
    nHijosShare := (children s).length % 256
    awaited := children s }
  match cfg.nodeType with
  | .root => f
  | .common =>
      let f := { f with edge := s.numberOfNeighboursFlag == 0 }
      if f.edge then f.runLoad.runShare else f

/-- The round timer of the root. -/
def startRound (cfg : Config α) (s : Standing α) (f : Flow α) : Flow α :=
  let f := { f with hasConverged := false, received := [] }
  match cfg.hlmacCast with
  | .broadcast => { f with statisticTimer := true, awaited := [] }
  | .unicast => { f with
      nHijosLoad := s.addrs.length % 256
      nHijosShare := s.addrs.length % 256
      awaited := s.addrs }

/-- One event at a node with the standing `s`; `listed` says whether it has a
node record. -/
def step (cfg : Config α) (s : Standing α) (listed : Bool) (e : Event α) (f : Flow α) : Flow α :=
  match e with
  | .timer .hello => f
  | .timer .sethlmac => f.startRound cfg s
  | .timer (.sendMessage _) => f
  | .timer .statistic =>
      if listed then f.statistic cfg s else { f with statisticTimer := false }
  | .receive sender message round =>
      if sender = cfg.linkaddrNodeAddr then f
      else Flow.receive cfg s sender message
        { f with received := (sender, message, round) :: f.received }

end Flow

section Step

variable (cfg : Config α) (env : Env α)

/-! ## Sending towards the root -/

section

omit [DecidableEq α]

@[simp] theorem flow_send (es : List (PayloadEntry α)) (n : Node α) :
    (n.send cfg es).flow = n.flow := by
  rw [Node.send_eq]
  rfl

theorem flow_iotoriiHandleLoadTimer (n : Node α) :
    (iotoriiHandleLoadTimer cfg n).flow = { n.flow with loadRuns := n.flow.loadRuns + 1 } := by
  rw [iotoriiHandleLoadTimer_eq, flow_send]
  rfl

theorem flow_iotoriiHandleShareUpstreamTimer {junk : α} {n n' : Node α}
    (h : iotoriiHandleShareUpstreamTimer cfg junk n = some n') :
    n'.flow = { n.flow with shareRuns := n.flow.shareRuns + 1 } := by
  rw [iotoriiHandleShareUpstreamTimer_eq] at h
  split at h
  · cases h
  · obtain rfl := Option.some.inj h
    rw [flow_send]
    rfl

theorem flow_sendLoadAndShare {junk : α} {n n' : Node α}
    (h : sendLoadAndShare cfg junk n = some n') : n'.flow = n.flow.runLoad.runShare := by
  obtain ⟨m, hm, rfl⟩ := Option.map_eq_some_iff.1 h
  have hshare := flow_iotoriiHandleShareUpstreamTimer cfg hm
  rw [flow_iotoriiHandleLoadTimer] at hshare
  change { m.flow with sentLoad := true, sentShare := true } = _
  rw [hshare]
  rfl

theorem flow_sendLoadWhenDone (n : Node α) :
    (sendLoadWhenDone cfg n).flow = n.flow.loadWhenDone := by
  unfold sendLoadWhenDone Flow.loadWhenDone
  split
  · rename_i hdone
    have hdone' : n.flow.edge = false ∧ n.flow.nHijosLoad = 0 ∧ n.flow.sentLoad = false := hdone
    rw [if_pos hdone']
    change { (iotoriiHandleLoadTimer cfg n).flow with sentLoad := true } = _
    rw [flow_iotoriiHandleLoadTimer]
    rfl
  · rename_i hdone
    have hdone' : ¬ (n.flow.edge = false ∧ n.flow.nHijosLoad = 0 ∧ n.flow.sentLoad = false) :=
      hdone
    rw [if_neg hdone']

theorem flow_sendShareWhenDone {junk : α} {n n' : Node α}
    (h : sendShareWhenDone cfg junk n = some n') : n'.flow = n.flow.shareWhenDone := by
  unfold sendShareWhenDone at h
  unfold Flow.shareWhenDone
  split at h
  · rename_i hdone
    have hdone' : n.flow.edge = false ∧ n.flow.nHijosShare = 0 ∧ n.flow.sentShare = false := hdone
    rw [if_pos hdone']
    obtain ⟨m, hm, rfl⟩ := Option.map_eq_some_iff.1 h
    change { m.flow with sentShare := true } = _
    rw [flow_iotoriiHandleShareUpstreamTimer cfg hm]
    rfl
  · rename_i hdone
    have hdone' : ¬ (n.flow.edge = false ∧ n.flow.nHijosShare = 0 ∧ n.flow.sentShare = false) :=
      hdone
    rw [if_neg hdone', Option.some.inj h]

theorem flow_sendWhenDone {junk : α} {n n' : Node α} (h : sendWhenDone cfg junk n = some n') :
    n'.flow = n.flow.loadWhenDone.shareWhenDone := by
  rw [flow_sendShareWhenDone cfg h, flow_sendLoadWhenDone]

theorem flow_becomeEdge {junk : α} {n n' : Node α} (h : becomeEdge cfg junk n = some n') :
    n'.flow = n.flow.becomeEdge n.numberOfNeighboursFlag := by
  unfold becomeEdge at h
  unfold Flow.becomeEdge
  split at h
  · rename_i hflag
    rw [if_pos hflag]
    exact flow_sendLoadAndShare cfg h
  · rename_i hflag
    rw [if_neg hflag, Option.some.inj h]

theorem Flow.length_children (s : Standing α) :
    (Flow.children s).length = s.marks.countP fun m => !(m.flag = 1 || m.flag = -1) := by
  rw [Flow.children, List.length_map, List.countP_eq_length_filter]

theorem hijosAddrs_eq_children (n : Node α) :
    n.neighbourTable.hijosAddrs = Flow.children n.standing := by
  simp only [NeighbourTable.hijosAddrs, Flow.children, Node.standing, NeighbourTable.marks,
    List.filter_map, List.map_map]
  rfl

theorem hijos_eq_length_children (n : Node α) :
    n.neighbourTable.hijos = (Flow.children n.standing).length := by
  rw [NeighbourTable.hijos_eq_marks, Flow.length_children]
  rfl

theorem flow_iotoriiHandleStatisticTimer {junk : α} {n n' : Node α}
    (ht : n.statisticTimer = false)
    (h : iotoriiHandleStatisticTimer cfg junk n = some n') :
    n'.flow = if n.nodeList.isEmpty then n.flow else n.flow.statistic cfg n.standing := by
  unfold iotoriiHandleStatisticTimer at h
  unfold Flow.statistic
  rw [hijos_eq_length_children, hijosAddrs_eq_children] at h
  cases hlist : n.nodeList with
  | nil =>
      rw [hlist] at h
      rw [← Option.some.inj h]
      rfl
  | cons node rest =>
      rw [hlist] at h
      simp only [List.isEmpty_cons, Bool.false_eq_true, if_false]
      cases htype : cfg.nodeType with
      | root =>
          rw [htype] at h
          rw [← Option.some.inj h]
          simp only [Node.flow, ht]
      | common =>
          rw [htype] at h
          dsimp only at h ⊢
          split at h
          · rename_i hedge
            rw [if_pos (show (n.standing.numberOfNeighboursFlag == 0) = true from hedge),
              flow_sendLoadAndShare cfg h]
            simp only [Node.flow, ht]
            rfl
          · rename_i hedge
            rw [if_neg (show ¬ (n.standing.numberOfNeighboursFlag == 0) = true from hedge),
              ← Option.some.inj h]
            simp only [Node.flow, ht]
            rfl

end

/-! ## Receiving -/

omit [DecidableEq α] in
theorem flow_convergenceTest (n : Node α) : (convergenceTest n).flow = n.flow.test := rfl

theorem Node.flagOf_eq_standing (n : Node α) (a : α) :
    n.neighbourTable.flagOf a = n.standing.flagOf a :=
  n.neighbourTable.flagOf_eq_marks a

theorem NeighbourTable.find_eq_none {t : NeighbourTable α} {a : α} :
    t.find a = none ↔ a ∉ t.addrs := by
  rw [find, List.find?_eq_none, addrs, List.mem_map, not_exists]
  simp only [decide_eq_true_eq, not_and]

/-- Where the counter is `0`, counting down changes nothing. -/
theorem flow_countLoad (load : ℤ) {sender : α} {n : Node α} {nb : NeighbourTableEntry α}
    (hflag : n.standing.flagOf sender = some nb.flag) :
    (if nb.flag = 0 ∧ n.edge = false ∧ n.nHijosLoad ≠ 0 then
        ({ n with
          neighbourTable := n.neighbourTable.setLoad sender load
          nHijosLoad := n.nHijosLoad - 1 } : Node α)
      else { n with neighbourTable := n.neighbourTable.setLoad sender load }).flow =
    if n.standing.flagOf sender = some 0 ∧ n.flow.edge = false then
      { n.flow with nHijosLoad := n.flow.nHijosLoad - 1 } else n.flow := by
  by_cases hawaits : nb.flag = 0 ∧ n.edge = false
  · have hawaits' : n.standing.flagOf sender = some 0 ∧ n.flow.edge = false :=
      ⟨hflag.trans (congrArg some hawaits.1), hawaits.2⟩
    rw [if_pos hawaits']
    by_cases h0 : n.nHijosLoad = 0
    · rw [if_neg fun h => h.2.2 h0]
      simp only [Node.flow, h0]
    · rw [if_pos ⟨hawaits.1, hawaits.2, h0⟩]
      rfl
  · have hawaits' : ¬ (n.standing.flagOf sender = some 0 ∧ n.flow.edge = false) := fun h =>
      hawaits ⟨Option.some.inj (hflag.symm.trans h.1), h.2⟩
    rw [if_neg hawaits', if_neg fun h => hawaits ⟨h.1, h.2.1⟩]
    rfl

theorem flow_incomingLoad (sender : α) (load : ℤ) (n : Node α) :
    (incomingLoad cfg sender load n).flow =
      if sender ∈ n.standing.addrs then n.flow.load cfg n.standing sender else n.flow := by
  have haddrs : n.neighbourTable.addrs = n.standing.addrs := n.neighbourTable.addrs_eq_marks
  unfold incomingLoad
  cases hfind : n.neighbourTable.find sender with
  | none =>
      have hmem := NeighbourTable.find_eq_none.1 hfind
      rw [haddrs] at hmem
      rw [if_neg hmem]
  | some nb =>
      have hmem : sender ∈ n.standing.addrs := by
        by_contra hmem
        rw [← haddrs] at hmem
        rw [NeighbourTable.find_eq_none.2 hmem] at hfind
        cases hfind
      have hflag : n.standing.flagOf sender = some nb.flag := by
        rw [← Node.flagOf_eq_standing, NeighbourTable.flagOf, hfind, Option.map_some]
      rw [if_pos hmem, Flow.load, ← flow_countLoad load hflag]
      dsimp only
      cases cfg.nodeType with
      | root => rfl
      | common => exact flow_sendLoadWhenDone cfg _

section

omit [DecidableEq α]

theorem sendShareWhenDone_of_inner (junk : α) {n : Node α} (hedge : n.edge = false) :
    sendShareWhenDone cfg junk n =
      if n.nHijosShare = 0 ∧ n.sentShare = false then
        (iotoriiHandleShareUpstreamTimer cfg junk n).map fun n => { n with sentShare := true }
      else some n := by
  unfold sendShareWhenDone
  simp only [hedge, true_and]

theorem flow_takeShare {junk : α} {extra : ℤ} {n n' : Node α} (hedge : n.edge = false)
    (h : takeShare cfg junk extra n = some n') :
    n'.flow = match cfg.nodeType with
      | .root => Flow.test { n.flow with nHijosShare := n.flow.nHijosShare - 1 }
      | .common => Flow.shareWhenDone { n.flow with nHijosShare := n.flow.nHijosShare - 1 } := by
  unfold takeShare at h
  split at h
  · cases h
  · rename_i node rest hlist
    cases htype : cfg.nodeType with
    | root =>
        rw [htype] at h
        rw [← Option.some.inj h]
        rfl
    | common =>
        rw [htype] at h
        dsimp only at h
        have hshare := sendShareWhenDone_of_inner cfg junk (n := { n with
          nodeList := { node with load := node.load + extra } :: rest
          nHijosShare := n.nHijosShare - 1 }) hedge
        exact flow_sendShareWhenDone cfg (hshare.trans h)

end

theorem flow_incomingShare {junk : α} {sender : α} {extra : ℤ} {n n' : Node α}
    (h : incomingShare cfg junk sender extra n = some n') :
    n'.flow = n.flow.share cfg n.standing sender := by
  unfold incomingShare at h
  unfold Flow.share
  cases hfind : n.neighbourTable.find sender with
  | none =>
      rw [hfind] at h
      have hflag : n.standing.flagOf sender = none := by
        rw [← Node.flagOf_eq_standing, NeighbourTable.flagOf, hfind, Option.map_none]
      have hnone : ¬ (n.standing.flagOf sender = some 0 ∧ n.flow.edge = false ∧
          n.flow.nHijosShare ≠ 0) := by
        rw [hflag]
        exact fun h => Option.some_ne_none _ h.1.symm
      rw [if_neg hnone, Option.some.inj h]
  | some nb =>
      rw [hfind] at h
      have hflag : n.standing.flagOf sender = some nb.flag := by
        rw [← Node.flagOf_eq_standing, NeighbourTable.flagOf, hfind, Option.map_some]
      have hiff : (n.standing.flagOf sender = some 0 ∧ n.flow.edge = false ∧
          n.flow.nHijosShare ≠ 0) ↔ (nb.flag = 0 ∧ n.edge = false ∧ n.nHijosShare ≠ 0) := by
        rw [hflag, Option.some.injEq]
        rfl
      obtain ⟨m, hm, rfl⟩ := Option.map_eq_some_iff.1 h
      change m.flow = _
      split at hm
      · rename_i hcount
        rw [if_pos (hiff.2 hcount)]
        exact flow_takeShare cfg hcount.2.1 hm
      · rename_i hcount
        rw [if_neg fun h => hcount (hiff.1 h), Option.some.inj hm]

omit [DecidableEq α] in
theorem flow_armStatistic (n : Node α) : (armStatistic cfg n).flow = n.flow.arm cfg := by
  unfold armStatistic Flow.arm
  cases cfg.hlmacCast <;> rfl

theorem flow_iotoriiSendSethlmac {addr : HlmacAddr} {sender : α} {timestamp : ℕ} {n n' : Node α}
    (h : iotoriiSendSethlmac cfg env addr sender timestamp n = some n') :
    n'.flow = n.flow.arm cfg := by
  obtain ⟨es, drawn, rfl, -⟩ := iotoriiSendSethlmac_eq_some cfg h
  rw [flow_armStatistic]
  rfl

section

omit [DecidableEq α]

theorem NeighbourTable.addrs_iotoriiNeighboursFlag (t : NeighbourTable α) :
    t.iotoriiNeighboursFlag.addrs = t.addrs := t.addrs_map _

theorem flow_enterRound (timestamp : ℕ) (n : Node α) :
    (enterRound cfg timestamp n).flow = n.flow.enter cfg n.standing.addrs := by
  have haddrs : n.standing.addrs = n.neighbourTable.addrs := n.neighbourTable.addrs_eq_marks.symm
  have hnumber : n.neighbourTable.addrs.length = n.neighbourTable.numberOfNeighbours := by
    rw [n.neighbourTable.counted, NeighbourTable.addrs, List.length_map]
  unfold enterRound Flow.enter
  rw [haddrs, hnumber]
  cases cfg.hlmacCast with
  | broadcast => rfl
  | unicast =>
      rw [← n.neighbourTable.addrs_iotoriiNeighboursFlag]
      rfl

/-- Storing an address does to the flow what entering a round does, if it is a
new one. -/
theorem flow_storeAddress (sender : α) (timestamp : ℕ) (addr : HlmacAddr) (n : Node α) :
    (storeAddress cfg sender timestamp addr n).2.flow =
      if (n.standing.store cfg sender timestamp addr).1 ∧ n.standing.enters timestamp then
        n.flow.enter cfg n.standing.addrs else n.flow := by
  have henters : ∀ table, entersRound { n with hlmacTable := table } timestamp =
      n.standing.enters timestamp := fun _ => rfl
  have hfst : (n.standing.store cfg sender timestamp addr).1 =
      (hlmactableAdd cfg.hlmacMaxHlmac n.hlmacTable addr timestamp).1 := rfl
  rw [hfst]
  simp only [storeAddress]
  by_cases hadd : (hlmactableAdd cfg.hlmacMaxHlmac n.hlmacTable addr timestamp).1 = true
  · simp only [hadd, if_true, true_and, adoptAddress, henters]
    split
    · exact flow_enterRound cfg timestamp _
    · rfl
  · simp only [hadd]
    rfl

end

theorem flow_takeSethlmac {sender : α} {timestamp : ℕ} {addr : HlmacAddr} {n n' : Node α}
    (h : takeSethlmac cfg env sender timestamp addr n = some n') :
    n'.flow = n.flow.take cfg n.standing sender timestamp addr := by
  have hflow := flow_storeAddress cfg sender timestamp addr n
  have hstanding := standing_storeAddress cfg sender timestamp addr n
  have hfst := fst_storeAddress cfg sender timestamp addr n
  unfold takeSethlmac at h
  unfold Flow.take Flow.adopt
  generalize storeAddress cfg sender timestamp addr n = stored at h hflow hstanding hfst
  obtain ⟨isAdded, m⟩ := stored
  dsimp only at h hflow hstanding hfst ⊢
  rw [← hfst] at hflow ⊢
  rw [← hstanding]
  -- passing the address on arms the timer, if there is one to pass on
  have hpassed : ∀ m', (if isAdded = true then
      iotoriiSendSethlmac cfg env addr sender timestamp m else some m) = some m' →
      m'.flow = (if isAdded = true then (if n.standing.enters timestamp = true then
          n.flow.enter cfg n.standing.addrs else n.flow).arm cfg else n.flow) ∧
        m'.numberOfNeighboursFlag = m.standing.numberOfNeighboursFlag := by
    intro m' hm'
    split at hm'
    · rename_i hadded
      refine ⟨?_, ?_⟩
      · rw [flow_iotoriiSendSethlmac cfg env hm', hflow, if_pos hadded]
        simp only [hadded, true_and]
      · exact congrArg Standing.numberOfNeighboursFlag (standing_iotoriiSendSethlmac cfg env hm')
    · rename_i hadded
      obtain rfl := Option.some.inj hm'
      refine ⟨?_, rfl⟩
      rw [hflow, if_neg hadded, if_neg fun h => hadded h.1]
  cases hcast : cfg.hlmacCast with
  | broadcast =>
      rw [hcast] at h
      obtain ⟨m', hm', rfl⟩ := Option.map_eq_some_iff.1 h
      exact (hpassed m' hm').1
  | unicast =>
      rw [hcast] at h
      obtain ⟨m', hm', h⟩ := Option.bind_eq_some_iff.1 h
      obtain ⟨m'', hm'', h⟩ := Option.bind_eq_some_iff.1 h
      obtain ⟨hflow', hnumber⟩ := hpassed m' hm'
      dsimp only
      rw [flow_sendWhenDone cfg h, flow_becomeEdge cfg hm'', ← hflow', ← hnumber]
      rfl

omit [DecidableEq α] in
theorem flow_leaveSethlmac {n n' : Node α} (h : leaveSethlmac cfg env n = some n') :
    n'.flow = n.flow.leave cfg := by
  unfold leaveSethlmac at h
  unfold Flow.leave
  cases hcast : cfg.hlmacCast with
  | broadcast =>
      rw [hcast] at h
      rw [Option.some.inj h]
  | unicast =>
      rw [hcast] at h
      rw [flow_sendWhenDone cfg h]
      rfl

theorem flow_incomingSethlmac {sender : α} {timestamp : ℕ} {addr : HlmacAddr} {n n' : Node α}
    (h : incomingSethlmac cfg env sender timestamp addr n = some n') :
    n'.flow = n.flow.offer cfg n.standing sender timestamp addr := by
  have haccepts : acceptsSethlmac n timestamp addr = n.standing.accepts timestamp addr := rfl
  have key : ∀ m, (if acceptsSethlmac n timestamp addr = true then
      takeSethlmac cfg env sender timestamp addr n else leaveSethlmac cfg env n) = some m →
      m.flow = if n.standing.accepts timestamp addr = true then
        n.flow.take cfg n.standing sender timestamp addr else n.flow.leave cfg := by
    intro m hm
    rw [← haccepts]
    split at hm
    · rw [if_pos ‹_›]
      exact flow_takeSethlmac cfg env hm
    · rw [if_neg ‹_›]
      exact flow_leaveSethlmac cfg env hm
  unfold incomingSethlmac settleSethlmac at h
  unfold Flow.offer
  cases htype : cfg.nodeType with
  | root =>
      rw [htype] at h
      obtain ⟨m, hm, rfl⟩ := Option.map_eq_some_iff.1 h
      rw [flow_convergenceTest, key m hm]
  | common =>
      rw [htype] at h
      exact key n' h

theorem flow_iotoriiOperation {sender : α} {message : Payload α} {n n' : Node α}
    (h : iotoriiOperation cfg env sender message n = some n') :
    n'.flow = Flow.receive cfg n.standing sender message n.flow := by
  cases message with
  | hello =>
      obtain rfl := Option.some.inj h
      simp only [Flow.receive, iotoriiHandleIncomingHello]
      split
      · split <;> rfl
      · rfl
  | load load =>
      obtain rfl := Option.some.inj h
      exact flow_incomingLoad cfg sender load n
  | share extra => exact flow_incomingShare cfg h
  | sethlmac timestamp hlmacPrefix assigned =>
      simp only [iotoriiOperation] at h
      simp only [Flow.receive]
      split at h
      · rw [if_pos ‹_›, Option.some.inj h]
      · rw [if_neg ‹_›]
        exact flow_incomingSethlmac cfg env h

/-! ## One event -/

theorem flow_iotoriiHandleHelloTimer (n : Node α) :
    (iotoriiHandleHelloTimer cfg env n).flow = n.flow := by
  unfold iotoriiHandleHelloTimer
  dsimp only
  split <;> split <;> rfl

theorem flow_iotoriiHandleSethlmacTimer {n n' : Node α}
    (h : iotoriiHandleSethlmacTimer cfg env n = some n') :
    n'.flow = n.flow.startRound cfg n.standing := by
  obtain ⟨m, hm, rfl⟩ := Option.map_eq_some_iff.1 h
  have hflow := flow_iotoriiSendSethlmac cfg env hm
  have hstanding := standing_iotoriiSendSethlmac cfg env hm
  have haddrs : n.standing.addrs = m.neighbourTable.addrs := by
    have hmarks := congrArg Standing.marks hstanding
    rw [m.neighbourTable.addrs_eq_marks]
    exact congrArg (List.map _) hmarks.symm
  have hnumber : m.neighbourTable.addrs.length = m.neighbourTable.numberOfNeighbours := by
    rw [m.neighbourTable.counted, NeighbourTable.addrs, List.length_map]
  unfold Flow.startRound
  rw [haddrs, hnumber]
  unfold resetRoot
  cases hcast : cfg.hlmacCast with
  | broadcast =>
      simp only [Flow.arm, hcast] at hflow
      change { m.flow with statisticTimer := true, awaited := [], received := [] } = _
      rw [hflow]
      rfl
  | unicast =>
      simp only [Flow.arm, hcast] at hflow
      change { m.flow with
        nHijosLoad := m.neighbourTable.numberOfNeighbours % 256
        nHijosShare := m.neighbourTable.numberOfNeighbours % 256
        awaited := m.neighbourTable.addrs
        received := [] } = _
      rw [hflow]
      rfl

omit [DecidableEq α] in
theorem flow_iotoriiHandleSendMessageTimer {csma : CsmaOutcome} {n n' : Node α}
    (h : iotoriiHandleSendMessageTimer cfg csma n = some n') : n'.flow = n.flow := by
  unfold iotoriiHandleSendMessageTimer at h
  split at h
  · cases h
  · split at h
    · rw [← Option.some.inj h]
      rfl
    · split at h <;> rw [← Option.some.inj h] <;> rfl

/-- Every event takes the flow of the node to the next flow. -/
theorem flow_step {e : Event α} {n n' : Node α} (h : Node.step cfg env e n = some n') :
    n'.flow = n.flow.step cfg n.standing (!n.nodeList.isEmpty) e := by
  cases e with
  | timer t =>
      cases t with
      | hello =>
          simp only [Node.step, Node.expire, Option.ite_none_right_eq_some,
            Option.some.injEq] at h
          obtain ⟨-, rfl⟩ := h
          exact flow_iotoriiHandleHelloTimer cfg env _
      | sethlmac =>
          simp only [Node.step, Node.expire, Option.ite_none_right_eq_some] at h
          have hstep := flow_iotoriiHandleSethlmacTimer cfg env h.2
          exact hstep
      | sendMessage csma =>
          simp only [Node.step, Node.expire, Option.ite_none_right_eq_some] at h
          have hstep := flow_iotoriiHandleSendMessageTimer cfg h.2
          exact hstep
      | statistic =>
          simp only [Node.step, Node.expire, Option.ite_none_right_eq_some] at h
          have hstep := flow_iotoriiHandleStatisticTimer cfg rfl h.2
          rw [hstep]
          cases n.nodeList <;> rfl
  | receive sender message round =>
      simp only [Node.step] at h
      simp only [Flow.step]
      split at h
      · rw [if_pos ‹_›, Option.some.inj h]
      · rw [if_neg ‹_›]
        have hstep := flow_iotoriiOperation cfg env h
        exact hstep

end Step

end Den2ne
