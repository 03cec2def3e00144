import Mathlib.Data.Multiset.MapFold
import Mathlib.Logic.Function.Iterate
import Den2ne.Node.Flow
import Den2ne.Node.Records

/-!
# Loads and shares

`Node.ledger` keeps of a node what the sharing phase moves: the loads of its node
records, the `in_out` value of each neighbour, and the SHAREs that wait in
`payload_entry_list` or are at the MAC. `Ledger.step` is the machine that they
form under the standing and the flow of the node; `ledger_step` says that every
event takes the ledger of a node to the next ledger. The loads that a node draws
and the SHAREs that its send timer takes off the queue come from outside.
-/

namespace Den2ne

variable {α : Type*}

/-- The loads, the flows and the SHAREs of a node. A SHARE is its destination and
its value. -/
@[ext] structure Ledger (α : Type*) where
  loads : List ℤ
  inOut : α → Option ℤ
  queued : Multiset (α × ℤ)
  posted : Multiset (α × ℤ)

/-- A payload entry with a SHARE. -/
def PayloadEntry.share (e : PayloadEntry α) : Option (α × ℤ) :=
  match e.payload with
  | .share extra => some (e.dest, extra)
  | _ => none

def shares (es : List (PayloadEntry α)) : Multiset (α × ℤ) := es.filterMap (·.share)

/-- The addresses with the flag of a parent, in table order. -/
def Standing.parents (s : Standing α) : List α := (s.marks.filter (·.flag = 1)).map (·.addr)

variable [DecidableEq α]

/-- The `in_out` value of an address that is in the table. -/
def NeighbourTable.inOutOf (t : NeighbourTable α) (a : α) : Option ℤ := (t.find a).map (·.inOut)

def Node.ledger (n : Node α) : Ledger α where
  loads := n.nodeList.map (·.load)
  inOut := n.neighbourTable.inOutOf
  queued := shares n.payloadEntryList
  posted := shares n.macOut

/-- The SHAREs that the send timer takes off the queue next. -/
def Node.due (n : Node α) : Multiset (α × ℤ) := shares (n.payloadEntryList.take 1)

/-- The SHARE of a neighbour is counted. -/
def Flow.Counts (s : Standing α) (sender : α) (f : Flow α) : Prop :=
  s.flagOf sender = some 0 ∧ f.edge = false ∧ f.nHijosShare ≠ 0

instance (s : Standing α) (sender : α) (f : Flow α) : Decidable (f.Counts s sender) :=
  inferInstanceAs (Decidable (_ ∧ _ ∧ _))

/-- A SetHLMAC takes the node into a new round. -/
def Standing.joins (cfg : Config α) (sender : α) (message : Payload α) (s : Standing α) : Bool :=
  match message with
  | .sethlmac timestamp _ _ =>
      let addr := iotoriiExtractAddress cfg.linkaddrNodeAddr message
      !hlmacIsUnspecifiedAddr addr && s.accepts timestamp addr &&
        (s.store cfg sender timestamp addr).1 && s.enters timestamp
  | _ => false

namespace Ledger

/-- SHAREs are handed to the MAC (broadcast) or queued (unicast). -/
def send (cfg : Config α) (es : Multiset (α × ℤ)) (l : Ledger α) : Ledger α :=
  match cfg.hlmacCast with
  | .broadcast => { l with posted := l.posted + es }
  | .unicast => { l with queued := l.queued + es }

/-- The destinations of a SHARE of a node with these parents. -/
def dests (cfg : Config α) (junk : α) (parents : List α) : List α :=
  match cfg.hlmacCast with
  | .broadcast => parents
  | .unicast => [parents.getLast?.getD junk]

/-- `iotorii_handle_share_upstream_timer`. -/
def share (cfg : Config α) (junk : α) (parents : List α) (l : Ledger α) : Ledger α :=
  match l.loads with
  | [] => l
  | load :: rest =>
      ({ l with
        loads := (match cfg.nodeType with
          | .common => 100
          | .root => load) :: rest
        inOut := fun a =>
          if a ∈ parents then some (toShort (-extraLoad load)) else l.inOut a } : Ledger α).send cfg
        ((dests cfg junk parents).map fun dest => (dest, extraLoad load))

/-- The share of a child is added to the load. -/
def take (extra : ℤ) (l : Ledger α) : Ledger α :=
  { l with loads := l.loads.modifyHead (· + extra) }

/-- The flow from `sender` is recorded unless one is recorded already. -/
def note (sender : α) (extra : ℤ) (l : Ledger α) : Ledger α :=
  { l with
    inOut := fun a =>
      if a = sender then
        (l.inOut a).map fun inOut => if extra ≠ 0 ∧ inOut = 0 then extra else inOut
      else l.inOut a }

/-- Flows are recorded for the addresses in the table; a new one has none. -/
def follow (addrs : List α) (l : Ledger α) : Ledger α :=
  { l with inOut := fun a => if a ∈ addrs then some ((l.inOut a).getD 0) else none }

/-- A new round begins without node records. -/
def clear (l : Ledger α) : Ledger α := { l with loads := [] }

def draw (drawn : List ℤ) (l : Ledger α) : Ledger α := { l with loads := l.loads ++ drawn }

/-- The send timer takes an entry off the queue, which holds the SHAREs `moved`. -/
def transmit (cfg : Config α) (csma : CsmaOutcome) (moved : Multiset (α × ℤ)) (l : Ledger α) :
    Ledger α :=
  match cfg.hlmacCast with
  | .broadcast => { l with
      queued := l.queued - moved
      posted := if csma = .refused then l.posted
        else l.posted + moved.map fun s => (cfg.linkaddrNull, s.2) }
  | .unicast =>
      match csma with
      | .scheduled => { l with queued := l.queued - moved, posted := l.posted + moved }
      | .behind => { l with posted := l.posted + moved }
      | .refused => l

/-- One event at a node with this standing and flow. -/
def step (cfg : Config α) (junk : α) (drawn : List ℤ) (moved : Multiset (α × ℤ))
    (s : Standing α) (f : Flow α) (e : Event α) (l : Ledger α) : Ledger α :=
  let runs := (f.step cfg s (!l.loads.isEmpty) e).shareRuns - f.shareRuns
  let shareRuns := (Ledger.share cfg junk (s.step cfg e).parents)^[runs]
  match e with
  | .timer .hello => l.follow (s.step cfg e).addrs
  | .timer .sethlmac => l.draw drawn
  | .timer (.sendMessage csma) => l.transmit cfg csma moved
  | .timer .statistic => shareRuns l
  | .receive sender message _ =>
      if sender = cfg.linkaddrNodeAddr then l
      else
        match message with
        | .hello => l.follow (s.step cfg e).addrs
        | .load _ => l
        | .share extra =>
            (shareRuns (if f.Counts s sender then l.take extra else l)).note sender extra
        | .sethlmac _ _ _ =>
            shareRuns ((if s.joins cfg sender message then l.clear else l).draw drawn)

end Ledger

/-! ## The flows of a changed table -/

namespace NeighbourTable

variable (t : NeighbourTable α)

theorem find_map (f : NeighbourTableEntry α → NeighbourTableEntry α)
    (hf : ∀ nb, (f nb).addr = nb.addr) (a : α) : (t.map f hf).find a = (t.find a).map f := by
  have hkey : (fun nb : NeighbourTableEntry α => decide (nb.addr = a)) ∘ f =
      fun nb => decide (nb.addr = a) := funext fun nb => by simp only [Function.comp_apply, hf]
  simp only [find, map, List.find?_map, hkey]

theorem find_addr {a : α} {nb : NeighbourTableEntry α} (h : t.find a = some nb) : nb.addr = a := by
  simpa using List.find?_some h

theorem inOutOf_map {f : NeighbourTableEntry α → NeighbourTableEntry α}
    {hf : ∀ nb, (f nb).addr = nb.addr} (hinOut : ∀ nb, (f nb).inOut = nb.inOut) :
    (t.map f hf).inOutOf = t.inOutOf := by
  funext a
  rw [inOutOf, inOutOf, find_map, Option.map_map]
  exact congrArg (Option.map · _) (funext hinOut)

@[simp] theorem inOutOf_setFlag (a : α) (flag : ℤ) : (t.setFlag a flag).inOutOf = t.inOutOf :=
  inOutOf_map t fun nb => by split <;> rfl

@[simp] theorem inOutOf_iotoriiNeighboursFlag : t.iotoriiNeighboursFlag.inOutOf = t.inOutOf :=
  inOutOf_map t fun _ => rfl

@[simp] theorem inOutOf_setLoad (a : α) (load : ℤ) : (t.setLoad a load).inOutOf = t.inOutOf :=
  inOutOf_map t fun nb => by split <;> rfl

@[simp] theorem inOutOf_setLastHello (a : α) (lastHello : ℕ) :
    (t.setLastHello a lastHello).inOutOf = t.inOutOf :=
  inOutOf_map t fun nb => by split <;> rfl

theorem inOutOf_setInOut (sender : α) (extra : ℤ) (a : α) :
    (t.setInOut sender extra).inOutOf a =
      if a = sender then
        (t.inOutOf a).map fun inOut => if extra ≠ 0 ∧ inOut = 0 then extra else inOut
      else t.inOutOf a := by
  rw [inOutOf, inOutOf, setInOut, find_map, Option.map_map, Option.map_map]
  cases hfind : t.find a with
  | none => simp
  | some nb =>
      have haddr := t.find_addr hfind
      subst haddr
      by_cases hsender : nb.addr = sender
      · simp only [Option.map_some, Function.comp_apply, hsender, true_and, if_true]
        split <;> rfl
      · simp [hsender]

/-- A parent of the table is found with the flag `1`. -/
theorem mem_parents {a : α} : a ∈ t.parents ↔ t.flagOf a = some 1 := by
  rw [flagOf, Option.map_eq_some_iff, parents, List.mem_map]
  constructor
  · rintro ⟨nb, hnb, rfl⟩
    obtain ⟨hmem, hflag⟩ := List.mem_filter.1 hnb
    exact ⟨nb, (Keyed.find?_eq_some_iff t.nodup).2 ⟨hmem, rfl⟩, by simpa using hflag⟩
  · rintro ⟨nb, hnb, hflag⟩
    exact ⟨nb, List.mem_filter.2 ⟨List.mem_of_find?_eq_some hnb, by simpa using hflag⟩,
      t.find_addr hnb⟩

theorem inOutOf_setParentsInOut (inOut : ℤ) (a : α) :
    (t.setParentsInOut inOut).inOutOf a =
      if a ∈ t.parents then some inOut else t.inOutOf a := by
  have hparent : a ∈ t.parents ↔ (t.find a).map (·.flag) = some 1 := t.mem_parents
  rw [inOutOf, inOutOf, setParentsInOut, find_map, Option.map_map]
  simp only [hparent]
  cases t.find a with
  | none => simp
  | some nb => by_cases hflag : nb.flag = 1 <;> simp [hflag]

theorem inOutOf_eq_none {a : α} : t.inOutOf a = none ↔ a ∉ t.addrs := by
  rw [inOutOf, Option.map_eq_none_iff, find_eq_none]

/-- An address that is added has no flow. -/
theorem inOutOf_add {nb : NeighbourTableEntry α} (h : nb.addr ∉ t.addrs) (hnb : nb.inOut = 0)
    (a : α) : (t.add nb h).inOutOf a =
      if a ∈ (t.add nb h).addrs then some ((t.inOutOf a).getD 0) else none := by
  split
  · rename_i hmem
    rw [inOutOf, inOutOf, find, find, add, List.find?_append]
    cases hfind : t.entries.find? (·.addr = a) with
    | some nb' => simp
    | none =>
        have haddr : nb.addr = a := by
          have hnot : a ∉ t.addrs := find_eq_none.1 hfind
          simp only [addrs, add, List.map_append, List.mem_append] at hmem
          exact (List.mem_singleton.1 (hmem.resolve_left hnot)).symm
        simp [haddr, hnb]
  · exact (inOutOf_eq_none _).2 ‹_›

/-- The entries that stay keep their flows. -/
theorem inOutOf_removeFirst (p : NeighbourTableEntry α → Bool) (a : α) :
    (t.removeFirst p).inOutOf a =
      if a ∈ (t.removeFirst p).addrs then some ((t.inOutOf a).getD 0) else none := by
  split
  · rename_i hmem
    obtain ⟨nb, hnb, rfl⟩ := List.mem_map.1 hmem
    have hold : t.find nb.addr = some nb :=
      (Keyed.find?_eq_some_iff t.nodup).2 ⟨List.eraseP_subset hnb, rfl⟩
    have hnew : (t.removeFirst p).find nb.addr = some nb :=
      (Keyed.find?_eq_some_iff (t.removeFirst p).nodup).2 ⟨hnb, rfl⟩
    rw [inOutOf, inOutOf, hold, hnew]
    rfl
  · exact (inOutOf_eq_none _).2 ‹_›

/-- A table with the same addresses and flows follows itself. -/
theorem inOutOf_eq_follow (a : α) :
    t.inOutOf a = if a ∈ t.addrs then some ((t.inOutOf a).getD 0) else none := by
  split
  · rename_i hmem
    obtain ⟨inOut, hinOut⟩ := Option.ne_none_iff_exists'.1
      fun hnone => (t.inOutOf_eq_none.1 hnone) hmem
    rw [hinOut]
    rfl
  · exact t.inOutOf_eq_none.2 ‹_›

end NeighbourTable

section Step

variable (cfg : Config α) (env : Env α)

/-! ## Sending towards the root -/

omit [DecidableEq α] in
theorem shares_append (es es' : List (PayloadEntry α)) :
    shares (es ++ es') = shares es + shares es' := by
  rw [shares, List.filterMap_append, shares, shares, Multiset.coe_add]

theorem ledger_send (es : List (PayloadEntry α)) (n : Node α) :
    (n.send cfg es).ledger = n.ledger.send cfg (shares es) := by
  rw [Node.send_eq, Ledger.send]
  unfold Node.queued Node.posted
  cases cfg.hlmacCast <;> simp [Node.ledger, shares_append]

/-- `n'` is `n` after `k` executions of `iotorii_handle_share_upstream_timer`, as far as
the ledger shows. -/
structure Node.ShareRuns (junk : α) (k : ℕ) (n n' : Node α) : Prop where
  standing : n'.standing = n.standing
  shareRuns : n'.flow.shareRuns = n.flow.shareRuns + k
  ledger : n'.ledger = (Ledger.share cfg junk n.standing.parents)^[k] n.ledger

/-- Some number of executions. -/
def Node.Shares (junk : α) (n n' : Node α) : Prop := ∃ k, Node.ShareRuns cfg junk k n n'

variable {cfg env} {junk : α} {n m n' : Node α}

theorem Node.shares_of_eq (hstanding : n'.standing = n.standing)
    (hruns : n'.flow.shareRuns = n.flow.shareRuns) (hledger : n'.ledger = n.ledger) :
    n.Shares cfg junk n' := ⟨0, hstanding, hruns, hledger⟩

theorem Node.Shares.refl (n : Node α) : n.Shares cfg junk n := Node.shares_of_eq rfl rfl rfl

theorem Node.Shares.trans (h : n.Shares cfg junk m) (h' : m.Shares cfg junk n') :
    n.Shares cfg junk n' := by
  obtain ⟨k, hstanding, hruns, hledger⟩ := h
  obtain ⟨k', hstanding', hruns', hledger'⟩ := h'
  refine ⟨k' + k, hstanding'.trans hstanding, ?_, ?_⟩
  · rw [hruns', hruns, Nat.add_assoc, Nat.add_comm k]
  · rw [hledger', hledger, hstanding, Function.iterate_add_apply]

/-- Other fields may differ before the executions. -/
theorem Node.Shares.of_start (h : m.Shares cfg junk n') (hstanding : m.standing = n.standing)
    (hruns : m.flow.shareRuns = n.flow.shareRuns) (hledger : m.ledger = n.ledger) :
    n.Shares cfg junk n' := (Node.shares_of_eq hstanding hruns hledger).trans h

omit [DecidableEq α] in
theorem shares_loadEntries : shares (loadEntries cfg n) = 0 := by
  refine congrArg _ (List.filterMap_eq_nil_iff.2 fun e he => ?_)
  unfold loadEntries at he
  split at he
  · cases he
  · obtain ⟨parent, -, rfl⟩ := List.mem_map.1 he
    rfl

theorem ledger_iotoriiHandleLoadTimer : (iotoriiHandleLoadTimer cfg n).ledger = n.ledger := by
  rw [iotoriiHandleLoadTimer_eq, ledger_send, shares_loadEntries, Ledger.send]
  cases cfg.hlmacCast <;> simp [Node.ledger]

theorem shares_iotoriiHandleLoadTimer : n.Shares cfg junk (iotoriiHandleLoadTimer cfg n) := by
  refine Node.shares_of_eq (standing_iotoriiHandleLoadTimer cfg n) ?_ ledger_iotoriiHandleLoadTimer
  rw [flow_iotoriiHandleLoadTimer]

section

omit [DecidableEq α]

theorem dests_parents (n : Node α) :
    Ledger.dests cfg junk n.standing.parents = shareDests cfg junk n := by
  have hparents : n.standing.parents = n.neighbourTable.parents :=
    n.neighbourTable.parents_eq_marks.symm
  unfold Ledger.dests shareDests
  cases cfg.hlmacCast with
  | broadcast => exact hparents
  | unicast => exact congrArg (fun parents => [parents.getLast?.getD junk]) hparents

theorem shares_shareEntries (load : ℤ) : shares (shareEntries cfg junk n load) =
    ((Ledger.dests cfg junk n.standing.parents).map fun dest =>
      (dest, extraLoad load) : List _) := by
  rw [dests_parents, shares, shareEntries, List.filterMap_map]
  exact congrArg _ (List.filterMap_eq_map (f := fun dest => (dest, extraLoad load)) ▸ rfl)

end

theorem ledger_iotoriiHandleShareUpstreamTimer
    (h : iotoriiHandleShareUpstreamTimer cfg junk n = some n') :
    n'.ledger = n.ledger.share cfg junk n.standing.parents := by
  have hparents : n.standing.parents = n.neighbourTable.parents :=
    n.neighbourTable.parents_eq_marks.symm
  rw [iotoriiHandleShareUpstreamTimer_eq] at h
  split at h
  · cases h
  · rename_i node rest hlist
    obtain rfl := Option.some.inj h
    have hloads : n.ledger.loads = node.load :: rest.map (·.load) := by
      rw [Node.ledger, hlist, List.map_cons]
    rw [ledger_send, shares_shareEntries, Ledger.share, hloads]
    refine congrArg (Ledger.send cfg _) (Ledger.ext ?_ (funext fun a => ?_) rfl rfl)
    · rw [Node.ledger, keepShare]
      cases cfg.nodeType <;> rfl
    · rw [hparents]
      exact n.neighbourTable.inOutOf_setParentsInOut _ a

theorem shares_iotoriiHandleShareUpstreamTimer
    (h : iotoriiHandleShareUpstreamTimer cfg junk n = some n') : n.Shares cfg junk n' := by
  refine ⟨1, standing_iotoriiHandleShareUpstreamTimer cfg h, ?_,
    ledger_iotoriiHandleShareUpstreamTimer h⟩
  rw [flow_iotoriiHandleShareUpstreamTimer cfg h]

theorem shares_sendLoadAndShare (h : sendLoadAndShare cfg junk n = some n') :
    n.Shares cfg junk n' := by
  obtain ⟨m, hm, rfl⟩ := Option.map_eq_some_iff.1 h
  exact (shares_iotoriiHandleLoadTimer.trans (shares_iotoriiHandleShareUpstreamTimer hm)).trans
    (Node.shares_of_eq rfl rfl rfl)

theorem shares_sendLoadWhenDone : n.Shares cfg junk (sendLoadWhenDone cfg n) := by
  unfold sendLoadWhenDone
  split
  · exact shares_iotoriiHandleLoadTimer.trans (Node.shares_of_eq rfl rfl rfl)
  · exact .refl n

theorem shares_sendShareWhenDone (h : sendShareWhenDone cfg junk n = some n') :
    n.Shares cfg junk n' := by
  unfold sendShareWhenDone at h
  split at h
  · obtain ⟨m, hm, rfl⟩ := Option.map_eq_some_iff.1 h
    exact (shares_iotoriiHandleShareUpstreamTimer hm).trans (Node.shares_of_eq rfl rfl rfl)
  · obtain rfl := Option.some.inj h
    exact .refl n

theorem shares_sendWhenDone (h : sendWhenDone cfg junk n = some n') : n.Shares cfg junk n' :=
  shares_sendLoadWhenDone.trans (shares_sendShareWhenDone h)

theorem shares_becomeEdge (h : becomeEdge cfg junk n = some n') : n.Shares cfg junk n' := by
  unfold becomeEdge at h
  split at h
  · exact (shares_sendLoadAndShare h).of_start rfl rfl rfl
  · obtain rfl := Option.some.inj h
    exact .refl n

theorem shares_iotoriiHandleStatisticTimer (h : iotoriiHandleStatisticTimer cfg junk n = some n') :
    n.Shares cfg junk n' := by
  unfold iotoriiHandleStatisticTimer at h
  split at h
  · obtain rfl := Option.some.inj h
    exact .refl n
  · dsimp only at h
    split at h
    · obtain rfl := Option.some.inj h
      exact Node.shares_of_eq rfl rfl rfl
    · split at h
      · exact (shares_sendLoadAndShare h).of_start rfl rfl rfl
      · obtain rfl := Option.some.inj h
        exact Node.shares_of_eq rfl rfl rfl

/-! ## Receiving -/

theorem ledger_incomingLoad (sender : α) (load : ℤ) :
    (incomingLoad cfg sender load n).ledger = n.ledger := by
  have hset : ∀ n : Node α,
      ({ n with neighbourTable := n.neighbourTable.setLoad sender load } : Node α).ledger =
        n.ledger := fun n => by
    simp only [Node.ledger, NeighbourTable.inOutOf_setLoad]
  have hdone : ∀ n : Node α, (sendLoadWhenDone cfg n).ledger = n.ledger := fun n => by
    unfold sendLoadWhenDone
    split
    · exact ledger_iotoriiHandleLoadTimer
    · rfl
  unfold incomingLoad
  split
  · rfl
  · dsimp only
    split
    · split <;> exact hset n
    · rw [hdone]
      split <;> exact hset n

theorem ledger_takeShare {extra : ℤ} (h : takeShare cfg junk extra n = some n') :
    ∃ k, n'.flow.shareRuns = n.flow.shareRuns + k ∧
      n'.ledger = (Ledger.share cfg junk n.standing.parents)^[k] (n.ledger.take extra) := by
  unfold takeShare at h
  split at h
  · cases h
  · rename_i node rest hlist
    dsimp only at h
    have htake : ({ n with
        nodeList := { node with load := node.load + extra } :: rest
        nHijosShare := n.nHijosShare - 1 } : Node α).ledger = n.ledger.take extra := by
      simp only [Node.ledger, Ledger.take, hlist, List.map_cons, List.modifyHead_cons]
    split at h
    · obtain rfl := Option.some.inj h
      exact ⟨0, rfl, htake⟩
    · split at h
      · obtain ⟨m, hm, rfl⟩ := Option.map_eq_some_iff.1 h
        obtain ⟨k, -, hruns, hledger⟩ := shares_iotoriiHandleShareUpstreamTimer hm
        rw [htake] at hledger
        exact ⟨k, hruns, hledger⟩
      · obtain rfl := Option.some.inj h
        exact ⟨0, rfl, htake⟩

theorem counts_iff {sender : α} {nb : NeighbourTableEntry α}
    (hfind : n.neighbourTable.find sender = some nb) :
    n.flow.Counts n.standing sender ↔ nb.flag = 0 ∧ n.edge = false ∧ n.nHijosShare ≠ 0 := by
  have hflag : n.standing.flagOf sender = some nb.flag := by
    rw [← Node.flagOf_eq_standing, NeighbourTable.flagOf, hfind, Option.map_some]
  rw [Flow.Counts, hflag, Option.some.injEq]
  rfl

theorem not_counts {sender : α} (hfind : n.neighbourTable.find sender = none) :
    ¬ n.flow.Counts n.standing sender := by
  have hflag : n.standing.flagOf sender = none := by
    rw [← Node.flagOf_eq_standing, NeighbourTable.flagOf, hfind, Option.map_none]
  rw [Flow.Counts, hflag]
  exact fun h => Option.some_ne_none _ h.1.symm

theorem ledger_incomingShare {sender : α} {extra : ℤ}
    (h : incomingShare cfg junk sender extra n = some n') :
    ∃ k, n'.flow.shareRuns = n.flow.shareRuns + k ∧
      n'.ledger = ((Ledger.share cfg junk n.standing.parents)^[k]
        (if n.flow.Counts n.standing sender then n.ledger.take extra else n.ledger)).note
          sender extra := by
  have hnote : ∀ m : Node α,
      ({ m with neighbourTable := m.neighbourTable.setInOut sender extra } : Node α).ledger =
        m.ledger.note sender extra := fun m =>
    Ledger.ext rfl (funext fun a => m.neighbourTable.inOutOf_setInOut sender extra a) rfl rfl
  unfold incomingShare at h
  cases hfind : n.neighbourTable.find sender with
  | none =>
      rw [hfind] at h
      obtain rfl := Option.some.inj h
      refine ⟨0, rfl, Ledger.ext ?_ (funext fun a => ?_) ?_ ?_⟩ <;>
        simp only [if_neg (not_counts hfind), Function.iterate_zero, id_eq, Ledger.note]
      split
      · rename_i ha
        subst ha
        have hnone : n.ledger.inOut a = none :=
          n.neighbourTable.inOutOf_eq_none.2 (NeighbourTable.find_eq_none.1 hfind)
        rw [hnone, Option.map_none]
      · rfl
  | some nb =>
      rw [hfind] at h
      obtain ⟨m, hm, rfl⟩ := Option.map_eq_some_iff.1 h
      rw [hnote]
      split at hm
      · rename_i hcount
        rw [if_pos ((counts_iff hfind).2 hcount)]
        obtain ⟨k, hruns, hledger⟩ := ledger_takeShare hm
        exact ⟨k, hruns, congrArg (Ledger.note sender extra) hledger⟩
      · rename_i hcount
        rw [if_neg fun h => hcount ((counts_iff hfind).1 h)]
        obtain rfl := Option.some.inj hm
        exact ⟨0, rfl, rfl⟩

theorem ledger_iotoriiSendSethlmac {addr : HlmacAddr} {sender : α} {timestamp : ℕ}
    (h : iotoriiSendSethlmac cfg env addr sender timestamp n = some n') :
    n'.flow.shareRuns = n.flow.shareRuns ∧
      n'.ledger = n.ledger.draw (drawnLoads cfg env addr sender n.neighbourTable) := by
  have hloads := nodeList_iotoriiSendSethlmac h
  obtain ⟨es, drawn, rfl, hadvert⟩ := iotoriiSendSethlmac_eq_some cfg h
  have hnone : shares es = 0 := by
    refine congrArg _ (List.filterMap_eq_nil_iff.2 fun e he => ?_)
    obtain ⟨assigned, hpayload, -⟩ := (hadvert e he).payload
    rw [PayloadEntry.share, hpayload]
  refine ⟨?_, ?_⟩
  · rw [flow_armStatistic]
    unfold Flow.arm
    split <;> rfl
  · have harm : ∀ m : Node α, (armStatistic cfg m).ledger = m.ledger := fun m => by
      unfold armStatistic
      split <;> rfl
    rw [nodeList_armStatistic] at hloads
    rw [harm]
    refine Ledger.ext hloads rfl ?_ rfl
    rw [Node.ledger, shares_append, hnone, Multiset.add_zero]
    rfl

theorem ledger_storeAddress (cfg : Config α) (n : Node α) (sender : α) (timestamp : ℕ)
    (addr : HlmacAddr) :
    (storeAddress cfg sender timestamp addr n).2.flow.shareRuns = n.flow.shareRuns ∧
      (storeAddress cfg sender timestamp addr n).2.ledger =
        if (n.standing.store cfg sender timestamp addr).1 ∧ n.standing.enters timestamp then
          n.ledger.clear else n.ledger := by
  have henters : ∀ table, entersRound { n with hlmacTable := table } timestamp =
      n.standing.enters timestamp := fun _ => rfl
  have hfst : (n.standing.store cfg sender timestamp addr).1 =
      (hlmactableAdd cfg.hlmacMaxHlmac n.hlmacTable addr timestamp).1 := rfl
  have hround : ∀ m : Node α, (enterRound cfg timestamp m).ledger = m.ledger.clear := by
    intro m
    refine Ledger.ext ?_ ?_ ?_ ?_ <;> unfold enterRound <;> cases cfg.hlmacCast <;>
      simp [Node.ledger, Ledger.clear]
  rw [flow_storeAddress, hfst]
  refine ⟨?_, ?_⟩
  · split
    · unfold Flow.enter
      split <;> rfl
    · rfl
  · simp only [storeAddress]
    by_cases hadd : (hlmactableAdd cfg.hlmacMaxHlmac n.hlmacTable addr timestamp).1 = true
    · simp only [hadd, if_true, true_and, adoptAddress, henters]
      split
      · exact hround _
      · rfl
    · simp only [hadd]
      rfl

theorem ledger_markSender (sender : α) (isAdded : Bool) :
    (markSender sender isAdded n).ledger = n.ledger := by
  simp only [markSender, Node.ledger, NeighbourTable.inOutOf_setFlag]

section

omit [DecidableEq α]

theorem draw_nil (l : Ledger α) : l.draw [] = l :=
  Ledger.ext (List.append_nil _) rfl rfl rfl

/-- Storing an address keeps the addresses of the neighbours. -/
theorem addrs_storeAddress (cfg : Config α) (n : Node α) (sender : α) (timestamp : ℕ)
    (addr : HlmacAddr) :
    (storeAddress cfg sender timestamp addr n).2.neighbourTable.addrs =
      n.neighbourTable.addrs := by
  simp only [storeAddress, adoptAddress, enterRound]
  split
  · split
    · cases cfg.hlmacCast <;> exact n.neighbourTable.addrs_iotoriiNeighboursFlag
    · rfl
  · rfl

end

theorem ledger_takeSethlmac {addr : HlmacAddr} {sender : α} {timestamp : ℕ}
    (h : takeSethlmac cfg env sender timestamp addr n = some n') :
    ∃ k, n'.flow.shareRuns = n.flow.shareRuns + k ∧
      n'.ledger = (Ledger.share cfg env.junk n'.standing.parents)^[k]
        (Ledger.draw (if (n.standing.store cfg sender timestamp addr).1 then
            drawnLoads cfg env addr sender n.neighbourTable else [])
          (if (n.standing.store cfg sender timestamp addr).1 ∧ n.standing.enters timestamp then
            n.ledger.clear else n.ledger)) := by
  have hstore := ledger_storeAddress cfg n sender timestamp addr
  have haddrs := addrs_storeAddress cfg n sender timestamp addr
  have hfst := fst_storeAddress cfg sender timestamp addr n
  unfold takeSethlmac at h
  generalize storeAddress cfg sender timestamp addr n = stored at h hstore haddrs hfst
  obtain ⟨isAdded, m⟩ := stored
  dsimp only at h hstore haddrs hfst
  rw [← hstore.1, ← hstore.2, ← hfst, ← drawnLoads_of_addrs haddrs]
  have hpassed : ∀ m', (if isAdded = true then
      iotoriiSendSethlmac cfg env addr sender timestamp m else some m) = some m' →
      m'.flow.shareRuns = m.flow.shareRuns ∧ m'.ledger = m.ledger.draw
        (if isAdded then drawnLoads cfg env addr sender m.neighbourTable else []) := by
    intro m' hm'
    split at hm'
    · rw [if_pos (by assumption)]
      exact ledger_iotoriiSendSethlmac hm'
    · obtain rfl := Option.some.inj hm'
      rw [if_neg (by assumption)]
      exact ⟨rfl, (draw_nil _).symm⟩
  cases hcast : cfg.hlmacCast with
  | broadcast =>
      rw [hcast] at h
      obtain ⟨m', hm', rfl⟩ := Option.map_eq_some_iff.1 h
      obtain ⟨hruns, hledger⟩ := hpassed m' hm'
      exact ⟨0, hruns, (ledger_markSender sender isAdded).trans hledger⟩
  | unicast =>
      rw [hcast] at h
      obtain ⟨m', hm', h⟩ := Option.bind_eq_some_iff.1 h
      obtain ⟨m'', hm'', h⟩ := Option.bind_eq_some_iff.1 h
      obtain ⟨hruns, hledger⟩ := hpassed m' hm'
      obtain ⟨k, hstanding, hruns', hledger'⟩ :=
        (shares_becomeEdge hm'').trans (shares_sendWhenDone h)
      refine ⟨k, ?_, ?_⟩
      · rw [← hruns]
        exact hruns'
      · have hmark : (countDown (markSender sender isAdded m')).ledger = m'.ledger :=
          ledger_markSender (n := m') sender isAdded
        rw [hledger', hstanding, hmark, hledger]

theorem shares_leaveSethlmac (h : leaveSethlmac cfg env n = some n') :
    n.Shares cfg env.junk n' := by
  unfold leaveSethlmac at h
  split at h
  · obtain rfl := Option.some.inj h
    exact .refl n
  · exact (shares_sendWhenDone h).of_start rfl rfl rfl

theorem ledger_incomingSethlmac {addr : HlmacAddr} {sender : α} {timestamp : ℕ}
    (h : incomingSethlmac cfg env sender timestamp addr n = some n') :
    ∃ k, n'.flow.shareRuns = n.flow.shareRuns + k ∧
      n'.ledger = (Ledger.share cfg env.junk n'.standing.parents)^[k]
        (Ledger.draw (if n.standing.accepts timestamp addr ∧
              (n.standing.store cfg sender timestamp addr).1 then
            drawnLoads cfg env addr sender n.neighbourTable else [])
          (if n.standing.accepts timestamp addr ∧
              (n.standing.store cfg sender timestamp addr).1 ∧ n.standing.enters timestamp then
            n.ledger.clear else n.ledger)) := by
  have haccepts : acceptsSethlmac n timestamp addr = n.standing.accepts timestamp addr := rfl
  have key : ∀ m, (if acceptsSethlmac n timestamp addr = true then
      takeSethlmac cfg env sender timestamp addr n else leaveSethlmac cfg env n) = some m →
      ∃ k, m.flow.shareRuns = n.flow.shareRuns + k ∧
        m.ledger = (Ledger.share cfg env.junk m.standing.parents)^[k]
          (Ledger.draw (if n.standing.accepts timestamp addr ∧
                (n.standing.store cfg sender timestamp addr).1 then
              drawnLoads cfg env addr sender n.neighbourTable else [])
            (if n.standing.accepts timestamp addr ∧
                (n.standing.store cfg sender timestamp addr).1 ∧ n.standing.enters timestamp then
              n.ledger.clear else n.ledger)) := by
    intro m hm
    rw [haccepts] at hm
    split at hm
    · rename_i hacc
      simp only [hacc, true_and]
      exact ledger_takeSethlmac hm
    · rename_i hacc
      obtain ⟨k, hstanding, hruns, hledger⟩ := shares_leaveSethlmac hm
      refine ⟨k, hruns, ?_⟩
      rw [if_neg fun h => hacc h.1, if_neg fun h => hacc h.1, draw_nil, hstanding]
      exact hledger
  unfold incomingSethlmac settleSethlmac at h
  cases htype : cfg.nodeType with
  | root =>
      rw [htype] at h
      obtain ⟨m, hm, rfl⟩ := Option.map_eq_some_iff.1 h
      exact key m hm
  | common =>
      rw [htype] at h
      exact key n' h

theorem storesFrom_sethlmac {sender : α} {timestamp : ℕ} {hlmacPrefix : List UInt8}
    {assigned : List (UInt8 × α)} {s : Standing α} :
    s.storesFrom cfg sender (.sethlmac timestamp hlmacPrefix assigned) = true ↔
      hlmacIsUnspecifiedAddr (iotoriiExtractAddress cfg.linkaddrNodeAddr
        (.sethlmac timestamp hlmacPrefix assigned)) = false ∧
      s.accepts timestamp (iotoriiExtractAddress cfg.linkaddrNodeAddr
        (.sethlmac timestamp hlmacPrefix assigned)) ∧
      (s.store cfg sender timestamp (iotoriiExtractAddress cfg.linkaddrNodeAddr
        (.sethlmac timestamp hlmacPrefix assigned))).1 := by
  simp only [Standing.storesFrom, Bool.and_eq_true, Bool.not_eq_true', and_assoc]

/-- A node joins with an address that it stores, if the timestamp is new to it. -/
theorem joins_sethlmac {sender : α} {timestamp : ℕ} {hlmacPrefix : List UInt8}
    {assigned : List (UInt8 × α)} {s : Standing α} :
    s.joins cfg sender (.sethlmac timestamp hlmacPrefix assigned) = true ↔
      s.storesFrom cfg sender (.sethlmac timestamp hlmacPrefix assigned) = true ∧
        s.enters timestamp := by
  rw [storesFrom_sethlmac]
  simp only [Standing.joins, Bool.and_eq_true, Bool.not_eq_true', and_assoc]

theorem ledger_sethlmac {sender : α} {timestamp : ℕ} {hlmacPrefix : List UInt8}
    {assigned : List (UInt8 × α)} (round : ℕ) (hself : sender ≠ cfg.linkaddrNodeAddr)
    (h : iotoriiOperation cfg env sender (.sethlmac timestamp hlmacPrefix assigned) n = some n') :
    ∃ k, n'.flow.shareRuns = n.flow.shareRuns + k ∧
      n'.ledger = (Ledger.share cfg env.junk n'.standing.parents)^[k]
        (Ledger.draw
          (n.drawn cfg env (.receive sender (.sethlmac timestamp hlmacPrefix assigned) round))
          (if n.standing.joins cfg sender (.sethlmac timestamp hlmacPrefix assigned) then
            n.ledger.clear else n.ledger)) := by
  have hdrawn : n.drawn cfg env (.receive sender (.sethlmac timestamp hlmacPrefix assigned) round) =
      if n.standing.storesFrom cfg sender (.sethlmac timestamp hlmacPrefix assigned) = true then
        drawnLoads cfg env (iotoriiExtractAddress cfg.linkaddrNodeAddr
          (.sethlmac timestamp hlmacPrefix assigned)) sender n.neighbourTable
      else [] := by
    simp only [Node.drawn, Node.Stores, Node.DrawsRecord, drawnLoads, reduceCtorEq, false_or,
      ne_eq, hself, not_false_eq_true, true_and, ite_and]
  rw [hdrawn]
  simp only [iotoriiOperation] at h
  simp only [joins_sethlmac, storesFrom_sethlmac]
  split at h
  · rename_i hspec
    obtain rfl := Option.some.inj h
    have hnot : ¬ hlmacIsUnspecifiedAddr (iotoriiExtractAddress cfg.linkaddrNodeAddr
        (.sethlmac timestamp hlmacPrefix assigned)) = false :=
      fun h => Bool.false_ne_true (h.symm.trans hspec)
    refine ⟨0, rfl, ?_⟩
    rw [if_neg fun h => hnot h.1, if_neg fun h => hnot h.1.1, draw_nil]
    rfl
  · rename_i hspec
    simp only [Bool.eq_false_iff.2 hspec, true_and, and_assoc]
    exact ledger_incomingSethlmac h

theorem ledger_iotoriiHandleIncomingHello (sender : α) :
    (iotoriiHandleIncomingHello sender n).ledger =
      n.ledger.follow (iotoriiHandleIncomingHello sender n).neighbourTable.addrs := by
  unfold iotoriiHandleIncomingHello
  split
  · split
    · refine Ledger.ext rfl (funext fun a => ?_) rfl rfl
      rw [Ledger.follow]
      dsimp only [Node.ledger]
      rw [NeighbourTable.inOutOf_eq_follow, NeighbourTable.inOutOf_setLastHello]
    · rename_i hnew
      exact Ledger.ext rfl (funext fun a => NeighbourTable.inOutOf_add _ hnew rfl a) rfl rfl
  · exact Ledger.ext rfl (funext n.neighbourTable.inOutOf_eq_follow) rfl rfl

/-! ## The timers -/

theorem ledger_iotoriiHandleHelloTimer :
    (iotoriiHandleHelloTimer cfg env n).ledger =
      n.ledger.follow (iotoriiHandleHelloTimer cfg env n).neighbourTable.addrs := by
  have hhello : ∀ round, shares [(⟨.hello, cfg.linkaddrNull, round⟩ : PayloadEntry α)] = 0 :=
    fun _ => rfl
  unfold iotoriiHandleHelloTimer iotoriiCheckNeighboursHello
  refine Ledger.ext ?_ (funext fun a => ?_) ?_ ?_
  · dsimp only
    split <;> split <;> rfl
  · dsimp only
    split <;> split <;> exact NeighbourTable.inOutOf_removeFirst _ _ a
  · dsimp only
    split <;> split <;> rfl
  · dsimp only
    split <;> split <;>
      simp [Node.ledger, Ledger.follow, Node.preparePackets, shares_append, hhello]

theorem ledger_iotoriiHandleSethlmacTimer (h : iotoriiHandleSethlmacTimer cfg env n = some n') :
    n'.ledger = n.ledger.draw (n.drawn cfg env (.timer .sethlmac)) := by
  obtain ⟨m, hm, rfl⟩ := Option.map_eq_some_iff.1 h
  obtain ⟨-, hledger⟩ := ledger_iotoriiSendSethlmac hm
  have hdrawn : n.drawn cfg env (.timer .sethlmac) =
      drawnLoads cfg env (hlmacCreateRootAddr 1) cfg.linkaddrNodeAddr n.neighbourTable := by
    simp only [Node.drawn, Node.DrawsRecord, drawnLoads, true_or, true_and]
  rw [hdrawn]
  have hreset : (resetRoot cfg m).ledger = m.ledger := by
    unfold resetRoot
    cases cfg.hlmacCast <;> simp only [Node.ledger, NeighbourTable.inOutOf_iotoriiNeighboursFlag]
  rw [hreset, hledger]
  rfl

omit [DecidableEq α] in
theorem shares_cons (e : PayloadEntry α) (es : List (PayloadEntry α)) :
    shares (e :: es) = shares [e] + shares es := shares_append [e] es

/-- What is taken off the queue was queued. -/
theorem Node.due_le : n.due ≤ n.ledger.queued := by
  have hsplit : n.ledger.queued = n.due + shares (n.payloadEntryList.drop 1) := by
    rw [Node.due, ← shares_append, List.take_append_drop]
    rfl
  rw [hsplit]
  exact Multiset.le_add_right _ _

omit [DecidableEq α] in
theorem shares_dest (e : PayloadEntry α) (dest : α) :
    shares [{ e with dest := dest }] = (shares [e]).map fun s => (dest, s.2) := by
  obtain ⟨payload, _, _⟩ := e
  cases payload <;> rfl

theorem ledger_iotoriiHandleSendMessageTimer {csma : CsmaOutcome}
    (h : iotoriiHandleSendMessageTimer cfg csma n = some n') :
    n'.ledger = n.ledger.transmit cfg csma n.due := by
  unfold iotoriiHandleSendMessageTimer at h
  cases hlist : n.payloadEntryList with
  | nil =>
      rw [hlist] at h
      cases h
  | cons entry rest =>
      rw [hlist] at h
      have hdue : n.due = shares [entry] := by
        rw [Node.due, hlist]
        rfl
      have hrest : n.ledger.queued - shares [entry] = shares rest := by
        rw [Node.ledger, hlist, shares_cons, Multiset.add_comm, Multiset.add_sub_cancel_right]
      rw [hdue]
      unfold Ledger.transmit
      cases hcast : cfg.hlmacCast with
      | broadcast =>
          rw [hcast] at h
          obtain rfl := Option.some.inj h
          refine Ledger.ext rfl rfl hrest.symm ?_
          dsimp only [Node.ledger]
          split
          · rfl
          · rw [shares_append, shares_dest]
      | unicast =>
          rw [hcast] at h
          cases csma with
          | scheduled =>
              obtain rfl := Option.some.inj h
              exact Ledger.ext rfl rfl hrest.symm (shares_append _ _)
          | behind =>
              obtain rfl := Option.some.inj h
              exact Ledger.ext rfl rfl (congrArg shares hlist).symm (shares_append _ _)
          | refused =>
              obtain rfl := Option.some.inj h
              exact Ledger.ext rfl rfl (congrArg shares hlist).symm rfl

/-! ## One event -/

/-- A number of executions that the flow of the node counts. -/
theorem iterate_shareRuns {k : ℕ} {e : Event α} (h : Node.step cfg env e n = some n')
    (hruns : n'.flow.shareRuns = n.flow.shareRuns + k) :
    (n.flow.step cfg n.standing (!n.ledger.loads.isEmpty) e).shareRuns - n.flow.shareRuns = k := by
  have hlisted : n.ledger.loads.isEmpty = n.nodeList.isEmpty := List.isEmpty_map
  rw [hlisted, ← flow_step cfg env h, hruns, Nat.add_sub_cancel_left]

/-- Every event takes the ledger of the node to the next ledger. -/
theorem ledger_step {e : Event α} (h : Node.step cfg env e n = some n') :
    n'.ledger =
      n.ledger.step cfg env.junk (n.drawn cfg env e) n.due n.standing n.flow e := by
  have hstanding := standing_step cfg env h
  have haddrs : (n.standing.step cfg e).addrs = n'.neighbourTable.addrs := by
    rw [← hstanding]
    exact n'.neighbourTable.addrs_eq_marks.symm
  have hruns : ∀ k, n'.flow.shareRuns = n.flow.shareRuns + k →
      (n.flow.step cfg n.standing (!n.ledger.loads.isEmpty) e).shareRuns - n.flow.shareRuns = k :=
    fun k => iterate_shareRuns h
  unfold Ledger.step
  cases e with
  | timer t =>
      cases t with
      | hello =>
          simp only [Node.step, Node.expire, Option.ite_none_right_eq_some,
            Option.some.injEq] at h
          obtain ⟨-, rfl⟩ := h
          dsimp only
          rw [haddrs]
          exact ledger_iotoriiHandleHelloTimer
      | sethlmac =>
          simp only [Node.step, Node.expire, Option.ite_none_right_eq_some] at h
          have hledger := ledger_iotoriiHandleSethlmacTimer h.2
          exact hledger
      | sendMessage csma =>
          simp only [Node.step, Node.expire, Option.ite_none_right_eq_some] at h
          exact ledger_iotoriiHandleSendMessageTimer h.2
      | statistic =>
          simp only [Node.step, Node.expire, Option.ite_none_right_eq_some] at h
          obtain ⟨k, hsame, hcount, hledger⟩ := shares_iotoriiHandleStatisticTimer h.2
          dsimp only
          rw [hruns k hcount, ← hstanding, hsame]
          exact hledger
  | receive sender message round =>
      simp only [Node.step] at h
      split at h
      · rename_i hself
        dsimp only
        rw [if_pos hself, Option.some.inj h]
      · rename_i hself
        simp only [if_neg hself]
        cases message with
        | hello =>
            obtain rfl := Option.some.inj h
            dsimp only
            rw [haddrs]
            exact ledger_iotoriiHandleIncomingHello sender
        | load load =>
            obtain rfl := Option.some.inj h
            exact ledger_incomingLoad sender load
        | share extra =>
            obtain ⟨k, hcount, hledger⟩ := ledger_incomingShare h
            have hsame : n.standing.step cfg (.receive sender (.share extra) round) = n.standing :=
              if_neg hself
            dsimp only
            rw [hruns k hcount, hsame]
            exact hledger
        | sethlmac timestamp hlmacPrefix assigned =>
            obtain ⟨k, hcount, hledger⟩ := ledger_sethlmac round hself h
            dsimp only
            rw [hruns k hcount, ← hstanding]
            exact hledger

end Step

/-! ## The flow of one neighbour -/

namespace Ledger

variable {cfg : Config α} {junk : α} {parents : List α} {l : Ledger α} {a : α}

omit [DecidableEq α] in
theorem inOut_send (es : Multiset (α × ℤ)) : (l.send cfg es).inOut = l.inOut := by
  unfold send
  split <;> rfl

/-- A share changes only the flows of the parents. -/
theorem inOut_share (ha : a ∉ parents) : (l.share cfg junk parents).inOut a = l.inOut a := by
  unfold share
  split
  · rfl
  · rw [inOut_send]
    exact if_neg ha

theorem inOut_shareRuns {k : ℕ} (ha : 0 < k → a ∉ parents) :
    ((share cfg junk parents)^[k] l).inOut a = l.inOut a := by
  induction k with
  | zero => rfl
  | succ k ih =>
      rw [Function.iterate_succ_apply', inOut_share (ha k.succ_pos)]
      exact ih fun _ => ha k.succ_pos

theorem inOut_note (sender : α) (extra : ℤ) {r : ℤ} (hr : l.inOut a = some r) :
    (l.note sender extra).inOut a =
      some (if a = sender ∧ extra ≠ 0 ∧ r = 0 then extra else r) := by
  by_cases hsender : a = sender
  · subst hsender
    simp [note, hr]
  · simp [note, hr, hsender]

theorem inOut_follow {addrs : List α} (ha : a ∈ addrs) {r : ℤ} (hr : l.inOut a = some r) :
    (l.follow addrs).inOut a = some r := by
  rw [follow]
  exact (if_pos ha).trans (congrArg (fun x : Option ℤ => some (x.getD 0)) hr)

end Ledger

/-- The SHARE that an event delivers. -/
def Event.share (cfg : Config α) (e : Event α) : Option (α × ℤ) :=
  match e with
  | .receive sender (.share extra) _ =>
      if sender = cfg.linkaddrNodeAddr then none else some (sender, extra)
  | _ => none

/-- The flow of a neighbour that stays in the table changes when a SHARE of it is
received and none is recorded, and when the node shares with it as a parent. -/
theorem inOut_step {cfg : Config α} {env : Env α} {n n' : Node α} {e : Event α} {a : α} {r : ℤ}
    (h : Node.step cfg env e n = some n') (hr : n.ledger.inOut a = some r)
    (hmem : a ∈ n'.standing.addrs)
    (hparent : n.flow.shareRuns < n'.flow.shareRuns → n'.standing.flagOf a ≠ some 1) :
    n'.ledger.inOut a = some (match e.share cfg with
      | some (sender, extra) => if a = sender ∧ extra ≠ 0 ∧ r = 0 then extra else r
      | none => r) := by
  have hledger := ledger_step h
  have hstanding := standing_step cfg env h
  have hparents : n'.standing.parents = n'.neighbourTable.parents :=
    n'.neighbourTable.parents_eq_marks.symm
  -- a share leaves the flow of `a` alone
  have hshare : ∀ l : Ledger α,
      ((Ledger.share cfg env.junk (n.standing.step cfg e).parents)^[
        (n.flow.step cfg n.standing (!n.ledger.loads.isEmpty) e).shareRuns - n.flow.shareRuns]
          l).inOut a = l.inOut a := by
    intro l
    refine Ledger.inOut_shareRuns fun hpos => ?_
    rw [← hstanding, hparents, n'.neighbourTable.mem_parents, Node.flagOf_eq_standing]
    refine hparent ?_
    have hlisted : n.ledger.loads.isEmpty = n.nodeList.isEmpty := List.isEmpty_map
    rw [hlisted, ← flow_step cfg env h] at hpos
    exact Nat.lt_of_sub_pos hpos
  rw [hstanding] at hmem
  rw [hledger]
  unfold Ledger.step Event.share
  cases e with
  | timer t =>
      cases t with
      | hello => exact Ledger.inOut_follow hmem hr
      | sethlmac => exact hr
      | sendMessage csma =>
          refine Eq.trans (congrFun ?_ a) hr
          unfold Ledger.transmit
          dsimp only
          split
          · rfl
          · split <;> rfl
      | statistic => exact (hshare _).trans hr
  | receive sender message round =>
      dsimp only
      by_cases hself : sender = cfg.linkaddrNodeAddr
      · rw [if_pos hself]
        cases message <;> simp only [hself, if_true, hr]
      · rw [if_neg hself]
        cases message with
        | hello => exact Ledger.inOut_follow hmem hr
        | load load => exact hr
        | share extra =>
            simp only [if_neg hself]
            refine Ledger.inOut_note sender extra ((hshare _).trans ?_)
            split <;> exact hr
        | sethlmac timestamp hlmacPrefix assigned =>
            refine (hshare _).trans ?_
            split <;> exact hr

/-! ## The values of the SHAREs -/

/-- A 16-bit value. -/
def IsShort (x : ℤ) : Prop := -32768 ≤ x ∧ x < 32768

theorem isShort_toShort (x : ℤ) : IsShort (toShort x) :=
  ⟨Int.le_bmod (by decide), Int.bmod_lt (by decide)⟩

theorem isShort_extraLoad (load : ℤ) : IsShort (extraLoad load) := by
  unfold extraLoad
  split
  · exact isShort_toShort _
  · split <;> exact isShort_toShort _

theorem toShort_of_isShort {x : ℤ} (h : IsShort x) : toShort x = x :=
  Int.bmod_eq_of_le (by simpa using h.1) (by simpa using h.2)

/-- Every SHARE that waits has a 16-bit value. -/
def Ledger.Short (l : Ledger α) : Prop := ∀ s ∈ l.queued + l.posted, IsShort s.2

namespace Ledger

variable {cfg : Config α} {junk : α} {parents : List α} {l : Ledger α}

omit [DecidableEq α] in
theorem Short.send {es : Multiset (α × ℤ)} (h : l.Short) (hes : ∀ s ∈ es, IsShort s.2) :
    (l.send cfg es).Short := by
  intro s hs
  have hmem : s ∈ l.queued + l.posted ∨ s ∈ es := by
    unfold Ledger.send at hs
    split at hs <;> simp only [Multiset.mem_add] at hs ⊢ <;> tauto
  exact hmem.elim (h s) (hes s)

theorem Short.share (h : l.Short) : (l.share cfg junk parents).Short := by
  unfold Ledger.share
  split
  · exact h
  · refine Short.send h fun s hs => ?_
    obtain ⟨dest, -, rfl⟩ := List.mem_map.1 (Multiset.mem_coe.1 hs)
    exact isShort_extraLoad _

theorem Short.shareRuns {k : ℕ} (h : l.Short) : ((Ledger.share cfg junk parents)^[k] l).Short := by
  induction k with
  | zero => exact h
  | succ k ih =>
      rw [Function.iterate_succ_apply']
      exact ih.share

theorem Short.transmit {csma : CsmaOutcome} {moved : Multiset (α × ℤ)} (h : l.Short)
    (hmoved : moved ≤ l.queued) : (l.transmit cfg csma moved).Short := by
  have hqueued : ∀ s ∈ l.queued, IsShort s.2 := fun s hs => h s (Multiset.mem_add.2 (.inl hs))
  have hposted : ∀ s ∈ l.posted, IsShort s.2 := fun s hs => h s (Multiset.mem_add.2 (.inr hs))
  have hsub : ∀ s ∈ l.queued - moved, IsShort s.2 := fun s hs =>
    hqueued s (Multiset.mem_of_le (Multiset.sub_le_self _ _) hs)
  have hnew : ∀ s ∈ moved, IsShort s.2 := fun s hs => hqueued s (Multiset.mem_of_le hmoved hs)
  have hnull : ∀ s ∈ moved.map fun s => (cfg.linkaddrNull, s.2), IsShort s.2 := by
    intro s hs
    obtain ⟨s', hs', rfl⟩ := Multiset.mem_map.1 hs
    exact hnew s' hs'
  intro s hs
  unfold Ledger.transmit at hs
  split at hs
  · split at hs <;> simp only [Multiset.mem_add] at hs
    · exact hs.elim (hsub s) (hposted s)
    · exact hs.elim (hsub s) fun hs => hs.elim (hposted s) (hnull s)
  · split at hs <;> simp only [Multiset.mem_add] at hs
    · exact hs.elim (hsub s) fun hs => hs.elim (hposted s) (hnew s)
    · exact hs.elim (hqueued s) fun hs => hs.elim (hposted s) (hnew s)
    · exact hs.elim (hqueued s) (hposted s)

end Ledger

/-- What a node sends as a SHARE has 16 bits. -/
theorem short_step {cfg : Config α} {env : Env α} {n n' : Node α} {e : Event α}
    (h : Node.step cfg env e n = some n') (hshort : n.ledger.Short) : n'.ledger.Short := by
  have hledger := ledger_step h
  rw [hledger]
  unfold Ledger.step
  cases e with
  | timer t =>
      cases t with
      | hello => exact hshort
      | sethlmac => exact hshort
      | sendMessage csma => exact hshort.transmit Node.due_le
      | statistic => exact hshort.shareRuns
  | receive sender message round =>
      dsimp only
      split
      · exact hshort
      · cases message with
        | hello => exact hshort
        | load load => exact hshort
        | share extra =>
            have hnote : ∀ l : Ledger α, l.Short → (l.note sender extra).Short := fun _ hl => hl
            refine hnote _ (Ledger.Short.shareRuns ?_)
            split <;> exact hshort
        | sethlmac timestamp hlmacPrefix assigned =>
            refine Ledger.Short.shareRuns ?_
            split <;> exact hshort

end Den2ne
