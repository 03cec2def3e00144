import Den2ne.Node.Energy

/-!
# The length of the list of records

An event changes the number of records only where it draws one or enters a round
(`length_nodeList_step`), and the handler of SHAREs, which dereferences the first
record, needs one (`nodeList_of_runsShare`).
-/

namespace Den2ne

variable {α : Type*} [DecidableEq α]

namespace Node

/-- The event empties the list of records. -/
def Drops (cfg : Config α) (e : Event α) (n : Node α) : Prop :=
  match e with
  | .receive sender message _ =>
      sender ≠ cfg.linkaddrNodeAddr ∧ n.standing.joins cfg sender message = true
  | _ => False

instance (cfg : Config α) (n : Node α) : ∀ e : Event α, Decidable (n.Drops cfg e)
  | .timer _ => inferInstanceAs (Decidable False)
  | .receive _ _ _ => inferInstanceAs (Decidable (_ ∧ _))

/-- The SHARE branch passes its guard. -/
def PassesGuard (cfg : Config α) (e : Event α) (n : Node α) : Prop :=
  match e with
  | .receive sender (.share _) _ =>
      sender ≠ cfg.linkaddrNodeAddr ∧ n.flow.Counts n.standing sender
  | _ => False

instance (cfg : Config α) (n : Node α) : ∀ e : Event α, Decidable (n.PassesGuard cfg e)
  | .receive _ (.share _) _ => inferInstanceAs (Decidable (_ ∧ _))
  | .timer _ | .receive _ .hello _ | .receive _ (.load _) _ | .receive _ (.sethlmac _ _ _) _ =>
      inferInstanceAs (Decidable False)

/-- The message is a SetHLMAC that names the node. -/
def Named (cfg : Config α) (e : Event α) : Prop :=
  match e with
  | .receive sender message _ => sender ≠ cfg.linkaddrNodeAddr ∧
      hlmacIsUnspecifiedAddr (iotoriiExtractAddress cfg.linkaddrNodeAddr message) = false
  | _ => False

instance (cfg : Config α) : ∀ e : Event α, Decidable (Named cfg e)
  | .timer _ => inferInstanceAs (Decidable False)
  | .receive _ _ _ => inferInstanceAs (Decidable (_ ∧ _))

end Node

section Drops

variable {cfg : Config α}

/-- Only a stored address drops records. -/
theorem stores_of_drops {n : Node α} {e : Event α} (h : n.Drops cfg e) : n.Stores cfg e := by
  cases e with
  | timer t => exact h.elim
  | receive sender message round =>
      cases message with
      | sethlmac timestamp hlmacPrefix assigned => exact ⟨h.1, (joins_sethlmac.1 h.2).1⟩
      | hello => exact absurd h.2 Bool.false_ne_true
      | load load => exact absurd h.2 Bool.false_ne_true
      | share extra => exact absurd h.2 Bool.false_ne_true

end Drops

namespace Ledger

variable {cfg : Config α} {junk : α} {parents : List α} {l : Ledger α}

theorem length_share : (l.share cfg junk parents).loads.length = l.loads.length := by
  unfold share
  split
  · rfl
  · rename_i hloads
    rw [loads_send, hloads]
    rfl

theorem length_shareRuns (k : ℕ) :
    ((share cfg junk parents)^[k] l).loads.length = l.loads.length := by
  induction k with
  | zero => rfl
  | succ k ih => rw [Function.iterate_succ_apply', length_share, ih]

end Ledger

/-- Only an advertisement makes a record, and only a new round drops the old ones. -/
theorem length_nodeList_step {cfg : Config α} {env : Env α} {e : Event α} {n n' : Node α}
    (h : Node.step cfg env e n = some n') :
    n'.nodeList.length =
      (if n.Drops cfg e then 0 else n.nodeList.length) + (n.drawn cfg env e).length := by
  have hledger := congrArg (fun l : Ledger α => l.loads.length) (ledger_step h)
  have hlength : ∀ n : Node α, n.ledger.loads.length = n.nodeList.length := fun n => by
    rw [Node.ledger_loads, List.length_map]
  rw [hlength] at hledger
  rw [hledger]
  unfold Ledger.step
  cases e with
  | timer t =>
      have hdrops : ¬ n.Drops cfg (.timer t) := id
      rw [if_neg hdrops]
      cases t with
      | hello => exact hlength n
      | sethlmac =>
          simp only [Ledger.draw, List.length_append, hlength]
      | sendMessage csma =>
          dsimp only
          rw [Ledger.loads_transmit]
          exact hlength n
      | statistic =>
          dsimp only
          rw [Ledger.length_shareRuns]
          exact hlength n
  | receive sender message round =>
      dsimp only
      by_cases hself : sender = cfg.linkaddrNodeAddr
      · simp [hself, hlength, Node.Drops, Node.drawn, Node.Stores]
      · rw [if_neg hself]
        cases message with
        | hello =>
            simp [Node.Drops, Standing.joins, Node.drawn, Node.Stores, Standing.storesFrom,
              Ledger.follow, hlength]
        | load load =>
            simp [Node.Drops, Standing.joins, Node.drawn, Node.Stores, Standing.storesFrom,
              hlength]
        | share extra =>
            have htake : (n.ledger.take extra).loads.length = n.ledger.loads.length :=
              List.length_modifyHead
            dsimp only
            rw [Ledger.note, Ledger.length_shareRuns]
            simp only [Node.Drops, Standing.joins, Node.drawn, Node.Stores, Standing.storesFrom]
            split <;> simp [hlength, htake]
        | sethlmac timestamp hlmacPrefix assigned =>
            dsimp only
            rw [Ledger.length_shareRuns, Ledger.draw, List.length_append]
            simp only [Node.Drops, ne_eq, hself, not_false_eq_true, true_and]
            split
            · rfl
            · rw [hlength]

/-! ## Executions of the handler of SHAREs -/

namespace Flow

variable {cfg : Config α} {s : Standing α} {sender : α}

theorem shareRuns_load (f : Flow α) : (f.load cfg s sender).shareRuns = f.shareRuns := by
  have hdone : ∀ f : Flow α, f.loadWhenDone.shareRuns = f.shareRuns := fun f => by
    unfold loadWhenDone
    split <;> rfl
  unfold load
  dsimp only
  cases cfg.nodeType with
  | root => exact (apply_ite shareRuns _ _ _).trans (ite_self _)
  | common => exact (hdone _).trans ((apply_ite shareRuns _ _ _).trans (ite_self _))

/-- A SHARE that does not pass the guard is of no effect. -/
theorem shareRuns_share {f : Flow α} (h : ¬ f.Counts s sender) :
    (f.share cfg s sender).shareRuns = f.shareRuns := by
  exact congrArg shareRuns (if_neg h)

end Flow

section Runs

variable {cfg : Config α} {env : Env α} {junk : α} {n m n' : Node α}

theorem Node.ledger_loads_eq_nil : n.ledger.loads = [] ↔ n.nodeList = [] := by
  rw [Node.ledger_loads, List.map_eq_nil_iff]

/-- Executions of the handler make and drop no record. -/
theorem Node.Shares.nodeList_eq_nil (h : n.Shares cfg junk n') :
    n'.nodeList = [] ↔ n.nodeList = [] := by
  obtain ⟨k, -, -, hledger⟩ := h
  rw [← Node.ledger_loads_eq_nil, ← Node.ledger_loads_eq_nil, hledger, ← List.length_eq_zero_iff,
    Ledger.length_shareRuns, List.length_eq_zero_iff]

/-- Executions that find a record. -/
structure Node.RunsListed (cfg : Config α) (junk : α) (n n' : Node α) : Prop where
  shares : n.Shares cfg junk n'
  listed : n.flow.shareRuns < n'.flow.shareRuns → n.nodeList ≠ []

theorem Node.RunsListed.of_shareRuns (h : n.Shares cfg junk n')
    (hruns : n'.flow.shareRuns = n.flow.shareRuns) : n.RunsListed cfg junk n' :=
  ⟨h, fun hlt => absurd hlt (by omega)⟩

theorem Node.RunsListed.refl (n : Node α) : n.RunsListed cfg junk n :=
  .of_shareRuns (.refl n) rfl

theorem Node.RunsListed.trans (h : n.RunsListed cfg junk m) (h' : m.RunsListed cfg junk n') :
    n.RunsListed cfg junk n' := by
  refine ⟨h.shares.trans h'.shares, fun hlt hnil => ?_⟩
  by_cases hfirst : n.flow.shareRuns < m.flow.shareRuns
  · exact h.listed hfirst hnil
  · exact h'.listed (by omega) (h.shares.nodeList_eq_nil.2 hnil)

/-- The list is not empty afterwards either. -/
theorem Node.RunsListed.nodeList (h : n.RunsListed cfg junk n')
    (hruns : n.flow.shareRuns < n'.flow.shareRuns) : n'.nodeList ≠ [] :=
  fun hnil => h.listed hruns (h.shares.nodeList_eq_nil.1 hnil)

omit [DecidableEq α] in
theorem nodeList_of_shareUpstreamTimer
    (h : iotoriiHandleShareUpstreamTimer cfg junk n = some n') : n.nodeList ≠ [] := by
  intro hnil
  unfold iotoriiHandleShareUpstreamTimer at h
  rw [hnil] at h
  cases h

theorem runsListed_sendLoadAndShare (h : sendLoadAndShare cfg junk n = some n') :
    n.RunsListed cfg junk n' := by
  refine ⟨shares_sendLoadAndShare h, fun _ hnil => ?_⟩
  obtain ⟨m, hm, -⟩ := Option.map_eq_some_iff.1 h
  have hload : n.Shares cfg junk (iotoriiHandleLoadTimer cfg n) := shares_iotoriiHandleLoadTimer
  exact nodeList_of_shareUpstreamTimer hm (hload.nodeList_eq_nil.2 hnil)

theorem runsListed_sendWhenDone (h : sendWhenDone cfg junk n = some n') :
    n.RunsListed cfg junk n' := by
  have hload : n.RunsListed cfg junk (sendLoadWhenDone cfg n) := by
    refine .of_shareRuns shares_sendLoadWhenDone ?_
    rw [flow_sendLoadWhenDone]
    unfold Flow.loadWhenDone
    split <;> rfl
  refine hload.trans ⟨shares_sendShareWhenDone h, fun hlt => ?_⟩
  unfold sendWhenDone sendShareWhenDone at h
  split at h
  · obtain ⟨m, hm, -⟩ := Option.map_eq_some_iff.1 h
    exact nodeList_of_shareUpstreamTimer hm
  · rw [Option.some.inj h] at hlt
    exact absurd hlt (Nat.lt_irrefl _)

theorem runsListed_becomeEdge (h : becomeEdge cfg junk n = some n') :
    n.RunsListed cfg junk n' := by
  unfold becomeEdge at h
  split at h
  · have hedge := runsListed_sendLoadAndShare h
    exact ⟨hedge.shares.of_start rfl rfl rfl, hedge.listed⟩
  · obtain rfl := Option.some.inj h
    exact .refl n

theorem nodeList_of_takeSethlmac {addr : HlmacAddr} {sender : α} {timestamp : ℕ}
    (hcast : cfg.hlmacCast = .unicast) (h : takeSethlmac cfg env sender timestamp addr n = some n')
    (hruns : n.flow.shareRuns < n'.flow.shareRuns) : n'.nodeList ≠ [] := by
  have hstore := (ledger_storeAddress cfg n sender timestamp addr).1
  unfold takeSethlmac at h
  generalize storeAddress cfg sender timestamp addr n = stored at h hstore
  obtain ⟨isAdded, m⟩ := stored
  rw [hcast] at h
  obtain ⟨m', hm', h⟩ := Option.bind_eq_some_iff.1 h
  obtain ⟨m'', hm'', h⟩ := Option.bind_eq_some_iff.1 h
  have hpassed : m'.flow.shareRuns = m.flow.shareRuns := by
    split at hm'
    · exact (ledger_iotoriiSendSethlmac hm').1
    · rw [← Option.some.inj hm']
  refine ((runsListed_becomeEdge hm'').trans (runsListed_sendWhenDone h)).nodeList ?_
  have hmark : (countDown (markSender sender isAdded m')).flow.shareRuns = m'.flow.shareRuns := rfl
  rw [hmark, hpassed, hstore]
  exact hruns

theorem nodeList_of_incomingSethlmac {addr : HlmacAddr} {sender : α} {timestamp : ℕ}
    (hcast : cfg.hlmacCast = .unicast)
    (h : incomingSethlmac cfg env sender timestamp addr n = some n')
    (hruns : n.flow.shareRuns < n'.flow.shareRuns) : n'.nodeList ≠ [] := by
  have key : ∀ m, (if acceptsSethlmac n timestamp addr = true then
      takeSethlmac cfg env sender timestamp addr n else leaveSethlmac cfg env n) = some m →
      n.flow.shareRuns < m.flow.shareRuns → m.nodeList ≠ [] := by
    intro m hm hlt
    split at hm
    · exact nodeList_of_takeSethlmac hcast hm hlt
    · unfold leaveSethlmac at hm
      rw [hcast] at hm
      exact (runsListed_sendWhenDone hm).nodeList hlt
  unfold incomingSethlmac settleSethlmac at h
  cases htype : cfg.nodeType with
  | root =>
      rw [htype] at h
      obtain ⟨m, hm, rfl⟩ := Option.map_eq_some_iff.1 h
      exact key m hm hruns
  | common =>
      rw [htype] at h
      exact key n' h hruns

/-- A SHARE that passes the guard is added to the first record. -/
theorem nodeList_of_incomingShare {sender : α} {extra : ℤ}
    (h : incomingShare cfg junk sender extra n = some n') (hcounts : n.flow.Counts n.standing sender) :
    n.nodeList ≠ [] := by
  intro hnil
  unfold incomingShare at h
  cases hfind : n.neighbourTable.find sender with
  | none => exact not_counts hfind hcounts
  | some nb =>
      rw [hfind] at h
      obtain ⟨m, hm, -⟩ := Option.map_eq_some_iff.1 h
      rw [if_pos ((counts_iff hfind).1 hcounts), takeShare, hnil] at hm
      cases hm

theorem not_drops_of_passesGuard {e : Event α} (hguard : n.PassesGuard cfg e) :
    ¬ n.Drops cfg e := by
  intro hdrops
  cases e with
  | timer t => exact hguard
  | receive sender message round =>
      cases message with
      | share extra => exact Bool.false_ne_true hdrops.2
      | hello => exact hguard
      | load load => exact hguard
      | sethlmac timestamp hlmacPrefix assigned => exact hguard

theorem nodeList_of_passesGuard {e : Event α} (h : Node.step cfg env e n = some n')
    (hguard : n.PassesGuard cfg e) : n.nodeList ≠ [] := by
  cases e with
  | timer t => exact hguard.elim
  | receive sender message round =>
      cases message with
      | share extra =>
          rw [Node.step, if_neg hguard.1] at h
          exact fun hnil => nodeList_of_incomingShare h hguard.2 hnil
      | hello => exact hguard.elim
      | load load => exact hguard.elim
      | sethlmac timestamp hlmacPrefix assigned => exact hguard.elim

/-- The events that make the node execute the handler of SHAREs. -/
theorem runsShare_cases {e : Event α} (h : n.RunsShare cfg e) :
    e = .timer .statistic ∧ n.nodeList ≠ [] ∨ n.PassesGuard cfg e ∨
      cfg.hlmacCast = .unicast ∧ Node.Named cfg e := by
  unfold Node.RunsShare at h
  cases e with
  | timer t =>
      cases t with
      | hello => exact absurd h (Nat.lt_irrefl _)
      | sethlmac =>
          simp only [Flow.step, Flow.startRound] at h
          split at h <;> exact absurd h (Nat.lt_irrefl _)
      | sendMessage csma => exact absurd h (Nat.lt_irrefl _)
      | statistic =>
          refine .inl ⟨rfl, fun hnil => ?_⟩
          rw [hnil] at h
          exact Nat.lt_irrefl _ h
  | receive sender message round =>
      refine .inr ?_
      by_cases hself : sender = cfg.linkaddrNodeAddr
      · simp [Flow.step, hself] at h
      · have hreceive := h
        simp only [Flow.step, if_neg hself] at hreceive
        cases message with
        | hello => exact absurd hreceive (Nat.lt_irrefl _)
        | load load =>
            refine absurd hreceive ?_
            simp only [Flow.receive]
            split
            · rw [Flow.shareRuns_load]
              exact Nat.lt_irrefl _
            · exact Nat.lt_irrefl _
        | share extra =>
            refine .inl ⟨hself, Decidable.byContradiction fun hnot => ?_⟩
            exact Nat.ne_of_gt hreceive (Flow.shareRuns_share hnot)
        | sethlmac timestamp hlmacPrefix assigned =>
            refine .inr ?_
            cases hcast : cfg.hlmacCast with
            | broadcast =>
                rw [Flow.shareRuns_sethlmac hcast] at h
                exact absurd h (Nat.lt_irrefl _)
            | unicast =>
                refine ⟨rfl, hself, Bool.eq_false_iff.2 fun hspec => ?_⟩
                simp only [Flow.receive, if_pos hspec] at hreceive
                exact Nat.lt_irrefl _ hreceive

/-- An event that leaves as many records as there were, or more, leaves one if there
was one. -/
theorem nodeList_of_not_drops {e : Event α} (h : Node.step cfg env e n = some n')
    (hdrops : ¬ n.Drops cfg e) (hne : n.nodeList ≠ []) : n'.nodeList ≠ [] := by
  have hlength := length_nodeList_step h
  rw [if_neg hdrops] at hlength
  have hpos := List.length_pos_iff.2 hne
  exact List.length_pos_iff.1 (by omega)

/-- The handler of SHAREs dereferences the first record: an event whose handlers reach
it and end leaves a record. -/
theorem nodeList_of_runsShare {e : Event α} (h : Node.step cfg env e n = some n')
    (hruns : n.RunsShare cfg e) : n'.nodeList ≠ [] := by
  rcases runsShare_cases hruns with ⟨rfl, hne⟩ | hguard | ⟨hcast, hnamed⟩
  · exact nodeList_of_not_drops h id hne
  · exact nodeList_of_not_drops h (not_drops_of_passesGuard hguard)
      (nodeList_of_passesGuard h hguard)
  · unfold Node.RunsShare at hruns
    rw [← flow_step cfg env h] at hruns
    cases e with
    | timer t => exact hnamed.elim
    | receive sender message round =>
        rw [Node.step, if_neg hnamed.1] at h
        cases message with
        | sethlmac timestamp hlmacPrefix assigned =>
            simp only [iotoriiOperation] at h
            rw [if_neg (Bool.eq_false_iff.1 hnamed.2)] at h
            exact nodeList_of_incomingSethlmac hcast h hruns
        | hello => exact absurd hnamed.2.symm Bool.false_ne_true
        | load load => exact absurd hnamed.2.symm Bool.false_ne_true
        | share extra => exact absurd hnamed.2.symm Bool.false_ne_true

end Runs

end Den2ne
