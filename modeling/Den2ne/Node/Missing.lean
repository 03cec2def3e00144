import Den2ne.Node.Listing
import Den2ne.Transition.Run

/-!
# Sharing without a node record

The SHARE branch and `iotorii_handle_share_upstream_timer` dereference the first node
record without looking whether there is one. `Node.Misses` says that an event does so
on an empty list; such an event has no effect that the source defines
(`react_eq_none_of_misses`). `not_misses_of_meets` excludes it in the runs in which the
node has or makes a record whenever it is about to count children.
-/

namespace Den2ne

open Transition

variable {α : Type*} [DecidableEq α]

namespace Node

/-- The records that the handlers of an event find: those of the node, unless the
event takes it into a new round, and the one that is drawn. -/
def records (cfg : Config α) (e : Env α × Event α) (n : Node α) : List ℤ :=
  (if n.Drops cfg e.2 then [] else n.nodeList.map (·.load)) ++ n.drawn cfg e.1 e.2

/-- The event makes the node dereference the head of an empty `node_list`. -/
def Misses (cfg : Config α) (e : Env α × Event α) (n : Node α) : Prop :=
  (n.RunsShare cfg e.2 ∨ n.PassesGuard cfg e.2) ∧ n.records cfg e = []

instance (cfg : Config α) (e : Env α × Event α) (n : Node α) : Decidable (n.Misses cfg e) :=
  inferInstanceAs (Decidable ((_ ∨ _) ∧ _))

/-- When an event leaves the counters of children to a node with a record. In the
broadcast build a node that enters a round draws a record, or is an edge, or counts no
children from the round before. In the unicast build a SetHLMAC that names the node finds
or makes a record, and so does a root that starts a round with neighbours. -/
def KeepsRecord (cfg : Config α) (n : Node α) (e : Env α × Event α) : Prop :=
  (cfg.hlmacCast = .broadcast → n.Drops cfg e.2 →
    n.DrawsRecord cfg e.1 e.2 ∨ n.nHijosShare = 0 ∨ n.edge = true) ∧
  (cfg.hlmacCast = .unicast → (Named cfg e.2 → n.records cfg e ≠ []) ∧
    (e.2 = .timer .sethlmac → n.nodeList ≠ [] ∨ n.DrawsRecord cfg e.1 e.2 ∨
      n.neighbourTable.numberOfNeighbours % 256 = 0))

instance (cfg : Config α) (n : Node α) (e : Env α × Event α) : Decidable (n.KeepsRecord cfg e) :=
  inferInstanceAs (Decidable ((_ → _ → _) ∧ (_ → (_ → _) ∧ (_ → _))))

/-- A node without a record counts no children. -/
def Sheltered (n : Node α) : Prop := n.nodeList = [] → n.nHijosShare = 0 ∨ n.edge = true

end Node

variable {cfg : Config α} {e : Env α × Event α} {n n' : Node α}

theorem length_records (h : Node.react cfg e n = some n') :
    (n.records cfg e).length = n'.nodeList.length := by
  rw [length_nodeList_step h, Node.records, List.length_append]
  split
  · rfl
  · rw [List.length_map]

/-- A handler that dereferences the head of an empty list has no defined effect. -/
theorem react_eq_none_of_misses (h : n.Misses cfg e) : Node.react cfg e n = none := by
  cases hn : Node.react cfg e n with
  | none => rfl
  | some n' =>
      rcases h.1 with hruns | hguard
      · have hlength := length_records hn
        rw [h.2, List.length_nil, eq_comm, List.length_eq_zero_iff] at hlength
        exact absurd hlength (nodeList_of_runsShare hn hruns)
      · have hnil := (List.append_eq_nil_iff.1 h.2).1
        rw [if_neg (not_drops_of_passesGuard hguard), List.map_eq_nil_iff] at hnil
        exact absurd hnil (nodeList_of_passesGuard hn hguard)

/-! ## The counter of children -/

namespace Flow

variable {s : Standing α} {sender : α}

/-- The two flows count the same children for SHAREs. -/
def SameChildren (f f' : Flow α) : Prop := f'.nHijosShare = f.nHijosShare ∧ f'.edge = f.edge

omit [DecidableEq α] in
theorem SameChildren.loadWhenDone (f : Flow α) : SameChildren f f.loadWhenDone := by
  unfold Flow.loadWhenDone
  split <;> exact ⟨rfl, rfl⟩

theorem SameChildren.load (f : Flow α) : SameChildren f (f.load cfg s sender) := by
  have hcount : SameChildren f (if s.flagOf sender = some 0 ∧ f.edge = false then
      { f with nHijosLoad := f.nHijosLoad - 1 } else f) := by
    split <;> exact ⟨rfl, rfl⟩
  unfold Flow.load
  dsimp only
  cases cfg.nodeType with
  | root => exact hcount
  | common =>
      have hdone := SameChildren.loadWhenDone (if s.flagOf sender = some 0 ∧ f.edge = false then
        { f with nHijosLoad := f.nHijosLoad - 1 } else f)
      exact ⟨hdone.1.trans hcount.1, hdone.2.trans hcount.2⟩

omit [DecidableEq α] in
/-- In the broadcast build a SetHLMAC leaves the counter to the statistic timer. -/
theorem SameChildren.offer (hcast : cfg.hlmacCast = .broadcast) (timestamp : ℕ) (addr : HlmacAddr)
    (f : Flow α) : SameChildren f (f.offer cfg s sender timestamp addr) := by
  have htake : SameChildren f (if s.accepts timestamp addr then
      f.take cfg s sender timestamp addr else f.leave cfg) := by
    split
    · simp only [take, hcast, adopt, arm]
      split
      · split
        · simp only [enter, hcast]
          exact ⟨rfl, rfl⟩
        · exact ⟨rfl, rfl⟩
      · exact ⟨rfl, rfl⟩
    · simp only [leave, hcast]
      exact ⟨rfl, rfl⟩
  unfold Flow.offer
  cases cfg.nodeType <;> exact htake

/-- The counter stays as it is, unless the statistic timer finds a record, a SHARE
passes the guard, or, in the unicast build, the root starts a round or a SetHLMAC names the
node. -/
theorem SameChildren.step {e : Event α} {f : Flow α} {listed : Bool}
    (hlisted : e = .timer .statistic → listed = false)
    (hguard : ∀ sender extra round, e = .receive sender (.share extra) round →
      sender ≠ cfg.linkaddrNodeAddr → ¬ f.Counts s sender)
    (hcast : cfg.hlmacCast = .broadcast ∨ e ≠ .timer .sethlmac ∧ ¬ Node.Named cfg e) :
    SameChildren f (f.step cfg s listed e) := by
  unfold Flow.step
  cases e with
  | timer t =>
      cases t with
      | hello => exact ⟨rfl, rfl⟩
      | sethlmac =>
          have hbroadcast := hcast.resolve_right fun h => h.1 rfl
          simp only [startRound, hbroadcast]
          exact ⟨rfl, rfl⟩
      | sendMessage csma => exact ⟨rfl, rfl⟩
      | statistic =>
          rw [hlisted rfl]
          exact ⟨rfl, rfl⟩
  | receive sender message round =>
      dsimp only
      split
      · exact ⟨rfl, rfl⟩
      · rename_i hself
        cases message with
        | hello => exact ⟨rfl, rfl⟩
        | load load =>
            simp only [receive]
            split
            · exact SameChildren.load _
            · exact ⟨rfl, rfl⟩
        | share extra =>
            have hskip : share cfg s sender
                { f with received := (sender, .share extra, round) :: f.received } =
                { f with received := (sender, .share extra, round) :: f.received } :=
              if_neg (hguard sender extra round rfl hself)
            have hshare := congrArg nHijosShare hskip
            have hedge := congrArg Flow.edge hskip
            exact ⟨hshare, hedge⟩
        | sethlmac timestamp hlmacPrefix assigned =>
            simp only [receive]
            split
            · exact ⟨rfl, rfl⟩
            · rename_i hspec
              refine SameChildren.offer (hcast.resolve_right fun h => ?_) _ _ _
              exact h.2 ⟨hself, Bool.eq_false_iff.2 hspec⟩

end Flow

/-- An event that leaves no record draws none, and drops those that there are. -/
theorem records_of_nil (h : Node.react cfg e n = some n') (hnil : n'.nodeList = []) :
    n.records cfg e = [] ∧ (n.Drops cfg e.2 ∨ n.nodeList = []) := by
  have hrecords : n.records cfg e = [] := by
    rw [← List.length_eq_zero_iff, length_records h, hnil, List.length_nil]
  refine ⟨hrecords, ?_⟩
  have hold := (List.append_eq_nil_iff.1 hrecords).1
  split at hold
  · exact .inl (by assumption)
  · exact .inr (List.map_eq_nil_iff.1 hold)

/-- Without a record to be drawn, the event is no advertisement that draws one. -/
theorem not_drawsRecord (hrecords : n.records cfg e = [])
    (hadvert : e.2 = .timer .sethlmac ∨ n.Stores cfg e.2) : ¬ n.DrawsRecord cfg e.1 e.2 := by
  intro hdraws
  have hdrawn := (List.append_eq_nil_iff.1 hrecords).2
  rw [Node.drawn, if_pos ⟨hadvert, hdraws⟩] at hdrawn
  cases hdrawn

/-- A SetHLMAC that drops records names the node. -/
theorem named_of_stores (h : n.Stores cfg e.2) : Node.Named cfg e.2 := by
  obtain ⟨env, e⟩ := e
  cases e with
  | timer t => exact h.elim
  | receive sender message round =>
      cases message with
      | sethlmac timestamp hlmacPrefix assigned => exact ⟨h.1, (storesFrom_sethlmac.1 h.2).1⟩
      | hello => exact absurd h.2 Bool.false_ne_true
      | load load => exact absurd h.2 Bool.false_ne_true
      | share extra => exact absurd h.2 Bool.false_ne_true

/-- An event from a state without a record to one without a record keeps the counter. -/
theorem sameChildren_of_nil (h : Node.react cfg e n = some n')
    (hcast : cfg.hlmacCast = .broadcast ∨ e.2 ≠ .timer .sethlmac ∧ ¬ Node.Named cfg e.2)
    (hold : n.Drops cfg e.2 ∨ n.nodeList = []) : Flow.SameChildren n.flow n'.flow := by
  rw [flow_step cfg e.1 h]
  refine Flow.SameChildren.step (fun he => ?_) (fun sender extra round he hself hcounts => ?_) hcast
  · have hnil := hold.resolve_left fun hdrops => by
      rw [he] at hdrops
      exact hdrops
    rw [hnil]
    rfl
  · have hguard : n.PassesGuard cfg e.2 := by
      rw [he]
      exact ⟨hself, hcounts⟩
    have hnil := hold.resolve_left (not_drops_of_passesGuard hguard)
    exact nodeList_of_passesGuard h hguard hnil

theorem Node.Sheltered.step (hs : n.Sheltered) (hok : n.KeepsRecord cfg e)
    (h : Node.react cfg e n = some n') : n'.Sheltered := by
  intro hnil
  obtain ⟨hrecords, hold⟩ := records_of_nil h hnil
  have hkept : n.nHijosShare = 0 ∨ n.edge = true →
      Flow.SameChildren n.flow n'.flow → n'.nHijosShare = 0 ∨ n'.edge = true := by
    rintro hn ⟨hshare, hedge⟩
    exact hn.imp hshare.trans hedge.trans
  cases hcast : cfg.hlmacCast with
  | broadcast =>
      refine hkept ?_ (sameChildren_of_nil h (.inl hcast) hold)
      rcases hold with hdrops | hlist
      · exact (hok.1 hcast hdrops).resolve_left (not_drawsRecord hrecords (.inr (stores_of_drops hdrops)))
      · exact hs hlist
  | unicast =>
      obtain ⟨hnamed, hround⟩ := hok.2 hcast
      have hnot : ¬ Node.Named cfg e.2 := fun hn => hnamed hn hrecords
      have hlist := hold.resolve_left fun hdrops => hnot (named_of_stores (stores_of_drops hdrops))
      by_cases he : e.2 = .timer .sethlmac
      · have hempty := ((hround he).resolve_left fun hne => hne hlist).resolve_left
          (not_drawsRecord hrecords (.inl he))
        have hlength : n.standing.addrs.length = n.neighbourTable.numberOfNeighbours := by
          rw [n.neighbourTable.numberOfNeighbours_eq_marks]
          exact List.length_map _
        have hflow := congrArg Flow.nHijosShare (flow_step cfg e.1 h)
        rw [he] at hflow
        simp only [Flow.step, Flow.startRound, hcast, hlength, hempty] at hflow
        exact .inl hflow
      · exact hkept (hs hlist) (sameChildren_of_nil h (.inr ⟨he, hnot⟩) hold)

theorem counts_of_passesGuard {e : Event α} (h : n.PassesGuard cfg e) :
    n.edge = false ∧ n.nHijosShare ≠ 0 := by
  cases e with
  | timer t => exact h.elim
  | receive sender message round =>
      cases message with
      | share extra => exact h.2.2
      | hello => exact h.elim
      | load load => exact h.elim
      | sethlmac timestamp hlmacPrefix assigned => exact h.elim

/-- In every run of a node from boot, of either type and build, whose events satisfy
`KeepsRecord`, no event dereferences the head of an empty `node_list`: neither one that
makes the node execute `iotorii_handle_share_upstream_timer` nor a SHARE that passes the
guard of its branch. -/
theorem not_misses_of_meets (cfg : Config α) {es : List (Env α × Event α)} {n : Node α}
    (hrun : run (Node.react cfg) es Node.boot = some n)
    (hok : Meets (Node.react cfg) (Node.KeepsRecord cfg) es Node.boot) (e : Env α × Event α)
    (he : n.KeepsRecord cfg e) : ¬ n.Misses cfg e := by
  have hs : n.Sheltered :=
    run_invariant (I := Node.Sheltered) (fun n e n' hs hok h => hs.step hok h)
      (fun _ => .inl rfl) hok hrun
  rintro ⟨hshares, hrecords⟩
  -- a SHARE that passes the guard finds children to be counted
  have hguard : ¬ n.PassesGuard cfg e.2 := by
    intro hguard
    have hold := (List.append_eq_nil_iff.1 hrecords).1
    rw [if_neg (not_drops_of_passesGuard hguard), List.map_eq_nil_iff] at hold
    obtain ⟨hedge, hchildren⟩ := counts_of_passesGuard hguard
    rcases hs hold with hzero | htrue
    · exact hchildren hzero
    · exact Bool.false_ne_true (hedge.symm.trans htrue)
  rcases runsShare_cases (hshares.resolve_right hguard) with ⟨hstatistic, hne⟩ | hg | ⟨hcast, hnamed⟩
  · have hold := (List.append_eq_nil_iff.1 hrecords).1
    rw [hstatistic, if_neg fun h : n.Drops cfg (.timer .statistic) => h,
      List.map_eq_nil_iff] at hold
    exact hne hold
  · exact hguard hg
  · exact (he.2 hcast).1 hnamed hrecords

/-- A node in its first round takes the SHARE of the child that it counts. -/
theorem not_misses_of_firstShare :
    ¬ ((run (Node.react (defaultConfig 5))
      [(⟨-1, [0], 150, 9⟩, .receive 1 .hello 0), (⟨-1, [0], 150, 9⟩, .receive 2 .hello 0),
       (⟨-1, [0], 150, 9⟩, .receive 1 (.sethlmac 1 [1] [(1, 5)]) 1),
       (⟨-1, [], 150, 9⟩, .timer .statistic)] Node.boot).get (by decide +kernel)).Misses
        (defaultConfig 5) (⟨-1, [], 150, 9⟩, .receive 2 (.share 30) 1) :=
  not_misses_of_meets (defaultConfig 5) (Option.some_get _).symm (by decide +kernel) _
    (by decide +kernel)

/-- In its second round the prefix is so long that the address has no room for the entry of
a neighbour: the node joins without a record, with the child of the first round still
counted, whose next SHARE has no load to go to. -/
theorem misses_of_longPrefix :
    ((run (Node.react (defaultConfig 5))
      [(⟨-1, [0], 150, 9⟩, .receive 1 .hello 0), (⟨-1, [0], 150, 9⟩, .receive 2 .hello 0),
       (⟨-1, [0], 150, 9⟩, .receive 1 (.sethlmac 1 [1] [(1, 5)]) 1),
       (⟨-1, [], 150, 9⟩, .timer .statistic),
       (⟨-1, [0], 150, 9⟩, .receive 1 (.sethlmac 2 (List.replicate 100 1) [(1, 5)]) 2)]
      Node.boot).map fun n =>
        decide (n.Misses (defaultConfig 5) (⟨-1, [], 150, 9⟩, .receive 2 (.share 30) 2))) =
      some true := by
  decide +kernel

end Den2ne
