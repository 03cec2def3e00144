import Den2ne.Network.LoopFree
import Den2ne.Node.Waiting

/-!
# What a message of another round can do

Only SetHLMAC carries its round. A LOAD or a SHARE is counted whenever its
sender still owes one, whatever round it was made in; neither touches
`number_of_neighbours_flag` or `edge`. A SetHLMAC of a newer round takes a
common node that it names there; any other one of another round leaves the node
alone in the broadcast build.
-/

namespace Den2ne

open Transition

/-- The fields of a node that the convergecast of a round works on. -/
structure Tally where
  load : Option ℤ
  nHijosLoad : ℕ
  nHijosShare : ℕ
  numberOfNeighboursFlag : ℤ
  edge : Bool
  sentLoad : Bool
  sentShare : Bool
deriving DecidableEq, Repr

variable {α : Type*} [DecidableEq α]

def Node.tally (n : Node α) : Tally where
  load := n.nodeList.head?.map (·.load)
  nHijosLoad := n.nHijosLoad
  nHijosShare := n.nHijosShare
  numberOfNeighboursFlag := n.numberOfNeighboursFlag
  edge := n.edge
  sentLoad := n.sentLoad
  sentShare := n.sentShare

/-- The neighbour has flag `0` and the node is not an edge: its messages count. -/
def Node.Awaits (n : Node α) (sender : α) : Prop :=
  n.neighbourTable.flagOf sender = some 0 ∧ n.edge = false

section Node

variable {cfg : Config α} {env : Env α} {n n' : Node α}

/-! ## LOAD and SHARE -/

section

omit [DecidableEq α]

theorem tally_send (es : List (PayloadEntry α)) : (n.send cfg es).tally = n.tally := by
  rw [Node.send_eq]
  rfl

theorem tally_iotoriiHandleLoadTimer (cfg : Config α) (n : Node α) :
    (iotoriiHandleLoadTimer cfg n).tally = n.tally := by
  rw [iotoriiHandleLoadTimer_eq, tally_send]
  rfl

theorem tally_iotoriiHandleShareUpstreamTimer {junk : α}
    (h : iotoriiHandleShareUpstreamTimer cfg junk n = some n') :
    ∃ load, n'.tally = { n.tally with load := load } := by
  rw [iotoriiHandleShareUpstreamTimer_eq] at h
  split at h
  · cases h
  · obtain rfl := Option.some.inj h
    rw [tally_send]
    exact ⟨_, rfl⟩

/-- An inner node that owes its load to nobody sends it. -/
theorem tally_sendLoadWhenDone (cfg : Config α) (n : Node α) : ∃ sent, (sendLoadWhenDone cfg n).tally =
      { n.tally with sentLoad := sent } ∧
    (sent ≠ n.sentLoad → n.edge = false ∧ n.nHijosLoad = 0) := by
  unfold sendLoadWhenDone
  split
  · rename_i hdone
    refine ⟨true, ?_, fun _ => ⟨hdone.1, hdone.2.1⟩⟩
    have h := tally_iotoriiHandleLoadTimer cfg n
    exact congrArg (fun t => { t with sentLoad := true }) h
  · exact ⟨n.sentLoad, rfl, fun h => absurd rfl h⟩

end

/-- A LOAD of any round changes `n_hijos_load`, by one and if it is awaited,
and `sent_load`, if no load is awaited any more. -/
theorem tally_incomingLoad (sender : α) (load : ℤ) :
    ∃ hijos sent, (incomingLoad cfg sender load n).tally =
        { n.tally with nHijosLoad := hijos, sentLoad := sent } ∧
      (hijos = n.nHijosLoad ∨ n.Awaits sender ∧ hijos + 1 = n.nHijosLoad) ∧
      (sent ≠ n.sentLoad → n.edge = false ∧ hijos = 0) := by
  unfold incomingLoad
  split
  · exact ⟨_, _, rfl, .inl rfl, fun h => absurd rfl h⟩
  · rename_i nb hfind
    -- what the guard makes of the counter
    have hguard : ∃ hijos, (if nb.flag = 0 ∧ n.edge = false ∧ n.nHijosLoad ≠ 0 then
          ({ n with
            neighbourTable := n.neighbourTable.setLoad sender load
            nHijosLoad := n.nHijosLoad - 1 } : Node α)
          else { n with neighbourTable := n.neighbourTable.setLoad sender load }) =
        { n with
          neighbourTable := n.neighbourTable.setLoad sender load
          nHijosLoad := hijos } ∧
        (hijos = n.nHijosLoad ∨ n.Awaits sender ∧ hijos + 1 = n.nHijosLoad) := by
      split
      · rename_i hcount
        refine ⟨_, rfl, .inr ⟨⟨?_, hcount.2.1⟩, Nat.succ_pred_eq_of_ne_zero hcount.2.2⟩⟩
        rw [NeighbourTable.flagOf, hfind, Option.map_some, hcount.1]
      · exact ⟨_, rfl, .inl rfl⟩
    obtain ⟨hijos, heq, hhijos⟩ := hguard
    dsimp only
    rw [heq]
    split
    · exact ⟨hijos, _, rfl, hhijos, fun h => absurd rfl h⟩
    · obtain ⟨sent, htally, hsent⟩ := tally_sendLoadWhenDone cfg { n with
        neighbourTable := n.neighbourTable.setLoad sender load
        nHijosLoad := hijos }
      exact ⟨hijos, sent, htally, hhijos, hsent⟩

/-- A SHARE of any round changes nothing, or it is awaited and changes
`node->load`, `n_hijos_share`, by one, and `sent_share`. -/
theorem tally_incomingShare {junk : α} {sender : α} {extra : ℤ}
    (h : incomingShare cfg junk sender extra n = some n') :
    n'.tally = n.tally ∨
    (n.Awaits sender ∧ n.nHijosShare ≠ 0 ∧ ∃ load sent, n'.tally =
      { n.tally with load := load, nHijosShare := n.nHijosShare - 1, sentShare := sent }) := by
  unfold incomingShare at h
  split at h
  · obtain rfl := Option.some.inj h
    exact .inl rfl
  · rename_i nb hfind
    obtain ⟨m, hm, rfl⟩ := Option.map_eq_some_iff.1 h
    split at hm
    · rename_i hcount
      refine .inr ⟨⟨?_, hcount.2.1⟩, hcount.2.2, ?_⟩
      · rw [NeighbourTable.flagOf, hfind, Option.map_some, hcount.1]
      · unfold takeShare at hm
        split at hm
        · cases hm
        · split at hm
          · obtain rfl := Option.some.inj hm
            exact ⟨_, _, rfl⟩
          · dsimp only at hm
            split at hm
            · obtain ⟨m', hm', rfl⟩ := Option.map_eq_some_iff.1 hm
              obtain ⟨load, hload⟩ := tally_iotoriiHandleShareUpstreamTimer hm'
              exact ⟨load, true, congrArg (fun t => { t with sentShare := true }) hload⟩
            · obtain rfl := Option.some.inj hm
              exact ⟨_, _, rfl⟩
    · obtain rfl := Option.some.inj hm
      exact .inl rfl

/-! ## SetHLMAC -/

section

omit [DecidableEq α]

theorem tally_sendShareWhenDone {junk : α} (h : sendShareWhenDone cfg junk n = some n') :
    ∃ load sent, n'.tally = { n.tally with load := load, sentShare := sent } := by
  unfold sendShareWhenDone at h
  split at h
  · obtain ⟨m, hm, rfl⟩ := Option.map_eq_some_iff.1 h
    obtain ⟨load, hload⟩ := tally_iotoriiHandleShareUpstreamTimer hm
    exact ⟨load, true, congrArg (fun t => { t with sentShare := true }) hload⟩
  · obtain rfl := Option.some.inj h
    exact ⟨_, _, rfl⟩

/-- A SetHLMAC that is left leaves the node alone in the broadcast build, and
its flags in either. -/
theorem tally_leaveSethlmac (h : leaveSethlmac cfg env n = some n') :
    n'.numberOfNeighboursFlag = n.numberOfNeighboursFlag ∧ n'.edge = n.edge ∧
      (cfg.hlmacCast = .broadcast → n'.tally = n.tally) := by
  unfold leaveSethlmac at h
  split at h
  · obtain rfl := Option.some.inj h
    exact ⟨rfl, rfl, fun _ => rfl⟩
  · rename_i hcast
    obtain ⟨load, sent, hshare⟩ := tally_sendShareWhenDone h
    obtain ⟨sent', hload, -⟩ := tally_sendLoadWhenDone cfg (countDown n)
    rw [hload] at hshare
    refine ⟨congrArg Tally.numberOfNeighboursFlag hshare, congrArg Tally.edge hshare,
      fun hb => ?_⟩
    rw [hcast] at hb
    cases hb

end

/-- The message was left: the node stays in its round with its edge counter and
`edge`, and in the broadcast build with its whole tally. -/
def Left (cfg : Config α) (n n' : Node α) : Prop :=
  n'.lastTimestamp = n.lastTimestamp ∧
  n'.numberOfNeighboursFlag = n.numberOfNeighboursFlag ∧ n'.edge = n.edge ∧
  (cfg.hlmacCast = .broadcast → n'.tally = n.tally)

/-- A common node that has joined a round leaves a SetHLMAC of an older round
and joins the round of a newer one. -/
theorem tally_incomingSethlmac (hg : n.standing.Grounded cfg) (hcommon : cfg.nodeType = .common)
    (hjoined : n.standing.Joined) (hcurrent : ∀ entry ∈ n.hlmacTable.entries,
      entry.timestamp = n.lastTimestamp) {sender : α} {timestamp : ℕ} {addr : HlmacAddr}
    (hts : timestamp ≠ n.lastTimestamp)
    (h : incomingSethlmac cfg env sender timestamp addr n = some n') :
    (n.lastTimestamp < timestamp ∧ n'.lastTimestamp = timestamp) ∨
    (¬ n.lastTimestamp < timestamp ∧ Left cfg n n') := by
  have hstanding := standing_incomingSethlmac cfg env h
  rcases Nat.lt_or_gt_of_ne hts with hlt | hlt
  · refine .inr ⟨Nat.not_lt.2 hlt.le, ?_⟩
    have hacc : acceptsSethlmac n timestamp addr = false := by
      simp [acceptsSethlmac, hts, Nat.not_lt.2 hlt.le]
    simp only [incomingSethlmac, settleSethlmac, hcommon, hacc, Bool.false_eq_true, if_false] at h
    refine ⟨?_, tally_leaveSethlmac h⟩
    have hlast := congrArg Standing.lastTimestamp (standing_leaveSethlmac cfg env h)
    exact hlast
  · left
    refine ⟨hlt, ?_⟩
    have hacc : n.standing.accepts timestamp addr = true := by
      have hlt' : n.standing.lastTimestamp < timestamp := hlt
      simp [Standing.accepts, hlt']
    have hstored : (n.standing.store cfg sender timestamp addr).1 = true := by
      refine fst_hlmactableAdd_of_nil (hg.roomy hjoined) ?_
      rw [hlmactableRenew_of_newer hg.counted]
      · rfl
      · intro entry hentry
        rw [hcurrent entry hentry]
        exact hlt
    have hlast := congrArg Standing.lastTimestamp hstanding
    rw [Standing.offer, if_pos hacc] at hlast
    exact hlast.trans (Standing.lastTimestamp_store hacc hstored)

/-! ## Receiving -/

/-- What a LOAD may do: count down by one, if it is awaited, and send the load
on, if none is awaited any more. -/
def LoadEffect (n : Node α) (sender : α) (n' : Node α) : Prop :=
  ∃ hijos sent, n'.tally = { n.tally with nHijosLoad := hijos, sentLoad := sent } ∧
    (hijos = n.nHijosLoad ∨ n.Awaits sender ∧ hijos + 1 = n.nHijosLoad) ∧
    (sent ≠ n.sentLoad → n.edge = false ∧ hijos = 0)

/-- What a SHARE may do: nothing, or, if it is awaited, change the load, count
down by one and share. -/
def ShareEffect (n : Node α) (sender : α) (n' : Node α) : Prop :=
  n'.tally = n.tally ∨
  (n.Awaits sender ∧ n.nHijosShare ≠ 0 ∧ ∃ load sent, n'.tally =
    { n.tally with load := load, nHijosShare := n.nHijosShare - 1, sentShare := sent })

/-- The message is from another node and has an entry for this one. -/
def Payload.Offers (cfg : Config α) (sender : α) (message : Payload α) : Prop :=
  sender ≠ cfg.linkaddrNodeAddr ∧ message.names cfg.linkaddrNodeAddr = true

/-- What a SetHLMAC of another round does to a common node: if it is newer and
offers an address, it takes the node into its round; otherwise it is left. -/
def SethlmacEffect (cfg : Config α) (n : Node α) (sender : α) (message : Payload α) (round : ℕ)
    (n' : Node α) : Prop :=
  (n.lastTimestamp < round ∧ message.Offers cfg sender ∧ n'.lastTimestamp = round) ∨
  (¬ (n.lastTimestamp < round ∧ message.Offers cfg sender) ∧ Left cfg n n')

theorem loadEffect_step {sender : α} {load : ℤ} {r : ℕ}
    (h : Node.step cfg env (.receive sender (.load load) r) n = some n') :
    LoadEffect n sender n' := by
  simp only [Node.step] at h
  split at h
  · obtain rfl := Option.some.inj h
    exact ⟨_, _, rfl, .inl rfl, fun h => absurd rfl h⟩
  · obtain rfl := Option.some.inj h
    exact tally_incomingLoad (n := { n with history := { n.history with
      received := (sender, .load load, r) :: n.history.received } }) sender load

theorem shareEffect_step {sender : α} {extra : ℤ} {r : ℕ}
    (h : Node.step cfg env (.receive sender (.share extra) r) n = some n') :
    ShareEffect n sender n' := by
  simp only [Node.step] at h
  split at h
  · obtain rfl := Option.some.inj h
    exact .inl rfl
  · have heffect := tally_incomingShare h
    exact heffect

theorem sethlmacEffect_step (hg : n.standing.Grounded cfg) (hcommon : cfg.nodeType = .common)
    (hjoined : n.standing.Joined) (hcurrent : ∀ entry ∈ n.hlmacTable.entries,
      entry.timestamp = n.lastTimestamp) {sender : α} {timestamp : ℕ}
    {hlmacPrefix : List UInt8} {assigned : List (UInt8 × α)} {r : ℕ}
    (hts : timestamp ≠ n.lastTimestamp)
    (h : Node.step cfg env (.receive sender (.sethlmac timestamp hlmacPrefix assigned) r) n =
      some n') :
    SethlmacEffect cfg n sender (.sethlmac timestamp hlmacPrefix assigned) timestamp n' := by
  simp only [Node.step] at h
  split at h
  · rename_i hself
    obtain rfl := Option.some.inj h
    exact .inr ⟨fun hoffers => hoffers.2.1 hself, rfl, rfl, rfl, fun _ => rfl⟩
  · rename_i hself
    simp only [iotoriiOperation] at h
    rw [hlmacIsUnspecifiedAddr_iotoriiExtractAddress] at h
    split at h
    · rename_i hnames
      obtain rfl := Option.some.inj h
      refine .inr ⟨fun hoffers => ?_, rfl, rfl, rfl, fun _ => rfl⟩
      rw [hoffers.2.2] at hnames
      cases hnames
    · rename_i hnames
      have hoffers : (Payload.sethlmac timestamp hlmacPrefix assigned).Offers cfg sender :=
        ⟨hself, by simpa using hnames⟩
      rcases tally_incomingSethlmac (n := { n with history := { n.history with
          received := (sender, .sethlmac timestamp hlmacPrefix assigned, r) ::
            n.history.received } }) hg hcommon hjoined hcurrent hts h with ⟨hlt, hlast⟩ |
          ⟨hle, hleft⟩
      · exact .inl ⟨hlt, hoffers, hlast⟩
      · exact .inr ⟨fun hnew => hle hnew.1, hleft⟩

end Node

/-! ## The network -/

variable {w : World α} {s s' : Net α}

/-- A message of another round leaves the tally of a node in a round as it is,
unless it is a SetHLMAC of a newer round. -/
def World.RoundsIsolated (w : World α) (s s' : Net α) (f : Frame α) : Prop :=
  (s.node f.dst).standing.Joined → f.round ≠ (s.node f.dst).round (w.config f.dst) →
    (s'.node f.dst).tally = (s.node f.dst).tally ∨
    match f.message with
    | .sethlmac _ _ _ => (s.node f.dst).round (w.config f.dst) < f.round
    | _ => False

instance (w : World α) (s s' : Net α) (f : Frame α) : Decidable (w.RoundsIsolated s s' f) := by
  unfold World.RoundsIsolated Standing.Joined
  split <;> infer_instance

/-- Whatever is delivered in a run: other nodes are left alone; a LOAD or a
SHARE, of any round, counts only if the receiver awaits it, and touches neither
the edge counter nor `edge`; and a SetHLMAC of another round takes a common
node that has joined one into its round if it is newer and offers an address,
and otherwise does not touch them either, nor, in the broadcast build, anything
else of the tally. -/
theorem isolated_of_run {es : List (NetEvent α)} (hrun : run w.step es Net.boot = some s)
    {i : ℕ} {env : Env α} {f : Frame α} (hf : s.air[i]? = some f)
    (hstep : w.step (.deliver i env) s = some s') :
    (∀ u, u ≠ f.dst → s'.node u = s.node u) ∧
    (∀ load, f.message = .load load → LoadEffect (s.node f.dst) f.src (s'.node f.dst)) ∧
    (∀ extra, f.message = .share extra → ShareEffect (s.node f.dst) f.src (s'.node f.dst)) ∧
    (∀ timestamp hlmacPrefix assigned, f.message = .sethlmac timestamp hlmacPrefix assigned →
      f.dst ≠ w.root → (s.node f.dst).standing.Joined →
      f.round ≠ (s.node f.dst).lastTimestamp →
      SethlmacEffect (w.config f.dst) (s.node f.dst) f.src f.message f.round
        (s'.node f.dst)) := by
  rcases World.step_cases hstep with ⟨_, _, _, _, he, -⟩ | ⟨j, env', g, n, he, hg, ha⟩ |
    ⟨_, he, -⟩ | ⟨_, _, he, -⟩
  · cases he
  · cases he
    obtain rfl := Option.some.inj (hf.symm.trans hg)
    refine ⟨fun u hu => ha.node_ne hu, fun load hmsg => ?_, fun extra hmsg => ?_,
      fun ts p asg hmsg hroot hjoined hround => ?_⟩
    · have hstep' := ha.step
      rw [hmsg] at hstep'
      have heffect := loadEffect_step hstep'
      rw [ha.node_self]
      exact heffect
    · have hstep' := ha.step
      rw [hmsg] at hstep'
      have heffect := shareEffect_step hstep'
      rw [ha.node_self]
      exact heffect
    · have hs := Net.sane_of_run hrun
      obtain ⟨-, k, h⟩ := Net.inStep_of_run ((hs.grounded _).roomy hjoined) hrun
      -- the frame was made in the round that it names
      have hts := (h.traced.air f (List.mem_of_getElem? hf) ts p asg hmsg).round
      have hstep' := ha.step
      rw [hmsg] at hstep'
      have heffect := sethlmacEffect_step (hs.grounded _) (World.nodeType_of_ne_root hroot) hjoined
        (h.abreast _ hroot).current (hts ▸ hround) hstep'
      rw [ha.node_self, hts, hmsg]
      exact heffect
  · cases he
  · cases he

/-- The root's SetHLMAC of round `0` reaches node `2` after that of round `1`,
and is left; that of round `2` takes the node along. -/
theorem isolated_of_run_late : ∃ (s s' s'' : Net ℕ) (f g : Frame ℕ),
    f.round = 0 ∧ (s.node f.dst).lastTimestamp = 1 ∧
    SethlmacEffect ((World.ofLinks 1 [(1, 2)] .broadcast 1).config f.dst) (s.node f.dst) f.src
      f.message f.round (s'.node f.dst) ∧
    g.round = 2 ∧ (s.node g.dst).lastTimestamp = 1 ∧
    SethlmacEffect ((World.ofLinks 1 [(1, 2)] .broadcast 1).config g.dst) (s.node g.dst) g.src
      g.message g.round (s''.node g.dst) := by
  let w := World.ofLinks 1 [(1, 2)] .broadcast 1
  let env : Env ℕ := ⟨15, [0, 1], 150, 9⟩
  let es : List (NetEvent ℕ) :=
    [.timer 1 .hello env, .timer 2 .hello env, .deliver 0 env, .deliver 0 env,
     .timer 1 .sethlmac env, .timer 1 (.sendMessage .scheduled) env,
     .timer 1 .hello env, .timer 1 .sethlmac env, .timer 1 (.sendMessage .scheduled) env,
     .deliver 2 env,
     .timer 1 .hello env, .timer 1 .sethlmac env, .timer 1 (.sendMessage .scheduled) env]
  have hrun : (run w.step es Net.boot).any (fun s => s.air[0]?.any fun f => s.air[3]?.any fun g =>
      (w.step (.deliver 0 env) s).any fun _ => (w.step (.deliver 3 env) s).any fun _ =>
        (f.message = .sethlmac 0 [1] [(1, 2)] ∧ g.message = .sethlmac 2 [1] [(1, 2)]) ∧
        (f.dst ≠ w.root ∧ g.dst ≠ w.root) ∧
        ((s.node f.dst).hlmacTable.entries ≠ [] ∧ (s.node g.dst).hlmacTable.entries ≠ []) ∧
        ((s.node f.dst).lastTimestamp = 1 ∧ (s.node g.dst).lastTimestamp = 1) ∧
        f.round = 0 ∧ g.round = 2) = true := by
    decide +kernel
  obtain ⟨s, hs, hrest⟩ := (Option.any_eq_true _ _).1 hrun
  obtain ⟨f, hf, hrest⟩ := (Option.any_eq_true _ _).1 hrest
  obtain ⟨g, hg, hrest⟩ := (Option.any_eq_true _ _).1 hrest
  obtain ⟨s', hs', hrest⟩ := (Option.any_eq_true _ _).1 hrest
  obtain ⟨s'', hs'', hfacts⟩ := (Option.any_eq_true _ _).1 hrest
  obtain ⟨hmsg, hroot, hjoined, hlast, hround⟩ := of_decide_eq_true hfacts
  refine ⟨s, s', s'', f, g, hround.1, hlast.1,
    (isolated_of_run hs hf hs').2.2.2 0 [1] [(1, 2)] hmsg.1 hroot.1 hjoined.1 ?_,
    hround.2, hlast.2,
    (isolated_of_run hs hg hs'').2.2.2 2 [1] [(1, 2)] hmsg.2 hroot.2 hjoined.2 ?_⟩
  · rw [hround.1, hlast.1]
    exact Nat.zero_ne_one
  · rw [hround.2, hlast.2]
    exact Nat.succ_ne_self 1

/-- The SHARE that node `3` made in round `0` reaches node `2` in round `1` and
counts there: rounds are not isolated. -/
theorem not_roundsIsolated :
    ¬ ∀ (es : List (NetEvent ℕ)) (i : ℕ) (env : Env ℕ) (f : Frame ℕ) (s s' : Net ℕ),
      run (World.ofLinks 2 [(1, 2), (2, 3)] .unicast 1).step es Net.boot = some s →
      s.air[i]? = some f →
      (World.ofLinks 2 [(1, 2), (2, 3)] .unicast 1).step (.deliver i env) s = some s' →
      (World.ofLinks 2 [(1, 2), (2, 3)] .unicast 1).RoundsIsolated s s' f := by
  intro h
  let w := World.ofLinks 2 [(1, 2), (2, 3)] .unicast 1
  let env : Env ℕ := ⟨15, [0, 1], 150, 9⟩
  let es : List (NetEvent ℕ) :=
    [.timer 1 .hello env, .timer 2 .hello env, .timer 3 .hello env,
     .deliver 0 env, .deliver 0 env, .deliver 0 env, .deliver 0 env,
     .timer 1 .sethlmac env, .timer 1 (.sendMessage .scheduled) env, .deliver 0 env,
     .timer 2 (.sendMessage .scheduled) env, .deliver 0 env,
     .timer 3 (.sendMessage .scheduled) env, .timer 3 (.sendMessage .scheduled) env,
     .timer 1 .hello env, .timer 1 .sethlmac env, .timer 1 (.sendMessage .scheduled) env,
     .deliver 3 env]
  have hrun : (run w.step es Net.boot).any (fun s => s.air[1]?.any fun f =>
      (w.step (.deliver 1 env) s).any fun s' => ¬ w.RoundsIsolated s s' f) = true := by
    decide +kernel
  obtain ⟨s, hs, hrest⟩ := (Option.any_eq_true _ _).1 hrun
  obtain ⟨f, hf, hrest⟩ := (Option.any_eq_true _ _).1 hrest
  obtain ⟨s', hs', hnot⟩ := (Option.any_eq_true _ _).1 hrest
  exact of_decide_eq_true hnot (h es 1 env f s s' hs hf hs')

end Den2ne
