import Den2ne.Network.History
import Den2ne.Node.RootAccount

/-!
# Convergence of the root

The root declares convergence when its two counters have run out. That says
that the LOAD and the SHARE of every child have arrived as long as the counters
stand for the children. `World.Accounts` is what an event must meet for that:
what counts down a counter is a message of the current round, from a neighbour
that the counter still waits for; the convergence test is not made with both
counters run out while the statistic timer is yet to set them; and a node in
the root's table that becomes a child is one that the counters expect.
-/

namespace Den2ne

open Transition

variable {α : Type*} [DecidableEq α]

/-- The timestamp of a SetHLMAC. -/
def Payload.timestamp? : Payload α → Option ℕ
  | .sethlmac timestamp _ _ => some timestamp
  | _ => none

/-- The node has taken an address of the root's round from the root. -/
def Net.ChildOf (w : World α) (s : Net α) (u : α) : Prop :=
  u ≠ w.root ∧ ∃ r ∈ s.accepted u, r.sender = w.root ∧ r.timestamp = (s.node w.root).timestamp

instance (w : World α) (s : Net α) : DecidablePred (s.ChildOf w) := fun u =>
  inferInstanceAs (Decidable (u ≠ w.root ∧ ∃ r ∈ s.accepted u, r.sender = w.root ∧
    r.timestamp = (s.node w.root).timestamp))

/-- If the root declares convergence in the step from `s` to `s'`, then it has
received a LOAD and a SHARE of the round from every child in its table. -/
def World.SoundConvergence (w : World α) (s s' : Net α) : Prop :=
  (s.node w.root).hasConverged = false → (s'.node w.root).hasConverged = true →
  ∀ u ∈ (s'.node w.root).neighbourTable.addrs, s'.ChildOf w u →
  ∀ c ∈ [Owed.load, Owed.share], (s'.node w.root).flow.got (s'.node w.root).timestamp c u = true

instance (w : World α) (s s' : Net α) : Decidable (w.SoundConvergence s s') :=
  inferInstanceAs (Decidable (_ → _ → ∀ u ∈ (s'.node w.root).neighbourTable.addrs,
    s'.ChildOf w u → ∀ c ∈ [Owed.load, Owed.share],
      (s'.node w.root).flow.got (s'.node w.root).timestamp c u = true))

/-- What a delivery to a common node must meet: a node in the root's table that
takes the root's address of the round is one that the statistic timer of the
root will count, or that the counters were set for. -/
def World.JoinsCounted (w : World α) (s : Net α) (f : Frame α) : Prop :=
  let n := s.node w.root
  f.src = w.root → f.message.timestamp? = some n.timestamp →
  (s.node f.dst).standing.Stores (w.config f.dst) f.src f.message →
  f.dst ∈ n.neighbourTable.addrs →
  (n.statisticTimer = true → n.neighbourTable.flagOf f.dst = some 0) ∧
  (n.statisticTimer = false → n.flow.Expects (w.config w.root) n.timestamp f.dst)

/-- What an event must meet to keep the account of the root. Once the root has
converged, only the start of a round matters. -/
def World.Accounts (w : World α) (s : Net α) (e : NetEvent α) : Prop :=
  let n := s.node w.root
  match e with
  | .timer v .sethlmac _ => v = w.root → w.hlmacCast = .unicast → n.standing.addrs.length ≤ 255
  | .timer v .statistic _ => v = w.root → n.hasConverged = false →
      (Flow.children n.standing).length ≤ 255 ∧
      (n.nodeList = [] → ∀ u ∈ n.standing.addrs, ¬ s.ChildOf w u)
  | .deliver i _ =>
      match s.air[i]? with
      | none => True
      | some f => n.hasConverged = false →
          if f.dst = w.root then f.src ≠ w.root →
            CountsRight (w.config w.root) (s.ChildOf w) n.standing n.flow f.src f.message f.round
          else w.JoinsCounted s f
  | _ => True

instance (w : World α) (s : Net α) (f : Frame α) : Decidable (w.JoinsCounted s f) :=
  inferInstanceAs (Decidable (_ → _ → _ → _ → _ ∧ _))

instance (w : World α) (s : Net α) : ∀ e : NetEvent α, Decidable (w.Accounts s e)
  | .timer _ .sethlmac _ => inferInstanceAs (Decidable (_ → _ → _))
  | .timer _ .statistic _ => inferInstanceAs (Decidable (_ → _ → _ ∧ (_ →
      ∀ u ∈ (s.node w.root).standing.addrs, ¬ s.ChildOf w u)))
  | .deliver i _ =>
      match h : s.air[i]? with
      | none => decidable_of_iff True (by simp [World.Accounts, h])
      | some f => decidable_of_iff ((s.node w.root).hasConverged = false →
          if f.dst = w.root then f.src ≠ w.root →
            CountsRight (w.config w.root) (s.ChildOf w) (s.node w.root).standing
              (s.node w.root).flow f.src f.message f.round
          else w.JoinsCounted s f) (by simp [World.Accounts, h])
  | .timer _ .hello _ | .timer _ (.sendMessage _) _ | .lose _ | .duplicate _ =>
      inferInstanceAs (Decidable True)

/-! ## The invariant -/

/-- Until the root has converged, its counters cover its children. -/
structure Net.Accounted (w : World α) (s : Net α) : Prop where
  sane : s.Sane w
  recorded : s.Recorded w
  account : (s.node w.root).hasConverged = false → RootAccount (w.config w.root) (s.ChildOf w)
    (s.node w.root).standing (s.node w.root).flow

variable {w : World α} {s s' : Net α}

theorem Net.accounted_boot : (Net.boot : Net α).Accounted w where
  sane := Net.sane_boot
  recorded := Net.recorded_boot
  account _ := ⟨fun _ => rfl, fun _ => nofun, fun _ => nofun, fun _ _ => Nat.zero_le _⟩

theorem World.nodeType_root (w : World α) : (w.config w.root).nodeType = .root := if_pos rfl

theorem RootAccount.mono {cfg : Config α} {Child Child' : α → Prop} {st : Standing α} {f : Flow α}
    (h : RootAccount cfg Child st f) (hsub : ∀ m ∈ st.marks, Child' m.addr → Child m.addr) :
    RootAccount cfg Child' st f where
  unset := h.unset
  armed ht m hm hc := h.armed ht m hm (hsub m hm hc)
  expects ht m hm hc := h.expects ht m hm (hsub m hm hc)
  covers := h.covers

/-- When the counters have run out, every child has sent both messages. -/
theorem RootAccount.got {cfg : Config α} {Child : α → Prop} {st : Standing α} {f : Flow α}
    (h : RootAccount cfg Child st f) (hs : f.Settled) {u : α} (hu : u ∈ st.addrs)
    (hchild : Child u) (c : Owed) : f.got st.timestamp c u = true := by
  obtain ⟨ht, hleft⟩ := hs
  obtain ⟨m, hm, rfl⟩ := List.mem_map.1 hu
  obtain ⟨hin, hnot⟩ := h.expects ht m hm hchild
  have hset := (h.covers ht).settled_of_left (hleft c) hin
  unfold Flow.settled at hset
  rw [Bool.or_eq_true, Bool.and_eq_true, decide_eq_true_eq] at hset
  exact hset.resolve_right hnot

/-! ## One event -/

section Acts

variable {v : α} {env : Env α} {e : Event α} {air : List (Frame α)} {n : Node α}

theorem World.Acts.flow_self (ha : w.Acts s v env e air n s') :
    (s'.node v).flow = (s.node v).flow.step (w.config v) (s.node v).standing
      (!(s.node v).nodeList.isEmpty) e := by
  rw [ha.node_self, ← flow_step (w.config v) env ha.step]
  rfl

/-- The root takes a packet: it keeps its account, and converges only when
everything that it waits for has come. -/
theorem RootAccount.receive {cfg : Config α} {Child : α → Prop} {st : Standing α} {f : Flow α}
    (listed : Bool) {sender : α} {message : Payload α} {round : ℕ}
    (h : RootAccount cfg Child st f) (hroot : cfg.nodeType = .root) (hg : st.Grounded cfg)
    (hunicast : cfg.hlmacCast = .unicast → f.statisticTimer = false)
    (hok : sender ≠ cfg.linkaddrNodeAddr → CountsRight cfg Child st f sender message round) :
    let e := Event.receive sender message round
    let f' := f.step cfg st listed e
    RootAccount cfg Child (st.step cfg e) f' ∧
      (f.hasConverged = false → f'.hasConverged = true → f'.Settled) := by
  dsimp only [Standing.step, Flow.step]
  by_cases hself : sender = cfg.linkaddrNodeAddr
  · rw [if_pos hself, if_pos hself]
    exact ⟨h, fun hbefore hafter => absurd (hbefore.symm.trans hafter) Bool.false_ne_true⟩
  rw [if_neg hself, if_neg hself]
  have hok := hok hself
  -- a packet that nothing is done about
  have hkeep : message.names cfg.linkaddrNodeAddr = false →
      RootAccount cfg Child st { f with received := (sender, message, round) :: f.received } :=
    fun hm => h.of_cons rfl rfl rfl hm fun ht => (h.covers ht).of_left rfl rfl fun c => by
      cases c <;> exact le_rfl
  have hsame : f.hasConverged = false →
      Flow.hasConverged { f with received := (sender, message, round) :: f.received } = true →
      Flow.Settled { f with received := (sender, message, round) :: f.received } :=
    fun hbefore hafter => absurd (hbefore.symm.trans hafter) Bool.false_ne_true
  cases message with
  | hello => exact ⟨h.hello hok, hsame⟩
  | load load =>
      dsimp only [Standing.receive, Flow.receive]
      by_cases hmem : sender ∈ st.addrs
      · rw [if_pos hmem]
        exact h.load hroot hmem hok
      · rw [if_neg hmem]
        exact ⟨hkeep rfl, hsame⟩
  | share extra => exact h.share hroot hok
  | sethlmac timestamp hlmacPrefix assigned =>
      dsimp only [Standing.receive, Flow.receive]
      rw [hlmacIsUnspecifiedAddr_iotoriiExtractAddress]
      cases hnames : (Payload.sethlmac timestamp hlmacPrefix assigned).names
          cfg.linkaddrNodeAddr with
      | false =>
          simp only [Bool.not_false, if_true]
          exact ⟨hkeep hnames, hsame⟩
      | true =>
          simp only [Bool.not_true, Bool.false_eq_true, if_false]
          exact h.offer hroot hg hunicast hnames hok

/-- A timer of the root keeps its account, or starts it anew. -/
theorem RootAccount.timer {cfg : Config α} (Child : α → Prop) {Child' : α → Prop} {st : Standing α}
    {f : Flow α} {listed : Bool} {t : Timer} (hroot : cfg.nodeType = .root)
    (hunicast : cfg.hlmacCast = .unicast → f.statisticTimer = false)
    (harmed : t = .statistic → f.statisticTimer = true)
    (h : t ≠ .sethlmac → RootAccount cfg Child st f)
    (hfew : t = .sethlmac → cfg.hlmacCast = .unicast → st.addrs.length ≤ 255)
    (hok : t = .statistic → (Flow.children st).length ≤ 255 ∧
      (listed = false → ∀ u ∈ st.addrs, ¬ Child u))
    (hkeep : t ≠ .sethlmac → ∀ u, Child' u → Child u)
    (hnobody : t = .sethlmac → ∀ u, ¬ Child' u) :
    RootAccount cfg Child' (st.step cfg (.timer t)) (f.step cfg st listed (.timer t)) := by
  cases t with
  | hello => exact (h nofun).tick.mono fun m _ => hkeep nofun m.addr
  | sethlmac => exact RootAccount.startRound (fun m _ => hnobody rfl m.addr) (hfew rfl) hunicast
  | sendMessage csma => exact (h nofun).mono fun m _ => hkeep nofun m.addr
  | statistic =>
      have ht := harmed rfl
      have hcast : cfg.hlmacCast = .broadcast := by
        cases hcast : cfg.hlmacCast with
        | broadcast => rfl
        | unicast => exact absurd ((hunicast hcast).symm.trans ht) Bool.false_ne_true
      obtain ⟨hchildren, hunlisted⟩ := hok rfl
      have hacc : RootAccount cfg Child (st.step cfg (.timer .statistic))
          (f.step cfg st listed (.timer .statistic)) := by
        cases listed with
        | true => exact (h nofun).statistic hroot hcast ht hchildren
        | false =>
            refine RootAccount.disarm (fun m hm => ?_) ((h nofun).unset ht)
            exact hunlisted rfl m.addr (List.mem_map_of_mem hm)
      exact hacc.mono fun m _ => hkeep nofun m.addr

theorem NeighbourTable.flagOf_of_mem {t : NeighbourTable α} {m : Mark α} (hm : m ∈ t.marks) :
    t.flagOf m.addr = some m.flag := by
  rw [flagOf_eq_marks, (Keyed.find?_eq_some_iff t.nodup_marks).2 ⟨hm, rfl⟩]
  rfl

/-- Another node's event leaves the root as it was; if it makes the node a
child, then it is one that the root counts. -/
theorem Net.Accounted.acts_other (h : s.Accounted w) (hv : v ≠ w.root)
    (hnew : ∀ r, s'.accepted v = r :: s.accepted v → r.sender = w.root →
      r.timestamp = (s.node w.root).timestamp → v ∈ (s.node w.root).neighbourTable.addrs →
      ((s.node w.root).statisticTimer = true →
        (s.node w.root).neighbourTable.flagOf v = some 0) ∧
      ((s.node w.root).statisticTimer = false →
        (s.node w.root).flow.Expects (w.config w.root) (s.node w.root).timestamp v))
    (ha : w.Acts s v env e air n s') (hbefore : (s.node w.root).hasConverged = false) :
    RootAccount (w.config w.root) (s'.ChildOf w) (s.node w.root).standing
      (s.node w.root).flow := by
  have hroot := ha.node_ne hv.symm
  have hacc := h.account hbefore
  -- a child was one before the event, or the event made it one
  have hchild : ∀ u, s'.ChildOf w u → s.ChildOf w u ∨ u = v ∧ ∃ r,
      s'.accepted v = r :: s.accepted v ∧ r.sender = w.root ∧
      r.timestamp = (s.node w.root).timestamp := by
    rintro u ⟨hne, r, hr, hsender, hts⟩
    rw [hroot] at hts
    by_cases hu : u = v
    · subst hu
      by_cases hold : r ∈ s.accepted u
      · exact .inl ⟨hne, r, hold, hsender, hts⟩
      · refine .inr ⟨rfl, r, ?_, hsender, hts⟩
        rw [ha.accepted_self] at hr ⊢
        rcases accepted_step (w.config u) (s.node u).standing e with
          hc | ⟨rfl, -⟩ | ⟨sender, message, rd, timestamp, addr, -, -, hc⟩
        · rw [hc] at hr
          exact absurd hr hold
        · exact absurd rfl (h.sane.ne_sethlmac ha hne)
        · rw [hc] at hr ⊢
          rw [(List.mem_cons.1 hr).resolve_right hold]
          rfl
    · rw [Net.accepted, ha.node_ne hu] at hr
      exact .inl ⟨hne, r, hr, hsender, hts⟩
  have hmem : ∀ m ∈ (s.node w.root).standing.marks, m.addr ∈ (s.node w.root).neighbourTable.addrs := by
    intro m hm
    rw [Node.addrs_eq_standing]
    exact List.mem_map_of_mem hm
  refine ⟨hacc.unset, fun ht m hm hc => ?_, fun ht m hm hc => ?_, hacc.covers⟩
  · rcases hchild m.addr hc with hold | ⟨hm', r, hr, hsender, hts⟩
    · exact hacc.armed ht m hm hold
    · have hflag := (hnew r hr hsender hts (hm' ▸ hmem m hm)).1 ht
      rw [← hm', NeighbourTable.flagOf_of_mem hm] at hflag
      exact Option.some.inj hflag
  · rcases hchild m.addr hc with hold | ⟨hm', r, hr, hsender, hts⟩
    · exact hacc.expects ht m hm hold
    · rw [hm']
      exact (hnew r hr hsender hts (hm' ▸ hmem m hm)).2 ht

/-- The root's own event. -/
theorem Net.Accounted.acts_root (h : s.Accounted w) (ha : w.Acts s w.root env e air n s')
    (htimer : ∀ t, e = .timer t → w.Accounts s (.timer w.root t env))
    (hreceive : ∀ sender message round, e = .receive sender message round →
      (s.node w.root).hasConverged = false → sender ≠ w.root →
      CountsRight (w.config w.root) (s.ChildOf w) (s.node w.root).standing (s.node w.root).flow
        sender message round)
    (hbefore : e = .timer .sethlmac ∨ (s.node w.root).hasConverged = false) :
    RootAccount (w.config w.root) (s'.ChildOf w) (s'.node w.root).standing (s'.node w.root).flow ∧
      ((s.node w.root).hasConverged = false → (s'.node w.root).hasConverged = true →
        (s'.node w.root).flow.Settled) := by
  have hroot := w.nodeType_root
  have hunicast : (w.config w.root).hlmacCast = .unicast →
      (s.node w.root).flow.statisticTimer = false := (h.sane.tidy w.root).statistic
  -- the nodes that have the root's address of this round stay the same
  have hchild : e ≠ .timer .sethlmac → ∀ u, s'.ChildOf w u → s.ChildOf w u := by
    rintro he u ⟨hne, r, hr, hsender, hts⟩
    have hsame : (s'.node w.root).standing.timestamp = (s.node w.root).standing.timestamp := by
      rw [ha.standing_self]
      exact Standing.timestamp_step he
    rw [Net.accepted, ha.node_ne hne] at hr
    exact ⟨hne, r, hr, hsender, hts.trans hsame⟩
  rw [ha.standing_self]
  change RootAccount _ _ _ _ ∧ (_ → (s'.node w.root).flow.hasConverged = true → _)
  rw [ha.flow_self]
  cases e with
  | timer t =>
      have hok := htimer t rfl
      refine ⟨RootAccount.timer (s.ChildOf w) hroot hunicast ?_ ?_ ?_ ?_ ?_ ?_, fun hconv hafter => ?_⟩
      · rintro rfl
        have hstep := ha.step
        simp only [Node.step, Node.expire, Option.ite_none_right_eq_some] at hstep
        exact hstep.1
      · intro ht
        exact h.account (hbefore.resolve_left fun he => ht (Event.timer.inj he))
      · rintro rfl
        exact hok rfl
      · rintro rfl
        obtain ⟨hfew, hunlisted⟩ := hok rfl (hbefore.resolve_left (by simp))
        refine ⟨hfew, fun hlisted => hunlisted ?_⟩
        rw [Bool.not_eq_false'] at hlisted
        exact List.isEmpty_iff.1 hlisted
      · intro ht
        exact hchild fun he => ht (Event.timer.inj he)
      · rintro rfl u ⟨hne, r, hr, -, hts⟩
        have hnext : (s'.node w.root).standing.timestamp =
            nextTimestamp (s.node w.root).standing.timestamp := by
          rw [ha.standing_self]
          rfl
        rw [Net.accepted, ha.node_ne hne] at hr
        exact h.recorded.timestamp_ne hr (hts.trans hnext)
      · have hsame := Flow.hasConverged_timer hroot (s.node w.root).standing
          (!(s.node w.root).nodeList.isEmpty) t (s.node w.root).flow hconv
        exact absurd (hsame.symm.trans hafter) Bool.false_ne_true
  | receive sender message round =>
      have hconv := hbefore.resolve_left (by simp)
      have hkeep := (h.account hconv).receive (!(s.node w.root).nodeList.isEmpty) hroot
        (h.sane.grounded w.root) hunicast
        (hreceive sender message round rfl hconv)
      exact ⟨hkeep.1.mono fun m _ => hchild (by simp) m.addr, hkeep.2⟩

end Acts

/-- An event that keeps the account of the root: if the root converges, then
every child has sent both messages. -/
theorem Net.Accounted.step {e : NetEvent α} (h : s.Accounted w) (hok : w.Accounts s e)
    (hstep : w.step e s = some s') : s'.Accounted w ∧ w.SoundConvergence s s' := by
  have hsane := h.sane.step hstep
  have hrecorded := h.recorded.step h.sane hstep
  -- it is enough to keep the account in the event that makes the root converge
  suffices hroot : ∀ hbefore : (s.node w.root).hasConverged = false ∨
      (s'.node w.root).hasConverged = false,
      RootAccount (w.config w.root) (s'.ChildOf w) (s'.node w.root).standing
        (s'.node w.root).flow ∧
      ((s.node w.root).hasConverged = false → (s'.node w.root).hasConverged = true →
        (s'.node w.root).flow.Settled) by
    refine ⟨⟨hsane, hrecorded, fun hafter => (hroot (.inr hafter)).1⟩, ?_⟩
    intro hbefore hafter u hu hchild c _
    obtain ⟨hacc, hsettled⟩ := hroot (.inl hbefore)
    rw [Node.addrs_eq_standing] at hu
    exact hacc.got (hsettled hbefore hafter) hu hchild c
  intro hbefore
  -- a network in which the root is as before, and nobody has become a child
  have hstill : s'.node w.root = s.node w.root → (∀ u, s'.ChildOf w u → s.ChildOf w u) →
      RootAccount (w.config w.root) (s'.ChildOf w) (s'.node w.root).standing
        (s'.node w.root).flow ∧
      ((s.node w.root).hasConverged = false → (s'.node w.root).hasConverged = true →
        (s'.node w.root).flow.Settled) := by
    intro hsame hchild
    rw [hsame] at hbefore ⊢
    exact ⟨(h.account (hbefore.elim id id)).mono fun m _ => hchild m.addr,
      fun hbefore hafter => absurd (hbefore.symm.trans hafter) Bool.false_ne_true⟩
  -- another node's event
  have hother : ∀ {v env e air n}, v ≠ w.root → w.Acts s v env e air n s' →
      ((s.node w.root).hasConverged = false → RootAccount (w.config w.root) (s'.ChildOf w)
        (s.node w.root).standing (s.node w.root).flow) →
      RootAccount (w.config w.root) (s'.ChildOf w) (s'.node w.root).standing
        (s'.node w.root).flow ∧
      ((s.node w.root).hasConverged = false → (s'.node w.root).hasConverged = true →
        (s'.node w.root).flow.Settled) := by
    intro v env e air n hv ha hacc
    rw [ha.node_ne hv.symm] at hbefore ⊢
    exact ⟨hacc (hbefore.elim id id),
      fun hbefore hafter => absurd (hbefore.symm.trans hafter) Bool.false_ne_true⟩
  -- the root's own event can only keep its convergence, or start a round
  have hown : ∀ {env e air n}, w.Acts s w.root env e air n s' →
      e = .timer .sethlmac ∨ (s.node w.root).hasConverged = false := by
    intro env e air n ha
    by_contra hnot
    obtain ⟨he, hconv⟩ := not_or.1 hnot
    rw [Bool.not_eq_false] at hconv
    have hkept : (s'.node w.root).flow.hasConverged = true := by
      rw [ha.flow_self]
      exact Flow.hasConverged_step w.nodeType_root he hconv
    rcases hbefore with hb | hb
    · exact Bool.false_ne_true (hb.symm.trans hconv)
    · exact Bool.false_ne_true (hb.symm.trans hkept)
  rcases World.step_cases hstep with ⟨v, t, env, n, rfl, hv, ha⟩ | ⟨i, env, f, n, rfl, hf, ha⟩ |
    ⟨i, rfl, rfl⟩ | ⟨i, f, rfl, hf, rfl⟩
  · by_cases hroot : v = w.root
    · subst hroot
      refine h.acts_root ha ?_ (fun _ _ _ he => by cases he) (hown ha)
      rintro t' ht
      obtain rfl := Event.timer.inj ht
      exact hok
    · refine hother hroot ha fun hconv => h.acts_other hroot ?_ ha hconv
      intro r hr
      rw [ha.accepted_self] at hr
      rcases accepted_step (w.config v) (s.node v).standing (.timer t) with
        hc | ⟨he, -⟩ | ⟨_, _, _, _, _, he, -⟩
      · rw [hc] at hr
        exact absurd (congrArg List.length hr) (by simp [Net.accepted, Node.standing])
      · exact absurd he (h.sane.ne_sethlmac ha hroot)
      · cases he
  · simp only [World.Accounts, hf] at hok
    by_cases hroot : f.dst = w.root
    · rw [hroot] at ha
      refine h.acts_root ha (fun _ he => by cases he) ?_ (hown ha)
      intro sender message round he hconv
      obtain ⟨rfl, rfl, rfl⟩ := Event.receive.inj he
      have hcounts := hok hconv
      rw [if_pos hroot] at hcounts
      exact hcounts
    · refine hother hroot ha fun hconv => h.acts_other hroot ?_ ha hconv
      intro r hr hsender hts
      have hjoins := hok hconv
      rw [if_neg hroot] at hjoins
      rw [ha.accepted_self] at hr
      rcases accepted_step (w.config f.dst) (s.node f.dst).standing
          (.receive f.src f.message f.round) with
        hc | ⟨he, -⟩ | ⟨sender, message, rd, timestamp, addr, he, htakes, hc⟩
      · rw [hc] at hr
        exact absurd (congrArg List.length hr) (by simp [Net.accepted, Node.standing])
      · cases he
      · obtain ⟨rfl, rfl, rfl⟩ := Event.receive.inj he
        rw [hc] at hr
        obtain rfl := (List.cons.inj hr).1
        obtain ⟨-, ⟨hlmacPrefix, assigned, hmessage⟩, haddr, -, hacc, hstored⟩ := htakes
        refine hjoins hsender ?_ ?_
        · rw [hmessage, ← hts]
          rfl
        · rw [haddr] at hacc hstored
          rw [hmessage] at hacc hstored ⊢
          exact ⟨hacc, hstored⟩
  · exact hstill rfl fun u => id
  · exact hstill rfl fun u => id

/-- The root declares convergence soundly in every run whose events keep its account. -/
theorem soundConvergence_of_run {es : List (NetEvent α)} {e : NetEvent α}
    (hok : Meets w.step w.Accounts (es ++ [e]) Net.boot)
    (hrun : run w.step es Net.boot = some s) (hstep : w.step e s = some s') :
    w.SoundConvergence s s' := by
  obtain ⟨hes, he⟩ := (meets_append hrun).1 hok
  have hacc : s.Accounted w := run_invariant (fun _ _ _ hs hok hstep => (hs.step hok hstep).1)
    Net.accounted_boot hes hrun
  exact (hacc.step ((meets_cons hstep).1 he).1 hstep).2

/-- A root with one neighbour converges with its SHARE. -/
theorem soundConvergence_of_run_pair : ∃ s s' : Net ℕ,
    (s.node 1).hasConverged = false ∧ (s'.node 1).hasConverged = true ∧
    (World.ofLinks 1 [(1, 2)] .broadcast 1).SoundConvergence s s' := by
  let w := World.ofLinks 1 [(1, 2)] .broadcast 1
  let env : Env ℕ := ⟨15, [0, 1], 150, 9⟩
  let es : List (NetEvent ℕ) :=
    [.timer 1 .hello env, .timer 2 .hello env, .deliver 0 env, .deliver 0 env,
     .timer 1 .sethlmac env, .timer 1 (.sendMessage .scheduled) env, .deliver 0 env,
     .timer 1 .statistic env, .timer 2 .statistic env, .deliver 0 env]
  have hok : Meets w.step w.Accounts (es ++ [.deliver 0 env]) Net.boot := by
    decide +kernel
  have hrun : (run w.step es Net.boot).any (fun s => (w.step (.deliver 0 env) s).any fun s' =>
      (s.node 1).hasConverged = false ∧ (s'.node 1).hasConverged = true) = true := by
    decide +kernel
  obtain ⟨s, hs, hrest⟩ := (Option.any_eq_true _ _).1 hrun
  obtain ⟨s', hs', hfacts⟩ := (Option.any_eq_true _ _).1 hrest
  obtain ⟨hbefore, hafter⟩ := of_decide_eq_true hfacts
  exact ⟨s, s', hbefore, hafter, soundConvergence_of_run hok hs hs'⟩

/-- Node `3` joins behind node `2` before the root's frame reaches it, and its
SetHLMAC names the root: the root makes the convergence test while its
statistic timer is armed, and converges though node `2` has sent nothing. -/
theorem not_soundConvergence :
    ¬ ∀ (es : List (NetEvent ℕ)) (e : NetEvent ℕ) (s s' : Net ℕ),
      run (World.ofLinks 2 [(1, 2), (2, 3), (1, 3)] .broadcast 1).step es Net.boot = some s →
      (World.ofLinks 2 [(1, 2), (2, 3), (1, 3)] .broadcast 1).step e s = some s' →
      (World.ofLinks 2 [(1, 2), (2, 3), (1, 3)] .broadcast 1).SoundConvergence s s' := by
  intro h
  let w := World.ofLinks 2 [(1, 2), (2, 3), (1, 3)] .broadcast 1
  let env : Env ℕ := ⟨15, [0, 1], 150, 9⟩
  let es : List (NetEvent ℕ) :=
    [.timer 1 .hello env, .timer 2 .hello env, .timer 3 .hello env,
     .deliver 0 env, .deliver 0 env, .deliver 0 env, .deliver 0 env, .deliver 0 env,
     .deliver 0 env, .timer 1 .sethlmac env, .timer 1 (.sendMessage .scheduled) env,
     .deliver 0 env, .timer 2 (.sendMessage .scheduled) env, .deliver 2 env,
     .timer 3 (.sendMessage .scheduled) env]
  have hrun : (run w.step es Net.boot).any (fun s => (w.step (.deliver 2 env) s).any fun s' =>
      ¬ w.SoundConvergence s s') = true := by
    decide +kernel
  obtain ⟨s, hs, hrest⟩ := (Option.any_eq_true _ _).1 hrun
  obtain ⟨s', hs', hnot⟩ := (Option.any_eq_true _ _).1 hrest
  exact of_decide_eq_true hnot (h es (.deliver 2 env) s s' hs hs')

end Den2ne
