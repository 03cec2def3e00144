import Den2ne.Network.World
import Den2ne.Node.Joining
import Den2ne.Node.Queue

/-!
# What holds in every network

`World.step_cases` says once what an event does to a network: one node takes an
event, and what it passed to the MAC goes into the air; or a frame is lost or
duplicated. `Net.Sane` collects what does not depend on the rounds: frames and
table entries name nodes of the network, and a node that is in a table is
heard by the owner of the table.
-/

namespace Den2ne

open Transition

variable {α : Type*} [DecidableEq α] {w : World α} {s s' : Net α}

/-- The node `v` takes the event `e`, and `air` is what is left of the air. -/
structure World.Acts (w : World α) (s : Net α) (v : α) (env : Env α) (e : Event α)
    (air : List (Frame α)) (n : Node α) (s' : Net α) : Prop where
  step : Node.step (w.config v) env e (s.node v) = some n
  eq : s' = ⟨Function.update s.node v { n with macOut := [] },
    air ++ n.macOut.flatMap (w.frames v)⟩

theorem World.act_eq_some {v : α} {env : Env α} {e : Event α} {air : List (Frame α)}
    (h : w.act s v env e air = some s') : ∃ n, w.Acts s v env e air n s' := by
  obtain ⟨n, hn, rfl⟩ := Option.map_eq_some_iff.1 h
  exact ⟨n, hn, rfl⟩

/-- What an event does to the network. -/
theorem World.step_cases {e : NetEvent α} (h : w.step e s = some s') :
    (∃ v t env n, e = .timer v t env ∧ v ∈ w.nodes ∧ w.Acts s v env (.timer t) s.air n s') ∨
    (∃ i env f n, e = .deliver i env ∧ s.air[i]? = some f ∧
      w.Acts s f.dst env (.receive f.src f.message f.round) (s.air.eraseIdx i) n s') ∨
    (∃ i, e = .lose i ∧ s' = { s with air := s.air.eraseIdx i }) ∨
    (∃ i f, e = .duplicate i ∧ s.air[i]? = some f ∧ s' = { s with air := s.air ++ [f] }) := by
  unfold World.step at h
  split at h
  · rename_i v t env
    rw [Option.ite_none_right_eq_some] at h
    obtain ⟨n, hn⟩ := act_eq_some h.2
    exact .inl ⟨v, t, env, n, rfl, h.1, hn⟩
  · rename_i i env
    split at h
    · cases h
    · rename_i f hf
      obtain ⟨n, hn⟩ := act_eq_some h
      exact .inr (.inl ⟨i, env, f, n, rfl, hf, hn⟩)
  · rename_i i
    rw [Option.ite_none_right_eq_some, Option.some.injEq] at h
    exact .inr (.inr (.inl ⟨i, rfl, h.2.symm⟩))
  · rename_i i
    split at h
    · cases h
    · rename_i f hf
      exact .inr (.inr (.inr ⟨i, f, rfl, hf, (Option.some.inj h).symm⟩))

namespace World.Acts

variable {v : α} {env : Env α} {e : Event α} {air : List (Frame α)} {n : Node α}

theorem node_self (h : w.Acts s v env e air n s') : s'.node v = { n with macOut := [] } := by
  rw [h.eq]
  exact Function.update_self v _ s.node

theorem node_ne (h : w.Acts s v env e air n s') {u : α} (hu : u ≠ v) : s'.node u = s.node u := by
  rw [h.eq]
  exact Function.update_of_ne hu _ s.node

theorem standing_self (h : w.Acts s v env e air n s') :
    (s'.node v).standing = (s.node v).standing.step (w.config v) e := by
  rw [h.node_self, ← standing_step (w.config v) env h.step]
  rfl

theorem air_eq (h : w.Acts s v env e air n s') :
    s'.air = air ++ n.macOut.flatMap (w.frames v) := by
  rw [h.eq]

/-- A frame that is new in the air carries what the node passed to the MAC. -/
theorem mem_air (h : w.Acts s v env e air n s') {f : Frame α} (hf : f ∈ s'.air) :
    f ∈ air ∨ f.src = v ∧
      ∃ x ∈ n.macOut, f.dst ∈ w.reaches v x.dest ∧ f.message = x.payload ∧ f.round = x.round := by
  rw [h.air_eq, List.mem_append, List.mem_flatMap] at hf
  rcases hf with hf | ⟨x, hx, hf⟩
  · exact .inl hf
  · obtain ⟨u, hu, rfl⟩ := List.mem_map.1 hf
    exact .inr ⟨rfl, x, hx, hu, rfl, rfl⟩

end World.Acts

theorem World.reaches_mem {v dest u : α} (h : u ∈ w.reaches v dest) : u ∈ w.nodes := by
  unfold World.reaches at h
  split at h
  · exact w.hears_mem v u h
  · split at h
    · rename_i hmem
      exact List.mem_singleton.1 h ▸ hmem
    · cases h

/-! ## The invariant -/

/-- What does not depend on the rounds. -/
structure Net.Sane (w : World α) (s : Net α) : Prop where
  idle : ∀ v, (s.node v).macOut = []
  tidy : ∀ v, Tidy (w.config v) (s.node v)
  grounded : ∀ v, (s.node v).standing.Grounded (w.config v)
  outside : ∀ v, v ∉ w.nodes → s.node v = Node.boot
  timer : ∀ v, v ≠ w.root → (s.node v).sethlmacTimer = false
  air : ∀ f ∈ s.air, f.src ∈ w.nodes ∧ f.dst ∈ w.nodes
  hello : ∀ f ∈ s.air, f.message = .hello → f.dst ∈ w.hears f.src
  table : ∀ v, ∀ u ∈ (s.node v).neighbourTable.addrs, u ∈ w.nodes ∧ v ∈ w.hears u

theorem Net.sane_boot : (Net.boot : Net α).Sane w where
  idle _ := rfl
  tidy _ := tidy_boot
  grounded _ := Standing.grounded_boot
  outside _ _ := rfl
  timer _ _ := rfl
  air := nofun
  hello := nofun
  table _ := nofun

theorem World.nodeType_of_ne_root {v : α} (h : v ≠ w.root) : (w.config v).nodeType = .common :=
  if_neg h

omit [DecidableEq α] in
theorem Node.addrs_eq_standing (n : Node α) : n.neighbourTable.addrs = n.standing.addrs :=
  n.neighbourTable.addrs_eq_marks

/-- A neighbour that a node has not had before has sent it a Hello. -/
theorem World.Acts.addrs_cases {v a : α} {env : Env α} {e : Event α} {air : List (Frame α)}
    {n : Node α} (ha : w.Acts s v env e air n s') (hmem : a ∈ (s'.node v).neighbourTable.addrs) :
    a ∈ (s.node v).neighbourTable.addrs ∨ ∃ r, e = .receive a .hello r ∧ a ≠ v := by
  rw [Node.addrs_eq_standing, ha.standing_self] at hmem
  rw [Node.addrs_eq_standing]
  exact Standing.addrs_step hmem

/-- A node of a sane network takes an event: the network stays sane. -/
theorem Net.Sane.acts {v : α} {env : Env α} {e : Event α} {air : List (Frame α)} {n : Node α}
    (h : s.Sane w) (hv : v ∈ w.nodes) (hsub : air ⊆ s.air)
    (he : ∀ u r, e = .receive u .hello r → u ∈ w.nodes ∧ v ∈ w.hears u)
    (ha : w.Acts s v env e air n s') : s'.Sane w := by
  obtain ⟨htidy, hhello⟩ := (h.tidy v).step (h.idle v) ha.step
  constructor
  · intro u
    by_cases hu : u = v
    · rw [hu, ha.node_self]
    · rw [ha.node_ne hu]
      exact h.idle u
  · intro u
    by_cases hu : u = v
    · rw [hu, ha.node_self]
      exact ⟨htidy.queue, htidy.statistic⟩
    · rw [ha.node_ne hu]
      exact h.tidy u
  · intro u
    by_cases hu : u = v
    · rw [hu, ha.standing_self]
      exact (h.grounded v).step e
    · rw [ha.node_ne hu]
      exact h.grounded u
  · intro u hu
    have hne : u ≠ v := fun heq => hu (heq ▸ hv)
    rw [ha.node_ne hne]
    exact h.outside u hu
  · intro u hu
    by_cases huv : u = v
    · subst huv
      change (s'.node u).standing.sethlmacTimer = false
      rw [ha.standing_self]
      exact Standing.sethlmacTimer_step (World.nodeType_of_ne_root hu) (h.timer u hu) e
    · rw [ha.node_ne huv]
      exact h.timer u hu
  · intro f hf
    rcases ha.mem_air hf with hf | ⟨hsrc, x, hx, hdst, -, -⟩
    · exact h.air f (hsub hf)
    · exact ⟨hsrc ▸ hv, World.reaches_mem hdst⟩
  · intro f hf hmsg
    rcases ha.mem_air hf with hf | ⟨hsrc, x, hx, hdst, hpayload, -⟩
    · exact h.hello f (hsub hf) hmsg
    · have hdest := hhello x hx (hpayload ▸ hmsg)
      have hnull : (w.config v).linkaddrNull = w.linkaddrNull := rfl
      rw [World.reaches, hdest, hnull, if_pos rfl] at hdst
      exact hsrc ▸ hdst
  · intro u a ha'
    by_cases hu : u = v
    · subst hu
      rcases ha.addrs_cases ha' with hold | ⟨r, hr, -⟩
      · exact h.table u a hold
      · exact he a r hr
    · rw [ha.node_ne hu] at ha'
      exact h.table u a ha'

/-- Every event keeps the network sane. -/
theorem Net.Sane.step {e : NetEvent α} (h : s.Sane w) (hs : w.step e s = some s') :
    s'.Sane w := by
  rcases World.step_cases hs with ⟨v, t, env, n, rfl, hv, ha⟩ | ⟨i, env, f, n, rfl, hf, ha⟩ |
    ⟨i, rfl, rfl⟩ | ⟨i, f, rfl, hf, rfl⟩
  · exact h.acts hv (List.Subset.refl _) (fun u r hr => by cases hr) ha
  · have hmem := List.mem_of_getElem? hf
    refine h.acts (h.air f hmem).2 (List.eraseIdx_subset) ?_ ha
    intro u r hr
    rw [Event.receive.injEq] at hr
    obtain ⟨rfl, hmsg, -⟩ := hr
    exact ⟨(h.air f hmem).1, h.hello f hmem hmsg⟩
  · exact { h with
      air := fun f hf => h.air f (List.mem_of_mem_eraseIdx hf)
      hello := fun f hf => h.hello f (List.mem_of_mem_eraseIdx hf) }
  · have hmem := List.mem_of_getElem? hf
    have hair : ∀ g ∈ s.air ++ [f], g ∈ s.air := by
      intro g hg
      rcases List.mem_append.1 hg with hg | hg
      · exact hg
      · exact List.mem_singleton.1 hg ▸ hmem
    exact { h with
      air := fun g hg => h.air g (hair g hg)
      hello := fun g hg => h.hello g (hair g hg) }

/-- Every network that is reached from boot is sane. -/
theorem Net.sane_of_run {es : List (NetEvent α)} (h : run w.step es Net.boot = some s) :
    s.Sane w :=
  run_invariant_of_step (fun _ _ _ hs hstep => hs.step hstep) Net.sane_boot h

end Den2ne
