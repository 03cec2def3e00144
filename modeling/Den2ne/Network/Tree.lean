import Den2ne.Network.History
import Den2ne.Ranked.Descent

/-!
# The tree of a round

With `HLMAC_MAX_HLMAC == 1` a common node stores one address in a round, and
the root stores none but its own. So the address that a node was given extends
*the* address of the node it came from, and along the relation "accepted its
address from" the addresses get shorter: the relation is a tree with the root
at the top.
-/

namespace Den2ne

open Transition Relation

variable {α : Type*} [DecidableEq α]

/-! ## The root -/

/-- Under a bound of one address, the root after `k` rounds: its table holds
its own address of the last round, and it has stored no other. -/
structure Standing.Rooted (cfg : Config α) (s : Standing α) (k : ℕ) : Prop where
  entries : s.hlmacTable.entries = if k = 0 then [] else [⟨hlmacCreateRootAddr 1, k - 1⟩]
  own : ∀ r ∈ s.accepted, r.sender = cfg.linkaddrNodeAddr
  recent : ∀ r ∈ s.accepted, r.timestamp < k
  nodup : (s.accepted.map (·.timestamp)).Nodup

section Rooted

variable {cfg : Config α} {s : Standing α} {k : ℕ}

section

omit [DecidableEq α]

theorem Standing.rooted_boot : (Node.boot : Node α).standing.Rooted cfg 0 :=
  ⟨rfl, nofun, nofun, List.nodup_nil⟩

theorem Standing.Rooted.of_eq {s' : Standing α} (h : s.Rooted cfg k)
    (htable : s'.hlmacTable = s.hlmacTable) (haccepted : s'.accepted = s.accepted) :
    s'.Rooted cfg k := by
  obtain ⟨h₁, h₂, h₃, h₄⟩ := h
  rw [← htable] at h₁
  rw [← haccepted] at h₂ h₃ h₄
  exact ⟨h₁, h₂, h₃, h₄⟩

/-- A new round replaces the address of the last one. -/
theorem Standing.Rooted.storeRoot (h : s.Rooted cfg k) (hclock : s.Clock k)
    (hg : s.Grounded cfg) (hmax : cfg.hlmacMaxHlmac = 1) :
    (s.storeRoot cfg).Rooted cfg (k + 1) := by
  have hnext := hclock.nextTimestamp_eq
  have hrenew : hlmactableRenew s.hlmacTable k = HlmacTable.empty := by
    refine hlmactableRenew_of_newer hg.counted fun entry hentry => ?_
    rw [h.entries] at hentry
    split at hentry
    · cases hentry
    · rw [List.mem_singleton.1 hentry]
      dsimp only
      omega
  have hadd : (hlmactableAdd cfg.hlmacMaxHlmac s.hlmacTable (hlmacCreateRootAddr 1) k).1 = true :=
    fst_hlmactableAdd_of_nil (hmax ▸ .inr one_pos) (by rw [hrenew]; rfl)
  refine ⟨?_, ?_, ?_, ?_⟩
  · rw [if_neg (Nat.succ_ne_zero k)]
    unfold Standing.storeRoot
    dsimp only
    rw [hnext, (entries_hlmactableAdd_of_stored hg.counted hadd).1, hrenew]
    rfl
  all_goals
    unfold Standing.storeRoot
    dsimp only
    rw [hnext, if_pos hadd]
  · intro r hr
    rcases List.mem_cons.1 hr with rfl | hr
    · rfl
    · exact h.own r hr
  · intro r hr
    rcases List.mem_cons.1 hr with rfl | hr
    · exact Nat.lt_succ_self k
    · exact (h.recent r hr).trans (Nat.lt_succ_self k)
  · refine List.nodup_cons.2 ⟨fun hmem => ?_, h.nodup⟩
    obtain ⟨r, hr, hts⟩ := List.mem_map.1 hmem
    exact (h.recent r hr).ne hts

end

/-- The table of the root is full in every round that was started. -/
theorem Standing.Rooted.offer (h : s.Rooted cfg k) (hg : s.Grounded cfg)
    (hmax : cfg.hlmacMaxHlmac = 1) (sender : α) {timestamp : ℕ} (hts : timestamp < k)
    (addr : HlmacAddr) : (s.offer cfg sender timestamp addr).Rooted cfg k := by
  have hentries := h.entries
  rw [if_neg (by omega)] at hentries
  have hrenew : hlmactableRenew s.hlmacTable timestamp = s.hlmacTable := by
    refine hlmactableRenew_of_not_newer fun entry hentry => ?_
    rw [hentries, List.mem_singleton] at hentry
    rw [hentry]
    exact Nat.le_sub_one_of_lt hts
  have hadd : (hlmactableAdd cfg.hlmacMaxHlmac s.hlmacTable addr timestamp).1 = false := by
    by_contra hstored
    have hroom := (entries_hlmactableAdd_of_stored hg.counted (by simpa using hstored)).2
    rw [hrenew, hentries, hmax] at hroom
    simp at hroom
  unfold Standing.offer
  split
  · have hstore : s.store cfg sender timestamp addr = (false, s) := by
      simp [Standing.store, hadd, hg.snd_hlmactableAdd hadd]
    rw [hstore]
    exact h.of_eq rfl rfl
  · exact h

theorem Standing.Rooted.step (h : s.Rooted cfg k) (hclock : s.Clock k) (hg : s.Grounded cfg)
    (hmax : cfg.hlmacMaxHlmac = 1) {e : Event α}
    (he : ∀ sender timestamp hlmacPrefix assigned r,
      e = .receive sender (.sethlmac timestamp hlmacPrefix assigned) r → timestamp < k) :
    (s.step cfg e).Rooted cfg (if e = .timer .sethlmac then k + 1 else k) := by
  unfold Standing.step
  split
  · rw [if_neg nofun]
    exact h.of_eq rfl rfl
  · rw [if_pos rfl]
    exact (h.storeRoot hclock hg hmax).of_eq rfl rfl
  · rw [if_neg nofun]
    exact h
  · rw [if_neg nofun]
    exact h
  · simp only [reduceCtorEq, if_false]
    split
    · exact h
    · unfold Standing.receive
      split
      · rw [Standing.hello_eq]
        exact h.of_eq rfl rfl
      · exact h
      · exact h
      · dsimp only
        split
        · exact h
        · exact h.offer hg hmax _ (he _ _ _ _ _ rfl) _

end Rooted

variable {w : World α} {s s' : Net α} {k : ℕ}

/-! ## Every node has one address of a round -/

/-- What a bound of one address adds to the history of the network. -/
structure Net.OneAddress (w : World α) (s : Net α) (k : ℕ) : Prop where
  rooted : (s.node w.root).standing.Rooted (w.config w.root) k
  single : ∀ v, v ≠ w.root → (s.node v).standing.Single
  dated : ∀ v, v ≠ w.root → (s.node v).standing.Dated

theorem Net.oneAddress_boot : (Net.boot : Net α).OneAddress w 0 where
  rooted := Standing.rooted_boot
  single _ _ := Standing.single_boot
  dated _ _ := Standing.dated_boot

theorem Net.OneAddress.nodup (h : s.OneAddress w k) (v : α) :
    ((s.accepted v).map (·.timestamp)).Nodup := by
  by_cases hv : v = w.root
  · subst hv
    exact h.rooted.nodup
  · exact (h.dated v hv).nodup

theorem Net.OneAddress.acts {v : α} {env : Env α} {e : Event α} {air : List (Frame α)}
    {n : Node α} (h : s.OneAddress w k) (ht : s.Traced w k) (hs : s.Sane w)
    (hmax : w.hlmacMaxHlmac = 1)
    (he : ∀ u message r, e = .receive u message r →
      ∃ f ∈ s.air, f.src = u ∧ f.message = message)
    (ha : w.Acts s v env e air n s') :
    s'.OneAddress w (if e = .timer .sethlmac then k + 1 else k) := by
  have henabled := enabled_of_step _ env ha.step
  constructor
  · by_cases hv : v = w.root
    · subst hv
      rw [ha.standing_self]
      refine h.rooted.step ht.clock (hs.grounded _) hmax fun u ts p asg r hr => ?_
      obtain ⟨f, hf, -, hmsg⟩ := he u _ r hr
      obtain ⟨r', hr', hts, -⟩ := (ht.air f hf ts p asg hmsg).holder
      exact hts ▸ ht.recent f.src r' hr'
    · rw [ha.node_ne (Ne.symm hv), if_neg (hs.ne_sethlmac ha hv)]
      exact h.rooted
  · intro u hu
    by_cases huv : u = v
    · subst huv
      rw [ha.standing_self]
      exact (h.single u hu).step (hs.grounded u) (World.nodeType_of_ne_root hu) hmax henabled
    · rw [ha.node_ne huv]
      exact h.single u hu
  · intro u hu
    by_cases huv : u = v
    · subst huv
      rw [ha.standing_self]
      exact (h.dated u hu).step (h.single u hu) (hs.grounded u) hmax henabled
    · rw [ha.node_ne huv]
      exact h.dated u hu

/-- The history of the network and its one address per round, together. -/
theorem Net.OneAddress.step {e : NetEvent α} (h : s.OneAddress w k) (ht : s.Traced w k)
    (hs : s.Sane w) (hmax : w.hlmacMaxHlmac = 1) (hstep : w.step e s = some s') :
    ∃ k', k ≤ k' ∧ s'.Traced w k' ∧ s'.OneAddress w k' := by
  have hroom : Roomy w.hlmacMaxHlmac := hmax ▸ .inr one_pos
  rcases World.step_cases hstep with ⟨v, t, env, n, rfl, hv, ha⟩ | ⟨i, env, f, n, rfl, hf, ha⟩ |
    ⟨i, rfl, rfl⟩ | ⟨i, f, rfl, hf, rfl⟩
  · refine ⟨_, ?_, ht.acts hs hroom (hs.ne_sethlmac ha) (List.Subset.refl _)
      (fun u message r hr => by cases hr) ha,
      h.acts ht hs hmax (fun u message r hr => by cases hr) ha⟩
    split <;> omega
  · have hair : ∀ u message r, Event.receive f.src f.message f.round = .receive u message r →
        ∃ g ∈ s.air, g.src = u ∧ g.message = message := by
      intro u message r hr
      rw [Event.receive.injEq] at hr
      exact ⟨f, List.mem_of_getElem? hf, hr.1, hr.2.1⟩
    exact ⟨_, le_rfl, ht.acts hs hroom (hs.ne_sethlmac ha) List.eraseIdx_subset hair ha,
      h.acts ht hs hmax hair ha⟩
  · exact ⟨k, le_rfl, ht.of_air List.eraseIdx_subset, h.rooted, h.single, h.dated⟩
  · refine ⟨k, le_rfl, ht.of_air fun g hg => ?_, h.rooted, h.single, h.dated⟩
    rcases List.mem_append.1 hg with hg | hg
    · exact hg
    · exact List.mem_singleton.1 hg ▸ List.mem_of_getElem? hf

theorem Net.oneAddress_of_run (hmax : w.hlmacMaxHlmac = 1) {es : List (NetEvent α)}
    (h : run w.step es Net.boot = some s) :
    s.Sane w ∧ ∃ k, s.Traced w k ∧ s.OneAddress w k := by
  refine run_invariant_of_step (I := fun s => s.Sane w ∧ ∃ k, s.Traced w k ∧ s.OneAddress w k)
    ?_ ⟨Net.sane_boot, 0, Net.traced_boot, Net.oneAddress_boot⟩ h
  rintro s e s' ⟨hs, k, ht, ho⟩ hstep
  obtain ⟨k', -, hk'⟩ := ho.step ht hs hmax hstep
  exact ⟨hs.step hstep, k', hk'⟩

/-! ## The tree -/

/-- `u` accepted its address of round `t` from `v`. -/
def Net.AcceptedFrom (s : Net α) (t : ℕ) (u v : α) : Prop :=
  v ≠ u ∧ ∃ r ∈ s.accepted u, r.timestamp = t ∧ r.sender = v

/-- The node has joined round `t`. -/
def Net.JoinedIn (s : Net α) (t : ℕ) (u : α) : Prop := ∃ r ∈ s.accepted u, r.timestamp = t

/-- The number of ids in the address of round `t`; `0` if there is none. -/
def Net.depth (s : Net α) (t : ℕ) (u : α) : ℕ :=
  match (s.accepted u).find? (·.timestamp = t) with
  | some r => r.address.ids.length
  | none => 0

theorem Net.OneAddress.depth_eq (h : s.OneAddress w k) {v : α} {r : Accept α}
    (hr : r ∈ s.accepted v) : s.depth r.timestamp v = r.address.ids.length := by
  have hfind : (s.accepted v).find? (fun x => decide (x.timestamp = r.timestamp)) = some r :=
    (Keyed.find?_eq_some_iff (h.nodup v)).2 ⟨hr, rfl⟩
  rw [Net.depth, hfind]

omit [DecidableEq α] in
/-- A common node extends the address of the node that it accepted its own from. -/
theorem Net.Traced.extends_sender (ht : s.Traced w k) {v : α} {r : Accept α}
    (hr : r ∈ s.accepted v) (hne : r.sender ≠ v ∨ v ≠ w.root) :
    r.sender ≠ v ∧ ∃ r' ∈ s.accepted r.sender, r'.timestamp = r.timestamp ∧
      ∃ id, r.address.ids = r'.address.ids ++ [id] := by
  rcases ht.derived v r hr with ⟨hv, hsender, -⟩ | ⟨hsender, hlmacPrefix, id, -, hlen, haddr,
      r', hr', hts, hparent⟩
  · rcases hne with hne | hne
    · exact absurd (hsender.trans hv.symm) hne
    · exact absurd hv hne
  · refine ⟨hsender, r', hr', hts, id, ?_⟩
    have hlen' : (hlmacPrefix ++ [id]).length ≤ 255 := by
      rw [List.length_append, List.length_singleton]
      omega
    rw [haddr, hparent, HlmacAddr.ids_ofIds hlen', HlmacAddr.ids_ofIds (by omega)]

/-- Away from the node that it was accepted from, an address gets longer. -/
theorem Net.OneAddress.descends (h : s.OneAddress w k) (ht : s.Traced w k) (t : ℕ) :
    Ranked.Descends (s.AcceptedFrom t) (s.depth t) := by
  rintro u v ⟨hne, r, hr, rfl, rfl⟩
  obtain ⟨-, r', hr', hts, id, hids⟩ := ht.extends_sender hr (.inl hne)
  have hdepth := h.depth_eq hr'
  rw [hts] at hdepth
  rw [hdepth, h.depth_eq hr, hids, List.length_append]
  exact Nat.lt_succ_self _

/-- Every node that joined a round and is not the root was let in by another
node that joined it. -/
theorem Net.Traced.acceptedFrom (ht : s.Traced w k) {t : ℕ} {u : α}
    (hu : s.JoinedIn t u) : u = w.root ∨ ∃ v, s.AcceptedFrom t u v ∧ s.JoinedIn t v := by
  obtain ⟨r, hr, rfl⟩ := hu
  by_cases hroot : u = w.root
  · exact .inl hroot
  · obtain ⟨hne, r', hr', hts, -⟩ := ht.extends_sender hr (.inr hroot)
    exact .inr ⟨r.sender, ⟨hne, r, hr, rfl, rfl⟩, r', hr', hts⟩

/-- Under a bound of one address, in every run, whatever is lost, duplicated,
delayed or reordered, every round is a tree: a node stores at most one address
of the round; a common node's is the one of the node it accepted it from,
followed by one id; and the relation "accepted from" has no cycle and leads
from every node that joined the round to the root. What a table holds was
stored. -/
theorem tree_of_run (hmax : w.hlmacMaxHlmac = 1) {es : List (NetEvent α)}
    (hrun : run w.step es Net.boot = some s) (t : ℕ) :
    (∀ v, (s.accepted v).countP (·.timestamp = t) ≤ 1) ∧
    (∀ v, ∀ entry ∈ (s.node v).hlmacTable.entries,
      ∃ r ∈ s.accepted v, r.timestamp = entry.timestamp ∧ r.address = entry.address) ∧
    (∀ v, v ≠ w.root → ∀ r ∈ s.accepted v, r.timestamp = t →
      r.sender ≠ v ∧ ∃ r' ∈ s.accepted r.sender, r'.timestamp = t ∧
        ∃ id, r.address.ids = r'.address.ids ++ [id]) ∧
    (∀ v, ¬ TransGen (s.AcceptedFrom t) v v) ∧
    (∀ v, s.JoinedIn t v → ReflTransGen (s.AcceptedFrom t) v w.root) := by
  obtain ⟨-, k, ht, ho⟩ := Net.oneAddress_of_run hmax hrun
  refine ⟨?_, ht.table, ?_, ?_, ?_⟩
  · intro v
    refine Keyed.countP_le_one (ho.nodup v) (a := t) fun r _ hr => ?_
    exact of_decide_eq_true hr
  · rintro v hv r hr rfl
    exact ht.extends_sender hr (.inr hv)
  · exact (ho.descends ht t).not_transGen_self
  · intro v hv
    exact (ho.descends ht t).reflTransGen_root (fun u hu => ht.acceptedFrom hu) hv

/-- Three nodes in a line: the last one joins round `0`, and its address leads
back to the root. -/
theorem tree_of_run_line : ∃ s : Net ℕ, s.JoinedIn 0 3 ∧ ReflTransGen (s.AcceptedFrom 0) 3 1 := by
  let w := World.ofLinks 2 [(1, 2), (2, 3)] .broadcast 1
  let env : Env ℕ := ⟨15, [0, 1], 150, 9⟩
  let es : List (NetEvent ℕ) :=
    [.timer 1 .hello env, .timer 2 .hello env, .timer 3 .hello env,
     .deliver 0 env, .deliver 0 env, .deliver 0 env, .deliver 0 env,
     .timer 1 .sethlmac env, .timer 1 (.sendMessage .scheduled) env, .deliver 0 env,
     .timer 2 (.sendMessage .scheduled) env, .deliver 1 env]
  have hrun : (run w.step es Net.boot).any
      (fun s => (s.accepted 3).any (·.timestamp = 0)) = true := by decide +kernel
  obtain ⟨s, hs, hjoined⟩ := (Option.any_eq_true _ _).1 hrun
  have hjoined' : s.JoinedIn 0 3 := by
    obtain ⟨r, hr, hts⟩ := List.any_eq_true.1 hjoined
    exact ⟨r, hr, of_decide_eq_true hts⟩
  exact ⟨s, hjoined', (tree_of_run (w := w) rfl hs 0).2.2.2.2 3 hjoined'⟩

end Den2ne
