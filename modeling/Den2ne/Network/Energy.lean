import Den2ne.Network.Sane
import Den2ne.Node.Energy

/-!
# The energy of the network

The energy is the load of every node and the SHAREs that are queued or in the
air. `energy_of_run` says in which runs it stays the same once every node has
drawn its load, and `not_energy` that a parent which has not counted its children
when a SHARE arrives loses it.
-/

namespace Den2ne

open Transition

variable {α : Type*} [DecidableEq α]

namespace Net

/-- The loads of the nodes, and the SHAREs that are queued or in the air. -/
def energy (w : World α) (s : Net α) : ℤ :=
  ∑ v ∈ w.nodes, (s.node v).energy + (s.air.map (·.message.extra)).sum

/-- Every node has drawn its load. -/
def Drawn (w : World α) (s : Net α) : Prop := ∀ v ∈ w.nodes, (s.node v).nodeList ≠ []

/-- The event moves energy without making or losing any: it is balanced at the node
that takes it, and no SHARE is lost or duplicated. -/
def Conserves (w : World α) (s : Net α) (e : NetEvent α) : Prop :=
  match e with
  | .timer v t _ => (s.node v).Balanced (w.config v) w.nodes (.timer t)
  | .deliver i _ => ∀ f ∈ s.air[i]?, (s.node f.dst).Balanced (w.config f.dst) w.nodes
      (.receive f.src f.message f.round)
  | .lose i => ∀ f ∈ s.air[i]?, f.message.extra = 0
  | .duplicate i => ∀ f ∈ s.air[i]?, f.message.extra = 0

instance (w : World α) (s : Net α) : ∀ e : NetEvent α, Decidable (s.Conserves w e)
  | .timer _ _ _ => inferInstanceAs (Decidable (Node.Balanced _ _ _ _))
  | .deliver i _ => inferInstanceAs (Decidable (∀ f ∈ s.air[i]?, Node.Balanced _ _ _ _))
  | .lose i | .duplicate i => inferInstanceAs (Decidable (∀ f ∈ s.air[i]?, _ = _))

instance (w : World α) (s : Net α) : Decidable (s.Drawn w) :=
  inferInstanceAs (Decidable (∀ v ∈ w.nodes, _))

end Net

variable {w : World α} {s s' : Net α} {v : α} {env : Env α} {e : Event α} {air : List (Frame α)}
  {n : Node α}

/-- A frame is lost or duplicated. -/
def NetEvent.lossy : NetEvent α → Bool
  | .lose _ | .duplicate _ => true
  | _ => false

/-- The root starts a round. -/
def NetEvent.startsRound : NetEvent α → Bool
  | .timer _ .sethlmac _ => true
  | _ => false

/-- How many frames a packet of `v` with this destination puts in the air. -/
def World.reach (w : World α) (v dest : α) : ℕ := (w.reaches v dest).length

theorem World.reach_of_mem {a : α} (ha : a ∈ w.nodes) : w.reach v a = 1 := by
  have hne : a ≠ w.linkaddrNull := fun h => w.null_notMem (h ▸ ha)
  rw [World.reach, World.reaches, if_neg hne, if_pos ha, List.length_singleton]

/-- The values that the packets of `v` put in the air. -/
theorem sum_frames (es : List (PayloadEntry α)) :
    ((es.flatMap (w.frames v)).map (·.message.extra)).sum =
      (es.map fun e => (w.reach v e.dest : ℤ) * e.payload.extra).sum := by
  induction es with
  | nil => rfl
  | cons e es ih =>
      have hhead : ((w.frames v e).map (·.message.extra)).sum =
          (w.reach v e.dest : ℤ) * e.payload.extra := by
        have hsame : (fun f : Frame α => f.message.extra) ∘
            (fun u => (⟨v, u, e.payload, e.round⟩ : Frame α)) = fun _ => e.payload.extra := rfl
        rw [World.frames, List.map_map, hsame, List.map_const', List.sum_replicate]
        simp [World.reach]
      rw [List.flatMap_cons, List.map_append, List.sum_append, ih, hhead, List.map_cons,
        List.sum_cons]

/-- In the broadcast build no SHARE waits in a queue. -/
def Net.Unqueued (w : World α) (s : Net α) : Prop :=
  w.hlmacCast = .broadcast → ∀ v, (s.node v).ledger.queued = 0

theorem Net.unqueued_boot : (Net.boot : Net α).Unqueued w := fun _ _ => rfl

theorem Net.Unqueued.acts (h : s.Unqueued w) (ha : w.Acts s v env e air n s') :
    s'.Unqueued w := by
  intro hcast u
  by_cases hu : u = v
  · subst hu
    rw [ha.node_self]
    have hnext : n.ledger.queued = 0 := queued_step hcast (h hcast u) ha.step
    exact hnext
  · rw [ha.node_ne hu]
    exact h hcast u

theorem Net.Unqueued.step {e : NetEvent α} (h : s.Unqueued w) (hstep : w.step e s = some s') :
    s'.Unqueued w := by
  rcases World.step_cases hstep with ⟨v, t, env, n, rfl, hv, ha⟩ | ⟨i, env, f, n, rfl, hf, ha⟩ |
    ⟨i, rfl, rfl⟩ | ⟨i, f, rfl, hf, rfl⟩
  · exact h.acts ha
  · exact h.acts ha
  · exact h
  · exact h

/-- A balanced event at a node that has a load: the energy of the network changes by
what was in the air and is not any more. -/
theorem World.Acts.energy (hs : s.Sane w) (hq : s.Unqueued w) (hd : s.Drawn w) (hv : v ∈ w.nodes)
    (hok : (s.node v).Balanced (w.config v) w.nodes e) (ha : w.Acts s v env e air n s') :
    s'.Drawn w ∧ s'.energy w = ∑ u ∈ w.nodes, (s.node u).energy + e.extra +
      (air.map (·.message.extra)).sum := by
  have hnode : n.nodeList ≠ [] ∧
      n.ledger.energy (w.reach v) = (s.node v).ledger.energy (w.reach v) + e.extra :=
    energy_step (fun a ha => World.reach_of_mem ha) (fun p hp => (hs.table v p hp).1) (hd v hv)
      (fun hcast => hq hcast v) hok ha.step
  obtain ⟨hlisted, henergy⟩ := hnode
  refine ⟨fun u hu => ?_, ?_⟩
  · by_cases huv : u = v
    · subst huv
      rw [ha.node_self]
      exact hlisted
    · rw [ha.node_ne huv]
      exact hd u hu
  · have hother : ∑ u ∈ w.nodes.erase v, (s'.node u).energy =
        ∑ u ∈ w.nodes.erase v, (s.node u).energy :=
      Finset.sum_congr rfl fun u hu => by rw [ha.node_ne (Finset.ne_of_mem_erase hu)]
    have hself : (s'.node v).energy = n.energy := by
      rw [ha.node_self]
      rfl
    have hidle : (s.node v).ledger.energy (w.reach v) = (s.node v).energy := by
      rw [Node.energy_ledger, hs.idle v]
      exact Int.add_zero _
    rw [Node.energy_ledger, hidle, ← sum_frames] at henergy
    rw [Net.energy, ha.air_eq, List.map_append, List.sum_append, ← Finset.add_sum_erase _ _ hv,
      ← Finset.add_sum_erase _ _ hv, hother, hself]
    omega

/-- An event that conserves energy keeps the energy of the network. -/
theorem Net.energy_step {e : NetEvent α} (hs : s.Sane w) (hq : s.Unqueued w) (hd : s.Drawn w)
    (hok : s.Conserves w e) (hstep : w.step e s = some s') :
    s'.Drawn w ∧ s'.energy w = s.energy w := by
  -- what is left when a frame is taken out of the air
  have hleft : ∀ {i : ℕ} {f : Frame α}, s.air[i]? = some f →
      (s.air.map (·.message.extra)).sum =
        f.message.extra + ((s.air.eraseIdx i).map (·.message.extra)).sum := by
    intro i f hf
    obtain ⟨hi, rfl⟩ := List.getElem?_eq_some_iff.1 hf
    have hperm := List.getElem_cons_eraseIdx_perm hi
    exact ((hperm.map fun f : Frame α => f.message.extra).sum_eq).symm
  unfold Net.Conserves at hok
  rcases World.step_cases hstep with ⟨v, t, env, n, rfl, hv, ha⟩ | ⟨i, env, f, n, rfl, hf, ha⟩ |
    ⟨i, rfl, rfl⟩ | ⟨i, f, rfl, hf, rfl⟩
  · obtain ⟨hdrawn, henergy⟩ := ha.energy hs hq hd hv hok
    exact ⟨hdrawn, henergy.trans (congrArg (· + _) (Int.add_zero _))⟩
  · obtain ⟨hdrawn, henergy⟩ := ha.energy hs hq hd (hs.air f (List.mem_of_getElem? hf)).2 (hok f hf)
    refine ⟨hdrawn, henergy.trans ?_⟩
    rw [Net.energy, hleft hf, Int.add_assoc]
    rfl
  · refine ⟨hd, ?_⟩
    cases hf : s.air[i]? with
    | none => rw [List.eraseIdx_of_length_le (List.getElem?_eq_none_iff.1 hf)]
    | some f => rw [Net.energy, Net.energy, hleft hf, hok f hf, Int.zero_add]
  · refine ⟨hd, ?_⟩
    have hzero : f.message.extra = 0 := hok f hf
    simp [Net.energy, hzero]

/-- Once every node has drawn its load, the energy stays the same in a run whose events
all conserve it. -/
theorem energy_of_run (w : World α) (es es' : List (NetEvent α)) (s : Net α)
    (hrun : run w.step es Net.boot = some s) (hdrawn : s.Drawn w)
    (hok : Meets w.step (Net.Conserves w) es' s) :
    Always w.step (fun s' => s'.energy w = s.energy w) es' s := by
  have hsane := Net.sane_of_run hrun
  have hqueued : s.Unqueued w :=
    run_invariant_of_step (fun _ _ _ h hstep => h.step hstep) Net.unqueued_boot hrun
  refine always_of_meets (I := fun s' => s'.Sane w ∧ s'.Unqueued w ∧ s'.Drawn w ∧
    s'.energy w = s.energy w) ?_ (fun _ h => h.2.2.2) ⟨hsane, hqueued, hdrawn, rfl⟩ hok
  rintro t e t' ⟨hs, hq, hd, henergy⟩ hok hstep
  obtain ⟨hd', henergy'⟩ := Net.energy_step hs hq hd hok hstep
  exact ⟨hs.step hstep, hq.step hstep, hd', henergy'.trans henergy⟩

/-- The root, a node and a leaf in a row. -/
def sampleRow : World ℕ := World.ofLinks 2 [(1, 2), (2, 3)] .broadcast 1

/-- Every node draws the load `150`. -/
def sampleEnv : Env ℕ := ⟨15, [0, 1], 150, 9⟩

/-- The nodes hear each other and join a round. -/
def joinRow : List (NetEvent ℕ) :=
  [.timer 1 .hello sampleEnv, .timer 2 .hello sampleEnv, .timer 3 .hello sampleEnv,
    .deliver 0 sampleEnv, .deliver 0 sampleEnv, .deliver 0 sampleEnv, .deliver 0 sampleEnv,
    .timer 1 .sethlmac sampleEnv, .timer 1 (.sendMessage .scheduled) sampleEnv,
    .deliver 0 sampleEnv, .timer 2 (.sendMessage .scheduled) sampleEnv, .deliver 0 sampleEnv,
    .deliver 0 sampleEnv]

def joinedRow : Net ℕ := (run sampleRow.step joinRow Net.boot).get (by decide +kernel)

theorem run_joinRow : run sampleRow.step joinRow Net.boot = some joinedRow :=
  (Option.some_get _).symm

/-- Every node counts its children before a SHARE comes. -/
theorem energy_of_run_row :
    Always sampleRow.step (fun s' => s'.energy sampleRow = joinedRow.energy sampleRow)
      [.timer 1 .statistic sampleEnv, .timer 2 .statistic sampleEnv,
        .timer 3 .statistic sampleEnv, .deliver 0 sampleEnv, .deliver 0 sampleEnv,
        .deliver 0 sampleEnv, .deliver 0 sampleEnv] joinedRow :=
  energy_of_run sampleRow joinRow _ joinedRow run_joinRow (by decide +kernel) (by decide +kernel)

/-- The SHARE of the leaf arrives before its parent has counted its children. -/
theorem not_energy : ¬ ∀ (w : World ℕ) (es es' : List (NetEvent ℕ)) (s : Net ℕ),
    (∀ e ∈ es ++ es', e.lossy = false) → (es ++ es').countP (·.startsRound) = 1 →
    run w.step es Net.boot = some s → s.Drawn w →
    Always w.step (fun s' => s'.energy w = s.energy w) es' s := by
  intro h
  have hrun := h sampleRow joinRow
    [.timer 3 .statistic sampleEnv, .deliver 0 sampleEnv, .deliver 0 sampleEnv] joinedRow
    (by decide +kernel) (by decide +kernel) run_joinRow (by decide +kernel)
  revert hrun
  decide +kernel

end Den2ne
