import Den2ne.Network.Sane
import Den2ne.Node.Ledger

/-!
# The flows between a parent and a child

A child records the flow to its parent when it shares, whatever it had recorded,
and the parent records the flow from the child when the SHARE arrives, if it had
recorded none. A `Settlement` is the network with the pairs of a parent and a child
whose last share has arrived and was counted. `antisymmetric_of_run` says in
which runs the two records of every such pair are opposite.
-/

namespace Den2ne

open Transition

/-- The network, and which pairs of a parent and a child are settled. -/
structure Settlement (α : Type*) where
  net : Net α
  settled : List (α × α)

variable {α : Type*} [DecidableEq α]

namespace Net

/-- The flow that `v` records for `u`. -/
def inOut (s : Net α) (v u : α) : Option ℤ := (s.node v).neighbourTable.inOutOf u

/-- `p` and `c` record opposite flows for each other. -/
def Opposite (s : Net α) (p c : α) : Prop := ∃ x ∈ s.inOut c p, s.inOut p c = some (-x)

/-- In the step to `s'`, `v` has shared with its parent `u`. -/
def SharesWith (s s' : Net α) (v u : α) : Prop :=
  (s.node v).flow.shareRuns < (s'.node v).flow.shareRuns ∧
    (s'.node v).neighbourTable.flagOf u = some 1

/-- A pair stays settled as long as both are in the tables of each other, and
neither shares with the other again. -/
def Stays (s s' : Net α) (v u : α) : Prop :=
  u ∈ (s'.node v).neighbourTable.addrs ∧ ¬ s.SharesWith s' v u

/-- The SHARE that is delivered: its sender, its receiver and its value. -/
def sharing (s : Net α) (e : NetEvent α) : Option (α × α × ℤ) :=
  match e with
  | .deliver i _ => s.air[i]?.bind fun f =>
      match f.message with
      | .share extra => if f.src = f.dst then none else some (f.src, f.dst, extra)
      | _ => none
  | _ => none

/-- `p` counts a SHARE of `c` that arrives now. -/
def Counts (s : Net α) (p c : α) : Prop := (s.node p).flow.Counts (s.node p).standing c

instance (s : Net α) (p c : α) : Decidable (s.Counts p c) :=
  inferInstanceAs (Decidable (Flow.Counts _ _ _))

instance (s s' : Net α) (v u : α) : Decidable (s.SharesWith s' v u) :=
  inferInstanceAs (Decidable (_ ∧ _))

instance (s s' : Net α) (v u : α) : Decidable (s.Stays s' v u) :=
  inferInstanceAs (Decidable (_ ∧ _))

instance (s : Net α) (p c : α) : Decidable (s.Opposite p c) :=
  inferInstanceAs (Decidable (∃ x ∈ s.inOut c p, _))

/-- The pair whose SHARE is counted. -/
def counted (s : Net α) (e : NetEvent α) : List (α × α) :=
  match s.sharing e with
  | some (c, p, _) => if s.Counts p c then [(p, c)] else []
  | none => []

end Net

/-- One event of the network, and what it settles. -/
def World.settle (w : World α) (e : NetEvent α) (t : Settlement α) : Option (Settlement α) :=
  (w.step e t.net).map fun s => ⟨s, t.net.counted e ++
    t.settled.filter fun q => t.net.Stays s q.1 q.2 ∧ t.net.Stays s q.2 q.1⟩

namespace Settlement

def boot : Settlement α := ⟨Net.boot, []⟩

/-- The two records of every settled pair are opposite. -/
def Antisymmetric (t : Settlement α) : Prop := ∀ q ∈ t.settled, t.net.Opposite q.1 q.2

instance (t : Settlement α) : Decidable t.Antisymmetric :=
  inferInstanceAs (Decidable (∀ q ∈ t.settled, _))

/-- A SHARE that is counted finds no other flow recorded for the child, its value
has an opposite of 16 bits, and the child has recorded it for the parent and
nothing since. A SHARE that is not counted changes no flow of a settled pair. -/
def Recordable (t : Settlement α) (e : NetEvent α) : Prop :=
  match t.net.sharing e with
  | some (c, p, extra) =>
      if t.net.Counts p c then
        (t.net.inOut p c = some 0 ∨ t.net.inOut p c = some extra) ∧ extra ≠ -32768 ∧
          t.net.inOut c p = some (toShort (-extra))
      else ((p, c) ∈ t.settled ∨ (c, p) ∈ t.settled) →
        extra = 0 ∨ t.net.inOut p c ≠ some 0
  | none => True

instance (t : Settlement α) (e : NetEvent α) : Decidable (t.Recordable e) := by
  unfold Recordable
  split <;> infer_instance

end Settlement

variable {w : World α} {s s' : Net α}

/-- A settlement follows the network. -/
theorem World.settle_net (e : NetEvent α) (t : Settlement α) :
    (w.settle e t).map (·.net) = w.step e t.net := by
  rw [World.settle, Option.map_map]
  exact Option.map_id'

/-! ## What one event does to the flows -/

theorem Net.opposite_comm {p c : α} : s.Opposite p c ↔ s.Opposite c p := by
  constructor <;>
  · rintro ⟨x, hx, hopp⟩
    exact ⟨-x, hopp, by rw [neg_neg]; exact hx⟩

/-- The flows that the acting node records. -/
theorem World.Acts.inOut_self {v u : α} {env : Env α} {e : Event α} {air : List (Frame α)}
    {n : Node α} (ha : w.Acts s v env e air n s') {r : ℤ} (hr : s.inOut v u = some r)
    (hstays : s.Stays s' v u) :
    s'.inOut v u = some (match e.share (w.config v) with
      | some (sender, extra) => if u = sender ∧ extra ≠ 0 ∧ r = 0 then extra else r
      | none => r) := by
  obtain ⟨hmem, hshares⟩ := hstays
  have hnode : s'.inOut v u = n.ledger.inOut u := by
    rw [Net.inOut, ha.node_self]
    rfl
  rw [ha.node_self] at hmem
  rw [hnode]
  refine inOut_step ha.step hr ?_ fun hruns hflag => hshares ⟨?_, ?_⟩
  · rw [← Node.addrs_eq_standing]
    exact hmem
  · rw [ha.node_self]
    exact hruns
  · rw [ha.node_self, Node.flagOf_eq_standing]
    exact hflag

theorem World.Acts.inOut_ne {v u u' : α} {env : Env α} {e : Event α} {air : List (Frame α)}
    {n : Node α} (ha : w.Acts s v env e air n s') (hu : u ≠ v) :
    s'.inOut u u' = s.inOut u u' := by
  rw [Net.inOut, ha.node_ne hu, Net.inOut]

/-- A flow that is recorded already stays, and so does the flow of a neighbour
that does not send. -/
theorem World.Acts.inOut_eq {v u u' : α} {env : Env α} {e : Event α} {air : List (Frame α)}
    {n : Node α} (ha : w.Acts s v env e air n s') {r : ℤ} (hr : s.inOut u u' = some r)
    (hstays : s.Stays s' u u')
    (hshare : ∀ sender extra, e.share (w.config v) = some (sender, extra) → u = v →
      u' = sender → extra = 0 ∨ r ≠ 0) :
    s'.inOut u u' = some r := by
  by_cases hu : u = v
  · subst hu
    rw [ha.inOut_self hr hstays]
    split
    · rename_i sender extra heq
      rw [if_neg]
      rintro ⟨hsender, hextra, h0⟩
      exact (hshare sender extra heq rfl hsender).elim hextra fun h => h h0
    · rfl
  · rw [ha.inOut_ne hu, hr]

/-- The SHARE that a delivery hands to the receiver. -/
theorem Net.sharing_deliver {i : ℕ} {env : Env α} {f : Frame α} (hf : s.air[i]? = some f) :
    s.sharing (.deliver i env) =
      ((Event.receive f.src f.message f.round).share (w.config f.dst)).map
        fun x => (x.1, f.dst, x.2) := by
  rw [Net.sharing, hf]
  unfold Event.share
  obtain ⟨src, dst, message, round⟩ := f
  cases message with
  | share extra =>
      have hself : (w.config dst).linkaddrNodeAddr = dst := rfl
      simp only [Option.bind_some, hself]
      split <;> rfl
  | hello => rfl
  | load => rfl
  | sethlmac => rfl

/-! ## The values on the way -/

/-- Every SHARE that waits or is in the air has a 16-bit value. -/
structure Net.Short (s : Net α) : Prop where
  node : ∀ v, (s.node v).ledger.Short
  air : ∀ f ∈ s.air, ∀ extra, f.message = .share extra → IsShort extra

theorem Net.short_boot : (Net.boot : Net α).Short where
  node _ _ hs := absurd hs (Multiset.notMem_zero _)
  air _ hf := absurd hf (List.not_mem_nil)

theorem Net.Short.acts {v : α} {env : Env α} {e : Event α} {air : List (Frame α)} {n : Node α}
    (h : s.Short) (hsub : air ⊆ s.air) (ha : w.Acts s v env e air n s') : s'.Short := by
  have hn : n.ledger.Short := short_step ha.step (h.node v)
  refine ⟨fun u => ?_, fun f hf extra hextra => ?_⟩
  · by_cases hu : u = v
    · subst hu
      rw [ha.node_self]
      intro x hx
      refine hn x (Multiset.mem_add.2 (.inl ?_))
      simpa [Node.ledger, shares] using hx
    · rw [ha.node_ne hu]
      exact h.node u
  · rcases ha.mem_air hf with hf | ⟨-, x, hx, -, hmessage, -⟩
    · exact h.air f (hsub hf) extra hextra
    · have hshare : x.share = some (x.dest, extra) := by
        rw [PayloadEntry.share, ← hmessage, hextra]
      exact hn (x.dest, extra) (Multiset.mem_add.2 (.inr (List.mem_filterMap.2 ⟨x, hx, hshare⟩)))

theorem Net.Short.of_air (h : s.Short) {air : List (Frame α)} (hsub : air ⊆ s.air) :
    Net.Short { s with air := air } := ⟨h.node, fun f hf => h.air f (hsub hf)⟩

theorem Net.Short.step {e : NetEvent α} (h : s.Short) (hstep : w.step e s = some s') :
    s'.Short := by
  rcases World.step_cases hstep with ⟨v, t, env, n, rfl, hv, ha⟩ | ⟨i, env, f, n, rfl, hf, ha⟩ |
    ⟨i, rfl, rfl⟩ | ⟨i, f, rfl, hf, rfl⟩
  · exact h.acts (List.Subset.refl _) ha
  · exact h.acts List.eraseIdx_subset ha
  · exact h.of_air List.eraseIdx_subset
  · refine h.of_air fun g hg => ?_
    rcases List.mem_append.1 hg with hg | hg
    · exact hg
    · exact List.mem_singleton.1 hg ▸ List.mem_of_getElem? hf

theorem Net.Short.sharing (h : s.Short) {e : NetEvent α} {c p : α} {extra : ℤ}
    (hshare : s.sharing e = some (c, p, extra)) : c ≠ p ∧ IsShort extra := by
  unfold Net.sharing at hshare
  split at hshare
  · obtain ⟨f, hf, hshare⟩ := Option.bind_eq_some_iff.1 hshare
    split at hshare
    · rename_i x hmessage
      rw [Option.ite_none_left_eq_some] at hshare
      obtain ⟨hne, heq⟩ := hshare
      obtain ⟨rfl, hrest⟩ := Prod.mk.inj (Option.some.inj heq)
      obtain ⟨rfl, rfl⟩ := Prod.mk.inj hrest
      exact ⟨hne, h.air f (List.mem_of_getElem? hf) _ hmessage⟩
    · cases hshare
  · cases hshare

/-! ## Runs -/

/-- A pair that stays settled keeps its flows in a step without a SHARE, or with
one that changes no flow of it. -/
theorem World.Acts.opposite {v : α} {env : Env α} {e : Event α} {air : List (Frame α)} {n : Node α}
    (ha : w.Acts s v env e air n s') {p c : α} (hopp : s.Opposite p c) (hp : s.Stays s' p c)
    (hc : s.Stays s' c p)
    (hshare : ∀ sender extra, e.share (w.config v) = some (sender, extra) →
      (v, sender) = (p, c) ∨ (v, sender) = (c, p) → extra = 0 ∨ s.inOut v sender ≠ some 0) :
    s'.Opposite p c := by
  obtain ⟨x, hx, hopp⟩ := hopp
  refine ⟨x, ha.inOut_eq hx hc ?_, ha.inOut_eq hopp hp ?_⟩
  · rintro sender extra heq rfl rfl
    refine (hshare p extra heq (.inr rfl)).imp_right fun h h0 => h ?_
    rw [← h0]
    exact hx
  · rintro sender extra heq rfl rfl
    refine (hshare c extra heq (.inl rfl)).imp_right fun h h0 => h ?_
    rw [← h0]
    exact hopp

theorem Event.share_eq_some {cfg : Config α} {e : Event α} {sender : α} {extra : ℤ} :
    e.share cfg = some (sender, extra) ↔
      ∃ round, e = .receive sender (.share extra) round ∧ sender ≠ cfg.linkaddrNodeAddr := by
  constructor
  · intro h
    unfold Event.share at h
    split at h
    · rename_i u x round
      rw [Option.ite_none_left_eq_some] at h
      obtain ⟨rfl, rfl⟩ := Prod.mk.inj (Option.some.inj h.2)
      exact ⟨round, rfl, h.1⟩
    · cases h
  · rintro ⟨round, rfl, hne⟩
    exact if_neg hne

/-- The child stays a neighbour with the flag `0`. -/
theorem World.Acts.stays_of_share {env : Env α} {e : Event α} {air : List (Frame α)} {n : Node α}
    {p c : α} {extra : ℤ} (ha : w.Acts s p env e air n s')
    (hshare : e.share (w.config p) = some (c, extra)) (hcounts : s.Counts p c) :
    s.Stays s' p c := by
  obtain ⟨round, rfl, hself⟩ := Event.share_eq_some.1 hshare
  have hstanding : (s'.node p).standing = (s.node p).standing :=
    ha.standing_self.trans (if_neg hself)
  have hflag : (s'.node p).neighbourTable.flagOf c = some 0 := by
    rw [Node.flagOf_eq_standing, hstanding]
    exact hcounts.1
  refine ⟨?_, fun hshares => ?_⟩
  · by_contra hmem
    rw [NeighbourTable.flagOf, NeighbourTable.find_eq_none.2 hmem] at hflag
    cases hflag
  · exact absurd (hflag.symm.trans hshares.2) (by simp)

/-- A SHARE that is counted leaves opposite flows. -/
theorem World.Acts.opposite_counted {env : Env α} {e : Event α} {air : List (Frame α)} {n : Node α}
    {p c : α} {extra : ℤ} (ha : w.Acts s p env e air n s')
    (hshare : e.share (w.config p) = some (c, extra)) (hcounts : s.Counts p c) (hne : c ≠ p)
    (hshort : IsShort extra) (hextra : extra ≠ -32768)
    (hp : s.inOut p c = some 0 ∨ s.inOut p c = some extra)
    (hc : s.inOut c p = some (toShort (-extra))) : s'.Opposite p c := by
  have hneg : toShort (-extra) = -extra := by
    obtain ⟨hlo, hhi⟩ := hshort
    exact toShort_of_isShort ⟨by omega, by omega⟩
  have hnew : s'.inOut p c = some extra := by
    have hstays := ha.stays_of_share hshare hcounts
    rcases hp with hp | hp <;> rw [ha.inOut_self hp hstays, hshare] <;> dsimp only
    · by_cases h0 : extra = 0 <;> simp [h0]
    · rw [ite_self]
  refine ⟨-extra, ?_, by rw [hnew, neg_neg]⟩
  rw [ha.inOut_ne hne, hc, hneg]
  exact rfl

namespace Settlement

variable {t t' : Settlement α}

theorem mem_settled {e : NetEvent α} {q : α × α}
    (hq : q ∈ t.net.counted e ++
      t.settled.filter fun q => t.net.Stays s' q.1 q.2 ∧ t.net.Stays s' q.2 q.1) :
    q ∈ t.net.counted e ∨ q ∈ t.settled ∧ t.net.Stays s' q.1 q.2 ∧ t.net.Stays s' q.2 q.1 := by
  rw [List.mem_append, List.mem_filter, decide_eq_true_eq] at hq
  exact hq

/-- A step without a SHARE. -/
theorem antisymmetric_of_quiet {v : α} {env : Env α} {e : Event α} {air : List (Frame α)}
    {n : Node α} (h : t.Antisymmetric) (ha : w.Acts t.net v env e air n s')
    (hshare : e.share (w.config v) = none) {q : α × α} (hq : q ∈ t.settled)
    (hp : t.net.Stays s' q.1 q.2) (hc : t.net.Stays s' q.2 q.1) : s'.Opposite q.1 q.2 := by
  refine ha.opposite (h q hq) hp hc fun sender extra heq => ?_
  rw [hshare] at heq
  cases heq

theorem antisymmetric_of_share {env : Env α} {e : Event α} {air : List (Frame α)}
    {n : Node α} {p c : α} {extra : ℤ} (h : t.Antisymmetric) (ha : w.Acts t.net p env e air n s')
    (hshare : e.share (w.config p) = some (c, extra)) {q : α × α} (hq : q ∈ t.settled)
    (hp : t.net.Stays s' q.1 q.2) (hc : t.net.Stays s' q.2 q.1)
    (hok : (p, c) = q ∨ (p, c) = q.swap → extra = 0 ∨ t.net.inOut p c ≠ some 0) :
    s'.Opposite q.1 q.2 := by
  refine ha.opposite (h q hq) hp hc fun sender x heq hpair => ?_
  obtain ⟨rfl, rfl⟩ := Prod.mk.inj (Option.some.inj (hshare.symm.trans heq))
  exact hok hpair

theorem Antisymmetric.step {e : NetEvent α} (h : t.Antisymmetric) (hshort : t.net.Short)
    (hok : t.Recordable e) (hstep : w.settle e t = some t') : t'.Antisymmetric := by
  obtain ⟨s', hs', rfl⟩ := Option.map_eq_some_iff.1 hstep
  intro q hq
  have hcases := mem_settled hq
  unfold Net.counted at hcases
  unfold Recordable at hok
  rcases World.step_cases hs' with ⟨v, x, env, n, rfl, hv, ha⟩ | ⟨i, env, f, n, rfl, hf, ha⟩ |
    ⟨i, rfl, rfl⟩ | ⟨i, f, rfl, hf, rfl⟩
  · obtain ⟨hq, hp, hc⟩ := hcases.resolve_left List.not_mem_nil
    exact antisymmetric_of_quiet h ha rfl hq hp hc
  · cases hshare : (Event.receive f.src f.message f.round).share (w.config f.dst) with
    | none =>
        rw [Net.sharing_deliver (w := w) hf, hshare] at hcases
        obtain ⟨hq, hp, hc⟩ := hcases.resolve_left List.not_mem_nil
        exact antisymmetric_of_quiet h ha hshare hq hp hc
    | some x =>
        obtain ⟨c, extra⟩ := x
        have hsharing : t.net.sharing (.deliver i env) = some (c, f.dst, extra) := by
          rw [Net.sharing_deliver (w := w) hf, hshare, Option.map_some]
        obtain ⟨hne, hvalue⟩ := hshort.sharing hsharing
        simp only [hsharing] at hcases hok
        by_cases hcounts : t.net.Counts f.dst c
        · simp only [if_pos hcounts] at hcases hok
          have hopp := ha.opposite_counted hshare hcounts hne hvalue hok.2.1 hok.1 hok.2.2
          by_cases hpair : q = (f.dst, c) ∨ q = (c, f.dst)
          · rcases hpair with rfl | rfl
            · exact hopp
            · exact Net.opposite_comm.1 hopp
          · rw [not_or] at hpair
            obtain ⟨hq, hp, hc⟩ := hcases.resolve_left fun hmem =>
              hpair.1 (List.mem_singleton.1 hmem)
            refine antisymmetric_of_share h ha hshare hq hp hc fun hpair' => ?_
            rcases hpair' with rfl | hpair'
            · exact absurd rfl hpair.1
            · exact absurd (Prod.swap_injective hpair').symm hpair.2
        · simp only [if_neg hcounts] at hcases hok
          obtain ⟨hq, hp, hc⟩ := hcases.resolve_left List.not_mem_nil
          refine antisymmetric_of_share h ha hshare hq hp hc fun hpair => hok ?_
          rcases hpair with rfl | hpair
          · exact .inl hq
          · refine .inr ?_
            have hswap : q = (c, f.dst) := (Prod.swap_injective hpair).symm
            exact hswap ▸ hq
  · obtain ⟨hq, -⟩ := hcases.resolve_left List.not_mem_nil
    exact h q hq
  · obtain ⟨hq, -⟩ := hcases.resolve_left List.not_mem_nil
    exact h q hq

/-- In a run whose SHAREs can be recorded, the flows of every settled pair are
opposite in every state. -/
theorem antisymmetric_of_run (es : List (NetEvent α)) (hok : Meets w.settle Recordable es boot) :
    Always w.settle Antisymmetric es boot := by
  refine always_of_meets (I := fun t => t.net.Short ∧ t.Antisymmetric) ?_ (fun _ h => h.2)
    ⟨Net.short_boot, List.forall_mem_nil _⟩ hok
  rintro t e t' ⟨hshort, h⟩ hok hstep
  refine ⟨?_, h.step hshort hok hstep⟩
  obtain ⟨s', hs', rfl⟩ := Option.map_eq_some_iff.1 hstep
  exact hshort.step hs'

/-- A root and a child, and what they hear of each other. -/
def samplePair : World ℕ := World.ofLinks 1 [(1, 2)] .broadcast 1

/-- A round of the two nodes in which the child draws the load `load`. -/
def sampleRound (load : ℕ) : List (NetEvent ℕ) :=
  let env : Env ℕ := ⟨15, [0, 1], load, 9⟩
  [.timer 1 .hello env, .timer 2 .hello env, .deliver 0 env, .deliver 0 env,
    .timer 1 .sethlmac env, .timer 1 (.sendMessage .scheduled) env, .deliver 0 env,
    .timer 1 .statistic env, .timer 2 .statistic env, .deliver 0 env, .deliver 0 env]

theorem antisymmetric_of_run_sample :
    Always samplePair.settle Antisymmetric (sampleRound 150 ++ sampleRound 150) boot :=
  antisymmetric_of_run _ (by decide +kernel)

/-- In the second round the child shares `20`, and records `-20`; its parent
keeps the `50` of the first round. -/
theorem not_antisymmetric : ¬ ∀ (w : World ℕ) (es : List (NetEvent ℕ)),
    Always w.settle Antisymmetric es boot := by
  intro h
  have hrun := h samplePair (sampleRound 150 ++ sampleRound 120)
  revert hrun
  decide +kernel

end Settlement

end Den2ne
