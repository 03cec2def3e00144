import Den2ne.Network.Sane
import Den2ne.Node.Provenance

/-!
# The history of a network

Every address that a node has stored extends, by one id, an address of the same
round that the node it came from had stored; every SetHLMAC that is queued or
in the air advertises an address that its sender has stored; and the rounds of
all of them were started by the root. `Net.Traced` says so, whatever is lost,
duplicated, delayed or reordered.
-/

namespace Den2ne

open Transition

variable {α : Type*} [DecidableEq α] {w : World α} {s s' : Net α}

/-- The addresses that `v` has stored. -/
def Net.accepted (s : Net α) (v : α) : List (Accept α) := (s.node v).history.accepted

/-- A SetHLMAC of `v` advertises an address that `v` has stored, to none of
the nodes it came from. -/
structure Net.Backed (s : Net α) (v : α) (timestamp : ℕ) (hlmacPrefix : List UInt8)
    (assigned : List (UInt8 × α)) (round : ℕ) : Prop where
  round : round = timestamp
  ne_nil : hlmacPrefix ≠ []
  length_le : hlmacPrefix.length ≤ 123
  holder : ∃ r ∈ s.accepted v, r.timestamp = timestamp ∧
    r.address = HlmacAddr.ofIds hlmacPrefix ∧ ∀ x ∈ assigned, x.2 ≠ r.sender

/-- An address of `v` is the root's own, or extends an address of the node that
it came from. -/
def Net.Derived (w : World α) (s : Net α) (v : α) (r : Accept α) : Prop :=
  (v = w.root ∧ r.sender = w.root ∧ r.address = HlmacAddr.ofIds [1]) ∨
  (r.sender ≠ v ∧ ∃ hlmacPrefix id, hlmacPrefix ≠ [] ∧ hlmacPrefix.length ≤ 123 ∧
    r.address = HlmacAddr.ofIds (hlmacPrefix ++ [id]) ∧
    ∃ r' ∈ s.accepted r.sender, r'.timestamp = r.timestamp ∧
      r'.address = HlmacAddr.ofIds hlmacPrefix)

/-- The network after the root has started `k` rounds. -/
structure Net.Traced (w : World α) (s : Net α) (k : ℕ) : Prop where
  clock : (s.node w.root).standing.Clock k
  recent : ∀ v, ∀ r ∈ s.accepted v, r.timestamp < k
  derived : ∀ v, ∀ r ∈ s.accepted v, s.Derived w v r
  table : ∀ v, ∀ entry ∈ (s.node v).hlmacTable.entries,
    ∃ r ∈ s.accepted v, r.timestamp = entry.timestamp ∧ r.address = entry.address
  offers : ∀ v timestamp hlmacPrefix assigned round,
    (s.node v).Offers timestamp hlmacPrefix assigned round →
    s.Backed v timestamp hlmacPrefix assigned round
  air : ∀ f ∈ s.air, ∀ timestamp hlmacPrefix assigned,
    f.message = .sethlmac timestamp hlmacPrefix assigned →
    s.Backed f.src timestamp hlmacPrefix assigned f.round

section

omit [DecidableEq α]

theorem Net.traced_boot : (Net.boot : Net α).Traced w 0 where
  clock := Standing.clock_boot
  recent _ := nofun
  derived _ := nofun
  table _ := nofun
  offers := by
    rintro v timestamp hlmacPrefix assigned round ⟨e, he, -⟩
    cases he
  air := nofun

theorem Net.Backed.mono {v : α} {timestamp : ℕ} {hlmacPrefix : List UInt8}
    {assigned : List (UInt8 × α)} {round : ℕ}
    (h : s.Backed v timestamp hlmacPrefix assigned round)
    (hsub : s.accepted v ⊆ s'.accepted v) :
    s'.Backed v timestamp hlmacPrefix assigned round := by
  obtain ⟨r, hr, hholder⟩ := h.holder
  exact ⟨h.round, h.ne_nil, h.length_le, r, hsub hr, hholder⟩

theorem Net.Derived.mono {v : α} {r : Accept α} (h : s.Derived w v r)
    (hsub : ∀ u, s.accepted u ⊆ s'.accepted u) : s'.Derived w v r := by
  rcases h with h | ⟨hne, hlmacPrefix, id, hnil, hlen, haddr, r', hr', hparent⟩
  · exact .inl h
  · exact .inr ⟨hne, hlmacPrefix, id, hnil, hlen, haddr, r', hsub _ hr', hparent⟩

theorem Net.Derived.address {v : α} {r : Accept α} (h : s.Derived w v r) :
    ∃ l, r.address = HlmacAddr.ofIds l ∧ l ≠ [] ∧ l.length ≤ 124 := by
  rcases h with ⟨-, -, haddr⟩ | ⟨-, hlmacPrefix, id, -, hlen, haddr, -⟩
  · exact ⟨_, haddr, by simp, by simp⟩
  · refine ⟨_, haddr, by simp, ?_⟩
    rw [List.length_append]
    exact Nat.succ_le_succ hlen

/-- A SetHLMAC that advertises a derived address is backed by it. -/
theorem Net.Derived.backed {v : α} {r : Accept α} (h : s.Derived w v r)
    (hr : r ∈ s.accepted v) {ids : List (UInt8 × α)} {hlmacPrefix : List UInt8}
    {assigned : List (UInt8 × α)} {round : ℕ}
    (hissued : Issued ids r.address r.sender r.timestamp hlmacPrefix assigned round) :
    s.Backed v r.timestamp hlmacPrefix assigned round := by
  obtain ⟨l, haddr, hnil, hlen⟩ := h.address
  have hpre : hlmacPrefix = l := by
    rw [hissued.prefix_eq, haddr]
    exact HlmacAddr.ids_ofIds (by omega)
  refine ⟨hissued.round, hpre ▸ hnil, ?_, r, hr, rfl, hpre ▸ haddr,
    fun x hx => (hissued.assigned x hx).2⟩
  have hlen' := hissued.len_le
  rw [haddr, HlmacAddr.toNat_ofIds_len (by omega)] at hlen'
  rw [hpre]
  exact hlen'

end

/-! ## One node acts -/

section Acts

variable {v : α} {env : Env α} {e : Event α} {air : List (Frame α)} {n : Node α} {k : ℕ}

theorem World.Acts.accepted_self (ha : w.Acts s v env e air n s') :
    s'.accepted v = ((s.node v).standing.step (w.config v) e).accepted := by
  rw [← ha.standing_self]
  rfl

theorem World.Acts.accepted_subset (ha : w.Acts s v env e air n s') (u : α) :
    s.accepted u ⊆ s'.accepted u := by
  by_cases hu : u = v
  · subst hu
    rw [ha.accepted_self]
    rcases accepted_step (w.config u) (s.node u).standing e with
      h | ⟨-, h⟩ | ⟨sender, message, r, timestamp, addr, -, -, h⟩
    · rw [h]
      exact List.Subset.refl _
    · rw [h]
      exact List.subset_cons_self _ _
    · rw [h]
      exact List.subset_cons_self _ _
  · rw [Net.accepted, Net.accepted, ha.node_ne hu]
    exact List.Subset.refl _

/-- Where an event that stores an address takes it from. -/
theorem Net.Traced.derived_of_new (h : s.Traced w k) (hv : v ≠ w.root → e ≠ .timer .sethlmac)
    (he : ∀ u message r, e = .receive u message r →
      ∃ f ∈ s.air, f.src = u ∧ f.message = message)
    (ha : w.Acts s v env e air n s') {r : Accept α}
    (hr : s'.accepted v = r :: s.accepted v) :
    s'.Derived w v r ∧ r.timestamp < if e = .timer .sethlmac then k + 1 else k := by
  have hsub := ha.accepted_subset
  rw [ha.accepted_self] at hr
  rcases accepted_step (w.config v) (s.node v).standing e with
    hold | ⟨rfl, hown⟩ | ⟨sender, message, rd, timestamp, addr, rfl, htakes, hnew⟩
  · rw [hold] at hr
    exact absurd (congrArg List.length hr) (by simp [Net.accepted, Node.standing])
  · have hroot : v = w.root := by
      by_contra hne
      exact hv hne rfl
    rw [hown, List.cons.injEq] at hr
    obtain ⟨rfl, -⟩ := hr
    refine ⟨.inl ⟨hroot, hroot, rfl⟩, ?_⟩
    rw [if_pos rfl]
    have hclock := h.clock.nextTimestamp_eq
    rw [← hroot] at hclock
    change nextTimestamp (s.node v).standing.timestamp < k + 1
    omega
  · rw [hnew, List.cons.injEq] at hr
    obtain ⟨rfl, -⟩ := hr
    obtain ⟨f, hf, rfl, hmsg⟩ := he sender message rd rfl
    obtain ⟨hlmacPrefix, assigned, hmessage⟩ := htakes.message_eq
    have hbacked := h.air f hf timestamp hlmacPrefix assigned (hmsg.trans hmessage)
    obtain ⟨r', hr', hts, haddr', -⟩ := hbacked.holder
    have hspec := htakes.specified
    rw [htakes.addr_eq, hmessage] at hspec
    obtain ⟨id, -, haddr⟩ := iotoriiExtractAddress_spec hspec
    rw [← hmessage, ← htakes.addr_eq, hlmacAddNewId_ofIds (by have := hbacked.length_le; omega)]
      at haddr
    refine ⟨.inr ⟨htakes.sender_ne, hlmacPrefix, id, hbacked.ne_nil, hbacked.length_le, haddr,
      r', hsub _ hr', hts, haddr'⟩, ?_⟩
    simp only [reduceCtorEq, if_false]
    exact hts ▸ h.recent f.src r' hr'

/-- The root always has room for its own address in a new round. -/
theorem Net.Traced.root_stores (h : s.Traced w k) (hs : s.Sane w) (hroom : Roomy w.hlmacMaxHlmac) :
    (hlmactableAdd (w.config w.root).hlmacMaxHlmac (s.node w.root).hlmacTable
      (hlmacCreateRootAddr 1) (nextTimestamp (s.node w.root).timestamp)).1 = true := by
  refine fst_hlmactableAdd_of_nil hroom ?_
  rw [hlmactableRenew_of_newer]
  · rfl
  · exact (hs.grounded w.root).counted
  · intro entry hentry
    obtain ⟨r, hr, hts, -⟩ := h.table w.root entry hentry
    have hclock := h.clock.nextTimestamp_eq
    have hrecent := h.recent w.root r hr
    change entry.timestamp < nextTimestamp (s.node w.root).standing.timestamp
    omega

theorem Net.Traced.acts (h : s.Traced w k) (hs : s.Sane w) (hroom : Roomy w.hlmacMaxHlmac)
    (hv : v ≠ w.root → e ≠ .timer .sethlmac) (hsub : air ⊆ s.air)
    (he : ∀ u message r, e = .receive u message r →
      ∃ f ∈ s.air, f.src = u ∧ f.message = message)
    (ha : w.Acts s v env e air n s') :
    s'.Traced w (if e = .timer .sethlmac then k + 1 else k) := by
  have hmono := ha.accepted_subset
  have hk : k ≤ if e = .timer .sethlmac then k + 1 else k := by
    split <;> omega
  -- the addresses of `v`: old ones, or the one that the event stored
  have haccepted : ∀ r ∈ s'.accepted v, r ∈ s.accepted v ∨ s'.accepted v = r :: s.accepted v := by
    intro r hr
    rw [ha.accepted_self] at hr ⊢
    rcases accepted_step (w.config v) (s.node v).standing e with
      hc | ⟨-, hc⟩ | ⟨sender, message, rd, timestamp, addr, -, -, hc⟩
    · rw [hc] at hr
      exact .inl hr
    · rw [hc] at hr ⊢
      rcases List.mem_cons.1 hr with rfl | hr
      · exact .inr rfl
      · exact .inl hr
    · rw [hc] at hr ⊢
      rcases List.mem_cons.1 hr with rfl | hr
      · exact .inr rfl
      · exact .inl hr
  -- a SetHLMAC that is ready at `v` is backed
  have hoffers : ∀ ts p asg rd, n.Offers ts p asg rd → s'.Backed v ts p asg rd := by
    intro ts p asg rd ho
    rcases offers_step ha.step ho with ho | ⟨sender, addr, hissued, hnew | ⟨rfl, hfull⟩⟩
    · exact (h.offers v ts p asg rd ho).mono (hmono v)
    · rw [← ha.accepted_self] at hnew
      have hderived := (h.derived_of_new hv he ha hnew).1
      exact hderived.backed (hnew ▸ List.mem_cons_self) hissued
    · have hroot : v = w.root := by
        by_contra hne
        exact hv hne rfl
      subst hroot
      rw [h.root_stores hs hroom] at hfull
      cases hfull
  constructor
  · by_cases hroot : w.root = v
    · subst hroot
      rw [ha.standing_self]
      exact h.clock.step (enabled_of_step _ env ha.step)
    · rw [ha.node_ne hroot, if_neg (hv (Ne.symm hroot))]
      exact h.clock
  · intro u r hr
    by_cases hu : u = v
    · subst hu
      rcases haccepted r hr with hr | hnew
      · exact (h.recent u r hr).trans_le hk
      · exact (h.derived_of_new hv he ha hnew).2
    · rw [Net.accepted, ha.node_ne hu] at hr
      exact (h.recent u r hr).trans_le hk
  · intro u r hr
    by_cases hu : u = v
    · subst hu
      rcases haccepted r hr with hr | hnew
      · exact (h.derived u r hr).mono hmono
      · exact (h.derived_of_new hv he ha hnew).1
    · rw [Net.accepted, ha.node_ne hu] at hr
      exact (h.derived u r hr).mono hmono
  · intro u entry hentry
    by_cases hu : u = v
    · subst hu
      have hentry' : entry ∈ ((s.node u).standing.step (w.config u) e).hlmacTable.entries := by
        rw [← ha.standing_self]
        exact hentry
      rcases table_step hentry' with hold | ⟨r, hnew, hr⟩
      · obtain ⟨r, hr, hmatch⟩ := h.table u entry hold
        exact ⟨r, hmono u hr, hmatch⟩
      · rw [← ha.accepted_self] at hnew
        exact ⟨r, hnew ▸ List.mem_cons_self, hr⟩
    · rw [ha.node_ne hu] at hentry
      obtain ⟨r, hr, hmatch⟩ := h.table u entry hentry
      exact ⟨r, hmono u hr, hmatch⟩
  · intro u ts p asg rd ho
    by_cases hu : u = v
    · subst hu
      rw [ha.node_self] at ho
      obtain ⟨x, hx, hp, hrd⟩ := ho
      refine hoffers ts p asg rd ⟨x, ?_, hp, hrd⟩
      rw [Node.outgoing, List.append_nil] at hx
      exact List.mem_append_left _ hx
    · rw [ha.node_ne hu] at ho
      exact (h.offers u ts p asg rd ho).mono (hmono u)
  · intro f hf ts p asg hmsg
    rcases ha.mem_air hf with hf | ⟨rfl, x, hx, -, hpayload, hround⟩
    · exact (h.air f (hsub hf) ts p asg hmsg).mono (hmono _)
    · refine hoffers ts p asg f.round ⟨x, ?_, hpayload ▸ hmsg, hround.symm⟩
      exact List.mem_append_right _ hx

end Acts

/-! ## Runs -/

/-- The root is the only node with a round timer. -/
theorem Net.Sane.ne_sethlmac (hs : s.Sane w) {v : α} {env : Env α} {e : Event α}
    {air : List (Frame α)} {n : Node α} (ha : w.Acts s v env e air n s') :
    v ≠ w.root → e ≠ .timer .sethlmac := by
  intro hv he
  have harmed := (enabled_of_step _ env ha.step).sethlmac he
  exact Bool.false_ne_true ((hs.timer v hv).symm.trans harmed)

omit [DecidableEq α] in
theorem Net.Traced.of_air {k : ℕ} (h : s.Traced w k) {air : List (Frame α)} (hsub : air ⊆ s.air) :
    Net.Traced w { s with air := air } k where
  clock := h.clock
  recent := h.recent
  derived := h.derived
  table := h.table
  offers v ts p asg rd ho := (h.offers v ts p asg rd ho).mono (List.Subset.refl _)
  air f hf ts p asg hmsg := (h.air f (hsub hf) ts p asg hmsg).mono (List.Subset.refl _)

/-- Every event keeps the history, and the root may start a round. -/
theorem Net.Traced.step {k : ℕ} {e : NetEvent α} (h : s.Traced w k) (hs : s.Sane w)
    (hroom : Roomy w.hlmacMaxHlmac) (hstep : w.step e s = some s') :
    ∃ k', k ≤ k' ∧ s'.Traced w k' := by
  rcases World.step_cases hstep with ⟨v, t, env, n, rfl, hv, ha⟩ | ⟨i, env, f, n, rfl, hf, ha⟩ |
    ⟨i, rfl, rfl⟩ | ⟨i, f, rfl, hf, rfl⟩
  · refine ⟨_, ?_, h.acts hs hroom (hs.ne_sethlmac ha) (List.Subset.refl _)
      (fun u message r hr => by cases hr) ha⟩
    split <;> omega
  · refine ⟨_, ?_, h.acts hs hroom (hs.ne_sethlmac ha) List.eraseIdx_subset ?_ ha⟩
    · split <;> omega
    · intro u message r hr
      rw [Event.receive.injEq] at hr
      obtain ⟨rfl, rfl, -⟩ := hr
      exact ⟨f, List.mem_of_getElem? hf, rfl, rfl⟩
  · exact ⟨k, le_rfl, h.of_air List.eraseIdx_subset⟩
  · refine ⟨k, le_rfl, h.of_air fun g hg => ?_⟩
    rcases List.mem_append.1 hg with hg | hg
    · exact hg
    · exact List.mem_singleton.1 hg ▸ List.mem_of_getElem? hf

theorem World.Acts.accepted_of_not_roomy (hroom : ¬ Roomy w.hlmacMaxHlmac) {v : α} {env : Env α}
    {e : Event α} {air : List (Frame α)} {n : Node α} (ha : w.Acts s v env e air n s')
    (h : ∀ u, s.accepted u = []) (u : α) : s'.accepted u = [] := by
  by_cases hu : u = v
  · subst hu
    rw [ha.accepted_self]
    rcases accepted_step (w.config u) (s.node u).standing e with
      hold | ⟨rfl, -⟩ | ⟨sender, message, rd, timestamp, addr, -, htakes, -⟩
    · rw [hold]
      exact h u
    · refine (if_neg fun hstored => ?_).trans (h u)
      exact Bool.false_ne_true ((fst_hlmactableAdd_of_not_roomy hroom).symm.trans hstored)
    · exact absurd ((fst_hlmactableAdd_of_not_roomy hroom).symm.trans htakes.stored)
        Bool.false_ne_true
  · rw [Net.accepted, ha.node_ne hu]
    exact h u

theorem World.accepted_of_not_roomy (hroom : ¬ Roomy w.hlmacMaxHlmac) {e : NetEvent α}
    (hstep : w.step e s = some s') (h : ∀ u, s.accepted u = []) (u : α) : s'.accepted u = [] := by
  rcases World.step_cases hstep with ⟨v, t, env, n, rfl, hv, ha⟩ | ⟨i, env, f, n, rfl, hf, ha⟩ |
    ⟨i, rfl, rfl⟩ | ⟨i, f, rfl, hf, rfl⟩
  · exact ha.accepted_of_not_roomy hroom h u
  · exact ha.accepted_of_not_roomy hroom h u
  · exact h u
  · exact h u

/-- The history of a network under any bound on the number of addresses. -/
structure Net.Recorded (w : World α) (s : Net α) : Prop where
  traced : Roomy w.hlmacMaxHlmac → ∃ k, s.Traced w k
  empty : ¬ Roomy w.hlmacMaxHlmac → ∀ v, s.accepted v = []

omit [DecidableEq α] in
theorem Net.recorded_boot : (Net.boot : Net α).Recorded w :=
  ⟨fun _ => ⟨0, Net.traced_boot⟩, fun _ _ => rfl⟩

theorem Net.Recorded.step {e : NetEvent α} (h : s.Recorded w) (hs : s.Sane w)
    (hstep : w.step e s = some s') : s'.Recorded w := by
  refine ⟨fun hroom => ?_, fun hroom => World.accepted_of_not_roomy hroom hstep (h.empty hroom)⟩
  obtain ⟨k, ht⟩ := h.traced hroom
  obtain ⟨k', -, ht'⟩ := ht.step hs hroom hstep
  exact ⟨k', ht'⟩

omit [DecidableEq α] in
/-- No address is of the round that the root starts next. -/
theorem Net.Recorded.timestamp_ne (h : s.Recorded w) {v : α} {r : Accept α}
    (hr : r ∈ s.accepted v) : r.timestamp ≠ nextTimestamp (s.node w.root).timestamp := by
  by_cases hroom : Roomy w.hlmacMaxHlmac
  · obtain ⟨k, ht⟩ := h.traced hroom
    have hrecent := ht.recent v r hr
    have hclock := ht.clock.nextTimestamp_eq
    change r.timestamp ≠ nextTimestamp (s.node w.root).standing.timestamp
    omega
  · rw [h.empty hroom v] at hr
    cases hr

end Den2ne
