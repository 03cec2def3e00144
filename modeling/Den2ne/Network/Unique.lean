import Den2ne.Network.History

/-!
# Addresses are unique

An address is a path of ids, each given out by a node to one of its neighbours.
If nobody gives the same id under the same address of a round to two
neighbours, no two nodes hold the same address: `Net.Unambiguous` says so of
everything that is queued, in the air or stored, and `Net.eq_of_address` goes
up the two paths. A node gives out its ids once for each address that it
stores, so what an event must meet is `World.GrantsOnce`.
-/

namespace Den2ne

open Transition

variable {α : Type*} [DecidableEq α]

/-- The neighbours other than `sender` have different ids. -/
def Standing.DistinctIds (s : Standing α) (sender : α) : Prop :=
  ((s.marks.filter (·.addr ≠ sender)).map (·.numberId)).Nodup

/-- When the node stores an address, the neighbours that it may pass it on to
have different ids, and it has not stored that address in that round before. -/
def Standing.GrantsOnce (cfg : Config α) (s : Standing α) (e : Event α) : Prop :=
  match e with
  | .timer .sethlmac => s.DistinctIds cfg.linkaddrNodeAddr
  | .receive sender (.sethlmac timestamp hlmacPrefix assigned) _ =>
      let addr := iotoriiExtractAddress cfg.linkaddrNodeAddr
        (.sethlmac timestamp hlmacPrefix assigned)
      sender ≠ cfg.linkaddrNodeAddr → hlmacIsUnspecifiedAddr addr = false →
      s.accepts timestamp addr = true →
      (hlmactableAdd cfg.hlmacMaxHlmac s.hlmacTable addr timestamp).1 = true →
      s.DistinctIds sender ∧ ∀ r ∈ s.accepted, ¬ (r.timestamp = timestamp ∧ r.address = addr)
  | _ => True

instance (cfg : Config α) (s : Standing α) (e : Event α) : Decidable (s.GrantsOnce cfg e) := by
  unfold Standing.GrantsOnce Standing.DistinctIds
  split <;> infer_instance

/-- The node at which the event takes place stores an address only as
`Standing.GrantsOnce` says. -/
def World.GrantsOnce (w : World α) (s : Net α) (e : NetEvent α) : Prop :=
  match e with
  | .timer v t _ => (s.node v).standing.GrantsOnce (w.config v) (.timer t)
  | .deliver i _ =>
      match s.air[i]? with
      | none => True
      | some f => (s.node f.dst).standing.GrantsOnce (w.config f.dst)
          (.receive f.src f.message f.round)
  | _ => True

instance (w : World α) (s : Net α) (e : NetEvent α) : Decidable (w.GrantsOnce s e) := by
  unfold World.GrantsOnce
  split
  · infer_instance
  · split <;> infer_instance
  · infer_instance

/-- No two nodes hold the same address of the same round. -/
def World.UniqueAddresses (w : World α) (s : Net α) : Prop :=
  ∀ u ∈ w.nodes, ∀ v ∈ w.nodes, u ≠ v → ∀ x ∈ (s.node u).hlmacTable.entries,
    ∀ y ∈ (s.node v).hlmacTable.entries, ¬ (x.timestamp = y.timestamp ∧ x.address = y.address)

instance (w : World α) : DecidablePred w.UniqueAddresses := fun s => by
  unfold World.UniqueAddresses
  infer_instance

/-! ## Who is given an id -/

/-- `v` gives `a` the id `id` under its address `hlmacPrefix`: a SetHLMAC that
says so is ready at `v` or in the air, or `a` has stored the address. -/
def Net.Assigns (s : Net α) (v : α) (timestamp : ℕ) (hlmacPrefix : List UInt8) (id : UInt8)
    (a : α) : Prop :=
  (∃ assigned round, (s.node v).Offers timestamp hlmacPrefix assigned round ∧
    (id, a) ∈ assigned) ∨
  (∃ f ∈ s.air, f.src = v ∧ ∃ assigned,
    f.message = .sethlmac timestamp hlmacPrefix assigned ∧ (id, a) ∈ assigned) ∨
  (hlmacPrefix ≠ [] ∧ ∃ r ∈ s.accepted a, r.sender = v ∧ r.timestamp = timestamp ∧
    r.address = HlmacAddr.ofIds (hlmacPrefix ++ [id]))

/-- An id under an address of a round is given to one node only. -/
def Net.Unambiguous (s : Net α) : Prop :=
  ∀ ⦃v timestamp hlmacPrefix id a b⦄, s.Assigns v timestamp hlmacPrefix id a →
    s.Assigns v timestamp hlmacPrefix id b → a = b

omit [DecidableEq α] in
theorem Net.unambiguous_boot : (Net.boot : Net α).Unambiguous := by
  rintro v ts p id a b (⟨asg, rd, ⟨e, he, -⟩, -⟩ | ⟨f, hf, -⟩ | ⟨-, r, hr, -⟩) -
  · cases he
  · cases hf
  · cases hr

variable {w : World α} {s s' : Net α} {k : ℕ}

section

omit [DecidableEq α]

/-- Whoever gives out an id has stored the address that it is given under. -/
theorem Net.Traced.holder (h : s.Traced w k) {v : α} {timestamp : ℕ} {hlmacPrefix : List UInt8}
    {id : UInt8} {a : α} (ha : s.Assigns v timestamp hlmacPrefix id a) :
    ∃ r ∈ s.accepted v, r.timestamp = timestamp ∧ r.address = HlmacAddr.ofIds hlmacPrefix := by
  rcases ha with ⟨asg, rd, ho, -⟩ | ⟨f, hf, rfl, asg, hmsg, -⟩ | ⟨hnil, r, hr, rfl, rfl, haddr⟩
  · obtain ⟨r, hr, hts, haddr, -⟩ := (h.offers v timestamp hlmacPrefix asg rd ho).holder
    exact ⟨r, hr, hts, haddr⟩
  · obtain ⟨r, hr, hts, haddr, -⟩ := (h.air f hf timestamp hlmacPrefix asg hmsg).holder
    exact ⟨r, hr, hts, haddr⟩
  · rcases h.derived a r hr with ⟨-, -, hroot⟩ | ⟨-, p, i, -, -, hp, r', hr', hts, hparent⟩
    · exact absurd (HlmacAddr.eq_nil_of_ofIds_append (haddr.symm.trans hroot)) hnil
    · rw [haddr, HlmacAddr.ofIds_inj] at hp
      obtain ⟨rfl, -⟩ := List.append_inj' hp rfl
      exact ⟨r', hr', hts, hparent⟩

/-- Two nodes with the same address of a round are the same node. -/
theorem Net.eq_of_address (ht : s.Traced w k) (hu : s.Unambiguous) {u v : α}
    {r r' : Accept α} (hr : r ∈ s.accepted u) (hr' : r' ∈ s.accepted v)
    (hts : r.timestamp = r'.timestamp) (haddr : r.address = r'.address) : u = v := by
  obtain ⟨l, hl, -⟩ := (ht.derived u r hr).address
  -- induction on the ids, the last one first: up the two paths to the root
  induction l using List.reverseRecOn generalizing u v r r' with
  | nil =>
      obtain ⟨l', hl', hne, -⟩ := (ht.derived u r hr).address
      rw [hl, HlmacAddr.ofIds_inj] at hl'
      exact absurd hl'.symm hne
  | append_singleton l id ih =>
      have hl' := haddr ▸ hl
      rcases ht.derived u r hr with ⟨hu', -, hone⟩ | ⟨-, p, i, hnil, -, hp, x, hx, hxts, hxaddr⟩
      · rcases ht.derived v r' hr' with ⟨hv', -, -⟩ | ⟨-, p, i, hnil, -, hp, -⟩
        · exact hu'.trans hv'.symm
        · rw [← haddr, hone] at hp
          exact absurd (HlmacAddr.eq_nil_of_ofIds_append hp.symm) hnil
      · rcases ht.derived v r' hr' with ⟨-, -, hone⟩ | ⟨-, p', i', -, -, hp', y, hy, hyts, hyaddr⟩
        · rw [← haddr, hp] at hone
          exact absurd (HlmacAddr.eq_nil_of_ofIds_append hone) hnil
        · rw [hl, HlmacAddr.ofIds_inj] at hp
          rw [hl', HlmacAddr.ofIds_inj] at hp'
          obtain ⟨rfl, hi⟩ := List.append_inj' hp rfl
          obtain ⟨rfl, hi'⟩ := List.append_inj' hp' rfl
          have hsender : r.sender = r'.sender :=
            ih hx hy (hxts.trans (hts.trans hyts.symm)) (hxaddr.trans hyaddr.symm) hxaddr
          exact hu (.inr (.inr ⟨hnil, r, hr, rfl, rfl, hl⟩))
            (.inr (.inr ⟨hnil, r', hr', hsender.symm, hts.symm, hl'⟩))

end

/-! ## One event -/

section Acts

variable {v : α} {env : Env α} {e : Event α} {air : List (Frame α)} {n : Node α}

/-- An id that is given out after an event was given out before it, or the
event made the node store the address that it is given under. -/
theorem Net.Traced.assigns_acts (ht : s.Traced w k) (hs : s.Sane w)
    (hroom : Roomy w.hlmacMaxHlmac) (hsub : air ⊆ s.air)
    (he : ∀ u message r, e = .receive u message r →
      ∃ f ∈ s.air, f.src = u ∧ f.message = message)
    (ha : w.Acts s v env e air n s') {u : α} {timestamp : ℕ} {hlmacPrefix : List UInt8}
    {id : UInt8} {a : α} (h : s'.Assigns u timestamp hlmacPrefix id a) :
    s.Assigns u timestamp hlmacPrefix id a ∨
    (u = v ∧ ∃ sender addr, s'.accepted v = ⟨sender, timestamp, addr⟩ :: s.accepted v ∧
      hlmacPrefix = addr.ids ∧ (id, a) ∈ (s.node v).standing.ids ∧ a ≠ sender) := by
  have hoffers : ∀ {asg rd}, n.Offers timestamp hlmacPrefix asg rd → (id, a) ∈ asg →
      s.Assigns v timestamp hlmacPrefix id a ∨
      ∃ sender addr, s'.accepted v = ⟨sender, timestamp, addr⟩ :: s.accepted v ∧
        hlmacPrefix = addr.ids ∧ (id, a) ∈ (s.node v).standing.ids ∧ a ≠ sender := by
    intro asg rd ho hmem
    rcases offers_step ha.step ho with ho | ⟨sender, addr, hissued, hnew | ⟨rfl, hfull⟩⟩
    · exact .inl (.inl ⟨asg, rd, ho, hmem⟩)
    · obtain ⟨hids, hne⟩ := hissued.assigned _ hmem
      exact .inr ⟨sender, addr, ha.accepted_self.trans hnew, hissued.prefix_eq, hids, hne⟩
    · have hroot : v = w.root := by
        by_contra hne
        exact hs.ne_sethlmac ha hne rfl
      subst hroot
      rw [ht.root_stores hs hroom] at hfull
      cases hfull
  rcases h with ⟨asg, rd, ho, hmem⟩ | ⟨f, hf, rfl, asg, hmsg, hmem⟩ | ⟨hnil, r, hr, hsrc, hts, haddr⟩
  · by_cases hu : u = v
    · subst hu
      rw [ha.node_self] at ho
      obtain ⟨x, hx, hp, hrd⟩ := ho
      rw [Node.outgoing, List.append_nil] at hx
      rcases hoffers ⟨x, List.mem_append_left _ hx, hp, hrd⟩ hmem with h | h
      · exact .inl h
      · exact .inr ⟨rfl, h⟩
    · rw [ha.node_ne hu] at ho
      exact .inl (.inl ⟨asg, rd, ho, hmem⟩)
  · rcases ha.mem_air hf with hf | ⟨hsrc, x, hx, -, hpayload, hround⟩
    · exact .inl (.inr (.inl ⟨f, hsub hf, rfl, asg, hmsg, hmem⟩))
    · rcases hoffers ⟨x, List.mem_append_right _ hx, hpayload ▸ hmsg, rfl⟩ hmem with h | h
      · exact .inl (hsrc ▸ h)
      · exact .inr ⟨hsrc, h⟩
  · left
    by_cases hav : a = v
    · subst hav
      rw [ha.accepted_self] at hr
      rcases accepted_step (w.config a) (s.node a).standing e with
        hold | ⟨rfl, hown⟩ | ⟨sender, message, rd, ts, addr, rfl, htakes, hnew⟩
      · rw [hold] at hr
        exact .inr (.inr ⟨hnil, r, hr, hsrc, hts, haddr⟩)
      · rw [hown] at hr
        rcases List.mem_cons.1 hr with rfl | hr
        · exact absurd (HlmacAddr.eq_nil_of_ofIds_append haddr.symm) hnil
        · exact .inr (.inr ⟨hnil, r, hr, hsrc, hts, haddr⟩)
      · rw [hnew] at hr
        rcases List.mem_cons.1 hr with rfl | hr
        · -- the SetHLMAC was in the air
          obtain ⟨f, hf, hfsrc, hmsg⟩ := he sender message rd rfl
          obtain ⟨p, asg, hmessage⟩ := htakes.message_eq
          have hlen := (ht.air f hf ts p asg (hmsg.trans hmessage)).length_le
          have hspec := htakes.specified
          dsimp only at hsrc hts haddr
          rw [htakes.addr_eq, hmessage] at hspec
          obtain ⟨i, hi, hext⟩ := iotoriiExtractAddress_spec hspec
          rw [← hmessage, ← htakes.addr_eq, hlmacAddNewId_ofIds (by omega), haddr,
            HlmacAddr.ofIds_inj] at hext
          obtain ⟨rfl, hid⟩ := List.append_inj' hext rfl
          rw [List.singleton_inj] at hid
          subst hid hts
          exact .inr (.inl ⟨f, hf, hfsrc.trans hsrc, asg, hmsg.trans hmessage, hi⟩)
        · exact .inr (.inr ⟨hnil, r, hr, hsrc, hts, haddr⟩)
    · rw [Net.accepted, ha.node_ne hav] at hr
      exact .inr (.inr ⟨hnil, r, hr, hsrc, hts, haddr⟩)

/-- What `Standing.GrantsOnce` says about an address that an event makes the
node store. -/
theorem Net.Traced.new_of_grantsOnce (ht : s.Traced w k) (hs : s.Sane w)
    (ha : w.Acts s v env e air n s')
    (hok : (s.node v).standing.GrantsOnce (w.config v) e) {r : Accept α}
    (hr : s'.accepted v = r :: s.accepted v) :
    (s.node v).standing.DistinctIds r.sender ∧
      ∀ r' ∈ s.accepted v, ¬ (r'.timestamp = r.timestamp ∧ r'.address = r.address) := by
  rw [ha.accepted_self] at hr
  rcases accepted_step (w.config v) (s.node v).standing e with
    hold | ⟨rfl, hown⟩ | ⟨sender, message, rd, timestamp, addr, rfl, htakes, hnew⟩
  · rw [hold] at hr
    exact absurd (congrArg List.length hr) (by simp [Net.accepted, Node.standing])
  · rw [hown, List.cons.injEq] at hr
    obtain ⟨rfl, -⟩ := hr
    refine ⟨hok, fun r' hr' hsame => ?_⟩
    have hroot : v = w.root := by
      by_contra hne
      exact hs.ne_sethlmac ha hne rfl
    have hclock := ht.clock.nextTimestamp_eq
    have hrecent := ht.recent v r' hr'
    rw [hsame.1, hroot] at hrecent
    change nextTimestamp (s.node w.root).standing.timestamp < k at hrecent
    omega
  · rw [hnew, List.cons.injEq] at hr
    obtain ⟨rfl, -⟩ := hr
    obtain ⟨p, asg, rfl⟩ := htakes.message_eq
    obtain rfl := htakes.addr_eq
    exact hok htakes.sender_ne htakes.specified htakes.accepts htakes.stored

/-- Different neighbours with different ids. -/
theorem Standing.DistinctIds.eq {s : Standing α} {sender a b : α} {id : UInt8}
    (h : s.DistinctIds sender) (ha : (id, a) ∈ s.ids) (hb : (id, b) ∈ s.ids)
    (ha' : a ≠ sender) (hb' : b ≠ sender) : a = b := by
  obtain ⟨m, hm, hma⟩ := List.mem_map.1 ha
  obtain ⟨m', hm', hmb⟩ := List.mem_map.1 hb
  rw [Prod.mk.injEq] at hma hmb
  obtain ⟨hid, rfl⟩ := hma
  obtain ⟨hid', rfl⟩ := hmb
  have hmem : m ∈ s.marks.filter (·.addr ≠ sender) := by simp [hm, ha']
  have hmem' : m' ∈ s.marks.filter (·.addr ≠ sender) := by simp [hm', hb']
  rw [List.inj_on_of_nodup_map h hmem hmem' (hid.trans hid'.symm)]

theorem Net.Unambiguous.acts (hu : s.Unambiguous) (ht : s.Traced w k) (hs : s.Sane w)
    (hroom : Roomy w.hlmacMaxHlmac) (hsub : air ⊆ s.air)
    (he : ∀ u message r, e = .receive u message r →
      ∃ f ∈ s.air, f.src = u ∧ f.message = message)
    (ha : w.Acts s v env e air n s')
    (hok : (s.node v).standing.GrantsOnce (w.config v) e) : s'.Unambiguous := by
  -- an id under an address that was just stored is not one that was given out before
  have hfresh : ∀ {u ts p id a b sender addr}, s.Assigns u ts p id a →
      ¬ (u = v ∧ s'.accepted v = ⟨sender, ts, addr⟩ :: s.accepted v ∧ p = addr.ids ∧
        (id, b) ∈ (s.node v).standing.ids) := by
    rintro u ts p id a b sender addr hold ⟨rfl, hnew, rfl, -⟩
    obtain ⟨r, hr, hts, haddr⟩ := ht.holder hold
    refine (ht.new_of_grantsOnce hs ha hok hnew).2 r hr ⟨hts, haddr.trans ?_⟩
    have hmem : (⟨sender, ts, addr⟩ : Accept α) ∈ s'.accepted u := hnew ▸ List.mem_cons_self
    obtain ⟨l, hl, -, hlen⟩ := ((ht.derived_of_new (hs.ne_sethlmac ha) he ha hnew).1).address
    dsimp only at hl ⊢
    rw [hl, HlmacAddr.ids_ofIds (by omega)]
  intro u ts p id a b h₁ h₂
  rcases ht.assigns_acts hs hroom hsub he ha h₁ with h₁ | ⟨rfl, sender, addr, hnew, hp, hid, hne⟩
  · rcases ht.assigns_acts hs hroom hsub he ha h₂ with h₂ | ⟨hv, sender, addr, hnew, hp, hid, -⟩
    · exact hu h₁ h₂
    · exact absurd ⟨hv, hnew, hp, hid⟩ (hfresh h₁)
  · rcases ht.assigns_acts hs hroom hsub he ha h₂ with h₂ | ⟨-, sender', addr', hnew', -, hid', hne'⟩
    · exact absurd ⟨rfl, hnew, hp, hid⟩ (hfresh h₂)
    · rw [hnew, List.cons.injEq, Accept.mk.injEq] at hnew'
      obtain ⟨⟨rfl, -, -⟩, -⟩ := hnew'
      exact (ht.new_of_grantsOnce hs ha hok hnew).1.eq hid hid' hne hne'

end Acts

/-! ## Runs -/

omit [DecidableEq α] in
theorem Net.Unambiguous.of_air (hu : s.Unambiguous) {air : List (Frame α)} (hsub : air ⊆ s.air) :
    Net.Unambiguous { s with air := air } := by
  have hmono : ∀ {v ts p id a}, Net.Assigns { s with air := air } v ts p id a →
      s.Assigns v ts p id a := by
    rintro v ts p id a (h | ⟨f, hf, h⟩ | h)
    · exact .inl h
    · exact .inr (.inl ⟨f, hsub hf, h⟩)
    · exact .inr (.inr h)
  intro v ts p id a b h₁ h₂
  exact hu (hmono h₁) (hmono h₂)

theorem Net.Unambiguous.step {e : NetEvent α} (hu : s.Unambiguous) (ht : s.Traced w k)
    (hs : s.Sane w) (hroom : Roomy w.hlmacMaxHlmac) (hok : w.GrantsOnce s e)
    (hstep : w.step e s = some s') : s'.Unambiguous := by
  rcases World.step_cases hstep with ⟨v, t, env, n, rfl, hv, ha⟩ | ⟨i, env, f, n, rfl, hf, ha⟩ |
    ⟨i, rfl, rfl⟩ | ⟨i, f, rfl, hf, rfl⟩
  · exact hu.acts ht hs hroom (List.Subset.refl _) (fun u message r hr => by cases hr) ha hok
  · refine hu.acts ht hs hroom List.eraseIdx_subset ?_ ha ?_
    · intro u message r hr
      rw [Event.receive.injEq] at hr
      exact ⟨f, List.mem_of_getElem? hf, hr.1, hr.2.1⟩
    · simpa [World.GrantsOnce, hf] using hok
  · exact hu.of_air List.eraseIdx_subset
  · refine hu.of_air fun g hg => ?_
    rcases List.mem_append.1 hg with hg | hg
    · exact hg
    · exact List.mem_singleton.1 hg ▸ List.mem_of_getElem? hf

omit [DecidableEq α] in
theorem World.uniqueAddresses_of_unambiguous (ht : s.Traced w k) (hu : s.Unambiguous) :
    w.UniqueAddresses s := by
  rintro u - v - huv x hx y hy ⟨hts, haddr⟩
  obtain ⟨r, hr, hrts, hraddr⟩ := ht.table u x hx
  obtain ⟨r', hr', hrts', hraddr'⟩ := ht.table v y hy
  exact huv (Net.eq_of_address ht hu hr hr' (hrts.trans (hts.trans hrts'.symm))
    (hraddr.trans (haddr.trans hraddr'.symm)))

/-- In every run whose events grant every id once, no two nodes hold the same
address of a round in any state. -/
theorem always_uniqueAddresses {es : List (NetEvent α)}
    (hok : Meets w.step w.GrantsOnce es Net.boot) :
    Always w.step w.UniqueAddresses es Net.boot := by
  by_cases hroom : Roomy w.hlmacMaxHlmac
  · refine always_of_meets
      (I := fun s => s.Sane w ∧ (∃ k, s.Traced w k) ∧ s.Unambiguous) ?_ ?_
      ⟨Net.sane_boot, ⟨0, Net.traced_boot⟩, Net.unambiguous_boot⟩ hok
    · rintro s e s' ⟨hs, ⟨k, ht⟩, hu⟩ hgrants hstep
      obtain ⟨k', -, ht'⟩ := ht.step hs hroom hstep
      exact ⟨hs.step hstep, ⟨k', ht'⟩, hu.step ht hs hroom hgrants hstep⟩
    · rintro s ⟨-, ⟨k, ht⟩, hu⟩
      exact World.uniqueAddresses_of_unambiguous ht hu
  · -- a table without room stays empty
    refine always_of_meets (I := fun s => s.Sane w) ?_ ?_ Net.sane_boot hok
    · rintro s e s' hs - hstep
      exact hs.step hstep
    · intro s hs u _ v _ _ x hx
      exact absurd ((hs.grounded u).roomy (List.ne_nil_of_mem hx)) hroom

/-- The root lets in two neighbours. -/
theorem always_uniqueAddresses_star :
    Always (World.ofLinks 2 [(1, 2), (1, 3)] .broadcast 1).step
      (World.ofLinks 2 [(1, 2), (1, 3)] .broadcast 1).UniqueAddresses
      [.timer 2 .hello ⟨15, [0, 1], 150, 9⟩, .timer 3 .hello ⟨15, [0, 1], 150, 9⟩,
       .deliver 0 ⟨15, [0, 1], 150, 9⟩, .deliver 0 ⟨15, [0, 1], 150, 9⟩,
       .timer 1 .hello ⟨15, [0, 1], 150, 9⟩, .timer 1 .sethlmac ⟨15, [0, 1], 150, 9⟩,
       .timer 1 (.sendMessage .scheduled) ⟨15, [0, 1], 150, 9⟩,
       .deliver 2 ⟨15, [0, 1], 150, 9⟩, .deliver 2 ⟨15, [0, 1], 150, 9⟩] Net.boot :=
  always_uniqueAddresses (by decide +kernel)

/-- The root forgets node `2` and gives its next neighbour, node `4`, the id
that node `3` has: both take the address `[1, 2]`. -/
theorem not_always_uniqueAddresses :
    ¬ Always (World.ofLinks 3 [(1, 2), (1, 3), (1, 4)] .broadcast 1).step
      (World.ofLinks 3 [(1, 2), (1, 3), (1, 4)] .broadcast 1).UniqueAddresses
      [.timer 2 .hello ⟨15, [0, 1], 150, 9⟩, .timer 3 .hello ⟨15, [0, 1], 150, 9⟩,
       .deliver 0 ⟨15, [0, 1], 150, 9⟩, .deliver 0 ⟨15, [0, 1], 150, 9⟩,
       .timer 1 .hello ⟨15, [0, 1], 150, 9⟩, .timer 1 .hello ⟨15, [0, 1], 150, 9⟩,
       .timer 1 .hello ⟨15, [0, 1], 150, 9⟩, .timer 4 .hello ⟨15, [0, 1], 150, 9⟩,
       .deliver 9 ⟨15, [0, 1], 150, 9⟩, .timer 1 .sethlmac ⟨15, [0, 1], 150, 9⟩,
       .timer 1 (.sendMessage .scheduled) ⟨15, [0, 1], 150, 9⟩,
       .deliver 10 ⟨15, [0, 1], 150, 9⟩, .deliver 10 ⟨15, [0, 1], 150, 9⟩] Net.boot := by
  decide +kernel

end Den2ne
