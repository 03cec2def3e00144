import Den2ne.Node.Step
import Den2ne.Pointers.Linked
import Den2ne.Transition.Run

/-!
# Neighbours that fall silent

`iotorii_check_neighbours_hello` goes on with the `next` pointer of an entry that `list_remove` has
just cleared (`checkLoop`), so that one execution removes at most one entry. `Watch` is a node with
the point at which each sender was last heard; `meets_expires_iff` says in which sequences of Hellos
and hello-timer expirations the table holds exactly those that are not silent for too long.
-/

namespace Den2ne

open Transition Pointers

/-! ## The loop -/

section Loop

variable {κ : Type*} [DecidableEq κ] {next : κ → Option κ} {head : Option κ}

/-- The loop of `iotorii_check_neighbours_hello` on the head of the list, the pointers and
`number_of_neighbours`; the second argument is `new_nb`. The numbers bound the turns of this loop
and of the one in `list_remove`. -/
def checkLoop (expired : κ → Bool) (size : ℕ) :
    ℕ → Option κ → Option κ × (κ → Option κ) × ℕ → Option κ × (κ → Option κ) × ℕ
  | 0, _, s => s
  | _ + 1, none, s => s
  | turns + 1, some nb, (head, next, number) =>
      if expired nb then
        let removed := unlinkFrom next head nb size none head
        checkLoop expired size turns (removed.2 nb) (removed.1, removed.2, number - 1)
      else checkLoop expired size turns (next nb) (head, next, number)

theorem checkLoop_none (expired : κ → Bool) (size turns : ℕ) (s : Option κ × (κ → Option κ) × ℕ) :
    checkLoop expired size turns none s = s := by
  cases turns <;> rfl

/-- The loop removes the first expired entry, and no other. -/
theorem checkLoop_spec (expired : κ → Bool) (number : ℕ) {before rest : List κ} {size turns : ℕ}
    {cur : Option κ} (h : Through next head (before ++ rest) none) (hcur : Through next cur rest none)
    (hnodup : (before ++ rest).Nodup) (hbefore : ∀ nb ∈ before, ¬ expired nb)
    (hsize : (before ++ rest).length ≤ size) (hturns : rest.length ≤ turns) :
    ∃ head' next', checkLoop expired size turns cur (head, next, number) =
        (head', next', if (before ++ rest).any expired then number - 1 else number) ∧
      Through next' head' ((before ++ rest).eraseP expired) none := by
  induction rest generalizing before turns cur with
  | nil =>
      obtain rfl : cur = none := hcur
      have hany : (before ++ []).any expired = false := by
        rw [List.append_nil, List.any_eq_false]
        exact hbefore
      refine ⟨head, next, by rw [checkLoop_none, hany]; rfl, ?_⟩
      rwa [List.eraseP_of_forall_not (by simpa using hbefore)]
  | cons nb rest ih =>
      obtain ⟨turns, rfl⟩ : ∃ t, turns = t + 1 := ⟨turns - 1, by rw [List.length_cons] at hturns; omega⟩
      obtain ⟨rfl, hrest⟩ := hcur
      rw [checkLoop.eq_def]
      dsimp only
      by_cases hexpired : expired nb
      · have hlt : before.length < size := by
          rw [List.length_append, List.length_cons] at hsize
          omega
        obtain ⟨hthrough, hnone⟩ := through_unlinkFrom h hnodup hlt
        have hany : (before ++ nb :: rest).any expired = true :=
          List.any_eq_true.2 ⟨nb, by simp, hexpired⟩
        rw [if_pos hexpired, hnone, checkLoop_none, hany]
        refine ⟨_, _, rfl, ?_⟩
        rwa [List.eraseP_append_right _ hbefore, List.eraseP_cons_of_pos hexpired]
      · rw [if_neg hexpired]
        have hmove : before ++ nb :: rest = before ++ [nb] ++ rest := List.append_cons _ _ _
        rw [hmove] at h hnodup hsize ⊢
        refine ih h hrest hnodup ?_ hsize (by rw [List.length_cons] at hturns; omega)
        intro nb' hnb'
        rcases List.mem_append.1 hnb' with hnb' | hnb'
        · exact hbefore nb' hnb'
        · rwa [List.mem_singleton.1 hnb']

variable {α : Type*} [DecidableEq α]

/-- `iotorii_check_neighbours_hello` on the cells of the table. -/
theorem iotoriiCheckNeighboursHello_loop {n : Node α} {cells : List κ}
    (entry : κ → NeighbourTableEntry α) (hentries : cells.map entry = n.neighbourTable.entries)
    (h : Through next head cells none) (hnodup : cells.Nodup) :
    ∃ head' next' cells', checkLoop (fun nb => helloExpired n.numberOfHelloMessages (entry nb))
        cells.length cells.length head (head, next, n.neighbourTable.numberOfNeighbours) =
          (head', next', (iotoriiCheckNeighboursHello n).neighbourTable.numberOfNeighbours) ∧
      Through next' head' cells' none ∧
      cells'.map entry = (iotoriiCheckNeighboursHello n).neighbourTable.entries := by
  obtain ⟨head', next', hloop, hthrough⟩ := checkLoop_spec
    (fun nb => helloExpired n.numberOfHelloMessages (entry nb)) n.neighbourTable.numberOfNeighbours
    (show Through next head ([] ++ cells) none from h) h hnodup nofun (Nat.le_refl _)
    (Nat.le_refl _)
  have hany : n.neighbourTable.entries.any (helloExpired n.numberOfHelloMessages) =
      cells.any fun nb => helloExpired n.numberOfHelloMessages (entry nb) := by
    rw [← hentries, List.any_map]
    rfl
  refine ⟨head', next', _, hloop.trans ?_, hthrough, ?_⟩
  · change _ = (head', next',
      if n.neighbourTable.entries.any (helloExpired n.numberOfHelloMessages) then
        n.neighbourTable.numberOfNeighbours - 1 else n.neighbourTable.numberOfNeighbours)
    rw [hany]
    rfl
  · change _ = n.neighbourTable.entries.eraseP (helloExpired n.numberOfHelloMessages)
    rw [← hentries, List.eraseP_map]
    rfl

end Loop

/-! ## A node and when it heard from whom -/

variable {α : Type*} [DecidableEq α] {cfg : Config α}

/-- What happens to the table. -/
inductive HelloEvent (α : Type*)
  | hello (sender : α)
  | timer (env : Env α)

/-- A node, and for each sender the number of Hellos the node had sent when it last heard it. -/
structure Watch (α : Type*) where
  node : Node α
  lastHeard : α → Option ℕ

namespace Watch

variable {w w' : Watch α}

/-- Nothing has been heard. -/
def boot : Watch α := ⟨Node.boot, fun _ => none⟩

/-- A Hello comes in, or the hello timer expires. -/
def step (cfg : Config α) : HelloEvent α → Watch α → Option (Watch α)
  | .hello sender, w => some
      ⟨iotoriiHandleIncomingHello sender w.node,
        Function.update w.lastHeard sender (some w.node.numberOfHelloMessages)⟩
  | .timer env, w => (w.node.expire cfg env .hello).map fun n => ⟨n, w.lastHeard⟩

/-- The sender is known, and was last heard at a point that differs by at most
`IOTORII_MAX_HELLO_DIFF` from now. -/
def Fresh (w : Watch α) (a : α) : Prop :=
  ∃ k, w.lastHeard a = some k ∧
    (w.node.numberOfHelloMessages : ℤ) - k ≤ iotoriiMaxHelloDiff ∧
    (k : ℤ) - w.node.numberOfHelloMessages ≤ iotoriiMaxHelloDiff

/-- The table holds exactly the fresh senders, and they are counted. -/
def Exact (w : Watch α) : Prop :=
  (∀ a, a ∈ w.node.neighbourTable.addrs ↔ w.Fresh a) ∧
    w.node.neighbourTable.numberOfNeighbours = w.node.neighbourTable.entries.length

/-- Right after the hello timer the table is exact. -/
def Expires (cfg : Config α) (w : Watch α) : HelloEvent α → Prop
  | .hello _ => True
  | .timer env => ∀ w', step cfg (.timer env) w = some w' → w'.Exact

/-- When the hello timer expires at most one entry has become too old. -/
def OneSilent (w : Watch α) : HelloEvent α → Prop
  | .hello _ => True
  | .timer _ =>
      w.node.neighbourTable.entries.countP (helloExpired (w.node.numberOfHelloMessages + 1)) ≤ 1

/-- There is room for a further neighbour. -/
def HasRoom (w : Watch α) (_ : HelloEvent α) : Prop :=
  w.node.neighbourTable.numberOfNeighbours < 256

/-- What holds in every state: an entry has the point at which its neighbour was last heard; no
such point lies ahead; who has no entry any more is not fresh; and the timer is not set again after
500 Hellos, so that the counter does not wrap. -/
structure Sound (w : Watch α) : Prop where
  entry : ∀ nb ∈ w.node.neighbourTable.entries, w.lastHeard nb.addr = some nb.lastHello
  past : ∀ a k, w.lastHeard a = some k → k ≤ w.node.numberOfHelloMessages
  gone : ∀ a k, w.lastHeard a = some k → a ∉ w.node.neighbourTable.addrs →
    iotoriiMaxHelloDiff < (w.node.numberOfHelloMessages : ℤ) - k
  armed : w.node.helloTimer = true → w.node.numberOfHelloMessages ≤ 500

omit [DecidableEq α] in
theorem sound_boot : (boot : Watch α).Sound :=
  ⟨nofun, nofun, nofun, fun _ => Nat.zero_le _⟩

/-- What the hello timer changes, as far as it matters here. -/
theorem expire_hello {env : Env α} {n n' : Node α} (h : n.expire cfg env .hello = some n') :
    n.helloTimer = true ∧ n'.numberOfHelloMessages = (n.numberOfHelloMessages + 1) % 65536 ∧
      n'.neighbourTable = n.neighbourTable.removeFirst (helloExpired n'.numberOfHelloMessages) ∧
      (n'.helloTimer = true → n'.numberOfHelloMessages ≤ 500) := by
  simp only [Node.expire, Option.ite_none_right_eq_some] at h
  obtain ⟨htimer, h⟩ := h
  obtain rfl := Option.some.inj h
  refine ⟨htimer, ?_⟩
  unfold iotoriiHandleHelloTimer iotoriiCheckNeighboursHello
  dsimp only
  -- whether a Hello is sent, and whether the timer is set again
  split
  · split
    · rename_i hagain
      exact ⟨rfl, rfl, fun _ => hagain⟩
    · exact ⟨rfl, rfl, nofun⟩
  · split
    · rename_i hagain
      exact ⟨rfl, rfl, fun _ => hagain⟩
    · exact ⟨rfl, rfl, nofun⟩

section

omit [DecidableEq α]

theorem helloExpired_iff {number : ℕ} {nb : NeighbourTableEntry α} :
    helloExpired number nb = true ↔ iotoriiMaxHelloDiff < (number : ℤ) - nb.lastHello :=
  decide_eq_true_iff

theorem mem_addrs_iff {t : NeighbourTable α} {a : α} :
    a ∈ t.addrs ↔ ∃ nb ∈ t.entries, nb.addr = a := List.mem_map

end

theorem Sound.hello {sender : α} (h : w.Sound) (hroom : w.HasRoom (.hello sender))
    (hstep : step cfg (.hello sender) w = some w') : w'.Sound := by
  obtain rfl := Option.some.inj hstep
  have hroom' : w.node.neighbourTable.numberOfNeighbours < 256 := hroom
  have hlast (a : α) (k : ℕ)
      (hk : Function.update w.lastHeard sender (some w.node.numberOfHelloMessages) a = some k) :
      a = sender ∧ k = w.node.numberOfHelloMessages ∨ a ≠ sender ∧ w.lastHeard a = some k := by
    by_cases ha : a = sender
    · rw [ha, Function.update_self] at hk
      exact .inl ⟨ha, (Option.some.inj hk).symm⟩
    · rw [Function.update_of_ne ha] at hk
      exact .inr ⟨ha, hk⟩
  by_cases hmem : sender ∈ w.node.neighbourTable.addrs
  · rw [iotoriiHandleIncomingHello, if_pos hroom', dif_pos hmem]
    refine ⟨?_, ?_, ?_, h.armed⟩
    · intro nb hnb
      obtain ⟨old, hold, rfl⟩ := List.mem_map.1 hnb
      dsimp only
      split
      · rename_i haddr
        rw [haddr, Function.update_self]
      · rename_i haddr
        rw [Function.update_of_ne haddr]
        exact h.entry old hold
    · intro a k hk
      rcases hlast a k hk with ⟨-, rfl⟩ | ⟨-, hk⟩
      · exact Nat.le_refl _
      · exact h.past a k hk
    · intro a k hk ha
      have haddrs : (w.node.neighbourTable.setLastHello sender
          w.node.numberOfHelloMessages).addrs = w.node.neighbourTable.addrs :=
        NeighbourTable.addrs_map _ _
      rw [haddrs] at ha
      rcases hlast a k hk with ⟨rfl, -⟩ | ⟨-, hk⟩
      · exact absurd hmem ha
      · exact h.gone a k hk ha
  · rw [iotoriiHandleIncomingHello, if_pos hroom', dif_neg hmem]
    refine ⟨?_, ?_, ?_, h.armed⟩
    · intro nb hnb
      rcases List.mem_append.1 hnb with hold | hnew
      · have haddr : nb.addr ≠ sender := fun heq =>
          hmem (mem_addrs_iff.2 ⟨nb, hold, heq⟩)
        exact (Function.update_of_ne haddr _ _).trans (h.entry nb hold)
      · obtain rfl := List.mem_singleton.1 hnew
        exact Function.update_self ..
    · intro a k hk
      rcases hlast a k hk with ⟨-, rfl⟩ | ⟨-, hk⟩
      · exact Nat.le_refl _
      · exact h.past a k hk
    · intro a k hk ha
      obtain ⟨hold, hnew⟩ : a ∉ w.node.neighbourTable.addrs ∧ a ≠ sender := by
        rw [mem_addrs_iff] at ha
        refine ⟨fun hmem' => ha ?_, ?_⟩
        · obtain ⟨nb, hnb, haddr⟩ := mem_addrs_iff.1 hmem'
          exact ⟨nb, List.mem_append_left _ hnb, haddr⟩
        · rintro rfl
          exact ha ⟨_, List.mem_append_right _ List.mem_cons_self, rfl⟩
      rcases hlast a k hk with ⟨heq, -⟩ | ⟨-, hk⟩
      · exact absurd heq hnew
      · exact h.gone a k hk hold

/-- One removal is enough exactly if there is at most one to remove. -/
theorem forall_not_eraseP_iff {β : Type*} (p : β → Bool) (xs : List β) :
    (∀ x ∈ xs.eraseP p, ¬ p x) ↔ xs.countP p ≤ 1 := by
  induction xs with
  | nil => exact iff_of_true nofun (Nat.zero_le _)
  | cons x xs ih =>
      by_cases hx : p x
      · have hone : xs.countP p + 1 ≤ 1 ↔ xs.countP p = 0 := by omega
        rw [List.eraseP_cons_of_pos hx, List.countP_cons_of_pos hx, hone, List.countP_eq_zero]
      · rw [List.eraseP_cons_of_neg hx, List.countP_cons_of_neg hx, ← ih, List.forall_mem_cons]
        exact and_iff_right hx

/-- The timer keeps the invariant, and leaves the table exact if at most one entry has expired. -/
theorem Sound.timer {env : Env α} (h : w.Sound) (hstep : step cfg (.timer env) w = some w') :
    w'.Sound ∧ (w'.Exact ↔ w.OneSilent (.timer env)) := by
  obtain ⟨n', hn', rfl⟩ := Option.map_eq_some_iff.1 hstep
  obtain ⟨htimer, hnumber, htable, hagain⟩ := expire_hello hn'
  have hle := h.armed htimer
  rw [Nat.mod_eq_of_lt (by omega)] at hnumber
  have hentries : n'.neighbourTable.entries =
      w.node.neighbourTable.entries.eraseP (helloExpired n'.numberOfHelloMessages) := by
    rw [htable]
    rfl
  have hsound : Sound ⟨n', w.lastHeard⟩ := by
    refine ⟨fun nb hnb => ?_, fun a k hk => ?_, fun a k hk ha => ?_, hagain⟩
    · rw [hentries] at hnb
      exact h.entry nb (List.eraseP_subset hnb)
    · have hpast := h.past a k hk
      dsimp only
      omega
    · by_cases hmem : a ∈ w.node.neighbourTable.addrs
      · obtain ⟨nb, hnb, rfl⟩ := mem_addrs_iff.1 hmem
        have hexpired : helloExpired n'.numberOfHelloMessages nb = true := by
          by_contra hnot
          refine ha (mem_addrs_iff.2 ⟨nb, ?_, rfl⟩)
          rw [hentries]
          exact (List.mem_eraseP_of_neg hnot).2 hnb
        obtain rfl : nb.lastHello = k := Option.some.inj ((h.entry nb hnb).symm.trans hk)
        exact helloExpired_iff.1 hexpired
      · have hgone := h.gone a k hk hmem
        dsimp only
        omega
  refine ⟨hsound, ?_⟩
  have hfresh : ∀ nb ∈ n'.neighbourTable.entries,
      Fresh ⟨n', w.lastHeard⟩ nb.addr ↔ ¬ helloExpired n'.numberOfHelloMessages nb := by
    intro nb hnb
    have hlast := hsound.entry nb hnb
    have hpast := hsound.past _ _ hlast
    rw [helloExpired_iff]
    constructor
    · rintro ⟨k, hk, hle, -⟩
      obtain rfl := Option.some.inj (hlast.symm.trans hk)
      exact Int.not_lt.2 hle
    · intro hnot
      refine ⟨nb.lastHello, hlast, Int.not_lt.1 hnot, ?_⟩
      rw [iotoriiMaxHelloDiff]
      dsimp only at hpast ⊢
      omega
  rw [OneSilent, ← hnumber, ← forall_not_eraseP_iff, ← hentries]
  constructor
  · intro hexact nb hnb
    exact (hfresh nb hnb).1 ((hexact.1 nb.addr).1 (mem_addrs_iff.2 ⟨nb, hnb, rfl⟩))
  · intro hall
    refine ⟨fun a => ⟨fun hmem => ?_, fun hnew => ?_⟩, n'.neighbourTable.counted⟩
    · obtain ⟨nb, hnb, rfl⟩ := mem_addrs_iff.1 hmem
      exact (hfresh nb hnb).2 (hall nb hnb)
    · by_contra hmem
      obtain ⟨k, hk, hle, -⟩ := hnew
      exact absurd (hsound.gone a k hk hmem) (Int.not_lt.2 hle)

/-- What one event does to the invariant and to the table. -/
theorem Sound.step {e : HelloEvent α} (h : w.Sound) (hroom : w.HasRoom e)
    (hstep : step cfg e w = some w') : w'.Sound ∧ (w.Expires cfg e ↔ w.OneSilent e) := by
  cases e with
  | hello sender => exact ⟨h.hello hroom hstep, Iff.rfl⟩
  | timer env =>
      obtain ⟨hsound, hiff⟩ := h.timer hstep
      refine ⟨hsound, ?_⟩
      rw [← hiff]
      constructor
      · intro hexpires
        exact hexpires w' hstep
      · intro hexact w'' hstep'
        rw [hstep] at hstep'
        exact Option.some.inj hstep' ▸ hexact

/-- As long as there are fewer than 256 neighbours, the table is exact after every expiration of the
hello timer, in exactly those sequences of Hellos and expirations in which at each expiration at
most one entry has become too old. -/
theorem meets_expires_iff {cfg : Config α} {es : List (HelloEvent α)}
    (hroom : Meets (Watch.step cfg) HasRoom es boot) :
    Meets (Watch.step cfg) (Expires cfg) es boot ↔ Meets (Watch.step cfg) OneSilent es boot := by
  constructor
  · intro h
    refine meets_of_meets (I := Sound) ?_ sound_boot (meets_and hroom h)
    intro w e w' hsound hok hstep
    obtain ⟨hsound', hiff⟩ := hsound.step hok.1 hstep
    exact ⟨hiff.1 hok.2, hsound'⟩
  · intro h
    refine meets_of_meets (I := Sound) ?_ sound_boot (meets_and hroom h)
    intro w e w' hsound hok hstep
    obtain ⟨hsound', hiff⟩ := hsound.step hok.1 hstep
    exact ⟨hiff.2 hok.2, hsound'⟩

/-- A turn of the hello timer. -/
def turn : HelloEvent ℕ := .timer ⟨21, [], 0, 0⟩

/-- One neighbour falls silent, and is forgotten. -/
theorem meets_expires_oneNeighbour :
    Meets (Watch.step (defaultConfig 7)) (Expires (defaultConfig 7))
      [.hello 5, turn, turn, turn] boot := by
  have hnone : (0 : ℕ) < 256 := by decide
  have hone : (1 : ℕ) < 256 := by decide
  have hroom : Meets (Watch.step (defaultConfig 7)) HasRoom [.hello 5, turn, turn, turn] boot :=
    ⟨hnone, hone, hone, hone, trivial⟩
  exact (meets_expires_iff hroom).2
    ⟨trivial, Nat.zero_le 1, Nat.zero_le 1, Nat.le_refl 1, trivial⟩

/-- Two neighbours fall silent, and only the first one is forgotten. -/
theorem not_meets_expires_twoNeighbours :
    ¬ Meets (Watch.step (defaultConfig 7)) (Expires (defaultConfig 7))
      [.hello 5, .hello 6, turn, turn, turn] boot := by
  rintro ⟨-, -, -, -, h, -⟩
  obtain ⟨k, hk, hle, -⟩ := ((h _ rfl).1 6).1 (by decide)
  obtain rfl : 0 = k := Option.some.inj hk
  exact absurd hle (by decide)

end Watch

end Den2ne
