import Den2ne.Node.StandingStep

/-!
# Joining a round

A node has joined a round once it holds an address. `Grounded` is what ties the
HLMAC table to the round in every reachable standing, whatever the environment
does; `Grounded.store_cases` says what storing an address can do there.
-/

namespace Den2ne

open Keyed

variable {α : Type*} [DecidableEq α] (cfg : Config α)

namespace Standing

/-- The node has joined a round: it holds an address. -/
def Joined (s : Standing α) : Prop := s.hlmacTable.entries ≠ []

/-- The address stored from this message takes the node into a new round. -/
def EntersWith (s : Standing α) (timestamp : ℕ) (addr : HlmacAddr) : Prop :=
  (hlmactableAdd cfg.hlmacMaxHlmac s.hlmacTable addr timestamp).1 = true ∧
    s.enters timestamp = true

/-- The table counts its entries, it was filled because the bound admits an
address, and a node that is in a later round than `0` holds one. -/
structure Grounded (s : Standing α) : Prop where
  counted : s.hlmacTable.Counted
  roomy : s.Joined → Roomy cfg.hlmacMaxHlmac
  entered : s.lastTimestamp ≠ 0 → s.Joined

variable {cfg} {s : Standing α}

/-! ## The addresses of the table -/

omit [DecidableEq α] in
@[simp] theorem addrs_unmark : s.unmark.addrs = s.addrs := by
  rw [addrs, unmark, List.map_map]
  rfl

@[simp] theorem addrs_markSender (sender : α) (isAdded : Bool) :
    (s.markSender sender isAdded).addrs = s.addrs := by
  unfold addrs markSender
  exact map_key_updateAt (by exact fun _ => rfl) s.marks

/-- A Hello adds the sender at the end, if it is new and there is room. -/
theorem addrs_hello (sender : α) : (s.hello sender).addrs =
    if s.marks.length < 256 ∧ sender ∉ s.addrs then s.addrs ++ [sender] else s.addrs := by
  unfold hello
  split
  · rename_i hlen
    split
    · rename_i hmem
      rw [if_neg fun h => h.2 hmem]
      exact map_key_updateAt (by exact fun _ => rfl) s.marks
    · rename_i hmem
      rw [if_pos ⟨hlen, hmem⟩, addrs, List.map_append]
      rfl
  · rename_i hlen
    rw [if_neg fun h => hlen h.1]

theorem addrs_tick_subset : (s.tick cfg).addrs ⊆ s.addrs := by
  intro a ha
  obtain ⟨m, hm, rfl⟩ := List.mem_map.1 ha
  exact List.mem_map_of_mem (List.mem_of_mem_eraseP hm)

omit [DecidableEq α] in
theorem addrs_store (sender : α) (timestamp : ℕ) (addr : HlmacAddr) :
    (s.store cfg sender timestamp addr).2.addrs = s.addrs := by
  unfold store adopt
  dsimp only
  split
  · split
    · exact addrs_unmark
    · rfl
  · rfl

/-- An event adds at most one address to the table: the sender of a Hello. -/
theorem addrs_step {e : Event α} {a : α} (ha : a ∈ (s.step cfg e).addrs) :
    a ∈ s.addrs ∨ ∃ r, e = .receive a .hello r ∧ a ≠ cfg.linkaddrNodeAddr := by
  unfold step at ha
  split at ha
  · exact .inl (addrs_tick_subset ha)
  · exact .inl (addrs_unmark (s := s) ▸ ha)
  · exact .inl ha
  · exact .inl ha
  · split at ha
    · exact .inl ha
    · rename_i hself
      unfold receive at ha
      split at ha
      · rw [addrs_hello] at ha
        split at ha
        · rcases List.mem_append.1 ha with ha | ha
          · exact .inl ha
          · obtain rfl := List.mem_singleton.1 ha
            exact .inr ⟨_, rfl, hself⟩
        · exact .inl ha
      · exact .inl ha
      · exact .inl ha
      · dsimp only at ha
        split at ha
        · exact .inl ha
        · unfold offer at ha
          split at ha
          · rw [addrs_markSender, addrs_store] at ha
            exact .inl ha
          · exact .inl ha

/-- Only the hello timer of the root arms the round timer. -/
theorem sethlmacTimer_step (hcommon : cfg.nodeType = .common) (h : s.sethlmacTimer = false)
    (e : Event α) : (s.step cfg e).sethlmacTimer = false := by
  unfold step
  split
  · simp [tick, armSethlmac, hcommon, h]
  · rfl
  · exact h
  · exact h
  · split
    · exact h
    · unfold receive
      split
      · rw [hello_eq]
        exact h
      · exact h
      · exact h
      · dsimp only
        split
        · exact h
        · unfold offer store adopt
          dsimp only
          split
          · split
            · split <;> exact h
            · exact h
          · exact h

/-! ## The clock of the root -/

/-- The node has started `k` rounds: its round timer goes off at most once for
every Hello that it sent, and it sends few Hellos. -/
structure Clock (s : Standing α) (k : ℕ) : Prop where
  timestamp : s.timestamp = (k + 4294967295) % 4294967296
  started : k ≤ s.numberOfHelloMessages
  armed : s.sethlmacTimer = true → k + 1 ≤ s.numberOfHelloMessages
  sent : s.numberOfHelloMessages ≤ 501
  hello : s.helloTimer = true → s.numberOfHelloMessages ≤ 500

section

omit [DecidableEq α]

theorem Clock.le {k : ℕ} (h : s.Clock k) : k ≤ 501 := h.started.trans h.sent

theorem Clock.nextTimestamp_eq {k : ℕ} (h : s.Clock k) : nextTimestamp s.timestamp = k := by
  have hk := h.le
  rw [nextTimestamp, h.timestamp]
  omega

theorem Clock.of_eq {s' : Standing α} {k : ℕ} (h : s.Clock k) (h₁ : s'.timestamp = s.timestamp)
    (h₂ : s'.sethlmacTimer = s.sethlmacTimer)
    (h₃ : s'.numberOfHelloMessages = s.numberOfHelloMessages)
    (h₄ : s'.helloTimer = s.helloTimer) : s'.Clock k := by
  obtain ⟨ht, hs, ha, hn, hh⟩ := h
  exact ⟨h₁ ▸ ht, h₃ ▸ hs, h₂ ▸ h₃ ▸ ha, h₃ ▸ hn, h₃ ▸ h₄ ▸ hh⟩

end

/-- Receiving does not touch the fields of the clock. -/
theorem receive_clock (cfg : Config α) (s : Standing α) (sender : α) (message : Payload α) :
    (s.receive cfg sender message).timestamp = s.timestamp ∧
    (s.receive cfg sender message).sethlmacTimer = s.sethlmacTimer ∧
    (s.receive cfg sender message).numberOfHelloMessages = s.numberOfHelloMessages ∧
    (s.receive cfg sender message).helloTimer = s.helloTimer := by
  unfold Standing.receive
  split
  · rw [hello_eq]
    exact ⟨rfl, rfl, rfl, rfl⟩
  · exact ⟨rfl, rfl, rfl, rfl⟩
  · exact ⟨rfl, rfl, rfl, rfl⟩
  · dsimp only
    split
    · exact ⟨rfl, rfl, rfl, rfl⟩
    · unfold offer store adopt
      dsimp only
      split
      · split
        · split <;> exact ⟨rfl, rfl, rfl, rfl⟩
        · exact ⟨rfl, rfl, rfl, rfl⟩
      · exact ⟨rfl, rfl, rfl, rfl⟩

theorem Clock.receive {k : ℕ} (h : s.Clock k) (sender : α) (message : Payload α) :
    (s.receive cfg sender message).Clock k := by
  obtain ⟨ht, ha, hn, hh⟩ := receive_clock cfg s sender message
  exact h.of_eq ht ha hn hh

/-- Only the round timer changes the timestamp of the root. -/
theorem timestamp_step {e : Event α} (he : e ≠ .timer .sethlmac) :
    (s.step cfg e).timestamp = s.timestamp := by
  unfold Standing.step
  split
  · rfl
  · exact absurd rfl he
  · rfl
  · rfl
  · split
    · rfl
    · exact (receive_clock _ _ _ _).1

/-- Only the round timer starts a round. -/
theorem Clock.step {k : ℕ} {e : Event α} (h : s.Clock k) (he : s.Enabled e) :
    (s.step cfg e).Clock (if e = .timer .sethlmac then k + 1 else k) := by
  unfold Standing.step
  split
  · rw [if_neg nofun]
    have hstarted := h.started
    have hfew := h.hello (he.hello rfl)
    have hnumber : (s.tick cfg).numberOfHelloMessages = s.numberOfHelloMessages + 1 := by
      dsimp only [tick]
      omega
    refine ⟨h.timestamp, ?_, ?_, ?_, ?_⟩
    · omega
    · intro _
      omega
    · omega
    · intro htimer
      rw [tick, decide_eq_true_eq] at htimer
      dsimp only [tick]
      exact htimer
  · rw [if_pos rfl]
    refine ⟨?_, h.armed (he.sethlmac rfl), nofun, h.sent, h.hello⟩
    have hle := h.le
    change nextTimestamp s.timestamp = _
    rw [h.nextTimestamp_eq]
    omega
  · rw [if_neg nofun]
    exact h
  · rw [if_neg nofun]
    exact h
  · simp only [reduceCtorEq, if_false]
    split
    · exact h
    · exact h.receive _ _

omit [DecidableEq α] in
theorem clock_boot : (Node.boot : Node α).standing.Clock 0 :=
  ⟨rfl, le_rfl, nofun, Nat.zero_le _, fun _ => Nat.zero_le _⟩

/-! ## Storing the address -/

section

omit [DecidableEq α]

theorem Grounded.snd_hlmactableAdd (h : s.Grounded cfg) {addr : HlmacAddr} {timestamp : ℕ}
    (hadd : (hlmactableAdd cfg.hlmacMaxHlmac s.hlmacTable addr timestamp).1 = false) :
    (hlmactableAdd cfg.hlmacMaxHlmac s.hlmacTable addr timestamp).2 = s.hlmacTable := by
  by_cases hroom : Roomy cfg.hlmacMaxHlmac
  · exact snd_hlmactableAdd_of_not_stored hroom hadd
  · have hnil : s.hlmacTable.entries = [] := by
      by_contra hne
      exact hroom (h.roomy hne)
    have hrenew : hlmactableRenew s.hlmacTable timestamp = s.hlmacTable := by
      refine hlmactableRenew_of_not_newer fun entry hentry => ?_
      rw [hnil] at hentry
      cases hentry
    rcases hlmactableAdd_cases cfg.hlmacMaxHlmac s.hlmacTable addr timestamp with hc | ⟨-, -, hc⟩
    · rw [hc, hrenew]
    · rw [hc] at hadd
      cases hadd

/-- What storing does to the standing: nothing if there is no room; a new
round; or one more address of the round the node is in. -/
theorem Grounded.store_cases (h : s.Grounded cfg) (sender : α) (timestamp : ℕ) (addr : HlmacAddr) :
    (¬ s.EntersWith cfg timestamp addr ∧ s.store cfg sender timestamp addr = (false, s)) ∨
    ∃ table : HlmacTable, table.Counted ∧ table.entries ≠ [] ∧ Roomy cfg.hlmacMaxHlmac ∧
      (∃ rest, table.entries = rest ++ [⟨addr, timestamp⟩]) ∧
      ((s.EntersWith cfg timestamp addr ∧ s.store cfg sender timestamp addr =
          (true, { s.enter timestamp with
            hlmacTable := table, accepted := ⟨sender, timestamp, addr⟩ :: s.accepted })) ∨
        (¬ s.EntersWith cfg timestamp addr ∧ s.enters timestamp = false ∧
          s.store cfg sender timestamp addr = (true, { s with
            hlmacTable := table, accepted := ⟨sender, timestamp, addr⟩ :: s.accepted }))) := by
  cases hadd : (hlmactableAdd cfg.hlmacMaxHlmac s.hlmacTable addr timestamp).1 with
  | false =>
      refine .inl ⟨fun henters => ?_, ?_⟩
      · rw [EntersWith, hadd] at henters
        cases henters.1
      · simp [store, hadd, h.snd_hlmactableAdd hadd]
  | true =>
      obtain ⟨hentries, hroom⟩ := entries_hlmactableAdd_of_stored h.counted hadd
      refine .inr ⟨_, h.counted.add cfg.hlmacMaxHlmac addr timestamp, by simp [hentries], ?_,
        ⟨_, hentries⟩, ?_⟩
      · rcases hroom with hroom | hroom
        · exact .inl hroom
        · exact .inr (by omega)
      · cases henters : s.enters timestamp with
        | true =>
            refine .inl ⟨⟨hadd, henters⟩, ?_⟩
            have henters' : ({ s with hlmacTable := (hlmactableAdd cfg.hlmacMaxHlmac
                s.hlmacTable addr timestamp).2 } : Standing α).enters timestamp = true := henters
            simp only [store, hadd, if_true, adopt, henters']
            rfl
        | false =>
            refine .inr ⟨fun hboth => ?_, rfl, ?_⟩
            · rw [EntersWith, henters] at hboth
              cases hboth.2
            · have henters' : ({ s with hlmacTable := (hlmactableAdd cfg.hlmacMaxHlmac
                  s.hlmacTable addr timestamp).2 } : Standing α).enters timestamp = false := henters
              simp only [store, hadd, if_true, adopt, henters', Bool.false_eq_true, if_false]

end

/-! ## What holds in every reachable standing -/

section

omit [DecidableEq α]

theorem Grounded.of_eq {s' : Standing α} (h : s.Grounded cfg)
    (htable : s'.hlmacTable = s.hlmacTable) (hlast : s'.lastTimestamp = s.lastTimestamp) :
    s'.Grounded cfg := by
  obtain ⟨h₁, h₂, h₃⟩ := h
  rw [Joined, ← htable] at h₂ h₃
  exact ⟨htable ▸ h₁, h₂, hlast ▸ h₃⟩

/-- A table that an address was just put in grounds the node in any round. -/
theorem Grounded.of_stored {s' : Standing α} (hcounted : s'.hlmacTable.Counted)
    (hne : s'.hlmacTable.entries ≠ []) (hroom : Roomy cfg.hlmacMaxHlmac) : s'.Grounded cfg :=
  ⟨hcounted, fun _ => hroom, fun _ => hne⟩

end

theorem Grounded.hello (h : s.Grounded cfg) (sender : α) : (s.hello sender).Grounded cfg := by
  rw [hello_eq]
  exact h.of_eq rfl rfl

section

omit [DecidableEq α]

theorem Grounded.storeRoot (h : s.Grounded cfg) : (s.storeRoot cfg).Grounded cfg := by
  cases hadd : (hlmactableAdd cfg.hlmacMaxHlmac s.hlmacTable (hlmacCreateRootAddr 1)
      (nextTimestamp s.timestamp)).1 with
  | false => exact h.of_eq (h.snd_hlmactableAdd hadd) rfl
  | true =>
      obtain ⟨hentries, hroom⟩ := entries_hlmactableAdd_of_stored h.counted hadd
      refine .of_stored (h.counted.add cfg.hlmacMaxHlmac _ _) ?_ ?_
      · rw [Standing.storeRoot, hentries]
        simp
      · rcases hroom with hroom | hroom
        · exact .inl hroom
        · exact .inr (by omega)

theorem Grounded.store (h : s.Grounded cfg) (sender : α) (timestamp : ℕ) (addr : HlmacAddr) :
    (s.store cfg sender timestamp addr).2.Grounded cfg := by
  obtain ⟨-, hs⟩ | ⟨table, hcounted, hne, hroom, -, ⟨-, hs⟩ | ⟨-, -, hs⟩⟩ :=
    h.store_cases sender timestamp addr
  · rw [hs]
    exact h
  · rw [hs]
    exact .of_stored hcounted hne hroom
  · rw [hs]
    exact .of_stored hcounted hne hroom

end

theorem Grounded.offer (h : s.Grounded cfg) (sender : α) (timestamp : ℕ) (addr : HlmacAddr) :
    (s.offer cfg sender timestamp addr).Grounded cfg := by
  unfold Standing.offer
  split
  · exact (h.store sender timestamp addr).of_eq rfl rfl
  · exact h

/-- Every event keeps the node grounded. -/
theorem Grounded.step (h : s.Grounded cfg) (e : Event α) : (s.step cfg e).Grounded cfg := by
  unfold Standing.step
  split
  · exact h.of_eq rfl rfl
  · exact h.storeRoot.of_eq rfl rfl
  · exact h
  · exact h
  · split
    · exact h
    · unfold Standing.receive
      split
      · exact h.hello _
      · exact h
      · exact h
      · dsimp only
        split
        · exact h
        · exact h.offer _ _ _

omit [DecidableEq α] in
theorem grounded_boot : (Node.boot : Node α).standing.Grounded cfg :=
  ⟨rfl, fun h => absurd rfl h, fun h => absurd rfl h⟩

/-! ## One address -/

/-- Under a bound of one address, a common node holds at most the address of
the round that it is in, and has no round timer. -/
structure Single (s : Standing α) : Prop where
  timerOff : s.sethlmacTimer = false
  length_le : s.hlmacTable.entries.length ≤ 1
  current : ∀ entry ∈ s.hlmacTable.entries, entry.timestamp = s.lastTimestamp

section

omit [DecidableEq α]

/-- With one address, an address that is stored is the only one, and always
takes the node into its round, which is a new one if it had joined one. -/
theorem Single.store_cases (hs : s.Single) (hg : s.Grounded cfg)
    (hmax : cfg.hlmacMaxHlmac = 1) (sender : α) (timestamp : ℕ) (addr : HlmacAddr) :
    s.store cfg sender timestamp addr = (false, s) ∨
    (s.enters timestamp = true ∧ (s.Joined → s.lastTimestamp < timestamp) ∧
      ∃ table : HlmacTable, table.Counted ∧ table.entries = [⟨addr, timestamp⟩] ∧
        s.store cfg sender timestamp addr = (true, { s.enter timestamp with
          hlmacTable := table, accepted := ⟨sender, timestamp, addr⟩ :: s.accepted })) := by
  cases hadd : (hlmactableAdd cfg.hlmacMaxHlmac s.hlmacTable addr timestamp).1 with
  | false => exact .inl (by simp [store, hadd, hg.snd_hlmactableAdd hadd])
  | true =>
      obtain ⟨hentries, hroom⟩ := entries_hlmactableAdd_of_stored hg.counted hadd
      have hempty : (hlmactableRenew s.hlmacTable timestamp).entries = [] := by
        rw [← List.length_eq_zero_iff]
        omega
      have hnewer : s.Joined → s.lastTimestamp < timestamp := by
        intro hjoined
        by_contra hold
        have hkeep : hlmactableRenew s.hlmacTable timestamp = s.hlmacTable := by
          refine hlmactableRenew_of_not_newer fun entry hentry => ?_
          rw [hs.current entry hentry]
          exact Nat.le_of_not_lt hold
        rw [hkeep] at hempty
        exact hjoined hempty
      have henters : s.enters timestamp = true := by
        rw [enters, Bool.or_eq_true, decide_eq_true_eq, beq_iff_eq, or_iff_not_imp_right]
        exact fun hlast => hnewer (hg.entered hlast)
      refine .inr ⟨henters, hnewer, _, hg.counted.add cfg.hlmacMaxHlmac addr timestamp,
        by rw [hentries, hempty]; rfl, ?_⟩
      have henters' : ({ s with hlmacTable := (hlmactableAdd cfg.hlmacMaxHlmac
          s.hlmacTable addr timestamp).2 } : Standing α).enters timestamp = true := henters
      simp only [store, hadd, if_true, adopt, henters']
      rfl

theorem Single.of_eq {s' : Standing α} (h : s.Single)
    (htimer : s'.sethlmacTimer = s.sethlmacTimer) (htable : s'.hlmacTable = s.hlmacTable)
    (hlast : s'.lastTimestamp = s.lastTimestamp) : s'.Single := by
  obtain ⟨h₁, h₂, h₃⟩ := h
  rw [← htimer] at h₁
  rw [← htable] at h₂ h₃
  rw [← hlast] at h₃
  exact ⟨h₁, h₂, h₃⟩

end

theorem Single.hello (h : s.Single) (sender : α) : (s.hello sender).Single := by
  rw [hello_eq]
  exact h.of_eq rfl rfl rfl

theorem Single.offer (h : s.Single) (hg : s.Grounded cfg) (hmax : cfg.hlmacMaxHlmac = 1)
    (sender : α) (timestamp : ℕ) (addr : HlmacAddr) :
    (s.offer cfg sender timestamp addr).Single := by
  unfold Standing.offer
  split
  · obtain hs | ⟨-, -, table, -, hentries, hs⟩ := h.store_cases hg hmax sender timestamp addr
    · rw [hs]
      exact h.of_eq rfl rfl rfl
    · rw [hs]
      refine ⟨h.timerOff, ?_, ?_⟩
      · exact hentries ▸ le_rfl
      · intro entry hentry
        have hmem : entry ∈ table.entries := hentry
        rw [hentries, List.mem_singleton] at hmem
        rw [hmem]
        rfl
  · exact h

/-- Every event that can happen at a common node keeps it at one address. -/
theorem Single.step (h : s.Single) (hg : s.Grounded cfg) (hcommon : cfg.nodeType = .common)
    (hmax : cfg.hlmacMaxHlmac = 1) {e : Event α} (he : s.Enabled e) :
    (s.step cfg e).Single := by
  unfold Standing.step
  split
  · refine h.of_eq ?_ rfl rfl
    simp [tick, armSethlmac, hcommon]
  · exact absurd (h.timerOff.symm.trans (he.sethlmac rfl)) Bool.false_ne_true
  · exact h
  · exact h
  · split
    · exact h
    · unfold Standing.receive
      split
      · exact h.hello _
      · exact h
      · exact h
      · dsimp only
        split
        · exact h
        · exact h.offer hg hmax _ _ _

omit [DecidableEq α] in
theorem single_boot : (Node.boot : Node α).standing.Single :=
  ⟨rfl, Nat.zero_le 1, fun _ h => by cases h⟩

/-- Under a bound of one address, a common node has stored at most one address
of each round, and none of a round later than its own. -/
structure Dated (s : Standing α) : Prop where
  le : ∀ r ∈ s.accepted, r.timestamp ≤ s.lastTimestamp
  joined : s.accepted ≠ [] → s.Joined
  nodup : (s.accepted.map (·.timestamp)).Nodup

omit [DecidableEq α] in
theorem Dated.of_eq {s' : Standing α} (h : s.Dated) (haccepted : s'.accepted = s.accepted)
    (htable : s'.hlmacTable = s.hlmacTable) (hlast : s'.lastTimestamp = s.lastTimestamp) :
    s'.Dated := by
  obtain ⟨h₁, h₂, h₃⟩ := h
  rw [Joined, ← htable] at h₂
  rw [← haccepted] at h₁ h₂ h₃
  rw [← hlast] at h₁
  exact ⟨h₁, h₂, h₃⟩

theorem Dated.hello (h : s.Dated) (sender : α) : (s.hello sender).Dated := by
  rw [hello_eq]
  exact h.of_eq rfl rfl rfl

theorem Dated.offer (h : s.Dated) (hs : s.Single) (hg : s.Grounded cfg)
    (hmax : cfg.hlmacMaxHlmac = 1) (sender : α) (timestamp : ℕ) (addr : HlmacAddr) :
    (s.offer cfg sender timestamp addr).Dated := by
  unfold Standing.offer
  split
  · obtain hstore | ⟨-, hnewer, table, -, hentries, hstore⟩ :=
      hs.store_cases hg hmax sender timestamp addr
    · rw [hstore]
      exact h.of_eq rfl rfl rfl
    · rw [hstore]
      -- an older address was stored in an older round
      have hlt : ∀ r ∈ s.accepted, r.timestamp < timestamp := fun r hr =>
        (h.le r hr).trans_lt (hnewer (h.joined (List.ne_nil_of_mem hr)))
      refine ⟨?_, ?_, ?_⟩
      · intro r hr
        rcases List.mem_cons.1 hr with rfl | hr
        · exact le_rfl
        · exact (hlt r hr).le
      · intro _ hnil
        have hnil' : table.entries = [] := hnil
        rw [hentries] at hnil'
        cases hnil'
      · refine List.nodup_cons.2 ⟨?_, h.nodup⟩
        intro hmem
        obtain ⟨r, hr, heq⟩ := List.mem_map.1 hmem
        exact (hlt r hr).ne heq
  · exact h

/-- Every event that can happen at a common node keeps its addresses dated. -/
theorem Dated.step (h : s.Dated) (hs : s.Single) (hg : s.Grounded cfg)
    (hmax : cfg.hlmacMaxHlmac = 1) {e : Event α} (he : s.Enabled e) : (s.step cfg e).Dated := by
  unfold Standing.step
  split
  · exact h.of_eq rfl rfl rfl
  · exact absurd (hs.timerOff.symm.trans (he.sethlmac rfl)) Bool.false_ne_true
  · exact h
  · exact h
  · split
    · exact h
    · unfold Standing.receive
      split
      · exact h.hello _
      · exact h
      · exact h
      · dsimp only
        split
        · exact h
        · exact h.offer hs hg hmax _ _ _

omit [DecidableEq α] in
theorem dated_boot : (Node.boot : Node α).standing.Dated :=
  ⟨nofun, fun h => absurd rfl h, List.nodup_nil⟩

end Standing

end Den2ne
