import Den2ne.Mpl.Frames

/-!
# Control messages work on timers

`icmp_in` starts and resets timers, and may make a new domain: no seed and no message changes
(`OnlyTimers`), at any point of its loops.
-/

namespace Den2ne.Mpl

/-- `s'` has the sets of `s`, and the numbers of all messages, used or not. -/
structure OnlyTimers (cfg : Config) (s s' : State) : Prop extends SameSets cfg s s' where
  number : ∀ m, (s'.msgs m).sent = (s.msgs m).sent

namespace OnlyTimers

variable {cfg : Config} {s s' s'' : State}

theorem refl (cfg : Config) (s : State) : OnlyTimers cfg s s := ⟨.refl cfg s, fun _ => rfl⟩

theorem trans (h : OnlyTimers cfg s s') (h' : OnlyTimers cfg s' s'') : OnlyTimers cfg s s'' :=
  ⟨h.toSameSets.trans h'.toSameSets, fun m => (h'.number m).trans (h.number m)⟩

theorem of_eq (hmsgs : s'.msgs = s.msgs) (hseeds : s'.seeds = s.seeds)
    (hdomains : s'.domains = s.domains) (hhistory : s'.history = s.history) :
    OnlyTimers cfg s s' :=
  ⟨.of_eq hmsgs hseeds hdomains hhistory, fun _ => by rw [hmsgs]⟩

theorem setTimer (m : ℕ) (tt : Trickle) :
    OnlyTimers cfg s (s.setMsg m { s.msgs m with tt := tt }) := by
  refine ⟨.setTimer m tt, fun k => ?_⟩
  rw [State.setMsg_msgs]
  split
  · rename_i hk
    rw [hk]
  · rfl

theorem setDomainTimer (d : ℕ) (tt : Trickle) :
    OnlyTimers cfg s (s.setDomain d { s.domains d with tt := tt }) :=
  ⟨.setDomainTimer d tt, fun _ => rfl⟩

theorem seq (h : OnlyTimers cfg s s') (m : ℕ) : (s'.msgs m).seq = (s.msgs m).seq := by
  unfold Msg.seq
  rw [h.number]

end OnlyTimers

section Control

variable {cfg : Config} {s : State} (p : Icmp)

theorem restart_timers (m : ℕ) {w : Walk} (h : OnlyTimers cfg s w.state) :
    OnlyTimers cfg s (w.restart m).state :=
  h.trans (.setTimer m _)

theorem restartAll_timers (ms : List ℕ) {w : Walk} (h : OnlyTimers cfg s w.state) :
    OnlyTimers cfg s (w.restartAll ms).state := by
  induction ms generalizing w with
  | nil => exact h
  | cons m ms ih => exact ih (restart_timers m h)

theorem findRemote_timers (seedId : SeedId) (turns pos : ℕ) {w : Walk}
    (h : OnlyTimers cfg s w.state) :
    OnlyTimers cfg s (p.findRemote cfg seedId turns pos w).2.2.state := by
  induction turns generalizing pos w with
  | zero => exact h
  | succ turns ih =>
      have hid : OnlyTimers cfg s
          { w.state with icmpSeedId := p.remoteSeed cfg w.state.icmpSeedId pos } :=
        h.trans (.of_eq rfl rfl rfl rfl)
      unfold Icmp.findRemote
      dsimp only
      split
      · split
        · exact hid
        · exact ih _ hid
      · exact h

theorem checkSeeds_timers (d : ℕ) (is : List ℕ) (pos : ℕ) {w : Walk}
    (h : OnlyTimers cfg s w.state) : OnlyTimers cfg s (p.checkSeeds cfg d is pos w).state := by
  induction is generalizing pos w with
  | nil => exact h
  | cons i is ih =>
      have hfind := findRemote_timers p (w.state.seeds i).seedId p.len pos h
      unfold Icmp.checkSeeds
      dsimp only
      split
      · refine ih _ ?_
        split
        · exact hfind
        · exact restartAll_timers _ hfind
      · exact ih _ h

theorem lastBit_timers {pos fuel r r' : ℕ} {w w' : Walk} (h : OnlyTimers cfg s w.state)
    (hlast : p.lastBit cfg pos fuel r w = some (r', w')) : OnlyTimers cfg s w'.state := by
  induction fuel generalizing r w with
  | zero => cases hlast
  | succ fuel ih =>
      unfold Icmp.lastBit at hlast
      dsimp only at hlast
      split at hlast
      · cases hlast
        exact h
      · have hget : OnlyTimers cfg s (p.getBit cfg pos r w).state := h
        exact ih hget hlast

theorem sync_timers (pos seq turns r : ℕ) {w : Walk} (h : OnlyTimers cfg s w.state) :
    OnlyTimers cfg s (p.sync cfg pos seq turns r w).2.state := by
  induction turns generalizing r w with
  | zero => exact h
  | succ turns ih =>
      unfold Icmp.sync
      dsimp only
      split
      · refine ih _ ?_
        split <;> exact h
      · exact h

theorem overlap_timers (pos : ℕ) (ms : List ℕ) (r : ℕ) {w : Walk}
    (h : OnlyTimers cfg s w.state) : OnlyTimers cfg s (p.overlap cfg pos ms r w).2.2.state := by
  induction ms generalizing r w with
  | nil => exact h
  | cons m ms ih =>
      have hsync := sync_timers p pos (w.state.msgs m).seq 256 r h
      unfold Icmp.overlap
      dsimp only
      have hbit : ∀ b : Bool, OnlyTimers cfg s (if b = true then
          p.getBit cfg pos (p.sync cfg pos (w.state.msgs m).seq 256 r w).1
            (p.sync cfg pos (w.state.msgs m).seq 256 r w).2
          else ({ p.getBit cfg pos (p.sync cfg pos (w.state.msgs m).seq 256 r w).1
            (p.sync cfg pos (w.state.msgs m).seq 256 r w).2 with rMissing := true } :
              Walk).restart m).state := by
        rintro (_ | _)
        · exact restart_timers m hsync
        · exact hsync
      split
      · exact ih _ (hbit _)
      · exact hbit _

theorem remainder_timers (pos turns r : ℕ) {w : Walk} (h : OnlyTimers cfg s w.state) :
    OnlyTimers cfg s (p.remainder cfg pos turns r w).state := by
  induction turns generalizing r w with
  | zero => exact h
  | succ turns ih =>
      unfold Icmp.remainder
      dsimp only
      split
      · refine ih _ ?_
        split <;> exact h
      · exact h

theorem compare_timers (pos : ℕ) (ms : List ℕ) (r : ℕ) {w : Walk}
    (h : OnlyTimers cfg s w.state) : OnlyTimers cfg s (p.compare cfg pos ms r w).state := by
  have hoverlap := overlap_timers p pos ms r h
  unfold Icmp.compare
  dsimp only
  split
  · exact remainder_timers p _ _ _ hoverlap
  · split
    · exact restartAll_timers _ hoverlap
    · exact hoverlap

theorem noOverlap_timers {fuel pos last : ℕ} {ms : List ℕ} {w w' : Walk}
    (h : OnlyTimers cfg s w.state) (hno : p.noOverlap cfg fuel pos ms last w = some w') :
    OnlyTimers cfg s w'.state := by
  unfold Icmp.noOverlap at hno
  obtain ⟨⟨r, v⟩, hlast, rfl⟩ := Option.map_eq_some_iff.1 hno
  have hv := lastBit_timers p h hlast
  dsimp only
  split
  · exact restartAll_timers ms hv
  · exact hv

theorem knownSeed_timers {fuel pos : ℕ} {ms : List ℕ} {w w' : Walk}
    (h : OnlyTimers cfg s w.state) (hknown : p.knownSeed cfg fuel pos ms w = some w') :
    OnlyTimers cfg s w'.state := by
  have hread : ∀ ks, OnlyTimers cfg s (w.read ks).state := fun _ => h
  cases ms with
  | nil =>
      obtain rfl := Option.some.inj hknown
      split <;> exact h
  | cons m rest =>
      unfold Icmp.knownSeed at hknown
      dsimp only at hknown
      split at hknown
      · obtain rfl := Option.some.inj hknown
        exact compare_timers p _ _ _ (hread _)
      · split at hknown
        · exact noOverlap_timers p (hread _) hknown
        · obtain rfl := Option.some.inj hknown
          exact compare_timers p _ _ _ (hread _)

theorem entry_timers {fuel d pos : ℕ} {w w' : Walk} (h : OnlyTimers cfg s w.state)
    (hentry : p.entry cfg fuel d pos w = some w') : OnlyTimers cfg s w'.state := by
  have hid : OnlyTimers cfg s { w.state with icmpSeedId := p.entrySeed w.state.icmpSeedId pos } :=
    h.trans (.of_eq rfl rfl rfl rfl)
  unfold Icmp.entry at hentry
  dsimp only at hentry
  split at hentry
  · obtain rfl := Option.some.inj hentry
    exact hid
  · exact knownSeed_timers p hid hentry

theorem entries_timers {fuel d turns pos : ℕ} {w w' : Walk} (h : OnlyTimers cfg s w.state)
    (hentries : p.entries cfg fuel d turns pos w = some w') : OnlyTimers cfg s w'.state := by
  induction turns generalizing pos w with
  | zero =>
      cases hentries
      exact h
  | succ turns ih =>
      unfold Icmp.entries at hentries
      split at hentries
      · obtain ⟨v, hv, hrest⟩ := Option.bind_eq_some_iff.1 hentries
        exact ih (entry_timers p h hv) hrest
      · obtain rfl := Option.some.inj hentries
        exact h

theorem domainSetAllocate_msgs (a : Ip6Addr) : (domainSetAllocate cfg a s).2.msgs = s.msgs := by
  unfold domainSetAllocate
  split
  · rfl
  · split
    · rfl
    · split
      · rfl
      · rename_i s' hs'
        obtain ⟨maddrs, rfl⟩ := subscribe_eq_some hs'
        dsimp only
        split
        · rfl
        · rfl

theorem domainSetAllocate_timers {a : Ip6Addr} (hnone : domainSetLookup cfg a s = none) :
    OnlyTimers cfg s (domainSetAllocate cfg a s).2 :=
  ⟨(domainSetAllocate_cases hnone).1, fun _ => by rw [domainSetAllocate_msgs]⟩

theorem domain_timers (cfg : Config) (s : State) : OnlyTimers cfg s (p.domain cfg s).2 := by
  unfold Icmp.domain
  split
  · exact .refl cfg s
  · rename_i hnone
    have halloc := domainSetAllocate_timers hnone
    split
    · rename_i s' hs'
      rwa [hs'] at halloc
    · rename_i d s' hs'
      rw [hs'] at halloc
      exact halloc.trans (.setDomainTimer d _)

theorem settle_timers (d : ℕ) {w : Walk} (h : OnlyTimers cfg s w.state) :
    OnlyTimers cfg s (Icmp.settle d w).state := by
  unfold Icmp.settle
  split
  · exact h.trans (.setDomainTimer d _)
  · split
    · exact h.trans (.setDomainTimer d _)
    · exact h

/-- A control message works on timers only. -/
theorem icmpIn_timers {fuel : ℕ} {w : Walk} (h : icmpIn cfg fuel p s = some w) :
    OnlyTimers cfg s w.state := by
  have hdomain := domain_timers p cfg s
  unfold icmpIn at h
  split at h
  · split at h
    · rename_i s' hs'
      obtain rfl := Option.some.inj h
      rwa [hs'] at hdomain
    · rename_i d s' hs'
      rw [hs'] at hdomain
      obtain ⟨v, hv, rfl⟩ := Option.map_eq_some_iff.1 h
      exact settle_timers d (entries_timers p (checkSeeds_timers p d _ _ hdomain) hv)
  · obtain rfl := Option.some.inj h
    exact .refl cfg s

end Control

end Den2ne.Mpl
