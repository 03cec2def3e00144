import Den2ne.Mpl.Expiry

/-!
# The events as chains of changes

`Event.message` is the data message of an event that passes the checks of `accept`: one that is
received, or one that the forwarder sends itself. `Entry` is the entry of a seed of a domain in
the seed set. With `EventOk`, every event is a chain of changes, so that it keeps `Linked`.
-/

namespace Den2ne.Mpl

/-- The data message that an event brings behind the checks of `accept`, with the state there. -/
def Event.message (cfg : Config) (s : State) : Event → Option (DataMessage × State)
  | .data p srcIsMine =>
      if isAddrMcastRoutable p.destipaddr ∧ (maddrLookup cfg p.destipaddr s).isSome ∧
          acceptChecks cfg true srcIsMine p then
        some (p, { s with acceptSeedId := p.seedId s.acceptSeedId })
      else none
  | .send q srcIsMine =>
      let t := q.ready cfg s
      let p := q.toMessage cfg t
      if isAddrMcastRoutable q.destipaddr ∧
          ¬ (t.localSeedId.s = seedIdUnknown ∨ q.tooLong) ∧ acceptChecks cfg false srcIsMine p then
        some (p, { t with
          lastSent := t.lastSent + 1
          acceptSeedId := p.seedId t.acceptSeedId })
      else none
  | _ => none

/-- `accept` behind its checks. -/
def acceptFrom (cfg : Config) (p : DataMessage) (s : State) : Bool × State :=
  match acceptDomain cfg p.destipaddr s with
  | (none, t) => (false, t)
  | (some d, t) => acceptSeed cfg d s.acceptSeedId p t

section

variable {cfg : Config} {scans : Prop} {fits : State → ℕ → ℕ → Prop} {s s' t : State}
  {e : Event} {p : DataMessage}

/-! ## The message of an event -/

theorem accept_of_checks {fromNet srcIsMine : Bool}
    (h : acceptChecks cfg fromNet srcIsMine p = true) :
    accept cfg fromNet srcIsMine p s =
      acceptFrom cfg p { s with acceptSeedId := p.seedId s.acceptSeedId } := by
  have heq : accept cfg fromNet srcIsMine p s =
      if acceptChecks cfg fromNet srcIsMine p then
        acceptFrom cfg p { s with acceptSeedId := p.seedId s.acceptSeedId }
      else (false, s) := rfl
  rw [heq, if_pos h]

theorem ready_sameSets (cfg : Config) (q : Datagram) (s : State) : SameSets cfg s (q.ready cfg s) := by
  unfold Datagram.ready
  split
  · exact .of_eq rfl rfl rfl rfl
  · exact .refl cfg s

theorem ready_acceptSeedId (cfg : Config) (q : Datagram) (s : State) :
    (q.ready cfg s).acceptSeedId = s.acceptSeedId := by
  unfold Datagram.ready
  split
  · rfl
  · rfl

/-- What an event with a message does. -/
theorem message_eq_some (h : e.message cfg s = some (p, t)) :
    SameSets cfg s t ∧ t.acceptSeedId = p.seedId s.acceptSeedId ∧
    isAddrMcastRoutable p.destipaddr = true ∧ step cfg e s = some (acceptFrom cfg p t).2 := by
  cases e with
  | data p' srcIsMine =>
      unfold Event.message at h
      dsimp only at h
      split at h
      · rename_i hok
        obtain ⟨rfl, rfl⟩ := Prod.mk.inj (Option.some.inj h)
        refine ⟨.of_eq rfl rfl rfl rfl, rfl, hok.1, ?_⟩
        unfold step input
        dsimp only
        rw [if_pos hok.1, if_pos hok.2.1, accept_of_checks hok.2.2]
      · cases h
  | send q srcIsMine =>
      unfold Event.message at h
      dsimp only at h
      split at h
      · rename_i hok
        obtain ⟨rfl, rfl⟩ := Prod.mk.inj (Option.some.inj h)
        have hready := ready_sameSets cfg q s
        refine ⟨hready.trans (.of_eq rfl rfl rfl rfl), ?_, hok.1, ?_⟩
        · have hsame := ready_acceptSeedId cfg q s
          dsimp only
          rw [hsame]
        · unfold step out
          dsimp only
          rw [if_pos hok.1, if_neg hok.2.1, accept_of_checks hok.2.2]
      · cases h
  | control _ _ | dataTimer _ | controlTimer _ | lifetimeTimer | address _ _ | behind _ => cases h

theorem accept_of_not_checks {fromNet srcIsMine : Bool}
    (h : ¬ acceptChecks cfg fromNet srcIsMine p = true) :
    (accept cfg fromNet srcIsMine p s).2 = s := by
  unfold accept
  rw [if_neg h]

/-- The other events do not store a message. -/
theorem step_of_message_eq_none (hmessage : e.message cfg s = none)
    (hlifetime : e ≠ .lifetimeTimer) (hbehind : ∀ x, e ≠ .behind x)
    (h : step cfg e s = some s') : SameSets cfg s s' := by
  cases e with
  | data p srcIsMine =>
      unfold Event.message at hmessage
      dsimp only at hmessage
      split at hmessage
      · cases hmessage
      · rename_i hno
        obtain rfl := Option.some.inj h
        split
        · rename_i hroutable
          unfold input
          split
          · rename_i hsub
            have hchecks : ¬ acceptChecks cfg true srcIsMine p = true := fun hok =>
              hno ⟨hroutable, hsub, hok⟩
            rw [accept_of_not_checks hchecks]
            exact .refl cfg s
          · exact .refl cfg s
        · exact .refl cfg s
  | send q srcIsMine =>
      unfold Event.message at hmessage
      dsimp only at hmessage
      split at hmessage
      · cases hmessage
      · rename_i hno
        obtain rfl := Option.some.inj h
        split
        · rename_i hroutable
          have hready := ready_sameSets cfg q s
          unfold out
          dsimp only
          split
          · exact hready
          · rename_i hsend
            have hchecks : ¬ acceptChecks cfg false srcIsMine
                (q.toMessage cfg (q.ready cfg s)) = true := fun hok => hno ⟨hroutable, hsend, hok⟩
            rw [accept_of_not_checks hchecks]
            exact hready.trans (.of_eq rfl rfl rfl rfl)
        · exact .refl cfg s
  | control p fuel =>
      obtain ⟨w, hw, rfl⟩ := Option.map_eq_some_iff.1 h
      exact (icmpIn_timers p hw).toSameSets
  | dataTimer m =>
      unfold step at h
      dsimp only at h
      split at h
      · obtain rfl := Option.some.inj h
        exact .setTimer m _
      · cases h
  | controlTimer d =>
      unfold step at h
      dsimp only at h
      split at h
      · obtain rfl := Option.some.inj h
        exact .setDomainTimer d _
      · cases h
  | lifetimeTimer => exact absurd rfl hlifetime
  | address k a =>
      obtain rfl := Option.some.inj h
      exact .of_eq rfl rfl rfl rfl
  | behind x => exact absurd rfl (hbehind x)

/-! ## Events -/

/-- What an event needs so that it does only what `Change` allows. -/
structure EventOk (cfg : Config) (scans : Prop) (fits : State → ℕ → ℕ → Prop) (s : State)
    (e : Event) : Prop where
  message : ∀ p t, e.message cfg s = some (p, t) →
    ∀ d t', acceptDomain cfg p.destipaddr t = (some d, t') →
      Acceptable cfg scans fits d t.acceptSeedId p t'
  lifetime : e = .lifetimeTimer → Subscribed cfg scans s

theorem step_changes (hlinked : Linked cfg s) (hok : EventOk cfg scans fits s e)
    (h : step cfg e s = some s') : Changes cfg scans fits s s' := by
  cases hmessage : e.message cfg s with
  | some pt =>
      obtain ⟨p, t⟩ := pt
      obtain ⟨hsame, -, hroutable, hstep⟩ := message_eq_some hmessage
      obtain rfl := Option.some.inj (hstep.symm.trans h)
      have hlinked' := hlinked.sameSets hsame
      obtain ⟨hdomain, hused⟩ := acceptDomain_cases hroutable hlinked'.domains
      refine .trans (.single (.same hsame)) ?_
      unfold acceptFrom
      split
      · rename_i t' ht'
        rw [ht'] at hdomain
        exact .single (.same hdomain)
      · rename_i d t' ht'
        rw [ht'] at hdomain hused
        obtain ⟨hd, hd', -⟩ := hused d rfl
        exact .trans (.single (.same hdomain)) (acceptSeed_changes (hlinked'.sameSets hdomain) hd
          hd' (hok.message p t hmessage d t' ht'))
  | none =>
      by_cases hlifetime : e = .lifetimeTimer
      · subst hlifetime
        obtain rfl := Option.some.inj h
        exact lifetimeTimerExpiration_changes (hok.lifetime rfl)
      · by_cases hbehind : ∃ x, e = .behind x
        · obtain ⟨x, rfl⟩ := hbehind
          obtain rfl := Option.some.inj h
          exact .single (.behind x)
        · exact .single (.same (step_of_message_eq_none hmessage hlifetime
            (fun x heq => hbehind ⟨x, heq⟩) h))

/-! ## The start -/

theorem linked_of_empty (hmsgs : ∀ m, (s.msgs m).seed = none)
    (hseeds : ∀ i < cfg.seedSetSize, s.seeds i = Seed.zero)
    (hdomains : ∀ d, ¬ (s.domains d).isUsed) : Linked cfg s where
  held := by
    refine ⟨fun m _ i hi => ?_, fun i hi m hm => ?_, fun i hi => ?_⟩
    · rw [hmsgs] at hi
      cases hi
    · rw [hseeds i hi] at hm
      cases hm
    · rw [hseeds i hi]
      exact List.nodup_nil
  unused i hi _ := by rw [hseeds i hi]; rfl
  domain i hi d hd := by rw [hseeds i hi] at hd; cases hd
  count i hi _ := by rw [hseeds i hi]; rfl
  seeds i hi j _ d hd := by rw [hseeds i hi] at hd; cases hd
  domains := ⟨fun d _ hused => absurd hused (hdomains d),
    fun d _ d' _ hused => absurd hused (hdomains d)⟩

/-- The sets after `init`: there are no messages, no seeds and perhaps some domains. -/
theorem boot_spec (cfg : Config) (maddrs : ℕ → Option Ip6Addr) (behind : Seed)
    (global : Option Ip6Addr) :
    Linked cfg (boot cfg maddrs behind global) ∧
      (boot cfg maddrs behind global).history = ⟨[], false⟩ ∧
      ∀ i < cfg.seedSetSize, (boot cfg maddrs behind global).seeds i = Seed.zero := by
  unfold boot
  generalize hs₀ : updateSeedId cfg global _ = s₀
  have hmsgs : ∀ m, (s₀.msgs m).seed = none := fun m => by rw [← hs₀]; rfl
  have hseeds : ∀ i < cfg.seedSetSize, s₀.seeds i = Seed.zero := fun i hi => by
    rw [← hs₀]
    exact if_neg (Nat.ne_of_lt hi)
  have hdomains : ∀ d, ¬ (s₀.domains d).isUsed := fun d => by
    rw [← hs₀]
    exact Bool.false_ne_true
  have hhistory : s₀.history = ⟨[], false⟩ := by rw [← hs₀]; rfl
  have hadd : ∃ t : State, SameSets cfg s₀ t ∧ (∀ d, ¬ (t.domains d).isUsed) ∧
      t = if cfg.subToAllForwarders then (maddrAdd cfg allForwarders s₀).getD s₀ else s₀ := by
    split
    · cases h : maddrAdd cfg allForwarders s₀ with
      | none => exact ⟨s₀, .refl cfg s₀, hdomains, rfl⟩
      | some t =>
          obtain ⟨maddrs', rfl⟩ := maddrAdd_eq_some h
          exact ⟨{ s₀ with maddrs := maddrs' }, .of_eq rfl rfl rfl rfl, hdomains, rfl⟩
    · exact ⟨s₀, .refl cfg s₀, hdomains, rfl⟩
  obtain ⟨t, hsame, hunused, heq⟩ := hadd
  dsimp only
  rw [← heq]
  have hcheck := hsame.trans (maddrCheck_sameSets (.inl fun d _ hused => absurd hused (hunused d)))
  refine ⟨(linked_of_empty hmsgs hseeds hdomains).sameSets hcheck, hcheck.history.trans hhistory,
    fun i hi => ?_⟩
  rw [hcheck.seeds]
  exact hseeds i hi

/-! ## The entry of a seed -/

/-- The entry of the seed `id` of the domain with the data address `a`. -/
def Entry (cfg : Config) (a : Ip6Addr) (id : Fin 16 → UInt8) (s : State) (i : ℕ) : Prop :=
  i < cfg.seedSetSize ∧ (s.seeds i).seedId.id = id ∧
    ∃ d, (s.seeds i).domain = some d ∧ (s.domains d).dataAddr = a

/-- A seed has at most one entry. -/
theorem Entry.unique {a : Ip6Addr} {id : Fin 16 → UInt8} {i j : ℕ} (hlinked : Linked cfg s)
    (hi : Entry cfg a id s i) (hj : Entry cfg a id s j) : i = j := by
  obtain ⟨hlt, hid, d, hd, ha⟩ := hi
  obtain ⟨hlt', hid', d', hd', ha'⟩ := hj
  obtain ⟨hD, hused⟩ := hlinked.domain i hlt d hd
  obtain ⟨hD', hused'⟩ := hlinked.domain j hlt' d' hd'
  obtain rfl := hlinked.domains.unique d hD d' hD' hused hused' (ha.trans ha'.symm)
  exact hlinked.seeds i hlt j hlt' d hd hd' (hid.trans hid'.symm)

theorem Entry.sameSets {a : Ip6Addr} {id : Fin 16 → UInt8} {i : ℕ} (hlinked : Linked cfg s)
    (hsame : SameSets cfg s s') : Entry cfg a id s' i ↔ Entry cfg a id s i := by
  have hdata : ∀ d, i < cfg.seedSetSize → (s.seeds i).domain = some d →
      (s'.domains d).dataAddr = (s.domains d).dataAddr := fun d hi hd =>
    hsame.dataAddr d (hlinked.domain i hi d hd).2
  unfold Entry
  rw [hsame.seeds]
  constructor
  · rintro ⟨hi, hid, d, hd, ha⟩
    exact ⟨hi, hid, d, hd, (hdata d hi hd).symm.trans ha⟩
  · rintro ⟨hi, hid, d, hd, ha⟩
    exact ⟨hi, hid, d, hd, (hdata d hi hd).trans ha⟩

/-- `seed_set_lookup` in the domain of an address finds the entry. -/
theorem seedSetLookup_iff {a : Ip6Addr} {seedId : SeedId} {d i : ℕ} (hlinked : Linked cfg s)
    (hd : d < cfg.domainSetSize) (hused : (s.domains d).isUsed)
    (ha : (s.domains d).dataAddr = a) :
    seedSetLookup cfg seedId d s = some i ↔ Entry cfg a seedId.id s i := by
  constructor
  · intro h
    obtain ⟨hi, hdomain, hid⟩ := seedSetLookup_eq_some h
    exact ⟨hi, hid, d, hdomain, ha⟩
  · intro hentry
    cases hlookup : seedSetLookup cfg seedId d s with
    | some j =>
        obtain ⟨hj, hdomain, hid⟩ := seedSetLookup_eq_some hlookup
        rw [Entry.unique hlinked hentry ⟨hj, hid, d, hdomain, ha⟩]
    | none =>
        obtain ⟨hi, hid, d', hd', ha'⟩ := hentry
        obtain ⟨hD', hused'⟩ := hlinked.domain i hi d' hd'
        obtain rfl := hlinked.domains.unique d hd d' hD' hused hused' (ha.trans ha'.symm)
        exact absurd hid (seedSetLookup_eq_none hlookup i hi hd')

/-- What `accept` finds behind the domain is the entry from before. -/
theorem seedSetLookup_sameSets {a : Ip6Addr} {seedId : SeedId} {d i : ℕ} (hlinked : Linked cfg s)
    (hsame : SameSets cfg s s') (hd : d < cfg.domainSetSize) (hused : (s'.domains d).isUsed)
    (ha : (s'.domains d).dataAddr = a) :
    seedSetLookup cfg seedId d s' = some i ↔ Entry cfg a seedId.id s i :=
  (seedSetLookup_iff (hlinked.sameSets hsame) hd hused ha).trans (Entry.sameSets hlinked hsame)

/-- A message that is new to its seed behind the domain was new to it before. -/
theorem NewTo.sameSets {i : ℕ} (hlinked : Linked cfg s) (hi : i < cfg.seedSetSize)
    (hsame : SameSets cfg s s') : NewTo i p s' ↔ NewTo i p s := by
  have hseq : ∀ m ∈ (s.seeds i).minSeq, (s'.msgs m).seq = (s.msgs m).seq := fun m hm => by
    unfold Msg.seq
    rw [hsame.sent m]
    rw [(hlinked.seed_of_mem hi hm).2]
    exact Option.some_ne_none i
  unfold NewTo
  rw [hsame.seeds]
  refine and_congr_right fun _ => forall₂_congr fun m hm => ?_
  rw [hseq m hm]

end

end Den2ne.Mpl
