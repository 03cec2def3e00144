import Den2ne.Node.Advertised
import Den2ne.Node.RootAccount
import Den2ne.Transition.Run

/-!
# The convergence time

The root reads `clock_time()` into `convergence_time` when it queues a SetHLMAC, but only
in the branch for an empty `payload_entry_list`; when the round converges it replaces the
reading with the time that has passed since, and prints it. `Timely` is what an event must
meet for the reading to be that of the first SetHLMAC of the round; then every time that
is printed in a round is the time since its first SetHLMAC was queued.

The clock is any type with a subtraction, and its readings come with the events.
-/

namespace Den2ne

open Transition

/-- A line `Cycles until convergence`. `now` is the clock when it is printed, `round` the
number of rounds that have begun, and `firstQueued` the clock when the first SetHLMAC of
the last one was queued. -/
structure Report (T : Type*) where
  printed : T
  now : T
  round : ℕ
  firstQueued : Option T
deriving DecidableEq, Repr

/-- The value printed is the time since the first SetHLMAC of the round was queued. Round
`0` is none: what is printed before the first round is about no round. -/
def Report.Right {T : Type*} [Sub T] (r : Report T) : Prop :=
  0 < r.round → ∃ t, r.firstQueued = some t ∧ r.printed = r.now - t

/-- The node with `convergence_time`. `rounds`, `firstQueued` and `reports` are history, the
last report first. -/
structure Timed (α T : Type*) where
  node : Node α
  convergenceTime : T
  rounds : ℕ
  firstQueued : Option T
  reports : List (Report T)

/-- An event with what the environment supplies to it: also `clock_time()` when it queues a
SetHLMAC, and when it comes to the convergence test. -/
structure TimedEvent (α T : Type*) where
  env : Env α
  event : Event α
  queuedAt : T
  testedAt : T

variable {α T : Type*} [DecidableEq α] [Sub T]

namespace Timed

/-- `start` is what `convergence_time` holds at first. -/
def boot (start : T) : Timed α T := ⟨Node.boot, start, 0, none, []⟩

/-- A new round begins. -/
def begin (e : Event α) (s : Timed α T) : Timed α T :=
  match e with
  | .timer .sethlmac => { s with rounds := s.rounds + 1, firstQueued := none }
  | _ => s

/-- The event that took the node to `n` has queued a SetHLMAC. -/
def queued (n : Node α) (s : Timed α T) : Bool :=
  (n.payloadEntryList.drop s.node.payloadEntryList.length).any (·.payload.isSethlmac)

/-- `iotorii_send_sethlmac` reads the clock at the root if the list is empty. -/
def load (cfg : Config α) (n : Node α) (now : T) (s : Timed α T) : Timed α T :=
  { s with
    convergenceTime :=
      if cfg.nodeType = .root ∧ s.queued n ∧ s.node.payloadEntryList.isEmpty then now
      else s.convergenceTime
    firstQueued := if s.queued n then s.firstQueued.or (some now) else s.firstQueued }

/-- The convergence test of the root has set `has_converged`. -/
def converge (cfg : Config α) (n : Node α) (now : T) (s : Timed α T) : Timed α T :=
  if cfg.nodeType = .root ∧ s.node.hasConverged = false ∧ n.hasConverged = true then
    { s with
      convergenceTime := now - s.convergenceTime
      reports := ⟨now - s.convergenceTime, now, s.rounds, s.firstQueued⟩ :: s.reports }
  else s

/-- One event at the node. -/
def react (cfg : Config α) (e : TimedEvent α T) (s : Timed α T) : Option (Timed α T) :=
  (s.node.step cfg e.env e.event).map fun n =>
    { (((s.begin e.event).load cfg n e.queuedAt).converge cfg n e.testedAt) with node := n }

/-- Every time printed is right. -/
def Punctual (s : Timed α T) : Prop := ∀ r ∈ s.reports, r.Right

/-- The event begins a round, or finds one that has not converged. -/
def Open (s : Timed α T) (e : Event α) : Prop :=
  e = .timer .sethlmac ∨ 0 < s.rounds ∧ s.node.hasConverged = false

/-- The round of the event has queued no SetHLMAC yet. -/
def Unannounced (s : Timed α T) (e : Event α) : Prop :=
  e = .timer .sethlmac ∨ s.firstQueued = none

/-- The event finds both counters of children run out, or makes them. -/
def Completes (cfg : Config α) (s : Timed α T) (e : Event α) : Prop :=
  (s.node.flow.step cfg s.node.standing (!s.node.nodeList.isEmpty) e).hasConverged = true

/-- What an event at the root must meet. The first SetHLMACs of a round find the list empty,
and later ones do not as long as the round has not converged; and it does not converge
without a SetHLMAC. -/
structure Timely (cfg : Config α) (s : Timed α T) (e : TimedEvent α T) : Prop where
  starts : s.Open e.event → s.node.AdvertisesAt cfg e.env e.event →
    (s.node.payloadEntryList = [] ↔ s.Unannounced e.event)
  announced : 0 < s.rounds → s.node.hasConverged = false → s.firstQueued = none →
    s.Completes cfg e.event → s.node.AdvertisesAt cfg e.env e.event

instance (cfg : Config α) (s : Timed α T) (e : TimedEvent α T) : Decidable (Timely cfg s e) :=
  have : ∀ e, Decidable (s.Open e) := fun _ => inferInstanceAs (Decidable (_ ∨ _ ∧ _))
  have : ∀ e, Decidable (s.Unannounced e) := fun e =>
    decidable_of_iff (e = .timer .sethlmac ∨ s.firstQueued.isNone = true)
      (or_congr_right Option.isNone_iff_eq_none)
  have : ∀ e, Decidable (s.Completes cfg e) := fun _ => inferInstanceAs (Decidable (_ = true))
  decidable_of_iff
    ((s.Open e.event → s.node.AdvertisesAt cfg e.env e.event →
      (s.node.payloadEntryList.isEmpty = true ↔ s.Unannounced e.event)) ∧
    (0 < s.rounds → s.node.hasConverged = false → s.firstQueued.isNone = true →
      s.Completes cfg e.event → s.node.AdvertisesAt cfg e.env e.event))
    ⟨fun h => ⟨by simpa only [List.isEmpty_iff] using h.1,
      by simpa only [Option.isNone_iff_eq_none] using h.2⟩,
      fun h => ⟨by simpa only [List.isEmpty_iff] using h.starts,
      by simpa only [Option.isNone_iff_eq_none] using h.announced⟩⟩

/-- While a round is open, `convergence_time` is when its first SetHLMAC was queued. -/
structure OnTime (cfg : Config α) (s : Timed α T) : Prop where
  clock : cfg.nodeType = .root → 0 < s.rounds → s.node.hasConverged = false →
    ∀ t, s.firstQueued = some t → s.convergenceTime = t
  reports : s.Punctual

variable {cfg : Config α} {s s' : Timed α T} {e : TimedEvent α T} {n : Node α}

omit [DecidableEq α] in
theorem length_sendMessage {csma : CsmaOutcome} {m m' : Node α}
    (h : iotoriiHandleSendMessageTimer cfg csma m = some m') :
    m'.payloadEntryList.length ≤ m.payloadEntryList.length := by
  unfold iotoriiHandleSendMessageTimer at h
  split at h
  · cases h
  · rename_i entry rest hqueue
    have hrest : rest.length ≤ m.payloadEntryList.length := by
      rw [hqueue]
      exact Nat.le_succ _
    split at h
    · obtain rfl := Option.some.inj h
      exact hrest
    · split at h
      · obtain rfl := Option.some.inj h
        exact hrest
      · obtain rfl := Option.some.inj h
        exact le_rfl
      · obtain rfl := Option.some.inj h
        exact le_rfl

section

omit [Sub T]

/-- What the queue shows is what `Node.AdvertisesAt` says. -/
theorem queued_iff (h : s.node.step cfg e.env e.event = some n) :
    s.queued n = true ↔ s.node.AdvertisesAt cfg e.env e.event := by
  by_cases hsend : ∃ csma, e.event = .timer (.sendMessage csma)
  · obtain ⟨csma, hcsma⟩ := hsend
    rw [hcsma] at h ⊢
    simp only [Node.step, Node.expire, Option.ite_none_right_eq_some] at h
    have hlen := length_sendMessage h.2
    rw [queued, List.drop_eq_nil_of_le hlen]
    exact iff_of_false Bool.false_ne_true id
  · obtain ⟨es, up, hqueue, hes, hup, hp⟩ :=
      (advertised_step (fun csma hc => hsend ⟨csma, hc⟩) h).queue
    rw [← hp, queued, hqueue, List.append_assoc, List.drop_left, List.any_append,
      Bool.or_eq_true, List.any_eq_true, List.any_eq_true]
    constructor
    · rintro (⟨x, hx, -⟩ | ⟨x, hx, hset⟩)
      · exact List.ne_nil_of_mem hx
      · exact absurd (hset.symm.trans (hup x hx)) (Ne.symm Bool.false_ne_true)
    · intro hne
      obtain ⟨x, hx⟩ := List.exists_mem_of_ne_nil es hne
      exact .inl ⟨x, hx, hes x hx⟩

/-- What the node shows as converged is what `Flow.step` says. -/
theorem hasConverged_iff (h : s.node.step cfg e.env e.event = some n) :
    n.hasConverged = true ↔ s.Completes cfg e.event := by
  have hflow : n.flow.hasConverged = _ := congrArg Flow.hasConverged (flow_step cfg e.env h)
  rw [Completes, ← hflow]
  rfl

end

omit [DecidableEq α] in
theorem punctual_converge {m : Timed α T} {now : T} (h : m.Punctual)
    (hright : cfg.nodeType = .root → m.node.hasConverged = false → n.hasConverged = true →
      0 < m.rounds → ∃ t, m.firstQueued = some t ∧ m.convergenceTime = t) :
    (m.converge cfg n now).Punctual := by
  unfold converge
  split
  · rename_i hprints
    intro r hr
    rcases List.mem_cons.1 hr with rfl | hr
    · intro hpos
      obtain ⟨t, ht, hclock⟩ := hright hprints.1 hprints.2.1 hprints.2.2 hpos
      exact ⟨t, ht, congrArg (now - ·) hclock⟩
    · exact h r hr
  · exact h

/-! ## One event -/

section

omit [DecidableEq α] [Sub T]

@[simp] theorem node_begin (e : Event α) (s : Timed α T) : (s.begin e).node = s.node := by
  unfold begin
  split <;> rfl

@[simp] theorem convergenceTime_begin (e : Event α) (s : Timed α T) :
    (s.begin e).convergenceTime = s.convergenceTime := by
  unfold begin
  split <;> rfl

@[simp] theorem reports_begin (e : Event α) (s : Timed α T) :
    (s.begin e).reports = s.reports := by
  unfold begin
  split <;> rfl

@[simp] theorem queued_begin (e : Event α) (n : Node α) (s : Timed α T) :
    (s.begin e).queued n = s.queued n := by
  rw [queued, queued, node_begin]

theorem begin_of_ne {e : Event α} (h : e ≠ .timer .sethlmac) (s : Timed α T) :
    s.begin e = s := by
  unfold begin
  split
  · exact absurd rfl h
  · rfl

end

omit [Sub T] in
theorem firstQueued_begin {e : Event α} :
    (s.begin e).firstQueued = none ↔ s.Unannounced e := by
  unfold Unannounced
  by_cases he : e = .timer .sethlmac
  · subst he
    exact iff_of_true rfl (.inl rfl)
  · rw [begin_of_ne he, or_iff_right he]

/-- After the SetHLMACs of an open round are queued, `convergence_time` is when the first of
them was. -/
theorem OnTime.load (h : OnTime cfg s) (hok : Timely cfg s e)
    (hstep : s.node.step cfg e.env e.event = some n) (hroot : cfg.nodeType = .root)
    (hopen : s.Open e.event) (t : T)
    (ht : ((s.begin e.event).load cfg n e.queuedAt).firstQueued = some t) :
    ((s.begin e.event).load cfg n e.queuedAt).convergenceTime = t := by
  -- a reading that is older than the event is that of the round
  have hold : (s.begin e.event).firstQueued = some t → s.convergenceTime = t := by
    intro hf
    have he : e.event ≠ .timer .sethlmac := fun he => by
      rw [he] at hf
      cases hf
    obtain ⟨hpos, hconv⟩ := hopen.resolve_left he
    rw [begin_of_ne he] at hf
    exact h.clock hroot hpos hconv t hf
  simp only [Timed.load, queued_begin, node_begin, convergenceTime_begin] at ht ⊢
  by_cases hq : s.queued n = true
  · have hempty := hok.starts hopen ((queued_iff hstep).1 hq)
    rw [← firstQueued_begin, ← List.isEmpty_iff] at hempty
    rw [if_pos hq] at ht
    cases hf : (s.begin e.event).firstQueued with
    | none =>
        rw [if_pos ⟨hroot, hq, hempty.2 hf⟩]
        rw [hf, Option.none_or] at ht
        exact Option.some.inj ht
    | some t₀ =>
        rw [if_neg fun hc => by rw [hempty.1 hc.2.2] at hf; cases hf]
        rw [hf, Option.some_or] at ht
        exact hold (hf.trans ht)
  · rw [if_neg hq] at ht
    rw [if_neg fun hc => hq hc.2.1]
    exact hold ht

theorem OnTime.step (h : OnTime cfg s) (hok : Timely cfg s e) (hs : s.react cfg e = some s') :
    OnTime cfg s' := by
  obtain ⟨n, hstep, rfl⟩ := Option.map_eq_some_iff.1 hs
  have hnode : ((s.begin e.event).load cfg n e.queuedAt).node = s.node := node_begin _ _
  constructor
  · intro hroot hpos hafter t ht
    have hsame : ((s.begin e.event).load cfg n e.queuedAt).converge cfg n e.testedAt =
        (s.begin e.event).load cfg n e.queuedAt :=
      if_neg fun hc => absurd (hafter.symm.trans hc.2.2) Bool.false_ne_true
    rw [hsame] at hpos ht ⊢
    refine h.load hok hstep hroot ?_ t ht
    by_cases he : e.event = .timer .sethlmac
    · exact .inl he
    · refine .inr ⟨?_, ?_⟩
      · rw [begin_of_ne he] at hpos
        exact hpos
      · by_contra hconv
        have hkept : s.Completes cfg e.event :=
          Flow.hasConverged_step hroot he (Bool.not_eq_false _ ▸ hconv)
        exact absurd (hafter.symm.trans ((hasConverged_iff hstep).2 hkept)) Bool.false_ne_true
  · refine punctual_converge ?_ fun hroot hbefore hafter hpos => ?_
    · intro r hr
      exact h.reports r (reports_begin e.event s ▸ hr)
    · rw [hnode] at hbefore
      have hcompletes := (hasConverged_iff hstep).1 hafter
      have he : e.event ≠ .timer .sethlmac := fun he => by
        rw [Completes, he, Flow.hasConverged_timer hroot _ _ _ _ hbefore] at hcompletes
        exact Bool.false_ne_true hcompletes
      have hopen : 0 < s.rounds ∧ s.node.hasConverged = false := by
        rw [begin_of_ne he] at hpos
        exact ⟨hpos, hbefore⟩
      cases hf : ((s.begin e.event).load cfg n e.queuedAt).firstQueued with
      | some t => exact ⟨t, rfl, h.load hok hstep hroot (.inr hopen) t hf⟩
      | none =>
          simp only [Timed.load, begin_of_ne he] at hf
          split at hf
          · rw [Option.or_eq_none_iff] at hf
            cases hf.2
          · rename_i hquiet
            exact absurd ((queued_iff hstep).2 (hok.announced hopen.1 hopen.2 hf hcompletes)) hquiet

/-- In every run of the root whose events are all timely, every convergence time that it
prints in a round is the time since the first SetHLMAC of the round was queued. -/
theorem always_punctual (cfg : Config α) (start : T) (es : List (TimedEvent α T))
    (hok : Meets (react cfg) (Timely cfg) es (boot start)) :
    Always (react cfg) Punctual es (boot start) :=
  always_of_meets (I := OnTime cfg) (fun _ _ _ h hok hs => h.step hok hs)
    (fun _ h => h.reports) ⟨fun _ hpos => absurd hpos (lt_irrefl 0), nofun⟩ hok

/-- A root with one neighbour, in the unicast build: two rounds, the first at time 100 and
the second at 200, and the answers to the second. In between the MAC takes the SetHLMAC of
the first round or not. -/
def twoRounds (csma : CsmaOutcome) : List (TimedEvent ℕ (BitVec 32)) :=
  [⟨⟨15, [0], 150, 9⟩, .receive 7 .hello 0, 0, 0⟩,
   ⟨⟨15, [0], 150, 9⟩, .timer .hello, 0, 0⟩,
   ⟨⟨15, [0], 150, 9⟩, .timer .sethlmac, 100, 100⟩,
   ⟨⟨15, [0], 150, 9⟩, .timer (.sendMessage csma), 110, 110⟩,
   ⟨⟨15, [0], 150, 9⟩, .timer .hello, 150, 150⟩,
   ⟨⟨15, [0], 150, 9⟩, .timer .sethlmac, 200, 200⟩,
   ⟨⟨15, [0], 150, 9⟩, .receive 7 (.load 50) 1, 220, 220⟩,
   ⟨⟨15, [0], 150, 9⟩, .receive 7 (.share 0) 1, 230, 230⟩]

def unicastRoot : Config ℕ :=
  { defaultConfig 1 with nodeType := .root, hlmacCast := .unicast }

theorem always_punctual_twoRounds :
    Always (react unicastRoot) Punctual (twoRounds .scheduled) (boot 0) :=
  always_punctual unicastRoot 0 (twoRounds .scheduled) (by decide +kernel)

/-- The SetHLMAC of the first round is still in the list when the second one begins, and the
time printed is that since the first round: 130 and not 30. -/
theorem not_always_punctual :
    ¬ Always (react unicastRoot) Punctual (twoRounds .behind) (boot 0) := by
  intro h
  have hrun : (run (react unicastRoot) (twoRounds .behind) (boot 0)).map (·.reports) =
      some [⟨130, 230, 2, some 200⟩] := by decide +kernel
  obtain ⟨s, hs, hreports⟩ := Option.map_eq_some_iff.1 hrun
  have hmem : ⟨130, 230, 2, some 200⟩ ∈ s.reports := hreports ▸ List.mem_singleton_self _
  obtain ⟨t, ht, hprinted⟩ := always_last h hs _ hmem (by decide)
  obtain rfl := Option.some.inj ht
  exact absurd hprinted (by decide)

end Timed

end Den2ne
