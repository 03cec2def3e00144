import Den2ne.Csma.Output
import Den2ne.Recent.Table
import Den2ne.Transition.Run
import Mathlib.Logic.Function.Basic

/-!
# Duplicates at a receiver

`mac-sequence.c` keeps the last sequence number of each sender in a table of
`MAX_SEQNOS` places, and `input_packet` drops a frame that carries the sequence
number kept for its sender. A sender has one counter for all its queues, so a
frame that is sent again may come after another frame of the same sender.
`Link.step` is all senders, with their output queues, and one receiver;
`processed_once_iff` says in which runs no packet is processed twice.
-/

namespace Den2ne

open Transition

/-- What the build fixes for a receiver: the output queues around it, the size
of the table, the age at which an entry no longer counts, and how many values
`clock_time_t` has. -/
structure LinkConfig (α : Type*) where
  csma : CsmaConfig α
  linkaddrNodeAddr : α
  maxSeqnos : ℕ
  seqnoMaxAge : ℕ
  clockValues : ℕ

/-- `struct seqno`. -/
structure Seqno (α : Type*) where
  sender : α
  timestamp : ℕ
  seqno : ℕ
deriving DecidableEq, Repr

/-- A frame on the air, and the call of its sender that it comes from. -/
structure MacFrame (α β : Type*) where
  sender : α
  receiver : α
  seqno : ℕ
  buf : β
  call : ℕ
deriving DecidableEq, Repr

/-- A packet that was passed to `iotorii_operation`. -/
structure Processed (α β : Type*) where
  frame : MacFrame α β
  timestamp : ℕ
deriving DecidableEq, Repr

/-- All senders and one receiver. `processed` is history, the last packet
first. -/
structure Link (α β γ : Type*) where
  sender : α → Csma α β γ
  receivedSeqnos : List (Seqno α)
  now : ℕ
  processed : List (Processed α β)

/-- An event of the output queue of `sender`, with whether the receiver hears
the frame if there is one; or time passes. -/
inductive LinkEvent (α β γ : Type*)
  | sender (sender : α) (e : CsmaEvent α β γ) (heard : Bool)
  | tick (elapsed : ℕ)
deriving DecidableEq, Repr

section MacSequence

variable {α β γ : Type*} [DecidableEq α]

/-- `mac_sequence_is_duplicate`: only the first entry of the sender counts. -/
def macSequenceIsDuplicate (cfg : LinkConfig α) (now : ℕ) (sender : α) (seqno : ℕ)
    (receivedSeqnos : List (Seqno α)) : Bool :=
  match receivedSeqnos.find? (·.sender = sender) with
  | some entry =>
      seqno = entry.seqno && (now - entry.timestamp) % cfg.clockValues ≤ cfg.seqnoMaxAge
  | none => false

/-- `mac_sequence_register_seqno`: the entries before the one of the sender, or
before the last one, move one place back. -/
def macSequenceRegisterSeqno (now : ℕ) (sender : α) (seqno : ℕ)
    (receivedSeqnos : List (Seqno α)) : List (Seqno α) :=
  Recent.register (·.sender) ⟨sender, now, seqno⟩ receivedSeqnos

/-- `input_packet`, for a frame that could be parsed. -/
def Link.inputPacket (cfg : LinkConfig α) (f : MacFrame α β) (s : Link α β γ) : Link α β γ :=
  if f.receiver ≠ cfg.linkaddrNodeAddr ∧ f.receiver ≠ cfg.csma.linkaddrNull then s
  else if f.sender = cfg.linkaddrNodeAddr then s
  else if macSequenceIsDuplicate cfg s.now f.sender f.seqno s.receivedSeqnos then s
  else
    { s with
      receivedSeqnos := macSequenceRegisterSeqno s.now f.sender f.seqno s.receivedSeqnos
      processed := ⟨f, s.now⟩ :: s.processed }

/-- Whether a frame goes on the air. -/
def Radio.onAir : Radio → Bool
  | .createFailed => false
  | .busy => false
  | _ => true

/-- The frame that an event of an output queue puts on the air. -/
def Csma.frame? (sender : α) (e : CsmaEvent α β γ) (m : Csma α β γ) : Option (MacFrame α β) :=
  match e with
  | .output _ _ _ _ _ => none
  | .transmit block radio _ =>
      if radio.onAir then
        (m.neighbourList.find? (·.block = block)).bind fun n =>
          n.packetQueue.head?.map fun q => ⟨sender, n.addr, q.seqno, q.buf, q.call⟩
      else none

namespace Link

/-- All queues are empty, and the table is zero. -/
def init (cfg : LinkConfig α) : Link α β γ where
  sender := fun _ => Csma.init cfg.csma
  receivedSeqnos := List.replicate cfg.maxSeqnos ⟨cfg.csma.linkaddrNull, 0, 0⟩
  now := 0
  processed := []

/-- One event. No node has the null address. -/
def step (cfg : LinkConfig α) (e : LinkEvent α β γ) (s : Link α β γ) : Option (Link α β γ) :=
  match e with
  | .tick elapsed => some { s with now := s.now + elapsed }
  | .sender v e heard =>
      if v = cfg.csma.linkaddrNull then none
      else (Csma.step cfg.csma e (s.sender v)).map fun m =>
        let s' := { s with sender := Function.update s.sender v m }
        match Csma.frame? v e (s.sender v) with
        | some f => if heard then s'.inputPacket cfg f else s'
        | none => s'

/-- The frame that the receiver hears and does not drop for its addresses. -/
def arrival? (cfg : LinkConfig α) (e : LinkEvent α β γ) (s : Link α β γ) : Option (MacFrame α β) :=
  match e with
  | .tick _ => none
  | .sender v e heard =>
      if heard then
        (Csma.frame? v e (s.sender v)).filter fun f =>
          (f.receiver = cfg.linkaddrNodeAddr ∨ f.receiver = cfg.csma.linkaddrNull) ∧
            f.sender ≠ cfg.linkaddrNodeAddr
      else none

/-- A packet by its sender and the call that queued it. -/
def packetOf (p : Processed α β) : α × ℕ := (p.frame.sender, p.frame.call)

/-- No packet was passed to `iotorii_operation` twice. -/
def Once (s : Link α β γ) : Prop := (s.processed.map packetOf).Nodup

/-- The last packet of a sender that was processed. -/
def lastOf (s : Link α β γ) (v : α) : Option (Processed α β) :=
  s.processed.find? (·.frame.sender = v)

/-- The receiver has heard at most `MAX_SEQNOS` senders, and a packet that was
processed comes again within `SEQNO_MAX_AGE`. -/
def Within (cfg : LinkConfig α) (s : Link α β γ) (e : LinkEvent α β γ) : Prop :=
  ∀ f, s.arrival? cfg e = some f →
    (f.sender :: s.processed.map (·.frame.sender)).dedup.length ≤ cfg.maxSeqnos ∧
    ∀ p ∈ s.processed, packetOf p = (f.sender, f.call) → s.now - p.timestamp ≤ cfg.seqnoMaxAge

/-- A packet that was processed comes again only while the packet of its sender
that was processed last has the same sequence number. -/
def Undisturbed (cfg : LinkConfig α) (s : Link α β γ) (e : LinkEvent α β γ) : Prop :=
  ∀ f, s.arrival? cfg e = some f → (f.sender, f.call) ∈ s.processed.map packetOf →
    ∀ p, s.lastOf f.sender = some p → p.frame.seqno = f.seqno

instance (s : Link α β γ) : Decidable s.Once := inferInstanceAs (Decidable (List.Nodup _))

instance (cfg : LinkConfig α) (s : Link α β γ) (e : LinkEvent α β γ) :
    Decidable (Within cfg s e) :=
  match h : s.arrival? cfg e with
  | none => .isTrue (by simp [Within, h])
  | some f => decidable_of_iff ((f.sender :: s.processed.map (·.frame.sender)).dedup.length ≤
      cfg.maxSeqnos ∧ ∀ p ∈ s.processed, packetOf p = (f.sender, f.call) →
        s.now - p.timestamp ≤ cfg.seqnoMaxAge) (by simp [Within, h])

variable {cfg : LinkConfig α} {s s' : Link α β γ} {e : LinkEvent α β γ}

/-- The entry that the table keeps of a packet. -/
def toSeqno (p : Processed α β) : Seqno α := ⟨p.frame.sender, p.timestamp, p.frame.seqno⟩

/-- The table holds the last packets of the senders, and time goes on. -/
structure Sound (cfg : LinkConfig α) (s : Link α β γ) : Prop where
  table : Recent.Holds (·.sender) ⟨cfg.csma.linkaddrNull, 0, 0⟩ (s.processed.map toSeqno)
    s.receivedSeqnos
  length : s.receivedSeqnos.length = cfg.maxSeqnos
  sorted : s.processed.Pairwise fun p q => q.timestamp ≤ p.timestamp
  past : ∀ p ∈ s.processed, p.timestamp ≤ s.now

theorem sound_init : Sound cfg (init cfg : Link α β γ) where
  table := Recent.holds_nil _ _
  length := List.length_replicate
  sorted := List.Pairwise.nil
  past := fun p hp => by cases hp

/-- A frame that arrives is not of the null address. -/
theorem step_arrival (hs : Link.step cfg e s = some s') {f : MacFrame α β}
    (hf : s.arrival? cfg e = some f) : f.sender ≠ cfg.csma.linkaddrNull := by
  cases e with
  | tick elapsed => cases hf
  | sender v e heard =>
      simp only [Link.step, Option.ite_none_left_eq_some] at hs
      simp only [arrival?, Option.ite_none_right_eq_some] at hf
      have hframe := (Option.filter_eq_some_iff.1 hf.2).1
      have hv : f.sender = v := by
        cases e with
        | output sent a buf attr env => cases hframe
        | transmit block radio draw =>
            simp only [Csma.frame?, Option.ite_none_right_eq_some, Option.bind_eq_some_iff,
              Option.map_eq_some_iff] at hframe
            obtain ⟨-, n, -, q, -, rfl⟩ := hframe
            rfl
      exact hv ▸ hs.1

/-- What a step does to the receiver: a frame that arrives is a duplicate, or it
is registered and processed. -/
theorem step_cases (hs : Link.step cfg e s = some s') :
    s.now ≤ s'.now ∧
    (((∀ f, s.arrival? cfg e = some f →
        macSequenceIsDuplicate cfg s.now f.sender f.seqno s.receivedSeqnos = true) ∧
      s'.processed = s.processed ∧ s'.receivedSeqnos = s.receivedSeqnos) ∨
    ∃ f, s.arrival? cfg e = some f ∧
      macSequenceIsDuplicate cfg s.now f.sender f.seqno s.receivedSeqnos = false ∧
      s'.processed = ⟨f, s.now⟩ :: s.processed ∧
      s'.receivedSeqnos = macSequenceRegisterSeqno s.now f.sender f.seqno s.receivedSeqnos) := by
  cases e with
  | tick elapsed =>
      obtain rfl := Option.some.inj hs
      exact ⟨Nat.le_add_right _ _, .inl ⟨(fun f hf => nomatch hf), rfl, rfl⟩⟩
  | sender v e heard =>
      simp only [Link.step, Option.ite_none_left_eq_some] at hs
      obtain ⟨m, -, rfl⟩ := Option.map_eq_some_iff.1 hs.2
      cases hframe : Csma.frame? v e (s.sender v) with
      | none =>
          have hnone : s.arrival? cfg (.sender v e heard) = none := by simp [arrival?, hframe]
          exact ⟨le_rfl, .inl ⟨(fun f hf => nomatch hnone.symm.trans hf), rfl, rfl⟩⟩
      | some f =>
          cases heard with
          | false => exact ⟨le_rfl, .inl ⟨(fun f hf => nomatch hf), rfl, rfl⟩⟩
          | true =>
              have harrival : s.arrival? cfg (.sender v e true) = if (f.receiver =
                  cfg.linkaddrNodeAddr ∨ f.receiver = cfg.csma.linkaddrNull) ∧
                  f.sender ≠ cfg.linkaddrNodeAddr then some f else none := by
                simp [arrival?, hframe, Option.filter]
              simp only [inputPacket, if_true]
              split
              · rename_i hothers
                have hnone : s.arrival? cfg (.sender v e true) = none := by
                  rw [harrival, if_neg fun h => h.1.elim hothers.1 hothers.2]
                exact ⟨le_rfl, .inl ⟨(fun f hf => nomatch hnone.symm.trans hf), rfl, rfl⟩⟩
              · rename_i hours
                split
                · rename_i hself
                  have hnone : s.arrival? cfg (.sender v e true) = none := by
                    rw [harrival, if_neg fun h => h.2 hself]
                  exact ⟨le_rfl, .inl ⟨(fun f hf => nomatch hnone.symm.trans hf), rfl, rfl⟩⟩
                · rename_i hself
                  have hours' : f.receiver = cfg.linkaddrNodeAddr ∨
                      f.receiver = cfg.csma.linkaddrNull := by
                    by_contra hnot
                    exact hours (not_or.1 hnot)
                  rw [if_pos ⟨hours', hself⟩] at harrival
                  split
                  · rename_i hdup
                    refine ⟨le_rfl, .inl ⟨fun g hg => ?_, rfl, rfl⟩⟩
                    obtain rfl := Option.some.inj (harrival.symm.trans hg)
                    exact hdup
                  · rename_i hdup
                    exact ⟨le_rfl, .inr ⟨f, harrival, Bool.eq_false_iff.2 hdup, rfl, rfl⟩⟩

/-- The table knows the last packet of a sender. -/
theorem Sound.isDuplicate_iff (h : Sound cfg s) {f : MacFrame α β}
    (hf : f.sender ≠ cfg.csma.linkaddrNull) :
    macSequenceIsDuplicate cfg s.now f.sender f.seqno s.receivedSeqnos = true ↔
      ∃ p, s.lastOf f.sender = some p ∧ p.frame.seqno = f.seqno ∧
        (s.now - p.timestamp) % cfg.clockValues ≤ cfg.seqnoMaxAge := by
  have hlookup : s.receivedSeqnos.find? (·.sender = f.sender) =
      (s.lastOf f.sender).map toSeqno := by
    rw [h.table.find? hf, List.find?_map]
    rfl
  rw [macSequenceIsDuplicate, hlookup]
  cases hlast : s.lastOf f.sender with
  | none => simp
  | some p => simp [toSeqno, @eq_comm ℕ f.seqno]

/-- Within the limits, a packet that was processed is not younger than the last
one of its sender. -/
theorem Sound.last_recent (h : Sound cfg s) {p q : Processed α β} {v : α} (hp : p ∈ s.processed)
    (hv : p.frame.sender = v) (hq : s.lastOf v = some q) : p.timestamp ≤ q.timestamp := by
  obtain ⟨-, l₁, l₂, heq, hl₁⟩ := List.find?_eq_some_iff_append.1 hq
  have hsorted := h.sorted
  rw [heq] at hp hsorted
  rcases List.mem_append.1 hp with hp | hp
  · exact absurd hv (by simpa using hl₁ p hp)
  · rcases List.mem_cons.1 hp with rfl | hp
    · exact le_rfl
    · exact (List.pairwise_cons.1 (List.pairwise_append.1 hsorted).2.1).1 p hp

theorem Sound.step (h : Sound cfg s) (hwithin : Within cfg s e)
    (hs : Link.step cfg e s = some s') : Sound cfg s' := by
  obtain ⟨hnow, ⟨-, hprocessed, htable⟩ | ⟨f, hf, -, hprocessed, htable⟩⟩ := step_cases hs
  · refine ⟨?_, ?_, ?_, fun p hp => ?_⟩
    · rw [hprocessed, htable]
      exact h.table
    · rw [htable]
      exact h.length
    · rw [hprocessed]
      exact h.sorted
    · rw [hprocessed] at hp
      exact (h.past p hp).trans hnow
  · have hlength : (((⟨f.sender, s.now, f.seqno⟩ : Seqno α) :: s.processed.map toSeqno).map
        (·.sender)).dedup.length ≤ s.receivedSeqnos.length := by
      rw [h.length, List.map_cons, List.map_map]
      exact (hwithin f hf).1
    obtain ⟨hholds, hkeep⟩ := h.table.register (step_arrival hs hf) hlength
    refine ⟨?_, ?_, ?_, fun p hp => ?_⟩
    · rw [hprocessed, htable]
      exact hholds
    · rw [htable, ← h.length]
      exact hkeep
    · rw [hprocessed, List.pairwise_cons]
      exact ⟨h.past, h.sorted⟩
    · rw [hprocessed] at hp
      rcases List.mem_cons.1 hp with rfl | hp
      · exact hnow
      · exact (h.past p hp).trans hnow

/-- A step within the limits processes no packet again exactly when it is
undisturbed. -/
theorem Sound.once_iff (h : Sound cfg s) (honce : s.Once) (hwithin : Within cfg s e)
    (hs : Link.step cfg e s = some s') : s'.Once ↔ Undisturbed cfg s e := by
  obtain ⟨-, ⟨hdup, hprocessed, -⟩ | ⟨f, hf, hnew, hprocessed, -⟩⟩ := step_cases hs
  · refine iff_of_true (by rw [Once, hprocessed]; exact honce) fun f hf _ p hp => ?_
    obtain ⟨q, hq, hseqno, -⟩ := (h.isDuplicate_iff (step_arrival hs hf)).1 (hdup f hf)
    obtain rfl := Option.some.inj (hp.symm.trans hq)
    exact hseqno
  · have hiff : s'.Once ↔ (f.sender, f.call) ∉ s.processed.map packetOf := by
      rw [Once, hprocessed, List.map_cons, List.nodup_cons]
      exact and_iff_left honce
    rw [hiff]
    constructor
    · intro hnot g hg hmem
      obtain rfl := Option.some.inj (hf.symm.trans hg)
      exact absurd hmem hnot
    · intro hundisturbed hmem
      obtain ⟨p, hp, hpf⟩ := List.mem_map.1 hmem
      have hsender : p.frame.sender = f.sender := congrArg Prod.fst hpf
      obtain ⟨q, hq⟩ : ∃ q, s.lastOf f.sender = some q := by
        rw [← Option.isSome_iff_exists, lastOf, List.find?_isSome]
        exact ⟨p, hp, by simpa using hsender⟩
      have hage : (s.now - q.timestamp) % cfg.clockValues ≤ cfg.seqnoMaxAge := by
        have hp' := (hwithin f hf).2 p hp hpf
        have hpq := h.last_recent hp hsender hq
        have hmod := Nat.mod_le (s.now - q.timestamp) cfg.clockValues
        omega
      have hdup := (h.isDuplicate_iff (step_arrival hs hf)).2
        ⟨q, hq, hundisturbed f hf hmem q hq, hage⟩
      rw [hnew] at hdup
      exact Bool.noConfusion hdup

end Link

end MacSequence

/-- In the runs in which the receiver hears at most `MAX_SEQNOS` senders, and a
packet again only within `SEQNO_MAX_AGE`, no packet is processed twice exactly
when no packet that was processed comes again after its sender has had another
one processed, with another sequence number. -/
theorem processed_once_iff {α β γ : Type*} [DecidableEq α] (cfg : LinkConfig α)
    (es : List (LinkEvent α β γ))
    (hwithin : Meets (Link.step cfg) (Link.Within cfg) es (Link.init cfg)) :
    Always (Link.step cfg) Link.Once es (Link.init cfg) ↔
      Meets (Link.step cfg) (Link.Undisturbed cfg) es (Link.init cfg) :=
  always_iff_meets_of_meets (I := Link.Sound cfg) (fun _ _ _ h _ hw _ hs => h.step hw hs)
    (fun _ _ _ h honce hw hs => h.once_iff honce hw hs) Link.sound_init List.nodup_nil hwithin

/-- The default table, at the node `1`. -/
def linkConfig : LinkConfig ℕ where
  csma := unicastCsmaConfig
  linkaddrNodeAddr := 1
  maxSeqnos := 16
  seqnoMaxAge := 20000
  clockValues := 4294967296

/-- The node `2` sends a packet to the node `1`, its ACK is lost, and its next
packet, for everybody, goes out before the packet is sent again. -/
def overtaken : List (LinkEvent ℕ ℕ Unit) :=
  [.sender 2 (.output () 1 100 0 ⟨7, 5, true⟩) false,
    .sender 2 (.output () 0 200 0 ⟨7, 5, true⟩) false,
    .sender 2 (.transmit 0 (.txOk none) 5) true,
    .sender 2 (.transmit 1 (.txOk none) 5) true,
    .sender 2 (.transmit 0 (.txOk (some true)) 5) true]

/-- The same packet again with no other one in between. -/
theorem processed_once_iff_again :
    Always (Link.step linkConfig) Link.Once (overtaken.take 3 ++ overtaken.drop 4)
        (Link.init linkConfig) ↔
      Meets (Link.step linkConfig) (Link.Undisturbed linkConfig)
        (overtaken.take 3 ++ overtaken.drop 4) (Link.init linkConfig) :=
  processed_once_iff linkConfig _ (by decide +kernel)

/-- The packet is processed again after another one of its sender. -/
theorem not_processed_once : ¬ ∀ es : List (LinkEvent ℕ ℕ Unit),
    Meets (Link.step linkConfig) (Link.Within linkConfig) es (Link.init linkConfig) →
      Always (Link.step linkConfig) Link.Once es (Link.init linkConfig) := by
  intro h
  have hrun := h overtaken
  revert hrun
  decide +kernel

end Den2ne
