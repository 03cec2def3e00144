import Den2ne.Node.Listing
import Den2ne.Transition.Run

/-!
# Node records and rounds

The handlers of LOAD and SHARE use the first record of `node_list`, which is meant
to be the one of the round. A `Roster` is a node together with the history of its
records: when it joined its round, and when each record was made, both as the number
of the event. `always_oneRecord_iff` says in which runs a node that has joined a round
always has the one record that it made when it joined.

The root never empties its list (`not_always_oneRecord`); a common node empties it
for every address that it stores in the round `0`, and appends a record for every
further address of a round.
-/

namespace Den2ne

open Transition

variable {α : Type*} [DecidableEq α]

namespace Node

/-- The event makes the node join a round: the root starts one, or the address that
is stored is the first one with its timestamp. -/
def Joins (cfg : Config α) (e : Event α) (n : Node α) : Prop :=
  match e with
  | .timer .sethlmac => True
  | .receive sender (.sethlmac timestamp hlmacPrefix assigned) round =>
      n.Stores cfg (.receive sender (.sethlmac timestamp hlmacPrefix assigned) round) ∧
        ∀ a ∈ n.history.accepted, a.timestamp ≠ timestamp
  | _ => False

instance (cfg : Config α) (n : Node α) : ∀ e : Event α, Decidable (n.Joins cfg e)
  | .timer .sethlmac => inferInstanceAs (Decidable True)
  | .receive _ (.sethlmac _ _ _) _ => inferInstanceAs (Decidable (_ ∧ _))
  | .timer .hello | .timer (.sendMessage _) | .timer .statistic
  | .receive _ .hello _ | .receive _ (.load _) _ | .receive _ (.share _) _ =>
      inferInstanceAs (Decidable False)

end Node

/-! ## The history of the records -/

/-- A node, the number of events so far, the one with which it joined its round, and the
ones with which its records were made. -/
structure Roster (α : Type*) where
  node : Node α
  clock : ℕ
  joinedAt : Option ℕ
  made : List ℕ

namespace Roster

variable (cfg : Config α)

def boot : Roster α := ⟨Node.boot, 0, none, []⟩

/-- One event at the node. -/
def step (e : Env α × Event α) (r : Roster α) : Option (Roster α) :=
  (r.node.react cfg e).map fun n' =>
    { node := n'
      clock := r.clock + 1
      joinedAt := if r.node.Joins cfg e.2 then some r.clock else r.joinedAt
      made := (if r.node.Drops cfg e.2 then [] else r.made) ++
        (r.node.drawn cfg e.1 e.2).map fun _ => r.clock }

/-- A node that has joined a round has one record, made when it joined. -/
def OneRecord (r : Roster α) : Prop :=
  ∀ i ∈ r.joinedAt, r.made = [i] ∧ r.node.nodeList.length = 1

/-- When an event keeps the record of the round alone. The root starts a round with an
empty list; a common node that stores the first address of a round drops the records it
has; both draw one; and a node that stores another address does neither. -/
def KeepsOneRecord (r : Roster α) (e : Env α × Event α) : Prop :=
  if r.node.Joins cfg e.2 then
    (r.node.Drops cfg e.2 ∨ r.node.nodeList = []) ∧ r.node.DrawsRecord cfg e.1 e.2
  else if r.node.Stores cfg e.2 then
    ¬ r.node.Drops cfg e.2 ∧ ¬ r.node.DrawsRecord cfg e.1 e.2
  else True

instance : DecidablePred (OneRecord (α := α)) := fun r =>
  inferInstanceAs (Decidable (∀ _ ∈ r.joinedAt, _))

/-- The history fits the node: a record has an event that made it, and a node that has
not joined a round has no record and no address. -/
structure Recorded (r : Roster α) : Prop where
  counted : r.made.length = r.node.nodeList.length
  joined : ∀ i ∈ r.joinedAt, i < r.clock
  idle : r.joinedAt = none → r.made = [] ∧ r.node.history.accepted = []

variable {cfg} {r r' : Roster α} {e : Env α × Event α}

omit [DecidableEq α] in
theorem recorded_boot : (boot : Roster α).Recorded := ⟨rfl, nofun, fun _ => ⟨rfl, rfl⟩⟩

theorem node_step (h : step cfg e r = some r') : Node.react cfg e r.node = some r'.node := by
  obtain ⟨n', hn', rfl⟩ := Option.map_eq_some_iff.1 h
  exact hn'

theorem joinedAt_step (h : step cfg e r = some r') :
    r'.joinedAt = if r.node.Joins cfg e.2 then some r.clock else r.joinedAt := by
  obtain ⟨n', hn', rfl⟩ := Option.map_eq_some_iff.1 h
  rfl

theorem made_step (h : step cfg e r = some r') :
    r'.made = (if r.node.Drops cfg e.2 then [] else r.made) ++
      (r.node.drawn cfg e.1 e.2).map fun _ => r.clock := by
  obtain ⟨n', hn', rfl⟩ := Option.map_eq_some_iff.1 h
  rfl

theorem clock_step (h : step cfg e r = some r') : r'.clock = r.clock + 1 := by
  obtain ⟨n', hn', rfl⟩ := Option.map_eq_some_iff.1 h
  rfl

/-- The first address that a node stores takes it into a round. -/
theorem joins_of_stores {n : Node α} {e : Event α} (hnone : n.history.accepted = [])
    (h : n.Stores cfg e) : n.Joins cfg e := by
  cases e with
  | timer t => exact h.elim
  | receive sender message round =>
      cases message with
      | sethlmac timestamp hlmacPrefix assigned =>
          refine ⟨h, fun a ha => ?_⟩
          rw [hnone] at ha
          cases ha
      | hello => exact absurd h.2 Bool.false_ne_true
      | load load => exact absurd h.2 Bool.false_ne_true
      | share extra => exact absurd h.2 Bool.false_ne_true

/-- Joining is starting a round or storing an address. -/
theorem advertises_of_joins {n : Node α} {e : Event α} (h : n.Joins cfg e) :
    e = .timer .sethlmac ∨ n.Stores cfg e := by
  unfold Node.Joins at h
  split at h
  · exact .inl rfl
  · exact .inr h.1
  · exact h.elim

/-- A node that stores nothing keeps the addresses it has. -/
theorem accepted_step {env : Env α} {n n' : Node α} {e : Event α}
    (h : Node.step cfg env e n = some n') (hround : e ≠ .timer .sethlmac)
    (hstores : ¬ n.Stores cfg e) : n'.history.accepted = n.history.accepted := by
  change n'.standing.accepted = n.standing.accepted
  rw [standing_step cfg env h]
  unfold Standing.step
  split
  · rfl
  · exact absurd rfl hround
  · rfl
  · rfl
  · rename_i sender message round
    split
    · rfl
    · rename_i hself
      have hnot : n.standing.storesFrom cfg sender message ≠ true :=
        fun htrue => hstores ⟨hself, htrue⟩
      cases message with
      | hello =>
          change (n.standing.hello sender).accepted = _
          rw [Standing.hello_eq]
      | load load => rfl
      | share extra => rfl
      | sethlmac timestamp hlmacPrefix assigned =>
          simp only [Standing.receive]
          split
          · rfl
          · rename_i hspec
            unfold Standing.offer
            split
            · rename_i haccepts
              have hnot' := fun hfst => hnot (storesFrom_sethlmac.2
                ⟨Bool.eq_false_iff.2 hspec, haccepts, hfst⟩)
              simp only [Standing.markSender, Standing.store] at hnot' ⊢
              rw [if_neg hnot']
            · rfl

theorem Recorded.step (hr : r.Recorded) (h : Roster.step cfg e r = some r') : r'.Recorded := by
  have hnode := node_step h
  have hlength := length_nodeList_step hnode
  refine ⟨?_, ?_, ?_⟩
  · rw [made_step h, List.length_append, List.length_map, hlength]
    split
    · rfl
    · rw [hr.counted]
  · intro i hi
    rw [joinedAt_step h] at hi
    rw [clock_step h]
    split at hi
    · obtain rfl := Option.some.inj hi
      exact Nat.lt_succ_self _
    · exact Nat.lt_succ_of_lt (hr.joined i hi)
  · intro hnone
    rw [joinedAt_step h] at hnone
    split at hnone
    · cases hnone
    · rename_i hjoins
      obtain ⟨hmade, haccepted⟩ := hr.idle hnone
      have hround : e.2 ≠ .timer .sethlmac := fun he => hjoins (by rw [he]; exact trivial)
      have hstores : ¬ r.node.Stores cfg e.2 := fun hs => hjoins (joins_of_stores haccepted hs)
      refine ⟨?_, (accepted_step hnode hround hstores).trans haccepted⟩
      rw [made_step h, hmade, ite_self, Node.drawn,
        if_neg fun hdraws => hdraws.1.elim hround hstores]
      rfl

/-- One event keeps the record of the round alone exactly when `KeepsOneRecord` holds. -/
theorem oneRecord_step_iff (hr : r.Recorded) (hone : r.OneRecord)
    (h : step cfg e r = some r') : r'.OneRecord ↔ r.KeepsOneRecord cfg e := by
  have hr' := hr.step h
  have hmade := made_step h
  have hempty : r.made = [] ↔ r.node.nodeList = [] := by
    rw [← List.length_eq_zero_iff, hr.counted, List.length_eq_zero_iff]
  -- the number of records is that of the events that made them
  have hiff : r'.OneRecord ↔ ∀ i ∈ r'.joinedAt, r'.made = [i] :=
    forall₂_congr fun i _ => ⟨And.left, fun hi => ⟨hi, by rw [← hr'.counted, hi]; rfl⟩⟩
  rw [hiff, joinedAt_step h, hmade]
  unfold KeepsOneRecord
  by_cases hjoins : r.node.Joins cfg e.2
  · rw [if_pos hjoins, if_pos hjoins]
    have hfresh : r.made ≠ [r.clock] := by
      intro hclock
      cases hat : r.joinedAt with
      | none =>
          rw [(hr.idle hat).1] at hclock
          cases hclock
      | some i =>
          have hi := (hone i hat).1
          rw [hclock, List.cons.injEq] at hi
          exact Nat.ne_of_gt (hr.joined i hat) hi.1
    simp only [Option.mem_def, Option.some.injEq, forall_eq', Node.drawn,
      advertises_of_joins hjoins, true_and]
    by_cases hdrops : r.node.Drops cfg e.2 <;> by_cases hdraws : r.node.DrawsRecord cfg e.1 e.2 <;>
      simp [hdrops, hdraws, hempty, hfresh]
  · rw [if_neg hjoins, if_neg hjoins]
    have hround : e.2 ≠ .timer .sethlmac := fun he => hjoins (by rw [he]; exact trivial)
    by_cases hstores : r.node.Stores cfg e.2
    · rw [if_pos hstores]
      obtain ⟨i, hi⟩ : ∃ i, r.joinedAt = some i := by
        refine Option.ne_none_iff_exists'.1 fun hnone => ?_
        exact hjoins (joins_of_stores (hr.idle hnone).2 hstores)
      have hold := (hone i hi).1
      have hne : r.clock ≠ i := Nat.ne_of_gt (hr.joined i hi)
      simp only [hi, Option.mem_def, Option.some.injEq, forall_eq', Node.drawn, hstores, or_true,
        true_and, hold]
      by_cases hdrops : r.node.Drops cfg e.2 <;>
        by_cases hdraws : r.node.DrawsRecord cfg e.1 e.2 <;> simp [hdrops, hdraws, hne]
    · rw [if_neg hstores]
      have hdrops : ¬ r.node.Drops cfg e.2 := fun hd => hstores (stores_of_drops hd)
      refine iff_of_true (fun i hi => ?_) trivial
      rw [if_neg hdrops, Node.drawn, if_neg fun hdraws => hdraws.1.elim hround hstores]
      exact (List.append_nil _).trans (hone i hi).1

end Roster

/-- Along every run of a node from boot, of either type and build and for every
`HLMAC_MAX_HLMAC`, a node that has joined a round has one record, the one that it made
when it joined, in every state exactly if every event satisfies `KeepsOneRecord`. -/
theorem always_oneRecord_iff (cfg : Config α) (es : List (Env α × Event α)) :
    Always (Roster.step cfg) Roster.OneRecord es Roster.boot ↔
      Meets (Roster.step cfg) (Roster.KeepsOneRecord cfg) es Roster.boot :=
  always_iff_meets (I := Roster.Recorded) (fun _ _ _ hr _ _ h => hr.step h)
    (fun _ _ _ hr hone h => Roster.oneRecord_step_iff hr hone h) Roster.recorded_boot nofun

/-- The second round of the root, which has no neighbours: the record of the first
round is still there, and stays the one that the handlers use. -/
theorem not_always_oneRecord :
    ¬ Always (Roster.step { defaultConfig 1 with nodeType := .root }) Roster.OneRecord
      [(⟨15, [], 150, 9⟩, .timer .hello), (⟨15, [], 150, 9⟩, .timer .sethlmac),
       (⟨15, [], 150, 9⟩, .timer .hello), (⟨15, [], 60, 9⟩, .timer .sethlmac)]
      (Roster.boot : Roster ℕ) := by
  decide +kernel

end Den2ne
