import Den2ne.Node.Outgrowth
import Den2ne.Transition.Run

/-!
# The timer of the send queue

A producer arms the send timer when it finds the queue empty, and the consumer
arms it again as long as something is left, be it an entry that it pushed back.
So the timer is armed exactly when the queue is not empty (`Node.Armed`), and
its handler always finds an entry.
-/

namespace Den2ne

open Transition

variable {α : Type*} [DecidableEq α] {cfg : Config α} {n n' : Node α}

/-- The send timer is armed exactly when the queue is not empty. -/
def Node.Armed (n : Node α) : Prop := n.sendSethlmacTimer = !n.payloadEntryList.isEmpty

section

omit [DecidableEq α]

theorem Node.Armed.of_same (hsame : n.SameOut cfg n') (h : n.Armed) : n'.Armed := by
  unfold Node.Armed at h ⊢
  rw [hsame.timer, hsame.queue]
  exact h

/-- Appending entries, and arming the timer if the queue was empty. -/
theorem Node.Armed.append (es : List (PayloadEntry α))
    (hqueue : n'.payloadEntryList = n.payloadEntryList ++ es)
    (htimer : n'.sendSethlmacTimer =
      (n.sendSethlmacTimer || (n.payloadEntryList.isEmpty && !es.isEmpty)))
    (h : n.Armed) : n'.Armed := by
  unfold Node.Armed at h ⊢
  rw [htimer, hqueue, h]
  cases n.payloadEntryList with
  | nil => simp
  | cons e rest => simp

theorem outgrowth_armed : Outgrowth cfg (fun n n' : Node α => n.Armed → n'.Armed) where
  of_same hsame := Node.Armed.of_same hsame
  trans h₁ h₂ h := h₂ (h₁ h)
  send := by
    intro n es _ h
    rw [Node.send_eq]
    exact h.append (Node.queued cfg es) rfl rfl
  advertise := by
    intro n _ _ _ _ es _ h
    rw [Node.foldl_enqueue]
    exact h.append es rfl rfl
  hello _ := id

/-- The consumer leaves the timer armed exactly when it leaves entries. -/
theorem Node.Armed.sendMessage {csma : CsmaOutcome}
    (hn : iotoriiHandleSendMessageTimer cfg csma { n with sendSethlmacTimer := false } = some n') :
    n'.Armed := by
  unfold iotoriiHandleSendMessageTimer at hn
  split at hn
  · cases hn
  · rename_i entry rest hqueue
    -- an entry that is pushed back is in the queue again
    have hback : n.payloadEntryList.isEmpty = false := by
      have hcons : n.payloadEntryList = entry :: rest := hqueue
      rw [hcons]
      rfl
    split at hn
    · obtain rfl := Option.some.inj hn
      exact rfl
    · split at hn
      · obtain rfl := Option.some.inj hn
        exact rfl
      · obtain rfl := Option.some.inj hn
        exact (congrArg (!·) hback).symm
      · obtain rfl := Option.some.inj hn
        exact (congrArg (!·) hback).symm

end

/-- Every event keeps the timer with the queue. -/
theorem Node.Armed.step {env : Env α} {e : Event α} (h : n.Armed)
    (hn : Node.step cfg env e n = some n') : n'.Armed := by
  by_cases hsend : ∃ csma, e = .timer (.sendMessage csma)
  · obtain ⟨csma, rfl⟩ := hsend
    simp only [Node.step, Node.expire, Option.ite_none_right_eq_some] at hn
    exact Node.Armed.sendMessage hn.2
  · have hstart : n.Armed → Node.Armed { n with statisticTimer := false } := id
    exact outgrowth_armed.step (fun csma he => hsend ⟨csma, he⟩) hn hstart h

/-- In every state of every run of a node, of either build and either type, the
send timer is armed exactly when something is queued, and the handler that it
starts, whatever the MAC answers, does not pop an empty list. -/
theorem always_armed (cfg : Config α) (es : List (Env α × Event α)) :
    Always (Node.react cfg) (fun n =>
      (n.sendSethlmacTimer = true ↔ n.payloadEntryList ≠ []) ∧
      (n.sendSethlmacTimer = true → ∀ csma,
        iotoriiHandleSendMessageTimer cfg csma { n with sendSethlmacTimer := false } ≠ none))
      es Node.boot := by
  refine always_of_step (I := Node.Armed) (fun n e n' h hn => h.step hn) ?_ es rfl
  intro n h
  have hiff : n.sendSethlmacTimer = true ↔ n.payloadEntryList ≠ [] := by
    rw [h, Bool.not_eq_true', ← Bool.not_eq_true, List.isEmpty_iff]
  refine ⟨hiff, fun htimer csma => ?_⟩
  have hqueue := hiff.1 htimer
  unfold iotoriiHandleSendMessageTimer
  split
  · rename_i hnil
    exact absurd hnil hqueue
  · split
    · exact Option.some_ne_none _
    · split <;> exact Option.some_ne_none _

end Den2ne
