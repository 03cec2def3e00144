import Den2ne.Sixp.Transaction
import Den2ne.Transition.Run
import Mathlib.Data.List.Nodup

/-!
# The lifetime of a 6P transaction

`sixp_trans_free` leaves a transaction to `mac_callback` if it is in one of the sending states, but
`process_trans` has it freed in `SIXP_TRANS_STATE_TERMINATING` only, so that a frame may be under
way when its transaction is freed. `always_safe` says in which runs this does no harm.
-/

namespace Den2ne.Sixp

open Transition

variable {α : Type*} [DecidableEq α]

/-- The peers of the transactions in the list. -/
def State.peers (s : State α) : List α :=
  s.transList.filterMap fun b => (s.trans b).map Trans.peerAddr

/-- What is said of every state of a run. -/
structure State.Safe (s : State α) : Prop where
  alive : ∀ r ∈ s.answered, r.2 = some r.1
  onePerPeer : s.peers.Nodup
  once : (s.invoked.map Prod.fst).Nodup
  outcome : ∀ r ∈ s.invoked, r ∈ s.outcomes

/-- No frame of the block is under way. -/
def State.Quiet (s : State α) (b : ℕ) : Prop := ∀ f ∈ s.frames, f.block ≠ b

/-- The callback of a call stays in its transaction. -/
def Sent.Keeps (sent : Sent) : Prop := sent = .noRoom ∨ sent = .accepted

/-- The events that are harmless. A transaction is not freed while a frame of it is under way, and a
confirmation does not replace the callback of a transaction while a frame of it is under way. -/
def Ok (s : State α) : Event α → Prop
  | .timer b => ∀ t, s.trans b = some t → t.timer = some .processTrans → t.state = .terminating →
      s.Quiet b
  | .output o => ∀ b t, sixpTransFind o.destAddr s = some b → s.trans b = some t →
      o.type = .confirmation → t.state = .responseReceived →
      o.callback = true → o.created = true → o.sent.Keeps → s.Quiet b
  | _ => True

/-- The states in which nothing has been sent yet. -/
def TransState.IsIdle (state : TransState) : Prop := state = .init ∨ state = .requestReceived

instance (state : TransState) : Decidable state.IsIdle := inferInstanceAs (Decidable (_ ∨ _))

/-- The callback of a call may be in a block. -/
structure State.MayHold (s : State α) (b call : ℕ) : Prop where
  lt : call < s.calls
  new : call ∉ s.invoked.map Prod.fst
  frames : ∀ f ∈ s.frames, f.block = b → f.call = some call
  only : ∀ b' t, s.trans b' = some t → t.callback = some call → b' = b

/-- The invariant of the harmless runs. -/
structure State.Sound (s : State α) : Prop where
  safe : s.Safe
  blocks : s.transList.Nodup
  listed : ∀ b ∈ s.transList, s.trans b ≠ none
  present : ∀ f ∈ s.frames, ∃ t, s.trans f.block = some t ∧ t.id = f.id
  idle : ∀ b t, s.trans b = some t → t.state.IsIdle → s.Quiet b
  kept : ∀ b t, s.trans b = some t → t.state ≠ .waitFree
  called : ∀ b t call, s.trans b = some t → t.callback = some call → s.MayHold b call
  past : ∀ call ∈ s.invoked.map Prod.fst, call < s.calls

variable {cfg : Config} {s s' : State α} {b b' call : ℕ} {t t' : Trans α}

/-! ## Blocks -/

section

omit [DecidableEq α]

@[simp] theorem setTrans_self (b : ℕ) (t : Option (Trans α)) (s : State α) :
    (s.setTrans b t).trans b = t := Function.update_self ..

theorem setTrans_of_ne (h : b' ≠ b) (t : Option (Trans α)) (s : State α) :
    (s.setTrans b t).trans b' = s.trans b' := Function.update_of_ne h ..

@[simp] theorem setTrans_setTrans (b : ℕ) (t t' : Option (Trans α)) (s : State α) :
    (s.setTrans b t).setTrans b t' = s.setTrans b t' := by
  rw [State.setTrans, State.setTrans, State.setTrans, Function.update_idem]

/-- What is in the blocks after one has been written. -/
theorem setTrans_eq_some (h : (s.setTrans b (some t')).trans b' = some t) :
    b' = b ∧ t = t' ∨ b' ≠ b ∧ s.trans b' = some t := by
  by_cases hb : b' = b
  · subst hb
    rw [setTrans_self] at h
    exact Or.inl ⟨rfl, (Option.some.inj h).symm⟩
  · rw [setTrans_of_ne hb] at h
    exact Or.inr ⟨hb, h⟩

theorem setTrans_none_eq_some (h : (s.setTrans b none).trans b' = some t) :
    b' ≠ b ∧ s.trans b' = some t := by
  by_cases hb : b' = b
  · subst hb
    rw [setTrans_self] at h
    cases h
  · rw [setTrans_of_ne hb] at h
    exact ⟨hb, h⟩

theorem peers_setTrans (ht : s.trans b = some t) (hpeer : t'.peerAddr = t.peerAddr) :
    (s.setTrans b (some t')).peers = s.peers := by
  refine List.filterMap_congr fun b' _ => ?_
  by_cases hb : b' = b
  · subst hb
    rw [setTrans_self, ht, Option.map_some, Option.map_some, hpeer]
  · rw [setTrans_of_ne hb]

end

namespace State.Sound

/-! ## What changes keep the invariant -/

section

omit [DecidableEq α]

/-- The sequence numbers do not matter. -/
theorem nextSeqno (h : s.Sound) (nextSeqno : α → Option UInt8) :
    { s with nextSeqno := nextSeqno }.Sound where
  safe := ⟨h.safe.alive, h.safe.onePerPeer, h.safe.once, h.safe.outcome⟩
  blocks := h.blocks
  listed := h.listed
  present := h.present
  idle := h.idle
  kept := h.kept
  called b t call ht hcall :=
    have hold := h.called b t call ht hcall
    ⟨hold.lt, hold.new, hold.frames, hold.only⟩
  past := h.past

/-- Another call. -/
theorem calls (h : s.Sound) : { s with calls := s.calls + 1 }.Sound where
  safe := ⟨h.safe.alive, h.safe.onePerPeer, h.safe.once, h.safe.outcome⟩
  blocks := h.blocks
  listed := h.listed
  present := h.present
  idle := h.idle
  kept := h.kept
  called b t call ht hcall :=
    have hold := h.called b t call ht hcall
    ⟨Nat.lt_succ_of_lt hold.lt, hold.new, hold.frames, hold.only⟩
  past call hcall := Nat.lt_succ_of_lt (h.past call hcall)

/-- Some frames are under way no more. -/
theorem frames (h : s.Sound) {frames : List Frame} (hsub : ∀ f ∈ frames, f ∈ s.frames) :
    { s with frames := frames }.Sound where
  safe := ⟨h.safe.alive, h.safe.onePerPeer, h.safe.once, h.safe.outcome⟩
  blocks := h.blocks
  listed := h.listed
  present f hf := h.present f (hsub f hf)
  idle b t ht hidle f hf := h.idle b t ht hidle f (hsub f hf)
  kept := h.kept
  called b t call ht hcall :=
    have hold := h.called b t call ht hcall
    ⟨hold.lt, hold.new, fun f hf => hold.frames f (hsub f hf), hold.only⟩
  past := h.past

/-- A frame finds its transaction. -/
theorem answered (h : s.Sound) (id : ℕ) :
    { s with answered := (id, some id) :: s.answered }.Sound where
  safe :=
    { alive := fun r hr => by
        rcases List.mem_cons.1 hr with rfl | hr
        · rfl
        · exact h.safe.alive r hr
      onePerPeer := h.safe.onePerPeer
      once := h.safe.once
      outcome := h.safe.outcome }
  blocks := h.blocks
  listed := h.listed
  present := h.present
  idle := h.idle
  kept := h.kept
  called b t call ht hcall :=
    have hold := h.called b t call ht hcall
    ⟨hold.lt, hold.new, hold.frames, hold.only⟩
  past := h.past

/-- The outcome of a call is known. -/
theorem decided (h : s.Sound) (call : Option ℕ) (status : OutputStatus) :
    (s.decided call status).Sound := by
  cases call with
  | none => exact h
  | some call =>
      exact
        { safe :=
            ⟨h.safe.alive, h.safe.onePerPeer, h.safe.once,
              fun r hr => List.mem_cons_of_mem _ (h.safe.outcome r hr)⟩
          blocks := h.blocks
          listed := h.listed
          present := h.present
          idle := h.idle
          kept := h.kept
          called := fun b t call ht hcall =>
            have hold := h.called b t call ht hcall
            ⟨hold.lt, hold.new, hold.frames, hold.only⟩
          past := h.past }

/-- A callback is invoked that is in no block any more. -/
theorem invoked (h : s.Sound) {status : OutputStatus} (hlt : call < s.calls)
    (hnew : call ∉ s.invoked.map Prod.fst)
    (hnone : ∀ b t, s.trans b = some t → t.callback ≠ some call)
    (hout : (call, status) ∈ s.outcomes) :
    { s with invoked := (call, status) :: s.invoked }.Sound where
  safe :=
    { alive := h.safe.alive
      onePerPeer := h.safe.onePerPeer
      once := List.nodup_cons.2 ⟨hnew, h.safe.once⟩
      outcome := fun r hr => by
        rcases List.mem_cons.1 hr with rfl | hr
        · exact hout
        · exact h.safe.outcome r hr }
  blocks := h.blocks
  listed := h.listed
  present := h.present
  idle := h.idle
  kept := h.kept
  called b t call' ht hcall := by
    have hold := h.called b t call' ht hcall
    refine ⟨hold.lt, fun hmem => ?_, hold.frames, hold.only⟩
    rcases List.mem_cons.1 hmem with rfl | hmem
    · exact hnone b t ht hcall
    · exact hold.new hmem
  past call' hcall := by
    rcases List.mem_cons.1 hcall with rfl | hcall
    · exact hlt
    · exact h.past call' hcall

/-- A transaction is written. -/
theorem setTrans (h : s.Sound) (ht : s.trans b = some t) (hpeer : t'.peerAddr = t.peerAddr)
    (hid : t'.id = t.id) (hkept : t'.state ≠ .waitFree) (hidle : t'.state.IsIdle → s.Quiet b)
    (hcalled : ∀ call, t'.callback = some call → s.MayHold b call) :
    (s.setTrans b (some t')).Sound where
  safe :=
    { alive := h.safe.alive
      onePerPeer := by
        rw [peers_setTrans ht hpeer]
        exact h.safe.onePerPeer
      once := h.safe.once
      outcome := h.safe.outcome }
  blocks := h.blocks
  listed b' hb' hnone := by
    by_cases hb : b' = b
    · subst hb
      rw [setTrans_self] at hnone
      cases hnone
    · rw [setTrans_of_ne hb] at hnone
      exact h.listed b' hb' hnone
  present f hf := by
    obtain ⟨tf, htf, hidf⟩ := h.present f hf
    by_cases hb : f.block = b
    · rw [hb, ht] at htf
      refine ⟨t', by rw [hb, setTrans_self], ?_⟩
      rw [hid, Option.some.inj htf, hidf]
    · exact ⟨tf, by rw [setTrans_of_ne hb, htf], hidf⟩
  idle b' tb htb hstate := by
    rcases setTrans_eq_some htb with ⟨rfl, rfl⟩ | ⟨-, htb⟩
    · exact hidle hstate
    · exact h.idle b' tb htb hstate
  kept b' tb htb := by
    rcases setTrans_eq_some htb with ⟨rfl, rfl⟩ | ⟨-, htb⟩
    · exact hkept
    · exact h.kept b' tb htb
  called b' tb call htb hcall := by
    have hold : s.MayHold b' call := by
      rcases setTrans_eq_some htb with ⟨rfl, rfl⟩ | ⟨-, htb⟩
      · exact hcalled call hcall
      · exact h.called b' tb call htb hcall
    refine ⟨hold.lt, hold.new, hold.frames, fun b'' tb' htb' hcall' => ?_⟩
    rcases setTrans_eq_some htb' with ⟨rfl, rfl⟩ | ⟨-, htb'⟩
    · rcases setTrans_eq_some htb with ⟨rfl, rfl⟩ | ⟨-, htb⟩
      · rfl
      · exact ((hcalled call hcall').only b' tb htb hcall).symm
    · exact hold.only b'' tb' htb' hcall'
  past := h.past

/-- A transaction that no frame refers to is removed. -/
theorem remove (h : s.Sound) (hquiet : s.Quiet b) :
    ({ s with transList := s.transList.erase b }.setTrans b none).Sound where
  safe :=
    { alive := h.safe.alive
      onePerPeer := by
        have hpeers : ({ s with transList := s.transList.erase b }.setTrans b none).peers =
            { s with transList := s.transList.erase b }.peers :=
          List.filterMap_congr fun b' hb' => by
            rw [setTrans_of_ne fun hb => h.blocks.not_mem_erase (hb ▸ hb')]
        rw [hpeers]
        exact h.safe.onePerPeer.sublist (List.erase_sublist.filterMap _)
      once := h.safe.once
      outcome := h.safe.outcome }
  blocks := h.blocks.sublist List.erase_sublist
  listed b' hb' hnone := by
    rw [setTrans_of_ne fun hb => h.blocks.not_mem_erase (hb ▸ hb')] at hnone
    exact h.listed b' (List.mem_of_mem_erase hb') hnone
  present f hf := by
    obtain ⟨tf, htf, hidf⟩ := h.present f hf
    exact ⟨tf, by rw [setTrans_of_ne (hquiet f hf)]; exact htf, hidf⟩
  idle b' tb htb := h.idle b' tb (setTrans_none_eq_some htb).2
  kept b' tb htb := h.kept b' tb (setTrans_none_eq_some htb).2
  called b' tb call htb hcall := by
    have hold := h.called b' tb call (setTrans_none_eq_some htb).2 hcall
    exact ⟨hold.lt, hold.new, hold.frames,
      fun b'' tb' htb' => hold.only b'' tb' (setTrans_none_eq_some htb').2⟩
  past := h.past

/-- A transaction is made in a free block. -/
theorem alloc (h : s.Sound) (hfree : s.trans b = none) (hpeer : t.peerAddr ∉ s.peers)
    (hcallback : t.callback = none) (hkept : t.state ≠ .waitFree) :
    { s.setTrans b (some t) with
      transList := s.transList ++ [b]
      allocs := s.allocs + 1 }.Sound := by
  have hnot : b ∉ s.transList := fun hb => h.listed b hb hfree
  have hquiet : s.Quiet b := fun f hf hb => by
    obtain ⟨tf, htf, -⟩ := h.present f hf
    rw [hb, hfree] at htf
    cases htf
  have hne (b' : ℕ) (hb' : b' ∈ s.transList) : b' ≠ b := fun hb => hnot (hb ▸ hb')
  exact
    { safe :=
        { alive := h.safe.alive
          onePerPeer := by
            have hpeers : { s.setTrans b (some t) with
                transList := s.transList ++ [b]
                allocs := s.allocs + 1 }.peers = s.peers ++ [t.peerAddr] := by
              refine List.filterMap_append.trans (congrArg₂ _ ?_ ?_)
              · exact List.filterMap_congr fun b' hb' =>
                  congrArg _ (setTrans_of_ne (hne b' hb') _ s)
              · change List.filterMap (fun b' => ((s.setTrans b (some t)).trans b').map _) [b] = _
                simp
            rw [hpeers]
            exact List.nodup_append.2
              ⟨h.safe.onePerPeer, List.nodup_singleton _, fun a ha a' ha' heq =>
                hpeer ((heq.trans (List.mem_singleton.1 ha')) ▸ ha)⟩
          once := h.safe.once
          outcome := h.safe.outcome }
      blocks := List.nodup_append.2
        ⟨h.blocks, List.nodup_singleton _, fun b' hb' b'' hb'' heq =>
          hnot ((heq.trans (List.mem_singleton.1 hb'')) ▸ hb')⟩
      listed := fun b' hb' hnone => by
        rcases List.mem_append.1 hb' with hb' | hb'
        · exact h.listed b' hb' ((setTrans_of_ne (hne b' hb') _ s).symm.trans hnone)
        · obtain rfl := List.mem_singleton.1 hb'
          cases (setTrans_self b' (some t) s).symm.trans hnone
      present := fun f hf => by
        obtain ⟨tf, htf, hidf⟩ := h.present f hf
        exact ⟨tf, (setTrans_of_ne (hquiet f hf) _ s).trans htf, hidf⟩
      idle := fun b' tb htb hidle => by
        rcases setTrans_eq_some htb with ⟨rfl, rfl⟩ | ⟨-, htb⟩
        · exact hquiet
        · exact h.idle b' tb htb hidle
      kept := fun b' tb htb => by
        rcases setTrans_eq_some htb with ⟨rfl, rfl⟩ | ⟨-, htb⟩
        · exact hkept
        · exact h.kept b' tb htb
      called := fun b' tb call htb hcall => by
        rcases setTrans_eq_some htb with ⟨rfl, rfl⟩ | ⟨-, htb⟩
        · rw [hcallback] at hcall
          cases hcall
        · have hold := h.called b' tb call htb hcall
          refine ⟨hold.lt, hold.new, hold.frames, fun b'' tb' htb' hcall' => ?_⟩
          rcases setTrans_eq_some htb' with ⟨rfl, rfl⟩ | ⟨-, htb'⟩
          · rw [hcallback] at hcall'
            cases hcall'
          · exact hold.only b'' tb' htb' hcall'
      past := h.past }

/-- A frame of a transaction is under way. -/
theorem send (h : s.Sound) (ht : s.trans b = some t) (hidle : ¬ t.state.IsIdle) :
    { s with frames := s.frames ++ [(⟨b, t.id, t.callback⟩ : Frame)] }.Sound where
  safe := ⟨h.safe.alive, h.safe.onePerPeer, h.safe.once, h.safe.outcome⟩
  blocks := h.blocks
  listed := h.listed
  present f hf := by
    rcases List.mem_append.1 hf with hf | hf
    · exact h.present f hf
    · obtain rfl := List.mem_singleton.1 hf
      exact ⟨t, ht, rfl⟩
  idle b' tb htb hstate f hf hb := by
    rcases List.mem_append.1 hf with hf | hf
    · exact h.idle b' tb htb hstate f hf hb
    · obtain rfl := List.mem_singleton.1 hf
      obtain rfl : b = b' := hb
      rw [Option.some.inj (ht.symm.trans htb)] at hidle
      exact hidle hstate
  kept := h.kept
  called b' tb call htb hcall' := by
    have hold := h.called b' tb call htb hcall'
    refine ⟨hold.lt, hold.new, fun f hf hb => ?_, hold.only⟩
    rcases List.mem_append.1 hf with hf | hf
    · exact hold.frames f hf hb
    · obtain rfl := List.mem_singleton.1 hf
      obtain rfl : b = b' := hb
      obtain rfl := Option.some.inj (ht.symm.trans htb)
      exact hcall'
  past := h.past

end

end State.Sound

/-! ## The functions of `sixp-trans.c` -/

theorem transit_of_canTransit (ht : s.trans b = some t) {newState : TransState}
    (hcan : t.CanTransit newState) :
    ∃ nextSeqno, sixpTransTransitState b newState s =
      some ({ s with nextSeqno := nextSeqno }.setTrans b
        (some { t with state := newState, timer := some .processTrans })) := by
  rw [sixpTransTransitState, ht]
  dsimp only
  rw [if_pos hcan]
  split
  · exact ⟨_, rfl⟩
  · exact ⟨s.nextSeqno, rfl⟩

theorem transit_of_not (ht : s.trans b = some t) {newState : TransState}
    (hcan : ¬ t.CanTransit newState) : transit b newState s = s := by
  rw [transit, sixpTransTransitState, ht]
  dsimp only
  rw [if_neg hcan]
  rfl

omit [DecidableEq α] in
/-- Only a transaction to which nothing has happened yet becomes idle. -/
theorem Trans.CanTransit.isIdle {newState : TransState} (hcan : t.CanTransit newState)
    (hidle : newState.IsIdle) : t.state.IsIdle := by
  rcases hidle with rfl | rfl
  · exact hcan.elim
  · exact Or.inl hcan

theorem State.Sound.transit (h : s.Sound) (b : ℕ) (newState : TransState) :
    (transit b newState s).Sound := by
  cases ht : s.trans b with
  | none =>
      rw [Sixp.transit, sixpTransTransitState, ht]
      exact h
  | some t =>
      by_cases hcan : t.CanTransit newState
      · obtain ⟨nextSeqno, heq⟩ := transit_of_canTransit ht hcan
        rw [Sixp.transit, heq]
        refine (h.nextSeqno nextSeqno).setTrans ht rfl rfl ?_ ?_ ?_
        · rintro rfl
          exact hcan
        · intro hidle
          exact h.idle b t ht (hcan.isIdle hidle)
        · intro call hcall
          exact (h.nextSeqno nextSeqno).called b t call ht hcall
      · rw [transit_of_not ht hcan]
        exact h

omit [DecidableEq α] in
/-- `mac_callback` and `sixp_trans_abort` invoke the callback and forget it. -/
theorem State.Sound.invoke (h : s.Sound) (ht : s.trans b = some t) {status : OutputStatus}
    (hout : ∀ call, t.callback = some call → (call, status) ∈ s.outcomes) :
    (sixpTransSetCallback b none (sixpTransInvokeCallback b status s)).Sound := by
  have hset : (s.setTrans b (some { t with callback := none })).Sound :=
    h.setTrans ht rfl rfl (h.kept b t ht) (h.idle b t ht) fun call hcall => by cases hcall
  cases hcall : t.callback with
  | none =>
      have heq : sixpTransInvokeCallback b status s = s := by
        rw [sixpTransInvokeCallback, ht, Option.bind_some, hcall]
      rw [heq, sixpTransSetCallback, ht]
      exact hset
  | some call =>
      have hold := h.called b t call ht hcall
      have heq : sixpTransInvokeCallback b status s =
          { s with invoked := (call, status) :: s.invoked } := by
        rw [sixpTransInvokeCallback, ht, Option.bind_some, hcall]
      have htrans : { s with invoked := (call, status) :: s.invoked }.trans b = some t := ht
      rw [heq, sixpTransSetCallback, htrans]
      refine hset.invoked hold.lt hold.new (fun b' tb htb hcall' => ?_) (hout call hcall)
      rcases setTrans_eq_some htb with ⟨rfl, rfl⟩ | ⟨hne, htb⟩
      · cases hcall'
      · exact hne (hold.only b' tb htb hcall')

/-- `process_trans` frees a transaction that is to end. -/
theorem processTrans_terminating (ht : s.trans b = some t) (hstate : t.state = .terminating) :
    processTrans b s = { s with transList := s.transList.erase b }.setTrans b none := by
  rw [processTrans, ht]
  dsimp only
  rw [if_pos hstate, sixpTransFree, setTrans_self]
  dsimp only
  rw [if_neg (by rw [hstate]; decide), if_neg (by rw [hstate]; decide)]
  simp only [State.setTrans, Function.update_idem]

theorem State.Sound.processTrans (h : s.Sound) (ht : s.trans b = some t)
    (hquiet : t.state = .terminating → s.Quiet b) : (processTrans b s).Sound := by
  by_cases hstate : t.state = .terminating
  · rw [processTrans_terminating ht hstate]
    exact h.remove (hquiet hstate)
  · have hset (timer : Option Timer) : (s.setTrans b (some { t with timer := timer })).Sound :=
      h.setTrans ht rfl rfl (h.kept b t ht) (h.idle b t ht) (h.called b t · ht)
    rw [Sixp.processTrans, ht]
    dsimp only
    rw [if_neg hstate]
    split
    · exact (hset none).transit b .terminating
    · rw [setTrans_setTrans]
      exact hset _

/-- A transaction that no frame refers to is given up. -/
theorem State.Sound.abort (h : s.Sound) (ht : s.trans b = some t) (hquiet : s.Quiet b)
    (hout : ∀ call, t.callback = some call → (call, .aborted) ∈ s.outcomes) :
    (sixpTransAbort b s).Sound := by
  have hremove := h.remove hquiet
  have hterminating : Sixp.transit b .terminating s =
      s.setTrans b (some { t with state := .terminating, timer := some .processTrans }) := by
    rw [Sixp.transit, sixpTransTransitState, ht]
    rfl
  rw [sixpTransAbort, hterminating]
  generalize ht₁ : { t with state := .terminating, timer := some .processTrans } = t₁
  have hstate : t₁.state = .terminating := by rw [← ht₁]
  have hcallback : t₁.callback = t.callback := by rw [← ht₁]
  rw [sixpTransInvokeCallback, setTrans_self, Option.bind_some, hcallback]
  cases hcall : t.callback with
  | none =>
      rw [processTrans_terminating (setTrans_self ..) hstate]
      simpa only [State.setTrans, Function.update_idem] using hremove
  | some call =>
      have hold := h.called b t call ht hcall
      have htrans : { s.setTrans b (some t₁) with
          invoked := (call, .aborted) :: s.invoked }.trans b = some t₁ := setTrans_self ..
      have hinvoked := hremove.invoked hold.lt hold.new
        (fun b' tb htb hcall' =>
          have hne := setTrans_none_eq_some htb
          hne.1 (hold.only b' tb hne.2 hcall')) (hout call hcall)
      refine (congrArg State.Sound (processTrans_terminating htrans hstate)).mpr ?_
      simpa only [State.setTrans, Function.update_idem] using hinvoked

/-! ## The functions of `sixp.c` -/

section

omit [DecidableEq α]

@[simp] theorem decided_trans (call : Option ℕ) (status : OutputStatus) (s : State α) :
    (s.decided call status).trans = s.trans := by
  cases call <;> rfl

@[simp] theorem decided_frames (call : Option ℕ) (status : OutputStatus) (s : State α) :
    (s.decided call status).frames = s.frames := by
  cases call <;> rfl

theorem mem_decided (call : ℕ) (status : OutputStatus) (s : State α) :
    (call, status) ∈ (s.decided (some call) status).outcomes := List.mem_cons_self

end

/-- A `mac_callback` that finds the transaction of its frame. -/
theorem State.Sound.answerFrame (h : s.Sound) {f : Frame} (ht : s.trans f.block = some t)
    (hid : t.id = f.id) (hcall : ∀ call, t.callback = some call → f.call = some call) (ok : Bool) :
    (answerFrame f ok s).Sound := by
  rw [Sixp.answerFrame, ht, Option.map_some, hid]
  have hdecided := (h.answered f.id).decided f.call (if ok then .success else .failure)
  have htrans : (State.decided f.call (if ok then .success else .failure)
      { s with answered := (f.id, some f.id) :: s.answered }).trans f.block = some t := by
    rw [decided_trans]
    exact ht
  have hout : ∀ call, t.callback = some call →
      (call, if ok then OutputStatus.success else .failure) ∈
        (State.decided f.call (if ok then .success else .failure)
          { s with answered := (f.id, some f.id) :: s.answered }).outcomes := by
    intro call hcall'
    rw [hcall call hcall']
    exact mem_decided ..
  generalize State.decided f.call (if ok then .success else .failure)
    { s with answered := (f.id, some f.id) :: s.answered } = s₁ at hdecided htrans hout
  rw [macCallback, htrans]
  dsimp only
  rw [if_neg (hdecided.kept _ t htrans)]
  by_cases hstate : t.stateAfter ok = t.state
  · rw [if_pos hstate]
    exact hdecided.invoke htrans hout
  · rw [if_neg hstate]
    by_cases hcan : t.CanTransit (t.stateAfter ok)
    · obtain ⟨nextSeqno, heq⟩ := transit_of_canTransit htrans hcan
      have htransit := hdecided.transit f.block (t.stateAfter ok)
      rw [Sixp.transit, heq] at htransit
      rw [heq]
      exact htransit.invoke (setTrans_self ..) hout
    · have hnone : sixpTransTransitState f.block (t.stateAfter ok) s₁ = none := by
        rw [sixpTransTransitState, htrans]
        dsimp only
        rw [if_neg hcan]
      rw [hnone]
      exact hdecided.transit f.block .terminating

/-- The states in which `sixp_output` sends. -/
def TransState.Sends (state : TransState) : Prop :=
  state = .init ∨ state = .requestReceived ∨ state = .responseReceived

/-- A call whose callback is nowhere yet. -/
structure State.Fresh (s : State α) (call : ℕ) : Prop where
  lt : call < s.calls
  new : call ∉ s.invoked.map Prod.fst
  none : ∀ b t, s.trans b = some t → t.callback ≠ some call

section

omit [DecidableEq α]

theorem State.Fresh.mayHold (h : s.Fresh call) (hquiet : s.Quiet b) : s.MayHold b call where
  lt := h.lt
  new := h.new
  frames f hf hb := absurd hb (hquiet f hf)
  only b' t ht hcall := absurd hcall (h.none b' t ht)

theorem sixpTransSetCallback_eq (ht : s.trans b = some t) (callback : Option ℕ) :
    sixpTransSetCallback b callback s = s.setTrans b (some { t with callback := callback }) := by
  rw [sixpTransSetCallback, ht]

theorem stateAfter_false (h : t.state.Sends) : t.stateAfter false = t.state := by
  rcases h with h | h | h <;> simp [Trans.stateAfter, h]

end

/-- A frame that is not accepted: the callback is invoked at once, and the transaction stays as it
was. -/
theorem answerFrame_refused (ht : s.trans b = some t) (hstate : t.state.Sends)
    (hkept : t.state ≠ .waitFree) (call : Option ℕ) :
    Sixp.answerFrame ⟨b, t.id, call⟩ false (sixpTransSetCallback b call s) =
      { (State.decided call .failure
          { s with answered := (t.id, some t.id) :: s.answered }).setTrans b
          (some { t with callback := none }) with
        invoked := (call.map (·, OutputStatus.failure)).toList ++ s.invoked } := by
  have hstay : ({ t with callback := call } : Trans α).stateAfter false = t.state :=
    stateAfter_false hstate
  cases call with
  | none =>
      simp [Sixp.answerFrame, ht, macCallback, State.decided, hkept, hstay,
        sixpTransInvokeCallback, sixpTransSetCallback, State.setTrans]
  | some call =>
      simp [Sixp.answerFrame, ht, macCallback, State.decided, hkept, hstay,
        sixpTransInvokeCallback, sixpTransSetCallback, State.setTrans]

theorem State.Sound.refuse (h : s.Sound) (ht : s.trans b = some t) (hstate : t.state.Sends)
    {call : Option ℕ} (hcall : ∀ c, call = some c → s.Fresh c) :
    (Sixp.answerFrame ⟨b, t.id, call⟩ false (sixpTransSetCallback b call s)).Sound := by
  rw [answerFrame_refused ht hstate (h.kept b t ht)]
  have hdecided := (h.answered t.id).decided call .failure
  have htrans : (State.decided call .failure
      { s with answered := (t.id, some t.id) :: s.answered }).trans b = some t := by
    rw [decided_trans]
    exact ht
  have hset : ((State.decided call .failure
      { s with answered := (t.id, some t.id) :: s.answered }).setTrans b
      (some { t with callback := none })).Sound :=
    hdecided.setTrans htrans rfl rfl (h.kept b t ht) (hdecided.idle b t htrans)
      fun c hc => by cases hc
  cases call with
  | none => exact hset
  | some c =>
      have hfresh := hcall c rfl
      refine hset.invoked hfresh.lt hfresh.new ?_ (mem_decided c .failure _)
      intro b' tb htb hcallback
      rcases setTrans_eq_some htb with ⟨rfl, rfl⟩ | ⟨-, htb⟩
      · cases hcallback
      · exact hfresh.none b' tb htb hcallback

/-! ## After `sixtop_output` -/

/-- The transaction is not idle after a transition that it can make, or that it did not need. -/
theorem transit_leaves_idle (ht : s.trans b = some t) {newState : TransState}
    (hnew : ¬ newState.IsIdle) (hcan : t.CanTransit newState ∨ ¬ t.state.IsIdle) :
    ∃ t', (transit b newState s).trans b = some t' ∧ ¬ t'.state.IsIdle ∧ t'.id = t.id ∧
      t'.callback = t.callback := by
  by_cases htransit : t.CanTransit newState
  · obtain ⟨nextSeqno, heq⟩ := transit_of_canTransit ht htransit
    rw [transit, heq]
    exact ⟨_, setTrans_self .., hnew, rfl, rfl⟩
  · rw [transit_of_not ht htransit]
    exact ⟨t, ht, hcan.resolve_left htransit, rfl, rfl⟩

theorem transit_frames (frames : List Frame) (newState : TransState) (s : State α) :
    transit b newState { s with frames := frames } =
      { transit b newState s with frames := frames } := by
  rw [transit, transit, sixpTransTransitState, sixpTransTransitState]
  cases ht : s.trans b with
  | none => rfl
  | some t =>
      dsimp only
      split
      · split <;> rfl
      · rfl

theorem afterOutput_frames (o : Output α) (frames : List Frame) (s : State α) :
    afterOutput b o { s with frames := frames } = { afterOutput b o s with frames := frames } := by
  rw [afterOutput, afterOutput]
  dsimp only
  split
  · exact transit_frames frames .requestSending (changeNextSeqno o.destAddr
      (if o.code = cmdClear then fun _ => 0 else incrementNextSeqno) s)
  · exact transit_frames frames .responseSending s
  · exact transit_frames frames .confirmationSending s
  · rfl

theorem State.Sound.afterOutput (h : s.Sound) (b : ℕ) (o : Output α) :
    (afterOutput b o s).Sound := by
  rw [Sixp.afterOutput]
  split
  · exact (h.nextSeqno _).transit b _
  · exact h.transit b _
  · exact h.transit b _
  · exact h

/-- The transaction is not idle any more. -/
theorem afterOutput_trans (ht : s.trans b = some t) (hstate : t.state.Sends) (o : Output α) :
    ∃ t', (afterOutput b o s).trans b = some t' ∧ ¬ t'.state.IsIdle ∧ t'.id = t.id ∧
      t'.callback = t.callback := by
  rw [afterOutput, ht, Option.map_some]
  rcases hstate with hstate | hstate | hstate
  · rw [hstate]
    exact transit_leaves_idle (s := changeNextSeqno o.destAddr
      (if o.code = cmdClear then fun _ => 0 else incrementNextSeqno) s) ht (by decide)
      (Or.inl hstate)
  · rw [hstate]
    exact transit_leaves_idle ht (by decide) (Or.inl hstate)
  · rw [hstate]
    refine transit_leaves_idle ht (by decide) (Or.inr ?_)
    rw [hstate]
    decide

theorem frames_afterOutput (o : Output α) (s : State α) :
    (afterOutput b o s).frames = s.frames :=
  (congrArg State.frames (afterOutput_frames (b := b) o s.frames s) :)

theorem State.Sound.outputTrans (h : s.Sound) (ht : s.trans b = some t) (hstate : t.state.Sends)
    {call : Option ℕ} (hcall : ∀ c, call = some c → s.Fresh c) (o : Output α)
    (hquiet : ∀ c, call = some c → o.sent.Keeps → s.Quiet b)
    (hrequest : o.type = .request → s.Quiet b) : (outputTrans b call o s).Sound := by
  have htrans : (sixpTransSetCallback b call s).trans b = some { t with callback := call } := by
    rw [sixpTransSetCallback_eq ht, setTrans_self]
  have hframes : (sixpTransSetCallback b call s).frames = s.frames := by
    rw [sixpTransSetCallback_eq ht]
    rfl
  have hset (hkeeps : o.sent.Keeps) : (sixpTransSetCallback b call s).Sound := by
    rw [sixpTransSetCallback_eq ht]
    exact h.setTrans ht rfl rfl (h.kept b t ht) (h.idle b t ht)
      fun c hc => (hcall c hc).mayHold (hquiet c hc hkeeps)
  have hrefuse := h.refuse ht hstate hcall
  rw [Sixp.outputTrans, sixtopOutput, htrans]
  cases hsent : o.sent with
  | noRoom =>
      have hsound := hset (Or.inl hsent)
      dsimp only
      split
      · rename_i hreq
        rw [if_pos rfl]
        refine (hsound.decided call .aborted).abort (by rw [decided_trans, htrans]) ?_ ?_
        · intro f hf
          rw [decided_frames, hframes] at hf
          exact hrequest hreq f hf
        · intro c hc
          obtain rfl : call = some c := hc
          exact mem_decided ..
      · exact hsound
  | fatal =>
      dsimp only
      split
      · rename_i hreq
        rw [if_neg (by decide)]
        rw [answerFrame_refused ht hstate (h.kept b t ht)] at hrefuse ⊢
        refine hrefuse.abort (setTrans_self ..) ?_ fun c hc => by cases hc
        intro f hf
        have hf' : f ∈ (State.decided call .failure
          { s with answered := (t.id, some t.id) :: s.answered }).frames := hf
        rw [decided_frames] at hf'
        exact hrequest hreq f hf'
      · exact hrefuse
  | refused => exact hrefuse.afterOutput b o
  | accepted =>
      have hsound := hset (Or.inr hsent)
      obtain ⟨t', ht', hidle, hid, hcallback⟩ := afterOutput_trans htrans hstate o
      have hsend := (hsound.afterOutput b o).send ht' hidle
      rw [frames_afterOutput, hid, hcallback] at hsend
      dsimp only
      rw [afterOutput_frames]
      exact hsend

/-! ## Finding and allocating -/

theorem exists_of_sixpTransFind {addr : α} (h : sixpTransFind addr s = some b) :
    ∃ t, s.trans b = some t ∧ t.peerAddr = addr := by
  have hany := List.find?_some h
  cases ht : s.trans b with
  | none =>
      rw [ht] at hany
      cases hany
  | some t =>
      rw [ht] at hany
      exact ⟨t, rfl, of_decide_eq_true hany⟩

theorem not_mem_peers {addr : α} (h : sixpTransFind addr s = none) : addr ∉ s.peers := by
  intro hmem
  obtain ⟨b, hb, hpeer⟩ := List.mem_filterMap.1 hmem
  obtain ⟨t, ht, rfl⟩ := Option.map_eq_some_iff.1 hpeer
  refine List.find?_eq_none.1 h b hb ?_
  rw [ht]
  exact decide_eq_true rfl

theorem State.Sound.sixpTransAlloc (h : s.Sound) {pkt : Pkt} {addr : α}
    (halloc : sixpTransAlloc cfg pkt addr s = some (b, s')) :
    s'.Sound ∧ (∃ t, s'.trans b = some t ∧ t.state = .init) ∧ s'.Quiet b ∧
      ∀ call, s.Fresh call → s'.Fresh call := by
  rw [Sixp.sixpTransAlloc] at halloc
  split at halloc
  · cases halloc
  · split at halloc
    · cases halloc
    · rename_i hnone
      split at halloc
      · cases halloc
      · rename_i hmemb
        cases halloc
        rw [membAlloc] at hmemb
        have hisNone := List.find?_some hmemb
        have hfree : s.trans b = none := Option.isNone_iff_eq_none.1 hisNone
        have hpeer : addr ∉ s.peers := not_mem_peers (Option.not_isSome_iff_eq_none.1 hnone)
        refine ⟨h.alloc hfree hpeer rfl TransState.noConfusion, ⟨_, setTrans_self .., rfl⟩, ?_, ?_⟩
        · intro f hf hb
          obtain ⟨t, ht, -⟩ := h.present f hf
          rw [hb, hfree] at ht
          cases ht
        · intro call hfresh
          refine ⟨hfresh.lt, hfresh.new, fun b' t ht hcall => ?_⟩
          rcases setTrans_eq_some ht with ⟨-, rfl⟩ | ⟨-, ht⟩
          · cases hcall
          · exact hfresh.none b' t ht hcall

omit [DecidableEq α] in
/-- `sixp_output` sends a response or a confirmation in one state each. -/
theorem Output.Accepts.cases {o : Output α} (h : o.Accepts (some t)) :
    o.type = .response ∧ t.state = .requestReceived ∨
      o.type = .confirmation ∧ t.state = .responseReceived := by
  cases htype : o.type with
  | request =>
      rw [Output.Accepts.eq_def, htype] at h
      exact h.elim
  | response =>
      rw [Output.Accepts.eq_def, htype] at h
      exact Or.inl ⟨rfl, h⟩
  | confirmation =>
      rw [Output.Accepts.eq_def, htype] at h
      exact Or.inr ⟨rfl, h⟩
  | reserved =>
      rw [Output.Accepts.eq_def, htype] at h
      exact h.elim

theorem withNbr_eq_some {o : Output α} {trans : Option (Trans α)}
    (h : o.withNbr trans s = some s') : ∃ nextSeqno, s' = { s with nextSeqno := nextSeqno } := by
  rw [Output.withNbr] at h
  split at h
  · rw [sixpNbrAlloc] at h
    split at h
    · exact ⟨_, (Option.some.inj h).symm⟩
    · cases h
  · exact ⟨s.nextSeqno, (Option.some.inj h).symm⟩

/-! ## Events -/

theorem State.Sound.sixpOutput (h : s.Sound) (cfg : Config) {o : Output α}
    (hok : Ok s (.output o)) : (sixpOutput cfg o s).Sound := by
  have hfresh : ∀ c, (if o.callback then some s.calls else none) = some c →
      { s with calls := s.calls + 1 }.Fresh c := by
    intro c hc
    obtain ⟨-, rfl⟩ : o.callback = true ∧ s.calls = c := by simpa using hc
    refine ⟨Nat.lt_succ_self _, fun hmem => ?_, fun b t ht hcall => ?_⟩
    · exact absurd (h.past _ hmem) (Nat.lt_irrefl _)
    · exact absurd (h.called b t _ ht hcall).lt (Nat.lt_irrefl _)
  rw [Sixp.sixpOutput]
  dsimp only
  split
  · exact h.calls
  · rename_i haccepts
    rw [not_not] at haccepts
    split
    · exact h.calls
    · rename_i s₁ hnbr
      obtain ⟨nextSeqno, rfl⟩ := withNbr_eq_some hnbr
      have hsound := h.calls.nextSeqno nextSeqno
      split
      · exact hsound
      · rename_i hcreated
        split
        · rename_i b hfind
          obtain ⟨t, ht, -⟩ := exists_of_sixpTransFind hfind
          rw [hfind, Option.bind_some, ht] at haccepts
          have hcases := haccepts.cases
          refine hsound.outputTrans ht ?_ (fun c hc => ?_) o (fun c hc hkeeps => ?_) fun hreq => ?_
          · rcases hcases with ⟨-, hstate⟩ | ⟨-, hstate⟩
            · exact Or.inr (Or.inl hstate)
            · exact Or.inr (Or.inr hstate)
          · have hold := hfresh c hc
            exact ⟨hold.lt, hold.new, hold.none⟩
          · rcases hcases with ⟨-, hstate⟩ | ⟨htype, hstate⟩
            · exact h.idle b t ht (Or.inr hstate)
            · obtain ⟨hcallback, -⟩ : o.callback = true ∧ s.calls = c := by simpa using hc
              exact hok b t hfind ht htype hstate hcallback (by simpa using hcreated) hkeeps
          · rcases hcases with ⟨htype, -⟩ | ⟨htype, -⟩
            · rw [hreq] at htype
              cases htype
            · rw [hreq] at htype
              cases htype
        · rename_i hfind
          split
          · exact hsound
          · rename_i b s₂ halloc
            obtain ⟨hsound₂, ⟨t, ht, hstate⟩, hquiet, hkeep⟩ := hsound.sixpTransAlloc halloc
            refine hsound₂.outputTrans ht (Or.inl hstate) (fun c hc => ?_) o
              (fun _ _ _ => hquiet) fun _ => hquiet
            have hold := hfresh c hc
            exact hkeep c ⟨hold.lt, hold.new, hold.none⟩

theorem State.Sound.handleScheduleInconsistency (h : s.Sound) (cfg : Config) (i : Input α)
    (pkt : Pkt) : (handleScheduleInconsistency cfg i pkt s).Sound := by
  have hok : Ok s (.output (i.errSeqnum pkt)) := fun _ _ _ _ htype => by cases htype
  rw [Sixp.handleScheduleInconsistency]
  split
  · split
    · exact h
    · exact h.sixpOutput cfg hok
  · exact h.sixpOutput cfg hok

theorem State.Sound.inputRequest (h : s.Sound) (cfg : Config) (i : Input α) (pkt : Pkt) :
    (inputRequest cfg i pkt s).Sound := by
  rw [Sixp.inputRequest]
  split
  · split
    · exact h.handleScheduleInconsistency cfg i pkt
    · exact h
  · dsimp only
    have hclear : (if pkt.code = cmdClear then changeNextSeqno i.srcAddr (fun _ => 0) s
        else s).Sound := by
      split
      · exact h.nextSeqno _
      · exact h
    split
    · exact hclear
    · rename_i b s₁ halloc
      have hsound := (hclear.sixpTransAlloc halloc).1.transit b .requestReceived
      split
      · exact hsound.handleScheduleInconsistency cfg i pkt
      · exact hsound

theorem State.Sound.inputReply (h : s.Sound) (newState : TransState) (i : Input α) (pkt : Pkt) :
    (inputReply newState i pkt s).Sound := by
  rw [Sixp.inputReply]
  split
  · exact h
  · split
    · exact h.transit _ newState
    · exact h

theorem State.Sound.sixpInput (h : s.Sound) (cfg : Config) (i : Input α) :
    (sixpInput cfg i s).Sound := by
  rw [Sixp.sixpInput]
  split
  · exact h
  · rename_i pkt _
    split
    · exact h
    · cases pkt.type with
      | request => exact h.inputRequest cfg i pkt
      | response => exact h.inputReply .responseReceived i pkt
      | confirmation => exact h.inputReply .confirmationReceived i pkt
      | reserved => exact h

/-- A harmless event keeps the invariant. -/
theorem State.Sound.step (h : s.Sound) {e : Event α} (hok : Ok s e)
    (hstep : step cfg e s = some s') : s'.Sound := by
  cases e with
  | output o =>
      obtain rfl := Option.some.inj hstep
      exact h.sixpOutput cfg hok
  | input i =>
      obtain rfl := Option.some.inj hstep
      exact h.sixpInput cfg i
  | timer b =>
      rw [Sixp.step] at hstep
      split at hstep
      · cases hstep
      · obtain rfl := Option.some.inj hstep
        exact h.transit b .terminating
      · rename_i htimer
        obtain rfl := Option.some.inj hstep
        obtain ⟨t, ht, htimer⟩ := Option.bind_eq_some_iff.1 htimer
        exact h.processTrans ht (hok t ht htimer)
  | macCallback frame ok =>
      rw [Sixp.step] at hstep
      split at hstep
      · cases hstep
      · rename_i f hf
        obtain rfl := Option.some.inj hstep
        have hmem := List.mem_of_getElem? hf
        obtain ⟨t, ht, hid⟩ := h.present f hmem
        exact (h.frames fun f' hf' => List.mem_of_mem_eraseIdx hf').answerFrame ht hid
          (fun call hcall => (h.called f.block t call ht hcall).frames f hmem rfl) ok
  | nbrRemoved addr =>
      obtain rfl := Option.some.inj hstep
      exact h.nextSeqno _

omit [DecidableEq α] in
theorem sound_init : (init : State α).Sound where
  safe :=
    { alive := fun r hr => by cases hr
      onePerPeer := List.nodup_nil
      once := List.nodup_nil
      outcome := fun r hr => by cases hr }
  blocks := List.nodup_nil
  listed b hb := by cases hb
  present f hf := by cases hf
  idle b t ht := by cases ht
  kept b t ht := by cases ht
  called b t call ht := by cases ht
  past call hcall := by cases hcall

/-- In a run of harmless events no transaction is used after it has been freed, there is at most
one for a peer, and a callback is invoked at most once, with the outcome of its call. -/
theorem always_safe (cfg : Config) (events : List (Event α))
    (h : Meets (step cfg) Ok events init) : Always (step cfg) State.Safe events init :=
  always_of_meets (fun _ _ _ hsound hok hstep => hsound.step hok hstep)
    (fun _ hsound => hsound.safe) sound_init h

/-- One scheduling function and one transaction at a time. -/
def oneTransaction : Config where
  schedulingFunctions := [0]
  maxTransactions := 1

/-- A request to count the cells of a neighbour. -/
def countRequest : Output ℕ where
  type := .request
  code := 4
  sfid := 0
  bodyLen := 3
  destAddr := 5
  callback := true
  nbrFree := true
  created := true
  sent := .accepted

/-- The response to it. -/
def countResponse : Input ℕ where
  pkt := some { type := .response, code := 0, sfid := 0, seqno := 0, bodyLen := 2 }
  srcAddr := 5
  nbrFree := true
  created := true
  sent := .accepted

theorem always_safe_count :
    Always (step oneTransaction) State.Safe
      [.output countRequest, .macCallback 0 true, .input countResponse, .timer 0, .timer 0]
      init := by
  refine always_safe oneTransaction _ ⟨?_, trivial, trivial, ?_, ?_, trivial⟩
  · intro b t _ _ htype
    cases htype
  · intro t _ _ _ f hf
    cases hf
  · intro t _ _ _ f hf
    cases hf

/-- The timer of a request expires while its frame is still in the queue. -/
theorem not_always_safe_timeout :
    ¬ Always (step oneTransaction) State.Safe
      [.output countRequest, .timer 0, .timer 0, .timer 0, .macCallback 0 true] init := fun h => by
  have hsafe := always_last h rfl
  have halive : (none : Option ℕ) = some 0 := hsafe.alive (0, none) (List.mem_cons_self ..)
  cases halive

end Den2ne.Sixp
