import Den2ne.Node.Standing

/-!
# Every event takes the standing to the next standing

Of all handlers only the two Hello handlers, the round timer of the root and
the SetHLMAC branch change the standing; whatever sends towards the root, and
whatever counts the children, leaves it alone. `standing_step` puts the
handlers together.
-/

namespace Den2ne

variable {α : Type*} [DecidableEq α] (cfg : Config α) (env : Env α)

/-! ## Handlers that leave the standing alone -/

section

omit [DecidableEq α]

@[simp] theorem standing_enqueue (n : Node α) (e : PayloadEntry α) :
    (n.enqueue e).standing = n.standing := rfl

@[simp] theorem standing_foldl_enqueue (n : Node α) (es : List (PayloadEntry α)) :
    (es.foldl Node.enqueue n).standing = n.standing := by
  induction es generalizing n with
  | nil => rfl
  | cons e es ih => rw [List.foldl_cons, ih, standing_enqueue]

@[simp] theorem standing_preparePackets (n : Node α) (es : List (PayloadEntry α)) :
    (n.preparePackets es).standing = n.standing := rfl

@[simp] theorem standing_listThisNodeEntry (loadDraw : ℕ) (n : Node α) :
    (listThisNodeEntry loadDraw n).standing = n.standing := rfl

@[simp] theorem standing_armStatistic (n : Node α) :
    (armStatistic cfg n).standing = n.standing := by
  unfold armStatistic
  split <;> rfl

@[simp] theorem standing_convergenceTest (n : Node α) :
    (convergenceTest n).standing = n.standing := rfl

@[simp] theorem standing_countDown (n : Node α) : (countDown n).standing = n.standing := rfl

@[simp] theorem standing_iotoriiHandleLoadTimer (n : Node α) :
    (iotoriiHandleLoadTimer cfg n).standing = n.standing := by
  unfold iotoriiHandleLoadTimer
  dsimp only
  split
  · rfl
  · split
    · rfl
    · split <;> rfl

theorem standing_iotoriiHandleShareUpstreamTimer {junk : α} {n n' : Node α}
    (h : iotoriiHandleShareUpstreamTimer cfg junk n = some n') :
    n'.standing = n.standing := by
  unfold iotoriiHandleShareUpstreamTimer at h
  split at h
  · cases h
  · dsimp only at h
    split at h <;>
    · obtain rfl := Option.some.inj h
      simp [Node.standing, Node.preparePackets, Node.enqueue]

theorem standing_sendLoadAndShare {junk : α} {n n' : Node α}
    (h : sendLoadAndShare cfg junk n = some n') : n'.standing = n.standing := by
  rw [sendLoadAndShare, Option.map_eq_some_iff] at h
  obtain ⟨m, hm, rfl⟩ := h
  have hm' := standing_iotoriiHandleShareUpstreamTimer cfg hm
  rw [standing_iotoriiHandleLoadTimer] at hm'
  exact hm'

theorem standing_iotoriiHandleStatisticTimer {junk : α} {n n' : Node α}
    (h : iotoriiHandleStatisticTimer cfg junk n = some n') : n'.standing = n.standing := by
  unfold iotoriiHandleStatisticTimer at h
  split at h
  · exact congrArg _ (Option.some.inj h).symm
  · dsimp only at h
    split at h
    · obtain rfl := Option.some.inj h
      rfl
    · split at h
      · have hsent := standing_sendLoadAndShare cfg h
        exact hsent
      · obtain rfl := Option.some.inj h
        rfl

theorem standing_iotoriiHandleSendMessageTimer {csma : CsmaOutcome} {n n' : Node α}
    (h : iotoriiHandleSendMessageTimer cfg csma n = some n') : n'.standing = n.standing := by
  unfold iotoriiHandleSendMessageTimer at h
  split at h
  · cases h
  · split at h
    · obtain rfl := Option.some.inj h
      rfl
    · split at h <;>
      · obtain rfl := Option.some.inj h
        rfl

end

theorem standing_iotoriiSendSethlmac {addr : HlmacAddr} {sender : α} {timestamp : ℕ}
    {n n' : Node α} (h : iotoriiSendSethlmac cfg env addr sender timestamp n = some n') :
    n'.standing = n.standing := by
  unfold iotoriiSendSethlmac at h
  dsimp only at h
  split at h
  · obtain rfl := Option.some.inj h
    simp
  · split at h
    · obtain rfl := Option.some.inj h
      simp
    · split at h
      · cases h
      · split at h
        · cases h
        · obtain rfl := Option.some.inj h
          simp
        · obtain rfl := Option.some.inj h
          simp

section

omit [DecidableEq α]

theorem standing_becomeEdge {junk : α} {n n' : Node α}
    (h : becomeEdge cfg junk n = some n') : n'.standing = n.standing := by
  unfold becomeEdge at h
  split at h
  · have hsent := standing_sendLoadAndShare cfg h
    exact hsent
  · exact congrArg _ (Option.some.inj h).symm

@[simp] theorem standing_sendLoadWhenDone (n : Node α) :
    (sendLoadWhenDone cfg n).standing = n.standing := by
  unfold sendLoadWhenDone
  split
  · exact standing_iotoriiHandleLoadTimer cfg n
  · rfl

theorem standing_sendShareWhenDone {junk : α} {n n' : Node α}
    (h : sendShareWhenDone cfg junk n = some n') : n'.standing = n.standing := by
  unfold sendShareWhenDone at h
  split at h
  · obtain ⟨m, hm, rfl⟩ := Option.map_eq_some_iff.1 h
    have hshare := standing_iotoriiHandleShareUpstreamTimer cfg hm
    exact hshare
  · exact congrArg _ (Option.some.inj h).symm

theorem standing_sendWhenDone {junk : α} {n n' : Node α}
    (h : sendWhenDone cfg junk n = some n') : n'.standing = n.standing := by
  rw [standing_sendShareWhenDone cfg h, standing_sendLoadWhenDone]

end

theorem standing_incomingLoad (sender : α) (load : ℤ) (n : Node α) :
    (incomingLoad cfg sender load n).standing = n.standing := by
  unfold incomingLoad
  split
  · rfl
  · dsimp only
    split
    · split <;> simp [Node.standing, convergenceTest]
    · rw [standing_sendLoadWhenDone]
      split <;> simp [Node.standing]

omit [DecidableEq α] in
theorem standing_takeShare {junk : α} {extra : ℤ} {n n' : Node α}
    (h : takeShare cfg junk extra n = some n') : n'.standing = n.standing := by
  unfold takeShare at h
  split at h
  · cases h
  · dsimp only at h
    split at h
    · obtain rfl := Option.some.inj h
      rfl
    · split at h
      · rw [Option.map_eq_some_iff] at h
        obtain ⟨m, hm, rfl⟩ := h
        have hshare := standing_iotoriiHandleShareUpstreamTimer cfg hm
        exact hshare
      · obtain rfl := Option.some.inj h
        rfl

theorem standing_incomingShare {junk : α} {sender : α} {extra : ℤ} {n n' : Node α}
    (h : incomingShare cfg junk sender extra n = some n') : n'.standing = n.standing := by
  unfold incomingShare at h
  split at h
  · exact congrArg _ (Option.some.inj h).symm
  · dsimp only at h
    rw [Option.map_eq_some_iff] at h
    obtain ⟨m, hm, rfl⟩ := h
    have hm' : m.standing = n.standing := by
      split at hm
      · exact standing_takeShare cfg hm
      · exact congrArg _ (Option.some.inj hm).symm
    rw [← hm']
    simp [Node.standing]

/-! ## The Hello handlers and the round timer -/

theorem standing_iotoriiHandleIncomingHello (sender : α) (n : Node α) :
    (iotoriiHandleIncomingHello sender n).standing = n.standing.hello sender := by
  have hlen : n.standing.marks.length = n.neighbourTable.numberOfNeighbours :=
    n.neighbourTable.numberOfNeighbours_eq_marks.symm
  have haddrs : n.standing.addrs = n.neighbourTable.addrs :=
    n.neighbourTable.addrs_eq_marks.symm
  unfold iotoriiHandleIncomingHello Standing.hello
  rw [hlen, haddrs]
  split
  · split
    · simp [Node.standing, NeighbourTable.marks_setLastHello]
    · simp [Node.standing, NeighbourTable.marks_add, NeighbourTableEntry.mark]
  · rfl

theorem standing_iotoriiCheckNeighboursHello (n : Node α) :
    (iotoriiCheckNeighboursHello n).standing =
      { n.standing with
        marks := n.standing.marks.eraseP (Standing.missing n.numberOfHelloMessages)
        parent := dropParent n.history.parent ((n.standing.marks.find?
          (Standing.missing n.numberOfHelloMessages)).map (·.addr)) } := by
  have hmiss : ∀ nb : NeighbourTableEntry α, helloExpired n.numberOfHelloMessages nb =
      Standing.missing n.numberOfHelloMessages nb.mark := fun _ => rfl
  have hfind : (n.standing.marks.find? (Standing.missing n.numberOfHelloMessages)).map (·.addr) =
      (n.neighbourTable.entries.find? (helloExpired n.numberOfHelloMessages)).map (·.addr) := by
    rw [Node.standing, NeighbourTable.marks, List.find?_map, Option.map_map]
    rfl
  rw [hfind]
  simp only [iotoriiCheckNeighboursHello, Node.standing,
    NeighbourTable.marks_removeFirst _ _ _ hmiss]

theorem standing_iotoriiHandleHelloTimer {n : Node α} (h : n.helloTimer = false) :
    (iotoriiHandleHelloTimer cfg env n).standing = n.standing.tick cfg := by
  unfold iotoriiHandleHelloTimer Standing.tick
  dsimp only
  rw [standing_iotoriiCheckNeighboursHello]
  by_cases hnumber : (n.numberOfHelloMessages + 1) % 65536 ≤ 500 <;>
  by_cases hpayload : maxPayload env.framerHdrlen ≤ 0 <;>
  simp [Node.standing, Node.preparePackets, hnumber, hpayload, h]

section

omit [DecidableEq α]

theorem standing_storeRootAddress (n : Node α) :
    (storeRootAddress cfg n).standing = n.standing.storeRoot cfg := rfl

theorem standing_resetRoot (n : Node α) :
    (resetRoot cfg n).standing = { n.standing.unmark with
      numberOfNeighboursFlag := n.standing.marks.length
      heard := [] } := by
  unfold resetRoot
  dsimp only
  split <;>
  simp only [Node.standing, Standing.unmark, NeighbourTable.marks_iotoriiNeighboursFlag,
    NeighbourTable.numberOfNeighbours_eq_marks]

end

theorem standing_iotoriiHandleSethlmacTimer {n n' : Node α}
    (h : iotoriiHandleSethlmacTimer cfg env n = some n') :
    n'.standing = { n.standing.startRound cfg with sethlmacTimer := n.sethlmacTimer } := by
  obtain ⟨m, hm, rfl⟩ := Option.map_eq_some_iff.1 h
  rw [standing_resetRoot, standing_iotoriiSendSethlmac cfg env hm, standing_storeRootAddress]
  rfl

/-! ## The SetHLMAC branch -/

theorem standing_markSender (sender : α) (isAdded : Bool) (n : Node α) :
    (markSender sender isAdded n).standing = n.standing.markSender sender isAdded := by
  have hparent : (if isAdded = true ∧ sender ∈ n.neighbourTable.addrs then some sender
      else n.history.parent) =
      if isAdded = true ∧ sender ∈ n.standing.addrs then some sender else n.history.parent := by
    refine if_congr ?_ rfl rfl
    rw [NeighbourTable.addrs_eq_marks]
    rfl
  simp only [markSender, Node.standing, Standing.markSender, NeighbourTable.marks_setFlag, hparent]

section

omit [DecidableEq α]

theorem standing_enterRound (timestamp : ℕ) (n : Node α) :
    (enterRound cfg timestamp n).standing = n.standing.enter timestamp := by
  unfold enterRound
  dsimp only
  split <;>
  simp only [Node.standing, Standing.enter, Standing.unmark,
    NeighbourTable.marks_iotoriiNeighboursFlag, NeighbourTable.numberOfNeighbours_eq_marks]

theorem standing_adoptAddress (sender : α) (timestamp : ℕ) (addr : HlmacAddr) (n : Node α) :
    (adoptAddress cfg sender timestamp addr n).standing =
      n.standing.adopt sender timestamp addr := by
  have henters : entersRound n timestamp = n.standing.enters timestamp := rfl
  unfold adoptAddress Standing.adopt
  dsimp only
  rw [henters]
  split
  · rw [← standing_enterRound cfg timestamp n]
    rfl
  · rfl

theorem fst_storeAddress (sender : α) (timestamp : ℕ) (addr : HlmacAddr) (n : Node α) :
    (storeAddress cfg sender timestamp addr n).1 =
      (n.standing.store cfg sender timestamp addr).1 := rfl

theorem standing_storeAddress (sender : α) (timestamp : ℕ) (addr : HlmacAddr) (n : Node α) :
    (storeAddress cfg sender timestamp addr n).2.standing =
      (n.standing.store cfg sender timestamp addr).2 := by
  simp only [storeAddress, Standing.store]
  split
  · rw [if_pos ‹_›]
    exact standing_adoptAddress cfg sender timestamp addr _
  · rw [if_neg ‹_›]
    rfl

end

/-- A SetHLMAC that is not a loop stores the address and marks the sender;
passing the address on and sending upwards change nothing here. -/
theorem standing_takeSethlmac {sender : α} {timestamp : ℕ} {addr : HlmacAddr}
    {n n' : Node α} (h : takeSethlmac cfg env sender timestamp addr n = some n') :
    n'.standing = (n.standing.store cfg sender timestamp addr).2.markSender sender
      (n.standing.store cfg sender timestamp addr).1 := by
  rw [← fst_storeAddress, ← standing_storeAddress, ← standing_markSender]
  unfold takeSethlmac at h
  generalize storeAddress cfg sender timestamp addr n = stored at h ⊢
  obtain ⟨isAdded, n⟩ := stored
  dsimp only at h ⊢
  have hpassed : ∀ m, (if isAdded = true then
      iotoriiSendSethlmac cfg env addr sender timestamp n else some n) = some m →
      (markSender sender isAdded m).standing = (markSender sender isAdded n).standing := by
    intro m hm
    rw [standing_markSender, standing_markSender]
    split at hm
    · rw [standing_iotoriiSendSethlmac cfg env hm]
    · rw [Option.some.inj hm]
  split at h
  · obtain ⟨m, hm, rfl⟩ := Option.map_eq_some_iff.1 h
    exact hpassed m hm
  · obtain ⟨m, hm, h⟩ := Option.bind_eq_some_iff.1 h
    obtain ⟨m', hm', h⟩ := Option.bind_eq_some_iff.1 h
    rw [standing_sendWhenDone cfg h, standing_becomeEdge cfg hm', standing_countDown,
      hpassed m hm]

omit [DecidableEq α] in
theorem standing_leaveSethlmac {n n' : Node α} (h : leaveSethlmac cfg env n = some n') :
    n'.standing = n.standing := by
  unfold leaveSethlmac at h
  split at h
  · exact congrArg _ (Option.some.inj h).symm
  · rw [standing_sendWhenDone cfg h, standing_countDown]

theorem standing_incomingSethlmac {sender : α} {timestamp : ℕ} {addr : HlmacAddr}
    {n n' : Node α} (h : incomingSethlmac cfg env sender timestamp addr n = some n') :
    n'.standing = n.standing.offer cfg sender timestamp addr := by
  have haccepts : acceptsSethlmac n timestamp addr = n.standing.accepts timestamp addr := rfl
  have key : ∀ m, (if acceptsSethlmac n timestamp addr = true then
      takeSethlmac cfg env sender timestamp addr n else leaveSethlmac cfg env n) = some m →
      m.standing = n.standing.offer cfg sender timestamp addr := by
    intro m hm
    rw [Standing.offer, ← haccepts]
    split at hm
    · rw [if_pos ‹_›]
      exact standing_takeSethlmac cfg env hm
    · rw [if_neg ‹_›]
      exact standing_leaveSethlmac cfg env hm
  unfold incomingSethlmac settleSethlmac at h
  dsimp only at h
  split at h
  · obtain ⟨m, hm, rfl⟩ := Option.map_eq_some_iff.1 h
    rw [standing_convergenceTest]
    exact key m hm
  · exact key n' h

/-! ## One event -/

theorem standing_iotoriiOperation {sender : α} {message : Payload α} {n n' : Node α}
    (h : iotoriiOperation cfg env sender message n = some n') :
    n'.standing = n.standing.receive cfg sender message := by
  cases message with
  | hello =>
      obtain rfl := Option.some.inj h
      exact standing_iotoriiHandleIncomingHello sender n
  | load load =>
      obtain rfl := Option.some.inj h
      exact standing_incomingLoad cfg sender load n
  | share extra => exact standing_incomingShare cfg h
  | sethlmac timestamp hlmacPrefix assigned =>
      simp only [iotoriiOperation] at h
      simp only [Standing.receive]
      split at h
      · rw [if_pos ‹_›, Option.some.inj h]
      · rw [if_neg ‹_›]
        exact standing_incomingSethlmac cfg env h

theorem standing_expire {t : Timer} {n n' : Node α} (h : n.expire cfg env t = some n') :
    n'.standing = n.standing.step cfg (.timer t) := by
  cases t with
  | hello =>
      simp only [Node.expire, Option.ite_none_right_eq_some, Option.some.injEq] at h
      obtain ⟨-, rfl⟩ := h
      exact standing_iotoriiHandleHelloTimer cfg env rfl
  | sethlmac =>
      simp only [Node.expire, Option.ite_none_right_eq_some] at h
      have hstep := standing_iotoriiHandleSethlmacTimer cfg env h.2
      exact hstep
  | sendMessage csma =>
      simp only [Node.expire, Option.ite_none_right_eq_some] at h
      exact standing_iotoriiHandleSendMessageTimer cfg h.2
  | statistic =>
      simp only [Node.expire, Option.ite_none_right_eq_some] at h
      have hstep := standing_iotoriiHandleStatisticTimer cfg h.2
      exact hstep

/-- Every event takes the standing of the node to the next standing. -/
theorem standing_step {e : Event α} {n n' : Node α} (h : Node.step cfg env e n = some n') :
    n'.standing = n.standing.step cfg e := by
  cases e with
  | timer t => exact standing_expire cfg env h
  | receive sender message round =>
      simp only [Node.step] at h
      simp only [Standing.step]
      split at h
      · rw [if_pos ‹_›, Option.some.inj h]
      · rw [if_neg ‹_›]
        have hstep := standing_iotoriiOperation cfg env h
        exact hstep

/-- A timer goes off only where it is armed. -/
theorem enabled_of_step {e : Event α} {n n' : Node α} (h : Node.step cfg env e n = some n') :
    n.standing.Enabled e := by
  constructor
  · rintro rfl
    simp only [Node.step, Node.expire, Option.ite_none_right_eq_some] at h
    exact h.1
  · rintro rfl
    simp only [Node.step, Node.expire, Option.ite_none_right_eq_some] at h
    exact h.1

end Den2ne
