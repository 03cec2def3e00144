import Den2ne.Node.Outgoing

/-!
# What a handler sends

A handler of the node changes what the node sends in few ways: it queues the
adverts of an address, it sends LOADs and SHAREs upwards, or it hands a Hello
to the MAC. A relation between the node before and after that holds of each of
these, of every change to other fields, and of two changes in a row (an
`Outgrowth`) then holds of every event but the expiry of the send timer, which
takes entries off the queue. The handlers that advertise nothing need less, an
`Upgrowth`.
-/

namespace Den2ne

variable {α : Type*} [DecidableEq α] (cfg : Config α)

/-- A LOAD or a SHARE. -/
def Payload.Upward : Payload α → Prop
  | .load _ => True
  | .share _ => True
  | _ => False

/-- The two nodes have the same to send, and in the unicast build the same
statistic timer. -/
structure Node.SameOut (n n' : Node α) : Prop where
  queue : n'.payloadEntryList = n.payloadEntryList
  mac : n'.macOut = n.macOut
  timer : n'.sendSethlmacTimer = n.sendSethlmacTimer
  statistic : cfg.hlmacCast = .unicast → n'.statisticTimer = n.statisticTimer

/-- A relation that holds of each of the ways in which handlers send, but for the
adverts of an address. -/
structure Upgrowth (R : Node α → Node α → Prop) : Prop where
  of_same : ∀ {n n'}, n.SameOut cfg n' → R n n'
  trans : ∀ {n m n'}, R n m → R m n' → R n n'
  send : ∀ {n} {es : List (PayloadEntry α)}, (∀ e ∈ es, e.payload.Upward) → R n (n.send cfg es)
  hello : ∀ n, R n (n.preparePackets [⟨.hello, cfg.linkaddrNull, n.round cfg⟩])

/-- A relation that holds of each of the ways in which handlers send. -/
structure Outgrowth (R : Node α → Node α → Prop) : Prop where
  of_same : ∀ {n n'}, n.SameOut cfg n' → R n n'
  trans : ∀ {n m n'}, R n m → R m n' → R n n'
  send : ∀ {n} {es : List (PayloadEntry α)}, (∀ e ∈ es, e.payload.Upward) → R n (n.send cfg es)
  advertise : ∀ n {t addr sender timestamp} {es : List (PayloadEntry α)},
    (∀ e ∈ es, Advert cfg t addr sender timestamp e) → R n (es.foldl Node.enqueue n)
  hello : ∀ n, R n (n.preparePackets [⟨.hello, cfg.linkaddrNull, n.round cfg⟩])

variable {cfg} {R : Node α → Node α → Prop} {n n' : Node α}

namespace Upgrowth

section

omit [DecidableEq α]

/-- A change to other fields. -/
theorem of_eq (hR : Upgrowth cfg R) (hqueue : n'.payloadEntryList = n.payloadEntryList)
    (hmac : n'.macOut = n.macOut) (htimer : n'.sendSethlmacTimer = n.sendSethlmacTimer)
    (hstatistic : n'.statisticTimer = n.statisticTimer) : R n n' :=
  hR.of_same ⟨hqueue, hmac, htimer, fun _ => hstatistic⟩

theorem refl (hR : Upgrowth cfg R) (n : Node α) : R n n := hR.of_eq rfl rfl rfl rfl

/-- Other fields may differ before the change. -/
theorem of_start (hR : Upgrowth cfg R) {m : Node α} (h : R m n')
    (hqueue : m.payloadEntryList = n.payloadEntryList) (hmac : m.macOut = n.macOut)
    (htimer : m.sendSethlmacTimer = n.sendSethlmacTimer)
    (hstatistic : m.statisticTimer = n.statisticTimer) : R n n' :=
  hR.trans (hR.of_eq hqueue hmac htimer hstatistic) h

/-- Other fields may differ after the change. -/
theorem of_end (hR : Upgrowth cfg R) {m : Node α} (h : R n m)
    (hqueue : n'.payloadEntryList = m.payloadEntryList) (hmac : n'.macOut = m.macOut)
    (htimer : n'.sendSethlmacTimer = m.sendSethlmacTimer)
    (hstatistic : n'.statisticTimer = m.statisticTimer) : R n n' :=
  hR.trans h (hR.of_eq hqueue hmac htimer hstatistic)

end

/-! ## The handlers that advertise nothing -/

section

omit [DecidableEq α]

theorem loadTimer (hR : Upgrowth cfg R) : R n (iotoriiHandleLoadTimer cfg n) := by
  rw [iotoriiHandleLoadTimer_eq]
  refine hR.of_start (hR.send ?_) rfl rfl rfl rfl
  intro e he
  unfold loadEntries at he
  split at he
  · cases he
  · obtain ⟨parent, -, rfl⟩ := List.mem_map.1 he
    trivial

theorem shareUpstreamTimer (hR : Upgrowth cfg R) {junk : α}
    (h : iotoriiHandleShareUpstreamTimer cfg junk n = some n') : R n n' := by
  rw [iotoriiHandleShareUpstreamTimer_eq] at h
  split at h
  · cases h
  · obtain rfl := Option.some.inj h
    refine hR.of_start (hR.send ?_) rfl rfl rfl rfl
    intro e he
    obtain ⟨parent, -, rfl⟩ := List.mem_map.1 he
    trivial

theorem sendLoadAndShare (hR : Upgrowth cfg R) {junk : α}
    (h : sendLoadAndShare cfg junk n = some n') :
    R n n' := by
  obtain ⟨m, hm, rfl⟩ := Option.map_eq_some_iff.1 h
  exact hR.of_end (hR.trans hR.loadTimer (hR.shareUpstreamTimer hm)) rfl rfl rfl rfl

theorem sendLoadWhenDone (hR : Upgrowth cfg R) : R n (sendLoadWhenDone cfg n) := by
  unfold Den2ne.sendLoadWhenDone
  split
  · exact hR.of_end hR.loadTimer rfl rfl rfl rfl
  · exact hR.refl n

theorem sendShareWhenDone (hR : Upgrowth cfg R) {junk : α}
    (h : sendShareWhenDone cfg junk n = some n') :
    R n n' := by
  unfold Den2ne.sendShareWhenDone at h
  split at h
  · obtain ⟨m, hm, rfl⟩ := Option.map_eq_some_iff.1 h
    exact hR.of_end (hR.shareUpstreamTimer hm) rfl rfl rfl rfl
  · obtain rfl := Option.some.inj h
    exact hR.refl n

theorem sendWhenDone (hR : Upgrowth cfg R) {junk : α}
    (h : sendWhenDone cfg junk n = some n') : R n n' :=
  hR.trans hR.sendLoadWhenDone (hR.sendShareWhenDone h)

theorem becomeEdge (hR : Upgrowth cfg R) {junk : α}
    (h : becomeEdge cfg junk n = some n') : R n n' := by
  unfold Den2ne.becomeEdge at h
  split at h
  · exact hR.of_start (hR.sendLoadAndShare h) rfl rfl rfl rfl
  · obtain rfl := Option.some.inj h
    exact hR.refl n

theorem statisticTimer (hR : Upgrowth cfg R) {junk : α}
    (h : iotoriiHandleStatisticTimer cfg junk n = some n') :
    R n n' := by
  unfold iotoriiHandleStatisticTimer at h
  split at h
  · obtain rfl := Option.some.inj h
    exact hR.refl n
  · dsimp only at h
    split at h
    · obtain rfl := Option.some.inj h
      exact hR.of_eq rfl rfl rfl rfl
    · split at h
      · exact hR.of_start (hR.sendLoadAndShare h) rfl rfl rfl rfl
      · obtain rfl := Option.some.inj h
        exact hR.of_eq rfl rfl rfl rfl

end

theorem incomingLoad (hR : Upgrowth cfg R) {sender : α} {load : ℤ} :
    R n (incomingLoad cfg sender load n) := by
  unfold Den2ne.incomingLoad
  split
  · exact hR.refl n
  · dsimp only
    split
    · split <;> exact hR.of_eq rfl rfl rfl rfl
    · refine hR.trans ?_ hR.sendLoadWhenDone
      split <;> exact hR.of_eq rfl rfl rfl rfl

omit [DecidableEq α] in
theorem takeShare (hR : Upgrowth cfg R) {junk : α} {extra : ℤ}
    (h : takeShare cfg junk extra n = some n') :
    R n n' := by
  unfold Den2ne.takeShare at h
  split at h
  · cases h
  · dsimp only at h
    split at h
    · obtain rfl := Option.some.inj h
      exact hR.of_eq rfl rfl rfl rfl
    · split at h
      · obtain ⟨m, hm, rfl⟩ := Option.map_eq_some_iff.1 h
        have hgrow : R n m := hR.of_start (hR.shareUpstreamTimer hm) rfl rfl rfl rfl
        exact hR.of_end hgrow rfl rfl rfl rfl
      · obtain rfl := Option.some.inj h
        exact hR.of_eq rfl rfl rfl rfl

theorem incomingShare (hR : Upgrowth cfg R) {junk : α} {sender : α} {extra : ℤ}
    (h : incomingShare cfg junk sender extra n = some n') : R n n' := by
  unfold Den2ne.incomingShare at h
  split at h
  · obtain rfl := Option.some.inj h
    exact hR.refl n
  · obtain ⟨m, hm, rfl⟩ := Option.map_eq_some_iff.1 h
    have hgrow : R n m := by
      split at hm
      · exact hR.takeShare hm
      · obtain rfl := Option.some.inj hm
        exact hR.refl n
    exact hR.of_end hgrow rfl rfl rfl rfl

theorem incomingHello (hR : Upgrowth cfg R) {sender : α}
    : R n (iotoriiHandleIncomingHello sender n) := by
  unfold iotoriiHandleIncomingHello
  split
  · split <;> exact hR.of_eq rfl rfl rfl rfl
  · exact hR.refl n

omit [DecidableEq α] in
theorem storeAddress (hR : Upgrowth cfg R) {sender : α} {timestamp : ℕ} {addr : HlmacAddr} :
    R n (storeAddress cfg sender timestamp addr n).2 := by
  unfold Den2ne.storeAddress adoptAddress enterRound
  dsimp only
  split
  · split
    · split <;> exact hR.of_eq rfl rfl rfl rfl
    · exact hR.of_eq rfl rfl rfl rfl
  · exact hR.of_eq rfl rfl rfl rfl

theorem helloTimer (hR : Upgrowth cfg R) {env : Env α} :
    R n (iotoriiHandleHelloTimer cfg env n) := by
  unfold iotoriiHandleHelloTimer iotoriiCheckNeighboursHello
  dsimp only
  split
  · split <;> exact hR.of_eq rfl rfl rfl rfl
  · split <;> exact hR.of_end (hR.hello n) rfl rfl rfl rfl

omit [DecidableEq α] in
theorem leaveSethlmac (hR : Upgrowth cfg R) {env : Env α}
    (h : leaveSethlmac cfg env n = some n') : R n n' := by
  unfold Den2ne.leaveSethlmac at h
  split at h
  · obtain rfl := Option.some.inj h
    exact hR.refl n
  · exact hR.of_start (hR.sendWhenDone h) rfl rfl rfl rfl

end Upgrowth

/-! ## The handlers that advertise -/

namespace Outgrowth

omit [DecidableEq α] in
theorem upgrowth (hR : Outgrowth cfg R) : Upgrowth cfg R :=
  ⟨hR.of_same, hR.trans, hR.send, hR.hello⟩

theorem sendSethlmac (hR : Outgrowth cfg R) {env : Env α} {addr : HlmacAddr} {sender : α}
    {timestamp : ℕ} (h : iotoriiSendSethlmac cfg env addr sender timestamp n = some n') :
    R n n' := by
  obtain ⟨es, drawn, rfl, hadvert⟩ := iotoriiSendSethlmac_eq_some cfg h
  have hqueued := hR.advertise n hadvert
  rw [Node.foldl_enqueue] at hqueued
  refine hR.trans hqueued ?_
  unfold armStatistic
  cases hcast : cfg.hlmacCast with
  | broadcast =>
      refine hR.of_same ⟨rfl, rfl, rfl, fun hunicast => ?_⟩
      rw [hcast] at hunicast
      cases hunicast
  | unicast => exact hR.upgrowth.of_eq rfl rfl rfl rfl

theorem takeSethlmac (hR : Outgrowth cfg R) {env : Env α} {sender : α} {timestamp : ℕ}
    {addr : HlmacAddr}
    (h : takeSethlmac cfg env sender timestamp addr n = some n') : R n n' := by
  have hstore : R n (Den2ne.storeAddress cfg sender timestamp addr n).2 := hR.upgrowth.storeAddress
  unfold Den2ne.takeSethlmac at h
  generalize Den2ne.storeAddress cfg sender timestamp addr n = stored at h hstore
  obtain ⟨isAdded, m⟩ := stored
  dsimp only at h hstore
  have hpassed : ∀ m', (if isAdded = true then iotoriiSendSethlmac cfg env addr sender timestamp m
      else some m) = some m' → R n m' := by
    intro m' hm'
    split at hm'
    · exact hR.trans hstore (hR.sendSethlmac hm')
    · obtain rfl := Option.some.inj hm'
      exact hstore
  split at h
  · obtain ⟨m', hm', rfl⟩ := Option.map_eq_some_iff.1 h
    exact hR.upgrowth.of_end (hpassed m' hm') rfl rfl rfl rfl
  · obtain ⟨m', hm', h⟩ := Option.bind_eq_some_iff.1 h
    obtain ⟨m'', hm'', h⟩ := Option.bind_eq_some_iff.1 h
    have hmark : R n (countDown (markSender sender isAdded m')) :=
      hR.upgrowth.of_end (hpassed m' hm') rfl rfl rfl rfl
    exact hR.trans (hR.trans hmark (hR.upgrowth.becomeEdge hm'')) (hR.upgrowth.sendWhenDone h)

theorem incomingSethlmac (hR : Outgrowth cfg R) {env : Env α} {sender : α} {timestamp : ℕ}
    {addr : HlmacAddr}
    (h : incomingSethlmac cfg env sender timestamp addr n = some n') : R n n' := by
  have key : ∀ m, (if acceptsSethlmac n timestamp addr = true then
      Den2ne.takeSethlmac cfg env sender timestamp addr n else leaveSethlmac cfg env n) = some m →
      R n m := by
    intro m hm
    split at hm
    · exact hR.takeSethlmac hm
    · exact hR.upgrowth.leaveSethlmac hm
  unfold Den2ne.incomingSethlmac settleSethlmac at h
  dsimp only at h
  split at h
  · obtain ⟨m, hm, rfl⟩ := Option.map_eq_some_iff.1 h
    exact hR.upgrowth.of_end (key m hm) rfl rfl rfl rfl
  · exact key n' h

theorem sethlmacTimer (hR : Outgrowth cfg R) {env : Env α}
    (h : iotoriiHandleSethlmacTimer cfg env n = some n') : R n n' := by
  obtain ⟨m, hm, rfl⟩ := Option.map_eq_some_iff.1 h
  have hstore : R n (storeRootAddress cfg n) := hR.upgrowth.of_eq rfl rfl rfl rfl
  refine hR.trans (hR.trans hstore (hR.sendSethlmac hm)) ?_
  unfold resetRoot
  dsimp only
  cases hcast : cfg.hlmacCast with
  | broadcast =>
      refine hR.of_same ⟨rfl, rfl, rfl, fun hunicast => ?_⟩
      rw [hcast] at hunicast
      cases hunicast
  | unicast => exact hR.upgrowth.of_eq rfl rfl rfl rfl

/-- Every event but the expiry of the send timer; `hstart` says that the
relation allows for the statistic timer to go off. -/
theorem step (hR : Outgrowth cfg R) {env : Env α} {e : Event α}
    (he : ∀ csma, e ≠ .timer (.sendMessage csma)) (h : Node.step cfg env e n = some n')
    (hstart : R n { n with statisticTimer := false }) : R n n' := by
  cases e with
  | timer t =>
      cases t with
      | hello =>
          simp only [Node.step, Node.expire, Option.ite_none_right_eq_some,
            Option.some.injEq] at h
          obtain ⟨-, rfl⟩ := h
          exact hR.upgrowth.of_start hR.upgrowth.helloTimer rfl rfl rfl rfl
      | sethlmac =>
          simp only [Node.step, Node.expire, Option.ite_none_right_eq_some] at h
          exact hR.upgrowth.of_start (hR.sethlmacTimer h.2) rfl rfl rfl rfl
      | sendMessage csma => exact absurd rfl (he csma)
      | statistic =>
          simp only [Node.step, Node.expire, Option.ite_none_right_eq_some] at h
          exact hR.trans hstart (hR.upgrowth.statisticTimer h.2)
  | receive sender message r =>
      simp only [Node.step] at h
      split at h
      · obtain rfl := Option.some.inj h
        exact hR.upgrowth.refl n
      · suffices hgrow : R { n with history := { n.history with
            received := (sender, message, r) :: n.history.received } } n' from
          hR.upgrowth.of_start hgrow rfl rfl rfl rfl
        cases message with
        | hello =>
            obtain rfl := Option.some.inj h
            exact hR.upgrowth.incomingHello
        | load load =>
            obtain rfl := Option.some.inj h
            exact hR.upgrowth.incomingLoad
        | share extra => exact hR.upgrowth.incomingShare h
        | sethlmac ts hlmacPrefix assigned =>
            simp only [iotoriiOperation] at h
            split at h
            · obtain rfl := Option.some.inj h
              exact hR.upgrowth.refl _
            · exact hR.incomingSethlmac h

end Outgrowth

end Den2ne
