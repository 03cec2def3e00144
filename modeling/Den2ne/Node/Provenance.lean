import Den2ne.Node.Outgoing
import Den2ne.Node.StandingStep

/-!
# Where a SetHLMAC comes from

A node queues a SetHLMAC only when it stores an address: `offers_step` says
that a SetHLMAC that a node has ready after an event was ready before it, or
advertises, under the round it belongs to, the very address that the event made
the node store, to neighbours other than the one the address came from.
-/

namespace Den2ne

variable {α : Type*} [DecidableEq α] (cfg : Config α) (env : Env α)

/-- The node has a SetHLMAC ready, made in round `round`. -/
def Node.Offers (n : Node α) (timestamp : ℕ) (hlmacPrefix : List UInt8)
    (assigned : List (UInt8 × α)) (round : ℕ) : Prop :=
  ∃ e ∈ n.outgoing, e.payload = .sethlmac timestamp hlmacPrefix assigned ∧ e.round = round

/-- The ids and addresses of the neighbours. -/
def Standing.ids (s : Standing α) : List (UInt8 × α) := s.marks.map fun m => (m.numberId, m.addr)

/-- The SetHLMAC advertises `addr`, which came from `sender`, to neighbours
out of `ids`. -/
structure Issued (ids : List (UInt8 × α)) (addr : HlmacAddr) (sender : α) (timestamp : ℕ)
    (hlmacPrefix : List UInt8) (assigned : List (UInt8 × α)) (round : ℕ) : Prop where
  round : round = timestamp
  len_le : addr.len.toNat ≤ 123
  prefix_eq : hlmacPrefix = addr.ids
  assigned : ∀ x ∈ assigned, x ∈ ids ∧ x.2 ≠ sender

variable {cfg} {env} {n n' : Node α} {timestamp : ℕ} {hlmacPrefix : List UInt8}
  {assigned : List (UInt8 × α)} {round : ℕ}

/-! ## Handlers that issue no SetHLMAC -/

section

omit [DecidableEq α]

theorem offers_of_outgoing {es : List (PayloadEntry α)} (hperm : n'.outgoing.Perm (n.outgoing ++ es))
    (hes : ∀ e ∈ es, e.payload ≠ .sethlmac timestamp hlmacPrefix assigned)
    (h : n'.Offers timestamp hlmacPrefix assigned round) :
    n.Offers timestamp hlmacPrefix assigned round := by
  obtain ⟨e, he, hpayload, hround⟩ := h
  rcases List.mem_append.1 (hperm.subset he) with he | he
  · exact ⟨e, he, hpayload, hround⟩
  · exact absurd hpayload (hes e he)

theorem offers_iotoriiHandleLoadTimer
    (h : (iotoriiHandleLoadTimer cfg n).Offers timestamp hlmacPrefix assigned round) :
    n.Offers timestamp hlmacPrefix assigned round := by
  rw [iotoriiHandleLoadTimer_eq] at h
  have hsent := offers_of_outgoing (Node.outgoing_send cfg _ _) ?_ h
  · exact hsent
  · intro e he
    unfold loadEntries at he
    split at he
    · cases he
    · obtain ⟨parent, -, rfl⟩ := List.mem_map.1 he
      exact nofun

theorem offers_iotoriiHandleShareUpstreamTimer {junk : α}
    (hn : iotoriiHandleShareUpstreamTimer cfg junk n = some n')
    (h : n'.Offers timestamp hlmacPrefix assigned round) :
    n.Offers timestamp hlmacPrefix assigned round := by
  rw [iotoriiHandleShareUpstreamTimer_eq] at hn
  split at hn
  · cases hn
  · obtain rfl := Option.some.inj hn
    have hsent := offers_of_outgoing (Node.outgoing_send cfg _ _) ?_ h
    · exact hsent
    · intro e he
      obtain ⟨parent, -, rfl⟩ := List.mem_map.1 he
      exact nofun

theorem offers_sendLoadAndShare {junk : α} (hn : sendLoadAndShare cfg junk n = some n')
    (h : n'.Offers timestamp hlmacPrefix assigned round) :
    n.Offers timestamp hlmacPrefix assigned round := by
  obtain ⟨m, hm, rfl⟩ := Option.map_eq_some_iff.1 hn
  exact offers_iotoriiHandleLoadTimer (offers_iotoriiHandleShareUpstreamTimer hm h)

theorem offers_sendLoadWhenDone
    (h : (sendLoadWhenDone cfg n).Offers timestamp hlmacPrefix assigned round) :
    n.Offers timestamp hlmacPrefix assigned round := by
  unfold sendLoadWhenDone at h
  split at h
  · exact offers_iotoriiHandleLoadTimer h
  · exact h

theorem offers_sendShareWhenDone {junk : α} (hn : sendShareWhenDone cfg junk n = some n')
    (h : n'.Offers timestamp hlmacPrefix assigned round) :
    n.Offers timestamp hlmacPrefix assigned round := by
  unfold sendShareWhenDone at hn
  split at hn
  · obtain ⟨m, hm, rfl⟩ := Option.map_eq_some_iff.1 hn
    exact offers_iotoriiHandleShareUpstreamTimer hm h
  · obtain rfl := Option.some.inj hn
    exact h

theorem offers_sendWhenDone {junk : α} (hn : sendWhenDone cfg junk n = some n')
    (h : n'.Offers timestamp hlmacPrefix assigned round) :
    n.Offers timestamp hlmacPrefix assigned round :=
  offers_sendLoadWhenDone (offers_sendShareWhenDone hn h)

theorem offers_becomeEdge {junk : α} (hn : becomeEdge cfg junk n = some n')
    (h : n'.Offers timestamp hlmacPrefix assigned round) :
    n.Offers timestamp hlmacPrefix assigned round := by
  unfold becomeEdge at hn
  split at hn
  · have hsent := offers_sendLoadAndShare hn h
    exact hsent
  · obtain rfl := Option.some.inj hn
    exact h

theorem offers_iotoriiHandleStatisticTimer {junk : α}
    (hn : iotoriiHandleStatisticTimer cfg junk n = some n')
    (h : n'.Offers timestamp hlmacPrefix assigned round) :
    n.Offers timestamp hlmacPrefix assigned round := by
  unfold iotoriiHandleStatisticTimer at hn
  split at hn
  · obtain rfl := Option.some.inj hn
    exact h
  · dsimp only at hn
    split at hn
    · obtain rfl := Option.some.inj hn
      exact h
    · split at hn
      · have hsent := offers_sendLoadAndShare hn h
        exact hsent
      · obtain rfl := Option.some.inj hn
        exact h

/-- The send timer moves the first entry of the queue to the MAC, keeps it, or
drops it; only its destination may change. -/
theorem offers_iotoriiHandleSendMessageTimer {csma : CsmaOutcome}
    (hn : iotoriiHandleSendMessageTimer cfg csma n = some n')
    (h : n'.Offers timestamp hlmacPrefix assigned round) :
    n.Offers timestamp hlmacPrefix assigned round := by
  obtain ⟨e, he, hpayload, hround⟩ := h
  unfold iotoriiHandleSendMessageTimer at hn
  split at hn
  · cases hn
  · rename_i entry rest hqueue
    have hmem : e ∈ entry :: rest ∨ e ∈ n.macOut ∨ e = { entry with dest := cfg.linkaddrNull } := by
      rw [Node.outgoing] at he
      split at hn
      · obtain rfl := Option.some.inj hn
        dsimp only at he
        split at he <;>
        · simp only [List.mem_append, List.mem_cons, List.not_mem_nil, or_false] at he ⊢
          tauto
      · split at hn <;>
        · obtain rfl := Option.some.inj hn
          simp only [List.mem_append, List.mem_cons, List.not_mem_nil, or_false,
            hqueue] at he ⊢
          tauto
    rw [Node.Offers, Node.outgoing, hqueue]
    rcases hmem with hmem | hmem | rfl
    · exact ⟨e, List.mem_append_left _ hmem, hpayload, hround⟩
    · exact ⟨e, List.mem_append_right _ hmem, hpayload, hround⟩
    · exact ⟨entry, List.mem_append_left _ List.mem_cons_self, hpayload, hround⟩

end

theorem offers_incomingLoad {sender : α} {load : ℤ}
    (h : (incomingLoad cfg sender load n).Offers timestamp hlmacPrefix assigned round) :
    n.Offers timestamp hlmacPrefix assigned round := by
  unfold incomingLoad at h
  split at h
  · exact h
  · dsimp only at h
    split at h
    · split at h <;> exact h
    · have hsent := offers_sendLoadWhenDone h
      split at hsent <;> exact hsent

theorem offers_incomingShare {junk : α} {sender : α} {extra : ℤ}
    (hn : incomingShare cfg junk sender extra n = some n')
    (h : n'.Offers timestamp hlmacPrefix assigned round) :
    n.Offers timestamp hlmacPrefix assigned round := by
  unfold incomingShare at hn
  split at hn
  · obtain rfl := Option.some.inj hn
    exact h
  · obtain ⟨m, hm, rfl⟩ := Option.map_eq_some_iff.1 hn
    split at hm
    · unfold takeShare at hm
      split at hm
      · cases hm
      · dsimp only at hm
        split at hm
        · obtain rfl := Option.some.inj hm
          exact h
        · split at hm
          · obtain ⟨m', hm', rfl⟩ := Option.map_eq_some_iff.1 hm
            have hsent := offers_iotoriiHandleShareUpstreamTimer hm' h
            exact hsent
          · obtain rfl := Option.some.inj hm
            exact h
    · obtain rfl := Option.some.inj hm
      exact h

theorem offers_iotoriiHandleIncomingHello {sender : α}
    (h : (iotoriiHandleIncomingHello sender n).Offers timestamp hlmacPrefix assigned round) :
    n.Offers timestamp hlmacPrefix assigned round := by
  unfold iotoriiHandleIncomingHello at h
  split at h
  · split at h <;> exact h
  · exact h

theorem offers_iotoriiHandleHelloTimer
    (h : (iotoriiHandleHelloTimer cfg env n).Offers timestamp hlmacPrefix assigned round) :
    n.Offers timestamp hlmacPrefix assigned round := by
  obtain ⟨e, he, hpayload, hround⟩ := h
  have hmem : e ∈ n.outgoing ∨ e.payload = .hello := by
    unfold iotoriiHandleHelloTimer iotoriiCheckNeighboursHello Node.preparePackets at he
    dsimp only [Node.outgoing] at he
    split at he <;> split at he <;>
    · simp only [List.mem_append, List.mem_cons, List.not_mem_nil, or_false] at he
      rw [Node.outgoing, List.mem_append]
      first
        | exact .inl he
        | rcases he with he | he | rfl
          · exact .inl (.inl he)
          · exact .inl (.inr he)
          · exact .inr rfl
  rcases hmem with hmem | hhello
  · exact ⟨e, hmem, hpayload, hround⟩
  · rw [hhello] at hpayload
    cases hpayload

/-! ## Handlers that issue a SetHLMAC -/

theorem offers_iotoriiSendSethlmac {addr : HlmacAddr} {sender : α} {ts : ℕ}
    (hn : iotoriiSendSethlmac cfg env addr sender ts n = some n')
    (h : n'.Offers timestamp hlmacPrefix assigned round) :
    n.Offers timestamp hlmacPrefix assigned round ∨
      timestamp = ts ∧
        Issued n.standing.ids addr sender timestamp hlmacPrefix assigned round := by
  obtain ⟨es, drawn, rfl, hadvert⟩ := iotoriiSendSethlmac_eq_some cfg hn
  obtain ⟨e, he, hpayload, hround⟩ := h
  have hmem : e ∈ n.outgoing ∨ e ∈ es := by
    unfold armStatistic at he
    rw [Node.outgoing, List.mem_append]
    split at he <;>
    · simp only [Node.outgoing, List.mem_append] at he
      tauto
  rcases hmem with hmem | hmem
  · exact .inl ⟨e, hmem, hpayload, hround⟩
  · right
    obtain ⟨hr, hlen, -, -, assigned', hp, hassigned⟩ := hadvert e hmem
    rw [hpayload, Payload.sethlmac.injEq] at hp
    obtain ⟨rfl, rfl, rfl⟩ := hp
    refine ⟨rfl, hround.symm.trans hr, hlen, rfl, ?_⟩
    intro x hx
    obtain ⟨nb, hnb, hne, rfl⟩ := hassigned x hx
    refine ⟨?_, hne⟩
    exact List.mem_map.2 ⟨nb.mark, List.mem_map_of_mem hnb, rfl⟩

section

omit [DecidableEq α]

theorem ids_unmark (s : Standing α) : s.unmark.ids = s.ids := by
  rw [Standing.ids, Standing.ids, Standing.unmark, List.map_map]
  rfl

theorem ids_store (cfg : Config α) (s : Standing α) (sender : α) (ts : ℕ) (addr : HlmacAddr) :
    (s.store cfg sender ts addr).2.ids = s.ids := by
  unfold Standing.store Standing.adopt
  dsimp only
  split
  · split
    · exact ids_unmark s
    · rfl
  · rfl

end

/-- A SetHLMAC that a node has ready after taking one was ready before, or
advertises the address that was stored. -/
theorem offers_takeSethlmac {sender : α} {ts : ℕ} {addr : HlmacAddr}
    (hn : takeSethlmac cfg env sender ts addr n = some n')
    (h : n'.Offers timestamp hlmacPrefix assigned round) :
    n.Offers timestamp hlmacPrefix assigned round ∨
      ((n.standing.store cfg sender ts addr).1 = true ∧ timestamp = ts ∧
        Issued n.standing.ids addr sender timestamp hlmacPrefix assigned round) := by
  have hids := ids_store cfg n.standing sender ts addr
  rw [← fst_storeAddress]
  rw [← standing_storeAddress] at hids
  have hkeep : (storeAddress cfg sender ts addr n).2.Offers timestamp hlmacPrefix assigned round →
      n.Offers timestamp hlmacPrefix assigned round := by
    intro ho
    unfold storeAddress adoptAddress enterRound at ho
    dsimp only at ho
    split at ho
    · split at ho
      · split at ho <;> exact ho
      · exact ho
    · exact ho
  unfold takeSethlmac at hn
  generalize storeAddress cfg sender ts addr n = stored at hn hids hkeep ⊢
  obtain ⟨isAdded, m⟩ := stored
  dsimp only at hn hids hkeep ⊢
  have hpassed : ∀ m', (if isAdded = true then iotoriiSendSethlmac cfg env addr sender ts m
      else some m) = some m' → m'.Offers timestamp hlmacPrefix assigned round →
      n.Offers timestamp hlmacPrefix assigned round ∨ (isAdded = true ∧ timestamp = ts ∧
        Issued n.standing.ids addr sender timestamp hlmacPrefix assigned round) := by
    intro m' hm' ho
    split at hm'
    · rename_i hadded
      rcases offers_iotoriiSendSethlmac hm' ho with ho | ⟨rfl, hissued⟩
      · exact .inl (hkeep ho)
      · exact .inr ⟨hadded, rfl, hids ▸ hissued⟩
    · obtain rfl := Option.some.inj hm'
      exact .inl (hkeep ho)
  split at hn
  · obtain ⟨m', hm', rfl⟩ := Option.map_eq_some_iff.1 hn
    exact hpassed m' hm' h
  · obtain ⟨m', hm', hn⟩ := Option.bind_eq_some_iff.1 hn
    obtain ⟨m'', hm'', hn⟩ := Option.bind_eq_some_iff.1 hn
    have hedge := offers_becomeEdge hm'' (offers_sendWhenDone hn h)
    exact hpassed m' hm' hedge

omit [DecidableEq α] in
theorem offers_leaveSethlmac (hn : leaveSethlmac cfg env n = some n')
    (h : n'.Offers timestamp hlmacPrefix assigned round) :
    n.Offers timestamp hlmacPrefix assigned round := by
  unfold leaveSethlmac at hn
  split at hn
  · obtain rfl := Option.some.inj hn
    exact h
  · have hsent := offers_sendWhenDone hn h
    exact hsent

/-! ## One event -/

/-- The address that a SetHLMAC offers to `self` is its prefix and the id that
it assigns to `self`. -/
theorem iotoriiExtractAddress_spec {self : α} {timestamp : ℕ} {hlmacPrefix : List UInt8}
    {assigned : List (UInt8 × α)}
    (h : hlmacIsUnspecifiedAddr
      (iotoriiExtractAddress self (.sethlmac timestamp hlmacPrefix assigned)) = false) :
    ∃ id, (id, self) ∈ assigned ∧
      iotoriiExtractAddress self (.sethlmac timestamp hlmacPrefix assigned) =
        hlmacAddNewId (HlmacAddr.ofIds hlmacPrefix) id := by
  simp only [iotoriiExtractAddress] at h ⊢
  cases hfind : assigned.find? (·.2 = self) with
  | none =>
      rw [hfind] at h
      cases h
  | some x =>
      obtain ⟨id, mac⟩ := x
      have hmac : mac = self := by simpa using List.find?_some hfind
      exact ⟨id, hmac ▸ List.mem_of_find?_eq_some hfind, rfl⟩

/-- A SetHLMAC that the node stores an address from: another node's, it names
this one, and passes the guard. -/
structure Takes (cfg : Config α) (s : Standing α) (sender : α) (message : Payload α)
    (timestamp : ℕ) (addr : HlmacAddr) : Prop where
  sender_ne : sender ≠ cfg.linkaddrNodeAddr
  message_eq : ∃ hlmacPrefix assigned, message = .sethlmac timestamp hlmacPrefix assigned
  addr_eq : addr = iotoriiExtractAddress cfg.linkaddrNodeAddr message
  specified : hlmacIsUnspecifiedAddr addr = false
  accepts : s.accepts timestamp addr = true
  stored : (s.store cfg sender timestamp addr).1 = true

omit [DecidableEq α] in
theorem accepted_store {s : Standing α} {sender : α} {ts : ℕ} {addr : HlmacAddr} :
    (s.store cfg sender ts addr).2.accepted =
      if (s.store cfg sender ts addr).1 = true then ⟨sender, ts, addr⟩ :: s.accepted
      else s.accepted := by
  unfold Standing.store Standing.adopt
  dsimp only
  split
  · split <;> rfl
  · rfl

/-- The node stores what it takes. -/
theorem Takes.accepted_step {s : Standing α} {sender : α} {message : Payload α} {ts : ℕ}
    {addr : HlmacAddr} (h : Takes cfg s sender message ts addr) (r : ℕ) :
    (s.step cfg (.receive sender message r)).accepted = ⟨sender, ts, addr⟩ :: s.accepted := by
  obtain ⟨hsender, ⟨hlmacPrefix, assigned, rfl⟩, rfl, hspec, hacc, hstored⟩ := h
  simp only [Standing.step, hsender, if_false, Standing.receive, hspec, Bool.false_eq_true]
  rw [Standing.offer, if_pos hacc]
  exact accepted_store.trans (if_pos hstored)

omit [DecidableEq α] in
theorem hlmacTable_store {s : Standing α} (sender : α) {ts : ℕ} {addr : HlmacAddr} :
    (s.store cfg sender ts addr).2.hlmacTable =
      (hlmactableAdd cfg.hlmacMaxHlmac s.hlmacTable addr ts).2 := by
  unfold Standing.store Standing.adopt
  dsimp only
  split
  · split <;> rfl
  · rfl

/-- An event adds at most one address to those stored: the root's own, in a new
round, or the one a SetHLMAC offers. -/
theorem accepted_step (cfg : Config α) (s : Standing α) (e : Event α) :
    (s.step cfg e).accepted = s.accepted ∨
    (e = .timer .sethlmac ∧ (s.step cfg e).accepted =
      ⟨cfg.linkaddrNodeAddr, nextTimestamp s.timestamp, hlmacCreateRootAddr 1⟩ :: s.accepted) ∨
    ∃ sender message r timestamp addr, e = .receive sender message r ∧
      Takes cfg s sender message timestamp addr ∧
      (s.step cfg e).accepted = ⟨sender, timestamp, addr⟩ :: s.accepted := by
  unfold Standing.step
  split
  · exact .inl rfl
  · by_cases hadd : (hlmactableAdd cfg.hlmacMaxHlmac s.hlmacTable (hlmacCreateRootAddr 1)
        (nextTimestamp s.timestamp)).1 = true
    · exact .inr (.inl ⟨rfl, if_pos hadd⟩)
    · exact .inl (if_neg hadd)
  · exact .inl rfl
  · exact .inl rfl
  · rename_i sender message r
    split
    · exact .inl rfl
    · rename_i hself
      unfold Standing.receive
      split
      · left
        rw [Standing.hello_eq]
      · exact .inl rfl
      · exact .inl rfl
      · rename_i ts hlmacPrefix assigned
        dsimp only
        split
        · exact .inl rfl
        · rename_i hspec
          unfold Standing.offer
          split
          · rename_i hacc
            change (Standing.store cfg sender ts _ s).2.accepted = _ ∨ _
            rw [accepted_store]
            split
            · rename_i hstored
              right
              right
              exact ⟨sender, _, r, ts, _, rfl, ⟨hself, ⟨hlmacPrefix, assigned, rfl⟩, rfl,
                by simpa using hspec, hacc, hstored⟩,
                accepted_store.trans (if_pos hstored)⟩
            · exact .inl rfl
          · exact .inl rfl

/-- An entry of the HLMAC table was there before the event, or the event stored it. -/
theorem table_step {s : Standing α} {e : Event α} {entry : HlmacTableEntry}
    (h : entry ∈ (s.step cfg e).hlmacTable.entries) :
    entry ∈ s.hlmacTable.entries ∨ ∃ r, (s.step cfg e).accepted = r :: s.accepted ∧
      r.timestamp = entry.timestamp ∧ r.address = entry.address := by
  have hstore : ∀ (sender : α) (ts : ℕ) (addr : HlmacAddr),
      entry ∈ (s.store cfg sender ts addr).2.hlmacTable.entries →
      entry ∈ s.hlmacTable.entries ∨ ∃ r, (s.store cfg sender ts addr).2.accepted = r :: s.accepted ∧
        r.timestamp = entry.timestamp ∧ r.address = entry.address := by
    intro sender ts addr hentry
    rw [hlmacTable_store] at hentry
    rcases mem_hlmactableAdd hentry with hentry | ⟨hadd, rfl⟩
    · exact .inl hentry
    · exact .inr ⟨_, accepted_store.trans (if_pos hadd), rfl, rfl⟩
  unfold Standing.step at h ⊢
  split at h
  · exact .inl h
  · rcases mem_hlmactableAdd h with h | ⟨hadd, rfl⟩
    · exact .inl h
    · exact .inr ⟨_, if_pos hadd, rfl, rfl⟩
  · exact .inl h
  · exact .inl h
  · split at h
    · exact .inl h
    · rename_i hself
      rw [if_neg hself]
      unfold Standing.receive at h ⊢
      split at h
      · left
        rw [Standing.hello_eq] at h
        exact h
      · exact .inl h
      · exact .inl h
      · dsimp only at h ⊢
        split at h
        · exact .inl h
        · rename_i hspec
          rw [if_neg hspec]
          unfold Standing.offer at h ⊢
          split at h
          · rename_i hacc
            rw [if_pos hacc]
            exact hstore _ _ _ h
          · exact .inl h

theorem offers_incomingSethlmac {sender : α} {ts : ℕ} {addr : HlmacAddr}
    (hn : incomingSethlmac cfg env sender ts addr n = some n')
    (h : n'.Offers timestamp hlmacPrefix assigned round) :
    n.Offers timestamp hlmacPrefix assigned round ∨
      (n.standing.accepts ts addr = true ∧ (n.standing.store cfg sender ts addr).1 = true ∧
        timestamp = ts ∧
        Issued n.standing.ids addr sender timestamp hlmacPrefix assigned round) := by
  have key : ∀ m, (if acceptsSethlmac n ts addr = true then
      takeSethlmac cfg env sender ts addr n else leaveSethlmac cfg env n) = some m →
      m.Offers timestamp hlmacPrefix assigned round →
      n.Offers timestamp hlmacPrefix assigned round ∨
      (n.standing.accepts ts addr = true ∧ (n.standing.store cfg sender ts addr).1 = true ∧
        timestamp = ts ∧
        Issued n.standing.ids addr sender timestamp hlmacPrefix assigned round) := by
    intro m hm ho
    split at hm
    · rename_i hacc
      rcases offers_takeSethlmac hm ho with ho | hnew
      · exact .inl ho
      · exact .inr ⟨hacc, hnew⟩
    · exact .inl (offers_leaveSethlmac hm ho)
  unfold incomingSethlmac settleSethlmac at hn
  dsimp only at hn
  split at hn
  · obtain ⟨m, hm, rfl⟩ := Option.map_eq_some_iff.1 hn
    exact key m hm h
  · exact key n' hn h

/-- A SetHLMAC that the node has ready after an event was ready before it, or
advertises the address that the event made the node store; only the root could
advertise an address that its table refused. -/
theorem offers_step {e : Event α} (hn : Node.step cfg env e n = some n')
    (h : n'.Offers timestamp hlmacPrefix assigned round) :
    n.Offers timestamp hlmacPrefix assigned round ∨
    ∃ sender addr,
      Issued n.standing.ids addr sender timestamp hlmacPrefix assigned round ∧
      ((n.standing.step cfg e).accepted = ⟨sender, timestamp, addr⟩ :: n.standing.accepted ∨
        e = .timer .sethlmac ∧ (hlmactableAdd cfg.hlmacMaxHlmac n.hlmacTable
          (hlmacCreateRootAddr 1) (nextTimestamp n.timestamp)).1 = false) := by
  cases e with
  | timer t =>
      cases t with
      | hello =>
          simp only [Node.step, Node.expire, Option.ite_none_right_eq_some,
            Option.some.injEq] at hn
          obtain ⟨-, rfl⟩ := hn
          have hsent := offers_iotoriiHandleHelloTimer h
          exact .inl hsent
      | sethlmac =>
          simp only [Node.step, Node.expire, Option.ite_none_right_eq_some] at hn
          obtain ⟨m, hm, rfl⟩ := Option.map_eq_some_iff.1 hn.2
          have hm' : m.Offers timestamp hlmacPrefix assigned round := by
            unfold resetRoot at h
            dsimp only at h
            split at h <;> exact h
          rcases offers_iotoriiSendSethlmac hm hm' with ho | ⟨hts, hissued⟩
          · exact .inl ho
          · refine .inr ⟨cfg.linkaddrNodeAddr, hlmacCreateRootAddr 1, hissued, ?_⟩
            have hts' : timestamp = nextTimestamp n.timestamp := hts
            by_cases hadd : (hlmactableAdd cfg.hlmacMaxHlmac n.hlmacTable
                (hlmacCreateRootAddr 1) (nextTimestamp n.timestamp)).1 = true
            · left
              rw [hts']
              exact if_pos hadd
            · exact .inr ⟨rfl, by simpa using hadd⟩
      | sendMessage csma =>
          simp only [Node.step, Node.expire, Option.ite_none_right_eq_some] at hn
          have hsent := offers_iotoriiHandleSendMessageTimer hn.2 h
          exact .inl hsent
      | statistic =>
          simp only [Node.step, Node.expire, Option.ite_none_right_eq_some] at hn
          have hsent := offers_iotoriiHandleStatisticTimer hn.2 h
          exact .inl hsent
  | receive sender message r =>
      simp only [Node.step] at hn
      split at hn
      · obtain rfl := Option.some.inj hn
        exact .inl h
      · rename_i hself
        cases message with
        | hello =>
            obtain rfl := Option.some.inj hn
            have hsent := offers_iotoriiHandleIncomingHello h
            exact .inl hsent
        | load load =>
            obtain rfl := Option.some.inj hn
            have hsent := offers_incomingLoad h
            exact .inl hsent
        | share extra =>
            have hsent := offers_incomingShare hn h
            exact .inl hsent
        | sethlmac ts hlmacPrefix' assigned' =>
            simp only [iotoriiOperation] at hn
            split at hn
            · obtain rfl := Option.some.inj hn
              exact .inl h
            · rename_i hspec
              rcases offers_incomingSethlmac hn h with ho | ⟨hacc, hstored, rfl, hissued⟩
              · exact .inl ho
              · have htakes : Takes cfg n.standing sender (.sethlmac timestamp hlmacPrefix' assigned')
                    timestamp _ :=
                  ⟨hself, ⟨_, _, rfl⟩, rfl, by simpa using hspec, hacc, hstored⟩
                exact .inr ⟨sender, _, hissued, .inl (htakes.accepted_step r)⟩

end Den2ne
