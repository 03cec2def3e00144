import Den2ne.Node.Flow
import Den2ne.Node.Outgrowth
import Den2ne.Node.Records

/-!
# When a SetHLMAC is queued

An event queues SetHLMACs exactly if it makes the node advertise an address and
`iotorii_send_sethlmac` finds somebody to tell and room for one entry: `advertised_step`.
They stand before the LOADs and SHAREs that the event queues, so that they find the queue
as it was before the event.
-/

namespace Den2ne

variable {α : Type*} [DecidableEq α]

def Payload.isSethlmac : Payload α → Bool
  | .sethlmac _ _ _ => true
  | _ => false

/-- `iotorii_send_sethlmac` queues something: the framer leaves room for a payload, there
is a neighbour to tell, and its entry fits behind the prefix. -/
def Advertises (cfg : Config α) (env : Env α) (addr : HlmacAddr) (sender : α)
    (t : NeighbourTable α) : Prop :=
  0 < maxPayload env.framerHdrlen ∧ numberOfNeighboursNew t sender ≠ 0 ∧
    (addr.len.toNat + 2 + cfg.addrSize : ℤ) ≤ maxPayload env.framerHdrlen

instance (cfg : Config α) (env : Env α) (addr : HlmacAddr) (sender : α) (t : NeighbourTable α) :
    Decidable (Advertises cfg env addr sender t) :=
  inferInstanceAs (Decidable (_ ∧ _ ∧ _))

/-- The event makes the node queue a SetHLMAC: it starts a round of the root, or brings an
address that the node stores, and that address is advertised. -/
def Node.AdvertisesAt (cfg : Config α) (env : Env α) (e : Event α) (n : Node α) : Prop :=
  match e with
  | .timer .sethlmac =>
      Advertises cfg env (hlmacCreateRootAddr 1) cfg.linkaddrNodeAddr n.neighbourTable
  | .timer _ => False
  | .receive sender message _ => n.Stores cfg e ∧
      Advertises cfg env (iotoriiExtractAddress cfg.linkaddrNodeAddr message) sender
        n.neighbourTable

instance (cfg : Config α) (env : Env α) (n : Node α) :
    ∀ e : Event α, Decidable (n.AdvertisesAt cfg env e)
  | .timer .sethlmac => inferInstanceAs (Decidable (Advertises ..))
  | .timer .hello | .timer (.sendMessage _) | .timer .statistic =>
      inferInstanceAs (Decidable False)
  | .receive _ _ _ => inferInstanceAs (Decidable (_ ∧ _))

variable {cfg : Config α} {env : Env α} {n n' : Node α}

/-- Only the addresses of the neighbours decide. -/
theorem advertises_of_addrs {addr : HlmacAddr} {sender : α} {t t' : NeighbourTable α}
    (h : t'.addrs = t.addrs) :
    Advertises cfg env addr sender t' ↔ Advertises cfg env addr sender t := by
  have hlen : ∀ t : NeighbourTable α, t.addrs.length = t.numberOfNeighbours := fun t => by
    rw [NeighbourTable.addrs, List.length_map, t.counted]
  have hnew : numberOfNeighboursNew t' sender = numberOfNeighboursNew t sender := by
    rw [numberOfNeighboursNew, numberOfNeighboursNew, ← hlen, ← hlen, h]
  rw [Advertises, Advertises, hnew]

/-! ## What the queue gets -/

/-- The queue has got SetHLMACs if and only if `p`, and LOADs and SHAREs behind them. -/
structure Node.Advertised (p : Prop) (n n' : Node α) : Prop where
  queue : ∃ es up, n'.payloadEntryList = n.payloadEntryList ++ es ++ up ∧
    (∀ e ∈ es, e.payload.isSethlmac = true) ∧ (∀ e ∈ up, e.payload.isSethlmac = false) ∧
    (es ≠ [] ↔ p)

/-- The queue has got no SetHLMAC. -/
abbrev Node.Quiet (n n' : Node α) : Prop := n.Advertised False n'

namespace Node

section

omit [DecidableEq α]

theorem Quiet.of_queue (h : n'.payloadEntryList = n.payloadEntryList) : n.Quiet n' :=
  ⟨[], [], by rw [h, List.append_nil, List.append_nil], nofun, nofun,
    iff_of_false (fun hne => hne rfl) id⟩

theorem Advertised.congr {p q : Prop} (h : n.Advertised p n') (hpq : p ↔ q) :
    n.Advertised q n' := by
  obtain ⟨es, up, hqueue, hes, hup, hp⟩ := h.queue
  exact ⟨es, up, hqueue, hes, hup, hp.trans hpq⟩

/-- Nothing but LOADs and SHAREs is queued afterwards. -/
theorem Advertised.trans {p : Prop} {m : Node α} (h : n.Advertised p m) (h' : m.Quiet n') :
    n.Advertised p n' := by
  obtain ⟨es, up, hqueue, hes, hup, hp⟩ := h.queue
  obtain ⟨es', up', hqueue', -, hup', hp'⟩ := h'.queue
  obtain rfl : es' = [] := not_not.1 fun hne => hp'.1 hne
  refine ⟨es, up ++ up', ?_, hes, ?_, hp⟩
  · rw [hqueue', hqueue, List.append_nil, List.append_assoc]
  · intro e he
    rcases List.mem_append.1 he with he | he
    · exact hup e he
    · exact hup' e he

theorem Advertised.of_start {p : Prop} {m : Node α} (h : m.Advertised p n')
    (hqueue : m.payloadEntryList = n.payloadEntryList) : n.Advertised p n' := by
  obtain ⟨es, up, hq, hes, hup, hp⟩ := h.queue
  exact ⟨es, up, by rw [hq, hqueue], hes, hup, hp⟩

theorem upgrowth_quiet (cfg : Config α) : Upgrowth cfg (Quiet (α := α)) where
  of_same h := Quiet.of_queue h.queue
  trans h h' := h.trans h'
  send {n es} hes := by
    rw [send_eq]
    refine ⟨[], queued cfg es, by rw [List.append_nil], nofun, ?_,
      iff_of_false (fun hne => hne rfl) id⟩
    intro e he
    have hmem : e ∈ es := by
      unfold queued at he
      split at he
      · cases he
      · exact he
    have hup := hes e hmem
    cases hpayload : e.payload with
    | hello => rfl
    | load load => rfl
    | share extra => rfl
    | sethlmac ts hlmacPrefix assigned =>
        rw [hpayload] at hup
        exact hup.elim
  hello n := Quiet.of_queue rfl

end

end Node

omit [DecidableEq α] in
theorem queue_armStatistic (cfg : Config α) (n : Node α) :
    (armStatistic cfg n).payloadEntryList = n.payloadEntryList := by
  unfold armStatistic
  split <;> rfl

/-- `iotorii_send_sethlmac` queues a SetHLMAC exactly if `Advertises`. -/
theorem advertised_iotoriiSendSethlmac {addr : HlmacAddr} {sender : α} {timestamp : ℕ}
    (h : iotoriiSendSethlmac cfg env addr sender timestamp n = some n') :
    n.Advertised (Advertises cfg env addr sender n.neighbourTable) n' := by
  obtain ⟨es, drawn, hn', hadvert⟩ := iotoriiSendSethlmac_eq_some cfg h
  have hqueue : n'.payloadEntryList = n.payloadEntryList ++ es := by
    rw [hn', queue_armStatistic]
  have hes : ∀ e ∈ es, e.payload.isSethlmac = true := fun e he => by
    obtain ⟨assigned, hpayload, -⟩ := (hadvert e he).payload
    rw [hpayload]
    rfl
  refine ⟨es, [], by rw [hqueue, List.append_nil], hes, nofun, ?_⟩
  have hsame : es = [] ↔ n'.payloadEntryList = n.payloadEntryList := by
    rw [hqueue, List.append_right_eq_self]
  rw [ne_eq, hsame]
  clear hn' hadvert hqueue hes hsame
  unfold iotoriiSendSethlmac at h
  dsimp only at h
  split at h
  · rename_i hroom
    obtain rfl := Option.some.inj h
    exact iff_of_false (fun hne => hne (queue_armStatistic cfg n)) fun hadv => by
      have := hadv.1
      omega
  · rename_i hroom
    split at h
    · rename_i hnew
      obtain rfl := Option.some.inj h
      exact iff_of_false (fun hne => hne (queue_armStatistic cfg _)) fun hadv => hadv.2.1 hnew
    · rename_i hnew
      split at h
      · cases h
      · rename_i slots hslots
        obtain ⟨hfull, hlen⟩ := targets_length_of_fillRandomList hslots
        have hne : slots ≠ [] := fun hnil => hnew (by rw [← hlen, hnil]; rfl)
        split at h
        · cases h
        · rename_i hentries
          obtain rfl := Option.some.inj h
          have hfit := (sethlmacEntries_eq_nil hfull hne hentries).1 rfl
          exact iff_of_false (fun hne => hne (queue_armStatistic cfg n)) fun hadv => hfit hadv.2.2
        · rename_i entries hnil hentries
          obtain rfl := Option.some.inj h
          have hfit := not_not.1 fun hnot =>
            hnil ((sethlmacEntries_eq_nil hfull hne hentries).2 hnot)
          refine iff_of_true ?_ ⟨by omega, hnew, hfit⟩
          rw [queue_armStatistic, listThisNodeEntry, Node.foldl_enqueue, List.append_right_eq_self]
          exact hnil

omit [DecidableEq α] in
theorem queue_storeAddress (cfg : Config α) (sender : α) (timestamp : ℕ) (addr : HlmacAddr)
    (n : Node α) :
    (storeAddress cfg sender timestamp addr n).2.payloadEntryList = n.payloadEntryList ∧
    (storeAddress cfg sender timestamp addr n).2.neighbourTable.addrs =
      n.neighbourTable.addrs := by
  unfold storeAddress adoptAddress enterRound
  dsimp only
  split
  · split
    · split <;> exact ⟨rfl, NeighbourTable.addrs_iotoriiNeighboursFlag _⟩
    · exact ⟨rfl, rfl⟩
  · exact ⟨rfl, rfl⟩

theorem advertised_takeSethlmac {addr : HlmacAddr} {sender : α} {timestamp : ℕ}
    (h : takeSethlmac cfg env sender timestamp addr n = some n') :
    n.Advertised ((n.standing.store cfg sender timestamp addr).1 = true ∧
      Advertises cfg env addr sender n.neighbourTable) n' := by
  obtain ⟨hqueue, haddrs⟩ := queue_storeAddress cfg sender timestamp addr n
  rw [← fst_storeAddress]
  unfold takeSethlmac at h
  generalize storeAddress cfg sender timestamp addr n = stored at h hqueue haddrs ⊢
  obtain ⟨isAdded, m⟩ := stored
  dsimp only at h hqueue haddrs ⊢
  have hpassed : ∀ m', (if isAdded = true then iotoriiSendSethlmac cfg env addr sender timestamp m
      else some m) = some m' →
      n.Advertised (isAdded = true ∧ Advertises cfg env addr sender n.neighbourTable) m' := by
    intro m' hm'
    split at hm'
    · rename_i hadded
      refine ((advertised_iotoriiSendSethlmac hm').of_start hqueue).congr ?_
      rw [advertises_of_addrs haddrs, and_iff_right hadded]
    · rename_i hadded
      obtain rfl := Option.some.inj hm'
      exact (Node.Quiet.of_queue hqueue).congr (iff_of_false id fun h => hadded h.1)
  split at h
  · obtain ⟨m', hm', rfl⟩ := Option.map_eq_some_iff.1 h
    exact (hpassed m' hm').trans (Node.Quiet.of_queue rfl)
  · obtain ⟨m', hm', h⟩ := Option.bind_eq_some_iff.1 h
    obtain ⟨m'', hm'', h⟩ := Option.bind_eq_some_iff.1 h
    have hmark : m'.Quiet (countDown (markSender sender isAdded m')) := Node.Quiet.of_queue rfl
    exact (((hpassed m' hm').trans hmark).trans ((Node.upgrowth_quiet cfg).becomeEdge hm'')).trans
      ((Node.upgrowth_quiet cfg).sendWhenDone h)

theorem advertised_incomingSethlmac {addr : HlmacAddr} {sender : α} {timestamp : ℕ}
    (h : incomingSethlmac cfg env sender timestamp addr n = some n') :
    n.Advertised ((n.standing.accepts timestamp addr = true ∧
      (n.standing.store cfg sender timestamp addr).1 = true) ∧
      Advertises cfg env addr sender n.neighbourTable) n' := by
  have haccepts : acceptsSethlmac n timestamp addr = n.standing.accepts timestamp addr := rfl
  have key : ∀ m, (if acceptsSethlmac n timestamp addr = true then
      takeSethlmac cfg env sender timestamp addr n else leaveSethlmac cfg env n) = some m →
      n.Advertised ((n.standing.accepts timestamp addr = true ∧
        (n.standing.store cfg sender timestamp addr).1 = true) ∧
        Advertises cfg env addr sender n.neighbourTable) m := by
    intro m hm
    rw [haccepts] at hm
    split at hm
    · rename_i hacc
      refine (advertised_takeSethlmac hm).congr ?_
      rw [and_iff_right hacc]
    · rename_i hacc
      exact ((Node.upgrowth_quiet cfg).leaveSethlmac hm).congr
        (iff_of_false id fun h => hacc h.1.1)
  unfold incomingSethlmac settleSethlmac at h
  dsimp only at h
  split at h
  · obtain ⟨m, hm, rfl⟩ := Option.map_eq_some_iff.1 h
    exact (key m hm).trans (Node.Quiet.of_queue rfl)
  · exact key n' h

theorem advertised_sethlmacTimer (h : iotoriiHandleSethlmacTimer cfg env n = some n') :
    n.Advertised (Advertises cfg env (hlmacCreateRootAddr 1) cfg.linkaddrNodeAddr
      n.neighbourTable) n' := by
  obtain ⟨m, hm, rfl⟩ := Option.map_eq_some_iff.1 h
  have hsent : n.Advertised _ m := (advertised_iotoriiSendSethlmac hm).of_start rfl
  refine hsent.trans (Node.Quiet.of_queue ?_)
  unfold resetRoot
  dsimp only
  split <;> rfl

/-- Every event but the expiry of the send timer queues a SetHLMAC exactly if
`Node.AdvertisesAt`. -/
theorem advertised_step {e : Event α} (he : ∀ csma, e ≠ .timer (.sendMessage csma))
    (h : Node.step cfg env e n = some n') : n.Advertised (n.AdvertisesAt cfg env e) n' := by
  have hquiet := Node.upgrowth_quiet (α := α) cfg
  cases e with
  | timer t =>
      cases t with
      | hello =>
          simp only [Node.step, Node.expire, Option.ite_none_right_eq_some,
            Option.some.injEq] at h
          obtain ⟨-, rfl⟩ := h
          exact hquiet.of_start hquiet.helloTimer rfl rfl rfl rfl
      | sethlmac =>
          simp only [Node.step, Node.expire, Option.ite_none_right_eq_some] at h
          exact (advertised_sethlmacTimer h.2).of_start rfl
      | sendMessage csma => exact absurd rfl (he csma)
      | statistic =>
          simp only [Node.step, Node.expire, Option.ite_none_right_eq_some] at h
          exact Node.Advertised.of_start (hquiet.statisticTimer h.2) rfl
  | receive sender message r =>
      have hnot : ∀ {m : Node α}, n.Quiet m → ¬ n.Stores cfg (.receive sender message r) →
          n.Advertised (n.AdvertisesAt cfg env (.receive sender message r)) m :=
        fun hm hstores => hm.congr (iff_of_false id fun h => hstores h.1)
      simp only [Node.step] at h
      split at h
      · rename_i hself
        obtain rfl := Option.some.inj h
        exact hnot (Node.Quiet.of_queue rfl) fun h => h.1 hself
      · rename_i hself
        cases message with
        | hello =>
            obtain rfl := Option.some.inj h
            exact hnot (hquiet.of_start hquiet.incomingHello rfl rfl rfl rfl)
              fun h => Bool.false_ne_true h.2
        | load load =>
            obtain rfl := Option.some.inj h
            exact hnot (hquiet.of_start hquiet.incomingLoad rfl rfl rfl rfl)
              fun h => Bool.false_ne_true h.2
        | share extra =>
            exact hnot (Node.Advertised.of_start (hquiet.incomingShare h) rfl)
              fun h => Bool.false_ne_true h.2
        | sethlmac ts hlmacPrefix assigned =>
            simp only [iotoriiOperation] at h
            split at h
            · rename_i hspec
              obtain rfl := Option.some.inj h
              refine hnot (Node.Quiet.of_queue rfl) fun h => ?_
              have hstores := h.2
              simp only [Standing.storesFrom, hspec, Bool.not_true, Bool.false_and] at hstores
              exact Bool.false_ne_true hstores
            · rename_i hspec
              have hqueued : n.Advertised _ n' := (advertised_incomingSethlmac h).of_start rfl
              refine hqueued.congr (and_congr_left fun _ => ?_)
              simp only [Node.Stores, Standing.storesFrom, hspec, Bool.not_false, Bool.true_and,
                Bool.and_eq_true]
              exact ⟨fun h => ⟨hself, h⟩, fun h => h.2⟩

end Den2ne
