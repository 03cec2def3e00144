import Den2ne.Node.Advertised
import Den2ne.Node.Packing
import Mathlib.Tactic.Linarith
import Mathlib.Tactic.Positivity

/-!
# Whom a node tells its address

An event that makes a node store an address makes it queue SetHLMACs that name every neighbour but
the one the address came from, as long as there is room for all of them: in one packet (broadcast),
or for two entries in every packet, since the loop of the unicast build asks for a second one.
-/

namespace Den2ne

variable {α : Type*} [DecidableEq α]

/-- The message is a SetHLMAC of the round, and gives the node `a` an id. -/
def Payload.Names (timestamp : ℕ) (a : α) (p : Payload α) : Prop :=
  ∃ hlmacPrefix assigned, p = .sethlmac timestamp hlmacPrefix assigned ∧
    a ∈ assigned.map Prod.snd

/-- The entry carries such a message, and is sent to everybody or to `a`. -/
def PayloadEntry.Tells (cfg : Config α) (timestamp : ℕ) (a : α) (e : PayloadEntry α) : Prop :=
  e.payload.Names timestamp a ∧ (e.dest = cfg.linkaddrNull ∨ e.dest = a)

/-- How many entries a packet has to hold. -/
def entriesNeeded (cfg : Config α) (targets : List α) : ℕ :=
  match cfg.hlmacCast with
  | .broadcast => targets.length
  | .unicast => 2

/-- There is room to tell every neighbour but the sender. -/
def RoomForAll (cfg : Config α) (env : Env α) (addr : HlmacAddr) (sender : α)
    (t : NeighbourTable α) : Prop :=
  let targets := t.addrs.filter (· ≠ sender)
  targets = [] ∨ targets.length ≤ 255 ∧
    (4 + 1 + addr.len.toNat + entriesNeeded cfg targets * (1 + cfg.addrSize) : ℤ) ≤
      maxPayload env.framerHdrlen

instance (cfg : Config α) (env : Env α) (addr : HlmacAddr) (sender : α) (t : NeighbourTable α) :
    Decidable (RoomForAll cfg env addr sender t) :=
  inferInstanceAs (Decidable (_ ∨ _ ∧ _))

/-- A SetHLMAC that tells `a` is queued. -/
def Node.Tells (cfg : Config α) (timestamp : ℕ) (a : α) (n : Node α) : Prop :=
  ∃ e ∈ n.payloadEntryList, e.Tells cfg timestamp a

variable {cfg : Config α} {env : Env α} {n n' : Node α} {timestamp : ℕ} {a : α}

omit [DecidableEq α] in
theorem Node.Advertised.tells {p : Prop} (h : n.Advertised p n')
    (htells : n.Tells cfg timestamp a) : n'.Tells cfg timestamp a := by
  obtain ⟨es, up, hqueue, -⟩ := h.queue
  obtain ⟨e, he, htells⟩ := htells
  refine ⟨e, ?_, htells⟩
  rw [hqueue]
  exact List.mem_append_left _ (List.mem_append_left _ he)

/-! ## Building the packets -/

omit [DecidableEq α] in
/-- What fits is packed. -/
theorem packEntries_eq_self {macMaxPayload : ℤ} {addrSize datalenCounter : ℕ}
    {nbs : List (NeighbourTableEntry α)}
    (h : (datalenCounter + nbs.length * (1 + addrSize) : ℤ) ≤ macMaxPayload) :
    packEntries macMaxPayload addrSize datalenCounter nbs = nbs := by
  induction nbs generalizing datalenCounter with
  | nil => rfl
  | cons nb nbs ih =>
      rw [packEntries]
      cases nbs with
      | nil => split <;> rfl
      | cons nb' nbs =>
          rw [List.length_cons] at h
          have hrest : ((datalenCounter + 1 + addrSize : ℕ) +
              (nb' :: nbs).length * (1 + addrSize) : ℤ) ≤ macMaxPayload := by
            push_cast at h ⊢
            linarith
          rw [ih hrest, if_pos]
          have hpos : (0 : ℤ) ≤ nbs.length * (1 + addrSize) := by positivity
          rw [List.length_cons] at hrest
          push_cast at hrest ⊢
          linarith

theorem targets_addrs (t : NeighbourTable α) (sender : α) :
    (t.targets sender).map (·.addr) = t.addrs.filter (· ≠ sender) := by
  rw [NeighbourTable.targets, NeighbourTable.addrs, List.filter_map]
  rfl

/-- The neighbours in random order are the targets. -/
theorem order_of_fillRandomList {t : NeighbourTable α} {sender : α} {rs : List ℕ}
    {slots : List (Option (NeighbourTableEntry α))}
    (h : fillRandomList (List.replicate (numberOfNeighboursNew t sender) none) (t.targets sender)
      rs = some slots) :
    ∃ nbs : List (NeighbourTableEntry α), slots = nbs.map some ∧ nbs.Perm (t.targets sender) := by
  have hfull := (targets_length_of_fillRandomList h).1
  exact ⟨_, eq_map_some_of_full hfull.symm, (fillRandomList_replicate h).1⟩

omit [DecidableEq α] in
/-- With room for all, the packets name all. -/
theorem tells_sethlmacEntries {macMaxPayload : ℤ} {addr : HlmacAddr}
    {nbs : List (NeighbourTableEntry α)} {es : List (PayloadEntry α)} (hne : nbs ≠ [])
    (hfit : (4 + 1 + addr.len.toNat + entriesNeeded cfg (nbs.map (·.addr)) * (1 + cfg.addrSize) : ℤ)
      ≤ macMaxPayload)
    (h : sethlmacEntries cfg macMaxPayload addr timestamp (nbs.map some) = some es) :
    es ≠ [] ∧ ∀ nb ∈ nbs, ∃ e ∈ es, e.Tells cfg timestamp nb.addr := by
  obtain ⟨nb₀, rest, rfl⟩ := List.exists_cons_of_ne_nil hne
  have hsize : (0 : ℤ) ≤ cfg.addrSize := Int.natCast_nonneg _
  unfold sethlmacEntries at h
  rw [List.map_cons] at h
  dsimp only at h
  unfold entriesNeeded at hfit
  cases hcast : cfg.hlmacCast with
  | broadcast =>
      rw [hcast] at h hfit
      dsimp only at h hfit
      rw [List.length_map] at hfit
      have hone : (addr.len.toNat + 2 + cfg.addrSize : ℤ) ≤ macMaxPayload := by
        have hpos : (0 : ℤ) ≤ rest.length * (1 + cfg.addrSize) := by positivity
        rw [List.length_cons] at hfit
        push_cast at hfit
        linarith
      rw [if_pos hone, ← List.map_cons, mapM_id_map_some] at h
      dsimp only at h
      rw [packEntries_eq_self (by push_cast at hfit ⊢; linarith)] at h
      obtain rfl := Option.some.inj h
      refine ⟨List.cons_ne_nil _ _, fun nb hnb =>
        ⟨_, List.mem_cons_self, ⟨_, _, rfl, ?_⟩, .inl rfl⟩⟩
      rw [List.map_map]
      exact List.mem_map_of_mem hnb
  | unicast =>
      rw [hcast] at h hfit
      dsimp only at h hfit
      push_cast at hfit
      have hone : (addr.len.toNat + 2 + cfg.addrSize : ℤ) ≤ macMaxPayload := by linarith
      rw [if_pos hone, ← List.map_cons, mapM_id_map_some] at h
      dsimp only at h
      have hroom : (4 + 1 + addr.len.toNat + 1 + cfg.addrSize + cfg.addrSize + 1 : ℤ) ≤
          macMaxPayload := by linarith
      rw [unicastTargets, if_pos hroom] at h
      split at h
      · cases h
      · obtain rfl := Option.some.inj h
        refine ⟨List.cons_ne_nil _ _, fun nb hnb =>
          ⟨_, List.mem_map_of_mem hnb, ⟨_, _, rfl, ?_⟩, .inr rfl⟩⟩
        exact List.mem_singleton_self _

/-! ## Sending them -/

theorem tells_iotoriiSendSethlmac {addr : HlmacAddr} {sender : α}
    (h : iotoriiSendSethlmac cfg env addr sender timestamp n = some n')
    (hroom : RoomForAll cfg env addr sender n.neighbourTable) (ha : a ∈ n.neighbourTable.addrs)
    (hne : a ≠ sender) : n'.Tells cfg timestamp a := by
  have hmem : a ∈ n.neighbourTable.addrs.filter (· ≠ sender) :=
    List.mem_filter.2 ⟨ha, decide_eq_true hne⟩
  rcases hroom with hnil | ⟨hle, hfit⟩
  · rw [hnil] at hmem
    cases hmem
  · have hlen : (n.neighbourTable.targets sender).length =
        (n.neighbourTable.addrs.filter (· ≠ sender)).length := by
      rw [← targets_addrs, List.length_map]
    have hpos : (0 : ℤ) ≤ entriesNeeded cfg (n.neighbourTable.addrs.filter (· ≠ sender)) *
        (1 + cfg.addrSize) := by positivity
    have hlenpos : 0 < (n.neighbourTable.addrs.filter (· ≠ sender)).length :=
      List.length_pos_of_mem hmem
    unfold iotoriiSendSethlmac at h
    dsimp only at h
    rw [if_neg (by linarith), if_neg (by rw [numberOfNeighboursNew_eq, hlen]; omega)] at h
    split at h
    · cases h
    · next slots hslots =>
        obtain ⟨nbs, rfl, hperm⟩ := order_of_fillRandomList hslots
        rw [← targets_addrs] at hfit hmem
        have hneeded : entriesNeeded cfg ((n.neighbourTable.targets sender).map (·.addr)) =
            entriesNeeded cfg (nbs.map (·.addr)) := by
          unfold entriesNeeded
          rw [List.length_map, List.length_map, hperm.length_eq]
        rw [hneeded] at hfit
        obtain ⟨nb, hnb, rfl⟩ := List.mem_map.1 hmem
        have hnb' := hperm.mem_iff.2 hnb
        split at h
        · cases h
        · next hentries =>
            exact absurd rfl
              (tells_sethlmacEntries (List.ne_nil_of_mem hnb') hfit hentries).1
        · next entries _ hentries =>
            obtain ⟨-, htells⟩ := tells_sethlmacEntries (List.ne_nil_of_mem hnb') hfit hentries
            obtain rfl := Option.some.inj h
            obtain ⟨e, he, htell⟩ := htells nb hnb'
            refine ⟨e, ?_, htell⟩
            rw [queue_armStatistic, listThisNodeEntry, Node.foldl_enqueue]
            exact List.mem_append_right _ he

/-- Only the addresses of the neighbours decide. -/
theorem RoomForAll.congr {addr : HlmacAddr} {sender : α} {t t' : NeighbourTable α}
    (h : RoomForAll cfg env addr sender t) (heq : t'.addrs = t.addrs) :
    RoomForAll cfg env addr sender t' := by
  unfold RoomForAll at h ⊢
  rw [heq]
  exact h

theorem tells_takeSethlmac {addr : HlmacAddr} {sender : α}
    (h : takeSethlmac cfg env sender timestamp addr n = some n')
    (hstored : (n.standing.store cfg sender timestamp addr).1 = true)
    (hroom : RoomForAll cfg env addr sender n.neighbourTable) (ha : a ∈ n.neighbourTable.addrs)
    (hne : a ≠ sender) : n'.Tells cfg timestamp a := by
  obtain ⟨-, haddrs⟩ := queue_storeAddress cfg sender timestamp addr n
  rw [← fst_storeAddress] at hstored
  unfold takeSethlmac at h
  generalize storeAddress cfg sender timestamp addr n = stored at h hstored haddrs
  obtain ⟨isAdded, m⟩ := stored
  dsimp only at h hstored haddrs
  subst hstored
  rw [← haddrs] at ha
  rw [if_pos rfl] at h
  split at h
  · obtain ⟨m', hm', rfl⟩ := Option.map_eq_some_iff.1 h
    have hmark : m'.Quiet (markSender sender true m') := Node.Quiet.of_queue rfl
    exact hmark.tells (tells_iotoriiSendSethlmac hm' (hroom.congr haddrs) ha hne)
  · obtain ⟨m', hm', h⟩ := Option.bind_eq_some_iff.1 h
    obtain ⟨m'', hm'', h⟩ := Option.bind_eq_some_iff.1 h
    have hmark : m'.Quiet (countDown (markSender sender true m')) := Node.Quiet.of_queue rfl
    exact ((hmark.trans ((Node.upgrowth_quiet cfg).becomeEdge hm'')).trans
      ((Node.upgrowth_quiet cfg).sendWhenDone h)).tells
        (tells_iotoriiSendSethlmac hm' (hroom.congr haddrs) ha hne)

/-- What the root stores when it starts a round it tells to all its neighbours. -/
theorem tells_sethlmacTimer (h : Node.step cfg env (.timer .sethlmac) n = some n')
    (hroom : RoomForAll cfg env (hlmacCreateRootAddr 1) cfg.linkaddrNodeAddr n.neighbourTable)
    (ha : a ∈ n.neighbourTable.addrs) (hne : a ≠ cfg.linkaddrNodeAddr) :
    n'.Tells cfg (nextTimestamp n.timestamp) a := by
  simp only [Node.step, Node.expire, Option.ite_none_right_eq_some] at h
  obtain ⟨m, hm, rfl⟩ := Option.map_eq_some_iff.1 h.2
  have hreset : m.Quiet (resetRoot cfg m) := Node.Quiet.of_queue (by
    unfold resetRoot
    dsimp only
    split <;> rfl)
  exact hreset.tells (tells_iotoriiSendSethlmac hm hroom ha hne)

/-- The address of a SetHLMAC that a node stores it tells to all its other neighbours. -/
theorem tells_receive {sender : α} {hlmacPrefix : List UInt8} {assigned : List (UInt8 × α)} {r : ℕ}
    (h : Node.step cfg env (.receive sender (.sethlmac timestamp hlmacPrefix assigned) r) n =
      some n')
    (hstores : n.Stores cfg (.receive sender (.sethlmac timestamp hlmacPrefix assigned) r))
    (hroom : RoomForAll cfg env
      (iotoriiExtractAddress cfg.linkaddrNodeAddr (.sethlmac timestamp hlmacPrefix assigned)) sender
      n.neighbourTable)
    (ha : a ∈ n.neighbourTable.addrs) (hne : a ≠ sender) : n'.Tells cfg timestamp a := by
  obtain ⟨hself, hstores⟩ := hstores
  simp only [Standing.storesFrom, Bool.and_eq_true, Bool.not_eq_true'] at hstores
  obtain ⟨⟨hspec, hacc⟩, hstored⟩ := hstores
  simp only [Node.step, if_neg hself, iotoriiOperation, hspec, Bool.false_eq_true, if_false] at h
  have htake : ∀ m m' : Node α,
      (if acceptsSethlmac m timestamp (iotoriiExtractAddress cfg.linkaddrNodeAddr
          (.sethlmac timestamp hlmacPrefix assigned)) = true then
        takeSethlmac cfg env sender timestamp (iotoriiExtractAddress cfg.linkaddrNodeAddr
          (.sethlmac timestamp hlmacPrefix assigned)) m
      else leaveSethlmac cfg env m) = some m' → m.standing = n.standing →
      m.neighbourTable = n.neighbourTable → m'.Tells cfg timestamp a := by
    intro m m' hm' hm htable
    have hacc' : acceptsSethlmac m timestamp (iotoriiExtractAddress cfg.linkaddrNodeAddr
        (.sethlmac timestamp hlmacPrefix assigned)) = true := by
      rw [← hm] at hacc
      exact hacc
    rw [if_pos hacc'] at hm'
    exact tells_takeSethlmac hm' (hm ▸ hstored) (htable ▸ hroom) (htable ▸ ha) hne
  unfold incomingSethlmac settleSethlmac at h
  dsimp only at h
  split at h
  · obtain ⟨m', hm', rfl⟩ := Option.map_eq_some_iff.1 h
    change m'.Tells cfg timestamp a
    exact htake _ m' hm' rfl rfl
  · exact htake _ n' h rfl rfl

end Den2ne
