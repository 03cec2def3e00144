import Den2ne.Node.Packing

/-!
# Advertising one by one

In the unicast build each neighbour gets a SetHLMAC of its own, in a loop that keeps the condition
of the broadcast build: it goes on only while another entry would fit behind the one just written
(`unicastLoop`). `reaches_iff` says when every neighbour is reached.
-/

namespace Den2ne

variable {α : Type*} [DecidableEq α]

/-! ## The loop -/

section Loop

variable {macMaxPayload : ℤ} {addrSize : ℕ} {addr : HlmacAddr}
  {randomList nbs : List (NeighbourTableEntry α)}

/-- The `do` loop of the unicast build, with the neighbours it queues a payload for. `i` is one
above the slot that is read for the entry; after its increment, in eight bits, the destination is
read two slots below it. `none` is a read outside `random_list`. The first argument bounds the
turns. -/
def unicastLoop (macMaxPayload : ℤ) (addrSize : ℕ) (addr : HlmacAddr)
    (randomList : List (NeighbourTableEntry α)) : ℕ → ℕ → Option (List (NeighbourTableEntry α))
  | 0, _ => none
  | _ + 1, 0 => none
  | turns + 1, i + 1 =>
      match randomList[i]? with
      | none => none
      | some nb =>
          if (i + 2) % 256 < 2 then none
          else if (4 + 1 + addr.len.toNat + 1 + addrSize + addrSize + 1 : ℤ) ≤ macMaxPayload ∧
              (i + 2) % 256 ≤ randomList.length then
            (unicastLoop macMaxPayload addrSize addr randomList turns ((i + 2) % 256)).map (nb :: ·)
          else some [nb]

section

omit [DecidableEq α]

theorem unicastLoop_of_room
    (hroom : (4 + 1 + addr.len.toNat + 1 + addrSize + addrSize + 1 : ℤ) ≤ macMaxPayload)
    {i turns : ℕ} (hnbs : randomList.drop i = nbs) (hne : nbs ≠ [])
    (hle : randomList.length ≤ 255) (hturns : nbs.length < turns) :
    unicastLoop macMaxPayload addrSize addr randomList turns (i + 1) =
      if randomList.length = 255 then none else some nbs := by
  induction nbs generalizing i turns with
  | nil => exact absurd rfl hne
  | cons nb rest ih =>
      obtain ⟨turns, rfl⟩ : ∃ t, turns = t + 1 := ⟨turns - 1, by omega⟩
      have hget : randomList[i]? = some nb := by rw [← List.head?_drop, hnbs]; rfl
      have hdrop : randomList.drop (i + 1) = rest := by
        rw [← List.tail_drop, hnbs]
        rfl
      have hlength : i + 1 + rest.length = randomList.length := by
        have hdrop := congrArg List.length hnbs
        rw [List.length_drop, List.length_cons] at hdrop
        omega
      rw [unicastLoop, hget]
      dsimp only
      by_cases hlast : rest = []
      · rw [hlast, List.length_nil] at hlength
        by_cases hfull : randomList.length = 255
        · rw [if_pos (by omega), if_pos hfull]
        · rw [if_neg (by omega), if_neg (by omega), if_neg hfull, hlast]
      · have hpos := List.length_pos_iff.2 hlast
        have hturn : (i + 2) % 256 = i + 2 := Nat.mod_eq_of_lt (by omega)
        rw [hturn, if_neg (by omega), if_pos ⟨hroom, by omega⟩,
          ih hdrop hlast (by rw [List.length_cons] at hturns; omega)]
        split <;> rfl

/-- The loop queues for the neighbours that `unicastTargets` names. -/
theorem unicastLoop_eq (hne : randomList ≠ []) (hle : randomList.length ≤ 255) :
    unicastLoop macMaxPayload addrSize addr randomList 256 1 =
      unicastTargets macMaxPayload addrSize addr randomList := by
  unfold unicastTargets
  by_cases hroom : (4 + 1 + addr.len.toNat + 1 + addrSize + addrSize + 1 : ℤ) ≤ macMaxPayload
  · rw [if_pos hroom]
    exact unicastLoop_of_room hroom List.drop_zero hne hle (by omega)
  · obtain ⟨nb, rest, rfl⟩ := List.exists_cons_of_ne_nil hne
    rw [if_neg hroom, unicastLoop, List.getElem?_cons_zero]
    exact (if_neg (by decide)).trans (if_neg fun h => hroom h.1)

end

end Loop

/-! ## Who is reached -/

/-- The SetHLMAC that gives `nb` its address. -/
def advertTo (timestamp : ℕ) (addr : HlmacAddr) (nb : NeighbourTableEntry α) : PayloadEntry α :=
  ⟨.sethlmac timestamp addr.ids [(nb.numberId, nb.addr)], nb.addr, timestamp⟩

/-- `iotorii_send_sethlmac` reaches every neighbour: whatever has been drawn, it can still end; it
reads nothing outside `random_list`; and it queues one SetHLMAC for each neighbour other than the
sender. -/
structure Reaches (cfg : Config α) (framerHdrlen : ℤ) (addr : HlmacAddr) (sender : α)
    (timestamp : ℕ) (n : Node α) : Prop where
  ends : ∀ env : Env α, env.framerHdrlen = framerHdrlen → ∃ rs n',
    iotoriiSendSethlmac cfg { env with priorities := env.priorities ++ rs } addr sender timestamp n =
      some n'
  inside : ∀ env : Env α, env.framerHdrlen = framerHdrlen → ∀ randomList,
    fillRandomList (List.replicate (numberOfNeighboursNew n.neighbourTable sender) none)
      (n.neighbourTable.targets sender) env.priorities = some randomList →
    iotoriiSendSethlmac cfg env addr sender timestamp n ≠ none
  each : ∀ env n', env.framerHdrlen = framerHdrlen →
    iotoriiSendSethlmac cfg env addr sender timestamp n = some n' →
    ∃ sent, n'.payloadEntryList = n.payloadEntryList ++ sent ∧
      sent.Perm ((n.neighbourTable.targets sender).map (advertTo timestamp addr))

section Send

variable {cfg : Config α} {env : Env α} {addr : HlmacAddr} {sender : α} {timestamp : ℕ}
  {n n' : Node α}

/-- What is queued once the order is drawn. -/
theorem iotoriiSendSethlmac_of_order (timestamp : ℕ) (hcast : cfg.hlmacCast = .unicast)
    (hfit : (4 + 1 + addr.len.toNat + 1 + cfg.addrSize : ℤ) ≤ maxPayload env.framerHdrlen)
    (hne : n.neighbourTable.targets sender ≠ [])
    (hle : (n.neighbourTable.targets sender).length ≤ 255)
    {randomList : List (Option (NeighbourTableEntry α))}
    (hfill : fillRandomList (List.replicate (numberOfNeighboursNew n.neighbourTable sender) none)
      (n.neighbourTable.targets sender) env.priorities = some randomList) :
    ∃ order, order.Perm (n.neighbourTable.targets sender) ∧
      (iotoriiSendSethlmac cfg env addr sender timestamp n).map (·.payloadEntryList) =
        (unicastTargets (maxPayload env.framerHdrlen) cfg.addrSize addr order).map fun nbs =>
          n.payloadEntryList ++ nbs.map (advertTo timestamp addr) := by
  have hnew := numberOfNeighboursNew_eq n.neighbourTable sender
  have hpos := List.length_pos_iff.2 hne
  rw [Nat.mod_eq_of_lt (by omega)] at hnew
  obtain ⟨hperm, hlength⟩ := fillRandomList_replicate hfill
  have hfull := eq_map_some_of_full (hperm.length_eq.trans (hlength.trans hnew).symm)
  refine ⟨_, hperm, ?_⟩
  unfold iotoriiSendSethlmac
  dsimp only
  rw [if_neg (by omega), if_neg (by omega), hfill]
  generalize randomList.filterMap id = order at hperm hfull
  subst hfull
  have horder : order ≠ [] := by
    rintro rfl
    exact hne hperm.nil_eq.symm
  obtain ⟨nb, rest, rfl⟩ := List.exists_cons_of_ne_nil horder
  have hentries : sethlmacEntries cfg (maxPayload env.framerHdrlen) addr timestamp
      ((nb :: rest).map some) =
        (unicastTargets (maxPayload env.framerHdrlen) cfg.addrSize addr (nb :: rest)).map fun nbs =>
          nbs.map (advertTo timestamp addr) := by
    rw [List.map_cons, sethlmacEntries, if_pos (by omega), ← List.map_cons, mapM_id_map_some, hcast]
    rfl
  dsimp only
  rw [hentries]
  cases htargets : unicastTargets (maxPayload env.framerHdrlen) cfg.addrSize addr (nb :: rest) with
  | none => rfl
  | some nbs =>
      have hnbs : nbs ≠ [] := by
        rintro rfl
        unfold unicastTargets at htargets
        split at htargets
        · split at htargets <;> cases htargets
        · cases htargets
      obtain ⟨nb', rest', rfl⟩ := List.exists_cons_of_ne_nil hnbs
      rw [Option.map_some, Option.map_some, List.map_cons]
      dsimp only
      rw [Node.foldl_enqueue, armStatistic, hcast]
      rfl

/-- Without neighbours to tell nothing is queued. -/
theorem iotoriiSendSethlmac_of_none (hcast : cfg.hlmacCast = .unicast)
    (hmac : 0 < maxPayload env.framerHdrlen)
    (hnew : numberOfNeighboursNew n.neighbourTable sender = 0) :
    iotoriiSendSethlmac cfg env addr sender timestamp n =
      some (listThisNodeEntry env.loadDraw n) := by
  unfold iotoriiSendSethlmac
  dsimp only
  rw [if_neg (by omega), if_pos hnew, armStatistic, hcast]

/-- It ends only once the order is drawn. -/
theorem fillRandomList_of_send (hmac : 0 < maxPayload env.framerHdrlen)
    (hnew : numberOfNeighboursNew n.neighbourTable sender ≠ 0)
    (h : iotoriiSendSethlmac cfg env addr sender timestamp n = some n') :
    ∃ randomList,
      fillRandomList (List.replicate (numberOfNeighboursNew n.neighbourTable sender) none)
        (n.neighbourTable.targets sender) env.priorities = some randomList := by
  unfold iotoriiSendSethlmac at h
  dsimp only at h
  rw [if_neg (by omega), if_neg hnew] at h
  cases hfill : fillRandomList
      (List.replicate (numberOfNeighboursNew n.neighbourTable sender) none)
      (n.neighbourTable.targets sender) env.priorities with
  | none =>
      rw [hfill] at h
      cases h
  | some randomList => exact ⟨randomList, rfl⟩

omit [DecidableEq α] in
/-- The loop reaches all of them. -/
theorem unicastTargets_eq_self_iff {macMaxPayload : ℤ} {addrSize : ℕ}
    {order : List (NeighbourTableEntry α)} (hle : order.length ≤ 255) :
    unicastTargets macMaxPayload addrSize addr order = some order ↔
      order.length ≤ 1 ∨ order.length ≤ 254 ∧
        (7 + addr.len.toNat + 2 * addrSize : ℤ) ≤ macMaxPayload := by
  unfold unicastTargets
  by_cases hroom : (4 + 1 + addr.len.toNat + 1 + addrSize + addrSize + 1 : ℤ) ≤ macMaxPayload
  · rw [if_pos hroom]
    by_cases hfull : order.length = 255
    · rw [if_pos hfull]
      exact iff_of_false nofun (by omega)
    · rw [if_neg hfull]
      exact iff_of_true rfl (.inr ⟨by omega, by omega⟩)
  · rw [if_neg hroom]
    constructor
    · intro h
      have hlength := congrArg List.length (Option.some.inj h)
      rw [List.length_take] at hlength
      omega
    · intro h
      rw [List.take_of_length_le (by omega)]

end Send

/-- With more neighbours than are counted the function does not reach them. -/
theorem not_reaches_of_many {cfg : Config α} {framerHdrlen : ℤ} {addr : HlmacAddr} {sender : α}
    {timestamp : ℕ} {n : Node α} (hcast : cfg.hlmacCast = .unicast)
    (hmac : 0 < maxPayload framerHdrlen)
    (hmany : 256 ≤ (n.neighbourTable.targets sender).length) :
    ¬ Reaches cfg framerHdrlen addr sender timestamp n := by
  intro h
  have hnew := numberOfNeighboursNew_eq n.neighbourTable sender
  by_cases hnone : numberOfNeighboursNew n.neighbourTable sender = 0
  · let env : Env α := ⟨framerHdrlen, [], 0, sender⟩
    obtain ⟨sent, hqueue, hperm⟩ := h.each env _ rfl (iotoriiSendSethlmac_of_none hcast hmac hnone)
    have hlength := congrArg List.length hqueue
    have hsent := hperm.length_eq
    rw [List.length_append] at hlength
    rw [List.length_map] at hsent
    have hsame : (listThisNodeEntry env.loadDraw n).payloadEntryList.length =
        n.payloadEntryList.length := rfl
    omega
  · obtain ⟨rs, n', hsend⟩ := h.ends ⟨framerHdrlen, [], 0, sender⟩ rfl
    obtain ⟨randomList, hfill⟩ := fillRandomList_of_send (by exact hmac) hnone hsend
    obtain ⟨hperm, hlength⟩ := fillRandomList_replicate hfill
    have hle := List.length_filterMap_le id randomList
    rw [hperm.length_eq] at hle
    omega

/-- Every neighbour is reached exactly if there is at most one, or there are at most 254 and two
entries would fit into one payload. -/
theorem reaches_iff {cfg : Config α} {framerHdrlen : ℤ} {addr : HlmacAddr}
    (hcast : cfg.hlmacCast = .unicast)
    (hfit : (4 + 1 + addr.len.toNat + 1 + cfg.addrSize : ℤ) ≤ maxPayload framerHdrlen)
    (sender : α) (timestamp : ℕ) (n : Node α) :
    Reaches cfg framerHdrlen addr sender timestamp n ↔
      (n.neighbourTable.targets sender).length ≤ 1 ∨
        (n.neighbourTable.targets sender).length ≤ 254 ∧
          (7 + addr.len.toNat + 2 * cfg.addrSize : ℤ) ≤ maxPayload framerHdrlen := by
  have hnew := numberOfNeighboursNew_eq n.neighbourTable sender
  have hmac : 0 < maxPayload framerHdrlen := by omega
  by_cases hmany : 256 ≤ (n.neighbourTable.targets sender).length
  · exact iff_of_false (not_reaches_of_many hcast hmac hmany) (by omega)
  by_cases hnil : n.neighbourTable.targets sender = []
  · have hnone : numberOfNeighboursNew n.neighbourTable sender = 0 := by rw [hnew, hnil]; rfl
    refine iff_of_true ⟨?_, ?_, ?_⟩ (.inl (by rw [hnil]; exact Nat.zero_le _))
    · rintro env rfl
      exact ⟨[], _, iotoriiSendSethlmac_of_none hcast hmac hnone⟩
    · rintro env rfl - -
      rw [iotoriiSendSethlmac_of_none hcast hmac hnone]
      exact Option.some_ne_none _
    · rintro env n' rfl hn'
      rw [iotoriiSendSethlmac_of_none hcast hmac hnone] at hn'
      obtain rfl := Option.some.inj hn'
      exact ⟨[], (List.append_nil _).symm, by rw [hnil]; exact List.Perm.refl _⟩
  have hpos := List.length_pos_iff.2 hnil
  have hle : (n.neighbourTable.targets sender).length ≤ 255 := by omega
  have hsome : numberOfNeighboursNew n.neighbourTable sender ≠ 0 := by omega
  constructor
  · intro h
    obtain ⟨rs, n', hsend⟩ := h.ends ⟨framerHdrlen, [], 0, sender⟩ rfl
    obtain ⟨randomList, hfill⟩ := fillRandomList_of_send (by exact hmac) hsome hsend
    obtain ⟨order, hperm, hqueue⟩ := iotoriiSendSethlmac_of_order timestamp hcast (by exact hfit)
      hnil hle hfill
    obtain ⟨sent, hsent, hperm'⟩ := h.each _ n' rfl hsend
    rw [hsend, Option.map_some, hsent, eq_comm, Option.map_eq_some_iff] at hqueue
    obtain ⟨nbs, hnbs, hqueued⟩ := hqueue
    have hlength := hperm'.length_eq
    rw [← List.append_cancel_left hqueued, List.length_map, List.length_map] at hlength
    have hall := (unicastTargets_sublist hnbs).eq_of_length (hlength.trans hperm.length_eq.symm)
    rw [hall] at hnbs
    rw [← hperm.length_eq]
    exact (unicastTargets_eq_self_iff (hperm.length_eq.trans_le hle)).1 hnbs
  · intro hcond
    -- the order is drawn, and all of it is queued
    have hall : ∀ env : Env α, env.framerHdrlen = framerHdrlen → ∀ randomList,
        fillRandomList (List.replicate (numberOfNeighboursNew n.neighbourTable sender) none)
          (n.neighbourTable.targets sender) env.priorities = some randomList →
        ∃ (n' : Node α) (order : List (NeighbourTableEntry α)),
          iotoriiSendSethlmac cfg env addr sender timestamp n = some n' ∧
          n'.payloadEntryList = n.payloadEntryList ++ order.map (advertTo timestamp addr) ∧
          order.Perm (n.neighbourTable.targets sender) := by
      rintro env rfl randomList hfill
      obtain ⟨order, hperm, hqueue⟩ :=
        iotoriiSendSethlmac_of_order timestamp hcast hfit hnil hle hfill
      rw [← hperm.length_eq] at hcond
      rw [(unicastTargets_eq_self_iff (hperm.length_eq.trans_le hle)).2 hcond] at hqueue
      obtain ⟨n', hn', hqueue⟩ := Option.map_eq_some_iff.1 hqueue
      exact ⟨n', order, hn', hqueue, hperm⟩
    refine ⟨fun env henv => ?_, fun env henv randomList hfill => ?_, fun env n' henv hn' => ?_⟩
    · have hroom : (n.neighbourTable.targets sender).length ≤
          numberOfNeighboursNew n.neighbourTable sender := by omega
      obtain ⟨rs, randomList, hfill⟩ := fillRandomList_replicate_ends hroom env.priorities
      obtain ⟨n', -, hn', -⟩ := hall { env with priorities := env.priorities ++ rs } henv _ hfill
      exact ⟨rs, n', hn'⟩
    · obtain ⟨n', -, hn', -⟩ := hall env henv randomList hfill
      rw [hn']
      exact Option.some_ne_none _
    · obtain ⟨randomList, hfill⟩ := fillRandomList_of_send (by rw [henv]; exact hmac) hsome hn'
      obtain ⟨n'', order, hn'', hqueue, hperm⟩ := hall env henv randomList hfill
      rw [hn'] at hn''
      obtain rfl := Option.some.inj hn''
      exact ⟨_, hqueue, hperm.map _⟩

/-- A node in the unicast build. -/
def oneByOneConfig : Config ℕ := { defaultConfig 7 with hlmacCast := .unicast }

/-- A node with two neighbours. -/
def twoNeighbours : Node ℕ := Node.boot.hear [5, 6]

/-- With a prefix of one id there is room for two entries. -/
theorem reaches_iff_twoNeighbours :
    Reaches oneByOneConfig 21 ⟨some [1], 1⟩ 7 0 twoNeighbours :=
  (reaches_iff rfl (by decide) 7 0 twoNeighbours).2 (.inr ⟨by decide, by decide⟩)

/-- With a prefix of 95 ids there is room for one, and the other neighbour gets nothing. -/
theorem not_reaches_longPrefix :
    ¬ Reaches oneByOneConfig 21 ⟨some (List.replicate 95 1), 95⟩ 7 0 twoNeighbours := by
  intro h
  obtain ⟨sent, hqueue, hperm⟩ := h.each ⟨21, [0, 1], 0, 7⟩ _ rfl rfl
  have hlength := congrArg List.length hqueue
  rw [List.length_append, hperm.length_eq] at hlength
  revert hlength
  decide

end Den2ne
