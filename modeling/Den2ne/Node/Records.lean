import Den2ne.Node.Outgoing
import Den2ne.Node.StandingStep

/-!
# Drawing a node record

`iotorii_send_sethlmac` makes a node record with a random load, but not on every
way through it. `Draws` says when it does. `Node.drawn` are the loads that an event
draws, and `Node.drops` says that an event empties the list first.
-/

namespace Den2ne

variable {α : Type*} [DecidableEq α]

/-- `iotorii_send_sethlmac` makes a node record: the framer leaves room for a
payload, and there is no neighbour to tell, or the entry of one fits behind the
prefix. -/
def Draws (cfg : Config α) (env : Env α) (addr : HlmacAddr) (sender : α)
    (t : NeighbourTable α) : Prop :=
  0 < maxPayload env.framerHdrlen ∧ (numberOfNeighboursNew t sender = 0 ∨
    (addr.len.toNat + 2 + cfg.addrSize : ℤ) ≤ maxPayload env.framerHdrlen)

instance (cfg : Config α) (env : Env α) (addr : HlmacAddr) (sender : α) (t : NeighbourTable α) :
    Decidable (Draws cfg env addr sender t) :=
  inferInstanceAs (Decidable (_ ∧ (_ ∨ _)))

/-- The load of the record, if one is made. -/
def drawnLoads (cfg : Config α) (env : Env α) (addr : HlmacAddr) (sender : α)
    (t : NeighbourTable α) : List ℤ :=
  if Draws cfg env addr sender t then [(env.loadDraw % 200 : ℕ)] else []

/-- Only the addresses of the neighbours decide. -/
theorem drawnLoads_of_addrs {cfg : Config α} {env : Env α} {addr : HlmacAddr} {sender : α}
    {t t' : NeighbourTable α} (h : t'.addrs = t.addrs) :
    drawnLoads cfg env addr sender t' = drawnLoads cfg env addr sender t := by
  have hlen : ∀ t : NeighbourTable α, t.addrs.length = t.numberOfNeighbours := fun t => by
    rw [NeighbourTable.addrs, List.length_map, t.counted]
  have hnew : numberOfNeighboursNew t' sender = numberOfNeighboursNew t sender := by
    rw [numberOfNeighboursNew, numberOfNeighboursNew, ← hlen, ← hlen, h]
  have hdraws : Draws cfg env addr sender t' ↔ Draws cfg env addr sender t := by
    rw [Draws, Draws, hnew]
  simp only [drawnLoads, hdraws]

/-! ## The random list is full -/

/-- The counter is the number of neighbours to tell, as an 8-bit value. -/
theorem numberOfNeighboursNew_eq (t : NeighbourTable α) (sender : α) :
    numberOfNeighboursNew t sender = (t.targets sender).length % 256 := by
  have htargets : (t.targets sender).map (·.addr) = t.addrs.erase sender := by
    have herase := List.Nodup.erase_eq_filter t.nodup sender
    rw [NeighbourTable.addrs, herase, List.filter_map, NeighbourTable.targets]
    exact congrArg _ (List.filter_congr fun nb _ => by simp [bne, beq_eq_decide])
  have hlen : (t.targets sender).length = (t.addrs.erase sender).length := by
    rw [← htargets, List.length_map]
  have haddrs : t.addrs.length = t.numberOfNeighbours := by
    rw [NeighbourTable.addrs, List.length_map, t.counted]
  rw [hlen, List.length_erase, haddrs]
  rfl

/-- With fewer slots than neighbours the loop would draw for ever; so every
slot is taken when it ends. -/
theorem targets_length_of_fillRandomList {t : NeighbourTable α} {sender : α}
    {slots : List (Option (NeighbourTableEntry α))} {rs : List ℕ}
    (h : fillRandomList (List.replicate (numberOfNeighboursNew t sender) none)
      (t.targets sender) rs = some slots) :
    slots.length = (slots.filterMap id).length ∧
      slots.length = numberOfNeighboursNew t sender := by
  obtain ⟨hperm, hslots⟩ := fillRandomList_replicate h
  have hlen := hperm.length_eq
  have hle := List.length_filterMap_le id slots
  have hmod := Nat.mod_le (t.targets sender).length 256
  have hnew := numberOfNeighboursNew_eq t sender
  exact ⟨by omega, hslots⟩

theorem head_of_length_filterMap {β : Type*} {slots : List (Option β)}
    (h : slots.length = (slots.filterMap id).length) (hne : slots ≠ []) :
    ∃ x rest, slots = some x :: rest := by
  obtain ⟨x, rest, rfl⟩ := List.exists_cons_of_ne_nil hne
  cases x with
  | some x => exact ⟨x, rest, rfl⟩
  | none =>
      have hle := List.length_filterMap_le id rest
      have hlen : (none :: rest).length = (rest.filterMap id).length := h
      rw [List.length_cons] at hlen
      omega

omit [DecidableEq α] in
/-- With a full random list, nothing is queued exactly if the entry of one
neighbour does not fit. -/
theorem sethlmacEntries_eq_nil {cfg : Config α} {macMaxPayload : ℤ} {addr : HlmacAddr}
    {timestamp : ℕ} {slots : List (Option (NeighbourTableEntry α))}
    {es : List (PayloadEntry α)} (hfull : slots.length = (slots.filterMap id).length)
    (hne : slots ≠ [])
    (h : sethlmacEntries cfg macMaxPayload addr timestamp slots = some es) :
    es = [] ↔ ¬ (addr.len.toNat + 2 + cfg.addrSize : ℤ) ≤ macMaxPayload := by
  obtain ⟨x, rest, rfl⟩ := head_of_length_filterMap hfull hne
  unfold sethlmacEntries at h
  dsimp only at h
  split at h
  · rename_i hfit
    split at h
    · cases h
    · rename_i nbs hnbs
      have hnbs : nbs ≠ [] := fun hnil => by
        have hlen := (mapM_id_eq_some hnbs).2
        rw [hnil] at hlen
        cases hlen
      refine iff_of_false ?_ fun hnot => hnot hfit
      split at h
      · obtain rfl := Option.some.inj h
        exact List.cons_ne_nil _ _
      · obtain ⟨l, hl, rfl⟩ := Option.map_eq_some_iff.1 h
        rw [List.map_eq_nil_iff]
        unfold unicastTargets at hl
        split at hl
        · split at hl
          · cases hl
          · exact fun hnil => hnbs ((Option.some.inj hl).trans hnil)
        · rw [← Option.some.inj hl, List.take_eq_nil_iff]
          exact fun h => h.elim nofun hnbs
  · rename_i hfit
    exact iff_of_true (Option.some.inj h).symm hfit

/-! ## The records after an advertisement -/

omit [DecidableEq α] in
@[simp] theorem nodeList_armStatistic (cfg : Config α) (n : Node α) :
    (armStatistic cfg n).nodeList = n.nodeList := by
  unfold armStatistic
  split <;> rfl

theorem nodeList_iotoriiSendSethlmac {cfg : Config α} {env : Env α} {addr : HlmacAddr}
    {sender : α} {timestamp : ℕ} {n n' : Node α}
    (h : iotoriiSendSethlmac cfg env addr sender timestamp n = some n') :
    n'.nodeList.map (·.load) =
      n.nodeList.map (·.load) ++ drawnLoads cfg env addr sender n.neighbourTable := by
  unfold iotoriiSendSethlmac at h
  unfold drawnLoads
  dsimp only at h
  split at h
  · rename_i hroom
    obtain rfl := Option.some.inj h
    rw [if_neg fun hdraws => absurd hdraws.1 (by omega), List.append_nil, nodeList_armStatistic]
  · rename_i hroom
    have hpos : 0 < maxPayload env.framerHdrlen := by omega
    split at h
    · rename_i hnew
      obtain rfl := Option.some.inj h
      rw [if_pos ⟨hpos, .inl hnew⟩, nodeList_armStatistic, listThisNodeEntry, List.map_append]
      rfl
    · rename_i hnew
      split at h
      · cases h
      · rename_i slots hslots
        obtain ⟨hfull, hlen⟩ := targets_length_of_fillRandomList hslots
        have hne : slots ≠ [] := fun hnil => hnew (by rw [← hlen, hnil]; rfl)
        split at h
        · cases h
        · rename_i hes
          obtain rfl := Option.some.inj h
          have hfit := (sethlmacEntries_eq_nil hfull hne hes).1 rfl
          rw [if_neg fun hdraws => hdraws.2.elim hnew hfit, List.append_nil,
            nodeList_armStatistic]
        · rename_i es hnil hes
          obtain rfl := Option.some.inj h
          have hfit := not_not.1 fun hnot =>
            hnil ((sethlmacEntries_eq_nil hfull hne hes).2 hnot)
          rw [if_pos ⟨hpos, .inr hfit⟩, nodeList_armStatistic, listThisNodeEntry,
            Node.foldl_enqueue, List.map_append]
          rfl

/-! ## What an event draws and drops -/

/-- The message gives the node an address that it stores. -/
def Standing.storesFrom (cfg : Config α) (sender : α) (message : Payload α) (s : Standing α) :
    Bool :=
  match message with
  | .sethlmac timestamp _ _ =>
      let addr := iotoriiExtractAddress cfg.linkaddrNodeAddr message
      !hlmacIsUnspecifiedAddr addr && s.accepts timestamp addr &&
        (s.store cfg sender timestamp addr).1
  | _ => false

namespace Node

/-- The event brings a SetHLMAC whose address the node stores. -/
def Stores (cfg : Config α) (e : Event α) (n : Node α) : Prop :=
  match e with
  | .receive sender message _ =>
      sender ≠ cfg.linkaddrNodeAddr ∧ n.standing.storesFrom cfg sender message = true
  | _ => False

instance (cfg : Config α) (n : Node α) : ∀ e : Event α, Decidable (n.Stores cfg e)
  | .timer _ => inferInstanceAs (Decidable False)
  | .receive _ _ _ => inferInstanceAs (Decidable (_ ∧ _))

/-- An advertisement that the event makes draws a record. -/
def DrawsRecord (cfg : Config α) (env : Env α) (e : Event α) (n : Node α) : Prop :=
  match e with
  | .receive sender message _ =>
      Draws cfg env (iotoriiExtractAddress cfg.linkaddrNodeAddr message) sender n.neighbourTable
  | .timer _ => Draws cfg env (hlmacCreateRootAddr 1) cfg.linkaddrNodeAddr n.neighbourTable

instance (cfg : Config α) (env : Env α) (n : Node α) :
    ∀ e : Event α, Decidable (n.DrawsRecord cfg env e)
  | .timer _ => inferInstanceAs (Decidable (Draws ..))
  | .receive _ _ _ => inferInstanceAs (Decidable (Draws ..))

/-- The loads that an event draws. -/
def drawn (cfg : Config α) (env : Env α) (e : Event α) (n : Node α) : List ℤ :=
  if (e = .timer .sethlmac ∨ n.Stores cfg e) ∧ n.DrawsRecord cfg env e then
    [(env.loadDraw % 200 : ℕ)]
  else []

end Node

end Den2ne
