import Mathlib.Data.List.Perm.Basic
import Den2ne.Node.Step

/-!
# What a node sends

A node has two places for what it has made and the network has not taken over:
the queue `payload_entry_list` and `macOut`, what it passed to the MAC in this
step. `Node.send` puts LOAD and SHARE where the build puts them; the lemmas
below write the two upstream handlers as one `Node.send` each, and say which
SetHLMACs `iotorii_send_sethlmac` queues.
-/

namespace Den2ne

variable {α : Type*} [DecidableEq α] (cfg : Config α)

namespace Node

/-- Everything that the node has made and the network has not taken over. -/
def outgoing (n : Node α) : List (PayloadEntry α) := n.payloadEntryList ++ n.macOut

/-- Send upwards: straight to the MAC (broadcast) or into the queue (unicast). -/
def send (es : List (PayloadEntry α)) (n : Node α) : Node α :=
  match cfg.hlmacCast with
  | .broadcast => n.preparePackets es
  | .unicast => es.foldl enqueue n

section

omit [DecidableEq α]

/-- Queueing entries one by one appends them to the queue. -/
theorem foldl_enqueue (es : List (PayloadEntry α)) (n : Node α) :
    es.foldl enqueue n = { n with
      payloadEntryList := n.payloadEntryList ++ es
      sendSethlmacTimer := n.sendSethlmacTimer || (n.payloadEntryList.isEmpty && !es.isEmpty) } := by
  induction es generalizing n with
  | nil => simp
  | cons e es ih =>
      rw [List.foldl_cons, ih]
      simp [enqueue]

theorem outgoing_send (es : List (PayloadEntry α)) (n : Node α) :
    (n.send cfg es).outgoing.Perm (n.outgoing ++ es) := by
  unfold send outgoing
  split
  · rw [preparePackets, List.append_assoc]
  · rw [foldl_enqueue, List.append_assoc, List.append_assoc]
    exact List.perm_append_comm.append_left _

end

/-- The entries of `es` that the build queues. -/
def queued (es : List (PayloadEntry α)) : List (PayloadEntry α) :=
  match cfg.hlmacCast with
  | .broadcast => []
  | .unicast => es

/-- The entries of `es` that the build hands to the MAC at once. -/
def posted (es : List (PayloadEntry α)) : List (PayloadEntry α) :=
  match cfg.hlmacCast with
  | .broadcast => es
  | .unicast => []

omit [DecidableEq α] in
/-- Sending changes the queue, its timer and what the MAC has got. -/
theorem send_eq (es : List (PayloadEntry α)) (n : Node α) : n.send cfg es = { n with
    payloadEntryList := n.payloadEntryList ++ queued cfg es
    macOut := n.macOut ++ posted cfg es
    sendSethlmacTimer := n.sendSethlmacTimer ||
      (n.payloadEntryList.isEmpty && !(queued cfg es).isEmpty) } := by
  unfold send queued posted
  cases cfg.hlmacCast with
  | broadcast => simp [preparePackets]
  | unicast => simp [foldl_enqueue]

end Node

/-! ## LOAD and SHARE -/

/-- The LOADs that `iotorii_handle_load_timer` sends: to every parent
(broadcast), or to the last one (unicast). -/
def loadEntries (n : Node α) : List (PayloadEntry α) :=
  match n.nodeList with
  | [] => []
  | node :: _ =>
      (match cfg.hlmacCast with
        | .broadcast => n.neighbourTable.parents
        | .unicast => n.neighbourTable.parents.getLast?.toList).map fun parent =>
          ⟨.load node.load, parent, n.round cfg⟩

/-- The destinations of a SHARE; in the unicast build there is always one. -/
def shareDests (junk : α) (n : Node α) : List α :=
  match cfg.hlmacCast with
  | .broadcast => n.neighbourTable.parents
  | .unicast => [n.neighbourTable.parents.getLast?.getD junk]

/-- The SHAREs of the load above `100`. -/
def shareEntries (junk : α) (n : Node α) (load : ℤ) : List (PayloadEntry α) :=
  (shareDests cfg junk n).map fun dest => ⟨.share (extraLoad load), dest, n.round cfg⟩

omit [DecidableEq α] in
/-- `iotorii_handle_load_timer` sends `loadEntries` and changes nothing else. -/
theorem iotoriiHandleLoadTimer_eq (n : Node α) : iotoriiHandleLoadTimer cfg n =
    ({ n with history := { n.history with
        loadRuns := n.history.loadRuns + 1 } } : Node α).send cfg (loadEntries cfg n) := by
  unfold iotoriiHandleLoadTimer loadEntries Node.send
  cases hlist : n.nodeList with
  | nil => cases cfg.hlmacCast <;> simp [Node.preparePackets]
  | cons node rest =>
      cases cfg.hlmacCast with
      | broadcast => rfl
      | unicast =>
          dsimp only
          cases n.neighbourTable.parents.getLast? with
          | none => rfl
          | some dest => rfl

/-- What `iotorii_handle_share_upstream_timer` does to the node besides sending:
a common node keeps a load of `100`. -/
def keepShare (node : ThisNode) (rest : List ThisNode) (n : Node α) : Node α :=
  { n with
    nodeList := (match cfg.nodeType with
      | .common => { node with load := 100 } :: rest
      | .root => node :: rest)
    neighbourTable := n.neighbourTable.setParentsInOut (toShort (-extraLoad node.load))
    history := { n.history with
      shareCalls := (node.load, n.neighbourTable.parents.length) :: n.history.shareCalls } }

omit [DecidableEq α] in
theorem iotoriiHandleShareUpstreamTimer_eq (junk : α) (n : Node α) :
    iotoriiHandleShareUpstreamTimer cfg junk n =
      match n.nodeList with
      | [] => none
      | node :: rest =>
          some ((keepShare cfg node rest n).send cfg (shareEntries cfg junk n node.load)) := by
  unfold iotoriiHandleShareUpstreamTimer
  cases n.nodeList with
  | nil => rfl
  | cons node rest =>
      unfold Node.send shareEntries shareDests keepShare
      cases cfg.hlmacCast <;> rfl

/-! ## The random order of the neighbours -/

theorem drawSlot_eq_some {β : Type*} {slots : List (Option β)} {rs rs' : List ℕ} {i : ℕ}
    (h : drawSlot slots rs = some (i, rs')) : slots[i]? = some none := by
  induction rs with
  | nil => cases h
  | cons r rs ih =>
      rw [drawSlot] at h
      split at h
      · rename_i hfree
        rw [Option.some.injEq, Prod.mk.injEq] at h
        rw [← h.1]
        exact hfree
      · exact ih h

/-- Filling a free slot adds one neighbour to those that are placed. -/
theorem filterMap_set_perm {β : Type*} {slots : List (Option β)} {i : ℕ} (x : β)
    (h : slots[i]? = some none) :
    ((slots.set i (some x)).filterMap id).Perm (x :: slots.filterMap id) := by
  induction slots generalizing i with
  | nil => cases h
  | cons y slots ih =>
      cases i with
      | zero =>
          rw [List.getElem?_cons_zero, Option.some.injEq] at h
          subst h
          exact List.Perm.refl _
      | succ i =>
          rw [List.getElem?_cons_succ] at h
          have hrest := ih h
          cases y with
          | none => simpa using hrest
          | some y =>
              rw [List.set_cons_succ]
              exact (hrest.cons y).trans (List.Perm.swap x y _)

theorem fillRandomList_perm {β : Type*} {slots slots' : List (Option β)} {nbs : List β}
    {rs : List ℕ} (h : fillRandomList slots nbs rs = some slots') :
    (slots'.filterMap id).Perm (nbs ++ slots.filterMap id) := by
  induction nbs generalizing slots rs with
  | nil =>
      obtain rfl := Option.some.inj h
      exact List.Perm.refl _
  | cons nb nbs ih =>
      rw [fillRandomList] at h
      split at h
      · cases h
      · rename_i r rs' hdraw
        refine (ih h).trans ?_
        refine ((filterMap_set_perm nb (drawSlot_eq_some hdraw)).append_left nbs).trans ?_
        exact List.perm_middle

theorem length_fillRandomList {β : Type*} {slots slots' : List (Option β)} {nbs : List β}
    {rs : List ℕ} (h : fillRandomList slots nbs rs = some slots') :
    slots'.length = slots.length := by
  induction nbs generalizing slots rs with
  | nil =>
      obtain rfl := Option.some.inj h
      rfl
  | cons nb nbs ih =>
      rw [fillRandomList] at h
      split at h
      · cases h
      · exact (ih h).trans List.length_set

theorem mapM_id_eq_some {β : Type*} {slots : List (Option β)} {nbs : List β}
    (h : slots.mapM id = some nbs) : slots.filterMap id = nbs ∧ slots.length = nbs.length := by
  induction slots generalizing nbs with
  | nil =>
      obtain rfl := Option.some.inj h
      exact ⟨rfl, rfl⟩
  | cons x slots ih =>
      cases x with
      | none => cases h
      | some x =>
          rw [List.mapM_cons] at h
          cases hrest : slots.mapM id with
          | none =>
              rw [hrest] at h
              cases h
          | some rest =>
              rw [hrest] at h
              obtain rfl := Option.some.inj h
              obtain ⟨hfilter, hlen⟩ := ih hrest
              exact ⟨congrArg (x :: ·) hfilter, congrArg (· + 1) hlen⟩

/-- What is in the slots, and how many there are. -/
theorem fillRandomList_replicate {β : Type*} {slots : List (Option β)} {nbs : List β} {m : ℕ}
    {rs : List ℕ} (h : fillRandomList (List.replicate m none) nbs rs = some slots) :
    (slots.filterMap id).Perm nbs ∧ slots.length = m := by
  have hperm := fillRandomList_perm h
  rw [List.filterMap_replicate_of_none rfl, List.append_nil] at hperm
  exact ⟨hperm, by rw [length_fillRandomList h, List.length_replicate]⟩

/-- The neighbours in random order are the targets in some order. -/
theorem fillRandomList_targets {β : Type*} {n : ℕ} {slots : List (Option β)} {targets nbs : List β}
    {rs : List ℕ} (h : fillRandomList (List.replicate n none) targets rs = some slots)
    (hnbs : slots.mapM id = some nbs) : nbs.Perm targets := by
  rw [← (mapM_id_eq_some hnbs).1]
  exact (fillRandomList_replicate h).1

/-! ## SetHLMAC -/

section

omit [DecidableEq α]

theorem packEntries_sublist (macMaxPayload : ℤ) (addrSize datalenCounter : ℕ)
    (nbs : List (NeighbourTableEntry α)) :
    (packEntries macMaxPayload addrSize datalenCounter nbs).Sublist nbs := by
  induction nbs generalizing datalenCounter with
  | nil => exact List.Sublist.refl _
  | cons nb nbs ih =>
      rw [packEntries]
      refine List.Sublist.cons_cons nb ?_
      split
      · exact ih _
      · exact List.nil_sublist nbs

theorem unicastTargets_sublist {macMaxPayload : ℤ} {addrSize : ℕ} {addr : HlmacAddr}
    {nbs l : List (NeighbourTableEntry α)}
    (h : unicastTargets macMaxPayload addrSize addr nbs = some l) : l.Sublist nbs := by
  unfold unicastTargets at h
  split at h
  · split at h
    · cases h
    · obtain rfl := Option.some.inj h
      exact List.Sublist.refl _
  · obtain rfl := Option.some.inj h
    exact List.take_sublist 1 nbs

end

/-- A payload entry that advertises `addr`: a SetHLMAC of its round that
assigns ids to neighbours other than the sender, under the ids they have in
the table; to one of them, its destination, in the unicast build. -/
structure Advert (t : NeighbourTable α) (addr : HlmacAddr) (sender : α) (timestamp : ℕ)
    (e : PayloadEntry α) : Prop where
  round : e.round = timestamp
  len_le : addr.len.toNat ≤ 123
  broadcast : cfg.hlmacCast = .broadcast → e.dest = cfg.linkaddrNull
  unicast : cfg.hlmacCast = .unicast →
    ∃ id, e.payload = .sethlmac timestamp addr.ids [(id, e.dest)]
  payload : ∃ assigned, e.payload = .sethlmac timestamp addr.ids assigned ∧
    ∀ x ∈ assigned, ∃ nb ∈ t.entries, nb.addr ≠ sender ∧ x = (nb.numberId, nb.addr)

theorem maxPayload_le (framerHdrlen : ℤ) : maxPayload framerHdrlen ≤ 125 := by
  unfold maxPayload csmaMacLen csmaMacMaxHeader
  split <;> omega

theorem advert_of_sethlmacEntries {macMaxPayload : ℤ} (hmac : macMaxPayload ≤ 125)
    {addr : HlmacAddr} {timestamp : ℕ} {randomList : List (Option (NeighbourTableEntry α))}
    {es : List (PayloadEntry α)} {t : NeighbourTable α} {sender : α}
    (hmem : ∀ nbs, randomList.mapM id = some nbs → ∀ nb ∈ nbs, nb ∈ t.targets sender)
    (h : sethlmacEntries cfg macMaxPayload addr timestamp randomList = some es) :
    ∀ e ∈ es, Advert cfg t addr sender timestamp e := by
  unfold sethlmacEntries at h
  split at h
  · split at h
    · rename_i hfit
      have hlen : addr.len.toNat ≤ 123 := by omega
      split at h
      · cases h
      · rename_i nbs hnbs
        have htarget : ∀ l : List (NeighbourTableEntry α), l.Sublist nbs →
            ∀ x ∈ l.map fun nb => (nb.numberId, nb.addr),
              ∃ nb ∈ t.entries, nb.addr ≠ sender ∧ x = (nb.numberId, nb.addr) := by
          intro l hl x hx
          obtain ⟨nb, hnb, rfl⟩ := List.mem_map.1 hx
          obtain ⟨hin, hne⟩ := List.mem_filter.1 (hmem nbs hnbs nb (hl.subset hnb))
          exact ⟨nb, hin, by simpa using hne, rfl⟩
        split at h
        · rename_i hcast
          obtain rfl := Option.some.inj h
          intro e he
          obtain rfl := List.mem_singleton.1 he
          refine ⟨rfl, hlen, fun _ => rfl, fun hu => ?_, _, rfl,
            htarget _ (packEntries_sublist _ _ _ nbs)⟩
          rw [hcast] at hu
          cases hu
        · rename_i hcast
          obtain ⟨l, hl, rfl⟩ := Option.map_eq_some_iff.1 h
          intro e he
          obtain ⟨nb, hnb, rfl⟩ := List.mem_map.1 he
          refine ⟨rfl, hlen, fun hb => ?_, fun _ => ⟨nb.numberId, rfl⟩, _, rfl, ?_⟩
          · rw [hcast] at hb
            cases hb
          exact htarget [nb] ((List.singleton_sublist.2 hnb).trans (unicastTargets_sublist hl))
    · obtain rfl := Option.some.inj h
      intro e he
      cases he
  · obtain rfl := Option.some.inj h
    intro e he
    cases he

/-- `iotorii_send_sethlmac` queues adverts, may draw a load, and arms the
statistic timer in the broadcast build; nothing else changes. -/
theorem iotoriiSendSethlmac_eq_some {env : Env α} {addr : HlmacAddr} {sender : α}
    {timestamp : ℕ} {n n' : Node α}
    (h : iotoriiSendSethlmac cfg env addr sender timestamp n = some n') :
    ∃ (es : List (PayloadEntry α)) (drawn : List ThisNode),
      n' = armStatistic cfg { n with
        payloadEntryList := n.payloadEntryList ++ es
        nodeList := n.nodeList ++ drawn
        sendSethlmacTimer := n.sendSethlmacTimer ||
          (n.payloadEntryList.isEmpty && !es.isEmpty) } ∧
      ∀ e ∈ es, Advert cfg n.neighbourTable addr sender timestamp e := by
  unfold iotoriiSendSethlmac at h
  dsimp only at h
  split at h
  · exact ⟨[], [], by simpa using (Option.some.inj h).symm, by simp⟩
  · split at h
    · exact ⟨[], [⟨_⟩], by
        simpa [listThisNodeEntry] using (Option.some.inj h).symm, by simp⟩
    · split at h
      · cases h
      · rename_i randomList hrandom
        split at h
        · cases h
        · exact ⟨[], [], by simpa using (Option.some.inj h).symm, by simp⟩
        · rename_i es hes hentries
          rw [Node.foldl_enqueue] at h
          refine ⟨es, [⟨_⟩], (Option.some.inj h).symm, ?_⟩
          refine advert_of_sethlmacEntries cfg (maxPayload_le _) ?_ hentries
          intro nbs hnbs nb hnb
          exact (fillRandomList_targets hrandom hnbs).subset hnb

end Den2ne
