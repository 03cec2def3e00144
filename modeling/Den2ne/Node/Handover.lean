import Den2ne.Node.Outgoing

/-!
# What the parents are sent

The broadcast build passes one packet for each parent to the MAC. The unicast build makes a single
entry for all of them: in `iotorii_handle_load_timer` the loop overwrites its destination and
`list_add` takes it out of the queue before it puts it at the end again (`queueForParents`), and in
`iotorii_handle_share_upstream_timer` it is queued once, also where no loop has set a destination.
-/

namespace Den2ne

variable {α : Type*} [DecidableEq α] {cfg : Config α} {n n' : Node α}

/-! ## One entry for all parents -/

section Loop

variable {ι : Type*} [DecidableEq ι] {entry : ι} {queue : List ι} {timer : Bool} {dest : α}
  {nbs : List (NeighbourTableEntry α)}

/-- `list_add` of an item that may be in the list. -/
def listAdd (queue : List ι) (entry : ι) : List ι := queue.erase entry ++ [entry]

/-- The loop of `iotorii_handle_load_timer` in the unicast build, on the queue as a list of
pointers, the send timer and the destination of the entry. -/
def queueForParents (entry : ι) :
    List (NeighbourTableEntry α) → List ι × Bool × α → List ι × Bool × α
  | [], s => s
  | nb :: nbs, (queue, timer, dest) =>
      queueForParents entry nbs
        (if nb.flag = 1 then (listAdd queue entry, timer || queue.isEmpty, nb.addr)
          else (queue, timer, dest))

/-- The addresses with `flag == 1`. -/
def parentAddrs (nbs : List (NeighbourTableEntry α)) : List α :=
  (nbs.filter (·.flag = 1)).map (·.addr)

section

omit [DecidableEq α]

theorem parentAddrs_cons (nb : NeighbourTableEntry α) :
    parentAddrs (nb :: nbs) =
      if nb.flag = 1 then nb.addr :: parentAddrs nbs else parentAddrs nbs := by
  unfold parentAddrs
  by_cases h : nb.flag = 1 <;> simp [h]

/-- Once the entry is the last of the queue, only its destination changes. -/
theorem queueForParents_concat (h : entry ∉ queue) :
    queueForParents entry nbs (queue ++ [entry], timer, dest) =
      (queue ++ [entry], timer, (parentAddrs nbs).getLast?.getD dest) := by
  induction nbs generalizing dest with
  | nil => rfl
  | cons nb nbs ih =>
      have hadd : listAdd (queue ++ [entry]) entry = queue ++ [entry] := by
        rw [listAdd, List.erase_append_right _ h, List.erase_cons_head, List.append_nil]
      rw [queueForParents, parentAddrs_cons]
      by_cases hflag : nb.flag = 1
      · have hempty : (queue ++ [entry]).isEmpty = false := by cases queue <;> rfl
        rw [if_pos hflag, if_pos hflag, hadd, hempty, Bool.or_false, ih, List.getLast?_cons]
        rfl
      · rw [if_neg hflag, if_neg hflag, ih]

/-- However many parents there are, the entry is queued once, and goes to the last one. -/
theorem queueForParents_eq (h : entry ∉ queue) :
    queueForParents entry nbs (queue, timer, dest) =
      match (parentAddrs nbs).getLast? with
      | none => (queue, timer, dest)
      | some parent => (queue ++ [entry], timer || queue.isEmpty, parent) := by
  induction nbs generalizing dest with
  | nil => rfl
  | cons nb nbs ih =>
      rw [queueForParents, parentAddrs_cons]
      by_cases hflag : nb.flag = 1
      · rw [if_pos hflag, if_pos hflag, listAdd, List.erase_of_not_mem h,
          queueForParents_concat h, List.getLast?_cons]
      · rw [if_neg hflag, if_neg hflag, ih]

/-- `iotorii_handle_load_timer` queues what its loop does: `entries` are the payload entries by
their addresses, and the new one is not in the queue. -/
theorem iotoriiHandleLoadTimer_loop (hcast : cfg.hlmacCast = .unicast) {node : ThisNode}
    {rest : List ThisNode} (hnode : n.nodeList = node :: rest) (entries : ι → PayloadEntry α)
    (hqueue : queue.map entries = n.payloadEntryList) (h : entry ∉ queue) :
    ∃ queue' timer' dest',
      queueForParents entry n.neighbourTable.entries (queue, n.sendSethlmacTimer, dest) =
        (queue', timer', dest') ∧
      (iotoriiHandleLoadTimer cfg n).payloadEntryList =
        queue'.map (Function.update entries entry ⟨.load node.load, dest', n.round cfg⟩) ∧
      (iotoriiHandleLoadTimer cfg n).sendSethlmacTimer = timer' := by
  have hold : ∀ new, queue.map (Function.update entries entry new) = n.payloadEntryList := by
    intro new
    rw [← hqueue]
    refine List.map_congr_left fun other hother => Function.update_of_ne ?_ _ _
    rintro rfl
    exact h hother
  have hempty : queue.isEmpty = n.payloadEntryList.isEmpty := by rw [← hqueue, List.isEmpty_map]
  refine ⟨_, _, _, rfl, ?_⟩
  rw [queueForParents_eq h, iotoriiHandleLoadTimer, hcast]
  dsimp only
  rw [hnode]
  cases hlast : (parentAddrs n.neighbourTable.entries).getLast? with
  | none =>
      have hlast' : n.neighbourTable.parents.getLast? = none := hlast
      simp only [hlast']
      exact ⟨(hold _).symm, trivial⟩
  | some parent =>
      have hlast' : n.neighbourTable.parents.getLast? = some parent := hlast
      simp only [hlast', Node.enqueue, List.map_append, hold, List.map_cons, List.map_nil,
        Function.update_self, hempty]
      exact ⟨rfl, trivial⟩

end

end Loop

/-! ## Who gets what -/

/-- The same node in the build with `cast`. -/
def Config.withCast (cfg : Config α) (cast : HlmacCast) : Config α := { cfg with hlmacCast := cast }

/-- What `n'` has queued or passed to the MAC and `n` had not, with the destinations. -/
def handedOver (n n' : Node α) : List (α × Payload α) :=
  (n'.payloadEntryList.drop n.payloadEntryList.length ++ n'.macOut.drop n.macOut.length).map
    fun e => (e.dest, e.payload)

/-- One message for each parent. -/
def Node.toParents (n : Node α) (payload : Payload α) : List (α × Payload α) :=
  n.neighbourTable.parents.map fun parent => (parent, payload)

/-- In both builds one execution of `iotorii_handle_load_timer` hands over the load of the node
once to each parent, and both hand over the same. -/
structure LoadToParents (cfg : Config α) (n : Node α) : Prop where
  exact : ∀ cast, ∃ load, (∀ node ∈ n.nodeList.head?, load = node.load) ∧
    (handedOver n (iotoriiHandleLoadTimer (cfg.withCast cast) n)).Perm (n.toParents (.load load))
  agree : ∀ message,
    message ∈ handedOver n (iotoriiHandleLoadTimer (cfg.withCast .unicast) n) ↔
      message ∈ handedOver n (iotoriiHandleLoadTimer (cfg.withCast .broadcast) n)

/-- The same of `iotorii_handle_share_upstream_timer`, whatever `malloc` leaves in an entry. -/
structure ShareToParents (cfg : Config α) (junk : α) (n : Node α) : Prop where
  exact : ∀ cast, ∃ n', iotoriiHandleShareUpstreamTimer (cfg.withCast cast) junk n = some n' ∧
    ∃ node ∈ n.nodeList.head?,
      (handedOver n n').Perm (n.toParents (.share (extraLoad node.load)))
  agree : ∀ nu nb, iotoriiHandleShareUpstreamTimer (cfg.withCast .unicast) junk n = some nu →
    iotoriiHandleShareUpstreamTimer (cfg.withCast .broadcast) junk n = some nb →
    ∀ message, message ∈ handedOver n nu ↔ message ∈ handedOver n nb

section

omit [DecidableEq α]

theorem handedOver_send {m : Node α} (hqueue : m.payloadEntryList = n.payloadEntryList)
    (hout : m.macOut = n.macOut) (es : List (PayloadEntry α)) :
    handedOver n (m.send cfg es) = es.map fun e => (e.dest, e.payload) := by
  rw [handedOver, Node.send_eq]
  dsimp only
  rw [hqueue, hout, List.drop_left, List.drop_left, Node.queued, Node.posted]
  cases cfg.hlmacCast with
  | broadcast => rfl
  | unicast => rw [List.append_nil]

theorem handedOver_load (cfg : Config α) (n : Node α) :
    handedOver n (iotoriiHandleLoadTimer cfg n) =
      (loadEntries cfg n).map fun e => (e.dest, e.payload) := by
  have h := iotoriiHandleLoadTimer_eq cfg n
  rw [h]
  exact handedOver_send (by rfl) (by rfl) _

theorem handedOver_share {junk : α} (h : iotoriiHandleShareUpstreamTimer cfg junk n = some n') :
    ∃ node ∈ n.nodeList.head?, handedOver n n' =
      (shareDests cfg junk n).map fun dest => (dest, .share (extraLoad node.load)) := by
  rw [iotoriiHandleShareUpstreamTimer_eq] at h
  split at h
  · cases h
  · rename_i node rest hnode
    obtain rfl := Option.some.inj h
    refine ⟨node, by rw [hnode]; rfl, ?_⟩
    refine (handedOver_send (n := n) (m := keepShare cfg node rest n) rfl rfl _).trans ?_
    rw [shareEntries, List.map_map]
    rfl

/-- The last one alone stands for all exactly if there is no other. -/
theorem getLast?_toList_perm {β : Type*} (parents : List α) (f : α → β) :
    (parents.getLast?.toList.map f).Perm (parents.map f) ↔ parents.length ≤ 1 := by
  constructor
  · intro h
    have hlength := h.length_eq
    rw [List.length_map, List.length_map] at hlength
    rw [← hlength]
    cases parents.getLast? <;> simp
  · intro h
    match parents, h with
    | [], _ => exact List.Perm.refl _
    | [_], _ => exact List.Perm.refl _

theorem handedOver_load_broadcast {node : ThisNode} {rest : List ThisNode}
    (hnode : n.nodeList = node :: rest) :
    handedOver n (iotoriiHandleLoadTimer (cfg.withCast .broadcast) n) =
      n.toParents (.load node.load) := by
  rw [handedOver_load, loadEntries, hnode]
  exact List.map_map

theorem handedOver_load_unicast {node : ThisNode} {rest : List ThisNode}
    (hnode : n.nodeList = node :: rest) :
    handedOver n (iotoriiHandleLoadTimer (cfg.withCast .unicast) n) =
      n.neighbourTable.parents.getLast?.toList.map fun parent => (parent, .load node.load) := by
  rw [handedOver_load, loadEntries, hnode]
  exact List.map_map

theorem handedOver_load_nil (hnode : n.nodeList = []) (cast : HlmacCast) :
    handedOver n (iotoriiHandleLoadTimer (cfg.withCast cast) n) = [] := by
  rw [handedOver_load, loadEntries, hnode]
  rfl

theorem loadToParents_iff (cfg : Config α) (n : Node α) :
    LoadToParents cfg n ↔
      n.neighbourTable.parents = [] ∨ n.nodeList ≠ [] ∧ n.neighbourTable.parents.length = 1 := by
  cases hnode : n.nodeList with
  | nil =>
      constructor
      · intro h
        obtain ⟨load, -, hperm⟩ := h.exact .broadcast
        rw [handedOver_load_nil hnode] at hperm
        exact .inl (List.map_eq_nil_iff.1 hperm.nil_eq.symm)
      · rintro (hnil | ⟨hne, -⟩)
        · refine ⟨fun cast => ⟨0, by simp [hnode], ?_⟩, fun _ => ?_⟩
          · rw [handedOver_load_nil hnode, Node.toParents, hnil]
            exact List.Perm.refl _
          · rw [handedOver_load_nil hnode, handedOver_load_nil hnode]
        · exact absurd rfl hne
  | cons node rest =>
      have hparents : n.neighbourTable.parents.length ≤ 1 ↔
          n.neighbourTable.parents = [] ∨ node :: rest ≠ [] ∧
            n.neighbourTable.parents.length = 1 := by
        rw [← List.length_eq_zero_iff, ne_eq, eq_false (List.cons_ne_nil node rest), not_false_eq_true,
          true_and]
        omega
      have hload : ∀ node' ∈ n.nodeList.head?, node.load = node'.load := by
        rw [hnode]
        rintro _ ⟨⟩
        rfl
      rw [← hparents]
      constructor
      · intro h
        obtain ⟨load, hhead, hperm⟩ := h.exact .unicast
        rw [handedOver_load_unicast hnode, ← hhead node (by rw [hnode]; rfl)] at hperm
        exact (getLast?_toList_perm _ _).1 hperm
      · intro hle
        have hperm := (getLast?_toList_perm n.neighbourTable.parents
          fun parent => (parent, Payload.load (α := α) node.load)).2 hle
        refine ⟨fun cast => ⟨node.load, hload, ?_⟩, fun message => ?_⟩
        · cases cast with
          | unicast => rwa [handedOver_load_unicast hnode]
          | broadcast => rw [handedOver_load_broadcast hnode]
        · rw [handedOver_load_unicast hnode, handedOver_load_broadcast hnode]
          exact hperm.mem_iff

theorem handedOver_share_broadcast (cfg : Config α) (junk : α) {node : ThisNode} {rest : List ThisNode}
    (hnode : n.nodeList = node :: rest) :
    ∃ n', iotoriiHandleShareUpstreamTimer (cfg.withCast .broadcast) junk n = some n' ∧
      handedOver n n' = n.toParents (.share (extraLoad node.load)) := by
  obtain ⟨n', hn'⟩ : ∃ n', iotoriiHandleShareUpstreamTimer (cfg.withCast .broadcast) junk n =
      some n' := by
    rw [iotoriiHandleShareUpstreamTimer_eq, hnode]
    exact ⟨_, rfl⟩
  obtain ⟨node', hhead, hout⟩ := handedOver_share hn'
  rw [hnode] at hhead
  obtain rfl := Option.some.inj hhead
  exact ⟨n', hn', hout⟩

theorem handedOver_share_unicast (cfg : Config α) (junk : α) {node : ThisNode} {rest : List ThisNode}
    (hnode : n.nodeList = node :: rest) :
    ∃ n', iotoriiHandleShareUpstreamTimer (cfg.withCast .unicast) junk n = some n' ∧
      handedOver n n' =
        [(n.neighbourTable.parents.getLast?.getD junk, .share (extraLoad node.load))] := by
  obtain ⟨n', hn'⟩ : ∃ n', iotoriiHandleShareUpstreamTimer (cfg.withCast .unicast) junk n =
      some n' := by
    rw [iotoriiHandleShareUpstreamTimer_eq, hnode]
    exact ⟨_, rfl⟩
  obtain ⟨node', hhead, hout⟩ := handedOver_share hn'
  rw [hnode] at hhead
  obtain rfl := Option.some.inj hhead
  exact ⟨n', hn', hout⟩

theorem shareToParents_iff (cfg : Config α) (junk : α) (n : Node α) :
    ShareToParents cfg junk n ↔
      n.nodeList ≠ [] ∧ n.neighbourTable.parents.length = 1 := by
  cases hnode : n.nodeList with
  | nil =>
      refine iff_of_false (fun h => ?_) fun h => h.1 rfl
      obtain ⟨-, -, node, hhead, -⟩ := h.exact .broadcast
      rw [hnode] at hhead
      cases hhead
  | cons node rest =>
      obtain ⟨nu, hnu, houtu⟩ := handedOver_share_unicast cfg junk hnode
      obtain ⟨nb, hnb, houtb⟩ := handedOver_share_broadcast cfg junk hnode
      have hhead : node ∈ n.nodeList.head? := by rw [hnode]; rfl
      constructor
      · intro h
        obtain ⟨n', hn', node', hhead', hperm⟩ := h.exact .unicast
        rw [hnu] at hn'
        obtain rfl := Option.some.inj hn'
        rw [houtu] at hperm
        have hlength := hperm.length_eq
        rw [Node.toParents, List.length_map] at hlength
        exact ⟨List.cons_ne_nil node rest, hlength.symm⟩
      · rintro ⟨-, hone⟩
        obtain ⟨parent, hparents⟩ := List.length_eq_one_iff.1 hone
        have hsame : handedOver n nu = handedOver n nb := by
          rw [houtu, houtb, Node.toParents, hparents]
          rfl
        refine ⟨fun cast => ?_, fun nu' nb' hnu' hnb' message => ?_⟩
        · cases cast with
          | unicast => exact ⟨nu, hnu, node, hhead, by rw [hsame, houtb]⟩
          | broadcast => exact ⟨nb, hnb, node, hhead, by rw [houtb]⟩
        · rw [hnu] at hnu'
          rw [hnb] at hnb'
          obtain rfl := Option.some.inj hnu'
          obtain rfl := Option.some.inj hnb'
          rw [hsame]

/-- LOAD goes to the parents and nowhere else, and in both builds the same, exactly if there is no
parent, or the node has a record and one parent; SHARE, exactly if the node has a record and one
parent. With several parents the unicast build serves the last one, and without a parent it sends
a SHARE all the same. -/
theorem toParents_iff (cfg : Config α) (junk : α) (n : Node α) :
    (LoadToParents cfg n ↔ n.neighbourTable.parents = [] ∨
      n.nodeList ≠ [] ∧ n.neighbourTable.parents.length = 1) ∧
    (ShareToParents cfg junk n ↔
      n.nodeList ≠ [] ∧ n.neighbourTable.parents.length = 1) :=
  ⟨loadToParents_iff cfg n, shareToParents_iff cfg junk n⟩

end

/-- A node with two parents. -/
def twoParents : Node ℕ :=
  { (Node.boot : Node ℕ) with
    nodeList := [⟨150⟩]
    neighbourTable := ⟨[⟨5, 0, 1, 1, 0, 0⟩, ⟨6, 0, 2, 1, 0, 0⟩], 2, by decide, rfl⟩ }

/-- The unicast build sends its load to the second parent only. -/
theorem not_loadToParents_twoParents : ¬ LoadToParents (defaultConfig 7) twoParents := by
  intro h
  have hmem := (h.agree (5, .load 150)).2 (by decide)
  revert hmem
  decide

end Den2ne
