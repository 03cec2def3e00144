import Den2ne.Csma.Output
import Den2ne.Transition.Run
import Mathlib.Data.List.Range

/-!
# Accounts of the CSMA output queue

Every call of `csma_output_packet` is answered by one callback or has its packet
in a queue, the pools hold the blocks of the queues and of their packets, and
the packets for one receiver leave in the order of the calls. `Csma.Kept ns pending
s` states the accounts for the queues `ns`, in any order, while the calls of the
list `pending` are neither answered nor queued: the steps of a handler each keep
it, and between handlers no call is pending, no queue is empty, and the armed
timers are those of the queues.
-/

namespace Den2ne

open Keyed Transition

namespace Csma

variable {α β γ : Type*} [DecidableEq α]

/-- The calls whose packets were queued for this receiver. -/
def enqueuedTo (a : α) (s : Csma α β γ) : List ℕ :=
  (s.enqueued.filter (·.addr = a)).map (·.call)

/-- The calls whose packets left the queue of this receiver. -/
def departedTo (a : α) (s : Csma α β γ) : List ℕ :=
  (s.departures.filter (·.1 = a)).map (·.2)

theorem map_call_append (l : List (Enqueued α β)) (e : Enqueued α β) (a : α) :
    ((l ++ [e]).filter (·.addr = a)).map (·.call) =
      (l.filter (·.addr = a)).map (·.call) ++ if e.addr = a then [e.call] else [] := by
  rw [List.filter_append, List.map_append]
  by_cases ha : e.addr = a <;> simp [ha]

theorem map_snd_append (l : List (α × ℕ)) (d : α × ℕ) (a : α) :
    ((l ++ [d]).filter (·.1 = a)).map (·.2) =
      (l.filter (·.1 = a)).map (·.2) ++ if d.1 = a then [d.2] else [] := by
  rw [List.filter_append, List.map_append]
  by_cases ha : d.1 = a <;> simp [ha]

/-- The accounts of the queues `ns`, with the calls `pending` open. -/
structure Kept (ns : List (NeighborQueue α β γ)) (pending : List ℕ) (s : Csma α β γ) : Prop where
  addrs : (ns.map (·.addr)).Nodup
  neighborMemb : Pool.Holds s.neighborMemb (ns.map (·.block))
  packetMemb : Pool.Holds s.packetMemb ((ns.flatMap (·.packetQueue)).map (·.block))
  metadataMemb : Pool.Holds s.metadataMemb ((ns.flatMap (·.packetQueue)).map (·.ptr.block))
  calls : (pending ++ s.answers.map (·.call) ++ (ns.flatMap (·.packetQueue)).map (·.call)).Perm
    (List.range s.calls)
  order : (s.enqueued.map (·.call)).Pairwise (· < ·)
  enqueued_lt : ∀ e ∈ s.enqueued, e.call < s.calls
  queued : ∀ n ∈ ns, s.departedTo n.addr ++ n.packetQueue.map (·.call) = s.enqueuedTo n.addr
  departed : ∀ a, a ∉ ns.map (·.addr) → s.departedTo a = s.enqueuedTo a

/-- The accounts between two events. -/
structure Sound (s : Csma α β γ) : Prop where
  kept : Kept s.neighbourList [] s
  nonempty : ∀ n ∈ s.neighbourList, n.packetQueue ≠ []
  armed : s.transmitTimers.Perm (s.neighbourList.map (·.block))

variable {cfg : CsmaConfig α} {s : Csma α β γ} {n n' : NeighborQueue α β γ}
  {ns ns' : List (NeighborQueue α β γ)} {pending : List ℕ} {call : ℕ}

theorem Kept.of_perm (h : Kept ns pending s) (hns : ns.Perm ns') : Kept ns' pending s where
  addrs := (hns.map _).nodup_iff.1 h.addrs
  neighborMemb := h.neighborMemb.of_perm (hns.map _)
  packetMemb := h.packetMemb.of_perm ((hns.flatMap_right _).map _)
  metadataMemb := h.metadataMemb.of_perm ((hns.flatMap_right _).map _)
  calls := ((((hns.flatMap_right _).map _).symm).append_left _).trans h.calls
  order := h.order
  enqueued_lt := h.enqueued_lt
  queued n hn := h.queued n (hns.mem_iff.2 hn)
  departed a ha := h.departed a fun hmem => ha ((hns.map _).mem_iff.1 hmem)

/-- The accounts do not read the list, the timers, or the last delay. -/
theorem Kept.frame (h : Kept ns pending s) (l : List (NeighborQueue α β γ)) (t : List ℕ)
    (d : ℕ) : Kept ns pending
      { s with neighbourList := l, transmitTimers := t, transmissionDelay := d } :=
  ⟨h.addrs, h.neighborMemb, h.packetMemb, h.metadataMemb, h.calls, h.order, h.enqueued_lt,
    h.queued, h.departed⟩

/-- The counters of a queue may change. -/
theorem Kept.recount (h : Kept (n :: ns) pending s) (transmissions collisions : ℕ) :
    Kept ({ n with transmissions := transmissions, collisions := collisions } :: ns) pending s where
  addrs := h.addrs
  neighborMemb := h.neighborMemb
  packetMemb := h.packetMemb
  metadataMemb := h.metadataMemb
  calls := h.calls
  order := h.order
  enqueued_lt := h.enqueued_lt
  queued m hm := by
    rcases List.mem_cons.1 hm with rfl | hm
    · exact h.queued n List.mem_cons_self
    · exact h.queued m (List.mem_cons_of_mem n hm)
  departed := h.departed

/-- A new call is open. -/
theorem Kept.openCall (h : Kept ns [] s) (seqno : Option ℕ) :
    Kept ns [s.calls] { s with calls := s.calls + 1, seqno := seqno } where
  addrs := h.addrs
  neighborMemb := h.neighborMemb
  packetMemb := h.packetMemb
  metadataMemb := h.metadataMemb
  calls := by
    rw [List.range_succ]
    exact (h.calls.cons s.calls).trans (List.perm_append_singleton _ _).symm
  order := h.order
  enqueued_lt e he := Nat.lt_succ_of_lt (h.enqueued_lt e he)
  queued := h.queued
  departed := h.departed

/-- A callback closes its call. -/
theorem Kept.answer (h : Kept ns (call :: pending) s) (sent : γ) (status : MacTx) (numTx : ℕ) :
    Kept ns pending (s.callSentCallback call sent status numTx) where
  addrs := h.addrs
  neighborMemb := h.neighborMemb
  packetMemb := h.packetMemb
  metadataMemb := h.metadataMemb
  calls := by
    have hmove : (pending ++ call :: s.answers.map (·.call)).Perm
        (call :: pending ++ s.answers.map (·.call)) := List.perm_middle
    exact (hmove.append_right _).trans h.calls
  order := h.order
  enqueued_lt := h.enqueued_lt
  queued := h.queued
  departed := h.departed

/-- A new queue in a block of the pool. -/
theorem Kept.newQueue (h : Kept ns pending s) {block : ℕ} {memb : Pool.Blocks} {a : α}
    (hmemb : Pool.alloc s.neighborMemb = some (block, memb)) (ha : a ∉ ns.map (·.addr)) :
    Kept (⟨block, a, 0, 0, []⟩ :: ns) pending { s with neighborMemb := memb } where
  addrs := List.nodup_cons.2 ⟨ha, h.addrs⟩
  neighborMemb := h.neighborMemb.alloc hmemb
  packetMemb := h.packetMemb
  metadataMemb := h.metadataMemb
  calls := h.calls
  order := h.order
  enqueued_lt := h.enqueued_lt
  queued m hm := by
    rcases List.mem_cons.1 hm with rfl | hm
    · exact (List.append_nil _).trans (h.departed a ha)
    · exact h.queued m hm
  departed b hb := h.departed b fun hmem => hb (List.mem_cons_of_mem a hmem)

/-- An empty queue gives its block back. -/
theorem Kept.removeQueue (h : Kept (n :: ns) pending s) (hn : n.packetQueue = []) :
    Kept ns pending { s with neighborMemb := Pool.free s.neighborMemb n.block } where
  addrs := (List.nodup_cons.1 h.addrs).2
  neighborMemb := h.neighborMemb.free
  packetMemb := by
    have hp := h.packetMemb
    rw [List.flatMap_cons, hn] at hp
    exact hp
  metadataMemb := by
    have hp := h.metadataMemb
    rw [List.flatMap_cons, hn] at hp
    exact hp
  calls := by
    have hc := h.calls
    rw [List.flatMap_cons, hn] at hc
    exact hc
  order := h.order
  enqueued_lt := h.enqueued_lt
  queued m hm := h.queued m (List.mem_cons_of_mem n hm)
  departed a ha := by
    by_cases hna : a = n.addr
    · subst hna
      have hq := h.queued n List.mem_cons_self
      rw [hn, List.map_nil, List.append_nil] at hq
      exact hq
    · refine h.departed a fun hmem => ?_
      rcases List.mem_cons.1 hmem with heq | hmem
      · exact hna heq
      · exact ha hmem

/-- A packet goes to the end of a queue, in blocks of the pools. -/
theorem Kept.enqueue (h : Kept (n :: ns) (call :: pending) s) {q : PacketQueue β γ}
    {packetMemb metadataMemb : Pool.Blocks}
    (hp : Pool.alloc s.packetMemb = some (q.block, packetMemb))
    (hm : Pool.alloc s.metadataMemb = some (q.ptr.block, metadataMemb)) (hq : q.call = call)
    (hlt : call < s.calls) (hlast : ∀ e ∈ s.enqueued, e.call < call) (buf : β) :
    Kept ({ n with packetQueue := n.packetQueue ++ [q] } :: ns) pending
      { s with
        packetMemb := packetMemb
        metadataMemb := metadataMemb
        enqueued := s.enqueued ++ [⟨call, n.addr, buf⟩] } := by
  subst hq
  -- the packets of all queues, but for their order, are `q` and those of before
  have hperm : (({ n with packetQueue := n.packetQueue ++ [q] } :: ns).flatMap
      (·.packetQueue)).Perm (q :: (n :: ns).flatMap (·.packetQueue)) := by
    rw [List.flatMap_cons, List.flatMap_cons, List.append_assoc]
    exact List.perm_middle
  refine
    { addrs := h.addrs
      neighborMemb := h.neighborMemb
      packetMemb := (h.packetMemb.alloc hp).of_perm (hperm.map PacketQueue.block).symm
      metadataMemb := (h.metadataMemb.alloc hm).of_perm
        (hperm.map fun q : PacketQueue β γ => q.ptr.block).symm
      calls := ?_
      order := ?_
      enqueued_lt := ?_
      queued := ?_
      departed := ?_ }
  · refine ((hperm.map PacketQueue.call).append_left _).trans (List.perm_middle.trans ?_)
    exact h.calls
  · rw [List.map_append, List.pairwise_append]
    refine ⟨h.order, List.pairwise_singleton _ _, ?_⟩
    simpa using hlast
  · intro e he
    rcases List.mem_append.1 he with he | he
    · exact h.enqueued_lt e he
    · rw [List.mem_singleton.1 he]
      exact hlt
  · intro m hmem
    rcases List.mem_cons.1 hmem with rfl | hmem
    · have hbefore := h.queued n List.mem_cons_self
      rw [enqueuedTo, map_call_append, if_pos rfl, ← enqueuedTo, ← hbefore, List.map_append]
      exact (List.append_assoc _ _ _).symm
    · have hne : n.addr ≠ m.addr := fun heq =>
        (List.nodup_cons.1 h.addrs).1 (List.mem_map.2 ⟨m, hmem, heq.symm⟩)
      have hbefore := h.queued m (List.mem_cons_of_mem n hmem)
      rw [enqueuedTo, map_call_append, if_neg hne, List.append_nil]
      exact hbefore
  · intro a ha
    have hne : n.addr ≠ a := fun heq => ha (heq ▸ List.mem_cons_self)
    have hbefore := h.departed a ha
    rw [enqueuedTo, map_call_append, if_neg hne, List.append_nil]
    exact hbefore

/-- The head of a queue leaves it, and its blocks go back to the pools. -/
theorem Kept.dequeue (h : Kept (n :: ns) pending s) {q : PacketQueue β γ}
    {qs : List (PacketQueue β γ)} (hn : n.packetQueue = q :: qs) :
    Kept ({ n with packetQueue := qs } :: ns) (q.call :: pending)
      { s with
        metadataMemb := Pool.free s.metadataMemb q.ptr.block
        packetMemb := Pool.free s.packetMemb q.block
        departures := s.departures ++ [(n.addr, q.call)] } := by
  have hflat : (n :: ns).flatMap (·.packetQueue) =
      q :: ({ n with packetQueue := qs } :: ns).flatMap (·.packetQueue) := by
    rw [List.flatMap_cons, List.flatMap_cons, hn]
    rfl
  have hpackets := h.packetMemb
  have hmetadata := h.metadataMemb
  have hcalls := h.calls
  rw [hflat] at hpackets hmetadata hcalls
  refine
    { addrs := h.addrs
      neighborMemb := h.neighborMemb
      packetMemb := hpackets.free
      metadataMemb := hmetadata.free
      calls := List.perm_middle.symm.trans hcalls
      order := h.order
      enqueued_lt := h.enqueued_lt
      queued := ?_
      departed := ?_ }
  · intro m hmem
    rcases List.mem_cons.1 hmem with rfl | hmem
    · have hbefore := h.queued n List.mem_cons_self
      rw [hn] at hbefore
      rw [departedTo, map_snd_append, if_pos rfl, List.append_assoc]
      exact hbefore
    · have hne : n.addr ≠ m.addr := fun heq =>
        (List.nodup_cons.1 h.addrs).1 (List.mem_map.2 ⟨m, hmem, heq.symm⟩)
      have hbefore := h.queued m (List.mem_cons_of_mem n hmem)
      rw [departedTo, map_snd_append, if_neg hne, List.append_nil]
      exact hbefore
  · intro a ha
    have hne : n.addr ≠ a := fun heq => ha (heq ▸ List.mem_cons_self)
    have hbefore := h.departed a ha
    rw [departedTo, map_snd_append, if_neg hne, List.append_nil]
    exact hbefore

section

omit [DecidableEq α]

theorem put_perm (h : s.neighbourList.Perm (n :: ns)) (hnodup : ((n :: ns).map (·.block)).Nodup)
    (hblock : n'.block = n.block) : (s.put n').neighbourList.Perm (n' :: ns) := by
  have hns : ns.map (fun m => if m.block = n'.block then n' else m) = ns :=
    updateAt_of_notMem (hblock ▸ (List.nodup_cons.1 hnodup).1)
  have hperm := h.map fun m => if m.block = n'.block then n' else m
  rw [List.map_cons, if_pos hblock.symm, hns] at hperm
  exact hperm

theorem remove_perm (h : s.neighbourList.Perm (n :: ns))
    (hnodup : ((n :: ns).map (·.block)).Nodup) (hblock : n'.block = n.block) :
    (s.remove n').neighbourList.Perm ns := by
  have hpair : s.neighbourList.Pairwise fun a b =>
      decide (a.block = n'.block) → decide (b.block = n'.block) → False := by
    have hblocks : (s.neighbourList.map (·.block)).Nodup := (h.map _).nodup_iff.2 hnodup
    refine (List.pairwise_map.1 hblocks).imp fun {a b} hne ha hb => hne ?_
    exact (of_decide_eq_true ha).trans (of_decide_eq_true hb).symm
  refine (h.eraseP _ hpair).trans ?_
  rw [List.eraseP_cons_of_pos (by simp [hblock])]

/-- The queue that the search finds, and the others. -/
theorem exists_perm_of_mem (h : n ∈ s.neighbourList) : ∃ ns, s.neighbourList.Perm (n :: ns) := by
  obtain ⟨l₁, l₂, heq⟩ := List.append_of_mem h
  exact ⟨l₁ ++ l₂, heq ▸ List.perm_middle⟩

end

/-- A handler ends by writing back a queue that is not empty and arming its
timer. -/
theorem Sound.of_schedule (cfg : CsmaConfig α) (hkept : Kept (n' :: ns) [] s)
    (hlist : s.neighbourList.Perm (n :: ns))
    (hblock : n'.block = n.block) (hnonempty : ∀ m ∈ n' :: ns, m.packetQueue ≠ [])
    (htimers : s.transmitTimers.Perm (ns.map (·.block))) (draw : ℕ) :
    Sound ((s.put n').scheduleTransmission cfg draw n') := by
  have hnodup := hkept.neighborMemb.nodup
  have hput : (s.put n').neighbourList.Perm (n' :: ns) := by
    refine put_perm hlist ?_ hblock
    rw [List.map_cons] at hnodup ⊢
    exact hblock ▸ hnodup
  refine ⟨(hkept.of_perm hput.symm).frame _ _ _, fun m hm => hnonempty m (hput.mem_iff.1 hm), ?_⟩
  have hnot : n'.block ∉ s.transmitTimers := fun hmem =>
    (List.nodup_cons.1 hnodup).1 (htimers.mem_iff.1 hmem)
  have harmed : ((s.put n').scheduleTransmission cfg draw n').transmitTimers =
      n'.block :: s.transmitTimers := List.insert_of_not_mem hnot
  have hblocks := hput.map NeighborQueue.block
  rw [harmed]
  exact (htimers.cons n'.block).trans hblocks.symm

/-- A packet at the head of a queue whose timer has expired leaves it. -/
theorem Sound.txDone (hkept : Kept (n :: ns) [] s) (hlist : s.neighbourList.Perm (n' :: ns))
    (hblock : n.block = n'.block) (hnonempty : ∀ m ∈ ns, m.packetQueue ≠ [])
    (htimers : s.transmitTimers.Perm (ns.map (·.block))) {q : PacketQueue β γ}
    {qs : List (PacketQueue β γ)} (hn : n.packetQueue = q :: qs) (draw : ℕ) (status : MacTx) :
    Sound (s.txDone cfg draw status q n) := by
  have hdeq := hkept.dequeue hn
  have herase : n.packetQueue.eraseP (·.block = q.block) = qs := by
    rw [hn, List.eraseP_cons_of_pos (by simp)]
  have hnodup := hkept.neighborMemb.nodup
  cases qs with
  | cons q' qs =>
      have hkept' := (hdeq.recount 0 0).answer q.ptr.sent status n.transmissions
      have hsound := Sound.of_schedule cfg hkept' hlist hblock
        (by simpa using hnonempty) htimers draw
      simp only [Csma.txDone, freePacket, herase]
      exact hsound
  | nil =>
      have hkept' := (hdeq.removeQueue rfl).answer q.ptr.sent status n.transmissions
      have hnot : n.block ∉ s.transmitTimers := fun hmem =>
        (List.nodup_cons.1 hnodup).1 (htimers.mem_iff.1 hmem)
      have hremove : (s.remove n).neighbourList.Perm ns := by
        refine remove_perm hlist ?_ hblock
        rw [List.map_cons] at hnodup ⊢
        exact hblock ▸ hnodup
      have hblocks := hremove.map NeighborQueue.block
      simp only [Csma.txDone, freePacket, herase]
      exact ⟨(hkept'.of_perm hremove.symm).frame _ _ _,
        fun m hm => hnonempty m (hremove.mem_iff.1 hm),
        (List.erase_of_not_mem hnot ▸ htimers).trans hblocks.symm⟩

/-- A transmission, with any outcome, of the head of a queue whose timer has
expired. -/
theorem Sound.packetSent (hkept : Kept (n :: ns) [] s) (hlist : s.neighbourList.Perm (n :: ns))
    (hnonempty : ∀ m ∈ ns, m.packetQueue ≠ [])
    (htimers : s.transmitTimers.Perm (ns.map (·.block))) {q : PacketQueue β γ}
    {qs : List (PacketQueue β γ)} (hn : n.packetQueue = q :: qs) (draw : ℕ) (status : MacTx) :
    Sound (s.packetSent cfg draw n q status) := by
  have hdone : ∀ (transmissions collisions : ℕ) (status : MacTx),
      Sound (s.txDone cfg draw status q
        { n with transmissions := transmissions, collisions := collisions }) := by
    intro transmissions collisions status
    exact Sound.txDone (hkept.recount transmissions collisions) hlist rfl hnonempty htimers hn
      draw status
  have hagain : ∀ transmissions collisions : ℕ,
      Sound (s.rexmit cfg draw
        { n with transmissions := transmissions, collisions := collisions }) := by
    intro transmissions collisions
    refine Sound.of_schedule cfg (hkept.recount transmissions collisions) hlist rfl ?_ htimers draw
    intro m hm
    rcases List.mem_cons.1 hm with rfl | hm
    · exact hn ▸ List.cons_ne_nil q qs
    · exact hnonempty m hm
  cases status with
  | ok => exact hdone _ _ _
  | noack =>
      simp only [Csma.packetSent, noack]
      split
      · exact hdone _ _ _
      · exact hagain _ _
  | collision =>
      simp only [Csma.packetSent, collision]
      split
      · split
        · exact hdone _ _ _
        · exact hagain _ _
      · split
        · exact hdone _ _ _
        · exact hagain _ _
  | err => exact hdone _ _ _
  | errFatal => exact hdone _ _ _

theorem Sound.transmit (h : Sound s) {block draw : ℕ} {radio : Radio} {s' : Csma α β γ}
    (hs : Csma.step cfg (.transmit block radio draw) s = some s') : Sound s' := by
  simp only [Csma.step] at hs
  split at hs
  · simp only [transmitFromQueue] at hs
    split at hs
    · exact absurd hs (by simp)
    · rename_i harmed _ n hfind
      have hmem : n ∈ s.neighbourList := List.mem_of_find?_eq_some hfind
      have hblock : n.block = block := by simpa using List.find?_some hfind
      obtain ⟨ns, hlist⟩ := exists_perm_of_mem hmem
      have hnonempty : ∀ m ∈ ns, m.packetQueue ≠ [] := fun m hm =>
        h.nonempty m (hlist.mem_iff.2 (List.mem_cons_of_mem n hm))
      have htimers : (s.transmitTimers.erase block).Perm (ns.map (·.block)) := by
        have hperm := (h.armed.trans (hlist.map _)).erase block
        rw [List.map_cons, hblock, List.erase_cons_head] at hperm
        exact hperm
      split at hs
      · rename_i hempty
        exact absurd hempty (h.nonempty n hmem)
      · rename_i q qs hn
        rw [← Option.some.inj hs]
        exact Sound.packetSent ((h.kept.of_perm hlist).frame s.neighbourList
          (s.transmitTimers.erase block) s.transmissionDelay) hlist hnonempty htimers hn draw _
  · exact absurd hs (by simp)

/-- Before a packet is queued: the queue of its receiver may be empty, and its
timer is armed if it is not. -/
structure Found (n : NeighborQueue α β γ) (ns : List (NeighborQueue α β γ)) (call : ℕ)
    (s : Csma α β γ) : Prop where
  kept : Kept (n :: ns) [call] s
  list : s.neighbourList.Perm (n :: ns)
  nonempty : ∀ m ∈ ns, m.packetQueue ≠ []
  armed : s.transmitTimers.Perm
    ((if n.packetQueue.isEmpty then ns else n :: ns).map (·.block))
  lt : call < s.calls
  last : ∀ e ∈ s.enqueued, e.call < call

theorem Found.drop (h : Found n ns call s) (sent : γ) :
    Sound ((s.dropQueue n).dropPacket call sent) := by
  have hclosed := h.kept.answer sent .err 1
  have hnodup := h.kept.neighborMemb.nodup
  have harmed := h.armed
  rw [dropQueue]
  split
  · rename_i hlength
    have hempty := List.length_eq_zero_iff.1 hlength
    have hremove : (s.remove n).neighbourList.Perm ns := remove_perm h.list hnodup rfl
    have hblocks := hremove.map NeighborQueue.block
    rw [hempty, List.isEmpty_nil, if_pos rfl] at harmed
    exact ⟨((hclosed.removeQueue hempty).of_perm hremove.symm).frame _ _ _,
      fun m hm => h.nonempty m (hremove.mem_iff.1 hm), harmed.trans hblocks.symm⟩
  · rename_i hlength
    have hn : n.packetQueue ≠ [] := fun hempty => hlength (List.length_eq_zero_iff.2 hempty)
    have hblocks := h.list.map NeighborQueue.block
    rw [List.isEmpty_eq_false_iff.2 hn, if_neg Bool.false_ne_true] at harmed
    refine ⟨hclosed.of_perm h.list.symm, fun m hm => ?_, harmed.trans hblocks.symm⟩
    rcases List.mem_cons.1 (h.list.mem_iff.1 hm) with rfl | hm
    · exact hn
    · exact h.nonempty m hm

theorem Found.enqueuePacket (h : Found n ns call s) (env : OutputEnv) (sent : γ) (buf : β)
    (attr seqno : ℕ) : Sound (s.enqueuePacket cfg env sent buf attr seqno call n) := by
  have hdrop := h.drop sent
  rw [Csma.enqueuePacket]
  split
  · split
    · exact hdrop
    · rename_i block packetMemb hpacket
      dsimp only
      split
      · rw [Pool.free_alloc hpacket]
        exact hdrop
      · rename_i metadataBlock metadataMemb hmetadata
        split
        · set q : PacketQueue β γ :=
            ⟨block, seqno, buf, ⟨metadataBlock, sent, maxTransmissions attr⟩, call⟩
          have hkept := h.kept.enqueue (q := q) hpacket hmetadata rfl h.lt h.last buf
          have hnodup := h.kept.neighborMemb.nodup
          have harmed := h.armed
          have hnonempty : ∀ m ∈ { n with packetQueue := n.packetQueue ++ [q] } :: ns,
              m.packetQueue ≠ [] := by
            intro m hm
            rcases List.mem_cons.1 hm with rfl | hm
            · exact List.concat_ne_nil q n.packetQueue
            · exact h.nonempty m hm
          split
          · rename_i hhead
            rw [if_pos hhead] at harmed
            exact Sound.of_schedule cfg hkept h.list rfl hnonempty harmed env.delayDraw
          · rename_i hhead
            rw [if_neg hhead] at harmed
            have hput : (s.put { n with packetQueue := n.packetQueue ++ [q] }).neighbourList.Perm
                ({ n with packetQueue := n.packetQueue ++ [q] } :: ns) := put_perm h.list hnodup rfl
            have hblocks := hput.map NeighborQueue.block
            exact ⟨(hkept.of_perm hput.symm).frame _ _ _,
              fun m hm => hnonempty m (hput.mem_iff.1 hm), harmed.trans hblocks.symm⟩
        · rw [Pool.free_alloc hpacket, Pool.free_alloc hmetadata]
          exact hdrop
  · rename_i hfull
    have hn : n.packetQueue.length ≠ 0 := by
      have := cfg.csmaMaxPacketPerNeighbor_pos
      omega
    rw [dropQueue, if_neg hn] at hdrop
    exact hdrop

/-- The queue of the receiver is there. -/
theorem Sound.found (h : Sound s) {a : α} (hfind : s.neighbourList.find? (·.addr = a) = some n)
    (seqno : Option ℕ) : ∃ ns, s.neighbourList.Perm (n :: ns) ∧
      Found n ns s.calls { s with calls := s.calls + 1, seqno := seqno } := by
  have hmem : n ∈ s.neighbourList := List.mem_of_find?_eq_some hfind
  obtain ⟨ns, hlist⟩ := exists_perm_of_mem hmem
  have hn : ¬ n.packetQueue.isEmpty := by
    rw [List.isEmpty_iff]
    exact h.nonempty n hmem
  refine ⟨ns, hlist, (h.kept.openCall seqno).of_perm hlist, hlist, fun m hm => ?_, ?_,
    Nat.lt_succ_self _, h.kept.enqueued_lt⟩
  · exact h.nonempty m (hlist.mem_iff.2 (List.mem_cons_of_mem n hm))
  · rw [if_neg hn]
    exact h.armed.trans (hlist.map _)

/-- The receiver gets a new queue. -/
theorem Sound.found_new (h : Sound s) {a : α} {block : ℕ} {memb : Pool.Blocks}
    (hfind : s.neighbourList.find? (·.addr = a) = none)
    (hmemb : Pool.alloc s.neighborMemb = some (block, memb)) (seqno : Option ℕ) :
    Found ⟨block, a, 0, 0, []⟩ s.neighbourList s.calls { s with
      calls := s.calls + 1
      seqno := seqno
      neighborMemb := memb
      neighbourList := s.neighbourList ++ [⟨block, a, 0, 0, []⟩] } := by
  have ha : a ∉ s.neighbourList.map (·.addr) := by
    intro hmem
    obtain ⟨n, hn, rfl⟩ := List.mem_map.1 hmem
    simpa using List.find?_eq_none.1 hfind n hn
  have hnew := (h.kept.openCall seqno).newQueue hmemb ha
  exact ⟨hnew.frame _ _ _, List.perm_append_singleton _ _, h.nonempty, h.armed,
    Nat.lt_succ_self _, h.kept.enqueued_lt⟩

theorem Sound.csmaOutputPacket (h : Sound s) (env : OutputEnv) (sent : γ) (a : α) (buf : β)
    (attr : ℕ) : Sound (s.csmaOutputPacket cfg env sent a buf attr) := by
  simp only [Csma.csmaOutputPacket]
  split
  · rename_i n hfind
    obtain ⟨ns, -, hfound⟩ := h.found hfind (some ((nextSeqno env.seqnoDraw s.seqno + 1) % 256))
    exact hfound.enqueuePacket env sent buf attr _
  · rename_i hfind
    split
    · exact ⟨(h.kept.openCall _).answer sent .err 1, h.nonempty, h.armed⟩
    · rename_i block memb hmemb
      exact (h.found_new hfind hmemb _).enqueuePacket env sent buf attr _

theorem Sound.step (h : Sound s) {e : CsmaEvent α β γ} {s' : Csma α β γ}
    (hs : Csma.step cfg e s = some s') : Sound s' := by
  cases e with
  | output sent a buf attr env =>
      rw [← Option.some.inj hs]
      exact h.csmaOutputPacket env sent a buf attr
  | transmit block radio draw => exact h.transmit hs

theorem sound_init : Sound (init cfg : Csma α β γ) where
  kept :=
    { addrs := List.nodup_nil
      neighborMemb := Pool.holds_init _
      packetMemb := Pool.holds_init _
      metadataMemb := Pool.holds_init _
      calls := List.Perm.refl []
      order := List.Pairwise.nil
      enqueued_lt := fun e he => by cases he
      queued := fun n hn => by cases hn
      departed := fun a _ => rfl }
  nonempty := fun n hn => by cases hn
  armed := List.Perm.refl []

/-- What the output queue owes its callers and its pools. -/
structure AccountsFor (s : Csma α β γ) : Prop where
  answered : (s.answers.map (·.call)).Nodup
  calls : s.calls = s.answers.length + s.packets.length
  accounted : ∀ c, c < s.calls ↔ c ∈ s.answers.map (·.call) ∨ c ∈ s.packets.map (·.call)
  inOrder : ∀ a, (s.departedTo a).Pairwise (· < ·)
  nonempty : ∀ n ∈ s.neighbourList, n.packetQueue ≠ []
  armed : ∀ n ∈ s.neighbourList, n.block ∈ s.transmitTimers
  neighborMemb : Pool.Holds s.neighborMemb (s.neighbourList.map (·.block))
  packetMemb : Pool.Holds s.packetMemb (s.packets.map (·.block))
  metadataMemb : Pool.Holds s.metadataMemb (s.packets.map (·.ptr.block))

theorem Sound.accountsFor (h : Sound s) : AccountsFor s where
  answered := by
    have hnodup := h.kept.calls.nodup_iff.2 List.nodup_range
    exact hnodup.of_append_left
  calls := by
    have hlength := h.kept.calls.length_eq
    simpa [packets] using hlength.symm
  accounted c := by
    rw [← List.mem_range, ← h.kept.calls.mem_iff, List.nil_append, List.mem_append, packets]
  inOrder a := by
    have hpre : s.departedTo a <+: s.enqueuedTo a := by
      by_cases ha : a ∈ s.neighbourList.map (·.addr)
      · obtain ⟨n, hn, rfl⟩ := List.mem_map.1 ha
        exact ⟨_, h.kept.queued n hn⟩
      · exact (h.kept.departed a ha) ▸ List.prefix_refl _
    have hsorted : (s.enqueuedTo a).Pairwise (· < ·) :=
      h.kept.order.sublist (List.filter_sublist.map _)
    exact hsorted.sublist hpre.sublist
  nonempty := h.nonempty
  armed n hn := h.armed.mem_iff.2 (List.mem_map_of_mem hn)
  neighborMemb := h.kept.neighborMemb
  packetMemb := h.kept.packetMemb
  metadataMemb := h.kept.metadataMemb

end Csma

/-- In every run, for all pool sizes and outcomes, the output queue neither
loses nor duplicates a packet, and keeps its pools. -/
theorem always_accountsFor {α β γ : Type*} [DecidableEq α] (cfg : CsmaConfig α)
    (es : List (CsmaEvent α β γ)) :
    Always (Csma.step cfg) Csma.AccountsFor es (Csma.init cfg) :=
  always_of_step (I := Csma.Sound) (fun _ _ _ h hs => h.step hs) (fun _ h => h.accountsFor) es
    Csma.sound_init

end Den2ne
