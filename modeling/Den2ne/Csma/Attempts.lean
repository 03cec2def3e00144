import Den2ne.Csma.Accounting

/-!
# Bounded attempts of the CSMA output queue

`noack` counts a transmission and clears the collisions; `collision` counts a collision,
and a transmission for every `CSMA_MAX_BACKOFF + 1` of them in a row. `attempt` is what the
two do to the counters, `left` bounds the attempts that remain with them: each attempt that
does not end the packet lowers it, whatever the outcomes. So the packet at the head of a
queue is gone after `max_transmissions * (CSMA_MAX_BACKOFF + 1)` calls of
`send_one_packet`, while packets come and other queues send.
-/

namespace Den2ne

open Keyed Transition

/-- `backoff_period`, with or without `CONTIKI_TARGET_COOJA`. -/
def backoffPeriod (cooja : Bool) (clockSecond : ℕ) : ℕ :=
  max ((if cooja then 20 * clockSecond else clockSecond) / 3125) 1

/-- `max_transmission_delay`. -/
def maxTransmissionDelay {α : Type*} (cfg : CsmaConfig α) : ℕ :=
  (2 ^ csmaMaxBe - 1) * cfg.backoffPeriod

theorem backoffPeriod_pos (cooja : Bool) (clockSecond : ℕ) :
    0 < backoffPeriod cooja clockSecond := Nat.lt_of_lt_of_le Nat.one_pos (Nat.le_max_right _ _)

namespace Csma

/-- Whatever is drawn, the delay is below that of the longest backoff. -/
theorem backoffDelay_lt {α : Type*} {cfg : CsmaConfig α} (h : 0 < cfg.backoffPeriod)
    (draw collisions : ℕ) : backoffDelay cfg draw collisions < maxTransmissionDelay cfg := by
  have hexp : min (collisions + csmaMinBe) csmaMaxBe ≤ csmaMaxBe := Nat.min_le_right _ _
  have hpos : 0 < 2 ^ min (collisions + csmaMinBe) csmaMaxBe - 1 := by
    have hne : min (collisions + csmaMinBe) csmaMaxBe ≠ 0 := by
      rw [csmaMinBe, csmaMaxBe]
      omega
    have := Nat.one_lt_two_pow hne
    omega
  have hle : 2 ^ min (collisions + csmaMinBe) csmaMaxBe - 1 ≤ 2 ^ csmaMaxBe - 1 :=
    Nat.sub_le_sub_right (Nat.pow_le_pow_right (by decide) hexp) 1
  rw [backoffDelay, if_pos (Nat.mul_pos hpos h)]
  exact Nat.lt_of_lt_of_le (Nat.mod_lt _ (Nat.mul_pos hpos h))
    (Nat.mul_le_mul_right cfg.backoffPeriod hle)

/-! ## Counters -/

/-- What an attempt with this outcome makes of the counters of the head of a queue, as
transmissions and collisions; `none` if it is done with the packet. -/
def attempt (maxTransmissions : ℕ) (status : MacTx) (transmissions collisions : ℕ) :
    Option (ℕ × ℕ) :=
  match status with
  | .noack =>
      if maxTransmissions ≤ (transmissions + 1) % 256 then none
      else some ((transmissions + 1) % 256, 0)
  | .collision =>
      if csmaMaxBackoff < (collisions + 1) % 256 then
        if maxTransmissions ≤ (transmissions + 1) % 256 then none
        else some ((transmissions + 1) % 256, 0)
      else if maxTransmissions ≤ transmissions then none
      else some (transmissions, (collisions + 1) % 256)
  | _ => none

/-- The attempts that remain with these counters, at most. -/
def left (maxTransmissions transmissions collisions : ℕ) : ℕ :=
  (maxTransmissions - transmissions) * (csmaMaxBackoff + 1) - collisions

/-- The counters of a packet that is still tried. -/
def Within (maxTransmissions transmissions collisions : ℕ) : Prop :=
  transmissions < maxTransmissions ∧ maxTransmissions < 256 ∧ collisions ≤ csmaMaxBackoff

theorem left_pos {m t c : ℕ} (h : Within m t c) : 0 < left m t c := by
  obtain ⟨ht, -, hc⟩ := h
  simp only [left, csmaMaxBackoff] at *
  omega

theorem left_le (m t c : ℕ) : left m t c ≤ m * (csmaMaxBackoff + 1) :=
  Nat.le_trans (Nat.sub_le _ _) (Nat.mul_le_mul_right _ (Nat.sub_le m t))

/-- An attempt that is not the last leaves fewer. -/
theorem left_attempt {m t c t' c' : ℕ} {status : MacTx} (h : Within m t c)
    (ha : attempt m status t c = some (t', c')) :
    Within m t' c' ∧ left m t' c' + 1 ≤ left m t c := by
  obtain ⟨ht, hm, hc⟩ := h
  have htmod : (t + 1) % 256 = t + 1 := Nat.mod_eq_of_lt (by omega)
  have hcmod : (c + 1) % 256 = c + 1 := Nat.mod_eq_of_lt (by rw [csmaMaxBackoff] at hc; omega)
  -- a transmission is counted, or a collision
  have hor : (t' = t + 1 ∧ c' = 0 ∧ t + 1 < m) ∨
      (t' = t ∧ c' = c + 1 ∧ c + 1 ≤ csmaMaxBackoff) := by
    cases status with
    | noack =>
        rw [attempt, htmod] at ha
        split at ha
        · exact absurd ha (by simp)
        · obtain ⟨rfl, rfl⟩ := Prod.mk.inj (Option.some.inj ha)
          exact .inl ⟨rfl, rfl, by omega⟩
    | collision =>
        rw [attempt, htmod, hcmod] at ha
        split at ha
        · split at ha
          · exact absurd ha (by simp)
          · obtain ⟨rfl, rfl⟩ := Prod.mk.inj (Option.some.inj ha)
            exact .inl ⟨rfl, rfl, by omega⟩
        · split at ha
          · exact absurd ha (by simp)
          · obtain ⟨rfl, rfl⟩ := Prod.mk.inj (Option.some.inj ha)
            exact .inr ⟨rfl, rfl, by omega⟩
    | ok => exact absurd ha (by simp [attempt])
    | err => exact absurd ha (by simp [attempt])
    | errFatal => exact absurd ha (by simp [attempt])
  simp only [Within, left, csmaMaxBackoff] at *
  omega

theorem maxTransmissions_pos (attr : ℕ) : 0 < maxTransmissions attr := by
  rw [maxTransmissions]
  split
  · exact Nat.succ_pos _
  · omega

theorem maxTransmissions_lt (attr : ℕ) : maxTransmissions attr < 256 := by
  rw [maxTransmissions, csmaMaxFrameRetries]
  split <;> omega

/-! ## The queues after a step -/

variable {α β γ : Type*} [DecidableEq α] {cfg : CsmaConfig α} {s s' : Csma α β γ}
  {n : NeighborQueue α β γ} {ns : List (NeighborQueue α β γ)} {call : ℕ}

section

omit [DecidableEq α]

variable (cfg) in
/-- The head of a queue is gone, and with it the queue if nothing else is in it. -/
theorem txDone_perm (hlist : s.neighbourList.Perm (n :: ns))
    (hnodup : ((n :: ns).map (·.block)).Nodup) (n' : NeighborQueue α β γ)
    (hblock : n'.block = n.block) {q : PacketQueue β γ} {qs : List (PacketQueue β γ)}
    (hn : n'.packetQueue = q :: qs) (draw : ℕ) (status : MacTx) :
    (s.txDone cfg draw status q n').neighbourList.Perm
        (if qs = [] then ns
          else { n' with packetQueue := qs, transmissions := 0, collisions := 0 } :: ns) ∧
      (s.txDone cfg draw status q n').answers.map (·.call) = q.call :: s.answers.map (·.call) := by
  have herase : n'.packetQueue.eraseP (·.block = q.block) = qs := by
    rw [hn, List.eraseP_cons_of_pos (by simp)]
  simp only [Csma.txDone, freePacket, herase]
  cases qs with
  | nil =>
      rw [if_pos rfl]
      exact ⟨remove_perm hlist hnodup hblock, rfl⟩
  | cons q' qs =>
      rw [if_neg (List.cons_ne_nil q' qs)]
      exact ⟨put_perm hlist hnodup hblock, rfl⟩

variable (cfg) in
/-- An attempt counts, or is done with the packet. -/
theorem packetSent_perm (hlist : s.neighbourList.Perm (n :: ns))
    (hnodup : ((n :: ns).map (·.block)).Nodup) {q : PacketQueue β γ}
    {qs : List (PacketQueue β γ)} (hn : n.packetQueue = q :: qs) (draw : ℕ) (status : MacTx) :
    (∃ t c, attempt q.ptr.maxTransmissions status n.transmissions n.collisions = some (t, c) ∧
      (s.packetSent cfg draw n q status).neighbourList.Perm
        ({ n with transmissions := t, collisions := c } :: ns) ∧
      (s.packetSent cfg draw n q status).answers = s.answers) ∨
    (s.packetSent cfg draw n q status).neighbourList.Perm
        (if qs = [] then ns
          else { n with packetQueue := qs, transmissions := 0, collisions := 0 } :: ns) ∧
      (s.packetSent cfg draw n q status).answers.map (·.call) =
        q.call :: s.answers.map (·.call) := by
  have hdone : ∀ (t c : ℕ) (status : MacTx), _ := fun t c status =>
    txDone_perm cfg hlist hnodup { n with transmissions := t, collisions := c } rfl hn draw status
  have hagain : ∀ t c, (s.rexmit cfg draw
      { n with transmissions := t, collisions := c }).neighbourList.Perm
        ({ n with transmissions := t, collisions := c } :: ns) := fun t c =>
    put_perm hlist hnodup rfl
  cases status with
  | ok => exact .inr (hdone _ _ _)
  | noack =>
      simp only [Csma.packetSent, noack, attempt]
      split
      · exact .inr (hdone _ _ _)
      · exact .inl ⟨_, _, rfl, hagain _ _, rfl⟩
  | collision =>
      simp only [Csma.packetSent, collision, attempt]
      split
      · split
        · exact .inr (hdone _ _ _)
        · exact .inl ⟨_, _, rfl, hagain _ _, rfl⟩
      · split
        · exact .inr (hdone _ _ _)
        · exact .inl ⟨_, _, rfl, hagain _ _, rfl⟩
  | err => exact .inr (hdone n.transmissions n.collisions _)
  | errFatal => exact .inr (hdone n.transmissions n.collisions _)

end

/-- The queue whose timer expires, and what is made of its head. -/
theorem Sound.transmit_perm (h : Sound s) {block draw : ℕ} {radio : Radio}
    (hs : Csma.step cfg (.transmit block radio draw) s = some s') :
    ∃ n ns q qs status, n.block = block ∧ n.packetQueue = q :: qs ∧
      s.neighbourList.Perm (n :: ns) ∧
      ((∃ t c, attempt q.ptr.maxTransmissions status n.transmissions n.collisions = some (t, c) ∧
        s'.neighbourList.Perm ({ n with transmissions := t, collisions := c } :: ns) ∧
        s'.answers = s.answers) ∨
      s'.neighbourList.Perm
          (if qs = [] then ns
            else { n with packetQueue := qs, transmissions := 0, collisions := 0 } :: ns) ∧
        s'.answers.map (·.call) = q.call :: s.answers.map (·.call)) := by
  simp only [Csma.step] at hs
  split at hs
  · simp only [transmitFromQueue] at hs
    split at hs
    · exact absurd hs (by simp)
    · rename_i n hfind
      have hmem : n ∈ s.neighbourList := List.mem_of_find?_eq_some hfind
      have hblock : n.block = block := by simpa using List.find?_some hfind
      obtain ⟨ns, hlist⟩ := exists_perm_of_mem hmem
      have hnodup : ((n :: ns).map (·.block)).Nodup :=
        (hlist.map _).nodup_iff.1 h.kept.neighborMemb.nodup
      split at hs
      · rename_i hempty
        exact absurd hempty (h.nonempty n hmem)
      · rename_i q qs hn
        rw [← Option.some.inj hs]
        have hlist' : { s with transmitTimers := s.transmitTimers.erase block }.neighbourList.Perm
            (n :: ns) := hlist
        exact ⟨n, ns, q, qs, _, hblock, hn, hlist, packetSent_perm cfg hlist' hnodup hn draw _⟩
  · exact absurd hs (by simp)

/-- A packet that was not queued leaves the queues as they were. -/
theorem Found.drop_perm (h : Found n ns call s) (sent : γ) :
    ((s.dropQueue n).dropPacket call sent).neighbourList.Perm
      (if n.packetQueue = [] then ns else n :: ns) := by
  rw [dropQueue]
  split
  · rename_i hlength
    rw [if_pos (List.length_eq_zero_iff.1 hlength)]
    exact remove_perm h.list h.kept.neighborMemb.nodup rfl
  · rename_i hlength
    rw [if_neg fun hempty => hlength (List.length_eq_zero_iff.2 hempty)]
    exact h.list

section

omit [DecidableEq α]

@[simp] theorem answers_dropQueue : (s.dropQueue n).answers = s.answers := by
  unfold dropQueue
  split <;> rfl

theorem answers_dropPacket (s : Csma α β γ) (call : ℕ) (sent : γ) :
    s.answers <:+ (s.dropPacket call sent).answers :=
  List.suffix_cons _ _

end

variable (cfg) in
/-- A packet goes to the end of its queue, or no queue changes. -/
theorem Found.enqueuePacket_perm (h : Found n ns call s) (env : OutputEnv) (sent : γ) (buf : β)
    (attr seqno : ℕ) :
    ((s.enqueuePacket cfg env sent buf attr seqno call n).neighbourList.Perm
        (if n.packetQueue = [] then ns else n :: ns) ∨
      ∃ q, q.ptr.maxTransmissions = maxTransmissions attr ∧
        (s.enqueuePacket cfg env sent buf attr seqno call n).neighbourList.Perm
          ({ n with packetQueue := n.packetQueue ++ [q] } :: ns)) ∧
    s.answers <:+ (s.enqueuePacket cfg env sent buf attr seqno call n).answers := by
  have hdrop := h.drop_perm sent
  have hanswers : s.answers <:+ ((s.dropQueue n).dropPacket call sent).answers := by
    have hsuffix := answers_dropPacket (s.dropQueue n) call sent
    rwa [answers_dropQueue] at hsuffix
  rw [Csma.enqueuePacket]
  split
  · split
    · exact ⟨.inl hdrop, hanswers⟩
    · rename_i block packetMemb hpacket
      dsimp only
      split
      · rw [Pool.free_alloc hpacket]
        exact ⟨.inl hdrop, hanswers⟩
      · rename_i metadataBlock metadataMemb hmetadata
        split
        · have hnodup := h.kept.neighborMemb.nodup
          split
          · exact ⟨.inr ⟨_, rfl, put_perm h.list hnodup rfl⟩, List.suffix_rfl⟩
          · exact ⟨.inr ⟨_, rfl, put_perm h.list hnodup rfl⟩, List.suffix_rfl⟩
        · rw [Pool.free_alloc hpacket, Pool.free_alloc hmetadata]
          exact ⟨.inl hdrop, hanswers⟩
  · rename_i hfull
    have hn : n.packetQueue ≠ [] := by
      intro hempty
      rw [hempty] at hfull
      exact hfull cfg.csmaMaxPacketPerNeighbor_pos
    rw [if_neg hn]
    exact ⟨.inl h.list, answers_dropPacket s call sent⟩

variable (cfg) in
/-- What a call of `csma_output_packet` makes of the queues. -/
theorem Sound.output_perm (h : Sound s) (env : OutputEnv) (sent : γ) (a : α) (buf : β)
    (attr : ℕ) :
    ((s.csmaOutputPacket cfg env sent a buf attr).neighbourList.Perm s.neighbourList ∨
      (∃ n ns q, s.neighbourList.Perm (n :: ns) ∧ n.packetQueue ≠ [] ∧
        q.ptr.maxTransmissions = maxTransmissions attr ∧
        (s.csmaOutputPacket cfg env sent a buf attr).neighbourList.Perm
          ({ n with packetQueue := n.packetQueue ++ [q] } :: ns)) ∨
      ∃ block q, q.ptr.maxTransmissions = maxTransmissions attr ∧
        (s.csmaOutputPacket cfg env sent a buf attr).neighbourList.Perm
          (⟨block, a, 0, 0, [q]⟩ :: s.neighbourList)) ∧
    s.answers <:+ (s.csmaOutputPacket cfg env sent a buf attr).answers := by
  simp only [Csma.csmaOutputPacket]
  split
  · rename_i n hfind
    have hn := h.nonempty n (List.mem_of_find?_eq_some hfind)
    obtain ⟨ns, hlist, hfound⟩ := h.found hfind (some ((nextSeqno env.seqnoDraw s.seqno + 1) % 256))
    obtain ⟨hperm, hanswers⟩ := hfound.enqueuePacket_perm cfg env sent buf attr
      (nextSeqno env.seqnoDraw s.seqno)
    rw [if_neg hn] at hperm
    refine ⟨?_, hanswers⟩
    rcases hperm with hsame | ⟨q, hq, hadded⟩
    · exact .inl (hsame.trans hlist.symm)
    · exact .inr (.inl ⟨n, ns, q, hlist, hn, hq, hadded⟩)
  · rename_i hfind
    split
    · exact ⟨.inl (List.Perm.refl _), answers_dropPacket _ _ sent⟩
    · rename_i block memb hmemb
      obtain ⟨hperm, hanswers⟩ := (h.found_new hfind hmemb _).enqueuePacket_perm cfg env sent
        buf attr (nextSeqno env.seqnoDraw s.seqno)
      rw [if_pos rfl] at hperm
      refine ⟨?_, hanswers⟩
      rcases hperm with hsame | ⟨q, hq, hadded⟩
      · exact .inl hsame
      · exact .inr (.inr ⟨block, q, hq, hadded⟩)

/-! ## Runs -/

/-- The packets of a queue may be tried, and the first one is within its attempts. -/
structure Tried (n : NeighborQueue α β γ) : Prop where
  limits : ∀ q ∈ n.packetQueue, 0 < q.ptr.maxTransmissions ∧ q.ptr.maxTransmissions < 256
  counters : ∀ q, n.packetQueue.head? = some q →
    Within q.ptr.maxTransmissions n.transmissions n.collisions

/-- The queues between two events, with their counters. -/
structure Counted (s : Csma α β γ) : Prop where
  sound : Sound s
  tried : ∀ n ∈ s.neighbourList, Tried n

theorem within_zero {q : PacketQueue β γ}
    (h : 0 < q.ptr.maxTransmissions ∧ q.ptr.maxTransmissions < 256) :
    Within q.ptr.maxTransmissions 0 0 := ⟨h.1, h.2, Nat.zero_le _⟩

section

omit [DecidableEq α]

/-- The next packet starts anew. -/
theorem Tried.next (h : Tried n) {q : PacketQueue β γ} {qs : List (PacketQueue β γ)}
    (hn : n.packetQueue = q :: qs) :
    Tried { n with packetQueue := qs, transmissions := 0, collisions := 0 } := by
  have hlimits : ∀ p ∈ qs, 0 < p.ptr.maxTransmissions ∧ p.ptr.maxTransmissions < 256 :=
    fun p hp => h.limits p (hn ▸ List.mem_cons_of_mem q hp)
  exact ⟨hlimits, fun p hp => within_zero (hlimits p (List.mem_of_head? hp))⟩

/-- A packet behind others changes nothing for them. -/
theorem Tried.append (h : Tried n) (hn : n.packetQueue ≠ []) {q : PacketQueue β γ} {attr : ℕ}
    (hq : q.ptr.maxTransmissions = maxTransmissions attr) :
    Tried { n with packetQueue := n.packetQueue ++ [q] } where
  limits p hp := by
    rcases List.mem_append.1 hp with hp | hp
    · exact h.limits p hp
    · rw [List.mem_singleton.1 hp, hq]
      exact ⟨maxTransmissions_pos attr, maxTransmissions_lt attr⟩
  counters p hp := by
    dsimp only at hp
    rw [List.head?_append_of_ne_nil _ hn] at hp
    exact h.counters p hp

theorem tried_single {q : PacketQueue β γ} {attr : ℕ}
    (hq : q.ptr.maxTransmissions = maxTransmissions attr) (block : ℕ) (a : α) :
    Tried (⟨block, a, 0, 0, [q]⟩ : NeighborQueue α β γ) := by
  have hlimits : ∀ p ∈ [q], 0 < p.ptr.maxTransmissions ∧ p.ptr.maxTransmissions < 256 := by
    intro p hp
    rw [List.mem_singleton.1 hp, hq]
    exact ⟨maxTransmissions_pos attr, maxTransmissions_lt attr⟩
  exact ⟨hlimits, fun p hp => within_zero (hlimits p (List.mem_of_head? hp))⟩

end

theorem Counted.step (h : Counted s) {e : CsmaEvent α β γ} (hs : Csma.step cfg e s = some s') :
    Counted s' := by
  refine ⟨h.sound.step hs, ?_⟩
  have hof : ∀ l : List (NeighborQueue α β γ), s'.neighbourList.Perm l → (∀ m ∈ l, Tried m) →
      ∀ m ∈ s'.neighbourList, Tried m := fun l hl hall m hm => hall m (hl.mem_iff.1 hm)
  cases e with
  | output sent a buf attr env =>
      obtain rfl := Option.some.inj hs
      obtain ⟨hperm, -⟩ := h.sound.output_perm cfg env sent a buf attr
      rcases hperm with hsame | ⟨n, ns, q, hlist, hn, hq, hadded⟩ | ⟨block, q, hq, hadded⟩
      · exact hof _ hsame h.tried
      · have hold : ∀ m ∈ n :: ns, Tried m := fun m hm => h.tried m (hlist.mem_iff.2 hm)
        refine hof _ hadded (List.forall_mem_cons.2 ⟨?_, (List.forall_mem_cons.1 hold).2⟩)
        exact (List.forall_mem_cons.1 hold).1.append hn hq
      · exact hof _ hadded (List.forall_mem_cons.2 ⟨tried_single hq block a, h.tried⟩)
  | transmit block radio draw =>
      obtain ⟨n, ns, q, qs, status, -, hn, hlist, hcases⟩ := h.sound.transmit_perm hs
      have hold : ∀ m ∈ n :: ns, Tried m := fun m hm => h.tried m (hlist.mem_iff.2 hm)
      obtain ⟨htried, hrest⟩ := List.forall_mem_cons.1 hold
      rcases hcases with ⟨t, c, hattempt, hperm, -⟩ | ⟨hperm, -⟩
      · refine hof _ hperm (List.forall_mem_cons.2 ⟨⟨htried.limits, fun p hp => ?_⟩, hrest⟩)
        have hpq : p = q := by
          dsimp only at hp
          rw [hn] at hp
          exact (Option.some.inj hp).symm
        have hhead : n.packetQueue.head? = some q := hn ▸ rfl
        exact hpq ▸ (left_attempt (htried.counters q hhead) hattempt).1
      · refine hof _ hperm ?_
        split
        · exact hrest
        · exact List.forall_mem_cons.2 ⟨htried.next hn, hrest⟩

/-- The packet waits at the head of the queue in this block, with `m` attempts left. -/
structure Waiting (block : ℕ) (q : PacketQueue β γ) (m : ℕ) (s : Csma α β γ) : Prop where
  counted : Counted s
  head : ∃ n ∈ s.neighbourList, n.block = block ∧ n.packetQueue.head? = some q ∧
    left q.ptr.maxTransmissions n.transmissions n.collisions ≤ m

/-- The callback of the packet was called. -/
structure Gone (q : PacketQueue β γ) (s : Csma α β γ) : Prop where
  counted : Counted s
  answered : q.call ∈ s.answers.map (·.call)

/-- The timer of a block expires. -/
def isTransmit (block : ℕ) : CsmaEvent α β γ → Bool
  | .output .. => false
  | .transmit b _ _ => b = block

theorem Counted.notMem_packets (h : Counted s) {c : ℕ} (hc : c ∈ s.answers.map (·.call)) :
    c ∉ s.packets.map (·.call) := by
  have hnodup := h.sound.kept.calls.nodup_iff.2 List.nodup_range
  exact fun hmem => List.disjoint_of_nodup_append hnodup hc hmem

/-- A callback is not taken back. -/
theorem answers_step (h : Sound s) {e : CsmaEvent α β γ} (hs : Csma.step cfg e s = some s') :
    s.answers.map (·.call) ⊆ s'.answers.map (·.call) := by
  cases e with
  | output sent a buf attr env =>
      obtain rfl := Option.some.inj hs
      exact List.map_subset _ (h.output_perm cfg env sent a buf attr).2.subset
  | transmit block radio draw =>
      obtain ⟨n, ns, q, qs, status, -, -, -, ⟨t, c, -, -, hsame⟩ | ⟨-, hcons⟩⟩ :=
        h.transmit_perm hs
      · rw [hsame]
        exact fun _ hc => hc
      · rw [hcons]
        exact List.subset_cons_self _ _

/-- An event either ends the wait of the packet or leaves it waiting, and an attempt leaves
fewer attempts. -/
theorem Waiting.step {block : ℕ} {q : PacketQueue β γ} {m : ℕ} (h : Waiting block q m s)
    {e : CsmaEvent α β γ} (hs : Csma.step cfg e s = some s') :
    Gone q s' ∨ ∃ m', Waiting block q m' s' ∧ m' + (if isTransmit block e then 1 else 0) ≤ m := by
  have hcounted := h.counted.step hs
  obtain ⟨n, hmem, hblock, hhead, hle⟩ := h.head
  cases e with
  | output sent a buf attr env =>
      obtain rfl := Option.some.inj hs
      obtain ⟨hperm, -⟩ := h.counted.sound.output_perm cfg env sent a buf attr
      refine .inr ⟨m, ⟨hcounted, ?_⟩, Nat.le_refl m⟩
      rcases hperm with hsame | ⟨k, ns, p, hlist, hk, -, hadded⟩ | ⟨b, p, -, hadded⟩
      · exact ⟨n, hsame.mem_iff.2 hmem, hblock, hhead, hle⟩
      · rcases List.mem_cons.1 (hlist.mem_iff.1 hmem) with rfl | hin
        · refine ⟨_, hadded.mem_iff.2 List.mem_cons_self, hblock, ?_, hle⟩
          rw [List.head?_append_of_ne_nil _ hk, hhead]
        · exact ⟨n, hadded.mem_iff.2 (List.mem_cons_of_mem _ hin), hblock, hhead, hle⟩
      · exact ⟨n, hadded.mem_iff.2 (List.mem_cons_of_mem _ hmem), hblock, hhead, hle⟩
  | transmit b radio draw =>
      obtain ⟨k, ns, p, ps, status, hkb, hk, hlist, hcases⟩ := h.counted.sound.transmit_perm hs
      rcases List.mem_cons.1 (hlist.mem_iff.1 hmem) with rfl | hin
      · -- the timer of this queue: its head is the packet
        have hpq : p = q := by
          rw [hk] at hhead
          exact Option.some.inj hhead
        subst hpq
        have hwithin := (h.counted.tried n hmem).counters p hhead
        rcases hcases with ⟨t, c, hattempt, hperm, -⟩ | ⟨-, hanswers⟩
        · obtain ⟨-, hless⟩ := left_attempt hwithin hattempt
          refine .inr ⟨left p.ptr.maxTransmissions t c,
            ⟨hcounted, _, hperm.mem_iff.2 List.mem_cons_self, hblock, hhead, Nat.le_refl _⟩, ?_⟩
          split <;> omega
        · exact .inl ⟨hcounted, hanswers ▸ List.mem_cons_self⟩
      · -- the timer of another queue
        have hother : n ∈ s'.neighbourList := by
          rcases hcases with ⟨t, c, -, hperm, -⟩ | ⟨hperm, -⟩
          · exact hperm.mem_iff.2 (List.mem_cons_of_mem _ hin)
          · refine hperm.mem_iff.2 ?_
            split
            · exact hin
            · exact List.mem_cons_of_mem _ hin
        have hne : b ≠ block := by
          have hnodup : ((k :: ns).map (·.block)).Nodup :=
            (hlist.map _).nodup_iff.1 h.counted.sound.kept.neighborMemb.nodup
          intro hb
          exact (List.nodup_cons.1 hnodup).1
            (List.mem_map.2 ⟨n, hin, hblock.trans (hb.symm.trans hkb.symm)⟩)
        refine .inr ⟨m, ⟨hcounted, n, hother, hblock, hhead, hle⟩, ?_⟩
        rw [if_neg (by simpa [isTransmit] using hne)]
        exact Nat.le_refl m

theorem Gone.step {q : PacketQueue β γ} (h : Gone q s) {e : CsmaEvent α β γ}
    (hs : Csma.step cfg e s = some s') : Gone q s' :=
  ⟨h.counted.step hs, answers_step h.counted.sound hs h.answered⟩

theorem counted_init : Counted (init cfg : Csma α β γ) :=
  ⟨sound_init, fun n hn => by cases hn⟩

/-- While a packet waits its timer is armed, and may expire with any outcome. -/
theorem Waiting.isSome_transmit {block : ℕ} {q : PacketQueue β γ} {m : ℕ}
    (h : Waiting block q m s) (radio : Radio) (draw : ℕ) :
    (Csma.step cfg (.transmit block radio draw) s).isSome = true := by
  obtain ⟨n, hmem, hblock, -, -⟩ := h.head
  have harmed : block ∈ s.transmitTimers :=
    h.counted.sound.armed.mem_iff.2 (List.mem_map.2 ⟨n, hmem, hblock⟩)
  have hfind : s.neighbourList.find? (·.block = block) = some n :=
    (find?_eq_some_iff h.counted.sound.kept.neighborMemb.nodup).2 ⟨hmem, hblock⟩
  simp only [Csma.step, if_pos harmed, transmitFromQueue, hfind]
  split <;> rfl

end Csma

/-- In every run, the packet at the head of a queue is answered and in no queue after
`max_transmissions * (CSMA_MAX_BACKOFF + 1)` calls of `send_one_packet` for its queue, with
any outcomes and whatever else happens; until then the next call is due. No delay of the
timer reaches `max_transmission_delay`. -/
theorem head_leaves_within {α β γ : Type*} [DecidableEq α] (cooja : Bool) (clockSecond : ℕ)
    (cfg' : CsmaConfig α) :
    let cfg := { cfg' with backoffPeriod := backoffPeriod cooja clockSecond }
    (∀ draw collisions, Csma.backoffDelay cfg draw collisions < maxTransmissionDelay cfg) ∧
    ∀ (es fs : List (CsmaEvent α β γ)) (s s' : Csma α β γ),
      run (Csma.step cfg) es (Csma.init cfg) = some s → run (Csma.step cfg) fs s = some s' →
      ∀ n ∈ s.neighbourList, ∀ q, n.packetQueue.head? = some q →
        (q.call ∈ s'.answers.map (·.call) ∧ q.call ∉ s'.packets.map (·.call)) ∨
        fs.countP (Csma.isTransmit n.block) <
            q.ptr.maxTransmissions * (csmaMaxBackoff + 1) ∧
          ∀ radio draw, (Csma.step cfg (.transmit n.block radio draw) s').isSome = true := by
  intro cfg
  refine ⟨Csma.backoffDelay_lt (backoffPeriod_pos cooja clockSecond), ?_⟩
  intro es fs s s' hes hfs n hn q hq
  have hcounted : Csma.Counted s :=
    run_invariant_of_step (fun _ _ _ h hs => h.step hs) Csma.counted_init hes
  have hwaiting : Csma.Waiting n.block q
      (Csma.left q.ptr.maxTransmissions n.transmissions n.collisions) s :=
    ⟨hcounted, n, hn, rfl, hq, Nat.le_refl _⟩
  have hranked := run_ranked (D := Csma.Gone q) (W := Csma.Waiting n.block q)
    (p := Csma.isTransmit n.block) (fun _ _ _ h hs => h.step hs) (fun _ _ _ _ h hs => h.step hs)
    hwaiting hfs
  rcases hranked with hgone | ⟨m, hwait, hcount⟩
  · exact .inl ⟨hgone.answered, hgone.counted.notMem_packets hgone.answered⟩
  · obtain ⟨k, hk, -, hkq, hle⟩ := hwait.head
    have hpos := Csma.left_pos ((hwait.counted.tried k hk).counters q hkq)
    have hall := Csma.left_le q.ptr.maxTransmissions n.transmissions n.collisions
    exact .inr ⟨by omega, hwait.isSome_transmit⟩

/-- A packet that may be sent three times, after a lost transmission and a collision. -/
theorem head_leaves_within_lost :
    let cfg := { unicastCsmaConfig with backoffPeriod := backoffPeriod false 128 }
    ∃ s s' : Csma ℕ Unit Unit,
      run (Csma.step cfg) [.output () 1 () 3 ⟨1, 0, true⟩] (Csma.init cfg) = some s ∧
      run (Csma.step cfg) [.transmit 0 (.txOk none) 0, .transmit 0 .txCollision 0] s = some s' ∧
      ∃ n ∈ s.neighbourList, ∃ q, n.packetQueue.head? = some q ∧
        ((q.call ∈ s'.answers.map (·.call) ∧ q.call ∉ s'.packets.map (·.call)) ∨
        [CsmaEvent.transmit 0 (.txOk none) 0, .transmit 0 .txCollision 0].countP
            (Csma.isTransmit (α := ℕ) (β := Unit) (γ := Unit) n.block) <
            q.ptr.maxTransmissions * (csmaMaxBackoff + 1) ∧
          ∀ radio draw, (Csma.step cfg (.transmit n.block radio draw) s').isSome = true) := by
  intro cfg
  have hleaves := (head_leaves_within (β := Unit) (γ := Unit) false 128 unicastCsmaConfig).2
    [.output () 1 () 3 ⟨1, 0, true⟩] [.transmit 0 (.txOk none) 0, .transmit 0 .txCollision 0]
  exact ⟨_, _, rfl, rfl, ⟨0, 1, 0, 0, [⟨0, 1, (), ⟨0, (), 3⟩, 0⟩]⟩, List.mem_cons_self, _, rfl,
    hleaves _ _ rfl rfl _ List.mem_cons_self _ rfl⟩

end Den2ne
