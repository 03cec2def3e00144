import Den2ne.Node.Joining
import Den2ne.Node.Provenance
import Den2ne.Node.Waiting

/-!
# The account of the root

The root declares convergence when both counters are `0`. Let `Child` be the
nodes that have taken the root's address of this round. `RootAccount` says that
the counters cover the children: those in the table are counted when the
statistic timer will set the counters, and are among those that the counters
were set for once they are set. `CountsRight` is what a received packet must
meet to keep the account; then the root converges only with both counters
settled by everyone that they wait for.
-/

namespace Den2ne

open Keyed

variable {α : Type*} [DecidableEq α]

namespace Flow

/-- Sending changes none of the fields that count. -/
structure Keeps (f f' : Flow α) : Prop where
  left : ∀ c, f'.left c = f.left c
  hasConverged : f'.hasConverged = f.hasConverged
  statisticTimer : f'.statisticTimer = f.statisticTimer
  awaited : f'.awaited = f.awaited
  received : f'.received = f.received

namespace Keeps

variable {f f' f'' : Flow α}

section

omit [DecidableEq α]

theorem refl (f : Flow α) : Keeps f f := ⟨fun _ => rfl, rfl, rfl, rfl, rfl⟩

theorem trans (h : Keeps f f') (h' : Keeps f' f'') : Keeps f f'' :=
  ⟨fun c => (h'.left c).trans (h.left c), h'.hasConverged.trans h.hasConverged,
    h'.statisticTimer.trans h.statisticTimer, h'.awaited.trans h.awaited,
    h'.received.trans h.received⟩

theorem runLoad (f : Flow α) : Keeps f f.runLoad :=
  ⟨fun c => by cases c <;> rfl, rfl, rfl, rfl, rfl⟩

theorem runShare (f : Flow α) : Keeps f f.runShare :=
  ⟨fun c => by cases c <;> rfl, rfl, rfl, rfl, rfl⟩

theorem loadWhenDone (f : Flow α) : Keeps f f.loadWhenDone := by
  unfold Flow.loadWhenDone
  split
  · exact runLoad f
  · exact refl f

theorem shareWhenDone (f : Flow α) : Keeps f f.shareWhenDone := by
  unfold Flow.shareWhenDone
  split
  · exact runShare f
  · exact refl f

theorem becomeEdge (number : ℤ) (f : Flow α) : Keeps f (f.becomeEdge number) := by
  unfold Flow.becomeEdge
  split
  · have hedge : Keeps f { f with edge := true } := ⟨fun c => by cases c <;> rfl, rfl, rfl, rfl, rfl⟩
    exact (hedge.trans (runLoad _)).trans (runShare _)
  · exact refl f

end

end Keeps

section

omit [DecidableEq α]

theorem left_countDown (f : Flow α) (c : Owed) : f.countDown.left c = f.left c - 1 := by
  cases c <;> rfl

/-- What a SetHLMAC that is not stored does to the counters: nothing in the
broadcast build, one less of each in the unicast build. -/
theorem answer_cases (cfg : Config α) (s : Standing α) (sender : α) (timestamp : ℕ)
    (addr : HlmacAddr) (f : Flow α)
    (hnew : s.accepts timestamp addr = true → (s.store cfg sender timestamp addr).1 = false) :
    (cfg.hlmacCast = .broadcast ∧ (if s.accepts timestamp addr then
        f.take cfg s sender timestamp addr else f.leave cfg) = f) ∨
    (cfg.hlmacCast = .unicast ∧ Keeps f.countDown (if s.accepts timestamp addr then
        f.take cfg s sender timestamp addr else f.leave cfg)) := by
  cases hcast : cfg.hlmacCast with
  | broadcast =>
      left
      refine ⟨rfl, ?_⟩
      split
      · rename_i hacc
        simp [Flow.take, hnew hacc, hcast]
      · simp [Flow.leave, hcast]
  | unicast =>
      right
      refine ⟨rfl, ?_⟩
      split
      · rename_i hacc
        simp only [Flow.take, hnew hacc, hcast, Bool.false_eq_true, if_false]
        exact ((Keeps.becomeEdge _ _).trans (Keeps.loadWhenDone _)).trans (Keeps.shareWhenDone _)
      · simp only [Flow.leave, hcast]
        exact (Keeps.loadWhenDone _).trans (Keeps.shareWhenDone _)

end

end Flow

/-! ## The account -/

variable (cfg : Config α) (Child : α → Prop)

/-- The neighbour is one that the counters were set for, and has not named the
node in the unicast build, where that counts as its answer. -/
def Flow.Expects (f : Flow α) (t : ℕ) (a : α) : Prop :=
  a ∈ f.awaited ∧ ¬ (cfg.hlmacCast = .unicast ∧ f.named cfg.linkaddrNodeAddr t a = true)

/-- The counters cover the children: those that the statistic timer will count
have flag `0`, and once the counters are set they expect every child. Until
then they were set for nobody. -/
structure RootAccount (s : Standing α) (f : Flow α) : Prop where
  unset : f.statisticTimer = true → f.awaited = []
  armed : f.statisticTimer = true → ∀ m ∈ s.marks, Child m.addr → m.flag = 0
  expects : f.statisticTimer = false → ∀ m ∈ s.marks, Child m.addr →
    f.Expects cfg s.timestamp m.addr
  covers : f.statisticTimer = false → f.Covers cfg s.timestamp

/-- The SetHLMAC gives the node an address that it stores. -/
def Standing.Stores (s : Standing α) (sender : α) (message : Payload α) : Prop :=
  match message with
  | .sethlmac timestamp _ _ =>
      let addr := iotoriiExtractAddress cfg.linkaddrNodeAddr message
      s.accepts timestamp addr = true ∧ (s.store cfg sender timestamp addr).1 = true
  | _ => False

/-- The messages of the sender count at the node. -/
def Flow.Awaits (s : Standing α) (f : Flow α) (sender : α) : Prop :=
  s.flagOf sender = some 0 ∧ f.edge = false

/-- What a packet to the root must meet. A message that counts down a counter
is of the current round and comes from a neighbour that this counter waits for.
While the statistic timer is armed, no message finds both counters run out. A
SetHLMAC that names the root is not stored and does not come from a child whose
answer is still to be counted; and a child that a Hello puts in the table is
one that the counters expect. -/
def CountsRight (s : Standing α) (f : Flow α) (sender : α) (message : Payload α) (round : ℕ) :
    Prop :=
  match message with
  | .hello => sender ∉ s.addrs → Child sender → f.statisticTimer = false →
      f.Expects cfg s.timestamp sender
  | .load _ => sender ∈ s.addrs →
      (f.statisticTimer = true → ¬ (f.nHijosShare = 0 ∧ (f.nHijosLoad = 0 ∨
        f.nHijosLoad = 1 ∧ f.Awaits s sender))) ∧
      (f.statisticTimer = false → f.Awaits s sender → f.nHijosLoad ≠ 0 →
        round = s.timestamp ∧ sender ∈ f.waiting cfg s.timestamp .load)
  | .share _ => f.Awaits s sender → f.nHijosShare ≠ 0 →
      (f.statisticTimer = true → ¬ (f.nHijosLoad = 0 ∧ f.nHijosShare = 1)) ∧
      (f.statisticTimer = false →
        round = s.timestamp ∧ sender ∈ f.waiting cfg s.timestamp .share)
  | .sethlmac _ _ _ => message.names cfg.linkaddrNodeAddr = true →
      ¬ s.Stores cfg sender message ∧
      (f.statisticTimer = true → ¬ (f.nHijosLoad = 0 ∧ f.nHijosShare = 0)) ∧
      (f.statisticTimer = true ∨ cfg.hlmacCast = .unicast → ¬ Child sender) ∧
      (cfg.hlmacCast = .unicast → ∀ c ∈ [Owed.load, Owed.share], f.left c ≠ 0 →
        round = s.timestamp ∧ sender ∈ f.waiting cfg s.timestamp c)

instance (f : Flow α) (t : ℕ) (a : α) : Decidable (f.Expects cfg t a) :=
  inferInstanceAs (Decidable (_ ∧ ¬ (_ ∧ _)))

instance (s : Standing α) (sender : α) :
    ∀ message : Payload α, Decidable (s.Stores cfg sender message)
  | .sethlmac _ _ _ => inferInstanceAs (Decidable (_ = true ∧ _ = true))
  | .hello | .load _ | .share _ => inferInstanceAs (Decidable False)

instance (s : Standing α) (f : Flow α) (sender : α) : Decidable (f.Awaits s sender) :=
  inferInstanceAs (Decidable (_ ∧ _))

instance [DecidablePred Child] (s : Standing α) (f : Flow α) (sender : α) (round : ℕ) :
    ∀ message : Payload α, Decidable (CountsRight cfg Child s f sender message round)
  | .hello => inferInstanceAs (Decidable (_ → _ → _ → _))
  | .load _ => inferInstanceAs (Decidable (_ → _ ∧ _))
  | .share _ => inferInstanceAs (Decidable (_ → _ → _ ∧ _))
  | .sethlmac _ _ _ => inferInstanceAs (Decidable (_ → _ ∧ _ ∧ _ ∧ (_ → ∀ c ∈ [Owed.load, .share], _)))

variable {cfg} {Child} {s : Standing α} {f : Flow α} {sender : α} {round : ℕ}

theorem Flow.named_cons {self : α} {t : ℕ} {m : α × Payload α × ℕ} {f' : Flow α}
    (hr : f'.received = m :: f.received) (hm : m.2.1.names self = false) (u : α) :
    f'.named self t u = f.named self t u := by
  unfold Flow.named
  rw [hr, List.any_cons, hm, Bool.and_false, Bool.false_or]

theorem Flow.Expects.of_cons {t : ℕ} {a : α} {m : α × Payload α × ℕ} {f' : Flow α}
    (h : f.Expects cfg t a) (hr : f'.received = m :: f.received) (ha : f'.awaited = f.awaited)
    (hm : m.2.1.names cfg.linkaddrNodeAddr = false) : f'.Expects cfg t a := by
  refine ⟨ha ▸ h.1, ?_⟩
  rw [Flow.named_cons hr hm]
  exact h.2

/-- A packet that is no SetHLMAC for the node, and leaves its marks alone. -/
theorem RootAccount.of_cons {m : α × Payload α × ℕ} {f' : Flow α} (h : RootAccount cfg Child s f)
    (hr : f'.received = m :: f.received) (ha : f'.awaited = f.awaited)
    (ht : f'.statisticTimer = f.statisticTimer)
    (hm : m.2.1.names cfg.linkaddrNodeAddr = false)
    (hcovers : f'.statisticTimer = false → f'.Covers cfg s.timestamp) :
    RootAccount cfg Child s f' where
  unset hf := ha.trans (h.unset (ht ▸ hf))
  armed hf := h.armed (ht ▸ hf)
  expects hf m' hm' hchild := (h.expects (ht ▸ hf) m' hm' hchild).of_cons hr ha hm
  covers := hcovers

/-- The root has converged with the counters set and run out. -/
def Flow.Settled (f : Flow α) : Prop := f.statisticTimer = false ∧ ∀ c, f.left c = 0

omit [DecidableEq α] in
theorem Flow.left_of_test {f : Flow α} (hafter : f.test.hasConverged = true)
    (hbefore : f.hasConverged = false) (c : Owed) : f.test.left c = 0 := by
  simp only [Flow.test, hbefore, Bool.false_or, Bool.and_eq_true, beq_iff_eq] at hafter
  cases c with
  | load => exact hafter.1
  | share => exact hafter.2

theorem RootAccount.hello (h : RootAccount cfg Child s f)
    (hok : CountsRight cfg Child s f sender .hello round) :
    RootAccount cfg Child (s.hello sender)
      { f with received := (sender, .hello, round) :: f.received } := by
  have hcons : RootAccount cfg Child s
      { f with received := (sender, .hello, round) :: f.received } :=
    h.of_cons rfl rfl rfl rfl fun ht => (h.covers ht).of_left rfl rfl fun _ => le_rfl
  have hts : (s.hello sender).timestamp = s.timestamp := by rw [Standing.hello_eq]
  -- a mark is an old one, heard again, or the new one of the sender
  have hmarks : ∀ m ∈ (s.hello sender).marks,
      (∃ m₀ ∈ s.marks, m₀.addr = m.addr ∧ m₀.flag = m.flag) ∨
      (m.addr = sender ∧ m.flag = 0 ∧ sender ∉ s.addrs) := by
    intro m hm
    unfold Standing.hello at hm
    split at hm
    · split at hm
      · obtain ⟨m₀, hm₀, rfl⟩ := mem_updateAt.1 hm
        refine .inl ⟨m₀, hm₀, ?_⟩
        split <;> exact ⟨rfl, rfl⟩
      · rename_i hmem
        rcases List.mem_append.1 hm with hm | hm
        · exact .inl ⟨m, hm, rfl, rfl⟩
        · obtain rfl := List.mem_singleton.1 hm
          exact .inr ⟨rfl, rfl, hmem⟩
    · exact .inl ⟨m, hm, rfl, rfl⟩
  refine ⟨hcons.unset, fun ht m hm hchild => ?_, fun ht m hm hchild => ?_, fun ht => ?_⟩
  · rcases hmarks m hm with ⟨m₀, hm₀, haddr, hflag⟩ | ⟨-, hflag, -⟩
    · exact hflag ▸ hcons.armed ht m₀ hm₀ (haddr ▸ hchild)
    · exact hflag
  · rw [hts]
    rcases hmarks m hm with ⟨m₀, hm₀, haddr, -⟩ | ⟨haddr, -, hnew⟩
    · exact haddr ▸ hcons.expects ht m₀ hm₀ (haddr ▸ hchild)
    · rw [haddr] at hchild ⊢
      exact (hok hnew hchild ht).of_cons rfl rfl rfl
  · rw [hts]
    exact hcons.covers ht

theorem RootAccount.load (h : RootAccount cfg Child s f) (hroot : cfg.nodeType = .root)
    {load : ℤ} (hmem : sender ∈ s.addrs)
    (hok : CountsRight cfg Child s f sender (.load load) round) :
    let f' := Flow.load cfg s sender
      { f with received := (sender, .load load, round) :: f.received }
    RootAccount cfg Child s f' ∧
      (f.hasConverged = false → f'.hasConverged = true → f'.Settled) := by
  obtain ⟨hearly, hcount⟩ := hok hmem
  intro f'
  by_cases hawaits : f.Awaits s sender
  · have hf' : f' = Flow.test { f with
        received := (sender, .load load, round) :: f.received
        nHijosLoad := f.nHijosLoad - 1 } := by
      have hawaits' : s.flagOf sender = some 0 ∧ f.edge = false := hawaits
      simp only [f', Flow.load, hroot, hawaits', and_self, if_true]
    have hcovers : f'.statisticTimer = false → f'.Covers cfg s.timestamp := by
      intro ht
      rw [hf'] at ht ⊢
      refine (h.covers ht).countDown (m := (sender, .load load, round)) rfl rfl fun c => ?_
      cases c with
      | load =>
          refine .inr ⟨Nat.le_succ_of_pred_le le_rfl, fun h0 => ?_⟩
          obtain ⟨rfl, hwait⟩ := hcount ht hawaits h0
          exact ⟨hwait, Flow.settled_of_pays (m := (sender, .load load, s.timestamp)) rfl rfl rfl⟩
      | share => exact .inl le_rfl
    refine ⟨h.of_cons (m := (sender, .load load, round)) (hf' ▸ rfl) (hf' ▸ rfl) (hf' ▸ rfl) rfl
      hcovers, fun hbefore hafter => ?_⟩
    rw [hf'] at hafter ⊢
    have hleft := Flow.left_of_test hafter hbefore
    refine ⟨?_, hleft⟩
    by_contra hf
    have hload := hleft .load
    refine hearly (by simpa [Flow.test] using hf) ⟨hleft .share, ?_⟩
    simp only [Flow.left] at hload
    rcases Nat.le_one_iff_eq_zero_or_eq_one.1 (Nat.sub_eq_zero_iff_le.1 hload) with h0 | h1
    · exact .inl h0
    · exact .inr ⟨h1, hawaits⟩
  · have hf' : f' = Flow.test { f with
        received := (sender, .load load, round) :: f.received } := by
      have hawaits' : ¬ (s.flagOf sender = some 0 ∧ f.edge = false) := hawaits
      simp only [f', Flow.load, hroot, hawaits', if_false]
    have hcovers : f'.statisticTimer = false → f'.Covers cfg s.timestamp := by
      intro ht
      rw [hf'] at ht ⊢
      exact (h.covers ht).of_left (m := (sender, .load load, round)) rfl rfl fun c => by
        cases c <;> exact le_rfl
    refine ⟨h.of_cons (m := (sender, .load load, round)) (hf' ▸ rfl) (hf' ▸ rfl) (hf' ▸ rfl) rfl
      hcovers, fun hbefore hafter => ?_⟩
    rw [hf'] at hafter ⊢
    have hleft := Flow.left_of_test hafter hbefore
    refine ⟨?_, hleft⟩
    by_contra hf
    exact hearly (by simpa [Flow.test] using hf) ⟨hleft .share, .inl (hleft .load)⟩

theorem RootAccount.share (h : RootAccount cfg Child s f) (hroot : cfg.nodeType = .root)
    {extra : ℤ} (hok : CountsRight cfg Child s f sender (.share extra) round) :
    let f' := Flow.share cfg s sender
      { f with received := (sender, .share extra, round) :: f.received }
    RootAccount cfg Child s f' ∧
      (f.hasConverged = false → f'.hasConverged = true → f'.Settled) := by
  intro f'
  by_cases hcounts : f.Awaits s sender ∧ f.nHijosShare ≠ 0
  · obtain ⟨hearly, hcount⟩ := hok hcounts.1 hcounts.2
    have hf' : f' = Flow.test { f with
        received := (sender, .share extra, round) :: f.received
        nHijosShare := f.nHijosShare - 1 } := by
      have hcounts' : s.flagOf sender = some 0 ∧ f.edge = false ∧ f.nHijosShare ≠ 0 :=
        ⟨hcounts.1.1, hcounts.1.2, hcounts.2⟩
      simp only [f', Flow.share, hroot]
      rw [if_pos hcounts']
    have hcovers : f'.statisticTimer = false → f'.Covers cfg s.timestamp := by
      intro ht
      rw [hf'] at ht ⊢
      refine (h.covers ht).countDown (m := (sender, .share extra, round)) rfl rfl fun c => ?_
      cases c with
      | load => exact .inl le_rfl
      | share =>
          refine .inr ⟨Nat.le_succ_of_pred_le le_rfl, fun _ => ?_⟩
          obtain ⟨rfl, hwait⟩ := hcount ht
          exact ⟨hwait, Flow.settled_of_pays (m := (sender, .share extra, s.timestamp)) rfl rfl rfl⟩
    refine ⟨h.of_cons (m := (sender, .share extra, round)) (hf' ▸ rfl) (hf' ▸ rfl) (hf' ▸ rfl) rfl
      hcovers, fun hbefore hafter => ?_⟩
    rw [hf'] at hafter ⊢
    have hleft := Flow.left_of_test hafter hbefore
    refine ⟨?_, hleft⟩
    by_contra hf
    have hshare := hleft .share
    simp only [Flow.left] at hshare
    refine hearly (by simpa [Flow.test] using hf) ⟨hleft .load, ?_⟩
    exact le_antisymm (Nat.sub_eq_zero_iff_le.1 hshare) (Nat.pos_of_ne_zero hcounts.2)
  · have hf' : f' = { f with received := (sender, .share extra, round) :: f.received } := by
      have hcounts' : ¬ (s.flagOf sender = some 0 ∧ f.edge = false ∧ f.nHijosShare ≠ 0) :=
        fun h => hcounts ⟨⟨h.1, h.2.1⟩, h.2.2⟩
      simp only [f', Flow.share]
      rw [if_neg hcounts']
    rw [hf']
    refine ⟨h.of_cons rfl rfl rfl rfl fun ht => (h.covers ht).of_left rfl rfl fun c => ?_,
      fun hbefore hafter => absurd (hbefore.symm.trans hafter) Bool.false_ne_true⟩
    cases c <;> exact le_rfl

/-- A SetHLMAC that the root does not store. -/
theorem RootAccount.offer (h : RootAccount cfg Child s f) (hroot : cfg.nodeType = .root)
    (hg : s.Grounded cfg) (hunicast : cfg.hlmacCast = .unicast → f.statisticTimer = false)
    {timestamp : ℕ} {hlmacPrefix : List UInt8} {assigned : List (UInt8 × α)}
    (hnames : (Payload.sethlmac timestamp hlmacPrefix assigned).names cfg.linkaddrNodeAddr = true)
    (hok : CountsRight cfg Child s f sender (.sethlmac timestamp hlmacPrefix assigned) round) :
    let addr := iotoriiExtractAddress cfg.linkaddrNodeAddr
      (.sethlmac timestamp hlmacPrefix assigned)
    let f' := Flow.offer cfg s sender timestamp addr
      { f with received := (sender, .sethlmac timestamp hlmacPrefix assigned, round) :: f.received }
    RootAccount cfg Child (s.offer cfg sender timestamp addr) f' ∧
      (f.hasConverged = false → f'.hasConverged = true → f'.Settled) := by
  obtain ⟨hstores, hearly, hchild, hcount⟩ := hok hnames
  intro addr f'
  set m : α × Payload α × ℕ := (sender, .sethlmac timestamp hlmacPrefix assigned, round) with hm
  have hnew : s.accepts timestamp addr = true → (s.store cfg sender timestamp addr).1 = false :=
    fun hacc => Bool.eq_false_iff.2 fun hstored => hstores ⟨hacc, hstored⟩
  -- the marks of the others stay, and so does everything that the counters read
  have hmarks : ∀ m' ∈ (s.offer cfg sender timestamp addr).marks,
      ∃ m₀ ∈ s.marks, m₀.addr = m'.addr ∧ (m'.addr ≠ sender → m'.flag = m₀.flag) := by
    intro m' hm'
    unfold Standing.offer at hm'
    split at hm'
    · rename_i hacc
      have hadd := hnew hacc
      have hstore : s.store cfg sender timestamp addr = (false, s) := by
        have hadd' : (hlmactableAdd cfg.hlmacMaxHlmac s.hlmacTable addr timestamp).1 = false := hadd
        simp [Standing.store, hadd', hg.snd_hlmactableAdd hadd']
      rw [hstore] at hm'
      obtain ⟨m₀, hm₀, rfl⟩ := mem_updateAt.1 hm'
      refine ⟨m₀, hm₀, ?_⟩
      split
      · rename_i heq
        exact ⟨rfl, fun hne => absurd heq hne⟩
      · exact ⟨rfl, fun _ => rfl⟩
    · exact ⟨m', hm', rfl, fun _ => rfl⟩
  have hts : (s.offer cfg sender timestamp addr).timestamp = s.timestamp := by
    unfold Standing.offer Standing.store Standing.adopt
    dsimp only
    split
    · split
      · split <;> rfl
      · rfl
    · rfl
  have hf' : f' = Flow.test (if s.accepts timestamp addr then
      Flow.take cfg s sender timestamp addr { f with received := m :: f.received }
      else Flow.leave cfg { f with received := m :: f.received }) := by
    simp only [f', Flow.offer, hroot]
    rfl
  rcases Flow.answer_cases cfg s sender timestamp addr { f with received := m :: f.received } hnew
    with ⟨hcast, heq⟩ | ⟨hcast, hkeeps⟩
  · -- in the broadcast build nothing is counted
    rw [heq] at hf'
    have hnamed : ∀ u, ¬ (cfg.hlmacCast = .unicast ∧
        f'.named cfg.linkaddrNodeAddr s.timestamp u = true) := by
      rintro u ⟨hu, -⟩
      rw [hcast] at hu
      cases hu
    refine ⟨⟨fun ht => ?_, fun ht m' hm' hc => ?_, fun ht m' hm' hc => ?_, fun ht => ?_⟩,
      fun hbefore hafter => ?_⟩
    · rw [hf'] at ht ⊢
      exact h.unset ht
    · obtain ⟨m₀, hm₀, haddr, hflag⟩ := hmarks m' hm'
      have ht' : f.statisticTimer = true := by rwa [hf'] at ht
      have hne : m'.addr ≠ sender := by
        intro heq'
        exact hchild (.inl ht') (heq' ▸ hc)
      rw [hflag hne]
      exact h.armed ht' m₀ hm₀ (haddr ▸ hc)
    · obtain ⟨m₀, hm₀, haddr, -⟩ := hmarks m' hm'
      have ht' : f.statisticTimer = false := by rwa [hf'] at ht
      rw [hts]
      refine ⟨?_, hnamed _⟩
      rw [hf', ← haddr]
      exact (h.expects ht' m₀ hm₀ (haddr ▸ hc)).1
    · have ht' : f.statisticTimer = false := by rwa [hf'] at ht
      rw [hts, hf']
      exact (h.covers ht').of_left (m := m) rfl rfl fun c => by cases c <;> exact le_rfl
    · rw [hf'] at hafter ⊢
      have hleft := Flow.left_of_test hafter hbefore
      refine ⟨?_, hleft⟩
      by_contra hf
      exact hearly (by simpa [Flow.test] using hf) ⟨hleft .load, hleft .share⟩
  · -- in the unicast build the sender has answered
    have ht := hunicast hcast
    have hreceived : f'.received = m :: f.received := by
      rw [hf']
      exact hkeeps.received
    have hawaited : f'.awaited = f.awaited := by
      rw [hf']
      exact hkeeps.awaited
    have htimer : f'.statisticTimer = f.statisticTimer := by
      rw [hf']
      exact hkeeps.statisticTimer
    have hleft : ∀ c, f'.left c = f.left c - 1 := by
      intro c
      have hl := hkeeps.left c
      rw [Flow.left_countDown] at hl
      rw [hf']
      cases c <;> exact hl
    refine ⟨⟨fun ht' => ?_, fun ht' => ?_, fun _ m' hm' hc => ?_, fun _ => ?_⟩,
      fun hbefore hafter => ?_⟩
    · rw [htimer, ht] at ht'
      cases ht'
    · rw [htimer, ht] at ht'
      cases ht'
    · obtain ⟨m₀, hm₀, haddr, -⟩ := hmarks m' hm'
      obtain ⟨hin, hnot⟩ := h.expects ht m₀ hm₀ (haddr ▸ hc)
      rw [hts]
      refine ⟨hawaited ▸ haddr ▸ hin, ?_⟩
      rintro ⟨-, hnamed⟩
      unfold Flow.named at hnamed
      rw [hreceived, List.any_cons, Bool.or_eq_true] at hnamed
      rcases hnamed with hnow | hthen
      · simp only [hm, Bool.and_eq_true, decide_eq_true_eq] at hnow
        exact hchild (.inr hcast) (hnow.1.1 ▸ hc)
      · exact hnot ⟨hcast, haddr ▸ hthen⟩
    · rw [hts]
      refine (h.covers ht).countDown hreceived hawaited fun c => .inr ⟨?_, fun h0 => ?_⟩
      · rw [hleft c]
        omega
      · obtain ⟨hround, hwait⟩ := hcount hcast c (by cases c <;> simp) h0
        exact ⟨hwait, Flow.settled_of_names hreceived hcast hround hnames c⟩
    · refine ⟨htimer.trans ht, ?_⟩
      rw [hf'] at hafter ⊢
      exact Flow.left_of_test hafter (hkeeps.hasConverged.trans hbefore)

/-! ## Timers -/

/-- The hello timer only takes neighbours out of the table. -/
theorem RootAccount.tick (h : RootAccount cfg Child s f) : RootAccount cfg Child (s.tick cfg) f where
  unset := h.unset
  armed ht m hm := h.armed ht m (List.mem_of_mem_eraseP hm)
  expects ht m hm := h.expects ht m (List.mem_of_mem_eraseP hm)
  covers := h.covers

/-- The statistic timer sets the counters for the neighbours with flag `0`. -/
theorem RootAccount.statistic (h : RootAccount cfg Child s f) (hroot : cfg.nodeType = .root)
    (hcast : cfg.hlmacCast = .broadcast) (ht : f.statisticTimer = true)
    (hfew : (Flow.children s).length ≤ 255) : RootAccount cfg Child s (f.statistic cfg s) := by
  have hf' : f.statistic cfg s = { f with
      statisticTimer := false
      nHijosLoad := (Flow.children s).length % 256
      nHijosShare := (Flow.children s).length % 256
      awaited := Flow.children s } := by
    simp only [Flow.statistic, hroot]
  rw [hf']
  refine ⟨nofun, nofun, fun _ m hm hc => ⟨?_, ?_⟩, fun _ c => ?_⟩
  · have hflag := h.armed ht m hm hc
    exact List.mem_map_of_mem (List.mem_filter.2 ⟨hm, by simp [hflag]⟩)
  · rintro ⟨hu, -⟩
    rw [hcast] at hu
    cases hu
  · refine (List.length_filter_le _ _).trans ?_
    cases c <;> exact (Nat.mod_eq_of_lt (Nat.lt_succ_of_le hfew)).ge

/-- Nobody is a child when the root starts a round, and the counters of the
unicast build are set for all neighbours. -/
theorem RootAccount.startRound {s' : Standing α} (hnobody : ∀ m ∈ s'.marks, ¬ Child m.addr)
    (hfew : cfg.hlmacCast = .unicast → s.addrs.length ≤ 255)
    (hunicast : cfg.hlmacCast = .unicast → f.statisticTimer = false) :
    RootAccount cfg Child s' (f.startRound cfg s) := by
  unfold Flow.startRound
  cases hcast : cfg.hlmacCast with
  | broadcast =>
      exact ⟨fun _ => rfl, fun _ m hm hc => absurd hc (hnobody m hm), nofun, nofun⟩
  | unicast =>
      have ht := hunicast hcast
      refine ⟨fun ht' => absurd (ht.symm.trans ht') Bool.false_ne_true,
        fun _ m hm hc => absurd hc (hnobody m hm), fun _ m hm hc => absurd hc (hnobody m hm),
        fun _ c => ?_⟩
      refine (List.length_filter_le _ _).trans ?_
      cases c <;> exact (Nat.mod_eq_of_lt (Nat.lt_succ_of_le (hfew hcast))).ge

/-- Without a node record the statistic timer only goes off: that is all right
while nobody is a child. -/
theorem RootAccount.disarm (hnobody : ∀ m ∈ s.marks, ¬ Child m.addr) (hawaited : f.awaited = []) :
    RootAccount cfg Child s { f with statisticTimer := false } where
  unset := nofun
  armed := nofun
  expects _ m hm hc := absurd hc (hnobody m hm)
  covers _ c := by
    rw [Flow.waiting]
    dsimp only
    rw [hawaited]
    exact Nat.zero_le _

/-! ## How long the root stays converged -/

/-- The root converges upon a packet. -/
theorem Flow.hasConverged_timer {cfg : Config α} (hroot : cfg.nodeType = .root) (st : Standing α)
    (listed : Bool) (t : Timer) (f : Flow α) (h : f.hasConverged = false) :
    (f.step cfg st listed (.timer t)).hasConverged = false := by
  cases t with
  | hello => exact h
  | sethlmac =>
      simp only [Flow.step, Flow.startRound]
      cases cfg.hlmacCast <;> rfl
  | sendMessage csma => exact h
  | statistic =>
      simp only [Flow.step, Flow.statistic, hroot]
      split <;> exact h

section

omit [DecidableEq α]

theorem Flow.hasConverged_test {f : Flow α} (h : f.hasConverged = true) :
    f.test.hasConverged = true := by
  rw [Flow.test, h, Bool.true_or]

theorem Flow.hasConverged_take (cfg : Config α) (st : Standing α) (sender : α) (timestamp : ℕ)
    (addr : HlmacAddr) (f : Flow α) :
    (f.take cfg st sender timestamp addr).hasConverged = f.hasConverged := by
  have hadopt : (f.adopt cfg st timestamp).hasConverged = f.hasConverged := by
    unfold Flow.adopt Flow.arm Flow.enter
    cases cfg.hlmacCast <;> dsimp only <;> split <;> rfl
  unfold Flow.take
  cases cfg.hlmacCast with
  | broadcast =>
      dsimp only
      split
      · exact hadopt
      · rfl
  | unicast =>
      dsimp only
      rw [(Flow.Keeps.shareWhenDone _).hasConverged, (Flow.Keeps.loadWhenDone _).hasConverged,
        (Flow.Keeps.becomeEdge _ _).hasConverged]
      split
      · exact hadopt
      · rfl

theorem Flow.hasConverged_leave (cfg : Config α) (f : Flow α) :
    (f.leave cfg).hasConverged = f.hasConverged := by
  unfold Flow.leave
  cases cfg.hlmacCast with
  | broadcast => rfl
  | unicast =>
      dsimp only
      rw [(Flow.Keeps.shareWhenDone _).hasConverged, (Flow.Keeps.loadWhenDone _).hasConverged]
      rfl

end

/-- Only the start of a round takes the convergence of the root back. -/
theorem Flow.hasConverged_step {cfg : Config α} (hroot : cfg.nodeType = .root) {st : Standing α}
    {listed : Bool} {e : Event α} {f : Flow α} (he : e ≠ .timer .sethlmac)
    (h : f.hasConverged = true) : (f.step cfg st listed e).hasConverged = true := by
  cases e with
  | timer t =>
      cases t with
      | hello => exact h
      | sethlmac => exact absurd rfl he
      | sendMessage csma => exact h
      | statistic =>
          simp only [Flow.step, Flow.statistic, hroot]
          split <;> exact h
  | receive sender message round =>
      simp only [Flow.step]
      split
      · exact h
      · cases message with
        | hello => exact h
        | load load =>
            simp only [Flow.receive, Flow.load, hroot]
            split
            · split <;> exact hasConverged_test h
            · exact h
        | share extra =>
            simp only [Flow.receive, Flow.share, hroot]
            split
            · exact hasConverged_test h
            · exact h
        | sethlmac timestamp hlmacPrefix assigned =>
            simp only [Flow.receive, Flow.offer, hroot]
            split
            · exact h
            · refine hasConverged_test ?_
              split
              · rw [hasConverged_take]
                exact h
              · rw [hasConverged_leave]
                exact h

end Den2ne
