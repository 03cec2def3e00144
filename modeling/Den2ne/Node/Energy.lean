import Mathlib.Algebra.BigOperators.Group.Finset.Basic
import Mathlib.Algebra.Ring.Int.Defs
import Den2ne.Node.Ledger

/-!
# The energy of a node

What the sharing phase moves is the load of a node and the SHAREs that it sends.
`Ledger.energy` adds them up; `energy_step` says that an event changes the sum by
the value of the SHARE that it delivers, if the event is `Balanced`: the SHARE is
counted, no node enters a round, and `iotorii_handle_share_upstream_timer` takes from
the load what it sends.
-/

namespace Den2ne

variable {α : Type*}

/-- The value of a SHARE; no other message has one. -/
def Payload.extra : Payload α → ℤ
  | .share extra => extra
  | _ => 0

namespace Node

/-- `node->load`, of the record that the handlers use. -/
def load (n : Node α) : ℤ := (n.nodeList.head?.map (·.load)).getD 0

/-- The load of the node, and the SHAREs in its queue. -/
def energy (n : Node α) : ℤ := n.load + (n.payloadEntryList.map (·.payload.extra)).sum

end Node

/-- The handler of SHAREs takes from this load what it sends: the load is `100`,
or the node is a common one that has one parent, if a SHARE goes to every parent,
and what exceeds `100` has 16 bits. -/
def FairShare (cfg : Config α) (parents : List α) (load : ℤ) : Prop :=
  load = 100 ∨ cfg.nodeType = .common ∧
    (cfg.hlmacCast = .broadcast → parents.length = 1) ∧ IsShort (load - 100)

instance (x : ℤ) : Decidable (IsShort x) := inferInstanceAs (Decidable (_ ∧ _))

instance (cfg : Config α) (parents : List α) (load : ℤ) :
    Decidable (FairShare cfg parents load) :=
  inferInstanceAs (Decidable (_ ∨ _))

theorem extraLoad_eq (load : ℤ) : extraLoad load = toShort (load - 100) := by
  unfold extraLoad toShort
  split
  · rfl
  · split
    · rfl
    · rw [Int.bmod_neg_bmod]
      exact congrArg (Int.bmod · _) (by omega)

/-- In the unicast build one SHARE is sent whatever the parents. -/
theorem FairShare.of_unicast {cfg : Config α} {parents parents' : List α} {load : ℤ}
    (hcast : cfg.hlmacCast = .unicast) (h : FairShare cfg parents load) :
    FairShare cfg parents' load := by
  rcases h with hload | ⟨hcommon, -, hshort⟩
  · exact .inl hload
  · refine .inr ⟨hcommon, fun hb => ?_, hshort⟩
    cases hcast.symm.trans hb

variable [DecidableEq α]

namespace Node

/-- The event makes the node execute `iotorii_handle_share_upstream_timer`. -/
def RunsShare (cfg : Config α) (e : Event α) (n : Node α) : Prop :=
  n.flow.shareRuns < (n.flow.step cfg n.standing (!n.nodeList.isEmpty) e).shareRuns

/-- The load that this execution finds: a SHARE that is counted is in it. -/
def gathered (e : Event α) (n : Node α) : ℤ :=
  match e with
  | .receive sender message _ =>
      n.load + if n.flow.Counts n.standing sender then message.extra else 0
  | _ => n.load

/-- A SHARE that is received is counted, and one that is taken off the queue goes to
one node, once. A SetHLMAC does not take the node into a new round. -/
def Passes (cfg : Config α) (nodes : Finset α) (e : Event α) (n : Node α) : Prop :=
  match e with
  | .timer (.sendMessage csma) => ∀ entry ∈ n.payloadEntryList.head?,
      entry.payload.extra = 0 ∨ csma = .refused ∨ csma = .scheduled ∧ entry.dest ∈ nodes
  | .receive sender message _ => n.standing.joins cfg sender message = false ∧
      (message.extra = 0 ∨ sender ≠ cfg.linkaddrNodeAddr ∧ n.flow.Counts n.standing sender)
  | _ => True

/-- The event moves energy without making or losing any. -/
def Balanced (cfg : Config α) (nodes : Finset α) (e : Event α) (n : Node α) : Prop :=
  n.Passes cfg nodes e ∧
    (n.RunsShare cfg e → FairShare cfg n.neighbourTable.parents (n.gathered e))

instance (cfg : Config α) (e : Event α) (n : Node α) : Decidable (n.RunsShare cfg e) :=
  inferInstanceAs (Decidable (_ < _))

instance (cfg : Config α) (nodes : Finset α) (n : Node α) :
    ∀ e : Event α, Decidable (n.Passes cfg nodes e)
  | .timer (.sendMessage _) =>
      inferInstanceAs (Decidable (∀ entry ∈ n.payloadEntryList.head?, _ ∨ _ ∨ _))
  | .receive _ _ _ => inferInstanceAs (Decidable (_ ∧ (_ ∨ _)))
  | .timer .hello | .timer .sethlmac | .timer .statistic => inferInstanceAs (Decidable True)

instance (cfg : Config α) (nodes : Finset α) (e : Event α) (n : Node α) :
    Decidable (n.Balanced cfg nodes e) :=
  inferInstanceAs (Decidable (_ ∧ (_ → _)))

end Node

namespace Ledger

/-- The load, the SHAREs in the queue and those at the MAC, each of these as often
as `reach` says. -/
def energy (reach : α → ℕ) (l : Ledger α) : ℤ :=
  l.loads.headD 0 + (l.queued.map (·.2)).sum + (l.posted.map fun s => (reach s.1 : ℤ) * s.2).sum

/-- What a SHARE that is sent adds to the energy. -/
def worth (cfg : Config α) (reach : α → ℕ) (s : α × ℤ) : ℤ :=
  match cfg.hlmacCast with
  | .broadcast => reach s.1 * s.2
  | .unicast => s.2

/-- The share handler finds a load that it shares fairly. -/
def Fair (cfg : Config α) (parents : List α) (l : Ledger α) : Prop :=
  ∃ load rest, l.loads = load :: rest ∧ FairShare cfg parents load

variable {cfg : Config α} {junk : α} {parents : List α} {reach : α → ℕ} {l : Ledger α}

section

omit [DecidableEq α]

theorem fair_of_headD (hloads : l.loads ≠ []) (h : FairShare cfg parents (l.loads.headD 0)) :
    l.Fair cfg parents := by
  obtain ⟨load, rest, hloads⟩ := List.exists_cons_of_ne_nil hloads
  rw [hloads, List.headD_cons] at h
  exact ⟨load, rest, hloads, h⟩

theorem loads_send (es : Multiset (α × ℤ)) : (l.send cfg es).loads = l.loads := by
  unfold send
  split <;> rfl

theorem energy_send (es : Multiset (α × ℤ)) :
    (l.send cfg es).energy reach = l.energy reach + (es.map (worth cfg reach)).sum := by
  unfold energy send worth
  cases cfg.hlmacCast <;> simp only [Multiset.map_add, Multiset.sum_add] <;> omega

/-- The SHAREs of one execution are worth what exceeds `100`. -/
theorem sum_dests (junk : α) (hreach : cfg.hlmacCast = .broadcast → ∀ p ∈ parents, reach p = 1)
    {load : ℤ} (hfair : FairShare cfg parents load) :
    (((dests cfg junk parents).map fun dest => (dest, extraLoad load)).map
      (worth cfg reach)).sum = load - 100 := by
  rw [List.map_map]
  rcases hfair with rfl | ⟨-, hone, hshort⟩
  · have hzero : worth cfg reach ∘ (fun dest => (dest, extraLoad 100)) = fun _ => 0 := by
      funext dest
      unfold worth
      cases cfg.hlmacCast with
      | broadcast => exact Int.mul_zero _
      | unicast => rfl
    rw [hzero]
    simp
  · rw [extraLoad_eq, toShort_of_isShort hshort]
    unfold dests worth
    cases hcast : cfg.hlmacCast with
    | broadcast =>
        obtain ⟨p, rfl⟩ := List.length_eq_one_iff.1 (hone hcast)
        simp [hreach hcast p (List.mem_singleton_self p)]
    | unicast => simp

end

/-- A fair share keeps the energy, and the next one would be fair too. -/
theorem energy_share (junk : α) (hreach : cfg.hlmacCast = .broadcast → ∀ p ∈ parents, reach p = 1)
    (h : l.Fair cfg parents) : (l.share cfg junk parents).Fair cfg parents ∧
      (l.share cfg junk parents).energy reach = l.energy reach := by
  obtain ⟨load, rest, hloads, hfair⟩ := h
  have hsum := sum_dests junk hreach hfair
  unfold share
  rw [hloads]
  dsimp only
  refine ⟨⟨_, rest, loads_send _, ?_⟩, ?_⟩
  · cases htype : cfg.nodeType with
    | root => exact hfair
    | common => exact .inl rfl
  · rw [energy_send, Multiset.map_coe, Multiset.sum_coe, hsum]
    unfold energy
    rw [hloads]
    cases htype : cfg.nodeType with
    | root =>
        have hload : load = 100 :=
          hfair.resolve_right fun h => NodeType.noConfusion (htype.symm.trans h.1)
        simp [hload]
    | common =>
        simp only [List.headD_cons]
        omega

theorem energy_shareRuns (hreach : cfg.hlmacCast = .broadcast → ∀ p ∈ parents, reach p = 1)
    {k : ℕ} (h : 0 < k → l.Fair cfg parents) :
    ((share cfg junk parents)^[k] l).energy reach = l.energy reach := by
  have hruns : ∀ k, l.Fair cfg parents → ((share cfg junk parents)^[k] l).Fair cfg parents ∧
      ((share cfg junk parents)^[k] l).energy reach = l.energy reach := by
    intro k hfair
    induction k with
    | zero => exact ⟨hfair, rfl⟩
    | succ k ih =>
        rw [Function.iterate_succ_apply']
        obtain ⟨hnext, henergy⟩ := energy_share junk hreach ih.1
        exact ⟨hnext, henergy.trans ih.2⟩
  cases k with
  | zero => rfl
  | succ k => exact (hruns _ (h k.succ_pos)).2

theorem energy_note (sender : α) (extra : ℤ) :
    (l.note sender extra).energy reach = l.energy reach := rfl

section

omit [DecidableEq α]

theorem headD_take (hloads : l.loads ≠ []) (extra : ℤ) :
    (l.take extra).loads.headD 0 = l.loads.headD 0 + extra := by
  obtain ⟨load, rest, hloads⟩ := List.exists_cons_of_ne_nil hloads
  unfold take
  rw [hloads]
  rfl

theorem energy_take (hloads : l.loads ≠ []) (extra : ℤ) :
    (l.take extra).energy reach = l.energy reach + extra := by
  unfold energy
  rw [headD_take hloads]
  dsimp only [take]
  omega

end

theorem sum_map_sub {moved es : Multiset (α × ℤ)} (h : moved ≤ es) :
    ((es - moved).map (·.2)).sum = (es.map (·.2)).sum - (moved.map (·.2)).sum := by
  conv_rhs => rw [← Multiset.sub_add_cancel h, Multiset.map_add, Multiset.sum_add]
  omega

/-- SHAREs that go to one node each, once, keep their worth. -/
theorem energy_transmit {csma : CsmaOutcome} {moved : Multiset (α × ℤ)} (hmoved : moved ≤ l.queued)
    (hqueued : cfg.hlmacCast = .broadcast → l.queued = 0)
    (hpasses : ∀ s ∈ moved, s.2 = 0 ∨ csma = .refused ∨ csma = .scheduled ∧ reach s.1 = 1) :
    (l.transmit cfg csma moved).energy reach = l.energy reach := by
  have hsub := sum_map_sub hmoved
  unfold transmit energy
  cases hcast : cfg.hlmacCast with
  | broadcast =>
      have hnone : moved = 0 := Multiset.le_zero.1 (hqueued hcast ▸ hmoved)
      subst hnone
      simp
  | unicast =>
      cases csma with
      | scheduled =>
          have hsame : moved.map (fun s => (reach s.1 : ℤ) * s.2) = moved.map (·.2) := by
            refine Multiset.map_congr rfl fun s hs => ?_
            rcases hpasses s hs with hzero | hrefused | ⟨-, hone⟩
            · rw [hzero, Int.mul_zero]
            · cases hrefused
            · rw [hone]
              exact Int.one_mul s.2
          simp only [Multiset.map_add, Multiset.sum_add, hsame]
          omega
      | behind =>
          have hnone : (moved.map fun s => (reach s.1 : ℤ) * s.2).sum = 0 := by
            refine Multiset.sum_eq_zero fun x hx => ?_
            obtain ⟨s, hs, rfl⟩ := Multiset.mem_map.1 hx
            have hzero : s.2 = 0 := (hpasses s hs).resolve_right (by simp)
            rw [hzero, Int.mul_zero]
          simp only [Multiset.map_add, Multiset.sum_add, hnone]
          omega
      | refused => rfl

section

omit [DecidableEq α]

theorem headD_draw (hloads : l.loads ≠ []) (drawn : List ℤ) :
    (l.draw drawn).loads.headD 0 = l.loads.headD 0 := by
  obtain ⟨load, rest, hloads⟩ := List.exists_cons_of_ne_nil hloads
  unfold draw
  rw [hloads]
  rfl

/-- The load in use is the one that was drawn first. -/
theorem energy_draw (hloads : l.loads ≠ []) (drawn : List ℤ) :
    (l.draw drawn).energy reach = l.energy reach := by
  unfold energy
  rw [headD_draw hloads]
  rfl

end

/-! ## A node that has a load -/

theorem loads_share (hloads : l.loads ≠ []) : (l.share cfg junk parents).loads ≠ [] := by
  unfold share
  split
  · exact hloads
  · rw [loads_send]
    exact List.cons_ne_nil _ _

theorem loads_shareRuns {k : ℕ} (hloads : l.loads ≠ []) :
    ((share cfg junk parents)^[k] l).loads ≠ [] := by
  induction k with
  | zero => exact hloads
  | succ k ih =>
      rw [Function.iterate_succ_apply']
      exact loads_share ih

omit [DecidableEq α] in
theorem loads_take (hloads : l.loads ≠ []) (extra : ℤ) : (l.take extra).loads ≠ [] := by
  obtain ⟨load, rest, hloads⟩ := List.exists_cons_of_ne_nil hloads
  unfold take
  rw [hloads]
  exact List.cons_ne_nil _ _

theorem loads_transmit (csma : CsmaOutcome) (moved : Multiset (α × ℤ)) :
    (l.transmit cfg csma moved).loads = l.loads := by
  unfold transmit
  split
  · rfl
  · split <;> rfl

end Ledger

namespace Flow

variable {cfg : Config α} {s : Standing α} {sender : α} {timestamp : ℕ} {addr : HlmacAddr}

section

omit [DecidableEq α]

theorem shareRuns_take (hcast : cfg.hlmacCast = .broadcast) (f : Flow α) :
    (f.take cfg s sender timestamp addr).shareRuns = f.shareRuns := by
  simp only [take, hcast]
  split
  · simp only [adopt, arm, hcast]
    split
    · simp only [enter, hcast]
    · rfl
  · rfl

theorem shareRuns_offer (hcast : cfg.hlmacCast = .broadcast) (f : Flow α) :
    (f.offer cfg s sender timestamp addr).shareRuns = f.shareRuns := by
  have hkept : (if s.accepts timestamp addr then f.take cfg s sender timestamp addr
      else f.leave cfg).shareRuns = f.shareRuns := by
    split
    · exact shareRuns_take hcast f
    · simp only [leave, hcast]
  unfold offer
  cases cfg.nodeType <;> exact hkept

end

/-- In the broadcast build a SetHLMAC makes no node share. -/
theorem shareRuns_sethlmac (hcast : cfg.hlmacCast = .broadcast) (listed : Bool) (round : ℕ)
    (hlmacPrefix : List UInt8) (assigned : List (UInt8 × α)) (f : Flow α) :
    (f.step cfg s listed
      (.receive sender (.sethlmac timestamp hlmacPrefix assigned) round)).shareRuns =
        f.shareRuns := by
  simp only [step, receive]
  split
  · rfl
  · split
    · rfl
    · exact shareRuns_offer hcast _

end Flow

section Step

variable {cfg : Config α} {env : Env α} {n n' : Node α} {reach : α → ℕ}

/-- The value of the SHARE that an event delivers. -/
def Event.extra (e : Event α) : ℤ :=
  match e with
  | .receive _ message _ => message.extra
  | _ => 0

theorem Node.ledger_loads (n : Node α) : n.ledger.loads = n.nodeList.map (·.load) := rfl

theorem Node.headD_loads (n : Node α) : n.ledger.loads.headD 0 = n.load := by
  rw [Node.ledger_loads, Node.load, List.headD_eq_head?_getD, List.head?_map]

section

omit [DecidableEq α]

theorem Node.standing_parents (n : Node α) : n.standing.parents = n.neighbourTable.parents :=
  n.neighbourTable.parents_eq_marks.symm

/-- A SHARE that is due comes from the head of the queue. -/
theorem Node.mem_due {s : α × ℤ} (hs : s ∈ n.due) :
    ∃ entry ∈ n.payloadEntryList.head?, s = (entry.dest, entry.payload.extra) := by
  obtain ⟨entry, hentry, hshare⟩ := List.mem_filterMap.1 (Multiset.mem_coe.1 hs)
  refine ⟨entry, ?_, ?_⟩
  · cases hlist : n.payloadEntryList with
    | nil =>
        rw [hlist] at hentry
        cases hentry
    | cons head rest =>
        rw [hlist] at hentry
        exact congrArg some (List.mem_singleton.1 hentry).symm
  · obtain ⟨payload, dest, round⟩ := entry
    cases payload with
    | share extra => exact (Option.some.inj hshare).symm
    | hello => cases hshare
    | load load => cases hshare
    | sethlmac timestamp hlmacPrefix assigned => cases hshare

end

/-- An event that is balanced changes the energy of a node that has a load by what it
delivers. -/
theorem energy_step {nodes : Finset α} {e : Event α} (hreach : ∀ a ∈ nodes, reach a = 1)
    (hknown : ∀ p ∈ n.neighbourTable.addrs, p ∈ nodes) (hlisted : n.nodeList ≠ [])
    (hqueued : cfg.hlmacCast = .broadcast → n.ledger.queued = 0) (hok : n.Balanced cfg nodes e)
    (h : Node.step cfg env e n = some n') :
    n'.nodeList ≠ [] ∧ n'.ledger.energy reach = n.ledger.energy reach + e.extra := by
  obtain ⟨hpasses, hfair⟩ := hok
  have hledger := ledger_step h
  generalize n.drawn cfg env e = drawn at hledger
  have hloads : n.ledger.loads ≠ [] := fun hnil => hlisted (List.map_eq_nil_iff.1 hnil)
  suffices hgoal : n'.ledger.loads ≠ [] ∧
      n'.ledger.energy reach = n.ledger.energy reach + e.extra by
    refine ⟨fun hnil => hgoal.1 ?_, hgoal.2⟩
    rw [Node.ledger_loads, hnil, List.map_nil]
  have hparents : n.standing.parents = n.neighbourTable.parents := n.standing_parents
  have hreached : ∀ p ∈ n.neighbourTable.parents, reach p = 1 := fun p hp => by
    obtain ⟨nb, hnb, rfl⟩ := List.mem_map.1 hp
    exact hreach _ (hknown _ (List.mem_map_of_mem (List.mem_filter.1 hnb).1))
  have hempty : n.ledger.loads.isEmpty = n.nodeList.isEmpty := List.isEmpty_map
  rw [hledger]
  unfold Ledger.step
  rw [hempty]
  unfold Node.RunsShare at hfair
  -- how often the handler of SHAREs runs
  generalize hruns : (n.flow.step cfg n.standing (!n.nodeList.isEmpty) e).shareRuns = runs
    at hfair ⊢
  cases e with
  | timer t =>
      cases t with
      | hello => exact ⟨hloads, (Int.add_zero _).symm⟩
      | sethlmac =>
          refine ⟨List.append_ne_nil_of_left_ne_nil hloads _, ?_⟩
          exact (Ledger.energy_draw hloads drawn).trans (Int.add_zero _).symm
      | sendMessage csma =>
          refine ⟨fun hnil => hloads ((Ledger.loads_transmit csma n.due).symm.trans hnil), ?_⟩
          refine (Ledger.energy_transmit Node.due_le hqueued fun s hs => ?_).trans
            (Int.add_zero _).symm
          obtain ⟨entry, hentry, rfl⟩ := Node.mem_due hs
          exact (hpasses entry hentry).imp_right (Or.imp_right (And.imp_right (hreach _)))
      | statistic =>
          have hsame : (n.standing.step cfg (.timer .statistic)).parents =
              n.neighbourTable.parents := hparents
          dsimp only
          rw [hsame]
          refine ⟨Ledger.loads_shareRuns hloads, ?_⟩
          refine (Ledger.energy_shareRuns (fun _ => hreached) fun hpos => ?_).trans
            (Int.add_zero _).symm
          exact Ledger.fair_of_headD hloads (n.headD_loads ▸ hfair (Nat.lt_of_sub_pos hpos))
  | receive sender message round =>
      obtain ⟨hjoins, hcounted⟩ := hpasses
      dsimp only [Event.extra]
      split
      · rename_i hself
        have hzero : message.extra = 0 := hcounted.resolve_right fun hc => hc.1 hself
        exact ⟨hloads, by rw [hzero, Int.add_zero]⟩
      · rename_i hself
        cases message with
        | hello => exact ⟨hloads, (Int.add_zero _).symm⟩
        | load load => exact ⟨hloads, (Int.add_zero _).symm⟩
        | share extra =>
            have hsame : (n.standing.step cfg (.receive sender (.share extra) round)).parents =
                n.neighbourTable.parents := by
              rw [← hparents]
              exact congrArg Standing.parents (if_neg hself)
            dsimp only
            rw [hsame, Ledger.energy_note]
            -- the load that the handler finds
            have htaken : ∀ l : Ledger α, l = (if n.flow.Counts n.standing sender then
                n.ledger.take extra else n.ledger) → l.loads ≠ [] ∧
                l.loads.headD 0 = n.gathered (.receive sender (.share extra) round) ∧
                l.energy reach = n.ledger.energy reach + extra := by
              rintro l rfl
              dsimp only [Node.gathered]
              split
              · refine ⟨Ledger.loads_take hloads extra, ?_, Ledger.energy_take hloads extra⟩
                rw [Ledger.headD_take hloads, n.headD_loads]
                rfl
              · rename_i hnot
                have hzero : extra = 0 := hcounted.resolve_right fun hc => hnot hc.2
                rw [hzero, Int.add_zero, Int.add_zero]
                exact ⟨hloads, n.headD_loads, rfl⟩
            obtain ⟨hne, hhead, henergy⟩ := htaken _ rfl
            refine ⟨Ledger.loads_shareRuns hne, ?_⟩
            refine (Ledger.energy_shareRuns (fun _ => hreached) fun hpos => ?_).trans henergy
            exact Ledger.fair_of_headD hne (hhead ▸ hfair (Nat.lt_of_sub_pos hpos))
        | sethlmac timestamp hlmacPrefix assigned =>
            have hne : (n.ledger.draw drawn).loads ≠ [] :=
              List.append_ne_nil_of_left_ne_nil hloads _
            simp only [hjoins, Bool.false_eq_true, if_false]
            refine ⟨Ledger.loads_shareRuns hne, Eq.trans ?_
              ((Ledger.energy_draw hloads drawn).trans (Int.add_zero _).symm)⟩
            cases hcast : cfg.hlmacCast with
            | broadcast =>
                rw [Flow.shareRuns_sethlmac hcast] at hruns
                rw [← hruns, Nat.sub_self, Function.iterate_zero, id_eq]
            | unicast =>
                refine Ledger.energy_shareRuns (fun hb => ?_) fun hpos => ?_
                · cases hcast.symm.trans hb
                · have hload : n.gathered (.receive sender
                      (.sethlmac timestamp hlmacPrefix assigned) round) = n.load := by
                    simp [Node.gathered, Payload.extra]
                  have hshared := hfair (Nat.lt_of_sub_pos hpos)
                  rw [hload, ← n.headD_loads, ← Ledger.headD_draw hloads drawn] at hshared
                  exact Ledger.fair_of_headD hne (hshared.of_unicast hcast)

/-! ## The queue of the broadcast build -/

theorem Ledger.queued_share {junk : α} {parents : List α} {l : Ledger α}
    (hcast : cfg.hlmacCast = .broadcast) : (l.share cfg junk parents).queued = l.queued := by
  unfold Ledger.share
  split
  · rfl
  · simp only [Ledger.send, hcast]

theorem Ledger.queued_shareRuns {junk : α} {parents : List α} {l : Ledger α} {k : ℕ}
    (hcast : cfg.hlmacCast = .broadcast) :
    ((Ledger.share cfg junk parents)^[k] l).queued = l.queued := by
  induction k with
  | zero => rfl
  | succ k ih =>
      rw [Function.iterate_succ_apply', Ledger.queued_share hcast]
      exact ih

/-- In the broadcast build no SHARE waits in the queue. -/
theorem queued_step {e : Event α} (hcast : cfg.hlmacCast = .broadcast)
    (hqueued : n.ledger.queued = 0) (h : Node.step cfg env e n = some n') :
    n'.ledger.queued = 0 := by
  have hledger := ledger_step h
  rw [hledger]
  unfold Ledger.step
  cases e with
  | timer t =>
      cases t with
      | hello => exact hqueued
      | sethlmac => exact hqueued
      | sendMessage csma =>
          simp only [Ledger.transmit, hcast, hqueued]
          exact Multiset.zero_sub _
      | statistic => exact (Ledger.queued_shareRuns hcast).trans hqueued
  | receive sender message round =>
      dsimp only
      split
      · exact hqueued
      · cases message with
        | hello => exact hqueued
        | load load => exact hqueued
        | share extra =>
            refine (Ledger.queued_shareRuns hcast).trans ?_
            split <;> exact hqueued
        | sethlmac timestamp hlmacPrefix assigned =>
            refine (Ledger.queued_shareRuns hcast).trans ?_
            split <;> exact hqueued

/-! ## Values of entries -/

omit [DecidableEq α] in
/-- The values of the SHAREs among payload entries, each as often as `f` says. -/
theorem sum_shares (f : α → ℤ) (es : List (PayloadEntry α)) :
    (es.map fun e => f e.dest * e.payload.extra).sum =
      ((shares es).map fun s => f s.1 * s.2).sum := by
  induction es with
  | nil => rfl
  | cons e es ih =>
      have hhead : f e.dest * e.payload.extra = ((shares [e]).map fun s => f s.1 * s.2).sum := by
        obtain ⟨payload, dest, round⟩ := e
        cases payload with
        | share extra => exact (Multiset.sum_singleton _).symm
        | hello => exact Int.mul_zero _
        | load load => exact Int.mul_zero _
        | sethlmac timestamp hlmacPrefix assigned => exact Int.mul_zero _
      rw [List.map_cons, List.sum_cons, ih, hhead, shares_cons e es, Multiset.map_add, Multiset.sum_add]

/-- The energy of a node is the energy of its ledger, as far as that is not at the MAC. -/
theorem Node.energy_ledger (n : Node α) :
    n.ledger.energy reach =
      n.energy + (n.macOut.map fun e => (reach e.dest : ℤ) * e.payload.extra).sum := by
  have hqueued := sum_shares (fun _ => 1) n.payloadEntryList
  simp only [Int.one_mul] at hqueued
  rw [Ledger.energy, n.headD_loads, Node.energy, sum_shares (fun a => (reach a : ℤ)), hqueued]
  rfl

end Step

end Den2ne
