import Den2ne.Network.Energy
import Den2ne.Network.LoopFree
import Den2ne.Node.Telling
import Mathlib.Logic.Relation

/-!
# The flood of a round

A node that stores an address tells it to its neighbours, and one that is told so stores an address
of the round, unless it has one already. So when nothing is on its way any more, every node that is
linked to the root has been reached. `World.Floods` says what that takes: no SetHLMAC is lost,
there is room for all neighbours in what is sent, and a node that has been reached gets no new
neighbours; how the frames are ordered and which of them come twice does not matter, and neither do
earlier rounds.
-/

namespace Den2ne

open Transition

variable {α : Type*} [DecidableEq α] {w : World α} {s s' : Net α} {t timestamp : ℕ} {a u v : α}

/-- The node has stored an address of the round, or of a later one. -/
def Net.Reached (s : Net α) (timestamp : ℕ) (v : α) : Prop :=
  ∃ r ∈ s.accepted v, timestamp ≤ r.timestamp

/-- A SetHLMAC of `v` that gives `a` an id of the round is queued at `v` or in the air. -/
def Net.Told (w : World α) (s : Net α) (v : α) (timestamp : ℕ) (a : α) : Prop :=
  (s.node v).Tells (w.config v) timestamp a ∨
    ∃ f ∈ s.air, f.src = v ∧ f.dst = a ∧ f.message.Names timestamp a

/-- `a` is in the table of `v`, and hears it. -/
def Net.Linked (w : World α) (s : Net α) (v a : α) : Prop :=
  a ∈ (s.node v).neighbourTable.addrs ∧ a ∈ w.hears v

/-- From the round `t` on, what a node has stored has reached its neighbours, or is on its way. -/
def Net.Covered (w : World α) (t : ℕ) (s : Net α) : Prop :=
  ∀ v, ∀ r ∈ s.accepted v, t ≤ r.timestamp → ∀ a, s.Linked w v a → a ≠ r.sender →
    s.Reached r.timestamp a ∨ s.Told w v r.timestamp a

/-! ## What the flood takes -/

/-- The message is a SetHLMAC of round `t` or a later one. -/
def Payload.since (t : ℕ) : Payload α → Bool
  | .sethlmac timestamp _ _ => t ≤ timestamp
  | _ => false

/-- A Hello to a node that was reached comes from a neighbour that it knows, and a node that stores
an address can tell it to all its neighbours. -/
def Frame.Floods (w : World α) (t : ℕ) (s : Net α) (env : Env α) (f : Frame α) : Prop :=
  (f.message = .hello → s.Reached t f.dst → f.src ∈ (s.node f.dst).neighbourTable.addrs) ∧
  (f.message.since t = true →
    (s.node f.dst).Stores (w.config f.dst) (.receive f.src f.message f.round) →
    RoomForAll (w.config f.dst) env (iotoriiExtractAddress f.dst f.message) f.src
      (s.node f.dst).neighbourTable)

/-- What an event must meet for the flood from round `t` on. -/
def World.Floods (w : World α) (t : ℕ) (s : Net α) (e : NetEvent α) : Prop :=
  match e with
  | .timer v .sethlmac env => t ≤ nextTimestamp (s.node v).timestamp →
      RoomForAll (w.config v) env (hlmacCreateRootAddr 1) v (s.node v).neighbourTable
  | .timer v (.sendMessage csma) _ => w.hlmacCast = .broadcast → csma = .refused →
      ∀ entry ∈ (s.node v).payloadEntryList.head?, entry.payload.since t = false
  | .timer _ _ _ => True
  | .deliver i env => ∀ f ∈ s.air[i]?, f.Floods w t s env
  | .lose i => ∀ f ∈ s.air[i]?, f.message.since t = false
  | .duplicate _ => True

instance (s : Net α) (timestamp : ℕ) (v : α) : Decidable (s.Reached timestamp v) :=
  inferInstanceAs (Decidable (∃ r ∈ s.accepted v, timestamp ≤ r.timestamp))

instance (w : World α) (t : ℕ) (s : Net α) (env : Env α) (f : Frame α) :
    Decidable (f.Floods w t s env) := inferInstanceAs (Decidable (_ ∧ _))

instance (w : World α) (t : ℕ) (s : Net α) : ∀ e : NetEvent α, Decidable (w.Floods t s e)
  | .timer _ .sethlmac _ => inferInstanceAs (Decidable (_ → _))
  | .timer _ (.sendMessage _) _ => inferInstanceAs (Decidable (_ → _ → _))
  | .timer _ .hello _ | .timer _ .statistic _ => inferInstanceAs (Decidable True)
  | .deliver _ _ => inferInstanceAs (Decidable (∀ f ∈ _, _))
  | .lose _ => inferInstanceAs (Decidable (∀ f ∈ _, _))
  | .duplicate _ => inferInstanceAs (Decidable True)

/-! ## Being told, and being reached -/

section

omit [DecidableEq α]

theorem Payload.Names.since {p : Payload α} (h : p.Names timestamp a) (ht : t ≤ timestamp) :
    p.since t = true := by
  obtain ⟨hlmacPrefix, assigned, rfl, -⟩ := h
  exact decide_eq_true ht

theorem Payload.since_of_le {p : Payload α} (h : p.since t = false) (ht : t ≤ timestamp) :
    p.since timestamp = false := by
  cases p with
  | sethlmac ts hlmacPrefix assigned =>
      exact decide_eq_false fun hle => of_decide_eq_false h (ht.trans hle)
  | _ => rfl

theorem Net.Reached.mono (h : s.Reached timestamp v)
    (hsub : s.accepted v ⊆ s'.accepted v) : s'.Reached timestamp v := by
  obtain ⟨r, hr, hle⟩ := h
  exact ⟨r, hsub hr, hle⟩

end

/-- A packet that tells `a` gets to it. -/
theorem PayloadEntry.Tells.reaches {x : PayloadEntry α} (h : x.Tells (w.config v) timestamp a)
    (ha : a ∈ w.hears v) : a ∈ w.reaches v x.dest := by
  unfold World.reaches
  split
  · exact ha
  · next hdest =>
      obtain hnull | rfl := h.2
      · exact absurd hnull hdest
      · rw [if_pos (w.hears_mem v _ ha)]
        exact List.mem_singleton_self _

section Acts

variable {env : Env α} {e : Event α} {air : List (Frame α)} {n : Node α}

/-- The send timer keeps what is queued, or passes it on. -/
theorem Node.Tells.sendMessage {cfg : Config α} {csma : CsmaOutcome} {m m' : Node α}
    (h : m.Tells cfg timestamp a)
    (hstep : Node.step cfg env (.timer (.sendMessage csma)) m = some m')
    (hcsma : cfg.hlmacCast = .broadcast → csma = .refused →
      ∀ entry ∈ m.payloadEntryList.head?, entry.payload.since timestamp = false) :
    m'.Tells cfg timestamp a ∨ ∃ x ∈ m'.macOut, x.Tells cfg timestamp a := by
  obtain ⟨x, hx, htells⟩ := h
  simp only [Node.step, Node.expire, Option.ite_none_right_eq_some] at hstep
  obtain ⟨-, hstep⟩ := hstep
  unfold iotoriiHandleSendMessageTimer at hstep
  dsimp only at hstep
  split at hstep
  · cases hstep
  · next entry rest hqueue =>
      rw [hqueue] at hx hcsma
      split at hstep
      · next hcast =>
          obtain rfl := Option.some.inj hstep
          rcases List.mem_cons.1 hx with rfl | hx
          · refine .inr ⟨{ x with dest := cfg.linkaddrNull }, ?_, htells.1, .inl rfl⟩
            have hne : csma ≠ .refused := fun hrefused => by
              have hold := hcsma hcast hrefused x rfl
              rw [htells.1.since le_rfl] at hold
              cases hold
            simp [hne]
          · exact .inl ⟨x, hx, htells⟩
      · split at hstep
        · obtain rfl := Option.some.inj hstep
          rcases List.mem_cons.1 hx with rfl | hx
          · exact .inr ⟨x, List.mem_append_right _ (List.mem_singleton_self x), htells⟩
          · exact .inl ⟨x, hx, htells⟩
        · obtain rfl := Option.some.inj hstep
          exact .inl ⟨x, hqueue ▸ hx, htells⟩
        · obtain rfl := Option.some.inj hstep
          exact .inl ⟨x, hqueue ▸ hx, htells⟩

/-- What is queued stays queued, or goes into the air. -/
theorem World.Acts.told (ha : w.Acts s v env e air n s')
    (hsend : ∀ csma, e = .timer (.sendMessage csma) → w.hlmacCast = .broadcast →
      csma = .refused → ∀ entry ∈ (s.node v).payloadEntryList.head?,
        entry.payload.since timestamp = false)
    (hu : a ∈ w.hears u) (h : (s.node u).Tells (w.config u) timestamp a) :
    s'.Told w u timestamp a := by
  by_cases huv : u = v
  · subst huv
    by_cases hcsma : ∃ csma, e = .timer (.sendMessage csma)
    · obtain ⟨csma, rfl⟩ := hcsma
      rcases h.sendMessage ha.step (hsend csma rfl) with htells | ⟨x, hx, htells⟩
      · left
        rw [ha.node_self]
        exact htells
      · refine .inr ⟨⟨u, a, x.payload, x.round⟩, ?_, rfl, rfl, htells.1⟩
        rw [ha.air_eq]
        refine List.mem_append_right _ (List.mem_flatMap.2 ⟨x, hx, ?_⟩)
        exact List.mem_map_of_mem (htells.reaches hu)
    · left
      rw [ha.node_self]
      exact (advertised_step (fun csma he => hcsma ⟨csma, he⟩) ha.step).tells h
  · left
    rw [ha.node_ne huv]
    exact h

end Acts

/-! ## A SetHLMAC arrives -/

omit [DecidableEq α] in
/-- A node that is in step has reached the round of its table. -/
theorem Net.InStep.reached_of_joined {k : ℕ} (h : s.InStep w k) (hv : v ≠ w.root)
    (hjoined : (s.node v).standing.Joined) : s.Reached (s.node v).standing.lastTimestamp v := by
  obtain ⟨entry, hentry⟩ := List.exists_mem_of_ne_nil _ hjoined
  obtain ⟨r, hr, hts, -⟩ := h.traced.table v entry hentry
  exact ⟨r, hr, by rw [hts, (h.abreast v hv).current entry hentry]⟩

/-- A SetHLMAC that names a node offers it an address. -/
theorem Net.Backed.offers {hlmacPrefix : List UInt8} {assigned : List (UInt8 × α)} {round : ℕ}
    (h : s.Backed u timestamp hlmacPrefix assigned round) (ha : a ∈ assigned.map Prod.snd) :
    hlmacIsUnspecifiedAddr
        (iotoriiExtractAddress a (.sethlmac timestamp hlmacPrefix assigned)) = false ∧
      (iotoriiExtractAddress a (.sethlmac timestamp hlmacPrefix assigned)).len ≠ 0 := by
  obtain ⟨x, hx, rfl⟩ := List.mem_map.1 ha
  simp only [iotoriiExtractAddress]
  cases hfind : assigned.find? (·.2 = x.2) with
  | none => exact absurd (List.find?_eq_none.1 hfind x hx) (by simp)
  | some y =>
      obtain ⟨id, mac⟩ := y
      have hlen := h.length_le
      refine ⟨hlmacIsUnspecifiedAddr_hlmacAddNewId _ _, fun hzero => ?_⟩
      dsimp only at hzero
      rw [hlmacAddNewId_ofIds (by omega)] at hzero
      have hnat := HlmacAddr.toNat_ofIds_len (l := hlmacPrefix ++ [id])
        (by rw [List.length_append, List.length_singleton]; omega)
      rw [hzero, List.length_append] at hnat
      exact absurd hnat (by simp)

/-- A common node that a SetHLMAC names has reached its round, or takes it. -/
theorem Net.InStep.reached_or_takes {k : ℕ} (h : s.InStep w k) (hs : s.Sane w)
    (hroom : Roomy w.hlmacMaxHlmac) {f : Frame α} (hf : f ∈ s.air) (hv : f.dst ≠ w.root)
    (hself : f.src ≠ f.dst) (hnames : f.message.Names timestamp f.dst) :
    s.Reached timestamp f.dst ∨
      ∃ addr, Takes (w.config f.dst) (s.node f.dst).standing f.src f.message timestamp addr := by
  obtain ⟨hlmacPrefix, assigned, hmessage, hmem⟩ := hnames
  obtain ⟨hspec, hlen⟩ := (h.traced.air f hf _ _ _ hmessage).offers hmem
  rw [← hmessage] at hspec hlen
  have hgrounded := hs.grounded f.dst
  have htakes : (s.node f.dst).standing.accepts timestamp
        (iotoriiExtractAddress f.dst f.message) = true →
      (∀ entry ∈ (s.node f.dst).standing.hlmacTable.entries, entry.timestamp < timestamp) →
      Takes (w.config f.dst) (s.node f.dst).standing f.src f.message timestamp
        (iotoriiExtractAddress f.dst f.message) := by
    intro hacc hnew
    refine ⟨hself, ⟨hlmacPrefix, assigned, hmessage⟩, rfl, hspec, hacc, ?_⟩
    refine fst_hlmactableAdd_of_nil hroom ?_
    rw [hlmactableRenew_of_newer hgrounded.counted hnew]
    rfl
  by_cases hjoined : (s.node f.dst).standing.Joined
  · by_cases hle : timestamp ≤ (s.node f.dst).standing.lastTimestamp
    · obtain ⟨r, hr, hts⟩ := h.reached_of_joined hv hjoined
      exact .inl ⟨r, hr, hle.trans hts⟩
    · refine .inr ⟨_, htakes (by simp [Standing.accepts, Nat.not_le.1 hle]) fun entry hentry => ?_⟩
      rw [(h.abreast f.dst hv).current entry hentry]
      exact Nat.not_le.1 hle
  · have hnil : (s.node f.dst).standing.hlmacTable.entries = [] := not_not.1 hjoined
    have hlast : (s.node f.dst).standing.lastTimestamp = 0 :=
      not_not.1 fun hne => hjoined (hgrounded.entered hne)
    refine .inr ⟨_, htakes ?_ fun entry hentry => ?_⟩
    · rw [Standing.accepts, hlmactableHasLoop_nil hnil, hlast]
      have hbeq : ((iotoriiExtractAddress f.dst f.message).len == 0) = false := by simpa using hlen
      rw [hbeq]
      cases timestamp <;> simp
    · rw [hnil] at hentry
      cases hentry

omit [DecidableEq α] in
/-- The root has reached every round of which there are messages. -/
theorem Net.InStep.reached_root {k : ℕ} (h : s.InStep w k) (hk : timestamp < k) :
    s.Reached timestamp w.root := by
  obtain ⟨r, hr, hts, -⟩ := h.crowned.own timestamp hk
  exact ⟨r, hr, hts.ge⟩

/-- A node that a SetHLMAC arrives at that names it has reached its round then. -/
theorem Net.InStep.reached_deliver {k : ℕ} (h : s.InStep w k) (hs : s.Sane w)
    (hroom : Roomy w.hlmacMaxHlmac) {f : Frame α} (hf : f ∈ s.air) (hself : f.src ≠ f.dst)
    (hnames : f.message.Names timestamp f.dst) {env : Env α} {air : List (Frame α)} {n : Node α}
    (ha : w.Acts s f.dst env (.receive f.src f.message f.round) air n s') :
    s'.Reached timestamp f.dst := by
  by_cases hv : f.dst = w.root
  · obtain ⟨hlmacPrefix, assigned, hmessage, -⟩ := hnames
    obtain ⟨r, hr, hts, -⟩ := (h.traced.air f hf _ _ _ hmessage).holder
    have hreached := h.reached_root (hts ▸ h.traced.recent f.src r hr)
    rw [← hv] at hreached
    exact hreached.mono (ha.accepted_subset f.dst)
  · rcases h.reached_or_takes hs hroom hf hv hself hnames with hreached | ⟨addr, htakes⟩
    · exact hreached.mono (ha.accepted_subset f.dst)
    · refine ⟨⟨f.src, timestamp, addr⟩, ?_, le_rfl⟩
      rw [ha.accepted_self, htakes.accepted_step]
      exact List.mem_cons_self

/-! ## One event -/

theorem Takes.stores {cfg : Config α} {m : Node α} {sender : α} {message : Payload α}
    {addr : HlmacAddr} (h : Takes cfg m.standing sender message timestamp addr) (r : ℕ) :
    m.Stores cfg (.receive sender message r) := by
  obtain ⟨hne, ⟨hlmacPrefix, assigned, rfl⟩, rfl, hspec, hacc, hstored⟩ := h
  exact ⟨hne, by simp [Standing.storesFrom, hspec, hacc, hstored]⟩

section Acts

variable {env : Env α} {e : Event α} {air : List (Frame α)} {n : Node α}

theorem World.Acts.accepted_cases (ha : w.Acts s v env e air n s') :
    s'.accepted v = s.accepted v ∨ ∃ r, s'.accepted v = r :: s.accepted v := by
  rw [ha.accepted_self]
  rcases accepted_step (w.config v) (s.node v).standing e with
    h | ⟨-, h⟩ | ⟨sender, message, r, timestamp, addr, -, -, h⟩
  · exact .inl h
  · exact .inr ⟨_, h⟩
  · exact .inr ⟨_, h⟩

/-- What is queued now is not yet in the air. -/
theorem World.Acts.tells_self {cfg : Config α} (ha : w.Acts s v env e air n s')
    (h : n.Tells cfg timestamp a) : (s'.node v).Tells cfg timestamp a := by
  rw [ha.node_self]
  exact h

/-- What a node stores is its own address, with which it starts a round, or one that a SetHLMAC
offers it. -/
theorem World.Acts.accepted_new {r : Accept α} (ha : w.Acts s v env e air n s')
    (hr : s'.accepted v = r :: s.accepted v) :
    (e = .timer .sethlmac ∧
      r = ⟨v, nextTimestamp (s.node v).timestamp, hlmacCreateRootAddr 1⟩) ∨
    ∃ sender message rd ts addr, e = .receive sender message rd ∧
      Takes (w.config v) (s.node v).standing sender message ts addr ∧ r = ⟨sender, ts, addr⟩ := by
  rw [ha.accepted_self] at hr
  rcases accepted_step (w.config v) (s.node v).standing e with
    hold | ⟨he, hnew⟩ | ⟨sender, message, rd, ts, addr, he, htakes, hnew⟩
  · exact absurd (hr.symm.trans hold) (List.cons_ne_self r _)
  · exact .inl ⟨he, (List.cons.inj (hr.symm.trans hnew)).1⟩
  · exact .inr ⟨sender, message, rd, ts, addr, he, htakes, (List.cons.inj (hr.symm.trans hnew)).1⟩

/-- One node acts: what it stores it tells to its neighbours, and everybody else stays reached or
told. -/
theorem Net.Covered.acts (h : s.Covered w t) (ha : w.Acts s v env e air n s')
    (hsend : ∀ csma, e = .timer (.sendMessage csma) → w.hlmacCast = .broadcast →
      csma = .refused → ∀ entry ∈ (s.node v).payloadEntryList.head?, entry.payload.since t = false)
    (hair : ∀ f ∈ s.air, f ∈ air ∨
      ∀ timestamp, f.message.Names timestamp f.dst → f.src ≠ f.dst → s'.Reached timestamp f.dst)
    (htable : ∀ a ∈ (s'.node v).neighbourTable.addrs, a ∈ (s.node v).neighbourTable.addrs ∨
      ¬ s.Reached t v)
    (hnew : ∀ r, s'.accepted v = r :: s.accepted v → t ≤ r.timestamp →
      ∀ a ∈ (s'.node v).neighbourTable.addrs, a ≠ r.sender →
        (s'.node v).Tells (w.config v) r.timestamp a) : s'.Covered w t := by
  -- who was reached or told is so now
  have hold : ∀ u, ∀ r ∈ s.accepted u, t ≤ r.timestamp → ∀ a, s.Linked w u a → a ≠ r.sender →
      s'.Reached r.timestamp a ∨ s'.Told w u r.timestamp a := by
    intro u r hr ht a hlinked hne
    rcases h u r hr ht a hlinked hne with hreached | htells | ⟨f, hf, rfl, rfl, hnames⟩
    · exact .inl (hreached.mono (ha.accepted_subset a))
    · refine .inr (ha.told (fun csma he hcast hrefused entry hentry => ?_) hlinked.2 htells)
      exact Payload.since_of_le (hsend csma he hcast hrefused entry hentry) ht
    · rcases hair f hf with hf | hreached
      · refine .inr (.inr ⟨f, ?_, rfl, rfl, hnames⟩)
        rw [ha.air_eq]
        exact List.mem_append_left _ hf
      · exact .inl (hreached r.timestamp hnames fun heq =>
          w.hears_irrefl f.src (heq ▸ hlinked.2))
  intro u r hr ht a hlinked hne
  by_cases hu : u = v
  · subst hu
    have hstays : r ∈ s.accepted u → s'.Reached r.timestamp a ∨ s'.Told w u r.timestamp a := by
      intro hr'
      rcases htable a hlinked.1 with hmem | hnot
      · exact hold u r hr' ht a ⟨hmem, hlinked.2⟩ hne
      · exact absurd ⟨r, hr', ht⟩ hnot
    rcases ha.accepted_cases with hsame | ⟨r', hr'⟩
    · exact hstays (hsame ▸ hr)
    · rw [hr'] at hr
      rcases List.mem_cons.1 hr with rfl | hr
      · exact .inr (.inl (hnew r hr' ht a hlinked.1 hne))
      · exact hstays hr
  · rw [Net.accepted, ha.node_ne hu] at hr
    rw [Net.Linked, ha.node_ne hu] at hlinked
    exact hold u r hr ht a hlinked hne

end Acts

/-- What is taken out of a list is the entry at its place. -/
theorem mem_eraseIdx_or_eq {β : Type*} {l : List β} {i : ℕ} {x y : β} (hx : x ∈ l)
    (hy : l[i]? = some y) : x ∈ l.eraseIdx i ∨ x = y := by
  induction l generalizing i with
  | nil => cases hx
  | cons z l ih =>
      cases i with
      | zero =>
          obtain rfl := Option.some.inj hy
          exact (List.mem_cons.1 hx).symm
      | succ i =>
          rcases List.mem_cons.1 hx with rfl | hx
          · exact .inl List.mem_cons_self
          · exact (ih hx hy).imp_left (List.mem_cons_of_mem z)

theorem Net.Covered.of_air (h : s.Covered w t) {air : List (Frame α)}
    (hair : ∀ f ∈ s.air, f ∈ air ∨ f.message.since t = false) :
    Net.Covered w t { s with air := air } := by
  intro v r hr ht a hlinked hne
  rcases h v r hr ht a hlinked hne with hreached | htells | ⟨f, hf, hsrc, hdst, hnames⟩
  · exact .inl hreached
  · exact .inr (.inl htells)
  · rcases hair f hf with hf | hsince
    · exact .inr (.inr ⟨f, hf, hsrc, hdst, hnames⟩)
    · rw [hnames.since ht] at hsince
      cases hsince

/-- A timer expires: nothing of the air is taken, and no table grows. -/
theorem Net.Covered.timer {tm : Timer} {env : Env α} {n : Node α} (h : s.Covered w t)
    (hok : w.Floods t s (.timer v tm env)) (ha : w.Acts s v env (.timer tm) s.air n s') :
    s'.Covered w t := by
  have haddrs : ∀ a ∈ (s'.node v).neighbourTable.addrs,
      a ∈ (s.node v).neighbourTable.addrs := by
    intro a ha'
    rcases ha.addrs_cases ha' with hold | ⟨r, hr, -⟩
    · exact hold
    · cases hr
  refine h.acts ha (fun csma he => ?_) (fun f hf => .inl hf) (fun a ha' => .inl (haddrs a ha'))
    fun r hr ht a ha' hne => ?_
  · obtain rfl := Event.timer.inj he
    exact hok
  · rcases ha.accepted_new hr with ⟨he, rfl⟩ | ⟨sender, message, rd, ts, addr, he, -, -⟩
    · obtain rfl := Event.timer.inj he
      exact ha.tells_self (tells_sethlmacTimer ha.step (hok ht) (haddrs a ha') hne)
    · cases he

/-- A frame arrives: the node that it names has reached its round then. -/
theorem Net.Covered.deliver {i k : ℕ} {f : Frame α} {env : Env α} {n : Node α}
    (h : s.Covered w t) (hs : s.Sane w) (hk : s.InStep w k) (hroom : Roomy w.hlmacMaxHlmac)
    (hf : s.air[i]? = some f) (hfloods : f.Floods w t s env)
    (ha : w.Acts s f.dst env (.receive f.src f.message f.round) (s.air.eraseIdx i) n s') :
    s'.Covered w t := by
  have hmem := List.mem_of_getElem? hf
  refine h.acts ha (fun csma he => by cases he) (fun g hg => ?_) (fun a ha' => ?_)
    fun r hr ht a ha' hne => ?_
  · rcases mem_eraseIdx_or_eq hg hf with hg | rfl
    · exact .inl hg
    · exact .inr fun timestamp hnames hself => hk.reached_deliver hs hroom hmem hself hnames ha
  · rcases ha.addrs_cases ha' with hold | ⟨r, hr, -⟩
    · exact .inl hold
    · obtain ⟨rfl, hhello, -⟩ := Event.receive.inj hr
      by_cases hreached : s.Reached t f.dst
      · exact .inl (hfloods.1 hhello hreached)
      · exact .inr hreached
  · rcases ha.accepted_new hr with ⟨he, -⟩ | ⟨sender, message, rd, ts, addr, he, htakes, rfl⟩
    · cases he
    · obtain ⟨rfl, rfl, rfl⟩ := Event.receive.inj he
      obtain ⟨hlmacPrefix, assigned, hmessage⟩ := htakes.message_eq
      have hstores : (s.node f.dst).Stores (w.config f.dst)
          (.receive f.src f.message f.round) := htakes.stores f.round
      have haddrs : a ∈ (s.node f.dst).neighbourTable.addrs := by
        rcases ha.addrs_cases ha' with hold | ⟨r, hr, -⟩
        · exact hold
        · obtain ⟨-, hhello, -⟩ := Event.receive.inj hr
          rw [hmessage] at hhello
          cases hhello
      have hroomAll := hfloods.2 (by rw [hmessage]; exact decide_eq_true ht) hstores
      have hact := ha.step
      rw [hmessage] at hact hstores hroomAll
      exact ha.tells_self (tells_receive hact hstores hroomAll haddrs hne)

/-- Every event that meets `World.Floods` keeps the flood going. -/
theorem Net.Covered.step {e : NetEvent α} {k : ℕ} (h : s.Covered w t) (hs : s.Sane w)
    (hk : s.InStep w k) (hroom : Roomy w.hlmacMaxHlmac) (hok : w.Floods t s e)
    (hstep : w.step e s = some s') : s'.Covered w t := by
  rcases World.step_cases hstep with ⟨v, tm, env, n, rfl, hv, ha⟩ | ⟨i, env, f, n, rfl, hf, ha⟩ |
    ⟨i, rfl, rfl⟩ | ⟨i, f, rfl, hf, rfl⟩
  · exact h.timer hok ha
  · exact h.deliver hs hk hroom hf (hok f hf) ha
  · refine h.of_air fun f hf => ?_
    cases hget : s.air[i]? with
    | none => exact .inl (by rwa [List.eraseIdx_of_length_le (List.getElem?_eq_none_iff.1 hget)])
    | some g =>
        rcases mem_eraseIdx_or_eq hf hget with hf | rfl
        · exact .inl hf
        · exact .inr (hok f hget)
  · exact h.of_air fun g hg => .inl (List.mem_append_left _ hg)

/-! ## Runs -/

/-- Nothing of the round is on its way. -/
def Net.Still (s : Net α) (timestamp : ℕ) : Prop :=
  (∀ v, ∀ x ∈ (s.node v).payloadEntryList, ∀ a, ¬ x.payload.Names timestamp a) ∧
    ∀ f ∈ s.air, ∀ a, ¬ f.message.Names timestamp a

theorem Net.Still.not_told (h : s.Still timestamp) : ¬ s.Told w v timestamp a := by
  rintro (⟨x, hx, hnames, -⟩ | ⟨f, hf, -, -, hnames⟩)
  · exact h.1 v x hx a hnames
  · exact h.2 f hf a hnames

/-- The node has stored an address of this very round. -/
def Net.Holds (s : Net α) (timestamp : ℕ) (v : α) : Prop :=
  ∃ r ∈ s.accepted v, r.timestamp = timestamp

theorem Net.covered_of_run (hroom : Roomy w.hlmacMaxHlmac) {es : List (NetEvent α)}
    (hok : Meets w.step (w.Floods t) es Net.boot) (hrun : run w.step es Net.boot = some s) :
    s.Covered w t := by
  refine (run_invariant (I := fun s => s.Covered w t ∧ s.Sane w ∧ ∃ k, s.InStep w k) ?_
    ⟨fun _ _ hr => (by cases hr), Net.sane_boot, 0, Net.inStep_boot⟩ hok hrun).1
  rintro s e s' ⟨hc, hs, k, hk⟩ he hstep
  exact ⟨hc.step hs hk hroom he hstep, hs.step hstep, (hk.step hs hroom hstep).1⟩

/-- Along a link the current round goes on, once nothing of it is on its way. -/
theorem Net.Covered.holds_of_linked {k : ℕ} (h : s.Covered w t) (hk : s.InStep w k)
    (ht : t ≤ timestamp) (hlast : timestamp + 1 = k) (hstill : s.Still timestamp)
    (hlinked : s.Linked w v a) (hv : s.Holds timestamp v) : s.Holds timestamp a := by
  obtain ⟨r, hr, rfl⟩ := hv
  have hexact : s.Reached r.timestamp a → s.Holds r.timestamp a := by
    rintro ⟨r', hr', hle⟩
    have hrecent := hk.traced.recent a r' hr'
    exact ⟨r', hr', by omega⟩
  by_cases hsender : a = r.sender
  · -- the address came from there
    rcases hk.traced.derived v r hr with ⟨rfl, hroot, -⟩ | ⟨-, -, -, -, -, -, r', hr', hts, -⟩
    · exact ⟨r, (hsender.trans hroot) ▸ hr, rfl⟩
    · exact ⟨r', hsender ▸ hr', hts⟩
  · exact hexact ((h v r hr ht a hlinked hsender).resolve_right hstill.not_told)

/-- If from round `t` on nothing is lost, there is room for all neighbours, and tables do not grow
any more, then in every state in which nothing of the current round of the root is on its way, every
node that is linked to the root holds an address of that round. -/
theorem flood_reaches (w : World α) (hroom : Roomy w.hlmacMaxHlmac) {es : List (NetEvent α)}
    (hok : Meets w.step (w.Floods t) es Net.boot) (hrun : run w.step es Net.boot = some s)
    (hstarted : s.accepted w.root ≠ []) (ht : t ≤ (s.node w.root).timestamp)
    (hstill : s.Still (s.node w.root).timestamp)
    (hlinked : Relation.ReflTransGen (s.Linked w) w.root v) :
    s.Holds (s.node w.root).timestamp v := by
  obtain ⟨-, k, hk⟩ := Net.inStep_of_run hroom hrun
  have hcovered := Net.covered_of_run hroom hok hrun
  obtain ⟨r₀, hr₀⟩ := List.exists_mem_of_ne_nil _ hstarted
  have hpos := hk.traced.recent w.root r₀ hr₀
  have hlast : (s.node w.root).timestamp + 1 = k := by
    have hclock := hk.traced.clock.timestamp
    have hle := hk.traced.clock.le
    change (s.node w.root).timestamp = _ at hclock
    omega
  induction hlinked with
  | refl =>
      obtain ⟨r, hr, hts, -⟩ := hk.crowned.own (s.node w.root).timestamp (by omega)
      exact ⟨r, hr, hts⟩
  | tail _ hab ih => exact hcovered.holds_of_linked hk ht hlast hstill hab ih

theorem still_joinedRow : joinedRow.Still (joinedRow.node 1).timestamp := by
  have hair : joinedRow.air = [] := by decide +kernel
  have hqueue : ∀ v ∈ sampleRow.nodes, (joinedRow.node v).payloadEntryList = [] := by decide +kernel
  refine ⟨fun v x hx => ?_, fun f hf => ?_⟩
  · by_cases hv : v ∈ sampleRow.nodes
    · rw [hqueue v hv] at hx
      cases hx
    · rw [(Net.sane_of_run run_joinRow).outside v hv] at hx
      cases hx
  · rw [hair] at hf
    cases hf

theorem linked_joinedRow :
    joinedRow.Linked sampleRow sampleRow.root 2 ∧ joinedRow.Linked sampleRow 2 3 :=
  ⟨⟨by decide +kernel, by decide +kernel⟩, by decide +kernel, by decide +kernel⟩

/-- The leaf of the row holds an address. -/
theorem flood_reaches_row : joinedRow.Holds (joinedRow.node 1).timestamp 3 :=
  flood_reaches (t := 0) sampleRow (.inr (by decide)) (by decide +kernel) run_joinRow
    (by decide +kernel) (Nat.zero_le _) still_joinedRow
    (.tail (.single linked_joinedRow.1) linked_joinedRow.2)

end Den2ne
