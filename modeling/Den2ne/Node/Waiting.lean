import Den2ne.Node.Flow

/-!
# Whom the counters wait for

The two counters of children are numbers; the neighbours that they stand for
are in the history. `Flow.waiting` lists those that a counter was set for and
that have not settled it yet: a LOAD or a SHARE of the round settles its own
counter, and in the unicast build a SetHLMAC that names the node settles both.
A counter that is at least the length of that list (`Flow.Covers`) stays so as
long as every message that counts down comes from a neighbour that the counter
waits for.
-/

namespace Den2ne

/-- The two messages that a child owes, each with a counter of its own. -/
inductive Owed
  | load
  | share
deriving DecidableEq, Repr

variable {α : Type*} [DecidableEq α]

/-- The message is of this kind. -/
def Payload.pays : Payload α → Owed → Bool
  | .load _, .load => true
  | .share _, .share => true
  | _, _ => false

/-- The message is a SetHLMAC with an entry for `self`. -/
def Payload.names (self : α) : Payload α → Bool
  | .sethlmac _ _ assigned => assigned.any (·.2 = self)
  | _ => false

/-- A SetHLMAC offers an address to those that it names. -/
theorem hlmacIsUnspecifiedAddr_iotoriiExtractAddress (self : α) (message : Payload α) :
    hlmacIsUnspecifiedAddr (iotoriiExtractAddress self message) = !message.names self := by
  cases message with
  | sethlmac timestamp hlmacPrefix assigned =>
      simp only [iotoriiExtractAddress, Payload.names]
      cases hfind : assigned.find? (·.2 = self) with
      | none =>
          have hany : assigned.any (·.2 = self) = false := by
            rw [List.any_eq_false]
            exact List.find?_eq_none.1 hfind
          rw [hany]
          rfl
      | some x =>
          have hany : assigned.any (·.2 = self) = true :=
            List.any_eq_true.2 ⟨x, List.mem_of_find?_eq_some hfind, by
              simpa using List.find?_some hfind⟩
          rw [hany]
          exact hlmacIsUnspecifiedAddr_hlmacAddNewId _ _
  | hello => rfl
  | load load => rfl
  | share extra => rfl

namespace Flow

/-- The counter of a kind. -/
def left (f : Flow α) : Owed → ℕ
  | .load => f.nHijosLoad
  | .share => f.nHijosShare

/-- A message of this kind, made in round `t`, came from `u`. -/
def got (f : Flow α) (t : ℕ) (c : Owed) (u : α) : Bool :=
  f.received.any fun m => m.1 = u && m.2.2 == t && m.2.1.pays c

/-- A SetHLMAC that names the node, made in round `t`, came from `u`. -/
def named (f : Flow α) (self : α) (t : ℕ) (u : α) : Bool :=
  f.received.any fun m => m.1 = u && m.2.2 == t && m.2.1.names self

variable (cfg : Config α)

/-- The neighbour owes this message no longer. -/
def settled (f : Flow α) (t : ℕ) (c : Owed) (u : α) : Bool :=
  f.got t c u || (cfg.hlmacCast = .unicast && f.named cfg.linkaddrNodeAddr t u)

/-- The neighbours that the counter of `c` was set for and still waits for. -/
def waiting (f : Flow α) (t : ℕ) (c : Owed) : List α :=
  f.awaited.filter fun u => !f.settled cfg t c u

/-- Both counters count at least the neighbours that they wait for. -/
def Covers (f : Flow α) (t : ℕ) : Prop := ∀ c, (f.waiting cfg t c).length ≤ f.left c

variable {cfg} {f f' : Flow α} {t : ℕ}

/-- One message more can only settle more. -/
theorem settled_of_cons {m : α × Payload α × ℕ} (hr : f'.received = m :: f.received) {c : Owed}
    {u : α} (h : f.settled cfg t c u = true) : f'.settled cfg t c u = true := by
  unfold settled got named at h ⊢
  rw [hr, List.any_cons, List.any_cons]
  rw [Bool.or_eq_true, Bool.and_eq_true] at h ⊢
  rcases h with h | ⟨hcast, h⟩
  · rw [h, Bool.or_true]
    exact .inl rfl
  · rw [h, Bool.or_true]
    exact .inr ⟨hcast, rfl⟩

theorem waiting_sublist (cfg : Config α) (t : ℕ) {m : α × Payload α × ℕ} (hr : f'.received = m :: f.received)
    (ha : f'.awaited = f.awaited) (c : Owed) :
    (f'.waiting cfg t c).Sublist (f.waiting cfg t c) := by
  unfold waiting
  rw [ha]
  refine List.monotone_filter_right f.awaited fun u hu => ?_
  rw [Bool.not_eq_true'] at hu ⊢
  by_contra hset
  rw [Bool.not_eq_false] at hset
  rw [settled_of_cons hr hset] at hu
  cases hu

/-- The neighbour that settles a counter is not waited for any more. -/
theorem length_waiting_lt {m : α × Payload α × ℕ} (hr : f'.received = m :: f.received)
    (ha : f'.awaited = f.awaited) {c : Owed} {u : α} (hu : u ∈ f.waiting cfg t c)
    (hset : f'.settled cfg t c u = true) :
    (f'.waiting cfg t c).length + 1 ≤ (f.waiting cfg t c).length := by
  have hsub := waiting_sublist cfg t hr ha c
  by_contra hlen
  have heq := hsub.eq_of_length (le_antisymm hsub.length_le (by omega))
  rw [← heq, waiting, List.mem_filter, hset] at hu
  cases hu.2

/-- A message that counts nothing down leaves the counters covered. -/
theorem Covers.of_left {m : α × Payload α × ℕ} (h : f.Covers cfg t)
    (hr : f'.received = m :: f.received) (ha : f'.awaited = f.awaited)
    (hleft : ∀ c, f.left c ≤ f'.left c) : f'.Covers cfg t := fun c =>
  ((waiting_sublist cfg t hr ha c).length_le.trans (h c)).trans (hleft c)

/-- So does one that counts down a counter that waits for its sender, and that
settles it. -/
theorem Covers.countDown {m : α × Payload α × ℕ} (h : f.Covers cfg t)
    (hr : f'.received = m :: f.received) (ha : f'.awaited = f.awaited)
    (hleft : ∀ c, f.left c ≤ f'.left c ∨ f.left c ≤ f'.left c + 1 ∧
      (f.left c ≠ 0 → m.1 ∈ f.waiting cfg t c ∧ f'.settled cfg t c m.1 = true)) :
    f'.Covers cfg t := by
  intro c
  have hsub := (waiting_sublist cfg t hr ha c).length_le
  have hc := h c
  rcases hleft c with hle | ⟨hle, hwait⟩
  · omega
  · by_cases h0 : f.left c = 0
    · omega
    · obtain ⟨hmem, hset⟩ := hwait h0
      have hlt := length_waiting_lt hr ha hmem hset
      omega

theorem settled_of_pays {m : α × Payload α × ℕ} (hr : f'.received = m :: f.received) {c : Owed}
    (ht : m.2.2 = t) (hpays : m.2.1.pays c = true) : f'.settled cfg t c m.1 = true := by
  unfold settled got
  rw [hr, List.any_cons]
  simp [ht, hpays]

theorem settled_of_names {m : α × Payload α × ℕ} (hr : f'.received = m :: f.received)
    (hcast : cfg.hlmacCast = .unicast) (ht : m.2.2 = t)
    (hnames : m.2.1.names cfg.linkaddrNodeAddr = true) (c : Owed) :
    f'.settled cfg t c m.1 = true := by
  unfold settled named
  rw [hr, List.any_cons]
  simp [ht, hnames, hcast]

/-- A counter that has run out waits for nobody. -/
theorem Covers.settled_of_left {c : Owed} (h : f.Covers cfg t) (h0 : f.left c = 0) {u : α}
    (hu : u ∈ f.awaited) : f.settled cfg t c u = true := by
  have hlen := h c
  rw [h0, Nat.le_zero, List.length_eq_zero_iff] at hlen
  by_contra hset
  have hmem : u ∈ f.waiting cfg t c := List.mem_filter.2 ⟨hu, by simpa using hset⟩
  rw [hlen] at hmem
  cases hmem

end Flow

end Den2ne
