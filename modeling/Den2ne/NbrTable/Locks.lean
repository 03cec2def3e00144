import Den2ne.NbrTable.Refinement

/-!
# Locks, and runs of calls

A lock is on the slot of a key, in one bit for each table. The history tells
which tables have locked an address and have not released it since, and that is
what the bits say, but for locks of items that have no key. So an eviction never
hits an address that the history has locked. Then the calls are put together:
after every run the tables refine their maps and their locks.
-/

namespace Den2ne.NbrTable

variable {Addr Data : Type*}

/-! ## The locks of a history -/

/-- The effect leaves `a` locked by the table `t`, if it is. -/
def Effect.KeepsLock (t : ℕ) (a : Addr) : Effect Addr Data → Prop
  | .removed t' a' => ¬ (t' = t ∧ a' = a)
  | .unlocked t' a' => ¬ (t' = t ∧ a' = a)
  | .evicted a' _ => a' ≠ a
  | .cleared => False
  | _ => True

/-- The table `t` has locked `a`, and has neither released nor removed it since,
nor has it been evicted. -/
def Locked (log : List (Effect Addr Data)) (t : ℕ) (a : Addr) : Prop :=
  Since (.locked t (some a)) (Effect.KeepsLock t a) log

/-- Only items that have a key have been locked. -/
def NoStrayLock (log : List (Effect Addr Data)) : Prop := ∀ t, .locked t none ∉ log

/-- An effect that changes no lock. -/
def Effect.Quiet (e : Effect Addr Data) : Prop :=
  (∀ t a, e.KeepsLock t a) ∧ ∀ t a, e ≠ .locked t a

variable {log : List (Effect Addr Data)} {e : Effect Addr Data} {t : ℕ} {a : Addr}

theorem locked_concat : Locked (log ++ [e]) t a ↔
    (Locked log t a ∧ e.KeepsLock t a) ∨ e = .locked t (some a) := since_concat

theorem Effect.Quiet.locked_concat (h : e.Quiet) : Locked (log ++ [e]) t a ↔ Locked log t a := by
  rw [NbrTable.locked_concat, and_iff_left (h.1 t a), or_iff_left (h.2 t _)]

theorem NoStrayLock.of_concat (h : NoStrayLock (log ++ [e])) : NoStrayLock log :=
  fun t hmem => h t (List.mem_append_left _ hmem)

theorem Effect.quiet_added (t : ℕ) (a : Addr) : (Effect.added t a : Effect Addr Data).Quiet :=
  ⟨fun _ _ => trivial, fun _ _ => nofun⟩

theorem Effect.quiet_wrote (t : ℕ) (a : Addr) (v : Data) : (Effect.wrote t a v).Quiet :=
  ⟨fun _ _ => trivial, fun _ _ => nofun⟩

namespace State

/-! ## The locks of a state -/

/-- `nbr_get_bit` on `locked_map`. -/
def locked (s : State Addr Data) (table i : ℕ) : Bool := (s.lockedMap i).getLsbD (s.index table)

/-- The table has a lock on the key of the address. -/
def LockedBy (s : State Addr Data) (t : ℕ) (a : Addr) : Prop :=
  ∃ i ∈ s.keys, s.lladdr i = a ∧ s.locked t i = true

/-- What is locked has a key with the bit of the table, and if no item without a
key has been locked, the bits are those of the locks. -/
structure Locks (s : State Addr Data) (log : List (Effect Addr Data)) : Prop where
  key : ∀ t a, Locked log t a → s.Registered t ∧ s.LockedBy t a
  bits : NoStrayLock log → ∀ i j, (s.lockedMap i).getLsbD j = true →
    i ∈ s.keys ∧ ∃ t, s.Registered t ∧ s.index t = j ∧ Locked log t (s.lladdr i)

variable {s s' : State Addr Data} {i : ℕ}

theorem sound_init [Inhabited Addr] [Inhabited Data] (n : ℕ) :
    (State.init n : State Addr Data).Sound where
  lladdr := List.nodup_nil
  tables := List.nodup_nil
  numTables := Nat.zero_le _
  usedKeys _ h := absurd rfl h
  usedTables _ _ h := by simp [State.init] at h
  holds := Pool.holds_init n

theorem locks_init [Inhabited Addr] [Inhabited Data] (n : ℕ) :
    (State.init n : State Addr Data).Locks [] where
  key _ _ h := absurd h since_nil
  bits _ _ _ h := by simp [State.init] at h

theorem Locks.locked_of_lockedBy (h : s.Locks log) (hstray : NoStrayLock log) (t : ℕ)
    (ht : s.Registered t) (a : Addr) (hlocked : s.LockedBy t a) : Locked log t a := by
  obtain ⟨i, -, rfl, hbit⟩ := hlocked
  obtain ⟨-, t', ht', hindex, hlocked⟩ := h.bits hstray i _ hbit
  rwa [index_inj ht ht' hindex.symm]

/-- A call that changes no key and no lock. -/
theorem Locks.quiet (h : s.Locks log) (he : e.Quiet) (hkeys : s'.keys = s.keys)
    (hlladdr : s'.lladdr = s.lladdr) (hlocked : s'.lockedMap = s.lockedMap)
    (htables : s'.allTables = s.allTables) : s'.Locks (log ++ [e]) := by
  obtain ⟨tables, keys, lladdr, mem, used, locked, data⟩ := s'
  obtain ⟨rfl, rfl, rfl, rfl⟩ : keys = s.keys ∧ lladdr = s.lladdr ∧ locked = s.lockedMap ∧
      tables = s.allTables := ⟨hkeys, hlladdr, hlocked, htables⟩
  constructor
  · intro t a hlocked
    exact h.key t a (he.locked_concat.1 hlocked)
  · intro hstray i j hbit
    obtain ⟨hi, t, ht, hindex, hlocked⟩ := h.bits hstray.of_concat i j hbit
    exact ⟨hi, t, ht, hindex, he.locked_concat.2 hlocked⟩

/-- A lock bit that is cleared takes the lock from the address of its key. -/
theorem Locks.clearBit (h : s.Locks log) (hs : s.Coherent) (ht : s.Registered t)
    (used : ℕ → BitVec 8) (hkeeps : ∀ t' a', e.KeepsLock t' a' ↔ ¬ (t = t' ∧ s.lladdr i = a'))
    (hne : ∀ t' a', e ≠ .locked t' a') :
    { s with
      usedMap := used
      lockedMap := State.clearBit s.lockedMap i (s.index t) : State Addr Data }.Locks
        (log ++ if i ∈ s.keys then [e] else []) := by
  have hbit (i' j' : ℕ) : (State.clearBit s.lockedMap i (s.index t) i').getLsbD j' =
      ((s.lockedMap i').getLsbD j' && !decide (i' = i ∧ j' = s.index t)) :=
    getLsbD_clearBit _ (index_lt_eight hs ht)
  by_cases hi : i ∈ s.keys
  · rw [if_pos hi]
    constructor
    · intro t' a' hlocked
      obtain ⟨hlocked, hkeep⟩ := (locked_concat.1 hlocked).resolve_right (hne t' _)
      obtain ⟨ht', k, hk, rfl, hset⟩ := h.key t' a' hlocked
      refine ⟨ht', k, hk, rfl, ?_⟩
      have hother : ¬ (k = i ∧ s.index t' = s.index t) := by
        rintro ⟨rfl, hindex⟩
        exact (hkeeps t' _).1 hkeep ⟨(index_inj ht' ht hindex).symm, rfl⟩
      refine (hbit k _).trans ?_
      change (s.locked t' k && !decide (k = i ∧ s.index t' = s.index t)) = true
      rw [hset, decide_eq_false hother]
      rfl
    · intro hstray i' j' hset
      have hset' := (hbit i' j').symm.trans hset
      rw [Bool.and_eq_true, Bool.not_eq_true', decide_eq_false_iff_not] at hset'
      obtain ⟨hi', t', ht', hindex, hlocked⟩ := h.bits hstray.of_concat i' j' hset'.1
      refine ⟨hi', t', ht', hindex, locked_concat.2 (Or.inl ⟨hlocked, (hkeeps t' _).2 ?_⟩)⟩
      rintro ⟨rfl, hlladdr⟩
      exact hset'.2 ⟨List.inj_on_of_nodup_map hs.lladdr hi' hi hlladdr.symm, hindex.symm⟩
  · rw [if_neg hi, List.append_nil]
    constructor
    · intro t' a' hlocked
      obtain ⟨ht', k, hk, rfl, hset⟩ := h.key t' a' hlocked
      refine ⟨ht', k, hk, rfl, (hbit k _).trans ?_⟩
      have hki : k ≠ i := ne_of_mem_of_not_mem hk hi
      rw [decide_eq_false (fun hc => hki hc.1), Bool.not_false, Bool.and_true]
      exact hset
    · intro hstray i' j' hset
      have hset' := (hbit i' j').symm.trans hset
      rw [Bool.and_eq_true] at hset'
      exact h.bits hstray i' j' hset'.1

/-- A lock is recorded with the address of its key. -/
theorem Locks.lock (h : s.Locks log) (hs : s.Coherent) (ht : s.Registered t) (i : ℕ) :
    (s.lock t i).Locks (log ++ [.locked t (if i ∈ s.keys then some (s.lladdr i) else none)]) := by
  have hbit (i' j' : ℕ) : ((s.lock t i).lockedMap i').getLsbD j' =
      ((s.lockedMap i').getLsbD j' || decide (i' = i ∧ j' = s.index t)) :=
    getLsbD_setBit _ (index_lt_eight hs ht)
  constructor
  · intro t' a' hlocked
    rcases locked_concat.1 hlocked with ⟨hlocked, -⟩ | heq
    · obtain ⟨ht', k, hk, rfl, hset⟩ := h.key t' a' hlocked
      refine ⟨ht', k, hk, rfl, (hbit k _).trans ?_⟩
      change (s.locked t' k || decide (k = i ∧ s.index t' = s.index t)) = true
      rw [hset, Bool.true_or]
    · obtain ⟨rfl, hsome⟩ : t = t' ∧ (if i ∈ s.keys then some (s.lladdr i) else none) = some a' :=
        Effect.locked.inj heq
      by_cases hi : i ∈ s.keys
      · rw [if_pos hi] at hsome
        refine ⟨ht, i, hi, Option.some.inj hsome, (hbit i _).trans ?_⟩
        rw [decide_eq_true (show i = i ∧ (s.lock t i).index t = s.index t from ⟨rfl, rfl⟩),
          Bool.or_true]
      · rw [if_neg hi] at hsome
        cases hsome
  · intro hstray i' j' hset
    have hi : i ∈ s.keys := by
      by_contra hi
      refine hstray t (List.mem_append_right _ ?_)
      rw [if_neg hi]
      exact List.mem_singleton_self _
    rw [if_pos hi]
    rw [hbit, Bool.or_eq_true, decide_eq_true_iff] at hset
    rcases hset with hset | ⟨rfl, rfl⟩
    · obtain ⟨hi', t', ht', hindex, hlocked⟩ := h.bits hstray.of_concat i' j' hset
      exact ⟨hi', t', ht', hindex, locked_concat.2 (Or.inl ⟨hlocked, trivial⟩)⟩
    · exact ⟨hi, t, ht, rfl, locked_concat.2 (Or.inr rfl)⟩

/-- A registration changes no lock, and no table's bit. -/
theorem Locks.register (h : s.Locks log) (t : ℕ) (callback : Bool) :
    (s.register t callback).Locks log := by
  have hkeys : (s.register t callback).keys = s.keys := by rw [register_eq]
  have hlladdr : (s.register t callback).lladdr = s.lladdr := by rw [register_eq]
  have hlocked : (s.register t callback).lockedMap = s.lockedMap := by rw [register_eq]
  constructor
  · intro t' a' hl
    obtain ⟨ht', k, hk, hka, hset⟩ := h.key t' a' hl
    refine ⟨ht'.register t callback, k, hkeys ▸ hk, hlladdr ▸ hka, ?_⟩
    rwa [locked, index_register ht', hlocked]
  · intro hstray i j hset
    rw [hlocked] at hset
    obtain ⟨hi, t', ht', hindex, hl⟩ := h.bits hstray i j hset
    rw [hkeys, hlladdr]
    exact ⟨hi, t', ht'.register t callback, (index_register ht' t callback).trans hindex, hl⟩

/-- The locks of a key go with it. -/
theorem Locks.removeKey (h : s.Locks log) (hs : s.Coherent) {k : ℕ} (hk : k ∈ s.keys)
    (doFree : Bool) (called : List ℕ) :
    (s.removeKey k doFree).2.Locks (log ++ [.evicted (s.lladdr k) called]) := by
  have hmem {j : ℕ} : j ∈ (s.removeKey k doFree).2.keys ↔ j ≠ k ∧ j ∈ s.keys :=
    hs.lladdr.of_map.mem_erase_iff
  constructor
  · intro t' a' hl
    obtain ⟨hl, hkeep⟩ := (locked_concat.1 hl).resolve_right nofun
    obtain ⟨ht', j, hj, rfl, hset⟩ := h.key t' a' hl
    have hjk : j ≠ k := fun hjk => hkeep (hjk ▸ rfl)
    refine ⟨ht', j, hmem.2 ⟨hjk, hj⟩, rfl, ?_⟩
    change (Function.update s.lockedMap k 0 j).getLsbD (s.index t') = true
    rwa [Function.update_of_ne hjk]
  · intro hstray i j hset
    change (Function.update s.lockedMap k 0 i).getLsbD j = true at hset
    have hik : i ≠ k := by
      rintro rfl
      simp at hset
    rw [Function.update_of_ne hik] at hset
    obtain ⟨hi, t', ht', hindex, hl⟩ := h.bits hstray.of_concat i j hset
    refine ⟨hmem.2 ⟨hik, hi⟩, t', ht', hindex, locked_concat.2 (Or.inl ⟨hl, fun heq => ?_⟩)⟩
    exact hik (List.inj_on_of_nodup_map hs.lladdr hi hk heq.symm)

/-- A new key is locked by no table. -/
theorem Locks.useItem_addKey [Inhabited Data] (h : s.Locks log) {i : ℕ} (hi : i ∉ s.keys) (t : ℕ)
    (a : Addr) :
    ((s.addKey i a).useItem t i).Locks (log ++ [.added t a]) := by
  have hsame {j : ℕ} (hj : j ∈ s.keys) : ((s.addKey i a).useItem t i).lladdr j = s.lladdr j :=
    Function.update_of_ne (ne_of_mem_of_not_mem hj hi) _ _
  constructor
  · intro t' a' hl
    obtain ⟨ht', j, hj, rfl, hset⟩ := h.key t' a' ((Effect.quiet_added t a).locked_concat.1 hl)
    exact ⟨ht', j, List.mem_append_left _ hj, hsame hj, hset⟩
  · intro hstray i' j hset
    obtain ⟨hi', t', ht', hindex, hl⟩ := h.bits hstray.of_concat i' j hset
    rw [hsame hi']
    exact ⟨List.mem_append_left _ hi', t', ht', hindex,
      (Effect.quiet_added t a).locked_concat.2 hl⟩

/-- The locks that are left by `nbr_table_clear` are those of items without a key. -/
theorem lockedMap_clearKeys (turns : ℕ) (hturns : s.keys.length = turns) {j : ℕ}
    (hset : ((clearKeys turns s).lockedMap i).getLsbD j = true) :
    (s.lockedMap i).getLsbD j = true ∧ i ∉ s.keys := by
  induction turns generalizing s with
  | zero => exact ⟨hset, by rw [List.length_eq_zero_iff.1 hturns]; exact List.not_mem_nil⟩
  | succ turns ih =>
      cases hkeys : s.keys with
      | nil =>
          rw [hkeys] at hturns
          cases hturns
      | cons k ks =>
          have hrest : (s.removeKey k true).2.keys = ks := by
            change s.keys.erase k = ks
            rw [hkeys, List.erase_cons_head]
          have hstep : clearKeys (turns + 1) s = clearKeys turns (s.removeKey k true).2 := by
            rw [clearKeys, hkeys]
            rfl
          rw [hstep] at hset
          rw [hkeys] at hturns
          obtain ⟨hset, hi⟩ := ih (by rw [hrest]; exact Nat.succ.inj hturns) hset
          rw [hrest] at hi
          change (Function.update s.lockedMap k 0 i).getLsbD j = true at hset
          have hik : i ≠ k := by
            rintro rfl
            simp at hset
          rw [Function.update_of_ne hik] at hset
          exact ⟨hset, by rw [List.mem_cons]; exact fun hc => hc.elim hik hi⟩

theorem Locks.clear (h : s.Locks log) : s.clear.Locks (log ++ [.cleared]) := by
  constructor
  · intro t a hl
    rcases locked_concat.1 hl with ⟨-, hkeep⟩ | heq
    · cases hkeep
    · cases heq
  · intro hstray i j hset
    obtain ⟨hset, hi⟩ := lockedMap_clearKeys s.keys.length rfl hset
    exact absurd (h.bits hstray.of_concat i j hset).1 hi

theorem Locks.addLladdr [DecidableEq Addr] [Inhabited Data] (h : s.Locks log) (hs : s.Sound)
    (ht : s.Registered t) (policy : Policy Addr) (a : Addr) : (s.addLladdr policy t a).state.Locks
      (log ++ (((s.addLladdr policy t a).evicted.toList.map fun e => .evicted e.1 e.2) ++
        if (s.addLladdr policy t a).item.isSome then [.added t a] else [])) := by
  rcases addLladdr_cases policy hs ht a with hr | ⟨i, s', hr, -, -, hplaced, -⟩ |
    ⟨i, b, called, s', hr, hev, -, -, hs', -⟩
  · rw [hr]
    exact (List.append_nil log).symm ▸ h
  · rw [hr]
    change s'.Locks (log ++ [.added t a])
    rcases hplaced with rfl | ⟨hi, mem, rfl⟩
    · exact h.quiet (Effect.quiet_added t a) rfl rfl rfl rfl
    · have h' : { s with mem := mem : State Addr Data }.Locks log := ⟨h.key, h.bits⟩
      exact h'.useItem_addKey hi t a
  · rw [hr]
    change s'.Locks (log ++ [.evicted b called, .added t a])
    have hremoved := h.removeKey hs.toCoherent hev.key false called
    rw [hev.lladdr] at hremoved
    have hi : i ∉ (s.removeKey i false).2.keys :=
      fun hi => (hs.lladdr.of_map.mem_erase_iff.1 hi).1 rfl
    rw [hs', ← List.singleton_append, ← List.append_assoc]
    exact hremoved.useItem_addKey hi t a

/-- Every call keeps the locks and the history together. -/
theorem Locks.call [DecidableEq Addr] [Inhabited Addr] [Inhabited Data] (h : s.Locks log)
    (hs : s.Sound) {e : Event Addr Data} (hlegal : s.Legal e) :
    (s.call e).2.Locks (log ++ (s.call e).1) := by
  have hnil : s.Locks (log ++ []) := (List.append_nil log).symm ▸ h
  cases e with
  | register t callback => exact (List.append_nil log).symm ▸ h.register t callback
  | addLladdr t lladdr policy => exact h.addLladdr hs (hlegal t rfl) policy _
  | remove t item =>
      cases item with
      | none => exact hnil
      | some i =>
          exact h.clearBit hs.toCoherent (hlegal t rfl) _ (fun _ _ => Iff.rfl) fun _ _ => nofun
  | lock t item =>
      cases item with
      | none => exact hnil
      | some i => exact h.lock hs.toCoherent (hlegal t rfl) i
  | unlock t item =>
      cases item with
      | none => exact hnil
      | some i =>
          exact h.clearBit hs.toCoherent (hlegal t rfl) _ (fun _ _ => Iff.rfl) fun _ _ => nofun
  | write t i v =>
      simp only [State.call]
      split
      · exact h.quiet (Effect.quiet_wrote t _ v) rfl rfl rfl rfl
      · rw [List.append_nil]
        exact ⟨h.key, h.bits⟩
  | clear => exact h.clear

end State

/-! ## Runs -/

/-- A state, and what the calls have done so far. -/
structure Traced (Addr Data : Type*) where
  state : State Addr Data
  log : List (Effect Addr Data)

variable [DecidableEq Addr] [Inhabited Addr] [Inhabited Data]

/-- One call. -/
def step (e : Event Addr Data) (r : Traced Addr Data) : Option (Traced Addr Data) :=
  some { state := (r.state.call e).2, log := r.log ++ (r.state.call e).1 }

/-- No calls so far, and room for `n` neighbours (`NBR_TABLE_MAX_NEIGHBORS`). -/
def boot (Addr Data : Type*) [Inhabited Addr] [Inhabited Data] (n : ℕ) : Traced Addr Data where
  state := State.init n
  log := []

/-- Every call is about a registered table, or registers one. -/
def Legal (r : Traced Addr Data) (e : Event Addr Data) : Prop := r.state.Legal e

instance (r : Traced Addr Data) (e : Event Addr Data) : Decidable (Legal r e) :=
  inferInstanceAs (Decidable (r.state.Legal e))

/-- The tables are one finite map each, which tells what was added and has
neither been removed nor evicted since, a loop over a table sees each of its
entries once, and an address is locked by the tables that have locked it and
have not released it since. -/
structure Refines (r : Traced Addr Data) : Prop where
  lookup : ∀ t, r.state.Registered t → ∀ a, r.state.lookup t a = maps r.log t a
  present : ∀ t, r.state.Registered t → ∀ a,
    (r.state.getFromLladdr t a).isSome ↔ Present r.log t a
  visits : ∀ t, ∃ l, State.Visits r.state t (r.state.head t) l ∧ l.Nodup ∧
    ∀ i, i ∈ l ↔ ∃ a, r.state.getFromLladdr t a = some i
  locks : ∀ t a, Locked r.log t a → r.state.LockedBy t a
  unlocks : NoStrayLock r.log → ∀ t, r.state.Registered t → ∀ a,
    r.state.LockedBy t a → Locked r.log t a

/-- A call on one table changes the entries of another one by an eviction only. -/
def State.Frames (s : State Addr Data) (e : Event Addr Data) : Prop :=
  e.table ≠ none → ∀ t, s.Registered t → e.table ≠ some t → ∀ a,
    (s.call e).2.lookup t a = s.lookup t a ∨
      ((s.call e).2.lookup t a = none ∧ ∃ called, .evicted a called ∈ (s.call e).1)

/-- How an address `a` can be evicted by a call `e`: a new address is added
while all keys are taken, the key of `a` is not locked, and the callbacks called
are those of the tables with a callback that used it. With the default policy, an
address in some table goes only if every key is used or locked by some table;
with that of RPL Lite it has the greatest rank of those that are not locked. -/
structure State.EvictedBy (s : State Addr Data) (e : Event Addr Data) (a : Addr)
    (called : List ℕ) : Prop where
  full : false ∉ s.mem
  unlocked : ∃ k ∈ s.keys, s.lladdr k = a ∧ s.lockedMap k = 0
  called : ∀ t, s.Registered t → (t ∈ called ↔
    (∃ table ∈ s.allTables, table.id = t ∧ table.callback) ∧ (s.getFromLladdr t a).isSome)
  added : ∃ t lladdr policy, e = .addLladdr t lladdr policy ∧
    (∀ k ∈ s.keys, s.lladdr k ≠ lladdr.getD default) ∧
    (policy = defaultPolicy → (∃ t, (s.getFromLladdr t a).isSome) →
      ∀ k ∈ s.keys, s.usedMap k ≠ 0 ∨ s.lockedMap k ≠ 0) ∧
    ∀ getRank, policy = rplPolicy getRank →
      ∀ k ∈ s.keys, s.lockedMap k = 0 → getRank (s.lladdr k) ≤ getRank a

namespace State

variable {s : State Addr Data}

/-- Every function leaves the other tables alone, but for evictions. -/
theorem frames_of_legal (h : s.Sound) {e : Event Addr Data} (hlegal : s.Legal e) :
    s.Frames e := by
  intro hsome t ht hne a
  cases e with
  | register t' callback => exact Or.inl (lookup_register h ht t' callback a)
  | addLladdr t' lladdr policy =>
      have hne' : t ≠ t' := fun htt => hne (congrArg some htt.symm)
      have ht' : s.Registered t' := hlegal t' rfl
      rcases addLladdr_cases policy h ht' (lladdr.getD default) with hr |
        ⟨i, s', hr, -, -, -, hlookup⟩ | ⟨i, b, called, s', hr, -, -, -, -, hlookup⟩
      · exact Or.inl (by simp only [call, hr])
      · refine Or.inl ?_
        simp only [call, hr]
        rw [hlookup t ht, if_neg (fun hc => hne' hc.1)]
      · simp only [call, hr, hlookup t ht, if_neg (fun hc : t = t' ∧ _ => hne' hc.1)]
        split
        next hba =>
          refine Or.inr ⟨rfl, called, ?_⟩
          rw [← hba]
          simp
        next => exact Or.inl rfl
  | remove t' item =>
      have hne' : t ≠ t' := fun htt => hne (congrArg some htt.symm)
      cases item with
      | none => exact Or.inl rfl
      | some i =>
          refine Or.inl ?_
          change (s.remove t' i).lookup t a = _
          rw [lookup_remove h (hlegal t' rfl) i ht, if_neg (fun hc => hne' hc.1)]
  | lock t' item => cases item <;> exact Or.inl rfl
  | unlock t' item => cases item <;> exact Or.inl rfl
  | write t' i v =>
      have hne' : t ≠ t' := fun htt => hne (congrArg some htt.symm)
      refine Or.inl ?_
      change (s.setData t' i v).lookup t a = _
      rw [lookup_setData h.toCoherent, if_neg (fun hc => hne' hc.1)]
  | clear => exact absurd rfl hsome

omit [Inhabited Addr] [Inhabited Data] in
/-- The default policy spares the addresses that a table holds. -/
theorem Evicts.used_or_locked (h : s.Sound) {policy : Policy Addr} {a b : Addr} {k : ℕ}
    {called : List ℕ} (hev : Evicts policy s a b called k) (hdefault : policy = defaultPolicy)
    (hlive : ∃ t, (s.getFromLladdr t b).isSome) :
    ∀ k ∈ s.keys, s.usedMap k ≠ 0 ∨ s.lockedMap k ≠ 0 := by
  subst hdefault
  obtain ⟨t', hsome⟩ := hlive
  intro j hj
  obtain ⟨i, hi⟩ := Option.isSome_iff_exists.1 hsome
  have hentry := (getFromLladdr_eq_some h.toCoherent).1 hi
  have hused : s.usedMap i ≠ 0 := by
    intro h₀
    have := hentry.used
    rw [used, h₀] at this
    simp at this
  have hcount : s.usedCount b ≠ 0 := by
    rw [← hentry.lladdr]
    exact fun h₀ => hused ((usedCount_eq_zero h.toCoherent hentry.key).1 h₀)
  by_cases hlocked : s.lockedMap j = 0
  · left
    have hle := usedCount_le_of_worst hev.worst hj hlocked
    exact fun h₀ => hcount (Nat.le_zero.1
      (((usedCount_eq_zero h.toCoherent hj).2 h₀) ▸ hle))
  · exact Or.inr hlocked

omit [Inhabited Data] in
theorem Evicts.evictedBy (h : s.Sound) {policy : Policy Addr} {t k : ℕ} {lladdr : Option Addr}
    {b : Addr} {called : List ℕ} (hev : Evicts policy s (lladdr.getD default) b called k) :
    s.EvictedBy (.addLladdr t lladdr policy) b called where
  full := hev.full
  unlocked := ⟨k, hev.key, hev.lladdr, hev.unlocked⟩
  called t' _ := by
    rw [hev.called, mem_called]
    refine and_congr_right fun _ => ⟨fun hu => ?_, fun hsome => ?_⟩
    · rw [(getFromLladdr_eq_some h.toCoherent).2 ⟨hev.key, hev.lladdr, hu⟩]
      rfl
    · obtain ⟨j, hj⟩ := Option.isSome_iff_exists.1 hsome
      have hentry := (getFromLladdr_eq_some h.toCoherent).1 hj
      have hjk : j = k := List.inj_on_of_nodup_map h.lladdr hentry.key hev.key
        (hentry.lladdr.trans hev.lladdr.symm)
      exact hjk ▸ hentry.used
  added := by
    refine ⟨t, lladdr, policy, rfl, hev.new, ?_, ?_⟩
    · exact hev.used_or_locked h
    · rintro getRank rfl j hj hunlocked
      exact rank_le_of_worst hev.worst hj hunlocked

/-- What is evicted, and how. -/
theorem evictedBy_of_mem (h : s.Sound) {e : Event Addr Data} (hlegal : s.Legal e) {a : Addr}
    {called : List ℕ} (hmem : .evicted a called ∈ (s.call e).1) : s.EvictedBy e a called := by
  cases e with
  | addLladdr t lladdr policy =>
      rcases addLladdr_cases policy h (hlegal t rfl) (lladdr.getD default) with hr |
        ⟨i, s', hr, -⟩ | ⟨i, b, called', s', hr, hev, -⟩
      · simp [call, hr] at hmem
      · simp [call, hr] at hmem
      · simp [call, hr] at hmem
        obtain ⟨rfl, rfl⟩ := hmem
        exact hev.evictedBy h
  | register t callback => cases hmem
  | remove t item =>
      cases item with
      | none => cases hmem
      | some i =>
          simp only [call] at hmem
          split at hmem
          · simp at hmem
          · cases hmem
  | lock t item => cases item <;> simp [call] at hmem
  | unlock t item =>
      cases item with
      | none => cases hmem
      | some i =>
          simp only [call] at hmem
          split at hmem
          · simp at hmem
          · cases hmem
  | write t i v =>
      simp only [call] at hmem
      split at hmem
      · simp at hmem
      · cases hmem
  | clear => simp [call] at hmem

end State

omit [Inhabited Addr] in
theorem refines_of_sound {r : Traced Addr Data} (h : r.state.Sound)
    (hlookup : ∀ t, r.state.Registered t → ∀ a, r.state.lookup t a = maps r.log t a)
    (hlocks : r.state.Locks r.log) : Refines r where
  lookup := hlookup
  locks t a hlocked := (hlocks.key t a hlocked).2
  unlocks := hlocks.locked_of_lockedBy
  present t ht a := by
    rw [← isSome_maps_iff, ← hlookup t ht, State.lookup, Option.isSome_map]
  visits t := by
    refine ⟨_, State.visits_head h.toCoherent t, h.holds.nodup.filter _, fun i => ?_⟩
    rw [State.mem_visited]
    simp only [State.getFromLladdr_eq_some h.toCoherent]

/-- What every run keeps. -/
structure Kept (r : Traced Addr Data) : Prop where
  sound : r.state.Sound
  lookup : ∀ t, r.state.Registered t → ∀ a, r.state.lookup t a = maps r.log t a
  unregistered : ∀ t, ¬ r.state.Registered t → ∀ a, maps r.log t a = none
  locks : r.state.Locks r.log

theorem kept_boot (n : ℕ) : Kept (boot Addr Data n) where
  sound := State.sound_init n
  lookup t ht := by cases ht
  unregistered _ _ _ := rfl
  locks := State.locks_init n

theorem kept_step {r r' : Traced Addr Data} {e : Event Addr Data} (h : Kept r)
    (hlegal : Legal r e) (hstep : step e r = some r') : Kept r' := by
  obtain rfl := Option.some.inj hstep
  obtain ⟨hsound, hfollows⟩ := State.call_spec h.sound hlegal
  have hmaps : maps (r.log ++ (r.state.call e).1) =
      (r.state.call e).1.foldl Effect.apply (maps r.log) := List.foldl_append
  obtain ⟨hlookup, hnone⟩ := hfollows _ h.lookup h.unregistered
  exact ⟨hsound, by rwa [hmaps], by rwa [hmaps], h.locks.call h.sound hlegal⟩

/-- After every run of calls the tables refine one finite map each, and the next
call touches the entries of other tables by evictions only, and evicts only as
it has to, and no address that a table has locked. -/
theorem refines_of_run (n : ℕ) (es : List (Event Addr Data)) (r : Traced Addr Data)
    (hlegal : Transition.Meets step Legal es (boot Addr Data n))
    (hrun : Transition.run step es (boot Addr Data n) = some r) :
    Refines r ∧ ∀ e, Legal r e → r.state.Frames e ∧
      ∀ a called, .evicted a called ∈ (r.state.call e).1 →
        r.state.EvictedBy e a called ∧ ∀ t, ¬ Locked r.log t a := by
  have hkept : Kept r := Transition.run_invariant (fun _ _ _ h hl hs => kept_step h hl hs)
    (kept_boot n) hlegal hrun
  refine ⟨refines_of_sound hkept.sound hkept.lookup hkept.locks, fun e he => ?_⟩
  refine ⟨State.frames_of_legal hkept.sound he, fun a called hmem => ?_⟩
  have hevicted := State.evictedBy_of_mem hkept.sound he hmem
  refine ⟨hevicted, fun t hlocked => ?_⟩
  obtain ⟨k, hk, hka, hunlocked⟩ := hevicted.unlocked
  obtain ⟨j, hj, hja, hbit⟩ := (hkept.locks.key t a hlocked).2
  have hjk : j = k := List.inj_on_of_nodup_map hkept.sound.lladdr hj hk (hja.trans hka.symm)
  rw [hjk, State.locked, hunlocked] at hbit
  simp at hbit

/-- Two tables with room for two neighbours: the first table has locked the
address 7, so that 8 goes from the second one when 9 is added to it. -/
def sampleCalls : List (Event ℕ ℕ) :=
  [.register 0 true, .addLladdr 0 (some 7) defaultPolicy, .register 1 false,
    .addLladdr 1 (some 8) defaultPolicy, .write 0 0 5, .lock 0 (some 0),
    .addLladdr 1 (some 9) defaultPolicy]

theorem refines_of_run_sampleCalls : ∃ r : Traced ℕ ℕ,
    Transition.run step sampleCalls (boot ℕ ℕ 2) = some r ∧
    (r.state.lookup 0 7 = some 5 ∧ r.state.lookup 1 8 = none ∧ r.state.lookup 1 9 = some 0) ∧
    Refines r ∧ ∀ e, Legal r e → r.state.Frames e ∧
      ∀ a called, .evicted a called ∈ (r.state.call e).1 →
        r.state.EvictedBy e a called ∧ ∀ t, ¬ Locked r.log t a := by
  obtain ⟨r, hrun⟩ := Option.isSome_iff_exists.1
    (by decide : (Transition.run step sampleCalls (boot ℕ ℕ 2)).isSome)
  refine ⟨r, hrun, ?_, refines_of_run 2 sampleCalls r (by decide) hrun⟩
  have heval : (Transition.run step sampleCalls (boot ℕ ℕ 2)).map
      (fun r => (r.state.lookup 0 7, r.state.lookup 1 8, r.state.lookup 1 9)) =
        some (some 5, none, some 0) := by decide
  rw [hrun] at heval
  obtain ⟨h₇, h⟩ := Prod.mk.inj (Option.some.inj heval)
  exact ⟨h₇, Prod.mk.inj h⟩

/-- Two addresses are added to a table, and the second one is removed. -/
def idleCalls : List (Event ℕ ℕ) :=
  [.register 0 true, .addLladdr 0 (some 7) (rplPolicy fun _ => 65535),
    .addLladdr 0 (some 8) (rplPolicy fun _ => 65535), .remove 0 (some 1)]

/-- With the policy of RPL Lite and two addresses that are no RPL neighbours, the
address 7 goes from its table, although no table uses the key of 8 any more. -/
theorem not_evicts_only_when_used :
    ¬ ∀ (es : List (Event ℕ ℕ)) (r : Traced ℕ ℕ) (e : Event ℕ ℕ) (a : ℕ) (called : List ℕ),
      Transition.Meets step Legal es (boot ℕ ℕ 2) →
      Transition.run step es (boot ℕ ℕ 2) = some r → Legal r e →
      .evicted a called ∈ (r.state.call e).1 → (∃ t, (r.state.getFromLladdr t a).isSome) →
      ∀ k ∈ r.state.keys, r.state.usedMap k ≠ 0 := by
  intro h
  have hunused := h idleCalls ((Transition.run step idleCalls (boot ℕ ℕ 2)).get (by decide))
    (.addLladdr 0 (some 9) (rplPolicy fun _ => 65535)) 7 [0] (by decide)
    (Option.some_get _).symm (by decide) List.mem_cons_self ⟨0, by decide⟩ 1 (by decide)
  exact hunused (by decide)

end Den2ne.NbrTable
