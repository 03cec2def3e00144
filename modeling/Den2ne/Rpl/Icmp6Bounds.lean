import Den2ne.Rpl.Options

/-!
# The bounds of RPL control messages

`Inside` says of a payload that its receiver reads only bytes of it, writes only inside the
fields that it fills, and hands a message over only if all options up to the end of the payload
are well formed and were taken. `Clear` says when this is so. The fixed part of a message is read
without a check of the length; the receiver of a DIO reads the length byte of an option and the
object of a metric container without one; that of a DAO checks nothing, so that all options
have to be well formed. A length from 256 on is cut to a byte.
-/

namespace Den2ne.Rpl.Icmp6

open Reads Reads.Transfer

/-- The messages with a receiver. -/
inductive Message
  | dio
  | dao
  | daoAck

section

variable (cfg : Defaults) (curr : CurrInstance) (data : ℕ → UInt8) (n : ℕ)

/-! ## What is to hold -/

/-- The message is for the instance of the node. -/
def Known : Prop := curr.used = true ∧ curr.instanceId = data 0

/-- The DAO has a DAG ID. -/
def DFlag : Prop := data 1 &&& daoDFlag ≠ 0

instance : Decidable (DFlag data) := inferInstanceAs (Decidable (_ ≠ _))

def SameDag : Prop := DFlag data → curr.dag.dagId.u8 = Memory.load data 4 16

/-- Where the options of a DAO begin. -/
def optionsStart : ℕ := if DFlag data then 20 else 4

structure DioInside : Prop where
  reads : ReadsBelow data n (dioInput cfg n)
  writes : WritesBelow data 16 (dioInput cfg n)
  handed : ∀ i dio, (dioInput cfg n).run data = some (i, dio) →
    i = n ∧ Items (DioWellFormed data n) (optionLen data) (dioApply data) 24 (dioBase data cfg)
      n dio

structure DaoInside : Prop where
  reads : ReadsBelow data n (daoInput curr n)
  writes : WritesBelow data 16 (daoInput curr n)
  handed : ∀ i dao, (daoInput curr n).run data = some (i, dao) →
    i = n ∧ Items (DaoWellFormed data n) (optionLen data) (daoApply data) (optionsStart data)
      (daoBase data curr) n dao

/-- The receiver of the message stays inside the payload and inside its own fields, and hands
over what is well formed up to the end. -/
def Inside : Message → Prop
  | .dio => DioInside cfg data n
  | .dao => DaoInside curr data n
  | .daoAck => ReadsBelow data n (daoAckInput curr) ∧ WritesBelow data 0 (daoAckInput curr)

/-! ## When it holds -/

/-- The loop of `dio_input` takes the option at `i`. -/
def DioTaken (i : ℕ) : Prop :=
  i < n % 256 ∧ optionLen data i + i ≤ n % 256 ∧ DioAccepted data i

/-- The fixed part of a DIO is there, an option that is reached has its length in the payload and
so has a metric container its object, and if all options are accepted, then the length fits into
a byte and no metric container is too short. -/
structure DioClear : Prop where
  base : 24 ≤ n
  length : ∀ i, Leads (DioTaken data n) (optionLen data) 24 i → i < n % 256 →
    data i ≠ optionPad1 → i + 1 < n
  object : ∀ i, Leads (DioTaken data n) (optionLen data) 24 i → i < n % 256 →
    optionLen data i + i ≤ n % 256 → Short data i → i + 8 ≤ n
  taken : Leads (DioTaken data n) (optionLen data) 24 (max 24 (n % 256)) →
    n < 256 ∧ ∀ i, Leads (DioTaken data n) (optionLen data) 24 i → i < n → ¬ Short data i

/-- The fixed part of a DAO is there as far as the receiver gets, and if it gets to the options,
then they are well formed up to the end, and each begins below the length cut to a byte. -/
structure DaoClear : Prop where
  instanceId : 1 ≤ n
  base : Known curr data → optionsStart data ≤ n
  options : Known curr data → SameDag curr data →
    Leads (fun i => i < n % 256 ∧ DaoWellFormed data n i) (optionLen data) (optionsStart data) n

/-- The payload is one of those for which the receiver does what it is to do. -/
def Clear : Message → Prop
  | .dio => DioClear data n
  | .dao => DaoClear curr data n
  | .daoAck => 4 ≤ n

end

variable {cfg : Defaults} {curr : CurrInstance} {data : ℕ → UInt8} {n m i : ℕ}

/-! ## DIO -/

theorem safe_dioBaseOption (h : 24 ≤ n) :
    Safe data n 16 (dioBaseOption cfg) True (dioBase data cfg) := by
  refine (Safe.get (by omega)).seq ((Safe.get (by omega)).seq ?_)
  refine (safe_get16 (by omega)).seq ((Safe.get (by omega)).seq ((Safe.get (by omega)).seq ?_))
  exact (safe_memcpy (by omega) (Nat.le_refl 16)).seq (Safe.done _)

theorem readsBelow_dioBaseOption : ReadsBelow data n (dioBaseOption cfg) ↔ 24 ≤ n := by
  constructor
  · intro h
    have h := (readsBelow_bind.1 h).2 _ rfl
    have h := (readsBelow_bind.1 h).2 _ rfl
    have h := (readsBelow_bind.1 h).2 _ rfl
    have h := (readsBelow_bind.1 h).2 _ rfl
    have h := (readsBelow_bind.1 h).2 _ rfl
    have h := (readsBelow_bind.1 (readsBelow_bind.1 h).1).1
    exact (readsBelow_gets.1 h).resolve_left (by decide)
  · exact fun h => (safe_dioBaseOption h).reads

theorem run_dioBaseOption : (dioBaseOption cfg).run data = some (dioBase data cfg) :=
  (safe_dioBaseOption (Nat.le_refl 24)).returns.run_eq trivial

theorem run_dioInput {dio : Dio} : (dioInput cfg n).run data = some (i, dio) ↔
    n % 256 ≤ i ∧
      Items (DioTaken data n) (optionLen data) (dioApply data) 24 (dioBase data cfg) i dio := by
  unfold dioInput
  rw [run_bind, run_dioBaseOption, Option.bind_some]
  exact run_advance (returns_dioOption (n % 256))

theorem readsBelow_dioInput : ReadsBelow data n (dioInput cfg n) ↔
    24 ≤ n ∧ ∀ i, Leads (DioTaken data n) (optionLen data) 24 i → i < n % 256 →
      (data i ≠ optionPad1 → i + 1 < n) ∧
        (optionLen data i + i ≤ n % 256 → Short data i → i + 8 ≤ n) := by
  have hbase : Safe data 24 16 (dioBaseOption cfg) True (dioBase data cfg) :=
    safe_dioBaseOption (Nat.le_refl 24)
  have hmod : n % 256 ≤ n := Nat.mod_le n 256
  unfold dioInput
  rw [hbase.returns.readsBelow_bind, readsBelow_dioBaseOption, forall_prop_of_true trivial,
    readsBelow_advance (returns_dioOption (n % 256))]
  refine and_congr_right fun _ => ?_
  constructor
  · intro h i hlead hlt
    obtain ⟨dio, hitems⟩ := hlead.items (dioApply data) (dioBase data cfg)
    exact ((readsBelow_dioOption dio hmod).1 (h i dio hitems hlt)).2
  · intro h i dio hitems hlt
    exact (readsBelow_dioOption dio hmod).2 ⟨by omega, h i hitems.leads hlt⟩

theorem writesBelow_dioInput : WritesBelow data 16 (dioInput cfg n) := by
  have hbase : Safe data 24 16 (dioBaseOption cfg) True (dioBase data cfg) :=
    safe_dioBaseOption (Nat.le_refl 24)
  unfold dioInput
  rw [hbase.writesBelow_bind, forall_prop_of_true trivial,
    writesBelow_advance (returns_dioOption (n % 256))]
  exact fun i dio _ _ => writesBelow_dioOption dio

/-- Options that are taken end where the length says, if they are not all missing. -/
theorem Items.le_of_taken {α : Type} {f : ℕ → α → α} {j : ℕ} {a b : α}
    (h : Items (DioTaken data n) (optionLen data) f i a j b) (hle : i ≤ max 24 (n % 256)) :
    j ≤ max 24 (n % 256) := by
  induction h with
  | nil => exact hle
  | @cons i j a b htaken _ ih =>
      have hfits := htaken.2.1
      exact ih (by omega)

/-- A loop that ends has taken the options up to where the length says. -/
theorem eq_of_run_dioInput {dio : Dio} (hrun : (dioInput cfg n).run data = some (i, dio)) :
    i = max 24 (n % 256) := by
  obtain ⟨hle, hitems⟩ := run_dioInput.1 hrun
  have hlow := hitems.le
  have hhigh := Items.le_of_taken hitems (Nat.le_max_left 24 _)
  omega

theorem dioInside_iff : DioInside cfg data n ↔ DioClear data n := by
  constructor
  · intro h
    obtain ⟨hbase, hreads⟩ := readsBelow_dioInput.1 h.reads
    refine ⟨hbase, fun i hlead hlt => (hreads i hlead hlt).1,
      fun i hlead hlt => (hreads i hlead hlt).2, fun htaken => ?_⟩
    obtain ⟨dio, hitems⟩ := htaken.items (dioApply data) (dioBase data cfg)
    obtain ⟨hend, hformed⟩ := h.handed _ dio (run_dioInput.2 ⟨Nat.le_max_right 24 _, hitems⟩)
    refine ⟨by omega, fun i hlead hlt => ?_⟩
    exact (hformed.ok_of_items hlead hlt).object
  · intro h
    refine ⟨readsBelow_dioInput.2 ⟨h.base, fun i hlead hlt =>
      ⟨h.length i hlead hlt, h.object i hlead hlt⟩⟩, writesBelow_dioInput, fun i dio hrun => ?_⟩
    have heq := eq_of_run_dioInput hrun
    obtain ⟨_, hitems⟩ := run_dioInput.1 hrun
    obtain ⟨hlt, hshort⟩ := h.taken (heq ▸ hitems.leads)
    have hbase := h.base
    have hend : i = n := by omega
    subst hend
    refine ⟨rfl, hitems.imp fun k hlead hk htaken => ?_⟩
    have hfits := htaken.2.1
    exact ⟨by omega, htaken.2.2, hshort k hlead hk⟩

/-! ## DAO -/

theorem daoDagId_eq : daoDagId curr (data 1) =
    if DFlag data then gets 4 16 >>= fun id => require (curr.dag.dagId.u8 = id) >>= fun _ => pure 20
    else pure 4 := rfl

theorem safe_daoDagId (h : DFlag data → 20 ≤ n) :
    Safe data n m (daoDagId curr (data 1)) (SameDag curr data) (optionsStart data) := by
  rw [daoDagId_eq]
  unfold optionsStart SameDag
  by_cases hflag : DFlag data
  · rw [if_pos hflag, if_pos hflag]
    refine Safe.congr ?_ (forall_prop_of_true hflag).symm
    exact (Safe.gets (h hflag)).seq ((Safe.require _).check fun _ => Safe.done 20)
  · rw [if_neg hflag, if_neg hflag]
    exact (Safe.done 4).congr (iff_of_true trivial fun h => absurd h hflag)

theorem safe_daoBaseOption (h : optionsStart data ≤ n) :
    Safe data n m (daoBaseOption curr) (Known curr data ∧ SameDag curr data)
      (optionsStart data, daoBase data curr) := by
  have hfour : 4 ≤ n ∧ (DFlag data → 20 ≤ n) := by
    unfold optionsStart at h
    split at h
    · exact ⟨by omega, fun _ => h⟩
    · next hflag => exact ⟨h, fun hf => absurd hf hflag⟩
  refine (Safe.get (by omega)).seq ((Safe.require _).bind fun _ => ?_)
  refine (Safe.get (by omega)).seq ((Safe.get (by omega)).seq ?_)
  exact (safe_daoDagId hfour.2).check fun _ => Safe.done _

theorem returns_daoBaseOption : Returns data (daoBaseOption curr)
    (Known curr data ∧ SameDag curr data) (optionsStart data, daoBase data curr) :=
  (safe_daoBaseOption (m := 0) (Nat.le_refl (optionsStart data))).returns

theorem writesBelow_daoBaseOption : WritesBelow data m (daoBaseOption curr) :=
  (safe_daoBaseOption (Nat.le_refl (optionsStart data))).writes

theorem readsBelow_daoBaseOption : ReadsBelow data n (daoBaseOption curr) ↔
    1 ≤ n ∧ (Known curr data → optionsStart data ≤ n) := by
  constructor
  · intro h
    refine ⟨readsBelow_get.1 (readsBelow_bind.1 h).1, fun hknown => ?_⟩
    have h := (readsBelow_bind.1 h).2 _ rfl
    have h := (readsBelow_bind.1 h).2 () (run_require_eq_some.2 hknown)
    have h := (readsBelow_bind.1 h).2 _ rfl
    have hthree := readsBelow_get.1 (readsBelow_bind.1 h).1
    have h := (readsBelow_bind.1 h).2 _ rfl
    have h := (readsBelow_bind.1 h).1
    rw [daoDagId_eq] at h
    unfold optionsStart
    split at h
    · next hflag =>
        rw [if_pos hflag]
        exact (readsBelow_gets.1 (readsBelow_bind.1 h).1).resolve_left (by decide)
    · next hflag =>
        rw [if_neg hflag]
        exact hthree
  · rintro ⟨hone, hstart⟩
    by_cases hknown : Known curr data
    · exact (safe_daoBaseOption (m := 0) (hstart hknown)).reads
    · refine readsBelow_bind.2 ⟨readsBelow_get.2 hone, fun b hb => ?_⟩
      obtain rfl := Option.some.inj hb
      refine readsBelow_bind.2 ⟨readsBelow_require _, fun u hu => ?_⟩
      exact absurd (run_require_eq_some.1 hu) hknown

/-- The places of the options that the loop of `dao_input` takes. -/
def DaoTaken (n i : ℕ) : Prop := i < n % 256 ∧ True

theorem run_daoInput {dao : Dao} : (daoInput curr n).run data = some (i, dao) ↔
    (Known curr data ∧ SameDag curr data) ∧ n % 256 ≤ i ∧
      Items (DaoTaken n) (optionLen data) (daoApply data) (optionsStart data)
        (daoBase data curr) i dao := by
  unfold daoInput
  rw [run_bind]
  by_cases h : Known curr data ∧ SameDag curr data
  · rw [returns_daoBaseOption.run_eq h, and_iff_right h]
    exact run_advance returns_daoOption
  · rw [returns_daoBaseOption.run_none h]
    exact iff_of_false nofun fun hok => h hok.1

theorem readsBelow_daoInput : ReadsBelow data n (daoInput curr n) ↔
    (1 ≤ n ∧ (Known curr data → optionsStart data ≤ n)) ∧
      (Known curr data ∧ SameDag curr data → ∀ i dao,
        Items (DaoTaken n) (optionLen data) (daoApply data) (optionsStart data)
          (daoBase data curr) i dao → i < n % 256 → ReadsBelow data n (daoOption i dao)) := by
  unfold daoInput
  rw [returns_daoBaseOption.readsBelow_bind, readsBelow_daoBaseOption,
    readsBelow_advance returns_daoOption]
  rfl

theorem writesBelow_daoInput : WritesBelow data m (daoInput curr n) ↔
    (Known curr data ∧ SameDag curr data → ∀ i dao,
      Items (DaoTaken n) (optionLen data) (daoApply data) (optionsStart data)
        (daoBase data curr) i dao → i < n % 256 → WritesBelow data m (daoOption i dao)) := by
  unfold daoInput
  rw [returns_daoBaseOption.writesBelow_bind, and_iff_right writesBelow_daoBaseOption,
    writesBelow_advance returns_daoOption]
  rfl

/-- The receiver hands over every message that it knows. -/
theorem exists_run_daoInput (h : Known curr data ∧ SameDag curr data) :
    ∃ i dao, (daoInput curr n).run data = some (i, dao) := by
  unfold daoInput
  rw [run_bind, returns_daoBaseOption.run_eq h]
  exact exists_run_advance returns_daoOption _ _

theorem daoInside_iff : DaoInside curr data n ↔ DaoClear curr data n := by
  constructor
  · intro h
    obtain ⟨⟨hone, hstart⟩, _⟩ := readsBelow_daoInput.1 h.reads
    refine ⟨hone, hstart, fun hknown hdag => ?_⟩
    obtain ⟨i, dao, hrun⟩ := exists_run_daoInput (n := n) ⟨hknown, hdag⟩
    obtain ⟨_, _, htaken⟩ := run_daoInput.1 hrun
    obtain ⟨rfl, hformed⟩ := h.handed i dao hrun
    refine (htaken.imp fun k hlead hlt hk => ?_).leads
    exact ⟨hk.1, hformed.ok_of_items hlead hlt⟩
  · intro h
    -- what is taken is well formed, as long as it begins in the payload
    have hformed (hok : Known curr data ∧ SameDag curr data) {i : ℕ}
        (hlead : Leads (DaoTaken n) (optionLen data) (optionsStart data) i) (hlt : i < n) :
        DaoWellFormed data n i :=
      (Items.ok_of_items (h.options hok.1 hok.2) hlead hlt).2
    have hmod : n % 256 ≤ n := Nat.mod_le n 256
    refine ⟨readsBelow_daoInput.2 ⟨⟨h.instanceId, h.base⟩, fun hok i dao hitems hlt => ?_⟩,
      writesBelow_daoInput.2 fun hok i dao hitems hlt => ?_, fun i dao hrun => ?_⟩
    · exact ((hformed hok hitems.leads (by omega)).safe dao).reads
    · exact ((hformed hok hitems.leads (by omega)).safe dao).writes
    · obtain ⟨hok, hle, hitems⟩ := run_daoInput.1 hrun
      have hend : i = n := Items.end_unique hitems (h.options hok.1 hok.2) (fun _ hl => hl.1)
        (fun _ hl => hl.1) hle hmod
      subst hend
      exact ⟨rfl, hitems.imp fun k hlead hlt _ => hformed hok hlead hlt⟩

/-! ## DAO-ACK -/

theorem daoAck_inside_iff :
    ReadsBelow data n (daoAckInput curr) ∧ WritesBelow data 0 (daoAckInput curr) ↔ 4 ≤ n := by
  have hsafe {k : ℕ} (h : 4 ≤ k) : Safe data k 0 (daoAckInput curr) (Known curr data)
      (data 2, data 3) := by
    refine (Safe.get (by omega)).seq ((Safe.get (by omega)).seq ?_)
    exact (Safe.get (by omega)).seq ((Safe.require _).check fun _ => Safe.done _)
  constructor
  · rintro ⟨h, _⟩
    have h := (readsBelow_bind.1 h).2 _ rfl
    have h := (readsBelow_bind.1 h).2 _ rfl
    exact readsBelow_get.1 (readsBelow_bind.1 h).1
  · exact fun h => ⟨(hsafe h).reads, (hsafe h).writes⟩

/-- The receivers of DIO, DAO and DAO-ACK are inside of every clear payload, and of no other. -/
theorem controlMessage_inside_iff (cfg : Defaults) (curr : CurrInstance) (data : ℕ → UInt8)
    (n : ℕ) (msg : Message) : Inside cfg curr data n msg ↔ Clear curr data n msg := by
  cases msg with
  | dio => exact dioInside_iff
  | dao => exact daoInside_iff
  | daoAck => exact daoAck_inside_iff

/-- A DAO with a target of 255 bits, in an option of 36 bytes. -/
def longTarget : ℕ → UInt8
  | 4 => optionTarget
  | 5 => 34
  | 7 => 255
  | _ => 0

/-- An instance of a node. -/
def nodeInstance : CurrInstance where
  used := true
  instanceId := 0
  defaultLifetime := 30
  dag := { dagId := ⟨List.replicate 16 0, rfl⟩ }

/-- The prefix is 16 bytes longer than its field. -/
theorem not_controlMessage_inside : ¬ Inside {} nodeInstance longTarget 40 .dao := by
  intro h
  have hknown : Known nodeInstance longTarget := ⟨rfl, rfl⟩
  have hflag : ¬ DFlag longTarget := by decide
  obtain ⟨i, dao, hrun⟩ := exists_run_daoInput (n := 40) ⟨hknown, fun hf => absurd hf hflag⟩
  obtain ⟨_, hitems⟩ := h.handed i dao hrun
  rw [optionsStart, if_neg hflag] at hitems
  have hformed := ((items_iff_of_ne (by decide)).1 hitems).1
  exact absurd (hformed.target rfl).2 (by decide)

end Den2ne.Rpl.Icmp6
