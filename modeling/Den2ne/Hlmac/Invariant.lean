import Den2ne.Hlmac.Table
import Den2ne.Transition.Run
import Mathlib.Data.List.GetD

/-!
# The table under its operations

`hlmac_table_init` sets the counter and leaves the list, `hlmactable_chop` counts down also where
there is no entry, and `hlmactable_add` compares only with the timestamp of the first entry and
only whether the new one is newer. `always_sound_iff` says in which sequences of calls the table
keeps its invariant all the same.
-/

namespace Den2ne

open Transition

/-- `hlmac_table_init`. -/
def hlmacTableInit (t : HlmacTable) : HlmacTable := { t with numberOfHlmacAddresses := 0 }

/-- `hlmactable_chop`. The counter has eight bits. -/
def hlmactableChop (t : HlmacTable) : HlmacTable :=
  ⟨t.entries.dropLast, (t.numberOfHlmacAddresses + 255) % 256⟩

/-- The calls of `hlmac-table.c` that change the table. -/
inductive TableCall
  | init
  | add (addr : HlmacAddr) (timestamp : ℕ)
  | clean
  | chop

namespace HlmacTable

/-- The table after a call. -/
def step (maxHlmac : ℤ) (call : TableCall) (t : HlmacTable) : Option HlmacTable :=
  match call with
  | .init => some (hlmacTableInit t)
  | .add addr timestamp => some (hlmactableAdd maxHlmac t addr timestamp).2
  | .clean => some (hlmactableClean t)
  | .chop => some (hlmactableChop t)

/-- The counter is the length of the list, within both bounds, and all entries are of one time. -/
structure Sound (maxHlmac : ℤ) (t : HlmacTable) : Prop where
  counted : t.Counted
  le : t.numberOfHlmacAddresses ≤ 255
  bounded : maxHlmac ≠ -1 → (t.numberOfHlmacAddresses : ℤ) ≤ maxHlmac
  sameTime : ∀ entry ∈ t.entries, ∀ entry' ∈ t.entries, entry.timestamp = entry'.timestamp

/-- `hlmactable_add` returns 1 exactly if the new address is the last entry afterwards, one that
was not there before, and else leaves the table as it was. -/
def Reports (maxHlmac : ℤ) (t : HlmacTable) : TableCall → Prop
  | .add addr timestamp =>
      ((hlmactableAdd maxHlmac t addr timestamp).1 = true ↔
        (hlmactableAdd maxHlmac t addr timestamp).2 ≠ t ∧
          (hlmactableAdd maxHlmac t addr timestamp).2.entries.getLast? =
            some ⟨addr, timestamp⟩) ∧
      ((hlmactableAdd maxHlmac t addr timestamp).1 = false →
        (hlmactableAdd maxHlmac t addr timestamp).2 = t)
  | _ => True

/-- There is room for a further entry. -/
def HasRoom (maxHlmac : ℤ) (t : HlmacTable) : Prop :=
  t.numberOfHlmacAddresses < 255 ∧
    (maxHlmac = -1 ∨ (t.numberOfHlmacAddresses : ℤ) < maxHlmac)

/-- The calls that keep the invariant: the counter is set to zero only for an empty list, and
counted down only for one that is not empty; and an address with an older timestamp than the first
entry comes only when there is no room for it. -/
def Keeps (maxHlmac : ℤ) (t : HlmacTable) : TableCall → Prop
  | .init => t.entries = []
  | .add _ timestamp => ∀ entry ∈ t.entries.head?, timestamp < entry.timestamp →
      ¬ t.HasRoom maxHlmac
  | .clean => True
  | .chop => t.entries ≠ []

variable {maxHlmac : ℤ} {t t' : HlmacTable} {addr : HlmacAddr} {timestamp : ℕ}

theorem sound_empty (h : -1 ≤ maxHlmac) : empty.Sound maxHlmac :=
  ⟨counted_empty, Nat.zero_le _, fun hne => by
    change (0 : ℤ) ≤ maxHlmac
    omega, nofun⟩

theorem hlmactableAdd_of_room (h : (hlmactableRenew t timestamp).HasRoom maxHlmac) :
    hlmactableAdd maxHlmac t addr timestamp =
      (true, ⟨(hlmactableRenew t timestamp).entries ++ [⟨addr, timestamp⟩],
        (hlmactableRenew t timestamp).numberOfHlmacAddresses + 1⟩) := by
  obtain ⟨hlt, hmax⟩ := h
  rw [hlmactableAdd, if_neg (Nat.not_le.2 hlt), if_pos]
  by_cases heq : maxHlmac = -1
  · exact .inl heq
  · exact .inr ⟨heq, hmax.resolve_left heq⟩

theorem hlmactableAdd_of_full (h : ¬ (hlmactableRenew t timestamp).HasRoom maxHlmac) :
    hlmactableAdd maxHlmac t addr timestamp = (false, hlmactableRenew t timestamp) := by
  rcases hlmactableAdd_cases maxHlmac t addr timestamp with hadd | ⟨hmax, hlt, -⟩
  · exact hadd
  · exact absurd ⟨hlt, hmax⟩ h

/-- An entry more keeps the bounds where there is room. -/
theorem Sound.append (h : t.Sound maxHlmac) (hroom : t.HasRoom maxHlmac) :
    (⟨t.entries ++ [⟨addr, timestamp⟩], t.numberOfHlmacAddresses + 1⟩ : HlmacTable).Sound
        maxHlmac ↔
      ∀ entry ∈ t.entries, entry.timestamp = timestamp := by
  obtain ⟨hlt, hmax⟩ := hroom
  constructor
  · intro h' entry hentry
    exact h'.sameTime entry (List.mem_append_left _ hentry) ⟨addr, timestamp⟩ (by simp)
  · intro hsame
    have hall : ∀ entry ∈ t.entries ++ [⟨addr, timestamp⟩], entry.timestamp = timestamp := by
      intro entry hentry
      rcases List.mem_append.1 hentry with hentry | hentry
      · exact hsame entry hentry
      · rw [List.mem_singleton.1 hentry]
    refine ⟨?_, hlt, fun hne => ?_, fun entry hentry entry' hentry' => ?_⟩
    · rw [Counted, List.length_append, h.counted]
      rfl
    · have hroom := hmax.resolve_left hne
      push_cast
      omega
    · rw [hall entry hentry, hall entry' hentry']

theorem Sound.empty_of_sound (h : t.Sound maxHlmac) : empty.Sound maxHlmac := by
  refine ⟨counted_empty, Nat.zero_le _, fun hne => ?_, nofun⟩
  have hle := h.bounded hne
  change (0 : ℤ) ≤ maxHlmac
  omega

/-- A table that has an entry has room for one once it is empty. -/
theorem Sound.hasRoom_empty (h : t.Sound maxHlmac) (hne : t.entries ≠ []) :
    empty.HasRoom maxHlmac := by
  refine ⟨by decide, ?_⟩
  by_cases heq : maxHlmac = -1
  · exact .inl heq
  · have hle := h.bounded heq
    have hpos := List.length_pos_iff.2 hne
    rw [h.counted] at hle
    refine .inr ?_
    change (0 : ℤ) < maxHlmac
    omega

/-- Whether a newer entry empties the table, what room it then has, and what `hlmactable_add` does. -/
theorem Sound.add_cases (h : t.Sound maxHlmac) (addr : HlmacAddr) (timestamp : ℕ) :
    ((∀ entry ∈ t.entries, timestamp ≤ entry.timestamp) ∧ t.HasRoom maxHlmac ∧
        hlmactableAdd maxHlmac t addr timestamp =
          (true, ⟨t.entries ++ [⟨addr, timestamp⟩], t.numberOfHlmacAddresses + 1⟩)) ∨
      ((∀ entry ∈ t.entries, timestamp ≤ entry.timestamp) ∧ ¬ t.HasRoom maxHlmac ∧
        hlmactableAdd maxHlmac t addr timestamp = (false, t)) ∨
      (t.entries ≠ [] ∧ (∀ entry ∈ t.entries, entry.timestamp < timestamp) ∧
        hlmactableAdd maxHlmac t addr timestamp = (true, ⟨[⟨addr, timestamp⟩], 1⟩)) := by
  by_cases hold : ∀ entry ∈ t.entries, timestamp ≤ entry.timestamp
  · have hrenew := hlmactableRenew_of_not_newer hold
    by_cases hroom : t.HasRoom maxHlmac
    · refine .inl ⟨hold, hroom, ?_⟩
      rw [hlmactableAdd_of_room (by rwa [hrenew]), hrenew]
    · refine .inr (.inl ⟨hold, hroom, ?_⟩)
      rw [hlmactableAdd_of_full (by rwa [hrenew]), hrenew]
  · obtain ⟨entry, hentry, hlt⟩ : ∃ entry ∈ t.entries, entry.timestamp < timestamp := by
      by_contra hnone
      exact hold fun entry hentry => Nat.le_of_not_lt fun hlt => hnone ⟨entry, hentry, hlt⟩
    have hnew : ∀ entry' ∈ t.entries, entry'.timestamp < timestamp := fun entry' hentry' => by
      rw [h.sameTime entry' hentry' entry hentry]
      exact hlt
    have hne := List.ne_nil_of_mem hentry
    have hrenew := hlmactableRenew_of_newer h.counted hnew
    refine .inr (.inr ⟨hne, hnew, ?_⟩)
    rw [hlmactableAdd_of_room (by rw [hrenew]; exact h.hasRoom_empty hne), hrenew]
    rfl

/-- `hlmactable_add` reports what it does. -/
theorem Sound.reports (h : t.Sound maxHlmac) (call : TableCall) : t.Reports maxHlmac call := by
  cases call with
  | init | clean | chop => trivial
  | add addr timestamp =>
      rcases h.add_cases addr timestamp with ⟨-, -, hadd⟩ | ⟨-, -, hadd⟩ | ⟨-, hnew, hadd⟩
      · rw [Reports, hadd]
        refine ⟨iff_of_true rfl ⟨fun heq => ?_, List.getLast?_concat⟩, nofun⟩
        have hlength := congrArg (fun t => t.entries.length) heq
        simp at hlength
      · rw [Reports, hadd]
        exact ⟨iff_of_false nofun fun hne => hne.1 rfl, fun _ => rfl⟩
      · rw [Reports, hadd]
        refine ⟨iff_of_true rfl ⟨fun heq => ?_, rfl⟩, nofun⟩
        exact Nat.lt_irrefl _ (hnew ⟨addr, timestamp⟩ (by rw [← heq]; simp))

/-- A call keeps the invariant exactly if it is one of those of `Keeps`. -/
theorem Sound.step_iff (h : t.Sound maxHlmac) {call : TableCall}
    (hstep : step maxHlmac call t = some t') : t'.Sound maxHlmac ↔ t.Keeps maxHlmac call := by
  cases call with
  | init =>
      obtain rfl := Option.some.inj hstep
      constructor
      · intro h'
        exact List.length_eq_zero_iff.1 h'.counted.symm
      · intro hnil
        refine ⟨?_, Nat.zero_le _, fun hne => ?_, h.sameTime⟩
        · rw [Counted, hlmacTableInit, hnil]
          rfl
        · have hle := h.bounded hne
          change (0 : ℤ) ≤ maxHlmac
          omega
  | clean =>
      obtain rfl := Option.some.inj hstep
      exact iff_of_true h.empty_of_sound trivial
  | chop =>
      obtain rfl := Option.some.inj hstep
      have hcounted : t.numberOfHlmacAddresses = t.entries.length := h.counted
      have hle := h.le
      have hlength : t.entries.dropLast.length = t.entries.length - 1 := List.length_dropLast
      constructor
      · rintro h' hnil
        have hcounted' := h'.counted
        rw [Counted, hlmactableChop, hcounted, hnil] at hcounted'
        cases hcounted'
      · intro hne
        have hpos := List.length_pos_iff.2 hne
        have hnumber : (hlmactableChop t).numberOfHlmacAddresses = t.entries.length - 1 := by
          change (t.numberOfHlmacAddresses + 255) % 256 = _
          omega
        refine ⟨hnumber.trans hlength.symm, by omega, fun hmax => ?_,
          fun entry hentry entry' hentry' => ?_⟩
        · have hbound := h.bounded hmax
          rw [hnumber]
          omega
        · exact h.sameTime entry (List.dropLast_subset _ hentry) entry'
            (List.dropLast_subset _ hentry')
  | add addr timestamp =>
      obtain rfl := Option.some.inj hstep
      have hhead : ∀ entry ∈ t.entries.head?, entry ∈ t.entries := fun _ => List.mem_of_head?
      rcases h.add_cases addr timestamp with
        ⟨hold, hroom, hadd⟩ | ⟨-, hroom, hadd⟩ | ⟨hne, hnew, hadd⟩
      · rw [hadd, h.append hroom]
        constructor
        · intro hsame entry hentry hlt
          rw [hsame entry (hhead entry hentry)] at hlt
          exact absurd hlt (Nat.lt_irrefl _)
        · intro hkeeps entry hentry
          cases hentries : t.entries with
          | nil =>
              rw [hentries] at hentry
              cases hentry
          | cons first rest =>
              have hfirst : first ∈ t.entries := by rw [hentries]; exact List.mem_cons_self
              have hle : first.timestamp ≤ timestamp := Nat.le_of_not_lt fun hlt =>
                hkeeps first (by rw [hentries]; rfl) hlt hroom
              rw [h.sameTime entry hentry first hfirst]
              exact Nat.le_antisymm hle (hold first hfirst)
      · rw [hadd]
        exact iff_of_true h fun _ _ _ => hroom
      · rw [hadd]
        refine iff_of_true ?_ fun entry hentry hlt =>
          absurd (hnew entry (hhead entry hentry)) (Nat.lt_asymm hlt)
        refine (h.empty_of_sound.append (h.hasRoom_empty hne)).2 fun entry hentry => ?_
        cases hentry

/-- The table keeps its invariant, and `hlmactable_add` reports what it does, in exactly the
sequences of calls that all meet `Keeps`, under a bound that is not below -1. -/
theorem always_sound_iff (maxHlmac : ℤ) (calls : List TableCall) :
    Always (step maxHlmac) (Sound maxHlmac) calls empty ∧
        Meets (step maxHlmac) (Reports maxHlmac) calls empty ↔
      -1 ≤ maxHlmac ∧ Meets (step maxHlmac) (Keeps maxHlmac) calls empty := by
  have hiff (h : empty.Sound maxHlmac) :
      Always (step maxHlmac) (Sound maxHlmac) calls empty ↔
        Meets (step maxHlmac) (Keeps maxHlmac) calls empty :=
    always_iff_meets (I := fun _ => True) (fun _ _ _ _ _ _ _ => trivial)
      (fun _ _ _ _ h hstep => h.step_iff hstep) trivial h
  constructor
  · rintro ⟨halways, -⟩
    have hempty := always_head halways
    refine ⟨?_, (hiff hempty).1 halways⟩
    by_cases heq : maxHlmac = -1
    · omega
    · have hle := hempty.bounded heq
      change (0 : ℤ) ≤ maxHlmac at hle
      omega
  · rintro ⟨hmax, hkeeps⟩
    refine ⟨(hiff (sound_empty hmax)).2 hkeeps, ?_⟩
    exact meets_of_meets (fun _ call _ h hkeep hstep => ⟨h.reports call, (h.step_iff hstep).2 hkeep⟩)
      (sound_empty hmax) hkeeps

/-- The counter of an empty table goes down to 255. -/
theorem not_always_sound_chop :
    ¬ Always (step (-1)) (Sound (-1)) [.chop] empty := fun h => by
  have hcounted : (255 : ℕ) = 0 := h.2.counted
  omega

end HlmacTable

end Den2ne
