import Den2ne.Node.Placement

/-!
# Packing a SetHLMAC

In the broadcast build one payload has an entry for each neighbour, as far as they fit. Three
formulas have to agree: the test before the first entry (`addr.len + 2 + ADDR_SIZE`), the one
before each further entry, and what is written before the entries, a timestamp, a length and the
prefix. The first one leaves out four bytes. The index into `random_list` has eight bits and is
compared with a number that can be 255 (`packLoop`).
-/

namespace Den2ne

variable {α : Type*} [DecidableEq α]

/-! ## The loop -/

/-- The `do` loop of the broadcast build, with the entries it writes and `datalen_counter` at its
end. `i` is one above the slot that is read; `none` is a read outside `random_list`. The first
argument bounds the turns. -/
def packLoop (macMaxPayload : ℤ) (addrSize : ℕ) (randomList : List (NeighbourTableEntry α)) :
    ℕ → ℕ → ℕ → Option (List (NeighbourTableEntry α) × ℕ)
  | 0, _, _ => none
  | _ + 1, 0, _ => none
  | turns + 1, i + 1, datalenCounter =>
      match randomList[i]? with
      | none => none
      | some nb =>
          if ((datalenCounter + 1 + addrSize : ℕ) + addrSize + 1 : ℤ) ≤ macMaxPayload ∧
              (i + 2) % 256 ≤ randomList.length then
            (packLoop macMaxPayload addrSize randomList turns ((i + 2) % 256)
              (datalenCounter + 1 + addrSize)).map fun (nbs, dataLen) => (nb :: nbs, dataLen)
          else some ([nb], datalenCounter + 1 + addrSize)

/-- What comes of `iotorii_send_sethlmac` before the payload is queued: it is still drawing an
order, it has read outside `random_list`, it has built nothing, or a payload with these entries
and this `data_len`. -/
inductive Packed (α : Type*)
  | drawing
  | stray
  | nothing
  | payload (nbs : List (NeighbourTableEntry α)) (dataLen : ℕ)

/-- `iotorii_send_sethlmac` in the broadcast build, up to the payload, for `targets` other than the
sender and the draws `rs`. -/
def buildSethlmac (macMaxPayload : ℤ) (addrSize : ℕ) (addr : HlmacAddr)
    (targets : List (NeighbourTableEntry α)) (rs : List ℕ) : Packed α :=
  if macMaxPayload ≤ 0 then .nothing
  else if targets.length % 256 = 0 then .nothing
  else
    match fillRandomList (List.replicate (targets.length % 256) none) targets rs with
    | none => .drawing
    | some randomList =>
        match randomList with
        | some _ :: _ =>
            if (addr.len.toNat + 2 + addrSize : ℤ) ≤ macMaxPayload then
              match (randomList.mapM id).bind fun nbs =>
                packLoop macMaxPayload addrSize nbs 256 1 (4 + 1 + addr.len.toNat) with
              | none => .stray
              | some (nbs, dataLen) => .payload nbs dataLen
            else .nothing
        | _ => .nothing

/-- A payload lies within `mac_max_payload` and has as many entries as there are neighbours or as
fit; and nothing is read outside `random_list`. -/
def Packed.Exact (macMaxPayload : ℤ) (addrSize : ℕ) (addr : HlmacAddr)
    (targets : List (NeighbourTableEntry α)) : Packed α → Prop
  | .drawing => True
  | .stray => False
  | .nothing => True
  | .payload nbs dataLen =>
      (4 + 1 + addr.len.toNat + 1 + addrSize : ℤ) ≤ macMaxPayload ∧
        (dataLen : ℤ) ≤ macMaxPayload ∧
        (nbs.length : ℤ) = min (targets.length : ℤ)
          ((macMaxPayload - 5 - addr.len.toNat) / (1 + addrSize))

variable {macMaxPayload : ℤ} {addrSize : ℕ} {randomList nbs : List (NeighbourTableEntry α)}

section

omit [DecidableEq α]

/-- The loop packs as many as `packEntries`, unless there are 255 neighbours and room for another
entry: then its index wraps. -/
theorem packLoop_eq {i d turns : ℕ} (hnbs : randomList.drop i = nbs) (hne : nbs ≠ [])
    (hle : randomList.length ≤ 255) (hturns : nbs.length < turns) :
    packLoop macMaxPayload addrSize randomList turns (i + 1) d =
      if randomList.length = 255 ∧
          ((d + (nbs.length + 1) * (1 + addrSize) : ℕ) : ℤ) ≤ macMaxPayload then none
      else some (packEntries macMaxPayload addrSize d nbs,
        d + (packEntries macMaxPayload addrSize d nbs).length * (1 + addrSize)) := by
  induction nbs generalizing i d turns with
  | nil => exact absurd rfl hne
  | cons nb rest ih =>
      obtain ⟨turns, rfl⟩ : ∃ t, turns = t + 1 := ⟨turns - 1, by omega⟩
      have hget : randomList[i]? = some nb := by rw [← List.head?_drop, hnbs]; rfl
      have hdrop : randomList.drop (i + 1) = rest := by
        rw [← List.tail_drop, hnbs]
        rfl
      have hlength : i + 1 + rest.length = randomList.length := by
        have hdrop := congrArg List.length hnbs
        rw [List.length_drop, List.length_cons] at hdrop
        omega
      -- the room for all of them and one more, counted from the next entry on
      have hall : d + ((nb :: rest).length + 1) * (1 + addrSize) =
          d + 1 + addrSize + (rest.length + 1) * (1 + addrSize) := by
        rw [List.length_cons, Nat.succ_mul (rest.length + 1)]
        omega
      have hone (k : ℕ) : d + (k + 1) * (1 + addrSize) = d + 1 + addrSize + k * (1 + addrSize) := by
        rw [Nat.succ_mul]
        omega
      rw [packLoop, hget, packEntries, hall]
      dsimp only
      by_cases hfit : ((d + 1 + addrSize : ℕ) + addrSize + 1 : ℤ) ≤ macMaxPayload
      · rw [if_pos hfit, List.length_cons, hone]
        rcases List.eq_nil_or_concat' rest with rfl | ⟨init, last, hrest⟩
        · have hturn : (i + 2) % 256 ≤ randomList.length ↔ randomList.length = 255 := by
            rw [List.length_nil] at hlength
            omega
          have hroom : ((d + 1 + addrSize + (([] : List (NeighbourTableEntry α)).length + 1) *
              (1 + addrSize) : ℕ) : ℤ) ≤ macMaxPayload := by
            rw [List.length_nil, Nat.zero_add, Nat.one_mul]
            omega
          by_cases hfull : randomList.length = 255
          · rw [if_pos ⟨hfit, hturn.2 hfull⟩, if_pos ⟨hfull, hroom⟩]
            have hwrap : (i + 2) % 256 = 0 := by
              rw [List.length_nil] at hlength
              omega
            rw [hwrap]
            cases turns <;> rfl
          · rw [if_neg fun h => hfull (hturn.1 h.2), if_neg fun h => hfull h.1]
            simp [packEntries]
        · have hrest' : rest ≠ [] := by simp [hrest]
          have hpos := List.length_pos_iff.2 hrest'
          have hturn : (i + 2) % 256 = i + 2 := Nat.mod_eq_of_lt (by omega)
          rw [hturn, if_pos ⟨hfit, by omega⟩,
            ih hdrop hrest' (by rw [List.length_cons] at hturns; omega)]
          split <;> rfl
      · rw [if_neg hfit, if_neg fun h => hfit h.1, if_neg, List.length_singleton, hone]
        · simp
        · rintro ⟨-, hroom⟩
          rw [Nat.succ_mul] at hroom
          omega

theorem packEntries_of_packLoop {d : ℕ} {packed : List (NeighbourTableEntry α) × ℕ}
    (hne : randomList ≠ []) (hle : randomList.length ≤ 255)
    (h : packLoop macMaxPayload addrSize randomList 256 1 d = some packed) :
    packed.1 = packEntries macMaxPayload addrSize d randomList := by
  rw [packLoop_eq List.drop_zero hne hle (show randomList.length < 256 by omega)] at h
  split at h
  · cases h
  · exact (congrArg Prod.fst (Option.some.inj h)).symm

/-- Where the first entry fits, as many are packed as there are or as fit. -/
theorem length_packEntries_of_fit {d : ℕ} (hne : nbs ≠ [])
    (hfit : ((d + 1 + addrSize : ℕ) : ℤ) ≤ macMaxPayload) :
    ((packEntries macMaxPayload addrSize d nbs).length : ℤ) =
      min (nbs.length : ℤ) ((macMaxPayload - d) / (1 + addrSize)) := by
  have hsize : (0 : ℤ) < 1 + addrSize := by omega
  induction nbs generalizing d with
  | nil => exact absurd rfl hne
  | cons nb rest ih =>
      have hnext : (macMaxPayload - d) / (1 + addrSize) =
          (macMaxPayload - (d + 1 + addrSize : ℕ)) / (1 + addrSize) + 1 := by
        rw [← Int.add_mul_ediv_right _ 1 (Int.ne_of_gt hsize)]
        congr 1
        omega
      have hpos : 0 ≤ (macMaxPayload - (d + 1 + addrSize : ℕ)) / (1 + addrSize) :=
        Int.ediv_nonneg (by omega) (Int.le_of_lt hsize)
      rw [packEntries, hnext, List.length_cons, List.length_cons]
      by_cases hmore : ((d + 1 + addrSize : ℕ) + addrSize + 1 : ℤ) ≤ macMaxPayload
      · rw [if_pos hmore]
        cases rest with
        | nil =>
            rw [packEntries, List.length_nil]
            omega
        | cons nb' rest' =>
            have hrest := ih (d := d + 1 + addrSize) (List.cons_ne_nil nb' rest') (by omega)
            omega
      · rw [if_neg hmore, List.length_nil]
        have hlt : (macMaxPayload - (d + 1 + addrSize : ℕ)) / (1 + addrSize) < 1 :=
          Int.ediv_lt_of_lt_mul hsize (by omega)
        omega

end

/-! ## The payload -/

variable {addr : HlmacAddr} {targets : List (NeighbourTableEntry α)} {rs : List ℕ}

theorem mapM_id_map_some {β : Type*} (nbs : List β) : (nbs.map some).mapM id = some nbs := by
  induction nbs with
  | nil => rfl
  | cons nb nbs ih =>
      rw [List.map_cons, List.mapM_cons, ih]
      rfl

section

omit [DecidableEq α]

/-- With more neighbours than an 8-bit counter counts there are too few slots. -/
theorem buildSethlmac_of_many (macMaxPayload : ℤ) (addrSize : ℕ) (addr : HlmacAddr)
    (h : 256 ≤ targets.length) (rs : List ℕ) :
    buildSethlmac macMaxPayload addrSize addr targets rs = .nothing ∨
      buildSethlmac macMaxPayload addrSize addr targets rs = .drawing := by
  unfold buildSethlmac
  split
  · exact .inl rfl
  · split
    · exact .inl rfl
    · cases hfill : fillRandomList (List.replicate (targets.length % 256) none) targets rs with
      | none => exact .inr rfl
      | some randomList =>
          obtain ⟨hperm, hlength⟩ := fillRandomList_replicate hfill
          have hle := List.length_filterMap_le id randomList
          rw [hperm.length_eq] at hle
          omega

/-- What is built once the order is drawn. -/
theorem buildSethlmac_of_order (hmac : 0 < macMaxPayload) (hpos : targets ≠ [])
    (hle : targets.length ≤ 255) {randomList : List (Option (NeighbourTableEntry α))}
    (hfill : fillRandomList (List.replicate (targets.length % 256) none) targets rs =
      some randomList) :
    ∃ nbs, nbs.Perm targets ∧ randomList = nbs.map some ∧
      buildSethlmac macMaxPayload addrSize addr targets rs =
        if (addr.len.toNat + 2 + addrSize : ℤ) ≤ macMaxPayload then
          match packLoop macMaxPayload addrSize nbs 256 1 (4 + 1 + addr.len.toNat) with
          | none => .stray
          | some (nbs, dataLen) => .payload nbs dataLen
        else .nothing := by
  obtain ⟨hperm, hlength⟩ := fillRandomList_replicate hfill
  have hmod : targets.length % 256 = targets.length := Nat.mod_eq_of_lt (by omega)
  have hfull := eq_map_some_of_full (hperm.length_eq.trans (hlength.trans hmod).symm)
  refine ⟨_, hperm, hfull, ?_⟩
  have hlength' : targets.length % 256 ≠ 0 := by
    rw [hmod]
    exact (List.length_pos_iff.2 hpos).ne'
  rw [buildSethlmac, if_neg (Int.not_le.2 hmac), if_neg hlength', hfill]
  dsimp only
  generalize randomList.filterMap id = nbs at hperm hfull
  subst hfull
  rw [mapM_id_map_some]
  cases nbs with
  | nil => exact absurd hperm.nil_eq.symm hpos
  | cons nb nbs => rfl

/-- The payload is right exactly if the two tests leave out no byte, and the index does not
wrap. -/
theorem exact_packLoop_iff (hnbs : nbs ≠ []) (hle : nbs.length ≤ 255)
    (hlength : nbs.length = targets.length) :
    (if (addr.len.toNat + 2 + addrSize : ℤ) ≤ macMaxPayload then
      match packLoop macMaxPayload addrSize nbs 256 1 (4 + 1 + addr.len.toNat) with
      | none => .stray
      | some (nbs, dataLen) => .payload nbs dataLen
    else .nothing : Packed α).Exact macMaxPayload addrSize addr targets ↔
      ¬ ((addr.len.toNat + 2 + addrSize : ℤ) ≤ macMaxPayload ∧
          macMaxPayload < addr.len.toNat + 6 + addrSize) ∧
        ¬ (targets.length = 255 ∧
          ((5 + addr.len.toNat + 256 * (1 + addrSize) : ℕ) : ℤ) ≤ macMaxPayload) := by
  have hloop : packLoop macMaxPayload addrSize nbs 256 1 (4 + 1 + addr.len.toNat) =
      if nbs.length = 255 ∧
          ((4 + 1 + addr.len.toNat + (nbs.length + 1) * (1 + addrSize) : ℕ) : ℤ) ≤ macMaxPayload then
        none
      else some (packEntries macMaxPayload addrSize (4 + 1 + addr.len.toNat) nbs,
        4 + 1 + addr.len.toNat +
          (packEntries macMaxPayload addrSize (4 + 1 + addr.len.toNat) nbs).length *
            (1 + addrSize)) := packLoop_eq rfl hnbs hle (by omega)
  have hwrap : (nbs.length = 255 ∧
      ((4 + 1 + addr.len.toNat + (nbs.length + 1) * (1 + addrSize) : ℕ) : ℤ) ≤ macMaxPayload) ↔
      targets.length = 255 ∧
        ((5 + addr.len.toNat + 256 * (1 + addrSize) : ℕ) : ℤ) ≤ macMaxPayload := by
    rw [← hlength]
    refine and_congr_right fun h => ?_
    rw [h]
  by_cases hadmit : (addr.len.toNat + 2 + addrSize : ℤ) ≤ macMaxPayload
  · rw [if_pos hadmit, hloop]
    by_cases hfull : nbs.length = 255 ∧
      ((4 + 1 + addr.len.toNat + (nbs.length + 1) * (1 + addrSize) : ℕ) : ℤ) ≤ macMaxPayload
    · rw [if_pos hfull]
      exact iff_of_false id fun h => h.2 (hwrap.1 hfull)
    · rw [if_neg hfull]
      constructor
      · intro h
        exact ⟨fun hwindow => by have := h.1; omega, fun h' => hfull (hwrap.2 h')⟩
      · rintro ⟨hwindow, -⟩
        have hfit : ((4 + 1 + addr.len.toNat + 1 + addrSize : ℕ) : ℤ) ≤ macMaxPayload := by omega
        have hcount := length_packEntries_of_fit hnbs hfit
        have hquot : (macMaxPayload - (4 + 1 + addr.len.toNat : ℕ)) / (1 + addrSize : ℤ) =
            (macMaxPayload - 5 - addr.len.toNat) / (1 + addrSize) := by
          congr 1
          omega
        rw [hquot, hlength] at hcount
        refine ⟨by omega, ?_, hcount⟩
        generalize (packEntries macMaxPayload addrSize (4 + 1 + addr.len.toNat) nbs).length = k
          at hcount
        have hle : (k : ℤ) * (1 + addrSize) ≤
            (macMaxPayload - 5 - addr.len.toNat) / (1 + addrSize) * (1 + addrSize) :=
          Int.mul_le_mul_of_nonneg_right (by omega) (by omega)
        have hquot := Int.ediv_mul_le (macMaxPayload - 5 - addr.len.toNat)
          (show (1 + addrSize : ℤ) ≠ 0 by omega)
        have hcast : ((k * (1 + addrSize) : ℕ) : ℤ) = k * (1 + addrSize) := by
          rw [Int.natCast_mul, Int.natCast_add]
          rfl
        rw [Int.natCast_add, hcast]
        omega
  · rw [if_neg hadmit]
    refine iff_of_true trivial ⟨fun h => hadmit h.1, fun h => ?_⟩
    have hroom := h.2
    omega

/-- The payload fits and is maximal, in every random order, exactly if one of these holds: the
neighbours are more than are counted, so that nothing is built; or the tests leave out no byte at
this length of the prefix, and there are not 255 neighbours with room for 256. -/
theorem exact_buildSethlmac_iff (macMaxPayload : ℤ) (addrSize : ℕ) (addr : HlmacAddr)
    (targets : List (NeighbourTableEntry α)) :
    (∀ rs, (buildSethlmac macMaxPayload addrSize addr targets rs).Exact
        macMaxPayload addrSize addr targets) ↔
      targets = [] ∨ 256 ≤ targets.length ∨
        ¬ ((addr.len.toNat + 2 + addrSize : ℤ) ≤ macMaxPayload ∧
            macMaxPayload < addr.len.toNat + 6 + addrSize) ∧
          ¬ (targets.length = 255 ∧
            ((5 + addr.len.toNat + 256 * (1 + addrSize) : ℕ) : ℤ) ≤ macMaxPayload) := by
  by_cases hnil : targets = []
  · refine iff_of_true (fun rs => ?_) (.inl hnil)
    rw [buildSethlmac, hnil]
    split <;> trivial
  by_cases hmany : 256 ≤ targets.length
  · refine iff_of_true (fun rs => ?_) (.inr (.inl hmany))
    rcases buildSethlmac_of_many macMaxPayload addrSize addr hmany rs with h | h
    · rw [h]
      trivial
    · rw [h]
      trivial
  rw [or_iff_right hnil, or_iff_right hmany]
  by_cases hmac : 0 < macMaxPayload
  · have hle : targets.length ≤ 255 := by omega
    have hpos := List.length_pos_iff.2 hnil
    constructor
    · intro h
      obtain ⟨rs, randomList, hfill⟩ := fillRandomList_replicate_ends
        (Nat.le_of_eq (Nat.mod_eq_of_lt (Nat.lt_succ_of_le hle)).symm) []
      obtain ⟨nbs, hperm, -, hbuild⟩ := buildSethlmac_of_order hmac hnil hle hfill
      have hexact := h ([] ++ rs)
      rw [hbuild] at hexact
      have hlength := hperm.length_eq
      exact (exact_packLoop_iff (List.length_pos_iff.1 (by omega)) (by omega) hlength).1 hexact
    · intro h rs
      cases hfill : fillRandomList (List.replicate (targets.length % 256) none) targets rs with
      | none =>
          rw [buildSethlmac, if_neg (by omega), if_neg (by omega), hfill]
          trivial
      | some randomList =>
          obtain ⟨nbs, hperm, -, hbuild⟩ := buildSethlmac_of_order hmac hnil hle hfill
          have hlength := hperm.length_eq
          rw [hbuild]
          exact (exact_packLoop_iff (List.length_pos_iff.1 (by omega)) (by omega) hlength).2 h
  · refine iff_of_true (fun rs => ?_) ⟨fun h => by omega, fun h => by omega⟩
    rw [buildSethlmac, if_pos (by omega)]
    trivial

end

/-- Thirteen bytes are written into a buffer of nine. -/
theorem not_exact_buildSethlmac_nine :
    ¬ (buildSethlmac 9 6 ⟨some [1], 1⟩ [(⟨5, 0, 1, 0, 0, 0⟩ : NeighbourTableEntry ℕ)] [0]).Exact
        9 6 ⟨some [1], 1⟩ [⟨5, 0, 1, 0, 0, 0⟩] := fun h => by
  have hfit : (4 + 1 + 1 + 1 + 6 : ℤ) ≤ 9 := h.1
  omega

/-! ## What is queued -/

/-- Once a payload has been built, `iotorii_send_sethlmac` queues it for everybody. -/
theorem iotoriiSendSethlmac_of_payload {cfg : Config α} {env : Env α} {sender : α} {timestamp : ℕ}
    {n : Node α} {dataLen : ℕ} (hcast : cfg.hlmacCast = .broadcast)
    (h : buildSethlmac (maxPayload env.framerHdrlen) cfg.addrSize addr
      (n.neighbourTable.targets sender) env.priorities = .payload nbs dataLen) :
    ∃ n', iotoriiSendSethlmac cfg env addr sender timestamp n = some n' ∧
      n'.payloadEntryList = n.payloadEntryList ++
        [⟨.sethlmac timestamp addr.ids (nbs.map fun nb => (nb.numberId, nb.addr)),
          cfg.linkaddrNull, timestamp⟩] := by
  have hmac : 0 < maxPayload env.framerHdrlen := by
    by_contra hmac
    rw [buildSethlmac, if_pos (by omega)] at h
    cases h
  have hle : (n.neighbourTable.targets sender).length ≤ 255 := by
    by_contra hmany
    have hmany' : 256 ≤ (n.neighbourTable.targets sender).length := by omega
    rcases buildSethlmac_of_many (maxPayload env.framerHdrlen) cfg.addrSize addr hmany'
      env.priorities with h' | h' <;> rw [h'] at h <;> cases h
  have hne : (n.neighbourTable.targets sender).length % 256 ≠ 0 := by
    intro hzero
    rw [buildSethlmac, if_neg (by omega), if_pos hzero] at h
    cases h
  have hnil : n.neighbourTable.targets sender ≠ [] := fun hnil => hne (by rw [hnil]; rfl)
  cases hfill : fillRandomList
      (List.replicate ((n.neighbourTable.targets sender).length % 256) none)
      (n.neighbourTable.targets sender) env.priorities with
  | none =>
      rw [buildSethlmac, if_neg (by omega), if_neg hne, hfill] at h
      cases h
  | some randomList =>
      obtain ⟨order, hperm, hslots, hbuild⟩ := buildSethlmac_of_order hmac hnil hle hfill
      rw [hbuild] at h
      split at h
      · rename_i hadmit
        have hlength := hperm.length_eq
        have horder : order ≠ [] := by
          rintro rfl
          exact hnil hperm.nil_eq.symm
        cases hloop : packLoop (maxPayload env.framerHdrlen) cfg.addrSize order 256 1
            (4 + 1 + addr.len.toNat) with
        | none =>
            rw [hloop] at h
            cases h
        | some packed =>
            rw [hloop] at h
            obtain ⟨rfl, rfl⟩ := Packed.payload.inj h
            have hpacked := packEntries_of_packLoop horder (by omega) hloop
            have hslot : ∃ nb rest, randomList = some nb :: rest := by
              obtain ⟨nb, rest, rfl⟩ := List.exists_cons_of_ne_nil horder
              exact ⟨nb, rest.map some, hslots⟩
            have hentries : sethlmacEntries cfg (maxPayload env.framerHdrlen) addr timestamp
                randomList = some [⟨.sethlmac timestamp addr.ids
                  (packed.1.map fun nb => (nb.numberId, nb.addr)), cfg.linkaddrNull,
                  timestamp⟩] := by
              obtain ⟨nb, rest, rfl⟩ := hslot
              rw [sethlmacEntries]
              dsimp only
              rw [if_pos hadmit, hslots, mapM_id_map_some, hcast]
              dsimp only
              rw [← hpacked]
            unfold iotoriiSendSethlmac
            rw [numberOfNeighboursNew_eq]
            dsimp only
            rw [if_neg (by omega), if_neg hne, hfill]
            dsimp only
            rw [hentries]
            exact ⟨_, rfl, by rw [armStatistic, hcast]; rfl⟩
      · cases h

end Den2ne
