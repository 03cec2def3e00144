import Den2ne.Node.State
import Mathlib.Tactic.Linarith

/-!
# Sharing load in the earlier variants

`den2ne-ipv6-790` and `den2ne-contiki` have two handlers each for the load that a child
gives to its parent: `iotorii_handle_share_upstream_timer`, where `extra_load` is an
unsigned 16-bit variable in the first and a `short` in the second, and the SHARE branch of
the handler of messages, which in both reads the two bytes as an unsigned number. What is
below `100` becomes a large number on the way, or in the first variant a positive one, so
`conserves_iff` says for which loads the two of them keep the sum.

`int` has 32 bits. Child and parent have the same byte order, so a SHARE is modelled by
the number in its two bytes.
-/

namespace Den2ne.Earlier

/-- `neighbour_table_entry_t`, without what the two handlers do not use. -/
structure Neighbour (α : Type*) where
  addr : α
  flag : ℤ
  inOut : UInt16
deriving DecidableEq, Repr

/-- What the two handlers use of a node; `load` is that of the head of `node_list`. -/
structure ShareNode (α : Type*) where
  load : Int32
  neighbours : List (Neighbour α)
  edge : Bool
  newEdge : Bool
  nHijos : UInt8
  startShare : Bool
  msgShareOn : Bool
  statisticTimer : Bool
deriving DecidableEq, Repr

/-- The two variants. -/
inductive Variant
  | ipv6
  | contiki
deriving DecidableEq, Repr

/-- Conversion of an `int` to `uint16_t`. -/
def toUint16 (x : Int32) : UInt16 := x.toInt16.toUInt16

/-- `extra_load` in `den2ne-ipv6-790`, a `uint16_t`. -/
def extraLoadIpv6 (load : Int32) : UInt16 :=
  if 100 < load then toUint16 (load - 100)
  else
    let extra := toUint16 (100 - load)
    if load < 0 then -extra else extra

/-- `extra_load` in `den2ne-contiki`, a `short`. -/
def extraLoadContiki (load : Int32) : Int16 :=
  if 100 < load then (load - 100).toInt16
  else if 0 < load then (load - 100).toInt16
  else -(-load + 100).toInt16

/-- The two bytes of `extra_load`, as a number. -/
def extraLoad : Variant → Int32 → UInt16
  | .ipv6, load => extraLoadIpv6 load
  | .contiki, load => (extraLoadContiki load).toUInt16

/-- A SHARE for every parent in the first variant. The second one overwrites the packet
for every parent and sends it once; `none` is what was in the buffer before. -/
def shares (v : Variant) (extra : UInt16) (parents : ℕ) : List (Option UInt16) :=
  match v with
  | .ipv6 => List.replicate parents (some extra)
  | .contiki => [if parents = 0 then none else some extra]

variable {α : Type*}

/-- `iotorii_handle_share_upstream_timer`, with the packets that it sends. -/
def handleShareUpstreamTimer (v : Variant) (nodeType : NodeType) (n : ShareNode α) :
    ShareNode α × List (Option UInt16) :=
  let n := { n with msgShareOn := true }
  let done (n : ShareNode α) := { n with startShare := true, statisticTimer := true }
  if (n.edge || n.newEdge) && !n.startShare then
    let extra := extraLoad v n.load
    (done { n with
      load := match nodeType with
        | .common => 100
        | .root => n.load
      neighbours := n.neighbours.map fun nb =>
        if nb.flag = 1 then { nb with inOut := -extra } else nb },
      shares v extra (n.neighbours.countP (·.flag = 1)))
  else (done n, [])

variable [DecidableEq α]

/-- One turn of the loop over the neighbours, in the SHARE branch: what `*p_extra` does to
the node, and to the entry if it is that of the sender. -/
def shareTurn (sender : α) (extra : UInt16) (n : ShareNode α) (nb : Neighbour α) :
    ShareNode α × Neighbour α :=
  if nb.addr = sender then
    let n :=
      if nb.flag = 0 && !n.edge && n.nHijos != 0 then
        let n := { n with load := n.load + Int32.ofNat extra.toNat, nHijos := n.nHijos - 1 }
        if n.nHijos = 0 then { n with newEdge := true, statisticTimer := true } else n
      else n
    (n, if extra != 0 && nb.inOut == 0 then { nb with inOut := extra } else nb)
  else (n, nb)

/-- The loop over the neighbours. -/
def shareLoop (sender : α) (extra : UInt16) :
    List (Neighbour α) → ShareNode α → ShareNode α × List (Neighbour α)
  | [], n => (n, [])
  | nb :: nbs, n =>
      let (n, nb) := shareTurn sender extra n nb
      let (n, nbs) := shareLoop sender extra nbs n
      (n, nb :: nbs)

/-- The SHARE branch of `iotorii_handle_incoming_sethlmac_or_load`. -/
def handleIncomingShare (sender : α) (extra : UInt16) (n : ShareNode α) : ShareNode α :=
  let (n, nbs) := shareLoop sender extra n.neighbours n
  { n with neighbours := nbs }

/-- A child executes its timer handler, and its parent receives what it sends. -/
def transfer (v : Variant) (sender : α) (child parent : ShareNode α) :
    ShareNode α × ShareNode α :=
  let (child, packets) := handleShareUpstreamTimer v .common child
  (child, (packets.filterMap id).foldl (fun n extra => handleIncomingShare sender extra n) parent)

/-- The node is to send, and has one parent. -/
def Sends (n : ShareNode α) : Prop :=
  ((n.edge || n.newEdge) && !n.startShare) = true ∧ n.neighbours.countP (·.flag = 1) = 1

/-- The node accepts a SHARE of this neighbour: it has one entry for it, with flag `0`, is
no edge and still waits for children. -/
def Accepts (sender : α) (n : ShareNode α) : Prop :=
  (n.neighbours.filter (·.addr = sender)).map (·.flag) = [0] ∧ n.edge = false ∧ n.nHijos ≠ 0

instance (n : ShareNode α) : Decidable (Sends n) := inferInstanceAs (Decidable (_ ∧ _))

instance (sender : α) (n : ShareNode α) : Decidable (Accepts sender n) :=
  inferInstanceAs (Decidable (_ ∧ _))

/-! ## The amount -/

theorem bmod_int_emod (x : ℤ) : Int.bmod x (2 ^ 32) % 65536 = x % 65536 := by
  rw [Int.bmod_def]
  split <;> omega

theorem toNat_toUInt16 (x : Int16) : (x.toUInt16.toNat : ℤ) = x.toInt % 65536 := by
  have hlt := x.toUInt16.toNat_lt
  have hint : x.toInt = Int.bmod x.toUInt16.toNat (2 ^ 16) := BitVec.toInt_eq_toNat_bmod _
  rw [hint, Int.bmod_def]
  split <;> omega

theorem toNat_toUint16 (x : Int32) : ((toUint16 x).toNat : ℤ) = x.toInt % 65536 := by
  rw [toUint16, toNat_toUInt16, Int32.toInt_toInt16, Int.bmod_def]
  split <;> omega

theorem toNat_neg (x : UInt16) : ((-x).toNat : ℤ) = -(x.toNat : ℤ) % 65536 := by
  have hlt := x.toNat_lt
  rw [UInt16.toNat_neg, show UInt16.size = 65536 from rfl]
  omega

/-- In the first variant a load from `0` to `100` gives the amount with the wrong sign. -/
theorem toNat_extraLoadIpv6 (load : Int32) :
    ((extraLoadIpv6 load).toNat : ℤ) =
      if 0 ≤ load.toInt ∧ load.toInt ≤ 100 then 100 - load.toInt
      else (load.toInt - 100) % 65536 := by
  have h100 : (100 : Int32).toInt = 100 := rfl
  have h0 : (0 : Int32).toInt = 0 := rfl
  simp only [extraLoadIpv6, Int32.lt_iff_toInt_lt, h100, h0]
  by_cases hmore : 100 < load.toInt
  · rw [if_pos hmore, if_neg (by omega), toNat_toUint16, Int32.toInt_sub, bmod_int_emod, h100]
  · rw [if_neg hmore]
    by_cases hneg : load.toInt < 0
    · rw [if_pos hneg, if_neg (by omega), toNat_neg, toNat_toUint16, Int32.toInt_sub,
        bmod_int_emod, h100]
      omega
    · rw [if_neg hneg, if_pos (by omega), toNat_toUint16, Int32.toInt_sub, bmod_int_emod, h100]
      omega

theorem toNat_extraLoadContiki (load : Int32) :
    ((extraLoadContiki load).toUInt16.toNat : ℤ) = (load.toInt - 100) % 65536 := by
  have h100 : (100 : Int32).toInt = 100 := rfl
  have hsub : ((load - 100).toInt16.toUInt16.toNat : ℤ) = (load.toInt - 100) % 65536 := by
    rw [← toUint16, toNat_toUint16, Int32.toInt_sub, bmod_int_emod, h100]
  rw [extraLoadContiki]
  split
  · exact hsub
  · split
    · exact hsub
    · rw [Int16.toUInt16_neg, toNat_neg, ← toUint16, toNat_toUint16, Int32.toInt_add,
        bmod_int_emod, Int32.toInt_neg, h100]
      have hneg := bmod_int_emod (-load.toInt)
      omega

/-- The amount that arrives is what exceeds `100` exactly when that fits 16 bits without a
sign. -/
theorem toNat_extraLoad_eq_iff (v : Variant) (load : Int32) :
    ((extraLoad v load).toNat : ℤ) = load.toInt - 100 ↔
      100 ≤ load.toInt ∧ load.toInt < 65636 := by
  cases v with
  | ipv6 =>
      rw [extraLoad, toNat_extraLoadIpv6]
      split <;> omega
  | contiki =>
      rw [extraLoad, toNat_extraLoadContiki]
      omega

/-! ## The two handlers -/

omit [DecidableEq α] in
theorem handleShareUpstreamTimer_of_sends (v : Variant) {n : ShareNode α} (h : Sends n) :
    (handleShareUpstreamTimer v .common n).1.load = 100 ∧
      (handleShareUpstreamTimer v .common n).2 = [some (extraLoad v n.load)] := by
  rw [handleShareUpstreamTimer, if_pos h.1, h.2]
  cases v <;> exact ⟨rfl, rfl⟩

/-- A loop that does not meet the sender leaves the node. -/
theorem shareLoop_of_notMem {sender : α} (extra : UInt16) {nbs : List (Neighbour α)}
    (h : nbs.filter (·.addr = sender) = []) (n : ShareNode α) :
    (shareLoop sender extra nbs n).1 = n := by
  induction nbs with
  | nil => rfl
  | cons nb nbs ih =>
      have hne : nb.addr ≠ sender := fun heq => by simp [heq] at h
      rw [List.filter_cons_of_neg (by simpa using hne)] at h
      rw [shareLoop, shareTurn, if_neg hne]
      exact ih h

/-- A loop that meets the sender once adds the amount. -/
theorem load_shareLoop {sender : α} (extra : UInt16) {nbs : List (Neighbour α)}
    (h : (nbs.filter (·.addr = sender)).map (·.flag) = [0]) {n : ShareNode α}
    (hedge : n.edge = false) (hhijos : n.nHijos ≠ 0) :
    (shareLoop sender extra nbs n).1.load = n.load + Int32.ofNat extra.toNat := by
  induction nbs with
  | nil => cases h
  | cons nb nbs ih =>
      by_cases heq : nb.addr = sender
      · rw [List.filter_cons_of_pos (by simpa using heq), List.map_cons] at h
        obtain ⟨hflag, hnil⟩ := List.cons.inj h
        rw [shareLoop, shareTurn, if_pos heq, hflag, hedge]
        dsimp only
        rw [shareLoop_of_notMem extra (List.map_eq_nil_iff.mp hnil), if_pos (by simpa using hhijos)]
        split <;> rfl
      · rw [List.filter_cons_of_neg (by simpa using heq)] at h
        rw [shareLoop, shareTurn, if_neg heq]
        exact ih h

theorem toInt_add_extra (load : Int32) (extra : UInt16) :
    (load + Int32.ofNat extra.toNat).toInt = Int.bmod (load.toInt + extra.toNat) (2 ^ 32) := by
  have hlt := extra.toNat_lt
  rw [Int32.toInt_add, Int32.toInt_ofNat_of_lt (by omega)]

/-- The sum of the loads of a child and its parent is kept exactly for what exceeds `100`
by less than `65536` and still fits the load of the parent. -/
theorem conserves_iff (v : Variant) (sender : α) (child parent : ShareNode α)
    (hsends : Sends child) (haccepts : Accepts sender parent) :
    (transfer v sender child parent).1.load.toInt +
        (transfer v sender child parent).2.load.toInt =
      child.load.toInt + parent.load.toInt ↔
    100 ≤ child.load.toInt ∧ child.load.toInt < 65636 ∧
      parent.load.toInt + (child.load.toInt - 100) < 2 ^ 31 := by
  obtain ⟨hload, hpackets⟩ := handleShareUpstreamTimer_of_sends v hsends
  obtain ⟨hentry, hedge, hhijos⟩ := haccepts
  have hchild : (transfer v sender child parent).1.load.toInt = 100 := congrArg Int32.toInt hload
  have hparent : (transfer v sender child parent).2.load =
      parent.load + Int32.ofNat (extraLoad v child.load).toNat := by
    rw [transfer]
    dsimp only
    rw [hpackets]
    exact load_shareLoop _ hentry hedge hhijos
  rw [hchild, hparent, toInt_add_extra]
  have hamount := toNat_extraLoad_eq_iff v child.load
  have hlt := (extraLoad v child.load).toNat_lt
  have hle := child.load.le_toInt
  have hlow := parent.load.le_toInt
  have hhigh := parent.load.toInt_lt
  rw [Int.bmod_def]
  constructor
  · intro h
    split at h <;> omega
  · intro h
    split <;> omega

/-- A child with this load, whose parent has number `1`. -/
def childWith (load : Int32) : ShareNode ℕ :=
  ⟨load, [⟨1, 1, 0⟩], true, false, 0, false, false, false⟩

/-- A parent with this load, which waits for the child with number `2`. -/
def parentWith (load : Int32) : ShareNode ℕ :=
  ⟨load, [⟨2, 0, 0⟩], false, false, 1, true, true, false⟩

theorem conserves_iff_surplus :
    (transfer .contiki 2 (childWith 130) (parentWith (-40))).1.load.toInt +
        (transfer .contiki 2 (childWith 130) (parentWith (-40))).2.load.toInt =
      (childWith 130).load.toInt + (parentWith (-40)).load.toInt :=
  (conserves_iff .contiki 2 (childWith 130) (parentWith (-40)) (by decide) (by decide)).2
    (by decide)

/-- A child with a load of `50` takes `50` more, and its parent gets another `50` in the
first variant and `65486` in the second. -/
theorem not_conserves_fifty :
    (childWith 50).load.toInt + (parentWith 0).load.toInt = 50 ∧
    (transfer .ipv6 2 (childWith 50) (parentWith 0)).1.load.toInt +
        (transfer .ipv6 2 (childWith 50) (parentWith 0)).2.load.toInt = 150 ∧
    (transfer .contiki 2 (childWith 50) (parentWith 0)).1.load.toInt +
        (transfer .contiki 2 (childWith 50) (parentWith 0)).2.load.toInt = 65586 := by
  decide

end Den2ne.Earlier
