import Den2ne.Node.Upstream

/-!
# Advertising an address

`iotorii_send_sethlmac` and `list_this_node_entry`. The neighbours other than
the sender get random priorities; as many of them as fit are told the address
they may take, all in one packet (broadcast) or in one packet each (unicast).
The length test before the first entry counts neither the timestamp nor the
length byte, and the unicast loop asks for room for a second entry before it
goes on to the next neighbour.
-/

namespace Den2ne

variable {α : Type*} [DecidableEq α]

/-- `CSMA_MAC_LEN`. -/
def csmaMacLen : ℤ := 125

/-- `CSMA_MAC_MAX_HEADER`. -/
def csmaMacMaxHeader : ℤ := 21

/-- `max_payload`. -/
def maxPayload (framerHdrlen : ℤ) : ℤ :=
  csmaMacLen - if framerHdrlen < 0 then csmaMacMaxHeader else framerHdrlen

/-- `number_of_neighbours_new`, an 8-bit counter. -/
def numberOfNeighboursNew (t : NeighbourTable α) (sender : α) : ℕ :=
  (if sender ∈ t.addrs then t.numberOfNeighbours - 1 else t.numberOfNeighbours) % 256

/-- The neighbours an address from `sender` is passed on to, in table order. -/
def NeighbourTable.targets (t : NeighbourTable α) (sender : α) :
    List (NeighbourTableEntry α) :=
  t.entries.filter fun nb => nb.addr ≠ sender

/-- Draw until a free slot is hit; `none` if the draws run out. -/
def drawSlot {β : Type*} (slots : List (Option β)) : List ℕ → Option (ℕ × List ℕ)
  | [] => none
  | r :: rs =>
      match slots[r % slots.length]? with
      | some none => some (r % slots.length, rs)
      | _ => drawSlot slots rs

/-- The loop that gives each neighbour its own slot of `random_list`. -/
def fillRandomList {β : Type*} : List (Option β) → List β → List ℕ → Option (List (Option β))
  | slots, [], _ => some slots
  | slots, nb :: nbs, rs =>
      match drawSlot slots rs with
      | none => none
      | some (r, rs) => fillRandomList (slots.set r (some nb)) nbs rs

/-- The `do` loop of the broadcast build: the first entry goes in untested,
the next one while it fits. `datalenCounter` counts the bytes before the entry. -/
def packEntries (macMaxPayload : ℤ) (addrSize : ℕ) :
    ℕ → List (NeighbourTableEntry α) → List (NeighbourTableEntry α)
  | _, [] => []
  | datalenCounter, nb :: nbs =>
      let datalenCounter := datalenCounter + 1 + addrSize
      nb :: if (datalenCounter + addrSize + 1 : ℤ) ≤ macMaxPayload then
        packEntries macMaxPayload addrSize datalenCounter nbs else []

/-- The neighbours that the unicast loop reaches: it goes on only if a second
entry would fit too, and with 255 neighbours its 8-bit counter never passes
the bound, so that it reads past the end of `random_list`. -/
def unicastTargets (macMaxPayload : ℤ) (addrSize : ℕ) (addr : HlmacAddr)
    (nbs : List (NeighbourTableEntry α)) : Option (List (NeighbourTableEntry α)) :=
  if (4 + 1 + addr.len.toNat + 1 + addrSize + addrSize + 1 : ℤ) ≤ macMaxPayload then
    if nbs.length = 255 then none else some nbs
  else some (nbs.take 1)

/-- The payload entries that advertise `addr` to the neighbours of
`random_list`; the empty list if the prefix is too long. -/
def sethlmacEntries (cfg : Config α) (macMaxPayload : ℤ) (addr : HlmacAddr)
    (timestamp : ℕ) (randomList : List (Option (NeighbourTableEntry α))) :
    Option (List (PayloadEntry α)) :=
  match randomList with
  | some _ :: _ =>
      if (addr.len.toNat + 2 + cfg.addrSize : ℤ) ≤ macMaxPayload then
        match randomList.mapM id with
        | none => none
        | some nbs =>
            match cfg.hlmacCast with
            | .broadcast =>
                let packed := packEntries macMaxPayload cfg.addrSize (4 + 1 + addr.len.toNat) nbs
                some [⟨.sethlmac timestamp addr.ids (packed.map fun nb => (nb.numberId, nb.addr)),
                  cfg.linkaddrNull, timestamp⟩]
            | .unicast =>
                (unicastTargets macMaxPayload cfg.addrSize addr nbs).map fun nbs =>
                  nbs.map fun nb =>
                    ⟨.sethlmac timestamp addr.ids [(nb.numberId, nb.addr)], nb.addr, timestamp⟩
      else some []
  | _ => some []

/-- `list_this_node_entry`: a new node record with a random load. -/
def listThisNodeEntry (loadDraw : ℕ) (n : Node α) : Node α :=
  { n with nodeList := n.nodeList ++ [⟨(loadDraw % 200 : ℕ)⟩] }

/-- Arm the statistic timer in the broadcast build. -/
def armStatistic (cfg : Config α) (n : Node α) : Node α :=
  match cfg.hlmacCast with
  | .broadcast => { n with statisticTimer := true }
  | .unicast => n

/-- `iotorii_send_sethlmac`. -/
def iotoriiSendSethlmac (cfg : Config α) (env : Env α) (addr : HlmacAddr) (sender : α)
    (timestamp : ℕ) (n : Node α) : Option (Node α) :=
  let macMaxPayload := maxPayload env.framerHdrlen
  if macMaxPayload ≤ 0 then some (armStatistic cfg n)
  else
    let new := numberOfNeighboursNew n.neighbourTable sender
    if new = 0 then some (armStatistic cfg (listThisNodeEntry env.loadDraw n))
    else
      match fillRandomList (List.replicate new none) (n.neighbourTable.targets sender)
          env.priorities with
      | none => none
      | some randomList =>
          match sethlmacEntries cfg macMaxPayload addr timestamp randomList with
          | none => none
          | some [] => some (armStatistic cfg n)
          | some entries =>
              some (armStatistic cfg
                (listThisNodeEntry env.loadDraw (entries.foldl Node.enqueue n)))

end Den2ne
