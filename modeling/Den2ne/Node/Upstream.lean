import Den2ne.Node.State

/-!
# Sending towards the root

`iotorii_handle_load_timer`, `iotorii_handle_share_upstream_timer`,
`iotorii_handle_statistic_timer` and `iotorii_handle_send_message_timer`.

In the broadcast build LOAD and SHARE go straight to the MAC; in the unicast
build they are queued in `payload_entry_list`, one entry for all parents, whose
destination the loop over the table overwrites. When no neighbour is a parent
the unicast SHARE is queued with whatever `malloc` left in `dest`, which is
the parameter `junk`.
-/

namespace Den2ne

variable {α : Type*} [DecidableEq α]

/-- Conversion of an `int` to a 16-bit `short`. -/
def toShort (x : ℤ) : ℤ := Int.bmod x 65536

/-- The load above `100` that a node passes on; negative when it has room. -/
def extraLoad (load : ℤ) : ℤ :=
  if 100 < load then toShort (load - 100)
  else if 0 < load then toShort (load - 100)
  else toShort (-toShort (-load + 100))

namespace NeighbourTable

/-- The neighbours with `flag == 1`, in table order. -/
def parents (t : NeighbourTable α) : List α :=
  (t.entries.filter (·.flag = 1)).map (·.addr)

end NeighbourTable

namespace Node

/-- The round that the node is in: the root counts rounds itself, a common
node takes them from the messages it stores. -/
def round (cfg : Config α) (n : Node α) : ℕ :=
  match cfg.nodeType with
  | .root => n.timestamp
  | .common => n.lastTimestamp

/-- `list_add(payload_entry_list, ..)`, arming the send timer if the list was empty. -/
def enqueue (n : Node α) (e : PayloadEntry α) : Node α :=
  { n with
    sendSethlmacTimer := n.sendSethlmacTimer || n.payloadEntryList.isEmpty
    payloadEntryList := n.payloadEntryList ++ [e] }

/-- `prepare_packet`: hand packets to the MAC. -/
def preparePackets (n : Node α) (es : List (PayloadEntry α)) : Node α :=
  { n with macOut := n.macOut ++ es }

end Node

/-- `iotorii_handle_load_timer`. -/
def iotoriiHandleLoadTimer (cfg : Config α) (n : Node α) : Node α :=
  let n := { n with history := { n.history with loadRuns := n.history.loadRuns + 1 } }
  match n.nodeList with
  | [] => n
  | node :: _ =>
      match cfg.hlmacCast with
      | .broadcast =>
          n.preparePackets (n.neighbourTable.parents.map fun parent =>
            ⟨.load node.load, parent, n.round cfg⟩)
      | .unicast =>
          match n.neighbourTable.parents.getLast? with
          | none => n
          | some dest => n.enqueue ⟨.load node.load, dest, n.round cfg⟩

/-- `iotorii_handle_share_upstream_timer`. It reads `node->load` without
looking whether there is a node record. -/
def iotoriiHandleShareUpstreamTimer (cfg : Config α) (junk : α) (n : Node α) :
    Option (Node α) :=
  match n.nodeList with
  | [] => none
  | node :: rest =>
      let extra := extraLoad node.load
      let parents := n.neighbourTable.parents
      let n := { n with
        nodeList := (match cfg.nodeType with
          | .common => { node with load := 100 } :: rest
          | .root => node :: rest)
        neighbourTable := n.neighbourTable.setParentsInOut (toShort (-extra))
        history := { n.history with
          shareCalls := (node.load, parents.length) :: n.history.shareCalls } }
      match cfg.hlmacCast with
      | .broadcast =>
          some (n.preparePackets (parents.map fun parent =>
            ⟨.share extra, parent, n.round cfg⟩))
      | .unicast =>
          some (n.enqueue ⟨.share extra, parents.getLast?.getD junk, n.round cfg⟩)

/-- Send both messages and note it. -/
def sendLoadAndShare (cfg : Config α) (junk : α) (n : Node α) : Option (Node α) :=
  (iotoriiHandleShareUpstreamTimer cfg junk (iotoriiHandleLoadTimer cfg n)).map fun n =>
    { n with sentLoad := true, sentShare := true }

/-- An inner node sends its load once, when no child owes it one. -/
def sendLoadWhenDone (cfg : Config α) (n : Node α) : Node α :=
  if n.edge = false ∧ n.nHijosLoad = 0 ∧ n.sentLoad = false then
    { iotoriiHandleLoadTimer cfg n with sentLoad := true }
  else n

/-- An inner node shares once, when no child owes it a share. -/
def sendShareWhenDone (cfg : Config α) (junk : α) (n : Node α) : Option (Node α) :=
  if n.edge = false ∧ n.nHijosShare = 0 ∧ n.sentShare = false then
    (iotoriiHandleShareUpstreamTimer cfg junk n).map fun n => { n with sentShare := true }
  else some n

/-- The number of neighbours that `iotorii_handle_statistic_timer` takes for
children. -/
def NeighbourTable.hijos (t : NeighbourTable α) : ℕ :=
  t.entries.countP fun nb => !(nb.flag = 1 || nb.flag = -1)

/-- These neighbours. -/
def NeighbourTable.hijosAddrs (t : NeighbourTable α) : List α :=
  (t.entries.filter fun nb => !(nb.flag = 1 || nb.flag = -1)).map (·.addr)

/-- `iotorii_handle_statistic_timer`: decide whether the node is an edge and
count its children; an edge sends at once. The root is never an edge here. -/
def iotoriiHandleStatisticTimer (cfg : Config α) (junk : α) (n : Node α) :
    Option (Node α) :=
  match n.nodeList with
  | [] => some n
  | _ :: _ =>
      let hijos := n.neighbourTable.hijos % 256
      let n := { n with history := { n.history with
        awaited := n.neighbourTable.hijosAddrs } }
      match cfg.nodeType with
      | .root => some { n with nHijosShare := hijos, nHijosLoad := hijos }
      | .common =>
          let n := { n with
            edge := n.numberOfNeighboursFlag == 0
            nHijosShare := hijos
            nHijosLoad := hijos }
          if n.edge then sendLoadAndShare cfg junk n else some n

/-- What `csma_output_packet` does with a unicast packet, as far as
`iotorii_handle_send_message_timer` can see it in `transmission_delay`:
`scheduled` sets the delay, `behind` queues the packet without touching the
delay, and `refused` drops it. -/
inductive CsmaOutcome
  | scheduled
  | behind
  | refused
deriving DecidableEq, Repr

/-- `iotorii_handle_send_message_timer`. In the unicast build an entry whose
delay was not set is pushed back to be sent again. -/
def iotoriiHandleSendMessageTimer (cfg : Config α) (csma : CsmaOutcome) (n : Node α) :
    Option (Node α) :=
  match n.payloadEntryList with
  | [] => none
  | entry :: rest =>
      match cfg.hlmacCast with
      | .broadcast =>
          let out := { entry with dest := cfg.linkaddrNull }
          some { n with
            payloadEntryList := rest
            macOut := if csma = .refused then n.macOut else n.macOut ++ [out]
            sendSethlmacTimer := !rest.isEmpty }
      | .unicast =>
          match csma with
          | .scheduled => some { n with
              payloadEntryList := rest
              macOut := n.macOut ++ [entry]
              sendSethlmacTimer := !rest.isEmpty }
          | .behind => some { n with
              macOut := n.macOut ++ [entry]
              sendSethlmacTimer := true }
          | .refused => some { n with sendSethlmacTimer := true }

end Den2ne
