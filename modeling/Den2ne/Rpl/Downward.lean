import Den2ne.Pointers.Tree
import Den2ne.Rpl.ReadBack
import Den2ne.SourceRoute.Reports
import Den2ne.SourceRoute.Routing
import Den2ne.Transition.Rounds

/-!
# Downward routes

`rpl_process_dao` of `rpl-dag.c`, and the root of a DODAG that receives DAOs and lets its routing
links age. Whatever it has been told before: once the nodes keep their parents, it takes as many
rounds of DAOs as the tree is deep until the links are the tree, and then a packet that the root
sends visits the nodes on the way to its destination. The DAOs of a round may come in any order and
more than once, and No-Path DAOs about earlier parents may still come.
-/

namespace Den2ne.Rpl.Icmp6

open Pointers Transition SourceRoute SourceRoute.State

/-- `RPL_LIFETIME`. -/
def rplLifetime (inst : CurrInstance) (lifetime : UInt8) : ℕ :=
  if lifetime = 0xFF then infiniteLifetime else inst.lifetimeUnit.toNat * lifetime.toNat

/-- `rpl_process_dao`, without the acknowledgement. -/
def processDao (cfg : SourceRoute.Config) (graph : ℕ) (inst : CurrInstance) (fromAddr : Ipaddr)
    (dao : Dao) (s : SourceRoute.State) : SourceRoute.State :=
  if dao.lifetime = 0 then s.expireParent cfg graph fromAddr (ipaddr dao.parentAddr)
  else
    (s.updateNode cfg graph fromAddr (some (ipaddr dao.parentAddr))
      (rplLifetime inst dao.lifetime)).2

/-- A DODAG with the nodes `ν`, and what its root holds: the nodes are known by the identifiers of
their interfaces, and the pool of routing links has room for all of them. -/
structure Dodag (ν : Type) [Fintype ν] where
  sr : SourceRoute.Config
  /-- the pointer that tells the graph, as a number -/
  graph : ℕ
  curr : CurrInstance
  withDaoAck : Bool
  root : ν
  linkId : ν → LinkId
  linkLocal : ν → Ipaddr
  linkId_injective : Function.Injective linkId
  linkId_linkLocal : ∀ v, (linkLocal v).linkId = linkId v
  linkId_root : linkId root = sr.dagId.linkId
  used : curr.used = true
  mop_ne : curr.mop ≠ mopNoDownwardRoutes
  dagId : curr.dag.dagId = sr.dagId
  room : Fintype.card ν ≤ sr.linkNum

variable {ν : Type} [Fintype ν]

namespace Dodag

/-- The global address of a node. -/
def addr (d : Dodag ν) (v : ν) : Ipaddr := d.sr.dagId.withLinkId (d.linkId v)

/-- The instance at a node with the sequence number `seq`. -/
def sender (d : Dodag ν) (seq : UInt8) : CurrInstance :=
  { d.curr with dag := { d.curr.dag with daoLastSeqno := seq } }

end Dodag

/-- The routing links of the root, and the seconds that have passed. -/
structure Root where
  links : SourceRoute.State
  now : ℕ

/-- A DAO of `v` that names `p` comes to the root, or its periodic timer runs. -/
inductive RootEvent (ν : Type)
  | dao (v p : ν) (seq lifetime : UInt8)
  | periodic (seconds : ℕ)

def Root.boot (d : Dodag ν) : Root where
  links := State.boot d.sr d.graph
  now := 0

def Root.step (d : Dodag ν) : RootEvent ν → Root → Option Root
  | .dao v p seq lifetime, r =>
      match daoOutput d.withDaoAck (d.sender seq) (some (d.addr v)) (some (d.linkLocal p))
        lifetime with
      | none => none
      | some bytes =>
          match (daoInput d.curr bytes.length).run (payload bytes) with
          | none => some r
          | some (_, dao) =>
              some { r with links := processDao d.sr d.graph d.curr (d.addr v) dao r.links }
  | .periodic seconds, r => some { links := r.links.periodic seconds, now := r.now + seconds }

/-! ## DAOs -/

variable {d : Dodag ν} {t : RootedTree ν} {v p u : ν} {seq lifetime : UInt8} {r r' : Root}
  {deadline : ℕ}

/-- A DAO does what it says. -/
theorem step_dao :
    Root.step d (.dao v p seq lifetime) r =
      some
        { r with
          links :=
            if lifetime = 0 then r.links.expireParent d.sr d.graph (d.addr v) (d.addr p)
            else
              (r.links.updateNode d.sr d.graph (d.addr v) (some (d.addr p))
                (rplLifetime d.curr lifetime)).2 } := by
  have hsend : ∃ bytes, daoOutput d.withDaoAck (d.sender seq) (some (d.addr v))
      (some (d.linkLocal p)) lifetime = some bytes := by
    refine ⟨_, if_neg ?_⟩
    rw [not_or]
    exact ⟨by rw [Dodag.sender, d.used]; simp, d.mop_ne⟩
  obtain ⟨bytes, hbytes⟩ := hsend
  obtain ⟨target, parentIpaddr, htarget, hparent, -, hrun⟩ :=
    daoInput_daoOutput d.curr hbytes (at_payload bytes)
  obtain rfl := Option.some.inj htarget
  obtain rfl := Option.some.inj hparent
  have haddr : ipaddr (Memory.store zeros 0
      ((d.sender seq).dag.dagId.withLinkId (d.linkLocal p).linkId).u8) = d.addr p := by
    rw [ipaddr_store, d.linkId_linkLocal, Dodag.addr, ← d.dagId]
    rfl
  simp only [Root.step, hbytes, hrun d.used rfl, processDao, CurrInstance.announced, haddr]

/-! ## The addresses -/

namespace Dodag

theorem addr_injective (d : Dodag ν) : Function.Injective d.addr := fun u v h => by
  have hid := congrArg Ipaddr.linkId h
  rw [addr, addr, Ipaddr.linkId_withLinkId, Ipaddr.linkId_withLinkId] at hid
  exact d.linkId_injective hid

theorem addr_root (d : Dodag ν) : d.addr d.root = d.sr.dagId := by
  rw [addr, d.linkId_root]
  exact Ipaddr.withLinkId_linkId rfl

/-- The addresses of the nodes. -/
def addrs (d : Dodag ν) : Finset Ipaddr := Finset.univ.image d.addr

theorem addr_mem (d : Dodag ν) (v : ν) : d.addr v ∈ d.addrs :=
  Finset.mem_image_of_mem _ (Finset.mem_univ v)

theorem card_addrs_le (d : Dodag ν) : d.addrs.card ≤ d.sr.linkNum :=
  Finset.card_image_le.trans d.room

theorem sameNetwork_addr (d : Dodag ν) (v : ν) : d.sr.dagId.SameNetwork (d.addr v) :=
  Ipaddr.sameNetwork_withLinkId

end Dodag

/-! ## What holds of the root -/

/-- The links are in order, and the root has a node that does not expire. -/
structure Root.Inv (d : Dodag ν) (r : Root) : Prop where
  orderly : Orderly d.sr d.graph d.addrs r.links
  root : ∃ l, r.links.getNode d.sr d.graph (some (d.addr d.root)) = some l ∧
    (r.links.mem l).lifetime = infiniteLifetime

/-- The node of `v` outlives the deadline, and its parent is the one in the tree. -/
def Fresh (d : Dodag ν) (t : RootedTree ν) (deadline : ℕ) (v : ν) (r : Root) : Prop :=
  ∃ l, r.links.getNode d.sr d.graph (some (d.addr v)) = some l ∧
    ((r.links.mem l).lifetime = infiniteLifetime ∨
      deadline < r.now + (r.links.mem l).lifetime) ∧
    (v ≠ d.root → ∃ k, r.links.getNode d.sr d.graph (some (d.addr (t.parent v))) = some k ∧
      r.links.parent l = some k)

/-- No node is its own parent, and the root sends no DAO. -/
def RootEvent.Proper (d : Dodag ν) : RootEvent ν → Prop
  | .dao v p _ _ => v ≠ d.root ∧ p ≠ v
  | .periodic _ => True

/-- A DAO names the parent in the tree and lasts until the deadline, which does not pass; only
No-Path DAOs may be about other parents. -/
def Agrees (d : Dodag ν) (t : RootedTree ν) (deadline : ℕ) (r : Root) : RootEvent ν → Prop
  | .dao v p _ lifetime => v ≠ d.root ∧ p ≠ v ∧
      if lifetime = 0 then p ≠ t.parent v
      else p = t.parent v ∧ (rplLifetime d.curr lifetime = infiniteLifetime ∨
        deadline < r.now + rplLifetime d.curr lifetime)
  | .periodic seconds => r.now + seconds ≤ deadline

/-- The event is a DAO of `v` for its parent. -/
def Reports (t : RootedTree ν) (e : RootEvent ν) (v : ν) : Prop :=
  ∃ seq lifetime, lifetime ≠ 0 ∧ e = .dao v (t.parent v) seq lifetime

theorem Agrees.proper {e : RootEvent ν} (h : Agrees d t deadline r e) : e.Proper d := by
  cases e with
  | dao v p seq lifetime => exact ⟨h.1, h.2.1⟩
  | periodic seconds => trivial

theorem Root.Inv.of_touches (h : r.Inv d) (horderly : Orderly d.sr d.graph d.addrs r'.links)
    (hv : v ≠ d.root) (htouch : Touches d.sr d.graph (d.addr v) r.links r'.links) : r'.Inv d := by
  obtain ⟨l, hl, hlife⟩ := h.root
  have hmem := htouch.mem (fun heq => hv (d.addr_injective heq).symm) hl
  exact ⟨horderly, l, htouch.node hl, hmem ▸ hlife⟩

theorem Root.Inv.step {e : RootEvent ν} (h : r.Inv d) (he : e.Proper d)
    (hs : Root.step d e r = some r') : r'.Inv d := by
  cases e with
  | dao v p seq lifetime =>
      obtain ⟨hv, hp⟩ := he
      have hne : d.addr p ≠ d.addr v := fun heq => hp (d.addr_injective heq)
      rw [step_dao] at hs
      obtain rfl := Option.some.inj hs
      by_cases hzero : lifetime = 0
      · simp only [hzero, if_true]
        obtain ⟨horderly, htouch⟩ := h.orderly.expireParent (d.addr v) (d.addr p)
        exact h.of_touches horderly hv htouch
      · simp only [if_neg hzero]
        obtain ⟨l, s', hcall, horderly, -, -, htouch, -⟩ := h.orderly.updateNode d.card_addrs_le
          (d.addr_mem v) (d.sameNetwork_addr v) (d.addr_mem p) (d.sameNetwork_addr p) hne
          (rplLifetime d.curr lifetime)
        rw [hcall]
        exact h.of_touches horderly hv htouch
  | periodic seconds =>
      obtain rfl := Option.some.inj hs
      obtain ⟨l, hl, hlife⟩ := h.root
      obtain ⟨hl', hlife'⟩ := h.orderly.sound.getNode_periodic seconds hl (hlife ▸ by decide)
      exact ⟨h.orderly.periodic seconds, l, hl', by rw [hlife', hlife, aged, if_pos rfl]⟩

theorem inv_boot (d : Dodag ν) : (Root.boot d).Inv d := by
  have hA : d.addrs.card ≤ d.sr.linkNum := d.card_addrs_le
  have hinit : Orderly d.sr d.graph d.addrs (State.init d.sr) :=
    ⟨sound_init, fun l hl => nomatch hl⟩
  have hmem : d.sr.dagId ∈ d.addrs := d.addr_root ▸ d.addr_mem d.root
  obtain ⟨l, t, hcall, horderly, hl, hlife, -, -⟩ :=
    hinit.updateChild hA hmem rfl none infiniteLifetime
  have hlinks : (Root.boot d).links = t.setParent d.sr d.graph d.sr.dagId none l := by
    have hboot : (Root.boot d).links = ((State.init d.sr).updateChild d.sr d.graph d.sr.dagId
        ((State.init d.sr).getNode d.sr d.graph (some d.sr.dagId)) none infiniteLifetime).2 := rfl
    rw [hboot, hcall]
  have hsame := sameNodes_setParent d.sr d.graph d.sr.dagId none l t
  have hext : Extends d.sr d.graph t (t.setParent d.sr d.graph d.sr.dagId none l) :=
    horderly.sound.extends_setParent hl nofun
  refine ⟨?_, l, ?_, ?_⟩
  · rw [hlinks]
    exact ⟨hext.sound, hsame.within horderly.within⟩
  · rw [hlinks, d.addr_root]
    exact (hsame.getNode _).trans hl
  · rw [hlinks, lifetime_setParent, hlife]

/-! ## The tree -/

theorem fresh_root (h : r.Inv d) : Fresh d t deadline d.root r := by
  obtain ⟨l, hl, hlife⟩ := h.root
  exact ⟨l, hl, .inl hlife, fun hne => absurd rfl hne⟩

/-- What is above a node that changes is still reached. -/
theorem reaches_of_level (hroot : t.root = d.root) (hinv : r.Inv d) {s : SourceRoute.State} {c : ν}
    (hc : c ≠ d.root) (hlevel : Level t.depth (Fresh d t deadline) (t.depth c) r)
    (htouch : Touches d.sr d.graph (d.addr c) r.links s) (hv : t.depth v < t.depth c) :
    s.Reaches d.sr d.graph (d.addr v) := by
  have hother : ∀ u, t.depth u < t.depth c → d.addr u ≠ d.addr c := fun u hu heq => by
    obtain rfl := d.addr_injective heq
    omega
  obtain ⟨x, hx, -⟩ := hinv.root
  have hx' := htouch.node hx
  rw [d.addr_root] at hx'
  induction hm : t.depth v using Nat.strong_induction_on generalizing v with
  | _ m ih =>
      obtain ⟨l, hl, -, hparent⟩ := hlevel v hv
      have hl' := htouch.node hl
      by_cases hvr : v = d.root
      · rw [hvr, d.addr_root] at hl' ⊢
        exact ⟨l, l, hl', hl', 0, rfl⟩
      · obtain ⟨k, hk, hlk⟩ := hparent hvr
        have hdepth := t.depth_parent (hroot ▸ hvr)
        obtain ⟨k', y, hk', hy, i, hi⟩ := ih _ (hm ▸ hdepth) (hdepth.trans hv) rfl
        obtain rfl := Option.some.inj ((htouch.node hk).symm.trans hk')
        refine ⟨l, y, hl', hy, i + 1, ?_⟩
        have hlk' : s.parent l = some k := by
          rw [State.parent, htouch.mem (hother v hv) hl]
          exact hlk
        rw [follow_succ, hlk']
        exact hi

/-- A change of another node leaves a node fresh. -/
theorem Fresh.of_touches (h : Fresh d t deadline u r) (hnow : r'.now = r.now) (hu : u ≠ v)
    (htouch : Touches d.sr d.graph (d.addr v) r.links r'.links) : Fresh d t deadline u r' := by
  obtain ⟨l, hl, hlife, hparent⟩ := h
  have hmem := htouch.mem (fun heq => hu (d.addr_injective heq)) hl
  refine ⟨l, htouch.node hl, ?_, fun hne => ?_⟩
  · rw [hmem, hnow]
    exact hlife
  · obtain ⟨k, hk, hlk⟩ := hparent hne
    refine ⟨k, htouch.node hk, ?_⟩
    rw [State.parent, hmem]
    exact hlk

/-- Time that does not pass the deadline leaves a node fresh. -/
theorem Fresh.periodic (h : Fresh d t deadline v r) (hinv : r.Inv d) {seconds : ℕ}
    (hnow : r.now + seconds ≤ deadline) :
    Fresh d t deadline v { links := r.links.periodic seconds, now := r.now + seconds } := by
  obtain ⟨l, hl, hlife, hpoints⟩ := h
  have hne : (r.links.mem l).lifetime ≠ 0 := by
    rintro hzero
    rw [hzero] at hlife
    rcases hlife with hinf | hlt
    · exact absurd hinf (by decide)
    · omega
  obtain ⟨hl', hlife'⟩ := hinv.orderly.sound.getNode_periodic seconds hl hne
  refine ⟨l, hl', ?_, fun hroot => ?_⟩
  · dsimp only
    rw [hlife', aged]
    rcases hlife with hinf | hlt
    · exact .inl (by rw [if_pos hinf, hinf])
    · split
      · next hinf => exact .inl hinf
      · exact .inr (by omega)
  · obtain ⟨k, hk, hlk⟩ := hpoints hroot
    exact ⟨k, hinv.orderly.sound.getNode_parent_periodic seconds (mem_of_getNode hl') hlk hk⟩

/-- A DAO of `v` for its parent leaves `v` fresh if the nodes above it are. -/
theorem fresh_report (hroot : t.root = d.root) (hinv : r.Inv d) (hv : v ≠ d.root)
    (hne : t.parent v ≠ v) (hlevel : Level t.depth (Fresh d t deadline) (t.depth v) r)
    {life : ℕ} (hlife : life = infiniteLifetime ∨ deadline < r.now + life) :
    Fresh d t deadline v
      { r with
        links := (r.links.updateNode d.sr d.graph (d.addr v) (some (d.addr (t.parent v)))
          life).2 } := by
  have haddr : d.addr (t.parent v) ≠ d.addr v := fun heq => hne (d.addr_injective heq)
  obtain ⟨l, s', hcall, -, hl, hl', -, hparent⟩ := hinv.orderly.updateNode d.card_addrs_le
    (d.addr_mem v) (d.sameNetwork_addr v) (d.addr_mem (t.parent v))
    (d.sameNetwork_addr (t.parent v)) haddr life
  rw [hcall]
  refine ⟨l, hl, ?_, fun _ => hparent fun s hs => ?_⟩
  · dsimp only
    rw [hl']
    exact hlife
  · exact reaches_of_level hroot hinv hv hlevel hs (t.depth_parent (hroot ▸ hv))

/-- The links settle from the root downwards. -/
theorem settling (d : Dodag ν) (t : RootedTree ν) (hroot : t.root = d.root) (deadline : ℕ) :
    Settling (Root.step d) (Agrees d t deadline) (Root.Inv d) t.depth (Fresh d t deadline)
      (Reports t) := by
  refine ⟨fun hinv hok hs => hinv.step hok.proper hs, ?_, ?_⟩
  · intro r e r' u hinv hok hs hlevel hu
    cases e with
    | dao v p seq lifetime =>
        obtain ⟨hv, hp, hagrees⟩ := hok
        rw [step_dao] at hs
        obtain rfl := Option.some.inj hs
        by_cases hzero : lifetime = 0
        · rw [if_pos hzero] at hagrees
          simp only [hzero, if_true]
          by_cases huv : u = v
          · -- the No-Path DAO is about another parent than the node has
            subst huv
            obtain ⟨l, hl, hlife, hparent⟩ := id hu
            obtain ⟨k, hk, hlk⟩ := hparent hv
            rw [expireParent_of_ne hl hk hlk fun heq => hagrees (d.addr_injective heq)]
            exact hu
          · exact hu.of_touches rfl huv (hinv.orderly.expireParent (d.addr v) (d.addr p)).2
        · rw [if_neg hzero] at hagrees
          obtain ⟨rfl, hlife⟩ := hagrees
          simp only [if_neg hzero]
          by_cases huv : u = v
          · subst huv
            exact fresh_report hroot hinv hv hp hlevel hlife
          · have haddr : d.addr (t.parent v) ≠ d.addr v := fun heq => hp (d.addr_injective heq)
            obtain ⟨l, s', hcall, -, -, -, htouch, -⟩ := hinv.orderly.updateNode d.card_addrs_le
              (d.addr_mem v) (d.sameNetwork_addr v) (d.addr_mem (t.parent v))
              (d.sameNetwork_addr (t.parent v)) haddr (rplLifetime d.curr lifetime)
            rw [hcall]
            exact hu.of_touches rfl huv htouch
    | periodic seconds =>
        obtain rfl := Option.some.inj hs
        exact hu.periodic hinv hok
  · rintro r e r' v hinv hok hs hlevel ⟨seq, lifetime, hzero, rfl⟩
    obtain ⟨hv, hp, hagrees⟩ := hok
    rw [if_neg hzero] at hagrees
    rw [step_dao, if_neg hzero] at hs
    obtain rfl := Option.some.inj hs
    exact fresh_report hroot hinv hv hp hlevel hagrees.2

/-! ## Packets -/

/-- The links are the tree. -/
def Settled (d : Dodag ν) (t : RootedTree ν) (r : Root) : Prop :=
  ∀ v, v ≠ d.root → ∃ l k, r.links.getNode d.sr d.graph (some (d.addr v)) = some l ∧
    r.links.getNode d.sr d.graph (some (d.addr (t.parent v))) = some k ∧
    r.links.parent l = some k

variable [DecidableEq ν]

/-- The nodes of the list lead along the path of the tree. -/
theorem exists_ascent_path (hroot : t.root = d.root) (h : Settled d t r)
    {x : ℕ} (hx : r.links.getNode d.sr d.graph (some d.sr.dagId) = some x) (hv : v ≠ d.root) :
    ∃ l up, r.links.getNode d.sr d.graph (some (d.addr v)) = some l ∧
      Ascent r.links x (l :: up) ∧
      (l :: up).map (r.links.nodeIpaddr d.sr) = (t.path v).map d.addr := by
  induction v using RootedTree.path.induct t with
  | case1 => exact absurd hroot hv
  | case2 v hne ih =>
      obtain ⟨l, k, hl, hk, hlk⟩ := h v hv
      have hlx : l ≠ x := by
        rintro rfl
        have heq := (nodeIpaddr_of_getNode hl).symm.trans (nodeIpaddr_of_getNode hx)
        rw [← d.addr_root] at heq
        exact hv (d.addr_injective heq)
      rw [t.path_of_ne hne, List.map_cons]
      by_cases hparent : t.parent v = d.root
      · rw [hparent, d.addr_root, hx] at hk
        obtain rfl := Option.some.inj hk
        refine ⟨l, [], hl, ⟨hlx, hlk⟩, ?_⟩
        rw [hparent, ← hroot, t.path_root, List.map_nil, List.map_singleton,
          nodeIpaddr_of_getNode hl]
      · obtain ⟨k', up, hk', hup, hpath⟩ := ih hparent
        obtain rfl := Option.some.inj (hk.symm.trans hk')
        refine ⟨l, k :: up, hl, ⟨hlx, hlk, hup⟩, ?_⟩
        rw [List.map_cons, hpath, nodeIpaddr_of_getNode hl]

theorem leads_of_ascent {s : SourceRoute.State} {l x : ℕ} {up : List ℕ}
    (h : Ascent s x (l :: up)) : Leads s.parent l x := by
  induction up generalizing l with
  | nil =>
      refine ⟨1, ?_⟩
      rw [follow_succ, h.2]
      rfl
  | cons k up ih =>
      obtain ⟨n, hn⟩ := ih h.2.2
      refine ⟨n + 1, ?_⟩
      rw [follow_succ, h.2.1]
      exact hn

/-- With the tree as its links, the root sends along the path of the tree, if the packet fits. -/
theorem delivers_of_settled (hroot : t.root = d.root) (hinv : r.Inv d) (h : Settled d t r)
    (bufSize : ℕ) {packet : Packet} (hv : v ≠ d.root) (hdest : packet.destipaddr = d.addr v)
    (hlen : iphLen ≤ packet.len) (hext : packet.extLen = 0) :
    ∃ l up, pathAddrs d.sr r.links (l :: up) = ((t.path v).map d.addr).reverse ∧
      (Delivers ⟨d.sr, bufSize⟩ d.graph r.links packet (l :: up) ↔
        FitsBuffer ⟨d.sr, bufSize⟩ r.links packet up) := by
  obtain ⟨x, hx, -⟩ := hinv.root
  rw [d.addr_root] at hx
  obtain ⟨l, up, hl, hup, hpath⟩ := exists_ascent_path hroot h hx hv
  have hlength : up.length < d.sr.linkNum := by
    have heq := congrArg List.length hpath
    rw [List.length_map, List.length_map, List.length_cons] at heq
    have hle := (t.length_path_le v).trans d.room
    omega
  have hreach : r.links.isAddrReachable d.sr d.graph (d.addr v) = true :=
    (hinv.orderly.sound.isAddrReachable_iff _).2 ⟨l, x, hl, hx, leads_of_ascent hup⟩
  refine ⟨l, up, ?_, ?_⟩
  · rw [pathAddrs, hpath]
  · rw [← hdest] at hl hreach
    exact delivers_iff_of_ascent hlen hext hl hx hreach hup hlength

omit [DecidableEq ν] in
theorem exists_run (d : Dodag ν) (es : List (RootEvent ν)) (r : Root) :
    ∃ r', run (Root.step d) es r = some r' := by
  induction es generalizing r with
  | nil => exact ⟨r, rfl⟩
  | cons e es ih =>
      have hstep : ∃ m, Root.step d e r = some m := by
        cases e with
        | dao v p seq lifetime => exact ⟨_, step_dao⟩
        | periodic seconds => exact ⟨_, rfl⟩
      obtain ⟨m, hm⟩ := hstep
      obtain ⟨r', hr'⟩ := ih m
      exact ⟨r', run_cons_eq_some.2 ⟨m, hm, hr'⟩⟩

/-- Whatever the root has been told before: after as many rounds as the tree is deep, in each of
which it hears a DAO of every node for its parent, its links are the tree, and a packet that fits
visits the nodes on the way to its destination. -/
theorem downwardRoutes_settle (d : Dodag ν) (t : RootedTree ν) (hroot : t.root = d.root)
    (earlier : List (RootEvent ν)) (rounds : List (List (RootEvent ν))) (deadline : ℕ) (r : Root)
    (hproper : ∀ e ∈ earlier, e.Proper d)
    (hearlier : run (Root.step d) earlier (Root.boot d) = some r)
    (hagrees : Meets (Root.step d) (Agrees d t deadline) rounds.flatten r)
    (hrounds : ∀ es ∈ rounds, ∀ v, v ≠ d.root → ∃ e ∈ es, Reports t e v)
    (hdepth : ∀ v, t.depth v ≤ rounds.length) :
    ∃ r', run (Root.step d) rounds.flatten r = some r' ∧ Settled d t r' ∧
      ∀ (bufSize : ℕ) (packet : Packet) (v : ν), v ≠ d.root → packet.destipaddr = d.addr v →
        iphLen ≤ packet.len → packet.extLen = 0 →
        ∃ l up, pathAddrs d.sr r'.links (l :: up) = ((t.path v).map d.addr).reverse ∧
          (Delivers ⟨d.sr, bufSize⟩ d.graph r'.links packet (l :: up) ↔
            FitsBuffer ⟨d.sr, bufSize⟩ r'.links packet up) := by
  have hinv : r.Inv d := run_invariant_of_mem (fun _ e _ he hI hs => hI.step (hproper e he) hs)
    (inv_boot d) hearlier
  obtain ⟨r', hr'⟩ := exists_run d rounds.flatten r
  have hsettling := settling d t hroot deadline
  have hinv' := hsettling.inv_run hinv hagrees hr'
  have hlevel : Level t.depth (Fresh d t deadline) (1 + rounds.length) r' := by
    refine hsettling.level_rounds hinv hagrees hr' (fun es hes v => ?_) fun v hv => ?_
    · by_cases hv : v = d.root
      · exact .inl fun s hs => hv ▸ fresh_root hs
      · exact .inr (hrounds es hes v hv)
    · rw [RootedTree.root_of_depth (Nat.lt_one_iff.1 hv), hroot]
      exact fresh_root hinv
  have hsettled : Settled d t r' := by
    intro v hv
    obtain ⟨l, hl, -, hparent⟩ := hlevel v (by have := hdepth v; omega)
    obtain ⟨k, hk, hlk⟩ := hparent hv
    exact ⟨l, k, hl, hk, hlk⟩
  exact ⟨r', hr', hsettled, fun bufSize packet v hv hdest hlen hext =>
    delivers_of_settled hroot hinv' hsettled bufSize hv hdest hlen hext⟩

/-! ## Two hops -/

/-- The identifier of the interface of a node. -/
def sampleLinkId (v : Fin 3) : LinkId where
  u8 := [2, 0, 0, 0, 0, 0, 0, UInt8.ofNat v]
  length_u8 := rfl

/-- The root and two nodes. -/
def sampleDodag : Dodag (Fin 3) where
  sr :=
    { linkNum := 3
      removalDelay := 60
      dagId := ⟨[0xfd, 0, 0, 0, 0, 0, 0, 0, 2, 0, 0, 0, 0, 0, 0, 0], rfl⟩ }
  graph := 0
  curr :=
    { used := true
      instanceId := 0
      defaultLifetime := 30
      mop := 1
      dag := { dagId := ⟨[0xfd, 0, 0, 0, 0, 0, 0, 0, 2, 0, 0, 0, 0, 0, 0, 0], rfl⟩ } }
  withDaoAck := true
  root := 0
  linkId := sampleLinkId
  linkLocal v := ⟨[0xfe, 0x80, 0, 0, 0, 0, 0, 0, 2, 0, 0, 0, 0, 0, 0, UInt8.ofNat v], rfl⟩
  linkId_injective := by decide
  linkId_linkLocal _ := rfl
  linkId_root := rfl
  used := rfl
  mop_ne := by decide
  dagId := rfl
  room := by decide

/-- A chain of two nodes below the root. -/
def sampleTree : RootedTree (Fin 3) where
  root := 0
  parent v := v - 1
  depth v := v
  depth_parent := by decide

/-- Both nodes report, the one below first. -/
def sampleRound (seq : UInt8) : List (RootEvent (Fin 3)) := [.dao 2 1 seq 255, .dao 1 0 seq 255]

/-- The nodes change their places, and report twice. -/
theorem downwardRoutes_settle_chain :
    ∃ r r', run (Root.step sampleDodag) [.dao 2 0 240 30, .dao 1 2 240 30] (Root.boot sampleDodag) =
        some r ∧
      run (Root.step sampleDodag) [sampleRound 241, sampleRound 242].flatten r = some r' ∧
      Settled sampleDodag sampleTree r' := by
  obtain ⟨r, hr⟩ := exists_run sampleDodag [.dao 2 0 240 30, .dao 1 2 240 30]
    (Root.boot sampleDodag)
  have hagrees : ∀ e ∈ [sampleRound 241, sampleRound 242].flatten, ∀ r,
      Agrees sampleDodag sampleTree 0 r e := by
    simp [sampleRound, Agrees, sampleDodag, sampleTree, rplLifetime]
  have hround : ∀ seq v, v ≠ (0 : Fin 3) → ∃ e ∈ sampleRound seq, Reports sampleTree e v := by
    intro seq v hv
    obtain rfl | rfl : v = 1 ∨ v = 2 := by
      revert v
      decide
    · exact ⟨.dao 1 0 seq 255, by simp [sampleRound], seq, 255, by decide, rfl⟩
    · exact ⟨.dao 2 1 seq 255, by simp [sampleRound], seq, 255, by decide, rfl⟩
  obtain ⟨r', hr', hsettled, -⟩ := downwardRoutes_settle sampleDodag sampleTree rfl
    [.dao 2 0 240 30, .dao 1 2 240 30] [sampleRound 241, sampleRound 242] 0 r
    (by simp [RootEvent.Proper, sampleDodag]) hr (meets_of_forall hagrees)
    (fun es hes v hv => by
      rcases List.mem_pair.1 hes with rfl | rfl
      · exact hround 241 v hv
      · exact hround 242 v hv)
    (by decide)
  exact ⟨r, r', hr, hr', hsettled⟩

end Den2ne.Rpl.Icmp6
