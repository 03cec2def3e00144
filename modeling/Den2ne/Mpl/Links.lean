import Den2ne.Mpl.Timers
import Den2ne.Pool.Owned
import Mathlib.Logic.Relation

/-!
# How the sets are linked

`Linked` is the invariant of the three sets: the messages and the lists of the seeds agree, a
seed that is in use belongs to a domain that is in use, and the count of a seed is the length of
its list modulo 256. No two seeds have the same id and domain, and no two domains the same data
address.

`Change` says what the functions of `mpl.c` do to the sets, one constructor for each way. It
depends on whether the scans of `buffer_reclaim` and `domain_set_free` take place, and on what
the messages that are inserted fulfil. The events are chains of such changes (`Mpl/Steps.lean`).
-/

namespace Den2ne.Mpl

/-- The three sets fit together. -/
structure Linked (cfg : Config) (s : State) : Prop where
  held : Pool.Held (· < cfg.bufferedMessageSetSize) (· < cfg.seedSetSize)
    (fun m => (s.msgs m).seed) (fun i => (s.seeds i).minSeq)
  unused : ∀ i < cfg.seedSetSize, (s.seeds i).domain = none → (s.seeds i).minSeq = []
  domain : ∀ i < cfg.seedSetSize, ∀ d, (s.seeds i).domain = some d →
    d < cfg.domainSetSize ∧ (s.domains d).isUsed
  count : ∀ i < cfg.seedSetSize, (s.seeds i).domain ≠ none →
    (s.seeds i).count = (s.seeds i).minSeq.length % 256
  seeds : ∀ i < cfg.seedSetSize, ∀ j < cfg.seedSetSize, ∀ d, (s.seeds i).domain = some d →
    (s.seeds j).domain = some d → (s.seeds i).seedId.id = (s.seeds j).seedId.id → i = j
  domains : DistinctDomains cfg s

/-- A change of the sets. `scans` allows the scans of the seed set that begin behind it; `fits`
is what holds for each message that is inserted, of the seed and the number that it was sent
with. -/
inductive Change (cfg : Config) (scans : Prop) (fits : State → ℕ → ℕ → Prop) (s : State) :
    State → Prop
  | same {s' : State} (h : SameSets cfg s s') : Change cfg scans fits s s'
  | scan (hscans : scans) (h : History) : Change cfg scans fits s { s with history := h }
  | behind (x : Seed) : Change cfg scans fits s (s.setSeed cfg.seedSetSize x)
  | newSeed {i d : ℕ} {seedId : SeedId} (hi : i < cfg.seedSetSize)
      (hfree : (s.seeds i).domain = none) (hd : d < cfg.domainSetSize)
      (hused : (s.domains d).isUsed)
      (hnew : ∀ j < cfg.seedSetSize, (s.seeds j).domain = some d →
        (s.seeds j).seedId.id ≠ seedId.id) :
      Change cfg scans fits s (s.setSeed i { Seed.zero with seedId := seedId, domain := some d })
  | insert {i m : ℕ} {x : Msg} (hi : i < cfg.seedSetSize) (hused : (s.seeds i).domain ≠ none)
      (hm : m < cfg.bufferedMessageSetSize) (hfree : (s.msgs m).seed = none)
      (hx : x.seed = some i) (hfits : fits s i x.sent) :
      Change cfg scans fits s ((s.setMsg m x).setSeed i
        ((s.seeds i).insert cfg (fun k => ((s.setMsg m x).msgs k).seq) m x.seq))
  | pop {i m minSeqno : ℕ} {rest : List ℕ} (hscans : scans) (hi : i < cfg.seedSetSize)
      (hlist : (s.seeds i).minSeq = m :: rest)
      (hmin : ∀ k ∈ rest.head?, minSeqno = (s.msgs k).seq) :
      Change cfg scans fits s ((s.setSeed i { s.seeds i with
        minSeq := rest
        minSeqno := minSeqno
        count := ((s.seeds i).count + 255) % 256 }).setMsg m Msg.zero)
  | freeSeed {i : ℕ} (hi : i < cfg.seedSetSize) : Change cfg scans fits s (seedSetFree i s)
  | lifetime (i lifetime : ℕ) :
      Change cfg scans fits s (s.setSeed i { s.seeds i with lifetime := lifetime })
  | freeDomain {d : ℕ} {x : Domain} (hscans : scans)
      (hno : ∀ i < cfg.seedSetSize, (s.seeds i).domain ≠ some d) (hx : ¬ x.isUsed) :
      Change cfg scans fits s (s.setDomain d x)

/-- A chain of changes. -/
abbrev Changes (cfg : Config) (scans : Prop) (fits : State → ℕ → ℕ → Prop) :
    State → State → Prop :=
  Relation.ReflTransGen (Change cfg scans fits)

section

variable {cfg : Config} {scans : Prop} {fits : State → ℕ → ℕ → Prop} {s s' : State} {i m : ℕ}

/-! ## Freeing the messages of a seed -/

theorem freeAll_seeds (ms : List ℕ) (s : State) : (freeAll ms s).seeds = s.seeds := by
  induction ms generalizing s with
  | nil => rfl
  | cons m ms ih => exact ih _

theorem freeAll_domains (ms : List ℕ) (s : State) : (freeAll ms s).domains = s.domains := by
  induction ms generalizing s with
  | nil => rfl
  | cons m ms ih => exact ih _

theorem freeAll_history (ms : List ℕ) (s : State) : (freeAll ms s).history = s.history := by
  induction ms generalizing s with
  | nil => rfl
  | cons m ms ih => exact ih _

theorem freeAll_of_not_mem {ms : List ℕ} (h : m ∉ ms) (s : State) :
    (freeAll ms s).msgs m = s.msgs m := by
  induction ms generalizing s with
  | nil => rfl
  | cons k ms ih =>
      rw [List.mem_cons, not_or] at h
      unfold freeAll
      rw [ih h.2]
      unfold bufferFree
      rw [State.setMsg_msgs, if_neg h.1]

theorem freeAll_of_mem {ms : List ℕ} (h : m ∈ ms) (s : State) :
    ((freeAll ms s).msgs m).seed = none := by
  induction ms generalizing s with
  | nil => cases h
  | cons k ms ih =>
      unfold freeAll
      by_cases hm : m ∈ ms
      · exact ih hm _
      · obtain rfl := (List.mem_cons.1 h).resolve_right hm
        rw [freeAll_of_not_mem hm]
        unfold bufferFree
        rw [State.setMsg_msgs, if_pos rfl]

/-! ## Inserting a message -/

/-- The loop places the message at one place behind the first message. -/
theorem insertMsg_split (seqOf : ℕ → ℕ) (m seq : ℕ) (ms : List ℕ) :
    ∃ l₁ l₂, ms = l₁ ++ l₂ ∧ insertMsg seqOf m seq ms = l₁ ++ m :: l₂ := by
  induction ms with
  | nil => exact ⟨[], [], rfl, rfl⟩
  | cons a ms ih =>
      cases ms with
      | nil => exact ⟨[a], [], rfl, rfl⟩
      | cons b rest =>
          unfold insertMsg
          split
          · exact ⟨[a], b :: rest, rfl, rfl⟩
          · obtain ⟨l₁, l₂, hsplit, heq⟩ := ih
            exact ⟨a :: l₁, l₂, by rw [hsplit]; rfl, by rw [heq]; rfl⟩

theorem insertMsg_perm (seqOf : ℕ → ℕ) (m seq : ℕ) (ms : List ℕ) :
    (insertMsg seqOf m seq ms).Perm (m :: ms) := by
  obtain ⟨l₁, l₂, hsplit, heq⟩ := insertMsg_split seqOf m seq ms
  rw [heq, hsplit]
  exact List.perm_middle

/-! ## What a change keeps -/

namespace Linked

/-- A message in the list of a seed is in use. -/
theorem seed_of_mem (h : Linked cfg s) (hi : i < cfg.seedSetSize)
    (hm : m ∈ (s.seeds i).minSeq) :
    m < cfg.bufferedMessageSetSize ∧ (s.msgs m).seed = some i :=
  h.held.cell i hi m hm

theorem sameSets (h : Linked cfg s) (hsame : SameSets cfg s s') : Linked cfg s' where
  held := h.held.congr (fun m _ => hsame.seed m) fun i _ => by rw [hsame.seeds]
  unused i hi := by
    rw [hsame.seeds]
    exact h.unused i hi
  domain i hi d hd := by
    rw [hsame.seeds] at hd
    obtain ⟨hlt, hused⟩ := h.domain i hi d hd
    exact ⟨hlt, hsame.used d hused⟩
  count i hi := by
    rw [hsame.seeds]
    exact h.count i hi
  seeds := by
    rw [hsame.seeds]
    exact h.seeds
  domains := hsame.distinct h.domains

theorem newSeed {d : ℕ} {seedId : SeedId} (h : Linked cfg s) (hi : i < cfg.seedSetSize)
    (hfree : (s.seeds i).domain = none) (hd : d < cfg.domainSetSize)
    (hused : (s.domains d).isUsed)
    (hnew : ∀ j < cfg.seedSetSize, (s.seeds j).domain = some d →
      (s.seeds j).seedId.id ≠ seedId.id) :
    Linked cfg (s.setSeed i { Seed.zero with seedId := seedId, domain := some d }) where
  held := h.held.congr (fun _ _ => rfl) fun j _ => by
    rw [State.setSeed_seeds]
    split
    · rename_i hji
      rw [hji, h.unused i hi hfree]
      rfl
    · rfl
  unused j hj hnone := by
    rw [State.setSeed_seeds] at hnone ⊢
    split
    · rfl
    · rename_i hji
      rw [if_neg hji] at hnone
      exact h.unused j hj hnone
  domain j hj d' hd' := by
    rw [State.setSeed_seeds] at hd'
    split at hd'
    · obtain rfl := Option.some.inj hd'
      exact ⟨hd, hused⟩
    · exact h.domain j hj d' hd'
  count j hj hne := by
    rw [State.setSeed_seeds] at hne ⊢
    split
    · rfl
    · rename_i hji
      rw [if_neg hji] at hne
      exact h.count j hj hne
  seeds j hj k hk d' hjd hkd hid := by
    rw [State.setSeed_seeds] at hjd hkd
    rw [State.setSeed_seeds, State.setSeed_seeds] at hid
    by_cases hji : j = i
    · by_cases hki : k = i
      · rw [hji, hki]
      · rw [if_pos hji] at hjd hid
        rw [if_neg hki] at hkd hid
        obtain rfl := Option.some.inj hjd
        exact absurd hid.symm (hnew k hk hkd)
    · rw [if_neg hji] at hjd hid
      by_cases hki : k = i
      · rw [if_pos hki] at hkd hid
        obtain rfl := Option.some.inj hkd
        exact absurd hid (hnew j hj hjd)
      · rw [if_neg hki] at hkd hid
        exact h.seeds j hj k hk d' hjd hkd hid
  domains := ⟨h.domains.ctrl, h.domains.unique⟩

/-- A change of one seed, which keeps its id and its domain or is freed, and of the owners of
the messages. -/
theorem setList {x : Seed} (h : Linked cfg s) (hdomains : s'.domains = s.domains)
    (hseeds : ∀ j, s'.seeds j = if j = i then x else s.seeds j)
    (hdomain : ∀ d, x.domain = some d → (s.seeds i).domain = some d)
    (hid : x.seedId = (s.seeds i).seedId)
    (hcount : i < cfg.seedSetSize → x.domain ≠ none → x.count = x.minSeq.length % 256)
    (hlist : i < cfg.seedSetSize → x.domain = none → x.minSeq = [])
    (hheld : Pool.Held (· < cfg.bufferedMessageSetSize) (· < cfg.seedSetSize)
      (fun m => (s'.msgs m).seed) (fun i => (s'.seeds i).minSeq)) : Linked cfg s' := by
  have hdom : ∀ j d, (s'.seeds j).domain = some d → (s.seeds j).domain = some d := fun j d hd => by
    rw [hseeds] at hd
    split at hd
    · rename_i hji
      rw [hji]
      exact hdomain d hd
    · exact hd
  have hids : ∀ j, (s'.seeds j).seedId = (s.seeds j).seedId := fun j => by
    rw [hseeds]
    split
    · rename_i hji
      rw [hji, hid]
    · rfl
  refine ⟨hheld, fun j hj hnone => ?_, fun j hj d hd => ?_, fun j hj hne => ?_,
    fun j hj k hk d hjd hkd hjk => ?_, ?_⟩
  · rw [hseeds] at hnone ⊢
    split
    · rename_i hji
      rw [if_pos hji] at hnone
      exact hlist (hji ▸ hj) hnone
    · rename_i hji
      rw [if_neg hji] at hnone
      exact h.unused j hj hnone
  · rw [hdomains]
    exact h.domain j hj d (hdom j d hd)
  · rw [hseeds] at hne ⊢
    split
    · rename_i hji
      rw [if_pos hji] at hne
      exact hcount (hji ▸ hj) hne
    · rename_i hji
      rw [if_neg hji] at hne
      exact h.count j hj hne
  · rw [hids, hids] at hjk
    exact h.seeds j hj k hk d (hdom j d hjd) (hdom k d hkd) hjk
  · exact ⟨by rw [hdomains]; exact h.domains.ctrl, by rw [hdomains]; exact h.domains.unique⟩

theorem behind (h : Linked cfg s) (x : Seed) : Linked cfg (s.setSeed cfg.seedSetSize x) := by
  have hseeds : ∀ j < cfg.seedSetSize,
      (s.setSeed cfg.seedSetSize x).seeds j = s.seeds j := fun j hj => by
    rw [State.setSeed_seeds, if_neg (Nat.ne_of_lt hj)]
  refine ⟨h.held.congr (fun _ _ => rfl) fun j hj => by rw [hseeds j hj], fun j hj => ?_,
    fun j hj => ?_, fun j hj => ?_, fun j hj k hk => ?_, ⟨h.domains.ctrl, h.domains.unique⟩⟩
  · rw [hseeds j hj]
    exact h.unused j hj
  · rw [hseeds j hj]
    exact h.domain j hj
  · rw [hseeds j hj]
    exact h.count j hj
  · rw [hseeds j hj, hseeds k hk]
    exact h.seeds j hj k hk

theorem insert {x : Msg} (h : Linked cfg s) (hi : i < cfg.seedSetSize)
    (hused : (s.seeds i).domain ≠ none) (hm : m < cfg.bufferedMessageSetSize)
    (hfree : (s.msgs m).seed = none) (hx : x.seed = some i) (seqOf : ℕ → ℕ) :
    Linked cfg ((s.setMsg m x).setSeed i ((s.seeds i).insert cfg seqOf m x.seq)) := by
  have hperm := insertMsg_perm seqOf m x.seq (s.seeds i).minSeq
  refine h.setList rfl (fun j => State.setSeed_seeds ..) (fun d hd => hd) rfl ?_
    (fun _ hnone => absurd hnone hused) ?_
  · intro _ _
    have hcount := h.count i hi hused
    have hlength := hperm.length_eq
    rw [List.length_cons] at hlength
    unfold Seed.insert
    dsimp only
    omega
  · refine h.held.give hm hi hfree (i := i) ?_ (fun k hk => ?_) ?_ fun j hj => ?_
    · rw [State.setSeed_msgs, State.setMsg_msgs, if_pos rfl, hx]
    · rw [State.setSeed_msgs, State.setMsg_msgs, if_neg hk]
    · rw [State.setSeed_seeds, if_pos rfl]
      exact hperm
    · rw [State.setSeed_seeds, if_neg hj, State.setMsg_seeds]

theorem pop {minSeqno : ℕ} {rest : List ℕ} (h : Linked cfg s) (hi : i < cfg.seedSetSize)
    (hlist : (s.seeds i).minSeq = m :: rest) :
    Linked cfg ((s.setSeed i { s.seeds i with
      minSeq := rest
      minSeqno := minSeqno
      count := ((s.seeds i).count + 255) % 256 }).setMsg m Msg.zero) := by
  have hused : (s.seeds i).domain ≠ none := fun hnone => by
    rw [h.unused i hi hnone] at hlist
    cases hlist
  refine h.setList rfl (fun j => State.setSeed_seeds ..) (fun d hd => hd) rfl ?_
    (fun _ hnone => absurd hnone hused) ?_
  · intro _ _
    have hcount := h.count i hi hused
    rw [hlist, List.length_cons] at hcount
    dsimp only
    omega
  · refine Pool.Held.release [m] rest h.held hi hlist ?_ ?_ ?_ fun j hj => ?_
    · intro k hk
      rw [List.mem_singleton.1 hk, State.setMsg_msgs, if_pos rfl]
      rfl
    · intro k hk
      rw [List.mem_singleton] at hk
      rw [State.setMsg_msgs, if_neg hk, State.setSeed_msgs]
    · rw [State.setMsg_seeds, State.setSeed_seeds, if_pos rfl]
    · rw [State.setMsg_seeds, State.setSeed_seeds, if_neg hj]

theorem freeSeed (h : Linked cfg s) (hi : i < cfg.seedSetSize) :
    Linked cfg (seedSetFree i s) := by
  unfold seedSetFree
  refine h.setList (x := { s.seeds i with minSeq := [], domain := none })
    (freeAll_domains _ s) (fun j => ?_) (fun d hd => by cases hd) rfl
    (fun _ hne => absurd rfl hne) (fun _ _ => rfl) ?_
  · rw [State.setSeed_seeds, freeAll_seeds]
  · refine Pool.Held.release (s.seeds i).minSeq [] h.held hi (List.append_nil _).symm
      (fun k hk => ?_) (fun k hk => ?_) ?_ fun j hj => ?_
    · rw [State.setSeed_msgs]
      exact freeAll_of_mem hk s
    · rw [State.setSeed_msgs, freeAll_of_not_mem hk]
    · rw [State.setSeed_seeds, if_pos rfl]
    · rw [State.setSeed_seeds, if_neg hj, freeAll_seeds]

theorem freeDomain {d : ℕ} {x : Domain} (h : Linked cfg s)
    (hno : ∀ i < cfg.seedSetSize, (s.seeds i).domain ≠ some d) (hx : ¬ x.isUsed) :
    Linked cfg (s.setDomain d x) := by
  have hold : ∀ k, ((s.setDomain d x).domains k).isUsed →
      (s.setDomain d x).domains k = s.domains k ∧ (s.domains k).isUsed := fun k hk => by
    rw [State.setDomain_domains] at hk ⊢
    split at hk
    · exact absurd hk hx
    · rename_i hkd
      exact ⟨if_neg hkd, hk⟩
  refine ⟨h.held, h.unused, fun i hi k hk => ?_, h.count, h.seeds, fun k hk hused => ?_,
    fun k hk k' hk' hused hused' heq => ?_⟩
  · obtain ⟨hlt, hused⟩ := h.domain i hi k hk
    refine ⟨hlt, ?_⟩
    rw [State.setDomain_domains, if_neg]
    · exact hused
    · exact fun hkd => hno i hi (hkd ▸ hk)
  · obtain ⟨heq, hs⟩ := hold k hused
    rw [heq]
    exact h.domains.ctrl k hk hs
  · obtain ⟨hk₁, hs⟩ := hold k hused
    obtain ⟨hk₂, hs'⟩ := hold k' hused'
    rw [hk₁, hk₂] at heq
    exact h.domains.unique k hk k' hk' hs hs' heq

theorem change (h : Linked cfg s) (hchange : Change cfg scans fits s s') : Linked cfg s' := by
  cases hchange with
  | same hsame => exact h.sameSets hsame
  | scan hscans hist =>
      exact ⟨h.held, h.unused, h.domain, h.count, h.seeds, h.domains.ctrl, h.domains.unique⟩
  | behind x => exact h.behind x
  | newSeed hi hfree hd hused hnew => exact h.newSeed hi hfree hd hused hnew
  | insert hi hused hm hfree hx hfits => exact h.insert hi hused hm hfree hx _
  | pop hscans hi hlist hmin => exact h.pop hi hlist
  | freeSeed hi => exact h.freeSeed hi
  | lifetime i lifetime =>
      refine h.setList rfl (fun j => State.setSeed_seeds ..) (fun d hd => hd) rfl
        (fun hi => h.count i hi) (fun hi => h.unused i hi) (h.held.congr (fun _ _ => rfl)
          fun j _ => ?_)
      rw [State.setSeed_seeds]
      split
      · rename_i hji
        rw [hji]
      · rfl
  | freeDomain hscans hno hx => exact h.freeDomain hno hx

/-- The invariant is kept by every chain of changes. -/
theorem changes (h : Linked cfg s) (hchanges : Changes cfg scans fits s s') : Linked cfg s' := by
  induction hchanges with
  | refl => exact h
  | tail _ hchange ih => exact ih.change hchange

end Linked

end

end Den2ne.Mpl
