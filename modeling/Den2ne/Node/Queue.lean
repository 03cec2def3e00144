import Den2ne.Node.Outgrowth

/-!
# What the queue and the MAC get

`Grows` says that a node has only appended to its queue and to what it passed
to the MAC, and what: the queue gets SetHLMACs, and in the unicast build LOAD
and SHARE; the MAC gets Hellos for everybody, and in the broadcast build LOAD
and SHARE. Only the send timer takes something off the queue.
-/

namespace Den2ne

variable {α : Type*} [DecidableEq α] (cfg : Config α)

/-- What may stand in the queue. -/
def Queueable (e : PayloadEntry α) : Prop :=
  (∃ timestamp hlmacPrefix assigned, e.payload = .sethlmac timestamp hlmacPrefix assigned ∧
    (cfg.hlmacCast = .broadcast → e.dest = cfg.linkaddrNull) ∧
    (cfg.hlmacCast = .unicast → ∃ id, assigned = [(id, e.dest)])) ∨
  (cfg.hlmacCast = .unicast ∧ e.payload.Upward)

/-- What a handler other than the send timer may pass to the MAC. -/
def Postable (e : PayloadEntry α) : Prop :=
  (e.payload = .hello ∧ e.dest = cfg.linkaddrNull) ∨
  (cfg.hlmacCast = .broadcast ∧ e.payload.Upward)

/-- `n'` has sent more than `n`, and in the unicast build armed no statistic timer. -/
structure Grows (n n' : Node α) : Prop where
  queue : ∃ q, n'.payloadEntryList = n.payloadEntryList ++ q ∧ ∀ e ∈ q, Queueable cfg e
  mac : ∃ m, n'.macOut = n.macOut ++ m ∧ ∀ e ∈ m, Postable cfg e
  statistic : cfg.hlmacCast = .unicast → n'.statisticTimer = n.statisticTimer

variable {cfg} {n n' : Node α}

section

omit [DecidableEq α]

theorem Grows.of_same (h : n.SameOut cfg n') : Grows cfg n n' :=
  ⟨⟨[], by simp [h.queue], by simp⟩, ⟨[], by simp [h.mac], by simp⟩, h.statistic⟩

theorem Grows.trans {m : Node α} (h₁ : Grows cfg n m) (h₂ : Grows cfg m n') : Grows cfg n n' := by
  obtain ⟨⟨q₁, hq₁, hQ₁⟩, ⟨m₁, hm₁, hM₁⟩, ht₁⟩ := h₁
  obtain ⟨⟨q₂, hq₂, hQ₂⟩, ⟨m₂, hm₂, hM₂⟩, ht₂⟩ := h₂
  refine ⟨⟨q₁ ++ q₂, by rw [hq₂, hq₁, List.append_assoc], ?_⟩,
    ⟨m₁ ++ m₂, by rw [hm₂, hm₁, List.append_assoc], ?_⟩, fun hu => (ht₂ hu).trans (ht₁ hu)⟩
  · intro e he
    rcases List.mem_append.1 he with he | he
    · exact hQ₁ e he
    · exact hQ₂ e he
  · intro e he
    rcases List.mem_append.1 he with he | he
    · exact hM₁ e he
    · exact hM₂ e he

theorem Grows.send {es : List (PayloadEntry α)} (hes : ∀ e ∈ es, e.payload.Upward) :
    Grows cfg n (n.send cfg es) := by
  rw [Node.send_eq]
  refine ⟨⟨_, rfl, ?_⟩, ⟨_, rfl, ?_⟩, fun _ => rfl⟩
  · unfold Node.queued
    split
    · simp
    · exact fun e he => .inr ⟨by assumption, hes e he⟩
  · unfold Node.posted
    split
    · exact fun e he => .inr ⟨by assumption, hes e he⟩
    · simp

theorem Grows.advertise (n : Node α) {t : NeighbourTable α} {addr : HlmacAddr} {sender : α}
    {timestamp : ℕ} {es : List (PayloadEntry α)}
    (hadvert : ∀ e ∈ es, Advert cfg t addr sender timestamp e) :
    Grows cfg n (es.foldl Node.enqueue n) := by
  rw [Node.foldl_enqueue]
  refine ⟨⟨es, rfl, fun e he => ?_⟩, ⟨[], by simp, by simp⟩, fun _ => rfl⟩
  obtain ⟨-, -, hb, hu, assigned, hp, -⟩ := hadvert e he
  refine .inl ⟨timestamp, addr.ids, assigned, hp, hb, fun hunicast => ?_⟩
  obtain ⟨id, hid⟩ := hu hunicast
  rw [hp, Payload.sethlmac.injEq] at hid
  exact ⟨id, hid.2.2⟩

theorem Grows.hello (n : Node α) :
    Grows cfg n (n.preparePackets [⟨.hello, cfg.linkaddrNull, n.round cfg⟩]) := by
  refine ⟨⟨[], by simp [Node.preparePackets], by simp⟩, ⟨_, rfl, ?_⟩, fun _ => rfl⟩
  intro e he
  obtain rfl := List.mem_singleton.1 he
  exact .inl ⟨rfl, rfl⟩

theorem outgrowth_grows : Outgrowth cfg (Grows cfg) :=
  ⟨Grows.of_same, Grows.trans, Grows.send, Grows.advertise, Grows.hello⟩

end

/-- Every event but the expiry of the send timer makes the node grow. -/
theorem grows_step {env : Env α} {e : Event α} (he : ∀ csma, e ≠ .timer (.sendMessage csma))
    (h : Node.step cfg env e n = some n') (hidle : cfg.hlmacCast = .unicast →
      n.statisticTimer = false) : Grows cfg n n' :=
  outgrowth_grows.step he h
    ⟨⟨[], by simp, by simp⟩, ⟨[], by simp, by simp⟩, fun hunicast => (hidle hunicast).symm⟩

/-- The queue holds only what may stand there, and in the unicast build no
statistic timer is armed. -/
structure Tidy (cfg : Config α) (n : Node α) : Prop where
  queue : ∀ e ∈ n.payloadEntryList, Queueable cfg e
  statistic : cfg.hlmacCast = .unicast → n.statisticTimer = false

section

omit [DecidableEq α]

theorem tidy_boot : Tidy cfg (Node.boot : Node α) := ⟨nofun, fun _ => rfl⟩

theorem Queueable.payload_ne_hello {e : PayloadEntry α} (h : Queueable cfg e) :
    e.payload ≠ .hello := by
  rcases h with ⟨timestamp, hlmacPrefix, assigned, hp, -⟩ | ⟨-, hup⟩
  · rw [hp]
    exact nofun
  · intro hp
    rw [hp] at hup
    exact hup

end

/-- An event keeps the node tidy, and a Hello goes to everybody. -/
theorem Tidy.step {env : Env α} {e : Event α} (ht : Tidy cfg n) (hidle : n.macOut = [])
    (h : Node.step cfg env e n = some n') :
    Tidy cfg n' ∧ ∀ x ∈ n'.macOut, x.payload = .hello → x.dest = cfg.linkaddrNull := by
  by_cases hsend : ∃ csma, e = .timer (.sendMessage csma)
  · obtain ⟨csma, rfl⟩ := hsend
    simp only [Node.step, Node.expire, Option.ite_none_right_eq_some] at h
    obtain ⟨-, h⟩ := h
    unfold iotoriiHandleSendMessageTimer at h
    split at h
    · cases h
    · rename_i entry rest hqueue
      have hq : ∀ x ∈ entry :: rest, Queueable cfg x := fun x hx => ht.queue x (hqueue ▸ hx)
      have hne := (hq entry List.mem_cons_self).payload_ne_hello
      split at h
      · obtain rfl := Option.some.inj h
        refine ⟨⟨fun x hx => hq x (List.mem_cons_of_mem _ hx), ht.statistic⟩, ?_⟩
        intro x hx hhello
        dsimp only at hx
        rw [hidle] at hx
        split at hx
        · cases hx
        · obtain rfl := List.mem_singleton.1 hx
          exact absurd hhello hne
      · have hmac : ∀ x ∈ n.macOut ++ [entry], x.payload = .hello → x.dest = cfg.linkaddrNull := by
          intro x hx hhello
          rw [hidle, List.nil_append, List.mem_singleton] at hx
          exact absurd (hx ▸ hhello) hne
        split at h
        · obtain rfl := Option.some.inj h
          exact ⟨⟨fun x hx => hq x (List.mem_cons_of_mem _ hx), ht.statistic⟩, hmac⟩
        · obtain rfl := Option.some.inj h
          exact ⟨⟨ht.queue, ht.statistic⟩, hmac⟩
        · obtain rfl := Option.some.inj h
          exact ⟨⟨ht.queue, ht.statistic⟩,
            fun x hx => hmac x (List.mem_append_left _ hx)⟩
  · obtain ⟨⟨q, hq, hQ⟩, ⟨m, hm, hM⟩, hs⟩ :=
      grows_step (fun csma hc => hsend ⟨csma, hc⟩) h ht.statistic
    refine ⟨⟨?_, fun hu => (hs hu).trans (ht.statistic hu)⟩, ?_⟩
    · intro x hx
      rw [hq] at hx
      rcases List.mem_append.1 hx with hx | hx
      · exact ht.queue x hx
      · exact hQ x hx
    · intro x hx hhello
      rw [hm, hidle, List.nil_append] at hx
      rcases hM x hx with ⟨-, hdest⟩ | ⟨-, hup⟩
      · exact hdest
      · rw [hhello] at hup
        exact absurd hup id

end Den2ne
