import AgentSupervisor.Proofs.InboxStore

/-!
# Runs of calls on an inbox

Calls one after the other, at any times and whatever locks others hold.

* `InboxStore.events_run`      : a run on a disk is a run of the queue;
* `Queue.Runs.acked_stays`     : what keeps an acknowledged message away;
* `InboxStore.acked_returns_only_after_prune` : when an acknowledged message can come back;
* `InboxStore.acked_returns`   : that it can.
-/

namespace AgentSupervisor

open Utf8 (encodeChars)

/-- A call and what it is told. -/
abbrev InboxEvent := InboxCall × Except InboxError InboxAnswer

/-! ## Runs of a queue -/

namespace Queue

/-- What one call does to the queue. One that fails leaves it as it is. -/
inductive Step : Queue → InboxEvent → Queue → Prop where
  | failed (q : Queue) (call : InboxCall) (e : InboxError) : Step q (call, .error e) q
  | answered (q : Queue) (call : InboxCall) (now : Nat) :
      Step q (call, .ok (q.answer now call).1) (q.answer now call).2

/-- What calls one after the other do to the queue. -/
inductive Runs : Queue → List InboxEvent → Queue → Prop where
  | nil (q : Queue) : Runs q [] q
  | cons {q q' q'' : Queue} {e : InboxEvent} {es : List InboxEvent} (h : Step q e q')
      (hs : Runs q' es q'') : Runs q (e :: es) q''

theorem Runs.append_inv {q r : Queue} {es fs : List InboxEvent} (h : Runs q (es ++ fs) r) :
    ∃ q', Runs q es q' ∧ Runs q' fs r := by
  induction es generalizing q with
  | nil => exact ⟨q, .nil q, h⟩
  | cons e es ih =>
    cases h with
    | cons h hs =>
      obtain ⟨q', h1, h2⟩ := ih hs
      exact ⟨q', .cons h h1, h2⟩

/-- A message is enqueued after pruning dropped something. -/
def Retried (m : Message) (es : List InboxEvent) : Prop :=
  ∃ a b c maxAge n, 0 < n ∧
    es = a ++ (.prune maxAge, .ok (.pruned n)) :: (b ++ (.enqueue m, .ok (.enqueued m.id)) :: c)

/-- Pruning drops something. -/
def Pruned (es : List InboxEvent) : Prop :=
  ∃ a b maxAge n, 0 < n ∧ es = a ++ (.prune maxAge, .ok (.pruned n)) :: b

theorem Retried.concat {m : Message} {es : List InboxEvent} (h : Retried m es) (e : InboxEvent) :
    Retried m (es ++ [e]) := by
  obtain ⟨a, b, c, maxAge, n, hn, rfl⟩ := h
  exact ⟨a, b, c ++ [e], maxAge, n, hn, by simp⟩

theorem Pruned.concat {es : List InboxEvent} (h : Pruned es) (e : InboxEvent) :
    Pruned (es ++ [e]) := by
  obtain ⟨a, b, maxAge, n, hn, rfl⟩ := h
  exact ⟨a, b ++ [e], maxAge, n, hn, by simp⟩

theorem Pruned.retried {es : List InboxEvent} (h : Pruned es) (m : Message) :
    Retried m (es ++ [(.enqueue m, .ok (.enqueued m.id))]) := by
  obtain ⟨a, b, maxAge, n, hn, rfl⟩ := h
  exact ⟨a, b, [], maxAge, n, hn, by simp⟩

/-- Since its acknowledgement an identity is still acknowledged, or pruning has dropped something
    and all its messages were enqueued after that. -/
def Away (id : MessageId) (q : Queue) (es : List InboxEvent) : Prop :=
  id ∈ q.acked ∨ Pruned es ∧ ∀ m ∈ q.messages, m.id = id → Retried m es

theorem Away.same {id : MessageId} {q : Queue} {es : List InboxEvent} (h : Away id q es)
    (e : InboxEvent) : Away id q (es ++ [e]) := by
  rcases h with h | ⟨hp, hm⟩
  · exact .inl h
  · exact .inr ⟨hp.concat e, fun m hmem hid => (hm m hmem hid).concat e⟩

/-- One call keeps an acknowledged identity away. -/
theorem Away.step {id : MessageId} {q q' : Queue} {es : List InboxEvent} {e : InboxEvent}
    (h : Away id q es) (hs : Step q e q') : Away id q' (es ++ [e]) := by
  cases hs with
  | failed call e => exact h.same _
  | answered call now =>
    cases call with
    | enqueue m =>
      show Away id (q.enqueue m) _
      by_cases hk : q.Knows m.id
      · rw [enqueue, if_pos hk]
        exact h.same _
      · rw [enqueue, if_neg hk]
        rcases h with h | ⟨hp, hm⟩
        · exact .inl h
        · refine .inr ⟨hp.concat _, fun n hn hid => ?_⟩
          rcases List.mem_append.mp hn with hn | hn
          · exact (hm n hn hid).concat _
          · rw [List.mem_singleton.mp hn]
            exact hp.retried m
    | poll => exact h.same _
    | acknowledge id' =>
      by_cases hk : q.Knows id'
      · simp only [answer, if_pos hk]
        rcases h.same (.acknowledge id', .ok .acknowledged) with h | h
        · exact .inl (Finset.mem_insert_of_mem h)
        · exact .inr h
      · simp only [answer, if_neg hk]
        exact h.same _
    | prune maxAge =>
      simp only [answer]
      generalize hage : maxAge % 2 ^ 64 = age
      by_cases hall : q.stale now age = 0
      · rw [prune, if_pos hall]
        exact h.same _
      · rw [prune, if_neg hall]
        -- pruning forgets acknowledgements, and drops every acknowledged message
        refine .inr ⟨⟨es, [], maxAge, _, Nat.pos_of_ne_zero hall, rfl⟩, fun m hm hid => ?_⟩
        obtain ⟨hmem, hlasts⟩ := List.mem_filter.mp hm
        rcases h with h | ⟨-, hm⟩
        · exact absurd (hid ▸ h) (of_decide_eq_true hlasts).1
        · exact (hm m hmem hid).concat _

theorem Runs.away {id : MessageId} {q q' : Queue} {es fs : List InboxEvent} (h : Runs q fs q')
    (ha : Away id q es) : Away id q' (es ++ fs) := by
  induction h generalizing es with
  | nil => rwa [List.append_nil]
  | @cons q q' q'' e fs hs _ ih =>
    have := ih (ha.step hs)
    rwa [List.append_assoc] at this

/-- **What keeps an acknowledged message away.** -/
theorem Runs.acked_stays {id : MessageId} {q r : Queue} {before mid after : List InboxEvent}
    {ms : List Message}
    (h : Runs q (before ++ (.acknowledge id, .ok .acknowledged) ::
      (mid ++ (.poll, .ok (.pending ms)) :: after)) r)
    {m : Message} (hm : m ∈ ms) (hid : m.id = id) : Retried m mid := by
  obtain ⟨q₁, -, h⟩ := h.append_inv
  cases h with
  | @cons _ q₂ _ _ _ hack h =>
    obtain ⟨q₃, hmid, h⟩ := h.append_inv
    cases h with
    | cons hpoll _ =>
      have hacked : id ∈ q₂.acked := by
        generalize he : ((.acknowledge id, .ok .acknowledged) : InboxEvent) = e at hack
        cases hack with
        | failed => cases he
        | answered call now =>
          cases (Prod.mk.inj he).1
          by_cases hk : q₁.Knows id
          · simp only [answer, if_pos hk]
            exact Finset.mem_insert_self id _
          · simp only [answer, if_neg hk] at he
            cases he
      have haway : Away id q₃ ([] ++ mid) := hmid.away (.inl hacked)
      have hms : ms = q₃.pending := by
        generalize he : ((.poll, .ok (.pending ms)) : InboxEvent) = e at hpoll
        cases hpoll with
        | failed => cases he
        | answered call now => cases (Prod.mk.inj he).1; cases he; rfl
      rw [hms] at hm
      obtain ⟨hmem, hpending⟩ := List.mem_filter.mp hm
      rcases haway with hin | ⟨-, hall⟩
      · exact absurd (hid ▸ hin) (of_decide_eq_true hpending)
      · exact hall m hmem hid

end Queue

/-! ## Runs on a disk -/

/-- A call in a run, the time, and the locks that others hold. -/
structure Turn where
  call : InboxCall
  now : Nat
  holds : List Hold := []

namespace InboxStore

variable {s : InboxStore} {disk : Disk} {inbox : InboxId} {text : List Char}

/-- Make the call of a turn. -/
def turn (s : InboxStore) (inbox : InboxId) (disk : Disk) (t : Turn) :
    Except InboxError InboxAnswer × Storage :=
  s.perform inbox { disk, holds := t.holds, now := t.now } t.call

/-- The calls of a run with what they are told. -/
def events (s : InboxStore) (inbox : InboxId) : Disk → List Turn → List InboxEvent
  | _, [] => []
  | disk, t :: ts =>
    (t.call, (s.turn inbox disk t).1) :: s.events inbox (s.turn inbox disk t).2.disk ts

/-- **A run on a disk is a run of the queue.** -/
theorem events_run (h : s.Holds disk inbox (encodeChars text)) {ts : List Turn}
    (hon : ∀ t ∈ ts, t.call.On inbox) :
    ∃ q, Queue.Runs (Queue.ofLog text) (s.events inbox disk ts) q := by
  induction ts generalizing disk text with
  | nil => exact ⟨_, .nil _⟩
  | cons t ts ih =>
    have hst : s.Holds ({ disk, holds := t.holds, now := t.now } : Storage).disk inbox
        (encodeChars text) := h
    obtain ⟨text', hlog, href⟩ := perform_refines hst t.call (hon t (by simp))
    obtain ⟨q, hq⟩ := ih hlog fun t' ht' => hon t' (List.mem_cons_of_mem _ ht')
    refine ⟨q, .cons ?_ hq⟩
    rw [turn]
    generalize s.perform inbox _ t.call = r at href
    cases href with
    | tooLong e _ _ => exact .failed _ _ _
    | locked _ _ => exact .failed _ _ _
    | answered a st' _ ha _ =>
      obtain ⟨ha, hq⟩ := Prod.mk.inj ha
      rw [ha, hq]
      exact .answered _ _ _

/-- **An acknowledged message comes back only when it is enqueued again after pruning dropped
    something.** -/
theorem acked_returns_only_after_prune (h : s.Holds disk inbox (encodeChars text))
    {ts : List Turn} (hon : ∀ t ∈ ts, t.call.On inbox) {before mid after : List InboxEvent}
    {id : MessageId} {ms : List Message}
    (hev : s.events inbox disk ts = before ++ (.acknowledge id, .ok .acknowledged) ::
      (mid ++ (.poll, .ok (.pending ms)) :: after))
    {m : Message} (hm : m ∈ ms) (hid : m.id = id) :
    ∃ a b c maxAge n, 0 < n ∧ mid = a ++ (.prune maxAge, .ok (.pruned n)) ::
      (b ++ (.enqueue m, .ok (.enqueued id)) :: c) := by
  obtain ⟨q, hq⟩ := events_run h hon
  rw [hev] at hq
  have := hq.acked_stays hm hid
  rwa [Queue.Retried, hid] at this

/-- A message that is acknowledged, pruned and sent once more, in a directory that was empty. -/
def retry : List Turn :=
  let m : Message := ⟨⟨"m1"⟩, ⟨"a"⟩, "x", 1000, none⟩
  [⟨.enqueue m, 0, []⟩, ⟨.acknowledge ⟨"m1"⟩, 0, []⟩, ⟨.prune 86400000, 0, []⟩,
    ⟨.enqueue m, 0, []⟩, ⟨.poll, 0, []⟩]

/-- An acknowledged message can come back. -/
theorem acked_returns :
    (⟨["q"]⟩ : InboxStore).events ⟨"a"⟩ ⟨[(["q"], .directory)]⟩ retry =
      let m : Message := ⟨⟨"m1"⟩, ⟨"a"⟩, "x", 1000, none⟩
      [(.enqueue m, .ok (.enqueued ⟨"m1"⟩)), (.acknowledge ⟨"m1"⟩, .ok .acknowledged),
        (.prune 86400000, .ok (.pruned 1)), (.enqueue m, .ok (.enqueued ⟨"m1"⟩)),
        (.poll, .ok (.pending [m]))] := by
  decide +kernel

/-- The message of `retry` came back because pruning dropped it and it was sent once more. -/
theorem retry_returns_only_after_prune :
    let m : Message := ⟨⟨"m1"⟩, ⟨"a"⟩, "x", 1000, none⟩
    ∃ a b c maxAge n, 0 < n ∧
      [(.prune 86400000, .ok (.pruned 1)), (.enqueue m, .ok (.enqueued ⟨"m1"⟩))] =
        a ++ (.prune maxAge, .ok (.pruned n)) :: (b ++ (.enqueue m, .ok (.enqueued ⟨"m1"⟩)) ::
          (c : List InboxEvent)) := by
  intro m
  have h : (⟨["q"]⟩ : InboxStore).Holds ⟨[(["q"], .directory)]⟩ ⟨"a"⟩ (encodeChars []) :=
    ⟨rfl, .inl rfl, .inl rfl, .inl rfl, rfl⟩
  have hev : (⟨["q"]⟩ : InboxStore).events ⟨"a"⟩ ⟨[(["q"], .directory)]⟩ retry =
      [(.enqueue m, .ok (.enqueued ⟨"m1"⟩))] ++ (.acknowledge ⟨"m1"⟩, .ok .acknowledged) ::
        ([(.prune 86400000, .ok (.pruned 1)), (.enqueue m, .ok (.enqueued ⟨"m1"⟩))] ++
          (.poll, .ok (.pending [m])) :: []) := by decide +kernel
  exact acked_returns_only_after_prune h (by simp [retry, InboxCall.On]) hev (by simp) rfl

end InboxStore

end AgentSupervisor
