import Mathlib.Algebra.Group.Nat.Defs
import Mathlib.Data.Finset.Dedup
import Mathlib.Data.Finset.Lattice.Lemmas
import Mathlib.Data.List.Nodup
import AgentSupervisor.Inbox.Log

/-!
# Inboxes as queues

What an inbox is to those who use it, and what it answers them.

* `Queue`                     : the messages, each identity once, and what is acknowledged;
* `Queue.ofRecords`           : the queue that a row of records tells;
* `Queue.answer`              : what each call is answered, and the queue after it;
* `Snapshot.toQueue_foldl`    : folding a log gives the queue that its records tell;
* `Snapshot.respond_refines`  : a decision from a snapshot is the queue's answer.
-/

namespace AgentSupervisor

/-! ## Queues -/

/-- The first message of each identity, in order. -/
def firsts : List Message → List Message
  | [] => []
  | m :: ms => m :: (firsts ms).filter fun n => n.id ≠ m.id

theorem mem_ids_firsts (ms : List Message) (id : MessageId) :
    id ∈ (firsts ms).map Message.id ↔ id ∈ ms.map Message.id := by
  induction ms with
  | nil => rfl
  | cons m ms ih =>
    simp only [firsts, List.map_cons, List.mem_cons, ← ih, List.mem_map, List.mem_filter,
      decide_eq_true_eq]
    constructor
    · rintro (rfl | ⟨n, ⟨hn, -⟩, rfl⟩)
      · exact .inl rfl
      · exact .inr ⟨n, hn, rfl⟩
    · rintro (rfl | ⟨n, hn, rfl⟩)
      · exact .inl rfl
      · by_cases h : n.id = m.id
        · exact .inl h
        · exact .inr ⟨n, ⟨hn, h⟩, rfl⟩

theorem ids_firsts_nodup (ms : List Message) : ((firsts ms).map Message.id).Nodup := by
  induction ms with
  | nil => exact List.nodup_nil
  | cons m ms ih =>
    rw [firsts, List.map_cons, List.nodup_cons]
    refine ⟨?_, ih.sublist (List.filter_sublist.map _)⟩
    intro h
    obtain ⟨n, hn, hid⟩ := List.mem_map.mp h
    simp [hid] at hn

theorem firsts_of_nodup {ms : List Message} (h : (ms.map Message.id).Nodup) : firsts ms = ms := by
  induction ms with
  | nil => rfl
  | cons m ms ih =>
    obtain ⟨hm, hms⟩ := List.nodup_cons.mp h
    rw [firsts, ih hms, List.filter_eq_self.mpr]
    intro n hn
    have : n.id ≠ m.id := fun e => hm (e ▸ List.mem_map_of_mem hn)
    simpa using this

/-- A message at the end counts when its identity is new. -/
theorem firsts_concat (ms : List Message) (m : Message) :
    firsts (ms ++ [m]) =
      if m.id ∈ (firsts ms).map Message.id then firsts ms else firsts ms ++ [m] := by
  induction ms with
  | nil => rfl
  | cons n ms ih =>
    rw [List.cons_append, firsts, ih, firsts]
    have hm : m.id ∈ (n :: (firsts ms).filter fun x => x.id ≠ n.id).map Message.id ↔
        m.id = n.id ∨ m.id ∈ (firsts ms).map Message.id := by
      rw [← firsts, mem_ids_firsts, mem_ids_firsts, List.map_cons, List.mem_cons]
    by_cases hn : m.id = n.id
    · rw [if_pos (hm.mpr (.inl hn))]
      split
      · rfl
      · simp [List.filter_append, hn]
    · by_cases h : m.id ∈ (firsts ms).map Message.id
      · rw [if_pos h, if_pos (hm.mpr (.inr h))]
      · rw [if_neg h, if_neg (by rw [hm]; simp only [hn, h, or_self, not_false_eq_true])]
        simp [List.filter_append, hn]

/-- What an inbox is to its users: the messages, each identity once and in order, and the
    identities that have been acknowledged. -/
structure Queue where
  messages : List Message := []
  acked : Finset MessageId := ∅
  deriving DecidableEq

namespace Queue

/-- Is there a message of this identity, acknowledged or not? -/
def Knows (q : Queue) (id : MessageId) : Prop := id ∈ q.messages.map Message.id

instance (q : Queue) (id : MessageId) : Decidable (q.Knows id) :=
  inferInstanceAs (Decidable (id ∈ q.messages.map Message.id))

/-- The messages that are not acknowledged. -/
def pending (q : Queue) : List Message := q.messages.filter fun m => m.id ∉ q.acked

/-- A message joins unless its identity is known. -/
def enqueue (q : Queue) (m : Message) : Queue :=
  if q.Knows m.id then q else { q with messages := q.messages ++ [m] }

/-- An identity is acknowledged. -/
def acknowledge (q : Queue) (id : MessageId) : Queue := { q with acked := insert id q.acked }

/-- A message outlives pruning when it waits and is at most `maxAge` old. -/
def Lasts (q : Queue) (now maxAge : Nat) (m : Message) : Prop :=
  m.id ∉ q.acked ∧ now ≤ m.enqueuedAt.toNat + maxAge

instance (q : Queue) (now maxAge : Nat) (m : Message) : Decidable (q.Lasts now maxAge m) :=
  inferInstanceAs (Decidable (_ ∧ _))

/-- How many messages do not outlive pruning. -/
def stale (q : Queue) (now maxAge : Nat) : Nat :=
  (q.messages.filter fun m => ¬ q.Lasts now maxAge m).length

/-- Pruning leaves the messages that last, and no acknowledgements. When all messages last it
    leaves everything. -/
def prune (q : Queue) (now maxAge : Nat) : Queue :=
  if q.stale now maxAge = 0 then q else ⟨q.messages.filter fun m => q.Lasts now maxAge m, ∅⟩

/-- One more record. -/
def add (q : Queue) : Record → Queue
  | .message m => q.enqueue m
  | .ack id _ => q.acknowledge id

theorem knows_enqueue (q : Queue) (m : Message) : (q.enqueue m).Knows m.id := by
  rw [enqueue]
  split
  · assumption
  · exact List.mem_map_of_mem (List.mem_append_right _ (List.mem_singleton_self m))

/-- A message that is acknowledged does not outlive pruning. -/
theorem stale_acknowledge {q : Queue} {id : MessageId} (h : q.Knows id) (now maxAge : Nat) :
    (q.acknowledge id).stale now maxAge ≠ 0 := by
  obtain ⟨m, hm, rfl⟩ := List.mem_map.mp h
  have hgone : ¬ (q.acknowledge m.id).Lasts now maxAge m := fun hlasts =>
    hlasts.1 (Finset.mem_insert_self _ _)
  have hmem : m ∈ (q.acknowledge m.id).messages.filter
      fun m' => ¬ (q.acknowledge m.id).Lasts now maxAge m' :=
    List.mem_filter.mpr ⟨hm, decide_eq_true hgone⟩
  exact Nat.ne_of_gt (List.length_pos_of_mem hmem)

end Queue

namespace Record

/-- The message that a record tells. -/
def message? : Record → Option Message
  | .message m => some m
  | .ack _ _ => none

/-- The identity that a record acknowledges. -/
def acked? : Record → Option MessageId
  | .message _ => none
  | .ack id _ => some id

end Record

namespace Queue

/-- The queue that records tell: the first message of each identity, and every acknowledged
    identity, be there a message of it or not. -/
def ofRecords (rs : List Record) : Queue :=
  ⟨firsts (rs.filterMap Record.message?), (rs.filterMap Record.acked?).toFinset⟩

theorem ofRecords_concat (rs : List Record) (r : Record) :
    ofRecords (rs ++ [r]) = (ofRecords rs).add r := by
  cases r with
  | message m =>
    have hm : (rs ++ [Record.message m]).filterMap Record.message? =
        rs.filterMap Record.message? ++ [m] := by
      rw [List.filterMap_append]; rfl
    have ha : (rs ++ [Record.message m]).filterMap Record.acked? = rs.filterMap Record.acked? := by
      rw [List.filterMap_append]; exact List.append_nil _
    rw [ofRecords, hm, ha, firsts_concat, add, enqueue]
    by_cases h : m.id ∈ (firsts (rs.filterMap Record.message?)).map Message.id
    · rw [if_pos h, if_pos (show (ofRecords rs).Knows m.id from h)]; rfl
    · rw [if_neg h, if_neg (show ¬ (ofRecords rs).Knows m.id from h)]; rfl
  | ack id at_ =>
    have hm : (rs ++ [Record.ack id at_]).filterMap Record.message? =
        rs.filterMap Record.message? := by
      rw [List.filterMap_append]; exact List.append_nil _
    have ha : (rs ++ [Record.ack id at_]).filterMap Record.acked? =
        rs.filterMap Record.acked? ++ [id] := by
      rw [List.filterMap_append]; rfl
    rw [ofRecords, hm, ha, add, acknowledge, List.toFinset_append, Finset.union_comm]
    rfl

/-- A new log of messages tells these messages and no acknowledgements. -/
theorem ofRecords_messages {ms : List Message} (h : (ms.map Message.id).Nodup) :
    ofRecords (ms.map .message) = ⟨ms, ∅⟩ := by
  have hm : (ms.map Record.message).filterMap Record.message? = ms := by
    simp [List.filterMap_map, Function.comp_def, Record.message?]
  have ha : (ms.map Record.message).filterMap Record.acked? = [] := by
    simp [List.filterMap_map, Function.comp_def, Record.acked?]
  rw [ofRecords, hm, ha, firsts_of_nodup h]
  rfl

theorem ids_ofRecords_nodup (rs : List Record) :
    ((ofRecords rs).messages.map Message.id).Nodup := ids_firsts_nodup _

end Queue

/-! ## Calls -/

/-- What users ask of an inbox. -/
inductive InboxCall where
  | enqueue (m : Message)
  | poll
  | acknowledge (id : MessageId)
  /-- with the greatest age in milliseconds -/
  | prune (maxAge : Nat)
  deriving DecidableEq

/-- What they are told. -/
inductive InboxAnswer where
  | enqueued (id : MessageId)
  | pending (ms : List Message)
  | acknowledged
  /-- there is no such message -/
  | unknown
  | pruned (count : Nat)
  deriving DecidableEq

/-- The answer to a call, and the queue after it. An age counts in 64 bits. -/
def Queue.answer (q : Queue) (now : Nat) : InboxCall → InboxAnswer × Queue
  | .enqueue m => (.enqueued m.id, q.enqueue m)
  | .poll => (.pending q.pending, q)
  | .acknowledge id => if q.Knows id then (.acknowledged, q.acknowledge id) else (.unknown, q)
  | .prune maxAge =>
    (.pruned (q.stale now (maxAge % 2 ^ 64)), q.prune now (maxAge % 2 ^ 64))

/-- The queue after a change of the log. -/
def Queue.after (q : Queue) : Change → Queue
  | .keep => q
  | .append r => q.add r
  | .replace kept => ⟨kept, ∅⟩

/-- The call is one on this inbox. -/
def InboxCall.On (inbox : InboxId) : InboxCall → Prop
  | .enqueue m => m.inbox = inbox
  | _ => True

namespace Snapshot

/-- The queue that a snapshot shows. -/
def toQueue (s : Snapshot) : Queue := ⟨s.messages, s.acked.toFinset⟩

/-- What a snapshot decides on a call. -/
def respond (s : Snapshot) (now : UInt64) : InboxCall → InboxAnswer × Change
  | .enqueue m => (.enqueued (s.enqueue m).1, (s.enqueue m).2)
  | .poll => (.pending s.pending, .keep)
  | .acknowledge id =>
    match s.acknowledge id now with
    | none => (.unknown, .keep)
    | some c => (.acknowledged, c)
  | .prune maxAge => (.pruned (s.prune now maxAge).1, (s.prune now maxAge).2)

theorem contains_iff (s : Snapshot) (id : MessageId) :
    s.contains id = true ↔ s.toQueue.Knows id := by
  simp [contains, Queue.Knows, toQueue]

theorem isAcked_iff (s : Snapshot) (id : MessageId) :
    s.isAcked id = true ↔ id ∈ s.toQueue.acked := by
  simp [isAcked, toQueue]

theorem pending_toQueue (s : Snapshot) : s.toQueue.pending = s.pending := by
  refine List.filter_congr fun m _ => ?_
  rw [Bool.eq_iff_iff, decide_eq_true_eq, ← isAcked_iff]
  simp

/-! ## Folding a log -/

theorem toQueue_add (s : Snapshot) (r : Record) : (s.add r).toQueue = s.toQueue.add r := by
  cases r with
  | message m =>
    rw [add, Queue.add, Queue.enqueue]
    by_cases h : s.toQueue.Knows m.id
    · rw [if_pos ((contains_iff s m.id).mpr h), if_pos h]
    · rw [if_neg (fun e => h ((contains_iff s m.id).mp e)), if_neg h]
      rfl
  | ack id at_ =>
    rw [add, Queue.add, Queue.acknowledge]
    by_cases h : id ∈ s.toQueue.acked
    · rw [if_pos ((isAcked_iff s id).mpr h), Finset.insert_eq_of_mem h]
    · rw [if_neg (fun e => h ((isAcked_iff s id).mp e)), toQueue, List.toFinset_cons]
      rfl

/-- **Folding a log gives the queue that its records tell.** -/
theorem toQueue_foldl (rs : List Record) : (rs.foldl add {}).toQueue = Queue.ofRecords rs := by
  induction rs using List.reverseRecOn with
  | nil => rfl
  | append_singleton rs r ih =>
    rw [List.foldl_append, List.foldl_cons, List.foldl_nil, toQueue_add, ih,
      Queue.ofRecords_concat]

/-! ## Decisions -/

theorem toNat_cutoff (now : UInt64) (maxAge : Nat) :
    (cutoff now maxAge).toNat = now.toNat - maxAge % 2 ^ 64 := by
  have ha : (UInt64.ofNat maxAge).toNat = maxAge % 2 ^ 64 := UInt64.toNat_ofNat'
  unfold cutoff
  by_cases hle : UInt64.ofNat maxAge ≤ now
  · simp only [hle, if_true]
    rw [UInt64.toNat_sub_of_le _ _ hle, ha]
  · simp only [hle, if_false]
    rw [UInt64.le_iff_toNat_le, ha] at hle
    rw [UInt64.toNat_zero]
    omega

theorem kept_eq (s : Snapshot) (now : UInt64) (maxAge : Nat) :
    s.kept now maxAge =
      s.messages.filter fun m => s.toQueue.Lasts now.toNat (maxAge % 2 ^ 64) m := by
  rw [kept, pending, List.filter_filter]
  refine List.filter_congr fun m _ => ?_
  rw [Bool.eq_iff_iff, Bool.and_eq_true, decide_eq_true_eq, decide_eq_true_eq,
    UInt64.le_iff_toNat_le, toNat_cutoff, Nat.sub_le_iff_le_add, Queue.Lasts,
    ← isAcked_iff, Bool.not_eq_true', Bool.not_eq_true]
  exact and_comm

theorem length_filter_add {α : Type} (p : α → Prop) [DecidablePred p] (l : List α) :
    (l.filter fun a => p a).length + (l.filter fun a => ¬ p a).length = l.length := by
  induction l with
  | nil => rfl
  | cons a l ih =>
    rw [List.length_cons, ← ih]
    by_cases h : p a
    · simp only [List.filter_cons, h, decide_true, if_true, not_true, decide_false,
        Bool.false_eq_true, if_false, List.length_cons]
      omega
    · simp only [List.filter_cons, h, decide_false, Bool.false_eq_true, if_false, not_false_eq_true,
        decide_true, if_true, List.length_cons]
      omega

theorem prune_eq (s : Snapshot) (now : UInt64) (maxAge : Nat) :
    s.prune now maxAge =
      (s.toQueue.stale now.toNat (maxAge % 2 ^ 64),
        if s.toQueue.stale now.toNat (maxAge % 2 ^ 64) = 0 then .keep
        else .replace (s.messages.filter fun m =>
          s.toQueue.Lasts now.toNat (maxAge % 2 ^ 64) m)) := by
  -- the messages that are dropped are those that do not last
  have hr : s.messages.length - (s.kept now maxAge).length =
      s.toQueue.stale now.toNat (maxAge % 2 ^ 64) := by
    have := length_filter_add (s.toQueue.Lasts now.toNat (maxAge % 2 ^ 64)) s.messages
    rw [kept_eq s now maxAge]
    show _ = (s.messages.filter fun m => ¬ s.toQueue.Lasts now.toNat (maxAge % 2 ^ 64) m).length
    omega
  rw [kept_eq s now maxAge] at hr
  simp only [prune, kept_eq s now maxAge, hr]
  split
  · rename_i h0; rw [h0]
  · rfl

/-- **A decision from a snapshot is the queue's answer.** -/
theorem respond_refines (s : Snapshot) (now : UInt64) (call : InboxCall) :
    ((s.respond now call).1, s.toQueue.after (s.respond now call).2) =
      s.toQueue.answer now.toNat call := by
  cases call with
  | enqueue m =>
    rw [respond, enqueue, Queue.answer, Queue.enqueue]
    by_cases hk : s.toQueue.Knows m.id
    · rw [if_pos ((contains_iff s m.id).mpr hk), if_pos hk]; rfl
    · rw [if_neg (fun e => hk ((contains_iff s m.id).mp e)), if_neg hk]
      simp only [Queue.after, Queue.add, Queue.enqueue, if_neg hk]
  | poll => rw [respond, Queue.answer, pending_toQueue]; rfl
  | acknowledge id =>
    rw [respond, acknowledge, Queue.answer]
    by_cases hk : s.toQueue.Knows id
    · rw [if_pos hk, (contains_iff s id).mpr hk]
      by_cases ha : s.isAcked id = true
      · have hmem : id ∈ s.toQueue.acked := (isAcked_iff s id).mp ha
        simp only [ha, Queue.after, Queue.acknowledge, Finset.insert_eq_of_mem hmem]
        rfl
      · simp only [ha]
        rfl
    · have hc : s.contains id = false := by
        rw [← Bool.not_eq_true, contains_iff]; exact hk
      rw [if_neg hk, hc]; rfl
  | prune maxAge =>
    rw [respond, prune_eq, Queue.answer, Queue.prune]
    split <;> rfl

/-- Nothing is written that leaves the queue as it is. -/
theorem respond_keep {s : Snapshot} {now : UInt64} {call : InboxCall}
    (h : s.toQueue.after (s.respond now call).2 = s.toQueue) : (s.respond now call).2 = .keep := by
  cases call with
  | enqueue m =>
    simp only [respond, enqueue] at h ⊢
    split
    · rfl
    · rename_i hk
      rw [if_neg hk] at h
      rw [contains_iff] at hk
      simp only [Queue.after, Queue.add, Queue.enqueue, if_neg hk] at h
      have hlen := congrArg (fun q : Queue => q.messages.length) h
      simp only [List.length_append, List.length_singleton] at hlen
      omega
  | poll => rfl
  | acknowledge id =>
    simp only [respond, acknowledge] at h ⊢
    by_cases hc : s.contains id = true
    · by_cases ha : s.isAcked id = true
      · simp only [hc, ha]; rfl
      · simp only [hc, ha] at h
        have hmem : id ∈ s.toQueue.acked := by
          rw [← congrArg Queue.acked h]
          exact Finset.mem_insert_self id _
        exact absurd ((isAcked_iff s id).mpr hmem) ha
    · simp only [hc]; rfl
  | prune maxAge =>
    simp only [respond, prune] at h ⊢
    split
    · rfl
    · rename_i hne
      rw [if_neg hne] at h
      have hlen := congrArg (fun q : Queue => q.messages.length) h
      simp only [Queue.after, toQueue] at hlen
      omega

/-- No identity is acknowledged a second time. -/
theorem respond_fresh {s : Snapshot} {now : UInt64} {call : InboxCall} {id : MessageId}
    {at_ : UInt64} (h : (s.respond now call).2 = .append (.ack id at_)) :
    id ∉ s.toQueue.acked := by
  cases call with
  | enqueue m =>
    simp only [respond, enqueue] at h
    split at h <;> cases h
  | poll => cases h
  | acknowledge id' =>
    simp only [respond, acknowledge] at h
    split at h
    · cases h
    · rename_i c hc
      subst h
      split at hc
      · cases hc
      · split at hc
        · cases hc
        · rename_i ha
          cases hc
          rwa [isAcked_iff] at ha
  | prune maxAge =>
    simp only [respond, prune] at h
    split at h <;> cases h

/-- Pruning writes the log anew when there are fewer messages to keep, and else leaves it. -/
theorem prune_cases (s : Snapshot) (now : UInt64) (maxAge : Nat) :
    s.messages.length ≤ (s.kept now maxAge).length ∧ s.prune now maxAge = (0, .keep) ∨
      (s.kept now maxAge).length < s.messages.length ∧
        s.prune now maxAge =
          (s.messages.length - (s.kept now maxAge).length, .replace (s.kept now maxAge)) := by
  have hprune : s.prune now maxAge = if s.messages.length - (s.kept now maxAge).length = 0
      then (0, .keep)
      else (s.messages.length - (s.kept now maxAge).length, .replace (s.kept now maxAge)) := rfl
  rw [hprune]
  split
  · exact .inl ⟨by omega, rfl⟩
  · exact .inr ⟨by omega, rfl⟩

/-- Only pruning writes a log anew. -/
theorem prune_of_respond_replace {s : Snapshot} {now : UInt64} {call : InboxCall}
    {kept : List Message} (h : (s.respond now call).2 = .replace kept) :
    ∃ maxAge, call = .prune maxAge ∧ kept = s.kept now maxAge ∧
      kept.length < s.messages.length := by
  cases call with
  | enqueue m =>
    simp only [respond, enqueue] at h
    split at h <;> cases h
  | poll => cases h
  | acknowledge id =>
    simp only [respond, acknowledge] at h
    split at h
    · cases h
    · rename_i c hc
      subst h
      split at hc
      · cases hc
      · split at hc <;> cases hc
  | prune maxAge =>
    simp only [respond] at h
    rcases s.prune_cases now maxAge with ⟨-, hkeep⟩ | ⟨hlt, hreplace⟩
    · rw [hkeep] at h
      cases h
    · rw [hreplace] at h
      cases h
      exact ⟨maxAge, rfl, rfl, hlt⟩

/-- Pruning keeps each identity once. -/
theorem respond_replace {s : Snapshot} (hs : (s.messages.map Message.id).Nodup) {now : UInt64}
    {call : InboxCall} {kept : List Message} (h : (s.respond now call).2 = .replace kept) :
    (kept.map Message.id).Nodup := by
  obtain ⟨maxAge, -, rfl, -⟩ := prune_of_respond_replace h
  exact hs.sublist ((List.filter_sublist.trans List.filter_sublist).map _)

end Snapshot

end AgentSupervisor
