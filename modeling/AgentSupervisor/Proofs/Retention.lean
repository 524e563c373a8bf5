import Mathlib.Algebra.Group.Nat.Defs
import AgentSupervisor.Proofs.InboxCrash

/-!
# How long messages are kept

Pruning is told an age in seconds. It counts that age in milliseconds in 64 bits, so what it
grants may be less than what it was told. Nothing that is acknowledged or too old stays; what is
young enough stays as far as the granted age goes, which is all the way for ages below 2⁶⁴
milliseconds.

* `Snapshot.Retains`              : what pruning did to a log, message by message;
* `Snapshot.ofLog_prune`          : every log that can be read is pruned so;
* `InboxStore.prune_retention`    : the same for an inbox on a disk;
* `InboxStore.prune_wraps_around` : an age so great that a fresh message is dropped.
-/

namespace AgentSupervisor

/-- How long ago a message was enqueued. One from the future is new. -/
def Message.age (m : Message) (now : Nat) : Nat := now - m.enqueuedAt.toNat

namespace Snapshot

variable {s before after : Snapshot} {now : UInt64} {maxAge : Nat}

/-- The age in milliseconds that is granted for one in seconds. -/
def granted (seconds : Nat) : Nat := seconds * 1000 % 2 ^ 64

theorem granted_le (seconds : Nat) : granted seconds ≤ seconds * 1000 := Nat.mod_le ..

theorem granted_of_lt {seconds : Nat} (h : seconds * 1000 < 2 ^ 64) :
    granted seconds = seconds * 1000 := Nat.mod_eq_of_lt h

/-- What pruning did: the messages left, how many were dropped, that none was left which should
    have been dropped, and when none was dropped which should have been left. -/
structure Retains (before after : Snapshot) (now seconds count : Nat) : Prop where
  left : after.messages = before.pending.filter fun m => m.age now ≤ granted seconds
  count : count + after.messages.length = before.messages.length
  drops : ∀ m ∈ after.messages, m ∈ before.pending ∧ m.age now ≤ seconds * 1000
  keeps : (∀ m ∈ before.pending, m.age now ≤ seconds * 1000 → m ∈ after.messages) ↔
    ∀ m ∈ before.pending, m.age now ≤ granted seconds ∨ seconds * 1000 < m.age now

/-- An age that fits is granted in full: what stays is exactly what waits and is not too old. -/
theorem Retains.exact {now seconds count : Nat} (h : Retains before after now seconds count)
    (hfits : seconds * 1000 < 2 ^ 64) (m : Message) :
    m ∈ after.messages ↔ m ∈ before.pending ∧ m.age now ≤ seconds * 1000 := by
  rw [h.left, granted_of_lt hfits, List.mem_filter, decide_eq_true_eq]

theorem kept_eq_age (s : Snapshot) (now : UInt64) (maxAge : Nat) :
    s.kept now maxAge = s.pending.filter fun m => m.age now.toNat ≤ maxAge % 2 ^ 64 := by
  refine List.filter_congr fun m _ => ?_
  rw [decide_eq_decide, UInt64.le_iff_toNat_le, toNat_cutoff, Message.age]
  omega

theorem kept_sublist (s : Snapshot) (now : UInt64) (maxAge : Nat) :
    (s.kept now maxAge).Sublist s.messages :=
  List.filter_sublist.trans List.filter_sublist

theorem ids_nodup_of_ofLog {log : Bytes} (h : ofLog log = .ok s) :
    (s.messages.map Message.id).Nodup := by
  unfold ofLog at h
  split at h
  · cases h
    rename_i lines _
    have hfold : (ofLines lines).toQueue = _ := toQueue_foldl (lines.filterMap recordOfLine?)
    have hnodup := Queue.ids_ofRecords_nodup (lines.filterMap recordOfLine?)
    rw [← hfold] at hnodup
    exact hnodup
  · cases h

/-- Pruning leaves a log of the messages that it keeps. -/
theorem ofLog_kept {log : Bytes} (h : ofLog log = .ok s) (now : UInt64) (maxAge : Nat) :
    ∃ s', ofLog ((s.prune now maxAge).2.apply log) = .ok s' ∧
      s'.messages = s.kept now maxAge ∧
      (s.prune now maxAge).1 + s'.messages.length = s.messages.length := by
  have hsub := kept_sublist s now maxAge
  rcases s.prune_cases now maxAge with ⟨hle, hprune⟩ | ⟨hlt, hprune⟩
  · -- nothing is dropped, so the log is not written anew
    rw [hprune]
    exact ⟨s, h, (hsub.eq_of_length_le hle).symm, Nat.zero_add _⟩
  · rw [hprune]
    have hnodup : ((s.kept now maxAge).map Message.id).Nodup :=
      (ids_nodup_of_ofLog h).sublist (hsub.map _)
    obtain ⟨s', hread, hq⟩ := ofLog_toQueue (Change.freshText (s.kept now maxAge))
    rw [Change.ofLog_replace {} hnodup] at hq
    have hmessages : s'.messages = s.kept now maxAge := congrArg Queue.messages hq
    refine ⟨s', ?_, hmessages, ?_⟩
    · rw [← Change.fresh_eq] at hread
      exact hread
    · rw [hmessages]
      show s.messages.length - _ + _ = _
      omega

/-- **What pruning does to a log that can be read.** -/
theorem ofLog_prune {log : Bytes} (h : ofLog log = .ok before) (now : UInt64) (seconds : Nat) :
    ∃ after, ofLog ((before.prune now (seconds * 1000)).2.apply log) = .ok after ∧
      Retains before after now.toNat seconds (before.prune now (seconds * 1000)).1 := by
  obtain ⟨after, hread, hkept, hcount⟩ := ofLog_kept h now (seconds * 1000)
  have hgranted := granted_le seconds
  have hleft : after.messages =
      before.pending.filter fun m => m.age now.toNat ≤ granted seconds :=
    hkept.trans (kept_eq_age ..)
  have hmem : ∀ m, m ∈ after.messages ↔
      m ∈ before.pending ∧ m.age now.toNat ≤ granted seconds := by
    intro m
    rw [hleft, List.mem_filter, decide_eq_true_eq]
  refine ⟨after, hread, hleft, hcount, ?_, ?_, ?_⟩
  · intro m hm
    obtain ⟨hpending, hage⟩ := (hmem m).mp hm
    exact ⟨hpending, hage.trans hgranted⟩
  · intro hkeeps m hm
    by_cases hage : m.age now.toNat ≤ seconds * 1000
    · exact .inl ((hmem m).mp (hkeeps m hm hage)).2
    · exact .inr (by omega)
  · intro hgap m hm hage
    rcases hgap m hm with hyoung | hold
    · exact (hmem m).mpr ⟨hm, hyoung⟩
    · omega

end Snapshot

namespace InboxStore

variable {s : InboxStore} {st : Storage} {inbox : InboxId} {log : Bytes}

/-- **How long messages are kept.** Whatever the log, pruning fails and leaves it, or drops all
    that is acknowledged or older than asked for. It drops nothing else exactly when no waiting
    message has an age between the granted one and the one that was asked for. -/
theorem prune_retention (h : s.Holds st.disk inbox log) (seconds : UInt64) :
    ∃ log', s.Holds (s.prune inbox seconds st).2.disk inbox log' ∧
      (∀ e, (s.prune inbox seconds st).1 = .error e → log' = log) ∧
      (∀ count, (s.prune inbox seconds st).1 = .ok count → ∃ before after,
        Snapshot.ofLog log = .ok before ∧ Snapshot.ofLog log' = .ok after ∧
        before.Retains after (UInt64.ofNat (s.prune inbox seconds st).2.now).toNat
          seconds.toNat count) ∧
      (Short inbox → s.Unlocked inbox .exclusive st → (∃ before, Snapshot.ofLog log = .ok before) →
        ∃ count, (s.prune inbox seconds st).1 = .ok count) := by
  obtain ⟨log', hlog', hmeets⟩ := perform_meets h (.prune (seconds.toNat * 1000)) trivial
  have hprune : s.pruneOlder inbox (seconds.toNat * 1000) st = s.prune inbox seconds st := rfl
  rw [perform, hprune] at hlog' hmeets
  generalize s.prune inbox seconds st = r at hlog' hmeets ⊢
  obtain ⟨a, st'⟩ := r
  refine ⟨log', hlog', ?_⟩
  have hfail : ∀ e n, a.map InboxAnswer.pruned = .error e → a ≠ .ok n := by
    rintro e n he rfl
    cases he
  generalize hmap : a.map InboxAnswer.pruned = answer at hmeets
  cases hmeets with
  | tooLong e _ hlong =>
    exact ⟨fun _ _ => rfl, fun n hok => absurd hok (hfail _ n hmap),
      fun hs _ _ => absurd hs hlong⟩
  | locked _ hlocked =>
    exact ⟨fun _ _ => rfl, fun n hok => absurd hok (hfail _ n hmap),
      fun _ hu _ => absurd hu hlocked⟩
  | unreadable e _ hread =>
    refine ⟨fun _ _ => rfl, fun n hok => absurd hok (hfail _ n hmap), ?_⟩
    rintro - - ⟨before, hread'⟩
    cases hread.symm.trans hread'
  | answered before _ hread =>
    cases a with
    | error e => cases hmap
    | ok n =>
      have hn := InboxAnswer.pruned.inj (Except.ok.inj hmap)
      obtain ⟨after, hread', hretains⟩ :=
        Snapshot.ofLog_prune hread (UInt64.ofNat st'.now) seconds.toNat
      rw [← hn] at hretains
      refine ⟨fun _ he => (by cases he), ?_, fun _ _ _ => ⟨n, rfl⟩⟩
      intro count hcount
      cases hcount
      exact ⟨before, after, hread, hread', hretains⟩

/-- The log of an inbox with one message, a second after it was enqueued. -/
def recent : Storage := { alone (Change.line (.message waiting)) with now := 2000 }

/-- An age of more than half a billion years is granted as 384 milliseconds, and a message that waits for a
    second is dropped. -/
theorem prune_wraps_around :
    let s : InboxStore := ⟨["q"]⟩
    let pruned := s.prune ⟨"a"⟩ 18446744073709552 recent
    (s.poll ⟨"a"⟩ recent).1 = .ok [waiting] ∧
      waiting.age 2000 ≤ (18446744073709552 : UInt64).toNat * 1000 ∧
      pruned.1 = .ok 1 ∧ (s.poll ⟨"a"⟩ pruned.2).1 = .ok [] := by
  decide +kernel

/-- At the age of one second a message is kept. -/
theorem prune_retention_second :
    ((⟨["q"]⟩ : InboxStore).prune ⟨"a"⟩ 1 recent).1 = .ok 0 := by
  have hs : Short ⟨"a"⟩ := by unfold Short; decide +kernel
  have hu : (⟨["q"]⟩ : InboxStore).Unlocked ⟨"a"⟩ .exclusive recent := Option.some_ne_none 2000
  have hread : Snapshot.ofLog (Change.line (.message waiting)) = .ok ⟨[waiting], []⟩ := by
    decide +kernel
  have hnow : (UInt64.ofNat ((⟨["q"]⟩ : InboxStore).prune ⟨"a"⟩ 1 recent).2.now).toNat = 2000 := by
    decide +kernel
  have hholds : (⟨["q"]⟩ : InboxStore).Holds recent.disk ⟨"a"⟩ _ := alone_holds _
  obtain ⟨log', -, -, hretains, hserved⟩ := prune_retention hholds 1
  obtain ⟨count, hcount⟩ := hserved hs hu ⟨_, hread⟩
  obtain ⟨before, after, hbefore, -, hkept⟩ := hretains count hcount
  rw [hread] at hbefore
  cases hbefore
  rw [hnow] at hkept
  have hleft : after.messages = [waiting] := hkept.left.trans (by decide +kernel)
  have hnone := hkept.count
  rw [hleft] at hnone
  rw [hcount, show count = 0 by simpa using hnone]

end InboxStore

end AgentSupervisor
