import AgentSupervisor.Proofs.Elsewhere
import AgentSupervisor.Proofs.SessionTable
import Mathlib.Logic.Function.Basic

/-!
# Supervisors that share a path

Any number of supervisors start and shut down at one path, one step at a time and in any order. A
start looks at the path, removes what it has found there, makes directories and binds its socket; a
shutdown removes what is at the path by then. None of these steps asks who is listening there.

* `Step`           : what can happen;
* `bind_of_runs`   : the steps of one start, undisturbed, are `Supervisor.bind`;
* `holder_of_runs` : a supervisor loses the path when any of them removes what is there;
* `reaches_iff`    : when a supervisor that is listening can be reached.
-/

namespace AgentSupervisor

namespace SharedSocket

open Supervisor (clearSocket placeSocket unbind)

/-! ## Steps -/

/-- How far a supervisor has come. -/
inductive Phase where
  | idle
  /-- something to be removed is at the path -/
  | found
  /-- the path counts as clear -/
  | clear
  /-- the directories have been made -/
  | ready
  | listening
  /-- it has been asked to shut down -/
  | asked
  | gone
  deriving DecidableEq

/-- Phases follow each other in this order. -/
def Phase.rank : Phase → Nat
  | .idle => 0
  | .found => 1
  | .clear => 2
  | .ready => 3
  | .listening => 4
  | .asked => 5
  | .gone => 6

/-- What is there, how far each supervisor has come, and which of them has made the socket at the
    path, if it was one of them. -/
structure State where
  disk : Disk
  phase : Nat → Phase
  holder : Option Nat

/-- A supervisor goes on to a phase. -/
def State.to (x : State) (i : Nat) (p : Phase) : State :=
  ⟨x.disk, Function.update x.phase i p, x.holder⟩

/-- The path has another socket, or none, on another disk. -/
def State.on (x : State) (disk : Disk) (holder : Option Nat) : State := ⟨disk, x.phase, holder⟩

/-- Where a start goes on after its look at the path. A link is refused. -/
def afterLook : Except IoError (Option Entry) → Option Phase
  | .ok (some (.link _)) => none
  | .ok (some (.socket _)) | .ok (some (.file _)) => some .found
  | _ => some .clear

/-- The directories that a supervisor needs. -/
def prepare (s : Supervisor) (socket : Place) (disk : Disk) : Except OpenError Disk :=
  match Supervisor.makeDirs disk socket.dropLast with
  | .error e => .error e
  | .ok disk => Supervisor.makeDirs disk (Place.ofPath s.dir s.state.pidDir)

/-- What happens, and to which supervisor. -/
inductive Event where
  | look (i : Nat)
  | clear (i : Nat)
  | prepare (i : Nat)
  | bind (i : Nat)
  | ask (i : Nat)
  | unlink (i : Nat)
  /-- a start has failed, or the supervisor has been killed -/
  | stop (i : Nat)
  /-- something happens elsewhere on the disk -/
  | world
  deriving DecidableEq

/-- The event removes what is at the path. -/
def Event.Removes : Event → Prop
  | .clear _ | .unlink _ => True
  | _ => False

/-- The events of the start of a supervisor. -/
def Event.Starts (i : Nat) : Event → Prop
  | .look j | .clear j | .prepare j | .bind j => j = i
  | _ => False

section

variable (servers : Nat → Supervisor) (socket : Place)

/-- A step. -/
inductive Step : State → Event → State → Prop where
  | look (x : State) (i : Nat) (p : Phase) (hp : x.phase i = .idle)
      (hl : afterLook (x.disk.find socket) = some p) : Step x (.look i) (x.to i p)
  | clear (x : State) (i : Nat) (hp : x.phase i = .found) :
      Step x (.clear i) ((x.on (unbind socket x.disk) none).to i .clear)
  | prepare (x : State) (i : Nat) (disk : Disk) (hp : x.phase i = .clear)
      (hd : prepare (servers i) socket x.disk = .ok disk) :
      Step x (.prepare i) ((x.on disk x.holder).to i .ready)
  | bind (x : State) (i : Nat) (disk : Disk) (hp : x.phase i = .ready)
      (hd : placeSocket x.disk socket = .ok disk) :
      Step x (.bind i) ((x.on disk (some i)).to i .listening)
  | ask (x : State) (i : Nat) (hp : x.phase i = .listening) : Step x (.ask i) (x.to i .asked)
  | unlink (x : State) (i : Nat) (hp : x.phase i = .asked) :
      Step x (.unlink i) ((x.on (unbind socket x.disk) none).to i .gone)
  | stop (x : State) (i : Nat) : Step x (.stop i) (x.to i .gone)
  | world (x : State) (disk : Disk) (hd : disk.find socket = x.disk.find socket) :
      Step x .world (x.on disk x.holder)

end

variable {servers : Nat → Supervisor} {socket : Place} {x y z : State} {e : Event}
  {es : List Event} {i j : Nat} {p : Phase} {disk : Disk} {holder : Option Nat}

@[simp] theorem State.to_phase (x : State) (i j : Nat) (p : Phase) :
    (x.to i p).phase j = if j = i then p else x.phase j := Function.update_apply ..

theorem State.on_to_on_to (x : State) (i : Nat) (p q : Phase) (disk disk' : Disk)
    (holder holder' : Option Nat) :
    (((x.on disk holder).to i p).on disk' holder').to i q = (x.on disk' holder').to i q := by
  simp only [State.to, State.on, Function.update_idem]

@[simp] theorem State.to_disk : (x.to i p).disk = x.disk := rfl
@[simp] theorem State.to_holder : (x.to i p).holder = x.holder := rfl
@[simp] theorem State.on_phase : (x.on disk holder).phase = x.phase := rfl
@[simp] theorem State.on_disk : (x.on disk holder).disk = disk := rfl
@[simp] theorem State.on_holder : (x.on disk holder).holder = holder := rfl

/-! ## A start by itself -/

/-- What is left to do of a start. -/
def rest (s : Supervisor) (socket : Place) : Phase → Disk → Except OpenError Disk
  | .idle, disk => s.bind socket disk
  | .found, disk =>
    (prepare s socket (unbind socket disk)).bind fun disk => placeSocket disk socket
  | .clear, disk => (prepare s socket disk).bind fun disk => placeSocket disk socket
  | .ready, disk => placeSocket disk socket
  | .listening, disk | .asked, disk | .gone, disk => .ok disk

theorem unbind_of_find {e : Entry} (he : e ≠ .directory) (h : disk.find socket = .ok (some e)) :
    unbind socket disk = disk.erase socket := by
  cases e with
  | directory => exact absurd rfl he
  | file | socket | link =>
    simp only [unbind, Disk.remove, h]
    rfl

theorem clearSocket_of_look (hl : afterLook (disk.find socket) = some p) :
    clearSocket disk socket = .ok (if p = .found then unbind socket disk else disk) := by
  rw [clearSocket]
  cases h : disk.find socket with
  | error e =>
    rw [h] at hl
    cases hl
    rfl
  | ok o =>
    rw [h] at hl
    cases o with
    | none =>
      cases hl
      rfl
    | some e =>
      cases e with
      | directory =>
        cases hl
        rfl
      | link => cases hl
      | file | socket =>
        cases hl
        rw [if_pos rfl, unbind_of_find (by simp) h]

theorem afterLook_cases (hl : afterLook (disk.find socket) = some p) : p = .found ∨ p = .clear := by
  unfold afterLook at hl
  split at hl
  · cases hl
  · exact .inl (Option.some.inj hl).symm
  · exact .inl (Option.some.inj hl).symm
  · exact .inr (Option.some.inj hl).symm

/-- After the look, a start has to do what `bind` does after it. -/
theorem rest_look {s : Supervisor} (hl : afterLook (disk.find socket) = some p) :
    rest s socket p disk = s.bind socket disk := by
  have hbind : s.bind socket disk = (clearSocket disk socket).bind fun disk =>
      (prepare s socket disk).bind fun disk => placeSocket disk socket := by
    rw [Supervisor.bind]
    cases clearSocket disk socket with
    | error e => rfl
    | ok disk =>
      simp only [bind, Except.bind, prepare]
      cases Supervisor.makeDirs disk socket.dropLast <;> rfl
  rw [hbind, clearSocket_of_look hl]
  rcases afterLook_cases hl with rfl | rfl
  · rw [if_pos rfl]
    rfl
  · rw [if_neg (by simp)]
    rfl

/-- Each step of a start leaves the rest of it. -/
theorem Step.rest (hs : Step servers socket x e y) (he : e.Starts i) :
    rest (servers i) socket (y.phase i) y.disk = rest (servers i) socket (x.phase i) x.disk := by
  cases hs with
  | look j p hp hl =>
    obtain rfl : j = i := he
    rw [hp, State.to_phase, if_pos rfl]
    exact rest_look hl
  | clear j hp =>
    obtain rfl : j = i := he
    rw [hp, State.to_phase, if_pos rfl]
    rfl
  | prepare j disk hp hd =>
    obtain rfl : j = i := he
    rw [hp, State.to_phase, if_pos rfl, SharedSocket.rest, SharedSocket.rest, hd]
    rfl
  | bind j disk hp hd =>
    obtain rfl : j = i := he
    rw [hp, State.to_phase, if_pos rfl, SharedSocket.rest, SharedSocket.rest, hd]
    rfl
  | ask | unlink | stop | world => cases he

/-- **The steps of one start, undisturbed, are `bind`.** -/
theorem bind_of_runs (hr : Runs (Step servers socket) x es y) (hes : ∀ e ∈ es, e.Starts i)
    (hx : x.phase i = .idle) (hy : y.phase i = .listening) :
    (servers i).bind socket x.disk = .ok y.disk := by
  have hrest : rest (servers i) socket (y.phase i) y.disk =
      rest (servers i) socket (x.phase i) x.disk := by
    clear hx hy
    induction hr with
    | nil => rfl
    | cons hs _ ih =>
      rw [List.forall_mem_cons] at hes
      exact (ih hes.2).trans (hs.rest hes.1)
  rw [hx, hy] at hrest
  exact hrest.symm

theorem runs_of_clear (hp : x.phase i = .clear)
    (h : rest (servers i) socket .clear x.disk = .ok disk) :
    Runs (Step servers socket) x [.prepare i, .bind i] ((x.on disk (some i)).to i .listening) := by
  rw [rest] at h
  cases hprepare : prepare (servers i) socket x.disk with
  | error e =>
    rw [hprepare] at h
    cases h
  | ok d =>
    rw [hprepare] at h
    have hbind : Step servers socket _ _ _ :=
      .bind ((x.on d x.holder).to i .ready) i disk (by simp) h
    rw [State.on_to_on_to] at hbind
    exact .cons (.prepare x i d hp hprepare) (.cons hbind (.nil _))

theorem exists_afterLook {s : Supervisor} {disk' : Disk} (h : s.bind socket disk = .ok disk') :
    ∃ p, afterLook (disk.find socket) = some p := by
  rw [Supervisor.bind, clearSocket] at h
  unfold afterLook
  split
  · rename_i target hlink
    rw [hlink] at h
    cases h
  · exact ⟨_, rfl⟩
  · exact ⟨_, rfl⟩
  · exact ⟨_, rfl⟩

/-- **A start that nothing disturbs does what `bind` does**, whoever is listening at the path. -/
theorem runs_of_bind (servers : Nat → Supervisor) (hx : x.phase i = .idle)
    (h : (servers i).bind socket x.disk = .ok disk) :
    ∃ es, (∀ e ∈ es, e.Starts i) ∧
      Runs (Step servers socket) x es ((x.on disk (some i)).to i .listening) := by
  obtain ⟨p, hl⟩ := exists_afterLook h
  rw [← rest_look hl] at h
  have hlook : Step servers socket _ _ _ := .look x i p hx hl
  have hto : ((x.to i p).on disk (some i)).to i .listening =
      (x.on disk (some i)).to i .listening := State.on_to_on_to x i p _ x.disk disk x.holder _
  rcases afterLook_cases hl with rfl | rfl
  · have hclear : Step servers socket _ _ _ := .clear (x.to i .found) i (by simp)
    have hruns := runs_of_clear (by simp) (show rest (servers i) socket .clear
      (((x.to i .found).on (unbind socket x.disk) none).to i .clear).disk = .ok disk from h)
    rw [State.on_to_on_to, hto] at hruns
    exact ⟨[.look i, .clear i, .prepare i, .bind i], by simp [Event.Starts],
      .cons hlook (.cons hclear hruns)⟩
  · have hruns := runs_of_clear (by simp) (show rest (servers i) socket .clear
      (x.to i .clear).disk = .ok disk from h)
    rw [hto] at hruns
    exact ⟨[.look i, .prepare i, .bind i], by simp [Event.Starts], .cons hlook hruns⟩

/-! ## Who holds the path -/

/-- The socket of a supervisor is where it has put it, unless it has been removed. -/
def Sound (socket : Place) (x : State) : Prop :=
  x.holder ≠ none → ∃ mode, x.disk.find socket = .ok (some (.socket mode))

theorem placeSocket_ok {disk' : Disk} (h : placeSocket disk socket = .ok disk') :
    disk.find socket = .ok none ∧
      disk'.find socket = .ok (some (.socket Supervisor.socketMode)) := by
  rw [placeSocket] at h
  split at h
  · rename_i hf
    cases h
    have hne : socket ≠ [] := by
      rintro rfl
      cases hf
    exact ⟨hf, Disk.find_put_self hne hf _⟩
  · cases h
  · cases h

theorem find_prepare {s : Supervisor} {disk' : Disk} (h : prepare s socket disk = .ok disk')
    {e : Entry} (hf : disk.find socket = .ok (some e)) : disk'.find socket = .ok (some e) := by
  have hkeep {d d' : Disk} {dir : Place} (h : Supervisor.makeDirs d dir = .ok d')
      (hf : d.find socket = .ok (some e)) : d'.find socket = .ok (some e) := by
    rw [Supervisor.makeDirs] at h
    split at h
    · rename_i hdirs
      cases h
      exact Disk.find_makeDirs hdirs hf
    · cases h
  rw [prepare] at h
  split at h
  · cases h
  · rename_i hfirst
    exact hkeep h (hkeep hfirst hf)

theorem Step.sound (hs : Step servers socket x e y) (hx : Sound socket x) : Sound socket y := by
  cases hs with
  | look | ask | stop => exact hx
  | clear | unlink => exact fun h => absurd rfl h
  | prepare i disk hp hd =>
    intro hheld
    obtain ⟨mode, hf⟩ := hx hheld
    exact ⟨mode, find_prepare hd hf⟩
  | bind i disk hp hd => exact fun _ => ⟨_, (placeSocket_ok hd).2⟩
  | world disk hd =>
    intro hheld
    obtain ⟨mode, hf⟩ := hx hheld
    exact ⟨mode, hd.trans hf⟩

theorem Phase.rank_le_gone (p : Phase) : p.rank ≤ Phase.gone.rank := by
  cases p <;> decide

/-- No supervisor goes back. -/
theorem Step.rank_le (hs : Step servers socket x e y) (i : Nat) :
    (x.phase i).rank ≤ (y.phase i).rank := by
  have hto (x : State) {j : Nat} {p q : Phase} (hp : x.phase j = q) (hle : q.rank ≤ p.rank) :
      (x.phase i).rank ≤ ((x.to j p).phase i).rank := by
    rw [State.to_phase]
    split
    · rename_i hij
      rw [hij, hp]
      exact hle
    · exact Nat.le_refl _
  cases hs with
  | look j p hp hl => exact hto x hp (Nat.zero_le _)
  | clear j hp => exact hto (x.on _ _) hp (by decide)
  | prepare j disk hp hd => exact hto (x.on _ _) hp (by decide)
  | bind j disk hp hd => exact hto (x.on _ _) hp (by decide)
  | ask j hp => exact hto x hp (by decide)
  | unlink j hp => exact hto (x.on _ _) hp (by decide)
  | stop j => exact hto x rfl (Phase.rank_le_gone _)
  | world => exact Nat.le_refl _

/-- The supervisor has bound its socket at some time, or has given up. -/
def Past (x : State) (i : Nat) : Prop := Phase.listening.rank ≤ (x.phase i).rank

theorem past_of_listening (h : x.phase i = .listening) : Past x i :=
  Nat.le_of_eq (congrArg Phase.rank h).symm

theorem Step.past (hs : Step servers socket x e y) (hx : Past x i) : Past y i :=
  Nat.le_trans hx (hs.rank_le i)

theorem Step.bind_inv (hs : Step servers socket x (.bind i) y) :
    ¬ Past x i ∧ y.phase i = .listening ∧ y.holder = some i := by
  cases hs with
  | bind _ disk hp hd => exact ⟨by simp [Past, hp, Phase.rank], by simp, rfl⟩

theorem Step.eq_bind (hs : Step servers socket x e y) (hx : ¬ Past x i)
    (hy : y.phase i = .listening) : e = .bind i := by
  have hne : x.phase i ≠ .listening := fun h => hx (past_of_listening h)
  have hto {j : Nat} {p : Phase} (h : (if i = j then p else x.phase i) = .listening) :
      i = j ∧ p = .listening := by
    split at h
    · rename_i hij
      exact ⟨hij, h⟩
    · exact absurd h hne
  cases hs with
  | look j p hp hl =>
    obtain ⟨-, rfl⟩ := hto (State.to_phase .. ▸ hy)
    rcases afterLook_cases hl with h | h <;> cases h
  | bind j disk hp hd =>
    obtain ⟨rfl, -⟩ := hto (State.to_phase .. ▸ hy)
    rfl
  | clear | prepare | ask | unlink | stop => cases (hto (State.to_phase .. ▸ hy)).2
  | world => exact absurd hy hne

/-- **Who holds the path.** A supervisor that has bound its socket holds the path until some
    supervisor removes what is there, and then never again. -/
theorem Step.holds_iff (hs : Step servers socket x e y) (hsound : Sound socket x)
    (hx : Past x i) : y.holder = some i ↔ x.holder = some i ∧ ¬ e.Removes := by
  cases hs with
  | look | prepare | ask | stop | world => exact (and_iff_left id).symm
  | clear | unlink => exact iff_of_false nofun fun h => h.2 trivial
  | bind j disk hp hd =>
    have hij : j ≠ i := by
      rintro rfl
      rw [Past, hp] at hx
      exact absurd hx (by decide)
    refine iff_of_false (fun h => hij (Option.some.inj h)) fun h => ?_
    -- a socket is bound only where nothing is, but the one of `i` would be there
    obtain ⟨mode, hf⟩ := hsound (by rw [h.1]; exact Option.some_ne_none i)
    cases hf.symm.trans (placeSocket_ok hd).1

theorem holder_of_runs (hr : Runs (Step servers socket) x es y) (hsound : Sound socket x)
    (hx : Past x i) : y.holder = some i ↔ x.holder = some i ∧ ∀ e ∈ es, ¬ e.Removes := by
  induction hr with
  | nil => simp
  | cons hs _ ih =>
    rw [ih (hs.sound hsound) (hs.past hx), hs.holds_iff hsound hx, List.forall_mem_cons, and_assoc]

/-! ## Runs with one supervisor in view -/

theorem past_of_runs (hr : Runs (Step servers socket) x es y) (hx : Past x i) : Past y i :=
  hr.invariant (P := fun x => Past x i) (fun _ _ _ hs => hs.past) hx

/-- Whoever is listening after a run, and had bound its socket before, was listening all the
    time. -/
theorem listening_of_runs (hr : Runs (Step servers socket) x es y) (hx : Past x i)
    (hy : y.phase i = .listening) : x.phase i = .listening := by
  have hle : (x.phase i).rank ≤ (y.phase i).rank := by
    clear hx hy
    induction hr with
    | nil => exact Nat.le_refl _
    | cons hs _ ih => exact Nat.le_trans (hs.rank_le i) ih
  rw [hy] at hle
  have hrank : (x.phase i).rank = Phase.listening.rank := Nat.le_antisymm hle hx
  generalize x.phase i = p at hrank
  cases p <;> first | rfl | cases hrank

theorem past_of_mem (hr : Runs (Step servers socket) x es y) (hmem : .bind i ∈ es) : Past y i := by
  induction hr with
  | nil => cases hmem
  | cons hs hr ih =>
    rcases List.mem_cons.mp hmem with rfl | hmem
    · exact past_of_runs hr (past_of_listening hs.bind_inv.2.1)
    · exact ih hmem

theorem bind_not_mem (hr : Runs (Step servers socket) x es y) (hx : Past x i) :
    .bind i ∉ es := by
  induction hr with
  | nil => simp
  | cons hs _ ih =>
    rw [List.mem_cons, not_or]
    refine ⟨?_, ih (hs.past hx)⟩
    rintro rfl
    exact hs.bind_inv.1 hx

/-- A supervisor that is listening has bound its socket, once. -/
theorem exists_bind (hr : Runs (Step servers socket) x es y) (hx : ¬ Past x i)
    (hy : y.phase i = .listening) :
    ∃ before after m m', es = before ++ .bind i :: after ∧ Runs (Step servers socket) x before m ∧
      Step servers socket m (.bind i) m' ∧ Runs (Step servers socket) m' after y := by
  induction hr with
  | nil => exact absurd (past_of_listening hy) hx
  | @cons x m y e es hs hr ih =>
    -- the first step after which it is past is its bind, as a stop would not leave it listening
    by_cases hm : Past m i
    · obtain rfl := hs.eq_bind hx (listening_of_runs hr hm hy)
      exact ⟨[], es, x, m, rfl, .nil x, hs, hr⟩
    · obtain ⟨before, after, m₁, m₂, rfl, hbefore, hbind, hafter⟩ := ih hm hy
      exact ⟨e :: before, after, m₁, m₂, rfl, .cons hs hbefore, hbind, hafter⟩

/-! ## Who can be reached -/

/-- At the path is the socket of a supervisor that takes connections. -/
structure Reaches (socket : Place) (x : State) (i : Nat) : Prop where
  there : ∃ mode, x.disk.find socket = .ok (some (.socket mode))
  holder : x.holder = some i
  takes : x.phase i = .listening ∨ x.phase i = .asked

/-- Nobody has started yet. Anything may be at the path. -/
structure Fresh (x : State) : Prop where
  idle : ∀ i, x.phase i = .idle
  free : x.holder = none

theorem Fresh.sound (hx : Fresh x) : Sound socket x := fun h => absurd hx.free h

theorem Fresh.not_past (hx : Fresh x) (i : Nat) : ¬ Past x i := by
  rw [Past, hx.idle i]
  decide

theorem sound_of_runs (hr : Runs (Step servers socket) x es y) (hx : Sound socket x) :
    Sound socket y := hr.invariant (fun _ _ _ hs => hs.sound) hx

theorem reaches_iff_holder (hsound : Sound socket x) (hx : x.phase i = .listening) :
    Reaches socket x i ↔ x.holder = some i :=
  ⟨Reaches.holder, fun h => ⟨hsound (by rw [h]; exact Option.some_ne_none i), h, .inl hx⟩⟩

/-- **When a supervisor can be reached.** Of all that has happened, however many supervisors have
    started or shut down, only the removals since it has bound its socket matter to a supervisor
    that is listening: it can be reached exactly when there were none. Once it cannot be reached, it
    never can be again. And any start that succeeds by itself succeeds now, leaves the supervisor
    listening, and takes the path from it. -/
theorem reaches_iff (servers : Nat → Supervisor) (socket : Place) {x y : State} {es : List Event}
    {i : Nat} (hx : Fresh x) (hr : Runs (Step servers socket) x es y)
    (hi : y.phase i = .listening) :
    (∃ before after, es = before ++ .bind i :: after ∧ .bind i ∉ before ∧ .bind i ∉ after ∧
      (Reaches socket y i ↔ ∀ e ∈ after, ¬ e.Removes)) ∧
    (¬ Reaches socket y i → ∀ es' z, Runs (Step servers socket) y es' z → ¬ Reaches socket z i) ∧
    ∀ j disk, y.phase j = .idle → (servers j).bind socket y.disk = .ok disk →
      ∃ es' z, (∀ e ∈ es', e.Starts j) ∧ Runs (Step servers socket) y es' z ∧ z.disk = disk ∧
        z.phase i = .listening ∧ Reaches socket z j ∧ ¬ Reaches socket z i := by
  have hsound : Sound socket y := sound_of_runs hr hx.sound
  refine ⟨?_, fun hlost es' z hr' => ?_, fun j disk hj hbind => ?_⟩
  · obtain ⟨before, after, m, m', rfl, hbefore, hbind, hafter⟩ := exists_bind hr (hx.not_past i) hi
    obtain ⟨hm, hm', hholder⟩ := hbind.bind_inv
    have hpast : Past m' i := past_of_listening hm'
    have hsound' : Sound socket m' := hbind.sound (sound_of_runs hbefore hx.sound)
    refine ⟨before, after, rfl, fun h => hm (past_of_mem hbefore h), bind_not_mem hafter hpast, ?_⟩
    rw [reaches_iff_holder hsound hi, holder_of_runs hafter hsound' hpast]
    exact and_iff_right hholder
  · rw [reaches_iff_holder hsound hi] at hlost
    intro hreached
    exact hlost ((holder_of_runs hr' hsound (past_of_listening hi)).mp hreached.holder).1
  · obtain ⟨es', hstarts, hr'⟩ := runs_of_bind servers hj hbind
    have hij : i ≠ j := by
      rintro rfl
      cases hi.symm.trans hj
    have hsound' := sound_of_runs hr' hsound
    refine ⟨es', _, hstarts, hr', rfl, by simp [hij, hi], ?_, fun h => ?_⟩
    · exact (reaches_iff_holder hsound' (by simp)).mpr rfl
    · exact hij (Option.some.inj h.holder).symm

/-- Two supervisors alike, and nothing at their path. -/
def vacant : State :=
  ⟨⟨[(["s", "inbox"], .directory), (["s"], .directory)]⟩, fun _ => .idle, none⟩

/-- The disk after a start, and after another one. -/
def bound : Disk :=
  ⟨[(["s", "sock"], .socket 0o600), (["s", "pids"], .directory), (["s", "inbox"], .directory),
    (["s"], .directory)]⟩

theorem bind_vacant : Scene.bare.bind ["s", "sock"] vacant.disk = .ok bound := by decide +kernel

theorem bind_bound : Scene.bare.bind ["s", "sock"] bound = .ok bound := by decide +kernel

/-- The second of two starts takes the path from the first, which goes on listening. -/
theorem reaches_iff_second_start :
    ∃ es es' y z, Fresh vacant ∧ Runs (Step (fun _ => Scene.bare) ["s", "sock"]) vacant es y ∧
      y.phase 0 = .listening ∧ Runs (Step (fun _ => Scene.bare) ["s", "sock"]) y es' z ∧
      z.phase 0 = .listening ∧ Reaches ["s", "sock"] z 1 ∧ ¬ Reaches ["s", "sock"] z 0 := by
  have hfresh : Fresh vacant := ⟨fun _ => rfl, rfl⟩
  obtain ⟨es, -, hr⟩ := runs_of_bind (x := vacant) (i := 0) (fun _ => Scene.bare) rfl bind_vacant
  obtain ⟨-, -, hnext⟩ := reaches_iff _ _ hfresh hr (i := 0) rfl
  obtain ⟨es', z, -, hr', -, hz, hreached, hlost⟩ := hnext 1 _ rfl bind_bound
  exact ⟨es, es', _, z, hfresh, hr, rfl, hr', hz, hreached, hlost⟩

/-- Two starts at one path, and then the second supervisor is shut down: the first one is listening
    all the time, and in the end nobody can be reached. -/
theorem listening_unreached :
    ∃ es es' y z w, (∀ e ∈ es, e.Starts 0) ∧ (∀ e ∈ es', e.Starts 1) ∧
      Runs (Step (fun _ => Scene.bare) ["s", "sock"]) vacant es y ∧
      Reaches ["s", "sock"] y 0 ∧
      Runs (Step (fun _ => Scene.bare) ["s", "sock"]) y es' z ∧
      z.phase 0 = .listening ∧ ¬ Reaches ["s", "sock"] z 0 ∧ Reaches ["s", "sock"] z 1 ∧
      Runs (Step (fun _ => Scene.bare) ["s", "sock"]) z [.ask 1, .unlink 1] w ∧
      w.phase 0 = .listening ∧ ∀ i, ¬ Reaches ["s", "sock"] w i := by
  have hthere : bound.find ["s", "sock"] = .ok (some (.socket 0o600)) := by decide +kernel
  obtain ⟨es, hes, hr⟩ := runs_of_bind (x := vacant) (i := 0) (fun _ => Scene.bare) rfl bind_vacant
  obtain ⟨es', hes', hr'⟩ := runs_of_bind
    (x := (vacant.on bound (some 0)).to 0 .listening) (i := 1) (fun _ => Scene.bare) rfl bind_bound
  refine ⟨es, es', _, _, _, hes, hes', hr, ⟨⟨_, hthere⟩, rfl, .inl rfl⟩, hr', rfl, ?_,
    ⟨⟨_, hthere⟩, rfl, .inl rfl⟩, .cons (.ask _ 1 rfl) (.cons (.unlink _ 1 rfl) (.nil _)), rfl, ?_⟩
  · rintro ⟨-, hholder, -⟩
    cases hholder
  · rintro i ⟨-, hholder, -⟩
    cases hholder

end SharedSocket

end AgentSupervisor
