import AgentSupervisor.Proofs.SessionTable

/-!
# Output is collected once and in full

A process writes to its terminal and ends whenever it likes, while its session is looked at again
and again. A look asks first whether the process has ended, then reads what the terminal holds
until it holds nothing, and puts the exit code on record last.

* `runs_bytes`     : what has been read is the beginning of what was written;
* `look_drains`    : a look makes of the record what `Managed.drain` makes of it;
* `exists_look`    : the look of `Supervisor.drainAll` is one of these looks;
* `runs_accounted` : all of it, for every run.
-/

namespace AgentSupervisor

/-! ## Reading and recording -/

namespace Managed

variable {m : Managed} {ended : Option Int32}

/-- A chunk of output has been read. -/
def feed (m : Managed) (chunk : Bytes) : Managed :=
  { m with transcript := m.transcript.append chunk }

/-- A look is over: if the process has been collected by it, its exit code is put on record. -/
def settle (m : Managed) : Option Int32 → Managed
  | some code => { m with exitCode := some code }
  | none => m

theorem foldl_feed (m : Managed) (chunks : List Bytes) :
    chunks.foldl feed m = { m with transcript := chunks.foldl Transcript.append m.transcript } := by
  induction chunks generalizing m with
  | nil => rfl
  | cons chunk chunks ih =>
    rw [List.foldl_cons, ih]
    rfl

theorem isRunning_iff : m.isRunning = true ↔ m.exitCode = none := Option.isNone_iff_eq_none

/-- Draining is reading chunk by chunk, and then recording. -/
theorem drain_eq (hm : m.isRunning = true) (chunks : List Bytes) :
    m.drain ended chunks = (chunks.foldl feed m).settle ended := by
  rw [drain, if_pos hm, foldl_feed]
  cases ended with
  | none => rw [settle, ← isRunning_iff.mp hm]
  | some code => rfl

theorem chunksFrom_flatten {left : Nat} {bs : Bytes} (h : bs.length ≤ left) :
    (chunksFrom left bs).flatten = bs := by
  induction left generalizing bs with
  | zero =>
    rw [List.length_eq_zero_iff.mp (Nat.le_zero.mp h)]
    rfl
  | succ left ih =>
    rw [chunksFrom]
    split
    · rename_i hnil
      rw [List.isEmpty_iff.mp hnil]
      rfl
    · rename_i hne
      have hpos := List.length_pos_iff.mpr (mt List.isEmpty_iff.mpr hne)
      have hsize : 0 < chunkSize := by decide
      rw [List.flatten_cons, ih, List.take_append_drop]
      rw [List.length_drop]
      omega

theorem mem_chunksFrom {left : Nat} {bs c : Bytes} (h : c ∈ chunksFrom left bs) :
    c ≠ [] ∧ c.length ≤ chunkSize := by
  induction left generalizing bs with
  | zero => cases h
  | succ left ih =>
    rw [chunksFrom] at h
    split at h
    · cases h
    · rename_i hne
      rcases List.mem_cons.mp h with rfl | h
      · refine ⟨fun hnil => ?_, List.length_take_le _ _⟩
        rcases List.take_eq_nil_iff.mp hnil with hzero | hnil
        · exact absurd hzero (by decide)
        · exact hne (List.isEmpty_iff.mpr hnil)
      · exact ih h

/-- The chunks of what a terminal holds are all of it. -/
theorem chunks_flatten (bs : Bytes) : (chunks bs).flatten = bs :=
  chunksFrom_flatten (Nat.le_refl _)

end Managed

/-! ## Steps -/

/-- A session that is looked at, with its process. -/
structure Watched where
  record : Managed
  /-- what its terminal holds and nobody has read -/
  unread : Bytes := []
  /-- the exit code that is told of the process once it has ended; where none is, the process
      counts as one that has not ended and writes no more -/
  ended : Option Int32 := none
  /-- what the look in progress was told when it asked whether the process has ended -/
  look : Option (Option Int32) := none
  deriving DecidableEq

namespace Watched

/-- What happens. -/
inductive Event where
  /-- the process writes -/
  | wrote (bs : Bytes)
  /-- the process ends -/
  | ended (code : Int32)
  /-- a look begins and asks whether the process has ended -/
  | asked (answer : Option Int32)
  /-- a chunk of output is read -/
  | read (chunk : Bytes)
  /-- a look is over and gives an answer -/
  | answered (answer : Option Int32)
  deriving DecidableEq

variable {w w' w₁ w₂ : Watched} {e : Event} {es : List Event} {answer : Option Int32}

/-- The terminal holds more. -/
def write (w : Watched) (bs : Bytes) : Watched := { w with unread := w.unread ++ bs }

/-- The process has ended. -/
def exit (w : Watched) (code : Int32) : Watched := { w with ended := some code }

/-- A look has begun. -/
def begin (w : Watched) (answer : Option Int32) : Watched := { w with look := some answer }

/-- A chunk has been read, and this is left. -/
def take (w : Watched) (chunk rest : Bytes) : Watched :=
  { w with record := w.record.feed chunk, unread := rest }

/-- The look is over. -/
def finish (w : Watched) (answer : Option Int32) : Watched :=
  { w with record := w.record.settle answer, look := none }

/-- A step. -/
inductive Step : Watched → Event → Watched → Prop where
  | write (w : Watched) (bs : Bytes) (hlive : w.ended = none) : Step w (.wrote bs) (w.write bs)
  | exit (w : Watched) (code : Int32) (hlive : w.ended = none) :
      Step w (.ended code) (w.exit code)
  /-- asking can fail, and then the process counts as one that has not ended -/
  | ask (w : Watched) (answer : Option Int32) (hrun : w.record.isRunning = true)
      (hlook : w.look = none) (hanswer : ∀ code ∈ answer, w.ended = some code) :
      Step w (.asked answer) (w.begin answer)
  /-- the oldest bytes are read, at least one of them -/
  | read (w : Watched) (chunk rest : Bytes) (hlook : w.look.isSome = true)
      (hunread : w.unread = chunk ++ rest) (hne : chunk ≠ [])
      (hsize : chunk.length ≤ Managed.chunkSize) : Step w (.read chunk) (w.take chunk rest)
  /-- reading gives nothing more -/
  | finish (w : Watched) (answer : Option Int32) (hlook : w.look = some answer)
      (hunread : w.unread = []) : Step w (.answered answer) (w.finish answer)
  /-- a look at the record of a process that has been collected is over at once -/
  | pass (w : Watched) (hrun : w.record.isRunning = false) (hlook : w.look = none) :
      Step w (.answered none) w

/-- A session whose process has just been started. -/
def started (m : Managed) : Watched := { record := m }

/-- All that the process wrote. -/
def written (es : List Event) : Bytes := es.flatMap fun | .wrote bs => bs | _ => []

/-- The chunks that were read, and so given to the transcript. -/
def chunksRead (es : List Event) : List Bytes := es.filterMap fun | .read c => some c | _ => none

/-- The answers of the looks. -/
def answers (es : List Event) : List (Option Int32) :=
  es.filterMap fun | .answered answer => some answer | _ => none

/-! ## What a run keeps -/

/-- **What has been read is the beginning of what was written**, and the rest is unread. -/
theorem runs_bytes (hr : Runs Step w es w') :
    (chunksRead es).flatten ++ w'.unread = w.unread ++ written es := by
  induction hr with
  | nil => simp [chunksRead, written]
  | @cons w w' w'' e es hs hr ih =>
    cases hs with
    | write bs =>
      rw [Watched.write, List.append_assoc] at ih
      exact ih
    | exit => exact ih
    | ask => exact ih
    | read chunk rest _ hunread =>
      show (chunk ++ (chunksRead es).flatten) ++ w''.unread = w.unread ++ written es
      rw [hunread, List.append_assoc, List.append_assoc]
      exact congrArg (chunk ++ ·) ih
    | finish => exact ih
    | pass => exact ih

/-- Only what is read is given to the transcript. -/
theorem runs_transcript (hr : Runs Step w es w') :
    w'.record.transcript = (chunksRead es).foldl Transcript.append w.record.transcript := by
  induction hr with
  | nil => rfl
  | @cons w w' w'' e es hs hr ih =>
    cases hs with
    | finish answer =>
      rw [ih]
      cases answer <;> rfl
    | _ => exact ih

/-- What holds at every moment. -/
structure Sound (w : Watched) : Prop where
  /-- an exit code on record is that of the process, and nothing is left to read -/
  code : ∀ code ∈ w.record.exitCode, w.ended = some code ∧ w.unread = [] ∧ w.look = none
  /-- a look is in progress at a record without an exit code, and what it was told is true -/
  look : ∀ answer ∈ w.look, w.record.isRunning = true ∧ ∀ code ∈ answer, w.ended = some code

theorem not_mem_exitCode {m : Managed} (hm : m.isRunning = true) (code : Int32) :
    code ∉ m.exitCode := by
  rw [Managed.isRunning_iff.mp hm]
  exact Option.not_mem_none code

theorem Step.sound (hs : Step w e w') (hw : Sound w) : Sound w' := by
  obtain ⟨hcode, hlook⟩ := hw
  cases hs with
  | write bs hlive =>
    -- a process that writes has not been collected
    refine ⟨fun code hc => ?_, fun answer ha => ?_⟩
    · rw [(hcode code hc).1] at hlive
      cases hlive
    · exact hlook answer ha
  | exit code hlive =>
    refine ⟨fun c hc => ?_, fun answer ha => ⟨(hlook answer ha).1, fun c hc => ?_⟩⟩
    · rw [(hcode c hc).1] at hlive
      cases hlive
    · rw [(hlook answer ha).2 c hc] at hlive
      cases hlive
  | ask answer hrun _ hanswer =>
    refine ⟨fun code hc => absurd hc (not_mem_exitCode hrun code), fun a ha => ?_⟩
    obtain rfl := Option.some.inj ha
    exact ⟨hrun, hanswer⟩
  | read chunk rest hbegun =>
    obtain ⟨answer, ha⟩ := Option.isSome_iff_exists.mp hbegun
    exact ⟨fun code hc => absurd hc (not_mem_exitCode (hlook answer ha).1 code), hlook⟩
  | finish answer hbegun hunread =>
    obtain ⟨hrun, htrue⟩ := hlook answer hbegun
    refine ⟨fun code hc => ?_, fun a ha => by cases ha⟩
    cases answer with
    | none => exact absurd hc (not_mem_exitCode hrun code)
    | some c =>
      obtain rfl : c = code := Option.some.inj hc
      exact ⟨htrue c rfl, hunread, rfl⟩
  | pass => exact ⟨hcode, hlook⟩

theorem started_sound {m : Managed} (hm : m.isRunning = true) : Sound (started m) :=
  ⟨fun code hc => absurd hc (not_mem_exitCode hm code), fun answer ha => by cases ha⟩

theorem runs_sound (hr : Runs Step w es w') (hw : Sound w) : Sound w' :=
  hr.invariant (fun _ _ _ hs hw => hs.sound hw) hw

/-- Exit codes are answers, and an answer that is one goes on record with it. -/
theorem Step.answers (hs : Step w e w') (hw : Sound w) :
    w.record.exitCode.toList ++ (answers [e]).filterMap id = w'.record.exitCode.toList := by
  cases hs with
  | finish answer hbegun =>
    have hnone := Managed.isRunning_iff.mp (hw.look answer hbegun).1
    cases answer with
    | none =>
      show w.record.exitCode.toList ++ [] = w.record.exitCode.toList
      rw [List.append_nil]
    | some code =>
      rw [hnone]
      rfl
  | _ => exact List.append_nil _

/-- **The exit code is answered once**, when it is on record. -/
theorem runs_answers (hr : Runs Step w es w') (hw : Sound w) :
    w.record.exitCode.toList ++ (answers es).filterMap id = w'.record.exitCode.toList := by
  induction hr with
  | nil => exact List.append_nil _
  | @cons w w' w'' e es hs hr ih =>
    have hcons : answers (e :: es) = answers [e] ++ answers es := by
      cases e <;> rfl
    rw [hcons, List.filterMap_append, ← List.append_assoc, hs.answers hw, ih (hs.sound hw)]

/-- **Nothing happens to a record with an exit code** any more, and looks at it answer nothing. -/
theorem runs_collected (hr : Runs Step w es w') (hw : Sound w) {code : Int32}
    (hcode : w.record.exitCode = some code) : w' = w ∧ ∀ e ∈ es, e = .answered none := by
  induction hr with
  | nil => exact ⟨rfl, by simp⟩
  | @cons w w' w'' e es hs hr ih =>
    obtain ⟨hended, -, hlook⟩ := hw.code code hcode
    have hpass : w' = w ∧ e = .answered none := by
      cases hs with
      | write _ hlive => rw [hended] at hlive; cases hlive
      | exit _ hlive => rw [hended] at hlive; cases hlive
      | ask _ hrun => rw [Managed.isRunning_iff.mp hrun] at hcode; cases hcode
      | read _ _ hbegun => rw [hlook] at hbegun; cases hbegun
      | finish _ hbegun => rw [hlook] at hbegun; cases hbegun
      | pass => exact ⟨rfl, rfl⟩
    obtain ⟨rfl, rfl⟩ := hpass
    obtain ⟨hsame, hrest⟩ := ih hw hcode
    exact ⟨hsame, List.forall_mem_cons.mpr ⟨rfl, hrest⟩⟩

/-! ## Whole looks -/

/-- While a look is in progress, only reading changes the record. -/
theorem runs_during (hr : Runs Step w es w') (hlook : w.look = some answer)
    (hnone : answers es = []) :
    w'.look = some answer ∧ w'.record = (chunksRead es).foldl Managed.feed w.record := by
  induction hr with
  | nil => exact ⟨hlook, rfl⟩
  | @cons w w' w'' e es hs hr ih =>
    cases hs with
    | write => exact ih hlook hnone
    | exit => exact ih hlook hnone
    | ask _ _ hfree => rw [hlook] at hfree; cases hfree
    | read => exact ih hlook hnone
    | finish => cases hnone
    | pass => cases hnone

/-- **A look makes of the record what draining makes of it**, with what it was told and the chunks
    that it read, whatever happened meanwhile, and answers what it was told. -/
theorem look_drains {told : Option Int32} (hask : Step w (.asked told) w₁)
    (hr : Runs Step w₁ es w₂) (hnone : answers es = []) (hend : Step w₂ (.answered answer) w') :
    answer = told ∧ w'.record = w.record.drain told (chunksRead es) := by
  cases hask with
  | ask _ hrun =>
    obtain ⟨hlook, hrecord⟩ := runs_during hr rfl hnone
    cases hend with
    | finish _ hbegun =>
      obtain rfl := Option.some.inj (hlook.symm.trans hbegun)
      rw [Managed.drain_eq hrun]
      exact ⟨rfl, congrArg (Managed.settle · told) hrecord⟩
    | pass _ hfree => rw [hlook] at hfree; cases hfree

/-- All that a terminal holds can be read in chunks. -/
theorem exists_reads (w : Watched) (chunks : List Bytes) (hlook : w.look.isSome = true)
    (hunread : w.unread = chunks.flatten)
    (hchunks : ∀ c ∈ chunks, c ≠ [] ∧ c.length ≤ Managed.chunkSize) :
    Runs Step w (chunks.map .read) { w with record := chunks.foldl Managed.feed w.record, unread := [] } := by
  induction chunks generalizing w with
  | nil =>
    have hsame : { w with unread := [] } = w := by rw [← List.flatten_nil, ← hunread]
    rw [List.foldl_nil, hsame]
    exact .nil w
  | cons chunk chunks ih =>
    obtain ⟨⟨hne, hsize⟩, hrest⟩ := List.forall_mem_cons.mp hchunks
    exact .cons (.read w chunk chunks.flatten hlook hunread hne hsize)
      (ih (w.take chunk chunks.flatten) hlook rfl hrest)

/-- **A look that nothing interrupts** takes all that the terminal holds. -/
theorem exists_look (hrun : w.record.isRunning = true) (hlook : w.look = none) :
    ∃ w', Runs Step w (.asked w.ended :: ((Managed.chunks w.unread).map .read ++ [.answered w.ended]))
        w' ∧ w'.record = w.record.drain w.ended (Managed.chunks w.unread) ∧ w'.unread = [] := by
  have hask : Step w (.asked w.ended) (w.begin w.ended) :=
    .ask w w.ended hrun hlook fun _ h => h
  have hreads := exists_reads (w.begin w.ended) (Managed.chunks w.unread) rfl
    (Managed.chunks_flatten w.unread).symm fun c hc => Managed.mem_chunksFrom hc
  have hend := Step.finish { w.begin w.ended with
    record := (Managed.chunks w.unread).foldl Managed.feed w.record, unread := [] } w.ended rfl rfl
  exact ⟨_, .cons hask (hreads.concat hend), (Managed.drain_eq hrun _).symm, rfl⟩

/-- **The supervisor's look at a record** is such a look at its process. -/
theorem exists_look_drainAll {m : Managed} {h : Host} {c : Child} (hrun : m.isRunning = true)
    (hc : h.child? m.pid = some c) (ms : List Managed) :
    ∃ w', Runs Step ⟨m, c.output, c.code?, none⟩
        (.asked c.code? :: ((Managed.chunks c.output).map .read ++ [.answered c.code?])) w' ∧
      (Supervisor.drainAll (m :: ms) h).1.head? = some w'.record := by
  obtain ⟨w', hr, hrecord, -⟩ := exists_look (w := ⟨m, c.output, c.code?, none⟩) hrun rfl
  refine ⟨w', hr, ?_⟩
  have houtput : (h.collect m.pid).1 = c.output ∧ (h.collect m.pid).2.1 = c.code? := by
    unfold Host.collect
    rw [hc]
    simp only
    split
    · exact ⟨rfl, rfl⟩
    · rename_i hlife
      rw [Child.code?, Option.not_isSome_iff_eq_none.mp hlife]
      exact ⟨rfl, rfl⟩
  rw [Supervisor.drainAll, if_pos hrun, hrecord, ← houtput.1, ← houtput.2]
  rfl

/-! ## Every run -/

/-- What is true of every run `es` since the process of a record was started. -/
structure Accounted (m : Managed) (es : List Event) (w : Watched) : Prop where
  /-- what has been read are the first bytes that were written, in order and each once -/
  bytes : (chunksRead es).flatten ++ w.unread = written es
  /-- that is what the transcript was given -/
  transcript : w.record.transcript = (chunksRead es).foldl Transcript.append m.transcript
  /-- with an exit code on record, it is all that was written -/
  complete : ∀ code, w.record.exitCode = some code →
    w.ended = some code ∧ (chunksRead es).flatten = written es
  /-- the exit code on record has been answered once, and no other has -/
  once : (answers es).filterMap id = w.record.exitCode.toList
  /-- it is the look that puts it on record which answers it -/
  recorded : ∀ e w', Step w e w' → ∀ code, e = .answered (some code) ↔
    w.record.exitCode = none ∧ w'.record.exitCode = some code
  /-- later looks change nothing -/
  final : ∀ code, w.record.exitCode = some code → ∀ es' w', Runs Step w es' w' →
    w' = w ∧ ∀ e ∈ es', e = .answered none
  /-- a look that begins here makes of the record what draining makes of it -/
  look : ∀ told w₁ during w₂ answer w', Step w (.asked told) w₁ → Runs Step w₁ during w₂ →
    answers during = [] → Step w₂ (.answered answer) w' →
      answer = told ∧ w'.record = w.record.drain told (chunksRead during)
  /-- and it can, so the exit code of a process that has ended goes on record -/
  next : w.record.isRunning = true → w.look = none → ∃ w',
    Runs Step w (.asked w.ended :: ((Managed.chunks w.unread).map .read ++ [.answered w.ended])) w' ∧
      w'.record = w.record.drain w.ended (Managed.chunks w.unread) ∧ w'.unread = []

theorem Step.answered_iff (hs : Step w e w') (hw : Sound w) (code : Int32) :
    e = .answered (some code) ↔ w.record.exitCode = none ∧ w'.record.exitCode = some code := by
  have hkept (hsame : w'.record.exitCode = w.record.exitCode) (hne : e ≠ .answered (some code)) :
      e = .answered (some code) ↔
        w.record.exitCode = none ∧ w'.record.exitCode = some code := by
    refine iff_of_false hne fun ⟨hnone, hsome⟩ => ?_
    rw [hsame, hnone] at hsome
    cases hsome
  cases hs with
  | finish answer hbegun =>
    have hnone := Managed.isRunning_iff.mp (hw.look answer hbegun).1
    cases answer with
    | none => exact hkept rfl (by simp)
    | some c =>
      show _ ↔ w.record.exitCode = none ∧ some c = some code
      simp [hnone]
  | _ => exact hkept rfl (by simp)

/-- **No output is lost or repeated, and the exit code is answered once**, however the process
    writes and ends while it is looked at. -/
theorem runs_accounted {m : Managed} (hm : m.isRunning = true) (hr : Runs Step (started m) es w) :
    Accounted m es w := by
  have hsound := runs_sound hr (started_sound hm)
  have hbytes := runs_bytes hr
  have hanswers := runs_answers hr (started_sound hm)
  have hnone : (started m).record.exitCode = none := Managed.isRunning_iff.mp hm
  rw [hnone] at hanswers
  exact {
    bytes := hbytes
    transcript := runs_transcript hr
    complete := fun code hcode => by
      obtain ⟨hended, hunread, -⟩ := hsound.code code hcode
      rw [hunread, List.append_nil] at hbytes
      exact ⟨hended, hbytes⟩
    once := hanswers
    recorded := fun e w' hs code => hs.answered_iff hsound code
    final := fun code hcode es' w' hr' => runs_collected hr' hsound hcode
    look := fun told w₁ during w₂ answer w' => look_drains
    next := exists_look }

/-- The record of a session that has just been started. -/
def fresh : Managed where
  session := ⟨"a", .claude, .terminal, "true", "/s/pids/a.pid", ⟨"a"⟩, 0, []⟩
  pid := 4000

/-- A process that writes and ends while it is looked at for the first time. -/
def lastWords : List Event :=
  [.wrote [104, 101], .asked none, .read [104], .wrote [108, 112], .ended 3, .read [101, 108],
    .read [112], .answered none, .asked (some 3), .answered (some 3), .answered none]

/-- All of it is read by that look, and the next one answers the exit code. -/
theorem runs_accounted_lastWords : ∃ w, fresh.isRunning = true ∧
    Runs Step (started fresh) lastWords w ∧ w.record.exitCode = some 3 ∧
      (chunksRead lastWords).flatten = written lastWords ∧ Accounted fresh lastWords w := by
  have hr : Runs Step (started fresh) lastWords _ :=
    .cons (.write _ _ rfl) <| .cons (.ask _ none rfl rfl (by simp)) <|
    .cons (.read _ [104] [101] rfl rfl (by simp) (by decide)) <|
    .cons (.write _ _ rfl) <| .cons (.exit _ 3 rfl) <|
    .cons (.read _ [101, 108] [112] rfl rfl (by simp) (by decide)) <|
    .cons (.read _ [112] [] rfl rfl (by simp) (by decide)) <|
    .cons (.finish _ none rfl rfl) <| .cons (.ask _ (some 3) rfl rfl (by simp; rfl)) <|
    .cons (.finish _ (some 3) rfl rfl) <| .cons (.pass _ rfl rfl) <| .nil _
  have haccounted := runs_accounted (m := fresh) rfl hr
  exact ⟨_, rfl, hr, rfl, (haccounted.complete 3 rfl).2, haccounted⟩

end Watched

end AgentSupervisor
