import AgentSupervisor.Toml.Reader
import AgentSupervisor.Proofs.Overlays
import Mathlib.Data.List.Nodup

/-!
# What a document of TOML can hold

The integers of a document have 64 bits with a sign, and none of its tables sets a key twice.
Both also hold of documents that are laid over each other.

* `Sound`         : values of which this is true, down to the last;
* `parse?_sound`  : the table of a document;
* `Sound.overlay` : one laid over another.
-/

namespace AgentSupervisor.Toml

variable {k : String} {v : Toml} {es : Entries}

/-- A value with integers of 64 bits, and with tables that set no key twice. -/
inductive Sound : Toml → Prop
  | string (s : String) : Sound (.string s)
  | integer {n : Int} (h : inRange n = true) : Sound (.integer n)
  | float (text : String) : Sound (.float text)
  | boolean (b : Bool) : Sound (.boolean b)
  | moment (text : String) : Sound (.moment text)
  | array {vs : List Toml} (h : ∀ v ∈ vs, Sound v) : Sound (.array vs)
  | table {es : Entries} (distinct : (es.map Prod.fst).Nodup) (h : ∀ e ∈ es, Sound e.2) :
    Sound (.table es)

theorem sound_table :
    Sound (.table es) ↔ (es.map Prod.fst).Nodup ∧ ∀ e ∈ es, Sound e.2 := by
  refine ⟨fun h => ?_, fun h => .table h.1 h.2⟩
  cases h with
  | table distinct h => exact ⟨distinct, h⟩

/-! ## Tables in the making -/

/-- What stands at a key of an unfinished table, when all of it is sound. -/
inductive Node.Sound : Node → Prop
  | value {v : Toml} (h : Toml.Sound v) : Node.Sound (.value v)
  | table {origin : Origin} {d : List (String × Node)} (distinct : (d.map Prod.fst).Nodup)
      (h : ∀ e ∈ d, Node.Sound e.2) : Node.Sound (.table origin d)
  | tables {ds : List (List (String × Node))} (distinct : ∀ d ∈ ds, (d.map Prod.fst).Nodup)
      (h : ∀ d ∈ ds, ∀ e ∈ d, Node.Sound e.2) : Node.Sound (.tables ds)

namespace Draft

variable {d d' : Draft} {n : Node}

/-- An unfinished table that is sound. -/
structure Sound (d : Draft) : Prop where
  distinct : (d.map Prod.fst).Nodup
  nodes : ∀ e ∈ d, Node.Sound e.2

theorem sound_nil : Sound [] := ⟨List.nodup_nil, nofun⟩

theorem Sound.node (h : Sound d) (origin : Origin) : Node.Sound (.table origin d) :=
  .table h.distinct h.nodes

theorem sound_of_node {origin : Origin} (h : Node.Sound (.table origin d)) : Sound d := by
  cases h with
  | table distinct h => exact ⟨distinct, h⟩

theorem sound_of_tables {ds : List Draft} (h : Node.Sound (.tables ds)) (hd : d ∈ ds) :
    Sound d := by
  cases h with
  | tables distinct h => exact ⟨distinct d hd, h d hd⟩

theorem node_tables {ds : List Draft} (h : ∀ d ∈ ds, Sound d) : Node.Sound (.tables ds) :=
  .tables (fun d hd => (h d hd).distinct) fun d hd => (h d hd).nodes

theorem Sound.find? (h : Sound d) (hfind : Draft.find? k d = some n) : Node.Sound n := by
  obtain ⟨-, hnodes⟩ := h
  induction d with
  | nil => cases hfind
  | cons e d ih =>
    rw [Draft.find?] at hfind
    split at hfind
    · cases hfind
      exact hnodes e List.mem_cons_self
    · exact ih hfind fun e' he' => hnodes e' (List.mem_cons_of_mem e he')

theorem keys_put (k : String) (n : Node) (d : Draft) :
    (put k n d).map Prod.fst =
      if k ∈ d.map Prod.fst then d.map Prod.fst else d.map Prod.fst ++ [k] := by
  induction d with
  | nil => rfl
  | cons e d ih =>
    rw [put]
    by_cases h : e.1 = k
    · simp [h]
    · rw [if_neg h, List.map_cons, ih]
      simp only [List.map_cons, List.mem_cons, Ne.symm h, false_or]
      split <;> rfl

theorem mem_put {e : String × Node} (h : e ∈ put k n d) : e = (k, n) ∨ e ∈ d := by
  induction d with
  | nil => exact .inl (List.mem_singleton.mp h)
  | cons e' d ih =>
    rw [put] at h
    split at h
    · exact (List.mem_cons.mp h).imp id (List.mem_cons_of_mem e')
    · rcases List.mem_cons.mp h with h | h
      · exact .inr (h ▸ List.mem_cons_self)
      · exact (ih h).imp id (List.mem_cons_of_mem e')

theorem Sound.put (h : Sound d) (hn : Node.Sound n) (k : String) : Sound (put k n d) where
  distinct := by
    rw [keys_put]
    split
    · exact h.distinct
    · rename_i hnew
      exact h.distinct.append (List.nodup_singleton k) (by simpa using hnew)
  nodes e he := by
    rcases mem_put he with rfl | he
    · exact hn
    · exact h.nodes e he

/-! ### Finishing -/

theorem finish_eq_map (d : Draft) : finish d = d.map fun e => (e.1, finishNode e.2) := by
  induction d with
  | nil => rfl
  | cons e d ih => exact congrArg (_ :: ·) ih

theorem finishAll_eq_map (ds : List Draft) :
    finishAll ds = ds.map fun d => .table (finish d) := by
  induction ds with
  | nil => rfl
  | cons d ds ih => exact congrArg (_ :: ·) ih

theorem keys_finish (d : Draft) : (finish d).map Prod.fst = d.map Prod.fst := by
  rw [finish_eq_map, List.map_map]
  rfl

theorem sound_finishNode (h : Node.Sound n) : Toml.Sound (finishNode n) := by
  induction h with
  | value h => exact h
  | @table origin d distinct _ ih =>
    refine .table (keys_finish d ▸ distinct) ?_
    rw [finish_eq_map]
    rintro _ he
    obtain ⟨e, hmem, rfl⟩ := List.mem_map.mp he
    exact ih e hmem
  | @tables ds distinct _ ih =>
    refine .array ?_
    rw [finishAll_eq_map]
    rintro _ hv
    obtain ⟨d, hd, rfl⟩ := List.mem_map.mp hv
    refine .table (keys_finish d ▸ distinct d hd) ?_
    rw [finish_eq_map]
    rintro _ he
    obtain ⟨e, hmem, rfl⟩ := List.mem_map.mp he
    exact ih d hd e hmem

theorem Sound.finish (h : Sound d) : Toml.Sound (.table (finish d)) :=
  sound_finishNode (h.node .header)

/-! ### Entries and headers -/

/-- A changed table goes back to the end of its list. -/
theorem node_last {ds : List Draft} (h : Node.Sound (.tables ds)) (hd : Sound d) :
    Node.Sound (.tables (ds.dropLast ++ [d])) := by
  refine node_tables fun d' hd' => ?_
  rcases List.mem_append.mp hd' with hd' | hd'
  · exact sound_of_tables h (List.dropLast_subset ds hd')
  · exact List.mem_singleton.mp hd' ▸ hd

theorem sound_enter {ks : List String} (h : Sound d) (hv : Toml.Sound v)
    (henter : enter v ks d = some d') : Sound d' := by
  fun_induction enter v ks d generalizing d' with
  | case1 | case3 | case5 | case6 | case8 | case9 | case11 => cases henter
  | case2 =>
    cases henter
    exact h.put (.value hv) _
  | case4 _ _ _ _ _ ih =>
    obtain ⟨t, ht, rfl⟩ := Option.map_eq_some_iff.mp henter
    exact h.put ((ih sound_nil ht).node _) _
  | case7 _ _ _ _ _ _ _ hfind _ ih =>
    obtain ⟨t, ht, rfl⟩ := Option.map_eq_some_iff.mp henter
    exact h.put ((ih (sound_of_node (h.find? hfind)) ht).node _) _
  | case10 _ _ _ _ _ hfind t hlast _ ih =>
    obtain ⟨t', ht, rfl⟩ := Option.map_eq_some_iff.mp henter
    have hlist := h.find? hfind
    have hmember := sound_of_tables hlist (List.mem_of_getLast? hlast)
    exact h.put (node_last hlist (ih hmember ht)) _

theorem sound_change {f : Draft → Option Draft}
    (hf : ∀ d d', Sound d → f d = some d' → Sound d') {ks : List String} (h : Sound d)
    (hchange : change f ks d = some d') : Sound d' := by
  fun_induction change f ks d generalizing d' with
  | case1 d => exact hf _ _ h hchange
  | case2 _ _ _ _ ih =>
    obtain ⟨t, ht, rfl⟩ := Option.map_eq_some_iff.mp hchange
    exact h.put ((ih sound_nil ht).node _) _
  | case3 _ _ _ _ _ hfind ih =>
    obtain ⟨t, ht, rfl⟩ := Option.map_eq_some_iff.mp hchange
    exact h.put ((ih (sound_of_node (h.find? hfind)) ht).node _) _
  | case4 | case6 => cases hchange
  | case5 _ _ _ _ hfind t hlast ih =>
    obtain ⟨t', ht, rfl⟩ := Option.map_eq_some_iff.mp hchange
    have hlist := h.find? hfind
    have hmember := sound_of_tables hlist (List.mem_of_getLast? hlast)
    exact h.put (node_last hlist (ih hmember ht)) _

theorem sound_look {ks : List String} (h : Sound d) (hlook : look ks d = some (some n)) :
    Node.Sound n := by
  fun_induction look ks d with
  | case1 | case3 | case5 | case7 => cases hlook
  | case2 => exact h.find? (Option.some.inj hlook)
  | case4 _ _ _ _ _ _ hfind ih => exact ih (sound_of_node (h.find? hfind)) hlook
  | case6 _ _ _ _ _ hfind t hlast ih =>
    exact ih (sound_of_tables (h.find? hfind) (List.mem_of_getLast? hlast)) hlook

/-- What folds of steps keep. -/
theorem foldlM_keeps {α β : Type} {P : β → Prop} {Q : α → Prop} {f : β → α → Option β}
    (hf : ∀ b a b', P b → Q a → f b a = some b' → P b') {as : List α} {b b' : β}
    (hb : P b) (has : ∀ a ∈ as, Q a) (h : as.foldlM f b = some b') : P b' := by
  induction as generalizing b with
  | nil => exact Option.some.inj h ▸ hb
  | cons a as ih =>
    rw [List.foldlM_cons] at h
    obtain ⟨b₁, hstep, hrest⟩ := Option.bind_eq_some_iff.mp h
    exact ih (hf b a b₁ hb (has a List.mem_cons_self) hstep)
      (fun a' ha' => has a' (List.mem_cons_of_mem a ha')) hrest

theorem sound_ofPairs? {ps : List (List String × Toml)} (hps : ∀ p ∈ ps, Toml.Sound p.2)
    (h : ofPairs? ps = some es) : Toml.Sound (.table es) := by
  obtain ⟨d, hd, rfl⟩ := Option.map_eq_some_iff.mp h
  exact (foldlM_keeps (P := Sound) (fun _ _ _ => sound_enter) sound_nil hps hd).finish

end Draft

namespace Building

/-- The tables of a document while it is read, when all of them are sound. -/
structure Sound (b : Building) : Prop where
  closed : b.closed.Sound
  current : b.current.Sound

/-- A statement whose value is sound. -/
def SoundStatement : Statement → Prop
  | .entry _ v => Toml.Sound v
  | _ => True

variable {b b' : Building} {s : Statement}

theorem Sound.close {d : Draft} (h : Sound b) (hclose : b.close = some d) : d.Sound := by
  rw [Building.close] at hclose
  split at hclose
  · cases hclose
    exact h.current
  · refine Draft.sound_change (fun d d' hd hput => ?_) h.closed hclose
    split at hput
    · split at hput
      · cases hput
        exact hd.put (Draft.node_tables (by simpa using h.current)) _
      · rename_i ts hfind
        cases hput
        refine hd.put (Draft.node_tables fun t ht => ?_) _
        rcases List.mem_append.mp ht with ht | ht
        · exact Draft.sound_of_tables (hd.find? hfind) ht
        · exact List.mem_singleton.mp ht ▸ h.current
      · cases hput
    · cases hput
      exact hd.put (h.current.node _) _

theorem Sound.step (h : Sound b) (hs : SoundStatement s) (hstep : b.step s = some b') :
    Sound b' := by
  cases s with
  | entry keys v =>
    obtain ⟨d, hd, rfl⟩ := Option.map_eq_some_iff.mp hstep
    exact ⟨h.closed, Draft.sound_enter h.current hs hd⟩
  | header path =>
    obtain ⟨closed, hclose, hopen⟩ := Option.bind_eq_some_iff.mp hstep
    obtain ⟨found, hlook, hopen⟩ := Option.bind_eq_some_iff.mp hopen
    have hclosed := h.close hclose
    split at hopen
    · cases hopen
      exact ⟨hclosed, Draft.sound_nil⟩
    · cases hopen
      exact ⟨hclosed, Draft.sound_of_node (Draft.sound_look hclosed hlook)⟩
    · cases hopen
  | listHeader path =>
    obtain ⟨closed, hclose, hopen⟩ := Option.bind_eq_some_iff.mp hstep
    obtain ⟨found, hlook, hopen⟩ := Option.bind_eq_some_iff.mp hopen
    have hclosed := h.close hclose
    split at hopen
    · cases hopen
      exact ⟨hclosed, Draft.sound_nil⟩
    · cases hopen
      exact ⟨hclosed, Draft.sound_nil⟩
    · cases hopen

theorem sound_run {ss : List Statement} (hss : ∀ s ∈ ss, SoundStatement s)
    (h : run ss = some es) : Toml.Sound (.table es) := by
  obtain ⟨b, hb, hfinish⟩ := Option.bind_eq_some_iff.mp h
  obtain ⟨d, hd, hes⟩ := Option.bind_eq_some_iff.mp hfinish
  have hsound : Sound b := Draft.foldlM_keeps (P := Sound) (fun _ _ _ => Sound.step)
    ⟨Draft.sound_nil, Draft.sound_nil⟩ hss hb
  cases hes
  exact (hsound.close hd).finish

end Building

/-! ## Values in a text -/

variable {cs : List Char} {p : Toml × List Char}

theorem sound_basedInteger {base : Nat} (h : basedInteger base cs = some p) : Sound p.1 := by
  obtain ⟨⟨ds, r⟩, -, h⟩ := Option.bind_eq_some_iff.mp h
  simp only [Option.ite_none_right_eq_some, Option.some.injEq] at h
  obtain ⟨hrange, rfl⟩ := h
  exact .integer hrange

theorem sound_ofParts {s : Option Char} {whole frac : List Char} {exp : List Char × Int}
    (h : ofParts s whole frac exp = some v) : Sound v := by
  simp only [ofParts] at h
  split at h
  · cases h
  · cases h
    exact .float _

theorem sound_decimalNumber {s : Option Char} (h : decimalNumber s cs = some p) : Sound p.1 := by
  obtain ⟨⟨whole, r⟩, -, h⟩ := Option.bind_eq_some_iff.mp h
  simp only at h
  split at h
  · obtain ⟨⟨frac, r1⟩, -, h⟩ := Option.bind_eq_some_iff.mp h
    obtain ⟨⟨text, e, r2⟩, -, h⟩ := Option.bind_eq_some_iff.mp h
    obtain ⟨v, hv, h⟩ := Option.bind_eq_some_iff.mp h
    cases h
    exact sound_ofParts hv
  · obtain ⟨⟨text, e, r2⟩, -, h⟩ := Option.bind_eq_some_iff.mp h
    obtain ⟨v, hv, h⟩ := Option.bind_eq_some_iff.mp h
    cases h
    exact sound_ofParts hv
  · obtain ⟨⟨text, e, r2⟩, -, h⟩ := Option.bind_eq_some_iff.mp h
    obtain ⟨v, hv, h⟩ := Option.bind_eq_some_iff.mp h
    cases h
    exact sound_ofParts hv
  · simp only [Option.ite_none_right_eq_some, Option.some.injEq] at h
    obtain ⟨hrange, rfl⟩ := h
    exact .integer hrange

theorem sound_signedNumber {s : Option Char} (h : signedNumber s cs = some p) : Sound p.1 := by
  rw [signedNumber.eq_def] at h
  split at h
  · cases h
    exact .float _
  · cases h
    exact .float _
  · exact sound_decimalNumber h

theorem sound_ofMoment {m : Option (Moment × List Char)} (h : m.map ofMoment = some p) :
    Sound p.1 := by
  obtain ⟨_, -, rfl⟩ := Option.map_eq_some_iff.mp h
  exact .moment _

theorem sound_numberOrMoment (h : numberOrMoment cs = some p) : Sound p.1 := by
  rw [numberOrMoment.eq_def] at h
  split at h
  · exact sound_basedInteger h
  · exact sound_basedInteger h
  · exact sound_basedInteger h
  · split at h
    · split at h
      · exact sound_signedNumber h
      · exact sound_ofMoment h
    · exact sound_ofMoment h
    · exact sound_signedNumber h

/-- What is read with some fuel is sound: values, the items of arrays and the entries of tables in
    braces. -/
structure SoundAt (fuel : Nat) : Prop where
  value : ∀ depth cs p, value fuel depth cs = some p → Sound p.1
  items : ∀ depth cs p, items fuel depth cs = some p → ∀ v ∈ p.1, Sound v
  pairs : ∀ depth cs p, pairs fuel depth cs = some p → ∀ e ∈ p.1, Sound e.2

theorem sound_value_succ {fuel depth : Nat} (ih : SoundAt fuel)
    (h : Toml.value (fuel + 1) depth cs = some p) : Sound p.1 := by
  rw [Toml.value.eq_def] at h
  simp only at h
  split at h
  · cases h
    exact .boolean _
  · cases h
    exact .boolean _
  · split at h
    · cases h
    · obtain ⟨q, hq, rfl⟩ := Option.map_eq_some_iff.mp h
      exact .array (ih.items _ _ q hq)
  · split at h
    · cases h
    · split at h
      · cases h
        exact .table List.nodup_nil nofun
      · obtain ⟨q, hq, h⟩ := Option.bind_eq_some_iff.mp h
        obtain ⟨es, hes, h⟩ := Option.bind_eq_some_iff.mp h
        cases h
        exact Draft.sound_ofPairs? (ih.pairs _ _ q hq) hes
  · obtain ⟨q, -, rfl⟩ := Option.map_eq_some_iff.mp h
    exact .string _
  · obtain ⟨q, -, rfl⟩ := Option.map_eq_some_iff.mp h
    exact .string _
  · exact sound_numberOrMoment h

theorem sound_items_succ {fuel depth : Nat} {q : List Toml × List Char} (ih : SoundAt fuel)
    (h : Toml.items (fuel + 1) depth cs = some q) : ∀ v ∈ q.1, Sound v := by
  rw [Toml.items.eq_def] at h
  simp only at h
  obtain ⟨r, -, h⟩ := Option.bind_eq_some_iff.mp h
  split at h
  · cases h
    nofun
  · obtain ⟨x, hx, h⟩ := Option.bind_eq_some_iff.mp h
    obtain ⟨r', -, h⟩ := Option.bind_eq_some_iff.mp h
    have hsound := ih.value _ _ x hx
    split at h
    · obtain ⟨q', hq', rfl⟩ := Option.map_eq_some_iff.mp h
      exact List.forall_mem_cons.mpr ⟨hsound, ih.items _ _ q' hq'⟩
    · cases h
      exact List.forall_mem_singleton.mpr hsound
    · cases h

theorem sound_pairs_succ {fuel depth : Nat} {q : List (List String × Toml) × List Char}
    (ih : SoundAt fuel) (h : Toml.pairs (fuel + 1) depth cs = some q) :
    ∀ e ∈ q.1, Sound e.2 := by
  rw [Toml.pairs.eq_def] at h
  simp only at h
  obtain ⟨r, -, h⟩ := Option.bind_eq_some_iff.mp h
  split at h
  · obtain ⟨x, hx, h⟩ := Option.bind_eq_some_iff.mp h
    have hsound := ih.value _ _ x hx
    split at h
    · obtain ⟨q', hq', rfl⟩ := Option.map_eq_some_iff.mp h
      exact List.forall_mem_cons.mpr ⟨hsound, ih.pairs _ _ q' hq'⟩
    · cases h
      exact List.forall_mem_singleton.mpr hsound
    · cases h
  · cases h

theorem soundAt (fuel : Nat) : SoundAt fuel := by
  induction fuel with
  | zero => exact ⟨nofun, nofun, nofun⟩
  | succ fuel ih =>
    exact ⟨fun _ _ _ => sound_value_succ ih, fun _ _ _ => sound_items_succ ih,
      fun _ _ _ => sound_pairs_succ ih⟩

/-! ## Documents -/

theorem sound_statement {q : Statement × List Char} (h : statement cs = some q) :
    Building.SoundStatement q.1 := by
  rw [statement.eq_def] at h
  split at h
  · obtain ⟨r, -, h⟩ := Option.bind_eq_some_iff.mp h
    split at h
    · obtain ⟨r', -, h⟩ := Option.bind_eq_some_iff.mp h
      cases h
      trivial
    · cases h
  · obtain ⟨r, -, h⟩ := Option.bind_eq_some_iff.mp h
    split at h
    · obtain ⟨r', -, h⟩ := Option.bind_eq_some_iff.mp h
      cases h
      trivial
    · cases h
  · obtain ⟨r, -, h⟩ := Option.bind_eq_some_iff.mp h
    split at h
    · obtain ⟨x, hx, h⟩ := Option.bind_eq_some_iff.mp h
      obtain ⟨r', -, h⟩ := Option.bind_eq_some_iff.mp h
      cases h
      exact (soundAt _).value _ _ x hx
    · cases h

theorem sound_statements {fuel : Nat} {ss : List Statement} (h : statements fuel cs = some ss) :
    ∀ s ∈ ss, Building.SoundStatement s := by
  induction fuel generalizing cs ss with
  | zero => cases h
  | succ fuel ih =>
    rw [statements.eq_def] at h
    simp only at h
    split at h
    · cases h
      nofun
    · obtain ⟨r, -, h⟩ := Option.bind_eq_some_iff.mp h
      exact ih h
    · exact ih h
    · exact ih h
    · obtain ⟨q, hq, h⟩ := Option.bind_eq_some_iff.mp h
      obtain ⟨rest, hrest, h⟩ := Option.bind_eq_some_iff.mp h
      cases h
      exact List.forall_mem_cons.mpr ⟨sound_statement hq, ih hrest⟩

/-- **The table of a document is sound.** -/
theorem parse?_sound (h : parse? cs = some es) : Sound (.table es) := by
  obtain ⟨ss, hss, hrun⟩ := Option.bind_eq_some_iff.mp h
  exact Building.sound_run (sound_statements hss) hrun

/-! ## Documents laid over each other -/

theorem Sound.find? (h : Sound (.table es)) (hfind : Toml.find? k es = some v) : Sound v :=
  (sound_table.mp h).2 _ (mem_of_find? hfind)

theorem keys_overlay_distinct {base top : Entries} (h : (base.map Prod.fst).Nodup) :
    ((overlay base top).map Prod.fst).Nodup := by
  induction top with
  | nil => exact h
  | cons e top ih => exact put_distinct ih

theorem sound_under {old : Option Toml} (h : ∀ w, old = some w → Sound w) :
    Sound (.table (under old)) := by
  rcases old with - | w
  · exact .table List.nodup_nil nofun
  · have hw := h w rfl
    cases w with
    | table => exact hw
    | _ => exact .table List.nodup_nil nofun

theorem Sound.onto (h : Sound v) {old : Option Toml} (hold : ∀ w, old = some w → Sound w) :
    Sound (Toml.onto old v) := by
  induction h generalizing old with
  | string | float | boolean | moment => constructor
  | integer h => exact .integer h
  | array h => exact .array h
  | @table es distinct h ih =>
    rcases onto_table old es with heq | heq
    · rw [heq]
      exact .table distinct h
    · have hbase := sound_under hold
      rw [heq]
      refine .table (keys_overlay_distinct (sound_table.mp hbase).1) fun e he => ?_
      rcases mem_overlay he with he | ⟨w, hw, heq⟩
      · exact (sound_table.mp hbase).2 e he
      · exact heq ▸ ih _ hw fun w hfind => hbase.find? hfind

theorem Sound.overlay {base top : Entries} (hbase : Sound (.table base))
    (htop : Sound (.table top)) : Sound (.table (overlay base top)) := by
  have h : Sound (Toml.onto (some (.table base)) (.table top)) :=
    htop.onto fun w hw => Option.some.inj hw ▸ hbase
  exact h

end AgentSupervisor.Toml

namespace AgentSupervisor.Config

open Toml (Entries)

/-- Sound layers make a sound table. -/
theorem sound_merged {layers : List Entries} (h : ∀ l ∈ layers, Toml.Sound (.table l)) :
    Toml.Sound (.table (merged layers)) := by
  induction layers using List.reverseRecOn with
  | nil => exact .table List.nodup_nil nofun
  | append_singleton layers l ih =>
    rw [merged_concat]
    exact (ih fun l' hl' => h l' (List.mem_append_left _ hl')).overlay
      (h l (List.mem_append_right _ (List.mem_singleton.mpr rfl)))

end AgentSupervisor.Config
