import AgentSupervisor.Json.Shape
import AgentSupervisor.Proofs.JsonRoundtrip

/-!
# Shapes that are read back

What is written for a record, an alternative or a field is read back by the reader for it.

* `Codec`          : a writer, and a reader for all that it writes;
* `fields?_object` : a record gives the values of its fields;
* `tagged?_tag`    : an alternative gives its name and its fields;
* `Codec.line`     : what is written is one line of text, which spells what was written.
-/

namespace AgentSupervisor.Json

/-! ## Codecs -/

/-- Whatever is written is read back, and has at most `depth` arrays and objects within each
    other. -/
structure Codec {α : Type} (write : α → Json) (read : Json → Option α) (depth : Nat) : Prop where
  reads : ∀ a, read (write a) = some a
  fits : ∀ a, Fits depth (write a)

/-! ## Depths -/

theorem fitItems_iff {d : Nat} {js : List Json} : FitItems d js ↔ ∀ j ∈ js, Fits d j := by
  induction js with
  | nil => simp [FitItems]
  | cons j js ih => simp [FitItems, ih]

theorem fitMembers_iff {d : Nat} {ms : List (String × Json)} :
    FitMembers d ms ↔ ∀ m ∈ ms, Fits d m.2 := by
  induction ms with
  | nil => simp [FitMembers]
  | cons m ms ih => simp [FitMembers, ih]

theorem fits_array {d : Nat} {js : List Json} :
    Fits (d + 1) (.array js) ↔ ∀ j ∈ js, Fits d j := by
  simp [Fits, fitItems_iff]

theorem fits_object {d : Nat} {ms : List (String × Json)} :
    Fits (d + 1) (.object ms) ↔ ∀ m ∈ ms, Fits d m.2 := by
  simp [Fits, fitMembers_iff]

theorem fits_string (d : Nat) (s : String) : Fits d (.string s) := by simp [Fits]

theorem fits_tag {d : Nat} {name value : String} {fields : List (String × Json)} :
    Fits (d + 1) (tag name value fields) ↔ ∀ m ∈ fields, Fits d m.2 := by
  simp [tag, fits_object, fits_string]

mutual

theorem Fits.mono : ∀ {j : Json} {d e : Nat}, Fits d j → d ≤ e → Fits e j
  | .null, _, _, _, _ => by simp [Fits]
  | .bool _, _, _, _, _ => by simp [Fits]
  | .string _, _, _, _, _ => by simp [Fits]
  | .integer _, _, _, h, _ => h
  | .decimal _, _, _, h, _ => absurd h id
  | .array js, d, e, h, hle => ⟨by have := h.1; omega, FitItems.mono h.2 (by omega)⟩
  | .object ms, d, e, h, hle => ⟨by have := h.1; omega, FitMembers.mono h.2 (by omega)⟩

theorem FitItems.mono : ∀ {js : List Json} {d e : Nat}, FitItems d js → d ≤ e → FitItems e js
  | [], _, _, _, _ => trivial
  | _ :: _, _, _, h, hle => ⟨Fits.mono h.1 hle, FitItems.mono h.2 hle⟩

theorem FitMembers.mono :
    ∀ {ms : List (String × Json)} {d e : Nat}, FitMembers d ms → d ≤ e → FitMembers e ms
  | [], _, _, _, _ => trivial
  | _ :: _, _, _, h, hle => ⟨Fits.mono h.1 hle, FitMembers.mono h.2 hle⟩

end

/-! ## Records and alternatives -/

theorem filter_key {name : String} {ms : List (String × Json)} (h : name ∉ ms.map Prod.fst) :
    (ms.filter fun m => m.1 == name) = [] ∧ (ms.filter fun m => m.1 != name) = ms := by
  have hne : ∀ m ∈ ms, m.1 ≠ name := by
    rintro m hm rfl
    exact h (List.mem_map_of_mem hm)
  constructor
  · rw [List.filter_eq_nil_iff]
    intro m hm
    simpa using hne m hm
  · rw [List.filter_eq_self]
    intro m hm
    simpa using hne m hm

theorem member?_cons {name : String} {ms : List (String × Json)} (v : Json)
    (h : name ∉ ms.map Prod.fst) : member? name ((name, v) :: ms) = some (some v) := by
  rw [member?, List.filter_cons_of_pos (by simp), (filter_key h).1]

theorem member?_cons_of_ne {name k : String} (v : Json) (ms : List (String × Json))
    (h : k ≠ name) : member? name ((k, v) :: ms) = member? name ms := by
  rw [member?, member?, List.filter_cons_of_neg (by simpa using h)]

theorem member?_of_mem {k : String} {v : Json} {ms : List (String × Json)}
    (hn : (ms.map Prod.fst).Nodup) (hm : (k, v) ∈ ms) : member? k ms = some (some v) := by
  induction ms with
  | nil => cases hm
  | cons m ms ih =>
    obtain ⟨hnew, hn⟩ := List.nodup_cons.mp hn
    rcases List.mem_cons.mp hm with rfl | hm
    · exact member?_cons v hnew
    · have hne : m.1 ≠ k := by
        intro hk
        exact hnew (List.mem_map.mpr ⟨(k, v), hm, hk.symm⟩)
      rw [member?_cons_of_ne m.2 ms hne]
      exact ih hn hm

theorem member?_of_not_mem {k : String} {ms : List (String × Json)} (h : k ∉ ms.map Prod.fst) :
    member? k ms = some none := by
  rw [member?, (filter_key h).1]

theorem member?_append {k : String} {ms ns : List (String × Json)} (h : k ∉ ns.map Prod.fst) :
    member? k (ms ++ ns) = member? k ms := by
  rw [member?, member?, List.filter_append, (filter_key h).1, List.append_nil]

/-- The order of the members does not matter. -/
theorem member?_perm {ms ns : List (String × Json)} (h : ms.Perm ns) (k : String) :
    member? k ms = member? k ns := by
  have hf := h.filter fun m => m.1 == k
  rw [member?, member?]
  generalize (ms.filter fun m => m.1 == k) = a at hf
  generalize (ns.filter fun m => m.1 == k) = b at hf
  match a, b, hf.length_eq with
  | [], [], _ => rfl
  | [m], [n], _ => rw [List.singleton_perm_singleton.mp hf]
  | _ :: _ :: _, _ :: _ :: _, _ => rfl

theorem length_filter_key (k : String) (ms : List (String × Json)) :
    (ms.filter fun m => m.1 == k).length = (ms.map Prod.fst).count k := by
  rw [List.count, List.countP_map, List.countP_eq_length_filter]
  rfl

/-- A field that is given once has that value. -/
theorem member?_once {k : String} {v : Json} {ms : List (String × Json)}
    (h : (ms.map Prod.fst).count k = 1) (hm : (k, v) ∈ ms) : member? k ms = some (some v) := by
  rw [← length_filter_key] at h
  obtain ⟨m, hms⟩ := List.length_eq_one_iff.mp h
  have hv : (k, v) ∈ ms.filter fun m => m.1 == k := List.mem_filter.mpr ⟨hm, by simp⟩
  rw [hms, List.mem_singleton] at hv
  rw [member?, hms, ← hv]

/-- A field that is given more than once has no value. -/
theorem member?_twice {k : String} {ms : List (String × Json)}
    (h : 2 ≤ (ms.map Prod.fst).count k) : member? k ms = none := by
  rw [← length_filter_key] at h
  rw [member?]
  split
  · rename_i hms
    rw [hms] at h
    exact absurd h (by decide)
  · rename_i m hms
    rw [hms] at h
    exact absurd h (by simp)
  · rfl

@[simp]
theorem member?_filter_ne {k name : String} (ms : List (String × Json)) (h : k ≠ name) :
    member? k (ms.filter fun m => m.1 != name) = member? k ms := by
  have : (fun m : String × Json => m.1 == k && m.1 != name) = fun m => m.1 == k := by
    funext m
    by_cases hm : m.1 = k
    · simp [hm, h]
    · simp [hm]
  rw [member?, member?, List.filter_filter, this]

theorem mapM_of_forall {α β : Type} {f : α → Option β} {g : α → β} {l : List α}
    (h : ∀ a ∈ l, f a = some (g a)) : l.mapM f = some (l.map g) := by
  induction l with
  | nil => rfl
  | cons a l ih =>
    rw [List.mapM_cons, h a List.mem_cons_self, ih fun b hb => h b (List.mem_cons_of_mem _ hb)]
    rfl

/-- A record gives the values of its fields in order. -/
@[simp]
theorem fields?_object {names : List String} {ms : List (String × Json)}
    (h : ms.map Prod.fst = names) (hn : names.Nodup) :
    fields? names (.object ms) = some (ms.map fun m => some m.2) := by
  subst h
  rw [fields?, List.mapM_map]
  exact mapM_of_forall fun m hm => member?_of_mem hn hm

/-- An alternative gives its name and its fields. -/
@[simp]
theorem tagged?_tag {name : String} {fields : List (String × Json)} (value : String)
    (h : name ∉ fields.map Prod.fst) :
    tagged? name (tag name value fields) = some (value, .object fields) := by
  rw [tag, tagged?, member?_cons _ h, List.filter_cons_of_neg (by simp), (filter_key h).2]

/-- The tag may stand anywhere. -/
theorem tagged?_object {name t : String} {ms : List (String × Json)}
    (h : member? name ms = some (some (.string t))) :
    tagged? name (.object ms) = some (t, .object (ms.filter fun m => m.1 != name)) := by
  rw [tagged?, h]

/-- Without its tag an alternative has the same fields. -/
theorem fields?_untagged {names : List String} {name : String} (ms : List (String × Json))
    (h : name ∉ names) :
    fields? names (.object (ms.filter fun m => m.1 != name)) = fields? names (.object ms) := by
  rw [fields?, fields?]
  induction names with
  | nil => rfl
  | cons n names ih =>
    rw [List.mem_cons, not_or] at h
    rw [List.mapM_cons, List.mapM_cons, member?_filter_ne ms (Ne.symm h.1), ih h.2]

/-- A record gives nothing when one of its fields is given more than once. -/
theorem fields?_twice {names : List String} {k : String} {ms : List (String × Json)}
    (hk : k ∈ names) (h : member? k ms = none) : fields? names (.object ms) = none := by
  rw [fields?]
  induction names with
  | nil => cases hk
  | cons n names ih =>
    rw [List.mapM_cons]
    rcases List.mem_cons.mp hk with rfl | hk
    · rw [h]; rfl
    · rw [ih hk]
      cases member? n ms <;> rfl

@[simp]
theorem required_some {α : Type} (read : Json → Option α) (j : Json) :
    required read (some j) = read j := rfl

@[simp]
theorem orElse_some {α : Type} (default : α) (read : Json → Option α) (j : Json) :
    orElse default read (some j) = read j := rfl

/-! ## Fields -/

theorem codec_string : Codec .string string? 0 := ⟨fun _ => rfl, fits_string 0⟩

theorem between?_of_le {low high n : Int} (hl : low ≤ n) (hh : n ≤ high) :
    between? low high (.integer n) = some n := if_pos ⟨hl, hh⟩

/-- The numbers of a type whose greatest one has 64 bits at most. -/
theorem codec_upTo {α : Type} {toNat : α → Nat} {back : Nat → α} {high : Int}
    (hhigh : high < Text.bound64) (hle : ∀ a, (toNat a : Int) ≤ high)
    (hback : ∀ a, back (toNat a) = a) :
    Codec (fun a => ofNat (toNat a)) (fun j => (between? 0 high j).map fun n => back n.toNat)
      0 := by
  constructor
  · intro a
    have ha := hle a
    rw [ofNat, between?_of_le (by omega) ha]
    exact congrArg some (hback a)
  · intro a
    have ha := hle a
    show IsWord (toNat a)
    constructor <;> omega

theorem codec_uint16 : Codec (fun n : UInt16 => ofNat n.toNat) uint16? 0 :=
  codec_upTo (by decide) (fun n => Int.le_of_lt_add_one (Int.ofNat_lt.mpr n.toNat_lt))
    fun _ => UInt16.ofNat_toNat

theorem codec_uint32 : Codec (fun n : UInt32 => ofNat n.toNat) uint32? 0 :=
  codec_upTo (by decide) (fun n => Int.le_of_lt_add_one (Int.ofNat_lt.mpr n.toNat_lt))
    fun _ => UInt32.ofNat_toNat

theorem codec_uint64 : Codec (fun n : UInt64 => ofNat n.toNat) uint64? 0 :=
  codec_upTo (by decide) (fun n => Int.le_of_lt_add_one (Int.ofNat_lt.mpr n.toNat_lt))
    fun _ => UInt64.ofNat_toNat

theorem codec_int32 : Codec (fun n : Int32 => .integer n.toInt) int32? 0 := by
  have hlow : ∀ n : Int32, -2147483648 ≤ n.toInt := Int32.le_toInt
  have hhigh : ∀ n : Int32, n.toInt < 2147483648 := Int32.toInt_lt
  constructor
  · intro n
    have hl := hlow n
    have hh := hhigh n
    rw [int32?, between?_of_le (by omega) (by omega)]
    exact congrArg some (Int32.ofInt_toInt ..)
  · intro n
    have hl := hlow n
    have hh := hhigh n
    have hb : (Text.bound64 : Int) = 18446744073709551616 := rfl
    show IsWord n.toInt
    constructor <;> omega

/-- A word for each value. -/
theorem codec_word {α : Type} {word : α → String} {ofWord? : String → Option α}
    (h : ∀ a, ofWord? (word a) = some a) (inner : Bool) :
    Codec (fun a => .string (word a)) (fun j => (word? inner j).bind ofWord?) 0 :=
  ⟨h, fun _ => fits_string 0 _⟩

section

variable {α : Type} {write : α → Json} {read : Json → Option α} {depth : Nat}

theorem Codec.fits_le (h : Codec write read depth) {d : Nat} (hd : depth ≤ d) (a : α) :
    Fits d (write a) := (h.fits a).mono hd

theorem Codec.nullable (h : Codec write read depth) (hnull : ∀ a, write a ≠ .null) :
    Codec (ofOption write) (nullable read) depth := by
  constructor
  · intro o
    cases o with
    | none => rfl
    | some a =>
      rw [ofOption, Json.nullable, h.reads]
      · rfl
      · exact hnull a
  · intro o
    cases o with
    | none => simp [ofOption, Fits]
    | some a => exact h.fits a

theorem Codec.list (h : Codec write read depth) :
    Codec (fun as => .array (as.map write)) (list? read) (depth + 1) := by
  constructor
  · intro as
    have hall := mapM_of_forall (f := read ∘ write) (g := id) fun a (_ : a ∈ as) => h.reads a
    rw [list?, List.mapM_map, hall, List.map_id]
  · intro as
    rw [fits_array]
    intro j hj
    obtain ⟨a, -, rfl⟩ := List.mem_map.mp hj
    exact h.fits a

/-- **What is written is one line of text, which spells what was written**, be it ended by a line
    feed or not. -/
theorem Codec.line (h : Codec write read depth) (hd : depth ≤ maxDepth) (a : α) :
    '\n' ∉ render (write a) ∧ (parse? (render (write a))).bind read = some a ∧
      (parse? (render (write a) ++ ['\n'])).bind read = some a := by
  have hfits := h.fits_le hd a
  refine ⟨?_, ?_, ?_⟩
  · intro hmem
    exact absurd (isFree_render _ _ hfits _ hmem) (by decide)
  · rw [parse?_render hfits, Option.bind_some, h.reads]
  · rw [parse?_append_blank (by decide), parse?_render hfits, Option.bind_some, h.reads]

end

theorem codec_string_option : Codec (ofOption .string) (Json.nullable string?) 0 :=
  codec_string.nullable fun _ h => by cases h

end AgentSupervisor.Json
