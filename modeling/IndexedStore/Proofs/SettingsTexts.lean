import IndexedStore.Proofs.JsonTexts
import IndexedStore.Settings.Text
import Mathlib.Data.List.Perm.Basic
/-!
# Settings survive their text

What is written of settings is read back as the same settings. And a document need not be the written
one: it may give any part of the fields, in any order and among members of other names, and every
form of it is read as the part it gives, filled up with the defaults. The check comes last and sees
what was filled in.

* `Limits.Part` and `Settings.Part` are parts of the fields, `filled` adds the defaults;
* `Limits.Part.Form` and `Settings.Part.Form` are the documents of a part;
* `Json.field?_eq` reads one field of such a document;
* **`Settings.survives_text`** is the result.
-/

namespace IndexedStore

/-! ## 1. Parts and their documents -/

/-- The limits that a document gives. -/
structure Limits.Part where
  maxKeySize : Option UInt32
  maxValueSize : Option UInt32
  maxCursors : Option UInt32

/-- The settings that a document gives. -/
structure Settings.Part where
  keyStatus : Option UInt8
  limits : Option Limits.Part
  billableOverhead : Option UInt64

/-- The given limits, and the defaults of the others. -/
def Limits.Part.filled (part : Limits.Part) : Limits where
  maxKeySize := part.maxKeySize.getD ({} : Limits).maxKeySize
  maxValueSize := part.maxValueSize.getD ({} : Limits).maxValueSize
  maxCursors := part.maxCursors.getD ({} : Limits).maxCursors

/-- The given settings, and the defaults of the others. -/
def Settings.Part.filled (part : Settings.Part) : Settings where
  keyStatus := part.keyStatus.getD ({} : Settings).keyStatus
  limits := (part.limits.map Limits.Part.filled).getD {}
  billableOverhead := part.billableOverhead.getD ({} : Settings).billableOverhead

namespace Json

/-- The member of a field, if a document gives it. -/
def given (name : String) (value : Option Json) : List (Option String × Json) :=
  (value.map fun value => (some name, value)).toList

/-- Whether members are the given ones and others that have a name, but that of no field, all in any
    order. -/
def Arranged (fields : List String) (given members : List (Option String × Json)) : Prop :=
  ∃ others, (∀ member ∈ others, ∃ name, member.1 = some name ∧ name ∉ fields)
    ∧ members.Perm (given ++ others)

end Json

/-- The documents of a part of limits. -/
inductive Limits.Part.Form (part : Limits.Part) : Json → Prop
  | object {members : List (Option String × Json)}
      (arranged : Json.Arranged ["max_key_size", "max_value_size", "max_iterators"]
        (Json.given "max_key_size" (part.maxKeySize.map fun n => .ofNat n.toNat)
          ++ Json.given "max_value_size" (part.maxValueSize.map fun n => .ofNat n.toNat)
          ++ Json.given "max_iterators" (part.maxCursors.map fun n => .ofNat n.toNat)) members) :
      Form part (.object members)

/-- The documents of a part of settings. -/
inductive Settings.Part.Form (part : Settings.Part) : Json → Prop
  | object {limits : Option Json} {members : List (Option String × Json)}
      (inner : Option.Rel Limits.Part.Form part.limits limits)
      (arranged : Json.Arranged ["key_status", "limits", "billable_overhead"]
        (Json.given "key_status" (part.keyStatus.map fun n => .ofNat n.toNat)
          ++ Json.given "limits" limits
          ++ Json.given "billable_overhead" (part.billableOverhead.map fun n => .ofNat n.toNat))
        members) :
      Form part (.object members)

/-! ## 2. Single fields are read -/

namespace Json

theorem below?_ofNat {bound n : Nat} (below : n < bound) : (ofNat n).below? bound = some n := by
  unfold below?
  rw [natural?_ofNat, Option.filter_some, if_pos (decide_eq_true below)]

theorem uint8?_ofNat (n : UInt8) : (ofNat n.toNat).uint8? = some n := by
  unfold uint8?
  rw [below?_ofNat n.toNat_lt, Option.map_some, UInt8.ofNat_toNat]

theorem uint32?_ofNat (n : UInt32) : (ofNat n.toNat).uint32? = some n := by
  unfold uint32?
  rw [below?_ofNat n.toNat_lt, Option.map_some, UInt32.ofNat_toNat]

theorem uint64?_ofNat (n : UInt64) : (ofNat n.toNat).uint64? = some n := by
  unfold uint64?
  rw [below?_ofNat n.toNat_lt, Option.map_some, UInt64.ofNat_toNat]

section Fields

variable {α : Type} {fields : List String} {given' members : List (Option String × Json)}
  {name : String} {read : Json → Option α} {value : Option Json} {result : Option α}

/-- **A field is read wherever it stands**: its value if it is given, else the default. -/
theorem field?_eq (held : (members.filter fun member => member.1 = some name).Perm
      (given name value)) (each : Option.Rel (fun value a => read value = some a) value result)
    (default : α) : field? members name read default = some (result.getD default) := by
  unfold field?
  cases each with
  | none =>
    rw [List.perm_nil.mp held]
    rfl
  | some reads =>
    rw [List.perm_singleton.mp held]
    exact reads

theorem filter_given (other : String) : (given other value).filter (fun member => member.1 = some name)
    = if other = name then given other value else [] := by
  cases value with
  | none =>
    show [] = _
    split <;> rfl
  | some value =>
    by_cases same : other = name
    · rw [if_pos same]
      exact List.filter_cons_of_pos (decide_eq_true (congrArg some same))
    · rw [if_neg same]
      exact List.filter_cons_of_neg fun held =>
        same (Option.some.inj (of_decide_eq_true held))

/-- Members of other names are passed over. -/
theorem Arranged.filter (arranged : Arranged fields given' members) (known : name ∈ fields) :
    (members.filter fun member => member.1 = some name).Perm
      (given'.filter fun member => member.1 = some name) := by
  obtain ⟨others, unknown, order⟩ := arranged
  have passed : others.filter (fun member => member.1 = some name) = [] := by
    refine List.filter_eq_nil_iff.mpr fun member inside => ?_
    obtain ⟨other, same, foreign⟩ := unknown member inside
    rw [same, decide_eq_true_eq, Option.some_inj]
    intro other_eq
    exact foreign (other_eq ▸ known)
  have held := order.filter fun member => member.1 = some name
  rw [List.filter_append, passed, List.append_nil] at held
  exact held

theorem Arranged.named (arranged : Arranged fields given' members) (own : Json.named given' = true) :
    Json.named members = true := by
  obtain ⟨others, unknown, order⟩ := arranged
  unfold Json.named at own ⊢
  rw [order.all_eq, List.all_append, own, Bool.true_and, List.all_eq_true]
  intro member inside
  obtain ⟨other, same, -⟩ := unknown member inside
  rw [same]
  rfl

theorem named_given (a b c : String) (x y z : Option Json) :
    Json.named (given a x ++ given b y ++ given c z) = true := by
  have one : ∀ name value, (given name value).all (fun member => member.1.isSome) = true := by
    intro name value
    cases value <;> rfl
  unfold Json.named
  rw [List.all_append, List.all_append, one, one, one]
  rfl

/-- So each of three fields is found in a document, whatever the other two are. -/
theorem Arranged.three {a b c : String} {x y z : Option Json} (ab : a ≠ b) (ac : a ≠ c) (bc : b ≠ c)
    (arranged : Arranged [a, b, c] (given a x ++ given b y ++ given c z) members) :
    (members.filter fun member => member.1 = some a).Perm (given a x)
      ∧ (members.filter fun member => member.1 = some b).Perm (given b y)
      ∧ (members.filter fun member => member.1 = some c).Perm (given c z) := by
  refine ⟨?_, ?_, ?_⟩
  · have held := arranged.filter (show a ∈ [a, b, c] by simp)
    rw [List.filter_append, List.filter_append, filter_given, filter_given, filter_given,
      if_pos rfl, if_neg ab.symm, if_neg ac.symm, List.append_nil, List.append_nil] at held
    exact held
  · have held := arranged.filter (show b ∈ [a, b, c] by simp)
    rw [List.filter_append, List.filter_append, filter_given, filter_given, filter_given,
      if_neg ab, if_pos rfl, if_neg bc.symm, List.append_nil, List.nil_append] at held
    exact held
  · have held := arranged.filter (show c ∈ [a, b, c] by simp)
    rw [List.filter_append, List.filter_append, filter_given, filter_given, filter_given,
      if_neg ac, if_neg bc, if_pos rfl, List.nil_append, List.nil_append] at held
    exact held

theorem rel_map {write : α → Json} (back : ∀ a, read (write a) = some a) (result : Option α) :
    Option.Rel (fun value a => read value = some a) (result.map write) result := by
  cases result with
  | none => exact .none
  | some a => exact .some (back a)

theorem rel_of_form {β : Type} {form : β → Json → Prop} {filled : β → α} {part : Option β}
    (related : Option.Rel form part value)
    (reads : ∀ b value, form b value → read value = some (filled b)) :
    Option.Rel (fun value a => read value = some a) value (part.map filled) := by
  cases related with
  | none => exact .none
  | some form => exact .some (reads _ _ form)

end Fields

end Json

/-! ## 3. Whole documents are read -/

/-- **A document of a part of limits is read as the part, filled up.** -/
theorem Limits.Part.Form.read {part : Limits.Part} {document : Json} (form : part.Form document) :
    Limits.ofJson? document = some part.filled := by
  cases form with
  | @object members arranged =>
    obtain ⟨keys, values, cursors⟩ := arranged.three (by decide) (by decide) (by decide)
    unfold Limits.ofJson?
    dsimp only
    rw [if_pos (arranged.named (Json.named_given _ _ _ _ _ _)),
      Json.field?_eq keys (Json.rel_map Json.uint32?_ofNat _),
      Json.field?_eq values (Json.rel_map Json.uint32?_ofNat _),
      Json.field?_eq cursors (Json.rel_map Json.uint32?_ofNat _)]
    rfl

/-- **A document of a part of settings is read as the part, filled up.** -/
theorem Settings.Part.Form.read {part : Settings.Part} {document : Json}
    (form : part.Form document) : Settings.ofJson? document = some part.filled := by
  cases form with
  | @object limits members inner arranged =>
    obtain ⟨status, held, overhead⟩ := arranged.three (by decide) (by decide) (by decide)
    have each := Json.rel_of_form inner fun _ _ => Limits.Part.Form.read
    unfold Settings.ofJson?
    dsimp only
    rw [if_pos (arranged.named (Json.named_given _ _ _ _ _ _)),
      Json.field?_eq status (Json.rel_map Json.uint8?_ofNat _), Json.field?_eq held each,
      Json.field?_eq overhead (Json.rel_map Json.uint64?_ofNat _)]
    rfl

/-- All fields of settings. -/
def Settings.whole (settings : Settings) : Settings.Part where
  keyStatus := some settings.keyStatus
  limits := some {
    maxKeySize := some settings.limits.maxKeySize
    maxValueSize := some settings.limits.maxValueSize
    maxCursors := some settings.limits.maxCursors }
  billableOverhead := some settings.billableOverhead

/-- The written document gives all fields. -/
theorem Settings.form_toJson (settings : Settings) : settings.whole.Form settings.toJson :=
  .object (.some (.object ⟨[], List.forall_mem_nil _, .refl _⟩)) ⟨[], List.forall_mem_nil _, .refl _⟩

theorem Settings.writable_toJson (settings : Settings) : settings.toJson.Writable := by
  have number := Json.writable_ofNat
  have limits : Json.Writable (.object [
      (some "max_key_size", .ofNat settings.limits.maxKeySize.toNat),
      (some "max_value_size", .ofNat settings.limits.maxValueSize.toNat),
      (some "max_iterators", .ofNat settings.limits.maxCursors.toNat)]) :=
    .object (List.forall_mem_cons.mpr ⟨number _, List.forall_mem_cons.mpr
      ⟨number _, List.forall_mem_singleton.mpr (number _)⟩⟩)
  exact .object (List.forall_mem_cons.mpr ⟨number _, List.forall_mem_cons.mpr
    ⟨limits, List.forall_mem_singleton.mpr (number _)⟩⟩)

theorem Settings.parse_of_form {part : Settings.Part} {document : Json} {text : String}
    (form : part.Form document) (spells : document.IsText text) :
    parse text = part.filled.check.map fun _ => part.filled := by
  unfold parse
  rw [spells.parse, Option.bind_some, form.read]
  rfl

/-- **Settings survive their text.** What is written of settings is read back as they are, if they pass
    the check, and refused for the reason of the check if not. And a text may give any part of the
    settings, and of their limits any part, in any order, in any form of JSON, and among any members
    of other names: it is read as the given fields, with the defaults for the others, and the check
    comes after that. -/
theorem Settings.survives_text :
    (∀ settings : Settings, parse settings.text = settings.check.map fun _ => settings) ∧
    ∀ (part : Settings.Part) (document : Json) (text : String), part.Form document →
      document.IsText text → parse text = part.filled.check.map fun _ => part.filled := by
  refine ⟨fun settings => ?_, fun _ _ _ form spells => parse_of_form form spells⟩
  exact parse_of_form settings.form_toJson settings.writable_toJson.isText_pretty

/-- A document that gives one limit, behind a member that settings do not have. -/
theorem Settings.survives_text_partial :
    parse (Json.pretty (.object [(some "later", .array [.ofNat 7, .object []]),
        (some "limits", .object [(some "max_iterators", .ofNat 4)])]))
      = .ok { limits := { maxCursors := 4 } } := by
  let later : Json := .array [.ofNat 7, .object []]
  let limits : Json := .object [(some "max_iterators", .ofNat 4)]
  have number := Json.writable_ofNat
  have writable : Json.Writable (.object [(some "later", later), (some "limits", limits)]) :=
    .object (List.forall_mem_cons.mpr
      ⟨.array (List.forall_mem_cons.mpr ⟨number 7, List.forall_mem_singleton.mpr
        (.object (List.forall_mem_nil _))⟩),
      List.forall_mem_singleton.mpr (.object (List.forall_mem_singleton.mpr (number 4)))⟩)
  have form : Settings.Part.Form ⟨none, some ⟨none, none, some 4⟩, none⟩
      (.object [(some "later", later), (some "limits", limits)]) :=
    .object (.some (.object ⟨[], List.forall_mem_nil _, .refl _⟩))
      ⟨[(some "later", later)], List.forall_mem_singleton.mpr ⟨"later", rfl, by decide⟩,
        .swap _ _ _⟩
  exact survives_text.2 _ _ _ form writable.isText_pretty

end IndexedStore
