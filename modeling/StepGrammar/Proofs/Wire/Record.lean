import Mathlib.Data.List.Nodup
import StepGrammar.Wire.Record

/-!
Contract: reading back the fields of a record.

A record is written as the list of its members, each present or absent. Members with unknown names
may be added to the object anywhere. `Holds` says that an object has, under each name that is known,
the written member and nothing else. Readers look at known names only, so `Recovers.of_fields` says
once, of the whole list, what a reader finds under each of them.
-/

namespace StepGrammar.Wire

variable {α : Type} {names : List Text} {members : List (Text × Option Json)} {fields : Fields}
  {name : Text}

def present (members : List (Text × Option Json)) : Fields :=
  members.filterMap fun (name, value) => value.map fun present => (name, present)

/-- Whether members whose names are not known were added to an object, anywhere among the others. -/
def Adds (names : List Text) (members extended : Fields) : Prop :=
  ∃ others, extended.Perm (members ++ others) ∧ ∀ other ∈ others, other.1 ∉ names

/-- Whether a value is read from a JSON value, also when members with other than the known names are
added. -/
structure Recovers (names : List Text) (written : Json) (read : Json → Option α) (value : α) :
    Prop where
  exact : read written = some value
  extended : ∃ members, written = .object members ∧
    ∀ extended, Adds names members extended → read (.object extended) = some value

def named (name : Text) (fields : Fields) : Fields := fields.filter fun member => member.1 == name

/-- Whether an object has under each known name the member that was written, if it is present, and
no other. -/
def Holds (names : List Text) (members : List (Text × Option Json)) (fields : Fields) : Prop :=
  ∀ name ∈ names, named name fields = ((members.lookup name).join.map (name, ·)).toList

/-! ## Added members -/

theorem Recovers.of_extended {own : Fields} {read : Json → Option α} {value : α}
    (reads : ∀ extended, Adds names own extended → read (.object extended) = some value) :
    Recovers names (.object own) read value where
  exact := reads own ⟨[], by rw [List.append_nil], by simp⟩
  extended := ⟨own, rfl, reads⟩

theorem Recovers.append {own others : Fields} {read : Json → Option α} {value : α}
    (recovers : Recovers names (.object own) read value)
    (unknown : ∀ other ∈ others, other.1 ∉ names) :
    Recovers names (.object (own ++ others)) read value := by
  obtain ⟨members, written, extended⟩ := recovers.extended
  obtain rfl : own = members := Json.object.inj written
  refine .of_extended fun all adds => ?_
  obtain ⟨rest, same, unknownRest⟩ := adds
  rw [List.append_assoc] at same
  exact extended all ⟨others ++ rest, same, List.forall_mem_append.2 ⟨unknown, unknownRest⟩⟩

/-! ## Written objects -/

theorem named_eq_nil (absent : name ∉ fields.map Prod.fst) : named name fields = [] := by
  apply List.filter_eq_nil_iff.2
  intro member inside
  rw [beq_iff_eq]
  rintro rfl
  exact absent (List.mem_map_of_mem inside)

theorem lookup_eq_named (name : Text) (fields : Fields) :
    fields.lookup name = (named name fields).head?.map Prod.snd := by
  induction fields with
  | nil => rfl
  | cons first rest inductionHypothesis =>
      obtain ⟨own, value⟩ := first
      by_cases same : name = own
      · subst same
        simp [named]
      · rw [List.lookup_cons, beq_eq_false_iff_ne.2 same, named,
          List.filter_cons_of_neg (by simpa using Ne.symm same)]
        exact inductionHypothesis

theorem map_fst_present_sublist (members : List (Text × Option Json)) :
    ((present members).map Prod.fst).Sublist (members.map Prod.fst) := by
  induction members with
  | nil => exact .slnil
  | cons first rest inductionHypothesis =>
      obtain ⟨name, _ | value⟩ := first
      · exact inductionHypothesis.cons name
      · exact inductionHypothesis.cons_cons name

/-- Where no name is repeated, an object has the members that were written. -/
theorem named_present (distinct : (members.map Prod.fst).Nodup) (name : Text) :
    named name (present members) = ((members.lookup name).join.map (name, ·)).toList := by
  induction members with
  | nil => rfl
  | cons first rest inductionHypothesis =>
      obtain ⟨own, value⟩ := first
      rw [List.map_cons, List.nodup_cons] at distinct
      by_cases same : name = own
      · subst same
        have absent : named name (present rest) = [] :=
          named_eq_nil fun member => distinct.1 ((map_fst_present_sublist rest).subset member)
        rw [List.lookup_cons_self]
        cases value with
        | none => exact absent
        | some value => simpa [present, named] using absent
      · have skipped : named name (present ((own, value) :: rest)) = named name (present rest) := by
          cases value with
          | none => rfl
          | some value => exact List.filter_cons_of_neg (by simpa using Ne.symm same)
        rw [skipped, List.lookup_cons, beq_eq_false_iff_ne.2 same]
        exact inductionHypothesis distinct.2

/-- An object holds what was written also if unknown members were added. -/
theorem holds_of_adds (distinct : (members.map Prod.fst).Nodup)
    (adds : Adds names (present members) fields) : Holds names members fields := by
  obtain ⟨others, same, unknown⟩ := adds
  intro name known
  have none : named name others = [] := by
    apply named_eq_nil
    intro member
    obtain ⟨other, inside, rfl⟩ := List.mem_map.1 member
    exact unknown other inside known
  have own : (named name fields).Perm ((members.lookup name).join.map (name, ·)).toList := by
    rw [← named_present distinct, ← List.append_nil (named name (present members)), ← none,
      named, named, named, ← List.filter_append]
    exact same.filter _
  cases value : (members.lookup name).join with
  | none => rw [value] at own; exact own.eq_nil
  | some value => rw [value] at own; exact List.perm_singleton.1 own

namespace Holds

variable (holds : Holds names members fields)

include holds

theorem objectFields?_eq : objectFields? names fields = some fields := by
  apply if_neg
  rw [List.any_eq_true]
  rintro ⟨name, known, repeated⟩
  rw [List.countP_eq_length_filter, decide_eq_true_eq] at repeated
  have own := holds name known
  rw [named] at own
  rw [own] at repeated
  exact absurd repeated (by cases (members.lookup name).join <;> simp)

theorem lookup_eq (known : name ∈ names) : fields.lookup name = (members.lookup name).join := by
  rw [lookup_eq_named, holds name known]
  cases (members.lookup name).join <;> rfl

end Holds

/-! ## Reading the fields -/

theorem lookup_eq_some_of_mem (distinct : (members.map Prod.fst).Nodup)
    {member : Text × Option Json} (inside : member ∈ members) :
    members.lookup member.1 = some member.2 := by
  induction members with
  | nil => exact absurd inside List.not_mem_nil
  | cons first rest inductionHypothesis =>
      rw [List.map_cons, List.nodup_cons] at distinct
      rcases List.mem_cons.1 inside with rfl | later
      · exact List.lookup_cons_self
      · have different : member.1 ≠ first.1 := fun same =>
          distinct.1 (same ▸ List.mem_map_of_mem later)
        rw [List.lookup_cons, beq_eq_false_iff_ne.2 different]
        exact inductionHypothesis distinct.2 later

/-- A record whose fields have distinct names, all of them known, is recovered if it is read from
every list of fields that has under the name of each field what was written there. -/
theorem Recovers.of_fields {keys : List Text} {written : Json} {read : Json → Option α}
    {readFields : Fields → Option α} {value : α} (writes : written = .ofMembers members)
    (named : members.map Prod.fst = keys) (distinct : keys.Nodup)
    (known : ∀ name ∈ keys, name ∈ names)
    (isRecord : ∀ own, read (.object own) = (objectFields? names own).bind readFields)
    (reads : ∀ fields, (∀ member ∈ members, fields.lookup member.1 = member.2) →
      readFields fields = some value) :
    Recovers names written read value := by
  subst writes named
  refine .of_extended fun extended adds => ?_
  have holds : Holds names members extended := holds_of_adds distinct adds
  rw [isRecord, holds.objectFields?_eq]
  refine reads extended fun member inside => ?_
  rw [holds.lookup_eq (known _ (List.mem_map_of_mem inside)),
    lookup_eq_some_of_mem distinct inside, Option.join_some]

theorem readOptional_eq {read : Json → Option α} {write : α → Json} {value : Option α}
    (found : fields.lookup name = value.map write)
    (reads : ∀ inner ∈ value, write inner ≠ .null ∧ read (write inner) = some inner) :
    readOptional read name fields = some value := by
  rw [readOptional, found]
  cases value with
  | none => rfl
  | some inner =>
      obtain ⟨notNull, readsInner⟩ := reads inner rfl
      rw [Option.map_some]
      split
      · contradiction
      · rename_i same
        exact absurd (Option.some.inj same) notNull
      · rename_i same
        rw [← Option.some.inj same, readsInner]
        rfl

theorem items?_map {read : Json → Option α} {write : α → Json} {values : List α}
    (reads : ∀ value ∈ values, read (write value) = some value) :
    Json.items? read (.array (values.map write)) = some values := by
  rw [Json.items?]
  induction values with
  | nil => rfl
  | cons first rest inductionHypothesis =>
      obtain ⟨own, others⟩ := List.forall_mem_cons.1 reads
      rw [List.map_cons, List.mapM_cons, own, Option.bind_eq_bind, Option.bind_some,
        inductionHypothesis others]
      rfl

theorem texts_recovered (values : List Text) :
    Json.texts values ≠ .null ∧ Json.texts? (Json.texts values) = some values :=
  ⟨Json.noConfusion, items?_map fun _ _ => rfl⟩

end StepGrammar.Wire
