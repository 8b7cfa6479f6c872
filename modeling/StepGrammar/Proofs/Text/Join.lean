import StepGrammar.Proofs.Text.Trim

/-!
Contract: the items of a list are read back from the text in which they stand joined.

The separator occurs in no item and the items are trimmed, so splitting at the separator and
trimming what comes out is the inverse of joining, also when blanks stand behind each separator.
-/

namespace StepGrammar

namespace Text

/-- Behind the first item each item follows a separator. -/
theorem join_cons (separator first : Text) (rest : List Text) :
    join separator (first :: rest) = first ++ rest.flatMap (separator ++ ·) := by
  induction rest generalizing first with
  | nil => rw [join, List.intercalate_singleton, List.flatMap_nil, List.append_nil]
  | cons second rest inductionHypothesis =>
      rw [join, List.intercalate_cons_cons, List.flatMap_cons, List.append_assoc, List.append_assoc]
      exact congrArg (fun joined => first ++ (separator ++ joined)) (inductionHypothesis second)

theorem join_prefix (separator : Text) (front back : List Text) :
    join separator front <+: join separator (front ++ back) := by
  cases front with
  | nil => exact List.nil_prefix
  | cons first rest =>
      rw [List.cons_append, join_cons, join_cons, List.flatMap_append, ← List.append_assoc]
      exact List.prefix_append _ _

/-- The lead of a separator may as well be the front part of the items behind it. -/
theorem join_append (separator lead first : Text) (rest : List Text) :
    join (separator ++ lead) (first :: rest) = join separator (first :: rest.map (lead ++ ·)) := by
  simp only [join_cons, List.flatMap_map, List.append_assoc]

/-- A character without a property is in no text whose characters all have it. -/
theorem notMem_of_all {text : Text} {holds : Char → Bool} {character : Char}
    (all : text.all holds) (fails : ¬holds character) : character ∉ text :=
  fun member => fails (List.all_eq_true.1 all character member)

/-- What holds of the characters of all items and of the separator holds of the joined text. -/
theorem all_join {separator : Text} {items : List Text} {holds : Char → Bool}
    (separators : separator.all holds) (each : ∀ item ∈ items, item.all holds) :
    (join separator items).all holds := by
  cases items with
  | nil => rfl
  | cons first rest =>
      rw [join_cons, List.all_append, List.all_flatMap, each first List.mem_cons_self,
        Bool.true_and, List.all_eq_true]
      intro item member
      rw [List.all_append, separators, each item (List.mem_cons_of_mem _ member)]
      rfl

/-- Splitting a joined text at its separator and trimming gives the items. -/
theorem map_trim_splitOn_join {separator : Char} {blanks : Text} {items : List Text}
    (visible : ¬isBlank separator) (blank : blanks.all isBlank) (nonempty : items ≠ [])
    (free : ∀ item ∈ items, separator ∉ item) (trimmed : ∀ item ∈ items, isTrimmed item) :
    ((join (separator :: blanks) items).splitOn separator).map trim = items := by
  cases items with
  | nil => contradiction
  | cons first rest =>
      have notLead : separator ∉ blanks := notMem_of_all blank visible
      have freeParts : ∀ item ∈ first :: rest.map (blanks ++ ·), separator ∉ item := by
        intro item member
        rcases List.mem_cons.1 member with rfl | later
        · exact free _ List.mem_cons_self
        · obtain ⟨own, ownMember, rfl⟩ := List.mem_map.1 later
          have notOwn := free own (List.mem_cons_of_mem _ ownMember)
          simp [notLead, notOwn]
      have split : (join (separator :: blanks) (first :: rest)).splitOn separator =
          first :: rest.map (blanks ++ ·) := by
        rw [← List.singleton_append, join_append, join,
          List.splitOn_intercalate separator freeParts (List.cons_ne_nil _ _)]
      have trimFirst : trim ([] ++ first) = first :=
        trim_append rfl (trimmed first List.mem_cons_self)
      have trimRest : rest.map (trim ∘ (blanks ++ ·)) = rest.map id :=
        List.map_congr_left fun item member =>
          trim_append blank (trimmed item (List.mem_cons_of_mem _ member))
      rw [split, List.map_cons, List.map_map, trimRest, List.map_id]
      exact congrArg (· :: rest) trimFirst

end Text

end StepGrammar
