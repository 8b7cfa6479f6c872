import StepGrammar.Proofs.Wire.Record
import StepGrammar.Wire.Definition
import StepGrammar.Wire.Pattern

/-!
Contract: every record is read back from the JSON value that was written for it.

Each type has its field names, and each of its fields is read back; members that were added under
other names are passed over. A concrete argument and its definition are written as the same object
up to the value, so each is read from what was written for the other.
-/

namespace StepGrammar

open Wire

/-! ## Names -/

theorem ArgType.ofName?_name (type : ArgType) : ofName? type.name = some type := by
  rcases type with type | _ | _
  · cases type <;> rfl
  · rfl
  · rfl

theorem StepKeyword.ofName?_name (keyword : StepKeyword) : ofName? keyword.name = some keyword := by
  cases keyword <;> rfl

theorem SegmentKind.ofName?_name (kind : SegmentKind) : ofName? kind.name = some kind := by
  cases kind <;> rfl

/-! ## Arguments -/

/-- A definition is read from every object that has its members, whatever else it has. -/
theorem ArgumentDefinition.ofFields?_eq {definition : ArgumentDefinition} {fields : Fields}
    {readType : Json → Option ArgType}
    (found : ∀ member ∈ definition.members, fields.lookup member.1 = member.2)
    (reads : readType definition.type.toJson = some definition.type) :
    ofFields? readType fields = some definition := by
  simp only [members, List.forall_mem_cons] at found
  obtain ⟨name, type, isRequired, enumValues, tableColumns, -⟩ := found
  have readEnumValues := readOptional_eq enumValues fun texts _ => texts_recovered texts
  have readTableColumns := readOptional_eq tableColumns fun texts _ => texts_recovered texts
  simp only [ofFields?, readRequired, readDefaulted, name, type, isRequired, reads, readEnumValues,
    readTableColumns, Json.text?, Json.bool?, Option.bind_eq_bind, Option.bind_some,
    Option.pure_def]

theorem ArgumentDefinition.recovers (definition : ArgumentDefinition) :
    Recovers fieldNames definition.toJson ofJson? definition := by
  refine .of_fields rfl rfl (by decide : fieldNames.Nodup) (fun _ => id) (fun _ => rfl)
    fun fields found => ?_
  exact ofFields?_eq found (ArgType.ofName?_name definition.type)

namespace ConcreteArg

theorem toJson_eq (arg : ConcreteArg) :
    arg.toJson =
      .object (present arg.definition.members ++ [("value".toList, .string arg.value)]) := by
  rw [toJson, Json.ofMembers, List.filterMap_append]
  rfl

/-- To a definition the value of an argument is an unknown member. -/
theorem recovers_definition (arg : ConcreteArg) :
    Recovers ArgumentDefinition.fieldNames arg.toJson ArgumentDefinition.ofJson?
      arg.definition := by
  have unknown : "value".toList ∉ ArgumentDefinition.fieldNames := by decide
  rw [toJson_eq]
  exact arg.definition.recovers.append (List.forall_mem_singleton.2 unknown)

/-- An argument is read from the members of its definition and its value, which is empty if it is
absent. -/
theorem recovers_value (definition : ArgumentDefinition) (value : Option Text) :
    Recovers fieldNames
      (.ofMembers (definition.members ++ [("value".toList, value.map Json.string)])) ofJson?
      ⟨definition, value.getD []⟩ := by
  have keys : (ArgumentDefinition.fieldNames ++ ["value".toList]).Nodup ∧
      ∀ name ∈ ArgumentDefinition.fieldNames ++ ["value".toList], name ∈ fieldNames := by decide
  refine .of_fields rfl rfl keys.1 keys.2 (fun _ => rfl) fun fields found => ?_
  obtain ⟨foundDefinition, foundValue⟩ := List.forall_mem_append.1 found
  have readDefinition : ArgumentDefinition.ofFields? (mergedVariant? ArgType.ofName?) fields =
      some definition :=
    ArgumentDefinition.ofFields?_eq foundDefinition (ArgType.ofName?_name definition.type)
  have readValue : readDefaulted [] Json.text? "value".toList fields = some (value.getD []) := by
    rw [readDefaulted, List.forall_mem_singleton.1 foundValue]
    cases value <;> rfl
  simp only [readValue, readDefinition, Option.bind_eq_bind, Option.bind_some, Option.pure_def]

theorem recovers (arg : ConcreteArg) : Recovers fieldNames arg.toJson ofJson? arg :=
  recovers_value arg.definition (some arg.value)

end ConcreteArg

/-- A definition has no value, so its argument has the empty one. -/
theorem ArgumentDefinition.recovers_concreteArg (definition : ArgumentDefinition) :
    Recovers ConcreteArg.fieldNames definition.toJson ConcreteArg.ofJson? ⟨definition, []⟩ := by
  have recovers := ConcreteArg.recovers_value definition none
  rw [Option.map_none, Json.ofMembers, List.filterMap_append, List.filterMap_cons_none rfl,
    List.filterMap_nil, List.append_nil] at recovers
  exact recovers

/-! ## Definitions and results -/

theorem StepLocation.recovers {location : StepLocation} (small : location.line < wordBound) :
    Recovers fieldNames location.toJson ofJson? location := by
  refine .of_fields rfl rfl (by decide : fieldNames.Nodup) (fun _ => id) (fun _ => rfl)
    fun fields found => ?_
  simp only [List.forall_mem_cons] at found
  obtain ⟨file, line, -⟩ := found
  simp only [readRequired, file, line, Json.text?, Json.naturalBelow?, if_pos small,
    Option.bind_eq_bind, Option.bind_some, Option.pure_def]

theorem StepDefinition.recovers {definition : StepDefinition}
    (small : ∀ location ∈ definition.location, location.line < wordBound) :
    Recovers fieldNames definition.toJson ofJson? definition := by
  refine .of_fields rfl rfl (by decide : fieldNames.Nodup) (fun _ member => member)
    (fun _ => rfl) fun fields found => ?_
  simp only [List.forall_mem_cons] at found
  obtain ⟨name, pattern, keyword, args, location, -⟩ := found
  have readKeyword : StepKeyword.ofJson? definition.keyword.toJson = some definition.keyword :=
    StepKeyword.ofName?_name definition.keyword
  have readArgs := items?_map fun (arg : ArgumentDefinition) (_ : arg ∈ definition.args) =>
    arg.recovers.exact
  have readLocation := readOptional_eq location fun inner member =>
    ⟨Json.noConfusion, (StepLocation.recovers (small inner member)).exact⟩
  simp only [readRequired, readDefaulted, name, pattern, keyword, args, readKeyword, readArgs,
    readLocation, Json.text?, Option.bind_eq_bind, Option.bind_some, Option.pure_def]

theorem MatchResult.recovers (result : MatchResult) :
    Recovers fieldNames result.toJson ofJson? result := by
  refine .of_fields rfl rfl (by decide : fieldNames.Nodup) (fun _ => id) (fun _ => rfl)
    fun fields found => ?_
  simp only [List.forall_mem_cons] at found
  obtain ⟨pattern, args, definitionId, -⟩ := found
  have readArgs := items?_map fun (arg : ConcreteArg) (_ : arg ∈ result.args) => arg.recovers.exact
  have readId : readOptional Json.text? "definitionId".toList fields = some result.definitionId :=
    readOptional_eq definitionId fun _ _ => ⟨Json.noConfusion, rfl⟩
  simp only [readRequired, pattern, args, readArgs, readId, Json.text?, Option.bind_eq_bind,
    Option.bind_some, Option.pure_def]

theorem RankedMatch.recovers {ranked : RankedMatch} (small : ranked.score < wordBound) :
    Recovers fieldNames ranked.toJson ofJson? ranked := by
  refine .of_fields rfl rfl (by decide : fieldNames.Nodup) (fun _ => id) (fun _ => rfl)
    fun fields found => ?_
  simp only [List.forall_mem_cons] at found
  obtain ⟨score, result, -⟩ := found
  simp only [readRequired, score, result, ranked.result.recovers.exact, Json.naturalBelow?,
    if_pos small, Option.bind_eq_bind, Option.bind_some, Option.pure_def]

/-! ## Segments and displayed patterns -/

theorem PatternSegment.recovers (segment : PatternSegment) :
    Recovers fieldNames segment.toJson ofJson? segment := by
  refine .of_fields rfl rfl (by decide : fieldNames.Nodup) (fun _ => id) (fun _ => rfl)
    fun fields found => ?_
  simp only [List.forall_mem_cons] at found
  obtain ⟨kind, value, arg, -⟩ := found
  have readKind : SegmentKind.ofJson? segment.kind.toJson = some segment.kind :=
    SegmentKind.ofName?_name segment.kind
  have readArg := readOptional_eq arg fun inner _ => ⟨Json.noConfusion, inner.recovers.exact⟩
  simp only [readRequired, kind, value, readKind, readArg, Json.text?, Option.bind_eq_bind,
    Option.bind_some, Option.pure_def]

theorem ArgDescription.recovers {description : ArgDescription}
    (small : description.index < doubleWordBound) :
    Recovers fieldNames description.toJson ofJson? description := by
  refine .of_fields rfl rfl (by decide : fieldNames.Nodup) (fun _ => id) (fun _ => rfl)
    fun fields found => ?_
  simp only [List.forall_mem_cons] at found
  obtain ⟨index, name, type, wording, enumValues, tableColumns, -⟩ := found
  have readType : ArgType.ofJson? description.type.toJson = some description.type :=
    ArgType.ofName?_name description.type
  have readEnumValues := readOptional_eq enumValues fun texts _ => texts_recovered texts
  have readTableColumns := readOptional_eq tableColumns fun texts _ => texts_recovered texts
  simp only [readRequired, index, name, type, wording, readType, readEnumValues, readTableColumns,
    Json.text?, Json.naturalBelow?, if_pos small, Option.bind_eq_bind, Option.bind_some,
    Option.pure_def]

theorem FormattedPattern.recovers {formatted : FormattedPattern}
    (small : ∀ description ∈ formatted.argDescriptions, description.index < doubleWordBound) :
    Recovers fieldNames formatted.toJson ofJson? formatted := by
  refine .of_fields rfl rfl (by decide : fieldNames.Nodup) (fun _ => id) (fun _ => rfl)
    fun fields found => ?_
  simp only [List.forall_mem_cons] at found
  obtain ⟨html, plainText, argDescriptions, -⟩ := found
  have readDescriptions := items?_map fun description member =>
    (ArgDescription.recovers (small description member)).exact
  simp only [readRequired, html, plainText, argDescriptions, readDescriptions, Json.text?,
    Option.bind_eq_bind, Option.bind_some, Option.pure_def]

/-! ## All records -/

/-- Every record is read back from its JSON value, also when members with unknown names are added,
and so are a definition from an argument and an argument without value from a definition. -/
theorem records_recovered :
    (∀ definition : ArgumentDefinition, Recovers ArgumentDefinition.fieldNames definition.toJson
      ArgumentDefinition.ofJson? definition) ∧
    (∀ arg : ConcreteArg, Recovers ConcreteArg.fieldNames arg.toJson ConcreteArg.ofJson? arg) ∧
    (∀ definition : StepDefinition,
      (∀ location ∈ definition.location, location.line < wordBound) →
      Recovers StepDefinition.fieldNames definition.toJson StepDefinition.ofJson? definition) ∧
    (∀ result : MatchResult,
      Recovers MatchResult.fieldNames result.toJson MatchResult.ofJson? result) ∧
    (∀ ranked : RankedMatch, ranked.score < wordBound →
      Recovers RankedMatch.fieldNames ranked.toJson RankedMatch.ofJson? ranked) ∧
    (∀ segment : PatternSegment,
      Recovers PatternSegment.fieldNames segment.toJson PatternSegment.ofJson? segment) ∧
    (∀ description : ArgDescription, description.index < doubleWordBound →
      Recovers ArgDescription.fieldNames description.toJson ArgDescription.ofJson? description) ∧
    (∀ formatted : FormattedPattern,
      (∀ description ∈ formatted.argDescriptions, description.index < doubleWordBound) →
      Recovers FormattedPattern.fieldNames formatted.toJson FormattedPattern.ofJson? formatted) ∧
    (∀ arg : ConcreteArg, Recovers ArgumentDefinition.fieldNames arg.toJson
      ArgumentDefinition.ofJson? arg.definition) ∧
    (∀ definition : ArgumentDefinition, Recovers ConcreteArg.fieldNames definition.toJson
      ConcreteArg.ofJson? ⟨definition, []⟩) :=
  ⟨ArgumentDefinition.recovers, ConcreteArg.recovers, fun _ => StepDefinition.recovers,
    MatchResult.recovers, fun _ => RankedMatch.recovers, PatternSegment.recovers,
    fun _ => ArgDescription.recovers, fun _ => FormattedPattern.recovers,
    ConcreteArg.recovers_definition, ArgumentDefinition.recovers_concreteArg⟩

/-- A definition with a location, and a match of it. -/
def loginDefinition : StepDefinition where
  id := "login".toList
  pattern := "I log in as {string}".toList
  keyword := .whenStep
  args := [{ name := "arg0".toList, type := .parameter .string }]
  location := some ⟨"steps/login.rs".toList, 12⟩

def loginMatch : RankedMatch where
  score := specificity loginDefinition.args
  result :=
    { pattern := loginDefinition.pattern
      args := loginDefinition.args.map fun definition => ⟨definition, "ada".toList⟩
      definitionId := some loginDefinition.id }

theorem records_recovered_login :
    (∃ members, loginDefinition.toJson = .object members ∧
      StepDefinition.ofJson? (.object (("note".toList, .null) :: members)) =
        some loginDefinition) ∧
      RankedMatch.ofJson? loginMatch.toJson = some loginMatch ∧
      (∀ description ∈ loginDefinition.pattern.display.argDescriptions,
        ArgDescription.ofJson? description.toJson = some description) ∧
      FormattedPattern.ofJson? loginDefinition.pattern.display.toJson =
        some loginDefinition.pattern.display := by
  have line : ∀ location ∈ loginDefinition.location, location.line < wordBound := by decide
  have indices : ∀ description ∈ loginDefinition.pattern.display.argDescriptions,
      description.index < doubleWordBound := by decide +kernel
  obtain ⟨-, -, definitions, -, ranked, -, descriptions, formatted, -, -⟩ := records_recovered
  obtain ⟨members, written, extended⟩ := (definitions loginDefinition line).extended
  refine ⟨⟨members, written, extended _ ⟨[("note".toList, .null)], ?_, by decide⟩⟩, ?_, ?_, ?_⟩
  · exact (List.perm_append_singleton _ _).symm
  · exact (ranked loginMatch (by decide)).exact
  · exact fun description member => (descriptions description (indices description member)).exact
  · exact (formatted _ indices).exact

end StepGrammar
