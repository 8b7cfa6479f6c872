import StepGrammar.Command.Basic
import StepGrammar.Proofs.Resolve.Pool
import StepGrammar.Proofs.Resolve.Position

/-!
Contract: resolving a pattern with values for its first arguments alone.

The values of empty braces and of `any` parameters have the same type, and empty braces leave such
values to the `any` parameters behind them. Where such parameters are left without a value, the last
braces that have one are passed over, and what they leave goes to the first parameters that have
none. `receiptsBefore` and `receiptsBeyond` say for each piece which type of value it receives, and
`deal` hands out along such a plan. Where nothing is passed over, every value is at its own place.
-/

namespace StepGrammar

/-! ## The plan -/

/-- Hands out values along a plan of types. Each piece that receives a type gets the next value of
it. -/
def deal : List (Option ArgType) → List ConcreteArg → List (Option ConcreteArg)
  | [], _ => []
  | none :: plan, values => none :: deal plan values
  | some type :: plan, values =>
    values.find? (ConcreteArg.isOf type) :: deal plan (values.eraseP (ConcreteArg.isOf type))

/-- What pieces with values of their own receive: each its own type, the last empty braces nothing.
-/
def receiptsBefore (passed : Nat) : List Piece → List (Option ArgType)
  | [] => []
  | piece :: later =>
    (if piece = .anonymous ∧ later.count .anonymous < passed then none else piece.declaredType?) ::
      receiptsBefore passed later

/-- What pieces without values of their own receive: the first parameters what was left over. -/
def receiptsBeyond : Nat → List Piece → List (Option ArgType)
  | _, [] => []
  | left + 1, .parameter _ _ :: later => some (.parameter .any) :: receiptsBeyond left later
  | left, _ :: later => none :: receiptsBeyond left later

/-- The number of empty braces that are passed over when the first arguments alone have values. -/
def Pattern.passedOver (pattern : Pattern) (count : Nat) : Nat :=
  min ((pattern.takers.take count).count .anonymous)
    ((pattern.takers.drop count).countP (Piece.isParameter .any))

/-- What the pieces of a pattern receive when the first arguments alone have values. -/
def Pattern.receipts (pattern : Pattern) (count : Nat) : List (Option ArgType) :=
  receiptsBefore (pattern.passedOver count) (pattern.takers.take count) ++
    receiptsBeyond (pattern.passedOver count) (pattern.takers.drop count)

/-! ## One step of the plan -/

variable {piece : Piece} {later : List Piece} {values : List ConcreteArg}

/-- A piece that takes the values of one type, of which some are left, gets what a plan deals. -/
theorem allocate_cons_of_takes {type : ArgType}
    (takes : ∀ arg ∈ values, piece.takes later values arg ↔ arg.type = type)
    (left : 0 < values.countP (ConcreteArg.isOf type)) :
    ∃ own rest, own.type = type ∧ values.Perm (own :: rest) ∧
      allocate (piece :: later) values = some own :: allocate later rest ∧
      ∀ plan, deal (some type :: plan) values = some own :: deal plan rest := by
  rcases allocate_cons_cases piece later values with
    ⟨nothing, -⟩ | ⟨front, own, back, rfl, taken, passed, step⟩
  · obtain ⟨arg, member, isType⟩ := List.countP_pos_iff.1 left
    exact absurd ((takes arg member).2 (isOf_iff.1 isType)) (nothing arg member)
  · have ownType : own.type = type := (takes own (by simp)).1 taken
    have isOwn : own.isOf type := isOf_iff.2 ownType
    have passes : ∀ arg ∈ front, ¬arg.isOf type := by
      intro arg member isType
      exact passed arg member ((isOf_iff.1 isType).trans ownType.symm)
    refine ⟨own, front ++ back, ownType, List.perm_middle, step, fun plan => ?_⟩
    rw [deal, List.find?_append, List.find?_eq_none.2 passes, Option.none_or,
      List.find?_cons_of_pos isOwn, List.eraseP_append_right _ passes,
      List.eraseP_cons_of_pos isOwn]

/-! ## Pieces without values of their own -/

section Beyond

variable (allAny : ∀ arg ∈ values, arg.type = .parameter .any)

include allAny

theorem countP_isFor_of_allAny (type : ParameterType) :
    values.countP (ConcreteArg.isFor type) = if type = .any then values.length else 0 := by
  by_cases isAny : type = .any
  · rw [if_pos isAny, List.countP_eq_length]
    intro arg member
    rw [isFor_iff, allAny arg member, isAny]
  · rw [if_neg isAny, List.countP_eq_zero]
    intro arg member isType
    rw [isFor_iff, allAny arg member] at isType
    exact isAny (ArgType.parameter.inj isType).symm

/-- Where only values of any type are left, every parameter takes them. -/
theorem takes_parameter_of_allAny {type : ParameterType} {name : Option Text} {arg : ConcreteArg}
    (member : arg ∈ values) : (Piece.parameter type name).takes later values arg := by
  have count := countP_isFor_of_allAny allAny type
  by_cases isAny : type = .any
  · rw [if_pos isAny] at count
    have left : 0 < values.countP (ConcreteArg.isFor type) :=
      count ▸ List.length_pos_of_mem member
    rw [takes_parameter_of_left left, allAny arg member, isAny]
  · rw [if_neg isAny] at count
    exact (takes_parameter_of_none count).2 (isInline_iff.2 ⟨.any, allAny arg member⟩)

/-- Other pieces leave such values to as many parameters behind them. -/
theorem not_takes_of_allAny (notParameter : ∀ type name, piece ≠ .parameter type name)
    (bound : values.length ≤ later.countP (Piece.isParameter .any)) :
    ∀ arg ∈ values, ¬piece.takes later values arg := by
  intro arg member takes
  have isAny := allAny arg member
  cases piece with
  | enum listed =>
      rw [takes_enum.1 takes] at isAny
      exact ArgType.noConfusion isAny
  | parameter type name => exact notParameter type name rfl
  | anonymous =>
      obtain ⟨type, spare, isType⟩ := takes_anonymous.1 takes
      obtain rfl : type = .any := ArgType.parameter.inj (isType.symm.trans isAny)
      rw [countP_isFor_of_allAny allAny, if_pos rfl] at spare
      omega
  | _ => exact Bool.false_ne_true takes

/-- What is left over goes to the first parameters. -/
theorem allocate_beyond {pieces : List Piece}
    (bound : values.length ≤ pieces.countP (Piece.isParameter .any)) :
    allocate pieces values = deal (receiptsBeyond values.length pieces) values := by
  induction pieces generalizing values with
  | nil => rfl
  | cons piece later inductionHypothesis =>
      by_cases isParameter : ∃ type name, piece = .parameter type name
      · obtain ⟨type, name, rfl⟩ := isParameter
        cases left : values.length with
        | zero =>
            obtain rfl := List.eq_nil_of_length_eq_zero left
            rw [allocate_cons_of_forall_not (by simp),
              inductionHypothesis allAny (Nat.zero_le _)]
            rfl
        | succ others =>
            have takes : ∀ arg ∈ values, (Piece.parameter type name).takes later values arg ↔
                arg.type = .parameter .any := fun arg member =>
              iff_of_true (takes_parameter_of_allAny allAny member) (allAny arg member)
            have count : values.countP (ConcreteArg.isOf (.parameter .any)) = others + 1 := by
              rw [← left]
              exact List.countP_eq_length.2 fun arg member => isOf_iff.2 (allAny arg member)
            obtain ⟨own, rest, -, split, step, dealt⟩ := allocate_cons_of_takes takes (by omega)
            have shorter : rest.length = others :=
              Nat.succ.inj (split.length_eq.symm.trans left)
            have restAny : ∀ arg ∈ rest, arg.type = .parameter .any := fun arg member =>
              allAny arg (split.mem_iff.2 (List.mem_cons_of_mem _ member))
            have restBound : rest.length ≤ later.countP (Piece.isParameter .any) := by
              rw [List.countP_cons] at bound
              split at bound <;> omega
            rw [step, receiptsBeyond, dealt, inductionHypothesis restAny restBound, shorter]
      · have notParameter : ∀ type name, piece ≠ .parameter type name := fun type name same =>
          isParameter ⟨type, name, same⟩
        have silent : ¬piece.isParameter .any := by
          cases piece with
          | parameter type name => exact absurd rfl (notParameter type name)
          | _ => exact Bool.false_ne_true
        have laterBound : values.length ≤ later.countP (Piece.isParameter .any) := by
          rwa [List.countP_cons_of_neg silent] at bound
        rw [allocate_cons_of_forall_not (not_takes_of_allAny allAny notParameter laterBound),
          inductionHypothesis allAny laterBound]
        cases piece with
        | parameter type name => exact absurd rfl (notParameter type name)
        | _ => simp only [receiptsBeyond, deal]

end Beyond

/-! ## Pieces with values of their own -/

/-- The values that are left when the pieces in front of a cut are still to come: those of their own
types, and one more of any type for every empty braces already passed over. -/
structure PoolAt (passed : Nat) (front back : List Piece) (values : List ConcreteArg) : Prop where
  count : ∀ type, values.countP (ConcreteArg.isOf type) = (declaredTypes front).count type +
    if type = .parameter .any then passed - front.count .anonymous else 0
  bound : passed ≤ back.countP (Piece.isParameter .any)
  tight : front.count .anonymous ≤ passed ∨ passed = back.countP (Piece.isParameter .any)

variable {passed : Nat} {front back : List Piece}

/-- A piece that receives its own type leaves the values of the later pieces. -/
theorem PoolAt.receive {type : ArgType} {rest : List ConcreteArg} {own : ConcreteArg}
    (pool : PoolAt passed (piece :: front) back values) (declares : piece.declaredType? = some type)
    (served : piece = .anonymous → passed ≤ front.count .anonymous)
    (isType : own.type = type) (split : values.Perm (own :: rest)) :
    PoolAt passed front back rest := by
  obtain ⟨count, bound, tight⟩ := pool
  have braces : front.count .anonymous ≤ (piece :: front).count .anonymous :=
    List.count_le_count_cons
  have sameExtra : passed - (piece :: front).count .anonymous = passed - front.count .anonymous := by
    by_cases isBraces : piece = .anonymous
    · have enough := served isBraces
      omega
    · rw [List.count_cons_of_ne isBraces]
  refine ⟨fun other => ?_, bound, by omega⟩
  have before := count other
  have isOwn : own.isOf other ↔ type = other := by rw [isOf_iff, isType]
  rw [split.countP_eq, List.countP_cons, declaredTypes_cons, declares, Option.toList_some,
    List.singleton_append, List.count_cons, sameExtra] at before
  simp only [isOwn, beq_iff_eq] at before
  omega

/-- Empty braces that are passed over leave one more value of any type. -/
theorem PoolAt.pass (pool : PoolAt passed (.anonymous :: front) back values)
    (passes : front.count .anonymous < passed) : PoolAt passed front back values := by
  obtain ⟨count, bound, tight⟩ := pool
  rw [List.count_cons_self] at count tight
  refine ⟨fun type => ?_, bound, by omega⟩
  have before := count type
  change _ = (ArgType.parameter .any :: declaredTypes front).count type + _ at before
  by_cases isAny : type = .parameter .any
  · subst isAny
    rw [List.count_cons_self, if_pos rfl] at before
    rw [if_pos rfl]
    omega
  · rw [List.count_cons_of_ne (Ne.symm isAny), if_neg isAny] at before
    rwa [if_neg isAny]

/-- Pieces that take no value leave the pool as it is. -/
theorem PoolAt.skip (pool : PoolAt passed (piece :: front) back values)
    (undeclared : piece.declaredType? = none) : PoolAt passed front back values := by
  have notBraces : piece ≠ .anonymous := by
    rintro rfl
    exact absurd undeclared (Option.some_ne_none _)
  obtain ⟨count, bound, tight⟩ := pool
  rw [declaredTypes_cons, undeclared, Option.toList_none, List.nil_append,
    List.count_cons_of_ne notBraces] at count
  rw [List.count_cons_of_ne notBraces] at tight
  exact ⟨count, bound, tight⟩

/-- The type that a piece receives is left in the pool. -/
theorem PoolAt.left {type : ArgType} (pool : PoolAt passed (piece :: front) back values)
    (declares : piece.declaredType? = some type) : 0 < values.countP (ConcreteArg.isOf type) := by
  rw [pool.count, declaredTypes_cons, declares, Option.toList_some, List.singleton_append,
    List.count_cons_self]
  omega

/-- Types other than `any` are never spare, since each of their values belongs to a parameter. -/
theorem PoolAt.spare_iff (pool : PoolAt passed (.anonymous :: front) back values)
    {type : ParameterType} :
    (front ++ back).countP (Piece.isParameter type) < values.countP (ConcreteArg.isFor type) ↔
      type = .any ∧ passed ≤ front.count .anonymous := by
  obtain ⟨count, bound, tight⟩ := pool
  have left := count (.parameter type)
  rw [count_declaredTypes, List.countP_cons_of_neg Bool.false_ne_true, List.count_cons_self] at left
  rw [List.count_cons_self] at tight
  change values.countP (ConcreteArg.isFor type) = _ at left
  rw [left, List.countP_append]
  by_cases isAny : type = .any
  · subst isAny
    simp only [if_true, true_and]
    omega
  · have notAny : ArgType.parameter type ≠ .parameter .any := fun same =>
      isAny (ArgType.parameter.inj same)
    rw [if_neg isAny, if_neg notAny]
    simp [isAny]

/-- A piece that takes its own type gets what the plan deals, and leaves the pool of the others. -/
theorem PoolAt.step_of_takes {type : ArgType} (pool : PoolAt passed (piece :: front) back values)
    (declares : piece.declaredType? = some type)
    (served : piece = .anonymous → passed ≤ front.count .anonymous)
    (takes : ∀ arg ∈ values, piece.takes (front ++ back) values arg ↔ arg.type = type) :
    ∃ given rest, PoolAt passed front back rest ∧
      allocate (piece :: (front ++ back)) values = given :: allocate (front ++ back) rest ∧
      ∀ plan, deal (receiptsBefore passed (piece :: front) ++ plan) values =
        given :: deal (receiptsBefore passed front ++ plan) rest := by
  obtain ⟨own, rest, isType, split, step, dealt⟩ :=
    allocate_cons_of_takes takes (pool.left declares)
  have notPassed : ¬(piece = .anonymous ∧ front.count .anonymous < passed) :=
    fun few => Nat.not_lt_of_ge (served few.1) few.2
  refine ⟨some own, rest, pool.receive declares served isType split, step, fun plan => ?_⟩
  rw [receiptsBefore, if_neg notPassed, declares, List.cons_append, dealt]

/-- Each piece in front of the cut gets what the plan deals, and leaves the pool of the others. -/
theorem PoolAt.step (pool : PoolAt passed (piece :: front) back values) :
    ∃ given rest, PoolAt passed front back rest ∧
      allocate (piece :: (front ++ back)) values = given :: allocate (front ++ back) rest ∧
      ∀ plan, deal (receiptsBefore passed (piece :: front) ++ plan) values =
        given :: deal (receiptsBefore passed front ++ plan) rest := by
  cases piece with
  | enum listed => exact pool.step_of_takes rfl Piece.noConfusion fun arg _ => takes_enum
  | parameter type name =>
      exact pool.step_of_takes rfl Piece.noConfusion fun arg _ =>
        takes_parameter_of_left (pool.left rfl)
  | anonymous =>
      by_cases served : passed ≤ front.count .anonymous
      · refine pool.step_of_takes rfl (fun _ => served) fun arg _ => takes_anonymous.trans ?_
        constructor
        · rintro ⟨type, spare, isType⟩
          rw [isType, (pool.spare_iff.1 spare).1]
        · intro isAny
          exact ⟨.any, pool.spare_iff.2 ⟨rfl, served⟩, isAny⟩
      · -- No value is spare, so the braces leave the pool as it is.
        have nothing : ∀ arg ∈ values, ¬Piece.anonymous.takes (front ++ back) values arg := by
          intro arg _ takes
          obtain ⟨type, spare, -⟩ := takes_anonymous.1 takes
          exact served (pool.spare_iff.1 spare).2
        have passes := Nat.lt_of_not_ge served
        refine ⟨none, values, pool.pass passes, allocate_cons_of_forall_not nothing, fun plan => ?_⟩
        rw [receiptsBefore, if_pos ⟨rfl, passes⟩, List.cons_append, deal]
  | _ =>
      refine ⟨none, values, pool.skip rfl,
        allocate_of_not_isCaptured (by simp [Piece.isCaptured]) _ _, fun plan => ?_⟩
      rw [receiptsBefore, if_neg fun isBraces => Piece.noConfusion isBraces.1]
      rfl

/-- At the cut only values of any type are left, as many as braces were passed over. -/
theorem PoolAt.leftover (pool : PoolAt passed [] back values) :
    values.length = passed ∧ ∀ arg ∈ values, arg.type = .parameter .any := by
  have count (type : ArgType) : values.countP (ConcreteArg.isOf type) =
      if type = .parameter .any then passed else 0 := by
    rw [pool.count]
    simp [declaredTypes]
  have allAny : ∀ arg ∈ values, arg.type = .parameter .any := by
    intro arg member
    by_contra other
    have none := count arg.type
    rw [if_neg other, List.countP_eq_zero] at none
    exact none arg member (isOf_iff.2 rfl)
  have all := count (.parameter .any)
  rw [if_pos rfl, List.countP_eq_length.2 fun arg member => isOf_iff.2 (allAny arg member)] at all
  exact ⟨all, allAny⟩

/-- What is handed out follows the plan. -/
theorem allocate_of_poolAt (pool : PoolAt passed front back values) :
    allocate (front ++ back) values =
      deal (receiptsBefore passed front ++ receiptsBeyond passed back) values := by
  induction front generalizing values with
  | nil =>
      obtain ⟨rfl, allAny⟩ := pool.leftover
      exact allocate_beyond allAny pool.bound
  | cons piece front inductionHypothesis =>
      obtain ⟨given, rest, restPool, step, dealt⟩ := pool.step
      rw [List.cons_append, step, dealt, inductionHypothesis restPool]

/-! ## Values for the first arguments -/

theorem isCaptured_of_mem_take (pattern : Pattern) (count : Nat) :
    ∀ piece ∈ pattern.takers.take count, piece.isCaptured := by
  intro piece member
  exact (List.mem_filter.1 (List.mem_of_mem_take member)).2

/-- The values for the first arguments have the types that the first pieces declare. -/
theorem map_type_argumentsWith_of_short {pattern : Pattern}
    (tableFree : endsInTable pattern.tokens = false) (values : List Text) :
    (pattern.argumentsWith values).map ConcreteArg.type =
      declaredTypes (pattern.takers.take values.length) := by
  apply (List.map_inj_right fun _ _ => Option.some.inj).1
  calc
    ((pattern.argumentsWith values).map ConcreteArg.type).map some
      = ((declaredTypes pattern.pieces).map some).take values.length := by
        rw [map_type_argumentsWith, map_type_arguments tableFree, List.map_take]
    _ = (pattern.takers.take values.length).map Piece.declaredType? := by
        rw [map_some_declaredTypes, ← List.map_take]
        rfl
    _ = (declaredTypes (pattern.takers.take values.length)).map some := by
        rw [map_some_declaredTypes, List.filter_eq_self.2 (isCaptured_of_mem_take pattern _)]

theorem poolAt_argumentsWith {pattern : Pattern}
    (tableFree : endsInTable pattern.tokens = false) (values : List Text) :
    PoolAt (pattern.passedOver values.length) (pattern.takers.take values.length)
      (pattern.takers.drop values.length) (pattern.argumentsWith values) := by
  refine ⟨fun type => ?_, Nat.min_le_right _ _, ?_⟩
  · have none : pattern.passedOver values.length -
        (pattern.takers.take values.length).count .anonymous = 0 :=
      Nat.sub_eq_zero_of_le (Nat.min_le_left _ _)
    rw [none, ite_self, Nat.add_zero, ← map_type_argumentsWith_of_short tableFree values,
      List.count, List.countP_map]
    rfl
  · rw [Pattern.passedOver]
    omega

theorem deal_receiptsBeyond_zero (pieces : List Piece) :
    deal (receiptsBeyond 0 pieces) [] = pieces.map fun _ => none := by
  induction pieces with
  | nil => rfl
  | cons piece later inductionHypothesis =>
      have nothing : receiptsBeyond 0 (piece :: later) = none :: receiptsBeyond 0 later := by
        cases piece <;> rfl
      rw [nothing, deal, inductionHypothesis, List.map_cons]

/-- Where no braces are passed over, the values are handed out in their order. -/
theorem deal_receipts_zero {front back : List Piece} {values : List ConcreteArg}
    (captured : ∀ piece ∈ front, piece.isCaptured)
    (aligned : values.map ConcreteArg.type = declaredTypes front) :
    deal (receiptsBefore 0 front ++ receiptsBeyond 0 back) values =
      values.map some ++ back.map fun _ => none := by
  induction front generalizing values with
  | nil =>
      obtain rfl := List.map_eq_nil_iff.1 aligned
      exact deal_receiptsBeyond_zero back
  | cons piece front inductionHypothesis =>
      have declared := captured piece List.mem_cons_self
      rw [← declaredType?_isSome, Option.isSome_iff_exists] at declared
      obtain ⟨type, declares⟩ := declared
      rw [declaredTypes_cons, declares, Option.toList_some, List.singleton_append,
        List.map_eq_cons_iff] at aligned
      obtain ⟨own, rest, rfl, isType, aligned⟩ := aligned
      have isOwn : own.isOf type := isOf_iff.2 isType
      have captured : ∀ piece ∈ front, piece.isCaptured := fun piece member =>
        captured piece (List.mem_cons_of_mem _ member)
      rw [receiptsBefore, if_neg fun isBraces => Nat.not_lt_zero _ isBraces.2, declares,
        List.cons_append, deal, List.find?_cons_of_pos isOwn, List.eraseP_cons_of_pos isOwn,
        inductionHypothesis captured aligned, List.map_cons, List.cons_append]

/-- Pieces that are handed nothing need not be listed at the end. -/
theorem placed_append_none {α : Type} (pieces : List Piece) (handed : List (Option Text))
    (others : List α) :
    placed pieces (handed ++ others.map fun _ => none) = placed pieces handed := by
  have same (index : Nat) :
      (handed ++ others.map fun _ => none)[index]?.join = handed[index]?.join := by
    rw [List.getElem?_append]
    split
    · rfl
    · rename_i beyond
      rw [List.getElem?_eq_none (Nat.le_of_not_lt beyond), List.getElem?_map]
      cases others[index - handed.length]? <;> rfl
  simp only [placed, same]

def printedText (pretty : Bool) (text : Text) : Text :=
  let printed := Json.object [("text".toList, .string text)]
  (if pretty then printed.indented else printed.compact) ++ ['\n']

/-- With values for the first arguments alone, the program prints the text in which each piece has
what its receipt says. Where no braces are passed over, that is the value at its own ordinal, and no
value beyond the last one. -/
theorem output_resolve_of_short {pattern : Pattern} {values : List Text}
    (tableFree : endsInTable pattern.tokens = false)
    (short : values.length < pattern.arguments.length) (files : Files) (pretty : Bool) :
    (Command.resolve pattern values).output files pretty =
        .ok (printedText pretty (placed pattern.pieces
          ((deal (pattern.receipts values.length) (pattern.argumentsWith values)).map
            fun arg => arg.map fun taken => taken.value))) ∧
      (pattern.passedOver values.length = 0 →
        (Command.resolve pattern values).output files pretty =
          .ok (printedText pretty (placed pattern.pieces (values.map some)))) := by
  have dealt : allocate pattern.takers (pattern.argumentsWith values) =
      deal (pattern.receipts values.length) (pattern.argumentsWith values) := by
    have handed := allocate_of_poolAt (poolAt_argumentsWith tableFree values)
    rwa [List.take_append_drop] at handed
  have printed : (Command.resolve pattern values).output files pretty =
      .ok (printedText pretty (placed pattern.pieces
        ((deal (pattern.receipts values.length) (pattern.argumentsWith values)).map
          fun arg => arg.map fun taken => taken.value))) := by
    rw [← dealt, ← resolve_eq_placed]
    rfl
  refine ⟨printed, fun nothingPassed => ?_⟩
  have positional : (deal (pattern.receipts values.length) (pattern.argumentsWith values)).map
        (fun arg => arg.map fun taken => taken.value) =
      values.map some ++ (pattern.takers.drop values.length).map fun _ => none := by
    rw [Pattern.receipts, nothingPassed,
      deal_receipts_zero (isCaptured_of_mem_take pattern _)
        (map_type_argumentsWith_of_short tableFree values),
      List.map_append, List.map_map, List.map_map]
    congr 1
    rw [← List.map_map]
    calc
      _ = ((pattern.argumentsWith values).map ConcreteArg.value).map some := by
        rw [List.map_map, List.map_map]
        rfl
      _ = values.map some := by rw [map_value_argumentsWith short.le]
  rw [printed, positional, placed_append_none]

/-- A pattern in which braces stand before and behind a parameter that takes the same values. -/
def lendingPattern : Pattern := "{} lends {any} to {} by {any} on {word}".toList

def lendingValues : List Text := ["Ann".toList, "boats".toList, "Bob".toList, "road".toList]

theorem output_resolve_of_short_lending :
    endsInTable lendingPattern.tokens = false ∧
      (lendingValues.take 3).length < lendingPattern.arguments.length ∧
      lendingValues.length < lendingPattern.arguments.length ∧
      (Command.resolve lendingPattern (lendingValues.take 3)).output (fun _ => none) false =
        .ok "\x7b\"text\":\"Ann lends boats to  by Bob on \"\x7d\n".toList ∧
      (Command.resolve lendingPattern lendingValues).output (fun _ => none) false =
        .ok "\x7b\"text\":\"Ann lends boats to Bob by road on \"\x7d\n".toList := by
  have tableFree : endsInTable lendingPattern.tokens = false := by decide +kernel
  have shorter : (lendingValues.take 3).length < lendingPattern.arguments.length := by
    decide +kernel
  have short : lendingValues.length < lendingPattern.arguments.length := by decide +kernel
  refine ⟨tableFree, shorter, short, ?_, ?_⟩
  · rw [(output_resolve_of_short tableFree shorter _ false).1]
    decide +kernel
  · rw [(output_resolve_of_short tableFree short _ false).2 (by decide +kernel)]
    decide +kernel

/-- Braces leave the value at their ordinal to a parameter that has none. -/
theorem output_resolve_passes_over_braces :
    endsInTable (Pattern.tokens "{} then {any}".toList) = false ∧
      ["x".toList].length < (Pattern.arguments "{} then {any}".toList).length ∧
      (Command.resolve "{} then {any}".toList ["x".toList]).output (fun _ => none) false ≠
        .ok (printedText false
          (placed (Pattern.pieces "{} then {any}".toList) (["x".toList].map some))) := by
  refine ⟨by decide +kernel, by decide +kernel, ?_⟩
  decide +kernel

end StepGrammar
