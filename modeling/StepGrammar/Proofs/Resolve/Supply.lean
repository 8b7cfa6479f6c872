import Mathlib.Algebra.BigOperators.Group.List.Basic
import Mathlib.Algebra.GroupWithZero.Nat
import Mathlib.Data.List.Perm.Subperm
import Mathlib.Data.List.ReduceOption
import StepGrammar.Proofs.Pattern.Language
import StepGrammar.Proofs.Resolve.Pool

/-!
Contract: handing out any list of values to the pieces of a pattern.

No relation between the values and the pattern is assumed. Each step takes the first value of a
type out of the pool, so nothing is handed out twice and each type keeps its order. Where there are
as many values of every parameter type as parameters of it, a second invariant holds: every step
leaves enough for the parameters that follow, and only empty braces use up the surplus.
-/

namespace StepGrammar

def Piece.MayTake : Piece → ArgType → Prop
  | .enum _, type => type = .enum
  | .parameter _ _, type | .anonymous, type => type ≠ .enum ∧ type ≠ .table
  | _, _ => False

/-- What it is for values to be handed to pieces soundly: every piece gets a value that it may take
or none, no value is handed out twice, and of each type the first ones are handed out in order. -/
structure IsSoundHandout (pieces : List Piece) (values : List ConcreteArg)
    (handed : List (Option ConcreteArg)) : Prop where
  aligned : handed.length = pieces.length
  once : handed.reduceOption.Subperm values
  fits : ∀ piece arg, (piece, some arg) ∈ pieces.zip handed → piece.MayTake arg.type
  inOrder : ∀ type, handed.reduceOption.filter (ConcreteArg.isOf type) <+:
    values.filter (ConcreteArg.isOf type)

/-! ## Every list of values -/

theorem mayTake_of_takes {piece : Piece} {later : List Piece} {values : List ConcreteArg}
    {arg : ConcreteArg} (takes : piece.takes later values arg) : piece.MayTake arg.type := by
  have inline {type : ParameterType} (isType : arg.type = .parameter type) :
      arg.type ≠ .enum ∧ arg.type ≠ .table := by
    rw [isType]
    exact ⟨ArgType.noConfusion, ArgType.noConfusion⟩
  cases piece with
  | enum listed => exact takes_enum.1 takes
  | parameter type name =>
      by_cases left : 0 < values.countP (ConcreteArg.isFor type)
      · exact inline ((takes_parameter_of_left left).1 takes)
      · obtain ⟨other, isOther⟩ :=
          isInline_iff.1 ((takes_parameter_of_none (Nat.eq_zero_of_not_pos left)).1 takes)
        exact inline isOther
  | anonymous =>
      obtain ⟨type, -, isType⟩ := takes_anonymous.1 takes
      exact inline isType
  | _ => exact absurd takes Bool.false_ne_true

/-- Handing out is sound for every list of values, whether or not it belongs to the pieces. -/
theorem isSoundHandout_allocate (pieces : List Piece) (values : List ConcreteArg) :
    IsSoundHandout pieces values (allocate pieces values) := by
  induction pieces generalizing values with
  | nil => exact ⟨rfl, List.nil_subperm, by simp, fun _ => List.nil_prefix⟩
  | cons piece later inductionHypothesis =>
      rcases allocate_cons_cases piece later values with
        ⟨-, step⟩ | ⟨front, own, back, rfl, takes, passed, step⟩
      · obtain ⟨aligned, once, fits, inOrder⟩ := inductionHypothesis values
        rw [step]
        refine ⟨congrArg (· + 1) aligned, once, ?_, inOrder⟩
        intro other arg member
        rw [List.zip_cons_cons, List.mem_cons] at member
        rcases member with same | member
        · simp at same
        · exact fits other arg member
      · obtain ⟨aligned, once, fits, inOrder⟩ := inductionHypothesis (front ++ back)
        rw [step]
        refine ⟨congrArg (· + 1) aligned, ?_, ?_, ?_⟩
        · rw [List.reduceOption_cons_of_some]
          exact ((List.subperm_cons own).2 once).trans List.perm_middle.symm.subperm
        · intro other arg member
          rw [List.zip_cons_cons, List.mem_cons] at member
          rcases member with same | member
          · obtain ⟨rfl, rfl⟩ : other = piece ∧ arg = own := by simpa using same
            exact mayTake_of_takes takes
          · exact fits other arg member
        · intro type
          rw [List.reduceOption_cons_of_some]
          have rest := inOrder type
          rw [List.filter_append] at rest ⊢
          by_cases isOwn : own.isOf type
          · -- The values before the one taken are of other types.
            have frontFree : front.filter (ConcreteArg.isOf type) = [] := by
              apply List.filter_eq_nil_iff.2
              intro arg member isType
              exact passed arg member ((isOf_iff.1 isType).trans (isOf_iff.1 isOwn).symm)
            rw [frontFree, List.nil_append] at rest ⊢
            rw [List.filter_cons_of_pos isOwn, List.filter_cons_of_pos isOwn]
            exact (List.prefix_cons_inj own).2 rest
          · rw [List.filter_cons_of_neg isOwn, List.filter_cons_of_neg isOwn]
            exact rest

/-! ## Enough values of every parameter type -/

/-- Whether there are at least as many values of every parameter type as parameters of it. -/
def Covers (pieces : List Piece) (values : List ConcreteArg) : Prop :=
  ∀ type, pieces.countP (Piece.isParameter type) ≤ values.countP (ConcreteArg.isFor type)

/-- The number of values of parameter types beyond the parameters of these types. -/
def surplus (pieces : List Piece) (values : List ConcreteArg) : Nat :=
  (ParameterType.all.map fun type =>
    values.countP (ConcreteArg.isFor type) - pieces.countP (Piece.isParameter type)).sum

/-- Whether each of the empty braces among pieces is handed a value, in their order. -/
def servedBraces (pieces : List Piece) (handed : List (Option ConcreteArg)) : List Bool :=
  ((pieces.zip handed).filter fun slot => slot.1 == .anonymous).map fun slot => slot.2.isSome

theorem servedBraces_cons (piece : Piece) (later : List Piece) (given : Option ConcreteArg)
    (handed : List (Option ConcreteArg)) :
    servedBraces (piece :: later) (given :: handed) =
      if piece = .anonymous then given.isSome :: servedBraces later handed
      else servedBraces later handed := by
  by_cases isBraces : piece = .anonymous <;> simp [servedBraces, isBraces]

theorem surplus_pos_iff {pieces : List Piece} {values : List ConcreteArg} :
    0 < surplus pieces values ↔
      ∃ type, pieces.countP (Piece.isParameter type) < values.countP (ConcreteArg.isFor type) := by
  rw [surplus, List.sum_pos_iff_exists_pos_nat]
  constructor
  · rintro ⟨_, member, positive⟩
    obtain ⟨type, -, rfl⟩ := List.mem_map.1 member
    exact ⟨type, Nat.lt_of_sub_pos positive⟩
  · rintro ⟨type, more⟩
    exact ⟨_, List.mem_map_of_mem type.mem_all, Nat.sub_pos_of_lt more⟩

/-- The surplus depends on the differences alone. -/
theorem surplus_congr {pieces later : List Piece} {values rest : List ConcreteArg}
    (same : ∀ type,
      values.countP (ConcreteArg.isFor type) - pieces.countP (Piece.isParameter type) =
        rest.countP (ConcreteArg.isFor type) - later.countP (Piece.isParameter type)) :
    surplus pieces values = surplus later rest := by
  simp only [surplus, same]

/-- The surplus shrinks by one where a value is taken for which no parameter waits. -/
theorem surplus_of_taken {later : List Piece} {values rest : List ConcreteArg}
    {taken : ParameterType}
    (spare : later.countP (Piece.isParameter taken) < values.countP (ConcreteArg.isFor taken))
    (counts : ∀ type, values.countP (ConcreteArg.isFor type) =
      rest.countP (ConcreteArg.isFor type) + if type = taken then 1 else 0) :
    surplus later values = surplus later rest + 1 := by
  have differences (type : ParameterType) :
      values.countP (ConcreteArg.isFor type) - later.countP (Piece.isParameter type) =
        (rest.countP (ConcreteArg.isFor type) - later.countP (Piece.isParameter type)) +
          if type = taken then 1 else 0 := by
    have count := counts type
    by_cases same : type = taken
    · subst same
      rw [if_pos rfl] at count ⊢
      omega
    · rw [if_neg same, Nat.add_zero] at count ⊢
      rw [count]
  have one : (ParameterType.all.map fun type => if type = taken then 1 else 0).sum = 1 := by
    cases taken <;> rfl
  simp only [surplus, differences]
  rw [List.sum_map_add, one]

variable {later : List Piece} {values : List ConcreteArg}

theorem countP_isFor_middle {front back : List ConcreteArg} {own : ConcreteArg}
    {taken : ParameterType} (isTaken : own.type = .parameter taken) (type : ParameterType) :
    (front ++ own :: back).countP (ConcreteArg.isFor type) =
      (front ++ back).countP (ConcreteArg.isFor type) + if type = taken then 1 else 0 := by
  have isFor : own.isFor type ↔ type = taken := by
    rw [isFor_iff, isTaken, ArgType.parameter.injEq, eq_comm]
  rw [List.countP_append, List.countP_cons, List.countP_append, ← Nat.add_assoc]
  simp only [isFor]

/-- A parameter of which enough values are left gets one of its own type. -/
theorem allocate_parameter_of_covers {type : ParameterType} {name : Option Text}
    (covers : Covers (.parameter type name :: later) values) :
    ∃ own rest,
      allocate (.parameter type name :: later) values = some own :: allocate later rest ∧
      own.type = .parameter type ∧ Covers later rest ∧
      surplus (.parameter type name :: later) values = surplus later rest := by
  have demand (other : ParameterType) :
      (Piece.parameter type name :: later).countP (Piece.isParameter other) =
        later.countP (Piece.isParameter other) + if other = type then 1 else 0 := by
    simp only [List.countP_cons, Piece.isParameter, beq_iff_eq, @eq_comm _ type other]
  have left : 0 < values.countP (ConcreteArg.isFor type) := by
    have enough := covers type
    rw [demand, if_pos rfl] at enough
    omega
  rcases allocate_cons_cases (.parameter type name) later values with
    ⟨nothing, -⟩ | ⟨front, own, back, rfl, takes, -, step⟩
  · obtain ⟨own, member, isOwn⟩ := List.countP_pos_iff.1 left
    exact absurd ((takes_parameter_of_left left).2 (isFor_iff.1 isOwn)) (nothing own member)
  · have isOwn := (takes_parameter_of_left left).1 takes
    refine ⟨own, front ++ back, step, isOwn, ?_, ?_⟩
    · intro other
      have enough := covers other
      rw [demand, countP_isFor_middle isOwn] at enough
      exact Nat.le_of_add_le_add_right enough
    · apply surplus_congr
      intro other
      rw [demand, countP_isFor_middle isOwn, Nat.add_sub_add_right]

/-- Empty braces get a value exactly while there is a surplus, and they take it from the surplus. -/
theorem allocate_anonymous_of_covers (covers : Covers (.anonymous :: later) values) :
    (surplus (.anonymous :: later) values = 0 ∧ surplus later values = 0 ∧ Covers later values ∧
        allocate (.anonymous :: later) values = none :: allocate later values) ∨
      ∃ own rest,
        allocate (.anonymous :: later) values = some own :: allocate later rest ∧
        Covers later rest ∧ surplus (.anonymous :: later) values = surplus later rest + 1 := by
  have demand (type : ParameterType) :
      (Piece.anonymous :: later).countP (Piece.isParameter type) =
        later.countP (Piece.isParameter type) := List.countP_cons_of_neg Bool.false_ne_true
  have sameSurplus : surplus (.anonymous :: later) values = surplus later values :=
    surplus_congr fun type => by rw [demand]
  have enough : Covers later values := fun type => demand type ▸ covers type
  rcases allocate_cons_cases .anonymous later values with
    ⟨nothing, step⟩ | ⟨front, own, back, rfl, takes, -, step⟩
  · have exhausted : surplus later values = 0 := by
      refine Nat.eq_zero_of_not_pos fun positive => ?_
      obtain ⟨type, more⟩ := surplus_pos_iff.1 positive
      obtain ⟨arg, member, isType⟩ := List.countP_pos_iff.1 (Nat.zero_lt_of_lt more)
      exact nothing arg member (takes_anonymous.2 ⟨type, more, isFor_iff.1 isType⟩)
    exact Or.inl ⟨sameSurplus.trans exhausted, exhausted, enough, step⟩
  · obtain ⟨taken, more, isTaken⟩ := takes_anonymous.1 takes
    refine Or.inr ⟨own, front ++ back, step, ?_, ?_⟩
    · intro type
      have typeEnough := enough type
      rw [countP_isFor_middle isTaken] at typeEnough
      by_cases same : type = taken
      · subst same
        rw [countP_isFor_middle isTaken, if_pos rfl] at more
        exact Nat.le_of_lt_succ more
      · rwa [if_neg same, Nat.add_zero] at typeEnough
    · rw [sameSurplus]
      exact surplus_of_taken more (countP_isFor_middle isTaken)

/-- Other pieces touch neither the values of parameter types nor their demand. -/
theorem allocate_other_of_covers {piece : Piece} (covers : Covers (piece :: later) values)
    (untyped : ∀ type, ¬piece.isParameter type) (notBraces : piece ≠ .anonymous) :
    ∃ given rest, allocate (piece :: later) values = given :: allocate later rest ∧
      Covers later rest ∧ surplus (piece :: later) values = surplus later rest := by
  have demand (type : ParameterType) :
      (piece :: later).countP (Piece.isParameter type) =
        later.countP (Piece.isParameter type) := List.countP_cons_of_neg (untyped type)
  rcases allocate_cons_cases piece later values with
    ⟨-, step⟩ | ⟨front, own, back, rfl, takes, -, step⟩
  · exact ⟨none, values, step, fun type => demand type ▸ covers type,
      surplus_congr fun type => by rw [demand]⟩
  · have notInline : ∀ type, ¬own.isFor type := by
      intro type isType
      have mayTake := mayTake_of_takes takes
      rw [isFor_iff.1 isType] at mayTake
      cases piece with
      | enum listed => exact ArgType.noConfusion mayTake
      | parameter other name => exact untyped other (beq_self_eq_true other)
      | anonymous => exact notBraces rfl
      | _ => exact mayTake
    have supply (type : ParameterType) :
        (front ++ own :: back).countP (ConcreteArg.isFor type) =
          (front ++ back).countP (ConcreteArg.isFor type) := by
      rw [List.countP_append, List.countP_cons_of_neg (notInline type), List.countP_append]
    refine ⟨some own, front ++ back, step, ?_, ?_⟩
    · intro type
      rw [← demand, ← supply]
      exact covers type
    · apply surplus_congr
      intro type
      rw [demand, supply]

/-- What it is for a handout to serve all parameters: each gets a value of its own type, and of the
empty braces exactly the first ones get a value, as many as the surplus allows. -/
structure ServesParameters (pieces : List Piece) (values : List ConcreteArg)
    (handed : List (Option ConcreteArg)) : Prop where
  own : ∀ type name given, (.parameter type name, given) ∈ pieces.zip handed →
    ∃ arg, given = some arg ∧ arg.type = .parameter type
  braces : servedBraces pieces handed =
    List.replicate (min (surplus pieces values) (pieces.count .anonymous)) true ++
      List.replicate (pieces.count .anonymous - surplus pieces values) false

/-- A piece other than empty braces changes nothing for the braces behind it. -/
theorem servesParameters_cons {piece : Piece} {rest : List ConcreteArg}
    {given : Option ConcreteArg} {handed : List (Option ConcreteArg)}
    (notBraces : piece ≠ .anonymous)
    (own : ∀ type name, piece = .parameter type name →
      ∃ arg, given = some arg ∧ arg.type = .parameter type)
    (sameSurplus : surplus (piece :: later) values = surplus later rest)
    (serves : ServesParameters later rest handed) :
    ServesParameters (piece :: later) values (given :: handed) := by
  constructor
  · intro type name other member
    rw [List.zip_cons_cons, List.mem_cons, Prod.mk.injEq] at member
    rcases member with ⟨isParameter, rfl⟩ | member
    · exact own type name isParameter.symm
    · exact serves.own type name other member
  · rw [servedBraces_cons, if_neg notBraces, sameSurplus, List.count_cons_of_ne notBraces]
    exact serves.braces

/-- Where there are enough values of every parameter type, all parameters are served. -/
theorem servesParameters_allocate {pieces : List Piece} {values : List ConcreteArg}
    (covers : Covers pieces values) : ServesParameters pieces values (allocate pieces values) := by
  induction pieces generalizing values with
  | nil => exact ⟨by simp, by simp [servedBraces]⟩
  | cons piece later inductionHypothesis =>
      cases piece with
      | parameter type name =>
          obtain ⟨own, rest, step, isOwn, enough, sameSurplus⟩ :=
            allocate_parameter_of_covers covers
          rw [step]
          refine servesParameters_cons Piece.noConfusion ?_ sameSurplus (inductionHypothesis enough)
          intro other name same
          obtain ⟨rfl, -⟩ := Piece.parameter.inj same
          exact ⟨own, rfl, isOwn⟩
      | anonymous =>
          have count : (Piece.anonymous :: later).count .anonymous = later.count .anonymous + 1 :=
            List.count_cons_self
          rcases allocate_anonymous_of_covers covers with
            ⟨exhausted, laterExhausted, enough, step⟩ | ⟨own, rest, step, enough, shrinks⟩
          · have serves := inductionHypothesis enough
            rw [step]
            refine ⟨fun type name given member => ?_, ?_⟩
            · rw [List.zip_cons_cons, List.mem_cons] at member
              exact serves.own type name given (member.resolve_left (by simp))
            · rw [servedBraces_cons, if_pos rfl, serves.braces, laterExhausted, exhausted, count,
                Nat.zero_min, Nat.zero_min]
              rfl
          · have serves := inductionHypothesis enough
            rw [step]
            refine ⟨fun type name given member => ?_, ?_⟩
            · rw [List.zip_cons_cons, List.mem_cons] at member
              exact serves.own type name given (member.resolve_left (by simp))
            · rw [servedBraces_cons, if_pos rfl, serves.braces, shrinks, count,
                Nat.add_min_add_right, Nat.add_sub_add_right]
              rfl
      | _ =>
          obtain ⟨given, rest, step, enough, sameSurplus⟩ :=
            allocate_other_of_covers covers (fun _ => Bool.false_ne_true) Piece.noConfusion
          rw [step]
          exact servesParameters_cons Piece.noConfusion (fun _ _ => Piece.noConfusion) sameSurplus
            (inductionHypothesis enough)

/-- The text of a pattern has in each place what is written for the value handed to it. Values are
handed out soundly whatever they are, and all parameters are served where there are enough values of
every parameter type. -/
theorem resolve_hands_out (pattern : Pattern) (values : List ConcreteArg) :
    pattern.resolve values =
        (List.zipWith (fun piece given => piece.resolve (given.map ConcreteArg.value))
          pattern.pieces (allocate pattern.pieces values)).flatten ∧
      IsSoundHandout pattern.pieces values (allocate pattern.pieces values) ∧
      (Covers pattern.pieces values →
        ServesParameters pattern.pieces values (allocate pattern.pieces values)) := by
  refine ⟨?_, isSoundHandout_allocate _ _, servesParameters_allocate⟩
  change resolvePieces pattern.pieces _ = _
  rw [resolvePieces, List.zipWith_map_right]
  rfl

/-- A pattern with three empty braces around a choice and two parameters. -/
def deliveryPattern : Pattern := "{} brings {int} (boxes|bags) to {} by {word} {}".toList

/-- Values for a delivery out of order: a whole number and a string more than the parameters need,
and a table. -/
def deliveryValues : List ConcreteArg :=
  [.typed (.parameter .word) "noon".toList, .typed .table "| size |".toList,
    .typed (.parameter .int) "7".toList, .typed .enum "bags".toList,
    .typed (.parameter .string) "the yard".toList, .typed (.parameter .int) "3".toList]

theorem resolve_hands_out_delivery :
    deliveryPattern.resolve deliveryValues = "7 brings 3 bags to the yard by noon ".toList ∧
      Covers deliveryPattern.pieces deliveryValues ∧
      servedBraces deliveryPattern.pieces (allocate deliveryPattern.pieces deliveryValues) =
        [true, true, false] := by
  have covers : Covers deliveryPattern.pieces deliveryValues := by
    intro type
    cases type <;> decide +kernel
  obtain ⟨written, -, serves⟩ := resolve_hands_out deliveryPattern deliveryValues
  refine ⟨written.trans (by decide +kernel), covers, ?_⟩
  rw [(serves covers).braces]
  decide +kernel

end StepGrammar
