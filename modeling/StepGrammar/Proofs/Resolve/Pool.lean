import StepGrammar.Resolve

/-!
Contract: what one step of handing out values can do.

Whether a piece takes a value is decided by the type of the value, the values that are left and the
parameters that follow. `allocate_cons_cases` says all that a step does: it takes the first value of
some type out of the pool, or it leaves the pool as it is.
-/

namespace StepGrammar

def ConcreteArg.isOf (type : ArgType) (arg : ConcreteArg) : Bool := arg.type == type

variable {later : List Piece} {values : List ConcreteArg}

/-! ## What a piece takes -/

theorem isOf_iff {type : ArgType} {arg : ConcreteArg} : arg.isOf type ↔ arg.type = type := by
  rw [ConcreteArg.isOf, beq_iff_eq]

theorem ParameterType.mem_all (type : ParameterType) : type ∈ ParameterType.all := by
  cases type <;> decide

theorem isFor_iff {type : ParameterType} {arg : ConcreteArg} :
    arg.isFor type ↔ arg.type = .parameter type := by
  rw [ConcreteArg.isFor, beq_iff_eq]

theorem isInline_iff {arg : ConcreteArg} : arg.isInline ↔ ∃ type, arg.type = .parameter type := by
  unfold ConcreteArg.isInline
  split
  · rename_i type isType
    exact iff_of_true rfl ⟨type, isType⟩
  · rename_i other
    exact iff_of_false Bool.false_ne_true fun isType => other isType.choose isType.choose_spec

theorem takes_enum {listed : List Text} {arg : ConcreteArg} :
    (Piece.enum listed).takes later values arg ↔ arg.type = .enum := by
  rw [Piece.takes, beq_iff_eq]

/-- A parameter takes a value of its own type where one is left. -/
theorem takes_parameter_of_left {type : ParameterType} {name : Option Text}
    (left : 0 < values.countP (ConcreteArg.isFor type)) {arg : ConcreteArg} :
    (Piece.parameter type name).takes later values arg ↔ arg.type = .parameter type := by
  have some : values.any (ConcreteArg.isFor type) := by
    obtain ⟨own, member, isOwn⟩ := List.countP_pos_iff.1 left
    exact List.any_eq_true.2 ⟨own, member, isOwn⟩
  rw [Piece.takes, if_pos some, isFor_iff]

/-- A parameter takes a value of any parameter type where none of its own is left. -/
theorem takes_parameter_of_none {type : ParameterType} {name : Option Text}
    (none : values.countP (ConcreteArg.isFor type) = 0) {arg : ConcreteArg} :
    (Piece.parameter type name).takes later values arg ↔ arg.isInline := by
  have lacking : ¬values.any (ConcreteArg.isFor type) := by
    intro some
    obtain ⟨own, member, isOwn⟩ := List.any_eq_true.1 some
    exact List.countP_eq_zero.1 none own member isOwn
  rw [Piece.takes, if_neg lacking]

/-- Empty braces take a value of a type of which more are left than parameters of it follow. -/
theorem takes_anonymous {arg : ConcreteArg} :
    Piece.anonymous.takes later values arg ↔
      ∃ type, later.countP (Piece.isParameter type) < values.countP (ConcreteArg.isFor type) ∧
        arg.type = .parameter type := by
  rw [Piece.takes, List.any_eq_true]
  constructor
  · rintro ⟨type, -, spare⟩
    rw [Bool.and_eq_true, isSpare, decide_eq_true_iff, isFor_iff] at spare
    exact ⟨type, spare⟩
  · rintro ⟨type, spare⟩
    refine ⟨type, type.mem_all, ?_⟩
    rw [Bool.and_eq_true, isSpare, decide_eq_true_iff, isFor_iff]
    exact spare

/-- Values of one type are taken alike. -/
theorem takes_congr {piece : Piece} {first second : ConcreteArg} (same : first.type = second.type) :
    piece.takes later values first = piece.takes later values second := by
  have sameInline : first.isInline = second.isInline := by
    simp only [ConcreteArg.isInline, same]
  cases piece <;> simp only [Piece.takes, ConcreteArg.isFor, same, sameInline]

/-! ## One step -/

theorem allocate_cons_of_forall_not {piece : Piece}
    (nothing : ∀ arg ∈ values, ¬piece.takes later values arg) :
    allocate (piece :: later) values = none :: allocate later values := by
  rw [allocate, List.find?_eq_none.2 nothing, List.eraseP_of_forall_not nothing]

/-- A piece takes nothing and leaves every value, or it takes the first value of its type. -/
theorem allocate_cons_cases (piece : Piece) (later : List Piece) (values : List ConcreteArg) :
    ((∀ arg ∈ values, ¬piece.takes later values arg) ∧
        allocate (piece :: later) values = none :: allocate later values) ∨
      ∃ front own back, values = front ++ own :: back ∧ piece.takes later values own ∧
        (∀ arg ∈ front, arg.type ≠ own.type) ∧
        allocate (piece :: later) values = some own :: allocate later (front ++ back) := by
  cases found : values.find? (piece.takes later values) with
  | none =>
      have nothing := List.find?_eq_none.1 found
      exact Or.inl ⟨nothing, allocate_cons_of_forall_not nothing⟩
  | some own =>
      obtain ⟨takes, front, back, split, passed⟩ := List.find?_eq_some_iff_append.1 found
      have passes : ∀ arg ∈ front, ¬piece.takes later values arg := by
        simpa using passed
      refine Or.inr ⟨front, own, back, split, takes, ?_, ?_⟩
      · intro arg member same
        exact passes arg member (takes_congr same ▸ takes)
      · have erased : values.eraseP (piece.takes later values) = front ++ back := by
          calc
            _ = (front ++ own :: back).eraseP (piece.takes later values) := congrArg _ split
            _ = front ++ back := by
              rw [List.eraseP_append_right _ passes, List.eraseP_cons_of_pos takes]
        rw [allocate, found, erased]

end StepGrammar
