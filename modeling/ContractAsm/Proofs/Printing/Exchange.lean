import ContractAsm.Proofs.Asm.Translation

/-!
# Statements in their place

What a statement adds to the text of a tree is seen from the statement alone, so one statement
may stand for another that is printed alike, at any place of a tree. Inline assembly is printed
like the block that its operations are translated to, and so the text does not tell whether
assembly or the translated block stands in a tree.
-/

namespace ContractAsm.Ir

/-! ## One statement for another -/

mutual

/-- The second statement is the first with `new` in one place where the first has `old`. -/
inductive Statement.Exchanges (old new : Statement) : Statement → Statement → Prop where
  | here : Statement.Exchanges old new old new
  | functionBody {name : Text} {parameters results : List TypedName} {first second : Block}
      {location : Option Location} (inner : Block.Exchanges old new first second) :
      Statement.Exchanges old new (.functionDefinition name parameters results first location)
        (.functionDefinition name parameters results second location)
  | case {first second : Case} (inner : Case.Exchanges old new first second) :
      Statement.Exchanges old new (.case first) (.case second)
  | switchCase {value : Expression} {before after : List Case} {first second : Case}
      {location : Option Location} (inner : Case.Exchanges old new first second) :
      Statement.Exchanges old new (.switch value (before ++ first :: after) location)
        (.switch value (before ++ second :: after) location)
  | ifBody {condition : Expression} {first second : Block} {location : Option Location}
      (inner : Block.Exchanges old new first second) :
      Statement.Exchanges old new (.ifThen condition first location)
        (.ifThen condition second location)
  | forPre {condition : Expression} {first second post body : Block} {location : Option Location}
      (inner : Block.Exchanges old new first second) :
      Statement.Exchanges old new (.forLoop first condition post body location)
        (.forLoop second condition post body location)
  | forPost {condition : Expression} {pre first second body : Block} {location : Option Location}
      (inner : Block.Exchanges old new first second) :
      Statement.Exchanges old new (.forLoop pre condition first body location)
        (.forLoop pre condition second body location)
  | forBody {condition : Expression} {pre post first second : Block} {location : Option Location}
      (inner : Block.Exchanges old new first second) :
      Statement.Exchanges old new (.forLoop pre condition post first location)
        (.forLoop pre condition post second location)
  | block {first second : Block} (inner : Block.Exchanges old new first second) :
      Statement.Exchanges old new (.block first) (.block second)

inductive Case.Exchanges (old new : Statement) : Case → Case → Prop where
  | body {value : Option Expression} {first second : Block} {location : Option Location}
      (inner : Block.Exchanges old new first second) :
      Case.Exchanges old new (.mk value first location) (.mk value second location)
  | other {first second : Statement} (inner : Statement.Exchanges old new first second) :
      Case.Exchanges old new (.other first) (.other second)

inductive Block.Exchanges (old new : Statement) : Block → Block → Prop where
  | statement {before after : List Statement} {first second : Statement}
      {location : Option Location} {kind : Option Json}
      (inner : Statement.Exchanges old new first second) :
      Block.Exchanges old new (.mk (before ++ first :: after) location kind)
        (.mk (before ++ second :: after) location kind)

end

/-! ## Lists in a row -/

theorem statementLayouts_append (first second : List Statement) :
    statementLayouts (first ++ second) = statementLayouts first ++ statementLayouts second := by
  induction first with
  | nil => rfl
  | cons statement rest ih => rw [List.cons_append, statementLayouts, statementLayouts, ih, List.cons_append]

theorem caseLayouts_append (first second : List Case) :
    caseLayouts (first ++ second) = caseLayouts first ++ caseLayouts second := by
  induction first with
  | nil => rfl
  | cons case rest ih => rw [List.cons_append, caseLayouts, caseLayouts, ih, List.cons_append]

theorem areRecognised_append (first second : List Statement) :
    areRecognised (first ++ second) = (areRecognised first && areRecognised second) := by
  induction first with
  | nil => rfl
  | cons statement rest ih => rw [List.cons_append, areRecognised, areRecognised, ih, Bool.and_assoc]

theorem areRecognisedCases_append (first second : List Case) :
    areRecognisedCases (first ++ second) = (areRecognisedCases first && areRecognisedCases second) := by
  induction first with
  | nil => rfl
  | cons case rest ih => rw [List.cons_append, areRecognisedCases, areRecognisedCases, ih, Bool.and_assoc]

/-! ## What is seen of a statement -/

section

variable {old new : Statement}

mutual

/-- Where a statement stands for another that is laid out alike, the whole is laid out alike. -/
theorem Statement.Exchanges.prints (layouts : new.layout = old.layout)
    (known : new.isRecognised = old.isRecognised) {first second : Statement}
    (exchanges : Statement.Exchanges old new first second) :
    second.layout = first.layout ∧ second.isRecognised = first.isRecognised := by
  match exchanges with
  | .here => exact ⟨layouts, known⟩
  | .functionBody inner | .ifBody inner | .forPre inner | .forPost inner | .forBody inner
  | .block inner =>
    obtain ⟨shown, told⟩ := Block.Exchanges.prints layouts known inner
    simp only [Statement.layout, Statement.isRecognised, shown, told, and_self]
  | .case inner =>
    obtain ⟨shown, told⟩ := Case.Exchanges.prints layouts known inner
    exact ⟨shown, told⟩
  | .switchCase inner =>
    obtain ⟨shown, told⟩ := Case.Exchanges.prints layouts known inner
    simp only [Statement.layout, Statement.isRecognised, caseLayouts_append, caseLayouts,
      areRecognisedCases_append, areRecognisedCases, shown, told, and_self]

theorem Case.Exchanges.prints (layouts : new.layout = old.layout)
    (known : new.isRecognised = old.isRecognised) {first second : Case}
    (exchanges : Case.Exchanges old new first second) :
    second.layout = first.layout ∧ second.isRecognised = first.isRecognised := by
  match exchanges with
  | @Case.Exchanges.body _ _ value _ _ _ inner =>
    obtain ⟨shown, told⟩ := Block.Exchanges.prints layouts known inner
    cases value with
    | none => simp only [Case.layout, Case.isRecognised, shown, told, and_self]
    | some value => simp only [Case.layout, Case.isRecognised, shown, told, and_self]
  | .other inner =>
    obtain ⟨shown, told⟩ := Statement.Exchanges.prints layouts known inner
    exact ⟨shown, told⟩

theorem Block.Exchanges.prints (layouts : new.layout = old.layout)
    (known : new.isRecognised = old.isRecognised) {first second : Block}
    (exchanges : Block.Exchanges old new first second) :
    second.layout = first.layout ∧ second.isRecognised = first.isRecognised := by
  match exchanges with
  | .statement inner =>
    obtain ⟨shown, told⟩ := Statement.Exchanges.prints layouts known inner
    simp only [Block.layout, Block.isRecognised, statementLayouts_append, statementLayouts,
      areRecognised_append, areRecognised, shown, told, and_self]

end

end

/-! ## Assembly and its translation -/

/-- A block of assembly is printed as the block that it is translated to. So is the statement
that holds the assembly, wherever in a tree it stands. -/
theorem print?_toIr (operations : Asm.Block) (location : Option Location) :
    operations.toIr.print? = operations.print?
      ∧ (Statement.block operations.toIr).print? = (Statement.inlineAssembly operations location).print?
      ∧ ∀ first second : Block,
        Block.Exchanges (.inlineAssembly operations location) (.block operations.toIr) first second →
          second.print? = first.print? := by
  have layouts : (Statement.block operations.toIr).layout
      = (Statement.inlineAssembly operations location).layout := operations.layout_toIr
  have known : (Statement.block operations.toIr).isRecognised
      = (Statement.inlineAssembly operations location).isRecognised := operations.isRecognised_toIr
  refine ⟨?_, ?_, fun first second exchanges => ?_⟩
  · rw [Block.print?, Asm.Block.print?, Block.render, Asm.Block.render, operations.layout_toIr,
      operations.isRecognised_toIr]
  · rw [Statement.print?, Statement.print?, Statement.render, Statement.render, layouts, known]
  · obtain ⟨shown, told⟩ := exchanges.prints layouts known
    rw [Block.print?, Block.print?, Block.render, Block.render, shown, told]

def switchingOperations : Asm.Block :=
  .mk [.switch (.functionalInstruction "mload" [.literal ⟨.number, "0", none, none⟩] none)
    [.mk (some (.literal ⟨.number, "1", some "u256", none⟩)) (.mk [.block (.mk [] none)] none),
      .mk none (.mk [] none)] none] none

def functionAround (statement : Statement) : Block :=
  .mk [.functionDefinition "f" [] [] (.mk [statement] none) none] none

theorem print?_toIr_switching :
    Block.Exchanges (.inlineAssembly switchingOperations none) (.block switchingOperations.toIr)
        (functionAround (.inlineAssembly switchingOperations none))
        (functionAround (.block switchingOperations.toIr))
      ∧ (functionAround (.block switchingOperations.toIr)).print?
        = (functionAround (.inlineAssembly switchingOperations none)).print? := by
  have exchanges : Block.Exchanges (.inlineAssembly switchingOperations none)
      (.block switchingOperations.toIr) (functionAround (.inlineAssembly switchingOperations none))
      (functionAround (.block switchingOperations.toIr)) :=
    @Block.Exchanges.statement _ _ [] [] _ _ _ _
      (.functionBody (@Block.Exchanges.statement _ _ [] [] _ _ _ _ .here))
  exact ⟨exchanges, (print?_toIr switchingOperations none).2.2 _ _ exchanges⟩

end ContractAsm.Ir
