import ContractAsm.Schema.Length
import ContractAsm.Schema.Nodes

/-!
# Checking a document

A document is checked against a schema member by member, in the order of the schema, and
every issue is reported. The value that comes out has the declared members alone. An issue
is soft if it is about the size of a value of the right type and hard otherwise: of the
options of a union the first without issues is taken, or else the only one whose issues are
all soft. A check that comes to a length that cannot be compared breaks off, even if it comes
to it in an option that is not taken.
-/

namespace ContractAsm.Schema

/-! ## Issues -/

inductive Fault where
  | expectedType (type received : Text)
  | expectedLiteral (text : Text)
  | expectedOneOf (texts : List Text)
  | expectedWhole
  | aboveRange
  | belowRange
  | negative
  | tooShort (sized : Sized)
  | incomparable
  | noOption
deriving DecidableEq, Repr

namespace Fault

def quoted (text : Text) : Text := "\"" ++ text ++ "\""

def message : Fault → Text
  | expectedType type received => "Invalid input: expected " ++ type ++ ", received " ++ received
  | expectedLiteral text => "Invalid input: expected " ++ quoted text
  | expectedOneOf texts =>
      "Invalid option: expected one of " ++ Text.join "|" (texts.map quoted)
  | expectedWhole => "Invalid input: expected int, received number"
  | aboveRange => "Too big: expected int to be <=9007199254740991"
  | belowRange => "Too small: expected int to be >=-9007199254740991"
  | negative => "Too small: expected number to be >=0"
  | tooShort .string => "Too small: expected string to have >=1 characters"
  | tooShort .array => "Too small: expected array to have >=1 items"
  | tooShort .unknown => "Too small: expected unknown to be >=1"
  | incomparable => "Cannot convert object to primitive value"
  | noOption => "Invalid input"

/-- Whether the fault is about size alone. -/
def isSoft : Fault → Bool
  | aboveRange | belowRange | negative | tooShort _ => true
  | _ => false

end Fault

/-- A fault and the way to the value that has it, from the root. -/
structure Issue where
  path : List Text
  fault : Fault
deriving DecidableEq, Repr

namespace Issue

def under (key : Text) (issue : Issue) : Issue := { issue with path := key :: issue.path }

end Issue

/-- What a check yields: the value with its declared members, unless it is absent, and the
issues. The value counts only if there are none. -/
structure Outcome where
  value : Option Json
  issues : List Issue

namespace Outcome

def accept (value : Option Json) : Outcome := ⟨value, []⟩

def reject (faults : List Fault) : Outcome := ⟨none, faults.map fun fault => ⟨[], fault⟩⟩

def isAccepted (outcome : Outcome) : Bool := outcome.issues.isEmpty

def isSoft (outcome : Outcome) : Bool := outcome.issues.all fun issue => issue.fault.isSoft

end Outcome

/-! ## Single values -/

/-- The name of the type of a value, absence and infinities included. -/
def typeName : Option Json → Text
  | none => "undefined"
  | some .null => "null"
  | some (.bool _) => "boolean"
  | some (.number (.finite _)) => "number"
  | some (.number (.infinite false)) => "Infinity"
  | some (.number (.infinite true)) => "-Infinity"
  | some (.string _) => "string"
  | some (.array _) => "array"
  | some (.object _) => "object"

def wrongType (type : Text) (value : Option Json) : Fault := .expectedType type (typeName value)

def lengthFaults (nonEmpty : Bool) (value : Option Json) : List Fault :=
  if nonEmpty then
    match extent value with
    | .enough => []
    | .short sized => [.tooShort sized]
    | .incomparable => [.incomparable]
  else []

def checkString (nonEmpty : Bool) (value : Option Json) : Outcome :=
  match value with
  | some (.string text) => ⟨some (.string text), (lengthFaults nonEmpty value).map (⟨[], ·⟩)⟩
  | _ => .reject (wrongType "string" value :: lengthFaults nonEmpty value)

def checkBoolean (value : Option Json) : Outcome :=
  match value with
  | some (.bool truth) => .accept (some (.bool truth))
  | _ => .reject [wrongType "boolean" value]

/-- The greatest whole number up to which all whole numbers are told apart. -/
def largestOffset : Int := 9007199254740991

def offsetFaults (value : Int) : List Fault :=
  (if largestOffset < value then [.aboveRange] else if value < -largestOffset then [.belowRange] else [])
    ++ (if value < 0 then [.negative] else [])

def checkOffset (value : Option Json) : Outcome :=
  match value with
  | some (.number (.finite number)) =>
      if number.den = 1 then ⟨value, (offsetFaults number.num).map (⟨[], ·⟩)⟩
      else .reject [.expectedWhole]
  | _ => .reject [wrongType "number" value]

def checkLiteral (text : Text) (value : Option Json) : Outcome :=
  match value with
  | some (.string given) =>
      if given = text then .accept value else .reject [.expectedLiteral text]
  | _ => .reject [.expectedLiteral text]

def checkOneOf (texts : List Text) (value : Option Json) : Outcome :=
  match value with
  | some (.string given) =>
      if texts.contains given then .accept value else .reject [.expectedOneOf texts]
  | _ => .reject [.expectedOneOf texts]

/-! ## Bounds on references -/

mutual

/-- How many steps a check takes before it looks inside the value, references included. -/
def height : Schema → Nat
  | .optional inner => height inner + 1
  | .nullable inner => height inner + 1
  | .union options => heights options + 1
  | .node type => nodeHeight type + 1
  | .deferred type => nodeHeight type + 1
  | _ => 0

def heights : List Schema → Nat
  | [] => 0
  | option :: rest => height option + 1 + heights rest

/-- A bound for the schema of a node type: unions of objects first, then unions with those. -/
def nodeHeight : NodeType → Nat
  | .asmExpression | .irExpression | .astStatement => 20
  | .asmStatement | .irStatement => 80
  | _ => 0

end

theorem height_schema_le (type : NodeType) : height type.schema ≤ nodeHeight type := by
  cases type <;> decide

noncomputable def weight : Option Json → Nat
  | none => 0
  | some value => sizeOf value

theorem weight_find?_lt (name : Text) (members : List (Text × Json)) :
    weight (Json.find? name members) < sizeOf members := by
  cases found : Json.find? name members with
  | none =>
      cases members with
      | nil => simp [weight]
      | cons head rest => simp only [weight, List.cons.sizeOf_spec]; omega
  | some value => exact Json.sizeOf_find? found

/-! ## Whole documents -/

mutual

/-- Whether the literal members of an object differ from those that the schema wants, or no
object is given where one is wanted. Such a value has a hard issue. -/
def excludes (schema : Schema) (value : Option Json) : Bool :=
  match schema with
  | .object fields =>
      match value with
      | some (.object members) => fields.any fun (name, field) =>
          match field with
          | .literal text => (Json.find? name members).bind Json.text? != some text
          | _ => false
      | _ => true
  | .union options => excludesAll options value
  | .node type => excludes type.schema value
  | .deferred type => excludes type.schema value
  | _ => false
termination_by height schema
decreasing_by
  · simp only [height]; omega
  · exact Nat.lt_succ_of_le (height_schema_le type)
  · exact Nat.lt_succ_of_le (height_schema_le type)

def excludesAll (options : List Schema) (value : Option Json) : Bool :=
  match options with
  | [] => true
  | option :: rest => excludes option value && excludesAll rest value
termination_by heights options
decreasing_by all_goals simp only [heights]; omega

end

/-- The outcome of a union, from the outcomes of its options: the first without issues, else
the only one with soft issues alone, else an issue of the union itself. -/
def choose (outcomes : List Outcome) : Outcome :=
  match outcomes.find? Outcome.isAccepted with
  | some outcome => outcome
  | none =>
      match outcomes.filter Outcome.isSoft with
      | [outcome] => outcome
      | _ => .reject [.noOption]

mutual

/-- Checks a value that may be absent, as if no check broke off. -/
def examine (schema : Schema) (value : Option Json) : Outcome :=
  match schema with
  | .string nonEmpty => checkString nonEmpty value
  | .boolean => checkBoolean value
  | .offset => checkOffset value
  | .literal text => checkLiteral text value
  | .oneOf texts => checkOneOf texts value
  | .array item nonEmpty =>
      match value with
      | some (.array elements) =>
          let (checked, issues) := examineElements item 0 elements
          ⟨some (.array checked), issues ++ (lengthFaults nonEmpty value).map (⟨[], ·⟩)⟩
      | _ => .reject (wrongType "array" value :: lengthFaults nonEmpty value)
  | .object fields =>
      match value with
      | some (.object members) =>
          let (checked, issues) := examineFields fields members
          ⟨some (.object checked), issues⟩
      | _ => .reject [wrongType "object" value]
  | .union options => choose (examineOptions options value)
  | .optional inner =>
      match value with
      | none => .accept none
      | some given => examine inner (some given)
  | .nullable inner =>
      match value with
      | some .null => .accept (some .null)
      | some given => examine inner (some given)
      | none => examine inner none
  | .node type => examine type.schema value
  | .deferred type => examine type.schema value
termination_by (weight value, height schema)
decreasing_by
  · exact Prod.Lex.left _ _ (by simp only [weight, Json.array.sizeOf_spec]; omega)
  · exact Prod.Lex.left _ _ (by simp only [weight, Json.object.sizeOf_spec]; omega)
  · exact Prod.Lex.right _ (by simp only [height]; omega)
  · exact Prod.Lex.right _ (by simp only [height]; omega)
  · exact Prod.Lex.right _ (by simp only [height]; omega)
  · exact Prod.Lex.right _ (by simp only [height]; omega)
  · exact Prod.Lex.right _ (Nat.lt_succ_of_le (height_schema_le type))
  · exact Prod.Lex.right _ (Nat.lt_succ_of_le (height_schema_le type))

def examineElements (item : Schema) (index : Nat) (elements : List Json) : List Json × List Issue :=
  match elements with
  | [] => ([], [])
  | element :: rest =>
      let first := examine item (some element)
      let (checked, issues) := examineElements item (index + 1) rest
      (first.value.toList ++ checked, first.issues.map (Issue.under (toString index)) ++ issues)
termination_by (sizeOf elements, 0)
decreasing_by
  all_goals simp only [weight, List.cons.sizeOf_spec]
  all_goals exact Prod.Lex.left _ _ (by omega)

def examineFields (fields : List (Text × Schema)) (members : List (Text × Json)) :
    List (Text × Json) × List Issue :=
  match fields with
  | [] => ([], [])
  | (name, field) :: rest =>
      let first := examine field (Json.find? name members)
      let (checked, issues) := examineFields rest members
      ((first.value.map fun value => (name, value)).toList ++ checked,
        first.issues.map (Issue.under name) ++ issues)
termination_by (sizeOf members, fields.length)
decreasing_by
  · exact Prod.Lex.left _ _ (weight_find?_lt name members)
  · exact Prod.Lex.right _ (by simp)

/-- The outcomes of the options that the value does not rule out by its literal members. -/
def examineOptions (options : List Schema) (value : Option Json) : List Outcome :=
  match options with
  | [] => []
  | option :: rest =>
      if excludes option value then examineOptions rest value
      else examine option value :: examineOptions rest value
termination_by (weight value, heights options)
decreasing_by
  all_goals simp only [heights]
  all_goals exact Prod.Lex.right _ (by omega)

end

mutual

/-- Whether the check of a value comes to a length that cannot be compared. Nothing is asked for its
length in an absent value and in null. -/
def breaks (schema : Schema) (value : Option Json) : Bool :=
  match schema with
  | .string nonEmpty => nonEmpty && extent value = .incomparable
  | .array item nonEmpty =>
      match value with
      | some (.array elements) => elementsBreak item elements
      | _ => nonEmpty && extent value = .incomparable
  | .object fields =>
      match value with
      | some (.object members) => fieldsBreak fields members
      | _ => false
  | .union options => optionsBreak options value
  | .optional inner => breaks inner value
  | .nullable inner => breaks inner value
  | .node type => breaks type.schema value
  | .deferred type => breaks type.schema value
  | .boolean | .offset | .literal _ | .oneOf _ => false
termination_by (weight value, height schema)
decreasing_by
  · exact Prod.Lex.left _ _ (by simp only [weight, Json.array.sizeOf_spec]; omega)
  · exact Prod.Lex.left _ _ (by simp only [weight, Json.object.sizeOf_spec]; omega)
  · exact Prod.Lex.right _ (by simp only [height]; omega)
  · exact Prod.Lex.right _ (by simp only [height]; omega)
  · exact Prod.Lex.right _ (by simp only [height]; omega)
  · exact Prod.Lex.right _ (Nat.lt_succ_of_le (height_schema_le type))
  · exact Prod.Lex.right _ (Nat.lt_succ_of_le (height_schema_le type))

def elementsBreak (item : Schema) (elements : List Json) : Bool :=
  match elements with
  | [] => false
  | element :: rest => breaks item (some element) || elementsBreak item rest
termination_by (sizeOf elements, 0)
decreasing_by
  all_goals simp only [weight, List.cons.sizeOf_spec]
  all_goals exact Prod.Lex.left _ _ (by omega)

def fieldsBreak (fields : List (Text × Schema)) (members : List (Text × Json)) : Bool :=
  match fields with
  | [] => false
  | (name, field) :: rest => breaks field (Json.find? name members) || fieldsBreak rest members
termination_by (sizeOf members, fields.length)
decreasing_by
  · exact Prod.Lex.left _ _ (weight_find?_lt name members)
  · exact Prod.Lex.right _ (by simp)

/-- The options are tried in their order until one accepts the value, and those that the literal
members of the value rule out are tried like others. -/
def optionsBreak (options : List Schema) (value : Option Json) : Bool :=
  match options with
  | [] => false
  | option :: rest =>
      breaks option value || (!(examine option value).isAccepted && optionsBreak rest value)
termination_by (weight value, heights options)
decreasing_by
  all_goals simp only [heights]
  all_goals exact Prod.Lex.right _ (by omega)

end

/-- Whether the check of a value breaks off, which is only looked into if the value holds a length
that cannot be compared. -/
def breaksOff (schema : Schema) (value : Option Json) : Bool :=
  value.any holdsIncomparable && breaks schema value

/-- Checks a value that may be absent. A check that breaks off reports nothing else. -/
def check (schema : Schema) (value : Option Json) : Outcome :=
  bif breaksOff schema value then .reject [.incomparable] else examine schema value

end ContractAsm.Schema
