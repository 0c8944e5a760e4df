import ContractAsm.Literal

/-!
# Layout of assembly text

The rules that every printed tree shares: a type follows its name after a colon, a block
stands between braces, and each level of nesting moves the lines of a block four blanks in.
A layout says how deep its parts are nested. It is written once, each part before what
follows it, so the work is proportional to the text.
-/

namespace ContractAsm

/-- Text in which some parts are nested deeper than others. -/
inductive Layout where
  | words (text : Text)
  | append (first second : Layout)
  | nested (inner : Layout)

namespace Layout

instance : Coe Text Layout := ⟨words⟩

instance : Coe String Layout := ⟨fun characters => words characters⟩

instance : Append Layout := ⟨append⟩

/-! ## Writing -/

def isEmptyLine : List CodeUnit → Bool
  | [] => true
  | unit :: _ => unit == CodeUnit.newline

/-- Starts a line at a depth. An empty line is not moved in. -/
def breakLine (depth : Nat) (after : List CodeUnit) : List CodeUnit :=
  CodeUnit.newline ::
    (if isEmptyLine after then after else List.replicate (4 * depth) CodeUnit.space ++ after)

def put (depth : Nat) (unit : CodeUnit) (after : List CodeUnit) : List CodeUnit :=
  if unit = CodeUnit.newline then breakLine depth after else unit :: after

/-- The units of a layout at a depth, before those that follow it. -/
def write : Layout → Nat → List CodeUnit → List CodeUnit
  | words text, depth, after => text.units.foldr (put depth) after
  | append first second, depth, after => first.write depth (second.write depth after)
  | nested inner, depth, after => inner.write (depth + 1) after

def text (layout : Layout) : Text := ⟨layout.write 0 []⟩

@[simp] theorem write_append (first second : Layout) (depth : Nat) (after : List CodeUnit) :
    (first ++ second).write depth after = first.write depth (second.write depth after) := rfl

@[simp] theorem write_nested (inner : Layout) (depth : Nat) (after : List CodeUnit) :
    (nested inner).write depth after = inner.write (depth + 1) after := rfl

theorem write_words {text : Text} (line : CodeUnit.newline ∉ text.units) (depth : Nat)
    (after : List CodeUnit) : (words text).write depth after = text.units ++ after := by
  obtain ⟨units⟩ := text
  simp only [write]
  induction units with
  | nil => rfl
  | cons unit rest ih =>
    simp only [List.mem_cons, not_or] at line
    simp [put, Ne.symm line.1, ih line.2]

/-! ## Parts -/

def join (separator : Text) : List Layout → Layout
  | [] => ""
  | [part] => part
  | part :: rest => part ++ separator ++ join separator rest

/-- Statements between braces, each on lines of its own. -/
def braced (statements : List Layout) : Layout :=
  if statements.isEmpty then "\x7b \x7d"
  else "\x7b" ++ nested ("\n" ++ join "\n" statements) ++ "\n\x7d"

/-- A text with its type, unless the type is absent or empty. -/
def typed (text : Text) (type : Option Text) : Text :=
  match type with
  | none => text
  | some type => if type.isEmpty then text else text ++ ":" ++ type

/-- A string literal is quoted, any other stands as it is. -/
def literal (l : Literal) : Text :=
  typed (match l.kind with
    | .string => "\"" ++ l.value ++ "\""
    | _ => l.value) l.type

def typedNames (names : List TypedName) : Text :=
  Text.join ", " (names.map fun declared => typed declared.name declared.type)

def returns (names : List TypedName) : Text :=
  if names.isEmpty then "" else " -> " ++ typedNames names

/-- The heading of a function; its body stands on the next line. -/
def function (name : Text) (parameters results : List TypedName) (body : Layout) : Layout :=
  "function " ++ name ++ "(" ++ typedNames parameters ++ ")" ++ returns results ++ "\n" ++ body

def call (name : Text) (arguments : List Layout) : Layout :=
  name ++ "(" ++ join ", " arguments ++ ")"

def declaration (names : List TypedName) (value : Option Layout) : Layout :=
  "let " ++ typedNames names ++ (match value with
    | some value => " := " ++ value
    | none => "")

def assignment (names : List Text) (value : Layout) : Layout :=
  Text.join ", " names ++ " := " ++ value

def case (value : Option Layout) (body : Layout) : Layout :=
  (match value with
    | some value => "case " ++ value ++ " "
    | none => "default ") ++ body

def switch (expression : Layout) (cases : List Layout) : Layout :=
  "switch " ++ expression ++ "\n" ++ join "\n" cases

def ifThen (condition body : Layout) : Layout := "if " ++ condition ++ " " ++ body

def forLoop (pre condition post body : Layout) : Layout :=
  "for " ++ pre ++ " " ++ condition ++ " " ++ post ++ "\n" ++ body

end Layout

end ContractAsm
