import ContractAsm.CommandLine.Options
import Mathlib.Data.List.Basic

/-!
# What the arguments mean

A setting is on if one of its words is somewhere among the arguments, and the path is the last
argument that is neither a flag nor a word that stands for one. So only the order of the paths
counts. This is what the arguments mean unless one of them is reserved.
-/

namespace ContractAsm.CommandLine

/-! ## Settings -/

inductive Setting where
  | verbose
  | validate
  | help
  | json
deriving DecidableEq, Repr

namespace Setting

def words : Setting → List String
  | verbose => ["--verbose", "-v"]
  | validate => ["--validate", "validate"]
  | help => ["--help", "-h", "help"]
  | json => ["--json"]

def isOn (options : Options) : Setting → Bool
  | verbose => options.verbose
  | validate => options.validate
  | help => options.help
  | json => options.json

def argument : Setting → Argument
  | verbose => .verbose
  | validate => .validate
  | help => .help
  | json => .json

end Setting

/-- Whether an argument can be a path: it starts with no dash, and stands for no flag. -/
def namesFile (text : String) : Bool :=
  text.toList.head? ≠ some '-' ∧ text ∉ ["validate", "help"]

/-- The invocation has exactly those settings on that a word among the arguments turns on, and
its path is the last argument that can be one. -/
structure Invocation.Follows (invocation : Invocation) (arguments : List String) : Prop where
  isOn_iff : ∀ setting : Setting,
    setting.isOn invocation.options = true ↔ ∃ text ∈ arguments, text ∈ setting.words
  path_eq : invocation.path = (arguments.filter namesFile).getLast?

/-! ## Single arguments -/

namespace Argument

def path? : Argument → Option String
  | .path name => some name
  | _ => none

theorem ofText_eq_argument_iff {text : String} {setting : Setting} :
    ofText text = setting.argument ↔ text ∈ setting.words := by
  unfold ofText
  cases setting with
  | verbose | validate | help | json =>
    simp only [Setting.argument, Setting.words]
    grind

/-- Each word starts with a dash or stands for a flag, so none of them can be a path. -/
theorem path?_ofText (text : String) : (ofText text).path? = Option.guard namesFile text := by
  have dashed : ∀ word ∈ ["--verbose", "-v", "--validate", "--help", "-h", "--json"],
      word.toList.head? = some '-' := by decide
  unfold ofText namesFile
  grind [path?, Option.guard]

end Argument

namespace Invocation

variable (invocation : Invocation) (argument : Argument) (setting : Setting)

theorem isOn_add : setting.isOn (invocation.add argument).options = true
    ↔ setting.isOn invocation.options = true ∨ argument = setting.argument := by
  cases setting with
  | verbose | validate | help | json =>
    cases argument with
    | verbose | validate | help | json | unknownFlag | path => simp [add, Setting.isOn, Setting.argument]

theorem path_add : (invocation.add argument).path = argument.path?.or invocation.path := by
  cases argument with
  | verbose | validate | help | json | unknownFlag | path => rfl

/-! ## All arguments -/

theorem isOn_foldl_add (arguments : List Argument) : setting.isOn (arguments.foldl add invocation).options = true
    ↔ setting.isOn invocation.options = true ∨ setting.argument ∈ arguments := by
  induction arguments generalizing invocation with
  | nil => simp
  | cons argument rest ih => rw [List.foldl_cons, ih, isOn_add, List.mem_cons, or_assoc, @eq_comm _ argument]

theorem path_foldl_add (arguments : List Argument) : (arguments.foldl add invocation).path
    = (arguments.filterMap Argument.path?).getLast?.or invocation.path := by
  induction arguments generalizing invocation with
  | nil => rfl
  | cons argument rest ih =>
    rw [List.foldl_cons, ih, path_add, ← Option.or_assoc, ← List.singleton_append, List.filterMap_append,
      List.getLast?_append]
    cases found : argument.path? with
    | none | some => simp [found]

theorem follows_foldl_add (arguments : List String) :
    ((arguments.map Argument.ofText).foldl add initial).Follows arguments where
  isOn_iff setting := by
    have off : setting.isOn initial.options = false := by cases setting <;> rfl
    rw [isOn_foldl_add, off, List.mem_map]
    simp only [Bool.false_eq_true, false_or, Argument.ofText_eq_argument_iff]
  path_eq := by
    rw [path_foldl_add, List.filterMap_map]
    simp only [Function.comp_def, Argument.path?_ofText, List.filterMap_eq_filter, initial, Option.or_none]

theorem Follows.unique {arguments : List String} {first second : Invocation} (follows : first.Follows arguments)
    (also : second.Follows arguments) : first = second := by
  have same (setting : Setting) : setting.isOn first.options = setting.isOn second.options :=
    Bool.eq_iff_iff.mpr ((follows.isOn_iff setting).trans (also.isOn_iff setting).symm)
  have options : first.options = second.options := by
    rw [Options.mk.injEq]
    exact ⟨same .verbose, same .validate, same .help, same .json⟩
  have path : first.path = second.path := follows.path_eq.trans also.path_eq.symm
  exact congrArg₂ Invocation.mk path options

theorem Follows.congr {invocation : Invocation} {arguments others : List String}
    (follows : invocation.Follows arguments) (words : ∀ text, text ∈ others ↔ text ∈ arguments)
    (paths : others.filter namesFile = arguments.filter namesFile) : invocation.Follows others where
  isOn_iff setting := by simpa only [words] using follows.isOn_iff setting
  path_eq := paths ▸ follows.path_eq

theorem ofArguments?_eq_none_iff {arguments : List String} :
    ofArguments? arguments = none ↔ ∃ text ∈ arguments, text ∈ reservedWords := by
  simp [ofArguments?]

theorem ofArguments?_eq_some_iff {arguments : List String} : ofArguments? arguments = some invocation
    ↔ (∀ text ∈ arguments, text ∉ reservedWords) ∧ invocation.Follows arguments := by
  have meant := follows_foldl_add arguments
  constructor
  · intro accepted
    have free : ¬ ∃ text ∈ arguments, text ∈ reservedWords := by
      rw [← ofArguments?_eq_none_iff, accepted]
      exact Option.some_ne_none _
    simp only [ofArguments?, Option.ite_none_left_eq_some, Option.some.injEq] at accepted
    rw [← accepted.2]
    exact ⟨fun text given reserved => free ⟨text, given, reserved⟩, meant⟩
  · intro ⟨free, follows⟩
    have accepted : arguments.any reservedWords.contains = false := by simpa using free
    rw [ofArguments?, accepted, follows.unique meant]
    rfl

/-- Arguments mean nothing if one of them is reserved. Otherwise the settings with a word among them
are on, the last path is the path, and moving flags, among themselves or past a path, changes
nothing. -/
theorem ofArguments?_follows (arguments : List String) :
    (ofArguments? arguments = none ↔ ∃ text ∈ arguments, text ∈ reservedWords)
      ∧ (∀ invocation, ofArguments? arguments = some invocation
        ↔ (∀ text ∈ arguments, text ∉ reservedWords) ∧ invocation.Follows arguments)
      ∧ ∀ others, others.Perm arguments → others.filter namesFile = arguments.filter namesFile →
        ofArguments? others = ofArguments? arguments := by
  refine ⟨ofArguments?_eq_none_iff, fun _ => ofArguments?_eq_some_iff _, ?_⟩
  intro others moved paths
  have words : ∀ text, text ∈ others ↔ text ∈ arguments := fun _ => moved.mem_iff
  have follows (invocation : Invocation) : invocation.Follows others ↔ invocation.Follows arguments :=
    ⟨fun given => given.congr (fun text => (words text).symm) paths.symm, fun given => given.congr words paths⟩
  ext invocation
  simp only [ofArguments?_eq_some_iff, words, follows]

/-- Flags behind the two paths, a word for one of them among them, and the same flags around the
first path. -/
theorem ofArguments?_follows_moved :
    (["a.json", "b.json", "--fast", "-v", "help"].Perm ["help", "a.json", "-v", "--fast", "b.json"]
        ∧ ["a.json", "b.json", "--fast", "-v", "help"].filter namesFile
          = ["help", "a.json", "-v", "--fast", "b.json"].filter namesFile)
      ∧ ofArguments? ["help", "a.json", "-v", "--fast", "b.json"]
        = some ⟨some "b.json", { verbose := true, help := true }⟩
      ∧ ofArguments? ["a.json", "b.json", "--fast", "-v", "help"]
        = ofArguments? ["help", "a.json", "-v", "--fast", "b.json"] := by
  obtain ⟨-, means, moves⟩ := ofArguments?_follows ["help", "a.json", "-v", "--fast", "b.json"]
  have moved : ["a.json", "b.json", "--fast", "-v", "help"].Perm ["help", "a.json", "-v", "--fast", "b.json"] := by
    decide
  have follows : Follows ⟨some "b.json", { verbose := true, help := true }⟩
      ["help", "a.json", "-v", "--fast", "b.json"] := by
    refine ⟨fun setting => ?_, by decide⟩
    cases setting <;> decide
  exact ⟨⟨moved, by decide⟩, (means _).mpr ⟨by decide, follows⟩, moves _ moved (by decide)⟩

/-- A file may have a reserved name, but then it cannot be given as a path. -/
theorem ofArguments?_reserved_path :
    ofArguments? ["constructor"] = none ∧ Follows ⟨some "constructor", {}⟩ ["constructor"] := by
  refine ⟨by decide, fun setting => ?_, by decide⟩
  cases setting <;> decide

end Invocation

end ContractAsm.CommandLine
