import ContractAsm.CommandLine.Run
import ContractAsm.Proofs.Lowering.Printability

/-!
# Outcomes of the program

A run that names a file and does not ask for help comes to a text or to a failure, and that
decides its exit code and what is written to the output. Whether the run is verbose only
decides on the lines in front of it.
-/

namespace ContractAsm.CommandLine

open Lowering (Registry shownLine shownLines)
open Source (Contract SourceUnit)
open Validation (ValidSourceUnit)

/-! ## Adding a flag -/

/-- What an argument says that is no path. -/
def Argument.IsFlag (argument : Argument) : Prop := ∀ path, argument ≠ .path path

namespace Invocation

theorem add_add {flag : Argument} (isFlag : flag.IsFlag) (invocation : Invocation) (argument : Argument) :
    (invocation.add argument).add flag = (invocation.add flag).add argument := by
  cases flag with
  | path path => exact absurd rfl (isFlag path)
  | verbose | validate | help | json | unknownFlag =>
    cases argument with
    | verbose | validate | help | json | unknownFlag | path => rfl

theorem foldl_add {flag : Argument} (isFlag : flag.IsFlag) (invocation : Invocation)
    (arguments : List Argument) :
    arguments.foldl add (invocation.add flag) = (arguments.foldl add invocation).add flag :=
  List.foldl_hom (add · flag) fun invocation argument => (add_add isFlag invocation argument).symm

theorem ofArguments?_insert {before behind : List String} {invocation : Invocation} {text : String}
    {flag : Argument} (accepted : ofArguments? (before ++ behind) = some invocation)
    (allowed : reservedWords.contains text = false) (meant : Argument.ofText text = flag)
    (isFlag : flag.IsFlag) : ofArguments? (before ++ text :: behind) = some (invocation.add flag) := by
  unfold ofArguments? at accepted ⊢
  rw [List.any_append] at accepted
  rw [List.any_append, List.any_cons, allowed, Bool.false_or]
  cases reserved : before.any reservedWords.contains || behind.any reservedWords.contains with
  | true =>
    rw [reserved] at accepted
    contradiction
  | false =>
    rw [reserved] at accepted
    cases accepted
    simp only [List.map_append, List.map_cons, List.foldl_append, List.foldl_cons, meant, foldl_add isFlag]
    rfl

end Invocation

/-! ## Streams -/

def Outcome.texts (outcome : Outcome) (stream : Stream) : List Text :=
  outcome.written.filterMap fun (target, text) => if target = stream then some text else none

/-- Ends a run with a text or a failure, after the lines that were written before it. -/
def conclude (lines : List Text) : Except RunFailure Text → Outcome
  | .ok text => succeeded lines text
  | .error failure => failed lines failure

section

variable (lines : List Text) (answer : Except RunFailure Text)

theorem texts_lines (stream : Stream) (code : Nat) (rest : List (Stream × Text)) :
    (Outcome.mk code (lines.map (fun line => (.error, line)) ++ rest)).texts stream
      = (if Stream.error = stream then lines else []) ++ (Outcome.mk code rest).texts stream := by
  cases stream with
  | output => simp [Outcome.texts]
  | error => simp [Outcome.texts]

theorem exitCode_conclude_eq_zero_iff :
    (conclude lines answer).exitCode = 0 ↔ ∃ text, answer = .ok text := by
  cases answer with
  | ok text => exact ⟨fun _ => ⟨text, rfl⟩, fun _ => rfl⟩
  | error failure => exact ⟨nofun, nofun⟩

theorem conclude_of_error {failure : RunFailure} (failed : answer = .error failure) :
    (conclude lines answer).exitCode = 1 ∧ (conclude lines answer).texts .output = [] := by
  subst failed
  exact ⟨rfl, texts_lines lines .output 1 _⟩

/-- The lines before the end of a run do not count for its output, and stand in front of what
else is told. -/
theorem conclude_lines :
    (conclude lines answer).exitCode = (conclude [] answer).exitCode
      ∧ (conclude lines answer).texts .output = (conclude [] answer).texts .output
      ∧ (conclude lines answer).texts .error = lines ++ (conclude [] answer).texts .error := by
  cases answer with
  | ok text => exact ⟨rfl, texts_lines lines .output 0 _, texts_lines lines .error 0 _⟩
  | error failure => exact ⟨rfl, texts_lines lines .output 1 _, texts_lines lines .error 1 _⟩

end

/-! ## Runs that name a file -/

section

variable (read : String → Except FileError String) (path : String) (options : Options)

/-- What a source unit comes to: its contracts as they are shown, or that it is valid. -/
def settle (source : ValidSourceUnit) : Except RunFailure Text :=
  if options.validate then .ok (path ++ ": valid")
  else
    match (Lowering.lowerUnit Registry.empty source.tree).result with
    | .error failure => .error (.lowering failure)
    | .ok contracts =>
        match show? options.json contracts with
        | some text => .ok text
        | none => .error .unprintable

def answer : Except RunFailure Text := (load read path).bind (settle path options)

def progress : List Text :=
  match load read path with
  | .error _ => []
  | .ok source => if options.validate then [] else (Lowering.lowerUnit Registry.empty source.tree).lines

/-- The file is a source unit, and its contracts are lowered unless it is only to be
validated. -/
def Passes : Prop :=
  ∃ text document source, read path = .ok text ∧ Json.read? text = some document
    ∧ Validation.sourceUnit document = .valid (some source)
    ∧ (options.validate = false → ∃ contracts,
      (Lowering.lowerUnit Registry.empty source.tree).result = .ok contracts)

end

section

variable {read : String → Except FileError String} {arguments : List String} {path : String}
  {options : Options}

theorem shownLines_nil (verbose : Bool) : shownLines verbose [] = [] := by
  cases verbose <;> rfl

/-- Whether a run is verbose decides on the lines in front, and on nothing else. -/
theorem run_eq (accepted : Invocation.ofArguments? arguments = some ⟨some path, options⟩)
    (noHelp : options.help = false) :
    run read arguments
      = conclude (shownLines options.verbose (progress read path options)) (answer read path options) := by
  rw [run, accepted, progress, answer]
  simp only [noHelp, Bool.false_eq_true, if_false]
  cases load read path with
  | error failure =>
    rw [shownLines_nil]
    rfl
  | ok source =>
    rw [Except.bind, settle]
    cases options.validate with
    | true =>
      simp only [if_true, shownLines_nil]
      rfl
    | false =>
      simp only [Bool.false_eq_true, if_false, lower]
      cases (Lowering.lowerUnit Registry.empty source.tree).result with
      | error => rfl
      | ok contracts =>
        dsimp only
        cases show? options.json contracts with
        | none => rfl
        | some => rfl

theorem load_eq_ok_iff {source : ValidSourceUnit} :
    load read path = .ok source ↔ ∃ text document, read path = .ok text ∧ Json.read? text = some document
      ∧ Validation.sourceUnit document = .valid (some source) := by
  constructor
  · intro loaded
    unfold load at loaded
    cases found : read path with
    | error =>
      rw [found] at loaded
      contradiction
    | ok text =>
      cases parsed : Json.read? text with
      | none =>
        simp [found, parsed, Except.mapError, bind, Except.bind] at loaded
      | some document =>
        simp only [found, parsed, Except.mapError, bind, Except.bind] at loaded
        cases accepted : Validation.sourceUnit document with
        | invalid | failed =>
          rw [accepted] at loaded
          contradiction
        | valid result =>
          rw [accepted] at loaded
          cases result with
          | none => contradiction
          | some other =>
            cases loaded
            exact ⟨text, document, rfl, parsed, accepted⟩
  · intro ⟨text, document, found, parsed, accepted⟩
    simp only [load, found, parsed, accepted, Except.mapError, bind, Except.bind]

theorem exists_show? {document : Json} {source : ValidSourceUnit} {contracts : List Lowering.LoweredContract}
    (accepted : Validation.sourceUnit document = .valid (some source))
    (lowered : (Lowering.lowerUnit Registry.empty source.tree).result = .ok contracts) (json : Bool) :
    ∃ text, show? json contracts = some text := by
  cases json with
  | true => exact ⟨_, rfl⟩
  | false =>
    obtain ⟨_, same, -, recognised, -⟩ := Validation.sourceUnit_valid accepted
    cases same
    exact Lowering.exists_text?_of_lowerContracts recognised lowered

theorem exists_settle_iff {document : Json} {source : ValidSourceUnit}
    (accepted : Validation.sourceUnit document = .valid (some source)) :
    (∃ text, settle path options source = .ok text) ↔ (options.validate = false → ∃ contracts,
      (Lowering.lowerUnit Registry.empty source.tree).result = .ok contracts) := by
  rw [settle]
  cases options.validate with
  | true => exact ⟨fun _ => nofun, fun _ => ⟨_, rfl⟩⟩
  | false =>
    simp only [Bool.false_eq_true, if_false, forall_const]
    cases lowered : (Lowering.lowerUnit Registry.empty source.tree).result with
    | error => exact ⟨nofun, nofun⟩
    | ok contracts =>
      obtain ⟨text, shown⟩ := exists_show? accepted lowered options.json
      dsimp only
      rw [shown]
      exact ⟨fun _ => ⟨contracts, rfl⟩, fun _ => ⟨text, rfl⟩⟩

theorem exists_answer_iff : (∃ text, answer read path options = .ok text) ↔ Passes read path options := by
  constructor
  · intro ⟨shown, done⟩
    rw [answer] at done
    cases loaded : load read path with
    | error =>
      rw [loaded] at done
      contradiction
    | ok source =>
      rw [loaded] at done
      obtain ⟨text, document, found, parsed, accepted⟩ := load_eq_ok_iff.mp loaded
      exact ⟨text, document, source, found, parsed, accepted, (exists_settle_iff accepted).mp ⟨shown, done⟩⟩
  · intro ⟨text, document, source, found, parsed, accepted, lowers⟩
    rw [answer, load_eq_ok_iff.mpr ⟨text, document, found, parsed, accepted⟩]
    exact (exists_settle_iff accepted).mpr lowers

theorem exitCode_run_eq_zero_iff (accepted : Invocation.ofArguments? arguments = some ⟨some path, options⟩)
    (noHelp : options.help = false) : (run read arguments).exitCode = 0 ↔ Passes read path options := by
  rw [run_eq accepted noHelp, exitCode_conclude_eq_zero_iff, exists_answer_iff]

/-- A run that does not exit with 0 exits with 1, and has no output. -/
theorem silent_run (accepted : Invocation.ofArguments? arguments = some ⟨some path, options⟩)
    (noHelp : options.help = false) (fails : (run read arguments).exitCode ≠ 0) :
    (run read arguments).exitCode = 1 ∧ (run read arguments).texts .output = [] := by
  rw [run_eq accepted noHelp] at fails ⊢
  cases outcome : answer read path options with
  | ok text =>
    rw [outcome] at fails
    contradiction
  | error failure => exact conclude_of_error _ _ rfl

theorem exitCode_run_congr {others : List String} {changed : Options}
    (accepted : Invocation.ofArguments? arguments = some ⟨some path, options⟩) (noHelp : options.help = false)
    (again : Invocation.ofArguments? others = some ⟨some path, changed⟩) (noHelp' : changed.help = false)
    (same : Passes read path changed ↔ Passes read path options) :
    (run read others).exitCode = (run read arguments).exitCode := by
  have first := @exitCode_run_eq_zero_iff read _ _ _ accepted noHelp
  have second := @exitCode_run_eq_zero_iff read _ _ _ again noHelp'
  by_cases passes : Passes read path options
  · rw [first.mpr passes, second.mpr (same.mpr passes)]
  · rw [(silent_run accepted noHelp (mt first.mp passes)).1,
      (silent_run again noHelp' (mt (same.mp ∘ second.mp) passes)).1]

/-- A run that is verbose does what a run does that is not, behind the lines that it shows. -/
theorem run_verbose {others : List String}
    (accepted : Invocation.ofArguments? arguments = some ⟨some path, options⟩) (noHelp : options.help = false)
    (again : Invocation.ofArguments? others = some ⟨some path, { options with verbose := true }⟩) :
    (run read others).exitCode = (run read arguments).exitCode
      ∧ (run read others).texts .output = (run read arguments).texts .output
      ∧ ∃ lines : List Text, (run read others).texts .error
        = lines.map shownLine ++ (run read arguments).texts .error := by
  have steps : progress read path { options with verbose := true } = progress read path options := rfl
  have result : answer read path { options with verbose := true } = answer read path options := rfl
  rw [run_eq accepted noHelp, run_eq again noHelp, steps, result]
  obtain ⟨code, output, told⟩ :=
    conclude_lines (shownLines true (progress read path options)) (answer read path options)
  obtain ⟨code', output', told'⟩ :=
    conclude_lines (shownLines options.verbose (progress read path options)) (answer read path options)
  rw [code, output, told, code', output', told']
  refine ⟨rfl, rfl, ?_⟩
  cases options.verbose with
  | true => exact ⟨[], rfl⟩
  | false => exact ⟨progress read path options, rfl⟩

end

/-- Of a run with arguments that name a file and do not ask for help: it exits with 0 exactly if
the file passes; if it exits with 1 there is no output; being verbose, wherever that is asked
for, adds lines in front of what is told and nothing else; the form of the output does not
count for the exit code; and what passes is valid. -/
theorem run_outcomes {read : String → Except FileError String} {arguments : List String} {path : String}
    {options : Options} (accepted : Invocation.ofArguments? arguments = some ⟨some path, options⟩)
    (noHelp : options.help = false) :
    ((run read arguments).exitCode = 0 ↔ Passes read path options)
      ∧ ((run read arguments).exitCode = 0 ∨ (run read arguments).exitCode = 1)
      ∧ ((run read arguments).exitCode = 1 → (run read arguments).texts .output = [])
      ∧ ∀ before behind, arguments = before ++ behind →
        (∀ flag ∈ ["--verbose", "-v"],
          (run read (before ++ flag :: behind)).exitCode = (run read arguments).exitCode
            ∧ (run read (before ++ flag :: behind)).texts .output = (run read arguments).texts .output
            ∧ ∃ lines : List Text, (run read (before ++ flag :: behind)).texts .error
              = lines.map shownLine ++ (run read arguments).texts .error)
        ∧ (run read (before ++ "--json" :: behind)).exitCode = (run read arguments).exitCode
        ∧ ∀ flag ∈ ["--validate", "validate"], (run read arguments).exitCode = 0 →
          (run read (before ++ flag :: behind)).exitCode = 0 := by
  have passing := @exitCode_run_eq_zero_iff read _ _ _ accepted noHelp
  have silent := @silent_run read _ _ _ accepted noHelp
  refine ⟨passing, ?_, ?_, ?_⟩
  · exact (Nat.decEq _ 0).em.imp id fun fails => (silent fails).1
  · intro fails
    exact (silent (by omega)).2
  · -- A flag in between sets its own option and leaves the others as the arguments have them.
    intro before behind split
    rw [split] at accepted passing ⊢
    refine ⟨?_, ?_, ?_⟩
    · intro flag spelled
      have allowed : reservedWords.contains flag = false ∧ Argument.ofText flag = .verbose := by
        revert flag
        decide
      have again := Invocation.ofArguments?_insert accepted allowed.1 allowed.2 nofun
      exact run_verbose accepted noHelp again
    · have allowed : reservedWords.contains "--json" = false := by decide
      have again := Invocation.ofArguments?_insert accepted allowed rfl nofun
      exact exitCode_run_congr accepted noHelp again noHelp Iff.rfl
    · intro flag spelled passes
      have allowed : reservedWords.contains flag = false ∧ Argument.ofText flag = .validate := by
        revert flag
        decide
      have again := Invocation.ofArguments?_insert accepted allowed.1 allowed.2 nofun
      obtain ⟨text, document, source, found, parsed, accepts, -⟩ := passing.mp passes
      rw [exitCode_run_eq_zero_iff again noHelp]
      exact ⟨text, document, source, found, parsed, accepts, nofun⟩

/-! ## A contract that is lowered and a library that is refused -/

def contractText : String :=
  "\x7b\"kind\":\"sourceUnit\",\"path\":\"a\",\"contracts\":[\x7b\"kind\":\"contract\",
    \"name\":\"C\",\"fullyQualifiedName\":\"a:C\",\"contractKind\":\"contract\",
    \"baseContracts\":[],\"structs\":[],\"enums\":[],\"events\":[],\"modifiers\":[],
    \"functions\":[],\"location\":\x7b\"start\":0,\"end\":0\x7d\x7d]\x7d"

def libraryText : String :=
  "\x7b\"kind\":\"sourceUnit\",\"path\":\"a\",\"contracts\":[\x7b\"kind\":\"contract\",
    \"name\":\"C\",\"fullyQualifiedName\":\"a:C\",\"contractKind\":\"library\",
    \"baseContracts\":[],\"structs\":[],\"enums\":[],\"events\":[],\"modifiers\":[],
    \"functions\":[],\"location\":\x7b\"start\":0,\"end\":0\x7d\x7d]\x7d"

def bareDocument (kind : Contract.Kind) : Json :=
  let place : Json := .object [("start", .nat 0), ("end", .nat 0)]
  let contract : Json := .object [("kind", .string "contract"), ("name", .string "C"),
    ("fullyQualifiedName", .string "a:C"), ("contractKind", .string kind.name),
    ("baseContracts", .array []), ("structs", .array []), ("enums", .array []), ("events", .array []),
    ("modifiers", .array []), ("functions", .array []), ("location", place)]
  .object [("kind", .string "sourceUnit"), ("path", .string "a"), ("contracts", .array [contract])]

def bareContract (kind : Contract.Kind) : Contract :=
  ⟨"C", "a:C", kind, [], [], [], [], [], [], ⟨.ofNat 0, .ofNat 0, none⟩⟩

def bareUnit (kind : Contract.Kind) : SourceUnit := ⟨"a", [bareContract kind]⟩

set_option maxRecDepth 1024 in
theorem read?_contractText : Json.read? contractText = some (bareDocument .contract) := by cbv

set_option maxRecDepth 1024 in
theorem read?_libraryText : Json.read? libraryText = some (bareDocument .library) := by cbv

theorem sourceUnit_bareDocument (kind : Contract.Kind) : Validation.sourceUnit (bareDocument kind)
    = .valid (some ⟨bareDocument kind, bareUnit kind⟩) := by
  cases kind with
  | contract | interface | library => cbv

def announcement : Text := "lowering contract a:C"

/-- The contract is announced, whatever comes of its dispatcher. -/
theorem lines_lowerContract :
    (Lowering.lowerContract .empty (bareContract .contract)).lines = [announcement] := by
  obtain ⟨dispatch, named⟩ : ∃ dispatch, dispatch = Lowering.appendDispatcher (bareContract .contract) :=
    ⟨_, rfl⟩
  have free : Registry.empty.has (bareContract .contract).qualifiedName = false := rfl
  have admitted : Lowering.admitContract (bareContract .contract) = .ok () := rfl
  have bodiless : Lowering.lowerFunctions (bareContract .contract).functions = .ok [] := rfl
  rw [Lowering.lowerContract, ← named]
  simp only [free, admitted, bodiless, Bool.false_eq_true, if_false, bind, Lowering.Traced.bind,
    Lowering.Traced.ofExcept, Lowering.Traced.ok, Lowering.Traced.tell, pure]
  generalize dispatch _ = built
  cases built with
  | error => rfl
  | ok block => rfl

theorem lowerUnit_contract : ∃ contracts,
    (Lowering.lowerUnit Registry.empty (bareUnit .contract)).result = .ok contracts
      ∧ (Lowering.lowerUnit Registry.empty (bareUnit .contract)).lines = [announcement] := by
  have clean : Lowering.violations .empty (bareContract .contract) = [] := rfl
  obtain ⟨lowered, done⟩ := (Lowering.reports_contract .empty (bareContract .contract)).ok_iff.mpr clean
  have announced := lines_lowerContract
  rw [Lowering.lowerUnit, bareUnit, Lowering.lowerContracts]
  generalize Lowering.lowerContract .empty (bareContract .contract) = outcome at done announced ⊢
  obtain ⟨lines, result⟩ := outcome
  cases done
  cases announced
  exact ⟨_, rfl, rfl⟩

theorem not_lowers_library : ¬ ∃ contracts,
    (Lowering.lowerUnit Registry.empty (bareUnit .library)).result = .ok contracts := by
  rintro ⟨contracts, done⟩
  contradiction

/-- Of the two files one passes, named behind the other one and a flag that means nothing and with
further flags between them, and being verbose adds a line; the other one is valid, but it is refused
when it is to be lowered. -/
theorem run_outcomes_library :
    let read : String → Except FileError String := fun path =>
      if path = "a.json" then .ok contractText else if path = "b.json" then .ok libraryText else .error .missing
    ((run read ["b.json", "--fast", "a.json"]).exitCode = 0
        ∧ (run read ["b.json", "-v", "--fast", "a.json"]).exitCode = 0
        ∧ (run read ["b.json", "-v", "--fast", "a.json"]).texts .output
          = (run read ["b.json", "--fast", "a.json"]).texts .output
        ∧ (run read ["b.json", "-v", "--fast", "a.json"]).texts .error = [shownLine announcement]
        ∧ (run read ["b.json", "--json", "--fast", "a.json"]).exitCode = 0
        ∧ (run read ["b.json", "validate", "--fast", "a.json"]).exitCode = 0)
      ∧ (run read ["b.json", "--validate"]).exitCode = 0
      ∧ (run read ["b.json"]).exitCode = 1
      ∧ (run read ["b.json"]).texts .output = [] := by
  intro read
  have passes : Passes read "a.json" {} := by
    obtain ⟨contracts, done, -⟩ := lowerUnit_contract
    exact ⟨contractText, _, _, rfl, read?_contractText, sourceUnit_bareDocument _, fun _ => ⟨contracts, done⟩⟩
  refine ⟨?_, ?_, ?_⟩
  · have accepted : Invocation.ofArguments? ["b.json", "--fast", "a.json"] = some ⟨some "a.json", {}⟩ := by
      decide
    have told : (run read ["b.json", "-v", "--fast", "a.json"]).texts .error
        = [shownLine announcement] := by
      have again : Invocation.ofArguments? ["b.json", "-v", "--fast", "a.json"]
          = some ⟨some "a.json", { verbose := true }⟩ := by decide
      have found : read "a.json" = .ok contractText := rfl
      have loaded := load_eq_ok_iff.mpr ⟨_, _, found, read?_contractText, sourceUnit_bareDocument _⟩
      obtain ⟨_, -, announced⟩ := lowerUnit_contract
      obtain ⟨shown, done⟩ := exists_answer_iff.mpr passes
      have same : answer read "a.json" { verbose := true } = .ok shown := done
      have steps : progress read "a.json" { verbose := true } = [announcement] := by
        rw [progress, loaded]
        exact announced
      rw [run_eq again rfl, same, steps, (conclude_lines _ _).2.2]
      rfl
    obtain ⟨passing, -, -, others⟩ := @run_outcomes read _ _ _ accepted rfl
    obtain ⟨verbose, json, validate⟩ := others ["b.json"] ["--fast", "a.json"] rfl
    obtain ⟨code, output, -⟩ := verbose "-v" (by decide)
    have done := passing.mpr passes
    exact ⟨done, code.trans done, output, told, json.trans done, validate "validate" (by decide) done⟩
  · have accepted : Invocation.ofArguments? ["b.json", "--validate"]
        = some ⟨some "b.json", { validate := true }⟩ := by decide
    obtain ⟨passing, -⟩ := @run_outcomes read _ _ _ accepted rfl
    exact passing.mpr ⟨libraryText, _, _, rfl, read?_libraryText, sourceUnit_bareDocument _, nofun⟩
  · have accepted : Invocation.ofArguments? ["b.json"] = some ⟨some "b.json", {}⟩ := by decide
    obtain ⟨passing, exits, silent, -⟩ := @run_outcomes read _ _ _ accepted rfl
    have fails : (run read ["b.json"]).exitCode = 1 := by
      refine exits.resolve_left fun done => ?_
      obtain ⟨text, document, source, found, parsed, valid, lowers⟩ := passing.mp done
      cases found
      cases parsed.symm.trans read?_libraryText
      cases valid.symm.trans (sourceUnit_bareDocument _)
      exact not_lowers_library (lowers rfl)
    exact ⟨fails, silent fails⟩

end ContractAsm.CommandLine
