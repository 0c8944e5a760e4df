import ContractAsm.Proofs.Schema.Undeclared
import ContractAsm.Proofs.Schema.Wholeness
import ContractAsm.Proofs.Validation.Reports

/-!
# Validation as a projection

What comes out of a validation is the declared part of the document, which is accepted as it is.
Members that no schema declares make no difference to that. They make none to the findings either,
but for lengths: where a text or a list that is not empty is wanted, an object is asked for its length.
-/

namespace ContractAsm.Validation

open Schema
open Json (Alike)
open Source (SourceUnit)

/-! ## Projections -/

/-- The message about an object that has a length below one where a text or a list is wanted. -/
def lengthMessage : Text := "Too small: expected unknown to be >=1"

/-- The findings that are not about the length of an object. -/
def otherFindings {α : Type} (verdict : Verdict α) : List Finding :=
  verdict.findings.filter fun finding => finding.message != lengthMessage

/-- The validation yields the declared part of a document and depends on nothing else but lengths.
A document is accepted if it passes its schema and what is read from the declared part is clean,
unless the validation breaks off at a length that cannot be compared. -/
structure Projects {α : Type} (validate : Json → Verdict α) (schema : Schema) (part : α → Json)
    (clean : α → Prop) : Prop where
  /-- Where all lengths can be compared, there is a result. -/
  ends : ∀ document, holdsIncomparable document = false → validate document ≠ .failed
  /-- An accepted document has a value, whose document has the declared members alone. -/
  accepted_iff : ∀ document result, validate document = .valid result ↔ validate document ≠ .failed ∧
    ∃ value, result = some value ∧ Keeps schema (some document) (some (part value)) ∧ clean value
  /-- The document of a value is accepted with that value again. -/
  again : ∀ document value, validate document = .valid (some value) → validate (part value) = .valid (some value)
  /-- Undeclared members change neither acceptance nor the value, and no finding but those about lengths,
  and the validation breaks off with them if it does without them. -/
  undeclared : ∀ document other, Alike Undeclared document other →
    (∀ result, validate other = .valid result ↔ validate document = .valid result)
      ∧ otherFindings (validate other) = otherFindings (validate document)
      ∧ (validate other = .failed ↔ validate document = .failed)
  /-- Undeclared members none of which is a length below one change nothing. -/
  harmless : ∀ document other, Alike Harmless document other → validate other = validate document

section

variable {schema : Schema} {document other : Json}

theorem checkAgainst_eq_valid (orderly : Orderly schema) {result : Option Json} :
    checkAgainst schema document = .valid result ↔ schema.breaks (some document) = false ∧
      ∃ kept, result = some kept ∧ Keeps schema (some document) (some kept) := by
  constructor
  · exact checkAgainst_valid
  · rintro ⟨runs, kept, rfl, keeps⟩
    exact checkAgainst_of_keeps runs keeps orderly

/-- The findings about a document that fails its schema are its issues. -/
theorem checkAgainst_eq_invalid (runs : schema.breaks (some document) = false)
    (rejected : (schema.examine (some document)).issues ≠ []) :
    checkAgainst schema document = .invalid ((schema.examine (some document)).issues.map fun issue =>
      ⟨Finding.pathText issue.path, issue.fault.message, none⟩) := by
  obtain ⟨issue, issues, same⟩ := List.exists_cons_of_ne_nil rejected
  rw [checkAgainst_of_runs runs, same]

/-- Either the checks do not tell the documents apart, or both documents fail with the same findings
other than those about lengths. -/
theorem checkAgainst_alike (covered : names schema ⊆ declaredNames) (alike : Alike Undeclared document other) :
    checkAgainst schema other = checkAgainst schema document ∨
      ∃ findings more, checkAgainst schema document = .invalid findings
        ∧ checkAgainst schema other = .invalid more
        ∧ more.filter (·.message != lengthMessage) = findings.filter (·.message != lengthMessage) := by
  have ignorable : Ignorable Undeclared fun fault => fault.message != lengthMessage :=
    ignorable_undeclared (bne_self_eq_false lengthMessage)
  have ends := breaks_alike ignorable schema (some document) covered (.some alike)
  have same := examine_alike ignorable schema (some document) covered (.some alike)
  cases runs : schema.breaks (some document) with
  | true =>
    left
    rw [checkAgainst_eq_failed_iff.mpr runs, checkAgainst_eq_failed_iff.mpr (ends.trans runs)]
  | false =>
    by_cases accepted : (schema.examine (some document)).issues = []
    · left
      rw [checkAgainst_of_runs runs, checkAgainst_of_runs (ends.trans runs), same.eq_of_accepted accepted]
    · right
      have rejected := accepted ∘ same.issues.none_iff.mp
      refine ⟨_, _, checkAgainst_eq_invalid runs accepted,
        checkAgainst_eq_invalid (ends.trans runs) rejected, ?_⟩
      rw [List.filter_map, List.filter_map]
      exact congrArg (List.map _) same.issues.counted

/-- The checks do not tell documents apart that differ in harmless members. -/
theorem checkAgainst_harmless (covered : names schema ⊆ declaredNames) (alike : Alike Harmless document other) :
    checkAgainst schema other = checkAgainst schema document := by
  have ends := breaks_alike ignorable_harmless schema (some document) covered (.some alike)
  have same := examine_alike ignorable_harmless schema (some document) covered (.some alike)
  cases runs : schema.breaks (some document) with
  | true => rw [checkAgainst_eq_failed_iff.mpr runs, checkAgainst_eq_failed_iff.mpr (ends.trans runs)]
  | false => rw [checkAgainst_of_runs runs, checkAgainst_of_runs (ends.trans runs), same.eq_of_all]

/-- A validation that breaks off with the check, refuses what fails it, for the same findings, and then
looks at the declared part alone. -/
theorem Projects.of_exact {α : Type} {validate : Json → Verdict α} {part : α → Json} {clean : α → Prop}
    (orderly : Orderly schema) (covered : names schema ⊆ declaredNames)
    (fails_iff : ∀ document, validate document = .failed ↔ schema.breaks (some document) = true)
    (exact : ∀ document result, validate document = .valid result ↔ schema.breaks (some document) = false ∧
      ∃ value, result = some value ∧ Keeps schema (some document) (some (part value)) ∧ clean value)
    (refuses : ∀ document findings, checkAgainst schema document = .invalid findings →
      validate document = .invalid findings)
    (factors : ∀ document other, checkAgainst schema other = checkAgainst schema document →
      validate other = validate document) : Projects validate schema part clean where
  ends document comparable := by
    rw [ne_eq, fails_iff, breaks_comparable schema (some document) comparable]
    exact Bool.false_ne_true
  accepted_iff document result := by
    rw [exact, ne_eq, fails_iff, Bool.not_eq_true]
  again document value valid := by
    obtain ⟨-, _, same, keeps, passes⟩ := (exact document (some value)).mp valid
    cases same
    exact (exact (part value) (some value)).mpr
      ⟨keeps.runs covered, value, rfl, keeps.again orderly, passes⟩
  undeclared document other alike := by
    rcases checkAgainst_alike covered alike with same | ⟨findings, more, fails, failsToo, others⟩
    · rw [factors document other same]
      exact ⟨fun _ => Iff.rfl, rfl, Iff.rfl⟩
    · rw [refuses document findings fails, refuses other more failsToo]
      exact ⟨fun _ => iff_of_false nofun nofun, others, iff_of_false nofun nofun⟩
  harmless document other alike := factors document other (checkAgainst_harmless covered alike)

end

/-! ## The two validations -/

/-- The tree was read from the document, and nothing is found in it. -/
def ValidSourceUnit.IsClean (source : ValidSourceUnit) : Prop :=
  SourceUnit.ofJson? source.document = some source.tree ∧ sourceUnitFindings source.tree = []

theorem sourceUnit_eq_valid (document : Json) (result : Option ValidSourceUnit) :
    sourceUnit document = .valid result ↔ DocumentType.sourceUnit.schema.breaks (some document) = false ∧
      ∃ source, result = some source
        ∧ Keeps DocumentType.sourceUnit.schema (some document) (some source.document) ∧ source.IsClean := by
  constructor
  · intro accepted
    exact keeps_of_sourceUnit accepted
  · rintro ⟨runs, source, rfl, keeps, read, clean⟩
    simp only [sourceUnit, checkAgainst_of_keeps runs keeps (orderly_document _), read, clean]

/-- A source unit has no verdict exactly if the check of its document breaks off. -/
theorem sourceUnit_eq_failed_iff (document : Json) :
    sourceUnit document = .failed ↔ DocumentType.sourceUnit.schema.breaks (some document) = true := by
  rw [← checkAgainst_eq_failed_iff, sourceUnit]
  cases checkAgainst DocumentType.sourceUnit.schema document with
  | failed => exact iff_of_true rfl rfl
  | invalid => simp
  | valid kept =>
    cases kept with
    | none => simp
    | some declared =>
      dsimp only
      split
      · simp
      · split <;> simp

/-- Both validations are projections. -/
theorem validation_projects :
    Projects sourceUnit DocumentType.sourceUnit.schema ValidSourceUnit.document ValidSourceUnit.IsClean
      ∧ Projects irBlock NodeType.irBlock.schema id (fun _ => True) := by
  constructor
  · apply Projects.of_exact (orderly_document _) names_sourceUnit sourceUnit_eq_failed_iff sourceUnit_eq_valid
    · intro document findings fails
      rw [sourceUnit, fails]
    · intro document other same
      rw [sourceUnit, sourceUnit, same]
  · apply Projects.of_exact (orderly_schema _) (names_node _)
    · intro document
      exact checkAgainst_eq_failed_iff
    · intro document result
      simp only [irBlock, checkAgainst_eq_valid (orderly_schema _), and_true, id]
    · intro document findings fails
      exact fails
    · intro document other same
      exact same

/-! ## Added members -/

def misnamedContract (name : List (Text × Json)) : Json :=
  nodeDocument "contract" [("name", .object name), ("fullyQualifiedName", .string "a:C"),
    ("contractKind", .string "contract"), ("baseContracts", .array []), ("structs", .array []),
    ("enums", .array []), ("events", .array []), ("modifiers", .array []), ("functions", .array [])] 0 9

/-- A length that cannot be compared. -/
def incomparableLength : Text × Json := ("length", .object [("toString", .nat 0)])

def notedContract : Json :=
  match contractDocument [] 0 9 with
  | .object members => .object (("note", .object [incomparableLength]) :: members)
  | document => document

theorem alike_unit {spare : Text → Json → Prop} {contract other : Json} (alike : Alike spare contract other) :
    Alike spare (unitDocument [contract]) (unitDocument [other]) :=
  Alike.inside [("kind", .string "sourceUnit"), ("path", .string "a")] [] (.array (.cons alike .nil))
    fun same => absurd same (by decide)

/-- The note is left out of what is accepted, and nothing else is. -/
theorem validation_projects_noted :
    ∃ source, sourceUnit (unitDocument [notedContract]) = .valid (some source)
      ∧ source.document = unitDocument [contractDocument [] 0 9]
      ∧ sourceUnit source.document = .valid (some source)
      ∧ sourceUnit (unitDocument [contractDocument [] 0 9]) = .valid (some source) := by
  have kept : (sourceUnit (unitDocument [notedContract])).value?.map (·.document)
      = some (unitDocument [contractDocument [] 0 9]) := by cbv
  obtain ⟨source, valid, same⟩ := eq_valid_of_value? kept
  have again := validation_projects.1.again _ _ valid
  have alike : Alike Undeclared (unitDocument [contractDocument [] 0 9]) (unitDocument [notedContract]) :=
    alike_unit (.add rfl ⟨by decide, fun same => absurd same (by decide)⟩)
  exact ⟨source, valid, same, again, ((validation_projects.1.undeclared _ _ alike).1 _).mp valid⟩

def reasons {α : Type} (verdict : Verdict α) : List (Text × Text) :=
  verdict.findings.map fun finding => (finding.path, finding.message)

def wrongName : Text × Text := ("contracts.0.name", "Invalid input: expected string, received object")

def shortName : Text × Text := ("contracts.0.name", lengthMessage)

def misnamedUnit (name : List (Text × Json)) : Json := unitDocument [misnamedContract name]

theorem alike_misnamedUnit (member : Text × Json) (unknown : member.1 ∉ declaredNames) :
    Alike (fun name _ => name ∉ declaredNames) (misnamedUnit []) (misnamedUnit [member]) := by
  apply alike_unit
  apply Alike.inside [("kind", .string "contract")]
  · exact .add rfl unknown
  · exact fun same => absurd same (by decide)

/-- No schema declares a length, and one that is added to an object where a name is wanted is reported,
or ends the validation if it cannot be compared. -/
theorem sourceUnit_counts_length :
    Alike (fun name _ => name ∉ declaredNames) (misnamedUnit []) (misnamedUnit [("length", .nat 0)])
      ∧ Alike (fun name _ => name ∉ declaredNames) (misnamedUnit []) (misnamedUnit [incomparableLength])
      ∧ reasons (sourceUnit (misnamedUnit [])) = [wrongName]
      ∧ reasons (sourceUnit (misnamedUnit [("length", .nat 0)])) = [wrongName, shortName]
      ∧ sourceUnit (misnamedUnit [incomparableLength]) = .failed := by
  refine ⟨alike_misnamedUnit _ length_undeclared, alike_misnamedUnit _ length_undeclared, ?_, ?_, ?_⟩
  · cbv
  · cbv
  · cbv

end ContractAsm.Validation
