import ContractAsm.Proofs.Json.Alike
import ContractAsm.Proofs.Schema.Breaking
import ContractAsm.Proofs.Schema.Comparison

/-!
# Undeclared members

A schema looks at the members that it declares, and at the length of an object where it wants a text
or a list that is not empty. So documents that differ in undeclared members have the same outcome, but
for the issue about such a length, if none of these members is a length that cannot be compared; they
have the same outcome altogether if none of them is a length below one either.
-/

namespace ContractAsm.Schema

open Json (Alike AlikeEach AlikeMember alike_cases alike_noObject)

/-! ## Members to ignore -/

/-- A member that no schema declares, and that is no length that cannot be compared. -/
def Undeclared (name : Text) (value : Json) : Prop :=
  name ∉ declaredNames ∧ (name = "length" → isComparable value = true)

/-- A member that no schema declares, and that is no length unless one of at least one. -/
def Harmless (name : Text) (value : Json) : Prop :=
  name ∉ declaredNames ∧ (name = "length" → atLeastOne? value = some true)

/-- Spare members are not declared and can be compared if they are lengths, and none is a length below
one if the issue for that counts. -/
structure Ignorable (spare : Text → Json → Prop) (counts : Fault → Bool) : Prop where
  undeclared : ∀ {name value}, spare name value → name ∉ declaredNames
  comparable : ∀ {value}, spare "length" value → isComparable value = true
  long : ∀ {value}, counts (.tooShort .unknown) = true → spare "length" value → atLeastOne? value = some true

theorem ignorable_undeclared {counts : Fault → Bool} (uncounted : counts (.tooShort .unknown) = false) :
    Ignorable Undeclared counts where
  undeclared allowed := allowed.1
  comparable allowed := allowed.2 rfl
  long counted := by
    rw [uncounted] at counted
    contradiction

theorem ignorable_harmless : Ignorable Harmless fun _ => true where
  undeclared allowed := allowed.1
  comparable allowed := by rw [isComparable, allowed.2 rfl, Option.isSome_some]
  long _ allowed := allowed.2 rfl

variable {spare : Text → Json → Prop} {counts : Fault → Bool} {value other : Option Json}

theorem Ignorable.member (ignorable : Ignorable spare counts) {name : Text} (declared : name ∈ declaredNames)
    (member : AlikeMember spare name value other) : Option.Rel (Alike spare) value other :=
  member.rel fun _ allowed => ignorable.undeclared allowed declared

/-! ## Lengths -/

mutual

/-- Alike values have the same text, if both have one. -/
theorem elementText?_alike {value other : Json} {text changed : Text} (alike : Alike spare value other)
    (known : elementText? value = some text) (after : elementText? other = some changed) : changed = text :=
  match alike with
  | .same => Option.some.inj (after.symm.trans known)
  | .array each => by
    rw [elementText?, Option.map_eq_some_iff] at known after
    obtain ⟨texts, known, rfl⟩ := known
    obtain ⟨more, after, rfl⟩ := after
    rw [elementTexts?_alike each known after]
  | .object _ => by
    rw [elementText?, Option.ite_none_left_eq_some] at known after
    exact Option.some.inj (after.2.symm.trans known.2)

theorem elementTexts?_alike {elements others : List Json} {texts more : List Text}
    (each : AlikeEach spare elements others) (known : elementTexts? elements = some texts)
    (after : elementTexts? others = some more) : more = texts :=
  match each with
  | .nil => Option.some.inj (after.symm.trans known)
  | .cons first rest => by
    simp only [elementTexts?, Option.bind_eq_bind, Option.bind_eq_some_iff, Option.pure_def,
      Option.some.injEq] at known after
    obtain ⟨text, own, texts, later, rfl⟩ := known
    obtain ⟨changed, ownAfter, more, laterAfter, rfl⟩ := after
    rw [elementText?_alike first own ownAfter, elementTexts?_alike rest later laterAfter]

end

/-- The comparison of alike values ends alike, if it fails for both or for none. -/
theorem atLeastOne?_alike {value other : Json} (alike : Alike spare value other)
    (steady : isComparable other = isComparable value) : atLeastOne? other = atLeastOne? value := by
  have known : ∀ {long changed}, atLeastOne? value = some long → atLeastOne? other = some changed →
      changed = long := by
    intro long changed known after
    have texts := fun text changed => @elementText?_alike spare value other text changed alike
    cases alike with
    | same => exact Option.some.inj (after.symm.trans known)
    | array | object =>
      rw [atLeastOne?, Option.map_eq_some_iff] at known after
      obtain ⟨text, known, rfl⟩ := known
      obtain ⟨same, after, rfl⟩ := after
      rw [texts _ _ known after]
  rw [isComparable, isComparable] at steady
  cases before : atLeastOne? value with
  | none =>
    rw [before] at steady
    exact Option.isSome_eq_false_iff.mp steady |> Option.isNone_iff_eq_none.mp
  | some long =>
    rw [before] at steady
    obtain ⟨changed, after⟩ := Option.isSome_iff_exists.mp steady
    rw [after, known before after]

/-- A spare length can be compared, and it is as good as none if the issue about it counts. -/
theorem lengthExtent_spare (ignorable : Ignorable spare counts) {length : Json}
    (allowed : spare "length" length) : lengthExtent (some length) ≠ .incomparable
      ∧ (counts (.tooShort .unknown) = true → lengthExtent (some length) = .enough) := by
  constructor
  · obtain ⟨long, known⟩ := Option.isSome_iff_exists.mp (ignorable.comparable allowed)
    rw [lengthExtent, Option.map_some, known]
    cases long <;> exact nofun
  · intro counted
    rw [lengthExtent, Option.map_some, ignorable.long counted allowed]

/-- Alike objects have lengths of the same extent, but for an issue that does not count. -/
theorem lengthExtent_alike (ignorable : Ignorable spare counts)
    (member : AlikeMember spare "length" value other) : lengthExtent other = lengthExtent value
      ∨ counts (.tooShort .unknown) = false ∧ lengthExtent value ≠ .incomparable
        ∧ lengthExtent other ≠ .incomparable := by
  cases member with
  | absent => exact .inl rfl
  | added allowed =>
    obtain ⟨comparable, long⟩ := lengthExtent_spare ignorable allowed
    cases counted : counts (.tooShort .unknown) with
    | true => exact .inl (long counted)
    | false => exact .inr ⟨rfl, nofun, comparable⟩
  | dropped allowed =>
    obtain ⟨comparable, long⟩ := lengthExtent_spare ignorable allowed
    cases counted : counts (.tooShort .unknown) with
    | true => exact .inl (long counted).symm
    | false => exact .inr ⟨rfl, comparable, nofun⟩
  | both alike steady =>
    left
    rw [lengthExtent, lengthExtent, Option.map_some, Option.map_some, atLeastOne?_alike alike (steady rfl)]

theorem lengthExtent_comparable {length : Option Json} (comparable : lengthExtent length ≠ .incomparable) :
    lengthExtent length = .enough ∨ lengthExtent length = .short .unknown := by
  unfold lengthExtent at comparable ⊢
  generalize length.map atLeastOne? = asked at comparable ⊢
  rcases asked with _ | _ | _ | _
  · exact .inl rfl
  · exact absurd rfl comparable
  · exact .inr rfl
  · exact .inl rfl

section

variable {members others : List (Text × Json)}
  (each : ∀ name, AlikeMember spare name (Json.find? name members) (Json.find? name others))

include each

theorem lengthFaults_membersAlike (ignorable : Ignorable spare counts) (nonEmpty : Bool) :
    (lengthFaults nonEmpty (some (.object others))).filter counts
      = (lengthFaults nonEmpty (some (.object members))).filter counts := by
  rw [lengthFaults, lengthFaults, extent, extent]
  rcases lengthExtent_alike ignorable (each "length") with same | ⟨uncounted, before, after⟩
  · rw [same]
  · rcases lengthExtent_comparable before with first | first <;>
      rcases lengthExtent_comparable after with second | second <;>
      simp [first, second, uncounted]

end

theorem extent_eachAlike {elements others : List Json} (each : AlikeEach spare elements others) :
    extent (some (.array others)) = extent (some (.array elements)) := by
  rw [extent, extent, each.isEmpty_eq]

/-- The lengths of alike values can be compared both, or none can. -/
theorem extent_incomparable_alike (ignorable : Ignorable spare counts) (alike : Option.Rel (Alike spare) value other) :
    decide (extent other = .incomparable) = decide (extent value = .incomparable) := by
  apply alike_cases
    (motive := fun value other => decide (extent other = .incomparable) = decide (extent value = .incomparable)) alike
  · intro value
    rfl
  · intro elements others _ each
    rw [extent_eachAlike each]
  · intro members others _ each
    rw [extent, extent]
    rcases lengthExtent_alike ignorable (each "length") with same | ⟨-, before, after⟩
    · rw [same]
    · rw [decide_eq_false after, decide_eq_false before]

/-! ## Single values -/

theorem sameOutcome_string (ignorable : Ignorable spare counts) (nonEmpty : Bool)
    (alike : Option.Rel (Alike spare) value other) :
    SameOutcome counts (checkString nonEmpty value) (checkString nonEmpty other) := by
  apply alike_cases alike
  · intro value
    exact .refl _
  · intro elements others _ each
    exact .reject rfl (by rw [lengthFaults, lengthFaults, extent_eachAlike each])
  · intro members others _ each
    exact .reject rfl (lengthFaults_membersAlike each ignorable nonEmpty)

theorem sameOutcome_plain {plain : Option Json → Outcome} (alike : Option.Rel (Alike spare) value other)
    (arrays : ∀ elements others, plain (some (.array elements)) = plain (some (.array others)))
    (objects : ∀ members others, plain (some (.object members)) = plain (some (.object others))) :
    SameOutcome counts (plain value) (plain other) := by
  apply alike_cases alike
  · intro value
    exact .refl _
  · intro elements others _ _
    rw [arrays elements others]
    exact .refl _
  · intro members others _ _
    rw [objects members others]
    exact .refl _

/-! ## Options -/

theorem text?_alike (alike : Option.Rel (Alike spare) value other) :
    other.bind Json.text? = value.bind Json.text? := by
  apply alike_cases alike
  · intro value
    rfl
  · intro elements others _ _
    rfl
  · intro members others _ _
    rfl

theorem excludes_membersAlike (ignorable : Ignorable spare counts) {fields : List (Text × Schema)}
    (covered : namesOfFields fields ⊆ declaredNames) {members others : List (Text × Json)}
    (each : ∀ name, AlikeMember spare name (Json.find? name members) (Json.find? name others)) :
    excludes (.object fields) (some (.object others)) = excludes (.object fields) (some (.object members)) := by
  rw [excludes, excludes]
  induction fields with
  | nil => rfl
  | cons head rest ih =>
    obtain ⟨name, field⟩ := head
    obtain ⟨declared, -, behind⟩ := covered_cons covered
    have text := text?_alike (ignorable.member declared (each name))
    rw [List.any_cons, List.any_cons, ih behind]
    dsimp only
    rw [text]

/-- An option is passed over for both values or for none. -/
theorem excludes_alike (ignorable : Ignorable spare counts) {schema : Schema}
    (covered : names schema ⊆ declaredNames) (alike : Option.Rel (Alike spare) value other) :
    excludes schema other = excludes schema value := by
  revert covered
  refine (excludes.mutual_induct value
    (fun schema => names schema ⊆ declaredNames → excludes schema other = excludes schema value)
    (fun options => namesOfOptions options ⊆ declaredNames → excludesAll options other = excludesAll options value)
    ?object ?noObject ?union ?node ?deferred ?plain ?noOption ?option).1 schema
  case object =>
    intro fields members given covered
    subst given
    cases alike with
    | some alike =>
      cases alike with
      | same => rfl
      | object each => exact excludes_membersAlike ignorable covered each
  case noObject =>
    intro fields none covered
    apply alike_noObject (motive := fun value other => excludes _ other = excludes _ value) none alike
    · intro value
      rfl
    · intro elements others _
      simp only [excludes]
  case union =>
    intro options ih covered
    rw [excludes_union, excludes_union, ih covered]
  case node =>
    intro type ih covered
    rw [excludes_node, excludes_node, ih (names_node type)]
  case deferred =>
    intro type ih covered
    rw [excludes_deferred, excludes_deferred, ih (names_node type)]
  case plain =>
    intro schema object union node deferred covered
    rw [excludes, excludes] <;> assumption
  case noOption =>
    intro covered
    rw [excludesAll, excludesAll]
  case option =>
    intro option rest first others covered
    rw [namesOfOptions, List.append_subset] at covered
    rw [excludesAll, excludesAll, first covered.1, others covered.2]

/-! ## Whole documents -/

section

variable (spare : Text → Json → Prop) (counts : Fault → Bool)

/-- The outcomes of alike values are the same, but for issues that do not count. -/
def SameChecks (schema : Schema) (value : Option Json) : Prop :=
  ∀ {other}, names schema ⊆ declaredNames → Option.Rel (Alike spare) value other →
    SameOutcome counts (examine schema value) (examine schema other)

def SameOptions (options : List Schema) (value : Option Json) : Prop :=
  ∀ {other}, namesOfOptions options ⊆ declaredNames → Option.Rel (Alike spare) value other →
    List.Forall₂ (SameOutcome counts) (examineOptions options value) (examineOptions options other)

def SameFields (fields : List (Text × Schema)) (members : List (Text × Json)) : Prop :=
  ∀ {others}, namesOfFields fields ⊆ declaredNames →
    (∀ name, AlikeMember spare name (Json.find? name members) (Json.find? name others)) →
    (examineFields fields others).1 = (examineFields fields members).1
      ∧ SameIssues counts (examineFields fields members).2 (examineFields fields others).2

def SameElements (item : Schema) (index : Nat) (elements : List Json) : Prop :=
  ∀ {others}, names item ⊆ declaredNames → AlikeEach spare elements others →
    (examineElements item index others).1 = (examineElements item index elements).1
      ∧ SameIssues counts (examineElements item index elements).2 (examineElements item index others).2

end

theorem sameChecks_array {item : Schema} {nonEmpty : Bool} {elements : List Json}
    (ih : SameElements spare counts item 0 elements) :
    SameChecks spare counts (.array item nonEmpty) (some (.array elements)) := by
  intro other covered alike
  cases alike with
  | some alike =>
    cases alike with
    | same => exact .refl _
    | array each =>
      obtain ⟨checked, issues⟩ := ih covered each
      rw [examine, examine]
      refine ⟨congrArg (some ∘ Json.array) checked, issues.append ?_⟩
      rw [lengthFaults, lengthFaults, extent_eachAlike each]
      exact .refl _

theorem sameChecks_noArray (ignorable : Ignorable spare counts) {item : Schema} {nonEmpty : Bool}
    (none : ∀ elements, value = some (.array elements) → False) :
    SameChecks spare counts (.array item nonEmpty) value := by
  intro other covered alike
  apply alike_cases alike
  · intro value
    exact .refl _
  · intro elements others given _
    exact (none elements given).elim
  · intro members others _ each
    simp only [examine]
    exact .reject rfl (lengthFaults_membersAlike each ignorable nonEmpty)

theorem sameChecks_object {fields : List (Text × Schema)} {members : List (Text × Json)}
    (ih : SameFields spare counts fields members) :
    SameChecks spare counts (.object fields) (some (.object members)) := by
  intro other covered alike
  cases alike with
  | some alike =>
    cases alike with
    | same => exact .refl _
    | object each =>
      obtain ⟨checked, issues⟩ := ih covered each
      rw [examine, examine]
      exact ⟨congrArg (some ∘ Json.object) checked, issues⟩

theorem sameChecks_noObject {fields : List (Text × Schema)}
    (none : ∀ members, value = some (.object members) → False) :
    SameChecks spare counts (.object fields) value := by
  intro other covered alike
  apply alike_noObject none alike
  · intro value
    exact .refl _
  · intro elements others _
    simp only [examine, wrongType, typeName]
    exact .refl _

theorem sameChecks_nullable {inner : Schema} {given : Json} (ih : SameChecks spare counts inner (some given)) :
    SameChecks spare counts (.nullable inner) (some given) := by
  intro other covered alike
  cases alike with
  | some alike =>
    cases alike with
    | same => exact .refl _
    | array each =>
      simp only [examine]
      exact ih covered (.some (.array each))
    | object each =>
      simp only [examine]
      exact ih covered (.some (.object each))

/-- Values that differ in what a schema may ignore have the same outcome, but for issues that do not
count. -/
theorem examine_alike (ignorable : Ignorable spare counts) (schema : Schema) (value : Option Json) :
    SameChecks spare counts schema value := by
  refine (examine.mutual_induct (SameChecks spare counts) (SameOptions spare counts) (SameFields spare counts)
    (SameElements spare counts)
    ?string ?boolean ?offset ?literal ?oneOf ?array ?noArray ?object ?noObject ?union ?absent ?optional
    ?null ?nullable ?missing ?node ?deferred ?noOption ?excluded ?option ?noField ?field ?noElement
    ?element).1 schema value
  case string =>
    intro value nonEmpty other covered alike
    rw [examine, examine]
    exact sameOutcome_string ignorable nonEmpty alike
  case boolean =>
    intro value other covered alike
    rw [examine, examine]
    exact sameOutcome_plain alike (fun _ _ => rfl) fun _ _ => rfl
  case offset =>
    intro value other covered alike
    rw [examine, examine]
    exact sameOutcome_plain alike (fun _ _ => rfl) fun _ _ => rfl
  case literal =>
    intro value text other covered alike
    rw [examine, examine]
    exact sameOutcome_plain alike (fun _ _ => rfl) fun _ _ => rfl
  case oneOf =>
    intro value texts other covered alike
    rw [examine, examine]
    exact sameOutcome_plain alike (fun _ _ => rfl) fun _ _ => rfl
  case array => exact fun _ _ _ _ _ _ ih => sameChecks_array ih
  case noArray => exact fun _ _ _ none => sameChecks_noArray ignorable none
  case object => exact fun _ _ _ _ _ ih => sameChecks_object ih
  case noObject => exact fun _ _ none => sameChecks_noObject none
  case union =>
    intro value options ih other covered alike
    rw [examine, examine]
    exact .choose (ih covered alike)
  case absent =>
    intro inner other covered alike
    cases alike
    exact .refl _
  case optional =>
    intro inner value ih other covered alike
    cases alike with
    | some alike =>
      rw [examine, examine]
      exact ih covered (.some alike)
  case null =>
    intro inner other covered alike
    cases alike with
    | some alike =>
      cases alike
      exact .refl _
  case nullable => exact fun _ _ _ ih => sameChecks_nullable ih
  case missing =>
    intro inner ih other covered alike
    cases alike
    exact .refl _
  case node =>
    intro value type ih other covered alike
    rw [examine, examine]
    exact ih (names_node type) alike
  case deferred =>
    intro value type ih other covered alike
    rw [examine, examine]
    exact ih (names_node type) alike
  case noOption =>
    intro value other covered alike
    rw [examineOptions, examineOptions]
    exact .nil
  case excluded =>
    intro value option rest excluded ih other covered alike
    rw [namesOfOptions, List.append_subset] at covered
    rw [examineOptions, examineOptions, excludes_alike ignorable covered.1 alike, if_pos excluded, if_pos excluded]
    exact ih covered.2 alike
  case option =>
    intro value option rest included first others other covered alike
    rw [namesOfOptions, List.append_subset] at covered
    rw [examineOptions, examineOptions, excludes_alike ignorable covered.1 alike, if_neg included, if_neg included]
    exact .cons (first covered.1 alike) (others covered.2 alike)
  case noField =>
    intro members others covered each
    rw [examineFields, examineFields]
    exact ⟨rfl, .refl _⟩
  case field =>
    intro members name field rest _ _ _ first ih others covered each
    obtain ⟨declared, inside, later⟩ := covered_cons covered
    have own := first inside (ignorable.member declared (each name))
    obtain ⟨checked, issues⟩ := ih later each
    rw [examineFields, examineFields]
    refine ⟨?_, (own.issues.under name).append issues⟩
    simp only [own.value, checked]
  case noElement =>
    intro item index others covered each
    cases each
    exact ⟨rfl, .refl _⟩
  case element =>
    intro item index element rest _ _ _ first ih others covered each
    cases each with
    | cons alike each =>
      have own := first covered (.some alike)
      obtain ⟨checked, issues⟩ := ih covered each
      rw [examineElements, examineElements]
      refine ⟨?_, (own.issues.under _).append issues⟩
      simp only [own.value, checked]

/-! ## Checks that break off -/

/-- The checks of alike values break off both, or none does. -/
theorem breaks_alike (ignorable : Ignorable spare counts) (schema : Schema) (value : Option Json) :
    ∀ {other}, names schema ⊆ declaredNames → Option.Rel (Alike spare) value other →
      breaks schema other = breaks schema value := by
  refine (breaks.mutual_induct
    (fun schema value => ∀ {other}, names schema ⊆ declaredNames → Option.Rel (Alike spare) value other →
      breaks schema other = breaks schema value)
    (fun options value => ∀ {other}, namesOfOptions options ⊆ declaredNames →
      Option.Rel (Alike spare) value other → optionsBreak options other = optionsBreak options value)
    (fun fields members => ∀ {others}, namesOfFields fields ⊆ declaredNames →
      (∀ name, AlikeMember spare name (Json.find? name members) (Json.find? name others)) →
      fieldsBreak fields others = fieldsBreak fields members)
    (fun item elements => ∀ {others}, names item ⊆ declaredNames → AlikeEach spare elements others →
      elementsBreak item others = elementsBreak item elements)
    ?string ?array ?noArray ?object ?noObject ?union ?optional ?nullable ?node ?deferred ?boolean ?offset
    ?literal ?oneOf ?noOption ?option ?noField ?field ?noElement ?element).1 schema value
  case string =>
    intro value nonEmpty other _ alike
    rw [breaks, breaks, extent_incomparable_alike ignorable alike]
  case array =>
    intro item nonEmpty elements ih other covered alike
    cases alike with
    | some alike =>
      cases alike with
      | same => rfl
      | array each =>
        rw [breaks, breaks]
        exact ih covered each
  case noArray =>
    intro value item nonEmpty none other covered alike
    apply alike_cases (motive := fun value other => breaks _ other = breaks _ value) alike
    · intro value
      rfl
    · intro elements others given _
      exact (none elements given).elim
    · intro members others _ each
      simp only [breaks, extent_incomparable_alike ignorable (.some (.object each))]
  case object =>
    intro fields members ih other covered alike
    cases alike with
    | some alike =>
      cases alike with
      | same => rfl
      | object each =>
        rw [breaks, breaks]
        exact ih covered each
  case noObject =>
    intro value fields none other covered alike
    apply alike_noObject (motive := fun value other => breaks _ other = breaks _ value) none alike
    · intro value
      rfl
    · intro elements others _
      simp only [breaks]
  case union | optional | nullable =>
    intro value _ ih other covered alike
    rw [breaks, breaks]
    exact ih covered alike
  case node | deferred =>
    intro value type ih other covered alike
    rw [breaks, breaks]
    exact ih (names_node type) alike
  case boolean | offset | literal | oneOf =>
    intros
    rw [breaks, breaks]
  case noOption =>
    intros
    rw [optionsBreak, optionsBreak]
  case option =>
    intro value option rest first others other covered alike
    rw [namesOfOptions, List.append_subset] at covered
    have accepted := (examine_alike ignorable option value covered.1 alike).isAccepted_eq
    rw [optionsBreak, optionsBreak, first covered.1 alike, others covered.2 alike, accepted]
  case noField =>
    intros
    rw [fieldsBreak, fieldsBreak]
  case field =>
    intro members name field rest first ih others covered each
    obtain ⟨declared, inside, later⟩ := covered_cons covered
    rw [fieldsBreak, fieldsBreak, first inside (ignorable.member declared (each name)), ih later each]
  case noElement =>
    intro item others covered each
    cases each
    rfl
  case element =>
    intro item element rest first ih others covered each
    cases each with
    | cons alike each => rw [elementsBreak, elementsBreak, first covered (.some alike), ih covered each]

end ContractAsm.Schema
