import ContractAsm.Schema.Check

/-!
# What a check keeps

A check that reports no issue yields a part of the value: in every object the declared
members alone, in the order of the schema, and everything else as it was given. The
relation between the value and that part follows the schema; it says nothing of the order
in which the options of a union are tried, nor of lengths that cannot be compared.
-/

namespace ContractAsm.Schema

mutual

/-- The schema accepts the first value, and the second one is what it keeps of it. -/
inductive Keeps : Schema → Option Json → Option Json → Prop where
  | string {nonEmpty : Bool} {text : Text} (long : nonEmpty = true → text.isEmpty = false) :
      Keeps (.string nonEmpty) (some (.string text)) (some (.string text))
  | boolean {truth : Bool} : Keeps .boolean (some (.bool truth)) (some (.bool truth))
  | offset {number : Rat} (whole : number.den = 1) (least : 0 ≤ number.num)
      (most : number.num ≤ largestOffset) :
      Keeps .offset (some (.number (.finite number))) (some (.number (.finite number)))
  | literal {text : Text} : Keeps (.literal text) (some (.string text)) (some (.string text))
  | oneOf {texts : List Text} {text : Text} (declared : text ∈ texts) :
      Keeps (.oneOf texts) (some (.string text)) (some (.string text))
  | array {item : Schema} {nonEmpty : Bool} {elements kept : List Json}
      (long : nonEmpty = true → elements.isEmpty = false) (each : KeepsElements item elements kept) :
      Keeps (.array item nonEmpty) (some (.array elements)) (some (.array kept))
  | object {fields : List (Text × Schema)} {members kept : List (Text × Json)}
      (each : KeepsFields fields members kept) :
      Keeps (.object fields) (some (.object members)) (some (.object kept))
  | union {options : List Schema} {option : Schema} {value kept : Option Json}
      (listed : option ∈ options) (keeps : Keeps option value kept) : Keeps (.union options) value kept
  | absent {inner : Schema} : Keeps (.optional inner) none none
  | optional {inner : Schema} {value : Json} {kept : Option Json} (keeps : Keeps inner (some value) kept) :
      Keeps (.optional inner) (some value) kept
  | null {inner : Schema} : Keeps (.nullable inner) (some .null) (some .null)
  | nullable {inner : Schema} {value kept : Option Json} (keeps : Keeps inner value kept) :
      Keeps (.nullable inner) value kept
  | node {type : NodeType} {value kept : Option Json} (keeps : Keeps type.schema value kept) :
      Keeps (.node type) value kept
  | deferred {type : NodeType} {value kept : Option Json} (keeps : Keeps type.schema value kept) :
      Keeps (.deferred type) value kept

/-- Every element is accepted, and what is kept of it takes its place. -/
inductive KeepsElements : Schema → List Json → List Json → Prop where
  | nil {item : Schema} : KeepsElements item [] []
  | cons {item : Schema} {element kept : Json} {elements more : List Json}
      (first : Keeps item (some element) (some kept)) (rest : KeepsElements item elements more) :
      KeepsElements item (element :: elements) (kept :: more)

/-- The declared members are accepted, and those that are there are kept in their order. -/
inductive KeepsFields : List (Text × Schema) → List (Text × Json) → List (Text × Json) → Prop where
  | nil {members : List (Text × Json)} : KeepsFields [] members []
  | absent {name : Text} {field : Schema} {fields : List (Text × Schema)} {members kept : List (Text × Json)}
      (first : Keeps field (Json.find? name members) none) (rest : KeepsFields fields members kept) :
      KeepsFields ((name, field) :: fields) members kept
  | present {name : Text} {field : Schema} {fields : List (Text × Schema)}
      {members kept : List (Text × Json)} {value : Json}
      (first : Keeps field (Json.find? name members) (some value)) (rest : KeepsFields fields members kept) :
      KeepsFields ((name, field) :: fields) members ((name, value) :: kept)

end

/-! ## Accepted values are kept -/

theorem Keeps.isSome {schema : Schema} {value kept : Option Json} (keeps : Keeps schema value kept) :
    value.isSome = true → kept.isSome = true :=
  match keeps with
  | .string _ | .boolean | .offset _ _ _ | .literal | .oneOf _ | .array _ _ | .object _ | .null => id
  | .absent => id
  | .union _ inner => inner.isSome
  | .optional inner => inner.isSome
  | .nullable inner => inner.isSome
  | .node inner => inner.isSome
  | .deferred inner => inner.isSome

theorem Keeps.given {schema : Schema} {value kept : Option Json} (keeps : Keeps schema value kept) :
    kept.isSome = true → value.isSome = true :=
  match keeps with
  | .string _ | .boolean | .offset _ _ _ | .literal | .oneOf _ | .array _ _ | .object _ | .null => id
  | .absent => id
  | .union _ inner => inner.given
  | .optional _ => fun _ => rfl
  | .nullable inner => inner.given
  | .node inner => inner.given
  | .deferred inner => inner.given

theorem issues_reject_ne_nil (fault : Fault) (faults : List Fault) :
    (Outcome.reject (fault :: faults)).issues ≠ [] := List.cons_ne_nil _ _

theorem choose_accepted {outcomes : List Outcome} (accepted : (choose outcomes).issues = []) :
    ∃ outcome ∈ outcomes, outcome.issues = [] ∧ choose outcomes = outcome := by
  unfold choose at accepted ⊢
  cases found : outcomes.find? Outcome.isAccepted with
  | some outcome =>
    have clean := List.find?_some found
    exact ⟨outcome, List.mem_of_find?_eq_some found, List.isEmpty_iff.mp clean, rfl⟩
  | none =>
    rw [found] at accepted
    -- Without an accepted option, whatever is chosen has an issue.
    exfalso
    have faulty := List.find?_eq_none.mp found
    cases soft : outcomes.filter Outcome.isSoft with
    | nil =>
      rw [soft] at accepted
      exact issues_reject_ne_nil _ _ accepted
    | cons outcome others =>
      rw [soft] at accepted
      cases others with
      | nil =>
        have chosen : outcome ∈ outcomes.filter Outcome.isSoft := soft ▸ List.mem_singleton_self outcome
        exact faulty outcome (List.mem_filter.mp chosen).1 (List.isEmpty_iff.mpr accepted)
      | cons => exact issues_reject_ne_nil _ _ accepted

theorem lengthFaults_eq_nil_iff {nonEmpty : Bool} {value : Option Json} :
    lengthFaults nonEmpty value = [] ↔ (nonEmpty = true → extent value = .enough) := by
  rw [lengthFaults]
  cases nonEmpty with
  | false => exact iff_of_true rfl nofun
  | true => cases extent value <;> simp

theorem extent_string {text : Text} : extent (some (.string text)) = .enough ↔ text.isEmpty = false := by
  rw [extent]
  cases text.isEmpty <;> simp

theorem extent_array {elements : List Json} :
    extent (some (.array elements)) = .enough ↔ elements.isEmpty = false := by
  rw [extent]
  cases elements.isEmpty <;> simp

theorem offsetFaults_eq_nil {number : Int} (accepted : offsetFaults number = []) :
    0 ≤ number ∧ number ≤ largestOffset := by
  obtain ⟨range, sign⟩ := List.append_eq_nil_iff.mp accepted
  constructor
  · apply Int.not_lt.mp
    intro negative
    rw [if_pos negative] at sign
    contradiction
  · apply Int.not_lt.mp
    intro above
    rw [if_pos above] at range
    contradiction

section

variable {value : Option Json}

theorem keeps_string {nonEmpty : Bool} : (checkString nonEmpty value).issues = [] →
    Keeps (.string nonEmpty) value (checkString nonEmpty value).value := by
  unfold checkString
  split
  · intro accepted
    have long := lengthFaults_eq_nil_iff.mp (List.map_eq_nil_iff.mp accepted)
    exact .string fun wanted => extent_string.mp (long wanted)
  · intro accepted
    exact absurd accepted (issues_reject_ne_nil _ _)

theorem keeps_boolean : (checkBoolean value).issues = [] →
    Keeps .boolean value (checkBoolean value).value := by
  unfold checkBoolean
  split
  · intro
    exact .boolean
  · intro accepted
    exact absurd accepted (issues_reject_ne_nil _ _)

theorem keeps_offset : (checkOffset value).issues = [] →
    Keeps .offset value (checkOffset value).value := by
  unfold checkOffset
  split
  · rename_i number
    by_cases whole : number.den = 1
    · rw [if_pos whole]
      intro accepted
      obtain ⟨least, most⟩ := offsetFaults_eq_nil (List.map_eq_nil_iff.mp accepted)
      exact .offset whole least most
    · rw [if_neg whole]
      intro accepted
      exact absurd accepted (issues_reject_ne_nil _ _)
  · intro accepted
    exact absurd accepted (issues_reject_ne_nil _ _)

theorem keeps_literal {text : Text} : (checkLiteral text value).issues = [] →
    Keeps (.literal text) value (checkLiteral text value).value := by
  unfold checkLiteral
  split
  · rename_i given
    by_cases same : given = text
    · rw [if_pos same, same]
      intro
      exact .literal
    · rw [if_neg same]
      intro accepted
      exact absurd accepted (issues_reject_ne_nil _ _)
  · intro accepted
    exact absurd accepted (issues_reject_ne_nil _ _)

theorem keeps_oneOf {texts : List Text} : (checkOneOf texts value).issues = [] →
    Keeps (.oneOf texts) value (checkOneOf texts value).value := by
  unfold checkOneOf
  split
  · rename_i given
    by_cases declared : texts.contains given = true
    · rw [if_pos declared]
      intro
      exact .oneOf (List.contains_iff_mem.mp declared)
    · rw [if_neg declared]
      intro accepted
      exact absurd accepted (issues_reject_ne_nil _ _)
  · intro accepted
    exact absurd accepted (issues_reject_ne_nil _ _)

end

/-! The cases of the induction for whole documents, each from the claims about its parts. -/

section

variable {item field : Schema} {fields : List (Text × Schema)} {members : List (Text × Json)}
variable {elements : List Json}

theorem keeps_array {nonEmpty : Bool}
    (each : (examineElements item 0 elements).2 = [] →
      KeepsElements item elements (examineElements item 0 elements).1)
    (accepted : (examine (.array item nonEmpty) (some (.array elements))).issues = []) :
    Keeps (.array item nonEmpty) (some (.array elements))
      (examine (.array item nonEmpty) (some (.array elements))).value := by
  rw [examine] at accepted ⊢
  have parts := List.append_eq_nil_iff.mp accepted
  have long := lengthFaults_eq_nil_iff.mp (List.map_eq_nil_iff.mp parts.2)
  exact .array (fun wanted => extent_array.mp (long wanted)) (each parts.1)

theorem keeps_union {options : List Schema} {value : Option Json}
    (each : ∀ outcome ∈ examineOptions options value, outcome.issues = [] →
      ∃ option ∈ options, Keeps option value outcome.value)
    (accepted : (examine (.union options) value).issues = []) :
    Keeps (.union options) value (examine (.union options) value).value := by
  rw [examine] at accepted ⊢
  obtain ⟨outcome, tried, clean, chosen⟩ := choose_accepted accepted
  obtain ⟨option, listed, keeps⟩ := each outcome tried clean
  rw [chosen]
  exact .union listed keeps

theorem keepsFields_cons {name : Text}
    (first : (examine field (Json.find? name members)).issues = [] →
      Keeps field (Json.find? name members) (examine field (Json.find? name members)).value)
    (rest : (examineFields fields members).2 = [] → KeepsFields fields members (examineFields fields members).1)
    (accepted : (examineFields ((name, field) :: fields) members).2 = []) :
    KeepsFields ((name, field) :: fields) members (examineFields ((name, field) :: fields) members).1 := by
  rw [examineFields] at accepted ⊢
  have parts := List.append_eq_nil_iff.mp accepted
  have keeps := first (List.map_eq_nil_iff.mp parts.1)
  show KeepsFields _ _ ((((examine field (Json.find? name members)).value).map _).toList ++ _)
  cases found : (examine field (Json.find? name members)).value with
  | none =>
    rw [found] at keeps
    exact .absent keeps (rest parts.2)
  | some value =>
    rw [found] at keeps
    exact .present keeps (rest parts.2)

theorem keepsElements_cons {index : Nat} {element : Json}
    (first : (examine item (some element)).issues = [] →
      Keeps item (some element) (examine item (some element)).value)
    (rest : (examineElements item (index + 1) elements).2 = [] →
      KeepsElements item elements (examineElements item (index + 1) elements).1)
    (accepted : (examineElements item index (element :: elements)).2 = []) :
    KeepsElements item (element :: elements) (examineElements item index (element :: elements)).1 := by
  rw [examineElements] at accepted ⊢
  have parts := List.append_eq_nil_iff.mp accepted
  have keeps := first (List.map_eq_nil_iff.mp parts.1)
  obtain ⟨kept, found⟩ := Option.isSome_iff_exists.mp (keeps.isSome rfl)
  show KeepsElements _ _ ((examine item (some element)).value.toList ++ _)
  rw [found] at keeps ⊢
  exact .cons keeps (rest parts.2)

theorem keeps_option {option : Schema} {options : List Schema} {value : Option Json}
    (included : ¬ option.excludes value = true)
    (first : (examine option value).issues = [] → Keeps option value (examine option value).value)
    (rest : ∀ outcome ∈ examineOptions options value, outcome.issues = [] →
      ∃ option ∈ options, Keeps option value outcome.value) :
    ∀ outcome ∈ examineOptions (option :: options) value, outcome.issues = [] →
      ∃ other ∈ option :: options, Keeps other value outcome.value := by
  intro outcome tried clean
  rw [examineOptions, if_neg included] at tried
  rcases List.mem_cons.mp tried with rfl | later
  · exact ⟨option, List.mem_cons_self, first clean⟩
  · obtain ⟨chosen, listed, keeps⟩ := rest outcome later clean
    exact ⟨chosen, List.mem_cons_of_mem _ listed, keeps⟩

end

/-- What is accepted where no check breaks off is what the schema keeps. -/
theorem examine_keeps (schema : Schema) (value : Option Json) :
    (examine schema value).issues = [] → Keeps schema value (examine schema value).value := by
  revert schema value
  refine (examine.mutual_induct
    (fun schema value => (examine schema value).issues = [] → Keeps schema value (examine schema value).value)
    (fun options value => ∀ outcome ∈ examineOptions options value, outcome.issues = [] →
      ∃ option ∈ options, Keeps option value outcome.value)
    (fun fields members => (examineFields fields members).2 = [] →
      KeepsFields fields members (examineFields fields members).1)
    (fun item index elements => (examineElements item index elements).2 = [] →
      KeepsElements item elements (examineElements item index elements).1)
    ?string ?boolean ?offset ?literal ?oneOf ?array ?noArray ?object ?noObject ?union ?absent ?optional
    ?null ?nullable ?missing ?node ?deferred ?noOption ?excluded ?option ?noField ?field ?noElement
    ?element).1
  case string =>
    intro value nonEmpty
    rw [examine]
    exact keeps_string
  case boolean =>
    intro value
    rw [examine]
    exact keeps_boolean
  case offset =>
    intro value
    rw [examine]
    exact keeps_offset
  case literal =>
    intro value text
    rw [examine]
    exact keeps_literal
  case oneOf =>
    intro value texts
    rw [examine]
    exact keeps_oneOf
  case array => exact fun _ _ _ _ _ _ each => keeps_array each
  case noArray =>
    intro value item nonEmpty other accepted
    rw [examine] at accepted
    · exact absurd accepted (issues_reject_ne_nil _ _)
    · exact other
  case object =>
    intro fields members _ _ _ each accepted
    rw [examine] at accepted ⊢
    exact .object (each accepted)
  case noObject =>
    intro value fields other accepted
    rw [examine] at accepted
    · exact absurd accepted (issues_reject_ne_nil _ _)
    · exact other
  case union => exact fun _ _ => keeps_union
  case absent =>
    intro inner accepted
    rw [examine]
    exact .absent
  case optional =>
    intro inner value ih accepted
    rw [examine] at accepted ⊢
    exact .optional (ih accepted)
  case null =>
    intro inner accepted
    rw [examine]
    exact .null
  case nullable =>
    intro inner given other ih accepted
    rw [examine] at accepted ⊢
    · exact .nullable (ih accepted)
    · exact other
    · exact other
  case missing =>
    intro inner ih accepted
    rw [examine] at accepted ⊢
    exact .nullable (ih accepted)
  case node =>
    intro value type ih accepted
    rw [examine] at accepted ⊢
    exact .node (ih accepted)
  case deferred =>
    intro value type ih accepted
    rw [examine] at accepted ⊢
    exact .deferred (ih accepted)
  case noOption =>
    intro value outcome tried
    rw [examineOptions] at tried
    contradiction
  case excluded =>
    intro value option rest excluded ih outcome tried clean
    rw [examineOptions, if_pos excluded] at tried
    obtain ⟨chosen, listed, keeps⟩ := ih outcome tried clean
    exact ⟨chosen, List.mem_cons_of_mem _ listed, keeps⟩
  case option => exact fun _ _ _ => keeps_option
  case noField =>
    intro members accepted
    rw [examineFields]
    exact .nil
  case field => exact fun _ _ _ _ _ _ _ => keepsFields_cons
  case noElement =>
    intro item index accepted
    rw [examineElements]
    exact .nil
  case element => exact fun _ _ _ _ _ _ _ => keepsElements_cons

/-! ## What is kept -/

/-- The value can be what the schema keeps of some value. -/
def Fits (schema : Schema) (value : Option Json) : Prop := ∃ given, Keeps schema given value

section

variable {value : Option Json}

theorem Fits.string {nonEmpty : Bool} (fits : Fits (.string nonEmpty) value) :
    ∃ text, value = some (.string text) := by
  obtain ⟨_, ⟨⟩⟩ := fits
  exact ⟨_, rfl⟩

theorem Fits.boolean (fits : Fits .boolean value) : ∃ truth, value = some (.bool truth) := by
  obtain ⟨_, ⟨⟩⟩ := fits
  exact ⟨_, rfl⟩

theorem Fits.offset (fits : Fits .offset value) : ∃ number, value = some (.number number) := by
  obtain ⟨_, ⟨⟩⟩ := fits
  exact ⟨_, rfl⟩

theorem Fits.literal {text : Text} (fits : Fits (.literal text) value) : value = some (.string text) := by
  obtain ⟨_, ⟨⟩⟩ := fits
  rfl

theorem Fits.oneOf {texts : List Text} (fits : Fits (.oneOf texts) value) :
    ∃ text ∈ texts, value = some (.string text) := by
  obtain ⟨_, keeps⟩ := fits
  cases keeps with
  | oneOf declared => exact ⟨_, declared, rfl⟩

theorem KeepsElements.fits {item : Schema} {elements kept : List Json} (each : KeepsElements item elements kept) :
    ∀ element ∈ kept, Fits item (some element) :=
  match each with
  | .nil => fun _ mem => absurd mem List.not_mem_nil
  | .cons first rest => fun element mem => by
      rcases List.mem_cons.mp mem with rfl | later
      · exact ⟨_, first⟩
      · exact rest.fits element later

theorem Fits.array {item : Schema} {nonEmpty : Bool} (fits : Fits (.array item nonEmpty) value) :
    ∃ elements, value = some (.array elements) ∧ ∀ element ∈ elements, Fits item (some element) := by
  obtain ⟨_, keeps⟩ := fits
  cases keeps with
  | array long each => exact ⟨_, rfl, each.fits⟩

theorem Fits.union {options : List Schema} (fits : Fits (.union options) value) :
    ∃ option ∈ options, Fits option value := by
  obtain ⟨_, keeps⟩ := fits
  cases keeps with
  | union listed keeps => exact ⟨_, listed, _, keeps⟩

theorem Fits.optional {inner : Schema} (fits : Fits (.optional inner) value) :
    value = none ∨ Fits inner value := by
  obtain ⟨_, keeps⟩ := fits
  cases keeps with
  | absent => exact .inl rfl
  | optional keeps => exact .inr ⟨_, keeps⟩

theorem Fits.nullable {inner : Schema} (fits : Fits (.nullable inner) value) :
    value = some .null ∨ Fits inner value := by
  obtain ⟨_, keeps⟩ := fits
  cases keeps with
  | null => exact .inl rfl
  | nullable keeps => exact .inr ⟨_, keeps⟩

theorem Fits.node {type : NodeType} (fits : Fits (.node type) value) : Fits type.schema value := by
  obtain ⟨_, keeps⟩ := fits
  cases keeps with
  | node keeps => exact ⟨_, keeps⟩

theorem Fits.deferred {type : NodeType} (fits : Fits (.deferred type) value) : Fits (.node type) value := by
  obtain ⟨_, keeps⟩ := fits
  cases keeps with
  | deferred keeps => exact ⟨_, .node keeps⟩

end

/-! ## Members -/

def MembersFit (document : Json) : List (Text × Schema) → Prop
  | [] => True
  | (name, field) :: rest => Fits field (document.member? name) ∧ MembersFit document rest

theorem KeepsFields.find?_undeclared {name : Text} {fields : List (Text × Schema)}
    {members kept : List (Text × Json)} (each : KeepsFields fields members kept)
    (undeclared : name ∉ fields.map Prod.fst) : Json.find? name kept = none := by
  induction fields generalizing kept with
  | nil =>
    cases each
    rfl
  | cons head rest ih =>
    rw [List.map_cons, List.mem_cons, not_or] at undeclared
    cases each with
    | absent _ each => exact ih each undeclared.2
    | present _ each =>
      rw [Json.find?, if_neg (Ne.symm undeclared.1)]
      exact ih each undeclared.2

/-- What is kept under a declared name is kept of the member of that name, even if nothing is. -/
theorem KeepsFields.find?_keeps {name : Text} {field : Schema} {fields : List (Text × Schema)}
    {members kept : List (Text × Json)} (each : KeepsFields fields members kept)
    (distinct : (fields.map Prod.fst).Nodup) (declared : (name, field) ∈ fields) :
    Keeps field (Json.find? name members) (Json.find? name kept) := by
  induction fields generalizing kept with
  | nil => contradiction
  | cons head rest ih =>
    rw [List.map_cons, List.nodup_cons] at distinct
    rcases List.mem_cons.mp declared with rfl | later
    · cases each with
      | absent first each =>
        rw [each.find?_undeclared distinct.1]
        exact first
      | present first each =>
        rw [Json.find?, if_pos rfl]
        exact first
    · have other : head.1 ≠ name := by
        rintro rfl
        exact distinct.1 (List.mem_map.mpr ⟨_, later, rfl⟩)
      cases each with
      | absent _ each => exact ih each distinct.2 later
      | present _ each =>
        rw [Json.find?, if_neg other]
        exact ih each distinct.2 later

theorem KeepsFields.find?_fits {name : Text} {field : Schema} {fields : List (Text × Schema)}
    {members kept : List (Text × Json)} (each : KeepsFields fields members kept)
    (distinct : (fields.map Prod.fst).Nodup) (declared : (name, field) ∈ fields) :
    Fits field (Json.find? name kept) := ⟨_, each.find?_keeps distinct declared⟩

theorem Fits.object {document : Json} {fields : List (Text × Schema)}
    (fits : Fits (.object fields) (some document)) (distinct : (fields.map Prod.fst).Nodup) :
    MembersFit document fields := by
  obtain ⟨_, keeps⟩ := fits
  cases keeps with
  | object each =>
    have every : ∀ declared ∈ fields, Fits declared.2 (Json.find? declared.1 _) :=
      fun declared mem => each.find?_fits distinct mem
    clear each distinct
    induction fields with
    | nil => trivial
    | cons head rest ih =>
      refine ⟨every head List.mem_cons_self, ih fun declared mem => ?_⟩
      exact every declared (List.mem_cons_of_mem _ mem)

theorem distinct_schema {type : NodeType} {fields : List (Text × Schema)}
    (shape : type.schema = .object fields) : (fields.map Prod.fst).Nodup := by
  cases type <;> cases shape <;> exact of_decide_eq_true rfl

theorem Fits.members {document : Json} {type : NodeType} {fields : List (Text × Schema)}
    (fits : Fits (.node type) (some document)) (shape : type.schema = .object fields) :
    MembersFit document fields := by
  have inside := fits.node
  rw [shape] at inside
  exact inside.object (distinct_schema shape)

theorem Fits.present {value : Option Json} {type : NodeType} {fields : List (Text × Schema)}
    (fits : Fits (.node type) value) (shape : type.schema = .object fields) :
    ∃ document, value = some document := by
  have inside := fits.node
  rw [shape] at inside
  obtain ⟨_, ⟨⟩⟩ := inside
  exact ⟨_, rfl⟩

end ContractAsm.Schema
