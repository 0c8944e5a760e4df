import ContractAsm.Proofs.Schema.Keeping

/-!
# Checks are exact

Where at most one option of every union can accept a value and no object declares a member
twice, the relation between a value and what is kept of it is the check: the check accepts
what the relation accepts, and yields what the relation keeps. All node types are of that kind,
since the options of their unions are told apart by the kind of the node.
-/

namespace ContractAsm.Schema

/-! ## Kinds -/

mutual

/-- Every value that the schema accepts is an object of one of these kinds. -/
inductive Tagged : Schema → List Text → Prop where
  | literal {kind : Text} {fields : List (Text × Schema)} :
      Tagged (.object (("kind", .literal kind) :: fields)) [kind]
  | oneOf {kinds : List Text} {fields : List (Text × Schema)} :
      Tagged (.object (("kind", .oneOf kinds) :: fields)) kinds
  | union {options : List Schema} {kinds : List Text} (each : TaggedEach options kinds) :
      Tagged (.union options) kinds
  | node {type : NodeType} {kinds : List Text} (inner : Tagged type.schema kinds) : Tagged (.node type) kinds
  | deferred {type : NodeType} {kinds : List Text} (inner : Tagged type.schema kinds) :
      Tagged (.deferred type) kinds

inductive TaggedEach : List Schema → List Text → Prop where
  | nil : TaggedEach [] []
  | cons {option : Schema} {options : List Schema} {kinds more : List Text} (first : Tagged option kinds)
      (rest : TaggedEach options more) : TaggedEach (option :: options) (kinds ++ more)

end

def HasKind (value : Option Json) (kind : Text) : Prop :=
  ∃ members, value = some (.object members) ∧ Json.find? "kind" members = some (.string kind)

theorem HasKind.unique {value : Option Json} {kind other : Text} (first : HasKind value kind)
    (second : HasKind value other) : kind = other := by
  obtain ⟨members, rfl, found⟩ := first
  obtain ⟨_, ⟨⟩, again⟩ := second
  rw [found] at again
  injection again with same
  injection same

theorem KeepsFields.head {name : Text} {field : Schema} {fields : List (Text × Schema)}
    {members kept : List (Text × Json)} (each : KeepsFields ((name, field) :: fields) members kept) :
    ∃ value, Keeps field (Json.find? name members) value := by
  cases each with
  | absent first => exact ⟨_, first⟩
  | present first => exact ⟨_, first⟩

theorem Keeps.literal_eq {text : Text} {value kept : Option Json} (keeps : Keeps (.literal text) value kept) :
    value = some (.string text) := by
  cases keeps
  rfl

theorem Keeps.oneOf_eq {texts : List Text} {value kept : Option Json}
    (keeps : Keeps (.oneOf texts) value kept) : ∃ text ∈ texts, value = some (.string text) := by
  cases keeps with
  | oneOf declared => exact ⟨_, declared, rfl⟩

theorem TaggedEach.mem {options : List Schema} {kinds : List Text} (each : TaggedEach options kinds)
    {option : Schema} (listed : option ∈ options) : ∃ own, Tagged option own ∧ own ⊆ kinds := by
  induction options generalizing kinds with
  | nil => contradiction
  | cons head options ih =>
    cases each with
    | cons first rest =>
      rcases List.mem_cons.mp listed with rfl | later
      · exact ⟨_, first, List.subset_append_left _ _⟩
      · obtain ⟨own, tagged, inside⟩ := ih rest later
        exact ⟨own, tagged, List.subset_append_of_subset_right _ inside⟩

theorem Tagged.hasKind {schema : Schema} {kinds : List Text} {value kept : Option Json}
    (tagged : Tagged schema kinds) (keeps : Keeps schema value kept) : ∃ kind ∈ kinds, HasKind value kind :=
  match keeps with
  | .object each => by
    cases tagged with
    | literal =>
      obtain ⟨_, first⟩ := each.head
      exact ⟨_, List.mem_singleton_self _, _, rfl, first.literal_eq⟩
    | oneOf =>
      obtain ⟨_, first⟩ := each.head
      obtain ⟨kind, declared, found⟩ := first.oneOf_eq
      exact ⟨kind, declared, _, rfl, found⟩
  | .union listed inner => by
    cases tagged with
    | union each =>
      obtain ⟨own, tagged, inside⟩ := each.mem listed
      obtain ⟨kind, mem, found⟩ := tagged.hasKind inner
      exact ⟨kind, inside mem, found⟩
  | .node inner => by
    cases tagged with
    | node tagged => exact tagged.hasKind inner
  | .deferred inner => by
    cases tagged with
    | deferred tagged => exact tagged.hasKind inner

/-- Where no two options have a kind in common, one option at most accepts a value. -/
theorem TaggedEach.unique {options : List Schema} {kinds : List Text} (each : TaggedEach options kinds)
    (distinct : kinds.Nodup) {first second : Schema} (here : first ∈ options) (there : second ∈ options)
    {value kept other : Option Json} (keeps : Keeps first value kept) (also : Keeps second value other) :
    first = second := by
  induction options generalizing kinds with
  | nil => contradiction
  | cons option options ih =>
    cases each with
    | cons head rest =>
      obtain ⟨-, others, apart⟩ := List.nodup_append.mp distinct
      have alone {other : Schema} (behind : other ∈ options) {kept more : Option Json}
          (own : Keeps option value kept) (foreign : Keeps other value more) : False := by
        obtain ⟨kind, mem, found⟩ := head.hasKind own
        obtain ⟨tags, tagged, inside⟩ := rest.mem behind
        obtain ⟨same, later, again⟩ := tagged.hasKind foreign
        exact apart kind mem same (inside later) (found.unique again)
      rcases List.mem_cons.mp here with rfl | inFirst
      · rcases List.mem_cons.mp there with rfl | inSecond
        · rfl
        · exact (alone inSecond keeps also).elim
      · rcases List.mem_cons.mp there with rfl | inSecond
        · exact (alone inFirst also keeps).elim
        · exact ih rest others inFirst inSecond

/-! ## Orderly schemas -/

mutual

/-- No object declares a member twice, and the options of a union have different kinds. -/
def Orderly : Schema → Prop
  | .array item _ => Orderly item
  | .object fields => (fields.map Prod.fst).Nodup ∧ OrderlyFields fields
  | .union options => (∃ kinds, TaggedEach options kinds ∧ kinds.Nodup) ∧ OrderlyEach options
  | .optional inner => Orderly inner
  | .nullable inner => Orderly inner
  | _ => True

def OrderlyFields : List (Text × Schema) → Prop
  | [] => True
  | (_, field) :: rest => Orderly field ∧ OrderlyFields rest

def OrderlyEach : List Schema → Prop
  | [] => True
  | option :: rest => Orderly option ∧ OrderlyEach rest

end

theorem OrderlyEach.mem {options : List Schema} (each : OrderlyEach options) {option : Schema}
    (listed : option ∈ options) : Orderly option := by
  induction options with
  | nil => contradiction
  | cons first rest ih =>
    rcases List.mem_cons.mp listed with rfl | later
    · exact each.1
    · exact ih each.2 later

theorem orderly_schema (type : NodeType) : Orderly type.schema := by
  cases type
  -- The unions first: their options are told apart by kinds.
  case asmExpression | asmStatement | astStatement | irExpression | irStatement =>
    refine ⟨⟨_, by repeat constructor, ?_⟩, by repeat constructor⟩
    decide
  all_goals repeat first | decide | constructor

theorem orderly_document (type : DocumentType) : Orderly type.schema := by
  cases type with
  | sourceUnit | loweredContract => repeat first | decide | constructor

/-! ## Accepted values are not excluded -/

theorem KeepsFields.mem {fields : List (Text × Schema)} {members kept : List (Text × Json)}
    (each : KeepsFields fields members kept) {name : Text} {field : Schema}
    (declared : (name, field) ∈ fields) : ∃ value, Keeps field (Json.find? name members) value := by
  induction fields generalizing kept with
  | nil => contradiction
  | cons head rest ih =>
    rcases List.mem_cons.mp declared with rfl | later
    · exact each.head
    · cases each with
      | absent _ each => exact ih each later
      | present _ each => exact ih each later

theorem excludesAll_eq_false {options : List Schema} {option : Schema} {value : Option Json}
    (listed : option ∈ options) (included : option.excludes value = false) :
    excludesAll options value = false := by
  induction options with
  | nil => contradiction
  | cons first rest ih =>
    rw [excludesAll]
    rcases List.mem_cons.mp listed with rfl | later
    · rw [included, Bool.false_and]
    · rw [ih later, Bool.and_false]

theorem excludes_object_eq_false {fields : List (Text × Schema)} {members kept : List (Text × Json)}
    (each : KeepsFields fields members kept) :
    (Schema.object fields).excludes (some (.object members)) = false := by
  rw [excludes, List.any_eq_false]
  rintro ⟨name, field⟩ declared
  obtain ⟨_, keeps⟩ := each.mem declared
  cases field with
  | literal text => simp [keeps.literal_eq, Json.text?]
  | _ => exact Bool.false_ne_true

theorem excludes_union (options : List Schema) (value : Option Json) :
    (Schema.union options).excludes value = excludesAll options value := by
  rw [excludes]

theorem excludes_node (type : NodeType) (value : Option Json) :
    (Schema.node type).excludes value = type.schema.excludes value := by
  rw [excludes]

theorem excludes_deferred (type : NodeType) (value : Option Json) :
    (Schema.deferred type).excludes value = type.schema.excludes value := by
  rw [excludes]

theorem Keeps.included {schema : Schema} {value kept : Option Json} (keeps : Keeps schema value kept) :
    schema.excludes value = false :=
  match keeps with
  | .object each => excludes_object_eq_false each
  | .union listed inner => (excludes_union _ _).trans (excludesAll_eq_false listed inner.included)
  | .node inner => (excludes_node _ _).trans inner.included
  | .deferred inner => (excludes_deferred _ _).trans inner.included
  | .string _ | .boolean | .offset _ _ _ | .literal | .oneOf _ | .array _ _ | .null | .absent
  | .optional _ | .nullable _ => by
    unfold excludes
    rfl

/-! ## What is kept is what the check yields -/

theorem of_mem_examineOptions {options : List Schema} {value : Option Json} {outcome : Outcome}
    (tried : outcome ∈ examineOptions options value) : ∃ option ∈ options, outcome = examine option value := by
  induction options with
  | nil =>
    rw [examineOptions] at tried
    contradiction
  | cons first rest ih =>
    have later : outcome ∈ examineOptions rest value → ∃ option ∈ first :: rest, outcome = examine option value := by
      intro tried
      obtain ⟨option, listed, same⟩ := ih tried
      exact ⟨option, List.mem_cons_of_mem _ listed, same⟩
    rw [examineOptions] at tried
    split at tried
    · exact later tried
    · rcases List.mem_cons.mp tried with same | tried
      · exact ⟨first, List.mem_cons_self, same⟩
      · exact later tried

theorem mem_examineOptions {options : List Schema} {option : Schema} {value : Option Json}
    (listed : option ∈ options) (included : option.excludes value = false) :
    examine option value ∈ examineOptions options value := by
  induction options with
  | nil => contradiction
  | cons first rest ih =>
    rw [examineOptions]
    rcases List.mem_cons.mp listed with rfl | later
    · rw [if_neg (Bool.eq_false_iff.mp included)]
      exact List.mem_cons_self
    · split
      · exact ih later
      · exact List.mem_cons_of_mem _ (ih later)

/-- The option that accepts the value is the only one, so it is the one that is chosen. -/
theorem choose_of_keeps {options : List Schema} {option : Schema} {value kept : Option Json}
    (apart : ∃ kinds, TaggedEach options kinds ∧ kinds.Nodup) (listed : option ∈ options)
    (keeps : Keeps option value kept) (accepted : examine option value = .accept kept) :
    choose (examineOptions options value) = .accept kept := by
  obtain ⟨kinds, tagged, distinct⟩ := apart
  have tried := mem_examineOptions listed keeps.included
  have clean : (examine option value).isAccepted = true := by
    rw [accepted]
    rfl
  have some : ((examineOptions options value).find? Outcome.isAccepted).isSome = true :=
    List.find?_isSome.mpr ⟨_, tried, clean⟩
  obtain ⟨outcome, found⟩ := Option.isSome_iff_exists.mp some
  have chosen : choose (examineOptions options value) = outcome := by rw [choose, found]
  have spotless : outcome.isAccepted = true := List.find?_some found
  obtain ⟨other, mem, rfl⟩ := of_mem_examineOptions (List.mem_of_find?_eq_some found)
  have also := examine_keeps other value (List.isEmpty_iff.mp spotless)
  obtain rfl := tagged.unique distinct listed mem keeps also
  rw [chosen, accepted]

theorem Keeps.null_eq {schema : Schema} {value kept : Option Json} (keeps : Keeps schema value kept)
    (null : value = some .null) : kept = some .null :=
  match keeps with
  | .null => rfl
  | .union _ inner | .optional inner | .nullable inner | .node inner | .deferred inner => inner.null_eq null

theorem examine_offset {number : Rat} (whole : number.den = 1) (least : 0 ≤ number.num)
    (most : number.num ≤ largestOffset) :
    examine .offset (some (.number (.finite number))) = .accept (some (.number (.finite number))) := by
  have clean : offsetFaults number.num = [] := by
    have above : ¬ largestOffset < number.num := Int.not_lt.mpr most
    have negative : ¬ number.num < 0 := Int.not_lt.mpr least
    have below : ¬ number.num < -largestOffset := by
      rw [largestOffset]
      omega
    rw [offsetFaults, if_neg above, if_neg below, if_neg negative]
    rfl
  rw [examine, checkOffset, if_pos whole, clean]
  rfl

theorem examine_string {nonEmpty : Bool} {text : Text} (long : nonEmpty = true → text.isEmpty = false) :
    examine (.string nonEmpty) (some (.string text)) = .accept (some (.string text)) := by
  have clean : lengthFaults nonEmpty (some (.string text)) = [] :=
    lengthFaults_eq_nil_iff.mpr fun wanted => extent_string.mpr (long wanted)
  rw [examine, checkString, clean]
  rfl

theorem examine_array {item : Schema} {nonEmpty : Bool} {elements kept : List Json}
    (long : nonEmpty = true → elements.isEmpty = false)
    (each : examineElements item 0 elements = (kept, [])) :
    examine (.array item nonEmpty) (some (.array elements)) = .accept (some (.array kept)) := by
  have clean : lengthFaults nonEmpty (some (.array elements)) = [] :=
    lengthFaults_eq_nil_iff.mpr fun wanted => extent_array.mpr (long wanted)
  rw [examine, each, clean]
  rfl

mutual

theorem Keeps.examine_eq {schema : Schema} {value kept : Option Json} (keeps : Keeps schema value kept)
    (orderly : Orderly schema) : examine schema value = .accept kept :=
  match keeps with
  | .string long => examine_string long
  | .boolean => by
    rw [examine]
    rfl
  | .offset whole least most => examine_offset whole least most
  | .literal => by
    rw [examine, checkLiteral, if_pos rfl]
  | .oneOf declared => by
    rw [examine, checkOneOf, if_pos (List.contains_iff_mem.mpr declared)]
  | .array long each => examine_array long (KeepsElements.examine_eq each orderly 0)
  | .object each => by
    have whole := KeepsFields.examine_eq each orderly.2
    rw [examine, whole]
    rfl
  | .union listed inner => by
    rw [examine]
    exact choose_of_keeps orderly.1 listed inner (Keeps.examine_eq inner (orderly.2.mem listed))
  | .absent => by rw [examine]
  | .optional inner => by
    rw [examine]
    exact Keeps.examine_eq inner orderly
  | .null => by rw [examine]
  | .nullable inner => by
    have accepted := Keeps.examine_eq inner orderly
    match value with
    | none =>
      rw [examine]
      exact accepted
    | some .null =>
      rw [examine, inner.null_eq rfl]
    | some (.bool _) | some (.number _) | some (.string _) | some (.array _) | some (.object _) =>
      rw [examine]
      · exact accepted
      · exact nofun
  | .node inner => by
    rw [examine]
    exact Keeps.examine_eq inner (orderly_schema _)
  | .deferred inner => by
    rw [examine]
    exact Keeps.examine_eq inner (orderly_schema _)

theorem KeepsElements.examine_eq {item : Schema} {elements kept : List Json}
    (each : KeepsElements item elements kept) (orderly : Orderly item) (index : Nat) :
    examineElements item index elements = (kept, []) :=
  match each with
  | .nil => by rw [examineElements]
  | .cons first rest => by
    rw [examineElements, Keeps.examine_eq first orderly, KeepsElements.examine_eq rest orderly]
    rfl

theorem KeepsFields.examine_eq {fields : List (Text × Schema)} {members kept : List (Text × Json)}
    (each : KeepsFields fields members kept) (orderly : OrderlyFields fields) :
    examineFields fields members = (kept, []) :=
  match each with
  | .nil => by rw [examineFields]
  | .absent first rest => by
    rw [examineFields, Keeps.examine_eq first orderly.1, KeepsFields.examine_eq rest orderly.2]
    rfl
  | .present first rest => by
    rw [examineFields, Keeps.examine_eq first orderly.1, KeepsFields.examine_eq rest orderly.2]
    rfl

end

end ContractAsm.Schema
