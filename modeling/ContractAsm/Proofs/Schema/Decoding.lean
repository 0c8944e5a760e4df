import ContractAsm.Proofs.Schema.Keeping

/-!
# Decoding what was kept

A reader that asks for the declared members of a document that fits a schema finds them
all. Each way of reading a member has one law here, and readers are put together with
`Decodes.bind`.
-/

namespace ContractAsm.Schema

/-- Reading succeeds, and the value read is as wanted. -/
def Decodes {α : Type} (result : Option α) (wanted : α → Prop) : Prop :=
  ∃ value, result = some value ∧ wanted value

namespace Decodes

variable {α β : Type} {result : Option α} {wanted inner : α → Prop}

theorem pure {value : α} (held : wanted value) : Decodes (pure value) wanted := ⟨value, rfl, held⟩

theorem bind {next : α → Option β} {outer : β → Prop} (first : Decodes result inner)
    (rest : ∀ value, inner value → Decodes (next value) outer) : Decodes (result >>= next) outer := by
  obtain ⟨value, rfl, held⟩ := first
  exact rest value held

theorem map {f : α → β} {outer : β → Prop} (first : Decodes result inner)
    (rest : ∀ value, inner value → outer (f value)) : Decodes (result.map f) outer := by
  obtain ⟨value, rfl, held⟩ := first
  exact ⟨f value, rfl, rest value held⟩

theorem mono (first : Decodes result inner) (weaker : ∀ value, inner value → wanted value) :
    Decodes result wanted := by
  obtain ⟨value, read, held⟩ := first
  exact ⟨value, read, weaker value held⟩

/-- Elements that are read one after the other, as a list that is read as one. -/
theorem cons {rest : Option (List α)} {each all : List α → Prop} (first : Decodes result inner)
    (others : Decodes rest each) (both : ∀ value values, inner value → each values → all (value :: values)) :
    Decodes (do return (← result) :: (← rest)) all :=
  first.bind fun value held => others.bind fun values more => .pure (both value values held more)

theorem mapM {decode : Json → Option α} {documents : List Json}
    (each : ∀ document ∈ documents, Decodes (decode document) wanted) :
    Decodes (documents.mapM decode) fun values => ∀ value ∈ values, wanted value := by
  induction documents with
  | nil => exact pure fun _ mem => absurd mem List.not_mem_nil
  | cons document rest ih =>
    rw [List.mapM_cons]
    have first := each document List.mem_cons_self
    have others := ih fun other mem => each other (List.mem_cons_of_mem _ mem)
    apply cons first others
    intro value values held all other mem
    rcases List.mem_cons.mp mem with rfl | later
    · exact held
    · exact all other later

end Decodes

/-! ## Reading members -/

section

variable {document : Json} {name : Text}

theorem kind?_eq {text : String} (found : document.member? "kind" = some (.string text)) :
    document.kind? = some text := by
  rw [Json.kind?, Json.textAt?, found]
  exact congrArg some (Text.toString_ofString text)

theorem Fits.kind {text : String} (fits : Fits (.literal text) (document.member? "kind")) :
    document.kind? = some text := kind?_eq fits.literal

theorem child?_eq {value : Json} (found : document.member? name = some value) :
    document.child? name = some ⟨value, Json.sizeOf_member? found⟩ := by
  unfold Json.child?
  split
  · rename_i other same
    cases found.symm.trans same
    rfl
  · rename_i missing
    cases found.symm.trans missing

theorem decodes_member {schema : Schema} (fits : Fits schema (document.member? name))
    (there : ∃ value, document.member? name = some value) :
    Decodes (document.member? name) fun value => Fits schema (some value) := by
  obtain ⟨value, found⟩ := there
  rw [found] at fits ⊢
  exact .pure fits

theorem decodes_child {schema : Schema} (fits : Fits schema (document.member? name))
    (there : ∃ value, document.member? name = some value) :
    Decodes (document.child? name) fun child => Fits schema (some child.1) := by
  obtain ⟨value, found⟩ := there
  rw [found] at fits
  exact ⟨_, child?_eq found, fits⟩

theorem decodes_text {nonEmpty : Bool} (fits : Fits (.string nonEmpty) (document.member? name)) :
    Decodes (document.textAt? name) fun _ => True := by
  obtain ⟨text, found⟩ := fits.string
  rw [Json.textAt?, found]
  exact .pure trivial

theorem decodes_oneOf {texts : List Text} (fits : Fits (.oneOf texts) (document.member? name)) :
    Decodes (document.textAt? name) fun text => text ∈ texts := by
  obtain ⟨text, declared, found⟩ := fits.oneOf
  rw [Json.textAt?, found]
  exact .pure declared

theorem decodes_name {κ : Type} {all : List κ} {nameOf : κ → Text} {text : Text}
    (declared : text ∈ all.map nameOf) :
    Decodes (all.find? fun kind => nameOf kind == text) fun _ => True := by
  obtain ⟨kind, listed, rfl⟩ := List.mem_map.mp declared
  have found : (all.find? fun other => nameOf other == nameOf kind).isSome = true :=
    List.find?_isSome.mpr ⟨kind, listed, beq_self_eq_true _⟩
  obtain ⟨first, same⟩ := Option.isSome_iff_exists.mp found
  exact ⟨first, same, trivial⟩

theorem decodes_optional {α : Type} {inner : Schema} {decode : Json → Option α} {wanted : α → Prop}
    (fits : Fits (.optional inner) (document.member? name))
    (each : ∀ value, Fits inner (some value) → Decodes (decode value) wanted) :
    Decodes (document.optionalAt? name decode) fun found => ∀ value ∈ found, wanted value := by
  unfold Json.optionalAt?
  cases found : document.member? name with
  | none => exact .pure fun _ absent => nomatch absent
  | some value =>
    rw [found] at fits
    rcases fits.optional with missing | inside
    · contradiction
    · refine (each value inside).map fun read held other same => ?_
      cases same
      exact held

theorem decodes_list {α : Type} {item : Schema} {nonEmpty : Bool} {decode : Json → Option α}
    {wanted : α → Prop} (fits : Fits (.array item nonEmpty) (document.member? name))
    (each : ∀ element, Fits item (some element) → Decodes (decode element) wanted) :
    Decodes (document.listAt? name decode) fun values => ∀ value ∈ values, wanted value := by
  obtain ⟨elements, found, inside⟩ := fits.array
  rw [Json.listAt?, found]
  exact .mapM fun element mem => each element (inside element mem)

theorem decodes_items {item : Schema} {nonEmpty : Bool}
    (fits : Fits (.array item nonEmpty) (document.member? name)) :
    Decodes (document.items? name) fun items => ∀ element ∈ items.1, Fits item (some element) := by
  obtain ⟨elements, found, each⟩ := fits.array
  rw [Json.items?, child?_eq found]
  exact ⟨_, rfl, each⟩

end

/-! ## Locations, literals and typed names -/

section

variable {document : Json}

theorem decodes_textElement {nonEmpty : Bool} (fits : Fits (.string nonEmpty) (some document)) :
    Decodes (Json.text? document) fun _ => True := by
  obtain ⟨text, ⟨⟩⟩ := fits.string
  exact .pure trivial

theorem decodes_optionalText {name : Text} (fits : Fits (.optional .text) (document.member? name)) :
    Decodes (document.optionalAt? name Json.text?) fun _ => True :=
  (decodes_optional fits fun _ inside => decodes_textElement inside).mono fun _ _ => trivial

theorem decodes_location (fits : Fits (.node .sourceLocation) (some document)) :
    Decodes (Location.ofJson? document) fun _ => True := by
  obtain ⟨start, stop, source, -⟩ := fits.members rfl
  obtain ⟨first, firstFound⟩ := start.offset
  obtain ⟨last, lastFound⟩ := stop.offset
  rw [Location.ofJson?, firstFound, lastFound]
  exact (decodes_optionalText source).bind fun _ _ => .pure trivial

theorem decodes_maybeLocation (fits : Fits NodeType.maybeLocation (document.member? "location")) :
    Decodes (document.optionalAt? "location" Location.ofJson?) fun _ => True :=
  (decodes_optional fits fun _ inside => decodes_location inside).mono fun _ _ => trivial

theorem decodes_literal (fits : Fits (.node .asmLiteral) (some document)) :
    Decodes (Literal.ofJson? document) fun _ => True := by
  obtain ⟨-, kind, value, typing, location, -⟩ := fits.members rfl
  refine (decodes_oneOf kind).bind fun _ declared => (decodes_name declared).bind fun _ _ => ?_
  refine (decodes_text value).bind fun _ _ => (decodes_optionalText typing).bind fun _ _ => ?_
  exact (decodes_maybeLocation location).bind fun _ _ => .pure trivial

theorem decodes_declared (fits : Fits NodeType.asmDeclared (some document)) :
    Decodes (TypedName.ofJson? document) fun _ => True := by
  obtain ⟨name, typing, -⟩ := fits.object (by decide)
  refine (decodes_text name).bind fun _ _ => (decodes_optionalText typing).bind fun _ _ => ?_
  exact .pure trivial

end

end ContractAsm.Schema
