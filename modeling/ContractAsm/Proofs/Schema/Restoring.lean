import ContractAsm.Proofs.Schema.Decoding
import ContractAsm.Proofs.Schema.Wholeness

/-!
# What is read restores the document

A document that a check yields has the declared members alone, in their order. So it is put
together again from what was read of it, as soon as every member is. Each way of reading a
member has a law here that says which member it was.
-/

namespace ContractAsm.Schema

/-! ## Documents from their members -/

theorem present_of_keepsFields {fields : List (Text × Schema)} {members kept : List (Text × Json)}
    (each : KeepsFields fields members kept) (distinct : (fields.map Prod.fst).Nodup) :
    present (fields.map fun declared => (declared.1, Json.find? declared.1 kept)) = kept := by
  induction fields generalizing kept with
  | nil =>
    cases each
    rfl
  | cons head rest ih =>
    obtain ⟨name, field⟩ := head
    rw [List.map_cons, List.nodup_cons] at distinct
    cases each with
    | absent _ each =>
      rw [List.map_cons, each.find?_undeclared distinct.1]
      exact ih each distinct.2
    | @present _ _ _ _ kept value _ each =>
      have others : rest.map (fun declared => (declared.1, Json.find? declared.1 ((name, value) :: kept)))
          = rest.map fun declared => (declared.1, Json.find? declared.1 kept) := by
        refine List.map_congr_left fun declared later => ?_
        have other : name ≠ declared.1 :=
          fun same => distinct.1 (List.mem_map.mpr ⟨declared, later, same.symm⟩)
        rw [Json.find?, if_neg other]
      rw [List.map_cons, others, Json.find?, if_pos rfl]
      exact congrArg ((name, value) :: ·) (ih each distinct.2)

def HasMember (document : Json) (declared : Text × Schema) (member : Text × Option Json) : Prop :=
  declared.1 = member.1 ∧ document.member? declared.1 = member.2

section

variable {document : Json} {fields : List (Text × Schema)} {members : List (Text × Option Json)}

theorem members_eq (each : List.Forall₂ (HasMember document) fields members) :
    members = fields.map fun declared => (declared.1, document.member? declared.1) := by
  induction each with
  | nil => rfl
  | cons first _ ih => rw [List.map_cons, ← ih, first.2, first.1]

theorem Fits.restored (fits : Fits (.object fields) (some document))
    (distinct : (fields.map Prod.fst).Nodup) (each : List.Forall₂ (HasMember document) fields members) :
    Json.ofPresent members = document := by
  rw [members_eq each]
  obtain ⟨_, keeps⟩ := fits
  cases keeps with
  | object inside => exact congrArg Json.object (present_of_keepsFields inside distinct)

/-- A node is put together again from its members and its location. -/
theorem Fits.restoredNode {type : NodeType} {kind : Text} {location : Option Location}
    (fits : Fits (.node type) (some document)) (shape : type.schema = NodeType.asmNode kind fields)
    (each : List.Forall₂ (HasMember document) fields members)
    (placed : document.member? "location" = location.map Location.toJson) :
    Asm.nodeDocument kind members location = document := by
  have distinct := distinct_schema shape
  have own := (fits.members shape).1.literal
  have inside := fits.node
  rw [shape] at inside
  refine inside.restored distinct (.cons ⟨rfl, own⟩ ?_)
  rw [List.concat_eq_append]
  exact List.rel_append each (.cons ⟨rfl, placed⟩ .nil)

end

/-! ## Reading members -/

section

variable {document : Json} {name : Text}

theorem restores_member {schema : Schema} (fits : Fits schema (document.member? name))
    (there : ∃ value, document.member? name = some value) :
    Decodes (document.member? name) fun value =>
      document.member? name = some value ∧ Fits schema (some value) := by
  obtain ⟨value, found⟩ := there
  exact ⟨value, found, found, found ▸ fits⟩

theorem restores_child {schema : Schema} (fits : Fits schema (document.member? name))
    (there : ∃ value, document.member? name = some value) :
    Decodes (document.child? name) fun child =>
      document.member? name = some child.1 ∧ Fits schema (some child.1) := by
  obtain ⟨value, found⟩ := there
  exact ⟨_, child?_eq found, found, found ▸ fits⟩

theorem restores_items {item : Schema} {nonEmpty : Bool}
    (fits : Fits (.array item nonEmpty) (document.member? name)) :
    Decodes (document.items? name) fun items =>
      document.member? name = some (.array items.1) ∧ ∀ element ∈ items.1, Fits item (some element) := by
  obtain ⟨elements, found, each⟩ := fits.array
  rw [Json.items?, child?_eq found]
  exact ⟨_, rfl, found, each⟩

theorem restores_text {nonEmpty : Bool} (fits : Fits (.string nonEmpty) (document.member? name)) :
    Decodes (document.textAt? name) fun text => document.member? name = some (.string text) := by
  obtain ⟨text, found⟩ := fits.string
  rw [Json.textAt?, found]
  exact .pure rfl

theorem restores_oneOf {texts : List Text} (fits : Fits (.oneOf texts) (document.member? name)) :
    Decodes (document.textAt? name) fun text =>
      document.member? name = some (.string text) ∧ text ∈ texts := by
  obtain ⟨text, declared, found⟩ := fits.oneOf
  rw [Json.textAt?, found]
  exact .pure ⟨rfl, declared⟩

theorem restores_name {κ : Type} {all : List κ} {nameOf : κ → Text} {text : Text}
    (declared : text ∈ all.map nameOf) :
    Decodes (all.find? fun kind => nameOf kind == text) fun kind => nameOf kind = text := by
  obtain ⟨kind, found, -⟩ := decodes_name declared
  have same := List.find?_some found
  exact ⟨kind, found, eq_of_beq same⟩

section

variable {α : Type} {decode : Json → Option α} {toJson : α → Json}

theorem restores_optional {inner : Schema} (fits : Fits (.optional inner) (document.member? name))
    (each : ∀ value, Fits inner (some value) → Decodes (decode value) fun read => toJson read = value) :
    Decodes (document.optionalAt? name decode) fun read => document.member? name = read.map toJson := by
  unfold Json.optionalAt?
  cases found : document.member? name with
  | none => exact .pure rfl
  | some value =>
    rw [found] at fits
    rcases fits.optional with missing | inside
    · contradiction
    · exact (each value inside).map fun read same => congrArg some same.symm

theorem restores_elements {documents : List Json}
    (each : ∀ document ∈ documents, Decodes (decode document) fun read => toJson read = document) :
    Decodes (documents.mapM decode) fun read => read.map toJson = documents := by
  induction documents with
  | nil => exact .pure rfl
  | cons document rest ih =>
    rw [List.forall_mem_cons] at each
    rw [List.mapM_cons]
    exact each.1.cons (ih each.2) fun _ _ first others => List.cons_eq_cons.mpr ⟨first, others⟩

theorem restores_list {item : Schema} {nonEmpty : Bool}
    (fits : Fits (.array item nonEmpty) (document.member? name))
    (each : ∀ element, Fits item (some element) → Decodes (decode element) fun read => toJson read = element) :
    Decodes (document.listAt? name decode) fun read =>
      document.member? name = some (.array (read.map toJson)) := by
  obtain ⟨elements, found, inside⟩ := fits.array
  rw [Json.listAt?, found]
  refine (restores_elements fun element listed => each element (inside element listed)).mono ?_
  exact fun read same => congrArg (some ∘ Json.array) same.symm

end

end

/-! ## Locations, literals and typed names -/

section

variable {document : Json}

theorem restores_textElement {nonEmpty : Bool} (fits : Fits (.string nonEmpty) (some document)) :
    Decodes (Json.text? document) fun text => Json.string text = document := by
  obtain ⟨text, ⟨⟩⟩ := fits.string
  exact .pure rfl

theorem restores_optionalText {name : Text} (fits : Fits (.optional .text) (document.member? name)) :
    Decodes (document.optionalAt? name Json.text?) fun text => document.member? name = text.map .string :=
  restores_optional fits fun _ inside => restores_textElement inside

theorem restores_location (fits : Fits (.node .sourceLocation) (some document)) :
    Decodes (Location.ofJson? document) fun location => location.toJson = document := by
  obtain ⟨start, stop, source, -⟩ := fits.members rfl
  obtain ⟨first, firstFound⟩ := start.offset
  obtain ⟨last, lastFound⟩ := stop.offset
  rw [Location.ofJson?, firstFound, lastFound]
  refine (restores_optionalText source).bind fun text named => .pure ?_
  exact fits.node.restored (by decide)
    (.cons ⟨rfl, firstFound⟩ (.cons ⟨rfl, lastFound⟩ (.cons ⟨rfl, named⟩ .nil)))

theorem restores_maybeLocation (fits : Fits NodeType.maybeLocation (document.member? "location")) :
    Decodes (document.optionalAt? "location" Location.ofJson?) fun location =>
      document.member? "location" = location.map Location.toJson :=
  restores_optional fits fun _ inside => restores_location inside

theorem restores_literal (fits : Fits (.node .asmLiteral) (some document)) :
    Decodes (Literal.ofJson? document) fun literal => literal.toJson = document := by
  obtain ⟨-, kind, value, typing, location, -⟩ := fits.members rfl
  refine (restores_oneOf kind).bind fun _ ⟨known, declared⟩ => ?_
  refine (restores_name declared).bind fun kind same => ?_
  refine (restores_text value).bind fun value written => ?_
  refine (restores_optionalText typing).bind fun type typed => ?_
  refine (restores_maybeLocation location).bind fun location placed => .pure ?_
  exact fits.restoredNode rfl
    (.cons ⟨rfl, same ▸ known⟩ (.cons ⟨rfl, written⟩ (.cons ⟨rfl, typed⟩ .nil))) placed

theorem restores_declared (fits : Fits NodeType.asmDeclared (some document)) :
    Decodes (TypedName.ofJson? document) fun declared => declared.toJson = document := by
  obtain ⟨name, typing, -⟩ := fits.object (by decide)
  refine (restores_text name).bind fun name named => ?_
  refine (restores_optionalText typing).bind fun type typed => .pure ?_
  exact fits.restored (by decide) (.cons ⟨rfl, named⟩ (.cons ⟨rfl, typed⟩ .nil))

end

end ContractAsm.Schema
