import ContractAsm.Schema.Nodes

/-!
# Published schemas

A schema is published as a document in the JSON Schema vocabulary. Node types become
definitions that are referred to by name; only those that the document type reaches are
listed. The two editions differ in where definitions stand and in whether a reference that
is optional or made ahead of its definition is wrapped.
-/

namespace ContractAsm.Schema

inductive Edition where
  | draft07
  | draft2020
deriving DecidableEq, Repr

namespace Edition

def url : Edition → Text
  | draft07 => "http://json-schema.org/draft-07/schema#"
  | draft2020 => "https://json-schema.org/draft/2020-12/schema"

def definitionsMember : Edition → Text
  | draft07 => "definitions"
  | draft2020 => "$defs"

def reference (edition : Edition) (type : NodeType) : Json :=
  .object [("$ref", .string ("#/" ++ edition.definitionsMember ++ "/" ++ type.name))]

/-- A reference that may stand for something absent or not yet defined. -/
def guardedReference (edition : Edition) (type : NodeType) : Json :=
  match edition with
  | draft07 => .object [("allOf", .array [edition.reference type])]
  | draft2020 => edition.reference type

end Edition

/-! ## Schemas -/

def typeMember (name : Text) : Text × Json := ("type", .string name)

def requiredNames (fields : List (Text × Schema)) : List Text :=
  (fields.filter fun field => !field.2.isOptional).map Prod.fst

def requiredMember (fields : List (Text × Schema)) : List (Text × Json) :=
  match requiredNames fields with
  | [] => []
  | names => [("required", .array (names.map .string))]

def membersOf : Json → List (Text × Json)
  | .object members => members
  | _ => []

mutual

def publishedMembers (edition : Edition) : Schema → List (Text × Json)
  | .string nonEmpty => typeMember "string" :: if nonEmpty then [("minLength", .nat 1)] else []
  | .boolean => [typeMember "boolean"]
  | .offset => [typeMember "integer", ("minimum", .nat 0), ("maximum", .nat 9007199254740991)]
  | .literal text => [typeMember "string", ("const", .string text)]
  | .oneOf texts => [typeMember "string", ("enum", .array (texts.map .string))]
  | .array item nonEmpty =>
      typeMember "array" :: ("items", .object (publishedMembers edition item))
        :: if nonEmpty then [("minItems", .nat 1)] else []
  | .object fields =>
      typeMember "object" :: ("properties", .object (publishedFields edition fields))
        :: (requiredMember fields).concat ("additionalProperties", .bool false)
  | .union options => [("anyOf", .array (publishedOptions edition options))]
  | .optional (.node type) => membersOf (edition.guardedReference type)
  | .optional inner => publishedMembers edition inner
  | .nullable inner =>
      [("anyOf", .array
        [.object (publishedMembers edition inner), .object [typeMember "null"]])]
  | .node type => membersOf (edition.reference type)
  | .deferred type => membersOf (edition.guardedReference type)

def publishedFields (edition : Edition) : List (Text × Schema) → List (Text × Json)
  | [] => []
  | (name, field) :: rest =>
      (name, .object (publishedMembers edition field)) :: publishedFields edition rest

def publishedOptions (edition : Edition) : List Schema → List Json
  | [] => []
  | option :: rest => .object (publishedMembers edition option) :: publishedOptions edition rest

end

def titleMembers (title : Text) (description : Option Text) : List (Text × Json) :=
  ("title", .string title) :: match description with
    | some description => [("description", .string description)]
    | none => []

def definition (edition : Edition) (type : NodeType) : Json :=
  .object (publishedMembers edition type.schema ++ titleMembers type.title type.description?)

/-! ## Definitions that a document type reaches -/

mutual

def mentions : Schema → List NodeType
  | .array item _ => mentions item
  | .object fields => mentionsOfFields fields
  | .union options => mentionsOfOptions options
  | .optional inner => mentions inner
  | .nullable inner => mentions inner
  | .node type => [type]
  | .deferred type => [type]
  | _ => []

def mentionsOfFields : List (Text × Schema) → List NodeType
  | [] => []
  | (_, field) :: rest => mentions field ++ mentionsOfFields rest

def mentionsOfOptions : List Schema → List NodeType
  | [] => []
  | option :: rest => mentions option ++ mentionsOfOptions rest

end

def widen (known : List NodeType) : List NodeType :=
  NodeType.all.filter fun type =>
    known.contains type || known.any fun other => (mentions other.schema).contains type

/-- The node types that a schema reaches. There are only so many of them, so as many steps
reach them all. -/
def reached (schema : Schema) : List NodeType :=
  NodeType.all.foldl (fun known _ => widen known) (mentions schema)

def definitions (edition : Edition) (type : DocumentType) : List (Text × Json) :=
  (reached type.schema).map fun node => (node.name, definition edition node)

def published (edition : Edition) (type : DocumentType) : List (Text × Json) :=
  ("$schema", .string edition.url)
    :: (publishedMembers edition type.schema ++ titleMembers type.title type.description).concat
      (edition.definitionsMember, .object (definitions edition type))

/-! ## Recognising a published schema -/

/-- Whether a document names a schema language and has the description of a document type. -/
def isPublished (type : DocumentType) (document : Json) : Bool :=
  (document.member? "$schema").isSome
    && document.textAt? "description" == some type.description

end ContractAsm.Schema
