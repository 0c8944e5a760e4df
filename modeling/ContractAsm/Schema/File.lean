import ContractAsm.Json.Writer
import ContractAsm.Schema.KeyOrder
import ContractAsm.Schema.Published

/-!
# Schema files

The two schemas as files of the newer edition, with an identity and ordered keys.
-/

namespace ContractAsm.Schema

structure File where
  name : Text
  type : DocumentType

namespace File

def all : List File :=
  [⟨"source-unit.schema.json", .sourceUnit⟩, ⟨"contract-ir.schema.json", .loweredContract⟩]

def ofName? (name : Text) : Option File := all.find? fun file => file.name == name

def document (file : File) : Json :=
  orderKeys (.object (("$id", .string file.name) :: published .draft2020 file.type))

def text (file : File) : Text := Json.pretty file.document ++ "\n"

def notice (file : File) : Text := "Generated " ++ file.name

end File

end ContractAsm.Schema
