import ContractAsm.Asm.Basic
import ContractAsm.Asm.Document
import ContractAsm.Asm.Legacy
import ContractAsm.Asm.Printer
import ContractAsm.CommandLine.Files
import ContractAsm.CommandLine.Options
import ContractAsm.CommandLine.Run
import ContractAsm.Error
import ContractAsm.Ir.Basic
import ContractAsm.Ir.Diagnostic
import ContractAsm.Ir.Document
import ContractAsm.Ir.Parser
import ContractAsm.Ir.Printer
import ContractAsm.Json.Basic
import ContractAsm.Json.Number
import ContractAsm.Json.Reader
import ContractAsm.Json.Shortest
import ContractAsm.Json.Writer
import ContractAsm.Keccak
import ContractAsm.Layout
import ContractAsm.Literal
import ContractAsm.Location
import ContractAsm.Lowering.Contract
import ContractAsm.Lowering.Dispatch
import ContractAsm.Lowering.Draft
import ContractAsm.Lowering.Failure
import ContractAsm.Lowering.Function
import ContractAsm.Lowering.Generator
import ContractAsm.Lowering.Listing
import ContractAsm.Lowering.Registry
import ContractAsm.Lowering.Session
import ContractAsm.Lowering.Snippet
import ContractAsm.Lowering.Trace
import ContractAsm.Main
import ContractAsm.Proofs.Asm.Inlining
import ContractAsm.Proofs.Asm.Obstacles
import ContractAsm.Proofs.Asm.PrintOrder
import ContractAsm.Proofs.Asm.Recognition
import ContractAsm.Proofs.Asm.Restoring
import ContractAsm.Proofs.Asm.Translation
import ContractAsm.Proofs.CommandLine.Arguments
import ContractAsm.Proofs.CommandLine.Outcomes
import ContractAsm.Proofs.Dispatch.Distinctness
import ContractAsm.Proofs.Dispatch.Execution
import ContractAsm.Proofs.Dispatch.Helpers
import ContractAsm.Proofs.Dispatch.Linkage
import ContractAsm.Proofs.Dispatch.Names
import ContractAsm.Proofs.Dispatch.Routing
import ContractAsm.Proofs.Dispatch.Selector
import ContractAsm.Proofs.Dispatch.Signatures
import ContractAsm.Proofs.Ir.Conformity
import ContractAsm.Proofs.Json.Alike
import ContractAsm.Proofs.Json.Paths
import ContractAsm.Proofs.Json.Reordering
import ContractAsm.Proofs.Lexical.Annotations
import ContractAsm.Proofs.Lexical.Decomposition
import ContractAsm.Proofs.Lexical.Pieces
import ContractAsm.Proofs.Lexical.Ranges
import ContractAsm.Proofs.Lexical.Scanning
import ContractAsm.Proofs.Lexical.Slices
import ContractAsm.Proofs.Lexical.Trivia
import ContractAsm.Proofs.Lowering.Caching
import ContractAsm.Proofs.Lowering.Conformity
import ContractAsm.Proofs.Lowering.Flattening
import ContractAsm.Proofs.Lowering.Histories
import ContractAsm.Proofs.Lowering.Independence
import ContractAsm.Proofs.Lowering.LegacyForms
import ContractAsm.Proofs.Lowering.Outcome
import ContractAsm.Proofs.Lowering.Printability
import ContractAsm.Proofs.Lowering.ReadBack
import ContractAsm.Proofs.Lowering.Registrations
import ContractAsm.Proofs.Lowering.Snippets
import ContractAsm.Proofs.Lowering.Violations
import ContractAsm.Proofs.Printing.Exchange
import ContractAsm.Proofs.Printing.RoundTrip
import ContractAsm.Proofs.Printing.Scanning
import ContractAsm.Proofs.Printing.Shapes
import ContractAsm.Proofs.Printing.Stability
import ContractAsm.Proofs.Schema.Breaking
import ContractAsm.Proofs.Schema.Comparison
import ContractAsm.Proofs.Schema.Decoding
import ContractAsm.Proofs.Schema.Exactness
import ContractAsm.Proofs.Schema.Keeping
import ContractAsm.Proofs.Schema.KeyOrder
import ContractAsm.Proofs.Schema.Nodes
import ContractAsm.Proofs.Schema.Restoring
import ContractAsm.Proofs.Schema.Undeclared
import ContractAsm.Proofs.Schema.Wholeness
import ContractAsm.Proofs.Source.Conformity
import ContractAsm.Proofs.Source.Leaves
import ContractAsm.Proofs.Source.Places
import ContractAsm.Proofs.Source.Recognition
import ContractAsm.Proofs.Syntax.Acceptance
import ContractAsm.Proofs.Syntax.Agreement
import ContractAsm.Proofs.Syntax.Completeness
import ContractAsm.Proofs.Syntax.Conformity
import ContractAsm.Proofs.Syntax.Cursor
import ContractAsm.Proofs.Syntax.Derivation
import ContractAsm.Proofs.Syntax.Diagnostics
import ContractAsm.Proofs.Syntax.Grammar
import ContractAsm.Proofs.Syntax.Indexed
import ContractAsm.Proofs.Syntax.Insertion
import ContractAsm.Proofs.Syntax.Lexemes
import ContractAsm.Proofs.Syntax.Nodes
import ContractAsm.Proofs.Syntax.Ranges
import ContractAsm.Proofs.Syntax.Readability
import ContractAsm.Proofs.Syntax.Refusal
import ContractAsm.Proofs.Syntax.Slices
import ContractAsm.Proofs.Syntax.Soundness
import ContractAsm.Proofs.Syntax.Spelling
import ContractAsm.Proofs.Syntax.Untyped
import ContractAsm.Proofs.Syntax.Warnings
import ContractAsm.Proofs.Validation.Acceptance
import ContractAsm.Proofs.Validation.Projection
import ContractAsm.Proofs.Validation.Ranges
import ContractAsm.Proofs.Validation.Reports
import ContractAsm.Proofs.Validation.Violations
import ContractAsm.Schema.Basic
import ContractAsm.Schema.Check
import ContractAsm.Schema.File
import ContractAsm.Schema.KeyOrder
import ContractAsm.Schema.Length
import ContractAsm.Schema.Nodes
import ContractAsm.Schema.Published
import ContractAsm.Signature
import ContractAsm.Source.Basic
import ContractAsm.Source.Document
import ContractAsm.Text.Basic
import ContractAsm.Text.CodeUnit
import ContractAsm.Text.Utf8
import ContractAsm.Token.Basic
import ContractAsm.Token.Scan
import ContractAsm.Validation.Document
import ContractAsm.Validation.Result
