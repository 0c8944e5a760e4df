import ContractAsm.Proofs.Syntax.Grammar

/-!
# How a reader moves

A reader takes the tokens at the front of a cursor and adds to its warnings. `Passes` is
that effect on the cursor, whatever the reader returns; the other lemmas say what a single
step of a reader does.
-/

namespace ContractAsm.Ir

open Grammar

/-- The token that comes next: the end mark if none is left. -/
def Cursor.next (cursor : Cursor) : Token := cursor.rest.headD cursor.final

/-- From one cursor to another some tokens are taken and some warnings are added. -/
structure Cursor.Passes (before : Cursor) (taken : List Token) (found : List Location)
    (after : Cursor) : Prop where
  rest : before.rest = taken ++ after.rest
  final : after.final = before.final
  last : after.last = stopAfter before.last taken
  warnings : after.warnings = before.warnings ++ found

namespace Cursor.Passes

theorem refl (cursor : Cursor) : cursor.Passes [] [] cursor :=
  ⟨rfl, rfl, rfl, (List.append_nil _).symm⟩

theorem trans {first second third : Cursor} {taken others : List Token}
    {found further : List Location} (h : first.Passes taken found second)
    (k : second.Passes others further third) :
    first.Passes (taken ++ others) (found ++ further) third where
  rest := by rw [h.rest, k.rest, List.append_assoc]
  final := k.final.trans h.final
  last := by rw [k.last, h.last, stopAfter_append]
  warnings := by rw [k.warnings, h.warnings, List.append_assoc]

theorem cons {first second third : Cursor} {token : Token} {others : List Token}
    {further : List Location} (h : first.Passes [token] [] second)
    (k : second.Passes others further third) : first.Passes (token :: others) further third :=
  h.trans k

theorem quiet {first second third : Cursor} {taken others : List Token}
    {further : List Location} (h : first.Passes taken [] second)
    (k : second.Passes others further third) : first.Passes (taken ++ others) further third :=
  h.trans k

theorem closed {before after : Cursor} {taken : List Token} {found : List Location}
    (h : before.Passes taken found after) (eof : before.final.lexeme = .eof) :
    after.final.lexeme = .eof := by
  rw [h.final, eof]

/-- The range that a reader records is the span of what it has taken. -/
theorem range {before after : Cursor} {first : Token} {rest : List Token} {found : List Location}
    (h : before.Passes (first :: rest) found after) (dialect : Dialect) :
    dialect.location first.start after.last = span dialect first rest := by
  rw [h.last]
  rfl

theorem warn {before after : Cursor} {taken : List Token} {found : List Location}
    (h : before.Passes taken found after) (location : Location) :
    before.Passes taken (found ++ [location])
      { after with warnings := after.warnings ++ [location] } where
  rest := h.rest
  final := h.final
  last := h.last
  warnings := by simp only [h.warnings, List.append_assoc]

end Cursor.Passes

namespace Parser

variable {α β : Type}

/-! ## Steps in a row -/

theorem bind_of_ok {reader : Parser α} {next : α → Parser β} {before after : Cursor} {value : α}
    (h : reader before = .ok value after) : (reader >>= next) before = next value after := by
  simp [bind, EStateM.bind, h]

theorem of_bind {reader : Parser α} {next : α → Parser β} {before after : Cursor} {value : β}
    (h : (reader >>= next) before = .ok value after) :
    ∃ first middle, reader before = .ok first middle ∧ next first middle = .ok value after := by
  simp only [bind, EStateM.bind] at h
  split at h
  · exact ⟨_, _, ‹_›, h⟩
  · cases h

theorem of_fail {fault : SyntaxFault} {token : Token} {before after : Cursor} {value : α}
    (h : (fail fault token : Parser α) before = .ok value after) : False := by
  cases h

/-! ## Steps that take nothing -/

theorem pure_apply (value : α) (cursor : Cursor) : (pure value : Parser α) cursor = .ok value cursor :=
  rfl

theorem peek_bind (next : Token → Parser β) (cursor : Cursor) :
    (peek >>= next) cursor = next cursor.next cursor := rfl

theorem peekSecond_bind (next : Token → Parser β) (cursor : Cursor) :
    (peekSecond >>= next) cursor = next (cursor.rest.tail.headD cursor.final) cursor := rfl

theorem isNextMark_bind (mark : Punctuation) (next : Bool → Parser β) (cursor : Cursor) :
    (isNextMark mark >>= next) cursor
      = next (decide (cursor.next.lexeme = .punctuation mark)) cursor := rfl

theorem rangeFrom_bind (dialect : Dialect) (start : Nat) (next : Location → Parser β)
    (cursor : Cursor) :
    (rangeFrom dialect start >>= next) cursor
      = next (dialect.location start cursor.last) cursor := rfl

theorem warn_bind (location : Location) (next : Unit → Parser β) (cursor : Cursor) :
    (warn location >>= next) cursor
      = next () { cursor with warnings := cursor.warnings ++ [location] } := rfl

/-! ## Taking a token -/

theorem take_bind (token : Token) (rest : List Token) (final : Token) (last : Nat)
    (warnings : List Location) (next : Token → Parser β) :
    (take >>= next) ⟨token :: rest, final, last, warnings⟩
      = next token ⟨rest, final, token.stop, warnings⟩ := rfl

theorem takeMark_bind {mark : Punctuation} {token : Token} (h : token.lexeme = .punctuation mark)
    (rest : List Token) (final : Token) (last : Nat) (warnings : List Location)
    (next : Token → Parser β) :
    (takeMark mark >>= next) ⟨token :: rest, final, last, warnings⟩
      = next token ⟨rest, final, token.stop, warnings⟩ := by
  apply bind_of_ok
  simp [takeMark, peek_bind, Cursor.next, h, take]

theorem takeName_bind {name : Text} {token : Token} (h : token.lexeme = .identifier name)
    (rest : List Token) (final : Token) (last : Nat) (warnings : List Location)
    (next : Text × Token → Parser β) :
    (takeName >>= next) ⟨token :: rest, final, last, warnings⟩
      = next (name, token) ⟨rest, final, token.stop, warnings⟩ := by
  apply bind_of_ok
  simp only [takeName, peek_bind, Cursor.next, List.headD_cons, h, take_bind, pure_apply]

theorem take_passes {before after : Cursor} {token : Token} (closed : before.final.lexeme = .eof)
    (inner : before.next.lexeme ≠ .eof) (h : take before = .ok token after) :
    token = before.next ∧ before.Passes [token] [] after := by
  obtain ⟨_ | ⟨first, rest⟩, final, last, warnings⟩ := before
  · exact absurd closed inner
  · cases h
    exact ⟨rfl, rfl, rfl, rfl, (List.append_nil _).symm⟩

theorem takeMark_passes {before after : Cursor} {mark : Punctuation} {token : Token}
    (closed : before.final.lexeme = .eof) (h : takeMark mark before = .ok token after) :
    token.lexeme = .punctuation mark ∧ before.Passes [token] [] after := by
  rw [takeMark, peek_bind] at h
  split at h
  case isTrue isMark =>
    obtain ⟨rfl, passed⟩ := take_passes closed (by simp [isMark]) h
    exact ⟨isMark, passed⟩
  case isFalse => exact (of_fail h).elim

theorem takeName_passes {before after : Cursor} {name : Text} {token : Token}
    (closed : before.final.lexeme = .eof) (h : takeName before = .ok (name, token) after) :
    token.lexeme = .identifier name ∧ before.Passes [token] [] after := by
  rw [takeName, peek_bind] at h
  cases ident : before.next.lexeme
  case identifier found =>
    simp only [ident] at h
    obtain ⟨first, middle, taken, h⟩ := of_bind h
    obtain ⟨rfl, passed⟩ := take_passes closed (by simp [ident]) taken
    cases h
    exact ⟨ident, passed⟩
  all_goals
    simp only [ident] at h
    exact (of_fail h).elim

end Parser

end ContractAsm.Ir
