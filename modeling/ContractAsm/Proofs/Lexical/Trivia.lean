import ContractAsm.Proofs.Lexical.Annotations

/-!
# Putting blanks and comments in

Blanks and closed comments may be put in where a lexeme starts or ends: the text is scanned to
the same lexemes, and the tokens that start there or later stand so many units further on.
-/

namespace ContractAsm

def Text.insert (text : Text) (place : Nat) (inserted : Text) : Text :=
  ⟨text.units.take place ++ (inserted.units ++ text.units.drop place)⟩

theorem Text.insert_eq {text : Text} {front back : List CodeUnit} (split : text.units = front ++ back)
    (inserted : Text) : text.insert front.length inserted = ⟨front ++ (inserted.units ++ back)⟩ := by
  rw [insert, split, List.take_left, List.drop_left]

namespace Token

open CodeUnit (slash equals)

/-! ## Tokens further on -/

/-- The token where it stands after a number of units were put in at an offset. -/
def pushed (place distance : Nat) (token : Token) : Token :=
  if place ≤ token.start then { token with start := token.start + distance, stop := token.stop + distance }
  else token

section

variable {place distance : Nat} {token : Token}

@[simp] theorem pushed_lexeme : (token.pushed place distance).lexeme = token.lexeme := by
  unfold pushed
  split <;> rfl

theorem pushed_behind (behind : place ≤ token.start) :
    token.pushed place distance = ⟨token.lexeme, token.start + distance, token.stop + distance⟩ :=
  if_pos behind

theorem pushed_before (before : token.start < place) : token.pushed place distance = token :=
  if_neg (Nat.not_le.mpr before)

end

theorem Splits.pushed {input : List CodeUnit} {pos place : Nat} {tokens : List Token}
    (splits : Splits input pos tokens) (behind : place ≤ pos) (distance : Nat) :
    Splits input (pos + distance) (tokens.map (Token.pushed place distance)) := by
  induction splits with
  | nothing trivia => exact .nothing trivia
  | @lexeme gap word after pos lexeme tokens trivia spelled ends tail ih =>
    have rest := ih (by omega)
    have start : pos + distance + gap.length = pos + gap.length + distance := by omega
    have stop : pos + distance + gap.length + word.length = pos + gap.length + word.length + distance := by omega
    have behind : place ≤ pos + gap.length := by omega
    rw [List.map_cons, pushed_behind behind, ← start, ← stop]
    rw [← stop] at rest
    exact .lexeme trivia spelled ends rest

/-! ## Lexemes in front of trivia -/

theorem IsGap.apart {gap : List CodeUnit} (trivia : IsGap false gap) :
    ∀ unit ∈ gap.head?, continuesWord unit = false ∧ unit ≠ equals := by
  cases trivia with
  | nil => exact fun unit member => nomatch member
  | @blank unit rest blank =>
    rintro _ ⟨⟩
    simp only [isBlank, Bool.or_eq_true, decide_eq_true_eq] at blank
    obtain ((rfl | rfl) | rfl) | rfl := blank <;> decide
  | line | block =>
    rintro _ ⟨⟩
    decide
  | lastLine => contradiction

/-- Whatever a lexeme ends in front of, it still does with blanks and comments put in. -/
theorem Ends.insert {lexeme : Lexeme} {front trivia back : List CodeUnit} (isTrivia : IsGap false trivia)
    (ends : Ends lexeme (front ++ back)) : Ends lexeme (front ++ (trivia ++ back)) := by
  cases front with
  | cons => exact ends.of_head rfl
  | nil =>
    cases trivia with
    | nil => exact ends
    | cons unit rest =>
      obtain ⟨noWord, noEquals⟩ := isTrivia.apart unit rfl
      exact ends_apart noWord noEquals

/-! ## Trivia between tokens -/

theorem Splits.keep {gap word front trivia back : List CodeUnit} {pos place : Nat} {lexeme : Lexeme}
    {tokens : List Token} (isTrivia : IsGap false trivia) (leading : IsGap false gap)
    (spelled : Spells lexeme word) (ends : Ends lexeme (front ++ back))
    (behind : pos + gap.length + word.length ≤ place)
    (tail : Splits (front ++ (trivia ++ back)) (pos + gap.length + word.length)
      (tokens.map (Token.pushed place trivia.length))) :
    Splits (gap ++ (word ++ (front ++ (trivia ++ back)))) pos
      ((⟨lexeme, pos + gap.length, pos + gap.length + word.length⟩ :: tokens).map
        (Token.pushed place trivia.length)) := by
  have some := List.length_pos_iff.mpr spelled.ne_nil
  have before : pos + gap.length < place := by omega
  rw [List.map_cons, pushed_before before]
  exact .lexeme leading spelled (ends.insert isTrivia) tail

/-- Units into which trivia are put where one of their tokens starts or ends. -/
theorem Splits.insert {input trivia : List CodeUnit} {pos place : Nat} {tokens : List Token} {token : Token}
    (isTrivia : IsGap false trivia) (splits : Splits input pos tokens) (member : token ∈ tokens)
    (border : place = token.start ∨ place = token.stop) :
    ∃ front back, input = front ++ back ∧ place = pos + front.length ∧
      Splits (front ++ (trivia ++ back)) pos (tokens.map (Token.pushed place trivia.length)) := by
  induction splits with
  | nothing => contradiction
  | @lexeme gap word after pos lexeme tokens leading spelled ends tail ih =>
    obtain rfl | later := List.mem_cons.mp member
    · obtain rfl | rfl := border
      · -- in front of the first lexeme, where its gap ends
        have rest := tail.pushed (Nat.le_add_right (pos + gap.length) word.length) trivia.length
        refine ⟨gap, word ++ after, rfl, rfl, ?_⟩
        have start : pos + gap.length + trivia.length = pos + (gap ++ trivia).length := by
          rw [List.length_append]
          omega
        have stop : pos + gap.length + word.length + trivia.length = pos + (gap ++ trivia).length + word.length := by
          omega
        rw [List.map_cons, pushed_behind (Nat.le_refl _), ← List.append_assoc]
        simp only [start, stop] at rest ⊢
        exact .lexeme (leading.append isTrivia) spelled ends rest
      · -- behind the first lexeme, where the gap of the next one starts
        have rest : Splits (trivia ++ after) (pos + gap.length + word.length)
            (tokens.map (Token.pushed (pos + gap.length + word.length) trivia.length)) :=
          (tail.pushed (Nat.le_refl _) trivia.length).behind fun _ _ => isTrivia.append
        refine ⟨gap ++ word, after, by simp, by simp [Nat.add_assoc], ?_⟩
        rw [List.append_assoc]
        exact @Splits.keep gap word [] trivia after pos _ lexeme tokens isTrivia leading spelled ends
          (Nat.le_refl _) rest
    · obtain ⟨front, back, rfl, rfl, rest⟩ := ih later
      refine ⟨gap ++ (word ++ front), back, by simp, by simp [Nat.add_assoc], ?_⟩
      rw [List.append_assoc, List.append_assoc]
      exact .keep isTrivia leading spelled ends (Nat.le_add_right _ _) rest

variable {source trivia : Text} {place : Nat} {tokens : List Token} {token : Token}

/-- A text is scanned as before if trivia are put in where a lexeme starts or ends. -/
theorem scan_insert (scanned : scan source = .ok tokens) (member : token ∈ tokens)
    (border : place = token.start ∨ place = token.stop) (isTrivia : IsGap false trivia.units) :
    place ≤ source.length ∧
      scan (source.insert place trivia) = .ok (tokens.map (Token.pushed place trivia.length)) := by
  obtain ⟨front, back, split, rfl, splits⟩ := (scan_iff.mp scanned).insert isTrivia member border
  have inside : front.length ≤ source.length := by
    rw [Text.length, split, List.length_append]
    exact Nat.le_add_right _ _
  rw [Nat.zero_add] at splits ⊢
  rw [Text.insert_eq split]
  exact ⟨inside, scan_iff.mpr splits⟩

theorem ofText_eq_ok_iff :
    ofText source = .ok tokens ↔ ∃ lexemes, scan source = .ok lexemes ∧ lexemes ++ [atEnd source] = tokens := by
  rw [ofText]
  cases scan source with
  | error => exact ⟨nofun, nofun⟩
  | ok lexemes =>
    constructor
    · rintro ⟨⟩
      exact ⟨lexemes, rfl, rfl⟩
    · rintro ⟨_, ⟨⟩, rfl⟩
      rfl

theorem atEnd_insert (inside : place ≤ source.length) :
    atEnd (source.insert place trivia) = (atEnd source).pushed place trivia.length := by
  have length : (source.insert place trivia).length = source.length + trivia.length := by
    simp only [Text.insert, Text.length, List.length_append, List.length_take, List.length_drop] at inside ⊢
    omega
  rw [pushed_behind inside, atEnd, length]
  rfl

theorem ofText_insert (read : ofText source = .ok tokens) (member : token ∈ tokens)
    (noEnd : token.lexeme ≠ .eof) (border : place = token.start ∨ place = token.stop)
    (isTrivia : IsGap false trivia.units) :
    ofText (source.insert place trivia) = .ok (tokens.map (Token.pushed place trivia.length)) := by
  obtain ⟨lexemes, scanned, rfl⟩ := ofText_eq_ok_iff.mp read
  obtain member | last := List.mem_append.mp member
  · obtain ⟨inside, others⟩ := scan_insert scanned member border isTrivia
    rw [ofText, others, List.map_append, List.map_singleton, ← atEnd_insert inside]
    rfl
  · obtain rfl := List.mem_singleton.mp last
    exact absurd rfl noEnd

end Token

end ContractAsm
