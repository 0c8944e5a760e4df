import ContractAsm.Proofs.Lexical.Decomposition

/-!
# Scanning finds the decomposition

A text that splits into tokens is scanned to exactly these, and whatever is scanned is such
a decomposition of the text. The bound on the number of steps plays no part.
-/

namespace ContractAsm.Token

open CodeUnit (quote newline backslash slash asterisk equals zero lowerX)

/-! ## Blanks and comments -/

theorem skipGap_lineOpened (rest : List CodeUnit) (pos : Nat) :
    skipGap .between (slash :: slash :: rest) pos = skipGap .line rest (pos + 2) := by
  rfl

theorem skipGap_blockOpened (rest : List CodeUnit) (pos : Nat) :
    skipGap .between (slash :: asterisk :: rest) pos = skipGap (.block pos) rest (pos + 2) := by
  rfl

theorem skipGap_line {comment : List CodeUnit} (inside : newline ∉ comment) (rest : List CodeUnit)
    (pos : Nat) :
    skipGap .line (comment ++ newline :: rest) pos
      = skipGap .between rest (pos + comment.length + 1) := by
  induction comment generalizing pos with
  | nil => rfl
  | cons unit comment ih =>
    simp only [List.mem_cons, not_or] at inside
    rw [List.cons_append, skipGap, ih inside.2, List.length_cons]
    · congr 1; omega
    · exact fun h => inside.1 h.symm

theorem skipGap_line_end {comment : List CodeUnit} (inside : newline ∉ comment) (pos : Nat) :
    skipGap .line comment pos = .ok ([], pos + comment.length) := by
  induction comment generalizing pos with
  | nil => rfl
  | cons unit comment ih =>
    simp only [List.mem_cons, not_or] at inside
    rw [skipGap, ih inside.2, List.length_cons]
    · congr 2; omega
    · exact fun h => inside.1 h.symm

theorem Uncommented.tail {unit : CodeUnit} {comment : List CodeUnit}
    (h : Uncommented (unit :: comment)) : Uncommented comment :=
  fun before after split => h (unit :: before) after (by simp [split])

theorem skipGap_block {comment : List CodeUnit} (inside : Uncommented comment) (opened : Nat)
    (rest : List CodeUnit) (pos : Nat) :
    skipGap (.block opened) (comment ++ asterisk :: slash :: rest) pos
      = skipGap .between rest (pos + comment.length + 2) := by
  induction comment generalizing pos with
  | nil => rfl
  | cons unit comment ih =>
    have notClosed : ∀ others, unit = asterisk → comment ++ asterisk :: slash :: rest ≠ slash :: others := by
      rintro others rfl split
      cases comment with
      | nil => cases split
      | cons second comment =>
        obtain ⟨rfl, -⟩ := List.cons.inj split
        exact inside [] (comment ++ [asterisk]) (by simp)
    rw [List.cons_append, skipGap, ih inside.tail, List.length_cons]
    · congr 1; omega
    · intro others h split
      exact notClosed others h split

theorem skipGap_gap {gap : List CodeUnit} (closed : IsGap false gap) (rest : List CodeUnit) (pos : Nat) :
    skipGap .between (gap ++ rest) pos = skipGap .between rest (pos + gap.length) := by
  induction closed generalizing pos with
  | nil => rfl
  | @blank unit gap blank tail ih =>
    have noSlash : unit ≠ slash := by
      rintro rfl
      exact absurd blank (by decide)
    rw [List.cons_append, skipGap, if_pos blank, ih, List.length_cons]
    · congr 1; omega
    · exact fun _ h => (noSlash h).elim
    · exact fun _ h => (noSlash h).elim
  | @line comment gap inside tail ih =>
    simp only [List.cons_append, List.append_assoc]
    rw [skipGap_lineOpened, skipGap_line inside, ih]
    simp only [List.length_cons, List.length_append]
    congr 1; omega
  | @block comment gap inside tail ih =>
    simp only [List.cons_append, List.append_assoc]
    rw [skipGap_blockOpened, skipGap_block inside, ih]
    simp only [List.length_cons, List.length_append]
    congr 1; omega
  | lastLine atEnd => cases atEnd

theorem skipGap_lastGap {gap : List CodeUnit} (ended : IsGap true gap) (pos : Nat) :
    skipGap .between gap pos = .ok ([], pos + gap.length) := by
  induction ended generalizing pos with
  | nil => rfl
  | @blank unit gap blank tail ih =>
    have closed := skipGap_gap (.blank blank .nil) gap pos
    rw [List.singleton_append] at closed
    rw [closed, ih, List.length_singleton, List.length_cons, Nat.add_assoc, Nat.add_comm 1]
  | @line comment gap inside tail ih =>
    rw [skipGap_lineOpened, skipGap_line inside, ih]
    simp only [List.length_cons, List.length_append]
    congr 2; omega
  | @block comment gap inside tail ih =>
    rw [skipGap_blockOpened, skipGap_block inside, ih]
    simp only [List.length_cons, List.length_append]
    congr 2; omega
  | @lastLine comment _ inside =>
    rw [skipGap_lineOpened, skipGap_line_end inside]
    simp only [List.length_cons]
    congr 2; omega

/-! ## Lexemes -/

theorem takeWhile_eq {p : CodeUnit → Bool} {word after : List CodeUnit} (all : ∀ unit ∈ word, p unit = true)
    (stop : ∀ unit ∈ after.head?, p unit = false) : (word ++ after).takeWhile p = word := by
  rw [List.takeWhile_append_of_pos all]
  cases after with
  | nil => simp
  | cons unit rest => simp [stop unit rfl]

theorem dropWhile_eq {p : CodeUnit → Bool} {word after : List CodeUnit} (all : ∀ unit ∈ word, p unit = true)
    (stop : ∀ unit ∈ after.head?, p unit = false) : (word ++ after).dropWhile p = after := by
  rw [List.dropWhile_append_of_pos all]
  cases after with
  | nil => simp
  | cons unit rest => simp [stop unit rfl]

theorem continuesWord_of_starts {unit : CodeUnit} (h : startsWord unit = true) :
    continuesWord unit = true := (continuesWord_iff unit).mpr (.inl h)

theorem continuesWord_of_isDigit {unit : CodeUnit} (h : unit.isDigit = true) :
    continuesWord unit = true := (continuesWord_iff unit).mpr (.inr (.inl h))

theorem continuesWord_of_isHexDigit {unit : CodeUnit} (h : unit.isHexDigit = true) :
    continuesWord unit = true := by
  rw [continuesWord_iff, startsWord_iff, isDigit_iff]
  rw [isHexDigit_iff] at h
  omega

theorem EndsWord.number {after : List CodeUnit} (ends : EndsWord after) : EndsNumber after := by
  intro unit first continues
  rw [ends unit first] at continues
  cases continues

theorem EndsNumber.stops {after : List CodeUnit} (ends : EndsNumber after) {p : CodeUnit → Bool}
    (continues : ∀ unit, p unit = true → continuesWord unit = true) (noPoint : p CodeUnit.dot = false) :
    ∀ unit ∈ after.head?, p unit = false := by
  intro unit first
  by_cases h : p unit = true
  · obtain rfl := ends unit first (continues unit h)
    exact noPoint
  · exact Bool.eq_false_iff.mpr h

theorem takeLexeme_word {first : CodeUnit} {rest after : List CodeUnit} (starts : startsWord first = true)
    (continues : ∀ unit ∈ rest, continuesWord unit = true) (ends : EndsWord after) (pos : Nat) :
    takeLexeme first (rest ++ after) pos
      = .ok (⟨.ofWord ⟨first :: rest⟩, pos, pos + (first :: rest).length⟩, after) := by
  have all : ∀ unit ∈ first :: rest, continuesWord unit = true := by
    intro unit member
    rcases List.mem_cons.mp member with rfl | member
    · exact continuesWord_of_starts starts
    · exact continues unit member
  rw [takeLexeme, if_pos starts, takeWord, ← List.cons_append, takeWhile_eq all ends, dropWhile_eq all ends]

theorem endNumber_ends {after : List CodeUnit} (ends : EndsNumber after) (number : List CodeUnit)
    (pos : Nat) :
    endNumber number after pos = .ok (⟨.number ⟨number⟩, pos, pos + number.length⟩, after) := by
  cases after with
  | nil => rfl
  | cons unit rest =>
    have noPart : ¬ (continuesWord unit && unit != CodeUnit.dot) = true := by
      rw [Bool.and_eq_true, bne_iff_ne]
      rintro ⟨continues, noPoint⟩
      exact noPoint (ends unit rfl continues)
    rw [endNumber, if_neg noPart]

theorem takeNumber_decimal {digits after : List CodeUnit} (some : digits ≠ [])
    (decimal : ∀ unit ∈ digits, unit.isDigit = true) (ends : EndsNumber after) (pos : Nat) :
    takeNumber (digits ++ after) pos
      = .ok (⟨.number ⟨digits⟩, pos, pos + digits.length⟩, after) := by
  have stops := ends.stops (fun _ => continuesWord_of_isDigit) (by decide)
  -- A leading zero is not followed by the mark of a hexadecimal number.
  have noMark : ∀ rest, digits ++ after ≠ zero :: lowerX :: rest := by
    intro rest split
    match digits, after with
    | [], _ => exact some rfl
    | [_], [] => cases split
    | [_], unit :: _ =>
      obtain ⟨-, split⟩ := List.cons.inj split
      obtain ⟨rfl, -⟩ := List.cons.inj split
      exact absurd (ends lowerX rfl (by decide)) (by decide)
    | _ :: second :: _, _ =>
      obtain ⟨-, split⟩ := List.cons.inj split
      obtain ⟨rfl, -⟩ := List.cons.inj split
      exact absurd (decimal lowerX (by simp)) (by decide)
  rw [takeNumber]
  · rw [takeWhile_eq decimal stops, dropWhile_eq decimal stops, endNumber_ends ends]
  · exact noMark

theorem takeNumber_marked (digits : List CodeUnit) (pos : Nat) :
    takeNumber (zero :: lowerX :: digits) pos
      = match digits.takeWhile CodeUnit.isHexDigit with
        | [] => .error ⟨.hexWithoutDigits, pos, pos + 2⟩
        | hex => endNumber (zero :: lowerX :: hex) (digits.dropWhile CodeUnit.isHexDigit) pos := by
  rfl

theorem takeNumber_hexadecimal {digits after : List CodeUnit} (some : digits ≠ [])
    (hexadecimal : ∀ unit ∈ digits, unit.isHexDigit = true) (ends : EndsNumber after) (pos : Nat) :
    takeNumber (zero :: lowerX :: (digits ++ after)) pos
      = .ok (⟨.number ⟨zero :: lowerX :: digits⟩, pos, pos + (zero :: lowerX :: digits).length⟩, after) := by
  have stops := ends.stops (fun _ => continuesWord_of_isHexDigit) (by decide)
  obtain ⟨first, rest, rfl⟩ := List.exists_cons_of_ne_nil some
  rw [takeNumber_marked, takeWhile_eq hexadecimal stops, dropWhile_eq hexadecimal stops]
  exact endNumber_ends ends _ pos

theorem takeBody_pair (unit : CodeUnit) (rest : List CodeUnit) (pos : Nat) :
    takeBody (backslash :: unit :: rest) pos
      = (takeBody rest (pos + 2)).map fun (body, after) => (backslash :: unit :: body, after) := by
  rfl

theorem takeBody_unit {unit : CodeUnit} (noBackslash : unit ≠ backslash) (noNewline : unit ≠ newline)
    (noQuote : unit ≠ quote) (rest : List CodeUnit) (pos : Nat) :
    takeBody (unit :: rest) pos
      = (takeBody rest (pos + 1)).map fun (body, after) => (unit :: body, after) := by
  rw [takeBody, if_neg noNewline, if_neg noQuote]
  · rfl
  · exact fun h => (noBackslash h).elim
  · exact fun _ _ h => (noBackslash h).elim

theorem takeBody_body {body : List CodeUnit} (inside : IsBody body) (after : List CodeUnit) (pos : Nat) :
    takeBody (body ++ quote :: after) pos = .ok (body, after, pos + body.length + 1) := by
  induction inside generalizing pos with
  | nil => rfl
  | @pair unit rest tail ih =>
    simp only [List.cons_append]
    rw [takeBody_pair, ih]
    simp only [Except.map, List.length_cons]
    congr 3; omega
  | @unit unit rest noBackslash noNewline noQuote tail ih =>
    rw [List.cons_append, takeBody_unit noBackslash noNewline noQuote, ih]
    simp only [Except.map, List.length_cons]
    congr 3; omega

theorem takeMark?_mark (mark : Punctuation) {after : List CodeUnit} (ends : Ends (.punctuation mark) after) :
    takeMark? (mark.text.units ++ after) = some (mark, after) := by
  cases mark
  case colon =>
    cases after with
    | nil => rfl
    | cons unit rest =>
      have noEquals : unit ≠ equals := fun h => ends (by simp [h])
      show takeMark? (CodeUnit.colon :: unit :: rest) = _
      unfold takeMark?
      split <;> rename_i split
      case h_1 => exact (noEquals (List.cons.inj (List.cons.inj split).2).1).elim
      case h_8 => rw [(List.cons.inj split).2]
      case h_9 => exact (split _ rfl).elim
      all_goals exact absurd (List.cons.inj split).1 (by decide)
  all_goals rfl

theorem takeLexeme_mark {first : CodeUnit} {rest after : List CodeUnit} {mark : Punctuation}
    (noWord : ¬ startsWord first = true) (noDigit : ¬ first.isDigit = true) (noQuote : ¬ first = quote)
    (taken : takeMark? (first :: rest) = some (mark, after)) (pos : Nat) :
    takeLexeme first rest pos = .ok (⟨.punctuation mark, pos, pos + mark.text.length⟩, after) := by
  rw [takeLexeme, if_neg noWord, if_neg noDigit, if_neg noQuote, taken]

theorem ends_ofWord {word : Text} {after : List CodeUnit} : Ends (.ofWord word) after ↔ EndsWord after := by
  unfold Lexeme.ofWord
  split <;> rfl

/-- A spelled lexeme starts with a unit that ends blanks and comments, and it is taken. -/
theorem takeLexeme_spelled {lexeme : Lexeme} {word after : List CodeUnit}
    (spelled : Spells lexeme word) (ends : Ends lexeme after) :
    ∃ first rest, word = first :: rest ∧ isBlank first = false ∧ first ≠ slash ∧
      ∀ pos, takeLexeme first (rest ++ after) pos
        = .ok (⟨lexeme, pos, pos + word.length⟩, after) := by
  cases spelled with
  | @word first rest starts continues =>
    have class_ := (startsWord_iff first).mp starts
    refine ⟨first, rest, rfl, ?_, ?_, takeLexeme_word starts continues (ends_ofWord.mp ends)⟩
    · rw [Bool.eq_false_iff, Ne, isBlank_iff]
      omega
    · rintro rfl
      exact absurd starts (by decide)
  | @decimal _ some decimal =>
    obtain ⟨first, rest, rfl⟩ := List.exists_cons_of_ne_nil some
    have digit := decimal first (by simp)
    have class_ := (isDigit_iff first).mp digit
    refine ⟨first, rest, rfl, ?_, ?_, fun pos => ?_⟩
    · rw [Bool.eq_false_iff, Ne, isBlank_iff]
      omega
    · rintro rfl
      exact absurd digit (by decide)
    · have noWord : ¬ startsWord first = true := by
        rw [startsWord_iff]
        omega
      rw [takeLexeme, if_neg noWord, if_pos digit, ← List.cons_append]
      exact takeNumber_decimal some decimal ends pos
  | @hexadecimal digits some hexadecimal =>
    refine ⟨zero, lowerX :: digits, rfl, by decide, by decide, fun pos => ?_⟩
    rw [takeLexeme, if_neg (by decide), if_pos (by decide)]
    exact takeNumber_hexadecimal some hexadecimal ends pos
  | @string body inside =>
    refine ⟨quote, body ++ [quote], rfl, by decide, by decide, fun pos => ?_⟩
    rw [takeLexeme, if_neg (by decide), if_neg (by decide), if_pos rfl, takeString, List.append_assoc,
      List.singleton_append, takeBody_body inside]
    simp only [List.length_cons, List.length_append, List.length_nil]
    congr 3; omega
  | mark mark =>
    have taken := takeMark?_mark mark ends
    cases mark
    all_goals
      refine ⟨_, _, rfl, by decide, by decide, fun pos => ?_⟩
      exact takeLexeme_mark (by decide) (by decide) (by decide) taken pos

/-! ## Whole texts -/

theorem skipGap_stop {first : CodeUnit} (noBlank : isBlank first = false) (noSlash : first ≠ slash)
    (rest : List CodeUnit) (pos : Nat) :
    skipGap .between (first :: rest) pos = .ok (first :: rest, pos) := by
  rw [skipGap, noBlank]
  · rfl
  · exact fun _ h => (noSlash h).elim
  · exact fun _ h => (noSlash h).elim

/-- A text that splits into tokens is scanned to these. -/
theorem scanAll_complete {input : List CodeUnit} {pos : Nat} {tokens : List Token}
    (splits : Splits input pos tokens) {fuel : Nat} (enough : input.length < fuel) :
    scanAll fuel input pos = .ok tokens := by
  induction splits generalizing fuel with
  | nothing trivia =>
    obtain _ | fuel := fuel
    · omega
    rw [scanAll, skipGap_lastGap trivia]
    rfl
  | @lexeme gap word after pos lexeme tokens trivia spelled ends tail ih =>
    obtain _ | fuel := fuel
    · omega
    obtain ⟨first, rest, rfl, noBlank, noSlash, taken⟩ := takeLexeme_spelled spelled ends
    simp only [List.length_append, List.length_cons] at enough
    rw [scanAll, skipGap_gap trivia, List.cons_append, skipGap_stop noBlank noSlash]
    simp only [bind, Except.bind, taken]
    rw [ih (by omega)]
    rfl

/-! ## What is scanned is a decomposition -/

theorem IsGap.line_cons {last : Bool} {unit : CodeUnit} {gap : List CodeUnit} (inside : unit ≠ newline)
    (h : IsGap last (slash :: slash :: gap)) : IsGap last (slash :: slash :: unit :: gap) := by
  cases h with
  | blank blank _ => exact absurd blank (by decide)
  | @line comment rest noNewline tail =>
    exact @IsGap.line last (unit :: comment) rest (by simp [noNewline, inside.symm]) tail
  | lastLine atEnd noNewline => exact .lastLine atEnd (by simp [noNewline, inside.symm])

theorem IsGap.block_cons {last : Bool} {unit : CodeUnit} {gap : List CodeUnit}
    (inside : ∀ rest, unit = asterisk → gap ≠ slash :: rest)
    (h : IsGap last (slash :: asterisk :: gap)) : IsGap last (slash :: asterisk :: unit :: gap) := by
  cases h with
  | blank blank _ => exact absurd blank (by decide)
  | @block comment rest uncommented tail =>
    refine @IsGap.block last (unit :: comment) rest (fun before after split => ?_) tail
    cases before with
    | nil =>
      obtain ⟨opened, split⟩ := List.cons.inj split
      cases comment with
      | nil => exact absurd (List.cons.inj split).1 (by decide)
      | cons second comment =>
        obtain ⟨rfl, -⟩ := List.cons.inj split
        exact inside _ opened rfl
    | cons first before =>
      obtain ⟨-, split⟩ := List.cons.inj split
      exact uncommented before after split

def Gap.opening : Gap → List CodeUnit
  | .between => []
  | .line => [slash, slash]
  | .block _ => [slash, asterisk]

theorem skipGap_sound {state : Gap} {input rest : List CodeUnit} {pos stop : Nat}
    (h : skipGap state input pos = .ok (rest, stop)) :
    ∃ gap, input = gap ++ rest ∧ stop = pos + gap.length ∧ IsGap rest.isEmpty (state.opening ++ gap) := by
  fun_induction skipGap state input pos with
  | case1 input pos ih =>
    obtain ⟨gap, rfl, rfl, closed⟩ := ih h
    exact ⟨slash :: slash :: gap, rfl, by simp only [List.length_cons]; omega, closed⟩
  | case2 input pos ih =>
    obtain ⟨gap, rfl, rfl, closed⟩ := ih h
    exact ⟨slash :: asterisk :: gap, rfl, by simp only [List.length_cons]; omega, closed⟩
  | case3 unit input pos _ _ blank ih =>
    obtain ⟨gap, rfl, rfl, closed⟩ := ih h
    exact ⟨unit :: gap, rfl, by simp only [List.length_cons]; omega, .blank blank closed⟩
  | case4 unit input pos _ _ blank =>
    cases h
    exact ⟨[], rfl, rfl, .nil⟩
  | case5 input pos ih =>
    obtain ⟨gap, rfl, rfl, closed⟩ := ih h
    exact ⟨newline :: gap, rfl, by simp only [List.length_cons]; omega,
      @IsGap.line _ [] _ List.not_mem_nil closed⟩
  | case6 unit input pos inside ih =>
    obtain ⟨gap, rfl, rfl, closed⟩ := ih h
    exact ⟨unit :: gap, rfl, by simp only [List.length_cons]; omega, closed.line_cons inside⟩
  | case7 opened input pos ih =>
    obtain ⟨gap, rfl, rfl, closed⟩ := ih h
    refine ⟨asterisk :: slash :: gap, rfl, by simp only [List.length_cons]; omega,
      @IsGap.block _ [] _ (fun before after split => ?_) closed⟩
    cases before with
    | nil => cases split
    | cons first before => simp at split
  | case8 opened unit input pos inside ih =>
    obtain ⟨gap, rfl, rfl, closed⟩ := ih h
    refine ⟨unit :: gap, rfl, by simp only [List.length_cons]; omega, closed.block_cons ?_⟩
    rintro others rfl rfl
    exact inside _ rfl rfl
  | case9 => cases h
  | case10 pos =>
    cases h
    exact ⟨[], rfl, rfl, .nil⟩
  | case11 pos =>
    cases h
    exact ⟨[], rfl, rfl, .lastLine rfl List.not_mem_nil⟩

theorem takeWhile_all {p : CodeUnit → Bool} {input : List CodeUnit} :
    ∀ unit ∈ input.takeWhile p, p unit = true := List.all_eq_true.mp List.all_takeWhile

theorem dropWhile_head {p : CodeUnit → Bool} {input : List CodeUnit} :
    ∀ unit ∈ (input.dropWhile p).head?, p unit = false := by
  intro unit first
  have := List.head?_dropWhile_not p input
  rw [Option.mem_def.mp first] at this
  exact Bool.eq_false_iff.mpr (by simpa using this)

def Taken (input : List CodeUnit) (pos : Nat) (token : Token) (after : List CodeUnit) : Prop :=
  ∃ lexeme word, input = word ++ after ∧ Spells lexeme word ∧ Ends lexeme after ∧
    token = ⟨lexeme, pos, pos + word.length⟩

theorem takeWord_sound {first : CodeUnit} {rest : List CodeUnit} {pos : Nat} (starts : startsWord first = true) :
    Taken (first :: rest) pos (takeWord (first :: rest) pos).1 (takeWord (first :: rest) pos).2 := by
  have continues := continuesWord_of_starts starts
  have ends : EndsWord ((first :: rest).dropWhile continuesWord) := dropWhile_head
  refine ⟨_, _, List.takeWhile_append_dropWhile.symm, ?_, ends_ofWord.mpr ends, rfl⟩
  rw [List.takeWhile_cons_of_pos continues]
  exact .word starts takeWhile_all

theorem endNumber_sound {number rest after : List CodeUnit} {pos : Nat} {token : Token}
    (spelled : Spells (.number ⟨number⟩) number) (h : endNumber number rest pos = .ok (token, after)) :
    Taken (number ++ rest) pos token after := by
  cases rest with
  | nil =>
    cases h
    exact ⟨_, _, rfl, spelled, (fun _ first => nomatch first : EndsNumber []), rfl⟩
  | cons unit rest =>
    rw [endNumber] at h
    split at h
    case isTrue => cases h
    case isFalse noPart =>
      cases h
      have ends : EndsNumber (unit :: rest) := by
        rintro _ ⟨⟩ continues
        rw [continues, Bool.true_and, bne_iff_ne] at noPart
        exact Decidable.not_not.mp noPart
      exact ⟨_, _, rfl, spelled, ends, rfl⟩

theorem takeNumber_sound {first : CodeUnit} {rest after : List CodeUnit} {pos : Nat} {token : Token}
    (digit : first.isDigit = true) (h : takeNumber (first :: rest) pos = .ok (token, after)) :
    Taken (first :: rest) pos token after := by
  unfold takeNumber at h
  split at h
  case h_1 digits marked =>
    rw [marked]
    split at h
    case h_1 => cases h
    case h_2 some =>
      have taken := endNumber_sound (.hexadecimal (fun none => some none) takeWhile_all) h
      rwa [List.cons_append, List.cons_append, List.takeWhile_append_dropWhile] at taken
  case h_2 =>
    have some : (first :: rest).takeWhile CodeUnit.isDigit ≠ [] := by
      rw [List.takeWhile_cons_of_pos digit]
      exact List.cons_ne_nil _ _
    have taken := endNumber_sound (.decimal some takeWhile_all) h
    rwa [List.takeWhile_append_dropWhile] at taken

theorem takeBody_sound {input body after : List CodeUnit} {pos stop : Nat}
    (h : takeBody input pos = .ok (body, after, stop)) :
    IsBody body ∧ input = body ++ quote :: after ∧ stop = pos + body.length + 1 := by
  fun_induction takeBody input pos generalizing body with
  | case1 => cases h
  | case2 => cases h
  | case3 unit rest pos ih =>
    cases taken : takeBody rest (pos + 2) with
    | error => rw [taken] at h; cases h
    | ok result =>
      obtain ⟨inner, others, last⟩ := result
      rw [taken] at h
      cases h
      obtain ⟨inside, rfl, rfl⟩ := ih taken
      exact ⟨.pair inside, rfl, by simp only [List.length_cons]; omega⟩
  | case4 => cases h
  | case5 =>
    cases h
    exact ⟨.nil, rfl, rfl⟩
  | case6 unit rest pos noEnd noPair noNewline noQuote ih =>
    cases taken : takeBody rest (pos + 1) with
    | error => rw [taken] at h; cases h
    | ok result =>
      obtain ⟨inner, others, last⟩ := result
      rw [taken] at h
      cases h
      obtain ⟨inside, rfl, rfl⟩ := ih taken
      have noBackslash : unit ≠ backslash := by
        rintro rfl
        cases inner with
        | nil => exact noPair _ _ rfl rfl
        | cons => exact noPair _ _ rfl rfl
      exact ⟨.unit noBackslash noNewline noQuote inside, rfl, by simp only [List.length_cons]; omega⟩

theorem takeString_sound {rest after : List CodeUnit} {pos : Nat} {token : Token}
    (h : takeString rest pos = .ok (token, after)) : Taken (quote :: rest) pos token after := by
  rw [takeString] at h
  cases taken : takeBody rest (pos + 1) with
  | error => rw [taken] at h; cases h
  | ok result =>
    obtain ⟨body, others, stop⟩ := result
    rw [taken] at h
    cases h
    obtain ⟨inside, rfl, rfl⟩ := takeBody_sound taken
    refine ⟨_, _, by simp, .string inside, trivial, ?_⟩
    simp only [List.length_cons, List.length_append, List.length_nil]
    congr 1
    omega

theorem takeMark?_sound {input after : List CodeUnit} {mark : Punctuation}
    (h : takeMark? input = some (mark, after)) :
    input = mark.text.units ++ after ∧ Ends (.punctuation mark) after := by
  unfold takeMark? at h
  split at h
  case h_8 noAssign =>
    cases h
    refine ⟨rfl, fun first => ?_⟩
    obtain ⟨rest, rfl⟩ := List.head?_eq_some_iff.mp first
    exact noAssign rest rfl
  case h_9 => cases h
  all_goals
    cases h
    exact ⟨rfl, trivial⟩

theorem takeLexeme_sound {first : CodeUnit} {rest after : List CodeUnit} {pos : Nat} {token : Token}
    (h : takeLexeme first rest pos = .ok (token, after)) : Taken (first :: rest) pos token after := by
  rw [takeLexeme] at h
  split at h
  case isTrue starts =>
    cases h
    exact takeWord_sound starts
  case isFalse =>
    split at h
    case isTrue digit => exact takeNumber_sound digit h
    case isFalse =>
      split at h
      case isTrue quoted =>
        rw [quoted]
        exact takeString_sound h
      case isFalse =>
        cases taken : takeMark? (first :: rest) with
        | none => rw [taken] at h; cases h
        | some result =>
          obtain ⟨mark, others⟩ := result
          rw [taken] at h
          cases h
          obtain ⟨split, ends⟩ := takeMark?_sound taken
          exact ⟨_, _, split, .mark mark, ends, rfl⟩

theorem Spells.ne_nil {lexeme : Lexeme} {word : List CodeUnit} (spelled : Spells lexeme word) : word ≠ [] := by
  cases spelled with
  | word => exact List.cons_ne_nil _ _
  | decimal some => exact some
  | hexadecimal => exact List.cons_ne_nil _ _
  | string => exact List.cons_ne_nil _ _
  | mark mark => cases mark <;> exact List.cons_ne_nil _ _

/-- The tokens that a text is scanned to are a decomposition of it. -/
theorem scanAll_sound {fuel : Nat} {input : List CodeUnit} {pos : Nat} {tokens : List Token}
    (enough : input.length < fuel) (h : scanAll fuel input pos = .ok tokens) : Splits input pos tokens := by
  induction fuel generalizing input pos tokens with
  | zero => omega
  | succ fuel ih =>
    rw [scanAll] at h
    cases skipped : skipGap .between input pos with
    | error => rw [skipped] at h; cases h
    | ok result =>
      obtain ⟨input, pos⟩ := result
      obtain ⟨gap, rfl, rfl, trivia⟩ := skipGap_sound skipped
      rw [skipped] at h
      cases input with
      | nil =>
        cases h
        rw [List.append_nil]
        exact .nothing trivia
      | cons first rest =>
        simp only [bind, Except.bind] at h
        cases taken : takeLexeme first rest (_ + gap.length) with
        | error => rw [taken] at h; cases h
        | ok result =>
          obtain ⟨token, after⟩ := result
          rw [taken] at h
          obtain ⟨lexeme, word, split, spelled, ends, rfl⟩ := takeLexeme_sound taken
          simp only at h
          cases scanned : scanAll fuel after _ with
          | error => rw [scanned] at h; cases h
          | ok tokens =>
            rw [scanned] at h
            cases h
            rw [split] at enough ⊢
            have some := List.length_pos_iff.mpr spelled.ne_nil
            simp only [List.length_append] at enough
            exact .lexeme trivia spelled ends (ih (by omega) scanned)

theorem scan_iff {source : Text} {tokens : List Token} :
    scan source = .ok tokens ↔ Splits source.units 0 tokens := by
  constructor
  · intro h
    exact scanAll_sound (Nat.lt_succ_self _) h
  · intro splits
    exact scanAll_complete splits (Nat.lt_succ_self _)

/-! ## What lexemes are made of -/

theorem ofWord_ne_eof (word : Text) : Lexeme.ofWord word ≠ .eof := by
  unfold Lexeme.ofWord
  split <;> exact Lexeme.noConfusion

theorem Spells.ne_eof {lexeme : Lexeme} {word : List CodeUnit} (spelled : Spells lexeme word) :
    lexeme ≠ .eof := by
  cases spelled with
  | word => exact ofWord_ne_eof _
  | decimal | hexadecimal | string | mark => exact Lexeme.noConfusion

theorem Spells.number_continues {digits : Text} {word : List CodeUnit}
    (spelled : Spells (.number digits) word) : ∀ unit ∈ word, continuesWord unit = true := by
  generalize number : Lexeme.number digits = lexeme at spelled
  cases spelled with
  | word =>
    unfold Lexeme.ofWord at number
    split at number <;> cases number
  | decimal _ decimal => exact fun unit member => continuesWord_of_isDigit (decimal unit member)
  | hexadecimal _ hexadecimal =>
    intro unit member
    rcases List.mem_cons.mp member with rfl | member
    · decide
    · rcases List.mem_cons.mp member with rfl | member
      · decide
      · exact continuesWord_of_isHexDigit (hexadecimal unit member)
  | string | mark => cases number

theorem Splits.spelled {input : List CodeUnit} {pos : Nat} {tokens : List Token}
    (splits : Splits input pos tokens) : ∀ token ∈ tokens, ∃ word, Spells token.lexeme word := by
  induction splits with
  | nothing => exact fun _ member => nomatch member
  | lexeme _ spelled _ _ ih => exact List.forall_mem_cons.mpr ⟨⟨_, spelled⟩, ih⟩

theorem Splits.ne_eof {input : List CodeUnit} {pos : Nat} {tokens : List Token}
    (splits : Splits input pos tokens) : ∀ token ∈ tokens, token.lexeme ≠ .eof := by
  intro token member
  obtain ⟨word, spelled⟩ := splits.spelled token member
  exact spelled.ne_eof

end ContractAsm.Token
