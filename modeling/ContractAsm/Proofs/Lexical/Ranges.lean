import ContractAsm.Proofs.Lexical.Pieces

/-!
# Where tokens stand and scanning fails

Tokens stand side by side in a text, and what scanning fails at stands in it too, except in one
case: a text that ends behind the backslash of a pair, in a string. A pair is stepped over as a
whole, so that string is reported to end one unit behind the text.
-/

namespace ContractAsm

open CodeUnit (quote newline backslash)

/-- The text ends in the middle of a pair: with a quote in the place of its last unit, a backslash,
it would end in a string. -/
def Text.EndsInPair (source : Text) : Prop :=
  ∃ front tokens body start, source.units = front ++ [backslash]
    ∧ Token.scan ⟨front ++ [quote]⟩ = .ok (tokens ++ [⟨.string body, start, source.length⟩])

namespace Token

/-! ## Tokens side by side -/

/-- Tokens take at least one unit each, and one ends before the next starts. -/
structure AreInTurn (tokens : List Token) : Prop where
  nonempty : ∀ token ∈ tokens, token.start < token.stop
  apart : tokens.Pairwise fun first second => first.stop ≤ second.start

theorem Splits.within {input : List CodeUnit} {pos : Nat} {tokens : List Token}
    (splits : Splits input pos tokens) :
    ∀ token ∈ tokens, pos ≤ token.start ∧ token.start < token.stop ∧ token.stop ≤ pos + input.length := by
  induction splits with
  | nothing => exact fun _ member => nomatch member
  | @lexeme gap word after pos lexeme tokens trivia spelled ends tail ih =>
    have some := List.length_pos_iff.mpr spelled.ne_nil
    simp only [List.length_append]
    refine List.forall_mem_cons.mpr ⟨by dsimp only; omega, fun token member => ?_⟩
    obtain ⟨start, inner, stop⟩ := ih token member
    omega

theorem Splits.areInTurn {input : List CodeUnit} {pos : Nat} {tokens : List Token}
    (splits : Splits input pos tokens) : AreInTurn tokens := by
  refine ⟨fun token member => (splits.within token member).2.1, ?_⟩
  induction splits with
  | nothing => exact .nil
  | lexeme _ _ _ tail ih => exact .cons (fun token member => (tail.within token member).1) ih

theorem AreInTurn.sublist {tokens shorter : List Token} (inTurn : AreInTurn tokens)
    (within : shorter.Sublist tokens) : AreInTurn shorter :=
  ⟨fun token member => inTurn.nonempty token (within.subset member), inTurn.apart.sublist within⟩

theorem AreInTurn.between {tokens : List Token} {first last : Token} (inTurn : AreInTurn tokens)
    (opens : tokens.head? = some first) (closes : tokens.getLast? = some last) :
    ∀ token ∈ tokens, first.start ≤ token.start ∧ token.stop ≤ last.stop := by
  intro token member
  constructor
  · obtain ⟨rest, rfl⟩ := List.head?_eq_some_iff.mp opens
    obtain rfl | behind := List.mem_cons.mp member
    · exact Nat.le_refl _
    · have before := (List.pairwise_cons.mp inTurn.apart).1 token behind
      exact Nat.le_trans (Nat.le_of_lt (inTurn.nonempty first List.mem_cons_self)) before
  · obtain ⟨front, rfl⟩ := List.getLast?_eq_some_iff.mp closes
    obtain before | here := List.mem_append.mp member
    · have behind := (List.pairwise_append.mp inTurn.apart).2.2 token before last (List.mem_singleton.mpr rfl)
      have some := inTurn.nonempty last (List.mem_append_right _ (List.mem_singleton.mpr rfl))
      exact Nat.le_trans behind (Nat.le_of_lt some)
    · exact List.mem_singleton.mp here ▸ Nat.le_refl _

/-! ## Strings that are cut -/

/-- The units end in the middle of a pair, in a string that starts at the offset. -/
def IsCut (input : List CodeUnit) (pos start : Nat) : Prop :=
  ∃ front tokens body, input = front ++ [backslash]
    ∧ Splits (front ++ [quote]) pos (tokens ++ [⟨.string body, start, pos + input.length⟩])

theorem IsCut.lt {input : List CodeUnit} {pos start : Nat} (cut : IsCut input pos start) :
    start < pos + input.length := by
  obtain ⟨front, tokens, body, -, splits⟩ := cut
  exact (splits.within _ (List.mem_append_right tokens (List.mem_singleton.mpr rfl))).2.1

theorem isCut_string {gap body : List CodeUnit} (trivia : IsGap false gap) (inside : IsBody body) (pos : Nat) :
    IsCut (gap ++ quote :: (body ++ [backslash])) pos (pos + gap.length) := by
  refine ⟨gap ++ quote :: body, [], ⟨body⟩, by simp, ?_⟩
  have only : Splits (gap ++ (quote :: (body ++ [quote]) ++ [])) pos [_] :=
    .lexeme trivia (.string inside) trivial (.nothing .nil)
  have stop : pos + (gap ++ quote :: (body ++ [backslash])).length
      = pos + gap.length + (quote :: (body ++ [quote])).length := by
    simp only [List.length_append, List.length_cons, List.length_nil]
    omega
  rw [stop]
  simpa using only

theorem IsCut.lexeme {gap word after : List CodeUnit} {pos start : Nat} {lexeme : Lexeme}
    (trivia : IsGap false gap) (spelled : Spells lexeme word) (ends : Ends lexeme after)
    (cut : IsCut after (pos + gap.length + word.length) start) : IsCut (gap ++ (word ++ after)) pos start := by
  obtain ⟨front, tokens, body, rfl, splits⟩ := cut
  refine ⟨gap ++ (word ++ front), ⟨lexeme, pos + gap.length, pos + gap.length + word.length⟩ :: tokens, body,
    by simp, ?_⟩
  have place : pos + (gap ++ (word ++ (front ++ [backslash]))).length
      = pos + gap.length + word.length + (front ++ [backslash]).length := by
    simp only [List.length_append]
    omega
  have closed : Ends lexeme (front ++ [quote]) := by
    cases front with
    | nil => exact ends_apart (by decide) (by decide)
    | cons => exact ends.of_head rfl
  rw [place]
  simpa using Splits.lexeme trivia spelled closed splits

theorem split_concat {front first rest : List CodeUnit} {unit : CodeUnit} (whole : front ++ [unit] = first ++ rest)
    (left : rest ≠ []) : ∃ inner, rest = inner ++ [unit] ∧ front = first ++ inner := by
  obtain rfl | ⟨inner, last, rfl⟩ := List.eq_nil_or_concat rest
  · exact absurd rfl left
  · rw [List.concat_eq_append, ← List.append_assoc] at whole
    obtain ⟨front, same⟩ := List.append_inj' whole rfl
    obtain ⟨rfl⟩ := same
    exact ⟨inner, List.concat_eq_append, front⟩

/-- Units that are cut are a string that is, behind blanks and comments, or a lexeme in front of
units that are cut. -/
theorem IsCut.split {input : List CodeUnit} {pos start : Nat} (cut : IsCut input pos start) :
    (∃ gap body, IsGap false gap ∧ IsBody body ∧ input = gap ++ quote :: (body ++ [backslash])
        ∧ start = pos + gap.length)
      ∨ ∃ gap lexeme word after, IsGap false gap ∧ Spells lexeme word ∧ Ends lexeme after
        ∧ input = gap ++ (word ++ after) ∧ IsCut after (pos + gap.length + word.length) start := by
  obtain ⟨front, tokens, body, rfl, splits⟩ := cut
  generalize closed : front ++ [quote] = whole at splits
  have size : (front ++ [backslash]).length = whole.length := by rw [← closed]; simp
  rw [size] at splits
  cases tokens with
  | nil =>
    generalize only : (⟨.string body, start, pos + whole.length⟩ : Token) = token at splits
    cases splits with
    | @lexeme gap word after _ _ _ trivia spelled ends tail =>
      obtain ⟨rfl, rfl, stop⟩ := Token.mk.inj only
      obtain ⟨rfl, inside⟩ := written_iff_spells.mpr spelled
      -- The string ends where the units do, so nothing follows its closing quote.
      simp only [List.length_append] at stop
      obtain rfl : after = [] := List.eq_nil_of_length_eq_zero (by omega)
      refine .inl ⟨gap, body.units, trivia, inside, ?_, rfl⟩
      rw [List.append_nil, ← List.cons_append, ← List.append_assoc] at closed
      obtain ⟨rfl, -⟩ := List.append_inj' closed rfl
      rw [List.append_assoc, List.cons_append]
  | cons token tokens =>
    cases splits with
    | @lexeme gap word after _ lexeme _ trivia spelled ends tail =>
      have left : after ≠ [] := by
        rintro rfl
        have within := tail.within _ (List.mem_append_right tokens (List.mem_singleton.mpr rfl))
        simp only [List.length_append, List.length_nil] at within
        omega
      rw [← List.append_assoc] at closed
      obtain ⟨inner, rfl, rfl⟩ := split_concat closed left
      have cutEnds : Ends lexeme (inner ++ [backslash]) := by
        cases inner with
        | nil => exact ends_apart (by decide) (by decide)
        | cons => exact ends.of_head rfl
      refine .inr ⟨gap, lexeme, word, inner ++ [backslash], trivia, spelled, cutEnds, by simp, inner, tokens, body,
        rfl, ?_⟩
      have stop : pos + (gap ++ (word ++ (inner ++ [quote]))).length
          = pos + gap.length + word.length + (inner ++ [backslash]).length := by
        simp only [List.length_append, List.length_singleton]
        omega
      rwa [stop] at tail

theorem isCut_iff_endsInPair {source : Text} : (∃ start, IsCut source.units 0 start) ↔ source.EndsInPair := by
  simp only [IsCut, Text.EndsInPair, scan_iff, Nat.zero_add, Text.length]
  constructor
  · rintro ⟨start, front, tokens, body, whole, splits⟩
    exact ⟨front, tokens, body, start, whole, splits⟩
  · rintro ⟨front, tokens, body, start, whole, splits⟩
    exact ⟨start, front, tokens, body, whole, splits⟩

/-! ## Failures -/

def Gap.OpenedBefore (pos : Nat) : Gap → Prop
  | .block opened => opened ≤ pos
  | .between | .line => True

theorem skipGap_error {state : Gap} {input : List CodeUnit} {pos : Nat} {error : LexicalError}
    (h : skipGap state input pos = .error error) (before : state.OpenedBefore pos) :
    error.start ≤ error.stop ∧ error.stop = pos + input.length := by
  fun_induction skipGap state input pos with
  | case1 input pos ih | case5 input pos ih =>
    obtain ⟨ordered, stop⟩ := ih h trivial
    exact ⟨ordered, by simp only [List.length_cons]; omega⟩
  | case2 input pos ih =>
    obtain ⟨ordered, stop⟩ := ih h (Nat.le_add_right pos 2)
    exact ⟨ordered, by simp only [List.length_cons]; omega⟩
  | case3 unit input pos _ _ blank ih =>
    obtain ⟨ordered, stop⟩ := ih h trivial
    exact ⟨ordered, by simp only [List.length_cons]; omega⟩
  | case6 unit input pos inside ih | case7 opened input pos ih =>
    obtain ⟨ordered, stop⟩ := ih h trivial
    exact ⟨ordered, by simp only [List.length_cons]; omega⟩
  | case8 opened unit input pos inside ih =>
    obtain ⟨ordered, stop⟩ := ih h (Nat.le_succ_of_le before)
    exact ⟨ordered, by simp only [List.length_cons]; omega⟩
  | case9 opened pos =>
    cases h
    exact ⟨before, rfl⟩
  | case4 | case10 | case11 => cases h

/-- A string body fails inside the units, or one unit behind them if they end in the middle of a
pair. -/
theorem takeBody_error {input : List CodeUnit} {pos stop : Nat} (h : takeBody input pos = .error stop) :
    pos ≤ stop ∧ (stop ≤ pos + input.length
      ∨ stop = pos + input.length + 1 ∧ ∃ body, IsBody body ∧ input = body ++ [backslash]) := by
  fun_induction takeBody input pos with
  | case1 =>
    cases h
    exact ⟨Nat.le_refl _, .inl (Nat.le_refl _)⟩
  | case2 =>
    cases h
    exact ⟨by omega, .inr ⟨rfl, [], .nil, rfl⟩⟩
  | case3 unit rest pos ih =>
    cases taken : takeBody rest (pos + 2) with
    | ok => rw [taken] at h; cases h
    | error failed =>
      rw [taken] at h
      cases h
      simp only [List.length_cons]
      obtain ⟨behind, inside | ⟨beyond, body, isBody, rfl⟩⟩ := ih taken
      · exact ⟨by omega, .inl (by omega)⟩
      · exact ⟨by omega, .inr ⟨by omega, backslash :: unit :: body, .pair isBody, rfl⟩⟩
  | case4 =>
    cases h
    exact ⟨Nat.le_refl _, .inl (by omega)⟩
  | case5 => cases h
  | case6 unit rest pos noEnd noPair noNewline noQuote ih =>
    cases taken : takeBody rest (pos + 1) with
    | ok => rw [taken] at h; cases h
    | error failed =>
      rw [taken] at h
      cases h
      have noBackslash : unit ≠ backslash := by
        rintro rfl
        cases rest with
        | nil => exact noEnd rfl rfl
        | cons => exact noPair _ _ rfl rfl
      simp only [List.length_cons]
      obtain ⟨behind, inside | ⟨beyond, body, isBody, rfl⟩⟩ := ih taken
      · exact ⟨by omega, .inl (by omega)⟩
      · exact ⟨by omega, .inr ⟨by omega, unit :: body, .unit noBackslash noNewline noQuote isBody, rfl⟩⟩

theorem endNumber_error {number rest : List CodeUnit} {pos : Nat} {error : LexicalError}
    (h : endNumber number rest pos = .error error) :
    error.start = pos ∧ pos ≤ error.stop ∧ error.stop ≤ pos + (number ++ rest).length := by
  cases rest with
  | nil => cases h
  | cons unit rest =>
    rw [endNumber] at h
    split at h
    case isTrue =>
      cases h
      rw [List.length_append, List.length_cons]
      exact ⟨rfl, by dsimp only; omega, by dsimp only; omega⟩
    case isFalse => cases h

theorem takeNumber_error {input : List CodeUnit} {pos : Nat} {error : LexicalError}
    (h : takeNumber input pos = .error error) :
    error.start = pos ∧ pos ≤ error.stop ∧ error.stop ≤ pos + input.length := by
  unfold takeNumber at h
  split at h
  case h_1 digits =>
    split at h
    case h_1 =>
      cases h
      rw [List.length_cons, List.length_cons]
      exact ⟨rfl, by dsimp only; omega, by dsimp only; omega⟩
    case h_2 =>
      have inside := endNumber_error h
      rwa [List.cons_append, List.cons_append, List.takeWhile_append_dropWhile] at inside
  case h_2 =>
    have inside := endNumber_error h
    rwa [List.takeWhile_append_dropWhile] at inside

/-- The error of a string that is cut: it starts at the opening quote and ends one unit behind the
input. -/
def cutError (start stop : Nat) : LexicalError := ⟨.unterminatedString, start, stop + 1⟩

/-- A lexeme fails inside the units, unless it is a string that is cut. -/
theorem takeLexeme_error {first : CodeUnit} {rest : List CodeUnit} {pos : Nat} {error : LexicalError}
    (h : takeLexeme first rest pos = .error error) :
    error.start = pos ∧ pos ≤ error.stop ∧ error.stop ≤ pos + (first :: rest).length
      ∨ error = cutError pos (pos + (first :: rest).length)
        ∧ first = quote ∧ ∃ body, IsBody body ∧ rest = body ++ [backslash] := by
  rw [takeLexeme] at h
  split at h
  case isTrue => cases h
  case isFalse =>
    split at h
    case isTrue => exact .inl (takeNumber_error h)
    case isFalse =>
      split at h
      case isTrue quoted =>
        rw [takeString] at h
        cases taken : takeBody rest (pos + 1) with
        | ok => rw [taken] at h; cases h
        | error failed =>
          rw [taken] at h
          cases h
          rw [List.length_cons]
          obtain ⟨behind, inside | ⟨rfl, body⟩⟩ := takeBody_error taken
          · exact .inl ⟨rfl, by dsimp only; omega, by dsimp only; omega⟩
          · exact .inr ⟨by rw [cutError]; congr 1; omega, quoted, body⟩
      case isFalse =>
        cases taken : takeMark? (first :: rest) with
        | some => rw [taken] at h; cases h
        | none =>
          rw [taken] at h
          cases h
          rw [List.length_cons]
          exact .inl ⟨rfl, by dsimp only; omega, by dsimp only; omega⟩

/-! ## Strings that are cut fail behind the text -/

theorem takeBody_cut {body : List CodeUnit} (inside : IsBody body) (pos : Nat) :
    takeBody (body ++ [backslash]) pos = .error (pos + body.length + 2) := by
  induction inside generalizing pos with
  | nil => rfl
  | @pair unit rest tail ih =>
    simp only [List.cons_append]
    rw [takeBody_pair, ih]
    simp only [Except.map, List.length_cons]
    congr 1; omega
  | @unit unit rest noBackslash noNewline noQuote tail ih =>
    rw [List.cons_append, takeBody_unit noBackslash noNewline noQuote, ih]
    simp only [Except.map, List.length_cons]
    congr 1; omega

theorem scanAll_cut {fuel : Nat} {input : List CodeUnit} {pos start : Nat} (enough : input.length < fuel)
    (cut : IsCut input pos start) : scanAll fuel input pos = .error (cutError start (pos + input.length)) := by
  induction fuel generalizing input pos with
  | zero => omega
  | succ fuel ih =>
    rw [scanAll]
    obtain ⟨gap, body, trivia, inside, rfl, rfl⟩ | ⟨gap, lexeme, word, after, trivia, spelled, ends, rfl, further⟩ :=
      cut.split
    · have failed : takeLexeme quote (body ++ [backslash]) (pos + gap.length)
          = .error (cutError (pos + gap.length) (pos + (gap ++ quote :: (body ++ [backslash])).length)) := by
        rw [takeLexeme, if_neg (by decide), if_neg (by decide), if_pos rfl, takeString, takeBody_cut inside]
        simp only [cutError, List.length_append, List.length_cons, List.length_nil]
        congr 2; omega
      rw [skipGap_gap trivia, skipGap_stop (by decide) (by decide)]
      simp only [bind, Except.bind, failed]
    · obtain ⟨first, rest, rfl, noBlank, noSlash, taken⟩ := takeLexeme_spelled spelled ends
      simp only [List.length_append, List.length_cons] at enough
      rw [skipGap_gap trivia, List.cons_append, skipGap_stop noBlank noSlash]
      simp only [bind, Except.bind, taken]
      rw [ih (by omega) further]
      simp only [List.length_append, List.length_cons]
      congr 2; omega

theorem scanAll_error {fuel : Nat} {input : List CodeUnit} {pos : Nat} {error : LexicalError}
    (enough : input.length < fuel) (h : scanAll fuel input pos = .error error) :
    error.start ≤ error.stop ∧ error.stop ≤ pos + input.length
      ∨ ∃ start, error = cutError start (pos + input.length) ∧ IsCut input pos start := by
  induction fuel generalizing input pos with
  | zero => omega
  | succ fuel ih =>
    rw [scanAll] at h
    cases skipped : skipGap .between input pos with
    | error =>
      rw [skipped] at h
      cases h
      obtain ⟨ordered, stop⟩ := skipGap_error skipped trivial
      exact .inl ⟨ordered, Nat.le_of_eq stop⟩
    | ok result =>
      obtain ⟨input, pos⟩ := result
      obtain ⟨gap, rfl, rfl, trivia⟩ := skipGap_sound skipped
      rw [skipped] at h
      cases input with
      | nil => cases h
      | cons first rest =>
        simp only [bind, Except.bind] at h
        cases taken : takeLexeme first rest (_ + gap.length) with
        | error =>
          rw [taken] at h
          cases h
          rw [List.length_append, ← Nat.add_assoc]
          obtain ⟨start, behind, inside⟩ | ⟨cut, rfl, body, isBody, rfl⟩ := takeLexeme_error taken
          · exact .inl ⟨by omega, inside⟩
          · exact .inr ⟨_, cut, isCut_string trivia isBody _⟩
        | ok result =>
          obtain ⟨token, after⟩ := result
          rw [taken] at h
          obtain ⟨lexeme, word, split, spelled, ends, rfl⟩ := takeLexeme_sound taken
          simp only at h
          cases scanned : scanAll fuel after _ with
          | ok => rw [scanned] at h; cases h
          | error =>
            rw [scanned] at h
            cases h
            rw [split] at enough ⊢
            have some := List.length_pos_iff.mpr spelled.ne_nil
            simp only [List.length_append] at enough ⊢
            rw [← Nat.add_assoc, ← Nat.add_assoc]
            obtain inside | ⟨start, same, cut⟩ := ih (by omega) scanned
            · exact .inl inside
            · exact .inr ⟨start, same, cut.lexeme trivia spelled ends⟩

/-- A text that does not split into lexemes fails inside, unless it ends in the middle of a pair. -/
theorem scan_error {source : Text} {error : LexicalError} (h : scan source = .error error) :
    error.start ≤ error.stop ∧ error.stop ≤ source.length
      ∨ source.EndsInPair ∧ ∃ start, error = cutError start source.length := by
  obtain inside | ⟨start, same, cut⟩ := scanAll_error (Nat.lt_succ_self _) h
  · rw [Nat.zero_add] at inside
    exact .inl inside
  · rw [Nat.zero_add] at same
    exact .inr ⟨isCut_iff_endsInPair.mp ⟨start, cut⟩, start, same⟩

theorem scan_endsInPair {source : Text} (ends : source.EndsInPair) :
    ∃ start < source.length, scan source = .error (cutError start source.length) := by
  obtain ⟨start, cut⟩ := isCut_iff_endsInPair.mpr ends
  have failed := scanAll_cut (Nat.lt_succ_self _) cut
  have inside := cut.lt
  rw [Nat.zero_add] at failed inside
  exact ⟨start, inside, failed⟩

end Token

end ContractAsm
