import ContractAsm.Proofs.Lexical.Scanning

/-!
# Texts without type annotations

An annotation reaches from a colon to the end of the name behind it. Where all annotations of
a text are overwritten with spaces, the tokens that are left stand where they stood, with the
spaces between them: `scan_withoutAnnotations` says that they are scanned as before.
-/

namespace ContractAsm.Token

open CodeUnit (slash asterisk)

/-! ## Annotations -/

/-- The ranges from a colon to the end of the name behind it. -/
def annotations : List Token → List (Nat × Nat)
  | ⟨.punctuation .colon, start, _⟩ :: ⟨.identifier _, _, stop⟩ :: rest => (start, stop) :: annotations rest
  | _ :: rest => annotations rest
  | [] => []

/-- The second list is the first without its annotations, and every colon is part of one. -/
inductive Erases : List Token → List Token → Prop where
  | nil : Erases [] []
  | drop {colon name : Token} {type : Text} {tokens kept : List Token}
      (colonMark : colon.lexeme = .punctuation .colon) (typeName : name.lexeme = .identifier type)
      (tail : Erases tokens kept) : Erases (colon :: name :: tokens) kept
  | keep {token : Token} {tokens kept : List Token} (noColon : token.lexeme ≠ .punctuation .colon)
      (tail : Erases tokens kept) : Erases (token :: tokens) (token :: kept)

theorem Erases.append {first second kept others : List Token} (head : Erases first kept)
    (tail : Erases second others) : Erases (first ++ second) (kept ++ others) := by
  induction head with
  | nil => exact tail
  | drop colonMark typeName _ ih => exact .drop colonMark typeName ih
  | keep noColon _ ih => exact .keep noColon ih

section

variable {token : Token} {tokens kept : List Token}

theorem Erases.name {name : Text} (ident : token.lexeme = .identifier name) (tail : Erases tokens kept) :
    Erases (token :: tokens) (token :: kept) :=
  .keep (by rw [ident]; exact Lexeme.noConfusion) tail

theorem Erases.word {word : Keyword} (keyword : token.lexeme = .keyword word) (tail : Erases tokens kept) :
    Erases (token :: tokens) (token :: kept) :=
  .keep (by rw [keyword]; exact Lexeme.noConfusion) tail

theorem Erases.mark {mark : Punctuation} (marked : token.lexeme = .punctuation mark)
    (noColon : mark ≠ .colon) (tail : Erases tokens kept) : Erases (token :: tokens) (token :: kept) := by
  refine .keep ?_ tail
  rw [marked]
  rintro ⟨⟩
  exact noColon rfl

end

theorem annotations_keep {token : Token} (noColon : token.lexeme ≠ .punctuation .colon)
    (rest : List Token) : annotations (token :: rest) = annotations rest := by
  rw [annotations]
  rintro start stop name first last others rfl
  exact absurd rfl noColon

theorem annotations_drop {colon name : Token} {type : Text}
    (colonMark : colon.lexeme = .punctuation .colon) (typeName : name.lexeme = .identifier type)
    (rest : List Token) :
    annotations (colon :: name :: rest) = (colon.start, name.stop) :: annotations rest := by
  obtain ⟨_, _, _⟩ := colon
  obtain ⟨_, _, _⟩ := name
  cases colonMark
  cases typeName
  rfl

/-! ## Overwriting -/

/-- The units that stand from an offset on, with a space for each that lies in a range. -/
def blankOut (ranges : List (Nat × Nat)) : List CodeUnit → Nat → List CodeUnit
  | [], _ => []
  | unit :: rest, pos =>
      (if ranges.any fun range => range.1 ≤ pos && pos < range.2 then CodeUnit.space else unit)
        :: blankOut ranges rest (pos + 1)

section

variable {ranges : List (Nat × Nat)} {units : List CodeUnit} {pos : Nat}

theorem blankOut_append (ranges : List (Nat × Nat)) (first second : List CodeUnit) (pos : Nat) :
    blankOut ranges (first ++ second) pos
      = blankOut ranges first pos ++ blankOut ranges second (pos + first.length) := by
  induction first generalizing pos with
  | nil => rfl
  | cons unit rest ih =>
    rw [List.cons_append, blankOut, blankOut, ih, List.length_cons, List.cons_append]
    congr 3
    omega

theorem blankOut_before (before : ∀ range ∈ ranges, pos + units.length ≤ range.1) :
    blankOut ranges units pos = units := by
  induction units generalizing pos with
  | nil => rfl
  | cons unit rest ih =>
    have outside : ranges.any (fun range => decide (range.1 ≤ pos) && decide (pos < range.2)) = false := by
      rw [List.any_eq_false]
      intro range member
      have bound := before range member
      rw [List.length_cons] at bound
      simp only [Bool.and_eq_true, decide_eq_true_eq]
      omega
    have behind : ∀ range ∈ ranges, pos + 1 + rest.length ≤ range.1 := by
      intro range member
      have bound := before range member
      rw [List.length_cons] at bound
      omega
    rw [blankOut, outside, ih behind]
    rfl

theorem blankOut_within {range : Nat × Nat} (member : range ∈ ranges) (start : range.1 ≤ pos)
    (stop : pos + units.length ≤ range.2) :
    blankOut ranges units pos = List.replicate units.length CodeUnit.space := by
  induction units generalizing pos with
  | nil => rfl
  | cons unit rest ih =>
    rw [List.length_cons] at stop
    have inside : ranges.any (fun range => decide (range.1 ≤ pos) && decide (pos < range.2)) = true := by
      rw [List.any_eq_true]
      refine ⟨range, member, ?_⟩
      simp only [Bool.and_eq_true, decide_eq_true_eq]
      omega
    rw [blankOut, inside, ih (by omega) (by omega)]
    rfl

theorem blankOut_behind {start stop : Nat} (behind : stop ≤ pos) :
    blankOut ((start, stop) :: ranges) units pos = blankOut ranges units pos := by
  induction units generalizing pos with
  | nil => rfl
  | cons unit rest ih =>
    have outside : (decide (start ≤ pos) && decide (pos < stop)) = false := by
      simp only [Bool.and_eq_false_iff, decide_eq_false_iff_not]
      omega
    rw [blankOut, blankOut, List.any_cons, outside, Bool.false_or, ih (by omega)]

theorem Ends.blankOut {lexeme : Lexeme} {after : List CodeUnit} (ends : Ends lexeme after)
    (ranges : List (Nat × Nat)) (pos : Nat) : Ends lexeme (Token.blankOut ranges after pos) := by
  cases after with
  | nil => exact ends
  | cons unit rest =>
    rw [Token.blankOut]
    split
    · exact ends_apart (by decide) (by decide)
    · exact ends.of_head rfl

end

/-! ## Gaps in a row -/

theorem IsGap.append {last : Bool} {first second : List CodeUnit} (head : IsGap false first)
    (tail : IsGap last second) : IsGap last (first ++ second) := by
  induction head with
  | nil => exact tail
  | blank blank _ ih => exact .blank blank ih
  | line inside _ ih =>
    rw [List.cons_append, List.cons_append, List.append_assoc, List.cons_append]
    exact .line inside ih
  | block inside _ ih =>
    rw [List.cons_append, List.cons_append, List.append_assoc, List.cons_append, List.cons_append]
    exact .block inside ih
  | lastLine atEnd => contradiction

theorem isGap_spaces (count : Nat) : IsGap false (List.replicate count CodeUnit.space) := by
  induction count with
  | zero => exact .nil
  | succ count ih => exact .blank (by decide) ih

/-! ## Texts without annotations -/

theorem Splits.annotations_after {input : List CodeUnit} {pos : Nat} {tokens kept : List Token}
    (splits : Splits input pos tokens) (erases : Erases tokens kept) :
    ∀ range ∈ annotations tokens, pos ≤ range.1 := by
  induction erases generalizing input pos with
  | nil => exact fun _ member => nomatch member
  | drop colonMark typeName _ ih =>
    rw [annotations_drop colonMark typeName]
    cases splits with
    | lexeme trivia spelled ends tail =>
      cases tail with
      | lexeme _ _ _ tail =>
        refine List.forall_mem_cons.mpr ⟨Nat.le_add_right _ _, fun range member => ?_⟩
        have later := ih tail range member
        omega
  | keep noColon _ ih =>
    rw [annotations_keep noColon]
    cases splits with
    | lexeme trivia spelled ends tail =>
      intro range member
      have later := ih tail range member
      omega

theorem Splits.erased {input : List CodeUnit} {pos : Nat} {tokens kept : List Token}
    (splits : Splits input pos tokens) (erases : Erases tokens kept) :
    Splits (blankOut (annotations tokens) input pos) pos kept := by
  induction erases generalizing input pos with
  | nil =>
    have kept : blankOut (annotations []) input pos = input :=
      blankOut_before fun range member => nomatch member
    rw [kept]
    exact splits
  | @drop colon name type tokens kept colonMark typeName erases ih =>
    rw [annotations_drop colonMark typeName]
    cases splits with
    | @lexeme gap mark _ _ _ _ trivia _ _ tail =>
      cases tail with
      | @lexeme inner word after _ _ _ _ _ _ tail =>
        have behind := tail.annotations_after erases
        generalize stops : pos + gap.length + mark.length + inner.length + word.length = stop
          at tail behind ⊢
        have front : blankOut ((pos + gap.length, stop) :: annotations tokens) gap pos = gap := by
          apply blankOut_before
          refine List.forall_mem_cons.mpr ⟨Nat.le_refl _, fun range member => ?_⟩
          have later := behind range member
          omega
        have blanks : blankOut ((pos + gap.length, stop) :: annotations tokens) (mark ++ (inner ++ word))
            (pos + gap.length) = List.replicate (mark ++ (inner ++ word)).length CodeUnit.space := by
          apply blankOut_within List.mem_cons_self (Nat.le_refl _)
          simp only [List.length_append]
          omega
        have length : pos + gap.length + (mark ++ (inner ++ word)).length = stop := by
          simp only [List.length_append]
          omega
        have regrouped : gap ++ (mark ++ (inner ++ (word ++ after)))
            = gap ++ ((mark ++ (inner ++ word)) ++ after) := by
          simp only [List.append_assoc]
        -- The gap is kept, the annotation becomes spaces, and both join the gap that follows.
        rw [regrouped, blankOut_append, front, blankOut_append, blanks, length,
          blankOut_behind (Nat.le_refl stop)]
        apply Splits.behind fun _ _ => trivia.append
        apply Splits.behind fun _ _ => (isGap_spaces _).append
        rw [List.length_replicate, length]
        exact ih tail
  | @keep token tokens kept noColon erases ih =>
    rw [annotations_keep noColon]
    cases splits with
    | @lexeme gap word after _ _ _ trivia spelled ends tail =>
      have behind := tail.annotations_after erases
      have front : blankOut (annotations tokens) (gap ++ word) pos = gap ++ word := by
        apply blankOut_before
        intro range member
        have later := behind range member
        rw [List.length_append]
        omega
      have rest := ih tail
      rw [← List.append_assoc, blankOut_append, front, List.append_assoc, List.length_append,
        ← Nat.add_assoc]
      exact .lexeme trivia spelled (ends.blankOut _ _) rest

end ContractAsm.Token

namespace ContractAsm

/-- The text with a space for every unit of an annotation. A text that does not split into
lexemes has no annotations. -/
def Text.withoutAnnotations (source : Text) : Text :=
  match Token.scan source with
  | .ok tokens => ⟨Token.blankOut (Token.annotations tokens) source.units 0⟩
  | .error _ => source

theorem Token.scan_withoutAnnotations {source : Text} {tokens kept : List Token}
    (scanned : scan source = .ok tokens) (erases : Erases tokens kept) :
    scan source.withoutAnnotations = .ok kept := by
  rw [Text.withoutAnnotations, scanned, scan_iff]
  exact (scan_iff.mp scanned).erased erases

end ContractAsm
