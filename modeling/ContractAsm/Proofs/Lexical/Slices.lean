import ContractAsm.Proofs.Lexical.Annotations
import ContractAsm.Proofs.Syntax.Grammar
import Mathlib.Data.List.Forall2

/-!
# Slices of a text

A text that is cut from the start of one token to the end of a later one splits into the tokens
between, wherever it is put, as long as no unit follows that would continue the last of them.
Only the offsets change, all by the same distance.
-/

namespace ContractAsm

def Text.slice (text : Text) (start stop : Nat) : Text := ⟨(text.units.drop start).take (stop - start)⟩

def Text.braced (inner : Text) : Text := "\x7b" ++ inner ++ "\x7d"

theorem Text.slice_eq {text : Text} {before inner after : List CodeUnit}
    (split : text.units = before ++ (inner ++ after)) :
    text.slice before.length (before.length + inner.length) = ⟨inner⟩ := by
  have width : before.length + inner.length - before.length = inner.length := by omega
  rw [Text.slice, split, List.drop_left, width, List.take_left]

namespace Token

open Ir.Grammar (stopAfter)

/-! ## Tokens at another place -/

structure Moved (distance : Int) (token other : Token) : Prop where
  lexeme : other.lexeme = token.lexeme
  start : (other.start : Int) = token.start + distance
  stop : (other.stop : Int) = token.stop + distance

theorem Moved.of_split {distance : Int} {first second others : List Token}
    (moved : List.Forall₂ (Moved distance) (first ++ second) others) :
    ∃ front back, others = front ++ back ∧ List.Forall₂ (Moved distance) first front
      ∧ List.Forall₂ (Moved distance) second back := by
  have front := List.forall₂_take_append _ _ _ moved.flip
  have back := List.forall₂_drop_append _ _ _ moved.flip
  exact ⟨_, _, (List.take_append_drop _ _).symm, front.flip, back.flip⟩

theorem Moved.stopAfter {distance : Int} {tokens others : List Token}
    (moved : List.Forall₂ (Moved distance) tokens others) {last other : Nat}
    (here : (other : Int) = last + distance) :
    (stopAfter other others : Int) = stopAfter last tokens + distance := by
  induction moved generalizing last other with
  | nil => exact here
  | cons first _ ih => exact ih first.stop

/-- Units split into the same tokens wherever they stand. -/
theorem Splits.moved {input : List CodeUnit} {pos : Nat} {tokens : List Token}
    (splits : Splits input pos tokens) (place : Nat) :
    ∃ others, List.Forall₂ (Moved (place - pos)) tokens others ∧ Splits input place others := by
  induction splits generalizing place with
  | nothing trivia => exact ⟨[], .nil, .nothing trivia⟩
  | @lexeme gap word after pos lexeme tokens trivia spelled ends tail ih =>
    obtain ⟨others, moved, rest⟩ := ih (place + gap.length + word.length)
    have distance : ((place + gap.length + word.length : Nat) : Int)
        - (pos + gap.length + word.length : Nat) = place - pos := by omega
    rw [distance] at moved
    refine ⟨⟨lexeme, place + gap.length, place + gap.length + word.length⟩ :: others,
      .cons ⟨rfl, ?_, ?_⟩ moved, .lexeme trivia spelled ends rest⟩
    · push_cast
      omega
    · push_cast
      omega

/-! ## Cutting -/

theorem Splits.front {word after : List CodeUnit} {pos : Nat} {lexeme : Lexeme} {tokens : List Token}
    (spelled : Spells lexeme word) (ends : Ends lexeme after) (tail : Splits after (pos + word.length) tokens) :
    Splits (word ++ after) pos (⟨lexeme, pos, pos + word.length⟩ :: tokens) :=
  @Splits.lexeme [] word after pos lexeme tokens .nil spelled ends tail

theorem Splits.behindTokens {input : List CodeUnit} {pos : Nat} {front tokens : List Token}
    (splits : Splits input pos (front ++ tokens)) :
    ∃ before after, input = before ++ after ∧ Splits after (pos + before.length) tokens := by
  induction front generalizing input pos with
  | nil => exact ⟨[], input, rfl, splits⟩
  | cons token front ih =>
    cases splits with
    | @lexeme gap word after _ _ _ trivia spelled ends tail =>
      obtain ⟨before, after, rfl, rest⟩ := ih tail
      refine ⟨gap ++ (word ++ before), after, by simp, ?_⟩
      have place : pos + (gap ++ (word ++ before)).length
          = pos + gap.length + word.length + before.length := by
        simp only [List.length_append]
        omega
      rw [place]
      exact rest

def closingBrace (pos : Nat) : Token := ⟨.punctuation .closeBrace, pos, pos + 1⟩

theorem splits_closingBrace (pos : Nat) : Splits [CodeUnit.closeBrace] pos [closingBrace pos] :=
  .front (.mark .closeBrace) trivial (.nothing .nil)

/-- The units of the first tokens of a text, and a brace behind them that takes the place of what
follows. -/
theorem Splits.closed {input : List CodeUnit} {pos : Nat} {first : Token} {rest behind : List Token}
    (splits : Splits input pos (first :: (rest ++ behind))) :
    ∃ gap inner after, IsGap false gap ∧ inner ≠ [] ∧ input = gap ++ (inner ++ after)
      ∧ first.start = pos + gap.length ∧ stopAfter first.stop rest = first.start + inner.length
      ∧ Splits (inner ++ [CodeUnit.closeBrace]) first.start
          (first :: (rest ++ [closingBrace (first.start + inner.length)])) := by
  induction rest generalizing input pos first with
  | nil =>
    cases splits with
    | @lexeme gap word after _ lexeme _ trivia spelled ends tail =>
      have apart : Ends lexeme [CodeUnit.closeBrace] := ends_apart (by decide) (by decide)
      exact ⟨gap, word, after, trivia, spelled.ne_nil, rfl, rfl, rfl,
        .front spelled apart (splits_closingBrace _)⟩
  | cons second rest ih =>
    cases splits with
    | @lexeme gap word _ _ lexeme _ trivia spelled ends tail =>
      obtain ⟨between, inner, after, innerTrivia, some, rfl, start, stop, others⟩ := ih tail
      have width : pos + gap.length + (word ++ (between ++ inner)).length = second.start + inner.length := by
        simp only [List.length_append, start]
        omega
      refine ⟨gap, word ++ (between ++ inner), after, trivia, ?_, by simp, rfl, ?_, ?_⟩
      · exact List.append_ne_nil_of_left_ne_nil spelled.ne_nil _
      · show stopAfter second.stop rest = pos + gap.length + (word ++ (between ++ inner)).length
        rw [width, stop]
      · show Splits _ (pos + gap.length) (_ :: second :: (rest ++ [closingBrace (pos + gap.length + _)]))
        rw [width, List.append_assoc, List.append_assoc]
        have head : (between ++ (inner ++ [CodeUnit.closeBrace])).head? = (between ++ (inner ++ after)).head? := by
          cases between with
          | cons => rfl
          | nil =>
            cases inner with
            | cons => rfl
            | nil => contradiction
        have tail : Splits (between ++ (inner ++ [CodeUnit.closeBrace])) (pos + gap.length + word.length)
            (second :: (rest ++ [closingBrace (second.start + inner.length)])) := by
          apply Splits.behind fun _ _ => innerTrivia.append
          rw [← start]
          exact others
        exact .front spelled (ends.of_head head) tail

/-- Cut out from the start of the first to the end of the last and put between braces, tokens that
stand side by side in a text are the only ones between the braces. -/
theorem scan_braced {source : Text} {front rest behind : List Token} {first : Token}
    (scanned : scan source = .ok (front ++ (first :: rest) ++ behind)) :
    ∃ opening others closing,
      scan (source.slice first.start (stopAfter first.stop rest)).braced = .ok (opening :: (others ++ [closing]))
        ∧ opening.lexeme = .punctuation .openBrace ∧ closing.lexeme = .punctuation .closeBrace
        ∧ opening.start = 0 ∧ closing.stop = stopAfter first.stop rest - first.start + 2
        ∧ first.start < stopAfter first.stop rest ∧ stopAfter first.stop rest ≤ source.length
        ∧ List.Forall₂ (Moved (1 - first.start)) (first :: rest) others := by
  have splits := scan_iff.mp scanned
  rw [List.append_assoc] at splits
  obtain ⟨before, after, split, splits⟩ := splits.behindTokens
  obtain ⟨gap, inner, last, -, some, rfl, start, stop, closed⟩ := splits.closed
  obtain ⟨others, moved, splits⟩ := closed.moved 1
  obtain ⟨others, ends, rfl, inside, outside⟩ := @Moved.of_split _ (first :: rest) _ _ moved
  cases outside with
  | @cons _ closing _ _ closes nothing =>
    cases nothing
    have width : 0 < inner.length := List.length_pos_iff.mpr some
    have place : (before ++ gap).length = first.start := by
      rw [List.length_append, start, Nat.zero_add]
    have cut : source.slice first.start (first.start + inner.length) = ⟨inner⟩ := by
      rw [← place]
      apply Text.slice_eq
      rw [split, List.append_assoc]
    have far : (closing.stop : Int) = inner.length + 2 := by
      have other := closes.stop
      simp only [closingBrace] at other
      omega
    rw [stop, cut]
    refine ⟨⟨.punctuation .openBrace, 0, 1⟩, others, closing, scan_iff.mpr ?_, rfl, closes.lexeme, rfl, ?_, ?_, ?_,
      inside⟩
    · exact .front (.mark .openBrace) trivial splits
    · omega
    · omega
    · rw [← place, Text.length, split]
      simp only [List.length_append]
      omega

end Token

end ContractAsm
