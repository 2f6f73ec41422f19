import Mathlib.Data.List.DropRight
import SmallC.Proofs.Report.Lines

/-! Lines and pieces: the line that is looked up by the bytes at which lines start is the piece of the
text between two newlines, and no character is cut in two. -/

namespace SmallC

/-- The bytes at which the slice of a line starts and stops, with the newline that ends it. -/
def lineSpan? (text : List Char) (line : Nat) : Option (Nat × Nat) :=
  if line = 0 then none
  else (lineStarts text)[line - 1]?.map fun start =>
    (start, (lineStarts text)[line]?.getD (byteLength text))

/-- The pieces of a text between its newlines. -/
def piecesOf (text : List Char) : List (List Char) :=
  text.splitOn '\n'

variable {content : String} {head front text : List Char}

/-- A line is looked up by slicing the text where its span says. -/
theorem lineText?_eq_slice (content : String) (line : Nat) :
    lineText? content line = (lineSpan? content.toList line).bind fun span =>
      (bytesBetween? span.1 span.2 content.toList).map (String.ofList ∘ trimEnd) := by
  unfold lineText? lineSpan?
  by_cases zero : line = 0
  · simp [zero]
  · cases start : (lineStarts content.toList)[line - 1]? with
    | none => simp [zero, start]
    | some byte => simp [zero, start, Function.comp_def, Option.map_eq_bind]

/-! Pieces. -/

/-- There is one piece more than newlines. -/
theorem length_piecesOf (text : List Char) : (piecesOf text).length = text.count '\n' + 1 := by
  -- Character by character, a newline starts another piece and any other one joins the first.
  unfold piecesOf
  induction text with
  | nil => simp
  | cons character text ih =>
    by_cases newline : character = '\n'
    · simp [newline, List.splitOn_cons_eq_if_modifyHead, ih]
    · simp [newline, List.splitOn_cons_eq_if_modifyHead, ih, List.count_cons_of_ne newline]

/-- Behind a text that ends lines the pieces are those of what follows. -/
theorem piecesOf_behind (ends : EndsLines head) (rest : List Char) :
    (piecesOf (head ++ rest))[head.count '\n']? = (piecesOf rest)[0]? := by
  cases ends with
  | first => rfl
  | newline line =>
    -- The newline that ends the text in front ends its last piece as well.
    have counted : (line ++ ['\n']).count '\n' = (piecesOf line).length := by
      simp [length_piecesOf]
    have split : piecesOf (line ++ ['\n'] ++ rest) = piecesOf line ++ piecesOf rest := by
      rw [List.append_assoc]
      exact List.splitOn_append_cons_self line rest
    rw [counted, split, List.getElem?_append_right (Nat.le_refl _), Nat.sub_self]

/-- The first piece is the first line, which a newline may end. -/
theorem piecesOf_first (text : List Char) :
    ∃ piece, (piecesOf text)[0]? = some piece ∧
      trimEnd (throughNewline text) = piece.rdropWhile isWhiteSpace := by
  -- Either a newline ends the first piece, or the text is a single piece.
  obtain ⟨rest, split, ⟨line, through, inner⟩ | ⟨rfl, inner⟩⟩ := split_throughNewline text
  · refine ⟨line, ?_, ?_⟩
    · rw [split, through, List.append_assoc]
      exact congrArg (·[0]?) (List.splitOn_append_cons_self_of_not_mem inner rest)
    · rw [through, trimEnd_newline]
      rfl
  · rw [List.append_nil] at split
    refine ⟨text, ?_, ?_⟩
    · exact congrArg (·[0]?) (List.splitOn_eq_singleton inner)
    · rw [← split]
      rfl

/-! Starts. -/

/-- Every line up to the number of newlines starts behind so many of them. -/
theorem split_at_line {newlines : Nat} (enough : newlines ≤ text.count '\n') :
    ∃ head rest, EndsLines head ∧ head.count '\n' = newlines ∧ text = head ++ rest := by
  -- From one start to the next it is one line, with the newline that ends it.
  induction newlines with
  | zero => exact ⟨[], text, .first, rfl, rfl⟩
  | succ newlines ih =>
    obtain ⟨head, rest, ends, counted, whole⟩ := ih (by omega)
    have left : 0 < rest.count '\n' := by
      rw [whole, List.count_append] at enough
      omega
    obtain ⟨behind, split, ⟨line, through, inner⟩ | ⟨rfl, inner⟩⟩ := split_throughNewline rest
    · refine ⟨head ++ line ++ ['\n'], behind, .newline _, ?_, ?_⟩
      · simp [counted, List.count_eq_zero.mpr inner]
      · rw [whole, split, through]
        simp
    · exact absurd (List.count_eq_zero.mpr inner) (Nat.ne_of_gt left)

/-- The span of the line behind a text that ends lines. -/
theorem lineSpan?_behind (ends : EndsLines head) (rest : List Char) :
    lineSpan? (head ++ rest) (head.count '\n' + 1) =
      some (byteLength head, byteLength (head ++ throughNewline rest)) := by
  have numbered : head.count '\n' + 1 ≠ 0 := Nat.succ_ne_zero _
  rw [lineSpan?, if_neg numbered, Nat.add_sub_cancel, lineStarts_getElem? ends, lineStarts_stop]
  rfl

/-- A text has no more lines than there are starts. -/
theorem lineSpan?_beyond {line : Nat} (beyond : line = 0 ∨ text.count '\n' + 1 < line) :
    lineSpan? text line = none := by
  unfold lineSpan?
  rcases beyond with zero | past
  · rw [if_pos zero]
  · have short : (lineStarts text).length ≤ line - 1 := by
      simp only [lineStarts, List.length_cons, length_startsAfterNewlines]
      omega
    simp [List.getElem?_eq_none short]

/-! Bytes. -/

/-- The bytes of characters are those of the string that they make up. -/
theorem utf8ByteSize_ofList (text : List Char) :
    (String.ofList text).utf8ByteSize = byteLength text := by
  induction text with
  | nil => rfl
  | cons character text ih =>
    have size : byteLength (character :: text) = character.utf8Size + byteLength text := rfl
    rw [size, ← ih, ← List.singleton_append, String.ofList_append, String.utf8ByteSize_append]
    simp

/-- The byte behind some of the characters is on a boundary between characters. -/
theorem isValid_byteLength {rest : List Char} (split : content.toList = front ++ rest) :
    (String.Pos.Raw.mk (byteLength front)).IsValid content := by
  rw [String.Pos.Raw.isValid_iff_exists_append]
  refine ⟨String.ofList front, String.ofList rest, ?_, ?_⟩
  · rw [← String.ofList_append, ← split, String.ofList_toList]
  · rw [← utf8ByteSize_ofList]
    rfl

/-- The line of a number is the piece of the text with that number, less the white space at its end;
there are as many lines as pieces, which is one more than newlines; and the slice that a line is taken
from starts and stops on boundaries between characters. -/
theorem lineText_splits (content : String) (line : Nat) :
    (1 ≤ line ∧ line ≤ content.toList.count '\n' + 1 →
      ∃ piece, (piecesOf content.toList)[line - 1]? = some piece ∧
        lineText? content line = some (String.ofList (piece.rdropWhile isWhiteSpace))) ∧
    (¬ (1 ≤ line ∧ line ≤ content.toList.count '\n' + 1) → lineText? content line = none) ∧
    ∀ start stop, lineSpan? content.toList line = some (start, stop) →
      (String.Pos.Raw.mk start).IsValid content ∧ (String.Pos.Raw.mk stop).IsValid content ∧
        start ≤ stop := by
  -- A line in range stands behind a text that ends lines.
  have inside (inRange : 1 ≤ line ∧ line ≤ content.toList.count '\n' + 1) :
      ∃ head rest, EndsLines head ∧ line = head.count '\n' + 1 ∧ content.toList = head ++ rest := by
    have enough : line - 1 ≤ content.toList.count '\n' := by omega
    obtain ⟨head, rest, ends, counted, whole⟩ := split_at_line enough
    exact ⟨head, rest, ends, by omega, whole⟩
  have outside (beyond : ¬ (1 ≤ line ∧ line ≤ content.toList.count '\n' + 1)) :
      lineSpan? content.toList line = none := lineSpan?_beyond (by omega)
  refine ⟨fun inRange => ?_, fun beyond => ?_, fun start stop found => ?_⟩
  · obtain ⟨head, rest, ends, rfl, whole⟩ := inside inRange
    obtain ⟨piece, here, trimmed⟩ := piecesOf_first rest
    obtain ⟨behind, split, -⟩ := split_throughNewline rest
    have between := bytesBetween?_append head (throughNewline rest) behind
    rw [← split, ← whole] at between
    refine ⟨piece, ?_, ?_⟩
    · rw [Nat.add_sub_cancel, whole, piecesOf_behind ends, here]
    · have spanned := lineSpan?_behind ends rest
      rw [← whole] at spanned
      rw [lineText?_eq_slice, spanned, Option.bind_some, between, Option.map_some,
        Function.comp_apply, trimmed]
  · rw [lineText?_eq_slice, outside beyond]
    rfl
  · have inRange : 1 ≤ line ∧ line ≤ content.toList.count '\n' + 1 := by
      by_contra beyond
      rw [outside beyond] at found
      cases found
    obtain ⟨head, rest, ends, rfl, whole⟩ := inside inRange
    obtain ⟨behind, split, -⟩ := split_throughNewline rest
    have spanned := lineSpan?_behind ends rest
    rw [← whole, found] at spanned
    obtain ⟨rfl, rfl⟩ := Prod.mk.inj (Option.some.inj spanned)
    have further : content.toList = (head ++ throughNewline rest) ++ behind := by
      rw [List.append_assoc, ← split, whole]
    refine ⟨isValid_byteLength whole, isValid_byteLength further, ?_⟩
    rw [byteLength_append]
    omega

/-- A text with a character of two bytes before a carriage return and a newline at its end. -/
def accentedLines : String := "a\u00e9\r\n\u2003b\u2003\n"

/-- Its first line starts at the first byte and stops behind five, and its third one is empty. -/
theorem lineText_splits_accented :
    (lineText? accentedLines 1 = some "a\u00e9" ∧ lineText? accentedLines 3 = some "" ∧
      lineText? accentedLines 4 = none) ∧
    (String.Pos.Raw.mk 0).IsValid accentedLines ∧ (String.Pos.Raw.mk 5).IsValid accentedLines := by
  have counted : accentedLines.toList.count '\n' = 2 := by cbv
  have spanned : lineSpan? accentedLines.toList 1 = some (0, 5) := by decide
  obtain ⟨piece, here, first⟩ := (lineText_splits accentedLines 1).1 (by omega)
  obtain ⟨last, there, third⟩ := (lineText_splits accentedLines 3).1 (by omega)
  have pieces : piecesOf accentedLines.toList = [['a', '\u00e9', '\r'],
      ['\u2003', 'b', '\u2003'], []] := by cbv
  rw [pieces] at here there
  cases here
  cases there
  have past := (lineText_splits accentedLines 4).2.1 (by omega)
  have bounds := (lineText_splits accentedLines 1).2.2 0 5 spanned
  exact ⟨⟨first.trans (by cbv), third.trans (by cbv), past⟩, bounds.1, bounds.2.1⟩

end SmallC
