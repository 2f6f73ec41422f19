import Mathlib.Data.List.Induction
import Mathlib.Data.List.TakeWhile
import SmallC.Report.Lines

/-! Lines by bytes and lines by characters: the line that is found by the bytes at which lines start
is what stands between two newlines, less the white space at its end. -/

namespace SmallC

/-- The characters since the last newline of a text. -/
def sinceNewline (text : List Char) : List Char :=
  (text.reverse.takeWhile (· ≠ '\n')).reverse

/-- The characters of a text up to its first newline, with that newline. -/
def throughNewline : List Char → List Char
  | [] => []
  | character :: rest =>
    if character = '\n' then [character] else character :: throughNewline rest

/-- A text behind which a line starts. -/
inductive EndsLines : List Char → Prop where
  /-- Nothing stands before the first line. -/
  | first : EndsLines []
  /-- A newline stands before every other one. -/
  | newline (text : List Char) : EndsLines (text ++ ['\n'])

variable {head text piece : List Char}

/-! Newlines. -/

theorem newline_not_mem_sinceNewline (text : List Char) : '\n' ∉ sinceNewline text := by
  intro member
  have other := List.mem_takeWhile_imp (List.mem_reverse.mp member)
  simp at other

/-- A line is under way behind every text. -/
theorem split_sinceNewline (text : List Char) :
    ∃ head, EndsLines head ∧ text = head ++ sinceNewline text := by
  have split := List.takeWhile_append_dropWhile (p := (· ≠ '\n')) (l := text.reverse)
  refine ⟨(text.reverse.dropWhile (· ≠ '\n')).reverse, ?_, ?_⟩
  · -- What is left stops at a newline, unless there is none.
    cases left : text.reverse.dropWhile (· ≠ '\n') with
    | nil => exact .first
    | cons stop rest =>
      have stops := List.head?_dropWhile_not (· ≠ '\n') text.reverse
      rw [left] at stops
      obtain rfl : stop = '\n' := by simpa using stops
      rw [List.reverse_cons]
      exact .newline _
  · unfold sinceNewline
    rw [← List.reverse_append, split, List.reverse_reverse]

theorem count_sinceNewline (text : List Char) : (sinceNewline text).count '\n' = 0 :=
  List.count_eq_zero.mpr (newline_not_mem_sinceNewline text)

/-- Up to the first newline a text is a line, and either another line starts there or the text ends. -/
theorem split_throughNewline (text : List Char) :
    ∃ rest, text = throughNewline text ++ rest ∧
      ((∃ line, throughNewline text = line ++ ['\n'] ∧ '\n' ∉ line) ∨
        rest = [] ∧ '\n' ∉ text) := by
  induction text with
  | nil => exact ⟨[], rfl, .inr ⟨rfl, List.not_mem_nil⟩⟩
  | cons character text ih =>
    unfold throughNewline
    by_cases newline : character = '\n'
    · subst newline
      exact ⟨text, rfl, .inl ⟨[], rfl, List.not_mem_nil⟩⟩
    -- The character belongs to the line that the others start with.
    · obtain ⟨rest, split, ends⟩ := ih
      rw [if_neg newline]
      refine ⟨rest, by rw [List.cons_append, ← split], ends.imp ?_ ?_⟩
      · rintro ⟨line, whole, inner⟩
        exact ⟨character :: line, by rw [whole, List.cons_append],
          List.not_mem_cons_of_ne_of_not_mem (Ne.symm newline) inner⟩
      · rintro ⟨ended, inner⟩
        exact ⟨ended, List.not_mem_cons_of_ne_of_not_mem (Ne.symm newline) inner⟩

/-- A piece without newlines stays in its line. -/
theorem throughNewline_append (inner : '\n' ∉ piece) (rest : List Char) :
    throughNewline (piece ++ rest) = piece ++ throughNewline rest := by
  -- None of its characters stops the line.
  induction piece with
  | nil => rfl
  | cons character piece ih =>
    have other : character ≠ '\n' := Ne.symm (List.ne_of_not_mem_cons inner)
    rw [List.cons_append, throughNewline, if_neg other, ih (List.not_mem_of_not_mem_cons inner),
      List.cons_append]

/-! Bytes. -/

theorem byteLength_append (first second : List Char) :
    byteLength (first ++ second) = byteLength first + byteLength second := by
  induction first with
  | nil => simp [byteLength]
  | cons character first ih =>
    have here (text : List Char) :
        byteLength (character :: text) = character.utf8Size + byteLength text := rfl
    rw [List.cons_append, here, here, ih, Nat.add_assoc]

/-- Whole characters are cut off by the bytes that they take. -/
theorem cutAtByte?_append (front rest : List Char) :
    cutAtByte? (byteLength front) (front ++ rest) = some (front, rest) := by
  -- The cut goes down by one character and its bytes at a time.
  induction front with
  | nil => cases rest <;> rfl
  | cons character front ih =>
    -- Every character takes a byte at least.
    obtain ⟨size, bytes⟩ : ∃ size, character.utf8Size = size + 1 :=
      Nat.exists_eq_succ_of_ne_zero (Nat.ne_of_gt character.utf8Size_pos)
    have whole : byteLength (character :: front) = (size + byteLength front) + 1 := by
      change character.utf8Size + byteLength front = _
      omega
    have within : character.utf8Size ≤ (size + byteLength front) + 1 := by omega
    have left : (size + byteLength front) + 1 - character.utf8Size = byteLength front := by omega
    rw [whole, List.cons_append, cutAtByte?, if_pos within, left, ih]
    rfl

theorem bytesBetween?_append (front middle rest : List Char) :
    bytesBetween? (byteLength front) (byteLength (front ++ middle)) (front ++ (middle ++ rest)) =
      some middle := by
  have span : byteLength (front ++ middle) - byteLength front = byteLength middle := by
    rw [byteLength_append]
    omega
  simp [bytesBetween?, span, cutAtByte?_append]

/-! Starts of lines. -/

theorem startsAfterNewlines_append (byte : Nat) (first second : List Char) :
    startsAfterNewlines byte (first ++ second) =
      startsAfterNewlines byte first ++ startsAfterNewlines (byte + byteLength first) second := by
  induction first generalizing byte with
  | nil => rfl
  | cons character first ih =>
    have total : byte + byteLength (character :: first) =
        byte + character.utf8Size + byteLength first := (Nat.add_assoc ..).symm
    rw [List.cons_append, startsAfterNewlines, startsAfterNewlines, ih, total]
    split <;> rfl

theorem length_startsAfterNewlines (byte : Nat) (text : List Char) :
    (startsAfterNewlines byte text).length = text.count '\n' := by
  induction text generalizing byte with
  | nil => rfl
  | cons character text ih =>
    rw [startsAfterNewlines]
    by_cases newline : character = '\n'
    · simp [newline, ih]
    · simp [newline, ih, List.count_cons_of_ne newline]

/-- The line behind a text that ends lines has one more than its newlines for its number. -/
theorem lineStarts_getElem? (ends : EndsLines head) (rest : List Char) :
    (lineStarts (head ++ rest))[head.count '\n']? = some (byteLength head) := by
  cases ends with
  | first => rfl
  | newline text =>
    -- There is a start for each newline in front, and the next one is that of the line.
    have before : (startsAfterNewlines 0 text).length = text.count '\n' :=
      length_startsAfterNewlines 0 text
    have starts : startsAfterNewlines (byteLength text) ('\n' :: rest) =
        byteLength (text ++ ['\n']) :: startsAfterNewlines (byteLength text + 1) rest := by
      rw [byteLength_append]
      rfl
    have counted : (text ++ ['\n']).count '\n' = text.count '\n' + 1 := by simp
    rw [lineStarts, counted, List.getElem?_cons_succ, List.append_assoc, startsAfterNewlines_append,
      List.getElem?_append_right (Nat.le_of_eq before), before, Nat.sub_self, Nat.zero_add]
    exact congrArg (·[0]?) starts

/-- It ends where the next line starts, or with the text. -/
theorem lineStarts_stop (head text : List Char) :
    (lineStarts (head ++ text))[head.count '\n' + 1]?.getD (byteLength (head ++ text)) =
      byteLength (head ++ throughNewline text) := by
  obtain ⟨rest, split, next | ⟨rfl, last⟩⟩ := split_throughNewline text
  · -- The newline that ends the line is one more.
    obtain ⟨line, through, inner⟩ := next
    have further := lineStarts_getElem? (.newline (head ++ line)) rest
    have counted : (head ++ line ++ ['\n']).count '\n' = head.count '\n' + 1 := by
      simp [List.count_eq_zero.mpr inner]
    rw [counted, List.append_assoc head, ← through, List.append_assoc, ← split] at further
    rw [further]
    rfl
  · -- There are as many starts as newlines, and that of the first line.
    have short : (lineStarts (head ++ text)).length ≤ head.count '\n' + 1 := by
      simp [lineStarts, length_startsAfterNewlines, List.count_eq_zero.mpr last]
    rw [List.getElem?_eq_none short, ← List.append_nil (throughNewline text), ← split]
    rfl

/-- The line that is under way behind a text is found by the newlines before it. -/
theorem lineText?_append (before text : List Char) :
    lineText? (String.ofList (before ++ text)) (before.count '\n' + 1) =
      some (String.ofList (trimEnd (sinceNewline before ++ throughNewline text))) := by
  -- The text is cut where the line starts, and its rest where the line ends.
  obtain ⟨head, ends, split⟩ := split_sinceNewline before
  have inner := newline_not_mem_sinceNewline before
  have counted : before.count '\n' = head.count '\n' := by
    rw [congrArg (List.count '\n') split, List.count_append, count_sinceNewline, Nat.add_zero]
  have whole : before ++ text = head ++ (sinceNewline before ++ text) := by
    rw [← List.append_assoc, ← split]
  obtain ⟨rest, cut, -⟩ := split_throughNewline (sinceNewline before ++ text)
  have between := bytesBetween?_append head (throughNewline (sinceNewline before ++ text)) rest
  rw [← cut, throughNewline_append inner] at between
  have stop := lineStarts_stop head (sinceNewline before ++ text)
  rw [throughNewline_append inner] at stop
  simp [lineText?, String.toList_ofList, whole, counted, lineStarts_getElem? ends, stop, between]

/-! The white space at the end of a line. -/

/-- Between the digits and the small letters no character is white space. -/
theorem isWhiteSpace_between {character : Char}
    (bounds : 48 ≤ character.toNat ∧ character.toNat ≤ 122) : isWhiteSpace character = false := by
  -- The listed characters are outside of the range, and so are both intervals.
  have apart : ∀ code ∈ [0x20, 0x85, 0xa0, 0x1680, 0x2028, 0x2029, 0x202f, 0x205f, 0x3000],
      code < 48 ∨ 122 < code := by decide
  have absent : [0x20, 0x85, 0xa0, 0x1680, 0x2028, 0x2029, 0x202f, 0x205f, 0x3000].contains
      character.toNat = false := by
    rw [List.contains_eq_mem]
    refine decide_eq_false fun member => ?_
    have beyond := apart _ member
    omega
  have low : ¬ character.toNat ≤ 13 := by omega
  have high : ¬ 0x2000 ≤ character.toNat := by omega
  unfold isWhiteSpace
  dsimp only
  rw [absent, decide_eq_false low, decide_eq_false high, Bool.and_false, Bool.false_and]
  rfl

/-- A line keeps whatever stands before the last character that is no white space. -/
theorem trimEnd_append {last : Char} (solid : isWhiteSpace last = false) (front text : List Char) :
    trimEnd (front ++ [last] ++ text) = front ++ [last] ++ trimEnd text := by
  unfold trimEnd
  rw [List.reverse_append, List.dropWhile_append]
  split
  · next blank =>
    have emptied : text.reverse.dropWhile isWhiteSpace = [] := List.isEmpty_iff.mp blank
    simp [emptied, solid]
  · simp

/-- The newline that ends a line is white space itself. -/
theorem trimEnd_newline (line : List Char) : trimEnd (line ++ ['\n']) = trimEnd line := by
  have blank : isWhiteSpace '\n' = true := by decide
  simp [trimEnd, blank]

/-- Nothing is left of the newline that ends a line. -/
theorem newline_not_mem_trimEnd (text : List Char) : '\n' ∉ trimEnd (throughNewline text) := by
  -- Trimming adds nothing, so the only newline to lose is the one at the end.
  have fewer (line : List Char) : trimEnd line ⊆ line := by
    intro character member
    exact List.mem_reverse.mp (List.dropWhile_sublist _ |>.subset (List.mem_reverse.mp member))
  obtain ⟨rest, split, ⟨line, through, inner⟩ | ⟨rfl, inner⟩⟩ := split_throughNewline text
  · rw [through, trimEnd_newline]
    exact fun member => inner (fewer line member)
  · rw [List.append_nil] at split
    rw [← split]
    exact fun member => inner (fewer text member)

end SmallC
