import SmallC.Proofs.Report.Solid

/-! Line comments: what stands between two slashes and the end of their line is passed over, unless a
carriage return stands inside it. -/

namespace SmallC

/-- A text of whole lines: nothing, or something that a newline ends. -/
def Lined (text : List Char) : Prop :=
  text = [] ∨ text.getLast? = some '\n'

/-! Whole lines. -/

theorem Lined.suffix {front rest : List Char} (lined : Lined (front ++ rest)) : Lined rest := by
  by_cases empty : rest = []
  · exact .inl empty
  · rcases lined with nothing | ends
    · exact .inl (List.append_eq_nil_iff.mp nothing).2
    · rw [List.getLast?_append_of_ne_nil _ empty] at ends
      exact .inr ends

theorem Lined.newline_mem {text : List Char} (lined : Lined text) (some : text ≠ []) :
    '\n' ∈ text :=
  List.mem_of_getLast? (lined.resolve_left some)

/-- What begins a text and has no newline leaves something of its whole lines. -/
theorem Lined.rest_ne_nil {front rest : List Char} (lined : Lined (front ++ rest))
    (some : front ≠ []) (inner : '\n' ∉ front) : rest ≠ [] := by
  rintro rfl
  rw [List.append_nil] at lined
  exact inner (lined.newline_mem some)

/-- What has no newline and begins a text of whole lines, with more behind it, ends before the first
newline, so it begins the text itself. -/
theorem Lined.split {text piece rest more : List Char} (lined : Lined text) (some : text ≠ [])
    (inner : '\n' ∉ piece) (same : piece ++ rest = text ++ more) :
    ∃ tail, text = piece ++ tail ∧ rest = tail ++ more := by
  rcases List.append_eq_append_iff.mp same with ⟨tail, front, behind⟩ | ⟨tail, front, behind⟩
  · exact ⟨tail, front, behind⟩
  · -- Otherwise the whole text, with its newline, lies inside the piece.
    exact absurd (front ▸ List.mem_append_left tail (lined.newline_mem some)) inner

/-- Whether a line ends at the front is settled by whole lines. -/
theorem Lined.endsLine_append {text : List Char} (lined : Lined text) (some : text ≠ [])
    (more : List Char) : endsLine (text ++ more) = endsLine text := by
  match text, lined, some with
  | [single], lined, _ =>
    -- One character alone is the newline.
    have ends : Option.some single = Option.some '\n' := lined.resolve_left nofun
    rw [Option.some.inj ends]
    rfl
  | first :: second :: rest, _, _ =>
    show endsLine (first :: second :: (rest ++ more)) = endsLine (first :: second :: rest)
    unfold endsLine
    split <;> simp_all

/-! What more text behind whole lines leaves as it is. -/

/-- A line comment stays in its line. -/
theorem slashes_inner {body : List Char} (inner : ∀ character ∈ body, isLineEnd character = false) :
    '\n' ∉ '/' :: '/' :: body := by
  intro member
  rcases List.mem_cons.mp member with slash | member
  · exact absurd slash (by decide)
  · rcases List.mem_cons.mp member with slash | member
    · exact absurd slash (by decide)
    · exact absurd (inner _ member) (by decide)

theorem Gap.further {gap rest : List Char} (apart : Gap gap rest) (lined : Lined (gap ++ rest))
    (more : List Char) : Gap gap (rest ++ more) := by
  cases apart with
  | blank separates => exact .blank separates
  | block first => exact .block first
  | @line body _ inner ends =>
    -- A comment without a newline is not all of the text, so its line ends where it ended.
    have some := lined.rest_ne_nil nofun (slashes_inner inner)
    exact .line inner (by rw [lined.suffix.endsLine_append some, ends])

theorem Gaps.further {gaps rest : List Char} (apart : Gaps gaps rest) (lined : Lined (gaps ++ rest))
    (more : List Char) : Gaps gaps (rest ++ more) := by
  induction apart with
  | nil => exact .nil
  | @cons gap others rest first _ ih =>
    -- A gap ends where it did, for each line that it opens ends inside the text.
    rw [List.append_assoc] at lined
    apply Gaps.cons
    · rw [← List.append_assoc]
      exact first.further lined more
    · exact ih lined.suffix

/-- Where no gap begins whole lines, none begins with more text behind them. -/
theorem Gapless.further {text : List Char} (gapless : Gapless text) (lined : Lined text)
    (some : text ≠ []) (more : List Char) : Gapless (text ++ more) where
  apart {gap rest} same apart := by
    cases apart with
    | @blank character rest separates =>
      cases text with
      | nil => exact some rfl
      | cons first others =>
        obtain ⟨rfl, -⟩ := List.cons.inj same
        exact gapless.apart rfl (.blank separates)
    | @block body _ first =>
      -- The mark that opens the comment stays in its line, so it begins the lines themselves.
      have opened : ['/', '*'] ++ (body ++ ['*', '/'] ++ rest) = text ++ more := by simpa using same
      obtain ⟨tail, front, -⟩ := lined.split some (by decide) opened
      exact gapless.unopened ⟨tail, front.symm⟩
    | @line body rest inner ends =>
      -- The comment ends with its line, and the line ends where it ended.
      obtain ⟨tail, rfl, rfl⟩ := lined.split some (slashes_inner inner) same
      have left := lined.rest_ne_nil nofun (slashes_inner inner)
      rw [lined.suffix.endsLine_append left] at ends
      exact gapless.apart rfl (.line inner ends)
  unopened := by
    rintro ⟨rest, same⟩
    obtain ⟨tail, front, -⟩ := lined.split some (by decide) same
    exact gapless.unopened ⟨tail, front.symm⟩

/-- No lexeme reaches into another line, so the longest one of whole lines stays the longest. -/
theorem Munch.further {kind : TokenKind} {piece rest : List Char} (munch : Munch kind piece rest)
    (lined : Lined (piece ++ rest)) (some : piece ++ rest ≠ []) (more : List Char) :
    Munch kind piece (rest ++ more) where
  lexeme := munch.lexeme
  kind := munch.kind
  longest lexeme front := by
    obtain ⟨tail, same⟩ := front
    rw [← List.append_assoc] at same
    obtain ⟨left, inside, -⟩ := lined.split some lexeme.solid.inner same
    exact munch.longest lexeme ⟨left, inside.symm⟩

/-- With more text behind whole lines their tokens are read, and then what follows them. -/
theorem Tiled.further {before text : List Char} {found : List Token} (tiled : Tiled before text found)
    (lined : Lined text) (more : List Char) :
    tokensFrom (placeAfter before) (text ++ more) =
      (tokensFrom (placeAfter (before ++ text)) more).map (found.dropLast ++ ·) := by
  -- Tile by tile: a gap and the lexeme behind it stay what they are, and the end gives way.
  induction tiled with
  | @done before gaps apart =>
    rw [← List.append_nil gaps] at lined
    have stays := apart.further lined more
    rw [List.nil_append] at stays
    rw [tokensFrom_gaps stays, placeAfter_append]
    cases tokensFrom (placeAfter (before ++ gaps)) more <;> rfl
  | @token before gaps piece rest kind tokens apart gapless munch tiled ih =>
    have some : piece ++ rest ≠ [] :=
      List.append_ne_nil_of_left_ne_nil munch.lexeme.solid.ne_nil rest
    have stays := apart.further lined more
    have linedPiece := lined.suffix
    have gaplessMore := gapless.further linedPiece some more
    rw [List.append_assoc] at stays gaplessMore
    rw [List.append_assoc, List.append_assoc, tokensFrom_gaps stays, placeAfter_append,
      tokensFrom_lexeme gaplessMore (munch.further linedPiece some more), placeAfter_append,
      ih linedPiece.suffix, List.dropLast_cons_of_ne_nil tiled.ne_nil]
    simp only [List.append_assoc]
    cases tokensFrom (placeAfter (before ++ (gaps ++ (piece ++ rest)))) more <;> rfl

/-! Comments to the end of a line. -/

theorem isLineEnd_inner {text : List Char} (inner : '\n' ∉ text) (unreturned : '\r' ∉ text) :
    ∀ character ∈ text, isLineEnd character = false := by
  intro character member
  have line : character ≠ '\n' := fun same => inner (same ▸ member)
  have back : character ≠ '\r' := fun same => unreturned (same ▸ member)
  simp [isLineEnd, line, back]

/-- Without a return, or with one that stands right before the newline, all of the line is passed
over. -/
theorem gaps_comment {body : List Char} (inner : '\n' ∉ body) (unreturned : '\r' ∉ body.dropLast)
    (rest : List Char) : Gaps ('/' :: '/' :: body) ('\n' :: rest) := by
  rcases List.eq_nil_or_concat body with rfl | ⟨front, last, rfl⟩
  · have comment : Gap ['/', '/'] ([] ++ '\n' :: rest) := .line nofun rfl
    exact .cons comment .nil
  · rw [List.concat_eq_append] at inner unreturned ⊢
    rw [List.dropLast_concat] at unreturned
    have innerFront : '\n' ∉ front := fun member => inner (List.mem_append_left _ member)
    by_cases back : last = '\r'
    · -- The comment stops at the return, which is a blank then.
      subst back
      have comment : Gap ('/' :: '/' :: front) (['\r'] ++ '\n' :: rest) :=
        .line (isLineEnd_inner innerFront unreturned) rfl
      have blank : Gap ['\r'] ([] ++ '\n' :: rest) := .blank rfl
      exact .cons comment (.cons blank .nil)
    · have absent : '\r' ∉ front ++ [last] := by
        simp [unreturned, Ne.symm back]
      have comment : Gap ('/' :: '/' :: (front ++ [last])) ([] ++ '\n' :: rest) :=
        .line (isLineEnd_inner inner absent) rfl
      rw [← List.append_nil ('/' :: '/' :: (front ++ [last]))]
      exact .cons comment .nil

/-- A return that is not the last character has another one behind it. -/
theorem first_return {body : List Char} (returned : '\r' ∈ body.dropLast) :
    ∃ front next rest, body = front ++ '\r' :: next :: rest ∧ '\r' ∉ front := by
  obtain ⟨front, behind, split, first⟩ := List.eq_append_cons_of_mem returned
  have some : body ≠ [] := by
    rintro rfl
    cases returned
  -- The last character is behind the return, so there is one that follows it.
  have whole : body = front ++ '\r' :: (behind ++ [body.getLast some]) := by
    rw [← List.cons_append, ← List.append_assoc, ← split, List.dropLast_concat_getLast]
  cases behind with
  | nil => exact ⟨front, _, [], whole, first⟩
  | cons next rest => exact ⟨front, next, _, whole, first⟩

/-- With a return inside it a line is no comment. -/
theorem gapless_slashes {body : List Char} (inner : '\n' ∉ body) (returned : '\r' ∈ body.dropLast)
    (rest : List Char) : Gapless ('/' :: '/' :: (body ++ rest)) := by
  obtain ⟨front, next, others, rfl, first⟩ := first_return returned
  simp only [List.mem_append, List.mem_cons, not_or] at inner
  obtain ⟨innerFront, -, other, -⟩ := inner
  -- The comment is cut off at the first return, and no newline is behind that one.
  have passes : ∀ character ∈ front, (fun character => !isLineEnd character) character = true :=
    fun character member => by simp [isLineEnd_inner innerFront first character member]
  have stops : endsLine ('\r' :: next :: (others ++ rest)) = false := by
    unfold endsLine
    split
    · next same => cases same
    · next same => cases same
    · next same =>
      cases same
      exact absurd rfl other
    · rfl
  apply gapless_of_none
  have stopped : splitWhile (fun character => !isLineEnd character)
      ('\r' :: next :: (others ++ rest)) = ([], '\r' :: next :: (others ++ rest)) :=
    splitWhile_stop rfl _
  simp [gap?, splitWhile_run passes, stopped, stops]

/-- Two slashes that open no comment are two signs. -/
theorem munch_slash (rest : List Char) : Munch .slash ['/'] ('/' :: rest) :=
  lexeme?_eq_ok.mp rfl

/-- Behind a newline the place depends on the line only. -/
theorem tokensFrom_newline {text : List Char} (inner : '\n' ∉ text) (position : Position)
    (rest : List Char) :
    tokensFrom (position.after text) ('\n' :: rest) = tokensFrom position ('\n' :: rest) := by
  have newline : Gap ['\n'] ([] ++ rest) := .blank rfl
  have blank : Gaps ['\n'] rest := .cons newline .nil
  have place (position : Position) : position.after ['\n'] = ⟨position.line + 1, 1⟩ := rfl
  have passed (position : Position) :
      tokensFrom position ('\n' :: rest) = tokensFrom ⟨position.line + 1, 1⟩ rest := by
    rw [← place, ← tokensFrom_gaps blank]
    rfl
  -- Both go on at the start of the next line, which is the same one as the text has no newline.
  rw [passed, passed, line_after, List.count_eq_zero.mpr inner, Nat.add_zero]

/-- The end of the line is read as if the comment were not there. -/
theorem tokensFrom_comment {body : List Char} (inner : '\n' ∉ body)
    (unreturned : '\r' ∉ body.dropLast) (position : Position) (rest : List Char) :
    tokensFrom position ('/' :: '/' :: (body ++ '\n' :: rest)) =
      tokensFrom position ('\n' :: rest) := by
  have stays : '\n' ∉ '/' :: '/' :: body := by simp [inner]
  have passed := tokensFrom_gaps (gaps_comment inner unreturned rest) position
  rwa [tokensFrom_newline stays] at passed

/-- With a return inside the line a slash is read, and then what is behind it. -/
theorem tokensFrom_slashes {body : List Char} (inner : '\n' ∉ body) (returned : '\r' ∈ body.dropLast)
    (position : Position) (rest : List Char) :
    tokensFrom position ('/' :: '/' :: (body ++ rest)) =
      (tokensFrom (position.after ['/']) ('/' :: (body ++ rest))).map
        (⟨.slash, "/", position⟩ :: ·) :=
  tokensFrom_lexeme (gapless_slashes inner returned rest) (munch_slash _) position

/-! Whole sources. -/

/-- Behind whole lines, reading starts where they end. -/
theorem tokens_append {before : String} {found : List Token} (read : tokens before = .ok found)
    (lined : Lined before.toList) (after : String) :
    tokens (before ++ after) = (tokensFrom (placeAfter before.toList) after.toList).map
      (found.dropLast ++ ·) := by
  have tiled := tiled_of_tokens read
  rw [tokens, String.toList_append]
  exact tiled.further lined after.toList

/-- A line comment behind whole lines leaves the tokens of a source as they are, with their places, or
its fault, exactly if no carriage return stands before the last character of the comment. Otherwise the
two slashes are read as signs. -/
theorem tokens_comment {before body : String} {found : List Token} (read : tokens before = .ok found)
    (lined : Lined before.toList) (inner : '\n' ∉ body.toList) :
    ((∀ after, tokens (before ++ "//" ++ body ++ "\n" ++ after) = tokens (before ++ "\n" ++ after)) ↔
      '\r' ∉ body.toList.dropLast) ∧
    ('\r' ∈ body.toList.dropLast → ∀ after all,
      tokens (before ++ "//" ++ body ++ "\n" ++ after) = .ok all →
      ∃ further, all = found.dropLast ++ ⟨.slash, "/", placeAfter before.toList⟩ :: further) := by
  -- Both sources are read from where the whole lines end.
  have commented (after : String) : tokens (before ++ "//" ++ body ++ "\n" ++ after) =
      (tokensFrom (placeAfter before.toList)
        ('/' :: '/' :: (body.toList ++ '\n' :: after.toList))).map (found.dropLast ++ ·) := by
    have whole := tokens_append read lined ("//" ++ body ++ "\n" ++ after)
    simpa [← String.append_assoc] using whole
  have plain (after : String) : tokens (before ++ "\n" ++ after) =
      (tokensFrom (placeAfter before.toList) ('\n' :: after.toList)).map (found.dropLast ++ ·) := by
    have whole := tokens_append read lined ("\n" ++ after)
    simpa [← String.append_assoc] using whole
  have signs (returned : '\r' ∈ body.toList.dropLast) (after : String) (all : List Token)
      (reads : tokens (before ++ "//" ++ body ++ "\n" ++ after) = .ok all) :
      ∃ further, all = found.dropLast ++ ⟨.slash, "/", placeAfter before.toList⟩ :: further := by
    rw [commented, tokensFrom_slashes inner returned] at reads
    generalize tokensFrom ((placeAfter before.toList).after ['/']) _ = others at reads
    cases others with
    | error failure => cases reads
    | ok further =>
      cases reads
      exact ⟨further, rfl⟩
  refine ⟨⟨fun same returned => ?_, fun unreturned after => ?_⟩, signs⟩
  · -- Nothing but the end stands behind the newline, and that is no slash.
    have ended : tokens (before ++ "\n" ++ "") = .ok (found.dropLast ++
        [.atEnd (placeAfter (before.toList ++ ['\n']))]) := by
      have newline : Gap ['\n'] ([] ++ []) := .blank rfl
      have ended : Tiled before.toList ['\n'] [.atEnd (placeAfter (before.toList ++ ['\n']))] :=
        .done (.cons newline .nil)
      rw [plain, String.toList_empty, tokensFrom_eq_ok.mpr ended]
      rfl
    obtain ⟨further, different⟩ := signs returned "" _ ((same "").trans ended)
    obtain ⟨slash, -⟩ := List.cons.inj (List.append_cancel_left different)
    cases slash
  · rw [commented, plain, tokensFrom_comment inner unreturned]

/-- A comment of odd characters, with a return at its end, hides from a source that goes on. -/
theorem tokens_comment_odd :
    tokens "int x;\n" = .ok [⟨.specifier .int, "int", ⟨1, 1⟩⟩, ⟨.identifier, "x", ⟨1, 5⟩⟩,
      ⟨.semicolon, ";", ⟨1, 6⟩⟩, .atEnd ⟨2, 1⟩] ∧
    Lined "int x;\n".toList ∧ '\n' ∉ "\t/* @\" \\ é\x00\r".toList ∧
    '\r' ∉ "\t/* @\" \\ é\x00\r".toList.dropLast ∧
    ∀ after, tokens ("int x;\n" ++ "//" ++ "\t/* @\" \\ é\x00\r" ++ "\n" ++ after) =
      tokens ("int x;\n" ++ "\n" ++ after) := by
  have read : tokens "int x;\n" = .ok [⟨.specifier .int, "int", ⟨1, 1⟩⟩,
      ⟨.identifier, "x", ⟨1, 5⟩⟩, ⟨.semicolon, ";", ⟨1, 6⟩⟩, .atEnd ⟨2, 1⟩] := by cbv
  have lined : Lined "int x;\n".toList := .inr (by decide)
  have inner : '\n' ∉ "\t/* @\" \\ é\x00\r".toList := by decide
  have unreturned : '\r' ∉ "\t/* @\" \\ é\x00\r".toList.dropLast := by decide
  exact ⟨read, lined, inner, unreturned, (tokens_comment read lined inner).1.mpr unreturned⟩

/-- A carriage return inside a comment makes its slashes and its words tokens. -/
theorem return_unhidden :
    tokens "" = .ok [.atEnd ⟨1, 1⟩] ∧ Lined "".toList ∧ '\n' ∉ "a\rb".toList ∧
    tokens ("" ++ "//" ++ "a\rb" ++ "\n" ++ "") = .ok [⟨.slash, "/", ⟨1, 1⟩⟩, ⟨.slash, "/", ⟨1, 2⟩⟩,
      ⟨.identifier, "a", ⟨1, 3⟩⟩, ⟨.identifier, "b", ⟨1, 5⟩⟩, .atEnd ⟨2, 1⟩] ∧
    tokens ("" ++ "\n" ++ "") = .ok [.atEnd ⟨2, 1⟩] := by
  refine ⟨by cbv, .inl rfl, by decide, by cbv, by cbv⟩

end SmallC
