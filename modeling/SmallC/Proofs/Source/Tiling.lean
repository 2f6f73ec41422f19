import Mathlib.Data.List.Induction
import SmallC.Proofs.Source.Lexemes
import SmallC.Source.Tokens

/-! Tokens tile their source: between gaps stands lexeme after lexeme, each the longest one at its
place, and nothing of the text is left out. -/

namespace SmallC

/-- A blank or a comment at the front of a text, with what follows it. -/
inductive Gap : List Char → List Char → Prop where
  /-- A space, a tab, a carriage return or a newline. -/
  | blank {character : Char} {rest : List Char} (separates : isBlank character = true) :
    Gap [character] rest
  /-- A comment up to the first mark that closes it. -/
  | block {body rest : List Char} (first : ¬ ['*', '/'] <:+: body ++ ['*']) :
    Gap ('/' :: '*' :: (body ++ ['*', '/'])) rest
  /-- A comment up to the end of its line. -/
  | line {body rest : List Char} (inner : ∀ character ∈ body, isLineEnd character = false)
    (ends : endsLine rest = true) : Gap ('/' :: '/' :: body) rest

/-- Blanks and comments one after another, with what follows them. -/
inductive Gaps : List Char → List Char → Prop where
  /-- Nothing. -/
  | nil {rest : List Char} : Gaps [] rest
  /-- One more in front. -/
  | cons {gap others rest : List Char} (first : Gap gap (others ++ rest)) (further : Gaps others rest) :
    Gaps (gap ++ others) rest

/-- No blank and no comment begins the text, closed or not. -/
structure Gapless (text : List Char) : Prop where
  /-- Nothing that separates tokens is at the front. -/
  apart : ∀ {gap rest}, gap ++ rest = text → ¬ Gap gap rest
  /-- No comment is opened. -/
  unopened : ¬ ['/', '*'] <+: text

/-- The place behind a text: one more than its newlines, and one more than the characters since the
last of them. -/
def placeAfter (before : List Char) : Position where
  line := before.count '\n' + 1
  column := (before.reverse.takeWhile (· ≠ '\n')).length + 1

/-- The tokens of a text behind what stands before it. -/
inductive Tiled : (before text : List Char) → List Token → Prop where
  /-- Behind the last gap the source ends. -/
  | done {before gaps : List Char} (apart : Gaps gaps []) :
    Tiled before gaps [.atEnd (placeAfter (before ++ gaps))]
  /-- Behind a gap stands the longest lexeme that there is. -/
  | token {before gaps piece rest : List Char} {kind : TokenKind} {tokens : List Token}
    (apart : Gaps gaps (piece ++ rest)) (gapless : Gapless (piece ++ rest))
    (munch : Munch kind piece rest) (further : Tiled (before ++ gaps ++ piece) rest tokens) :
    Tiled before (gaps ++ (piece ++ rest))
      (⟨kind, String.ofList piece, placeAfter (before ++ gaps)⟩ :: tokens)

/-! Places. -/

theorem after_append (position : Position) (first second : List Char) :
    position.after (first ++ second) = (position.after first).after second :=
  List.foldl_append

/-- A text moves a place down by its newlines. -/
theorem line_after (position : Position) (text : List Char) :
    (position.after text).line = position.line + text.count '\n' := by
  induction text generalizing position with
  | nil => rfl
  | cons character text ih =>
    show ((position.advance character).after text).line = _
    rw [ih, Position.advance]
    split
    · next newline =>
      rw [newline, List.count_cons_self]
      show position.line + 1 + _ = _
      omega
    · next other => rw [List.count_cons_of_ne other]

theorem after_start (before : List Char) : Position.start.after before = placeAfter before := by
  -- Places are counted on from the left, so the last character is taken off the right.
  induction before using List.reverseRecOn with
  | nil => rfl
  | append_singleton before character ih =>
    rw [after_append, ih]
    simp only [Position.after, List.foldl, Position.advance]
    split
    · next newline => simp [placeAfter, newline]
    · next other => simp [placeAfter, other]

theorem placeAfter_append (before text : List Char) :
    (placeAfter before).after text = placeAfter (before ++ text) := by
  rw [← after_start, ← after_start, after_append]

/-! Gaps. -/

/-- What starts with a slash before its closing mark starts with it in the body. -/
theorem body_slash {body tail rest : List Char} (same : body ++ '*' :: tail = '/' :: rest) :
    ∃ further, body = '/' :: further := by
  cases body with
  | nil => cases same
  | cons first further =>
    obtain ⟨rfl, -⟩ := List.cons.inj same
    exact ⟨further, rfl⟩

theorem throughClose_sound {text : List Char} {cut : Cut} (found : throughClose text = some cut) :
    ∃ body, cut.1 = body ++ ['*', '/'] ∧ ¬ ['*', '/'] <:+: body ++ ['*'] := by
  -- The mark is looked for at every character in turn.
  fun_induction throughClose text generalizing cut with
  | case1 => cases found
  | case2 rest =>
    cases found
    exact ⟨[], rfl, by decide⟩
  | case3 character rest unclosed ih =>
    obtain ⟨inner, step, rfl⟩ := Option.map_eq_some_iff.mp found
    obtain ⟨body, same, first⟩ := ih step
    refine ⟨character :: body, by simp [same], fun inside => ?_⟩
    rcases List.infix_cons_iff.mp inside with ⟨tail, front⟩ | inside
    · -- The mark would already have been closed here.
      have here : character :: (body ++ ['*']) = '*' :: '/' :: tail := front.symm
      obtain ⟨rfl, slash⟩ := List.cons.inj here
      obtain ⟨further, rfl⟩ := body_slash slash
      have split := throughClose_append step
      rw [same] at split
      exact unclosed _ rfl split.symm
    · exact first inside

theorem throughClose_complete {body : List Char} (first : ¬ ['*', '/'] <:+: body ++ ['*'])
    (rest : List Char) :
    throughClose (body ++ '*' :: '/' :: rest) = some (body ++ ['*', '/'], rest) := by
  induction body with
  | nil => rfl
  | cons character body ih =>
    have later : ¬ ['*', '/'] <:+: body ++ ['*'] := fun inside => first (inside.trans
      (List.suffix_cons character (body ++ ['*'])).isInfix)
    rw [List.cons_append, throughClose, ih later]
    · rfl
    · -- A mark that closed the comment here would lie inside the body.
      rintro others rfl closed
      obtain ⟨further, rfl⟩ := body_slash closed
      exact first ⟨[], further ++ ['*'], rfl⟩

theorem gap?_sound {text : List Char} {cut : Cut} (found : gap? text = some (.ok cut)) :
    Gap cut.1 cut.2 := by
  -- The branches in turn: a comment with marks at both ends, one that ends with its line, a blank, and
  -- no gap.
  unfold gap? at found
  split at found
  · split at found
    · next closed =>
      cases found
      obtain ⟨body, same, first⟩ := throughClose_sound closed
      exact same ▸ .block first
    · cases found
  · dsimp only at found
    split at found
    · next ends =>
      cases found
      refine .line (fun character member => ?_) ends
      simpa using passes_splitWhile _ _ character member
    · cases found
  · split at found
    · next separates =>
      cases found
      exact .blank separates
    · cases found
  · cases found

theorem gap?_complete {gap rest : List Char} (gaps : Gap gap rest) :
    gap? (gap ++ rest) = some (.ok (gap, rest)) := by
  cases gaps with
  | @blank character _ separates =>
    -- A blank is no slash, so it opens no comment.
    have other : character ≠ '/' := by
      rintro rfl
      cases separates
    rw [List.cons_append, List.nil_append, gap?, if_pos separates]
    · exact fun _ same => absurd same other
    · exact fun _ same => absurd same other
  | block first => simp [gap?, throughClose_complete first]
  | @line body _ inner ends =>
    -- The body is cut off whole, and the end of the line stops it.
    have passes : ∀ character ∈ body, (fun character => !isLineEnd character) character = true :=
      fun character member => by simp [inner character member]
    have stops : splitWhile (fun character => !isLineEnd character) rest = ([], rest) := by
      unfold endsLine at ends
      split at ends
      · rfl
      · exact splitWhile_stop rfl _
      · exact splitWhile_stop rfl _
      · cases ends
    simp [gap?, splitWhile_run passes, stops, ends]

/-- Where no gap is found, none begins the text. -/
theorem gapless_of_none {text : List Char} (nothing : gap? text = none) : Gapless text where
  apart split gap := by
    rw [← split, gap?_complete gap] at nothing
    cases nothing
  unopened := by
    rintro ⟨rest, rfl⟩
    simp only [List.cons_append, List.nil_append, gap?] at nothing
    split at nothing <;> cases nothing

/-- Where no gap begins the text, none is found. -/
theorem Gapless.none {text : List Char} (gapless : Gapless text) : gap? text = none := by
  cases found : gap? text with
  | none => rfl
  | some result =>
    cases result with
    | ok cut => exact absurd (gap?_sound found) (gapless.apart (gap?_append found).1)
    | error fault =>
      -- The only fault is a comment that is never closed.
      unfold gap? at found
      split at found
      · exact absurd ⟨_, rfl⟩ gapless.unopened
      · dsimp only at found
        split at found <;> cases found
      · split at found <;> cases found
      · cases found

/-! Tokens. -/

/-- A source has a token at least, which ends it. -/
theorem Tiled.ne_nil {before text : List Char} {tokens : List Token}
    (tiled : Tiled before text tokens) : tokens ≠ [] := by
  cases tiled <;> exact List.cons_ne_nil _ _

/-- A gap in front belongs to the gap before the first token. -/
theorem Tiled.gap {before gap text : List Char} {tokens : List Token} (apart : Gap gap text)
    (tiled : Tiled (before ++ gap) text tokens) : Tiled before (gap ++ text) tokens := by
  cases tiled with
  | @done _ gaps others =>
    -- Both gaps together stand before the end, or before the first token.
    rw [List.append_assoc]
    exact .done (.cons (by rwa [List.append_nil]) others)
  | @token _ gaps piece rest kind tokens others gapless munch further =>
    rw [List.append_assoc, ← List.append_assoc gap]
    refine .token (.cons apart others) gapless munch ?_
    rwa [← List.append_assoc before]

/-- Reading passes over gaps. -/
theorem tokensFrom_gaps {gaps text : List Char} (apart : Gaps gaps text) (position : Position) :
    tokensFrom position (gaps ++ text) = tokensFrom (position.after gaps) text := by
  induction apart generalizing position with
  | nil => rfl
  | @cons gap others rest first _ ih =>
    have read := gap?_complete first
    have some : (gap ++ (others ++ rest)).isEmpty = false := by
      cases first <;> rfl
    rw [List.append_assoc, tokensFrom, some]
    simp only [Bool.false_eq_true, if_false]
    split
    · next fault failed => rw [read] at failed; cases failed
    · next cut found =>
      -- The gap that is found is this one, for a gap is read as far as it goes.
      rw [read] at found
      cases found
      rw [ih, after_append]
    · next nothing => rw [read] at nothing; cases nothing

/-- Where no gap begins the text and a lexeme does, a token is read, and reading goes on behind it. -/
theorem tokensFrom_lexeme {kind : TokenKind} {piece rest : List Char}
    (gapless : Gapless (piece ++ rest)) (munch : Munch kind piece rest) (position : Position) :
    tokensFrom position (piece ++ rest) =
      (tokensFrom (position.after piece) rest).map (⟨kind, String.ofList piece, position⟩ :: ·) := by
  have read := lexeme?_eq_ok.mpr munch
  -- A lexeme has a character at least, so the text is not at its end.
  have some : (piece ++ rest).isEmpty = false := by
    have spelled := (lexeme?_append read).2
    cases piece with
    | nil => cases spelled rfl
    | cons => rfl
  rw [tokensFrom, some]
  simp only [Bool.false_eq_true, if_false]
  split
  · next failed => rw [gapless.none] at failed; cases failed
  · next found => rw [gapless.none] at found; cases found
  · split
    · next failed => rw [read] at failed; cases failed
    · next found =>
      rw [read] at found
      cases found
      cases tokensFrom (position.after piece) rest <;> rfl

theorem tokensFrom_munch {kind : TokenKind} {piece rest : List Char}
    (gapless : Gapless (piece ++ rest)) (munch : Munch kind piece rest) (position : Position)
    {tokens : List Token} (others : tokensFrom (position.after piece) rest = .ok tokens) :
    tokensFrom position (piece ++ rest) =
      .ok (⟨kind, String.ofList piece, position⟩ :: tokens) := by
  rw [tokensFrom_lexeme gapless munch, others]
  rfl

/-- Behind any text, exactly the tokens that tile what follows are read. -/
theorem tokensFrom_eq_ok {before text : List Char} {found : List Token} :
    tokensFrom (placeAfter before) text = .ok found ↔ Tiled before text found := by
  constructor
  · -- What is read tiles the text, gap by gap and lexeme by lexeme.
    generalize here : placeAfter before = position
    fun_induction tokensFrom position text generalizing before found with
    | case1 position text empty =>
      rintro ⟨⟩
      obtain rfl := List.isEmpty_iff.mp empty
      have ended := @Tiled.done before [] .nil
      rwa [List.append_nil, here] at ended
    | case2 | case4 | case5 => nofun
    | case3 position text _ cut skipped _ ih =>
      intro read
      subst here
      rw [← (gap?_append skipped).1]
      exact .gap (gap?_sound skipped) (ih (placeAfter_append ..).symm read)
    | case6 position text _ skipped kind cut read _ rest others ih =>
      rintro ⟨⟩
      subst here
      have whole := (lexeme?_append read).1
      have tiled := @Tiled.token before [] cut.1 cut.2 kind rest .nil
        (whole ▸ gapless_of_none skipped) (lexeme?_eq_ok.mp (whole.symm ▸ read))
        (by simpa using ih (placeAfter_append ..).symm others)
      simpa [whole] using tiled
  · -- What tiles the text is read, for gaps are passed over and the longest lexeme is taken.
    intro tiled
    induction tiled with
    | @done before gaps apart =>
      rw [← List.append_nil gaps, tokensFrom_gaps apart, placeAfter_append]
      simp [tokensFrom]
    | token apart gapless munch _ ih =>
      rw [tokensFrom_gaps apart, placeAfter_append]
      exact tokensFrom_munch gapless munch _ (by rw [placeAfter_append]; exact ih)

/-- Tokens that are found in a source tile it. -/
theorem tiled_of_tokens {source : String} {found : List Token} (read : tokens source = .ok found) :
    Tiled [] source.toList found :=
  (@tokensFrom_eq_ok [] source.toList found).mp read

/-- Tokens that tile a source are found in it. -/
theorem tokens_of_tiled {source : String} {found : List Token}
    (tiled : Tiled [] source.toList found) : tokens source = .ok found :=
  (@tokensFrom_eq_ok [] source.toList found).mpr tiled

/-- A source has exactly the tokens that tile it: they are in order the longest lexemes at their
places, each of the one kind that its spelling has, with blanks and comments and nothing else
between them; the place of each is that of the text before it, and behind the last gap the source
ends. -/
theorem tokens_eq_ok {source : String} {found : List Token} :
    tokens source = .ok found ↔ Tiled [] source.toList found :=
  @tokensFrom_eq_ok [] source.toList found

/-- Numbers and signs are as long as they can be, and the lines of a comment count. -/
example : (tokens "x<=1.5e3 /* two\nlines */ &&&").map (List.map fun token =>
    (token.text, token.position.line, token.position.column)) = .ok [("x", 1, 1), ("<=", 1, 2),
      ("1.5e3", 1, 4), ("&&", 2, 10), ("&", 2, 12), ("", 2, 13)] := by
  cbv

end SmallC
