import SmallC.Proofs.Ending.Units
import SmallC.Proofs.Report.Solid
import SmallC.Proofs.Scoping.Naming
import SmallC.Proofs.Typing.Compilation

/-! Carets: the place of a token points to it in the line that is found for it, and so does the mark of
every report. -/

namespace SmallC

/-! Tokens. -/

/-- Where a token stands in a source: what is before it gives its place, and only the end of the source
shows nothing. -/
structure Token.Stands (token : Token) (source before rest : List Char) : Prop where
  /-- It stands between other pieces of the source. -/
  split : source = before ++ (token.text.toList ++ rest)
  /-- What is before it gives its place. -/
  place : token.position = placeAfter before
  /-- It is a solid piece, unless the source ends there. -/
  piece : token.kind ≠ .done ∧ Solid token.text.toList ∨ token = .atEnd (placeAfter source)

/-- Every token of a source stands there. -/
theorem Tiled.stands {before text : List Char} {tokens : List Token} (tiled : Tiled before text tokens) :
    ∀ token ∈ tokens, ∃ front rest, token.Stands (before ++ text) front rest := by
  -- Along the tiles, what has been passed is kept in front of what is left.
  induction tiled with
  | @done before gaps apart =>
    intro token member
    obtain rfl := List.mem_singleton.mp member
    refine ⟨before ++ gaps, [], ?_, rfl, .inr rfl⟩
    simp [Token.atEnd]
  | @token before gaps piece rest kind tokens apart gapless munch further ih =>
    intro token member
    rcases List.mem_cons.mp member with rfl | member
    · refine ⟨before ++ gaps, rest, ?_, rfl, .inl ⟨munch.lexeme.ne_done, ?_⟩⟩
      · simp
      · rw [String.toList_ofList]
        exact munch.lexeme.solid
    · obtain ⟨front, behind, stands⟩ := ih token member
      exact ⟨front, behind, by simpa using stands⟩

theorem column_placeAfter (before : List Char) :
    (placeAfter before).column = (sinceNewline before).length + 1 := by
  simp [placeAfter, sinceNewline]

/-- The line that shows a token of a source. -/
structure ShownOn (source : String) (token : Token) (line : String) : Prop where
  /-- It is found by its number. -/
  found : lineText? source token.position.line = some line
  /-- It is one line. -/
  whole : '\n' ∉ line.toList
  /-- The token stands in it behind as many characters as its column says. -/
  under : token.text.toList <+: line.toList.drop (token.position.column - 1)
  /-- Whatever is not the end of the source is to be seen there. -/
  seen : token.kind ≠ .done → token.text ≠ ""
  /-- The end of the source stands behind all of it. -/
  ended : token.kind = .done → token.position = placeAfter source.toList

/-- Every token of a source is shown by its line. -/
theorem Token.Stands.shown {token : Token} {source : String} {before rest : List Char}
    (stands : token.Stands source.toList before rest) : ∃ line, ShownOn source token line := by
  -- The line is what is under way before the token and what follows up to the next newline.
  have found := lineText?_append before (token.text.toList ++ rest)
  have number : token.position.line = before.count '\n' + 1 := by rw [stands.place]; rfl
  have column : token.position.column - 1 = (sinceNewline before).length := by
    rw [stands.place, column_placeAfter, Nat.add_sub_cancel]
  rw [← stands.split, String.ofList_toList, ← number] at found
  have whole : '\n' ∉ trimEnd (sinceNewline before ++ throughNewline (token.text.toList ++ rest)) := by
    rw [← throughNewline_append (newline_not_mem_sinceNewline before)]
    exact newline_not_mem_trimEnd _
  refine ⟨_, found, by rwa [String.toList_ofList], ?_, ?_, ?_⟩
  · rw [String.toList_ofList, column]
    rcases stands.piece with ⟨-, solid⟩ | ended
    · -- What is trimmed stands behind the last character of the token.
      obtain ⟨last, ends, seen⟩ := Option.map_eq_some_iff.mp solid.seen
      obtain ⟨front, spelled⟩ := List.getLast?_eq_some_iff.mp ends
      rw [throughNewline_append solid.inner, ← List.append_assoc, spelled, ← List.append_assoc,
        trimEnd_append seen, List.append_assoc, List.append_assoc, List.drop_left]
      simp
    · simp [ended, Token.atEnd]
  · intro other
    rcases stands.piece with ⟨-, solid⟩ | ended
    · rintro empty
      have seen := solid.seen
      rw [empty] at seen
      cases seen
    · exact absurd (congrArg Token.kind ended) other
  · intro done
    rcases stands.piece with ⟨other, -⟩ | ended
    · exact absurd done other
    · exact congrArg Token.position ended

/-! Reports. -/

/-- A reader whose tokens, and with them all reports, are at the given places. -/
structure Reader.Placed (places : List Position) (reader : Reader) : Prop where
  /-- The tokens that are left are there. -/
  tokens : ∀ token ∈ reader.remaining, token.position ∈ places
  /-- The next report is put at the token in hand. -/
  here : reader.checker.position = reader.current.position
  /-- All reports so far are there. -/
  reports : ∀ report ∈ reader.checker.reports, report.position ∈ places

/-- Wherever a reader travels, it reports at its tokens. -/
theorem Reader.Travels.placed {places : List Position} {taken : Nat} {reader next : Reader}
    (travels : Reader.Travels taken reader next) (placed : reader.Placed places) :
    next.Placed places := by
  -- Tokens are only taken away, and the checker reports at the one in hand.
  induction travels with
  | refl => exact placed
  | @take taken reader next further _ ih =>
    obtain ⟨tokens, here, reports⟩ := placed
    refine ih ⟨?_, rfl, reports⟩
    -- Behind the last token the source ends at the place of that token.
    obtain ⟨current, rest, checker, limit⟩ := reader
    cases rest with
    | nil =>
      intro token member
      obtain rfl := List.mem_singleton.mp member
      exact tokens current (List.mem_singleton_self current)
    | cons following rest => exact fun token member => tokens token (List.mem_cons_of_mem _ member)
  | @act taken reader next checker stays _ ih =>
    obtain ⟨tokens, here, reports⟩ := placed
    refine ih ⟨tokens, stays.position.trans here, fun report member => ?_⟩
    rcases stays.reports report member with earlier | now
    · exact reports report earlier
    · rw [now, here]
      exact tokens reader.current (List.mem_cons_self)

/-- Whatever is reported of a unit is reported at one of its tokens. -/
theorem readUnit_placed {σ : Type} (consume : Consumer σ) {tokens : List Token} (some : tokens ≠ [])
    (limit : Nat) (output : σ) :
    (readUnit consume tokens limit output).reader.Placed (tokens.map Token.position) := by
  obtain ⟨-, -, ⟨taken, travels⟩, -⟩ :=
    Metered.finishes_readUnit consume (Nat.lt_succ_self tokens.length) limit output
  refine travels.placed ?_
  cases tokens with
  | nil => exact absurd rfl some
  | cons first rest =>
    exact ⟨fun token member => List.mem_map_of_mem member, rfl, fun report member => nomatch member⟩

/-- A report that quotes a line by its number and, in the next row, has a mark under the character that
so many others stand before: both rows start with margins of one width. -/
def Marks (colored : Bool) (report : String) (number : Nat) (line : String) (offset : Nat) : Prop :=
  let bar := " " ++ paint colored .frame "|" ++ " "
  ∃ head tail : String, report = head ++ (paint colored .frame (toString number) ++ bar ++ line ++ "\n"
    ++ spaces (toString number).length ++ bar ++ spaces offset ++ paint colored .alarm "^" ++ "\n") ++ tail

theorem samePath_self (path : String) : samePath path path = true :=
  beq_self_eq_true _

/-- Where the line of a place is found, the report marks it. -/
theorem Diagnostic.human_marks {diagnostic : Diagnostic} {file source line : String} {place : Position}
    (here : diagnostic.location? = some ⟨file, place.line, place.column⟩)
    (found : lineText? source place.line = some line) (colored : Bool) (others : Sources) :
    Marks colored (diagnostic.human colored ((file, source) :: others)) place.line line
      (place.column - 1) := by
  have known : contentOf? ((file, source) :: others) file = some source := by
    simp [contentOf?, samePath_self]
  -- Before the two rows stand the message, the place and an empty margin, and behind them the hints.
  refine ⟨paint colored .alarm "error" ++ ": " ++ paint colored .strong diagnostic.message ++ "\n"
    ++ (" " ++ paint colored .frame "-->" ++ " " ++ file ++ ":" ++ toString place.line ++ ":"
      ++ toString place.column ++ "\n" ++ (spaces (toString place.line).length ++ " "
      ++ paint colored .frame "|" ++ "\n")), String.join (diagnostic.hints.map fun hint =>
      paint colored .frame "help" ++ ": " ++ hint ++ "\n"), ?_⟩
  simp only [Diagnostic.human, here, Option.map_some, Option.getD_some, showLocation, known,
    Option.bind_some, found, quoteLine, String.append_assoc]

/-- Positions of tokens and lines of reports agree. Every token of a source is shown by the line that is
found for its number, behind as many characters as its column says, and the end of the source has a line
too; every diagnostic of a compilation is put at a token, and the report quotes that line with its mark
under the first character of the token, or at the end of the source. -/
theorem carets_under_tokens {source : String} {found : List Token}
    (read : tokens source = .ok found) :
    (∀ token ∈ found, ∃ line, ShownOn source token line) ∧
    ∀ (options : Options) (file : String) (compilation : Compilation),
      compile options file source = .ok compilation → ∀ diagnostic ∈ compilation.diagnostics,
        ∃ token ∈ found, ∃ line, ShownOn source token line ∧
          diagnostic.location? = some ⟨file, token.position.line, token.position.column⟩ ∧
          ∀ colored others, Marks colored (diagnostic.human colored ((file, source) :: others))
            token.position.line line (token.position.column - 1) := by
  have tiled := tiled_of_tokens read
  have shown : ∀ token ∈ found, ∃ line, ShownOn source token line := by
    intro token member
    obtain ⟨before, rest, stands⟩ := tiled.stands token member
    exact stands.shown
  refine ⟨shown, fun options file compilation compiled diagnostic member => ?_⟩
  obtain ⟨others, lexed, -, -, diagnostics⟩ := compile_outcome compiled
  obtain rfl : others = found := by
    rw [tokensOf, read] at lexed
    exact (Except.ok.inj lexed).symm
  -- The place of the report is that of a token.
  rw [diagnostics] at member
  obtain ⟨report, reported, rfl⟩ := List.mem_map.mp member
  have placed := (readUnit_placed (recording options.checkOnly) tiled.ne_nil options.limit ({}, [])).reports
    report reported
  obtain ⟨token, inside, here⟩ := List.mem_map.mp placed
  obtain ⟨line, shows⟩ := shown token inside
  have location : (report.diagnostic file).location? =
      Option.some ⟨file, token.position.line, token.position.column⟩ := by
    rw [here]
    rfl
  exact ⟨token, inside, line, shows, location, Diagnostic.human_marks location shows.found⟩

/-- A source with a comment of two lines, and with a tab and letters of two bytes before a fault. -/
def accentedSource : String :=
  "/* \u00e9\r\n */\r\nint f(void) \x7b\n\treturn \"\u00e9\u00e9\" * y;\r\n\x7d"

/-- Its tokens. -/
def accentedTokens : List Token := (tokens accentedSource).toOption.getD []

set_option maxRecDepth 4000 in
/-- The name that is not declared is reported behind it, at the seventeenth character of the fourth
line. -/
theorem carets_under_tokens_accented :
    ∃ compilation, tokens accentedSource = .ok accentedTokens ∧
      compile { checkOnly := true } "a.c" accentedSource = .ok compilation ∧
      compilation.diagnostics.map Diagnostic.location? = [some ⟨"a.c", 4, 17⟩] ∧
      lineText? accentedSource 4 = some "\treturn \"\u00e9\u00e9\" * y;" ∧
      ∀ diagnostic ∈ compilation.diagnostics, ∃ token ∈ accentedTokens, ∃ line,
        ShownOn accentedSource token line ∧
          diagnostic.location? = some ⟨"a.c", token.position.line, token.position.column⟩ ∧
          Marks false (diagnostic.human false [("a.c", accentedSource)]) token.position.line line
            (token.position.column - 1) := by
  have read : tokens accentedSource = .ok accentedTokens := by cbv
  have lexed : tokensOf accentedSource = .ok accentedTokens := by rw [tokensOf, read]; rfl
  have ended : (readUnit (generating true) accentedTokens defaultLimit {}).failure? = none := by cbv
  have compiles : ∃ compilation, compile { checkOnly := true } "a.c" accentedSource = .ok compilation ∧
      _ := compile_of_read lexed "a.c" ended
  obtain ⟨compilation, compiled, -⟩ := compiles
  obtain ⟨others, again, -, -, diagnostics⟩ := compile_outcome compiled
  obtain rfl := Except.ok.inj (lexed.symm.trans again)
  have places : (readUnit (recording true) accentedTokens defaultLimit ({}, [])).reader.checker.reports.map
      Report.position = [⟨4, 17⟩] := by cbv
  refine ⟨compilation, read, compiled, ?_, by cbv, fun diagnostic member => ?_⟩
  · have located := congrArg (List.map fun place : Position =>
      some (Location.mk "a.c" place.line place.column)) places
    rw [diagnostics, List.map_map]
    rwa [List.map_map] at located
  · obtain ⟨token, inside, line, shows, here, marks⟩ :=
      (carets_under_tokens read).2 { checkOnly := true } "a.c" compilation compiled diagnostic member
    exact ⟨token, inside, line, shows, here, marks false []⟩

end SmallC
