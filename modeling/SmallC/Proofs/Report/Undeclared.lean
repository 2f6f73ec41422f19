import SmallC.Proofs.Report.Messages
import SmallC.Proofs.Report.Procedures
import SmallC.Proofs.Report.Solid
import SmallC.Proofs.Scoping.Naming
import SmallC.Proofs.Typing.Compilation

/-! Missing names: which use of a name a report that it is not declared is about, and that it is put at
the token behind that use, which may be in another line. -/

namespace SmallC

/-! Tokens and the gaps between them. -/

/-- The first token stands behind a gap. -/
theorem Tiled.first {before text : List Char} {token : Token} {others : List Token}
    (tiled : Tiled before text (token :: others)) : ∃ gap after, text = gap ++ after ∧ Gaps gap after ∧
      token.position = placeAfter (before ++ gap) := by
  cases tiled with
  | done apart => exact ⟨text, [], (List.append_nil text).symm, apart, rfl⟩
  | token apart => exact ⟨_, _, rfl, apart, rfl⟩

/-- A token of a source with the gap between it and the next one. -/
structure Token.Followed (token next : Token) (source gap : List Char) : Prop where
  /-- The source goes on with the gap. -/
  split : ∃ before after, source = before ++ (token.text.toList ++ (gap ++ after)) ∧
    token.position = placeAfter before ∧ Gaps gap after
  /-- The next one stands behind both. -/
  place : next.position = token.position.after (token.text.toList ++ gap)
  /-- The token stays in its line. -/
  inner : '\n' ∉ token.text.toList

/-- Every token but the last is followed by a gap and the next one. -/
theorem Tiled.followed {before text : List Char} {front rest : List Token} {token next : Token}
    (tiled : Tiled before text (front ++ token :: next :: rest)) :
    ∃ gap, token.Followed next (before ++ text) gap := by
  generalize same : front ++ token :: next :: rest = tokens at tiled
  -- The tiles in front of the token are taken off one by one.
  induction front generalizing before text tokens with
  | nil =>
    cases tiled with
    | done => cases same
    | @token _ gaps piece rest kind tokens apart gapless munch further =>
      obtain ⟨rfl, rfl⟩ := List.cons.inj same
      obtain ⟨gap, after, rfl, between, place⟩ := further.first
      refine ⟨gap, ⟨before ++ gaps, after, ?_, rfl, between⟩, ?_, ?_⟩
      · simp
      · rw [place]
        simp [placeAfter_append]
      · rw [String.toList_ofList]
        exact munch.lexeme.solid.inner
  | cons first front ih =>
    cases tiled with
    | done => simp at same
    | @token _ gaps piece rest kind tokens apart gapless munch further =>
      obtain ⟨-, inside⟩ := List.cons.inj same
      obtain ⟨gap, followed⟩ := ih _ inside further
      exact ⟨gap, by simpa using followed⟩

/-- The next token is as many lines below as there are newlines in between. -/
theorem Token.Followed.line {token next : Token} {source gap : List Char}
    (followed : token.Followed next source gap) :
    next.position.line = token.position.line + gap.count '\n' := by
  rw [followed.place, line_after, List.count_append, List.count_eq_zero.mpr followed.inner,
    Nat.zero_add]

/-! Walks through the tokens of a source. -/

namespace Reader

/-- A reader that is somewhere among the tokens of a source, or has come to their end. -/
structure Among (tokens : List Token) (reader : Reader) : Prop where
  /-- What is left ends with the source. -/
  ended : Ended reader.remaining
  /-- It is what stands behind the tokens that have been passed. -/
  passed : reader.current.kind ≠ .done → ∃ front, tokens = front ++ reader.remaining

/-- A unit is read from its first token. -/
theorem among_before {tokens : List Token} (ended : Ended tokens) (limit : Nat) :
    (before tokens limit {}).Among tokens := by
  have remaining : (before tokens limit {}).remaining = tokens :=
    congrArg Stage.tokens (stage_before ended limit)
  exact ⟨by rwa [remaining], fun _ => ⟨[], remaining.symm⟩⟩

/-- Whatever is not the end has a token behind it. -/
theorem Among.split {tokens : List Token} {reader : Reader} (among : reader.Among tokens)
    (further : reader.current.kind ≠ .done) :
    ∃ front rest, tokens = front ++ reader.current :: reader.next :: rest := by
  obtain ⟨current, rest, checker, limit⟩ := reader
  obtain ⟨front, split⟩ := among.passed further
  cases rest with
  | nil => exact (among.ended.tail further).elim
  | cons next rest => exact ⟨front, rest, split⟩

theorem Among.step {tokens : List Token} {reader : Reader} (among : reader.Among tokens) :
    reader.step.Among tokens := by
  obtain ⟨current, rest, checker, limit⟩ := reader
  obtain ⟨ended, passed⟩ := among
  by_cases done : current.kind = .done
  · -- Behind the end stands another end.
    obtain rfl : rest = [] := ended.last done
    exact ⟨by simp [remaining, Reader.step, next, Ended, Token.atEnd], fun further => absurd rfl further⟩
  · obtain ⟨front, split⟩ := passed done
    have tail : Ended rest := ended.tail done
    cases rest with
    | nil => exact tail.elim
    | cons next rest =>
      exact ⟨tail, fun _ => ⟨front ++ [current], by rw [split, List.append_assoc]; rfl⟩⟩

/-- Wherever a reader walks, it stays among the tokens. -/
theorem Walks.among {tokens : List Token} {reader next : Reader} (walks : reader.Walks next)
    (among : reader.Among tokens) : next.Among tokens := by
  induction walks with
  | refl => exact among
  | take _ ih => exact ih among.step
  | resolve _ _ ih => exact ih ⟨among.step.ended, among.step.passed⟩
  | act _ _ ih => exact ih ⟨among.ended, among.passed⟩

/-- A reader with a name in hand that is not declared where it is. -/
structure Misses (name : String) (reader : Reader) : Prop where
  /-- A name is in hand. -/
  kind : reader.current.kind = .identifier
  /-- It is spelled like this. -/
  text : reader.current.text = name
  /-- No declaration of it is in force. -/
  absent : reader.checker.symbols.lookup? name = none

/-- Every missing name is missed on the way, and reported at the token behind it. -/
theorem Walks.missed {reader next : Reader} (walks : reader.Walks next) {report : Report}
    (reported : report ∈ next.checker.reports) {name : String}
    (missing : report.problem = .undeclared name) : report ∈ reader.checker.reports ∨
      ∃ user : Reader, reader.Walks user ∧ user.Misses name ∧ user.resolved.Walks next ∧
        report.position = user.next.position := by
  induction walks with
  | refl => exact .inl reported
  | take _ ih =>
    rcases ih reported with earlier | ⟨user, walks, found⟩
    · exact .inl earlier
    · exact .inr ⟨user, .take walks, found⟩
  | @resolve reader next named rest ih =>
    rcases ih reported with earlier | ⟨user, walks, found⟩
    · -- Either the name was found, or it is the one that is reported now.
      unfold resolved Checker.resolve at earlier
      split at earlier
      · exact .inl earlier
      · next absent =>
        rcases List.mem_append.mp earlier with earlier | now
        · exact .inl earlier
        · obtain rfl := List.mem_singleton.mp now
          cases missing
          exact .inr ⟨reader, .refl reader, ⟨named, rfl, absent⟩, rest, rfl⟩
    · exact .inr ⟨user, .resolve named walks, found⟩
  | act acts _ ih =>
    rcases ih reported with now | ⟨user, walks, found⟩
    · rcases acts.adds.knows.reports report now with earlier | known
      · exact .inl earlier
      · exact absurd missing (known name)
    · exact .inr ⟨user, .act acts walks, found⟩

end Reader

/-! Reports. -/

/-- A use of a name that is not declared there, with the token behind it. -/
structure Missed (options : Options) (source name : String) (use next : Token) (gap : List Char) :
    Prop where
  /-- Both are tokens of the source, and reading it comes to the use, misses the name and goes on. -/
  read : ∃ front rest, tokens source = .ok (front ++ use :: next :: rest) ∧
    ∃ user : Reader, (Reader.before (front ++ use :: next :: rest) options.limit {}).Walks user ∧
      user.current = use ∧ user.Misses name ∧ user.resolved.Walks
        (readUnit (recording options.checkOnly) (front ++ use :: next :: rest) options.limit ({}, [])).reader
  /-- The gap between them is all that separates them. -/
  followed : use.Followed next source.toList gap

/-- A missing name is reported at the token behind its use. The line that is quoted is as many lines
below that of the use as there are newlines in the gap between the two, so it shows the use exactly
when they stand in one line. -/
theorem undeclared_behind_use {options : Options} {file source : String} {compilation : Compilation}
    (compiled : compile options file source = .ok compilation) {diagnostic : Diagnostic}
    (member : diagnostic ∈ compilation.diagnostics) {name : String}
    (said : diagnostic.message = "'" ++ name ++ "' undeclared") :
    ∃ use next gap, Missed options source name use next gap ∧
      diagnostic.location? = some ⟨file, next.position.line, next.position.column⟩ ∧
      next.position.line = use.position.line + gap.count '\n' ∧
      (next.position.line = use.position.line ↔ '\n' ∉ gap) := by
  obtain ⟨found, lexed, -, -, diagnostics⟩ := compile_outcome compiled
  have ended := ended_tokensOf lexed
  have read := tokensOf_eq_ok.mp lexed
  rw [diagnostics] at member
  obtain ⟨report, reported, rfl⟩ := List.mem_map.mp member
  -- The unit is read in one walk, which comes to the use.
  have whole := readUnit_walks (recording options.checkOnly) found options.limit ({}, [])
  have missing : report.problem = .undeclared name := Problem.message_eq_undeclared.mp said
  rcases whole.missed reported missing with earlier | ⟨user, walks, misses, further, place⟩
  · exact nomatch earlier
  · have named : user.current.kind ≠ .done := by
      rw [misses.kind]
      decide
    -- A name is not the last token, so there is one behind it to report at.
    obtain ⟨front, rest, rfl⟩ := (walks.among (Reader.among_before ended options.limit)).split named
    obtain ⟨gap, followed⟩ := (tiled_of_tokens read).followed
    refine ⟨user.current, user.next, gap,
      ⟨⟨front, rest, read, user, walks, rfl, misses, further⟩, followed⟩, ?_, followed.line, ?_⟩
    · show some (Location.mk file report.position.line report.position.column) = _
      rw [place]
    · rw [followed.line, Nat.add_eq_left]
      exact List.count_eq_zero

/-- A source with a missing name at the end of a line. -/
def splitSource : String := "int f(void) \x7b return y\n; \x7d"

/-- Its tokens. -/
def splitTokens : List Token := (tokens splitSource).toOption.getD []

theorem tokens_splitSource : tokens splitSource = .ok splitTokens := by cbv

/-- The report is put at the front of the second line. -/
theorem compile_splitSource : ∃ compilation,
    compile { checkOnly := true } "a.c" splitSource = .ok compilation ∧
      ∃ diagnostic ∈ compilation.diagnostics, diagnostic.message = "'" ++ "y" ++ "' undeclared" ∧
        diagnostic.location? = some ⟨"a.c", 2, 1⟩ := by
  have lexed := tokensOf_eq_ok.mpr tokens_splitSource
  have ended : (readUnit (generating true) splitTokens defaultLimit {}).failure? = none := by cbv
  have compiles : ∃ compilation, compile { checkOnly := true } "a.c" splitSource = .ok compilation ∧
      _ := compile_of_read lexed "a.c" ended
  obtain ⟨compilation, compiled, -⟩ := compiles
  obtain ⟨others, again, -, -, diagnostics⟩ := compile_outcome compiled
  obtain rfl := Except.ok.inj (lexed.symm.trans again)
  have reports : (readUnit (recording true) splitTokens defaultLimit ({}, [])).reader.checker.reports =
      [⟨.undeclared "y", ⟨2, 1⟩⟩] := by cbv
  refine ⟨compilation, compiled, Report.diagnostic ⟨.undeclared "y", ⟨2, 1⟩⟩ "a.c", ?_, rfl, rfl⟩
  rw [diagnostics]
  exact List.mem_map_of_mem (reports ▸ List.mem_singleton_self _)

/-- The name stands in the first line, and a newline is the gap behind it. -/
theorem undeclared_behind_use_split : ∃ compilation,
    compile { checkOnly := true } "a.c" splitSource = .ok compilation ∧
      ∃ diagnostic ∈ compilation.diagnostics, diagnostic.message = "'" ++ "y" ++ "' undeclared" ∧
        ∃ use next gap, Missed { checkOnly := true } splitSource "y" use next gap ∧
          diagnostic.location? = some ⟨"a.c", next.position.line, next.position.column⟩ ∧
          next.position.line = use.position.line + gap.count '\n' ∧
          (next.position.line = use.position.line ↔ '\n' ∉ gap) := by
  obtain ⟨compilation, compiled, diagnostic, member, said, -⟩ := compile_splitSource
  exact ⟨compilation, compiled, diagnostic, member, said, undeclared_behind_use compiled member said⟩

/-- The line that is quoted for the name does not hold it. -/
theorem undeclared_unquoted : ∃ compilation,
    compile { checkOnly := true } "a.c" splitSource = .ok compilation ∧
      (∃ diagnostic ∈ compilation.diagnostics, diagnostic.message = "'" ++ "y" ++ "' undeclared" ∧
        diagnostic.location? = some ⟨"a.c", 2, 1⟩) ∧
      tokens splitSource = .ok splitTokens ∧
      ∀ token ∈ splitTokens, token.kind = .identifier → token.text = "y" →
        token.position.line ≠ 2 := by
  obtain ⟨compilation, compiled, reported⟩ := compile_splitSource
  have lines : splitTokens.all (fun token => token.text ≠ "y" || token.position.line ≠ 2) = true := by cbv
  refine ⟨compilation, compiled, reported, tokens_splitSource, fun token member _ spelled => ?_⟩
  simpa [spelled] using List.all_eq_true.mp lines token member

end SmallC
