import SmallC.Proofs.Source.Tiling

/-! Texts between double quotes: what their escapes denote, and how any text is spelled. -/

namespace SmallC

/-- What a character behind a backslash stands for. -/
inductive EscapeMeans : Char → Char → Prop where
  /-- A newline. -/
  | newline : EscapeMeans 'n' '\n'
  /-- A tab. -/
  | tab : EscapeMeans 't' '\t'
  /-- A carriage return. -/
  | carriageReturn : EscapeMeans 'r' '\r'
  /-- A zero. -/
  | zero : EscapeMeans '0' '\x00'
  /-- A backslash. -/
  | backslash : EscapeMeans '\\' '\\'
  /-- A quote. -/
  | quote : EscapeMeans '\x27' '\x27'
  /-- A double quote. -/
  | doubleQuote : EscapeMeans '"' '"'

/-- What the characters between double quotes denote. -/
inductive Denotes : List Char → List Char → Prop where
  /-- Nothing. -/
  | nil : Denotes [] []
  /-- A character that stands for itself. -/
  | plain {character : Char} {body value : List Char} (itself : character ∉ ['\\', '"', '\n'])
    (further : Denotes body value) : Denotes (character :: body) (character :: value)
  /-- An escape. -/
  | escape {escaped meant : Char} {body value : List Char} (means : EscapeMeans escaped meant)
    (further : Denotes body value) : Denotes ('\\' :: escaped :: body) (meant :: value)

/-- How a literal is spelled around what stands between its quotes. -/
def inQuotes (body : List Char) : List Char := '"' :: (body ++ ['"'])

/-! What literals denote. -/

theorem EscapeMeans.known {escaped meant : Char} (means : EscapeMeans escaped meant) :
    isEscape escaped = true ∧ escapeValue escaped = meant := by
  cases means <;> exact ⟨by decide, by decide⟩

/-- Every escape stands for something. -/
theorem escape_means {escaped : Char} (known : isEscape escaped = true) :
    ∃ meant, EscapeMeans escaped meant := by
  -- Seven characters may follow a backslash, and each has a meaning.
  simp only [isEscape, List.contains_iff_mem, List.mem_cons, List.not_mem_nil, or_false] at known
  rcases known with rfl | rfl | rfl | rfl | rfl | rfl | rfl
  · exact ⟨_, .newline⟩
  · exact ⟨_, .tab⟩
  · exact ⟨_, .carriageReturn⟩
  · exact ⟨_, .zero⟩
  · exact ⟨_, .backslash⟩
  · exact ⟨_, .quote⟩
  · exact ⟨_, .doubleQuote⟩

/-- Whatever may stand between double quotes denotes something. -/
theorem QuotedBody.denotes {body : List Char} (quoted : QuotedBody body) :
    ∃ value, Denotes body value := by
  induction quoted with
  | nil => exact ⟨[], .nil⟩
  | plain itself _ ih =>
    obtain ⟨value, denotes⟩ := ih
    exact ⟨_, .plain itself denotes⟩
  | escape known _ ih =>
    obtain ⟨value, denotes⟩ := ih
    obtain ⟨meant, means⟩ := escape_means known
    exact ⟨_, .escape means denotes⟩

/-- Only what may stand between double quotes denotes something. -/
theorem Denotes.quotedBody {body value : List Char} (denotes : Denotes body value) :
    QuotedBody body := by
  induction denotes with
  | nil => exact .nil
  | plain itself _ ih => exact .plain itself ih
  | escape means _ ih => exact .escape means.known.1 ih

theorem Denotes.resolved {body value : List Char} (denotes : Denotes body value) :
    resolveEscapes body = value := by
  induction denotes with
  | nil => rfl
  | @plain character body value itself _ ih =>
    have other : character ≠ '\\' := fun same => itself (by simp [same])
    rw [resolveEscapes, ih]
    · exact fun same => absurd same other
    · exact fun _ _ same => absurd same other
  | escape means _ ih => rw [resolveEscapes, ih, means.known.2]

/-- A literal is resolved to what it denotes. -/
theorem Denotes.unescaped {body value : List Char} (denotes : Denotes body value) :
    unescape (String.ofList (inQuotes body)) = String.ofList value := by
  -- The quotes are dropped at both ends before escapes are resolved.
  unfold unescape inQuotes
  rw [String.toList_ofList, List.tail_cons, List.dropLast_concat, denotes.resolved]

/-! How texts are spelled. -/

/-- How a character is spelled between double quotes. -/
def spelledInside : Char → List Char
  | '\\' => ['\\', '\\']
  | '"' => ['\\', '"']
  | '\n' => ['\\', 'n']
  | other => [other]

/-- A literal of a text, in which only backslashes, double quotes and newlines are escaped. -/
def literalOf (value : String) : String :=
  String.ofList (inQuotes (value.toList.flatMap spelledInside))

/-- Spelled characters denote themselves. -/
theorem denotes_spelled (value : List Char) : Denotes (value.flatMap spelledInside) value := by
  induction value with
  | nil => exact .nil
  | cons character value ih =>
    rw [List.flatMap_cons]
    unfold spelledInside
    split
    · exact .escape .backslash ih
    · exact .escape .doubleQuote ih
    · exact .escape .newline ih
    · next slashless unquoted inline => exact .plain (by simp_all) ih

/-- Where a literal is all there is, it is the one token before the end. -/
theorem tokens_inQuotes {body : List Char} (quoted : QuotedBody body) :
    tokens (String.ofList (inQuotes body)) = .ok [⟨.string, String.ofList (inQuotes body), .start⟩,
      .atEnd (Position.start.after (inQuotes body))] := by
  -- No gap is in front of the literal, and nothing longer is a lexeme.
  have munch : Munch .string (inQuotes body) [] := by
    refine lexeme?_eq_ok.mp ?_
    simpa [inQuotes] using reads_string quoted []
  have gapless : Gapless (inQuotes body ++ []) := gapless_of_none rfl
  have others : tokensFrom (Position.start.after (inQuotes body)) [] =
      .ok [.atEnd (Position.start.after (inQuotes body))] := by
    simp [tokensFrom]
  have read := tokensFrom_munch gapless munch .start others
  rw [List.append_nil] at read
  rw [tokens, String.toList_ofList, read]

end SmallC
