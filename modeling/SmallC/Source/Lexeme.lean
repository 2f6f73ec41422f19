import SmallC.Source.Token
import SmallC.Source.Escape

/-! Lexemes and gaps: what may stand at the front of a source text, and where it ends. -/

namespace SmallC

/-- What can be wrong with the characters of a source text. -/
inductive LexicalFault where
  /-- A block comment is never closed. -/
  | openComment
  /-- A single quote does not enclose one character or one escape. -/
  | malformedCharacter
  /-- A double quote is not closed on its line. -/
  | openString
  /-- No lexeme starts with the character. -/
  | unexpected (character : Char)
  deriving DecidableEq, Repr

/-- The message of a fault. -/
def LexicalFault.message : LexicalFault → String
  | .openComment => "unterminated comment"
  | .malformedCharacter => "malformed character literal"
  | .openString => "unterminated string literal"
  | .unexpected character => "unexpected character '" ++ character.toString ++ "'"

/-- A text cut in two after its first piece. -/
abbrev Cut := List Char × List Char

/-- Cut after the longest run of characters that pass the test. -/
def splitWhile (test : Char → Bool) (text : List Char) : Cut :=
  (text.takeWhile test, text.dropWhile test)

/-- Whether the character separates tokens. -/
def isBlank (character : Char) : Bool :=
  [' ', '\t', '\r', '\n'].contains character

/-- Whether the character ends a line comment, or makes it fail. -/
def isLineEnd (character : Char) : Bool :=
  character = '\r' || character = '\n'

/-- Whether the text is empty or starts with a line ending. -/
def endsLine : List Char → Bool
  -- A carriage return ends a line only before a newline.
  | [] | '\n' :: _ | '\r' :: '\n' :: _ => true
  | _ => false

/-- Cut after the first mark that closes a block comment. -/
def throughClose : List Char → Option Cut
  -- The first closing mark counts, whatever stands before it.
  | [] => none
  | '*' :: '/' :: rest => some (['*', '/'], rest)
  | character :: rest => (throughClose rest).map fun cut => (character :: cut.1, cut.2)

/-- Cut after the quote that closes a text, if its characters and escapes are sound. -/
def throughQuote : List Char → Option Cut
  -- A backslash must start an escape, and the text must end on its line.
  | [] => none
  | '"' :: rest => some (['"'], rest)
  | '\\' :: escaped :: rest =>
    if isEscape escaped then
      (throughQuote rest).map fun cut => ('\\' :: escaped :: cut.1, cut.2)
    else none
  | character :: rest =>
    if character = '\\' || character = '\n' then none
    else (throughQuote rest).map fun cut => (character :: cut.1, cut.2)

/-- One blank or one comment at the front of the text. -/
def gap? : List Char → Option (Except LexicalFault Cut)
  | '/' :: '*' :: rest =>
    match throughClose rest with
    | some cut => some (.ok ('/' :: '*' :: cut.1, cut.2))
    | none => some (.error .openComment)
  | '/' :: '/' :: rest =>
    -- The comment must reach the end of its line, and a lone carriage return is none.
    let body := splitWhile (fun character => !isLineEnd character) rest
    if endsLine body.2 then some (.ok ('/' :: '/' :: body.1, body.2)) else none
  | character :: rest => if isBlank character then some (.ok ([character], rest)) else none
  | [] => none

/-- Whether the character may start a name. -/
def isNameStart (character : Char) : Bool :=
  character.isAlpha || character = '_'

/-- Whether the character may continue a name. -/
def isNamePart (character : Char) : Bool :=
  character.isAlphanum || character = '_'

/-- A name or a keyword at the front of the text. -/
def word? : List Char → Option Cut
  -- The longest run is taken, so a keyword inside a longer name is none.
  | character :: rest =>
    if isNameStart character then
      let tail := splitWhile isNamePart rest
      some (character :: tail.1, tail.2)
    else none
  | [] => none

/-- The point and digits that may follow the digits of a number. -/
def fraction : List Char → Cut
  -- A point without digits belongs to what follows the number.
  | '.' :: rest =>
    let digits := splitWhile Char.isDigit rest
    if digits.1.isEmpty then ([], '.' :: rest) else ('.' :: digits.1, digits.2)
  | text => ([], text)

/-- The sign that may stand in an exponent. -/
def sign : List Char → Cut
  | '+' :: rest => (['+'], rest)
  | '-' :: rest => (['-'], rest)
  | text => ([], text)

/-- The exponent that may end a number. -/
def exponent : List Char → Cut
  -- A mark without digits belongs to what follows the number.
  | mark :: rest =>
    let signed := sign rest
    let digits := splitWhile Char.isDigit signed.2
    if (mark = 'e' || mark = 'E') && !digits.1.isEmpty then
      (mark :: (signed.1 ++ digits.1), digits.2)
    else ([], mark :: rest)
  | [] => ([], [])

/-- A number at the front of the text, real when it has a fraction or an exponent. -/
def number? (text : List Char) : Option (TokenKind × Cut) :=
  let whole := splitWhile Char.isDigit text
  if whole.1.isEmpty then none
  else
    let part := fraction whole.2
    let power := exponent part.2
    let kind := if part.1.isEmpty && power.1.isEmpty then .integer else .real
    some (kind, whole.1 ++ (part.1 ++ power.1), power.2)

/-- A quoted character after its opening quote. -/
def quotedCharacter? : List Char → Option Cut
  -- Exactly one character or one escape stands between the quotes.
  | '\\' :: escaped :: '\x27' :: rest =>
    if isEscape escaped then some (['\\', escaped, '\x27'], rest) else none
  | character :: '\x27' :: rest =>
    if ['\\', '\x27', '\n'].contains character then none else some ([character, '\x27'], rest)
  | _ => none

/-- The signs of the language, each before every sign that it begins with. -/
def signs : List (List Char × TokenKind) :=
  [ (['.', '.', '.'], .ellipsis), (['&', '&'], .andAnd), (['|', '|'], .orOr),
    (['+', '+'], .increment), (['-', '-'], .decrement), (['=', '='], .comparison .equal),
    (['!', '='], .comparison .notEqual), (['<', '='], .comparison .lessEqual),
    (['>', '='], .comparison .greaterEqual), (['='], .assign), (['<'], .comparison .less),
    (['>'], .comparison .greater), (['+'], .plus), (['-'], .minus), (['*'], .star),
    (['/'], .slash), (['%'], .percent), (['!'], .bang), (['&'], .ampersand),
    (['('], .leftParen), ([')'], .rightParen), (['['], .leftBracket), ([']'], .rightBracket),
    (['{'], .leftBrace), (['}'], .rightBrace), ([','], .comma), ([';'], .semicolon) ]

/-- The first listed sign at the front of the text. -/
def sign? (text : List Char) : Option (TokenKind × Cut) :=
  signs.findSome? fun entry =>
    (entry.1.isPrefixOf? text).map fun rest => (entry.2, entry.1, rest)

/-- The lexeme at the front of the text, or what is wrong there. -/
def lexeme? (text : List Char) : Except LexicalFault (TokenKind × Cut) :=
  -- The classes start with different characters, so their order decides nothing.
  match word? text with
  | some cut => .ok ((TokenKind.keyword? (String.ofList cut.1)).getD .identifier, cut)
  | none =>
    match number? text with
    | some found => .ok found
    | none =>
      match text with
      | '\x27' :: rest =>
        match quotedCharacter? rest with
        | some cut => .ok (.character, '\x27' :: cut.1, cut.2)
        | none => .error .malformedCharacter
      | '"' :: rest =>
        match throughQuote rest with
        | some cut => .ok (.string, '"' :: cut.1, cut.2)
        | none => .error .openString
      | _ =>
        match sign? text with
        | some found => .ok found
        | none => .error (.unexpected (text.headD ' '))

/-- A closed comment is split where it ends. -/
theorem throughClose_append {text : List Char} {cut : Cut} (found : throughClose text = some cut) :
    cut.1 ++ cut.2 = text := by
  -- Every equation moves the characters it reads to the first part.
  fun_induction throughClose text generalizing cut with
  | case1 => simp at found
  | case2 rest => cases found; rfl
  | case3 character rest _ ih =>
    obtain ⟨inner, step, rfl⟩ := Option.map_eq_some_iff.mp found
    simp [ih step]

/-- A closed text is split where it ends. -/
theorem throughQuote_append {text : List Char} {cut : Cut} (found : throughQuote text = some cut) :
    cut.1 ++ cut.2 = text := by
  -- Every equation moves the characters it reads to the first part.
  fun_induction throughQuote text generalizing cut with
  | case1 => simp at found
  | case2 rest => cases found; rfl
  | case3 escaped rest _ ih =>
    obtain ⟨inner, step, rfl⟩ := Option.map_eq_some_iff.mp found
    simp [ih step]
  | case4 => simp at found
  | case5 => simp at found
  | case6 character rest _ _ _ ih =>
    obtain ⟨inner, step, rfl⟩ := Option.map_eq_some_iff.mp found
    simp [ih step]

/-- Cutting after a run loses no character. -/
theorem splitWhile_append (test : Char → Bool) (text : List Char) :
    (splitWhile test text).1 ++ (splitWhile test text).2 = text :=
  List.takeWhile_append_dropWhile

/-- A gap is split where it ends, after at least one character. -/
theorem gap?_append {text : List Char} {cut : Cut} (found : gap? text = some (.ok cut)) :
    cut.1 ++ cut.2 = text ∧ cut.1 ≠ [] := by
  -- Comments delegate to their own split, and a blank is one character.
  unfold gap? at found
  split at found
  · rename_i rest
    split at found
    · rename_i inner closed
      cases found
      simp [throughClose_append closed]
    · simp at found
  · simp only at found
    split at found
    · cases found
      simp [splitWhile_append]
    · simp at found
  · split at found
    · cases found; simp
    · simp at found
  · simp at found

/-- A fraction is split where it ends. -/
theorem fraction_append (text : List Char) : (fraction text).1 ++ (fraction text).2 = text := by
  unfold fraction
  split
  · simp only
    split
    · rfl
    · simp [splitWhile_append]
  · rfl

/-- A sign is split where it ends. -/
theorem sign_append (text : List Char) : (sign text).1 ++ (sign text).2 = text := by
  unfold sign
  split <;> rfl

/-- An exponent is split where it ends. -/
theorem exponent_append (text : List Char) : (exponent text).1 ++ (exponent text).2 = text := by
  unfold exponent
  split
  · simp only
    split
    · simp [splitWhile_append, sign_append]
    · rfl
  · rfl

/-- A number is split where it ends, after at least one character. -/
theorem number?_append {text : List Char} {kind : TokenKind} {cut : Cut}
    (found : number? text = some (kind, cut)) : cut.1 ++ cut.2 = text ∧ cut.1 ≠ [] := by
  -- The three parts follow one another, and the first is not empty.
  unfold number? at found
  simp only at found
  split at found
  · simp at found
  · rename_i some_digit
    cases found
    constructor
    · simp only [List.append_assoc, exponent_append, fraction_append, splitWhile_append]
    · intro empty
      simp [List.append_eq_nil_iff.mp empty] at some_digit

/-- A quoted character is split after its closing quote. -/
theorem quotedCharacter?_append {text : List Char} {cut : Cut}
    (found : quotedCharacter? text = some cut) : cut.1 ++ cut.2 = text := by
  unfold quotedCharacter? at found
  split at found
  · split at found
    · cases found; rfl
    · simp at found
  · split at found
    · simp at found
    · cases found; rfl
  · simp at found

/-- Splitting off a known beginning loses no character. -/
theorem isPrefixOf?_append {front text rest : List Char}
    (found : front.isPrefixOf? text = some rest) : front ++ rest = text := by
  induction front generalizing text with
  | nil =>
    have same : some text = some rest := found
    exact (Option.some.inj same).symm
  | cons character front ih =>
    cases text with
    | nil =>
      have absent : none = some rest := found
      cases absent
    | cons other text =>
      have further : (if character == other then front.isPrefixOf? text else none) = some rest :=
        found
      split at further
      · rename_i same
        simp [beq_iff_eq.mp same, ih further]
      · simp at further

/-- A sign is split where it ends, after at least one character. -/
theorem sign?_append {text : List Char} {kind : TokenKind} {cut : Cut}
    (found : sign? text = some (kind, cut)) : cut.1 ++ cut.2 = text ∧ cut.1 ≠ [] := by
  -- Every listed sign has a spelling.
  obtain ⟨entry, listed, matched⟩ := List.exists_of_findSome?_eq_some found
  obtain ⟨rest, split, same⟩ := Option.map_eq_some_iff.mp matched
  cases same
  refine ⟨isPrefixOf?_append split, ?_⟩
  have spelled : ∀ entry ∈ signs, entry.1 ≠ [] := by decide
  exact spelled entry listed

/-- A lexeme is split where it ends, after at least one character. -/
theorem lexeme?_append {text : List Char} {kind : TokenKind} {cut : Cut}
    (found : lexeme? text = .ok (kind, cut)) : cut.1 ++ cut.2 = text ∧ cut.1 ≠ [] := by
  -- Each class of lexeme brings its own split.
  unfold lexeme? at found
  split at found
  · rename_i word spelled
    cases found
    unfold word? at spelled
    split at spelled
    · split at spelled
      · cases spelled; simp [splitWhile_append]
      · simp at spelled
    · simp at spelled
  · split at found
    · rename_i _ counted
      cases found
      exact number?_append counted
    · split at found
      · split at found
        · rename_i quoted
          cases found
          simp [quotedCharacter?_append quoted]
        · simp at found
      · split at found
        · rename_i quoted
          cases found
          simp [throughQuote_append quoted]
        · simp at found
      · split at found
        · rename_i _ signed
          cases found
          exact sign?_append signed
        · simp at found

/-- What follows the first piece of a split text is shorter than the text. -/
theorem rest_shorter {text : List Char} {cut : Cut}
    (split : cut.1 ++ cut.2 = text ∧ cut.1 ≠ []) : cut.2.length < text.length := by
  have positive := List.length_pos_iff.mpr split.2
  simp only [← split.1, List.length_append]
  omega

end SmallC
