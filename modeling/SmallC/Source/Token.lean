import SmallC.Program.Ty
import SmallC.Program.Comparison

/-! Tokens: what a piece of source text is, how it is spelled and where it starts. -/

namespace SmallC

/-- The kinds of token. -/
inductive TokenKind where
  /-- An opening parenthesis. -/
  | leftParen
  /-- A closing parenthesis. -/
  | rightParen
  /-- An opening bracket. -/
  | leftBracket
  /-- A closing bracket. -/
  | rightBracket
  /-- An opening brace. -/
  | leftBrace
  /-- A closing brace. -/
  | rightBrace
  /-- A comma. -/
  | comma
  /-- A semicolon. -/
  | semicolon
  /-- Three dots. -/
  | ellipsis
  /-- The sign of assignment. -/
  | assign
  /-- One of the six comparison signs. -/
  | comparison (relation : Comparison)
  /-- A plus sign. -/
  | plus
  /-- A minus sign. -/
  | minus
  /-- An asterisk. -/
  | star
  /-- A slash. -/
  | slash
  /-- A percent sign. -/
  | percent
  /-- An exclamation mark. -/
  | bang
  /-- One ampersand. -/
  | ampersand
  /-- Two ampersands. -/
  | andAnd
  /-- Two vertical bars. -/
  | orOr
  /-- Two plus signs. -/
  | increment
  /-- Two minus signs. -/
  | decrement
  /-- The word of a specifier. -/
  | specifier (specifier : Specifier)
  /-- The word of an empty parameter list. -/
  | voidWord
  /-- The word that opens a conditional. -/
  | ifWord
  /-- The word that opens the other branch of a conditional. -/
  | elseWord
  /-- The word that opens a loop with a test. -/
  | whileWord
  /-- The word that opens a loop with a header. -/
  | forWord
  /-- The word that leaves a loop. -/
  | breakWord
  /-- The word that leaves a function. -/
  | returnWord
  /-- The word that asks for a size. -/
  | sizeofWord
  /-- A name. -/
  | identifier
  /-- A whole number. -/
  | integer
  /-- A number with a fraction or an exponent. -/
  | real
  /-- A quoted character. -/
  | character
  /-- A quoted text. -/
  | string
  /-- The end of the source. -/
  | done
  deriving DecidableEq, Repr

namespace TokenKind

/-- The words that are not names. -/
def keyword? : String → Option TokenKind
  | "char" => some (.specifier .char)
  | "int" => some (.specifier .int)
  | "double" => some (.specifier .double)
  | "void" => some .voidWord
  | "if" => some .ifWord
  | "else" => some .elseWord
  | "while" => some .whileWord
  | "for" => some .forWord
  | "break" => some .breakWord
  | "return" => some .returnWord
  | "sizeof" => some .sizeofWord
  | _ => none

/-- Whether the token starts a declaration or the type of a cast. -/
def isSpecifier : TokenKind → Bool
  | .specifier _ => true
  | _ => false

end TokenKind

/-- A place in a source text, both counts starting at one. -/
structure Position where
  /-- One more than the newlines before the place. -/
  line : Nat
  /-- One more than the characters since the last newline. -/
  column : Nat
  deriving DecidableEq, Repr, Inhabited

namespace Position

/-- Where a text starts. -/
def start : Position := ⟨1, 1⟩

/-- The place after one more character. -/
def advance (position : Position) (character : Char) : Position :=
  -- Columns count characters, however many bytes they take.
  if character = '\n' then ⟨position.line + 1, 1⟩ else ⟨position.line, position.column + 1⟩

/-- The place after a run of characters. -/
def after (position : Position) (text : List Char) : Position :=
  text.foldl advance position

end Position

/-- A piece of source text with its kind and the place where it starts. -/
structure Token where
  /-- What the piece is. -/
  kind : TokenKind
  /-- The piece as it is spelled. -/
  text : String
  /-- Where it starts. -/
  position : Position
  deriving DecidableEq, Repr

namespace Token

/-- The token that stands for the end of the source. -/
def atEnd (position : Position) : Token := ⟨.done, "", position⟩

/-- The token as a message names it. -/
def shown (token : Token) : String :=
  -- The end of the source has no spelling of its own.
  if token.kind = .done then "end of input" else token.text

end Token

end SmallC
