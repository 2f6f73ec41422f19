/-! Quoted literals: the characters that may follow a backslash and the text a literal denotes. -/

namespace SmallC

/-- Whether the character may follow a backslash in a literal. -/
def isEscape (character : Char) : Bool :=
  ['n', 't', 'r', '0', '\\', '\x27', '"'].contains character

/-- The character that a backslash followed by this one stands for. -/
def escapeValue : Char → Char
  -- Quotes and the backslash stand for themselves.
  | 'n' => '\n'
  | 't' => '\t'
  | 'r' => '\r'
  | '0' => '\x00'
  | other => other

/-- The characters that a literal's body denotes. -/
def resolveEscapes : List Char → List Char
  -- A backslash and the next character go together; a last backslash stands for itself.
  | [] => []
  | ['\\'] => ['\\']
  | '\\' :: escaped :: rest => escapeValue escaped :: resolveEscapes rest
  | character :: rest => character :: resolveEscapes rest

/-- The text that a quoted literal denotes, its two quotes left out. -/
def unescape (literal : String) : String :=
  String.ofList (resolveEscapes literal.toList.tail.dropLast)

end SmallC
