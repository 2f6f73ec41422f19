/-! The text of data in braces, fields in a fixed order and no blanks. -/

namespace SmallC

/-- Data as it is written to another program. -/
inductive Json where
  /-- Nothing. -/
  | null
  /-- A number without sign. -/
  | number (value : Nat)
  /-- A text. -/
  | string (text : String)
  /-- Data in order. -/
  | array (items : List Json)
  /-- Named data in order. -/
  | object (fields : List (String × Json))

namespace Json

/-- One hexadecimal digit. -/
def hexDigit (value : Nat) : Char :=
  if value < 10 then Char.ofNat ('0'.toNat + value) else Char.ofNat ('a'.toNat + value - 10)

/-- How a character is written inside quotes. -/
def quotedChar (character : Char) : List Char :=
  -- All else above the control characters stands for itself.
  match character with
  | '"' => ['\\', '"']
  | '\\' => ['\\', '\\']
  | '\x08' => ['\\', 'b']
  | '\t' => ['\\', 't']
  | '\n' => ['\\', 'n']
  | '\x0c' => ['\\', 'f']
  | '\r' => ['\\', 'r']
  | other =>
    let code := other.toNat
    if code < 32 then ['\\', 'u', '0', '0', hexDigit (code / 16), hexDigit (code % 16)]
    else [other]

/-- A text in quotes. -/
def quoted (text : String) : String :=
  "\"" ++ String.ofList (text.toList.flatMap quotedChar) ++ "\""

mutual

/-- The text of data. -/
def text : Json → String
  | .null => "null"
  | .number value => toString value
  | .string content => quoted content
  | .array items => "[" ++ ",".intercalate (texts items) ++ "]"
  | .object fields => "\x7b" ++ ",".intercalate (fieldTexts fields) ++ "\x7d"

/-- The text of each of several data. -/
def texts : List Json → List String
  | [] => []
  | item :: rest => text item :: texts rest

/-- The text of each of several fields. -/
def fieldTexts : List (String × Json) → List String
  | [] => []
  | (name, value) :: rest => (quoted name ++ ":" ++ text value) :: fieldTexts rest

end

end Json

end SmallC
