/-! Lines of a text, found by the byte at which each starts, without the blanks at their ends. -/

namespace SmallC

/-- Whether the character has the property of white space. -/
def isWhiteSpace (character : Char) : Bool :=
  let code := character.toNat
  (9 ≤ code && code ≤ 13) || (0x2000 ≤ code && code ≤ 0x200a)
    || [0x20, 0x85, 0xa0, 0x1680, 0x2028, 0x2029, 0x202f, 0x205f, 0x3000].contains code

/-- The text without the white space at its end. -/
def trimEnd (text : List Char) : List Char :=
  -- Only the end is trimmed, so columns stay as they are.
  (text.reverse.dropWhile isWhiteSpace).reverse

/-- Bytes that the characters take. -/
def byteLength (text : List Char) : Nat :=
  text.foldr (fun character bytes => character.utf8Size + bytes) 0

/-- The bytes after each newline, counted from the given byte. -/
def startsAfterNewlines : (byte : Nat) → List Char → List Nat
  | _, [] => []
  | byte, character :: rest =>
    let next := byte + character.utf8Size
    if character = '\n' then next :: startsAfterNewlines next rest
    else startsAfterNewlines next rest

/-- The byte at which each line starts. -/
def lineStarts (text : List Char) : List Nat :=
  0 :: startsAfterNewlines 0 text

/-- The text cut after so many bytes, unless that is inside a character or past the end. -/
def cutAtByte? : (bytes : Nat) → List Char → Option (List Char × List Char)
  | 0, text => some ([], text)
  | _ + 1, [] => none
  | bytes + 1, character :: rest =>
    if character.utf8Size ≤ bytes + 1 then
      (cutAtByte? (bytes + 1 - character.utf8Size) rest).map fun cut =>
        (character :: cut.1, cut.2)
    else none

/-- The characters from one byte up to another. -/
def bytesBetween? (start stop : Nat) (text : List Char) : Option (List Char) := do
  let front ← cutAtByte? start text
  let middle ← cutAtByte? (stop - start) front.2
  return middle.1

/-- A line by its number, the first one being one. -/
def lineText? (content : String) (line : Nat) : Option String := do
  -- A line ends where the next one starts, its newline being trimmed with the blanks.
  let text := content.toList
  let starts := lineStarts text
  if line = 0 then none
  let start ← starts[line - 1]?
  let stop := starts[line]?.getD (byteLength text)
  let found ← bytesBetween? start stop text
  return String.ofList (trimEnd found)

end SmallC
