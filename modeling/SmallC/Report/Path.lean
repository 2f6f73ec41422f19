/-! Paths, which are the same when they have the same components. -/

namespace SmallC

/-- The pieces of a text between separators, at least one. -/
def piecesBetween (separator : Char) : List Char → List (List Char)
  -- Separators side by side have an empty piece between them.
  | [] => [[]]
  | character :: rest =>
    let pieces := piecesBetween separator rest
    if character = separator then [] :: pieces
    else (character :: pieces.headD []) :: pieces.tail

/-- What a path is made of. -/
structure PathComponents where
  /-- Whether it starts at the root. -/
  rooted : Bool
  /-- Whether it starts with a lone dot. -/
  dotted : Bool
  /-- The names in order. -/
  names : List (List Char)
  deriving DecidableEq, Repr

/-- The components of a path; repeated slashes and later lone dots do not count. -/
def pathComponents (path : String) : PathComponents :=
  -- Steps to the directory above are kept, since names may be links.
  let text := path.toList
  let pieces := piecesBetween '/' text
  let rooted := text.head? == some '/'
  { rooted
    dotted := !rooted && pieces.head? == some ['.']
    names := pieces.filter fun piece => piece != [] && piece != ['.'] }

/-- Whether two paths have the same components. -/
def samePath (left right : String) : Bool :=
  pathComponents left == pathComponents right

end SmallC
