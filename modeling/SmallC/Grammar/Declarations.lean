import SmallC.Grammar.Reading

/-! Declarations: specifiers, stars, declarators and parameter lists. -/

namespace SmallC

namespace Reading

/-- Read the specifier that starts a declaration. -/
def specifier : Reading Specifier := do
  match ← kind with
  | .specifier found => discard advance; return found
  | _ => unexpected

/-- Count the stars before a name. -/
def stars : Reading Nat :=
  return (← many (· = .star) advance).length

/-- Read the length of an array, which is not zero. -/
def arrayLength : Reading Nat := do
  let token := (← get).current
  let length ← wholeNumber
  if length = 0 then throw (.unexpectedToken token.position.line token.text)
  else return length

/-- Read the brackets after the name of an array. -/
def arrayType (specifier : Specifier) (indirection : Nat) (name : String) : Reading Ty := do
  discard (expect .leftBracket)
  -- A failure names the line of the length, wherever the closing bracket is.
  let line := (← get).current.position.line
  let length ← arrayLength
  discard (expect .rightBracket)
  match Ty.sizedArray? specifier indirection length with
  | some type => return type
  | none => throw (.arrayTooLarge line name)

/-- Read the type of a variable to the end, brackets following its name. -/
def variableType (specifier : Specifier) (indirection : Nat) (name : String) : Reading Ty := do
  if (← kind) = .leftBracket then arrayType specifier indirection name
  else return .scalar specifier indirection

/-- Read what may follow the name of a variable, and declare it. -/
def declareObject (specifier : Specifier) (indirection : Nat) (name : String) : Reading Unit := do
  let type ← variableType specifier indirection name
  discard (act (Checker.declareVariable name type))

/-- Read and declare one variable. -/
def declarator (specifier : Specifier) : Reading Unit := do
  let indirection ← stars
  let name ← name
  declareObject specifier indirection name

/-- Read one declaration of variables. -/
def declaration : Reading Unit := do
  let specifier ← specifier
  discard (commaSeparated (declarator specifier))
  discard (expect .semicolon)

/-- Read the declarations that start a block. -/
def declarations : Reading Unit :=
  discard (many TokenKind.isSpecifier declaration)

/-- Read and declare one parameter. -/
def parameter : Reading Ty := do
  let specifier ← specifier
  let indirection ← stars
  let name ← name
  let type := Ty.scalar specifier indirection
  discard (act (Checker.declareVariable name type))
  return type

/-- Read the parameters after the first one, and whether dots end them. -/
def furtherParameters : (clock : List Token) → Reading (List Ty × Bool)
  -- Nothing may follow the dots, not even another comma.
  | [] => do if (← kind) = .comma then unexpected else return ([], false)
  | _ :: clock => do
    if (← kind) = .comma then
      discard advance
      if (← kind) = .ellipsis then
        discard advance
        return ([], true)
      let first ← parameter
      let others ← furtherParameters clock
      return (first :: others.1, others.2)
    else return ([], false)

/-- Read a parameter list, and whether dots end it. -/
def parameterList : Reading (List Ty × Bool) := do
  -- A list is not empty unless a word says so.
  if (← kind) = .voidWord then
    discard advance
    return ([], false)
  let first ← parameter
  let others ← furtherParameters (← get).remaining
  return (first :: others.1, others.2)

/-- Read the parameters of a function in a scope that the caller closes. -/
def signature (specifier : Specifier) (indirection : Nat) : Reading (Ty × ScopeId) := do
  -- The scope is that of the body too, if one follows.
  let scope ← act Checker.openScope
  let parameters ← parameterList
  return (.function specifier indirection parameters.1 parameters.2, scope)

end Reading

end SmallC
