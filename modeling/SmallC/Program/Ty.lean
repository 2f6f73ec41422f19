/-! Types of the language: scalars, arrays and functions over three specifiers. -/

namespace SmallC

/-- The word a declaration starts with. -/
inductive Specifier where
  /-- One signed byte. -/
  | char
  /-- One signed 32-bit word. -/
  | int
  /-- One 64-bit floating-point number. -/
  | double
  deriving DecidableEq, Repr

/-- A declared or computed type. -/
inductive Ty where
  /-- The type of a construct that has already been reported. -/
  | error
  /-- A number, or a pointer when there is indirection. -/
  | scalar (specifier : Specifier) (indirection : Nat)
  /-- An array of scalars. -/
  | array (specifier : Specifier) (indirection length : Nat)
  /-- A function that returns a scalar. -/
  | function (specifier : Specifier) (indirection : Nat) (parameters : List Ty) (variadic : Bool)
  deriving Inhabited

namespace Specifier

/-- Bytes a number of this specifier takes. -/
def size : Specifier → Nat
  | .char => 1
  | .int => 4
  | .double => 8

/-- The spelling in source text. -/
def text : Specifier → String
  | .char => "char"
  | .int => "int"
  | .double => "double"

end Specifier

namespace Ty

mutual

/-- Equality of types is decided on their structure. -/
def decideEq : (left right : Ty) → Decidable (left = right)
  | .error, .error => isTrue rfl
  | .scalar first depth, .scalar second height =>
    if same : first = second ∧ depth = height then
      isTrue (by rw [same.1, same.2])
    else isFalse (by intro equal; injection equal with a b; exact same ⟨a, b⟩)
  | .array first depth count, .array second height length =>
    if same : first = second ∧ depth = height ∧ count = length then
      isTrue (by rw [same.1, same.2.1, same.2.2])
    else isFalse (by intro equal; injection equal with a b c; exact same ⟨a, b, c⟩)
  | .function first depth params loose, .function second height others lax =>
    match decideEqList params others with
    | isTrue agree =>
      if same : first = second ∧ depth = height ∧ loose = lax then
        isTrue (by rw [same.1, same.2.1, same.2.2, agree])
      else isFalse (by intro equal; injection equal with a b _ d; exact same ⟨a, b, d⟩)
    | isFalse differ => isFalse (by intro equal; injection equal with _ _ c _; exact differ c)
  | .error, .scalar .. | .error, .array .. | .error, .function ..
  | .scalar .., .error | .scalar .., .array .. | .scalar .., .function ..
  | .array .., .error | .array .., .scalar .. | .array .., .function ..
  | .function .., .error | .function .., .scalar .. | .function .., .array .. =>
    isFalse (by intro equal; injection equal)

/-- Parameter lists are compared type by type. -/
def decideEqList : (left right : List Ty) → Decidable (left = right)
  | [], [] => isTrue rfl
  | [], _ :: _ | _ :: _, [] => isFalse (by intro equal; injection equal)
  | first :: rest, second :: others =>
    match decideEq first second, decideEqList rest others with
    | isTrue head, isTrue tail => isTrue (by rw [head, tail])
    | isFalse differ, _ => isFalse (by intro equal; injection equal with a _; exact differ a)
    | _, isFalse differ => isFalse (by intro equal; injection equal with _ b; exact differ b)

end

instance : DecidableEq Ty := decideEq

/-- The plain character type. -/
def char : Ty := .scalar .char 0

/-- The plain integer type. -/
def int : Ty := .scalar .int 0

/-- The plain floating-point type. -/
def double : Ty := .scalar .double 0

/-- The specifier of every type but the error type. -/
def specifier? : Ty → Option Specifier
  | .error => none
  | .scalar specifier _ | .array specifier _ _ | .function specifier _ _ _ => some specifier

/-- The number of stars, none for the error type. -/
def indirection : Ty → Nat
  | .error => 0
  | .scalar _ indirection | .array _ indirection _ | .function _ indirection _ _ => indirection

/-- Whether the construct has already been reported. -/
def isError : Ty → Bool
  | .error => true
  | _ => false

/-- Whether values of the type are numbers or pointers. -/
def isScalar : Ty → Bool
  | .scalar .. => true
  | _ => false

/-- Whether the type is an array. -/
def isArray : Ty → Bool
  | .array .. => true
  | _ => false

/-- Whether the type is a function. -/
def isFunction : Ty → Bool
  | .function .. => true
  | _ => false

/-- Whether the type is one of the three numbers. -/
def isNumeric : Ty → Bool
  -- Any specifier will do as long as there is no star.
  | .scalar _ 0 => true
  | _ => false

/-- Whether the type is the plain integer type. -/
def isInteger : Ty → Bool
  | .scalar .int 0 => true
  | _ => false

/-- Whether the type is the plain floating-point type. -/
def isReal : Ty → Bool
  | .scalar .double 0 => true
  | _ => false

/-- Whether the scalar, or the element of the array, carries a star. -/
def isPointer : Ty → Bool
  -- An array counts by the stars of its element, not by the address it decays to.
  | .scalar _ indirection | .array _ indirection _ => 0 < indirection
  | .error | .function .. => false

/-- Whether a value of the type may be tested for zero. -/
def isPredicate (type : Ty) : Bool :=
  type.isNumeric || type.isPointer

/-- An array becomes a pointer to its element and a character an integer. -/
def promote : Ty → Ty
  -- The address of the first element has one star more than the element.
  | .array specifier indirection _ => .scalar specifier (indirection + 1)
  | .scalar .char 0 => .int
  | type => type

/-- Types are compatible when promotion makes them equal. -/
def compatible (left right : Ty) : Bool :=
  left.promote == right.promote

/-- What a pointer points to. -/
def pointee : Ty → Ty
  -- Without a star there is nothing to follow, whatever the type.
  | .scalar specifier (indirection + 1) | .array specifier (indirection + 1) _
  | .function specifier (indirection + 1) _ _ => .scalar specifier indirection
  | _ => .error

/-- The type of the address of storage of this type. -/
def addressOf : Ty → Ty
  | .error => .error
  | .scalar specifier indirection | .array specifier indirection _
  | .function specifier indirection _ _ => .scalar specifier (indirection + 1)

/-- Bytes one element takes. -/
def elementSize (specifier : Specifier) : (indirection : Nat) → Nat
  -- All pointers are words, whatever they point to.
  | 0 => specifier.size
  | _ + 1 => 4

/-- The largest size that fits an unsigned word. -/
def sizeCeiling : Nat := 4294967295

/-- Bytes an object of the type takes, held at the ceiling. -/
def size : Ty → Nat
  -- Functions and reported constructs take no storage.
  | .error | .function .. => 0
  | .scalar specifier indirection => elementSize specifier indirection
  | .array specifier indirection length =>
    min (length * elementSize specifier indirection) sizeCeiling

/-- The largest object a signed displacement reaches. -/
def objectCeiling : Nat := 2147483647

/-- The array type, unless the object would be too large. -/
def sizedArray? (specifier : Specifier) (indirection length : Nat) : Option Ty :=
  -- The product is exact here, so no large array passes for a small one.
  if length * elementSize specifier indirection ≤ objectCeiling then
    some (.array specifier indirection length)
  else none

/-- A run of stars. -/
def stars (count : Nat) : String :=
  String.ofList (List.replicate count '*')

mutual

/-- The type as it is written in messages. -/
def text : Ty → String
  | .error => "<error>"
  | .scalar specifier 0 => specifier.text
  | .scalar specifier indirection => specifier.text ++ " " ++ stars indirection
  | .array specifier indirection length =>
    specifier.text ++ " " ++ stars indirection ++ "[" ++ toString length ++ "]"
  | .function specifier indirection parameters variadic =>
    -- An empty closed list is spelled out, and the dots always follow a comma.
    let listed := ", ".intercalate (texts parameters)
    let closed := if parameters.isEmpty && !variadic then "void" else listed
    specifier.text ++ " " ++ stars indirection ++ "(" ++ closed
      ++ (if variadic then ", ..." else "") ++ ")"

/-- The parameter types as they are written in messages. -/
def texts : List Ty → List String
  | [] => []
  | type :: rest => text type :: texts rest

end

end Ty

end SmallC
