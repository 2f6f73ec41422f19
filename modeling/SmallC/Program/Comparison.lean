/-! The six comparisons of the language. -/

namespace SmallC

/-- A relation between two operands. -/
inductive Comparison where
  /-- Strictly below. -/
  | less
  /-- Strictly above. -/
  | greater
  /-- Below or equal. -/
  | lessEqual
  /-- Above or equal. -/
  | greaterEqual
  /-- Equal. -/
  | equal
  /-- Different. -/
  | notEqual
  deriving DecidableEq, Repr

namespace Comparison

/-- The sign in source text and in messages. -/
def text : Comparison → String
  | .less => "<"
  | .greater => ">"
  | .lessEqual => "<="
  | .greaterEqual => ">="
  | .equal => "=="
  | .notEqual => "!="

end Comparison

end SmallC
