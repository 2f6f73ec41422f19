import SmallC.Proofs.Derivations.Phrases
import SmallC.Proofs.Numbers.Binary64
import SmallC.Proofs.Typing.Conversions
import SmallC.Proofs.Words.Computation

/-! Integers become floating-point numbers: a literal when it is checked, anything else when its code
runs. -/

namespace SmallC

/-- Whether an operator brings integers to floating point when its other operand is there. -/
def BinarySign.extends : BinarySign → Bool
  | .compare _ | .plus | .minus | .times | .over => true
  | .or | .and | .modulo => false

/-- Where an operand meets a floating-point number. -/
inductive Meeting where
  /-- On the left of an operator. -/
  | left (sign : BinarySign) (other : Expression)
  /-- On the right of an operator. -/
  | right (sign : BinarySign) (other : Expression)
  /-- On the right of an assignment. -/
  | assigned (place : Expression)
  /-- In a cast. -/
  | cast

namespace Meeting

/-- The operator brings integers to floating point, and the other side is there. -/
def Real : Meeting → Prop
  | .left sign other | .right sign other => sign.extends = true ∧ other.type = .double
  | .assigned place => place.type = .double
  | .cast => True

/-- What stands for an operand in the node that is made of it. -/
def put : Meeting → Expression → Option Expression
  | .left sign other, operand =>
    match (sign.check operand other).node with
    | .binary _ first _ _ => some first
    | _ => none
  | .right sign other, operand =>
    match (sign.check other operand).node with
    | .binary _ _ second _ => some second
    | _ => none
  | .assigned place, operand =>
    match (checkAssign place operand).node with
    | .assign _ stored => some stored
    | _ => none
  | .cast, operand => some (checkCast .double operand).node

end Meeting

/-- A judged operator keeps its operands. -/
theorem judge_node (plain : BinaryOp) (sign : String) (rule : Ty → Ty → Option (BinaryOp × Ty))
    (left right : Expression) :
    ∃ op type, (judge plain sign rule left right).node = .binary op left right type := by
  -- Whatever the rule finds, only the operator and the type depend on it.
  rw [judge]
  split
  · exact ⟨_, _, rfl⟩
  · split <;> exact ⟨_, _, rfl⟩

/-- The left operand is extended toward the right one, and then the right one toward the result. -/
theorem BinarySign.check_node {sign : BinarySign} (extending : sign.extends = true)
    (left right : Expression) :
    ∃ op type, (sign.check left right).node = .binary op (left.extend right.type)
      (right.extend (left.extend right.type).type) type := by
  -- All checks of these operators extend their operands before they judge them.
  cases sign with
  | or | and | modulo => cases extending
  | _ => exact judge_node ..

namespace Expression

/-- An integer or a character is widened toward a floating-point number. -/
theorem extend_double {operand : Expression} (integral : operand.type = .char ∨ operand.type = .int) :
    operand.extend .double = operand.widen :=
  if_pos ⟨integral, rfl⟩

/-- An integer or a character is widened when it is stored as a floating-point number. -/
theorem convert_double {operand : Expression} (integral : operand.type = .char ∨ operand.type = .int) :
    operand.convert .double = operand.widen := by
  -- Nothing is lost on the way up, so the operand is extended as by an operator.
  have wider : narrows operand.type .double = false := by
    rcases integral with same | same <;> rw [same] <;> rfl
  have other : operand.type ≠ .double := by
    rcases integral with same | same <;> rw [same] <;> decide
  rw [convert, wider, if_neg Bool.false_ne_true, if_neg other, extend_double integral]

end Expression

/-- Wherever an integer meets a floating-point number it is widened. -/
theorem Meeting.put_widen {meeting : Meeting} (real : meeting.Real) {operand : Expression}
    (integral : operand.type = .char ∨ operand.type = .int) :
    meeting.put operand = some operand.widen := by
  -- Operators extend toward each other, and assignments and casts convert to their own type.
  cases meeting with
  | left sign other =>
    obtain ⟨extending, double⟩ := real
    obtain ⟨op, type, node⟩ := BinarySign.check_node extending operand other
    rw [put, node, double, Expression.extend_double integral]
  | right sign other =>
    obtain ⟨extending, double⟩ := real
    obtain ⟨op, type, node⟩ := BinarySign.check_node extending other operand
    -- What is on the left stays a floating-point number when it is extended.
    have apart : ¬ ((Ty.double = .char ∨ Ty.double = .int) ∧ operand.type = .double) := by
      intro both
      rcases both.1 with same | same <;> cases same
    have stays : (other.extend operand.type).type = .double := by
      rw [Expression.type_extend, double, if_neg apart, Ty.promote_double]
    rw [put, node, stays, Expression.extend_double integral]
  | assigned place =>
    have double : place.type = .double := real
    rw [put, checkAssign, double, Expression.convert_double integral]
  | cast =>
    have fits : (Ty.double.isNumeric && operand.type.isNumeric) = true := by
      rcases integral with same | same <;> rw [same] <;> rfl
    have clean : operand.type.isError = false := by
      rcases integral with same | same <;> rw [same] <;> rfl
    rw [put, checkCast, clean, if_neg Bool.false_ne_true, if_pos fits,
      Expression.convert_double integral]
    simp

section

variable {numerics : Numerics} {layout : Layout} {progress : Progress} {before between : Board}
  {word : BitVec 32}

/-- A word goes to floating point from where it is in memory, and anything else through a scratch
word. -/
theorem convertValue_double {source : Ty} (integral : source.isReal = false) (value result : Operand)
    (progress : Progress) : (convertValue source .double value result progress).1 =
      if Width.of source = .long ∧ value.isImmediate = false then
        [operate .fildl [value], operate .fstpl [result]]
      else [load value (.of source) .eax, storeWord (progress.slot .int)] ++
        [operate .fildl [progress.slot .int], operate .fstpl [result]] := by
  -- Only the width of the source and whether it is a constant decide on the way.
  have narrow := Width.of_ne_double integral
  have wide : Width.of .double = .double := rfl
  rw [convertValue, wide]
  generalize Width.of source = width at narrow
  cases width with
  | double => exact absurd rfl narrow
  | byte | long => cases value.isImmediate <;> rfl

/-- A word in memory is found there by the floating-point unit. -/
theorem Processor.word_of_loads {state : Processor} {operand : Operand}
    (storage : operand.isImmediate = false) (loads : state.loads? layout operand .long = some word) :
    ∃ address, state.address? layout operand = some address ∧ state.memory.word address = word := by
  -- A word is loaded from its address, and only constants have none.
  rw [Processor.loads?, if_neg (by simp)] at loads
  cases operand with
  | immediate => cases storage
  | _ => exact Option.map_eq_some_iff.mp loads

namespace Board

/-- A word in memory becomes a number in the frame. -/
theorem visit_fild {operand : Operand} {address : BitVec 32}
    (there : before.processor.address? layout operand = some address)
    (read : before.processor.memory.word address = word) (offset : Int) :
    (numerics.machine layout).visit [operate .fildl [operand],
      operate .fstpl [Operand.frame offset]] before .onward
        (before.storing (before.processor.ebp + BitVec.ofInt 32 offset)
          (numerics.whole word.toInt)) := by
  subst read
  simp only [Machine.visit, Numerics.machine, operate, act?, there, Option.map_some]
  exact ⟨rfl, rfl⟩

variable (numerics) in
/-- The conversion to floating point leaves the signed integer that the word is. -/
theorem visit_convertValue {source : Ty} {value : Operand} (integral : source.isReal = false)
    (loads : before.processor.loads? layout value (Width.of source) = some word) (offset : Int)
    (progress : Progress) : ∃ after, (numerics.machine layout).visit
        (convertValue source .double value (.frame offset) progress).1 before .onward after ∧
      after.number? layout (.frame offset) = some (numerics.whole word.toInt) ∧
      after.numbers = before.numbers := by
  rw [convertValue_double integral]
  by_cases direct : Width.of source = .long ∧ value.isImmediate = false
  · -- The word is read where it is.
    obtain ⟨long, storage⟩ := direct
    rw [long] at loads
    obtain ⟨address, there, read⟩ := Processor.word_of_loads storage loads
    rw [if_pos ⟨long, storage⟩]
    exact ⟨_, visit_fild there read offset, number?_storing before offset _, rfl⟩
  · -- The word goes through the first register to a scratch word, and is read there.
    rw [if_neg direct]
    have brings : Brings layout [load value (.of source) .eax] before.processor word :=
      ⟨{ before.processor with eax := word }, execute_load loads .eax [], ⟨rfl, rfl, rfl⟩, rfl⟩
    obtain ⟨stored, executed, base, -, memory⟩ := brings.stores (progress.frame.offset - 4)
    have moved := visit_of_words numerics executed
    have read : stored.memory.word (stored.ebp + BitVec.ofInt 32 (progress.frame.offset - 4)) = word := by
      rw [memory, base, Memory.word_write]
    have read := @visit_fild numerics layout { before with processor := stored } word
      (.frame (progress.frame.offset - 4)) _ rfl read offset
    exact ⟨_, visit_append moved read, number?_storing _ offset _, rfl⟩

end Board

namespace Expression

variable {operand : Expression}

/-- An integer that has been computed is converted to floating point by a cast. -/
theorem runs_cast (integral : operand.type.isReal = false)
    (runs : operand.runs (numerics.machine layout) progress before .onward between)
    (loads : between.processor.loads? layout (operand.lowered progress).value (Width.of operand.type) =
      some word) : ∃ after,
      (Expression.unary .cast operand .double).runs (numerics.machine layout) progress before .onward
        after ∧
      after.number? layout ((Expression.unary .cast operand .double).lowered progress).value =
        some (numerics.whole word.toInt) := by
  -- The own code of the cast is the conversion, into the place that is taken next.
  obtain ⟨after, visited, number, -⟩ := Board.visit_convertValue numerics integral loads
    ((operand.after progress).frame.offset - (Width.of .double).size)
    ((operand.after progress).take .double)
  refine ⟨after, ?_, ?_⟩
  · rw [runs_unary (by decide), own_cast]
    exact .inl ⟨between, runs, visited⟩
  · rw [value_result progress rfl rfl]
    exact number

/-- A literal is the word that its bits are. -/
theorem loads_integer (layout : Layout) (state : Processor) (value : UInt32) (type : Ty)
    (progress : Progress) (width : Width) :
    state.loads? layout ((Expression.integer value type).lowered progress).value width =
      some value.toBitVec := by
  -- A constant is a word whatever its type is.
  have word : BitVec.ofInt 32 value.toNat = value.toBitVec := by
    rw [BitVec.ofInt_natCast]
    exact BitVec.ofNat_toNat ..
  have constant : ¬ (width = .byte ∧ ¬ (immediate value.toNat).isImmediate) := by
    simp [immediate, Operand.isImmediate]
  rw [lowered, lower_integer, Processor.loads?, if_neg constant, ← word]
  rfl

/-- A literal that is converted when its code runs becomes the signed integer that its bits are. -/
theorem steps_cast_integer (numerics : Numerics) (layout : Layout) (progress : Progress)
    (before : Board) (value : UInt32) :
    let cast := Expression.unary .cast (.integer value .int) .double
    ∃ after, (numerics.machine layout).Steps (cast.lowered progress).code (0, before)
        ((cast.lowered progress).code.length, after) ∧
      after.number? layout (cast.lowered progress).value = some (numerics.whole value.toBitVec.toInt) := by
  obtain ⟨after, converts, number⟩ := runs_cast rfl (runs_leaf rfl progress before)
    (loads_integer layout before.processor value .int progress _)
  exact ⟨after, steps_of_runs converts (placed_lowered _ _), number⟩

end Expression

end

/-- Bits that are read as a signed integer are the literal itself below the sign bit. -/
theorem toInt_literal (value : UInt32) :
    value.toBitVec.toInt = if value.toNat < 2 ^ 31 then (value.toNat : Int) else value.toNat - 2 ^ 32 := by
  -- Twice the literal is compared with the number of words, instead of the literal with half of it.
  rw [BitVec.toInt_eq_toNat_cond]
  show (if 2 * value.toNat < 2 ^ 32 then (value.toNat : Int) else value.toNat - (2 ^ 32 : Nat)) = _
  split <;> split <;> omega

/-- A literal is small enough to be worth what it is without a sign. -/
theorem worth_unsigned (value : UInt32) :
    Binary64.value? (Binary64.whole value.toNat) = some (value.toNat : ℚ) := by
  have bound : value.toNat < 2 ^ 32 := value.toNat_lt
  exact Binary64.value?_whole (by omega)

/-- So are its bits with one. -/
theorem worth_signed (value : UInt32) : Binary64.value? (Binary64.whole value.toBitVec.toInt) =
    some (value.toBitVec.toInt : ℚ) := by
  have bound : value.toNat < 2 ^ 32 := value.toNat_lt
  apply Binary64.value?_whole
  rw [toInt_literal]
  split <;> omega

/-- Without a sign and with one, bits are the same number exactly below the sign bit. -/
theorem whole_eq_iff (value : UInt32) :
    Binary64.whole value.toNat = Binary64.whole value.toBitVec.toInt ↔ value.toNat < 2 ^ 31 := by
  constructor
  · intro same
    -- Numbers that are the same are worth the same, and both are worth what they come from.
    have equal := (worth_unsigned value).symm.trans ((congrArg Binary64.value? same).trans
      (worth_signed value))
    have whole : (value.toNat : Int) = value.toBitVec.toInt := by
      exact_mod_cast Option.some.inj equal
    by_contra large
    rw [toInt_literal, if_neg large] at whole
    omega
  · intro small
    rw [toInt_literal, if_pos small]

/-- A literal that meets a floating-point number is respelled when it is checked; anything else with
the same bits is converted when its code runs. The literal is worth what it is without a sign, and the
conversion gives what the bits are with one, so both give the same number exactly where the literal is
less than the sign bit. -/
theorem literals_widened {meeting : Meeting} (real : meeting.Real) (value : UInt32) {type : Ty}
    (integral : type = .char ∨ type = .int) :
    let spelling := toString value.toNat
    let folded := Binary64.whole value.toNat
    let converted := Binary64.whole value.toBitVec.toInt
    (meeting.put (.integer value type) = some (.real spelling) ∧
      Binary64.spelled? spelling = some folded ∧ Binary64.value? folded = some (value.toNat : ℚ)) ∧
    (∀ operand : Expression, operand.type = .char ∨ operand.type = .int →
      (∀ other kind, operand ≠ .integer other kind) →
        meeting.put operand = some (.unary .cast operand .double)) ∧
    (∀ (operand : Expression) order others layout progress (before between : Board),
      let machine := Numerics.machine ⟨order, Binary64.whole, others⟩ layout
      let cast := Expression.unary .cast operand .double
      operand.type = .char ∨ operand.type = .int →
      operand.runs machine progress before .onward between →
      between.processor.loads? layout (operand.lowered progress).value (Width.of operand.type) =
        some value.toBitVec →
      ∃ after, (∀ items start stop, Placed items start (cast.lowered progress).code stop →
          machine.Steps items (start, before) (stop, after)) ∧
        after.number? layout (cast.lowered progress).value = some converted) ∧
    (∀ layout (state : Processor) progress width,
      state.loads? layout ((Expression.integer value type).lowered progress).value width =
        some value.toBitVec) ∧
    Binary64.value? converted = some (value.toBitVec.toInt : ℚ) ∧
    (folded = converted ↔ value.toNat < 2 ^ 31) := by
  refine ⟨⟨Meeting.put_widen real integral, Binary64.spelled?_toString _, worth_unsigned value⟩, ?_,
    ?_, fun layout state => Expression.loads_integer layout state value type, worth_signed value,
    whole_eq_iff value⟩
  · -- Widening looks at the node itself, so the same bits anywhere else get a cast.
    intro operand whole other
    rw [Meeting.put_widen real whole]
    cases operand with
    | integer value kind => exact absurd rfl (other value kind)
    | _ => rfl
  · intro operand order others layout progress before between machine cast whole runs loads
    have word : operand.type.isReal = false := by
      rcases whole with same | same <;> rw [same] <;> rfl
    obtain ⟨after, converts, number⟩ := Expression.runs_cast word runs loads
    exact ⟨after, fun items start stop placed => Expression.steps_of_runs converts placed, number⟩

/-- A function with one local word has been entered. -/
def wordEntry : Progress where
  symbols := { scopes := [{ enclosing := none, symbols := [⟨"n", .int, -4⟩] }] }
  nextLabel := 1
  frame := { offset := -4 }

/-- The local word is the number of a letter. -/
def wordBoard : Board where
  processor := {
    eax := 0
    ecx := 0
    edx := 0
    ebp := 0x1000
    esp := 0x0f00
    flags := none
    memory := Memory.write (fun _ => 0) 0x0ffc 4 65 }
  numbers := []
  status := 0
  parity := false

/-- A letter is respelled next to a floating-point number, and a word with its bits is converted to the
same number. -/
theorem literals_widened_letter :
    let meeting := Meeting.left .plus (.real "1.5")
    let word := Expression.identifier ⟨0, 0⟩ .int
    let cast := Expression.unary .cast word .double
    (meeting.Real ∧ meeting.put (.integer 65 .char) = some (.real "65") ∧
      meeting.put word = some cast) ∧
    ∃ after, (doubles.machine Expression.halfLayout).Steps (cast.lowered wordEntry).code (0, wordBoard)
        ((cast.lowered wordEntry).code.length, after) ∧
      after.number? Expression.halfLayout (cast.lowered wordEntry).value = Binary64.spelled? "65" := by
  have real : (Meeting.left .plus (.real "1.5")).Real := ⟨rfl, rfl⟩
  obtain ⟨⟨folds, spelled, -⟩, others, converts, -, -, same⟩ :=
    @literals_widened _ real 65 .char (.inl rfl)
  have loads : wordBoard.processor.loads? Expression.halfLayout
      ((Expression.identifier ⟨0, 0⟩ .int).lowered wordEntry).value .long = some 65 := by decide +kernel
  obtain ⟨after, steps, number⟩ :=
    converts _ _ _ Expression.halfLayout wordEntry wordBoard wordBoard (.inr rfl)
      (Expression.runs_leaf rfl wordEntry wordBoard) loads
  refine ⟨⟨real, folds, others _ (.inr rfl) fun other kind same => by cases same⟩,
    after, ?_, ?_⟩
  · exact steps _ _ _ (Expression.placed_lowered _ _)
  · rw [number, ← same.mpr (by decide), ← spelled]
    rfl

/-- The names of `double d; int main(void) { d = 4294967295; return 0; }`. -/
def storedNames : SymbolTable where
  scopes := [
    { enclosing := none, symbols := [⟨"d", .double, 0⟩, ⟨"main", .function .int 0 [] false, 0⟩] },
    { enclosing := some 0 }]

/-- Its function. -/
def storedMain : Function where
  symbol := ⟨0, 1⟩
  parameters := 0
  scope := 1
  body := [(checkAssign (.identifier ⟨0, 0⟩ .double) (.integer 4294967295 .int)).node,
    .returnValue (.integer 0 .int)]

/-- All that is written for it. -/
def storedItems : List Item :=
  let written := generateFunction storedMain storedNames {}
  (generateGlobals 0 written.1 written.2).items

set_option maxRecDepth 4000 in
/-- The literal becomes a constant that is worth four milliards and more; converted when its code runs,
it would be minus one. -/
theorem stored_unconverted :
    assemblyText "" storedItems =
      ".text\nmain:\n\tpushl\t%ebp\n\tmovl\t%esp, %ebp\n\tsubl\t$main.size, %esp\n" ++
      "\tfldl\t.L1\n\tfstpl\td\n\tmovl\t$0, %eax\n\tjmp\t.L0\n\n" ++
      ".L0:\n\tmovl\t%ebp, %esp\n\tpopl\t%ebp\n\tret\n\n\t.set\tmain.size,8\n\t.globl\tmain\n\n" ++
      ".data\n.L1:\t.double\t4294967295\n\n\t.comm\td,8\n" ∧
    (∃ number, Binary64.spelled? "4294967295" = some number ∧
      Binary64.value? number = some 4294967295) ∧
    let cast := Expression.unary .cast (.integer 4294967295 .int) .double
    ∃ after number, (doubles.machine Expression.halfLayout).Steps (cast.lowered wordEntry).code
        (0, wordBoard) ((cast.lowered wordEntry).code.length, after) ∧
      after.number? Expression.halfLayout (cast.lowered wordEntry).value = some number ∧
      Binary64.value? number = some (-1) := by
  have spelled : Binary64.spelled? "4294967295" = some (Binary64.whole 4294967295) :=
    Binary64.spelled?_toString 4294967295
  have worth : Binary64.value? (Binary64.whole 4294967295) = some ((4294967295 : Int) : ℚ) :=
    Binary64.value?_whole (by decide)
  have least : Binary64.value? (Binary64.whole (-1)) = some ((-1 : Int) : ℚ) :=
    Binary64.value?_whole (by decide)
  obtain ⟨after, steps, number⟩ := Expression.steps_cast_integer doubles Expression.halfLayout
    wordEntry wordBoard 4294967295
  have negative : (UInt32.toBitVec 4294967295).toInt = -1 := by
    rw [toInt_literal]
    simp
  rw [negative] at number
  push_cast at worth least
  refine ⟨?_, ⟨_, spelled, worth⟩, after, _, steps, number, least⟩
  cbv

end SmallC
