import SmallC.Proofs.Execution.Simulation
import SmallC.Proofs.Words.Temporaries

/-! Expressions on words, characters and pointers compute the values they have in the source. -/

namespace SmallC

attribute [local simp] Expression.isPlain Expression.value Expression.Defined

/-- Numbers that are not floating-point and pointers go through word and byte registers. -/
theorem Width.of_ne_double {type : Ty} (word : type.isReal = false) : Width.of type ≠ .double := by
  unfold Width.of
  rw [word, if_neg Bool.false_ne_true]
  split <;> simp

/-- Pointers go through word registers. -/
theorem Width.of_pointer (specifier : Specifier) (indirection : Nat) :
    Width.of (.scalar specifier (indirection + 1)) = .long := by
  cases specifier <;> simp [Width.of, Ty.isReal, Ty.char]

theorem Ty.Arithmetic.eq_int {type : Ty} (arithmetic : type.Arithmetic)
    (word : type.isReal = false) : type = .int := by
  cases arithmetic with
  | int => rfl
  | double => contradiction

/-- The results of operators between words and pointers go through word registers. -/
theorem BinaryOp.Types.width {op : BinaryOp} {left right type : Ty} (types : op.Types left right type)
    (word : type.isReal = false) : Width.of type = .long := by
  cases types with
  | multiply arithmetic | divide arithmetic | add arithmetic | subtract arithmetic =>
    rw [arithmetic.eq_int word]
    rfl
  | addRight | addLeft | subtractRight => exact Width.of_pointer _ _
  | _ => rfl

namespace Expression

variable {symbols : SymbolTable}

/-- The value of a plain expression is no floating-point number. -/
theorem Typed.isReal {expression : Expression} (typed : expression.Typed symbols)
    (plain : expression.isPlain false = true) : expression.type.isReal = false := by
  -- Every node is asked for itself, except whole numbers, which are words.
  cases typed with
  | integer => rfl
  | @unary op operand type => cases op <;> simp_all [Expression.type]
  | identifier | binary | address | decay => simp_all [Expression.type]
  | _ => simp at plain

/-- A node that is no decision gives what its own code leaves. -/
theorem of_lower {expression : Expression} {progress last : Progress} {own : Code} {value : Operand}
    (lowers : lower expression progress = (⟨codeAll expression.parts progress ++ own, value⟩, last)) :
    expression.own progress = own ∧ (expression.lowered progress).value = value ∧
      expression.after progress = last := by
  -- The own code is what remains behind that of the parts.
  unfold Expression.own lowered after
  rw [lowers]
  exact ⟨List.drop_left, rfl, rfl⟩

end Expression

/-- The state is in the frame, and nothing but temporaries between the bounds has been written since
memory was as given. -/
structure Ready (base : BitVec 32) (low high : Int) (memory : Memory) (state : Processor) : Prop where
  /-- The frame has the base. -/
  ebp : state.ebp = base
  /-- Everything else is still there. -/
  memory : Unchanged base low high memory state.memory

section

variable {layout : Layout} {base : BitVec 32} {memory : Memory} {low high : Int}
  {progress : Progress} {state between : Processor}

theorem Ready.keeps {bottom top : Int} (ready : Ready base low high memory state)
    (kept : state.Keeps bottom top between) (below : low ≤ bottom) (above : top ≤ high) :
    Ready base low high memory between := by
  refine ⟨kept.ebp.trans ready.ebp, ready.memory.trans ?_⟩
  rw [← ready.ebp]
  exact kept.memory.mono below above

theorem Ready.read {address : BitVec 32} {width : Width} (ready : Ready base low high memory state)
    (clear : Clear base low high address width) :
    state.memory.read address width = memory.read address width :=
  ready.memory.read clear

/-- The storage of a symbol is found from the base of the frame. -/
theorem address_operandOf (layout : Layout) (state : Processor) (symbols : SymbolTable)
    (symbol : SymbolId) :
    state.address? layout (Expression.operandOf symbols symbol) =
      some (layout.place state.ebp (Expression.operandOf symbols symbol)) := by
  unfold Expression.operandOf
  split <;> rfl

namespace Expression

/-- A strict node whose parts have run and whose own code stores a result computes it. -/
theorem computes_strict {node : Expression} {type : Ty} {code own : Code} {reached : Progress}
    {piece : Behaviour Processor} {result : BitVec 32} (strict : node.isDecision = false)
    (codes : codeAll node.parts progress = code) (reaches : afterAll node.parts progress = reached)
    (pieces : runsAll layout.machine node.parts progress = piece)
    (lowers : lower node progress = (⟨code ++ own, reached.slot type⟩, reached.take type))
    (word : type.isReal = false) (fits : high - low ≤ 2 ^ 32)
    (within : progress.frame.offset ≤ high) (begun : piece state .onward between)
    (kept : state.Keeps reached.frame.offset progress.frame.offset between)
    (stores : Stores layout own between (reached.frame.offset - (Width.of type).size)
      (Width.of type).size result)
    (trimmed : (Width.of type).trim result = node.value layout base memory progress) :
    Computes layout low (node.runs layout.machine progress) state (node.after progress).frame.offset
      progress.frame.offset (node.lowered progress).value (Width.of type)
      (node.value layout base memory progress) := by
  -- The parts have run, and what the own code stores is the result.
  subst codes reaches pieces
  rw [← trimmed]
  obtain ⟨same, value, last⟩ := of_lower lowers
  have places := (evaluatesAll node.parts progress).places
  rw [runs_strict _ strict, same, value, last]
  have lower : ((afterAll node.parts progress).take type).frame.offset ≤
      (afterAll node.parts progress).frame.offset := (Progress.evaluates_take _ type).places
  have limit : progress.frame.offset - low ≤ 2 ^ 32 := by omega
  obtain ⟨after, stored, keeps, holds⟩ := stores.finishes (Width.of_ne_double word) limit kept
    lower (Int.le_refl _) (by omega)
  exact ⟨after, .inl ⟨between, begun, stored⟩, keeps, holds⟩

variable (layout base memory low high) in
/-- Wherever the expression is lowered and has a value, its code computes the value. -/
def Computed (expression : Expression) : Prop :=
  ∀ ⦃symbols : SymbolTable⦄ ⦃progress : Progress⦄ ⦃state : Processor⦄,
    expression.Typed symbols → expression.isPlain false = true →
    expression.Defined layout base memory low high progress →
    low ≤ (expression.after progress).frame.offset → progress.frame.offset ≤ high →
    Ready base low high memory state →
    Computes layout low (expression.runs layout.machine progress) state
      (expression.after progress).frame.offset progress.frame.offset
      (expression.lowered progress).value (Width.of expression.type)
      (expression.value layout base memory progress)

/-- A whole number is in the instruction that uses it. -/
theorem computed_integer (number : UInt32) (type : Ty) :
    (Expression.integer number type).Computed layout base memory low high := by
  -- Nothing runs, and a constant needs no storage.
  intro symbols progress state typed _ _ _ _ _
  refine ⟨state, ?_, .refl _, ?_⟩
  · rw [runs]
    exact ⟨rfl, rfl⟩
  · intro other _ _
    have word : BitVec.ofInt 32 number.toNat = number.toBitVec := by
      rw [BitVec.ofInt_natCast]
      show BitVec.ofNat 32 number.toBitVec.toNat = _
      rw [BitVec.ofNat_toNat, BitVec.setWidth_eq]
    unfold lowered
    rw [lower_integer, value, ← word]
    cases typed
    rfl

/-- A variable is read where it is. -/
theorem computed_identifier (symbol : SymbolId) (type : Ty) :
    (Expression.identifier symbol type).Computed layout base memory low high := by
  -- Nothing runs, and no temporary is where the variable is.
  intro symbols progress state typed plain defined _ within ready
  have word : type.isReal = false := typed.isReal plain
  refine ⟨state, ?_, .refl _, ?_⟩
  · rw [runs]
    exact ⟨rfl, rfl⟩
  · intro other same unchanged
    have kept : state.Keeps low high { other with esp := state.esp } := by
      refine ⟨same, rfl, unchanged.mono (Int.le_refl _) ?_⟩
      unfold after
      rw [lower_identifier]
      exact within
    have still := (ready.keeps kept (Int.le_refl _) (Int.le_refl _)).read defined
    have there := address_operandOf layout other progress.symbols symbol
    rw [same, ready.ebp] at there
    unfold lowered
    rw [lower_identifier, value, ← still]
    exact Processor.loads_storage (Width.of_ne_double word) there

/-- A node that works on the value of its operand computes what it makes of it. -/
theorem Computed.unary {op : UnaryOp} {operand : Expression} {type : Ty} {own : Code}
    {result : BitVec 32} (part : operand.Computed layout base memory low high)
    (strict : op ≠ .address) (typed : (Expression.unary op operand type).Typed symbols)
    (plain : (Expression.unary op operand type).isPlain false = true)
    (defined : operand.Defined layout base memory low high progress)
    (fits : high - low ≤ 2 ^ 32)
    (room : low ≤ ((Expression.unary op operand type).after progress).frame.offset)
    (within : progress.frame.offset ≤ high) (ready : Ready base low high memory state)
    (lowers : lower (.unary op operand type) progress = (⟨(operand.lowered progress).code ++ own,
      (operand.after progress).slot type⟩, (operand.after progress).take type))
    (trimmed : (Width.of type).trim result =
      (Expression.unary op operand type).value layout base memory progress)
    (works : operand.type.isReal = false → ∀ between, Ready base low high memory between →
      between.Shows layout (operand.lowered progress).value (Width.of operand.type)
        (operand.value layout base memory progress) →
      Stores layout own between ((operand.after progress).frame.offset - (Width.of type).size)
        (Width.of type).size result) :
    Computes layout low ((Expression.unary op operand type).runs layout.machine progress) state
      ((Expression.unary op operand type).after progress).frame.offset progress.frame.offset
      ((Expression.unary op operand type).lowered progress).value (Width.of type)
      ((Expression.unary op operand type).value layout base memory progress) := by
  -- The operand has been computed when the own code of the node starts.
  have operandTyped : operand.Typed symbols := by
    cases typed with
    | unary typed types => exact typed
    | _ => contradiction
  obtain ⟨operandPlain, word⟩ : operand.isPlain false = true ∧ type.isReal = false := by
    cases op <;> first | contradiction | simpa using plain
  have parts : (Expression.unary op operand type).parts = [operand] := by
    cases op <;> first | contradiction | rfl
  have places : low ≤ (operand.after progress).frame.offset := by
    have last : (Expression.unary op operand type).after progress =
        (operand.after progress).take type := congrArg Prod.snd lowers
    rw [last] at room
    exact Int.le_trans room (Progress.evaluates_take _ type).places
  obtain ⟨between, begun, kept, holds⟩ :=
    part operandTyped operandPlain defined places within ready
  have stores := works (operandTyped.isReal operandPlain) between
    (ready.keeps kept places within) holds.shows
  refine computes_strict rfl ?_ ?_ ?_ lowers word fits within begun kept stores trimmed
  · rw [parts, codeAll_single]
  · rw [parts, afterAll_cons, afterAll_nil]
  · rw [parts, runsAll, runsAll, Behaviour.andThen_stay]

/-- A negation compares its operand with zero. -/
theorem computed_not {operand : Expression} (type : Ty) (fits : high - low ≤ 2 ^ 32)
    (part : operand.Computed layout base memory low high) :
    (Expression.unary .not operand type).Computed layout base memory low high := by
  -- The result of a negation is a word.
  intro symbols progress state typed plain defined room within ready
  obtain rfl : type = .int := by
    cases typed with
    | unary _ types => cases types; rfl
  refine part.unary (by simp) typed plain (by simpa using defined) fits room within ready
    (lower_not ..) (by rw [value]; rfl) ?_
  intro word between _ shows
  exact stores_not word shows _

/-- An opposite is taken of a word. -/
theorem computed_negate {operand : Expression} (type : Ty) (fits : high - low ≤ 2 ^ 32)
    (part : operand.Computed layout base memory low high) :
    (Expression.unary .negate operand type).Computed layout base memory low high := by
  -- Arithmetic that is not floating-point is on words.
  intro symbols progress state typed plain defined room within ready
  have word : type.isReal = false := typed.isReal plain
  obtain rfl : type = .int := by
    cases typed with
    | unary _ types =>
      cases types with
      | negate arithmetic => exact arithmetic.eq_int word
  refine part.unary (by simp) typed plain (by simpa using defined) fits room within ready
    (lower_negate ..) (by rw [value]; rfl) ?_
  intro _ between _ shows
  exact stores_negation word shows _

/-- What is followed is a pointer. -/
theorem Typed.width_pointer {pointer : Expression} {type : Ty}
    (typed : (Expression.unary .dereference pointer type).Typed symbols) :
    Width.of pointer.type = .long := by
  cases typed with
  | unary _ types =>
    generalize pointer.type = pointed at types
    cases types
    exact Width.of_pointer _ _

/-- What a pointer points to is copied. -/
theorem computed_dereference {pointer : Expression} (type : Ty) (fits : high - low ≤ 2 ^ 32)
    (part : pointer.Computed layout base memory low high) :
    (Expression.unary .dereference pointer type).Computed layout base memory low high := by
  -- What is read was there from the start, since it is clear of the temporaries.
  intro symbols progress state typed plain defined room within ready
  have word : type.isReal = false := typed.isReal plain
  obtain ⟨defined, clear⟩ := by simpa using defined
  have long := typed.width_pointer
  have trimmed : (Width.of type).trim (memory.read (pointer.value layout base memory progress)
      (Width.of type)) =
        (Expression.unary .dereference pointer type).value layout base memory progress := by
    rw [value, Width.trim_read]
  refine part.unary (by simp) typed plain defined fits room within ready (lower_dereference ..)
    trimmed ?_
  intro _ between there shows
  rw [← there.read clear]
  rw [long] at shows
  exact stores_dereference (Width.of_ne_double word) shows _

/-- Conversions between words and characters take no scratch word. -/
theorem convertValue_words {source type : Ty} (word : source.isReal = false)
    (result : type.isReal = false) (value slot : Operand) (progress : Progress) :
    (convertValue source type value slot progress).2 = progress := by
  -- Only conversions from and to floating-point numbers may take one.
  have narrow := Width.of_ne_double word
  have wide := Width.of_ne_double result
  unfold convertValue
  generalize Width.of source = first at narrow
  generalize Width.of type = second at wide
  cases first <;> cases second <;> first | contradiction | rfl

/-- A conversion keeps what is left of its operand. -/
theorem computed_cast {operand : Expression} (type : Ty) (fits : high - low ≤ 2 ^ 32)
    (part : operand.Computed layout base memory low high) :
    (Expression.unary .cast operand type).Computed layout base memory low high := by
  -- Neither side is floating-point, and the value loses what its width has no room for.
  intro symbols progress state typed plain defined room within ready
  have word : type.isReal = false := typed.isReal plain
  have operandWord : operand.type.isReal = false := by
    cases typed with
    | unary typed _ => exact typed.isReal (by simp_all)
  have lowers := lower_cast progress operand type
  simp only [convertValue_words operandWord word] at lowers
  refine part.unary (by simp) typed plain (by simpa using defined) fits room within ready lowers
    (by rw [value]) ?_
  intro _ between _ shows
  exact stores_convertValue (Width.of_ne_double operandWord) (Width.of_ne_double word) shows _ _

/-- An operator between two values works on both of them. -/
theorem computed_binary {op : BinaryOp} {left right : Expression} (type : Ty)
    (conjunction : op ≠ .logicalAnd) (disjunction : op ≠ .logicalOr) (fits : high - low ≤ 2 ^ 32)
    (first : left.Computed layout base memory low high)
    (second : right.Computed layout base memory low high) :
    (Expression.binary op left right type).Computed layout base memory low high := by
  intro symbols progress state typed plain defined room within ready
  have word : type.isReal = false := typed.isReal plain
  obtain ⟨leftTyped, rightTyped, types⟩ : left.Typed symbols ∧ right.Typed symbols ∧
      op.Types left.type right.type type := by
    cases typed with
    | binary first second types => exact ⟨first, second, types⟩
  obtain ⟨⟨leftPlain, rightPlain⟩, -⟩ := by simpa using plain
  rw [defined_strict _ _ _ _ _ conjunction disjunction] at defined
  obtain ⟨leftDefined, rightDefined, defined⟩ := defined
  have lowers := lower_binary progress conjunction disjunction left right type
  have last : (Expression.binary op left right type).after progress =
      (right.after (left.after progress)).take type := congrArg Prod.snd lowers
  have strict : (Expression.binary op left right type).isDecision = false := by
    cases op <;> first | contradiction | rfl
  have early := (left.evaluates progress).places
  have late := (right.evaluates (left.after progress)).places
  have taken := ((right.after (left.after progress)).evaluates_take type).places
  rw [last] at room
  obtain ⟨middle, begun, kept, leftHolds⟩ :=
    first leftTyped leftPlain leftDefined (by omega) within ready
  obtain ⟨between, ended, stays, rightHolds⟩ := second rightTyped rightPlain rightDefined
    (Int.le_trans room taken) (by omega) (ready.keeps kept (by omega) within)
  -- The left value stays while the right one is computed, for its temporaries are further down.
  have leftStays := leftHolds.keeps (stays.mono (Int.le_trans room taken) (Int.le_refl _))
  have long : Width.of type = .long := types.width word
  have both : ((left.runs layout.machine progress).andThen
      (right.runs layout.machine (left.after progress))) state .onward between :=
    .inl ⟨middle, begun, ended⟩
  have trimmed : (Width.of type).trim (op.result left.type (left.value layout base memory progress)
      (right.value layout base memory (left.after progress))) =
        (Expression.binary op left right type).value layout base memory progress := by
    rw [value_strict _ _ _ conjunction disjunction, long]
    rfl
  refine computes_strict strict ?_ ?_ ?_ lowers word fits within both
    ((kept.mono late (Int.le_refl _)).trans (stays.mono (Int.le_refl _) early)) ?_ trimmed
  · rw [parts, codeAll_cons, codeAll_single]
  · rw [parts, afterAll_cons, afterAll_cons, afterAll_nil]
  · rw [parts, runsAll, runsAll, runsAll, Behaviour.andThen_stay]
  · show Stores layout _ between (_ - ((Width.of type).size : Int)) (Width.of type).size _
    rw [Progress.slot, long]
    exact stores_operateOn types conjunction disjunction word (leftTyped.isReal leftPlain)
      leftStays.shows rightHolds.shows defined _

/-- An address is taken of what a pointer points to, of a name or of a text. -/
theorem Typed.address_cases {operand : Expression} {type : Ty}
    (typed : (Expression.unary .address operand type).Typed symbols) :
    operand.Typed symbols ∧ Width.of type = .long ∧
      ((∃ pointer pointed, operand = .unary .dereference pointer pointed) ∨
        (∃ symbol declared, operand = .identifier symbol declared) ∨
          ∃ text, operand = .string text) := by
  -- Storage is a name or behind a pointer, and only names and texts are arrays.
  cases typed with
  | unary _ types => cases types
  | address typed storage _ =>
    refine ⟨typed, Width.of_pointer _ _, ?_⟩
    cases operand with
    | identifier symbol declared => exact .inr (.inl ⟨symbol, declared, rfl⟩)
    | unary op pointer pointed =>
      cases op <;> first | contradiction | exact .inl ⟨pointer, pointed, rfl⟩
    | _ => contradiction
  | decay typed array =>
    refine ⟨typed, Width.of_pointer _ _, ?_⟩
    rcases typed.scalar_or_named with ⟨_, _, scalar⟩ | ⟨symbol, declared, same, _⟩ | ⟨text, same⟩
    · rw [array] at scalar
      contradiction
    · exact .inr (.inl ⟨symbol, declared, same⟩)
    · exact .inr (.inr ⟨text, same⟩)

/-- An address is that of a place, which is reached by computing its target. -/
theorem lower_address_target (operand : Expression) (type : Ty) (progress : Progress) :
    lower (.unary .address operand type) progress =
      (⟨(operand.target.lowered progress).code
        ++ [loadAddress (operand.located progress).place,
          storeWord ((operand.target.after progress).slot type)],
        (operand.target.after progress).slot type⟩, (operand.target.after progress).take type) := by
  rw [lower_address, (located_target progress operand).1, (located_target progress operand).2]

/-- Once the target has been computed, the address of the place is brought. -/
theorem brings_address {operand : Expression} {type : Ty}
    (part : operand.target.Computed layout base memory low high)
    (typed : (Expression.unary .address operand type).Typed symbols)
    (plain : (Expression.unary .address operand type).isPlain false = true)
    (defined : (Expression.unary .address operand type).Defined layout base memory low high progress)
    (room : low ≤ (operand.target.after progress).frame.offset)
    (within : progress.frame.offset ≤ high) (ready : Ready base low high memory state) :
    ∃ between, operand.target.runs layout.machine progress state .onward between ∧
      state.Keeps (operand.target.after progress).frame.offset progress.frame.offset between ∧
      Brings layout [loadAddress (operand.located progress).place] between
        ((Expression.unary .address operand type).value layout base memory progress) := by
  -- Behind a pointer the pointer is computed; names and texts have addresses of their own.
  obtain ⟨operandTyped, -, shape⟩ := typed.address_cases
  rcases shape with ⟨pointer, pointed, rfl⟩ | ⟨symbol, declared, rfl⟩ | ⟨text, rfl⟩
  · have pointerTyped : pointer.Typed symbols := by
      cases operandTyped with
      | unary typed _ => exact typed
    have pointerPlain : pointer.isPlain false = true := by
      simp at plain
      exact plain.1.1
    have pointerDefined : pointer.Defined layout base memory low high progress := by
      simpa using defined
    have reaches : pointer.Computed layout base memory low high := part
    obtain ⟨between, begun, kept, holds⟩ :=
      reaches pointerTyped pointerPlain pointerDefined room within ready
    refine ⟨between, begun, kept, ?_⟩
    rw [operandTyped.width_pointer] at holds
    rw [value]
    exact brings_load holds.shows
  · refine ⟨state, ?_, .refl _, ?_⟩
    · show runs layout.machine (.identifier symbol declared) progress state .onward state
      rw [runs]
      exact ⟨rfl, rfl⟩
    · have there := address_operandOf layout state progress.symbols symbol
      rw [ready.ebp] at there
      unfold located
      rw [lowerPlace_itself _ (by simp), value]
      unfold lowered
      rw [lower_identifier]
      exact brings_loadAddress there
  · refine ⟨state, ?_, .refl _, ?_⟩
    · show runs layout.machine (.string text) progress state .onward state
      rw [runs]
      exact ⟨rfl, rfl⟩
    · unfold located
      rw [lowerPlace_itself _ (by simp), value]
      unfold lowered
      rw [lower_string]
      exact brings_loadAddress rfl

/-- An address is computed like a pointer. -/
theorem computed_address {operand : Expression} (type : Ty) (fits : high - low ≤ 2 ^ 32)
    (part : operand.target.Computed layout base memory low high) :
    (Expression.unary .address operand type).Computed layout base memory low high := by
  -- The address is stored in a word, whatever it is the address of.
  intro symbols progress state typed plain defined room within ready
  have word : type.isReal = false := typed.isReal plain
  obtain ⟨-, long, -⟩ := typed.address_cases
  have lowers := lower_address_target operand type progress
  have last : (Expression.unary .address operand type).after progress =
      (operand.target.after progress).take type := congrArg Prod.snd lowers
  have taken := ((operand.target.after progress).evaluates_take type).places
  rw [last] at room
  obtain ⟨between, begun, kept, brings⟩ :=
    brings_address part typed plain defined (Int.le_trans room taken) within ready
  have trimmed : (Width.of type).trim
      ((Expression.unary .address operand type).value layout base memory progress) =
        (Expression.unary .address operand type).value layout base memory progress := by
    rw [long]
    rfl
  refine computes_strict rfl ?_ ?_ ?_ lowers word fits within begun kept ?_ trimmed
  · rw [parts, codeAll_single]
  · rw [parts, afterAll_cons, afterAll_nil]
  · rw [parts, runsAll, runsAll, Behaviour.andThen_stay]
  · show Stores layout _ between (_ - ((Width.of type).size : Int)) (Width.of type).size _
    rw [Progress.slot, long]
    exact brings.stores _

/-- A decision stores whether it holds once its operands have decided. -/
theorem computed_decision (either : Bool) {left right : Expression} (type : Ty)
    (fits : high - low ≤ 2 ^ 32) (first : left.Computed layout base memory low high)
    (second : right.Computed layout base memory low high) :
    (Expression.binary (decision either) left right type).Computed layout base memory low high := by
  -- Either the left operand decides, or the right one does in its place.
  intro symbols progress state typed plain defined room within ready
  obtain ⟨leftTyped, rightTyped, types⟩ : left.Typed symbols ∧ right.Typed symbols ∧
      (decision either).Types left.type right.type type := by
    cases typed with
    | binary first second types => exact ⟨first, second, types⟩
  obtain ⟨⟨leftPlain, rightPlain⟩, word⟩ := by simpa using plain
  obtain ⟨leftDefined, rightDefined⟩ := (defined_decision ..).mp defined
  obtain rfl : type = .int := by
    cases either <;> cases types <;> rfl
  have early := (left.evaluates (progress.enter .int)).places
  have late := (right.evaluates (left.after (progress.enter .int))).places
  have entered : (progress.enter .int).frame.offset = progress.frame.offset - 4 := rfl
  rw [after_decision] at room ⊢
  have result : ((Expression.binary (decision either) left right .int).lowered progress).value =
      .frame (progress.frame.offset - 4) := by
    unfold lowered
    rw [lower_decision]
    rfl
  rw [runs_decision, value_decision, BinaryOp.result_decision, result]
  have limit : progress.frame.offset - low ≤ 2 ^ 32 := by omega
  have computes := first leftTyped leftPlain leftDefined (by omega) (by omega) ready
  obtain ⟨early, begun, kept, outcome⟩ := computes.tests (leftTyped.isReal leftPlain)
  have entering := kept.mono (Int.le_refl _) (show _ ≤ progress.frame.offset by omega)
  by_cases decided : (left.value layout base memory (progress.enter .int) != 0) = either
  · obtain ⟨after, settled, keeps, holds⟩ := settles either limit entering late (by omega)
    rw [decided] at outcome
    rw [if_pos decided]
    exact ⟨after, decides_left begun outcome settled, keeps, holds⟩
  · have undecided : (left.value layout base memory (progress.enter .int) != 0) = !either := by
      cases either <;> simpa using decided
    have computes := second rightTyped rightPlain (rightDefined decided) room (by omega)
      (ready.keeps kept (by omega) (by omega))
    obtain ⟨last, ended, stays, outcome'⟩ := computes.tests (rightTyped.isReal rightPlain)
    obtain ⟨after, settled, keeps, holds⟩ := settles _ limit
      ((entering.mono late (Int.le_refl _)).trans (stays.mono (Int.le_refl _) (by omega)))
      (Int.le_refl _) (by omega)
    rw [undecided] at outcome
    rw [if_neg decided]
    exact ⟨after, decides_right begun outcome ended outcome' settled, keeps, holds⟩

/-- Every expression on words, characters and pointers computes its value. -/
theorem computed (fits : high - low ≤ 2 ^ 32) (expression : Expression) :
    expression.Computed layout base memory low high := by
  -- The induction is on parts, since an address skips the node below it.
  induction expression using inductionOnParts with
  | decision either left right type first second => exact computed_decision either type fits first second
  | strict expression strict each =>
    cases expression with
    | integer number type => exact computed_integer number type
    | identifier symbol type => exact computed_identifier symbol type
    | unary op operand type =>
      cases op with
      | not => exact computed_not type fits (each _ (by simp [parts]))
      | negate => exact computed_negate type fits (each _ (by simp [parts]))
      | dereference => exact computed_dereference type fits (each _ (by simp [parts]))
      | address => exact computed_address type fits (each _ (by simp [parts]))
      | cast => exact computed_cast type fits (each _ (by simp [parts]))
    | binary op left right type =>
      obtain ⟨conjunction, disjunction⟩ := operator_strict strict
      exact computed_binary type conjunction disjunction fits (each _ (by simp [parts]))
        (each _ (by simp [parts]))
    | real | string | call | step =>
      -- Texts on their own, floating-point numbers, calls and steps are not of this part.
      intro symbols progress state _ plain
      simp at plain

end Expression

end

namespace Expression

/-- The code of an expression finds its own labels where it stands alone. -/
theorem placed_lowered (expression : Expression) (progress : Progress) :
    Placed (expression.lowered progress).code 0 (expression.lowered progress).code
      (expression.lowered progress).code.length := by
  have accounts := expression.accounts progress
  obtain ⟨more, joined, -⟩ := (expression.evaluates progress).constants
  have placed := @placed_between [] (expression.lowered progress).code [] (by
    intro label some
    have once := accounts.once label
    have grows : progress.kept label ≤ (expression.after progress).kept label := by
      simp only [Progress.kept, joined, List.countP_append]
      omega
    -- A label is handed out once, and constants only become more.
    unfold Progress.handed at once
    rw [List.nil_append]
    split at once <;> omega)
  simpa using placed

/-- A typed expression on words, characters and pointers is computed by its code from any state in
which it has a value and its temporaries fit into the address space: the code runs to its end, alone or
wherever it stands, the operand then has the value, and only the temporaries have changed. -/
theorem lowered_computes {symbols : SymbolTable} {expression : Expression}
    (typed : expression.Typed symbols) (plain : expression.isPlain false = true) (layout : Layout)
    (progress : Progress) (before : Processor)
    (fits : progress.frame.offset - (expression.after progress).frame.offset ≤ 2 ^ 32)
    (defined : expression.Defined layout before.ebp before.memory
      (expression.after progress).frame.offset progress.frame.offset progress) :
    ∃ after,
      layout.machine.Steps (expression.lowered progress).code (0, before)
          ((expression.lowered progress).code.length, after) ∧
        (∀ items start stop, Placed items start (expression.lowered progress).code stop →
          layout.machine.Steps items (start, before) (stop, after)) ∧
        after.loads? layout (expression.lowered progress).value (Width.of expression.type) =
          some (expression.value layout before.ebp before.memory progress) ∧
        before.Keeps (expression.after progress).frame.offset progress.frame.offset after := by
  -- The code follows the source, and the source computes the value.
  have ready : Ready before.ebp (expression.after progress).frame.offset progress.frame.offset
      before.memory before := ⟨rfl, .refl⟩
  obtain ⟨after, runs, keeps, holds⟩ :=
    computed fits expression typed plain defined (Int.le_refl _) (Int.le_refl _) ready
  have runsAt (items : List Item) (start stop : Nat)
      (placed : Placed items start (expression.lowered progress).code stop) :
      layout.machine.Steps items (start, before) (stop, after) := by
    have follows : layout.machine.Follows items { function := progress.label } start stop
        (expression.runs layout.machine progress) := expression.follows progress start stop placed
    obtain ⟨_, steps, rfl⟩ := follows _ _ _ runs
    exact steps
  refine ⟨after, runsAt _ _ _ (expression.placed_lowered progress), runsAt, ?_, keeps⟩
  exact holds.shows after rfl rfl

/-- The test whether the half of the second word that a parameter points to is the opposite of three,
if there is a parameter. -/
def halfTest : Expression :=
  let words : Expression := .identifier ⟨0, 0⟩ (.scalar .int 1)
  let second : Expression := .unary .dereference
    (.binary (.add 0 4) words (.integer 1 .int) (.scalar .int 1)) .int
  let half : Expression := .binary .divide second (.integer 2 .int) .int
  .binary .logicalAnd words
    (.binary (.compare .equal) half (.unary .negate (.integer 3 .int) .int) .int) .int

/-- A function whose only parameter is a pointer to words has been entered. -/
def halfEntry : Progress where
  symbols := { scopes := [{ enclosing := none, symbols := [⟨"words", .scalar .int 1, 8⟩] }] }
  nextLabel := 1

/-- The caller has passed a pointer to two words of its own, the second one being minus seven. -/
def halfState : Processor where
  eax := 0
  ecx := 0
  edx := 0
  ebp := 0x1000
  esp := 0x0f00
  flags := none
  memory := (Memory.write (fun _ => 0) 0x1008 4 0x1010).write 0x1014 4 (-7)

/-- The names and constants of the unit follow each other from page to page. -/
def halfLayout : Layout := ⟨fun _ => 0x2000, fun label => 0x3000 + BitVec.ofNat 32 label.number⟩

/-- Each word of the caller is clear of the temporaries of the test. -/
theorem defined_halfTest : halfTest.Defined halfLayout halfState.ebp halfState.memory
    (halfTest.after halfEntry).frame.offset halfEntry.frame.offset halfEntry := by
  -- Only the parameter and the word behind the pointer are read.
  have bottom : (halfTest.after halfEntry).frame.offset = -24 := by decide +kernel
  have words : Clear halfState.ebp (-24) 0 (halfState.ebp + BitVec.ofInt 32 8) .long :=
    @clear_slot _ _ _ 12 (by decide) _ .long (by decide) (by decide)
  have second : Clear halfState.ebp (-24) 0 (halfState.ebp + BitVec.ofInt 32 20) .long :=
    @clear_slot _ _ _ 24 (by decide) _ .long (by decide) (by decide)
  have pointer : (Expression.binary (.add 0 4) (.identifier ⟨0, 0⟩ (.scalar .int 1)) (.integer 1 .int)
      (.scalar .int 1)).value halfLayout halfState.ebp halfState.memory (halfEntry.enter .int) =
        halfState.ebp + BitVec.ofInt 32 20 := by decide +kernel
  rw [bottom]
  refine ⟨words, fun _ => ⟨⟨⟨⟨words, trivial, trivial⟩, ?_⟩, trivial, ?_⟩, trivial, trivial⟩⟩
  · exact pointer ▸ second
  · decide +kernel

/-- The test holds, for the quotient of minus seven and two is minus three. -/
theorem lowered_computes_half : ∃ after,
    halfLayout.machine.Steps (halfTest.lowered halfEntry).code (0, halfState)
        ((halfTest.lowered halfEntry).code.length, after) ∧
      after.loads? halfLayout (halfTest.lowered halfEntry).value .long = some 1 := by
  have typed : halfTest.Typed halfEntry.symbols := by
    have words : (Expression.identifier ⟨0, 0⟩ (.scalar .int 1)).Typed halfEntry.symbols :=
      .identifier _ rfl (by simp)
    have second := Typed.unary (.binary words (.integer 1) (.addRight .int 0)) (.dereference .int 0)
    have half := Typed.binary second (.integer 2) (.divide .int)
    have equal := Typed.binary half (.unary (.integer 3) (.negate .int)) (.compare .equal rfl)
    exact .binary words equal (.logicalAnd (.pointer ..) .int)
  have value : halfTest.value halfLayout halfState.ebp halfState.memory halfEntry = 1 := by
    decide +kernel
  obtain ⟨after, steps, -, loads, -⟩ :=
    lowered_computes typed rfl halfLayout halfEntry halfState (by decide +kernel) defined_halfTest
  rw [value] at loads
  exact ⟨after, steps, loads⟩

end Expression

end SmallC
