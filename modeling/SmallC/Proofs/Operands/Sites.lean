import SmallC.Proofs.Frames.Residents
import SmallC.Proofs.Lowering.Constants
import SmallC.Proofs.Operands.Templates

/-! Sites of a typed function: their code is of accepted forms, and names in memory only what it
computes with. -/

namespace SmallC

/-! What a computed value may be used for. -/

namespace Expression

/-- The forms of expressions and of the operands where their values are: a whole number is in the
instruction, another constant under its label, a name of the unit in its storage, and everything
else in the frame. -/
inductive Shown (progress : Progress) : Expression → Operand → Prop where
  /-- A whole number. -/
  | integer (number : UInt32) (type : Ty) :
    Shown progress (.integer number type) (SmallC.immediate number.toNat)
  /-- A constant. -/
  | constant {expression : Expression} (literal : expression.literal?.isSome) :
    Shown progress expression (.label progress.label)
  /-- A name of the unit. -/
  | global (symbol : SymbolId) (type : Ty) :
    Shown progress (.identifier symbol type) (.global (progress.symbols.nameOf symbol))
  /-- A local name, or a value that has been computed. -/
  | frame (expression : Expression) (offset : Int) : Shown progress expression (.frame offset)

/-- Where the value of an expression is. -/
theorem shown (expression : Expression) (progress : Progress) :
    Shown progress expression (expression.lowered progress).value := by
  -- Whatever has operands of its own leaves its value in the frame.
  have inner {node : Expression} (inner : node.isLeaf = false) :
      Shown progress node (node.lowered progress).value := by
    obtain ⟨place, type, framed⟩ := value_frame progress inner
    rw [framed]
    exact .frame node _
  cases expression with
  | integer number type =>
    unfold lowered
    rw [lower_integer]
    exact .integer number type
  | real spelling =>
    unfold lowered
    rw [lower_real]
    exact .constant rfl
  | string text =>
    unfold lowered
    rw [lower_string]
    exact .constant rfl
  | identifier symbol type =>
    unfold lowered
    rw [lower_identifier]
    show Shown progress _ (operandOf progress.symbols symbol)
    unfold operandOf
    split
    · exact .global symbol type
    · exact .frame _ _
  | call | unary | step | binary => exact inner rfl

/-- Only whole numbers are constants inside instructions. -/
theorem integer_of_immediate {expression : Expression} {progress : Progress}
    (constant : (expression.lowered progress).value.isImmediate = true) :
    ∃ number type, expression = .integer number type := by
  have shown := expression.shown progress
  generalize (expression.lowered progress).value = value at shown constant
  cases shown with
  | integer number type => exact ⟨number, type, rfl⟩
  | constant | global | frame => cases constant

end Expression

section Values

variable {symbols : SymbolTable} {values : List (Expression × Progress)}
  {through : Option Register} {callee : Option String} {value : Expression × Progress}

/-- A typed value may be read where it is, unless it is an array. -/
theorem reads_value (listed : value ∈ values) (typed : value.1.Typed symbols)
    (plain : value.1.type.isArray = false) :
    Reads values through value.1.type (value.1.lowered value.2).value where
  constant immediate := by
    obtain ⟨number, type, same⟩ := Expression.integer_of_immediate immediate
    rw [same] at typed ⊢
    cases typed
    rfl
  memory _ _ suits := .value listed (.read plain suits)

/-- Typed storage may be read and written where it is. -/
theorem stores_value (listed : value ∈ values) (typed : value.1.Typed symbols)
    (storage : value.1.isLvalue = true) :
    Storage values through value.1.type (value.1.lowered value.2).value where
  memory := by
    refine Bool.eq_false_iff.mpr fun immediate => ?_
    obtain ⟨number, type, same⟩ := Expression.integer_of_immediate immediate
    rw [same] at storage
    cases storage
  uses opcode suits := by
    -- What can be stored to is a scalar, so that it can be read as well.
    obtain ⟨specifier, indirection, scalar⟩ := typed.scalar_of_lvalue storage
    rcases suits with reads | stores
    · exact .value listed (.read (by rw [scalar]; rfl) reads)
    · exact .value listed (.write storage stores)

variable {operand pointer : Expression} {progress : Progress}

/-- What is followed is a pointer. -/
theorem Expression.Typed.followed {pointed : Ty}
    (typed : (Expression.unary .dereference pointer pointed).Typed symbols) :
    pointer.Typed symbols ∧
      ∃ specifier indirection, pointer.type = .scalar specifier (indirection + 1) := by
  cases typed with
  | unary typed types =>
    refine ⟨typed, ?_⟩
    generalize pointer.type = kind at types
    cases types with
    | dereference specifier indirection => exact ⟨specifier, indirection, rfl⟩

/-- A pointer is read as a word. -/
theorem reads_pointer {pointed : Ty} (listed : (pointer, progress) ∈ values)
    (typed : (Expression.unary .dereference pointer pointed).Typed symbols) :
    Width.of pointer.type = .long ∧
      Reads values through pointer.type (pointer.lowered progress).value := by
  obtain ⟨typed, specifier, indirection, scalar⟩ := typed.followed
  refine ⟨?_, reads_value listed typed (by rw [scalar]; rfl)⟩
  rw [scalar]
  simp [Width.of, Ty.isReal, Ty.char]

/-- Storage is reached in place or by way of a pointer. -/
theorem reached_located (listed : (operand.target, progress) ∈ values)
    (typed : operand.Typed symbols) (storage : operand.isLvalue = true)
    (pointed : ∀ pointer type, operand = .unary .dereference pointer type → through = some .ecx) :
    Reached values through operand.type (operand.located progress).place := by
  rcases operand.target_cases with ⟨pointer, type, rfl⟩ | ⟨itself, direct⟩
  · obtain ⟨word, reads⟩ := @reads_pointer symbols values through pointer progress type listed typed
    exact .indirect word reads (pointed pointer type rfl)
  · rw [itself] at listed
    unfold Expression.located
    rw [Expression.lowerPlace_itself _ direct]
    exact .direct (stores_value listed typed storage)

/-- An address is that of storage or of an array, or it is the pointer that leads there. -/
theorem formed_loadAddress (listed : (operand.target, progress) ∈ values)
    (typed : operand.Typed symbols)
    (placed : operand.isLvalue = true ∨ operand.type.isArray = true) :
    (loadAddress (operand.located progress).place).Formed values through callee := by
  rcases operand.target_cases with ⟨pointer, type, rfl⟩ | ⟨itself, direct⟩
  · obtain ⟨word, reads⟩ := @reads_pointer symbols values through pointer progress type listed typed
    exact formed_word reads word .eax
  · rw [itself] at listed
    unfold Expression.located
    rw [Expression.lowerPlace_itself _ direct]
    show (if (operand.lowered progress).value.isImmediate then _ else _ : Item).Formed values
      through callee
    split
    · -- A whole number is no storage, but its move would be accepted just the same.
      next constant => exact formed_constant rfl constant rfl (by simp [Argument.memory?]) (by simp)
    · next memory =>
      exact formed_read (Bool.eq_false_iff.mpr memory) (.value listed (.address placed)) .eax

end Values

/-- The arguments of a call are passed with the values that have been begun for them. -/
theorem zip_begun (arguments : List Expression) (progress : Progress) :
    ((Expression.loweredAll arguments progress).map Lowered.value).zip
        (Expression.widths arguments) =
      (Expression.begun arguments progress).map fun value =>
        ((value.1.lowered value.2).value, Width.of value.1.type) := by
  induction arguments generalizing progress with
  | nil => rfl
  | cons first rest ih =>
    rw [Expression.loweredAll_cons]
    exact congrArg (_ :: ·) (ih (first.after progress))

namespace Site

/-- The register through which the code of a site reaches what a pointer leads to. -/
def through : Site → Option Register
  | .node (.unary .dereference _ _) _ => some .eax
  | .node (.step _ _ (.unary .dereference _ _) _) _ => some .ecx
  | .store (.unary .dereference _ _) _ _ => some .ecx
  | _ => none

/-- The function that the code of a site calls. -/
def callee? : Site → Option String
  | .node (.call callee _ _) progress => some (progress.symbols.nameOf callee)
  | _ => none

/-- What the typing rules say about a site and the values that are read there. -/
def Checked (symbols : SymbolTable) : Site → Prop
  | .node expression _ => expression.Typed symbols ∧ expression.isDecision = false
  | .test value .. => value.Typed symbols ∧ value.type.Testable
  | .give value .. => value.Typed symbols ∧ ∃ specifier indirection,
    value.type = .scalar specifier indirection
  | .settle _ type _ => type = .int
  | .store left right _ => left.Typed symbols ∧ left.isLvalue = true ∧ right.Typed symbols ∧
    right.type = left.type
  | .enter .. | .bind .. | .mark _ | .jump _ => True

end Site

section Checked

variable {symbols : SymbolTable}

theorem Expression.Owns.checked {node : Expression} {progress : Progress} {site : Site}
    (owns : node.Owns progress site) (typed : node.Typed symbols) : site.Checked symbols := by
  -- The operands of a decision are parts of the node, so they are typed with it.
  cases owns with
  | node strict => exact ⟨typed, strict⟩
  | enter => trivial
  | left same =>
    subst same
    exact ⟨typed.nodes _ (by simp [nodes, self_mem_nodes]), typed.decision.1⟩
  | right same =>
    subst same
    exact ⟨typed.nodes _ (by simp [nodes, self_mem_nodes]), typed.decision.2.1⟩
  | settle same => exact (same ▸ typed).decision.2.2

theorem Statement.Owns.checked {statement : Statement} {exits : Exits} {progress : Progress}
    {site : Site} {specifier : Specifier} {indirection : Nat} {looping : Bool}
    (owns : statement.Owns exits progress site)
    (typed : statement.Typed symbols (.scalar specifier indirection) looping) :
    site.Checked symbols := by
  -- What a site needs of its types is what the statement was checked for.
  cases owns with
  | store same =>
    subst same
    cases typed with
    | assign place storage value same => exact ⟨place, storage, value, same⟩
  | give same =>
    subst same
    cases typed with
    | returnValue typed same =>
      refine ⟨typed, ?_⟩
      rw [same]
      cases specifier <;> cases indirection <;> exact ⟨_, _, rfl⟩
  | test tests => exact ⟨typed.expressions _ (mem_of_test tests), typed.test tests⟩
  | bind | mark | jump => trivial

/-- All sites of a typed function follow the rules. -/
theorem Function.Typed.checked {function : Function} {specifier : Specifier} {indirection : Nat}
    {parameters : List Ty} {variadic : Bool}
    (typed : function.Typed symbols specifier indirection parameters variadic) (nextLabel : Nat) :
    ∀ site ∈ function.sites symbols nextLabel, site.Checked symbols := by
  intro site member
  rcases function.origin symbols nextLabel site member with
    ⟨node, inside, progress, -, -, own⟩ | ⟨statement, around, progress, stands, own⟩
  · exact own.checked (typed.nodes node inside)
  · obtain ⟨looping, inner⟩ := typed.inside stands.listed
    exact own.checked inner

variable {values : List (Expression × Progress)} {through : Option Register} {progress : Progress}

/-- The own code of a node works on the values of its parts and fills a place of its own. -/
theorem Expression.formed_own {expression : Expression} (typed : expression.Typed symbols)
    (strict : expression.isDecision = false) :
    Formed (begun expression.parts progress) (Site.node expression progress).through
      (Site.node expression progress).callee? (expression.own progress) := by
  -- The address of storage and that of a first element are taken alike.
  have address {operand : Expression} (type : Ty) (typed : operand.Typed symbols)
      (placed : operand.isLvalue = true ∨ operand.type.isArray = true) :
      Formed (begun [operand.target] progress) none none
        ((unary .address operand type).own progress) := by
    rw [own_address, formed_cons, formed_cons]
    exact ⟨formed_loadAddress (List.mem_singleton_self _) typed placed,
      formed_storeWord (free_slot _ _), formed_nil⟩
  cases typed with
  | integer | real | string | identifier => simp
  | @call callee arguments specifier indirection parameters variadic _ typed promoted _ =>
    rw [own_call, formed_append]
    refine ⟨formed_passArguments 0 ?_, ?_⟩
    · intro argument listed
      -- What is passed is the value of an argument as it has been computed.
      obtain ⟨value, begun, rfl⟩ := List.mem_map.mp (zip_begun arguments progress ▸ listed)
      obtain ⟨member, -⟩ := mem_of_begun begun
      exact ⟨_, rfl, reads_value begun (typed _ member)
        (Ty.isArray_of_promoted (promoted _ member))⟩
    · rw [formed_cons, formed_cons]
      exact ⟨formed_callee _, formed_storeReturned _ (free_slot _ _), formed_nil⟩
  | @unary op operand type typed types =>
    have reads (plain : operand.type.isArray = false) {through : Option Register} :
        Reads (begun [operand] progress) through operand.type (operand.lowered progress).value :=
      @reads_value symbols _ through (operand, progress) (List.mem_singleton_self _) typed plain
    cases op with
    | not =>
      cases types with
      | not testable =>
        rw [own_not, formed_append]
        exact ⟨formed_compareZero (reads testable.isArray), formed_storeCondition _ (free_slot _ _)⟩
    | negate =>
      cases types with
      | negate arithmetic =>
        rw [own_negate]
        exact formed_negation arithmetic (reads arithmetic.isArray) (free_slot _ _)
    | dereference =>
      -- The pointer goes to the first register, through which the value is copied.
      obtain ⟨word, held⟩ := @reads_pointer symbols (begun [operand] progress) (some .eax) operand
        progress type (List.mem_singleton_self _) (.unary typed types)
      rw [own_dereference, formed_cons]
      exact ⟨formed_word held word .eax, formed_copyPointed rfl type (free_slot _ _)⟩
    | address => cases types
    | cast =>
      cases types with
      | cast converts =>
        rw [own_cast]
        exact formed_convertValue converts (reads converts.isArray) (free_slot _ _) _
  | address typed storage => exact address _ typed (.inl storage)
  | decay typed array => exact address _ typed (.inr (by rw [array]; rfl))
  | @step op operand typed storage =>
    have reached := @reached_located symbols (begun [operand.target] progress)
      (Site.node (.step op operand.type.stride operand operand.type) progress).through operand
      progress (List.mem_singleton_self _) typed storage (by rintro pointer type rfl; rfl)
    obtain ⟨ready, named⟩ := formed_resolve reached
    rw [own_step, formed_append]
    exact ⟨ready, formed_stepTarget op _ named (free_slot _ _)⟩
  | @binary op left right type first second types =>
    obtain ⟨plain, unmarked⟩ := types.isArray
    rw [own_binary _ strict]
    refine formed_operateOn types ?_ ?_ (free_slot _ _)
    · exact @reads_value symbols _ _ (left, progress) (by simp [begun, parts]) first plain
    · exact @reads_value symbols _ _ (right, left.after progress) (by simp [begun, parts]) second
        unmarked

/-- The code of a checked site is of accepted forms, names in memory only its own places, what a
pointer leads to, and the values that it is about, and calls only the function that is called
there. -/
theorem Site.Checked.formed {site : Site} (checked : site.Checked symbols) :
    Formed site.consumed site.through site.callee? site.code := by
  cases site with
  | node expression progress => exact Expression.formed_own checked.1 checked.2
  | test value progress opcode target =>
    obtain ⟨typed, testable⟩ := checked
    have reads := @reads_value symbols [(value, progress)] none (value, progress)
      (List.mem_singleton_self _) typed testable.isArray
    rw [code, formed_append]
    exact ⟨formed_compareZero reads, by simp⟩
  | settle either type progress =>
    -- Both outcomes are constants that go to the frame.
    have stored (number : Nat) : (operate .movl [.operand (immediate number),
        .operand (progress.skip.skip.slot type)]).Formed (settle either type progress).consumed
          none none := by
      refine formed_constant rfl rfl rfl (fun operand found => ?_) (by simp)
      cases found
      exact .frame _
    exact formed_cons.mpr ⟨stored _, formed_cons.mpr ⟨formed_target _, formed_cons.mpr
      ⟨formed_mark _, formed_cons.mpr ⟨stored _, by simp⟩⟩⟩⟩
  | store left right progress =>
    obtain ⟨place, storage, value, same⟩ := checked
    obtain ⟨specifier, indirection, scalar⟩ := place.scalar_of_lvalue storage
    have reads := @reads_value symbols (Site.store left right progress).consumed
      (Site.store left right progress).through (right, progress) (List.mem_cons_self ..) value
      (by rw [same, scalar]; rfl)
    have reached := @reached_located symbols (Site.store left right progress).consumed
      (Site.store left right progress).through left (right.after progress)
      (List.mem_cons_of_mem _ (List.mem_singleton_self _)) place storage
      (by rintro pointer type rfl; rfl)
    rw [same] at reads
    rw [code, same]
    exact formed_storeValue reads reached
  | give value progress exit =>
    obtain ⟨typed, specifier, indirection, scalar⟩ := checked
    have reads := @reads_value symbols [(value, progress)] none (value, progress)
      (List.mem_singleton_self _) typed (by rw [scalar]; rfl)
    rw [code, formed_cons]
    exact ⟨formed_loadReturned reads, by simp⟩
  | mark label => exact formed_cons.mpr ⟨formed_mark label, formed_nil⟩
  | jump label => simp [code]
  | enter | bind => exact formed_nil

end Checked

end SmallC
