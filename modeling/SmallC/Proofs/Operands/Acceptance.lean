import SmallC.Proofs.Assembly.Labels
import SmallC.Proofs.Frames.Framing
import SmallC.Proofs.Operands.Pointers

/-! Acceptance: the assembler takes every instruction that is written for a source without a
diagnostic. -/

namespace SmallC

/-- The operations that have a constant of the kind for an operand: floating-point numbers are
loaded, worked with and compared, and texts are there for their addresses. -/
def Literal.operations : Literal → List Opcode
  | .real _ => [.fldl, .faddl, .fsubl, .fmull, .fdivl, .fcompl]
  | .string _ => [.leal]

/-- The value of a constant is used by its own operations only. -/
theorem Literal.operations_of_suits {value : Expression} {literal : Literal} {opcode : Opcode}
    (same : value.literal? = some literal) (suits : value.Suits opcode) :
    opcode ∈ literal.operations := by
  -- Only numbers with a fraction and texts are constants in storage.
  cases value with
  | real spelling =>
    cases same
    cases suits with
    | read _ reads =>
      have width : Width.of (Expression.real spelling).type = .double := rfl
      cases opcode <;> simp_all [Opcode.reads, operations, Expression.type, Ty.double, Ty.int]
    | write storage => cases storage
    | address placed => simp [Expression.isLvalue, Expression.type, Ty.double, Ty.isArray] at placed
  | string text =>
    cases same
    cases suits with
    | read plain => cases plain
    | write storage => cases storage
    | address => exact List.mem_singleton_self _
  | _ => cases same

/-- A label that is defined at most once stands for one constant. -/
theorem literal_unique {items : List Item} {label : Label} {value other : Literal}
    (once : defined items label ≤ 1) (first : .literal label value ∈ items)
    (second : .literal label other ∈ items) : value = other := by
  let marked (item : Item) : Bool := item.label? = some label
  have first : Item.literal label value ∈ items.filter marked :=
    List.mem_filter.mpr ⟨first, by simp [marked, Item.label?]⟩
  have second : Item.literal label other ∈ items.filter marked :=
    List.mem_filter.mpr ⟨second, by simp [marked, Item.label?]⟩
  have short : (items.filter marked).length ≤ 1 := by
    rw [← List.countP_eq_length_filter]
    exact once
  -- Both are among the items that define the label, of which there is one at most.
  rcases found : items.filter marked with _ | ⟨single, _ | ⟨next, rest⟩⟩
  · rw [found] at first
    cases first
  · rw [found, List.mem_singleton] at first second
    exact (Item.literal.inj (first.trans second.symm)).2
  · rw [found] at short
    simp at short

namespace Handed

/-- The instructions of a function name only what the assembler takes. -/
structure Accepted (entry : Handed) : Prop where
  /-- A function is written as what comes before its body, the code of its sites, and what comes
  behind it. -/
  written : entry.code = prologue entry.name ++ codeAt entry.sites ++
    epilogue entry.name entry.exit entry.last.frame
  /-- Its constants are no instructions. -/
  plain : ∀ instruction, .code instruction ∉ entry.constants
  /-- No instruction has two operands in memory. -/
  single : ∀ instruction, .code instruction ∈ entry.code → instruction.memory.length ≤ 1
  /-- A number in an instruction is only a source, and only of moves, comparisons and arithmetic on
  whole numbers, never of a byte move. -/
  constants : ∀ instruction, .code instruction ∈ entry.code → ∀ index argument,
    instruction.arguments[index]? = some argument → argument.isConstant = true →
      instruction.opcode ∈ [.movl, .cmpl, .addb, .addl, .subb, .subl, .imull] ∧
        index + 1 < instruction.arguments.length
  /-- Before and behind the body nothing in memory is named. -/
  around : ∀ instruction, .code instruction ∈ prologue entry.name ++
    epilogue entry.name entry.exit entry.last.frame → instruction.memory = []
  /-- What a register points to is reached only behind the load of a pointer in the same code, with
  nothing between that changes the register. -/
  pointers : ∀ site ∈ entry.sites, site.Guarded
  /-- A label that an instruction names in memory is that of a constant of the function. -/
  kept : ∀ instruction, .code instruction ∈ entry.code → ∀ label,
    .label label ∈ instruction.memory → ∃ value, .literal label value ∈ entry.constants
  /-- The constant is used by its own operations only. -/
  literals : ∀ instruction, .code instruction ∈ entry.code → ∀ label value,
    .label label ∈ instruction.memory → .literal label value ∈ entry.constants →
      instruction.opcode ∈ value.operations

variable {entry : Handed}

theorem code_sites : entry.code = prologue entry.name ++ codeAt entry.sites ++
    epilogue entry.name entry.exit entry.last.frame := by
  rw [sites, Function.codeAt_sites]
  rfl

/-- The instructions around the body of a function have accepted forms, too. -/
theorem formed_around {instruction : Instruction} (member : .code instruction ∈
    prologue entry.name ++ epilogue entry.name entry.exit entry.last.frame) :
    instruction.Formed [] none none := by
  have sized : (operate .subl [.frameSize entry.name, .register .esp]).Formed [] none none :=
    formed_constant rfl rfl rfl (by simp [Argument.memory?]) (by simp)
  simp only [prologue, epilogue, operate, List.cons_append, List.nil_append, List.mem_cons,
    Item.code.injEq, reduceCtorEq, List.not_mem_nil, or_false, false_or] at member
  rcases member with rfl | rfl | rfl | rfl | rfl | rfl
  case inr.inr.inl => exact sized
  all_goals first | exact formed_registers _ _ | exact formed_register _ | exact formed_bare

/-- It works on registers only. -/
theorem memory_around {instruction : Instruction} (member : .code instruction ∈
    prologue entry.name ++ epilogue entry.name entry.exit entry.last.frame) :
    instruction.memory = [] := by
  simp only [prologue, epilogue, operate, List.cons_append, List.nil_append, List.mem_cons,
    Item.code.injEq, reduceCtorEq, List.not_mem_nil, or_false, false_or] at member
  rcases member with rfl | rfl | rfl | rfl | rfl | rfl <;> rfl

/-- Every instruction is around the body or at a site, and has an accepted form there. -/
theorem formed_code {symbols : SymbolTable} (checked : ∀ site ∈ entry.sites, site.Checked symbols)
    {instruction : Instruction} (member : .code instruction ∈ entry.code) :
    instruction.Formed [] none none ∨
      ∃ site ∈ entry.sites, .code instruction ∈ site.code ∧
        instruction.Formed site.consumed site.through site.callee? := by
  rw [code_sites, List.mem_append, List.mem_append] at member
  rcases member with (before | inside) | behind
  · exact .inl (formed_around (List.mem_append_left _ before))
  · obtain ⟨site, listed, here⟩ := List.mem_flatMap.mp inside
    exact .inr ⟨site, listed, here, (checked site listed).formed (.code instruction) here⟩
  · exact .inl (formed_around (List.mem_append_right _ behind))

end Handed

/-- A label in memory is that of a constant whose value is used. -/
theorem Uses.label {values : List (Expression × Progress)} {through : Option Register}
    {opcode : Opcode} {label : Label} (uses : Uses values through opcode (.label label)) :
    ∃ value ∈ values, ∃ literal, value.1.literal? = some literal ∧ label = value.2.label ∧
      value.1.Suits opcode := by
  generalize same : Operand.label label = operand at uses
  cases uses with
  | frame | outgoing | indirect => cases same
  | @value value listed suits =>
    obtain ⟨rfl, literal⟩ := Expression.constant_value (by rw [← same]; rfl)
    obtain ⟨literal, found⟩ := Option.isSome_iff_exists.mp literal
    exact ⟨value, listed, literal, found, rfl, suits⟩

namespace Handed

variable {entry : Handed}

/-- A constant that a site reads is written behind the function. -/
theorem literal_mem_constants {site : Site} (member : site ∈ entry.sites)
    {value : Expression × Progress} (listed : value ∈ site.consumed) {literal : Literal}
    (found : value.1.literal? = some literal) :
    .literal value.2.label literal ∈ entry.constants := by
  obtain ⟨-, stretch⟩ := Function.consumed_sites member value listed
  -- A literal has a single site, so the site that reads it is in the function.
  have here : .node value.1 value.2 ∈ entry.sites := by
    refine stretch.subset ?_
    obtain ⟨node, progress⟩ := value
    cases node <;> cases found <;> exact List.mem_singleton_self _
  refine literal_mem_literalItems ?_
  rw [Function.literals_last]
  exact List.mem_filterMap.mpr ⟨_, here, by simp [Site.constant?, found]⟩

/-- A function whose sites follow the rules and whose labels are defined once is accepted. -/
theorem accepted_of_checked {symbols : SymbolTable}
    (checked : ∀ site ∈ entry.sites, site.Checked symbols)
    (once : ∀ label, defined entry.constants label ≤ 1) : entry.Accepted := by
  -- The constant that a label stands for is the literal that the site reads.
  have labelled {instruction : Instruction} (member : .code instruction ∈ entry.code)
      {label : Label} (named : .label label ∈ instruction.memory) : ∃ literal : Literal,
        .literal label literal ∈ entry.constants ∧ instruction.opcode ∈ literal.operations := by
    rcases formed_code checked member with formed | ⟨site, listed, -, formed⟩
    · obtain ⟨value, nothing, -⟩ := (formed.uses _ named).label
      cases nothing
    · obtain ⟨value, read, literal, found, rfl, suits⟩ := (formed.uses _ named).label
      exact ⟨literal, literal_mem_constants listed read found,
        Literal.operations_of_suits found suits⟩
  exact {
    written := code_sites
    plain := by
      intro instruction member
      rcases mem_literalItems member with same | same | ⟨label, value, same⟩ <;> cases same
    single := by
      intro instruction member
      rcases formed_code checked member with formed | ⟨site, listed, -, formed⟩ <;>
        exact formed.single
    constants := by
      intro instruction member index argument here constant
      have both : instruction.opcode.takesConstant = true ∧
          index + 1 < instruction.arguments.length := by
        rcases formed_code checked member with formed | ⟨site, listed, -, formed⟩ <;>
          exact formed.constants index argument here constant
      refine ⟨?_, both.2⟩
      generalize instruction.opcode = opcode at both
      cases opcode <;> first | exact absurd both.1 Bool.false_ne_true | simp
    around := fun instruction member => memory_around member
    pointers := fun site listed => (checked site listed).guarded
    kept := by
      intro instruction member label named
      obtain ⟨literal, written, -⟩ := labelled member named
      exact ⟨literal, written⟩
    literals := by
      intro instruction member label value named written
      obtain ⟨literal, here, serves⟩ := labelled member named
      rwa [literal_unique (once label) written here] }

end Handed

/-- Without a diagnostic, the assembler takes the operands of every instruction that is written. -/
theorem compile_operands {options : Options} {file source : String} {compilation : Compilation}
    (compiled : compile options file source = .ok compilation)
    (silent : compilation.diagnostics = []) :
    ∃ globals : List Item, (∀ item ∈ globals, ∃ name bytes, item = .common name bytes) ∧
      compilation.assembly = assemblyText options.globalPrefix
        ((writtenFrom options source).flatMap (fun entry => entry.code ++ entry.constants) ++
          globals) ∧
      ∀ entry ∈ writtenFrom options source, entry.Accepted := by
  obtain ⟨written, items, globals, storage, assembly⟩ := compile_assembly compiled
  rw [items] at assembly
  obtain ⟨checker, vouches, quiet⟩ := vouches_compile compiled silent
  refine ⟨globals, storage, assembly, fun entry member => ?_⟩
  have handed : entry ∈ handedOver options source := by
    unfold writtenFrom at member
    split at member
    · cases member
    · exact member
  obtain ⟨specifier, indirection, parameters, variadic, typed⟩ := vouches.typed quiet entry handed
  refine Handed.accepted_of_checked (typed.checked _) fun label => ?_
  -- The constants of a function are part of the assembly, where every label is defined once.
  have part : entry.constants.Sublist ((writtenFrom options source).flatMap
      (fun entry => entry.code ++ entry.constants) ++ globals) := by
    have here :=
      List.mem_map_of_mem (f := fun entry : Handed => entry.code ++ entry.constants) member
    rw [List.flatMap_def]
    exact (List.sublist_append_right _ _).trans
      ((List.sublist_flatten_of_mem here).trans (List.sublist_append_left _ _))
  refine Nat.le_trans part.countP_le ?_
  have once : defined ((writtenFrom options source).flatMap
      (fun entry => entry.code ++ entry.constants) ++ globals) label =
      defined (generatedFrom options source).items label := by
    rw [defined_append, defined_globals storage, ← items, Nat.add_zero]
  refine Nat.le_trans (Nat.le_of_eq (once.trans (written.labelled label))) ?_
  split <;> simp

/-- A function that stores by way of a pointer, with a floating-point constant and a text. -/
def fillSource : String :=
  "double d; int f(int *p, char *s) \x7b *p = *p + 1; d = d / 0.5; return f(p, \"hi\"); \x7d"

set_option maxRecDepth 4000 in
/-- It compiles in silence, and the assembler takes its instructions. -/
theorem compile_operands_fill :
    ∃ compilation, compile {} "fill.c" fillSource = .ok compilation ∧
      compilation.diagnostics = [] ∧ (writtenFrom {} fillSource).length = 1 ∧
      ∃ globals : List Item, (∀ item ∈ globals, ∃ name bytes, item = .common name bytes) ∧
        compilation.assembly = assemblyText ""
          ((writtenFrom {} fillSource).flatMap (fun entry => entry.code ++ entry.constants) ++
            globals) ∧
        ∀ entry ∈ writtenFrom {} fillSource, entry.Accepted := by
  have reads : readsSilently {} fillSource = true := by cbv
  obtain ⟨compilation, compiled, silent⟩ := compile_silent reads "fill.c"
  exact ⟨compilation, compiled, silent, by cbv, compile_operands compiled silent⟩

end SmallC
