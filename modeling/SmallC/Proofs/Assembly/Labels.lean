import SmallC.Proofs.Execution.Functions
import SmallC.Proofs.Lowering.Constants
import SmallC.Proofs.Lowering.Jumps
import SmallC.Proofs.Scoping.Naming

/-! Local labels in the assembly of a source: each is defined once, and code uses its own. -/

namespace SmallC

/-- Labels are spelled apart. -/
theorem Label.text_injective {label other : Label} (same : label.text = other.text) :
    label = other := by
  obtain ⟨number⟩ := label
  obtain ⟨given⟩ := other
  have spelled : toString number = toString given := (String.append_right_inj _).mp same
  rw [Nat.toString_eq_ofList_toDigits, Nat.toString_eq_ofList_toDigits] at spelled
  have numbers := congrArg (Nat.ofDigitChars 10 · 0) (String.ofList_inj.mp spelled)
  simp only [Nat.ofDigitChars_ten_toDigits] at numbers
  exact congrArg Label.mk numbers

/-- How often a spelling of a label is defined among items. -/
def spelled (items : List Item) (spelling : String) : Nat :=
  items.countP fun item => item.label?.map Label.text = some spelling

/-- A label is defined as often as its spelling. -/
theorem spelled_text (items : List Item) (label : Label) :
    spelled items label.text = defined items label := by
  unfold spelled defined
  refine List.countP_congr fun item _ => ?_
  cases item.label? with
  | none => simp
  | some other =>
    simp only [Option.map_some, Option.some.injEq, decide_eq_true_eq]
    exact ⟨Label.text_injective, congrArg Label.text⟩

/-- Global storage defines no label. -/
theorem defined_globals {globals : List Item}
    (storage : ∀ item ∈ globals, ∃ name bytes, item = .common name bytes) (label : Label) :
    defined globals label = 0 := by
  refine List.countP_eq_zero.mpr fun item member => ?_
  obtain ⟨name, bytes, rfl⟩ := storage item member
  simp [Item.label?]

namespace Handed

variable (entry : Handed)

/-- The code of a function with what stands before and after its body. -/
def code : Code :=
  let name := entry.symbols.nameOf entry.function.symbol
  let last := entry.function.last entry.symbols entry.generated.nextLabel
  prologue name ++ entry.function.bodyCode entry.symbols entry.generated.nextLabel
    ++ epilogue name ⟨entry.generated.nextLabel⟩ last.frame

/-- The constants of a function, as they are written behind its code. -/
def constants : List Item :=
  literalItems (entry.function.last entry.symbols entry.generated.nextLabel).literals

/-- What is written for a function stands behind what has been written. -/
theorem items_generateFunction :
    (generateFunction entry.function entry.symbols entry.generated).2.items =
      entry.generated.items ++ (entry.code ++ entry.constants) := by
  rw [generateFunction_eq]
  rfl

/-- The local labels that a function uses are its own. -/
structure Labelled : Prop where
  /-- The code marks every label it jumps to. -/
  jumps : Closed entry.code
  /-- Every constant that the code reads is that of a literal in the body, and is written under its
  label right behind the code. -/
  reads : ∀ item ∈ entry.code, ∀ label ∈ item.constants, ∃ node progress value,
    .node node progress ∈ entry.sites ∧ node.literal? = some value ∧
      (node.lowered progress).value = .label label ∧ .literal label value ∈ entry.constants

end Handed

theorem jumpsWithin_prologue (known : Label → Prop) (name : String) :
    JumpsWithin known (prologue name) := by
  simp [prologue, JumpsWithin, operate, Item.targets, Opcode.jumps]

theorem jumpsWithin_epilogue (known : Label → Prop) (name : String) (exit : Label)
    (frame : Frame) : JumpsWithin known (epilogue name exit frame) := by
  simp [epilogue, JumpsWithin, operate, Item.targets, Opcode.jumps]

theorem readsWithin_prologue (known : Label → Prop) (name : String) :
    ReadsWithin known (prologue name) := by
  simp [prologue, ReadsWithin, operate, Item.constants, Argument.constant?]

theorem readsWithin_epilogue (known : Label → Prop) (name : String) (exit : Label)
    (frame : Frame) : ReadsWithin known (epilogue name exit frame) := by
  simp [epilogue, ReadsWithin, operate, Item.constants, Argument.constant?]

/-- Constants that are kept are written. -/
theorem literal_mem_literalItems {literals : List (Label × Literal)} {label : Label}
    {value : Literal} (kept : (label, value) ∈ literals) :
    .literal label value ∈ literalItems literals := by
  unfold literalItems
  have some : literals.isEmpty = false := by cases literals <;> simp at kept ⊢
  simp [some, kept]

/-- A literal node is read where its constant stands. -/
theorem Expression.value_literal {node : Expression} {value : Literal}
    (literal : node.literal? = some value) (progress : Progress) :
    (node.lowered progress).value = .label progress.label := by
  unfold Expression.lowered
  cases node with
  | real spelling => rw [lower_real]
  | string text => rw [lower_string]
  | _ => cases literal

/-- Every function uses only its own local labels. -/
theorem Handed.labelled (entry : Handed) : entry.Labelled where
  jumps := by
    have body := entry.function.closed_bodyCode entry.symbols entry.generated.nextLabel
    refine jumpsWithin_append.mpr ⟨jumpsWithin_append.mpr ⟨jumpsWithin_prologue _ _, ?_⟩,
      jumpsWithin_epilogue _ _ _ _⟩
    refine body.mono fun label placed => ?_
    rcases placed with inside | rfl
    · simp [Handed.code, inside]
    · simp [Handed.code, epilogue]
  reads := by
    have body := entry.function.readsWithin_bodyCode entry.symbols entry.generated.nextLabel
    have reads : ReadsWithin (KeptAt entry.sites) entry.code :=
      readsWithin_append.mpr ⟨readsWithin_append.mpr ⟨readsWithin_prologue _ _, body⟩,
        readsWithin_epilogue _ _ _ _⟩
    intro item member label listed
    obtain ⟨value, kept⟩ := reads item member label listed
    have written : .literal label value ∈ entry.constants := by
      refine literal_mem_literalItems ?_
      rwa [Function.literals_last]
    -- The site that keeps the constant is that of a literal node.
    obtain ⟨site, inside, keeps⟩ := List.mem_filterMap.mp kept
    cases site with
    | node node progress =>
      obtain ⟨constant, literal, same⟩ := Option.map_eq_some_iff.mp keeps
      obtain ⟨rfl, rfl⟩ := Prod.mk.inj same
      exact ⟨node, progress, _, inside, literal, Expression.value_literal literal progress, written⟩
    | _ => cases keeps

/-- The assembly of a source as the generator leaves it, without global storage. -/
def generatedFrom (options : Options) (source : String) : Generated :=
  match tokensOf source with
  | .error _ => {}
  | .ok tokens => (readUnit (generating options.checkOnly) tokens options.limit {}).output

/-- The functions of a source that are written. -/
def writtenFrom (options : Options) (source : String) : List Handed :=
  if options.checkOnly then [] else handedOver options source

/-- What reading writes is what the functions handed on are written to, one behind the other. -/
theorem readUnit_written (checkOnly : Bool) (tokens : List Token) (limit : Nat)
    (done : (readUnit (recording checkOnly) tokens limit ({}, [])).failure? = none) :
    let output := (readUnit (recording checkOnly) tokens limit ({}, [])).output
    output.1.Written ∧
      output.1.items = (if checkOnly then [] else output.2).flatMap
        (fun entry => entry.code ++ entry.constants) := by
  refine @readDeclarations_preserves _ (recording checkOnly) (fun _ output => output.1.Written ∧
    output.1.items = (if checkOnly then [] else output.2).flatMap
      (fun entry => entry.code ++ entry.constants)) ?_ ?_ _ _ _ ?_ done
  · exact fun _ _ _ good _ => good
  · intro reader next function output ⟨written, items⟩ read
    -- Without an assembly nothing is generated, and the record is left aside as well.
    cases checkOnly with
    | true => exact ⟨written, items⟩
    | false =>
      have here := Handed.items_generateFunction ⟨function, next.checker.symbols, output.1⟩
      refine ⟨.function function _ written, here.trans ?_⟩
      simp only [recording, Bool.false_eq_true, if_false, List.flatMap_append] at items ⊢
      rw [items, List.flatMap_singleton]
  · exact ⟨.none, by simp⟩

/-- The assembly of a source is that of its functions in order, and of its global storage. -/
theorem compile_assembly {options : Options} {file source : String} {compilation : Compilation}
    (compiled : compile options file source = .ok compilation) :
    (generatedFrom options source).Written ∧
      (generatedFrom options source).items = (writtenFrom options source).flatMap
        (fun entry => entry.code ++ entry.constants) ∧
      ∃ globals : List Item, (∀ item ∈ globals, ∃ name bytes, item = .common name bytes) ∧
        compilation.assembly =
          assemblyText options.globalPrefix ((generatedFrom options source).items ++ globals) := by
  -- A recording run of the reader and a generating one hand over the same functions.
  obtain ⟨tokens, lexed, done, handed, -⟩ := compile_outcome compiled
  obtain ⟨-, output, -⟩ := readDeclarations_recording options.checkOnly
    (Reader.before tokens options.limit {}).remaining (Reader.before tokens options.limit {}) {} []
  obtain ⟨written, items⟩ := readUnit_written options.checkOnly tokens options.limit done
  have generated : generatedFrom options source =
      (readUnit (recording options.checkOnly) tokens options.limit ({}, [])).output.1 := by
    unfold generatedFrom
    rw [lexed]
    exact output.symm
  rw [generated, writtenFrom, handed]
  refine ⟨written, items, ?_⟩
  rw [← generated]
  unfold compile at compiled
  simp only [lexed, bind, Except.bind] at compiled
  split at compiled
  · cases compiled
  · cases compiled
    have plain : (readUnit (generating options.checkOnly) tokens options.limit {}).output =
        generatedFrom options source := by
      unfold generatedFrom
      rw [lexed]
    rw [plain]
    split
    · exact ⟨[], by simp, by simp⟩
    · refine ⟨_, ?_, rfl⟩
      intro item member
      obtain ⟨symbol, -, stored⟩ := List.mem_filterMap.mp member
      unfold globalItem? at stored
      split at stored
      · cases stored
      · cases stored
        exact ⟨_, _, rfl⟩

/-- In the assembly of whatever source compiles, with diagnostics or without, every label that is
handed out is defined once and no other label at all, and functions use only their own labels: they
jump inside their code, and they read the constants that are written right behind them. -/
theorem compile_labelled {options : Options} {file source : String} {compilation : Compilation}
    (compiled : compile options file source = .ok compilation) :
    ∃ globals : List Item, (∀ item ∈ globals, ∃ name bytes, item = .common name bytes) ∧
      let items := (writtenFrom options source).flatMap
        (fun entry => entry.code ++ entry.constants) ++ globals
      compilation.assembly = assemblyText options.globalPrefix items ∧
        (∀ label : Label, spelled items label.text =
          if label.number < (generatedFrom options source).nextLabel then 1 else 0) ∧
        ∀ entry ∈ writtenFrom options source, entry.Labelled := by
  obtain ⟨written, items, globals, storage, assembly⟩ := compile_assembly compiled
  rw [items] at assembly
  refine ⟨globals, storage, assembly, ?_, fun entry _ => entry.labelled⟩
  intro label
  rw [spelled_text, defined_append, defined_globals storage, ← items]
  exact written.labelled label

/-- A function that calls itself with a text as long as a name is set that nothing declares, and a
function that returns a number. -/
def greetSource : String :=
  "int f(char *t) \x7b while (u) f(\"hi\"); \x7d double g(void) \x7b return 0.5; \x7d"

set_option maxRecDepth 4000 in
/-- The unknown name is reported, and the six labels of both functions are defined all the same. -/
theorem compile_labelled_greet :
    ∃ compilation, compile {} "greet.c" greetSource = .ok compilation ∧
      compilation.diagnostics.length = 1 ∧ (writtenFrom {} greetSource).length = 2 ∧
      (generatedFrom {} greetSource).nextLabel = 6 ∧
      ∃ globals : List Item, (∀ item ∈ globals, ∃ name bytes, item = .common name bytes) ∧
        let items := (writtenFrom {} greetSource).flatMap
          (fun entry => entry.code ++ entry.constants) ++ globals
        compilation.assembly = assemblyText "" items ∧
          (∀ label : Label, spelled items label.text =
            if label.number < (generatedFrom {} greetSource).nextLabel then 1 else 0) ∧
          ∀ entry ∈ writtenFrom {} greetSource, entry.Labelled := by
  have lexed : tokensOf greetSource = .ok ((tokensOf greetSource).toOption.getD []) := by cbv
  have read : (readUnit (generating false) ((tokensOf greetSource).toOption.getD []) defaultLimit
      {}).failure? = none := by cbv
  have reported : (readUnit (generating false) ((tokensOf greetSource).toOption.getD [])
      defaultLimit {}).reader.checker.reports.length = 1 := by cbv
  obtain ⟨compilation, compiled, count⟩ := @compile_of_read {} _ _ lexed "greet.c" read
  exact ⟨compilation, compiled, count.trans reported, by cbv, by cbv, compile_labelled compiled⟩

end SmallC
