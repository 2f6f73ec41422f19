import Mathlib
import SmallC.Compile
import SmallC.Proofs.Lowering.Statements
import SmallC.Proofs.Typing.Nodes
import SmallC.Proofs.Typing.Units

/-! A source that compiles without a diagnostic hands only typed functions to the generator. -/

namespace SmallC

/-- A function as it is handed on, with what has been declared and written by then. -/
structure Handed where
  /-- The function. -/
  function : Function
  /-- The symbols declared up to its end. -/
  symbols : SymbolTable
  /-- The assembly written before it. -/
  generated : Generated

/-- Write each function as it is handed on, and remember what was handed on. -/
def recording (checkOnly : Bool) : Consumer (Generated × List Handed) :=
  fun function symbols output =>
    let written := generating checkOnly function symbols output.1
    (written.1, written.2, output.2 ++ [⟨function, symbols, output.1⟩])

/-- The functions of a source in the order in which they are handed on. -/
def handedOver (options : Options) (source : String) : List Handed :=
  match tokensOf source with
  | .error _ => []
  | .ok tokens => (readUnit (recording options.checkOnly) tokens options.limit ({}, [])).output.2

/-- Remembering functions does not change how the unit is read or written. -/
theorem readDeclarations_recording (checkOnly : Bool) (clock : List Token) (reader : Reader)
    (generated : Generated) (handed : List Handed) :
    let plain := readDeclarations (generating checkOnly) clock reader generated
    let recorded := readDeclarations (recording checkOnly) clock reader (generated, handed)
    recorded.reader = plain.reader ∧ recorded.output.1 = plain.output ∧
      recorded.failure? = plain.failure? := by
  -- Both readings take the same steps, token by token of the clock.
  induction clock generalizing reader generated handed with
  | nil =>
    simp only [readDeclarations]
    split <;> exact ⟨rfl, rfl, rfl⟩
  | cons token clock ih =>
    simp only [readDeclarations]
    split
    · exact ⟨rfl, rfl, rfl⟩
    · cases Reading.topLevel reader with
      | error failure stopped => exact ⟨rfl, rfl, rfl⟩
      | ok read next =>
        cases read with
        | none => exact ih next generated handed
        | some function => exact ih _ _ _

/-- What every declaration of a unit preserves holds at its end. -/
theorem readDeclarations_preserves {σ : Type} {consume : Consumer σ} {good : Checker → σ → Prop}
    (quietly : ∀ reader next output, good reader.checker output →
      Reading.topLevel reader = .ok none next → good next.checker output)
    (handing : ∀ reader next function output, good reader.checker output →
      Reading.topLevel reader = .ok (some function) next →
      let consumed := consume function next.checker.symbols output
      good { next.checker with symbols := consumed.1 } consumed.2)
    (clock : List Token) (reader : Reader) (output : σ) (start : good reader.checker output)
    (done : (readDeclarations consume clock reader output).failure? = none) :
    good (readDeclarations consume clock reader output).reader.checker
      (readDeclarations consume clock reader output).output := by
  -- The clock runs along the tokens; a failure would contradict that reading is done.
  induction clock generalizing reader output with
  | nil =>
    simp only [readDeclarations] at done ⊢
    split at done
    · rename_i ended
      rwa [if_pos ended]
    · contradiction
  | cons token clock ih =>
    simp only [readDeclarations] at done ⊢
    split at done
    · rename_i ended
      rwa [if_pos ended]
    · rename_i more
      rw [if_neg more]
      cases read : Reading.topLevel reader with
      | error failure stopped =>
        rw [read] at done
        contradiction
      | ok result next =>
        rw [read] at done
        cases result with
        | none => exact ih _ _ (quietly _ _ _ start read) done
        | some function => exact ih _ _ (handing _ _ _ _ start read) done

/-- Writing a function or not changes at most the places of symbols. -/
theorem generating_alike (checkOnly : Bool) (function : Function) (symbols : SymbolTable)
    (generated : Generated) :
    symbols.Alike (generating checkOnly function symbols generated).1 := by
  unfold generating
  split
  · exact .refl _
  · exact generateFunction_alike function symbols generated

/-- Every function that was handed on is typed, unless something has been reported since. -/
structure Checker.Vouches (checker : Checker) (handed : List Handed) : Prop where
  /-- The checker is sound. -/
  sound : checker.Sound
  /-- What was declared when a function was handed on still is. -/
  keeps : ∀ entry ∈ handed, entry.symbols.Keeps checker.symbols
  /-- Functions are typed under what was declared by then. -/
  typed : checker.reports = [] → ∀ entry ∈ handed, entry.function.Welltyped entry.symbols

/-- A checker that vouches for functions still does when it has advanced. -/
theorem Checker.Vouches.advance {old new : Checker} {handed : List Handed}
    (vouches : old.Vouches handed) (advances : Reading.Advances old new) : new.Vouches handed where
  sound := advances.2
  keeps entry member := (vouches.keeps entry member).trans advances.1.keeps
  typed silent := vouches.typed (advances.1.quiet silent)

/-- A unit that is read to its end vouches for all its functions. -/
theorem vouches_readUnit (checkOnly : Bool) (tokens : List Token) (limit : Nat)
    (done : (readUnit (recording checkOnly) tokens limit ({}, [])).failure? = none) :
    let outcome := readUnit (recording checkOnly) tokens limit ({}, [])
    outcome.reader.checker.Vouches outcome.output.2 := by
  -- Reading a declaration advances the checker, and what it hands on is appended.
  refine @readDeclarations_preserves _ (recording checkOnly)
    (fun checker output => checker.Vouches output.2) ?_ ?_ _ _ _ ?_ done
  · intro reader next output vouches read
    exact vouches.advance (Reading.topLevel_typed vouches.sound read).1
  · intro reader next function output vouches read
    obtain ⟨advances, typed⟩ := Reading.topLevel_typed vouches.sound read
    have advanced := vouches.advance advances
    have alike := generating_alike checkOnly function next.checker.symbols output.1
    refine ⟨advanced.sound.placed alike, ?_, ?_⟩
    · intro entry member
      rcases List.mem_append.mp member with before | here
      · exact (advanced.keeps entry before).trans alike.keeps
      · rw [List.mem_singleton.mp here]
        exact alike.keeps
    · intro silent entry member
      rcases List.mem_append.mp member with before | here
      · exact advanced.typed silent entry before
      · rw [List.mem_singleton.mp here]
        exact typed function rfl silent
  · -- Nothing is declared or handed on before the first token.
    have moved : Checker.Beside {} (Reader.before tokens limit {}).checker := ⟨_, rfl⟩
    exact ⟨moved.sound Checker.sound_start, by simp, by simp⟩

/-- What a compilation without a diagnostic has read and written. -/
theorem compile_outcome {options : Options} {file source : String} {compilation : Compilation}
    (compiled : compile options file source = .ok compilation) :
    ∃ tokens, tokensOf source = .ok tokens ∧
      let outcome := readUnit (recording options.checkOnly) tokens options.limit ({}, [])
      outcome.failure? = none ∧ handedOver options source = outcome.output.2 ∧
        compilation.diagnostics = outcome.reader.checker.reports.map (·.diagnostic file) := by
  -- Compiling reads the same tokens as handing over, with another consumer.
  unfold compile at compiled
  cases lexed : tokensOf source with
  | error failure =>
    rw [lexed] at compiled
    cases compiled
  | ok tokens =>
    obtain ⟨reader, -, failure⟩ := readDeclarations_recording options.checkOnly
      (Reader.before tokens options.limit {}).remaining (Reader.before tokens options.limit {}) {} []
    simp only [lexed, bind, Except.bind] at compiled
    split at compiled
    · cases compiled
    · rename_i ended
      cases compiled
      refine ⟨tokens, rfl, ?_, ?_, ?_⟩
      · exact failure.trans ended
      · unfold handedOver
        rw [lexed]
      · exact congrArg (fun reader : Reader => reader.checker.reports.map (·.diagnostic file))
          reader.symm

/-- A checker vouches for all functions of a source that compiles without a diagnostic. -/
theorem vouches_compile {options : Options} {file source : String} {compilation : Compilation}
    (compiled : compile options file source = .ok compilation)
    (silent : compilation.diagnostics = []) :
    ∃ checker : Checker, checker.Vouches (handedOver options source) ∧ checker.reports = [] := by
  obtain ⟨tokens, -, done, handed, diagnostics⟩ := compile_outcome compiled
  rw [handed]
  exact ⟨_, vouches_readUnit options.checkOnly tokens options.limit done,
    List.map_eq_nil_iff.mp (diagnostics.symm.trans silent)⟩

/-- Every function of a source that compiles without a diagnostic is typed as it is handed on, and
so is every node inside it. -/
theorem compile_typed {options : Options} {file source : String} {compilation : Compilation}
    (compiled : compile options file source = .ok compilation)
    (silent : compilation.diagnostics = []) :
    ∀ entry ∈ handedOver options source, entry.function.Welltyped entry.symbols ∧
      ∀ node ∈ entry.function.nodes, node.Typed entry.symbols ∧ node.type ≠ .error := by
  obtain ⟨checker, vouches, quiet⟩ := vouches_compile compiled silent
  intro entry member
  have welltyped := vouches.typed quiet entry member
  refine ⟨welltyped, ?_⟩
  intro node inside
  obtain ⟨_, _, _, _, typed⟩ := welltyped
  have here := typed.nodes node inside
  exact ⟨here, here.type_ne_error⟩

/-- A function that looks for the end of a text. -/
def endSource : String :=
  "int end(char *t) { while (*t) t = t + 1; return *t; }"

/-- The function compiles in silence, is handed on, and is typed. -/
theorem compile_typed_end :
    compile { checkOnly := true } "end.c" endSource = .ok ⟨"", []⟩ ∧
      (handedOver { checkOnly := true } endSource).length = 1 ∧
      ∀ entry ∈ handedOver { checkOnly := true } endSource,
        entry.function.Welltyped entry.symbols ∧
          ∀ node ∈ entry.function.nodes, node.Typed entry.symbols ∧ node.type ≠ .error := by
  have compiled : compile { checkOnly := true } "end.c" endSource = .ok ⟨"", []⟩ := by cbv
  exact ⟨compiled, by cbv, compile_typed compiled rfl⟩

end SmallC
