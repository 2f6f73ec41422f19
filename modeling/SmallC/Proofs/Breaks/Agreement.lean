import SmallC.Proofs.Breaks.Crossing
import SmallC.Proofs.Derivations.Recognition
import SmallC.Proofs.Report.Messages
import SmallC.Proofs.Scoping.Naming

/-! The checker and the generator agree about what leaves a loop: exactly where nothing is reported, a
loop is left, and it is the innermost one around the statement. -/

namespace SmallC

/-! What the generator does. -/

/-- Whether the generator has no loop to leave at a visit. -/
def Enclosed.isStray (found : Enclosed) : Bool :=
  found.visit.exits.loop?.isNone

/-- The statements that are lowered for a function, in order. -/
def Function.visits (function : Function) (symbols : SymbolTable) (nextLabel : Nat) : List Enclosed :=
  (Visit.sequence { function := ⟨nextLabel⟩ } function.body (function.entry symbols nextLabel)).flatMap
    (Visit.visits [])

namespace Handed

/-- The statements that are lowered for a function that is handed on. -/
def visits (entry : Handed) : List Enclosed :=
  entry.function.visits entry.symbols entry.generated.nextLabel

/-- Those of them that leave a loop. -/
def breaks (entry : Handed) : List Enclosed :=
  breaksOf entry.visits

/-- A statement that leaves a loop leaves the innermost one around it. -/
structure Leaves (entry : Handed) (found : Enclosed) : Prop where
  /-- Its code is part of what is written for the function. -/
  written : found.visit.code <:+: (generateFunction entry.function entry.symbols entry.generated).2.items
  /-- The exit in force is that of the innermost loop, if there is one. -/
  exit : found.visit.exits.loop? = found.loops.head?.map Visit.exit
  /-- Outside of loops there is no code for it. -/
  nothing : found.loops = [] → found.visit.code = []
  /-- Inside, it is a jump to the label that the innermost loop ends with. -/
  jump : ∀ loop outer, found.loops = loop :: outer → loop.Encloses found.visit ∧
    ⟨loop, outer⟩ ∈ entry.visits ∧ found.visit.code = [operate .jmp [.target loop.exit]] ∧
    ∃ front, loop.code = front ++ [operate .jmp [.target loop.progress.label], .mark loop.exit]

theorem depths_breaks (entry : Handed) :
    entry.breaks.map (·.loops.length) = Statement.depthsAll entry.function.body 0 :=
  Visit.depths_sequence (fun statement _ => Visit.counts statement) [] _ _

/-- Whatever leaves a loop in a function leaves the innermost one. -/
theorem leaves (entry : Handed) : ∀ found ∈ entry.breaks, entry.Leaves found := by
  intro found member
  obtain ⟨visited, isBreak⟩ := List.mem_filter.mp member
  obtain ⟨root, listed, inside⟩ := List.mem_flatMap.mp visited
  have exit := Visit.exits_visits (by rw [(Visit.sequence_mem listed).2]; rfl) found inside
  have code := Visit.code_break isBreak
  rw [exit] at code
  refine ⟨?_, exit, fun none => ?_, fun loop outer around => ?_⟩
  · have body := (Visit.code_visits found inside).trans (Visit.code_sequence listed)
    -- The body stands between prologue and epilogue.
    rw [generateFunction_eq]
    exact body.trans ((List.infix_append _ _ _).trans
      ((List.prefix_append _ _).isInfix.trans (List.suffix_append _ _).isInfix))
  · rw [code, none]
    rfl
  · obtain ⟨encloses, outside⟩ := Visit.encloses_visits found inside loop outer around
    have ⟨turn, isBody, _⟩ := encloses
    refine ⟨encloses, List.mem_flatMap.mpr ⟨root, listed, outside⟩, ?_, Visit.code_loop isBody⟩
    rw [code, around]
    rfl

end Handed

/-! What the checker reports. -/

/-- Whatever unit is read to its end, its words that leave a loop are those of the functions that were
handed on, and the ones without a loop around them have been reported. -/
theorem crosses_readDeclarations (checkOnly : Bool) (clock : List Token) (reader : Reader)
    (generated : Generated) (handed : List Handed)
    (done : (readDeclarations (recording checkOnly) clock reader (generated, handed)).failure? = none) :
    let outcome := readDeclarations (recording checkOnly) clock reader (generated, handed)
    outcome.reader.current.kind = .done ∧ ∃ more, outcome.output.2 = handed ++ more ∧
      reader.Crosses (more.flatMap fun entry => Statement.depthsAll entry.function.body 0)
        outcome.reader := by
  -- The clock runs along the tokens; what is read of each declaration comes before the rest.
  induction clock generalizing reader generated handed with
  | nil =>
    simp only [readDeclarations] at done ⊢
    split at done
    · next ended =>
      rw [if_pos ended]
      exact ⟨ended, [], (List.append_nil _).symm, Reader.crosses_of_eq rfl rfl⟩
    · contradiction
  | cons token clock ih =>
    simp only [readDeclarations] at done ⊢
    split at done
    · next ended =>
      rw [if_pos ended]
      exact ⟨ended, [], (List.append_nil _).symm, Reader.crosses_of_eq rfl rfl⟩
    · next further =>
      rw [if_neg further]
      cases read : Reading.topLevel reader with
      | error failure stopped =>
        rw [read] at done
        contradiction
      | ok global next =>
        rw [read] at done
        have first := Reading.crosses_topLevel read
        cases global with
        | none =>
          obtain ⟨ended, more, written, rest⟩ := ih next generated handed done
          exact ⟨ended, more, written, first.trans rest⟩
        | some function =>
          obtain ⟨ended, more, written, rest⟩ := ih _ _ _ done
          refine ⟨ended, ⟨function, next.checker.symbols, generated⟩ :: more, ?_, first.trans rest⟩
          exact written.trans (List.append_assoc _ _ _)


/-- The diagnostics that there is no loop to leave. -/
def Compilation.strayBreaks (compilation : Compilation) : List Diagnostic :=
  compilation.diagnostics.filter (·.message = Problem.breakOutsideLoop.message)

/-- They are at the places of the reports. -/
theorem strayBreaks_places {compilation : Compilation} {file : String} {reports : List Report}
    (same : compilation.diagnostics = reports.map (·.diagnostic file)) :
    compilation.strayBreaks.map (·.location?) =
      (strayPlaces reports).map fun place => some ⟨file, place.line, place.column⟩ := by
  have told (report : Report) : decide ((report.diagnostic file).message =
      Problem.breakOutsideLoop.message) = decide (report.problem = .breakOutsideLoop) :=
    decide_eq_decide.mpr Problem.message_eq_breakOutsideLoop
  unfold Compilation.strayBreaks strayPlaces
  rw [same, List.filter_map, List.map_map, List.map_map]
  simp only [Function.comp_def, told]
  rfl

/-- Places without a loop around them are those of the visits without an exit. -/
theorem outside_eq {places : List Position} {breaks : List Enclosed}
    (exits : ∀ found ∈ breaks, found.visit.exits.loop? = found.loops.head?.map Visit.exit) :
    outside places (breaks.map (·.loops.length)) =
      ((places.zip breaks).filter (·.2.isStray)).map (·.1) := by
  unfold outside
  rw [List.zip_map_right, List.filter_map, List.map_map]
  congr 1
  refine List.filter_congr fun ⟨place, visit, loops⟩ member => ?_
  have exit : visit.exits.loop? = loops.head?.map Visit.exit :=
    exits ⟨visit, loops⟩ (List.of_mem_zip member).2
  cases loops <;> simp [Enclosed.isStray, exit]

/-- As many places are left as visits. -/
theorem length_stray {places : List Position} {breaks : List Enclosed}
    (count : places.length = breaks.length) :
    ((places.zip breaks).filter (·.2.isStray)).length = (breaks.filter (·.isStray)).length := by
  have visits : ((places.zip breaks).map Prod.snd).filter (·.isStray) = breaks.filter (·.isStray) := by
    rw [List.map_snd_zip (Nat.le_of_eq count.symm)]
  rw [← visits, List.filter_map, List.length_map]
  rfl

/-- Before anything is read, all tokens are in sight. -/
theorem sight_before {tokens : List Token} (ended : Ended tokens) (limit : Nat) :
    (Reader.before tokens limit {}).sight = tokens := by
  have start := stage_before ended limit
  have remaining : (Reader.before tokens limit {}).remaining = tokens := congrArg Stage.tokens start
  have outlook := @Reader.outlook_eq (Reader.before tokens limit {}) (by rwa [remaining])
  exact congrArg Stage.tokens (outlook.trans start)

/-- Whatever source compiles, its words that leave a loop are lowered in order. There is a diagnostic
behind exactly those for which the generator has no exit, and they have no code; each other one is a
jump to the label behind the innermost loop whose body encloses it. -/
theorem compile_breaks {options : Options} {file source : String} {compilation : Compilation}
    (compiled : compile options file source = .ok compilation) :
    ∃ tokens, tokensOf source = .ok tokens ∧
      let places := behindBreaks tokens
      let breaks := (handedOver options source).flatMap Handed.breaks
      places.length = breaks.length ∧
      compilation.strayBreaks.length = (breaks.filter (·.isStray)).length ∧
      compilation.strayBreaks.map (·.location?) =
        ((places.zip breaks).filter (·.2.isStray)).map
          (fun pair => some ⟨file, pair.1.line, pair.1.column⟩) ∧
      ∀ entry ∈ handedOver options source, ∀ found ∈ entry.breaks, entry.Leaves found := by
  obtain ⟨tokens, lexed, done, handed, diagnostics⟩ := compile_outcome compiled
  have ended := ended_tokensOf lexed
  obtain ⟨last, more, written, places, reports, count, seen, reported, agree⟩ :=
    crosses_readDeclarations options.checkOnly _ _ {} [] done
  rw [List.nil_append] at written
  obtain rfl : more = handedOver options source := (handed.trans written).symm
  -- Every word of the source has been crossed, for none is in sight at the end.
  have whole : behindBreaks tokens = places := by
    rw [sight_before ended, Reader.sight_done last] at seen
    exact seen.trans (List.append_nil _)
  have depths : (handedOver options source).flatMap
      (fun entry => Statement.depthsAll entry.function.body 0) =
        ((handedOver options source).flatMap Handed.breaks).map (·.loops.length) := by
    rw [List.map_flatMap]
    exact List.flatMap_congr fun entry _ => entry.depths_breaks.symm
  have leaves : ∀ entry ∈ handedOver options source, ∀ found ∈ entry.breaks, entry.Leaves found :=
    fun entry _ => entry.leaves
  rw [depths] at count agree
  rw [List.length_map] at count
  rw [outside_eq fun found member => by
    obtain ⟨entry, listed, inside⟩ := List.mem_flatMap.mp member
    exact (leaves entry listed found inside).exit] at agree
  have told := strayBreaks_places (diagnostics.trans (congrArg _ reported))
  rw [show (Reader.before tokens options.limit {}).checker.reports = [] from rfl, List.nil_append,
    agree, List.map_map] at told
  refine ⟨tokens, lexed, ?_⟩
  rw [whole]
  refine ⟨count, ?_, told, leaves⟩
  have lengths := congrArg List.length told
  rw [List.length_map, List.length_map] at lengths
  exact lengths.trans (length_stray count)

/-- A function that leaves a loop inside of another one, and then leaves none. -/
def strayedSource : String := "int f(void) { for (0; 1; 0) while (1) break; break; }"

/-- Of the two words of the source one is reported. -/
theorem compile_breaks_strayed :
    ∃ compilation, compile { checkOnly := true } "strayed.c" strayedSource = .ok compilation ∧
      compilation.diagnostics.length = 1 ∧
      ∃ tokens, tokensOf strayedSource = .ok tokens ∧
        let places := behindBreaks tokens
        let breaks := (handedOver { checkOnly := true } strayedSource).flatMap Handed.breaks
        places.length = breaks.length ∧
        compilation.strayBreaks.length = (breaks.filter (·.isStray)).length ∧
        compilation.strayBreaks.map (·.location?) =
          ((places.zip breaks).filter (·.2.isStray)).map
            (fun pair => some ⟨"strayed.c", pair.1.line, pair.1.column⟩) ∧
        ∀ entry ∈ handedOver { checkOnly := true } strayedSource, ∀ found ∈ entry.breaks,
          entry.Leaves found := by
  have lexed : tokensOf strayedSource = .ok ((tokensOf strayedSource).toOption.getD []) := by cbv
  have read : (readUnit (generating true) ((tokensOf strayedSource).toOption.getD []) defaultLimit
      {}).failure? = none := by cbv
  have reported : (readUnit (generating true) ((tokensOf strayedSource).toOption.getD [])
      defaultLimit {}).reader.checker.reports.length = 1 := by cbv
  obtain ⟨compilation, compiled, count⟩ :=
    @compile_of_read { checkOnly := true } _ _ lexed "strayed.c" read
  exact ⟨compilation, compiled, count.trans reported, compile_breaks compiled⟩

end SmallC
