import SmallC.Proofs.Parallel.Grammar
import SmallC.Proofs.Program.Bare
import SmallC.Proofs.Scoping.Naming

/-! Writing functions does not disturb checking: it gives their own symbols places, and nothing that
is read later depends on places. -/

namespace SmallC

/-- Tables that agree on everything but the places of the symbols of the given scopes. -/
structure SymbolTable.AlikeBut (scopes : List ScopeId) (old new : SymbolTable) : Prop where
  /-- Everything but places is the same. -/
  bare : new.bare = old.bare
  /-- Other scopes are the same altogether. -/
  elsewhere : ∀ scope ∉ scopes, new.scopes[scope]? = old.scopes[scope]?

namespace SymbolTable

variable {scopes others : List ScopeId}

theorem AlikeBut.trans {first second third : SymbolTable} (early : AlikeBut scopes first second)
    (late : AlikeBut scopes second third) : AlikeBut scopes first third :=
  ⟨late.bare.trans early.bare, fun scope other =>
    (late.elsewhere scope other).trans (early.elsewhere scope other)⟩

theorem AlikeBut.widen {old new : SymbolTable} (alike : AlikeBut scopes old new)
    (listed : scopes ⊆ others) : AlikeBut others old new :=
  ⟨alike.bare, fun scope other => alike.elsewhere scope fun member => other (listed member)⟩

/-- Places are changed in one scope. -/
theorem alikeBut_modifySymbols (table : SymbolTable) {scope : ScopeId} (listed : scope ∈ scopes)
    {change : List Symbol → List Symbol}
    (same : (change (table.symbolsOf scope)).map Symbol.declaration =
      (table.symbolsOf scope).map Symbol.declaration) :
    AlikeBut scopes table (table.modifySymbols scope change) where
  bare := table.bare_places same
  elsewhere other unlisted := by
    have differs : scope ≠ other := by
      rintro rfl
      exact unlisted listed
    simp [modifySymbols, differs]

theorem alikeBut_bindParameters (table : SymbolTable) {scope : ScopeId} (listed : scope ∈ scopes)
    (count : Nat) : AlikeBut scopes table (Frame.bindParameters scope count table) := by
  refine table.alikeBut_modifySymbols listed ?_
  rw [List.map_append, Frame.declarations_placeParameters, ← List.map_append, List.take_append_drop]

theorem alikeBut_bindLocals (table : SymbolTable) {scope : ScopeId} (listed : scope ∈ scopes)
    (frame : Frame) (skip : Nat) : AlikeBut scopes table (frame.bindLocals scope skip table).2 := by
  refine @alikeBut_modifySymbols scopes table scope listed (fun _ => (table.symbolsOf scope).take skip
    ++ (frame.placeLocals ((table.symbolsOf scope).drop skip)).1) ?_
  rw [List.map_append, Frame.declarations_placeLocals, ← List.map_append, List.take_append_drop]

end SymbolTable

/-- Lowering changes the places of symbols of its own scopes and nothing else. -/
theorem Progress.Places.alikeBut {scopes : List ScopeId} {old new : Progress}
    (places : Places scopes old new) : SymbolTable.AlikeBut scopes old.symbols new.symbols := by
  induction places with
  | evaluates evaluates =>
    rw [evaluates.symbols]
    exact ⟨rfl, fun _ _ => rfl⟩
  | bind listed progress => exact progress.symbols.alikeBut_bindLocals listed _ _
  | trans _ _ early late => exact early.trans late

/-- Writing a function changes the places of its own parameters and variables and nothing else. -/
theorem generateFunction_alikeBut (function : Function) (symbols : SymbolTable)
    (generated : Generated) : SymbolTable.AlikeBut function.scopes symbols
      (generateFunction function symbols generated).1 := by
  -- The parameters get places, then the variables of the body, then those of its blocks.
  have listed : function.scope ∈ function.scopes := List.mem_cons_self
  have body := (Statement.placesAll function.body { function := ⟨generated.nextLabel⟩ }
    (function.entry symbols generated.nextLabel)).alikeBut
  exact (symbols.alikeBut_bindParameters listed _).trans
    ((SymbolTable.alikeBut_bindLocals _ listed _ _).trans
      (body.widen fun scope inside => List.mem_cons_of_mem _ inside))

/-- Readings are the same but for the places of symbols. -/
def Pairing.placing : Pairing where
  token := Eq
  name := Eq
  checker left right := right.bare = left.bare
  symbol := Eq
  scope := Eq
  expression := Eq
  statement := Eq
  function := Eq
  failure := Eq

namespace Pairing

/-- A step that takes no notice of places gives the same value on both sides. -/
theorem steps_frameless {α : Type} {step : Checker → α × Checker} (frameless : Frameless step) :
    placing.Steps step step Eq := by
  intro left right alike
  -- Both sides take the step that the common table without places takes.
  have one := frameless left
  have two := frameless right
  rw [alike, one] at two
  exact Prod.mk.inj two |>.imp id Eq.symm

theorem bare_changed (change : Checker → Checker) {left right : Checker}
    (frameless : ∀ checker, change checker.bare = (change checker).bare)
    (alike : right.bare = left.bare) : (change right).bare = (change left).bare := by
  rw [← frameless, ← frameless, alike]

/-- What is not a place is the same in both checkers. -/
theorem apart_of_bare {left right : Checker} (alike : right.bare = left.bare) :
    right.loops = left.loops ∧ right.returned = left.returned ∧ right.reports = left.reports :=
  have same {α : Type} (part : Checker → α) : part right.bare = part left.bare := congrArg part alike
  ⟨same Checker.loops, same Checker.returned, same Checker.reports⟩

/-- The same is built, whatever places symbols have. -/
theorem even_placing : placing.Even where
  symbol := rfl
  scope := rfl
  expression := rfl
  statement := rfl
  function := rfl
  spelled := by rintro _ _ rfl _; rfl
  records verdict := steps_frameless (Checker.frameless_record verdict)
  -- Neither types nor the number of symbols are touched when places are left out.
  typed := by
    intro left right alike symbol
    have same := congrArg (fun checker => checker.symbols.typeOf symbol) alike
    simpa [SymbolTable.typeOf_bare] using same
  counted := by
    intro left right alike scope
    have same := congrArg (fun checker => (checker.symbols.symbolsOf scope).length) alike
    simpa [SymbolTable.symbolsOf_bare] using same
  loops alike := (apart_of_bare alike).1
  returned alike := (apart_of_bare alike).2.1

/-- No step of reading depends on the places of symbols. -/
theorem lawful_placing : placing.Strict where
  toBuilds := even_placing.builds
  kind := by rintro _ _ rfl; rfl
  line := by rintro _ _ rfl; rfl
  digits := by rintro _ _ rfl _; rfl
  spelled := by rintro _ _ rfl _; rfl
  origin := rfl
  fresh := rfl
  ended := by rintro _ _ rfl; rfl
  unexpected := by rintro _ _ rfl; exact ⟨rfl, rfl⟩
  tooDeep := by rintro _ _ _ - rfl; rfl
  bottom := nofun
  lower same := ⟨_, same.symm, rfl⟩
  outOfRange _ _ := rfl
  tooLarge := by rintro _ _ _ rfl; rfl
  -- Each step of the checker does the same on tables that differ in places alone.
  moves := by
    rintro left right token _ alike rfl
    exact bare_changed (·.moveTo token.position) (fun _ => rfl) alike
  opens := steps_frameless Checker.frameless_openScope
  closes := steps_frameless Checker.frameless_closeScope
  forgets := bare_changed _ Checker.bare_closeParameters
  begins type := bare_changed (·.beginFunction type) fun _ => rfl
  enters := bare_changed _ fun _ => rfl
  leaves := bare_changed _ fun _ => rfl
  declares := by
    rintro name _ type rfl left right alike
    exact ⟨trivial, (steps_frameless (Checker.frameless_declareVariable name type) _ _ alike).2⟩
  prototype := by
    rintro name _ type rfl left right alike
    exact ⟨trivial, (steps_frameless (Checker.frameless_declareFunction name type) _ _ alike).2⟩
  definition := by
    rintro name _ type rfl
    exact steps_frameless (Checker.frameless_defineFunction name type)
  resolves := by
    rintro name _ rfl
    exact steps_frameless (Checker.frameless_resolve name)
  same _ := rfl
  strict := id

/-- Whether functions are written makes no difference to what is read later. -/
theorem consumes_generating (writes : Bool) (other : Bool) :
    placing.Consumes (generating writes) (generating other) fun _ _ => True := by
  -- Generating gives places to symbols and changes nothing else in the table.
  have bare (checkOnly : Bool) (function : Function) (checker : Checker) (generated : Generated) :
      { checker with symbols := (generating checkOnly function checker.symbols generated).1 }.bare =
        checker.bare := by
    unfold generating
    split
    · rfl
    · have alike := (generateFunction_alikeBut function checker.symbols generated).bare
      exact congrArg (fun symbols => { checker with symbols }) alike
  rintro left right function _ output result alike rfl -
  exact ⟨trivial, (bare other function right result).trans (alike.trans (bare writes function left output).symm)⟩

end Pairing

/-- What is said about a unit that has been read so far: why it failed, or its reports. -/
def Outcome.verdict {σ : Type} (outcome : Outcome σ) : Except Failure (List Report) :=
  match outcome.failure? with
  | some failure => .error failure
  | none => .ok outcome.reader.checker.reports

/-- Units that end alike have the same said about them. -/
theorem Pairing.Ends.verdict {σ τ : Type} {good : σ → τ → Prop} {one : Outcome σ} {two : Outcome τ}
    (ends : placing.Ends good one two) : two.verdict = one.verdict := by
  unfold Outcome.verdict
  rw [ends.failure_eq rfl]
  -- Reports are asked for only where nothing failed, and there the checkers correspond.
  cases done : one.failure? with
  | none => exact congrArg Except.ok (apart_of_bare (ends.checker done)).2.2
  | some failure => rfl

/-- The diagnostics of a source are what is said about it when it is read. -/
theorem compile_diagnostics (options : Options) (file source : String) :
    (compile options file source).map Compilation.diagnostics = (tokensOf source).bind fun tokens =>
      (readUnit (generating options.checkOnly) tokens options.limit {}).verdict.map
        (List.map (·.diagnostic file)) := by
  unfold compile Outcome.verdict
  cases tokensOf source with
  | error failure => rfl
  | ok tokens =>
    simp only [bind, Except.bind]
    cases (readUnit (generating options.checkOnly) tokens options.limit {}).failure? <;> rfl

/-- Where only checking is wanted nothing is written. -/
theorem readUnit_generating_true (tokens : List Token) (limit : Nat)
    (done : (readUnit (generating true) tokens limit {}).failure? = none) :
    (readUnit (generating true) tokens limit {}).output = {} :=
  @readDeclarations_preserves _ (generating true) (fun _ output => output = {})
    (fun _ _ _ empty _ => empty) (fun _ _ _ _ empty _ => empty) _ _ _ rfl done

/-- A check has no assembly. -/
theorem assembly_of_check {options : Options} {file source : String} {compilation : Compilation}
    (check : options.checkOnly = true)
    (compiled : compile options file source = .ok compilation) : compilation.assembly = "" := by
  unfold compile at compiled
  rw [check] at compiled
  cases lexed : tokensOf source with
  | error failure => rw [lexed] at compiled; cases compiled
  | ok tokens =>
    simp only [lexed, bind, Except.bind] at compiled
    -- Reading fails, or it has generated nothing that could be written.
    split at compiled
    · cases compiled
    · next done =>
      cases compiled
      have nothing := readUnit_generating_true tokens options.limit done
      simp only [if_true, nothing]
      rfl

/-- Whatever is put before global names, and whether assembly is wanted or not, a source compiles
with the same diagnostics or fails for the same reason, and a check has no assembly. The functions
that are written meanwhile, which a check leaves out, change nothing that has been declared but the
places of their own parameters and variables, none of which are in the scope of the unit. -/
theorem compile_checks (options : Options) (globalPrefix : String) (checkOnly : Bool)
    (file source : String) :
    let other := { options with globalPrefix, checkOnly }
    (compile other file source).map Compilation.diagnostics =
        (compile options file source).map Compilation.diagnostics ∧
      (checkOnly = true → ∀ compilation, compile other file source = .ok compilation →
        compilation.assembly = "") ∧
      (∀ function symbols generated, SymbolTable.AlikeBut function.scopes symbols
        (generateFunction function symbols generated).1) ∧
      ∀ compilation, compile options file source = .ok compilation →
        ∀ entry ∈ handedOver options source, unitScope ∉ entry.function.scopes := by
  refine ⟨?_, fun check _ => assembly_of_check check, generateFunction_alikeBut,
    fun _ compiled entry member => (settled_handedOver compiled entry member).inner⟩
  rw [compile_diagnostics, compile_diagnostics]
  cases tokensOf source with
  | error failure => rfl
  | ok tokens =>
    have ends : Pairing.placing.Ends (fun _ _ => True)
        (readUnit (generating options.checkOnly) tokens options.limit {})
        (readUnit (generating checkOnly) tokens options.limit {}) :=
      Pairing.ends_readUnit Pairing.lawful_placing (Pairing.consumes_generating _ _)
        (List.forall₂_same.mpr fun _ _ => rfl) options.limit trivial
    exact congrArg (Except.map (List.map (·.diagnostic file))) ends.verdict

/-- The function that looks for the end of a text has no diagnostics in a check, and none when it is
written with names that start with an underscore. -/
theorem compile_checks_end :
    compile { checkOnly := true } "end.c" endSource = .ok ⟨"", []⟩ ∧
      (compile { globalPrefix := "_" } "end.c" endSource).map Compilation.diagnostics = .ok [] := by
  have compiled : compile { checkOnly := true } "end.c" endSource = .ok ⟨"", []⟩ := by cbv
  have same := (compile_checks { checkOnly := true } "_" false "end.c" endSource).1
  rw [compiled] at same
  exact ⟨compiled, same⟩

end SmallC
