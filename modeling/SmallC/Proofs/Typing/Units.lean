import SmallC.Proofs.Typing.Signatures

/-! Every function of a unit that is read in silence is typed when it is handed on. -/

namespace SmallC

/-- A function with a type of its own that follows the rules. -/
def Function.Welltyped (symbols : SymbolTable) (function : Function) : Prop :=
  ∃ specifier indirection parameters variadic,
    function.Typed symbols specifier indirection parameters variadic

namespace Reading

variable {start : Checker}

/-- Reading from a sound checker loses nothing, whatever scopes it opens and closes. -/
def Advances (start next : Checker) : Prop := start.Grows next ∧ next.Sound

/-- What extends a sound checker soundly advances it. -/
theorem Carries.advances {α : Type} {action : Reading α} {good : α → Checker → Prop}
    (carries : Carries start action good) (sound : start.Sound) {reader next : Reader} {value : α}
    (here : start.Beside reader.checker) (done : action reader = .ok value next) :
    Advances start next.checker := by
  obtain ⟨extended, kept, -⟩ := carries sound _ _ _ here done
  exact ⟨extended.toGrows, kept⟩

/-- A prototype drops its parameters and declares its name. -/
theorem declarePrototype_advances {next : Reader} {specifier : Specifier} {indirection : Nat}
    {parameters : List Ty} {variadic : Bool} {scope : ScopeId} {reader : Reader} {name : String}
    {value : Unit} (signed : Signed start reader.checker specifier indirection parameters scope)
    (done : declarePrototype name (.function specifier indirection parameters variadic) reader =
      .ok value next) : Advances start next.checker := by
  obtain ⟨_, closed, begun, done⟩ := bind_ok done
  obtain ⟨-, closing⟩ := act_ok begun
  obtain ⟨_, done⟩ := discard_ok done
  obtain ⟨-, declaring⟩ := act_ok done
  have settled : closed.checker.Sound := by
    rw [closing]
    exact signed.sound.closeParameters
  -- The scope that is emptied is newer than everything declared at the start.
  have grows : start.Grows closed.checker := by
    rw [closing]
    have current : reader.checker.closeScope.1 = scope := signed.current
    unfold Checker.closeParameters
    simp only [current, if_neg signed.inner]
    exact ⟨signed.grows.quiet, signed.grows.keeps.discard signed.fresh⟩
  rw [declaring]
  exact ⟨grows.trans (Checker.extends_declareFunction _ _ _).toGrows,
    settled.declareFunction _ (by simp)⟩

/-- A declarator of the unit advances the checker. -/
theorem globalDeclarator_advances {specifier : Specifier} {reader next : Reader} {value : Unit}
    (sound : start.Sound) (here : start.Beside reader.checker)
    (done : globalDeclarator specifier reader = .ok value next) :
    Advances start next.checker := by
  -- A list in brackets makes a prototype, and anything else an object.
  obtain ⟨indirection, afterStars, counted, done⟩ := bind_ok done
  have here := here.trans (idle_stars _ _ _ counted)
  obtain ⟨name, afterName, spelled, done⟩ := bind_ok done
  have here := here.trans (idle_name _ _ _ spelled)
  obtain ⟨found, afterKind, looked, done⟩ := bind_ok done
  have here := here.trans (idle_kind _ _ _ looked)
  split at done
  · obtain ⟨_, inside, entered, done⟩ := bind_ok done
    have here := here.trans (idle_advance.discard _ _ _ entered)
    obtain ⟨⟨type, scope⟩, afterList, listed, done⟩ := bind_ok done
    obtain ⟨parameters, variadic, rfl, signed⟩ := signature_signed sound here listed
    obtain ⟨_, declared, prototype, done⟩ := bind_ok done
    have advances := declarePrototype_advances signed prototype
    have after := (idle_expect _).discard _ _ _ done
    exact ⟨advances.1.trans after.extends.toGrows, after.sound advances.2⟩
  · exact (carries_declareObject _ _ _).advances sound here done

/-- Declarators of the unit after commas advance the checker. -/
theorem whileAt_advances {α : Type} (test : TokenKind → Bool) {item : Reading α}
    (each : ∀ start reader value next, Checker.Sound start → start.Beside reader.checker →
      item reader = .ok value next → Advances start next.checker)
    (clock : List Token) {reader next : Reader} {values : List α} (sound : start.Sound)
    (here : start.Beside reader.checker) (done : whileAt test item clock reader = .ok values next) :
    Advances start next.checker := by
  -- Each turn starts from the checker that the turn before leaves.
  induction clock generalizing start reader next values with
  | nil =>
    obtain ⟨found, afterKind, looked, done⟩ := bind_ok done
    have here := here.trans (idle_kind _ _ _ looked)
    split at done
    · exact idle_unexpected.carries.advances sound here done
    · exact (idle_pure _).carries.advances sound here done
  | cons _ clock ih =>
    obtain ⟨found, afterKind, looked, done⟩ := bind_ok done
    have here := here.trans (idle_kind _ _ _ looked)
    split at done
    · obtain ⟨first, afterFirst, read, done⟩ := bind_ok done
      obtain ⟨grows, settled⟩ := each start _ _ _ sound here read
      obtain ⟨others, afterOthers, listed, done⟩ := bind_ok done
      obtain ⟨further, kept⟩ := ih settled (.refl _) listed
      obtain ⟨-, rfl⟩ := pure_ok done
      exact ⟨grows.trans further, kept⟩
    · exact (idle_pure _).carries.advances sound here done

/-- The declarators after the first one advance the checker. -/
theorem furtherDeclarators_advances {specifier : Specifier} {reader next : Reader} {value : Unit}
    (sound : start.Sound) (here : start.Beside reader.checker)
    (done : furtherDeclarators specifier reader = .ok value next) :
    Advances start next.checker := by
  obtain ⟨_, listed, read, done⟩ := bind_ok done
  obtain ⟨_, read⟩ := discard_ok read
  obtain ⟨_, _, got, read⟩ := bind_ok read
  cases got
  -- Each further declarator follows a comma.
  have each : ∀ start reader value next, Checker.Sound start → start.Beside reader.checker →
      (do discard advance; globalDeclarator specifier : Reading Unit) reader = .ok value next →
        Advances start next.checker := by
    intro start reader value next sound here done
    obtain ⟨_, afterComma, entered, done⟩ := bind_ok done
    exact globalDeclarator_advances sound (here.trans (idle_advance.discard _ _ _ entered)) done
  obtain ⟨grows, settled⟩ := whileAt_advances _ each _ sound here read
  have after := (idle_expect _).discard _ _ _ done
  exact ⟨grows.trans after.extends.toGrows, after.sound settled⟩

/-- Where a function begins only what it returns and how many loops are open is new. -/
theorem grows_beginFunction (checker : Checker) (returned : Ty) :
    checker.Grows (checker.beginFunction returned) :=
  ⟨id, .refl _⟩

theorem sound_beginFunction {checker : Checker} (sound : checker.Sound) (returned : Ty) :
    (checker.beginFunction returned).Sound :=
  ⟨sound.proper, sound.opened, sound.rooted⟩

/-- A function that is defined in silence keeps its type. -/
theorem typeOf_defined {checker later : Checker} (sound : checker.Sound) {name : String} {type : Ty}
    (proper : type ≠ .error) (grows : (checker.defineFunction name type).2.Grows later)
    (silent : later.reports = []) :
    later.symbols.typeOf (checker.defineFunction name type).1 = type := by
  have typed := Checker.typeOf_defineFunction sound (grows.quiet silent)
  have known : (checker.defineFunction name type).2.symbols.typeOf
      (checker.defineFunction name type).1 ≠ .error := by rwa [typed]
  exact (grows.keeps.typeOf known).trans typed

/-- A statement of a body that begins here stands in no loop and returns what the signature says. -/
theorem typed_in_body {checker read : Checker} {symbols : SymbolTable} {returned : Ty}
    {statement : Statement} (inside : (checker.beginFunction returned).Extends read)
    (typed : statement.Typed symbols read.returned read.looping) :
    statement.Typed symbols returned false := by
  have returns : read.returned = returned := inside.returned
  have loops : read.looping = false := by
    unfold Checker.looping
    rw [inside.loops]
    rfl
  rwa [returns, loops] at typed

/-- A function whose signature has been read is typed once its body has been. -/
theorem functionBody_typed {specifier : Specifier} {indirection : Nat} {parameters : List Ty}
    {variadic : Bool} {scope : ScopeId} {reader next : Reader} {name : String}
    {function : Function}
    (signed : Signed start reader.checker specifier indirection parameters scope)
    (done : functionBody name (.function specifier indirection parameters variadic) scope reader =
      .ok function next) :
    Advances start next.checker ∧ (next.checker.reports = [] →
      function.Typed next.checker.symbols specifier indirection parameters variadic) := by
  obtain ⟨_, _, got, done⟩ := bind_ok done
  cases got
  obtain ⟨_, entered, begun, done⟩ := bind_ok done
  obtain ⟨-, entering⟩ := act_ok begun
  obtain ⟨symbol, defined, begun, done⟩ := bind_ok done
  obtain ⟨named, defining⟩ := act_ok begun
  obtain ⟨_, opened, brace, done⟩ := bind_ok done
  obtain ⟨_, declared, locals, done⟩ := bind_ok done
  obtain ⟨body, read, statements, done⟩ := bind_ok done
  obtain ⟨closedScope, closed, begun, done⟩ := bind_ok done
  obtain ⟨numbered, closing⟩ := act_ok begun
  obtain ⟨_, last, closingBrace, done⟩ := bind_ok done
  have after := (idle_expect _).discard _ _ _ closingBrace
  obtain ⟨rfl, rfl⟩ := pure_ok done
  -- From the signature to the closing brace the checker grows step by step.
  have begins : reader.checker.Grows entered.checker := entering ▸ grows_beginFunction _ _
  have soundEntered : entered.checker.Sound := entering ▸ sound_beginFunction signed.sound _
  have defines : entered.checker.Extends defined.checker :=
    defining ▸ Checker.extends_defineFunction _ _ _
  have soundDefined : defined.checker.Sound := defining ▸ soundEntered.defineFunction _ (by simp)
  have opens := (idle_expect _).discard _ _ _ brace
  obtain ⟨early, settled, -⟩ := carries_declarations soundDefined _ _ _ opens locals
  obtain ⟨late, kept, all⟩ := Carries.many _ lasting_admits
    (fun checker _ => builds_statement checker _) settled _ _ _ (.refl _) statements
  have inside := defines.trans (early.trans late)
  have closes : read.checker.Grows closed.checker := closing ▸ ⟨id, SymbolTable.keeps_closeScope _⟩
  have soundClosed : closed.checker.Sound := closing ▸ kept.closeScope
  have ends := closes.trans after.extends.toGrows
  have grows := begins.trans (inside.toGrows.trans ends)
  refine ⟨⟨signed.grows.trans grows, after.sound soundClosed⟩, fun silent => ?_⟩
  -- The scope that is closed is the one that the signature has opened.
  have same : closedScope = scope := by
    have current := inside.current
    rw [entering] at current
    rw [numbered]
    exact current.trans signed.current
  have typesAtStart := signed.placed (grows.quiet silent)
  refine ⟨?_, ?_, ?_, signed.scalars, ?_⟩
  · have further := (early.trans late).toGrows.trans ends
    rw [defining] at further
    exact named ▸ typeOf_defined soundEntered (by simp) further silent
  · show (reader.checker.symbols.symbolsOf scope).length = parameters.length
    rw [← typesAtStart, List.length_map]
  · show ((next.checker.symbols.symbolsOf closedScope).take
      (reader.checker.symbols.symbolsOf scope).length).map Symbol.type = parameters
    rw [same, grows.keeps.types scope, typesAtStart]
  · intro statement member
    rw [entering] at inside
    exact typed_in_body inside ((all statement member (ends.quiet silent)).weaken ends.keeps)

/-- A declaration that ends without a body advances the checker and hands nothing on. -/
theorem endDeclaration_advances {specifier : Specifier} {reader next : Reader}
    {read : Option Function} (sound : start.Sound) (here : start.Beside reader.checker)
    (done : (do furtherDeclarators specifier; return none : Reading (Option Function)) reader =
      .ok read next) : Advances start next.checker ∧ read = none := by
  obtain ⟨_, ended, listed, done⟩ := bind_ok done
  obtain ⟨rfl, rfl⟩ := pure_ok done
  exact ⟨furtherDeclarators_advances sound here listed, rfl⟩

/-- What is read at the top of a unit advances the checker, and a function there is typed. -/
theorem topLevel_typed {reader next : Reader} {read : Option Function}
    (sound : reader.checker.Sound) (done : topLevel reader = .ok read next) :
    Advances reader.checker next.checker ∧ ∀ function, read = some function →
      next.checker.reports = [] → function.Welltyped next.checker.symbols := by
  -- Reading is followed step by step up to where functions, prototypes and objects part.
  obtain ⟨specifier, afterSpecifier, started, done⟩ := bind_ok done
  have here := idle_specifier _ _ _ started
  obtain ⟨indirection, afterStars, counted, done⟩ := bind_ok done
  have here := here.trans (idle_stars _ _ _ counted)
  obtain ⟨name, afterName, spelled, done⟩ := bind_ok done
  have here := here.trans (idle_name _ _ _ spelled)
  obtain ⟨found, afterKind, looked, done⟩ := bind_ok done
  have here := here.trans (idle_kind _ _ _ looked)
  dsimp only at done
  split at done
  · obtain ⟨_, inside, entered, done⟩ := bind_ok done
    have here := here.trans (idle_advance.discard _ _ _ entered)
    obtain ⟨⟨type, scope⟩, afterList, listed, done⟩ := bind_ok done
    obtain ⟨parameters, variadic, rfl, signed⟩ := signature_signed sound here listed
    obtain ⟨_, afterParen, closed, done⟩ := bind_ok done
    have signed := signed.beside ((idle_expect _).discard _ _ _ closed)
    obtain ⟨follows, afterFollows, looked, done⟩ := bind_ok done
    have signed := signed.beside (idle_kind _ _ _ looked)
    split at done
    · -- A body follows, and the function is handed on.
      obtain ⟨function, ended, body, done⟩ := bind_ok done
      obtain ⟨rfl, rfl⟩ := pure_ok done
      obtain ⟨advances, typed⟩ := functionBody_typed signed body
      refine ⟨advances, ?_⟩
      rintro _ ⟨⟩ silent
      exact ⟨specifier, indirection, parameters, variadic, typed silent⟩
    · obtain ⟨_, declared, prototype, done⟩ := bind_ok done
      obtain ⟨grows, settled⟩ := declarePrototype_advances signed prototype
      obtain ⟨⟨further, kept⟩, rfl⟩ := endDeclaration_advances settled (.refl _) done
      exact ⟨⟨grows.trans further, kept⟩, by simp⟩
  · obtain ⟨_, declared, object, done⟩ := bind_ok done
    obtain ⟨grows, settled⟩ := (carries_declareObject _ _ _).advances sound here object
    obtain ⟨⟨further, kept⟩, rfl⟩ := endDeclaration_advances settled (.refl _) done
    exact ⟨⟨grows.trans further, kept⟩, by simp⟩

end Reading

end SmallC
