import SmallC.Proofs.Parallel.Grammar
import SmallC.Proofs.Renaming.Tables

/-! Renaming what is read: under other names the same functions are handed on, and as much is
reported. -/

namespace SmallC

/-- A token under another name, if it is a name at all. -/
def Token.renamed (rename : String → String) (token : Token) : Token :=
  if token.kind = .identifier then { token with text := rename token.text } else token

namespace Token

variable (rename : String → String) (token : Token)

@[simp] theorem kind_renamed : (token.renamed rename).kind = token.kind := by
  unfold renamed
  split <;> rfl

@[simp] theorem position_renamed : (token.renamed rename).position = token.position := by
  unfold renamed
  split <;> rfl

variable {token}

theorem text_renamed (named : token.kind = .identifier) :
    (token.renamed rename).text = rename token.text := by
  unfold renamed
  rw [if_pos named]

theorem renamed_of_other (other : token.kind ≠ .identifier) : token.renamed rename = token := by
  unfold renamed
  rw [if_neg other]

end Token

/-- The names that are written in tokens. -/
def spellings (tokens : List Token) : Set String :=
  {name | ∃ token ∈ tokens, token.kind = .identifier ∧ token.text = name}

/-- Checkers that know the same under other names and have reported as much. -/
structure Checker.Renamed (rename : String → String) (names : Set String) (left right : Checker) :
    Prop where
  /-- The symbols are under other names. -/
  symbols : right.symbols = left.symbols.renamed rename
  /-- They are under the given names on the first side. -/
  spelled : left.symbols.Spelled names
  /-- The same functions have bodies. -/
  defined : right.defined = left.defined.map rename
  /-- They are under the given names too. -/
  known : ∀ name ∈ left.defined, name ∈ names
  /-- As much has been reported. -/
  reports : right.reports.length = left.reports.length
  /-- As many loops are open. -/
  loops : right.loops = left.loops
  /-- The functions in hand return the same type. -/
  returned : right.returned = left.returned

/-- Readings of the same tokens under other names. -/
def Pairing.renamed (rename : String → String) (names : Set String) : Pairing where
  token token other :=
    other = token.renamed rename ∧ (token.kind = .identifier → token.text ∈ names)
  name name other := other = rename name ∧ name ∈ names
  checker := Checker.Renamed rename names
  symbol := Eq
  scope := Eq
  expression := Eq
  statement := Eq
  function := Eq
  failure _ _ := True

namespace Checker.Renamed

variable {rename : String → String} {names : Set String} {left right : Checker} {name : String}

theorem report (alike : Renamed rename names left right) (problem other : Problem) :
    Renamed rename names (left.report problem) (right.report other) :=
  { alike with reports := by simp [Checker.report, alike.reports] }

/-- Tables may be changed that stay under the given names. -/
theorem adopt (alike : Renamed rename names left right) {table : SymbolTable}
    (spelled : table.Spelled names) :
    Renamed rename names { left with symbols := table }
      { right with symbols := table.renamed rename } :=
  { alike with symbols := rfl, spelled }

theorem current (alike : Renamed rename names left right) : right.current = left.current := by
  unfold Checker.current
  rw [alike.symbols]
  rfl

theorem typeOf (alike : Renamed rename names left right) (symbol : SymbolId) :
    right.symbols.typeOf symbol = left.symbols.typeOf symbol := by
  rw [alike.symbols, SymbolTable.typeOf_renamed]

theorem find? (alike : Renamed rename names left right) (distinct : names.InjOn rename)
    (known : name ∈ names) (scope : ScopeId) :
    right.symbols.find? scope (rename name) = left.symbols.find? scope name := by
  rw [alike.symbols, SymbolTable.find?_renamed distinct alike.spelled known]

theorem lookup? (alike : Renamed rename names left right) (distinct : names.InjOn rename)
    (known : name ∈ names) : right.symbols.lookup? (rename name) = left.symbols.lookup? name := by
  rw [alike.symbols, SymbolTable.lookup?_renamed distinct alike.spelled known]

theorem contains (alike : Renamed rename names left right) (distinct : names.InjOn rename)
    (known : name ∈ names) : right.defined.contains (rename name) = left.defined.contains name := by
  rw [alike.defined, Bool.eq_iff_iff, List.contains_iff_mem, List.contains_iff_mem, List.mem_map]
  -- A name that has become the same as another one was the same before.
  constructor
  · rintro ⟨other, member, same⟩
    exact distinct (alike.known other member) known same ▸ member
  · exact fun member => ⟨name, member, rfl⟩

end Checker.Renamed

/-! Steps of checkers that know the same under other names. -/

namespace Pairing

variable {rename : String → String} {names : Set String} {name : String}

theorem renamed_record {α : Type} (verdict : Verdict α) :
    (renamed rename names).Steps (Checker.record verdict) (Checker.record verdict) Eq := by
  intro left right alike
  unfold Checker.record
  cases verdict.problem? with
  | none => exact ⟨rfl, alike⟩
  | some problem => exact ⟨rfl, alike.report problem problem⟩

theorem renamed_openScope :
    (renamed rename names).Steps Checker.openScope Checker.openScope Eq := by
  intro left right alike
  have opened := left.symbols.openScope_mapped (Symbol.renamed rename)
  unfold Checker.openScope
  rw [alike.symbols, SymbolTable.renamed, opened]
  exact ⟨rfl, alike.adopt alike.spelled.openScope⟩

theorem renamed_closeScope :
    (renamed rename names).Steps Checker.closeScope Checker.closeScope Eq := by
  intro left right alike
  unfold Checker.closeScope
  rw [alike.symbols]
  exact ⟨rfl, @Checker.Renamed.adopt _ _ _ _ alike left.symbols.closeScope.2 alike.spelled⟩

theorem renamed_closeParameters {left right : Checker} (alike : left.Renamed rename names right) :
    left.closeParameters.Renamed rename names right.closeParameters := by
  obtain ⟨same, closed⟩ := renamed_closeScope left right alike
  -- Both checkers have closed the same scope, and drop what it holds unless it is the unit's.
  unfold Checker.closeParameters
  dsimp only
  rw [← same]
  split
  · exact closed
  · have dropped := closed.adopt (closed.spelled.discard left.closeScope.1)
    rw [SymbolTable.renamed, ← SymbolTable.discard_mapped] at dropped
    rwa [closed.symbols]

theorem renamed_enter (known : name ∈ names) (scope : ScopeId) (type : Ty) {left right : Checker}
    (alike : left.Renamed rename names right) :
    (left.enter scope name type).1 = (right.enter scope (rename name) type).1 ∧
      (left.enter scope name type).2.Renamed rename names (right.enter scope (rename name) type).2 := by
  have entered := left.symbols.insert_mapped (Symbol.renamed rename) scope { name, type }
  -- Entering a renamed symbol is the same as renaming all symbols afterwards.
  have symbols : right.symbols.insert scope { name := rename name, type } =
      ((left.enter scope name type).1, (left.enter scope name type).2.symbols.renamed rename) := by
    rw [alike.symbols]
    exact entered
  unfold Checker.enter
  rw [symbols]
  exact ⟨rfl, alike.adopt (alike.spelled.insert scope known)⟩

theorem renamed_declareVariable (distinct : names.InjOn rename) (known : name ∈ names) (type : Ty) :
    (renamed rename names).Steps (Checker.declareVariable name type)
      (Checker.declareVariable (rename name) type) Eq := by
  intro left right alike
  -- Both checkers look in the same scope, and find the same symbol of the same type or none.
  unfold Checker.declareVariable
  simp only [alike.current, alike.find? distinct known, alike.typeOf]
  split
  · exact renamed_enter known _ _ alike
  · split
    · exact ⟨rfl, alike.report _ _⟩
    · split
      · exact ⟨rfl, alike.report _ _⟩
      · exact ⟨rfl, alike⟩

theorem renamed_declareFunction (distinct : names.InjOn rename) (known : name ∈ names) (type : Ty) :
    (renamed rename names).Steps (Checker.declareFunction name type)
      (Checker.declareFunction (rename name) type) Eq := by
  intro left right alike
  unfold Checker.declareFunction
  -- Distinct names are found alike, so both sides take one branch.
  simp only [alike.find? distinct known, alike.typeOf]
  split
  · exact renamed_enter known _ _ alike
  · split
    · exact ⟨rfl, alike.report _ _⟩
    · exact ⟨rfl, alike⟩

theorem renamed_declareDefined (distinct : names.InjOn rename) (known : name ∈ names) (type : Ty) :
    (renamed rename names).Steps (Checker.declareDefined name type)
      (Checker.declareDefined (rename name) type) Eq := by
  intro left right alike
  have noted : Checker.Renamed rename names { left with defined := name :: left.defined }
      { right with defined := rename name :: right.defined } :=
    { alike with
      defined := congrArg (rename name :: ·) alike.defined
      known := List.forall_mem_cons.mpr ⟨known, alike.known⟩ }
  exact renamed_declareFunction distinct known type _ _ noted

theorem renamed_defineFunction (distinct : names.InjOn rename) (known : name ∈ names) (type : Ty) :
    (renamed rename names).Steps (Checker.defineFunction name type)
      (Checker.defineFunction (rename name) type) Eq := by
  intro left right alike
  -- Reports name what is redefined, so they differ, but there is one on either side.
  have reported := alike.report (.redefinition name) (.redefinition (rename name))
  unfold Checker.defineFunction
  rw [alike.contains distinct known]
  split
  · dsimp only
    rw [reported.find? distinct known]
    split
    · exact ⟨rfl, reported⟩
    · exact renamed_declareDefined distinct known type _ _ reported
  · exact renamed_declareDefined distinct known type _ _ alike

theorem renamed_resolve (distinct : names.InjOn rename) (known : name ∈ names) :
    (renamed rename names).Steps (Checker.resolve name) (Checker.resolve (rename name)) Eq := by
  intro left right alike
  -- A name that no scope in force declares is entered into the same scope.
  have reported := alike.report (.undeclared name) (.undeclared (rename name))
  unfold Checker.resolve
  rw [alike.lookup? distinct known]
  split
  · exact ⟨rfl, alike⟩
  · dsimp only
    rw [reported.current]
    exact renamed_enter known _ _ reported

/-- The same is built under other names. -/
theorem even_renamed (rename : String → String) (names : Set String) :
    (renamed rename names).Even where
  symbol := rfl
  scope := rfl
  expression := rfl
  statement := rfl
  function := rfl
  -- Only names are respelled.
  spelled := by
    rintro token _ ⟨rfl, -⟩ other
    exact congrArg Token.text (Token.renamed_of_other rename other)
  records := renamed_record
  typed alike := alike.typeOf
  counted := by
    intro left right alike scope
    rw [alike.symbols, SymbolTable.renamed, SymbolTable.symbolsOf_mapped, List.length_map]
  loops alike := alike.loops
  returned alike := alike.returned

/-- While different names stay different, no step of reading depends on how they are spelled. -/
theorem strict_renamed (distinct : names.InjOn rename) : (renamed rename names).Strict where
  toBuilds := (even_renamed rename names).builds
  kind := by rintro token _ ⟨rfl, -⟩; exact token.kind_renamed rename
  line := by rintro token _ ⟨rfl, -⟩; rw [Token.position_renamed]
  digits := by
    rintro token _ ⟨rfl, -⟩ number
    rw [Token.renamed_of_other rename (by simp [number])]
  spelled := by
    rintro token _ ⟨rfl, known⟩ named
    exact ⟨token.text_renamed rename named, known named⟩
  origin := ⟨rfl, nofun⟩
  fresh := by
    have empty : SymbolTable.Spelled names {} := fun _ _ nothing => absurd nothing List.not_mem_nil
    exact ⟨rfl, empty.openScope, rfl, nofun, rfl, rfl, rfl⟩
  ended := by
    rintro token _ ⟨rfl, -⟩
    rw [Token.position_renamed]
    exact ⟨rfl, nofun⟩
  -- The texts of failures name what stands in the source, so nothing is asked of them.
  unexpected _ := ⟨trivial, trivial⟩
  tooDeep _ _ _ _ _ := trivial
  bottom := nofun
  lower same := ⟨_, same.symm, rfl⟩
  outOfRange _ _ := trivial
  tooLarge _ _ := trivial
  moves alike _ := { alike with }
  opens := renamed_openScope
  closes := renamed_closeScope
  forgets := renamed_closeParameters
  begins type alike := { alike with loops := rfl, returned := rfl }
  enters alike := { alike with loops := congrArg (· + 1) alike.loops }
  leaves alike := { alike with loops := congrArg (· - 1) alike.loops }
  declares := by
    rintro name _ type ⟨rfl, known⟩ left right alike
    exact ⟨trivial, (renamed_declareVariable distinct known type left right alike).2⟩
  prototype := by
    rintro name _ type ⟨rfl, known⟩ left right alike
    exact ⟨trivial, (renamed_declareFunction distinct known type left right alike).2⟩
  definition := by
    rintro name _ type ⟨rfl, known⟩
    exact renamed_defineFunction distinct known type
  resolves := by
    rintro name _ ⟨rfl, known⟩
    exact renamed_resolve distinct known
  same _ := rfl
  strict := id

end Pairing

end SmallC
