import SmallC.Grammar.Units
import SmallC.Proofs.Typing.Statements

/-! Signatures: the parameters stand alone and in order in the fresh scope that they open. -/

namespace SmallC

namespace Checker

/-- In silence, the symbols that a scope has gained are of the given types. -/
def Gains (old new : Checker) (scope : ScopeId) (types : List Ty) : Prop :=
  new.reports = [] → (new.symbols.symbolsOf scope).map Symbol.type =
    (old.symbols.symbolsOf scope).map Symbol.type ++ types

/-- A scope that gains nothing stays as it is. -/
theorem Gains.none {old new : Checker} {scope : ScopeId} (beside : old.Beside new) :
    old.Gains new scope [] := by
  obtain ⟨position, rfl⟩ := beside
  intro _
  rw [List.append_nil]
  rfl

/-- What a scope gains in two steps it gains in order. -/
theorem Gains.append {first second third : Checker} {scope : ScopeId} {types others : List Ty}
    (early : first.Gains second scope types) (late : second.Gains third scope others)
    (extended : second.Extends third) : first.Gains third scope (types ++ others) := by
  intro silent
  rw [late silent, early (extended.quiet silent), List.append_assoc]

end Checker

/-- Every type of the list is scalar. -/
def Scalars (types : List Ty) : Prop :=
  ∀ type ∈ types, ∃ specifier indirection, type = .scalar specifier indirection

namespace Reading

variable {start : Checker}

/-- A parameter is a scalar that its scope gains. -/
theorem carries_parameter (inner : start.current ≠ unitScope) :
    Carries start parameter fun type checker =>
      Scalars [type] ∧ start.Gains checker start.current [type] := by
  refine .idle idle_specifier fun specifier => .idle idle_stars fun indirection =>
    .idle idle_name fun name => ?_
  -- The declaration either enters the parameter or reports that the name is taken.
  have declares : Carries start
      (act (Checker.declareVariable name (.scalar specifier indirection)))
      fun _ checker => start.Gains checker start.current [.scalar specifier indirection] := by
    refine .act (fun checker => Checker.extends_declareVariable checker _ _)
      (fun _ kept => kept.declareVariable name (by simp)) ?_
    intro checker here sound silent
    have same : checker.current = start.current := here.extends.current
    have gained := Checker.types_declareVariable sound (by rwa [same]) silent
    obtain ⟨position, rfl⟩ := here
    exact gained
  intro sound reader value next here done
  obtain ⟨_, state, begun, done⟩ := bind_ok done
  obtain ⟨_, begun⟩ := discard_ok begun
  obtain ⟨extended, kept, gains⟩ := declares sound _ _ _ here begun
  obtain ⟨rfl, rfl⟩ := pure_ok done
  exact ⟨extended, kept, by simp [Scalars], gains⟩

/-- A parameter and those that follow it are scalars that their scope gains in order. -/
theorem carries_consParameter {checker : Checker} {first : Ty}
    {others : Reading (List Ty × Bool)} (extended : start.Extends checker)
    (holds : Scalars [first] ∧ start.Gains checker start.current [first])
    (rest : Carries checker others fun read later =>
      Scalars read.1 ∧ checker.Gains later checker.current read.1) :
    Carries checker (do
      let further ← others
      return (first :: further.1, further.2)) fun read later =>
        Scalars read.1 ∧ start.Gains later start.current read.1 := by
  -- The further parameters are gained behind the first one, in the same scope.
  intro sound reader value next here done
  obtain ⟨further, state, begun, done⟩ := bind_ok done
  obtain ⟨grown, kept, scalars, gains⟩ := rest sound _ _ _ here begun
  obtain ⟨rfl, rfl⟩ := pure_ok done
  rw [extended.current] at gains
  refine ⟨grown, kept, ?_, holds.2.append gains grown⟩
  intro type member
  rcases List.mem_cons.mp member with rfl | member
  · exact holds.1 _ (by simp)
  · exact scalars type member

/-- Parameters after the first one are scalars that their scope gains in order. -/
theorem carries_furtherParameters (inner : start.current ≠ unitScope) (clock : List Token) :
    Carries start (furtherParameters clock) fun read checker =>
      Scalars read.1 ∧ start.Gains checker start.current read.1 := by
  -- Each turn of the clock reads a comma and a parameter, or the dots that end the list.
  induction clock generalizing start with
  | nil =>
    unfold furtherParameters
    refine .idle idle_kind fun found => ?_
    split
    · exact .unexpected
    · exact .settle fun _ here => ⟨by simp [Scalars], .none here⟩
  | cons _ clock ih =>
    unfold furtherParameters
    refine .idle idle_kind fun found => ?_
    split
    · refine .idle idle_advance.discard fun _ => .idle idle_kind fun follows => ?_
      split
      · refine .idle idle_advance.discard fun _ => ?_
        exact .settle fun _ here => ⟨by simp [Scalars], .none here⟩
      · refine .bind (carries_parameter inner) fun first checker extended holds => ?_
        exact carries_consParameter extended holds (ih (by rwa [extended.current]))
    · exact .settle fun _ here => ⟨by simp [Scalars], .none here⟩

/-- Parameters are scalars that their scope gains in order. -/
theorem carries_parameterList (inner : start.current ≠ unitScope) :
    Carries start parameterList fun read checker =>
      Scalars read.1 ∧ start.Gains checker start.current read.1 := by
  unfold parameterList
  refine .idle idle_kind fun found => ?_
  split
  · refine .idle idle_advance.discard fun _ => ?_
    exact .settle fun _ here => ⟨by simp [Scalars], .none here⟩
  · refine .bind (carries_parameter inner) fun first checker extended holds => ?_
    refine .get fun _ _ => carries_consParameter extended holds ?_
    exact carries_furtherParameters (by rwa [extended.current]) _

/-- A signature has been read, and the scope of its parameters is open. -/
structure Signed (start next : Checker) (specifier : Specifier) (indirection : Nat)
    (parameters : List Ty) (scope : ScopeId) : Prop where
  /-- Nothing is lost. -/
  grows : start.Grows next
  /-- The checker stays sound. -/
  sound : next.Sound
  /-- The scope is newer than all that came before. -/
  fresh : start.symbols.scopes.length ≤ scope
  /-- The scope is not that of the unit. -/
  inner : scope ≠ unitScope
  /-- The scope is the innermost one in force. -/
  current : next.current = scope
  /-- Parameters are scalars. -/
  scalars : Scalars parameters
  /-- In silence, the scope holds the parameters and nothing else. -/
  placed : next.reports = [] → (next.symbols.symbolsOf scope).map Symbol.type = parameters

/-- Looking past tokens leaves a signature as it is. -/
theorem Signed.beside {next later : Checker} {specifier : Specifier} {indirection : Nat}
    {parameters : List Ty} {scope : ScopeId}
    (signed : Signed start next specifier indirection parameters scope)
    (beside : next.Beside later) : Signed start later specifier indirection parameters scope where
  grows := signed.grows.trans beside.extends.toGrows
  sound := beside.sound signed.sound
  fresh := signed.fresh
  inner := signed.inner
  current := beside.extends.current.trans signed.current
  scalars := signed.scalars
  placed := by
    obtain ⟨position, rfl⟩ := beside
    exact signed.placed

/-- A signature that is read opens the scope of its parameters. -/
theorem signature_signed {specifier : Specifier} {indirection : Nat} {reader next : Reader}
    {type : Ty} {scope : ScopeId} (sound : start.Sound) (here : start.Beside reader.checker)
    (done : signature specifier indirection reader = .ok (type, scope) next) :
    ∃ parameters variadic, type = .function specifier indirection parameters variadic ∧
      Signed start next.checker specifier indirection parameters scope := by
  obtain ⟨opened, state, begun, done⟩ := bind_ok done
  obtain ⟨named, opening⟩ := act_ok begun
  obtain ⟨parameters, last, listed, done⟩ := bind_ok done
  obtain ⟨same, rfl⟩ := pure_ok done
  cases same
  have soundHere := here.sound sound
  have current : state.checker.current = scope := by
    rw [opening, named]
    rfl
  -- The new scope comes after all others, and so after that of the unit.
  have number : scope = start.symbols.scopes.length := by
    obtain ⟨position, moved⟩ := here
    rw [named, moved]
    rfl
  have inner : scope ≠ unitScope := by
    rw [number]
    exact Nat.ne_of_gt sound.rooted
  have settled : state.checker.Sound := by
    rw [opening]
    exact soundHere.openScope
  obtain ⟨extended, kept, scalars, gains⟩ :=
    carries_parameterList (by rwa [current]) settled _ _ _ (.refl _) listed
  have opens : start.Grows state.checker := by
    refine here.extends.toGrows.trans ?_
    rw [opening]
    exact ⟨id, SymbolTable.keeps_openScope _⟩
  refine ⟨parameters.1, parameters.2, rfl, opens.trans extended.toGrows, kept, Nat.le_of_eq number.symm,
    inner, extended.current.trans current, scalars, ?_⟩
  intro silent
  have gained := gains silent
  rw [current] at gained
  have empty : state.checker.symbols.symbolsOf scope = [] := by
    rw [opening]
    show reader.checker.symbols.openScope.2.symbolsOf scope = []
    rw [SymbolTable.symbolsOf_openScope]
    refine SymbolTable.symbolsOf_absent ?_
    obtain ⟨position, moved⟩ := here
    rw [moved, number]
    exact Nat.le_refl _
  simpa [empty] using gained

end Reading

end SmallC
