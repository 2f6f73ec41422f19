import SmallC.Proofs.Assembly.Chunks
import SmallC.Proofs.Lowering.Mentions
import SmallC.Proofs.Operands.Acceptance

/-! Names in assembly: a site of a function shows the function that is called there and the symbols of
the unit whose values are read there, each by its name at the end of the source. -/

namespace SmallC

namespace Expression

/-- The values of parts are those that are begun for them. -/
theorem mem_loweredAll {expressions : List Expression} {progress : Progress} {part : Lowered}
    (listed : part ∈ loweredAll expressions progress) :
    ∃ value ∈ begun expressions progress, part = value.1.lowered value.2 := by
  induction expressions generalizing progress with
  | nil => cases listed
  | cons first rest ih =>
    rw [loweredAll_cons] at listed
    -- The parts are begun one behind the other, each with the progress that those before have left.
    rcases List.mem_cons.mp listed with rfl | later
    · exact ⟨_, List.mem_cons_self, rfl⟩
    · obtain ⟨value, begun, same⟩ := ih later
      exact ⟨value, List.mem_cons_of_mem _ begun, same⟩

end Expression

namespace Site

/-- What an instruction at a site names. -/
inductive Names (site : Site) : Opcode → Argument → Prop where
  /-- Nothing that is global. -/
  | plain {opcode : Opcode} {argument : Argument} (other : opcode ≠ .call)
    (nothing : argument.shown? = none) : Names site opcode argument
  /-- A value that is read there. -/
  | value {opcode : Opcode} {value : Expression × Progress} (other : opcode ≠ .call)
    (read : value ∈ site.consumed) :
    Names site opcode (.operand (value.1.lowered value.2).value)
  /-- The function that is called there. -/
  | callee {callee : SymbolId} {arguments : List Expression} {type : Ty} {progress : Progress}
    (here : site = .node (.call callee arguments type) progress) :
    Names site .call (.callee (progress.symbols.nameOf callee))

theorem common_names (site : Site) : Common site.Names where
  register _ _ other := .plain other rfl
  target _ _ other := .plain other rfl
  immediate _ _ other := .plain other rfl
  frame _ _ other := .plain other rfl
  indirect _ _ other := .plain other rfl
  outgoing _ _ other := .plain other rfl

section Cases

variable {site : Site} {opcode : Opcode} {argument : Argument} {role : Role} {name : String}

/-- A call names its target, which nothing else does. -/
theorem Names.call_iff (names : site.Names opcode argument) :
    opcode = .call ↔ ∃ name, argument = .callee name := by
  cases names with
  | plain other nothing =>
    refine iff_of_false other ?_
    rintro ⟨name, rfl⟩
    cases nothing
  | value other => exact iff_of_false other nofun
  | callee => exact iff_of_true rfl ⟨_, rfl⟩

/-- A value that is a global name is that of an identifier. -/
theorem identifier_of_global {expression : Expression} {progress : Progress}
    (named : (expression.lowered progress).value = .global name) :
    ∃ symbol type, expression = .identifier symbol type := by
  have shown := expression.shown progress
  rw [named] at shown
  cases shown with
  | global symbol type => exact ⟨symbol, type, rfl⟩

/-- What is shown is called there, or it is read there from the storage of the unit. -/
theorem Names.shown (names : site.Names opcode argument)
    (found : argument.shown? = some (role, name)) :
    (role = .callee ∧ ∃ callee arguments type progress,
        site = .node (.call callee arguments type) progress ∧ progress.symbols.nameOf callee = name) ∨
      role = .memory ∧ ∃ symbol type progress, (.identifier symbol type, progress) ∈ site.consumed ∧
        ((Expression.identifier symbol type).lowered progress).value = .global name := by
  -- Only a value read from storage and a callee are shown by name.
  cases names with
  | plain _ nothing =>
    rw [nothing] at found
    cases found
  | @value _ value _ read =>
    obtain ⟨expression, progress⟩ := value
    cases held : (expression.lowered progress).value with
    | global other =>
      rw [held] at found
      cases found
      obtain ⟨symbol, type, rfl⟩ := identifier_of_global held
      exact .inr ⟨rfl, symbol, type, progress, read, held⟩
    | immediate | frame | label | indirect | outgoing =>
      rw [held] at found
      cases found
  | callee here =>
    cases found
    exact .inl ⟨rfl, _, _, _, _, here, rfl⟩

end Cases

/-- A site as it stands in a function: decisions have sites of their own, and jumps are no calls. -/
def Proper : Site → Prop
  | .node expression _ => expression.isDecision = false
  | .test _ _ opcode _ => opcode ≠ .call
  | .enter .. | .settle .. | .bind .. | .store .. | .give .. | .mark _ | .jump _ => True

/-- The code of a site names nothing global but what is read and called there. -/
theorem Proper.mentions {site : Site} (proper : site.Proper) : Mentions site.Names site.code := by
  have common := site.common_names
  -- Whatever the template of a site loads is consumed there.
  have read {value : Expression × Progress} (listed : value ∈ site.consumed) :
      Allowed site.Names (.operand (value.1.lowered value.2).value) :=
    fun _ other => .value other listed
  cases site with
  | node expression progress =>
    refine Expression.mentions_own common proper (fun part listed => ?_) ?_
    · obtain ⟨value, begun, rfl⟩ := Expression.mem_loweredAll listed
      exact read begun
    · rintro callee arguments type rfl
      exact .callee rfl
  | test value progress opcode target =>
    have jumps : opcode ≠ .call := proper
    refine mentions_append.mpr
      ⟨mentions_compareZero common (read (List.mem_singleton_self (value, progress))) _, ?_⟩
    simp [common.target target _ jumps]
  | settle either type progress =>
    unfold code
    simp [immediate, Progress.slot, common.immediate _ _, common.frame _ _, common.target _ _]
  | store left right progress =>
    exact mentions_storeValue common
      (Expression.allowed_located (read (List.mem_cons_of_mem _ (List.mem_singleton_self _))))
      (read (List.mem_cons_self (a := (right, progress)))) _ _
  | give value progress exit =>
    refine mentions_loadReturned common (read (List.mem_singleton_self (value, progress))) _ ?_
    simp [common.target _ _]
  | mark | jump => simp [code, common.target _ _]
  | enter | bind => exact mentions_nil

/-- The names in the code of a site are those of arguments. -/
theorem Proper.names {site : Site} (proper : site.Proper) {role : Role} {name : String}
    (here : (role, name) ∈ site.code.flatMap Item.shown) :
    ∃ opcode argument, site.Names opcode argument ∧ argument.shown? = some (role, name) := by
  obtain ⟨item, listed, inside⟩ := List.mem_flatMap.mp here
  have mentions := proper.mentions item listed
  -- Only instructions show names in the code of a site.
  cases item with
  | code instruction =>
    obtain ⟨argument, named, found⟩ := List.mem_filterMap.mp inside
    exact ⟨_, argument, mentions argument named, found⟩
  | mark => cases inside
  | _ => exact mentions.elim

/-- A call shows the function that it calls. -/
theorem callee_shown {callee : SymbolId} {arguments : List Expression} {type : Ty}
    {progress : Progress} :
    (.callee, progress.symbols.nameOf callee) ∈
      (node (.call callee arguments type) progress).code.flatMap Item.shown := by
  refine List.mem_flatMap.mpr
    ⟨operate .call [.callee (progress.symbols.nameOf callee)], ?_, List.mem_singleton_self _⟩
  rw [code, Expression.own_call]
  exact List.mem_append_right _ List.mem_cons_self

end Site

/-- All sites of a function are proper. -/
theorem Function.proper_sites (function : Function) (table : SymbolTable) (nextLabel : Nat) :
    ∀ site ∈ function.sites table nextLabel, site.Proper := by
  intro site member
  -- Each site belongs to a node or to a statement, which says what it may hold.
  rcases function.origin table nextLabel site member with
    ⟨node, -, progress, -, -, own⟩ | ⟨statement, around, progress, -, own⟩
  · cases own with
    | node strict => exact strict
    | @left either | @right either => cases either <;> exact Opcode.noConfusion
    | enter | settle => trivial
  · cases own with
    | test => exact Opcode.noConfusion
    | store | give | bind | mark | jump => trivial

end SmallC
