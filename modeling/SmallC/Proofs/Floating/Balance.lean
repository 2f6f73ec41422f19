import SmallC.Proofs.Floating.Stack
import SmallC.Proofs.Lowering.Subjects

/-! Balance: every site of a typed function starts and ends with no values on the floating-point
stack. -/

namespace SmallC

namespace Site

/-- A site as it stands in a function of the returned type whose end has the label: only a return
goes there, with a value of that type. -/
def Regular (returned : Ty) (exit : Label) : Site → Prop
  | .node expression _ => expression.isDecision = false
  | .test _ _ opcode target => (opcode = .je ∨ opcode = .jne) ∧ target ≠ exit
  | .settle _ _ progress => progress.skip.label ≠ exit
  | .jump label => label ≠ exit
  | .give value _ label => value.type = returned.promote ∧ label = exit
  | .enter .. | .bind .. | .store .. | .mark _ => True

end Site

namespace Site

/-- Only a return goes to the end of the function, with its second instruction. -/
theorem Regular.give {site : Site} {returned : Ty} {exit : Label} (regular : site.Regular returned exit)
    {offset : Nat} (here : site.code[offset]? = some (operate .jmp [.target exit])) :
    ∃ value progress, site = .give value progress exit ∧ offset = 1 := by
  -- Straight code jumps nowhere, which leaves the sites that jump by themselves.
  have absent {code : Code} (straight : Straight code) :
      operate .jmp [.target exit] ∉ code := fun member => nomatch straight _ member
  have member := List.mem_of_getElem? here
  cases site with
  | node expression progress =>
    exact absurd member (absent (Expression.shaped_own progress regular).straight)
  | test value progress opcode target =>
    rcases List.mem_append.mp member with early | last
    · exact absurd early (absent (straight_compareZero _ _))
    · obtain ⟨rfl | rfl, -⟩ := regular <;> simp [operate] at last
  | settle either type progress =>
    simp only [code, operate, List.mem_cons, Item.code.injEq, Instruction.mk.injEq, reduceCtorEq,
      false_and, true_and, or_false, false_or, List.not_mem_nil, List.cons.injEq, and_true,
      Argument.target.injEq] at member
    exact absurd member.symm regular
  | store left right progress => exact absurd member (absent (straight_storeValue _ _ _ _))
  | jump label =>
    simp only [code, operate, List.mem_singleton, Item.code.injEq, Instruction.mk.injEq, true_and,
      List.cons.injEq, and_true, Argument.target.injEq] at member
    exact absurd member.symm regular
  | give value progress label =>
    obtain ⟨-, rfl⟩ := regular
    refine ⟨value, progress, rfl, ?_⟩
    rcases offset with - | - | offset
    · exact absurd (List.mem_singleton.mpr (Option.some.inj here).symm)
        (absent (straight_loadReturned value.type (value.lowered progress).value))
    · rfl
    · cases here
  | mark label => cases List.mem_singleton.mp member
  | enter | bind => cases member

end Site

/-- A label that is handed out later is another one. -/
theorem Label.ne_of_later {label exit : Label} {bound : Nat} (new : bound ≤ label.number)
    (before : exit.number < bound) : label ≠ exit := by
  rintro rfl
  omega

variable {returned : Ty} {exit : Label}

/-- The own sites of a node go to labels of its own. -/
theorem Expression.Owns.regular {node : Expression} {progress : Progress} {site : Site}
    (owns : node.Owns progress site) (before : exit.number < progress.nextLabel) :
    site.Regular returned exit := by
  -- The labels of a node are new, and that of the end is older than all of them.
  have decided : progress.label ≠ exit := Label.ne_of_later (Nat.le_refl _) before
  have skipped : progress.skip.label ≠ exit := Label.ne_of_later (Nat.le_succ _) before
  have jumps (either : Bool) : (if either then Opcode.jne else .je) = .je ∨
      (if either then Opcode.jne else .je) = .jne := by cases either <;> simp
  cases owns with
  | node strict => exact strict
  | enter => trivial
  | left | right => exact ⟨jumps _, decided⟩
  | settle => exact skipped

/-- The own sites of a typed statement go to the end of the function only where it returns. -/
theorem Statement.Owns.regular {statement : Statement} {exits : Exits} {progress : Progress}
    {site : Site} {symbols : SymbolTable} {looping : Bool} (owns : statement.Owns exits progress site)
    (typed : statement.Typed symbols returned looping)
    (before : exits.function.number < progress.nextLabel)
    (apart : exits.loop? ≠ some exits.function) : site.Regular returned exits.function := by
  cases owns with
  | store | bind | mark => trivial
  | give same =>
    subst same
    cases typed with
    | returnValue _ same => exact ⟨same, rfl⟩
  | test _ _ new => exact ⟨.inl rfl, Label.ne_of_later new before⟩
  -- A jump goes to a new label or leaves the loop, whose label is not that of the end.
  | jump goes =>
    rcases goes with new | around
    · exact Label.ne_of_later new before
    · exact fun same => apart (same ▸ around)

/-- Values are returned on the floating-point stack as the declared type says. -/
theorem Ty.floats_promote (specifier : Specifier) (indirection : Nat) :
    (Ty.scalar specifier indirection).promote.floats = (Ty.scalar specifier indirection).floats := by
  cases specifier <;> cases indirection <;> rfl

namespace Convention

variable {convention : Convention}

/-- The calls of a site leave what the types of their results say. -/
def Keeps (convention : Convention) (site : Site) : Prop :=
  ∀ callee arguments type progress, site = .node (.call callee arguments type) progress →
    convention.leaves (progress.symbols.nameOf callee) = type.floats

/-- The own code of a node leaves nothing behind. -/
theorem balanced_own {expression : Expression} {progress : Progress}
    (strict : expression.isDecision = false)
    (keeps : convention.Keeps (.node expression progress)) :
    convention.Balanced (expression.own progress) := by
  -- What a node reads of its parts lies in memory, so it holds nothing before and behind.
  cases expression with
  | integer | real | string | identifier => simp [balanced_nil]
  | call callee arguments type =>
    rw [Expression.own_call]
    exact (balanced_passArguments _ _).append (balanced_storeReturned (keeps _ _ _ _ rfl) _)
  | unary op operand type =>
    cases op with
    | not =>
      rw [Expression.own_not]
      exact (balanced_compareZero _ _).append (balanced_storeCondition (fun _ => rfl) _)
    | negate =>
      rw [Expression.own_negate]
      exact balanced_negation _ _ _ _
    | dereference =>
      rw [Expression.own_dereference]
      exact (balanced_copyPointed _ _).after rfl
    | address =>
      rw [Expression.own_address]
      exact (balanced_loadAddress _).append (by rfl)
    | cast =>
      rw [Expression.own_cast]
      exact balanced_convertValue _ _ _ _ _
  | step op scale operand type =>
    rw [Expression.own_step]
    exact (balanced_resolve _).append (balanced_stepTarget _ _ _ _ _)
  | binary op left right type =>
    rw [Expression.own_binary _ strict]
    exact balanced_operateOn _ _ _ _ _ _ _

/-- A jump elsewhere than to the end of the function needs an empty stack. -/
theorem balanced_jump {label : Label} (other : label ≠ convention.exit) :
    convention.Balanced [operate .jmp [.target label]] := by
  simp [Balanced, counts, count, operate, pass, other]

/-- So does a conditional jump. -/
theorem balanced_branch {opcode : Opcode} {label : Label} (conditional : opcode = .je ∨ opcode = .jne)
    (other : label ≠ convention.exit) :
    convention.Balanced [operate opcode [.target label]] := by
  rcases conditional with rfl | rfl <;> simp [Balanced, counts, count, operate, pass, other]

/-- The code of a site leaves nothing behind. -/
theorem balanced_site {site : Site} {returned : Ty} (regular : site.Regular returned convention.exit)
    (brings : returned.promote.floats = convention.returned) (keeps : convention.Keeps site) :
    convention.Balanced site.code := by
  -- Only a return may leave a value, and it goes to the end of the function with it.
  cases site with
  | node expression progress => exact balanced_own regular keeps
  | test value progress opcode target =>
    exact (balanced_compareZero _ _).append (balanced_branch regular.1 regular.2)
  | settle either type progress =>
    have jumps : convention.Balanced [operate .jmp [.target progress.skip.label]] :=
      balanced_jump regular
    exact Balanced.after (jumps.append (by rfl)) rfl
  | store left right progress => exact balanced_storeValue _ _ _ _
  | give value progress label =>
    obtain ⟨same, rfl⟩ := regular
    exact balanced_give (same ▸ brings) _
  | mark label => rfl
  | jump label => exact balanced_jump regular
  | enter | bind => rfl

/-- Sites that leave nothing behind leave nothing behind together. -/
theorem balanced_codeAt {sites : List Site} (each : ∀ site ∈ sites, convention.Balanced site.code) :
    convention.Balanced (codeAt sites) := by
  induction sites with
  | nil => rfl
  | cons first rest ih =>
    rw [codeAt_cons]
    exact (each first (by simp)).append (ih fun site member => each site (by simp [member]))

end Convention

end SmallC
