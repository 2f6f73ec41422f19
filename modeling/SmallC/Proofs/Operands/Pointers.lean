import SmallC.Proofs.Operands.Sites
import SmallC.Proofs.Words.Straight

/-! What pointers lead to: every access by way of a register comes after the pointer has been loaded
there, and nothing in between changes the register. -/

namespace SmallC

/-- The word register that a register is part of. -/
def Register.whole : Register → Register
  | .al | .ax => .eax
  | .cl => .ecx
  | register => register

/-- The registers that an operation changes without naming them. -/
def Opcode.changed : Opcode → List Register
  | .call => [.eax, .ecx, .edx]
  | .idivl => [.eax, .edx]
  | .cltd => [.edx]
  | .pushl | .popl | .ret => [.esp]
  | _ => []

/-- The register that an instruction names last, where most leave their results. -/
def Instruction.target? (instruction : Instruction) : Option Register :=
  match instruction.arguments.getLast? with
  | some (.register named) => some named.whole
  | _ => none

/-- Whether an item is an instruction behind which the next one runs with the same word in the
register. -/
def Item.spares (register : Register) : Item → Bool
  | .code instruction => !instruction.opcode.jumps && !instruction.opcode.changed.contains register
    && !(instruction.target? == some register)
  | _ => false

/-- Whether an item names what the pointer in a register leads to. -/
def Item.follows (register : Register) : Item → Bool
  | .code instruction => instruction.memory.contains (.indirect register)
  | _ => false

/-! The machine keeps what is spared. -/

namespace Processor

variable {layout : Layout} {register : Register}

theorem word_putWord {state next : Processor} {value : BitVec 32} {target : Argument}
    (other : ∀ named, target = .register named → named.whole ≠ register)
    (put : state.putWord? layout value target = some next) :
    next.word? register = state.word? register := by
  -- A word goes to a register, which must be another one, or into memory.
  cases target with
  | register named =>
    have differ := other named rfl
    cases named <;> cases put <;> cases register <;> first | rfl | exact absurd rfl differ
  | operand place =>
    obtain ⟨address, -, rfl⟩ := Option.map_eq_some_iff.mp put
    cases register <;> rfl
  | target | callee | frameSize => cases put

theorem word_putByte {state next : Processor} {value : BitVec 8} {target : Argument}
    (other : ∀ named, target = .register named → named.whole ≠ register)
    (put : state.putByte? layout value target = some next) :
    next.word? register = state.word? register := by
  -- A byte goes to part of a register, which must be another one, or into memory.
  cases target with
  | register named =>
    have differ := other named rfl
    cases named <;> cases put <;> cases register <;> first | rfl | exact absurd rfl differ
  | operand place =>
    obtain ⟨address, -, rfl⟩ := Option.map_eq_some_iff.mp put
    cases register <;> rfl
  | target | callee | frameSize => cases put

theorem word_change {state next : Processor} {operation : BitVec 32 → BitVec 32} {target : Argument}
    (other : ∀ named, target = .register named → named.whole ≠ register)
    (changed : state.change? layout operation target = some next) :
    next.word? register = state.word? register := by
  unfold change? at changed
  obtain ⟨old, -, put⟩ := Option.bind_eq_some_iff.mp changed
  refine (word_putWord other put).trans ?_
  cases register <;> rfl

/-- An instruction that spares a register leaves the word in it. -/
theorem word_act {state next : Processor} {instruction : Instruction}
    (spares : (Item.code instruction).spares register = true)
    (acted : state.act? layout instruction = some next) :
    next.word? register = state.word? register := by
  simp only [Item.spares, Bool.and_eq_true, Bool.not_eq_true'] at spares
  obtain ⟨⟨-, unchanged⟩, untargeted⟩ := spares
  -- What is named last is another register, if it is one at all.
  have other {target : Argument} {before : List Argument}
      (listed : instruction.arguments = before ++ [target]) :
      ∀ named, target = .register named → named.whole ≠ register := by
    rintro named rfl rfl
    simp [Instruction.target?, listed] at untargeted
  unfold act? at acted
  split at acted <;> rename_i operation listed
  -- Moves, with or without widening, and addresses write a word.
  case h_1 | h_3 | h_4 | h_5 =>
    obtain ⟨value, -, put⟩ := Option.bind_eq_some_iff.mp acted
    exact word_putWord (@other _ [_] listed) put
  -- The one move of a byte writes into part of a register.
  case h_2 =>
    obtain ⟨value, -, put⟩ := Option.bind_eq_some_iff.mp acted
    exact word_putByte (@other _ [_] listed) put
  -- Sums, differences and products change the word that is named last.
  case h_6 | h_7 | h_8 =>
    obtain ⟨value, -, changed⟩ := Option.bind_eq_some_iff.mp acted
    exact word_change (@other _ [_] listed) changed
  case h_9 => exact word_change (@other _ [] listed) acted
  case h_10 =>
    -- Widening the dividend changes the third register.
    cases acted
    rw [operation] at unchanged
    cases register <;> first | rfl | cases unchanged
  case h_11 =>
    -- Dividing changes the first and the third register.
    obtain ⟨divisor, -, divided⟩ := Option.bind_eq_some_iff.mp acted
    unfold divide? at divided
    dsimp only at divided
    rw [operation] at unchanged
    split at divided
    · cases divided
    · cases divided
      cases register <;> first | rfl | cases unchanged
  -- A comparison only notes its operands.
  case h_12 =>
    obtain ⟨right, -, compared⟩ := Option.bind_eq_some_iff.mp acted
    obtain ⟨left, -, same⟩ := Option.bind_eq_some_iff.mp compared
    cases same
    cases register <;> rfl
  -- What a comparison comes to is written as a byte.
  case h_13 =>
    obtain ⟨flags, -, noted⟩ := Option.bind_eq_some_iff.mp acted
    obtain ⟨holds, -, put⟩ := Option.bind_eq_some_iff.mp noted
    exact word_putByte (@other _ [] ‹instruction.arguments = [_]›) put
  case h_14 => cases acted

end Processor

/-- Code that spares a register leaves the word in it. -/
theorem word_execute {layout : Layout} {register : Register} {code : Code}
    {before after : Processor} (spares : ∀ item ∈ code, item.spares register = true)
    (executed : layout.execute code before = some after) :
    after.word? register = before.word? register := by
  -- Along the code, every instruction leaves the word that the one before it has left.
  induction code generalizing before with
  | nil =>
    cases executed
    rfl
  | cons item rest ih =>
    rw [List.forall_mem_cons] at spares
    cases item with
    | code instruction =>
      obtain ⟨between, acted, executed⟩ := Option.bind_eq_some_iff.mp executed
      exact (ih spares.2 executed).trans (Processor.word_act spares.1 acted)
    | _ => cases spares.1

/-! Accesses come after loads. -/

/-- A register holds until the last access by way of it. -/
def Holds (register : Register) : Code → Bool
  | [] => true
  | item :: rest =>
    item.spares register && Holds register rest || rest.all fun item => !item.follows register

@[simp] theorem follows_operate {register : Register} {opcode : Opcode}
    {arguments : List Argument} : (operate opcode arguments).follows register = true ↔
      .operand (.indirect register) ∈ arguments := by
  simp only [operate, Item.follows, List.contains_iff_mem, Instruction.mem_memory]
  exact and_iff_left rfl

/-- Whatever comes before an access spares the register. -/
theorem spares_of_holds {register : Register} {before after : Code} {item : Item}
    (holds : Holds register (before ++ item :: after) = true)
    (follows : item.follows register = true) : ∀ earlier ∈ before, earlier.spares register = true := by
  induction before with
  | nil => simp
  | cons first rest ih =>
    simp only [List.cons_append, Holds, Bool.or_eq_true, Bool.and_eq_true, List.all_append,
      List.all_cons, Bool.not_eq_true'] at holds
    -- Otherwise there would be no access any more, but the item is one.
    rcases holds with ⟨spares, holds⟩ | ⟨-, last, -⟩
    · exact List.forall_mem_cons.mpr ⟨spares, ih holds⟩
    · rw [follows] at last
      cases last

/-- What comes behind a stretch and one more item comes behind a longer stretch. -/
theorem split_behind {α : Type} {early rest before after : List α} {load item : α}
    (split : early ++ load :: rest = before ++ item :: after) (outside : item ∉ early)
    (other : item ≠ load) :
    ∃ between, before = early ++ load :: between ∧ rest = between ++ item :: after := by
  -- The item is not in the first stretch, so both lists agree along all of it.
  induction early generalizing before with
  | nil =>
    cases before with
    | nil => exact absurd (List.cons.inj split).1.symm other
    | cons first tail =>
      obtain ⟨rfl, rest⟩ := List.cons.inj split
      exact ⟨tail, rfl, rest⟩
  | cons first tail ih =>
    cases before with
    | nil => exact absurd (by rw [(List.cons.inj split).1]; exact List.mem_cons_self ..) outside
    | cons other' others =>
      obtain ⟨rfl, later⟩ := List.cons.inj split
      obtain ⟨between, rfl, rest⟩ := ih later (List.not_mem_of_not_mem_cons outside)
      exact ⟨between, rfl, rest⟩

/-- In the code of a site a register leads somewhere only after a pointer that the site reads has
been loaded there, and it still holds the pointer. -/
structure Site.Loads (site : Site) (register : Register) (before : Code) : Prop where
  /-- Pointers are followed by way of the first two registers. -/
  named : register = .eax ∨ register = .ecx
  /-- The load is in the same code, and everything between spares the register. -/
  loaded : ∃ early between, ∃ pointer ∈ site.consumed,
    (∃ specifier indirection, pointer.1.type = .scalar specifier (indirection + 1)) ∧
    before = early ++
      operate .movl [.operand (pointer.1.lowered pointer.2).value, .register register] :: between ∧
    ∀ item ∈ between, item.spares register = true

/-- When the machine comes to such an access, the address is the word that it has read as the
pointer. -/
theorem Site.Loads.address {site : Site} {register : Register} {before : Code}
    (loads : site.Loads register before) {layout : Layout} {state next : Processor}
    (executed : layout.execute before state = some next) :
    ∃ pointer ∈ site.consumed, ∃ early rest middle, before = early ++ rest ∧
      layout.execute early state = some middle ∧
      next.address? layout (.indirect register) =
        middle.getWord? layout (.operand (pointer.1.lowered pointer.2).value) := by
  obtain ⟨named, early, between, pointer, listed, -, rfl, spares⟩ := loads
  -- The run is cut where the pointer is loaded, and what follows spares the register.
  rw [execute_append] at executed
  obtain ⟨middle, began, executed⟩ := Option.bind_eq_some_iff.mp executed
  refine ⟨pointer, listed, early, _, middle, rfl, began, ?_⟩
  rw [execute_operate] at executed
  obtain ⟨loaded, acted, executed⟩ := Option.bind_eq_some_iff.mp executed
  obtain ⟨word, read, put⟩ := Option.bind_eq_some_iff.mp acted
  show next.word? register = _
  rw [word_execute spares executed, read]
  rcases named with rfl | rfl <;> cases put <;> rfl

/-- Every access of a site by way of a register comes after the pointer has been loaded. -/
def Site.Guarded (site : Site) : Prop :=
  ∀ before instruction after register, site.code = before ++ .code instruction :: after →
    .indirect register ∈ instruction.memory → site.Loads register before

/-- No computed value is behind a register. -/
theorem Expression.value_ne_indirect (expression : Expression) (progress : Progress)
    (register : Register) : (expression.lowered progress).value ≠ .indirect register := by
  have shown := expression.shown progress
  generalize (expression.lowered progress).value = value at shown
  cases shown <;> simp [immediate]

theorem Uses.through {values : List (Expression × Progress)} {through : Option Register}
    {opcode : Opcode} {register : Register}
    (uses : Uses values through opcode (.indirect register)) : through = some register := by
  generalize same : Operand.indirect register = operand at uses
  cases uses with
  | frame | outgoing => cases same
  | indirect pointed =>
    cases same
    exact pointed
  | value => exact absurd same.symm (Expression.value_ne_indirect _ _ _)

/-- Where nothing leads anywhere there is nothing to load. -/
theorem guarded_of_none {site : Site}
    (formed : Formed site.consumed site.through site.callee? site.code) (nowhere : site.through = none) : site.Guarded := by
  intro before instruction after register split named
  have used : Instruction.Formed site.consumed site.through site.callee? instruction :=
    formed (.code instruction) (by rw [split]; simp)
  have through := (used.uses _ named).through
  rw [nowhere] at through
  cases through

/-- A site that loads a pointer into a register and then follows it is guarded. -/
theorem guarded_of_load {site : Site} {register : Register} {early rest : Code}
    {pointer : Expression × Progress}
    (formed : Formed site.consumed site.through site.callee? site.code)
    (leads : site.through = some register) (named : register = .eax ∨ register = .ecx)
    (listed : pointer ∈ site.consumed)
    (pointing : ∃ specifier indirection, pointer.1.type = .scalar specifier (indirection + 1))
    (code : site.code = early ++ operate .movl
      [.operand (pointer.1.lowered pointer.2).value, .register register] :: rest)
    (free : ∀ item ∈ early, item.follows register = false) (holds : Holds register rest = true) :
    site.Guarded := by
  intro before instruction after other split memory
  have used : Instruction.Formed site.consumed site.through site.callee? instruction :=
    formed (.code instruction) (by rw [split]; simp)
  obtain rfl : register = other := by
    have through := (used.uses _ memory).through
    rw [leads] at through
    exact Option.some.inj through
  have follows : (Item.code instruction).follows register = true := List.contains_iff_mem.mpr memory
  rw [code] at split
  obtain ⟨between, rfl, rfl⟩ := split_behind split
    (fun inside => by rw [free _ inside] at follows; cases follows)
    (fun same => by
      -- The load itself reads the pointer from where it has been computed.
      rw [same, follows_operate] at follows
      simp only [List.mem_cons, Argument.operand.injEq, reduceCtorEq, List.not_mem_nil, or_false]
        at follows
      exact Expression.value_ne_indirect _ _ _ follows.symm)
  exact ⟨named, early, between, pointer, listed, pointing, rfl, spares_of_holds holds follows⟩

/-- What a pointer leads to is copied at once. -/
theorem holds_copyPointed (type : Ty) (offset : Int) :
    Holds .eax (copyPointed type (.frame offset)) = true := by
  unfold copyPointed
  dsimp only
  split <;> rfl

/-- A step works in the first register, and the pointer stays in the second one. -/
theorem holds_stepTarget (op : StepOp) (scale : Nat) (type : Ty) (offset : Int) :
    Holds .ecx (stepTarget op scale type (.indirect .ecx) (.frame offset)) = true := by
  cases op <;> unfold stepTarget <;> dsimp only <;> split <;> rfl

/-- A value is in hand before the pointer to its place is loaded. -/
theorem storeValue_indirect (type : Ty) (pointer : Operand) {value : Operand} {register : Register}
    (other : value ≠ .indirect register) :
    ∃ early rest, storeValue type type (.indirect pointer) value =
        early ++ operate .movl [.operand pointer, .register .ecx] :: rest ∧
      (∀ item ∈ early, item.follows register = false) ∧ Holds .ecx rest = true := by
  have free {item : Item} (reads : ¬ item.follows register = true) :
      item.follows register = false := Bool.eq_false_iff.mpr reads
  have differ := Ne.symm other
  unfold storeValue
  dsimp only
  -- Each width has one instruction that brings the value, and none of them reads the register.
  split
  · exact ⟨[operate .fldl [.operand value]], _, rfl, by simp [free, differ], rfl⟩
  · exact ⟨[operate .movb [.operand value, .register .al]], _, rfl, by simp [free, differ], rfl⟩
  · exact ⟨[load value (.of type) .eax], _, rfl, by unfold load; split <;> simp [free, differ], rfl⟩

/-- Every access of a checked site by way of a register comes after the pointer has been loaded. -/
theorem Site.Checked.guarded {symbols : SymbolTable} {site : Site}
    (checked : site.Checked symbols) : site.Guarded := by
  have formed := checked.formed
  cases leads : site.through with
  | none => exact guarded_of_none formed leads
  | some register =>
    -- Only three kinds of site lead anywhere.
    unfold through at leads
    split at leads
    · next pointer type progress =>
      cases leads
      have code : (Site.node (.unary .dereference pointer type) progress).code = [] ++
          operate .movl [.operand (pointer.lowered progress).value, .register .eax] ::
            copyPointed type ((Expression.unary .dereference pointer type).result progress) :=
        Expression.own_dereference progress pointer type
      exact guarded_of_load formed rfl (.inl rfl) (List.mem_singleton_self _) checked.1.followed.2
        code (by simp) (holds_copyPointed type _)
    · next op scale pointer pointed type progress =>
      cases leads
      have code : (Site.node (.step op scale (.unary .dereference pointer pointed) type)
          progress).code = [] ++
          operate .movl [.operand (pointer.lowered progress).value, .register .ecx] ::
            stepTarget op scale pointed (.indirect .ecx)
              ((Expression.step op scale (.unary .dereference pointer pointed) type).result
                progress) :=
        Expression.own_step progress op scale _ type
      have pointing :
          ∃ specifier indirection, pointer.type = .scalar specifier (indirection + 1) := by
        obtain ⟨typed, -⟩ := checked
        cases typed with
        | step _ typed => exact typed.followed.2
      exact guarded_of_load formed rfl (.inr rfl) (List.mem_singleton_self _) pointing code
        (by simp) (holds_stepTarget op scale pointed _)
    · next pointer pointed right progress =>
      cases leads
      obtain ⟨place, -, -, same⟩ := checked
      obtain ⟨early, rest, stored, free, holds⟩ := storeValue_indirect pointed
        (pointer.lowered (right.after progress)).value
        (Expression.value_ne_indirect right progress .ecx)
      have code : (Site.store (.unary .dereference pointer pointed) right progress).code = early ++
          operate .movl [.operand (pointer.lowered (right.after progress)).value, .register .ecx] ::
            rest := by
        rw [Site.code, same]
        exact stored
      exact guarded_of_load formed rfl (.inr rfl)
        (List.mem_cons_of_mem _ (List.mem_singleton_self _)) place.followed.2 code free holds
    · cases leads

end SmallC
