import SmallC.Proofs.Lowering.Running
import SmallC.Proofs.Program.Declarations

/-! Progress only grows: labels and places are handed out once, and declarations never change. -/

namespace SmallC

namespace Progress

/-- What is handed out later is new, and symbols change at most their places. -/
structure Advances (old new : Progress) : Prop where
  /-- The same symbols are declared. -/
  alike : old.symbols.Alike new.symbols
  /-- Labels are numbered upwards. -/
  labels : old.nextLabel ≤ new.nextLabel
  /-- Places are handed out downwards. -/
  places : new.frame.offset ≤ old.frame.offset
  /-- Constants are added behind others, under labels handed out meanwhile. -/
  constants : ∃ more, new.literals = old.literals ++ more ∧
    ∀ entry ∈ more, old.nextLabel ≤ entry.1.number ∧ entry.1.number < new.nextLabel

/-- Progress through an expression does not even place symbols. -/
structure Evaluates (old new : Progress) : Prop extends Advances old new where
  /-- The symbols are where they were. -/
  symbols : new.symbols = old.symbols

/-- Progress may stand still. -/
theorem Advances.refl (progress : Progress) : progress.Advances progress :=
  ⟨.refl _, Nat.le_refl _, Int.le_refl _, [], by simp⟩

/-- Progress goes on. -/
theorem Advances.trans {first second third : Progress} (early : first.Advances second)
    (late : second.Advances third) : first.Advances third := by
  -- Constants added later stand behind those added earlier, under higher labels.
  obtain ⟨some, added, within⟩ := early.constants
  obtain ⟨more, joined, after⟩ := late.constants
  have low := early.labels
  have high := late.labels
  refine ⟨early.alike.trans late.alike, Nat.le_trans low high,
    Int.le_trans late.places early.places, some ++ more, ?_, ?_⟩
  · rw [joined, added, List.append_assoc]
  · intro entry member
    rcases List.mem_append.mp member with member | member
    · have := within entry member
      omega
    · have := after entry member
      omega

/-- Progress through nothing places no symbols. -/
theorem Evaluates.refl (progress : Progress) : progress.Evaluates progress :=
  ⟨.refl _, rfl⟩

/-- Progress through expressions goes on. -/
theorem Evaluates.trans {first second third : Progress} (early : first.Evaluates second)
    (late : second.Evaluates third) : first.Evaluates third :=
  ⟨early.toAdvances.trans late.toAdvances, late.symbols.trans early.symbols⟩

variable (progress : Progress)

/-- Taking a place is progress. -/
theorem evaluates_take (type : Ty) : progress.Evaluates (progress.take type) := by
  refine ⟨⟨.refl _, Nat.le_refl _, ?_, [], by simp [take]⟩, rfl⟩
  simp only [take, Frame.allocate]
  omega

/-- Handing out a label is progress. -/
theorem evaluates_skip : progress.Evaluates progress.skip :=
  ⟨⟨.refl _, Nat.le_succ _, Int.le_refl _, [], by simp [skip]⟩, rfl⟩

/-- Keeping a constant is progress. -/
theorem evaluates_keep (value : Literal) : progress.Evaluates (progress.keep value) := by
  refine ⟨⟨.refl _, Nat.le_succ _, Int.le_refl _, [(progress.label, value)], rfl, ?_⟩, rfl⟩
  simp [label, keep, skip]

/-- Leaving room for arguments is progress. -/
theorem evaluates_reserve (bytes : Nat) : progress.Evaluates (progress.reserve bytes) :=
  ⟨⟨.refl _, Nat.le_refl _, Int.le_refl _, [], by simp [reserve]⟩, rfl⟩

/-- Entering a decision is progress. -/
theorem evaluates_enter (type : Ty) : progress.Evaluates (progress.enter type) :=
  (progress.evaluates_skip.trans (evaluates_skip _)).trans (evaluates_take _ _)

end Progress

namespace Frame

/-- Placing variables keeps their declarations. -/
theorem declarations_placeLocals (frame : Frame) (symbols : List Symbol) :
    (frame.placeLocals symbols).1.map Symbol.declaration = symbols.map Symbol.declaration := by
  induction symbols generalizing frame with
  | nil => rfl
  | cons symbol rest ih =>
    simp only [placeLocals, List.map_cons, ih]
    rfl

/-- Placing parameters keeps their declarations. -/
theorem declarations_placeParameters (offset : Int) (symbols : List Symbol) :
    (placeParameters offset symbols).map Symbol.declaration = symbols.map Symbol.declaration := by
  induction symbols generalizing offset with
  | nil => rfl
  | cons symbol rest ih =>
    simp only [placeParameters, List.map_cons, ih]
    rfl

/-- Placing variables takes places downwards. -/
theorem offset_placeLocals (frame : Frame) (symbols : List Symbol) :
    (frame.placeLocals symbols).2.offset ≤ frame.offset := by
  induction symbols generalizing frame with
  | nil => exact Int.le_refl _
  | cons symbol rest ih =>
    have := ih (frame.allocate (storageSize symbol.type)).2
    simp only [placeLocals]
    simp only [allocate] at this ⊢
    omega

/-- Binding variables changes at most the places of symbols. -/
theorem alike_bindLocals (frame : Frame) (scope : ScopeId) (skip : Nat) (table : SymbolTable) :
    table.Alike (frame.bindLocals scope skip table).2 := by
  refine SymbolTable.alike_modifySymbols table scope (fun _ => (table.symbolsOf scope).take skip ++
    (frame.placeLocals ((table.symbolsOf scope).drop skip)).1) ?_
  rw [List.map_append, declarations_placeLocals, ← List.map_append, List.take_append_drop]

/-- Binding parameters changes at most the places of symbols. -/
theorem alike_bindParameters (scope : ScopeId) (count : Nat) (table : SymbolTable) :
    table.Alike (bindParameters scope count table) := by
  refine SymbolTable.alike_modifySymbols _ _ _ ?_
  rw [List.map_append, declarations_placeParameters, ← List.map_append, List.take_append_drop]

end Frame

/-- Binding the variables of a scope is progress. -/
theorem Progress.advances_bind (progress : Progress) (scope : ScopeId) :
    progress.Advances (progress.bind scope) :=
  ⟨Frame.alike_bindLocals _ _ _ _, Nat.le_refl _, Frame.offset_placeLocals _ _, [],
    by simp [bind]⟩

end SmallC
