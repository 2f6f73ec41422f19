import SmallC.Check.Checker

/-! What the checker adds to its reports: whatever it does, it reports at the place in hand, behind all
that it has reported before, and only the problems that it looks for there. -/

namespace SmallC

namespace Checker

/-- The checker has stayed at its place and added reports there, of allowed problems only. -/
structure Adds (allowed : Problem → Prop) (old new : Checker) : Prop where
  /-- The place is the same. -/
  position : new.position = old.position
  /-- What is reported in addition is reported there, behind all earlier reports. -/
  reports : ∃ problems : List Problem,
    new.reports = old.reports ++ problems.map (Report.mk · old.position) ∧
      ∀ problem ∈ problems, allowed problem

variable {allowed : Problem → Prop} {old middle new : Checker}

theorem Adds.trans (first : Adds allowed old middle) (second : Adds allowed middle new) :
    Adds allowed old new := by
  obtain ⟨early, before, fits⟩ := first.reports
  obtain ⟨late, after, further⟩ := second.reports
  refine ⟨second.position.trans first.position, early ++ late, ?_, ?_⟩
  · rw [after, before, first.position, List.append_assoc, List.map_append]
  · exact List.forall_mem_append.mpr ⟨fits, further⟩

/-- Earlier reports stay in front. -/
theorem Adds.extends (adds : Adds allowed old new) : old.reports <+: new.reports := by
  obtain ⟨problems, same, _⟩ := adds.reports
  exact ⟨_, same.symm⟩

/-- What changes neither reports nor the place adds nothing. -/
theorem adds_of_eq (position : new.position = old.position) (reports : new.reports = old.reports) :
    Adds allowed old new :=
  ⟨position, [], by simpa using reports, by simp⟩

theorem adds_report (checker : Checker) {problem : Problem} (fits : allowed problem) :
    Adds allowed checker (checker.report problem) :=
  ⟨rfl, [problem], rfl, by simpa using fits⟩

theorem adds_record {α : Type} {verdict : Verdict α}
    (fits : ∀ problem ∈ verdict.problem?, allowed problem) (checker : Checker) :
    Adds allowed checker (record verdict checker).2 := by
  -- A verdict reports once or not at all.
  rw [record]
  cases found : verdict.problem? with
  | none => exact adds_of_eq rfl rfl
  | some problem => exact adds_report checker (fits problem found)

theorem adds_closeParameters (checker : Checker) : Adds allowed checker checker.closeParameters := by
  unfold closeParameters
  dsimp only
  split <;> exact adds_of_eq rfl rfl

theorem adds_declareVariable {name : String} (again : allowed (.redeclaration name))
    (conflict : allowed (.conflictingTypes name)) (type : Ty) (checker : Checker) :
    Adds allowed checker (declareVariable name type checker).2 := by
  -- A new name is entered, which changes the table only.
  unfold declareVariable
  dsimp only
  split
  · exact adds_of_eq rfl rfl
  · -- A name that is declared already may be reported, and is not entered.
    split
    · exact adds_report _ again
    · split
      · exact adds_report _ conflict
      · exact adds_of_eq rfl rfl

theorem adds_declareFunction {name : String} (conflict : allowed (.conflictingTypes name)) (type : Ty)
    (checker : Checker) : Adds allowed checker (declareFunction name type checker).2 := by
  unfold declareFunction
  split
  · exact adds_of_eq rfl rfl
  · split
    · exact adds_report _ conflict
    · exact adds_of_eq rfl rfl

theorem adds_defineFunction {name : String} (again : allowed (.redefinition name))
    (conflict : allowed (.conflictingTypes name)) (type : Ty) (checker : Checker) :
    Adds allowed checker (defineFunction name type checker).2 := by
  -- A second body may be reported, and then the name is declared like any other.
  have declares (checker : Checker) : Adds allowed checker (declareDefined name type checker).2 := by
    have noted : Adds allowed checker { checker with defined := name :: checker.defined } :=
      adds_of_eq rfl rfl
    exact noted.trans (adds_declareFunction conflict type _)
  unfold defineFunction
  split
  · dsimp only
    split
    · exact adds_report _ again
    · exact (adds_report _ again).trans (declares _)
  · exact declares checker

theorem adds_resolve {name : String} (missing : allowed (.undeclared name)) (checker : Checker) :
    Adds allowed checker (resolve name checker).2 := by
  -- A name that is not found is reported before it is entered.
  unfold resolve
  split
  · exact adds_of_eq rfl rfl
  · exact (adds_report checker missing).trans (adds_of_eq rfl rfl)

end Checker

end SmallC
