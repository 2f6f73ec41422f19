import SmallC.Proofs.Execution.Source

/-! Pieces of source have at most one way to run, whatever the machine is. -/

namespace SmallC

variable {σ : Type} {machine : Machine σ}

namespace Behaviour

/-- From each state there is at most one way to run. -/
def Certain (behaviour : Behaviour σ) : Prop :=
  ∀ ⦃before how after how' after'⦄, behaviour before how after → behaviour before how' after' →
    how' = how ∧ after' = after

variable {first second : Behaviour σ}

theorem certain_stop (ending : Ending) : (stop ending : Behaviour σ).Certain := by
  rintro before how after how' after' ⟨rfl, rfl⟩ ⟨rfl, rfl⟩
  exact ⟨rfl, rfl⟩

/-- Where the first piece goes onward is known, and so is how the second one goes on from there. -/
theorem Certain.andThen (early : first.Certain) (late : second.Certain) :
    (first.andThen second).Certain := by
  rintro before how after how' after' (⟨between, begun, ended⟩ | ⟨elsewhere, ended⟩)
    (⟨between', begun', ended'⟩ | ⟨elsewhere', ended'⟩)
  · obtain ⟨-, rfl⟩ := early begun begun'
    exact late ended ended'
  · -- One run goes onward from the first piece and the other one does not.
    exact absurd (early begun ended').1 elsewhere'
  · exact absurd (early begun' ended).1 elsewhere
  · exact early ended ended'

end Behaviour

open Behaviour

namespace Machine

/-- An outcome leads to one of the two pieces, and no outcome to none. -/
theorem certain_choose {yes no : Behaviour σ} (taken : yes.Certain) (other : no.Certain) :
    (machine.choose yes no).Certain := by
  intro before how after how' after' runs runs'
  unfold choose at runs runs'
  -- Both runs start in one state, so they see the same outcome.
  cases outcome : machine.nonzero before with
  | none =>
    rw [outcome] at runs runs'
    exact certain_stop .stuck runs runs'
  | some decided =>
    rw [outcome] at runs runs'
    obtain ⟨_ | _, between⟩ := decided
    · exact other runs runs'
    · exact taken runs runs'

/-- Each instruction of straight code acts in one way. -/
theorem certain_visit (code : Code) : (machine.visit code).Certain := by
  induction code with
  | nil => exact certain_stop .onward
  | cons item rest ih =>
    -- Only instructions act; whatever else is written is passed over.
    cases item with
    | code instruction =>
      intro before how after how' after' runs runs'
      unfold visit at runs runs'
      cases acted : machine.act instruction before with
      | none =>
        rw [acted] at runs runs'
        exact certain_stop .stuck runs runs'
      | some between =>
        rw [acted] at runs runs'
        exact ih runs runs'
    | _ => exact ih

end Machine

namespace Expression

/-- Expressions that each run in one way run in one way together. -/
theorem certain_runsAll {expressions : List Expression}
    (each : ∀ expression ∈ expressions, ∀ progress, (expression.runs machine progress).Certain)
    (progress : Progress) : (runsAll machine expressions progress).Certain := by
  induction expressions generalizing progress with
  | nil => exact certain_stop .onward
  | cons first rest ih =>
    exact (each first (by simp) progress).andThen
      (ih (fun expression member => each expression (by simp [member])) _)

/-- A decision whose operands run in one way runs in one way. -/
theorem certain_decides (either : Bool) (left right : Expression) (type : Ty) (progress : Progress)
    {first second : Behaviour σ} (early : first.Certain) (late : second.Certain) :
    (decides machine either left right type progress first second).Certain := by
  -- Comparisons and stores are straight code, and outcomes choose between them.
  have straight (code : Code) : (machine.visit code).Certain := Machine.certain_visit code
  cases either with
  | false =>
    exact early.andThen ((straight _).andThen (Machine.certain_choose
      (late.andThen ((straight _).andThen (Machine.certain_choose (straight _) (straight _))))
      (straight _)))
  | true =>
    exact early.andThen ((straight _).andThen (Machine.certain_choose (straight _)
      (late.andThen ((straight _).andThen (Machine.certain_choose (straight _) (straight _))))))

/-- An expression runs in one way. -/
theorem certain_runs (expression : Expression) (progress : Progress) :
    (expression.runs machine progress).Certain := by
  induction expression using inductionOnParts generalizing progress with
  | strict expression plain each =>
    rw [runs_strict machine plain]
    exact (certain_runsAll each progress).andThen (Machine.certain_visit _)
  | decision either left right type first second =>
    rw [runs_decision]
    exact certain_decides either left right type progress (first _) (second _)

/-- A condition is tested in one way. -/
theorem certain_tests (test : Expression) (progress : Progress) :
    (test.tests machine progress).Certain :=
  (test.certain_runs progress).andThen (Machine.certain_visit _)

end Expression

end SmallC
