import SmallC.Check.Problem

/-! Messages tell problems apart: what is said of a name is said of no other problem. -/

namespace SmallC

/-- Texts that differ where both have letters do not begin alike. -/
theorem ne_append_of_differ {text first second rest : List Char} (begins : first <+: text)
    (differ : (first.zip second).any (fun pair => pair.1 ≠ pair.2) = true) :
    text ≠ second ++ rest := by
  obtain ⟨others, rfl⟩ := begins
  intro same
  induction first generalizing second with
  | nil => simp at differ
  | cons letter first ih =>
    -- The first letters that differ do so in front of what comes behind.
    cases second with
    | nil => simp at differ
    | cons sign second =>
      obtain ⟨rfl, tails⟩ := List.cons.inj same
      exact ih (by simpa using differ) tails

namespace Problem

/-- The words that a message begins with, whatever name or sign it is about. -/
def opening : Problem → String
  | redefinition _ => "redefinition of '"
  | redeclaration _ => "redeclaration of '"
  | conflictingTypes _ => "conflicting types for '"
  | undeclared _ => "'"
  | invalidOperands _ => "invalid operands to binary "
  | invalidOperand _ => "invalid operand to unary "
  | problem => problem.message

theorem opening_message (problem : Problem) : problem.opening.toList <+: problem.message.toList := by
  cases problem with
  | redefinition | redeclaration | conflictingTypes | undeclared | invalidOperands | invalidOperand =>
    unfold message opening
    simp only [String.toList_append, List.append_assoc]
    exact List.prefix_append _ _
  | _ => exact List.prefix_refl _

/-- Messages that begin differently are not the same. -/
theorem message_ne {problem other : Problem} (differ :
    (problem.opening.toList.zip other.opening.toList).any (fun pair => pair.1 ≠ pair.2) = true) :
    problem.message ≠ other.message := by
  intro same
  obtain ⟨rest, whole⟩ := other.opening_message
  have letters := congrArg String.toList same
  rw [← whole] at letters
  exact ne_append_of_differ problem.opening_message differ letters

/-- The words for a further body stand for nothing else. -/
theorem message_eq_redefinition {problem : Problem} {name : String} :
    problem.message = (redefinition name).message ↔ problem = redefinition name := by
  refine ⟨fun same => ?_, congrArg message⟩
  cases problem with
  | redefinition other =>
    have names := (String.append_right_inj _).mp ((String.append_left_inj _).mp same)
    exact congrArg redefinition names
  | _ => exact absurd same (message_ne (by dsimp only [opening, message]; decide))

/-- The words for a missing name stand for nothing else. -/
theorem message_eq_undeclared {problem : Problem} {name : String} :
    problem.message = (undeclared name).message ↔ problem = undeclared name := by
  refine ⟨fun same => ?_, congrArg message⟩
  cases problem with
  | undeclared other =>
    have names := (String.append_right_inj _).mp ((String.append_left_inj _).mp same)
    exact congrArg undeclared names
  | _ => exact absurd same (message_ne (by dsimp only [opening, message]; decide))

/-- The words for a loop that is left where there is none stand for nothing else. -/
theorem message_eq_breakOutsideLoop {problem : Problem} :
    problem.message = breakOutsideLoop.message ↔ problem = breakOutsideLoop := by
  refine ⟨fun same => ?_, congrArg message⟩
  cases problem with
  | breakOutsideLoop => rfl
  | _ => exact absurd same (message_ne (by dsimp only [opening, message]; decide))

end Problem

end SmallC
