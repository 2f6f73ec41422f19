import SmallC.Proofs.Calls.Passing
import SmallC.Proofs.Typing.Compilation
import SmallC.Proofs.Typing.Nodes

/-! Caller and callee agree on where every argument of every call lives. -/

namespace SmallC

/-- The bytes between a parameter and the next one. -/
def Ty.parameterBytes (type : Ty) : Nat := max type.size 4

/-- Parameters are placed side by side from the offset on. -/
theorem placeParameters_getElem (offset : Int) (symbols : List Symbol) (index : Nat) :
    ((Frame.placeParameters offset symbols)[index]?).map Symbol.offset =
      symbols[index]?.map fun _ =>
        offset + (((symbols.take index).map (·.type.parameterBytes)).sum : Nat) := by
  induction symbols generalizing offset index with
  | nil => simp [Frame.placeParameters]
  | cons symbol rest ih =>
    cases index with
    | zero => simp [Frame.placeParameters]
    | succ index =>
      -- The next parameter starts where this one ends.
      simp only [Frame.placeParameters, List.getElem?_cons_succ, ih, List.take_succ_cons,
        List.map_cons, List.sum_cons]
      congr 1
      funext _
      simp only [Ty.parameterBytes]
      omega

/-- A parameter is found past the return address and the parameters before it. -/
theorem offsetOf_bindParameters {table : SymbolTable} {scope : ScopeId} {count index : Nat}
    {parameters : List Ty}
    (placed : ((table.symbolsOf scope).take count).map Symbol.type = parameters)
    (here : index < parameters.length) :
    (Frame.bindParameters scope count table).offsetOf ⟨scope, index⟩ =
      8 + (((parameters.take index).map Ty.parameterBytes).sum : Nat) := by
  have within : index < ((table.symbolsOf scope).take count).length := by
    rw [← placed] at here
    simpa using here
  -- A scope with symbols exists, so that its symbols are changed.
  have present : scope < table.scopes.length := by
    rcases Nat.lt_or_ge scope table.scopes.length with present | absent
    · exact present
    · simp [SymbolTable.symbolsOf_absent absent] at within
  unfold SymbolTable.offsetOf SymbolTable.symbol? Frame.bindParameters
  rw [SymbolTable.symbolsOf_modifySymbols, if_pos ⟨rfl, present⟩]
  have counted : (Frame.placeParameters parameterBase ((table.symbolsOf scope).take count)).length =
      ((table.symbolsOf scope).take count).length := by
    have same := congrArg List.length (Frame.declarations_placeParameters parameterBase
      ((table.symbolsOf scope).take count))
    simpa using same
  have inside : index <
      (Frame.placeParameters parameterBase ((table.symbolsOf scope).take count)).length := by
    rwa [counted]
  rw [List.getElem?_append_left inside, placeParameters_getElem,
    List.getElem?_eq_getElem within, ← placed, ← List.map_take, List.map_map]
  rfl

end SmallC
