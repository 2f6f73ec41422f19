import SmallC.Source.Lexeme

/-! The tokens of a source text, with the place of each. -/

namespace SmallC

/-- The tokens of the text from the given place on, closed by the end of the source. -/
def tokensFrom (position : Position) (text : List Char) :
    Except (Nat × LexicalFault) (List Token) :=
  -- Gaps only move the place; what is left when no gap is found must be a lexeme.
  if text.isEmpty then .ok [.atEnd position]
  else
    match skipped : gap? text with
    | some (.error fault) => .error (position.line, fault)
    | some (.ok cut) =>
      have := rest_shorter (gap?_append skipped)
      tokensFrom (position.after cut.1) cut.2
    | none =>
      match read : lexeme? text with
      | .error fault => .error (position.line, fault)
      | .ok (kind, cut) =>
        have := rest_shorter (lexeme?_append read)
        match tokensFrom (position.after cut.1) cut.2 with
        | .error failure => .error failure
        | .ok rest => .ok (⟨kind, String.ofList cut.1, position⟩ :: rest)
termination_by text.length

/-- The tokens of a source text, or the line of its first fault. -/
def tokens (source : String) : Except (Nat × LexicalFault) (List Token) :=
  tokensFrom .start source.toList

end SmallC
