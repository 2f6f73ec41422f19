import Mathlib
import SmallC.Proofs.Report.Lines
import SmallC.Proofs.Source.Tiling

/-! Solid pieces: every lexeme stays in its line and ends with a character to be seen. -/

namespace SmallC

/-- A piece of one line that ends with a character to be seen. -/
structure Solid (piece : List Char) : Prop where
  /-- It stays in its line. -/
  inner : '\n' ∉ piece
  /-- No white space ends it. -/
  seen : piece.getLast?.map isWhiteSpace = some false

theorem Solid.ne_nil {piece : List Char} (solid : Solid piece) : piece ≠ [] := by
  rintro rfl
  cases solid.seen

/-- Digits, letters and the underscore are to be seen. -/
theorem isNamePart_seen {character : Char} (part : isNamePart character = true) :
    isWhiteSpace character = false := by
  -- All of them are between the digits and the small letters, where no white space is.
  apply isWhiteSpace_between
  simp only [isNamePart, Char.isAlphanum, Char.isAlpha, Char.isUpper, Char.isLower, Char.isDigit,
    Bool.or_eq_true, Bool.and_eq_true, decide_eq_true_eq, UInt32.le_iff_toNat_le] at part
  rcases part with ((inside | inside) | inside) | rfl
  · change 65 ≤ character.toNat ∧ character.toNat ≤ 90 at inside
    omega
  · change 97 ≤ character.toNat ∧ character.toNat ≤ 122 at inside
    omega
  · change 48 ≤ character.toNat ∧ character.toNat ≤ 57 at inside
    omega
  · decide

/-- Whatever stands before a solid piece in its line. -/
theorem Solid.behind {piece : List Char} (solid : Solid piece) (front : List Char)
    (inner : '\n' ∉ front) : Solid (front ++ piece) := by
  refine ⟨fun member => (List.mem_append.mp member).elim inner solid.inner, ?_⟩
  obtain ⟨last, ends, seen⟩ := Option.map_eq_some_iff.mp solid.seen
  simp [List.getLast?_append, ends, seen]

/-- A run of characters of words is solid. -/
theorem solid_of_parts {piece : List Char} (some : piece ≠ [])
    (parts : ∀ character ∈ piece, isNamePart character = true) : Solid piece := by
  refine ⟨fun member => absurd (parts _ member) (by decide), ?_⟩
  rw [List.getLast?_eq_some_getLast some]
  exact congrArg Option.some (isNamePart_seen (parts _ (List.getLast_mem some)))

theorem Digits.parts {digits : List Char} (counted : Digits digits) :
    ∀ character ∈ digits, isNamePart character = true := by
  intro character member
  simp [isNamePart, Char.isAlphanum, counted.2 character member]

theorem Digits.solid {digits : List Char} (counted : Digits digits) : Solid digits :=
  solid_of_parts counted.1 counted.parts

theorem QuotedBody.inner {body : List Char} (quoted : QuotedBody body) : '\n' ∉ body := by
  -- A newline neither stands for itself nor follows a backslash.
  induction quoted with
  | nil => exact List.not_mem_nil
  | plain itself _ ih =>
    simp only [List.mem_cons, List.not_mem_nil, or_false, not_or] at itself
    exact List.not_mem_cons_of_ne_of_not_mem (Ne.symm itself.2.2) ih
  | escape known _ ih =>
    have other : '\n' ≠ _ := ne_of_apply_ne isEscape (Ne.symm (by rw [known]; decide))
    exact List.not_mem_cons_of_ne_of_not_mem (by decide)
      (List.not_mem_cons_of_ne_of_not_mem other ih)

/-- What may start a name may continue it. -/
theorem isNameStart_part {character : Char} (starts : isNameStart character = true) :
    isNamePart character = true := by
  simp only [isNameStart, isNamePart, Char.isAlphanum, Bool.or_eq_true] at starts ⊢
  exact starts.imp .inl id

/-- Every lexeme stays in its line and ends with a character to be seen. -/
theorem Lexeme.solid {kind : TokenKind} {piece : List Char} (lexeme : Lexeme kind piece) :
    Solid piece := by
  have quote : Solid ['\x27'] := ⟨by decide, by decide⟩
  have listing : ∀ entry ∈ signs, '\n' ∉ entry.1 ∧ entry.1.getLast?.map isWhiteSpace = some false := by
    decide
  cases lexeme with
  | name starts parts plain =>
    exact solid_of_parts nofun (List.forall_mem_cons.mpr ⟨isNameStart_part starts, parts⟩)
  | keyword listed =>
    obtain ⟨first, rest, rfl, starts, parts⟩ := keyword?_spelled listed
    exact solid_of_parts nofun (List.forall_mem_cons.mpr ⟨isNameStart_part starts, parts⟩)
  | integer whole => exact whole.solid
  | @real whole part power counted fraction exponent either =>
    -- Whatever a number has, digits come last.
    have ends : Solid (part ++ power) := by
      cases exponent with
      | none =>
        cases fraction with
        | none => simp at either
        | some digits => simpa using digits.solid.behind ['.'] (by decide)
      | @some mark sign digits marked signed raised =>
        have front : '\n' ∉ mark :: sign := by
          rcases marked with rfl | rfl <;> rcases signed with rfl | rfl | rfl <;> decide
        have power : Solid (mark :: (sign ++ digits)) := raised.solid.behind (mark :: sign) front
        cases fraction with
        | none => exact power
        | some digits =>
          exact power.behind _ (List.not_mem_cons_of_ne_of_not_mem (by decide) digits.solid.inner)
    exact ends.behind whole counted.solid.inner
  | @character character itself =>
    have other : character ≠ '\n' := by rintro rfl; exact itself (by decide)
    exact quote.behind ['\x27', character] (by simp [Ne.symm other])
  | @escape escaped known =>
    have other : escaped ≠ '\n' := by rintro rfl; cases known
    exact quote.behind ['\x27', '\\', escaped] (by simp [Ne.symm other])
  | @string body quoted =>
    have quote : Solid ['"'] := ⟨by decide, by decide⟩
    exact quote.behind ('"' :: body)
      (List.not_mem_cons_of_ne_of_not_mem (by decide) quoted.inner)
  | sign listed => exact ⟨(listing _ listed).1, (listing _ listed).2⟩

end SmallC
