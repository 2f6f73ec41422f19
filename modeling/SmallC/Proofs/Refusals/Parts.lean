import Mathlib.Data.List.Forall2
import SmallC.Proofs.Derivations.Boundaries

/-! Parts of the grammar: which tokens are one whatever follows them, and which could become one if the
right ones followed. -/

namespace SmallC

/-- Whether a token is spelled for zero. -/
def Token.isZero (token : Token) : Bool :=
  decimalBelow? UInt32.size token.text = some 0

/-- Tokens that differ at most in the size of a whole number: either both are zero or neither is. -/
def Token.Alike (token other : Token) : Prop :=
  token = other ∨ token.kind = .integer ∧ other.kind = .integer ∧ token.isZero = other.isZero

theorem Token.Alike.kind {token other : Token} (alike : token.Alike other) :
    token.kind = other.kind := by
  rcases alike with rfl | ⟨first, second, -⟩
  · rfl
  · rw [first, second]

theorem Token.alike_refl (tokens : List Token) : List.Forall₂ Token.Alike tokens tokens := by
  induction tokens with
  | nil => exact .nil
  | cons token rest ih => exact .cons (.inl rfl) ih

/-- A part of the grammar: between which two points of a unit it may stand. -/
abbrev Part := List Token → List Token → Prop

namespace Part

variable {α : Type} {part other first second : Part} {tokens more : List Token}

/-- The part that stands for something of the grammar. -/
def of (item : List Token → α → List Token → Prop) : Part := fun start rest =>
  ∃ thing, item start thing rest

/-- One token that fits. -/
def token (fits : Token → Prop) : Part := fun start rest =>
  ∃ token, start = token :: rest ∧ fits token

/-- One token of the given kind. -/
def lone (kind : TokenKind) : Part :=
  token (·.kind = kind)

/-- No token. -/
def nothing : Part :=
  Eq

/-- A part behind another one. -/
def andThen (first second : Part) : Part := fun start rest =>
  ∃ middle, first start middle ∧ second middle rest

/-- One of two parts. -/
def either (first second : Part) : Part := fun start rest =>
  first start rest ∨ second start rest

/-- Wherever the one part stands, the other one does too. -/
def Within (part other : Part) : Prop :=
  ∀ start rest, part start rest → other start rest

theorem Within.trans {last : Part} (inner : part.Within other) (outer : other.Within last) :
    part.Within last :=
  fun start rest stands => outer start rest (inner start rest stands)

theorem within_left (first second : Part) : first.Within (first.either second) :=
  fun _ _ => .inl

theorem within_right (first second : Part) : second.Within (first.either second) :=
  fun _ _ => .inr

/-- Nothing behind a part adds nothing. -/
theorem andThen_nothing (part : Part) : (part.andThen nothing).Within part := by
  rintro start rest ⟨middle, stands, rfl⟩
  exact stands

/-- Nothing before a part adds nothing. -/
theorem nothing_andThen (part : Part) : (nothing.andThen part).Within part := by
  rintro start rest ⟨middle, rfl, stands⟩
  exact stands

/-! Tokens that are a part. -/

/-- The tokens are the part whatever follows them, up to the size of numbers. -/
def Spells (part : Part) (tokens : List Token) : Prop :=
  ∃ others, List.Forall₂ Token.Alike others tokens ∧ ∀ rest, part (others ++ rest) rest

/-- The tokens could become the part if the right ones followed. -/
def Begins (part : Part) (tokens : List Token) : Prop :=
  ∃ more, part.Spells (tokens ++ more)

theorem Spells.within (spells : part.Spells tokens) (inner : part.Within other) : other.Spells tokens := by
  obtain ⟨others, alike, stands⟩ := spells
  exact ⟨others, alike, fun rest => inner _ _ (stands rest)⟩

theorem Begins.within (begins : part.Begins tokens) (inner : part.Within other) :
    other.Begins tokens := by
  obtain ⟨more, spells⟩ := begins
  exact ⟨more, spells.within inner⟩

theorem Spells.andThen (head : first.Spells tokens) (tail : second.Spells more) :
    (first.andThen second).Spells (tokens ++ more) := by
  obtain ⟨others, alike, stands⟩ := head
  obtain ⟨further, like, follows⟩ := tail
  refine ⟨others ++ further, List.rel_append alike like, fun rest => ⟨further ++ rest, ?_, follows rest⟩⟩
  rw [List.append_assoc]
  exact stands _

theorem spells_nothing : nothing.Spells [] :=
  ⟨[], .nil, fun _ => rfl⟩

theorem spells_token {fits : Token → Prop} {token : Token} (fit : fits token) :
    (Part.token fits).Spells [token] :=
  ⟨[token], Token.alike_refl _, fun _ => ⟨token, rfl, fit⟩⟩

/-- Tokens that are something of the grammar whatever follows them. -/
theorem spells_of {item : List Token → α → List Token → Prop} {thing : α}
    (stands : ∀ rest, item (tokens ++ rest) thing rest) : (of item).Spells tokens :=
  ⟨tokens, Token.alike_refl tokens, fun rest => ⟨thing, stands rest⟩⟩

/-- A part that can be spelled at all. -/
class Spellable (part : Part) : Prop where
  /-- Some tokens spell it. -/
  spells : ∃ tokens, part.Spells tokens

/-- What can be spelled can be begun. -/
theorem begins_nil [able : Spellable part] : part.Begins [] :=
  able.spells

/-- What follows what is begun can be spelled. -/
theorem Begins.andThen [able : Spellable second] (begins : first.Begins tokens) :
    (first.andThen second).Begins tokens := by
  obtain ⟨more, head⟩ := begins
  obtain ⟨last, tail⟩ := able.spells
  exact ⟨more ++ last, List.append_assoc tokens more last ▸ head.andThen tail⟩

theorem Spells.andBegins (head : first.Spells tokens) (tail : second.Begins more) :
    (first.andThen second).Begins (tokens ++ more) := by
  obtain ⟨last, spells⟩ := tail
  exact ⟨last, (List.append_assoc tokens more last).symm ▸ head.andThen spells⟩

/-- A larger part can be spelled too. -/
theorem Spellable.within [able : Spellable part] (inner : part.Within other) : Spellable other := by
  obtain ⟨tokens, spells⟩ := able
  exact ⟨tokens, spells.within inner⟩

instance : Spellable nothing :=
  ⟨[], spells_nothing⟩

instance (kind : TokenKind) : Spellable (lone kind) :=
  ⟨[⟨kind, "", .start⟩], spells_token rfl⟩

instance [head : Spellable first] [tail : Spellable second] : Spellable (first.andThen second) := by
  obtain ⟨tokens, spells⟩ := head
  obtain ⟨more, follows⟩ := tail
  exact ⟨tokens ++ more, spells.andThen follows⟩

instance [able : Spellable second] : Spellable (first.either second) :=
  .within (within_right first second)

/-! Repeated parts. -/

section Repeated

variable {item : List Token → α → List Token → Prop}

theorem nothing_within_run : nothing.Within (of (Run item)) := by
  rintro start rest rfl
  exact ⟨[], .nil start⟩

theorem item_within_run : ((of item).andThen (of (Run item))).Within (of (Run item)) := by
  rintro start rest ⟨middle, ⟨thing, head⟩, others, tail⟩
  exact ⟨thing :: others, .cons head tail⟩

theorem comma_within : ((lone .comma).andThen (of item)).Within (of (AfterComma item)) := by
  rintro start rest ⟨middle, ⟨comma, rfl, separated⟩, thing, stands⟩
  exact ⟨thing, comma, middle, rfl, separated, stands⟩

theorem commas_within :
    ((of item).andThen (of (Run (AfterComma item)))).Within (of (Commas item)) := by
  rintro start rest ⟨middle, ⟨thing, head⟩, others, tail⟩
  exact ⟨thing :: others, (commas_iff item).mpr ⟨thing, others, middle, rfl, head, tail⟩⟩

instance : Spellable (of (Run item)) :=
  .within nothing_within_run

instance [Spellable (of item)] : Spellable (of (Commas item)) :=
  .within commas_within

end Repeated

end Part

end SmallC
