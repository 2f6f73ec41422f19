import SmallC.Proofs.Calls.Agreement
import SmallC.Proofs.Frames.Accesses
import SmallC.Proofs.Lowering.Origins
import SmallC.Proofs.Scoping.Storage

/-! Objects: what has a place in the frame of a function, and which of it every piece of the code is
about. -/

namespace SmallC

/-- What has a place in the frame of a function. -/
inductive Object where
  /-- A parameter or a variable. -/
  | symbol (symbol : SymbolId)
  /-- A value of the type that is kept from the progress on. -/
  | temporary (type : Ty) (progress : Progress)
  /-- An argument of a call, so many bytes from the end of the frame. -/
  | argument (offset bytes : Nat)

namespace Expression

/-- The temporary of a node; a decision takes it before its operands, any other node after them. -/
def home (expression : Expression) (progress : Progress) : Object :=
  .temporary expression.type
    (if expression.isDecision then progress else afterAll expression.parts progress)

/-- The scratch word of a node, if it is a conversion that goes through one. -/
def scratch? (expression : Expression) (progress : Progress) : Option Object :=
  match expression with
  | .unary .cast operand type =>
    if usesScratch operand.type type (operand.lowered progress).value then
      some (.temporary .int ((operand.after progress).take type))
    else none
  | _ => none

/-- What a node takes for itself; constants and names need nothing. -/
def keeps (expression : Expression) (progress : Progress) : List Object :=
  if expression.isLeaf then []
  else expression.home progress :: (expression.scratch? progress).toList

/-- Where the value of a node is found, unless it is a constant or in the storage of the unit. -/
def object? (expression : Expression) (progress : Progress) : Option Object :=
  match expression with
  | .integer .. | .real _ | .string _ => none
  | .identifier symbol _ => if symbol.scope = unitScope then none else some (.symbol symbol)
  | .call .. | .unary .. | .step .. | .binary .. => some (expression.home progress)

/-- Expressions that are lowered in order, each with the progress from which it is. -/
def begun : List Expression → Progress → List (Expression × Progress)
  | [], _ => []
  | first :: rest, progress => (first, progress) :: begun rest (first.after progress)

end Expression

/-- A piece of code and what it is about. -/
structure Piece where
  /-- The code. -/
  code : Code
  /-- The objects that the code may read and write. -/
  objects : List Object

/-- The code that passes one argument. -/
def passArgument (offset : Nat) (value : Operand) (width : Width) : Code :=
  if width = .double then [operate .fldl [value], operate .fstpl [Operand.outgoing offset]]
  else [load value width .eax, operate .movl [Register.eax, Operand.outgoing offset]]

theorem passArguments_cons (offset : Nat) (value : Operand) (width : Width)
    (rest : List (Operand × Width)) :
    passArguments offset ((value, width) :: rest) =
      passArgument offset value width ++ passArguments (offset + width.slotBytes) rest := by
  simp only [passArguments, passArgument, Width.slotBytes]
  split <;> rfl

/-- The pieces that pass arguments: each is about one argument and its slot. -/
def passes : (offset : Nat) → List (Expression × Progress) → List Piece
  | _, [] => []
  | offset, (argument, progress) :: rest =>
    let width := Width.of argument.type
    ⟨passArgument offset (argument.lowered progress).value width,
      .argument offset width.slotBytes :: (argument.object? progress).toList⟩
      :: passes (offset + width.slotBytes) rest

namespace Site

/-- The values that are read at a site, each with the progress from which it is lowered. -/
def consumed : Site → List (Expression × Progress)
  | .node expression progress => Expression.begun expression.parts progress
  | .test value progress _ _ | .give value progress _ => [(value, progress)]
  | .store left right progress => [(right, progress), (left.target, right.after progress)]
  | .enter .. | .settle .. | .bind .. | .mark _ | .jump _ => []

/-- What is written at a site for the value of a node. -/
def produced : Site → List Object
  | .node expression progress => expression.keeps progress
  | .settle _ type progress => [.temporary type progress]
  | .enter .. | .test .. | .bind .. | .store .. | .give .. | .mark _ | .jump _ => []

/-- The objects that are read and written at a site. -/
def objects (site : Site) : List Object :=
  site.produced ++ site.consumed.filterMap fun value => value.1.object? value.2

/-- The pieces of the code of a site: a call passes its arguments one by one, and any other code
reads the values of its parts and writes that of the node. -/
def pieces : Site → List Piece
  | .node (.call callee arguments type) progress =>
    passes 0 (Expression.begun arguments progress) ++
      [⟨[operate .call [.callee (progress.symbols.nameOf callee)],
          storeReturned type ((Expression.call callee arguments type).result progress)],
        [(Expression.call callee arguments type).home progress]⟩]
  | site => [⟨site.code, site.objects⟩]

/-- What is given a place in the frame at a site. -/
def taken : Site → List Object
  | .node expression progress => expression.keeps progress
  | .enter type progress => [.temporary type progress]
  | .bind scope progress => (progress.symbols.ids scope).map Object.symbol
  | .test .. | .settle .. | .store .. | .give .. | .mark _ | .jump _ => []

/-- The bytes that the arguments take that are passed at a site. -/
def reserved : Site → Nat
  | .node (.call _ arguments _) _ => argumentBytes (Expression.widths arguments)
  | _ => 0

end Site

theorem passes_code (offset : Nat) (arguments : List Expression) (progress : Progress) :
    (passes offset (Expression.begun arguments progress)).flatMap Piece.code =
      passArguments offset (((Expression.loweredAll arguments progress).map Lowered.value).zip
        (Expression.widths arguments)) := by
  induction arguments generalizing offset progress with
  | nil => rfl
  | cons first rest ih =>
    rw [Expression.loweredAll_cons]
    simp only [Expression.begun, passes, List.flatMap_cons, ih, List.map_cons, Expression.widths,
      List.zip_cons_cons, passArguments_cons]

theorem Site.pieces_of_other {site : Site} (other : ∀ callee arguments type progress,
    site ≠ .node (.call callee arguments type) progress) :
    site.pieces = [⟨site.code, site.objects⟩] := by
  unfold pieces
  split
  · exact absurd rfl (other _ _ _ _)
  · rfl

/-- The pieces of a site make up its code. -/
theorem Site.code_pieces (site : Site) : site.pieces.flatMap Piece.code = site.code := by
  -- Only a call is cut into more pieces than one.
  by_cases call : ∃ callee arguments type progress,
      site = .node (.call callee arguments type) progress
  · obtain ⟨callee, arguments, type, progress, rfl⟩ := call
    rw [pieces, List.flatMap_append, passes_code, code, Expression.own_call]
    rfl
  · rw [pieces_of_other fun callee arguments type progress same =>
      call ⟨callee, arguments, type, progress, same⟩]
    exact List.append_nil _

namespace Function

instance (function : Function) (symbol : SymbolId) : Decidable (function.IsParameter symbol) :=
  inferInstanceAs (Decidable (_ ∧ _))

/-- The place of an object in the frame of a function, under the table in which its symbols have
been placed and with the frame of the given size. -/
def slot (function : Function) (table : SymbolTable) (size : Nat) : Object → Slot
  | .symbol symbol =>
    -- A parameter has the words in which the caller has passed it.
    let type := table.typeOf symbol
    ⟨table.offsetOf symbol,
      if function.IsParameter symbol then type.parameterBytes else storageSize type⟩
  | .temporary type progress =>
    ⟨progress.frame.offset - (Width.of type).size, (Width.of type).size⟩
  | .argument offset bytes => ⟨offset - size, bytes⟩

end Function

/-! Places are handed out in the order of the sites. -/

/-- Between two stages of lowering the objects of the sites are placed one below the other, and
there is room for all arguments that are passed. -/
structure Lays (slot : Object → Slot) (old : Progress) (sites : List Site) (new : Progress) :
    Prop where
  /-- The objects fill what is handed out in between. -/
  stacked : Stacked old.frame.offset ((sites.flatMap Site.taken).map slot) new.frame.offset
  /-- The room for arguments does not shrink. -/
  grows : old.frame.arguments ≤ new.frame.arguments
  /-- The arguments that are passed have room. -/
  reserved : ∀ site ∈ sites, site.reserved ≤ new.frame.arguments

section Lays

variable {slot : Object → Slot} {old middle new : Progress} {sites others : List Site}

theorem Lays.trans (early : Lays slot old sites middle) (late : Lays slot middle others new) :
    Lays slot old (sites ++ others) new where
  stacked := by
    rw [List.flatMap_append, List.map_append]
    exact early.stacked.append late.stacked
  grows := Nat.le_trans early.grows late.grows
  reserved site member := by
    rcases List.mem_append.mp member with member | member
    · exact Nat.le_trans (early.reserved site member) late.grows
    · exact late.reserved site member

/-- Where nothing is handed out there is nothing to place. -/
theorem lays_nil (same : new.frame = old.frame) : Lays slot old [] new :=
  ⟨same ▸ .nil _, Nat.le_of_eq (by rw [same]), by simp⟩

/-- A site that takes nothing. -/
theorem lays_still {site : Site} (same : new.frame = old.frame) (nothing : site.taken = [])
    (free : site.reserved = 0) : Lays slot old [site] new := by
  refine ⟨?_, Nat.le_of_eq (by rw [same]), ?_⟩
  · rw [same, List.flatMap_singleton, nothing]
    exact .nil _
  · intro listed member
    rw [List.mem_singleton.mp member, free]
    exact Nat.zero_le _

/-- Sites may come behind one that takes nothing. -/
theorem Lays.behind {site : Site} (late : Lays slot middle sites new)
    (same : middle.frame = old.frame) (nothing : site.taken = []) (free : site.reserved = 0) :
    Lays slot old (site :: sites) new := (lays_still same nothing free).trans late

/-- A site that takes some objects and passes no arguments. -/
theorem lays_take {site : Site}
    (stacked : Stacked old.frame.offset (site.taken.map slot) new.frame.offset)
    (same : new.frame.arguments = old.frame.arguments) (free : site.reserved = 0) :
    Lays slot old [site] new := by
  refine ⟨?_, Nat.le_of_eq same.symm, ?_⟩
  · rwa [List.flatMap_singleton]
  · intro listed member
    rw [List.mem_singleton.mp member, free]
    exact Nat.zero_le _

end Lays

end SmallC
