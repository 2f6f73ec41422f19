import SmallC.Proofs.Nesting.Limit
import SmallC.Proofs.Parallel.Grammar

/-! Problems never decide how far a unit is read: the kinds and the lines of its tokens and its
whole numbers do, whatever names and other texts it is spelled with. -/

namespace SmallC

/-- What is left of a statement without its expressions and scopes. -/
inductive Form where
  /-- An expression. -/
  | evaluate
  /-- An assignment. -/
  | assign
  /-- A break. -/
  | breakLoop
  /-- A return. -/
  | returnValue
  /-- A block. -/
  | block (body : List Form)
  /-- A loop with a test. -/
  | whileLoop (body : Form)
  /-- A loop with a header. -/
  | forLoop (init increment body : Form)
  /-- A conditional. -/
  | ifThen (body : Form)
  /-- A conditional with another branch. -/
  | ifElse (body otherwise : Form)

mutual

/-- The form of a statement. -/
def Statement.form : Statement → Form
  | .evaluate _ => .evaluate
  | .assign .. => .assign
  | .breakLoop => .breakLoop
  | .returnValue _ => .returnValue
  | .block _ body => .block (Statement.forms body)
  | .whileLoop _ body => .whileLoop body.form
  | .forLoop init _ increment body => .forLoop init.form increment.form body.form
  | .ifThen _ body => .ifThen body.form
  | .ifElse _ body otherwise => .ifElse body.form otherwise.form

/-- The forms of statements in order. -/
def Statement.forms : List Statement → List Form
  | [] => []
  | first :: rest => first.form :: Statement.forms rest

end

/-- The forms of the statements of a function. -/
def Function.forms (function : Function) : List Form := Statement.forms function.body

/-- Tokens of one kind on one line, and with one text where it is a whole number. -/
structure Token.Akin (token other : Token) : Prop where
  /-- The kinds are the same. -/
  kind : other.kind = token.kind
  /-- So are the lines. -/
  line : other.position.line = token.position.line
  /-- So is a whole number. -/
  digits : token.kind = .integer → other.text = token.text

/-- Failures of one kind on one line, whatever token or name they show. -/
inductive Failure.Kindred : Failure → Failure → Prop where
  /-- Tokens out of place. -/
  | unexpectedToken (line : Nat) (text other : String) :
    Kindred (.unexpectedToken line text) (.unexpectedToken line other)
  /-- Too much nesting. -/
  | tooDeep (line limit : Nat) : Kindred (.tooDeep line limit) (.tooDeep line limit)
  /-- Numbers out of range. -/
  | integerRange (line : Nat) (text : String) :
    Kindred (.integerRange line text) (.integerRange line text)
  /-- Arrays that are too large. -/
  | arrayTooLarge (line : Nat) (name other : String) :
    Kindred (.arrayTooLarge line name) (.arrayTooLarge line other)

/-- Statements of one form correspond, whatever has been declared and reported. -/
def Pairing.forms : Pairing where
  token := Token.Akin
  name _ _ := True
  checker _ _ := True
  symbol _ _ := True
  scope _ _ := True
  expression _ _ := True
  statement statement other := other.form = statement.form
  function function other := other.forms = function.forms
  failure := Failure.Kindred

/-- Statements that have the same forms one by one have them together. -/
theorem Statement.forms_congr {body others : List Statement}
    (alike : List.Forall₂ (fun statement other => other.form = statement.form) body others) :
    Statement.forms others = Statement.forms body := by
  induction alike with
  | nil => rfl
  | cons first _ rest => rw [forms, forms, first, rest]

/-- No step of reading depends on what the checker knows. -/
theorem Pairing.lawful_forms : Pairing.forms.Strict where
  kind akin := akin.kind
  line akin := akin.line
  digits akin := akin.digits
  spelled _ _ := trivial
  origin := ⟨rfl, rfl, fun _ => rfl⟩
  fresh := trivial
  ended akin := ⟨rfl, akin.line, fun _ => rfl⟩
  unexpected akin := by
    rw [akin.line]
    exact ⟨.unexpectedToken .., .unexpectedToken ..⟩
  tooDeep line _ _ _ same := same ▸ .tooDeep line _
  bottom := nofun
  lower same := ⟨_, same.symm, rfl⟩
  outOfRange := .integerRange
  tooLarge line _ := .arrayTooLarge line _ _
  moves _ _ := trivial
  opens _ _ _ := ⟨trivial, trivial⟩
  closes _ _ _ := ⟨trivial, trivial⟩
  forgets _ := trivial
  begins _ _ := trivial
  enters _ := trivial
  leaves _ := trivial
  declares _ _ _ _ _ := ⟨trivial, trivial⟩
  prototype _ _ _ _ _ := ⟨trivial, trivial⟩
  definition _ _ _ _ _ := ⟨trivial, trivial⟩
  resolves _ _ _ _ := ⟨trivial, trivial⟩
  itself _ := trivial
  constant _ _ _ := trivial
  identifier _ _ := trivial
  calls _ _ _ _ _ := ⟨trivial, trivial⟩
  judged _ _ _ _ _ := ⟨trivial, trivial⟩
  judgedBoth _ _ _ _ _ _ := ⟨trivial, trivial⟩
  evaluate _ := rfl
  assigned _ _ _ _ _ := ⟨rfl, trivial⟩
  broken _ _ _ _ := ⟨rfl, trivial⟩
  returned _ _ _ _ _ := ⟨rfl, trivial⟩
  -- Statements agree in their forms if the statements inside do.
  block _ body := congrArg Form.block (Statement.forms_congr body)
  whileLoop _ body := congrArg Form.whileLoop body
  forLoop init _ increment body := by
    simp only [Pairing.forms, Statement.form] at init increment body ⊢
    rw [init, increment, body]
  ifThen _ body := congrArg Form.ifThen body
  ifElse _ body otherwise := by
    simp only [Pairing.forms, Statement.form] at body otherwise ⊢
    rw [body, otherwise]
  function _ _ _ _ body := Statement.forms_congr body
  same _ := rfl
  strict := id

/-- Units with tokens of the same kinds on the same lines and with the same whole numbers are read
equally far, whatever is declared, reported or done with their functions: functions with statements
of the same forms are handed on, as many on both sides, and then both units have been read to their
ends, or both have failed with failures of one kind on one line. -/
theorem readUnit_forms {σ τ : Type} (consume : Consumer σ) (other : Consumer τ)
    {tokens others : List Token} (akin : List.Forall₂ Token.Akin tokens others) (limit : Nat)
    (output : σ) (result : τ) :
    let one := readUnit (listing consume) tokens limit (output, [])
    let two := readUnit (listing other) others limit (result, [])
    two.output.2.map Function.forms = one.output.2.map Function.forms ∧
      Option.Rel Failure.Kindred one.failure? two.failure? := by
  -- Each function is added to both lists, and its form is the same on both sides.
  have consumes : Pairing.forms.Consumes (listing consume) (listing other) fun output result =>
      result.2.map Function.forms = output.2.map Function.forms := by
    intro _ _ function fellow output result _ alike holds
    have added : fellow.forms = function.forms := alike
    refine ⟨?_, trivial⟩
    simp only [listing, List.map_append, List.map_cons, List.map_nil, holds, added]
  have ends : Pairing.forms.Ends _ (readUnit (listing consume) tokens limit (output, []))
      (readUnit (listing other) others limit (result, [])) :=
    Pairing.ends_readUnit Pairing.lawful_forms consumes akin limit rfl
  exact ⟨ends.output, ends.failure⟩

/-- The tokens of a function that returns what nothing declares. -/
def strayTokens : List Token :=
  echoTokens.mapIdx fun place token => if place = 8 then { token with text := "lost" } else token

/-- The unknown name is reported, and the function is read as the one that knows its name. -/
theorem readUnit_forms_stray :
    List.Forall₂ Token.Akin echoTokens strayTokens ∧
      (readUnit (listing ignoring) echoTokens 3 ((), [])).reader.checker.reports.length = 0 ∧
      (readUnit (listing ignoring) strayTokens 3 ((), [])).reader.checker.reports.length = 1 ∧
      let one := readUnit (listing ignoring) echoTokens 3 ((), [])
      let two := readUnit (listing ignoring) strayTokens 3 ((), [])
      two.output.2.map Function.forms = one.output.2.map Function.forms ∧
        Option.Rel Failure.Kindred one.failure? two.failure? := by
  have akin : List.Forall₂ Token.Akin echoTokens strayTokens := by
    simp only [strayTokens, echoTokens, List.map_cons, List.map_nil, List.mapIdx_cons, List.mapIdx_nil]
    repeat' constructor
    all_goals simp
  exact ⟨akin, by cbv, by cbv, readUnit_forms ignoring ignoring akin 3 () ()⟩

end SmallC
