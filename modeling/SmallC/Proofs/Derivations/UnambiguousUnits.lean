import SmallC.Proofs.Derivations.Unambiguous

/-! Declarations, statements and units are taken in one way only. -/

namespace SmallC

/-! Declarations. -/

/-- After its stars a declarator has a name and then no parenthesis. -/
theorem Declarator.Whole.named {specifier : Specifier} {start rest : List Token}
    {declarator : Declarator} (whole : declarator.Whole specifier start rest) :
    ∃ name middle, Stars start declarator.indirection (name :: middle) ∧
      name.kind = .identifier ∧ ahead middle ≠ .leftParen := by
  obtain ⟨derived, ends⟩ := whole
  cases derived with
  | scalar stars named =>
    refine ⟨_, _, stars, named, ?_⟩
    rcases ends with ends | ends <;> simp [ends]
  | array stars named opens => exact ⟨_, _, stars, named, by simp [opens]⟩

/-- Stars and a name are taken in one way. -/
theorem named_unique {start rest others : List Token} {count number : Nat} {name word : Token}
    (stars : Stars start count (name :: rest)) (named : name.kind = .identifier)
    (counted : Stars start number (word :: others)) (spelled : word.kind = .identifier) :
    count = number ∧ name = word ∧ rest = others := by
  obtain ⟨rfl, same⟩ := stars_unique stars counted (by simp [named]) (by simp [spelled])
  obtain ⟨rfl, rfl⟩ := List.cons.inj same
  exact ⟨rfl, rfl, rfl⟩

theorem unambiguous_declarator (specifier : Specifier) (size : Nat) :
    Unambiguous (Declarator.Whole specifier) size := by
  rintro start declarator rest other final short ⟨first, ends⟩ ⟨second, halts⟩
  -- Both forms start alike, and the bracket tells them apart.
  cases first with
  | scalar stars named =>
    cases second with
    | scalar counted spelled =>
      obtain ⟨rfl, rfl, rfl⟩ := named_unique stars named counted spelled
      exact ⟨rfl, rfl⟩
    | array counted spelled opens =>
      obtain ⟨rfl, rfl, rfl⟩ := named_unique stars named counted spelled
      rcases ends with ends | ends <;> simp [opens] at ends
  | array stars named opens spelled fits =>
    cases second with
    | scalar counted named' =>
      obtain ⟨rfl, rfl, rfl⟩ := named_unique stars named counted named'
      rcases halts with halts | halts <;> simp [opens] at halts
    | array counted named' _ _ fitted =>
      obtain ⟨rfl, rfl, same⟩ := named_unique stars named counted named'
      simp only [List.cons.injEq] at same
      obtain ⟨rfl, rfl, rfl, rfl⟩ := same
      obtain rfl := Option.some.inj (fits.symm.trans fitted)
      exact ⟨rfl, rfl⟩

theorem unambiguous_declaration (size : Nat) : Unambiguous Declaration.Derives size := by
  rintro start declaration rest other final short first second
  cases first with
  | shared specified declared closes =>
    cases second with
    | shared named listed shuts =>
      obtain rfl := specifier_unique specified named
      -- Up to the semicolon every declarator is followed by what ends one.
      have one := Commas.follow TokenKind.endsDeclarator (.inl rfl) declared (.inr closes)
      have two := Commas.follow TokenKind.endsDeclarator (.inl rfl) listed (.inr shuts)
      obtain ⟨rfl, same⟩ := unambiguous_commas (unambiguous_declarator _ _)
        (fun _ _ _ whole => whole.1.shorter) (Nat.le_refl _) ⟨one, by simp [closes]⟩
        ⟨two, by simp [shuts]⟩
      exact ⟨rfl, (List.cons.inj same).2⟩

/-- No declaration starts with anything but a specifier. -/
theorem stops_declaration {start : List Token} (plain : (ahead start).isSpecifier = false) :
    Stops Declaration.Derives start := by
  intro declaration rest derived
  rw [derived.opens] at plain
  cases plain

/-! Parameters. -/

theorem unambiguous_parameter (size : Nat) : Unambiguous Parameter.Derives size := by
  rintro start parameter rest other final short first second
  cases first with
  | scalar specified stars named =>
    cases second with
    | scalar word counted spelled =>
      obtain rfl := specifier_unique specified word
      obtain ⟨rfl, rfl, rfl⟩ := named_unique stars named counted spelled
      exact ⟨rfl, rfl⟩

/-- No parameter follows where the list closes or the dots come. -/
theorem stops_parameter {comma dots : Token} {rest : List Token} (dotted : dots.kind = .ellipsis) :
    Stops (AfterComma Parameter.Derives) (comma :: dots :: rest) := by
  rintro parameter final ⟨_, _, same, _, derived⟩
  obtain ⟨rfl, rfl⟩ := List.cons.inj same
  have opens := derived.opens
  rw [ahead_cons, dotted] at opens
  cases opens

theorem unambiguous_parameters (size : Nat) :
    Unambiguous (fun start (parameters : Parameters) rest => parameters.Derives start rest ∧
      ahead rest = .rightParen) size := by
  -- Where the list goes on after its first parameter, it does so up to where none follows.
  have listed {start middle final : List Token} {first second : List Parameter}
      (one : Commas Parameter.Derives start first middle)
      (other : Commas Parameter.Derives start second final)
      (stops : Stops (AfterComma Parameter.Derives) middle)
      (halts : Stops (AfterComma Parameter.Derives) final) : first = second ∧ middle = final := by
    obtain ⟨_, _, _, rfl, head, run⟩ := (commas_iff _).mp one
    obtain ⟨_, _, _, rfl, same, tail⟩ := (commas_iff _).mp other
    obtain ⟨rfl, rfl⟩ := unambiguous_parameter _ (Nat.le_refl _) head same
    obtain ⟨rfl, rfl⟩ := unambiguous_run (unambiguous_afterComma (unambiguous_parameter _))
      (fun _ _ _ => AfterComma.shorter fun _ _ _ => Parameter.Derives.shorter) (Nat.le_succ _)
      ⟨run, stops⟩ ⟨tail, halts⟩
    exact ⟨rfl, rfl⟩
  have nothing {start rest : List Token} {word : Token} {parameters : List Parameter}
      (spelled : word.kind = .voidWord) (one : Commas Parameter.Derives (word :: start) parameters rest) :
      False := by
    obtain ⟨_, _, _, rfl, head, _⟩ := (commas_iff _).mp one
    have opens := head.opens
    rw [ahead_cons, spelled] at opens
    cases opens
  have closes {rest : List Token} (closes : ahead rest = .rightParen) :
      Stops (AfterComma Parameter.Derives) rest := stops_afterComma (by simp [closes])
  rintro start parameters rest other final short ⟨first, ends⟩ ⟨second, halts⟩
  cases first with
  | nothing spelled =>
    cases second with
    | nothing => exact ⟨rfl, rfl⟩
    | closed given | variadic given => exact (nothing spelled given).elim
  | closed parameters =>
    cases second with
    | nothing spelled => exact (nothing spelled parameters).elim
    | closed given =>
      obtain ⟨rfl, rfl⟩ := listed parameters given (closes ends) (closes halts)
      exact ⟨rfl, rfl⟩
    | variadic given separated dotted =>
      obtain ⟨rfl, rfl⟩ := listed parameters given (closes ends) (stops_parameter dotted)
      simp [separated] at ends
  | variadic parameters separated dotted =>
    cases second with
    | nothing spelled => exact (nothing spelled parameters).elim
    | closed given =>
      obtain ⟨rfl, rfl⟩ := listed parameters given (stops_parameter dotted) (closes halts)
      simp [separated] at halts
    | variadic given _ dots =>
      obtain ⟨rfl, same⟩ := listed parameters given (stops_parameter dotted) (stops_parameter dots)
      simp only [List.cons.injEq] at same
      exact ⟨rfl, same.2.2⟩

/-! Statements. -/

namespace Clause

theorem unambiguous_assigns (size : Nat) :
    Unambiguous (fun start clause rest => Assigns start clause rest ∧
      ahead rest ∈ [.semicolon, .rightParen]) size := by
  rintro start clause rest other final short ⟨first, ends⟩ ⟨second, halts⟩
  simp only [List.mem_cons, List.not_mem_nil, or_false] at ends halts
  -- Neither the sign nor what follows continues an expression, so each one ends there.
  have one : Rung.expression.goesOn (ahead rest) = false :=
    not_goesOn_expression (by rcases ends with ends | ends <;> simp [ends])
  have two : Rung.expression.goesOn (ahead final) = false :=
    not_goesOn_expression (by rcases halts with halts | halts <;> simp [halts])
  have sign {sign : Token} {middle : List Token} (spelled : sign.kind = .assign) :
      Rung.expression.goesOn (ahead (sign :: middle)) = false :=
    not_goesOn_expression (by simp [spelled])
  have unique := Phrase.unambiguous_expression start.length
  cases first with
  | evaluate derived =>
    cases second with
    | evaluate found =>
      obtain ⟨rfl, rfl⟩ := unique (Nat.le_refl _) ⟨derived, one⟩ ⟨found, two⟩
      exact ⟨rfl, rfl⟩
    | assign left spelled _ =>
      obtain ⟨rfl, rfl⟩ := unique (Nat.le_refl _) ⟨derived, one⟩ ⟨left, sign spelled⟩
      simp [spelled] at ends
  | assign left spelled right =>
    cases second with
    | evaluate found =>
      obtain ⟨rfl, rfl⟩ := unique (Nat.le_refl _) ⟨left, sign spelled⟩ ⟨found, two⟩
      simp [spelled] at halts
    | assign place named value =>
      obtain ⟨rfl, same⟩ := unique (Nat.le_refl _) ⟨left, sign spelled⟩ ⟨place, sign named⟩
      obtain ⟨rfl, rfl⟩ := List.cons.inj same
      obtain ⟨rfl, rfl⟩ := Phrase.unambiguous_expression _ (Nat.le_refl _) ⟨right, one⟩ ⟨value, two⟩
      exact ⟨rfl, rfl⟩

theorem unambiguous_condition (size : Nat) : Unambiguous Condition size := by
  rintro start test rest other final short first second
  cases first with
  | parenthesised _ derived closes =>
    cases second with
    | parenthesised _ found shuts =>
      -- The closing parenthesis ends the expression in either derivation.
      obtain ⟨rfl, same⟩ := Phrase.unambiguous_expression _ (Nat.le_refl _)
        ⟨derived, not_goesOn_expression (by simp [closes])⟩
        ⟨found, not_goesOn_expression (by simp [shuts])⟩
      exact ⟨rfl, (List.cons.inj same).2⟩

theorem stops_run {start : List Token} (closes : ahead start = .rightBrace) :
    Stops Whole start :=
  fun _ _ whole => whole.1.not_closes closes

/-- An expression or an assignment starts with no word of another statement. -/
theorem Assigns.not_word {start rest : List Token} {clause : Clause} {kind : TokenKind}
    (assigns : Assigns start clause rest) (found : ahead start = kind)
    (word : kind.opensPhrase = false) : False := by
  rw [← found, assigns.opens] at word
  cases word

/-! What stands inside a statement is taken in one way, where shorter statements are. -/

section

variable {size : Nat} {start rest final : List Token}

/-- A condition and the statement behind it. -/
theorem guarded_unique (inner : Unambiguous Whole size) (short : start.length ≤ size)
    {middle between : List Token} {test other : Phrase} {body branch : Clause}
    (tests : Condition start test middle) (tested : Condition start other between)
    (whole : body.Whole middle rest) (found : branch.Whole between final) :
    test = other ∧ body = branch ∧ middle = between ∧ rest = final := by
  obtain ⟨rfl, rfl⟩ := unambiguous_condition _ (Nat.le_refl _) tests tested
  have inside := tests.shorter
  obtain ⟨rfl, rfl⟩ := inner (by omega) whole found
  exact ⟨rfl, rfl, rfl, rfl⟩

/-- The declarations and the statements of a block. -/
theorem blockBody_unique (inner : Unambiguous Whole size) (short : start.length ≤ size)
    {middle between : List Token} {closing last : Token} {declared listed : List Declaration}
    {body other : List Clause} (declares : Run Declaration.Derives start declared middle)
    (declaring : Run Declaration.Derives start listed between)
    (runs : Run Derives middle body (closing :: rest)) (closes : closing.kind = .rightBrace)
    (ran : Run Derives between other (last :: final)) (shuts : last.kind = .rightBrace) :
    declared = listed ∧ body = other ∧ rest = final := by
  obtain ⟨rfl, rfl⟩ := unambiguous_run (unambiguous_declaration _)
    (fun _ _ _ => Declaration.Derives.shorter) (Nat.le_refl _)
    ⟨declares, stops_declaration (not_isSpecifier_run runs (by simp [closes]))⟩
    ⟨declaring, stops_declaration (not_isSpecifier_run ran (by simp [shuts]))⟩
  -- The declarations agree, so both runs of statements start at one place.
  have inside := Run.shorter (fun _ _ _ => Declaration.Derives.shorter) declares
  obtain ⟨rfl, same⟩ := unambiguous_run inner (fun _ _ _ whole => whole.1.shorter) (by omega)
    ⟨whole_run runs (by simp [closes]), stops_run (by simp [closes])⟩
    ⟨whole_run ran (by simp [shuts]), stops_run (by simp [shuts])⟩
  exact ⟨rfl, rfl, (List.cons.inj same).2⟩

/-- A statement that may be an expression or an assignment, and the token that ends it. -/
theorem simple_unique {closing last : Token} {clause other : Clause}
    (assigns : Assigns start clause (closing :: rest))
    (closes : closing.kind ∈ [.semicolon, .rightParen])
    (given : Assigns start other (last :: final)) (shuts : last.kind ∈ [.semicolon, .rightParen]) :
    clause = other ∧ rest = final := by
  obtain ⟨rfl, same⟩ := unambiguous_assigns _ (Nat.le_refl _) ⟨assigns, closes⟩ ⟨given, shuts⟩
  exact ⟨rfl, (List.cons.inj same).2⟩

/-- An expression and the semicolon that ends it. -/
theorem ended_unique {closing last : Token} {phrase other : Phrase}
    (derived : phrase.Derives .expression start (closing :: rest)) (closes : closing.kind = .semicolon)
    (found : other.Derives .expression start (last :: final)) (shuts : last.kind = .semicolon) :
    phrase = other ∧ rest = final := by
  obtain ⟨rfl, same⟩ := Phrase.unambiguous_expression _ (Nat.le_refl _)
    ⟨derived, not_goesOn_expression (by simp [closes])⟩
    ⟨found, not_goesOn_expression (by simp [shuts])⟩
  exact ⟨rfl, (List.cons.inj same).2⟩

end

theorem unambiguous_statement (size : Nat) : Unambiguous Whole size := by
  induction size with
  | zero =>
    rintro start clause rest other final short ⟨first, _⟩
    have taken := first.shorter
    omega
  | succ size ih =>
    rintro start clause rest other final short ⟨first, ends⟩ ⟨second, halts⟩
    cases first with
    | simple assigns closes =>
      cases second with
      | simple given shuts => exact simple_unique assigns (by simp [closes]) given (by simp [shuts])
      | breakLoop spelled | returnValue spelled | block spelled | whileLoop spelled | forLoop spelled
      | ifThen spelled | ifElse spelled => exact (assigns.not_word spelled rfl).elim
    | breakLoop spelled =>
      cases second with
      | breakLoop => exact ⟨rfl, rfl⟩
      | simple given => exact (given.not_word spelled rfl).elim
      | _ => simp_all
    | returnValue spelled derived closes =>
      cases second with
      | returnValue _ found shuts =>
        obtain ⟨rfl, rfl⟩ := ended_unique derived closes found shuts
        exact ⟨rfl, rfl⟩
      | simple given => exact (given.not_word spelled rfl).elim
      | _ => simp_all
    | block spelled declares runs closes =>
      cases second with
      | block _ declared ran shuts =>
        obtain ⟨rfl, rfl, rfl⟩ := blockBody_unique ih (Nat.le_of_succ_le_succ short) declares declared
          runs closes ran shuts
        exact ⟨rfl, rfl⟩
      | simple given => exact (given.not_word spelled rfl).elim
      | _ => simp_all
    | whileLoop spelled tests derived =>
      cases second with
      | whileLoop _ tested found =>
        obtain ⟨rfl, rfl, -, rfl⟩ := guarded_unique ih (Nat.le_of_succ_le_succ short) tests tested
          ⟨derived, ends⟩ ⟨found, halts⟩
        exact ⟨rfl, rfl⟩
      | simple given => exact (given.not_word spelled rfl).elim
      | _ => simp_all
    | forLoop spelled opens starts separates tests parts steps closes derived =>
      cases second with
      | forLoop _ _ started semicolon tested divides stepped shuts found =>
        have starting := starts.shorter
        have testing := tests.shorter
        have stepping := steps.shorter
        simp only [List.length_cons] at short starting testing stepping
        obtain ⟨rfl, rfl⟩ := simple_unique starts (by simp [separates]) started (by simp [semicolon])
        obtain ⟨rfl, rfl⟩ := ended_unique tests parts tested divides
        obtain ⟨rfl, rfl⟩ := simple_unique steps (by simp [closes]) stepped (by simp [shuts])
        obtain ⟨rfl, rfl⟩ := ih (by omega) ⟨derived, ends⟩ ⟨found, halts⟩
        exact ⟨rfl, rfl⟩
      | simple given => exact (given.not_word spelled rfl).elim
      | _ => simp_all
    | ifThen spelled tests derived =>
      -- What follows is no other branch, because the conditional would take it.
      have plain : ahead rest ≠ .elseWord := ends rfl
      cases second with
      | ifThen _ tested found =>
        obtain ⟨rfl, rfl, -, rfl⟩ := guarded_unique ih (Nat.le_of_succ_le_succ short) tests tested
          ⟨derived, fun _ => plain⟩ ⟨found, fun _ => halts rfl⟩
        exact ⟨rfl, rfl⟩
      | ifElse _ tested found closed parts =>
        obtain ⟨-, -, -, rfl⟩ := guarded_unique ih (Nat.le_of_succ_le_succ short) tests tested
          ⟨derived, fun _ => plain⟩ (found.whole closed)
        exact (plain parts).elim
      | simple given => exact (given.not_word spelled rfl).elim
      | breakLoop | returnValue | block | whileLoop | forLoop => simp_all
    | ifElse spelled tests derived closed parts other =>
      cases second with
      | ifThen _ tested found =>
        obtain ⟨-, -, -, rfl⟩ := guarded_unique ih (Nat.le_of_succ_le_succ short) tests tested
          (derived.whole closed) ⟨found, fun _ => halts rfl⟩
        exact (halts rfl parts).elim
      | ifElse _ tested found shut _ another =>
        have inside := tests.shorter
        have taken := derived.shorter
        simp only [List.length_cons] at short taken
        obtain ⟨rfl, rfl, -, same⟩ := guarded_unique ih (Nat.le_of_succ_le_succ short) tests tested
          (derived.whole closed) (found.whole shut)
        obtain ⟨rfl, rfl⟩ := List.cons.inj same
        obtain ⟨rfl, rfl⟩ := ih (by omega) ⟨other, ends⟩ ⟨another, halts⟩
        exact ⟨rfl, rfl⟩
      | simple given => exact (given.not_word spelled rfl).elim
      | breakLoop | returnValue | block | whileLoop | forLoop => simp_all

end Clause

/-! Units. -/

/-- An object is told from a function by what follows its name. -/
theorem object_not_function {specifier : Specifier} {start rest after : List Token}
    {declarator : Declarator} {indirection : Nat} {name opening : Token}
    (whole : declarator.Whole specifier start rest)
    (stars : Stars start indirection (name :: opening :: after)) (named : name.kind = .identifier)
    (opens : opening.kind = .leftParen) : False := by
  obtain ⟨_, _, counted, spelled, plain⟩ := whole.named
  obtain ⟨-, -, rfl⟩ := named_unique counted spelled stars named
  exact plain opens

theorem unambiguous_globalDeclarator (specifier : Specifier) (size : Nat) :
    Unambiguous (GlobalDeclarator.Whole specifier) size := by
  rintro start declarator rest other final short ⟨first, ends⟩ ⟨second, halts⟩
  -- The parenthesis behind the name tells the two forms apart.
  cases first with
  | object derived =>
    cases second with
    | object found =>
      obtain ⟨rfl, rfl⟩ := unambiguous_declarator _ _ (Nat.le_refl _) ⟨derived, ends⟩ ⟨found, halts⟩
      exact ⟨rfl, rfl⟩
    | prototype stars named opens => exact (object_not_function ⟨derived, ends⟩ stars named opens).elim
  | prototype stars named opens derived closes =>
    cases second with
    | object found => exact (object_not_function ⟨found, halts⟩ stars named opens).elim
    | prototype counted spelled _ found shuts =>
      obtain ⟨rfl, rfl, same⟩ := named_unique stars named counted spelled
      obtain ⟨rfl, rfl⟩ := List.cons.inj same
      obtain ⟨rfl, same⟩ := unambiguous_parameters _ (Nat.le_refl _) ⟨derived, by simp [closes]⟩
        ⟨found, by simp [shuts]⟩
      exact ⟨rfl, (List.cons.inj same).2⟩

/-- A function with a body does not start a declaration. -/
theorem declaration_not_definition {specifier : Specifier} {start listed declared rest : List Token}
    {declarators : List GlobalDeclarator} {indirection : Nat} {parameters : Parameters}
    {last name opening closing brace : Token}
    (listing : Commas (GlobalDeclarator.Derives specifier) start declarators (last :: rest))
    (ends : last.kind = .semicolon) (stars : Stars start indirection (name :: opening :: listed))
    (named : name.kind = .identifier) (opens : opening.kind = .leftParen)
    (derived : parameters.Derives listed (closing :: brace :: declared))
    (closes : closing.kind = .rightParen) (begins : brace.kind = .leftBrace) : False := by
  have whole := Commas.follow TokenKind.endsDeclarator (.inl rfl) listing (.inr ends)
  obtain ⟨_, _, _, rfl, ⟨head, follows⟩, _⟩ := (commas_iff _).mp whole
  -- A prototype with these parameters would end where the brace stands.
  cases head with
  | object head => exact object_not_function ⟨head, follows⟩ stars named opens
  | prototype counted spelled _ found shuts =>
    obtain ⟨rfl, rfl, same⟩ := named_unique stars named counted spelled
    obtain ⟨rfl, rfl⟩ := List.cons.inj same
    obtain ⟨rfl, same⟩ := unambiguous_parameters _ (Nat.le_refl _) ⟨derived, by simp [closes]⟩
      ⟨found, by simp [shuts]⟩
    obtain ⟨rfl, rfl⟩ := List.cons.inj same
    rcases follows with follows | follows <;> simp [begins] at follows

theorem unambiguous_global (size : Nat) : Unambiguous Global.Derives size := by
  rintro start global rest other final short first second
  -- A function with a body is told from declarators by the brace behind its parameters.
  cases first with
  | declaration specified declared closes =>
    cases second with
    | declaration word listed shuts =>
      obtain rfl := specifier_unique specified word
      have one := Commas.follow TokenKind.endsDeclarator (.inl rfl) declared (.inr closes)
      have two := Commas.follow TokenKind.endsDeclarator (.inl rfl) listed (.inr shuts)
      obtain ⟨rfl, same⟩ := unambiguous_commas (unambiguous_globalDeclarator _ _)
        (fun _ _ _ whole => whole.1.shorter) (Nat.le_refl _) ⟨one, by simp [closes]⟩
        ⟨two, by simp [shuts]⟩
      exact ⟨rfl, (List.cons.inj same).2⟩
    | definition _ stars named opens derived closing begins =>
      exact (declaration_not_definition declared closes stars named opens derived closing begins).elim
  | definition specified stars named opens derived closes begins declares runs ends =>
    cases second with
    | declaration _ listed shuts =>
      exact (declaration_not_definition listed shuts stars named opens derived closes begins).elim
    | definition word counted spelled _ found shuts _ declared ran halts =>
      obtain rfl := specifier_unique specified word
      obtain ⟨rfl, rfl, same⟩ := named_unique stars named counted spelled
      obtain ⟨rfl, rfl⟩ := List.cons.inj same
      obtain ⟨rfl, same⟩ := unambiguous_parameters _ (Nat.le_refl _) ⟨derived, by simp [closes]⟩
        ⟨found, by simp [shuts]⟩
      simp only [List.cons.injEq] at same
      obtain ⟨rfl, rfl, rfl⟩ := same
      obtain ⟨rfl, rfl⟩ := unambiguous_run (unambiguous_declaration _)
        (fun _ _ _ => Declaration.Derives.shorter) (Nat.le_refl _)
        ⟨declares, stops_declaration (Clause.not_isSpecifier_run runs (by simp [ends]))⟩
        ⟨declared, stops_declaration (Clause.not_isSpecifier_run ran (by simp [halts]))⟩
      obtain ⟨rfl, same⟩ := unambiguous_run (Clause.unambiguous_statement _)
        (fun _ _ _ whole => whole.1.shorter) (Nat.le_refl _)
        ⟨Clause.whole_run runs (by simp [ends]), Clause.stops_run (by simp [ends])⟩
        ⟨Clause.whole_run ran (by simp [halts]), Clause.stops_run (by simp [halts])⟩
      exact ⟨rfl, (List.cons.inj same).2⟩

/-- A unit has one derivation at most. -/
theorem DerivesUnit.unique {tokens : List Token} {globals others : List Global}
    (first : DerivesUnit tokens globals) (second : DerivesUnit tokens others) : globals = others := by
  -- At the end of the source nothing more is declared.
  have stops {last : Token} (done : last.kind = .done) : Stops Global.Derives [last] := by
    intro global rest derived
    have opens := derived.opens
    rw [ahead_cons, done] at opens
    cases opens
  obtain ⟨last, done, run⟩ := first
  obtain ⟨end_, ended, other⟩ := second
  exact (unambiguous_run (unambiguous_global _) (fun _ _ _ => Global.Derives.shorter) (Nat.le_refl _)
    ⟨run, stops done⟩ ⟨other, stops ended⟩).1

end SmallC
