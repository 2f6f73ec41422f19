import SmallC.Proofs.Lowering.Subjects
import SmallC.Proofs.Scoping.Clauses

/-! Placing names: while a function is lowered, every name that is used has the place it keeps. -/

namespace SmallC

namespace Progress

/-- What lowering does: expressions place nothing, and blocks place the symbols of their scopes. -/
inductive Places (scopes : List ScopeId) : Progress → Progress → Prop where
  /-- Nothing is placed. -/
  | evaluates {old new : Progress} (evaluates : old.Evaluates new) : Places scopes old new
  /-- The symbols of one of the scopes are placed. -/
  | bind {scope : ScopeId} (listed : scope ∈ scopes) (progress : Progress) :
    Places scopes progress (progress.bind scope)
  /-- One thing after the other. -/
  | trans {first second third : Progress} (early : Places scopes first second)
    (late : Places scopes second third) : Places scopes first third

variable {scopes others : List ScopeId} {old new : Progress}

theorem Places.refl (progress : Progress) : Places scopes progress progress :=
  .evaluates (.refl progress)

theorem Places.widen (places : Places scopes old new) (listed : scopes ⊆ others) :
    Places others old new := by
  induction places with
  | evaluates evaluates => exact .evaluates evaluates
  | bind member progress => exact .bind (listed member) progress
  | trans _ _ early late => exact early.trans late

theorem symbolsOf_bind {scope other : ScopeId} (differs : other ≠ scope) (progress : Progress) :
    (progress.bind scope).symbols.symbolsOf other = progress.symbols.symbolsOf other := by
  unfold bind Frame.bindLocals
  exact (SymbolTable.symbolsOf_modifySymbols ..).trans (if_neg fun same => differs same.1.symm)

/-- The symbols of a block are placed as variables. -/
theorem symbolsOf_bind_self (progress : Progress) (scope : ScopeId) :
    (progress.bind scope).symbols.symbolsOf scope =
      (progress.frame.placeLocals (progress.symbols.symbolsOf scope)).1 := by
  unfold bind Frame.bindLocals
  refine (SymbolTable.symbolsOf_modifySymbols ..).trans ?_
  split
  · rfl
  · next absent =>
    rw [SymbolTable.symbolsOf_absent (Nat.le_of_not_lt fun present => absent ⟨rfl, present⟩)]
    rfl

/-- The symbols of other scopes stay where they are. -/
theorem Places.symbolsOf (places : Places scopes old new) {scope : ScopeId}
    (unlisted : scope ∉ scopes) : new.symbols.symbolsOf scope = old.symbols.symbolsOf scope := by
  induction places with
  | evaluates evaluates => rw [evaluates.symbols]
  | bind listed progress =>
    refine symbolsOf_bind ?_ progress
    rintro rfl
    exact unlisted listed
  | trans _ _ early late => exact late.trans early

end Progress

namespace Statement

/-- Statements that each place symbols of the scopes do so together. -/
theorem placesAll_of {scopes : List ScopeId} {statements : List Statement} {exits : Exits}
    (each : ∀ statement ∈ statements, ∀ progress : Progress,
      Progress.Places scopes progress (statement.after exits progress)) (progress : Progress) :
    Progress.Places scopes progress (afterAll exits statements progress) := by
  induction statements generalizing progress with
  | nil => exact .refl _
  | cons first rest ih =>
    rw [afterAll_cons]
    exact (each first (by simp) progress).trans
      (ih (fun statement member => each statement (by simp [member])) _)

/-- A statement places the symbols of its own blocks. -/
theorem places (statement : Statement) (exits : Exits) (progress : Progress) :
    Progress.Places statement.scopes progress (statement.after exits progress) := by
  -- A label and an expression place no symbol.
  have fresh {scopes : List ScopeId} (progress : Progress) :
      Progress.Places scopes progress progress.skip := .evaluates progress.evaluates_skip
  have tested {scopes : List ScopeId} (test : Expression) (progress : Progress) :
      Progress.Places scopes progress (test.after progress) := .evaluates (test.evaluates progress)
  induction statement using inductionOn generalizing exits progress with
  | evaluate value =>
    rw [after_evaluate]
    exact tested _ _
  | assign left right =>
    rw [after_assign]
    exact (tested _ _).trans (.evaluates (left.evaluates_located _))
  | breakLoop =>
    rw [after_breakLoop]
    exact .refl _
  | returnValue value =>
    rw [after_returnValue]
    exact tested _ _
  | block scope body each =>
    -- The block places the symbols of its own scope, and its statements those of theirs.
    rw [after_block, scopes]
    refine .trans (.bind (by simp) progress) (placesAll_of (fun statement member progress => ?_) _)
    refine (each statement member exits progress).widen fun inner listed => ?_
    exact List.mem_cons_of_mem _ (mem_scopesOfList.mpr ⟨statement, member, listed⟩)
  | whileLoop test body turn =>
    rw [after_whileLoop, scopes]
    exact (fresh _).trans ((fresh _).trans ((tested _ _).trans (turn _ _)))
  | forLoop init test increment body start next turn =>
    let all := init.scopes ++ (increment.scopes ++ body.scopes)
    have started (progress : Progress) := (start exits progress).widen
      (List.subset_append_left init.scopes (increment.scopes ++ body.scopes))
    have stepped (progress : Progress) : Progress.Places all progress _ :=
      (next exits progress).widen fun scope listed => by simp [all, listed]
    have turned (exits : Exits) (progress : Progress) : Progress.Places all progress _ :=
      (turn exits progress).widen fun scope listed => by simp [all, listed]
    rw [after_forLoop, scopes]
    exact (fresh _).trans ((fresh _).trans ((started _).trans ((tested _ _).trans
      ((turned _ _).trans (stepped _)))))
  | ifThen test body taken =>
    rw [after_ifThen, scopes]
    exact (fresh _).trans ((tested _ _).trans (taken _ _))
  | ifElse test body otherwise taken other =>
    have chosen (progress : Progress) := (taken exits progress).widen
      (List.subset_append_left body.scopes otherwise.scopes)
    have left (progress : Progress) := (other exits progress).widen
      (List.subset_append_right body.scopes otherwise.scopes)
    rw [after_ifElse, scopes]
    exact (fresh _).trans ((tested _ _).trans ((chosen _).trans ((fresh _).trans (left _))))

/-- Statements in order place the symbols of their own blocks. -/
theorem placesAll (statements : List Statement) (exits : Exits) (progress : Progress) :
    Progress.Places (scopesOfList statements) progress (afterAll exits statements progress) := by
  refine placesAll_of (fun statement member progress => ?_) progress
  refine (statement.places exits progress).widen fun inner listed => ?_
  exact mem_scopesOfList.mpr ⟨statement, member, listed⟩

end Statement

/-! Every name that a site is about is where it will be at the end. -/

/-- What a site is about names symbols of the scopes only, and finds them where the table says. -/
def Site.Sees (scopes : List ScopeId) (table : SymbolTable) (site : Site) : Prop :=
  ∀ subject ∈ site.subjects, ∀ symbol ∈ subject.1.symbols,
    symbol.scope ∈ scopes ∧
      subject.2.symbols.symbolsOf symbol.scope = table.symbolsOf symbol.scope

namespace Site

variable {scopes others : List ScopeId} {old new : Progress} {site : Site}

/-- A site that is about nothing sees nothing amiss. -/
theorem sees_nothing {table : SymbolTable} (nothing : site.subjects = []) :
    site.Sees scopes table := by
  intro subject listed
  rw [nothing] at listed
  cases listed

/-- A site sees the same after symbols of other scopes have been placed. -/
theorem Sees.later (sees : site.Sees scopes old.symbols) (places : Progress.Places others old new)
    (apart : ∀ scope ∈ scopes, scope ∉ others) : site.Sees scopes new.symbols := by
  intro subject listed symbol named
  obtain ⟨inside, same⟩ := sees subject listed symbol named
  exact ⟨inside, same.trans (places.symbolsOf (apart _ inside)).symm⟩

theorem Sees.widen {table : SymbolTable} (sees : site.Sees scopes table) (listed : scopes ⊆ others) :
    site.Sees others table := by
  intro subject member symbol named
  obtain ⟨inside, same⟩ := sees subject member symbol named
  exact ⟨listed inside, same⟩

/-- The scopes around a statement stay where more scopes are inside it. -/
theorem Sees.inside {around : List ScopeId} {table : SymbolTable}
    (sees : site.Sees (around ++ scopes) table) (listed : scopes ⊆ others) :
    site.Sees (around ++ others) table := by
  refine sees.widen fun scope member => ?_
  rcases List.mem_append.mp member with member | member
  · exact List.mem_append_left _ member
  · exact List.mem_append_right _ (listed member)

/-- A site sees the same after a statement with blocks of its own. -/
theorem Sees.past (sees : site.Sees scopes old.symbols) (places : Progress.Places others old new)
    (distinct : (scopes ++ others).Nodup) : site.Sees (scopes ++ others) new.symbols := by
  have apart := (List.nodup_append.mp distinct).2.2
  refine (sees.later places ?_).widen (List.subset_append_left _ _)
  exact fun scope inside listed => apart scope inside scope listed rfl

end Site

namespace Expression

@[simp] theorem symbols_target (operand : Expression) :
    operand.target.symbols = operand.symbols := by
  unfold target
  split <;> simp

/-- What a part names its node names. -/
theorem symbols_part {expression part : Expression} (member : part ∈ expression.parts) :
    part.symbols ⊆ expression.symbols := by
  cases expression with
  | call callee arguments type =>
    rw [symbols_call]
    intro symbol named
    exact List.mem_cons_of_mem _ (List.mem_flatMap.mpr ⟨part, member, named⟩)
  | unary op operand type =>
    cases op <;> simp only [parts, List.mem_singleton] at member <;> subst member <;>
      simp
  | step op scale operand type =>
    simp only [parts, List.mem_singleton] at member
    subst member
    simp
  | binary op left right type =>
    simp only [parts, List.mem_cons, List.not_mem_nil, or_false] at member
    rcases member with rfl | rfl <;> simp
  | integer | real | string | identifier => cases member

/-- All sites of an expression are about nodes inside it and see the symbols as they are. -/
theorem sees_sites {scopes : List ScopeId} (expression : Expression) (progress : Progress)
    (confined : expression.Confined scopes) :
    ∀ site ∈ expression.sites progress, site.Sees scopes progress.symbols := by
  -- A part is lowered when other parts have been, and these place no symbols.
  have all {expressions : List Expression} (each : ∀ expression ∈ expressions, ∀ progress,
      ∀ site ∈ expression.sites progress, site.Sees scopes progress.symbols) (progress : Progress) :
      ∀ site ∈ sitesAll expressions progress, site.Sees scopes progress.symbols := by
    induction expressions generalizing progress with
    | nil => simp [sitesAll]
    | cons first rest ih =>
      intro site member
      rw [sitesAll] at member
      rcases List.mem_append.mp member with member | member
      · exact each first (by simp) progress site member
      · rw [← (first.evaluates progress).symbols]
        exact ih (fun expression member => each expression (by simp [member])) _ site member
  have alone (value : Expression) (inside : value.Confined scopes) {start progress : Progress}
      (same : progress.symbols = start.symbols) : ∀ subject ∈ [(value, progress)],
      ∀ symbol ∈ subject.1.symbols, symbol.scope ∈ scopes ∧
        subject.2.symbols.symbolsOf symbol.scope = start.symbols.symbolsOf symbol.scope := by
    intro subject listed symbol named
    cases List.mem_singleton.mp listed
    exact ⟨inside symbol named, by rw [same]⟩
  induction expression using inductionOnParts generalizing progress with
  | strict expression plain ih =>
    intro site member
    rw [sites_strict progress plain] at member
    rcases List.mem_append.mp member with member | member
    · refine all (fun part inside progress => ?_) progress site member
      exact ih part inside progress fun symbol named => confined symbol (symbols_part inside named)
    · rw [List.mem_singleton.mp member]
      exact alone expression confined rfl
  | decision either left right type first second =>
    have entered := (progress.evaluates_enter type).symbols
    have between := (left.evaluates (progress.enter type)).symbols.trans entered
    have onLeft : left.Confined scopes := fun symbol named => confined symbol (by simp [named])
    have onRight : right.Confined scopes := fun symbol named => confined symbol (by simp [named])
    intro site member
    rw [sites_decision] at member
    simp only [Site.decision, List.mem_cons, List.mem_append, List.not_mem_nil, or_false] at member
    rcases member with rfl | member | rfl | member | rfl | rfl
    · exact Site.sees_nothing rfl
    · exact entered ▸ first _ onLeft site member
    · exact alone left onLeft entered
    · exact between ▸ second _ onRight site member
    · exact alone right onRight between
    · exact Site.sees_nothing rfl

/-- A condition and its test see the symbols as they are. -/
theorem sees_tested {scopes : List ScopeId} {test : Expression} (progress : Progress)
    (opcode : Opcode) (target : Label) (confined : test.Confined scopes) :
    ∀ site, site ∈ test.sites progress ∨ site = .test test progress opcode target →
      site.Sees scopes (test.after progress).symbols := by
  intro site position
  rw [(test.evaluates progress).symbols]
  rcases position with member | rfl
  · exact test.sees_sites progress confined site member
  · intro subject listed symbol named
    cases List.mem_singleton.mp listed
    exact ⟨confined symbol named, rfl⟩

end Expression

namespace Statement

variable {around : List ScopeId} {exits : Exits}

/-- Statements see their symbols where they are at the end, if each one does. -/
theorem sees_sitesAll_of {statements : List Statement}
    (each : ∀ statement ∈ statements, (around ++ statement.scopes).Nodup → ∀ progress,
      ∀ site ∈ statement.sites exits progress,
        site.Sees (around ++ statement.scopes) (statement.after exits progress).symbols)
    (distinct : (around ++ scopesOfList statements).Nodup) (progress : Progress) :
    ∀ site ∈ sitesAll statements exits progress,
      site.Sees (around ++ scopesOfList statements)
        (afterAll exits statements progress).symbols := by
  induction statements generalizing progress with
  | nil => simp [sitesAll]
  | cons first rest ih =>
    rw [scopesOfList] at distinct ⊢
    rw [← List.append_assoc] at distinct
    obtain ⟨early, late, apart⟩ := List.nodup_append.mp distinct
    -- The scopes of the others are distinct among themselves, too.
    have later : (around ++ scopesOfList rest).Nodup := by
      refine List.nodup_append.mpr ⟨(List.nodup_append.mp early).1, late, fun scope inside => ?_⟩
      exact apart scope (List.mem_append_left _ inside)
    intro site member
    rw [sitesAll] at member
    rw [afterAll_cons]
    rcases List.mem_append.mp member with member | member
    · -- Later statements place the symbols of other scopes.
      refine ((each first (by simp) early progress site member).later
        (placesAll rest exits _) fun scope inside listed => ?_).widen fun scope inside => ?_
      · exact apart scope inside scope listed rfl
      · rw [← List.append_assoc]
        exact List.mem_append_left _ inside
    · exact (ih (fun statement member => each statement (by simp [member])) later _ site
        member).inside (List.subset_append_right _ _)

/-- Wherever a statement stands, all its sites see their symbols where they are at its end. -/
def SeesOwn (statement : Statement) : Prop :=
  ∀ ⦃around : List ScopeId⦄ ⦃exits : Exits⦄, statement.Confined around →
    (around ++ statement.scopes).Nodup → ∀ progress : Progress,
      ∀ site ∈ statement.sites exits progress,
        site.Sees (around ++ statement.scopes) (statement.after exits progress).symbols

theorem seesOwn_evaluate (value : Expression) : (evaluate value).SeesOwn := by
  intro around exits confined _ progress
  cases confined with
  | evaluate inside =>
    rw [after_evaluate, (value.evaluates progress).symbols, sites, scopes, List.append_nil]
    exact value.sees_sites progress inside

theorem seesOwn_assign (left right : Expression) : (assign left right).SeesOwn := by
  intro around exits confined _ progress
  cases confined with
  | assign place value =>
    -- Neither side places a symbol, so the whole statement sees what it starts with.
    have computed := (right.evaluates progress).symbols
    rw [after_assign, (left.evaluates_located _).symbols, computed, sites, scopes, List.append_nil]
    intro site member
    simp only [List.mem_append, List.mem_singleton] at member
    rcases member with member | member | rfl
    · exact right.sees_sites progress value site member
    · refine computed ▸ left.target.sees_sites (right.after progress) ?_ site member
      intro symbol named
      exact place symbol (left.symbols_target ▸ named)
    · -- The store is about both sides.
      intro subject listed symbol named
      simp only [Site.subjects, List.mem_cons, List.not_mem_nil, or_false] at listed
      rcases listed with rfl | rfl
      · exact ⟨value symbol named, rfl⟩
      · exact ⟨place symbol named, by rw [computed]⟩

theorem seesOwn_breakLoop : breakLoop.SeesOwn := by
  intro around exits _ _ progress site member
  rw [sites] at member
  cases held : exits.loop? with
  | none => simp [held] at member
  | some exit =>
    simp only [held, Option.map_some, Option.toList_some, List.mem_singleton] at member
    exact member ▸ Site.sees_nothing rfl

theorem seesOwn_returnValue (value : Expression) : (returnValue value).SeesOwn := by
  intro around exits confined _ progress
  cases confined with
  | returnValue inside =>
    rw [after_returnValue, (value.evaluates progress).symbols, sites, scopes, List.append_nil]
    intro site member
    -- The return itself names what its value does.
    rcases List.mem_append.mp member with member | member
    · exact value.sees_sites progress inside site member
    · intro subject listed symbol named
      rw [List.mem_singleton.mp member] at listed
      cases List.mem_singleton.mp listed
      exact ⟨inside symbol named, rfl⟩

theorem seesOwn_block (scope : ScopeId) {body : List Statement}
    (each : ∀ statement ∈ body, statement.SeesOwn) : (block scope body).SeesOwn := by
  intro around exits confined distinct progress
  have inside : ∀ statement ∈ body, statement.Confined (scope :: around) := by
    cases confined with
    | block inside => exact inside
  rw [scopes] at distinct ⊢
  -- The scope of the block is around its statements.
  have nested : (scope :: around ++ scopesOfList body).Nodup :=
    (List.perm_middle.nodup_iff).mp distinct
  rw [after_block, sites]
  intro site member
  rcases List.mem_cons.mp member with rfl | member
  · exact Site.sees_nothing rfl
  · refine (sees_sitesAll_of (fun statement member distinct progress => ?_) nested _ site
      member).widen fun other listed => List.perm_middle.mem_iff.mpr listed
    exact each statement member (inside statement member) distinct progress

theorem seesOwn_whileLoop (test : Expression) {body : Statement} (turn : body.SeesOwn) :
    (whileLoop test body).SeesOwn := by
  intro around exits confined distinct progress
  cases confined with
  | whileLoop tested inside =>
    rw [scopes] at distinct ⊢
    have sees := test.sees_tested progress.skip.skip .je progress.skip.label tested
    rw [after_whileLoop, sites]
    intro site member
    simp only [List.mem_cons, List.mem_append, List.not_mem_nil, or_false] at member
    -- What comes behind the test does not move what it names.
    rcases member with rfl | member | rfl | member | rfl | rfl
    · exact Site.sees_nothing rfl
    · exact (sees _ (.inl member)).past (body.places _ _) distinct
    · exact (sees _ (.inr rfl)).past (body.places _ _) distinct
    · exact turn inside distinct _ site member
    · exact Site.sees_nothing rfl
    · exact Site.sees_nothing rfl

theorem seesOwn_forLoop (test : Expression) {init increment body : Statement} (start : init.SeesOwn)
    (next : increment.SeesOwn) (turn : body.SeesOwn) :
    (forLoop init test increment body).SeesOwn := by
  intro around exits confined distinct progress
  cases confined with
  | forLoop begun tested stepped inside =>
    rw [scopes] at distinct ⊢
    let started := init.after exits progress.skip.skip
    let turned := body.after (exits.within progress.skip.label) (test.after started)
    have sees := test.sees_tested started .je progress.skip.label tested
    -- The step after a turn is lowered after the turn, but its blocks are numbered before.
    have stepping : Progress.Places increment.scopes turned (increment.after exits turned) :=
      increment.places _ _
    have turning : Progress.Places (increment.scopes ++ body.scopes) (test.after started)
        (increment.after exits turned) :=
      ((body.places _ _).widen (List.subset_append_right _ _)).trans
        (stepping.widen (List.subset_append_left _ _))
    have first : (around ++ (increment.scopes ++ body.scopes)).Nodup :=
      distinct.sublist ((List.Sublist.refl around).append (List.sublist_append_right _ _))
    have second : (around ++ body.scopes ++ increment.scopes).Nodup := by
      rw [List.append_assoc]
      exact ((List.Perm.refl around).append List.perm_append_comm).nodup_iff.mp first
    have third : (around ++ increment.scopes).Nodup :=
      first.sublist ((List.Sublist.refl around).append (List.sublist_append_left _ _))
    rw [after_forLoop, sites]
    intro site member
    simp only [List.mem_cons, List.mem_append, List.not_mem_nil, or_false] at member
    rcases member with member | rfl | member | rfl | member | member | rfl | rfl
    · -- What the header starts with is lowered before anything else of the loop.
      rw [← List.append_assoc] at distinct ⊢
      have seen := start begun (List.nodup_append.mp distinct).1 _ site member
      exact seen.past (.trans (.evaluates (test.evaluates started)) turning) distinct
    · exact Site.sees_nothing rfl
    · exact ((sees _ (.inl member)).past turning first).inside (List.subset_append_right _ _)
    · exact ((sees _ (.inr rfl)).past turning first).inside (List.subset_append_right _ _)
    · have seen := (turn inside (List.nodup_append.mp second).1 _ site member).past stepping second
      rw [List.append_assoc] at seen
      exact seen.inside fun scope listed => by
        rcases List.mem_append.mp listed with listed | listed <;> simp [listed]
    · exact (next stepped third _ site member).inside fun scope listed => by simp [listed]
    · exact Site.sees_nothing rfl
    · exact Site.sees_nothing rfl

theorem seesOwn_ifThen (test : Expression) {body : Statement} (taken : body.SeesOwn) :
    (ifThen test body).SeesOwn := by
  intro around exits confined distinct progress
  cases confined with
  | ifThen tested inside =>
    rw [scopes] at distinct ⊢
    have sees := test.sees_tested progress.skip .je progress.label tested
    rw [after_ifThen, sites]
    intro site member
    simp only [List.mem_cons, List.mem_append, List.not_mem_nil, or_false] at member
    -- What comes behind the test does not move what it names.
    rcases member with member | rfl | member | rfl
    · exact (sees _ (.inl member)).past (body.places _ _) distinct
    · exact (sees _ (.inr rfl)).past (body.places _ _) distinct
    · exact taken inside distinct _ site member
    · exact Site.sees_nothing rfl

theorem seesOwn_ifElse (test : Expression) {body otherwise : Statement} (taken : body.SeesOwn)
    (other : otherwise.SeesOwn) : (ifElse test body otherwise).SeesOwn := by
  intro around exits confined distinct progress
  cases confined with
  | ifElse tested inside beside =>
    rw [scopes] at distinct ⊢
    have sees := test.sees_tested progress.skip .je progress.label tested
    have first : (around ++ body.scopes).Nodup := by
      rw [← List.append_assoc] at distinct
      exact (List.nodup_append.mp distinct).1
    have second : (around ++ otherwise.scopes).Nodup :=
      distinct.sublist ((List.Sublist.refl around).append (List.sublist_append_right _ _))
    -- The other branch places the symbols of other scopes than the first one.
    have skipped : Progress.Places otherwise.scopes (body.after exits (test.after progress.skip))
        (otherwise.after exits (body.after exits (test.after progress.skip)).skip) :=
      .trans (.evaluates (Progress.evaluates_skip _)) (otherwise.places _ _)
    have past {site : Site} (seen : site.Sees (around ++ body.scopes)
        (body.after exits (test.after progress.skip)).symbols) :
        site.Sees (around ++ (body.scopes ++ otherwise.scopes))
          (otherwise.after exits (body.after exits (test.after progress.skip)).skip).symbols := by
      rw [← List.append_assoc] at distinct ⊢
      exact seen.past skipped distinct
    rw [after_ifElse, sites]
    intro site member
    simp only [List.mem_cons, List.mem_append, List.not_mem_nil, or_false] at member
    rcases member with member | rfl | member | rfl | rfl | member | rfl
    · exact past ((sees _ (.inl member)).past (body.places _ _) first)
    · exact past ((sees _ (.inr rfl)).past (body.places _ _) first)
    · exact past (taken inside first _ site member)
    · exact Site.sees_nothing rfl
    · exact Site.sees_nothing rfl
    · exact (other beside second _ site member).inside (List.subset_append_right _ _)
    · exact Site.sees_nothing rfl

/-- A statement sees its symbols where they are at its end. -/
theorem sees_sites {statement : Statement} (confined : statement.Confined around)
    (distinct : (around ++ statement.scopes).Nodup) (progress : Progress) :
    ∀ site ∈ statement.sites exits progress,
      site.Sees (around ++ statement.scopes) (statement.after exits progress).symbols := by
  have own (statement : Statement) : statement.SeesOwn := by
    induction statement using inductionOn with
    | evaluate value => exact seesOwn_evaluate value
    | assign left right => exact seesOwn_assign left right
    | breakLoop => exact seesOwn_breakLoop
    | returnValue value => exact seesOwn_returnValue value
    | block scope body each => exact seesOwn_block scope each
    | whileLoop test body turn => exact seesOwn_whileLoop test turn
    | forLoop init test increment body start next turn => exact seesOwn_forLoop test start next turn
    | ifThen test body taken => exact seesOwn_ifThen test taken
    | ifElse test body otherwise taken other => exact seesOwn_ifElse test taken other
  exact own statement confined distinct progress

end Statement

end SmallC
