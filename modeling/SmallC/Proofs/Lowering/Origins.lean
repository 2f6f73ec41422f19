import SmallC.Proofs.Lowering.Sites
import SmallC.Proofs.Typing.Nodes

/-! Origins: each statement and node of a function has a stretch of its sites, and every site is the
own one of a statement or a node. -/

namespace SmallC

theorem infix_left {α : Type} {stretch first second : List α} (inside : stretch <:+: first) :
    stretch <:+: first ++ second := inside.trans (List.prefix_append _ _).isInfix

theorem infix_right {α : Type} {stretch first second : List α} (inside : stretch <:+: second) :
    stretch <:+: first ++ second := inside.trans (List.suffix_append _ _).isInfix

namespace Expression

theorem self_mem_nodes (expression : Expression) : expression ∈ expression.nodes := by
  cases expression <;> simp [nodes]

theorem nodes_target_subset (operand : Expression) : operand.target.nodes ⊆ operand.nodes := by
  unfold target
  split
  · rw [nodes]
    exact List.subset_cons_self _ _
  · exact List.Subset.refl _

mutual

/-- What is inside a node of an expression is inside the expression. -/
theorem nodes_subset {node : Expression} :
    (expression : Expression) → node ∈ expression.nodes → node.nodes ⊆ expression.nodes
  | .integer .., inside | .real _, inside | .string _, inside | .identifier .., inside => by
    rw [nodes] at inside
    rw [List.mem_singleton.mp inside]
    exact List.Subset.refl _
  -- A node is the expression itself or inside of one of its parts.
  | .call callee arguments type, inside => by
    rw [nodes] at inside
    rcases List.mem_cons.mp inside with rfl | inside
    · exact List.Subset.refl _
    · rw [nodes]
      exact List.subset_cons_of_subset _ (nodes_subset_list arguments inside)
  | .unary _ operand _, inside | .step _ _ operand _, inside => by
    rw [nodes] at inside
    rcases List.mem_cons.mp inside with rfl | inside
    · exact List.Subset.refl _
    · rw [nodes]
      exact List.subset_cons_of_subset _ (nodes_subset operand inside)
  | .binary _ left right _, inside => by
    rw [nodes] at inside
    rcases List.mem_cons.mp inside with rfl | inside
    · exact List.Subset.refl _
    · rw [nodes]
      refine List.subset_cons_of_subset _ ?_
      rcases List.mem_append.mp inside with inside | inside
      · exact List.subset_append_of_subset_left _ (nodes_subset left inside)
      · exact List.subset_append_of_subset_right _ (nodes_subset right inside)

theorem nodes_subset_list {node : Expression} :
    (expressions : List Expression) → node ∈ nodesOfList expressions →
      node.nodes ⊆ nodesOfList expressions
  | [], inside => by cases inside
  | first :: rest, inside => by
    rw [nodesOfList] at inside ⊢
    rcases List.mem_append.mp inside with inside | inside
    · exact List.subset_append_of_subset_left _ (nodes_subset first inside)
    · exact List.subset_append_of_subset_right _ (nodes_subset_list rest inside)

end

/-- The nodes of a part are nodes of the whole. -/
theorem nodes_part_subset {expression part : Expression} (member : part ∈ expression.parts) :
    part.nodes ⊆ expression.nodes := by
  intro node below
  cases expression with
  | integer | real | string | identifier => cases member
  | call callee arguments type =>
    rw [nodes]
    exact List.mem_cons_of_mem _ (mem_nodesOfList.mpr ⟨part, member, below⟩)
  | unary op operand type =>
    -- The part of an address is the target of its operand, which is the operand itself or below it.
    have here : node ∈ operand.nodes := by
      cases op <;> rw [List.mem_singleton.mp member] at below <;>
        first | exact below | exact operand.nodes_target_subset below
    rw [nodes]
    exact List.mem_cons_of_mem _ here
  | step op scale operand type =>
    rw [List.mem_singleton.mp member] at below
    rw [nodes]
    exact List.mem_cons_of_mem _ (operand.nodes_target_subset below)
  | binary op left right type =>
    rw [nodes]
    simp only [parts, List.mem_cons, List.not_mem_nil, or_false] at member
    rcases member with rfl | rfl
    · exact List.mem_cons_of_mem _ (List.mem_append_left _ below)
    · exact List.mem_cons_of_mem _ (List.mem_append_right _ below)

theorem sites_infix_sitesAll {expressions : List Expression} {expression : Expression}
    (member : expression ∈ expressions) (progress : Progress) :
    ∃ reached, expression.sites reached <:+: sitesAll expressions progress := by
  induction expressions generalizing progress with
  | nil => cases member
  | cons first rest ih =>
    rw [sitesAll]
    -- Each expression starts with what those before it have left.
    rcases List.mem_cons.mp member with rfl | member
    · exact ⟨progress, infix_left List.infix_rfl⟩
    · obtain ⟨reached, stretch⟩ := ih member (first.after progress)
      exact ⟨reached, infix_right stretch⟩

theorem mem_sitesAll {expressions : List Expression} {progress : Progress} {site : Site}
    (member : site ∈ sitesAll expressions progress) : ∃ expression ∈ expressions, ∃ reached,
      progress.Advances reached ∧ expression.sites reached <:+: sitesAll expressions progress ∧
        site ∈ expression.sites reached := by
  induction expressions generalizing progress with
  | nil => simp [sitesAll] at member
  | cons first rest ih =>
    rw [sitesAll] at member ⊢
    -- A site is that of the first expression or of a later one, which starts with more progress.
    rcases List.mem_append.mp member with member | member
    · exact ⟨first, by simp, progress, .refl _, infix_left List.infix_rfl, member⟩
    · obtain ⟨expression, listed, reached, advances, stretch, here⟩ := ih member
      exact ⟨expression, List.mem_cons_of_mem _ listed, reached,
        (first.evaluates progress).toAdvances.trans advances, infix_right stretch, here⟩

/-- A node stands among sites when it has a stretch of them, or when it is what a pointer leads to
and the pointer has one. -/
def Among (node : Expression) (sites : List Site) : Prop :=
  (∃ reached, node.sites reached <:+: sites) ∨
    ∃ pointer type reached, node = .unary .dereference pointer type ∧
      pointer.sites reached <:+: sites

section Among

variable {node : Expression} {sites others : List Site}

theorem Among.mono (among : node.Among sites) (stretch : sites <:+: others) : node.Among others := by
  rcases among with ⟨reached, here⟩ | ⟨pointer, type, reached, same, here⟩
  · exact .inl ⟨reached, here.trans stretch⟩
  · exact .inr ⟨pointer, type, reached, same, here.trans stretch⟩

/-- An operand stands where its target does. -/
theorem among_target {operand : Expression} {reached : Progress}
    (stretch : operand.target.sites reached <:+: sites) : operand.Among sites := by
  rcases operand.target_cases with ⟨pointer, pointed, rfl⟩ | ⟨itself, -⟩
  · exact .inr ⟨pointer, pointed, reached, rfl, stretch⟩
  · rw [itself] at stretch
    exact .inl ⟨reached, stretch⟩

/-- A node inside an operand is inside its target, or is what the target leads to. -/
theorem mem_nodes_target {operand : Expression} (inside : node ∈ operand.nodes) :
    node ∈ operand.target.nodes ∨ ∃ type, node = .unary .dereference operand.target type := by
  rcases operand.target_cases with ⟨pointer, pointed, rfl⟩ | ⟨itself, -⟩
  · rw [nodes] at inside
    rcases List.mem_cons.mp inside with rfl | below
    · exact .inr ⟨pointed, rfl⟩
    · exact .inl below
  · rw [itself]
    exact .inl inside

/-- A node inside an expression is the expression itself, inside of a part, or what a part leads
to. -/
theorem mem_nodes_parts {expression : Expression} (inside : node ∈ expression.nodes) :
    node = expression ∨ ∃ part ∈ expression.parts,
      node ∈ part.nodes ∨ ∃ type, node = .unary .dereference part type := by
  cases expression with
  | integer | real | string | identifier =>
    rw [nodes] at inside
    exact .inl (List.mem_singleton.mp inside)
  | call callee arguments found =>
    rw [nodes] at inside
    rcases List.mem_cons.mp inside with rfl | below
    · exact .inl rfl
    · obtain ⟨argument, member, here⟩ := mem_nodesOfList.mp below
      exact .inr ⟨argument, member, .inl here⟩
  | unary op operand found =>
    rw [nodes] at inside
    rcases List.mem_cons.mp inside with rfl | below
    · exact .inl rfl
    -- Only an address reaches its operand through the target.
    · cases op with
      | address => exact .inr ⟨_, List.mem_singleton_self _, mem_nodes_target below⟩
      | _ => exact .inr ⟨_, List.mem_singleton_self _, .inl below⟩
  | step op scale operand found =>
    rw [nodes] at inside
    rcases List.mem_cons.mp inside with rfl | below
    · exact .inl rfl
    · exact .inr ⟨_, List.mem_singleton_self _, mem_nodes_target below⟩
  | binary op left right found =>
    rw [nodes] at inside
    rcases List.mem_cons.mp inside with rfl | below
    · exact .inl rfl
    · rcases List.mem_append.mp below with below | below
      · exact .inr ⟨left, by simp [parts], .inl below⟩
      · exact .inr ⟨right, by simp [parts], .inl below⟩

/-- Every node of an expression stands among its sites. -/
theorem among_sites {expression : Expression} (inside : node ∈ expression.nodes)
    (progress : Progress) : node.Among (expression.sites progress) := by
  induction expression using inductionOnParts generalizing progress with
  | strict expression plain ih =>
    rw [sites_strict progress plain]
    rcases mem_nodes_parts inside with rfl | ⟨part, member, below⟩
    · exact .inl ⟨progress, [], [], by simp [sites_strict progress plain]⟩
    -- A node inside a part is found in the stretch of the sites that the part takes.
    · obtain ⟨start, stretch⟩ := sites_infix_sitesAll member progress
      have whole : part.sites start <:+: sitesAll expression.parts progress
          ++ [.node expression progress] := infix_left stretch
      rcases below with below | ⟨type, rfl⟩
      · exact (ih part member below start).mono whole
      · exact .inr ⟨part, type, start, rfl, whole⟩
  | decision either left right found first second =>
    rw [nodes] at inside
    rcases List.mem_cons.mp inside with rfl | below
    · exact .inl ⟨progress, List.infix_rfl⟩
    · rw [sites_decision, Site.decision]
      rcases List.mem_append.mp below with below | below
      · exact (first below (progress.enter found)).mono (List.infix_cons (infix_left List.infix_rfl))
      · exact (second below (left.after (progress.enter found))).mono
          (List.infix_cons (infix_right (List.infix_cons (infix_left List.infix_rfl))))

/-- The nodes below a node that stands among sites stand there too. -/
theorem Among.below {value : Expression} (among : value.Among sites) (inside : node ∈ value.nodes) :
    node.Among sites := by
  rcases among with ⟨reached, here⟩ | ⟨pointer, type, reached, rfl, here⟩
  · exact (among_sites inside reached).mono here
  · rw [nodes] at inside
    rcases List.mem_cons.mp inside with rfl | below
    · exact .inr ⟨pointer, type, reached, rfl, here⟩
    · exact (among_sites below reached).mono here

end Among

/-- The sites of a node besides those of its parts. -/
def ownSites : Expression → Progress → List Site
  | .binary .logicalAnd left right type, progress =>
    Site.decision false left right type progress [] []
  | .binary .logicalOr left right type, progress =>
    Site.decision true left right type progress [] []
  | expression, progress => [.node expression progress]

theorem ownSites_strict {expression : Expression} (strict : expression.isDecision = false)
    (progress : Progress) : expression.ownSites progress = [.node expression progress] := by
  cases expression with
  | binary op left right type =>
    cases op with
    | logicalAnd | logicalOr => cases strict
    | _ => rfl
  | _ => rfl

theorem ownSites_decision (either : Bool) (left right : Expression) (type : Ty)
    (progress : Progress) :
    (Expression.binary (decision either) left right type).ownSites progress =
      Site.decision either left right type progress [] [] := by
  cases either <;> rfl

/-- What the own sites of a node are: the node itself, or the steps of a decision. -/
inductive Owns (node : Expression) (progress : Progress) : Site → Prop where
  /-- The node works on its parts. -/
  | node (strict : node.isDecision = false) : Owns node progress (.node node progress)
  /-- A decision takes its place. -/
  | enter {either : Bool} {left right : Expression} {type : Ty}
    (same : node = .binary (decision either) left right type) : Owns node progress (.enter type progress)
  /-- The left operand decides. -/
  | left {either : Bool} {left right : Expression} {type : Ty}
    (same : node = .binary (decision either) left right type) : Owns node progress
      (.test left (progress.enter type) (if either then .jne else .je) progress.label)
  /-- The right operand decides. -/
  | right {either : Bool} {left right : Expression} {type : Ty}
    (same : node = .binary (decision either) left right type) : Owns node progress
      (.test right (left.after (progress.enter type)) (if either then .jne else .je) progress.label)
  /-- The decision is stored. -/
  | settle {either : Bool} {left right : Expression} {type : Ty}
    (same : node = .binary (decision either) left right type) :
    Owns node progress (.settle either type progress)

theorem owns_of_own {node : Expression} {progress : Progress} {site : Site}
    (own : site ∈ node.ownSites progress) : node.Owns progress site := by
  -- A strict node has one site, and a decision has four.
  cases strict : node.isDecision with
  | false =>
    rw [ownSites_strict strict] at own
    rw [List.mem_singleton.mp own]
    exact .node strict
  | true =>
    obtain ⟨either, left, right, type, rfl⟩ := decision_cases strict
    rw [ownSites_decision] at own
    simp only [Site.decision, List.mem_cons, List.nil_append, List.not_mem_nil, or_false] at own
    rcases own with rfl | rfl | rfl | rfl
    · exact .enter rfl
    · exact .left rfl
    · exact .right rfl
    · exact .settle rfl

end Expression

/-- A site that is the own one of a node, which has a stretch of the sites behind the start. -/
def Site.OfNode (nodes : List Expression) (sites : List Site) (start : Progress) (site : Site) :
    Prop :=
  ∃ node ∈ nodes, ∃ progress : Progress, start.Advances progress ∧
    node.sites progress <:+: sites ∧ node.Owns progress site

theorem Site.OfNode.mono {nodes others : List Expression} {sites wider : List Site}
    {start later : Progress} {site : Site} (origin : site.OfNode nodes sites later)
    (inside : nodes ⊆ others) (stretch : sites <:+: wider) (advances : start.Advances later) :
    site.OfNode others wider start := by
  obtain ⟨node, listed, progress, after, here, own⟩ := origin
  exact ⟨node, inside listed, progress, advances.trans after, here.trans stretch, own⟩

/-- Every site of an expression is the own one of a node inside it. -/
theorem Expression.origin (expression : Expression) (progress : Progress) :
    ∀ site ∈ expression.sites progress,
      site.OfNode expression.nodes (expression.sites progress) progress := by
  induction expression using inductionOnParts generalizing progress with
  | strict expression plain ih =>
    intro site member
    rw [sites_strict progress plain] at member
    rcases List.mem_append.mp member with member | own
    · obtain ⟨part, listed, reached, advances, stretch, here⟩ := mem_sitesAll member
      refine (ih part listed reached site here).mono (nodes_part_subset listed) ?_ advances
      rw [sites_strict progress plain]
      exact infix_left stretch
    · rw [List.mem_singleton.mp own]
      exact ⟨expression, self_mem_nodes _, progress, .refl _, List.infix_rfl, .node plain⟩
  | decision either left right type first second =>
    have entered := (progress.evaluates_enter type).toAdvances
    have between := entered.trans (left.evaluates (progress.enter type)).toAdvances
    intro site member
    -- The three sites that a decision adds are its own; those between them belong to its operands.
    have own (listed : site ∈ Site.decision either left right type progress [] []) :
        site.OfNode (Expression.binary (decision either) left right type).nodes
          ((Expression.binary (decision either) left right type).sites progress) progress :=
      ⟨_, self_mem_nodes _, progress, .refl _, List.infix_rfl,
        owns_of_own (by rwa [ownSites_decision])⟩
    rw [nodes, sites_decision] at *
    simp only [Site.decision, List.mem_cons, List.mem_append, List.not_mem_nil, or_false,
      List.nil_append] at member own
    rcases member with here | member | here | member | here
    · exact own (.inl here)
    · exact (first _ site member).mono (List.subset_cons_of_subset _ (List.subset_append_left _ _))
        (List.infix_cons (infix_left List.infix_rfl)) entered
    · exact own (.inr (.inl here))
    · exact (second _ site member).mono
        (List.subset_cons_of_subset _ (List.subset_append_right _ _))
        (List.infix_cons (infix_right (List.infix_cons (infix_left List.infix_rfl)))) between
    · exact own (.inr (.inr here))

namespace Statement

mutual

/-- The statements inside a statement, each before those below it. -/
def statements : Statement → List Statement
  | .evaluate value => [.evaluate value]
  | .assign left right => [.assign left right]
  | .breakLoop => [.breakLoop]
  | .returnValue value => [.returnValue value]
  | .block scope body => .block scope body :: statementsOfList body
  | .whileLoop test body => .whileLoop test body :: body.statements
  | .forLoop init test increment body =>
    .forLoop init test increment body
      :: (init.statements ++ (increment.statements ++ body.statements))
  | .ifThen test body => .ifThen test body :: body.statements
  | .ifElse test body otherwise =>
    .ifElse test body otherwise :: (body.statements ++ otherwise.statements)

/-- The statements inside several statements in order. -/
def statementsOfList : List Statement → List Statement
  | [] => []
  | first :: rest => first.statements ++ statementsOfList rest

end

theorem mem_statementsOfList {inner : Statement} {statements : List Statement} :
    inner ∈ statementsOfList statements ↔ ∃ statement ∈ statements, inner ∈ statement.statements := by
  induction statements with
  | nil => simp [statementsOfList]
  | cons first rest ih => simp [statementsOfList, ih]

/-- The statements directly inside a statement. -/
def children : Statement → List Statement
  | .evaluate _ | .assign .. | .breakLoop | .returnValue _ => []
  | .block _ body => body
  | .whileLoop _ body | .ifThen _ body => [body]
  | .forLoop init _ increment body => [init, increment, body]
  | .ifElse _ body otherwise => [body, otherwise]

/-- What holds of a statement where it holds of those directly inside holds of every statement. -/
theorem inductionOnChildren {motive : Statement → Prop}
    (up : ∀ statement, (∀ child ∈ statement.children, motive child) → motive statement)
    (statement : Statement) : motive statement := by
  induction statement using inductionOn with
  | evaluate | assign | breakLoop | returnValue => exact up _ (fun child listed => by cases listed)
  | block scope body each => exact up _ each
  | whileLoop test body turn => exact up _ (List.forall_mem_singleton.mpr turn)
  | forLoop init test increment body start next turn =>
    -- A loop with a header has three statements directly inside.
    refine up _ ?_
    simp only [children, List.forall_mem_cons]
    exact ⟨start, next, turn, by simp⟩
  | ifThen test body taken => exact up _ (List.forall_mem_singleton.mpr taken)
  | ifElse test body otherwise taken other =>
    refine up _ ?_
    simp only [children, List.forall_mem_cons]
    exact ⟨taken, other, by simp⟩

/-- What is inside a statement is the statement itself, or inside one directly inside. -/
theorem mem_statements {statement inner : Statement} : inner ∈ statement.statements ↔
    inner = statement ∨ ∃ child ∈ statement.children, inner ∈ child.statements := by
  cases statement <;> simp [statements, children, mem_statementsOfList]

theorem self_mem_statements (statement : Statement) : statement ∈ statement.statements :=
  mem_statements.mpr (.inl rfl)

/-- What passes from statements to those directly inside passes to all inside. -/
theorem preserved_inside {motive : Statement → Prop}
    (down : ∀ statement, motive statement → ∀ child ∈ statement.children, motive child)
    {statement inner : Statement} (inside : inner ∈ statement.statements)
    (holds : motive statement) : motive inner := by
  induction statement using inductionOnChildren with
  | up statement each =>
    rcases mem_statements.mp inside with rfl | ⟨child, listed, below⟩
    · exact holds
    · exact each child listed below (down statement holds child listed)

/-- The sites of a statement besides those of its expressions and of the statements inside it. -/
def ownSites : Statement → Exits → Progress → List Site
  | .evaluate _, _, _ => []
  | .assign left right, _, progress => [.store left right progress]
  | .breakLoop, exits, _ => (exits.loop?.map Site.jump).toList
  | .returnValue value, exits, progress => [.give value progress exits.function]
  | .block scope _, _, progress => [.bind scope progress]
  | .whileLoop test _, _, progress =>
    [.mark progress.label, .test test progress.skip.skip .je progress.skip.label,
      .jump progress.label, .mark progress.skip.label]
  | .forLoop init test _ _, exits, progress =>
    [.mark progress.label,
      .test test (init.after exits progress.skip.skip) .je progress.skip.label,
      .jump progress.label, .mark progress.skip.label]
  | .ifThen test _, _, progress =>
    [.test test progress.skip .je progress.label, .mark progress.label]
  | .ifElse test body _, exits, progress =>
    let taken := body.after exits (test.after progress.skip)
    [.test test progress.skip .je progress.label, .jump taken.label, .mark progress.label,
      .mark taken.label]

/-- What a statement computes itself, each expression with the progress from which it is lowered. -/
def computed : Statement → Exits → Progress → List (Expression × Progress)
  | .evaluate value, _, progress | .returnValue value, _, progress => [(value, progress)]
  | .assign left right, _, progress => [(right, progress), (left.target, right.after progress)]
  | .breakLoop, _, _ | .block .., _, _ => []
  | .whileLoop test _, _, progress => [(test, progress.skip.skip)]
  | .forLoop init test _ _, exits, progress => [(test, init.after exits progress.skip.skip)]
  | .ifThen test _, _, progress | .ifElse test _ _, _, progress => [(test, progress.skip)]

/-- What a statement tests. -/
def test? : Statement → Option Expression
  | .whileLoop test _ | .forLoop _ test _ _ | .ifThen test _ | .ifElse test _ _ => some test
  | _ => none

theorem mem_of_test {statement : Statement} {test : Expression} (tests : statement.test? = some test) :
    test ∈ statement.expressions := by
  cases statement <;> cases tests <;> simp [expressions]

/-- What the own sites of a statement are: stores, returns, blocks, tests, and the labels and jumps
between them. -/
inductive Owns (statement : Statement) (exits : Exits) (progress : Progress) : Site → Prop where
  /-- An assignment stores. -/
  | store {left right : Expression} (same : statement = .assign left right) :
    Owns statement exits progress (.store left right progress)
  /-- A return goes to the end of the function. -/
  | give {value : Expression} (same : statement = .returnValue value) :
    Owns statement exits progress (.give value progress exits.function)
  /-- A block gives its variables places. -/
  | bind {scope : ScopeId} {body : List Statement} (same : statement = .block scope body) :
    Owns statement exits progress (.bind scope progress)
  /-- A test goes to a new label. -/
  | test {test : Expression} {reached : Progress} {label : Label}
    (tests : statement.test? = some test)
    (computed : (test, reached) ∈ statement.computed exits progress)
    (new : progress.nextLabel ≤ label.number) :
    Owns statement exits progress (.test test reached .je label)
  /-- A label is marked. -/
  | mark (label : Label) : Owns statement exits progress (.mark label)
  /-- A jump goes to a new label or leaves the loop. -/
  | jump {label : Label} (goes : progress.nextLabel ≤ label.number ∨ exits.loop? = some label) :
    Owns statement exits progress (.jump label)

theorem owns_of_own {statement : Statement} {exits : Exits} {progress : Progress} {site : Site}
    (own : site ∈ statement.ownSites exits progress) : statement.Owns exits progress site := by
  -- The labels that a statement takes are the next ones when it starts.
  have here : progress.nextLabel ≤ progress.label.number := Nat.le_refl _
  have next : progress.nextLabel ≤ progress.skip.label.number := Nat.le_succ _
  cases statement with
  | evaluate => cases own
  | assign | returnValue | block =>
    rw [List.mem_singleton.mp own]
    first | exact .store rfl | exact .give rfl | exact .bind rfl
  | breakLoop =>
    rw [ownSites, Option.mem_toList, Option.map_eq_some_iff] at own
    obtain ⟨exit, around, rfl⟩ := own
    exact .jump (.inr around)
  | whileLoop | forLoop =>
    simp only [ownSites, List.mem_cons, List.not_mem_nil, or_false] at own
    rcases own with rfl | rfl | rfl | rfl
    · exact .mark _
    · exact .test rfl (List.mem_singleton_self _) next
    · exact .jump (.inl here)
    · exact .mark _
  | ifThen =>
    simp only [ownSites, List.mem_cons, List.not_mem_nil, or_false] at own
    rcases own with rfl | rfl
    · exact .test rfl (List.mem_singleton_self _) here
    · exact .mark _
  | ifElse test body =>
    have taken : progress.nextLabel ≤ (body.after exits (test.after progress.skip)).nextLabel :=
      Nat.le_trans (Nat.le_succ _) (Nat.le_trans (test.evaluates progress.skip).labels
        (body.advances exits _).labels)
    simp only [ownSites, List.mem_cons, List.not_mem_nil, or_false] at own
    rcases own with rfl | rfl | rfl | rfl
    · exact .test rfl (List.mem_singleton_self _) here
    · exact .jump (.inl taken)
    · exact .mark _
    · exact .mark _

/-- What a statement computes has a stretch of its sites, and is inside its expressions. -/
theorem infix_computed {statement : Statement} {exits : Exits} {progress reached : Progress}
    {value : Expression} (listed : (value, reached) ∈ statement.computed exits progress) :
    value.sites reached <:+: statement.sites exits progress ∧ progress.Advances reached ∧
      value.nodes ⊆ Expression.nodesOfList statement.expressions := by
  -- Loops and conditionals hand out their labels before the test is lowered.
  have skipped := progress.evaluates_skip.toAdvances
  have entered := skipped.trans progress.skip.evaluates_skip.toAdvances
  have inside {whole : Expression} (member : whole ∈ statement.expressions) :
      whole.nodes ⊆ Expression.nodesOfList statement.expressions :=
    fun node below => Expression.mem_nodesOfList.mpr ⟨whole, member, below⟩
  cases statement with
  | evaluate computed | returnValue computed =>
    cases List.mem_singleton.mp listed
    rw [sites]
    refine ⟨?_, .refl _, inside (by simp [Statement.expressions])⟩
    first | exact List.infix_rfl | exact infix_left List.infix_rfl
  | assign left right =>
    simp only [computed, List.mem_cons, List.not_mem_nil, or_false, Prod.mk.injEq] at listed
    rw [sites]
    rcases listed with ⟨rfl, rfl⟩ | ⟨rfl, rfl⟩
    · exact ⟨infix_left List.infix_rfl, .refl _, inside (by simp [Statement.expressions])⟩
    · refine ⟨infix_right (infix_left List.infix_rfl), (right.evaluates _).toAdvances, ?_⟩
      exact List.Subset.trans left.nodes_target_subset (inside (by simp [Statement.expressions]))
  | breakLoop | block => cases listed
  | whileLoop test body =>
    cases List.mem_singleton.mp listed
    rw [sites]
    exact ⟨List.infix_cons (infix_left List.infix_rfl), entered,
      inside (by simp [Statement.expressions])⟩
  | forLoop init test increment body =>
    cases List.mem_singleton.mp listed
    rw [sites]
    exact ⟨infix_right (List.infix_cons (infix_left List.infix_rfl)),
      entered.trans (init.advances exits _), inside (by simp [Statement.expressions])⟩
  | ifThen test body =>
    cases List.mem_singleton.mp listed
    rw [sites]
    exact ⟨infix_left List.infix_rfl, skipped, inside (by simp [Statement.expressions])⟩
  | ifElse test body otherwise =>
    cases List.mem_singleton.mp listed
    rw [sites]
    exact ⟨infix_left List.infix_rfl, skipped, inside (by simp [Statement.expressions])⟩

/-- Where a statement is lowered inside others: the end of the function is the same, and the end of
the loop is too or has a later label. -/
structure Around (exits : Exits) (start : Progress) (inner : Exits) (progress : Progress) : Prop where
  /-- The statement comes behind the start. -/
  advances : start.Advances progress
  /-- A return goes to the same label. -/
  function : inner.function = exits.function
  /-- A break goes to the same label or to a new one. -/
  loop : inner.loop? = exits.loop? ∨ ∃ label, inner.loop? = some label ∧
    start.nextLabel ≤ label.number

/-- A statement that stands inside others, with a stretch of their sites. -/
structure Stands (statements : List Statement) (sites : List Site) (exits : Exits) (start : Progress)
    (inner : Statement) (around : Exits) (progress : Progress) : Prop extends
    Around exits start around progress where
  /-- It is one of the statements. -/
  listed : inner ∈ statements
  /-- Its sites are among the others side by side. -/
  stretch : inner.sites around progress <:+: sites

section Stands

variable {statements others : List Statement} {sites wider : List Site} {exits outer : Exits}
  {start later : Progress}

theorem Around.refl (exits : Exits) (progress : Progress) : Around exits progress exits progress :=
  ⟨.refl _, rfl, .inl rfl⟩

theorem Around.onward (advances : start.Advances later) : Around exits start exits later :=
  ⟨advances, rfl, .inl rfl⟩

theorem Around.trans {between inner : Exits} {middle progress : Progress}
    (early : Around exits start between middle) (late : Around between middle inner progress) :
    Around exits start inner progress := by
  refine ⟨early.advances.trans late.advances, late.function.trans early.function, ?_⟩
  rcases late.loop with same | ⟨label, named, new⟩
  · rw [same]
    exact early.loop
  · exact .inr ⟨label, named, Nat.le_trans early.advances.labels new⟩

end Stands

theorem sites_infix_sitesAll {statements : List Statement} {statement : Statement}
    (member : statement ∈ statements) (exits : Exits) (progress : Progress) :
    ∃ reached, progress.Advances reached ∧
      statement.sites exits reached <:+: sitesAll statements exits progress := by
  induction statements generalizing progress with
  | nil => cases member
  | cons first rest ih =>
    rw [sitesAll]
    -- Each statement starts with what those before it have left.
    rcases List.mem_cons.mp member with rfl | member
    · exact ⟨progress, .refl _, infix_left List.infix_rfl⟩
    · obtain ⟨reached, advances, stretch⟩ := ih member (first.after exits progress)
      exact ⟨reached, (first.advances exits progress).trans advances, infix_right stretch⟩

theorem mem_sitesAll {statements : List Statement} {exits : Exits} {progress : Progress}
    {site : Site} (member : site ∈ sitesAll statements exits progress) :
    ∃ statement ∈ statements, ∃ reached, progress.Advances reached ∧
      statement.sites exits reached <:+: sitesAll statements exits progress ∧
        site ∈ statement.sites exits reached := by
  induction statements generalizing progress with
  | nil => simp [sitesAll] at member
  | cons first rest ih =>
    rw [sitesAll] at member ⊢
    -- A site is that of the first statement or of a later one, which starts with more progress.
    rcases List.mem_append.mp member with member | member
    · exact ⟨first, by simp, progress, .refl _, infix_left List.infix_rfl, member⟩
    · obtain ⟨statement, listed, reached, advances, stretch, here⟩ := ih member
      exact ⟨statement, List.mem_cons_of_mem _ listed, reached,
        (first.advances exits progress).trans advances, infix_right stretch, here⟩

/-! Where the statements directly inside a statement stand among its sites. -/

section Children

variable {exits : Exits} {progress : Progress}

/-- A statement that stands directly inside another one. -/
abbrev StandsIn (statement : Statement) (exits : Exits) (progress : Progress) (child : Statement)
    (around : Exits) (reached : Progress) : Prop :=
  Stands statement.children (statement.sites exits progress) exits progress child around reached

theorem stands_block {scope : ScopeId} {body : List Statement} {child : Statement}
    {reached : Progress} (listed : child ∈ body) (advances : (progress.bind scope).Advances reached)
    (stretch : child.sites exits reached <:+: sitesAll body exits (progress.bind scope)) :
    (block scope body).StandsIn exits progress child exits reached := by
  refine ⟨.onward ((progress.advances_bind scope).trans advances), listed, ?_⟩
  rw [sites]
  exact List.infix_cons stretch

theorem advances_entry (progress : Progress) : progress.Advances progress.skip.skip :=
  progress.evaluates_skip.toAdvances.trans progress.skip.evaluates_skip.toAdvances

/-- The body of a loop is left at a label of the loop. -/
theorem stands_whileLoop (test : Expression) (body : Statement) :
    (whileLoop test body).StandsIn exits progress body (exits.within progress.skip.label)
      (test.after progress.skip.skip) := by
  refine ⟨⟨(advances_entry _).trans (test.evaluates _).toAdvances, rfl,
    .inr ⟨_, rfl, Nat.le_succ _⟩⟩, List.mem_singleton_self _, ?_⟩
  rw [sites]
  exact List.infix_cons (infix_right (List.infix_cons (infix_left List.infix_rfl)))

section ForLoop

variable (init : Statement) (test : Expression) (increment body : Statement)

theorem stands_forLoop_init :
    (forLoop init test increment body).StandsIn exits progress init exits progress.skip.skip := by
  refine ⟨.onward (advances_entry _), by simp [children], ?_⟩
  rw [sites]
  exact infix_left List.infix_rfl

theorem stands_forLoop_body :
    (forLoop init test increment body).StandsIn exits progress body
      (exits.within progress.skip.label) (test.after (init.after exits progress.skip.skip)) := by
  refine ⟨⟨?_, rfl, .inr ⟨_, rfl, Nat.le_succ _⟩⟩, by simp [children], ?_⟩
  · exact ((advances_entry _).trans (init.advances exits _)).trans (test.evaluates _).toAdvances
  · rw [sites]
    exact infix_right (List.infix_cons (infix_right (List.infix_cons (infix_left List.infix_rfl))))

/-- The increment comes behind the body, and is not inside the loop that a break leaves. -/
theorem stands_forLoop_increment :
    (forLoop init test increment body).StandsIn exits progress increment exits
      (body.after (exits.within progress.skip.label)
        (test.after (init.after exits progress.skip.skip))) := by
  refine ⟨.onward ((stands_forLoop_body init test increment body).advances.trans
    (body.advances _ _)), by simp [children], ?_⟩
  rw [sites]
  exact infix_right (List.infix_cons (infix_right (List.infix_cons
    (infix_right (infix_left List.infix_rfl)))))

end ForLoop

theorem stands_ifThen (test : Expression) (body : Statement) :
    (ifThen test body).StandsIn exits progress body exits (test.after progress.skip) := by
  refine ⟨.onward (progress.evaluates_skip.toAdvances.trans (test.evaluates _).toAdvances),
    List.mem_singleton_self _, ?_⟩
  rw [sites]
  exact infix_right (List.infix_cons (infix_left List.infix_rfl))

theorem stands_ifElse_taken (test : Expression) (body otherwise : Statement) :
    (ifElse test body otherwise).StandsIn exits progress body exits (test.after progress.skip) := by
  refine ⟨.onward (progress.evaluates_skip.toAdvances.trans (test.evaluates _).toAdvances),
    by simp [children], ?_⟩
  rw [sites]
  exact infix_right (List.infix_cons (infix_left List.infix_rfl))

theorem stands_ifElse_other (test : Expression) (body otherwise : Statement) :
    (ifElse test body otherwise).StandsIn exits progress otherwise exits
      (body.after exits (test.after progress.skip)).skip := by
  have taken : (ifElse test body otherwise).StandsIn exits progress body exits _ :=
    stands_ifElse_taken test body otherwise
  -- The second branch starts where the first one has ended, one label further on.
  refine ⟨.onward (taken.advances.trans
    ((body.advances exits _).trans (Progress.evaluates_skip _).toAdvances)),
    by simp [children], ?_⟩
  rw [sites]
  exact infix_right (List.infix_cons (infix_right (List.infix_cons
    (List.infix_cons (infix_left List.infix_rfl)))))

/-- Every statement directly inside another one stands there. -/
theorem stands_child {statement child : Statement} (listed : child ∈ statement.children)
    (exits : Exits) (progress : Progress) :
    ∃ around reached, statement.StandsIn exits progress child around reached := by
  cases statement with
  | evaluate | assign | breakLoop | returnValue => cases listed
  | block scope body =>
    obtain ⟨reached, advances, stretch⟩ := sites_infix_sitesAll listed exits (progress.bind scope)
    exact ⟨_, _, stands_block listed advances stretch⟩
  | whileLoop test body =>
    obtain rfl := List.mem_singleton.mp listed
    exact ⟨_, _, stands_whileLoop test _⟩
  | forLoop init test increment body =>
    -- The statements of a loop with a header, in the order in which they are written.
    simp only [children, List.mem_cons, List.not_mem_nil, or_false] at listed
    rcases listed with rfl | rfl | rfl
    · exact ⟨_, _, stands_forLoop_init _ test increment body⟩
    · exact ⟨_, _, stands_forLoop_increment init test _ body⟩
    · exact ⟨_, _, stands_forLoop_body init test increment _⟩
  | ifThen test body =>
    obtain rfl := List.mem_singleton.mp listed
    exact ⟨_, _, stands_ifThen test _⟩
  | ifElse test body otherwise =>
    simp only [children, List.mem_cons, List.not_mem_nil, or_false] at listed
    rcases listed with rfl | rfl
    · exact ⟨_, _, stands_ifElse_taken test _ otherwise⟩
    · exact ⟨_, _, stands_ifElse_other test body _⟩

end Children

/-- A site of a statement is its own, or one of what it computes, or one of a statement directly
inside. -/
theorem mem_sites {statement : Statement} {exits : Exits} {progress : Progress} {site : Site}
    (member : site ∈ statement.sites exits progress) :
    (site ∈ statement.ownSites exits progress ∨
      ∃ value ∈ statement.computed exits progress, site ∈ value.1.sites value.2) ∨
    ∃ child around reached, statement.StandsIn exits progress child around reached ∧
      site ∈ child.sites around reached := by
  cases statement with
  | evaluate value =>
    rw [sites] at member
    exact .inl (.inr ⟨_, List.mem_singleton_self _, member⟩)
  | assign left right =>
    rw [sites, List.mem_append, List.mem_append] at member
    rcases member with here | here | here
    · exact .inl (.inr ⟨_, List.mem_cons_self, here⟩)
    · exact .inl (.inr ⟨_, List.mem_cons_of_mem _ (List.mem_singleton_self _), here⟩)
    · exact .inl (.inl here)
  | breakLoop =>
    rw [sites] at member
    exact .inl (.inl member)
  | returnValue value =>
    rw [sites, List.mem_append] at member
    exact .inl (member.symm.imp_right fun here => ⟨_, List.mem_singleton_self _, here⟩)
  | block scope body =>
    rw [sites] at member
    rcases List.mem_cons.mp member with rfl | member
    · exact .inl (.inl (List.mem_singleton_self _))
    · obtain ⟨child, listed, reached, advances, stretch, here⟩ := mem_sitesAll member
      exact .inr ⟨child, _, _, stands_block listed advances stretch, here⟩
  | whileLoop test body =>
    -- What comes besides the test and the statements inside are labels, the comparison and the
    -- jumps.
    simp only [sites, List.mem_cons, List.mem_append, List.not_mem_nil, or_false] at member
    rcases member with here | here | here | here | here
    · exact .inl (.inl (by simp [ownSites, here]))
    · exact .inl (.inr ⟨_, List.mem_singleton_self _, here⟩)
    · exact .inl (.inl (by simp [ownSites, here]))
    · exact .inr ⟨_, _, _, stands_whileLoop test body, here⟩
    · exact .inl (.inl (by simp [ownSites, here]))
  | forLoop init test increment body =>
    simp only [sites, List.mem_cons, List.mem_append, List.not_mem_nil, or_false] at member
    rcases member with here | here | here | here | here | here | here
    · exact .inr ⟨_, _, _, stands_forLoop_init init test increment body, here⟩
    · exact .inl (.inl (by simp [ownSites, here]))
    · exact .inl (.inr ⟨_, List.mem_singleton_self _, here⟩)
    · exact .inl (.inl (by simp [ownSites, here]))
    · exact .inr ⟨_, _, _, stands_forLoop_body init test increment body, here⟩
    · exact .inr ⟨_, _, _, stands_forLoop_increment init test increment body, here⟩
    · exact .inl (.inl (by simp [ownSites, here]))
  | ifThen test body =>
    simp only [sites, List.mem_cons, List.mem_append, List.not_mem_nil, or_false] at member
    rcases member with here | here | here | here
    · exact .inl (.inr ⟨_, List.mem_singleton_self _, here⟩)
    · exact .inl (.inl (by simp [ownSites, here]))
    · exact .inr ⟨_, _, _, stands_ifThen test body, here⟩
    · exact .inl (.inl (by simp [ownSites, here]))
  | ifElse test body otherwise =>
    simp only [sites, List.mem_cons, List.mem_append, List.not_mem_nil, or_false] at member
    rcases member with here | here | here | here | here | here | here
    · exact .inl (.inr ⟨_, List.mem_singleton_self _, here⟩)
    · exact .inl (.inl (by simp [ownSites, here]))
    · exact .inr ⟨_, _, _, stands_ifElse_taken test body otherwise, here⟩
    · exact .inl (.inl (by simp [ownSites, here]))
    · exact .inl (.inl (by simp [ownSites, here]))
    · exact .inr ⟨_, _, _, stands_ifElse_other test body otherwise, here⟩
    · exact .inl (.inl (by simp [ownSites, here]))

/-- Every expression of a statement is computed by it, up to what its target leads to, or is one of
a statement directly inside. -/
theorem mem_expressions {statement : Statement} {value : Expression}
    (member : value ∈ statement.expressions) (exits : Exits) (progress : Progress) :
    value.Among (statement.sites exits progress) ∨
      ∃ child ∈ statement.children, value ∈ child.expressions := by
  -- What is computed has a stretch of the sites already.
  have computes {value : Expression} {reached : Progress}
      (listed : (value, reached) ∈ statement.computed exits progress) :
      value.sites reached <:+: statement.sites exits progress := (infix_computed listed).1
  cases statement with
  | evaluate | returnValue =>
    obtain rfl := List.mem_singleton.mp member
    exact .inl (.inl ⟨_, computes (List.mem_singleton_self _)⟩)
  | assign left right =>
    simp only [Statement.expressions, List.mem_cons, List.not_mem_nil, or_false] at member
    rcases member with rfl | rfl
    · exact .inl (Expression.among_target (computes (List.mem_cons_of_mem _ List.mem_cons_self)))
    · exact .inl (.inl ⟨_, computes List.mem_cons_self⟩)
  | breakLoop => cases member
  | block scope body => exact .inr (mem_expressionsOfList.mp member)
  | whileLoop test body | ifThen test body =>
    rcases List.mem_cons.mp member with rfl | member
    · exact .inl (.inl ⟨_, computes (List.mem_singleton_self _)⟩)
    · exact .inr ⟨body, List.mem_singleton_self _, member⟩
  | forLoop init test increment body =>
    simp only [Statement.expressions, List.mem_append, List.mem_cons] at member
    rcases member with member | rfl | member | member
    · exact .inr ⟨init, by simp [children], member⟩
    · exact .inl (.inl ⟨_, computes (List.mem_singleton_self _)⟩)
    · exact .inr ⟨increment, by simp [children], member⟩
    · exact .inr ⟨body, by simp [children], member⟩
  | ifElse test body otherwise =>
    simp only [Statement.expressions, List.mem_cons, List.mem_append] at member
    rcases member with rfl | member | member
    · exact .inl (.inl ⟨_, computes (List.mem_singleton_self _)⟩)
    · exact .inr ⟨body, by simp [children], member⟩
    · exact .inr ⟨otherwise, by simp [children], member⟩

/-- Every expression of a statement stands among its sites. -/
theorem among_sites {statement : Statement} {value : Expression}
    (member : value ∈ statement.expressions) (exits : Exits) (progress : Progress) :
    value.Among (statement.sites exits progress) := by
  induction statement using inductionOnChildren generalizing exits progress with
  | up statement each =>
    rcases mem_expressions member exits progress with among | ⟨child, listed, below⟩
    · exact among
    · obtain ⟨around, reached, stands⟩ := stands_child listed exits progress
      exact (each child listed below around reached).mono stands.stretch

/-- Every statement inside a statement has a stretch of its sites. -/
theorem infix_sites {statement inner : Statement} (member : inner ∈ statement.statements)
    (exits : Exits) (progress : Progress) :
    ∃ around reached, inner.sites around reached <:+: statement.sites exits progress := by
  refine preserved_inside (motive := fun inner =>
    ∃ around reached, inner.sites around reached <:+: statement.sites exits progress) ?_ member
      ⟨exits, progress, List.infix_rfl⟩
  rintro outer ⟨around, reached, stretch⟩ child listed
  obtain ⟨within, later, stands⟩ := stands_child listed around reached
  exact ⟨within, later, stands.stretch.trans stretch⟩

end Statement

/-- A site that is the own one of a statement, or one of an expression that a statement computes
itself. -/
def Site.OfStatement (statements : List Statement) (sites : List Site) (exits : Exits)
    (start : Progress) (site : Site) : Prop :=
  ∃ inner around progress, Statement.Stands statements sites exits start inner around progress ∧
    (site ∈ inner.ownSites around progress ∨
      ∃ value ∈ inner.computed around progress, site ∈ value.1.sites value.2)

namespace Site

variable {statements others : List Statement} {sites wider : List Site} {exits between : Exits}
  {start middle : Progress} {site : Site}

theorem OfStatement.mono (origin : site.OfStatement statements sites between middle)
    (inside : statements ⊆ others) (stretch : sites <:+: wider)
    (around : Statement.Around exits start between middle) :
    site.OfStatement others wider exits start := by
  obtain ⟨inner, innermost, progress, stands, own⟩ := origin
  exact ⟨inner, innermost, progress, ⟨around.trans stands.toAround, inside stands.listed,
    stands.stretch.trans stretch⟩, own⟩

end Site

namespace Statement

/-- Every site of a statement comes from a statement inside it. -/
theorem origin (statement : Statement) (exits : Exits) (progress : Progress) :
    ∀ site ∈ statement.sites exits progress,
      site.OfStatement statement.statements (statement.sites exits progress) exits progress := by
  induction statement using inductionOnChildren generalizing exits progress with
  | up statement each =>
    intro site member
    -- A site is an own one of the statement or stands in the stretch of a child.
    rcases mem_sites member with own | ⟨child, around, reached, stands, here⟩
    · exact ⟨statement, exits, progress,
        ⟨.refl _ _, self_mem_statements _, List.infix_rfl⟩, own⟩
    · refine (each child stands.listed around reached site here).mono ?_ stands.stretch
        stands.toAround
      exact fun inner below => mem_statements.mpr (.inr ⟨child, stands.listed, below⟩)

/-- The expressions of a statement inside another one are those of the other one. -/
theorem expressions_subset {statement inner : Statement} (inside : inner ∈ statement.statements) :
    inner.expressions ⊆ statement.expressions := by
  refine preserved_inside (motive := fun inner => inner.expressions ⊆ statement.expressions) ?_ inside
    (List.Subset.refl _)
  -- It is enough to look at the statements directly inside.
  intro outer holds child listed value below
  refine holds ?_
  cases outer with
  | evaluate | assign | breakLoop | returnValue => cases listed
  | block scope body => exact mem_expressionsOfList.mpr ⟨child, listed, below⟩
  | whileLoop | ifThen =>
    obtain rfl := List.mem_singleton.mp listed
    simp [expressions, below]
  | forLoop | ifElse =>
    simp only [children, List.mem_cons, List.not_mem_nil, or_false] at listed
    rcases listed with rfl | rfl | rfl <;> simp [expressions, below]

theorem mem_scopesOfList {scope : ScopeId} {statements : List Statement} :
    scope ∈ scopesOfList statements ↔ ∃ statement ∈ statements, scope ∈ statement.scopes := by
  induction statements with
  | nil => simp [scopesOfList]
  | cons first rest ih => simp [scopesOfList, ih]

/-- The blocks of a statement inside another one are those of the other one. -/
theorem scopes_subset {statement inner : Statement} (inside : inner ∈ statement.statements) :
    inner.scopes ⊆ statement.scopes := by
  refine preserved_inside (motive := fun inner => inner.scopes ⊆ statement.scopes) ?_ inside
    (List.Subset.refl _)
  -- It is enough to look at the statements directly inside.
  intro outer holds child listed scope below
  refine holds ?_
  cases outer with
  | evaluate | assign | breakLoop | returnValue => cases listed
  | block bound body =>
    exact List.mem_cons_of_mem _ (mem_scopesOfList.mpr ⟨child, listed, below⟩)
  | whileLoop | ifThen =>
    obtain rfl := List.mem_singleton.mp listed
    simpa [scopes] using below
  | forLoop | ifElse =>
    simp only [children, List.mem_cons, List.not_mem_nil, or_false] at listed
    rcases listed with rfl | rfl | rfl <;> simp [scopes, below]

/-- The statements inside a typed one are typed. -/
theorem Typed.inside {symbols : SymbolTable} {returned : Ty} {looping : Bool}
    {statement inner : Statement} (typed : statement.Typed symbols returned looping)
    (inside : inner ∈ statement.statements) : ∃ loop, inner.Typed symbols returned loop := by
  refine preserved_inside (motive := fun inner => ∃ loop, inner.Typed symbols returned loop) ?_ inside
    ⟨looping, typed⟩
  rintro outer ⟨loop, typed⟩ child listed
  -- A statement is typed with its children, the body of a loop with a loop around it.
  cases typed with
  | evaluate | assign | breakLoop | returnValue => cases listed
  | block scope typed => exact ⟨_, typed child listed⟩
  | whileLoop _ _ typed | ifThen _ _ typed => exact ⟨_, List.mem_singleton.mp listed ▸ typed⟩
  | forLoop first _ _ second third =>
    simp only [children, List.mem_cons, List.not_mem_nil, or_false] at listed
    rcases listed with rfl | rfl | rfl
    · exact ⟨_, first⟩
    · exact ⟨_, second⟩
    · exact ⟨_, third⟩
  | ifElse _ _ first second =>
    simp only [children, List.mem_cons, List.not_mem_nil, or_false] at listed
    rcases listed with rfl | rfl
    · exact ⟨_, first⟩
    · exact ⟨_, second⟩

end Statement

namespace Function

variable {function : Function} {table : SymbolTable}

/-- The statements inside the body of a function. -/
def statements (function : Function) : List Statement := Statement.statementsOfList function.body

/-- Every statement of a function has a stretch of its sites. -/
theorem infix_sites {inner : Statement} (member : inner ∈ function.statements) (nextLabel : Nat) :
    ∃ exits progress, inner.sites exits progress <:+: function.sites table nextLabel := by
  obtain ⟨statement, present, below⟩ := Statement.mem_statementsOfList.mp member
  obtain ⟨start, -, stretch⟩ := Statement.sites_infix_sitesAll present { function := ⟨nextLabel⟩ }
    (function.entry table nextLabel)
  obtain ⟨exits, progress, here⟩ := Statement.infix_sites below { function := ⟨nextLabel⟩ } start
  exact ⟨exits, progress, here.trans stretch⟩

/-- Every node of a function stands among its sites. -/
theorem among_sites {node : Expression} (inside : node ∈ function.nodes) (nextLabel : Nat) :
    node.Among (function.sites table nextLabel) := by
  obtain ⟨value, member, below⟩ := Expression.mem_nodesOfList.mp inside
  obtain ⟨statement, present, here⟩ := Statement.mem_expressionsOfList.mp member
  obtain ⟨start, -, stretch⟩ := Statement.sites_infix_sitesAll present { function := ⟨nextLabel⟩ }
    (function.entry table nextLabel)
  exact ((Statement.among_sites here { function := ⟨nextLabel⟩ } start).mono stretch).below below

/-- Every name in a function is lowered at one of its sites. -/
theorem identifier_sites {symbol : SymbolId} {type : Ty}
    (inside : .identifier symbol type ∈ function.nodes) (nextLabel : Nat) :
    ∃ progress, .node (.identifier symbol type) progress ∈ function.sites table nextLabel := by
  rcases function.among_sites inside nextLabel with ⟨reached, here⟩ | ⟨_, _, _, same, _⟩
  · exact ⟨reached, here.subset (by simp [Expression.sites])⟩
  · cases same

/-- The statements inside a typed function are typed. -/
theorem Typed.inside {specifier : Specifier} {indirection : Nat} {parameters : List Ty}
    {variadic : Bool} (typed : function.Typed table specifier indirection parameters variadic)
    {inner : Statement} (inside : inner ∈ function.statements) :
    ∃ loop, inner.Typed table (.scalar specifier indirection) loop := by
  obtain ⟨statement, present, below⟩ := Statement.mem_statementsOfList.mp inside
  exact (typed.body statement present).inside below

/-- What is inside a node of a function is inside the function. -/
theorem nodes_subset {node : Expression} (inside : node ∈ function.nodes) :
    node.nodes ⊆ function.nodes := Expression.nodes_subset_list _ inside

/-- The nodes of a statement of a function are those of the function. -/
theorem nodesOfList_subset {statement : Statement} (inside : statement ∈ function.statements) :
    Expression.nodesOfList statement.expressions ⊆ function.nodes := by
  obtain ⟨outer, present, around⟩ := Statement.mem_statementsOfList.mp inside
  intro node below
  obtain ⟨value, listed, here⟩ := Expression.mem_nodesOfList.mp below
  exact Expression.mem_nodesOfList.mpr ⟨value, Statement.mem_expressionsOfList.mpr
    ⟨outer, present, Statement.expressions_subset around listed⟩, here⟩

/-- The blocks of a statement of a function are those of the function. -/
theorem scopes_subset {statement : Statement} (inside : statement ∈ function.statements) :
    statement.scopes ⊆ Statement.scopesOfList function.body := by
  obtain ⟨outer, present, around⟩ := Statement.mem_statementsOfList.mp inside
  exact fun scope listed => Statement.mem_scopesOfList.mpr
    ⟨outer, present, Statement.scopes_subset around listed⟩

/-- Every site of a function is the own one of a node or of a statement of the function. -/
theorem origin (function : Function) (table : SymbolTable) (nextLabel : Nat) :
    ∀ site ∈ function.sites table nextLabel,
      site.OfNode function.nodes (function.sites table nextLabel) (function.entry table nextLabel) ∨
        ∃ statement around progress, Statement.Stands function.statements
          (function.sites table nextLabel) { function := ⟨nextLabel⟩ }
          (function.entry table nextLabel) statement around progress ∧
            statement.Owns around progress site := by
  intro site member
  obtain ⟨statement, present, reached, advances, stretch, here⟩ := Statement.mem_sitesAll member
  have inside : statement.statements ⊆ function.statements := fun inner below =>
    Statement.mem_statementsOfList.mpr ⟨statement, present, below⟩
  -- Own sites of statements are left as they are; the others lie in a value that is computed.
  obtain ⟨inner, around, progress, stands, own | ⟨⟨value, begun⟩, computed, found⟩⟩ :=
    (statement.origin _ reached site here).mono inside stretch (.onward advances)
  · exact .inr ⟨inner, around, progress, stands, Statement.owns_of_own own⟩
  · obtain ⟨whole, after, below⟩ := Statement.infix_computed computed
    exact .inl ((value.origin begun site found).mono
      (List.Subset.trans below (nodesOfList_subset stands.listed)) (whole.trans stands.stretch)
      (stands.advances.trans after))

end Function

end SmallC
