import SmallC.Proofs.Lowering.Origins

/-! Subjects: the sites of a function are about its own nodes and blocks, and none of its names is
left out. -/

namespace SmallC

namespace Site

/-- The expressions that a site is about, each with the progress from which it is lowered. -/
def subjects : Site → List (Expression × Progress)
  | .node value progress | .test value progress _ _ | .give value progress _ => [(value, progress)]
  | .store left right progress => [(right, progress), (left, right.after progress)]
  | .enter .. | .settle .. | .bind .. | .mark _ | .jump _ => []

/-- The blocks that a site is about, each with the progress from which it is lowered. -/
def blocks : Site → List (ScopeId × Progress)
  | .bind scope progress => [(scope, progress)]
  | _ => []

/-- A site that is about the given nodes and blocks only, and comes after the given progress. -/
structure Within (nodes : List Expression) (scopes : List ScopeId) (start : Progress)
    (site : Site) : Prop where
  /-- The expressions are among the nodes. -/
  subjects : ∀ subject ∈ site.subjects, subject.1 ∈ nodes ∧ start.Advances subject.2
  /-- The blocks have their scopes among the given ones. -/
  blocks : ∀ block ∈ site.blocks, block.1 ∈ scopes ∧ start.Advances block.2

theorem Within.widen {nodes others : List Expression} {scopes wider : List ScopeId}
    {start : Progress} {site : Site} (within : site.Within nodes scopes start)
    (inside : nodes ⊆ others) (listed : scopes ⊆ wider) : site.Within others wider start where
  subjects subject member := (within.subjects subject member).imp_left (@inside _)
  blocks block member := (within.blocks block member).imp_left (@listed _)

theorem within_nothing {nodes : List Expression} {scopes : List ScopeId} {start : Progress}
    {site : Site} (alone : site.subjects = []) (plain : site.blocks = []) :
    site.Within nodes scopes start := by
  refine ⟨fun subject listed => ?_, fun block listed => ?_⟩
  · rw [alone] at listed
    cases listed
  · rw [plain] at listed
    cases listed

/-- A site about a single expression is within the nodes that have it. -/
theorem within_single {nodes : List Expression} {scopes : List ScopeId} {start progress : Progress}
    {site : Site} {value : Expression} (alone : site.subjects = [(value, progress)])
    (plain : site.blocks = []) (inside : value ∈ nodes) (advances : start.Advances progress) :
    site.Within nodes scopes start := by
  refine ⟨fun subject listed => ?_, fun block listed => ?_⟩
  · rw [alone] at listed
    rw [List.mem_singleton.mp listed]
    exact ⟨inside, advances⟩
  · rw [plain] at listed
    cases listed

end Site

namespace Expression

/-- The own sites of a node are about the node and its parts. -/
theorem Owns.within {node : Expression} {start progress : Progress} {site : Site}
    (owns : node.Owns progress site) (scopes : List ScopeId) (advances : start.Advances progress) :
    site.Within node.nodes scopes start := by
  -- Both operands are begun behind what the decision takes for itself.
  have entered (type : Ty) := advances.trans (progress.evaluates_enter type).toAdvances
  cases owns with
  | node => exact Site.within_single rfl rfl node.self_mem_nodes advances
  | enter | settle => exact Site.within_nothing rfl rfl
  | left same =>
    refine Site.within_single rfl rfl ?_ (entered _)
    simp [same, nodes, self_mem_nodes]
  | right same =>
    refine Site.within_single rfl rfl ?_
      ((entered _).trans (Expression.evaluates _ (progress.enter _)).toAdvances)
    simp [same, nodes, self_mem_nodes]

end Expression

namespace Statement

/-- The own sites of a statement are about its expressions and about its own block. -/
theorem Owns.within {statement : Statement} {exits : Exits} {start progress : Progress} {site : Site}
    (owns : statement.Owns exits progress site) (advances : start.Advances progress) :
    site.Within (Expression.nodesOfList statement.expressions) statement.scopes start := by
  -- An expression of the statement is one of the nodes.
  have node {value : Expression} (member : value ∈ statement.expressions) :
      value ∈ Expression.nodesOfList statement.expressions :=
    Expression.mem_nodesOfList.mpr ⟨value, member, value.self_mem_nodes⟩
  cases owns with
  | @store left right same =>
    refine ⟨fun subject listed => ?_, by simp [Site.blocks]⟩
    simp only [Site.subjects, List.mem_cons, List.not_mem_nil, or_false] at listed
    rcases listed with rfl | rfl
    · exact ⟨node (by simp [same, expressions]), advances⟩
    · exact ⟨node (by simp [same, expressions]),
        advances.trans (right.evaluates progress).toAdvances⟩
  | give same => exact Site.within_single rfl rfl (node (by simp [same, expressions])) advances
  | bind same =>
    refine ⟨by simp [Site.subjects], fun block listed => ?_⟩
    rw [List.mem_singleton.mp listed]
    exact ⟨by simp [same, scopes], advances⟩
  | test tests computed =>
    exact Site.within_single rfl rfl (node (mem_of_test tests))
      (advances.trans (infix_computed computed).2.1)
  | mark | jump => exact Site.within_nothing rfl rfl

end Statement

namespace Function

/-- The sites of a function are about its own nodes and blocks. -/
theorem within_sites (function : Function) (table : SymbolTable) (nextLabel : Nat) :
    ∀ site ∈ function.sites table nextLabel, site.Within function.nodes
      (Statement.scopesOfList function.body) (function.entry table nextLabel) := by
  intro site member
  rcases function.origin table nextLabel site member with
    ⟨node, inside, progress, advances, -, own⟩ | ⟨statement, around, progress, stands, own⟩
  · exact (own.within [] advances).widen (nodes_subset inside) (List.nil_subset _)
  · exact (own.within stands.advances).widen (nodesOfList_subset stands.listed)
      (scopes_subset stands.listed)

end Function

end SmallC
