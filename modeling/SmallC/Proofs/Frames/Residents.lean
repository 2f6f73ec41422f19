import SmallC.Proofs.Frames.Staying

/-! Residents: what the code of a function is about has a place of its own, and is found there. -/

namespace SmallC

namespace Expression

/-- A decision keeps its temporary only, which it has taken first. -/
theorem keeps_decision (either : Bool) (left right : Expression) (type : Ty) (progress : Progress) :
    (binary (decision either) left right type).keeps progress = [.temporary type progress] := by
  cases either <;> rfl

/-- What a node keeps is taken at one of its sites. -/
theorem keeps_taken (expression : Expression) (progress : Progress) :
    ∀ object ∈ expression.keeps progress,
      object ∈ (expression.sites progress).flatMap Site.taken := by
  intro object kept
  -- A decision takes its result at the site that it is entered by, another node at its own.
  cases strict : expression.isDecision with
  | false =>
    refine List.mem_flatMap.mpr ⟨.node expression progress, ?_, kept⟩
    simp [sites_strict progress strict]
  | true =>
    obtain ⟨either, left, right, type, rfl⟩ := decision_cases strict
    rw [keeps_decision] at kept
    rw [sites_decision]
    exact List.mem_flatMap.mpr ⟨_, List.mem_cons_self .., kept⟩

end Expression

/-- Arguments are passed inside the bytes that are reserved for them. -/
theorem passes_objects {arguments : List Expression} {offset : Nat} {progress : Progress} :
    ∀ piece ∈ passes offset (Expression.begun arguments progress), ∀ object ∈ piece.objects,
      (∃ place bytes, object = .argument place bytes ∧
          place + bytes ≤ offset + argumentBytes (Expression.widths arguments)) ∨
        ∃ value ∈ Expression.begun arguments progress, value.1.object? value.2 = some object := by
  induction arguments generalizing offset progress with
  | nil => simp [Expression.begun, passes]
  | cons first rest ih =>
    have bytes : argumentBytes (Expression.widths (first :: rest)) =
        (Width.of first.type).slotBytes + argumentBytes (Expression.widths rest) := rfl
    intro piece listed object held
    -- The first argument takes the bytes from the offset on, and the others those behind it.
    rcases List.mem_cons.mp listed with rfl | listed
    · rcases List.mem_cons.mp held with rfl | held
      · exact .inl ⟨_, _, rfl, by omega⟩
      · exact .inr ⟨_, List.mem_cons_self .., Option.mem_toList.mp held⟩
    · rcases ih piece listed object held with ⟨place, more, rfl, inside⟩ | ⟨value, begun, found⟩
      · exact .inl ⟨place, more, rfl, by omega⟩
      · exact .inr ⟨value, List.mem_cons_of_mem _ begun, found⟩

namespace Function

variable {function : Function} {table : SymbolTable} {nextLabel size : Nat}

/-- The values that are read at a site are those of nodes with a stretch of the sites. -/
theorem consumed_sites {site : Site} (member : site ∈ function.sites table nextLabel) :
    ∀ value ∈ site.consumed, value.1 ∈ function.nodes ∧
      value.1.sites value.2 <:+: function.sites table nextLabel := by
  intro value listed
  -- A site belongs to a node, which reads its parts, or to a statement, which computes what it
  -- reads.
  rcases function.origin table nextLabel site member with
    ⟨node, inside, progress, -, stretch, own⟩ | ⟨statement, around, progress, stands, own⟩
  · have below (part : value.1 ∈ node.nodes)
        (sites : value.1.sites value.2 <:+: node.sites progress) : value.1 ∈ function.nodes ∧
          value.1.sites value.2 <:+: function.sites table nextLabel :=
      ⟨nodes_subset inside part, sites.trans stretch⟩
    cases own with
    | node strict =>
      obtain ⟨part, sites⟩ := Expression.mem_of_begun listed
      refine below (Expression.nodes_part_subset part value.1.self_mem_nodes) ?_
      rw [Expression.sites_strict progress strict]
      exact infix_left sites
    | enter | settle => cases listed
    | @left either left right type same =>
      subst same
      cases List.mem_singleton.mp listed
      refine below (by simp [Expression.nodes, Expression.self_mem_nodes]) ?_
      rw [Expression.sites_decision]
      exact List.infix_cons (infix_left List.infix_rfl)
    | @right either left right type same =>
      subst same
      cases List.mem_singleton.mp listed
      refine below (by simp [Expression.nodes, Expression.self_mem_nodes]) ?_
      rw [Expression.sites_decision]
      exact List.infix_cons (infix_right (List.infix_cons (infix_left List.infix_rfl)))
  · have computed (begun : value ∈ statement.computed around progress) : value.1 ∈ function.nodes ∧
        value.1.sites value.2 <:+: function.sites table nextLabel := by
      obtain ⟨sites, -, below⟩ := Statement.infix_computed begun
      exact ⟨nodesOfList_subset stands.listed (below value.1.self_mem_nodes),
        sites.trans stands.stretch⟩
    cases own with
    | store same => exact computed (same ▸ listed)
    | give same => exact computed (same ▸ listed)
    | test _ begun => exact computed (List.mem_singleton.mp listed ▸ begun)
    | bind | mark | jump => cases listed

/-- A name of the function's own scopes, or of the unit. -/
theorem scope_of_identifier (settled : function.Settled table) {symbol : SymbolId} {type : Ty}
    {progress : Progress}
    (used : .node (.identifier symbol type) progress ∈ function.sites table nextLabel) :
    symbol.scope ∈ unitScope :: function.scopes :=
  (sees_sites settled nextLabel _ used (.identifier symbol type, progress)
    (List.mem_singleton_self _) symbol (by simp)).1

theorem known_identifier (settled : function.Settled table) {symbol : SymbolId} {type : Ty}
    (inside : .identifier symbol type ∈ function.nodes) : (table.symbol? symbol).isSome :=
  settled.known symbol (symbols_node inside (by simp))

/-- The value of a variable or a parameter fits in its storage. -/
theorem width_fits (settled : function.Settled table) {symbol : SymbolId} {type : Ty}
    (inner : symbol.scope ≠ unitScope) (known : (table.symbol? symbol).isSome)
    (typed : (Expression.identifier symbol type).Typed table) (plain : type.isArray = false) :
    (Width.of type).size ≤ (function.slot (function.last table nextLabel).symbols size
      (.symbol symbol)).bytes := by
  cases typed with
  | identifier _ declared =>
    have same : (function.last table nextLabel).symbols.typeOf symbol = type :=
      ((alike_last function table nextLabel).typeOf symbol).trans declared
    obtain ⟨held, found⟩ := Option.isSome_iff_exists.mp known
    have stored := settled.ready.stored _ inner held (List.mem_of_getElem? found)
    -- The type that the table holds is the declared one, so its storage is that of the type.
    have kind : held.type = type := by
      rw [← declared, SymbolTable.typeOf, found]
      rfl
    obtain ⟨words, storage⟩ := width_size_le plain
    unfold slot
    simp only [same]
    split
    · exact words
    · exact storage (kind ▸ stored)

/-- The value of a node is found in the place of its object, if it has one. -/
theorem found_value (settled : function.Settled table) {value : Expression × Progress}
    (typed : value.1.Typed table) (inside : value.1 ∈ function.nodes)
    (stretch : value.1.sites value.2 <:+: function.sites table nextLabel) :
    Found size (function.slot (function.last table nextLabel).symbols size) value := by
  obtain ⟨node, progress⟩ := value
  intro plain
  -- A node that is no leaf has left its value in its temporary.
  have kept (inner : node.isLeaf = false)
      (object : node.object? progress = some (node.home progress)) :
      (node.lowered progress).value.Fits size
        ((node.object? progress).toList.map
          (function.slot (function.last table nextLabel).symbols size))
        (Width.of node.type).size := by
    rw [object]
    cases strict : node.isDecision with
    | false =>
      rw [Expression.value_result progress inner strict]
      exact fits_result strict (List.mem_singleton_self _)
    | true =>
      obtain ⟨either, left, right, type, rfl⟩ := Expression.decision_cases strict
      rw [Expression.value_settled, Expression.home, strict]
      exact @fits_temporary size function _ _ type progress (List.mem_singleton_self _)
  cases node with
  | integer value type =>
    have held : ((Expression.integer value type).lowered progress).value =
        SmallC.immediate value.toNat := by
      unfold Expression.lowered
      rw [Expression.lower_integer]
    exact Operand.fits_of_none _ (by rw [held]; rfl)
  | real spelling =>
    have held : ((Expression.real spelling).lowered progress).value = .label progress.label := by
      unfold Expression.lowered
      rw [Expression.lower_real]
    exact Operand.fits_of_none _ (by rw [held]; rfl)
  | string text =>
    have held : ((Expression.string text).lowered progress).value = .label progress.label := by
      unfold Expression.lowered
      rw [Expression.lower_string]
    exact Operand.fits_of_none _ (by rw [held]; rfl)
  | identifier symbol type =>
    have known := known_identifier settled inside
    have used : .node (.identifier symbol type) progress ∈ function.sites table nextLabel :=
      stretch.subset (by simp [Expression.sites])
    have reaches := reaches_identifier settled nextLabel used known
    by_cases outer : symbol.scope = unitScope
    · exact Operand.fits_of_none _ (by rw [reaches.named outer]; rfl)
    · have object : (Expression.identifier symbol type).object? progress = some (.symbol symbol) :=
        if_neg outer
      rw [(reaches.framed outer).1, object]
      refine Operand.fits_frame (List.mem_map_of_mem (List.mem_singleton_self _))
        (Slot.within_first ?_)
      exact @width_fits function table nextLabel size settled symbol type outer known typed plain
  | call | unary | step | binary => exact kept rfl rfl

/-- Every piece of a typed function stays in the places of what it is about. -/
theorem Typed.stays {specifier : Specifier} {indirection : Nat} {parameters : List Ty}
    {variadic : Bool} (typed : function.Typed table specifier indirection parameters variadic)
    (settled : function.Settled table) :
    ∀ site ∈ function.sites table nextLabel, ∀ piece ∈ site.pieces, Stays size
      (piece.objects.map (function.slot (function.last table nextLabel).symbols size))
      piece.code := by
  intro site member
  refine stays_pieces (typed.sites nextLabel site member) fun value listed => ?_
  obtain ⟨inside, stretch⟩ := consumed_sites member value listed
  exact found_value settled (typed.nodes value.1 inside) inside stretch

variable (function table nextLabel) in
/-- What a function keeps in its frame or finds above it. -/
inductive Houses : Object → Prop where
  /-- A parameter, which the caller has passed. -/
  | parameter {symbol : SymbolId} (parameter : function.IsParameter symbol) :
    Houses (.symbol symbol)
  /-- A variable or a temporary. -/
  | resident {object : Object} (member : object ∈ function.residents table nextLabel) :
    Houses object
  /-- An argument that is passed in the room for arguments. -/
  | argument {offset bytes : Nat}
    (within : offset + bytes ≤ (function.last table nextLabel).frame.arguments) :
    Houses (.argument offset bytes)

/-- What is taken at a site has a place of its own. -/
theorem mem_residents {site : Site} (member : site ∈ function.sites table nextLabel)
    {object : Object} (taken : object ∈ site.taken) : object ∈ function.residents table nextLabel :=
  List.mem_append_right _ (List.mem_flatMap.mpr ⟨site, member, taken⟩)

/-- A symbol of one of the function's scopes is a parameter or has a place of its own. -/
theorem symbol_residents {symbol : SymbolId} (listed : symbol.scope ∈ function.scopes)
    (known : (table.symbol? symbol).isSome) (other : ¬ function.IsParameter symbol) :
    .symbol symbol ∈ function.residents table nextLabel := by
  have within : symbol.slot < (table.symbolsOf symbol.scope).length := by
    obtain ⟨held, found⟩ := Option.isSome_iff_exists.mp known
    exact (List.getElem?_eq_some_iff.mp found).1
  have present : (table.ids symbol.scope)[symbol.slot]? = some symbol := by
    simp [SymbolTable.ids, within]
  -- It is a variable of the body, behind the parameters, or of a block, which binds all it has.
  rcases List.mem_cons.mp listed with same | block
  · refine List.mem_append_left _ (List.mem_map_of_mem ?_)
    have behind : function.parameters ≤ symbol.slot := Nat.le_of_not_lt fun low => other ⟨same, low⟩
    rw [same] at present
    refine List.mem_of_getElem? (i := symbol.slot - function.parameters) ?_
    rw [List.getElem?_drop, Nat.add_sub_cancel' behind, present]
  · obtain ⟨⟨scope, progress⟩, here, rfl⟩ :=
      List.mem_map.mp ((function.perm_blocks table nextLabel).mem_iff.mpr block)
    have alike := (function.alike_entry table nextLabel).trans (advances_blocks _ _ _ _ here).alike
    obtain ⟨site, member, bound⟩ := List.mem_flatMap.mp here
    refine mem_residents member ?_
    cases site with
    | bind =>
      cases List.mem_singleton.mp bound
      refine List.mem_map_of_mem ?_
      rw [alike.ids]
      exact List.mem_of_getElem? present
    | _ => cases bound

/-- What a node keeps has a place of its own. -/
theorem keeps_residents {node : Expression} {progress : Progress}
    (stretch : node.sites progress <:+: function.sites table nextLabel) :
    ∀ object ∈ node.keeps progress, object ∈ function.residents table nextLabel := by
  intro object kept
  obtain ⟨site, here, taken⟩ := List.mem_flatMap.mp (node.keeps_taken progress object kept)
  exact mem_residents (stretch.subset here) taken

/-- The object of a value that is read has a place. -/
theorem houses_value (settled : function.Settled table) {value : Expression × Progress}
    (inside : value.1 ∈ function.nodes)
    (stretch : value.1.sites value.2 <:+: function.sites table nextLabel) {object : Object}
    (held : value.1.object? value.2 = some object) : function.Houses table nextLabel object := by
  obtain ⟨node, progress⟩ := value
  -- A node that is no leaf keeps its value in an object of its own.
  have kept (inner : node.isLeaf = false) (home : node.home progress = object) :
      function.Houses table nextLabel object := by
    refine .resident (keeps_residents stretch object ?_)
    simp [Expression.keeps, inner, home]
  cases node with
  | integer | real | string => cases held
  | identifier symbol type =>
    have used : .node (.identifier symbol type) progress ∈ function.sites table nextLabel :=
      stretch.subset (by simp [Expression.sites])
    simp only [Expression.object?, Option.ite_none_left_eq_some, Option.some.injEq] at held
    obtain ⟨inner, rfl⟩ := held
    by_cases parameter : function.IsParameter symbol
    · exact .parameter parameter
    · refine .resident (symbol_residents ?_ (known_identifier settled inside) parameter)
      exact (List.mem_cons.mp (scope_of_identifier settled used)).resolve_left inner
  | call | unary | step | binary => exact kept rfl (Option.some.inj held)

/-- What is written at a site has a place of its own. -/
theorem produced_residents {site : Site} (member : site ∈ function.sites table nextLabel) :
    ∀ object ∈ site.produced, object ∈ function.residents table nextLabel := by
  intro object written
  cases site with
  | node => exact mem_residents member written
  | settle either type progress =>
    -- The decision has taken its temporary before its operands.
    rcases function.origin table nextLabel _ member with
      ⟨node, -, reached, -, stretch, own⟩ | ⟨_, _, _, _, own⟩
    · cases own with
      | settle same =>
        subst same
        refine keeps_residents stretch object ?_
        rwa [Expression.keeps_decision]
    · cases own
  | _ => cases written

/-- All that a piece of a function is about has a place. -/
theorem houses_pieces (settled : function.Settled table) {site : Site}
    (member : site ∈ function.sites table nextLabel)
    (reserved : site.reserved ≤ (function.last table nextLabel).frame.arguments) :
    ∀ piece ∈ site.pieces, ∀ object ∈ piece.objects, function.Houses table nextLabel object := by
  have read {value : Expression × Progress} (listed : value ∈ site.consumed) {object : Object}
      (held : value.1.object? value.2 = some object) : function.Houses table nextLabel object := by
    obtain ⟨inside, stretch⟩ := consumed_sites member value listed
    exact houses_value settled inside stretch held
  intro piece listed object about
  -- A call adds the slots in which it passes its arguments.
  by_cases call : ∃ callee arguments type progress,
      site = .node (.call callee arguments type) progress
  · obtain ⟨callee, arguments, type, progress, rfl⟩ := call
    rcases List.mem_append.mp listed with passed | last
    · rcases passes_objects piece passed object about with
        ⟨place, bytes, rfl, inside⟩ | ⟨value, begun, held⟩
      · rw [Nat.zero_add] at inside
        exact .argument (Nat.le_trans inside reserved)
      · exact read begun held
    · rw [List.mem_singleton.mp last] at about
      rw [List.mem_singleton.mp about]
      exact .resident (produced_residents member _ (List.mem_cons_self ..))
  · have other := fun callee arguments type progress same =>
      call ⟨callee, arguments, type, progress, same⟩
    rw [Site.pieces_of_other other] at listed
    rw [List.mem_singleton.mp listed] at about
    rcases List.mem_append.mp about with written | about
    · exact .resident (produced_residents member object written)
    · obtain ⟨value, begun, held⟩ := List.mem_filterMap.mp about
      exact read begun held

end Function

end SmallC
