import ScoringTree.Proofs.Routes

/-!
# ScoringTree.Proofs.Faults

The faults of a model, listed in the order in which they are looked for.

Rules are derived up to the first fault, which is reported. Here all faults are listed without
deriving anything, each with the place it is found at. A model has rules exactly when its list is
empty, which is when it is acceptable, and the error is the first fault of the list.

* `Predicate.Typable`   — a predicate has a condition; `Predicate.faults` lists why not.
* `Tree.nodeFaults`     — the faults of the node at the end of a way.
* `Tree.faults`         — all faults of a tree and its constraints.
* `Tree.Acceptable`     — what a tree without faults is.
* `blame`               — the error of a computation.
* `Tree.walk_blame`     — a walk reports the first fault on the ways it takes.
* `Tree.derive_blames`  — so does the whole derivation.
-/

namespace ScoringTree

/-- The error of a computation, if it fails. -/
def blame {ε α : Type} : Except ε α → Option ε
  | .error e => some e
  | .ok _ => none

theorem blame_eq_some_iff {ε α : Type} {x : Except ε α} {e : ε} :
    blame x = some e ↔ x = .error e := by
  cases x <;> simp [blame]

theorem blame_eq_none_iff {ε α : Type} {x : Except ε α} : blame x = none ↔ ∃ a, x = .ok a := by
  cases x <;> simp [blame]

/-! ## Literals -/

namespace Literal

/-- The text can be read as the type; a number has to be finite. -/
def fits (type : SourceType) (raw : String) : Bool :=
  match type with
  | .double => (Number.readTrimmed raw).any Number.isFinite
  | .boolean => (readFlag raw).isSome
  | .string => true

def faults (type : SourceType) (raw : String) : List PredicateFault :=
  if fits type raw then []
  else
    match type with
    | .double => [.notNumber raw]
    | .boolean => [.notBoolean raw]
    | .string => []

theorem faults_eq_nil_iff {type : SourceType} {raw : String} :
    faults type raw = [] ↔ fits type raw = true := by
  cases hfits : fits type raw with
  | true => simp [faults, hfits]
  | false =>
    cases type with
    | double => simp [faults, hfits]
    | boolean => simp [faults, hfits]
    | string => cases hfits

theorem ofText_blame (type : SourceType) (raw : String) :
    blame (ofText type raw) = (faults type raw).head? := by
  cases type with
  | double =>
    cases hread : Number.readTrimmed raw with
    | none => simp [ofText, faults, fits, hread, blame]
    | some x => cases hx : Number.isFinite x <;> simp [ofText, faults, fits, hread, hx, blame]
  | boolean => cases hread : readFlag raw <;> simp [ofText, faults, fits, hread, blame]
  | string => simp [ofText, faults, fits, blame]

theorem ofTexts_blame (type : SourceType) (raws : List String) :
    blame (ofTexts type raws) = (raws.flatMap (faults type)).head? := by
  induction raws with
  | nil => rfl
  | cons raw rest ih =>
    have hfirst := ofText_blame type raw
    rw [List.flatMap_cons, List.head?_append, ← hfirst, ← ih]
    simp only [ofTexts]
    cases ofText type raw with
    | error fault => rfl
    | ok literal => cases ofTexts type rest <;> rfl

end Literal

/-! ## Predicates -/

namespace Predicate

/-- What is wrong with a comparison with a field of known type. -/
def simpleFaults (type : SourceType) (operator : Comparison) (value : Option String) :
    List PredicateFault :=
  if operator.testsPresence then []
  else
    (if type = .boolean ∧ operator.testsEquality = false then [.notOrdered operator] else []) ++
      match value with
      | none => [.noLiteral operator]
      | some raw => Literal.faults type raw

mutual

/-- What is wrong with a predicate, from left to right. -/
def faults (table : FieldTable) : Predicate → List TypingError
  | .always => []
  | .never => []
  | .simple field operator value =>
    match table.get? field with
    | none => [.field field .undefinedField]
    | some resolved => (simpleFaults resolved.sourceType operator value).map (.field field)
  | .set field _ values =>
    match table.get? field with
    | none => [.field field .undefinedField]
    | some resolved => (values.flatMap (Literal.faults resolved.sourceType)).map (.field field)
  | .compound _ [] => [.emptyCompound]
  | .compound _ (p :: ps) => faults table p ++ faultsAll table ps

def faultsAll (table : FieldTable) : List Predicate → List TypingError
  | [] => []
  | p :: ps => faults table p ++ faultsAll table ps

end

/-- Every field is known and every literal fits it, flags are not ordered, and no compound is
empty. -/
inductive Typable (table : FieldTable) : Predicate → Prop where
  | always : Typable table .always
  | never : Typable table .never
  | presence {field : String} {operator : Comparison} {value : Option String}
      {resolved : ResolvedField} : table.get? field = some resolved →
      operator.testsPresence = true → Typable table (.simple field operator value)
  | comparison {field : String} {operator : Comparison} {raw : String}
      {resolved : ResolvedField} : table.get? field = some resolved →
      (resolved.sourceType = .boolean → operator.testsEquality = true) →
      Literal.fits resolved.sourceType raw = true →
      Typable table (.simple field operator (some raw))
  | set {field : String} {operator : Membership} {values : List String}
      {resolved : ResolvedField} : table.get? field = some resolved →
      (∀ raw ∈ values, Literal.fits resolved.sourceType raw = true) →
      Typable table (.set field operator values)
  | compound {operator : Connective} {operands : List Predicate} : operands ≠ [] →
      (∀ p ∈ operands, Typable table p) → Typable table (.compound operator operands)

theorem typedSimple_blame (type : SourceType) (field : String) (operator : Comparison)
    (value : Option String) :
    blame (typedSimple type field operator value) = (simpleFaults type operator value).head? := by
  cases hrelation : operator.relation? with
  | none =>
    have hpresence : operator.testsPresence = true := by
      cases operator <;> cases hrelation <;> rfl
    simp [typedSimple, simpleFaults, hrelation, hpresence, blame]
  | some relation =>
    obtain ⟨hpresence, hequality, -⟩ := Comparison.of_relation? hrelation
    simp only [typedSimple, simpleFaults, hrelation, hpresence, hequality]
    by_cases hordered : type = .boolean ∧ relation.testsEquality = false
    · simp [hordered, blame]
    · have hordered' : ¬ (type = .boolean ∧ (!relation.testsEquality) = true) := by
        simpa using hordered
      rw [if_neg hordered', if_neg Bool.false_ne_true, if_neg hordered, List.nil_append]
      cases value with
      | none => rfl
      | some raw =>
        dsimp only
        rw [← Literal.ofText_blame]
        cases Literal.ofText type raw <;> rfl

mutual

theorem typed_blame (table : FieldTable) : ∀ p : Predicate,
    blame (p.typed table) = (p.faults table).head?
  | .always => rfl
  | .never => rfl
  | .simple field operator value => by
    simp only [typed, faults]
    cases table.get? field with
    | none => rfl
    | some resolved =>
      dsimp only
      rw [List.head?_map, ← typedSimple_blame resolved.sourceType field]
      cases typedSimple resolved.sourceType field operator value <;> rfl
  | .set field operator values => by
    simp only [typed, faults]
    cases table.get? field with
    | none => rfl
    | some resolved =>
      dsimp only
      rw [List.head?_map, ← Literal.ofTexts_blame]
      cases Literal.ofTexts resolved.sourceType values <;> rfl
  | .compound operator [] => rfl
  | .compound operator (p :: ps) => by
    rw [faults, List.head?_append, ← typed_blame table p, ← typedAll_blame table ps]
    simp only [typed]
    cases p.typed table with
    | error e => rfl
    | ok c => cases typedAll table ps <;> rfl

theorem typedAll_blame (table : FieldTable) : ∀ ps : List Predicate,
    blame (typedAll table ps) = (faultsAll table ps).head?
  | [] => rfl
  | p :: ps => by
    rw [faultsAll, List.head?_append, ← typed_blame table p, ← typedAll_blame table ps]
    simp only [typedAll]
    cases p.typed table with
    | error e => rfl
    | ok c => cases typedAll table ps <;> rfl

end

theorem simpleFaults_eq_nil_iff {table : FieldTable} {resolved : ResolvedField} {field : String}
    (hfield : table.get? field = some resolved) (operator : Comparison) (value : Option String) :
    simpleFaults resolved.sourceType operator value = [] ↔
      Typable table (.simple field operator value) := by
  constructor
  · intro h
    simp only [simpleFaults] at h
    split at h
    · rename_i hpresence
      exact .presence hfield hpresence
    · obtain ⟨hordered, hliteral⟩ := List.append_eq_nil_iff.mp h
      cases value with
      | none => cases hliteral
      | some raw =>
        refine .comparison hfield ?_ (Literal.faults_eq_nil_iff.mp hliteral)
        intro hboolean
        by_contra hequality
        simp [hboolean, hequality] at hordered
  · intro h
    cases h with
    | presence _ hpresence => simp [simpleFaults, hpresence]
    | comparison hfield' hequality hfits =>
      rw [hfield] at hfield'
      cases hfield'
      simp only [simpleFaults, Literal.faults_eq_nil_iff.mpr hfits]
      split
      · rfl
      · rw [List.append_nil, if_neg]
        rintro ⟨hboolean, hfalse⟩
        rw [hequality hboolean] at hfalse
        cases hfalse

mutual

theorem faults_eq_nil_iff (table : FieldTable) : ∀ p : Predicate,
    p.faults table = [] ↔ p.Typable table
  | .always => by simp [faults, Typable.always]
  | .never => by simp [faults, Typable.never]
  | .simple field operator value => by
    simp only [faults]
    cases hfield : table.get? field with
    | none =>
      simp only [reduceCtorEq, false_iff]
      intro h
      cases h <;> simp_all
    | some resolved => rw [List.map_eq_nil_iff, simpleFaults_eq_nil_iff hfield]
  | .set field operator values => by
    simp only [faults]
    cases hfield : table.get? field with
    | none =>
      simp only [reduceCtorEq, false_iff]
      intro h
      cases h
      simp_all
    | some resolved =>
      simp only [List.map_eq_nil_iff, List.flatMap_eq_nil_iff, Literal.faults_eq_nil_iff]
      refine ⟨.set hfield, ?_⟩
      intro h
      cases h with
      | set hfield' hfits =>
        rw [hfield] at hfield'
        cases hfield'
        exact hfits
  | .compound operator [] => by
    simp only [faults, reduceCtorEq, false_iff]
    intro h
    cases h with
    | compound hne _ => exact hne rfl
  | .compound operator (p :: ps) => by
    rw [faults, List.append_eq_nil_iff, faults_eq_nil_iff table p, faultsAll_eq_nil_iff table ps,
      ← List.forall_mem_cons]
    refine ⟨.compound (List.cons_ne_nil _ _), ?_⟩
    intro h
    cases h with
    | compound _ hall => exact hall

theorem faultsAll_eq_nil_iff (table : FieldTable) : ∀ ps : List Predicate,
    faultsAll table ps = [] ↔ ∀ p ∈ ps, p.Typable table
  | [] => by simp [faultsAll]
  | p :: ps => by
    rw [faultsAll, List.append_eq_nil_iff, faults_eq_nil_iff table p, faultsAll_eq_nil_iff table ps,
      List.forall_mem_cons]

end

/-- A fault of a predicate with the model and the node named. -/
def TypingError.located (model path : String) : TypingError → DerivationError
  | .field name fault => .predicate name path fault
  | .emptyCompound => .malformed model (.emptyCompound path)

def faultsAt (table : FieldTable) (model path : String) (p : Predicate) : List DerivationError :=
  (p.faults table).map (·.located model path)

theorem typedAt_blame (table : FieldTable) (model path : String) (p : Predicate) :
    blame (p.typedAt table model path) = (p.faultsAt table model path).head? := by
  rw [faultsAt, List.head?_map, ← typed_blame]
  simp only [typedAt]
  cases p.typed table with
  | ok condition => rfl
  | error e => cases e <;> rfl

theorem faultsAt_eq_nil_iff {table : FieldTable} {model path : String} {p : Predicate} :
    p.faultsAt table model path = [] ↔ p.Typable table := by
  rw [faultsAt, List.map_eq_nil_iff, faults_eq_nil_iff]

end Predicate

/-! ## Nodes -/

namespace Tree

/-- The names on a way, parted by slashes. -/
def pathOn (tree : Tree) (route : List Nat) : String :=
  String.intercalate "/" (tree.idsOn route)

def predicateFaults (tree : Tree) (table : FieldTable) (path : String) (node : Node) :
    List DerivationError :=
  match node.predicate with
  | none => []
  | some p => p.faultsAt table tree.modelName path

/-- A default child that is no child of its node. -/
def defaultFaults (tree : Tree) (path : String) (node : Node) : List DerivationError :=
  match node.defaultChild with
  | none => []
  | some id =>
    if (tree.idsOn node.children).contains id then []
    else [.malformed tree.modelName (.strayDefault id path)]

/-- A leaf without a score. -/
def leafFaults (tree : Tree) (path : String) (node : Node) : List DerivationError :=
  if node.isLeaf && node.score.isNone then [.malformed tree.modelName (.unscoredLeaf path)] else []

/-- What is wrong with a node that `path` leads to. -/
def nodeFaultsAt (tree : Tree) (table : FieldTable) (path : String) (node : Node) :
    List DerivationError :=
  tree.predicateFaults table path node ++ tree.defaultFaults path node ++
    tree.leafFaults path node

/-- What is wrong with the node at the end of a way. -/
def nodeFaults (tree : Tree) (table : FieldTable) (route : List Nat) : List DerivationError :=
  match route.getLast?.bind tree.node? with
  | none => []
  | some node => tree.nodeFaultsAt table (tree.pathOn route) node

/-- The names that stand further to the front of the list as well. -/
def repeats (ids : List String) : List String :=
  (List.range ids.length).filterMap fun k => (ids[k]?).filter (ids.take k).contains

/-- All faults in the order in which they are looked for: no nodes at all, names of nodes used
twice, the constraints, and the nodes as a walk meets them. -/
def faults (tree : Tree) (table : FieldTable) (constraints : List Predicate) :
    List DerivationError :=
  (if tree.nodes.isEmpty then [.malformed tree.modelName .noNodes] else []) ++
  (repeats (tree.nodes.map (·.id))).map (fun id => .malformed tree.modelName (.repeatedId id)) ++
  constraints.flatMap (·.faultsAt table tree.modelName "guard") ++
  tree.routes.flatMap (tree.nodeFaults table)

/-- There are nodes, all of different names. Constraints and predicates can be typed, a default
child is one of the children by name, and leaves have scores. -/
structure Acceptable (tree : Tree) (table : FieldTable) (constraints : List Predicate) : Prop where
  nonempty : tree.nodes ≠ []
  distinct : (tree.nodes.map (·.id)).Nodup
  constraints : ∀ p ∈ constraints, p.Typable table
  predicates : ∀ node ∈ tree.nodes, ∀ p, node.predicate = some p → p.Typable table
  defaults : ∀ node ∈ tree.nodes, ∀ id, node.defaultChild = some id →
    ∃ child ∈ node.children, (tree.node? child).map (·.id) = some id
  scores : ∀ node ∈ tree.nodes, node.isLeaf = true → node.score.isSome = true

variable {tree : Tree} {table : FieldTable}

theorem mem_idsOn {indices : List Nat} {id : String} :
    id ∈ tree.idsOn indices ↔ ∃ index ∈ indices, (tree.node? index).map (·.id) = some id := by
  rw [idsOn, List.mem_filterMap]

theorem childNamed?_isSome {children : List Nat} {id : String} :
    (tree.childNamed? children id).isSome = (tree.idsOn children).contains id := by
  rw [Bool.eq_iff_iff, childNamed?, List.find?_isSome, List.contains_iff_mem, mem_idsOn]
  simp [Option.any_eq_true]

theorem conditionAt_blame (path : String) (node : Node) :
    blame (tree.conditionAt table path node) = (tree.predicateFaults table path node).head? := by
  simp only [conditionAt, predicateFaults]
  cases node.predicate with
  | none => rfl
  | some p =>
    dsimp only
    rw [← Predicate.typedAt_blame]
    cases p.typedAt table tree.modelName path <;> rfl

theorem defaultAt_blame (path : String) (node : Node) :
    blame (tree.defaultAt path node) = (tree.defaultFaults path node).head? := by
  simp only [defaultAt, defaultFaults]
  cases node.defaultChild with
  | none => rfl
  | some id =>
    dsimp only
    rw [← childNamed?_isSome]
    cases tree.childNamed? node.children id <;> rfl

theorem branchAt_blame (way : List Waypoint) (index : Nat) (node : Node) :
    blame (tree.branchAt table way index node) =
      (tree.predicateFaults table (pathText way node.id) node ++
        tree.defaultFaults (pathText way node.id) node).head? := by
  rw [branchAt_eq, List.head?_append, ← conditionAt_blame, ← defaultAt_blame]
  cases tree.conditionAt table (pathText way node.id) node with
  | error e => rfl
  | ok condition => cases tree.defaultAt (pathText way node.id) node <;> rfl

/-! ## The walk -/

theorem Charts.pathText {route : List Nat} {way : List Waypoint} (h : tree.Charts table route way)
    {index : Nat} {node : Node} (hnode : tree.node? index = some node) :
    pathText way node.id = tree.pathOn (route ++ [index]) := by
  have hlast : tree.idsOn [index] = [node.id] := by simp [idsOn, hnode]
  rw [Tree.pathText, pathOn, h.ids, ← hlast, idsOn, idsOn, idsOn, List.filterMap_append]

theorem nodeFaults_concat {index : Nat} {node : Node} (hnode : tree.node? index = some node)
    (before : List Nat) :
    tree.nodeFaults table (before ++ [index]) =
      tree.nodeFaultsAt table (tree.pathOn (before ++ [index])) node := by
  simp [nodeFaults, hnode]

/-- A walk reports the first fault on the ways it takes, and none if there is none. -/
theorem walk_blame {guards : List Condition} (hproper : tree.Proper) : ∀ fuel {before : List Nat}
    {way : List Waypoint} {index : Nat}, tree.Charts table before way → index < tree.size →
    tree.size ≤ index + fuel →
    blame (tree.walk table guards fuel way index) =
      ((tree.routesFrom fuel before index).flatMap (tree.nodeFaults table)).head? := by
  intro fuel
  induction fuel with
  | zero => intro before way index _ hlt hfuel; omega
  | succ fuel ih =>
    -- the same for the positions of a list, each far enough down
    have hall : ∀ (before : List Nat) (way : List Waypoint) (indices : List Nat),
        tree.Charts table before way →
        (∀ c ∈ indices, c < tree.size ∧ tree.size ≤ c + fuel) →
        blame (tree.walkAll table guards fuel way indices) =
          ((indices.flatMap (tree.routesFrom fuel before)).flatMap
            (tree.nodeFaults table)).head? := by
      intro before way indices hcharts
      induction indices with
      | nil =>
        intro _
        simp [walkAll, blame]
      | cons index rest ihr =>
        intro hbounds
        obtain ⟨⟨hlt, hfuel⟩, hrest⟩ := List.forall_mem_cons.mp hbounds
        rw [List.flatMap_cons, List.flatMap_append, List.head?_append, ← ih hcharts hlt hfuel,
          ← ihr hrest]
        simp only [walkAll]
        cases tree.walk table guards fuel way index with
        | error e => rfl
        | ok first => cases tree.walkAll table guards fuel way rest <;> rfl
    intro before way index hcharts hlt hfuel
    obtain ⟨node, hnode⟩ := exists_node hlt
    have hpath := hcharts.pathText hnode
    have hhere : blame (tree.branchAt table way index node) = _ := branchAt_blame way index node
    rw [hpath] at hhere
    rw [routesFrom, childrenAt_of_node hnode, List.flatMap_cons, nodeFaults_concat hnode,
      nodeFaultsAt, List.append_assoc, List.head?_append, ← hhere]
    simp only [walk, hnode]
    cases hbranch : tree.branchAt table way index node with
    | error e => rfl
    | ok branch =>
      have hisBranch := branchAt_ok hbranch
      simp only [hisBranch.outcome_eq]
      cases hleaf : node.isLeaf with
      | true =>
        have hnil : node.children = [] := List.isEmpty_iff.mp hleaf
        cases hscore : node.score with
        | none => simp [outcome?, leafFaults, hscore, hleaf, hpath, blame]
        | some score => simp [outcome?, leafFaults, hscore, hnil, blame]
      | false =>
        have hbelow := hall (before ++ [index]) (onward way index node branch) node.children
          (hcharts.onward hnode hisBranch) ?_
        · simp only [leafFaults, hleaf, Bool.false_and, Bool.false_eq_true, if_false,
            List.nil_append, ← hbelow]
          cases tree.walkAll table guards fuel (onward way index node branch)
            node.children <;> rfl
        · intro c hc
          rw [← childrenAt_of_node hnode] at hc
          have hbehind := hproper.behind index c hc
          exact ⟨hproper.inside index c hc, by omega⟩

/-! ## The whole derivation -/

theorem repeatedId?_eq (seen : List String) (nodes : List Node) :
    repeatedId? seen nodes = ((List.range nodes.length).filterMap fun k =>
      ((nodes.map (·.id))[k]?).filter
        (seen ++ (nodes.map (·.id)).take k).contains).head? := by
  induction nodes generalizing seen with
  | nil => rfl
  | cons node rest ih =>
    have hshift : ∀ k, (node.id :: seen ++ (rest.map (·.id)).take k).contains =
        (seen ++ ((node :: rest).map (·.id)).take (k + 1)).contains := by
      intro k
      funext id
      simp [Bool.or_left_comm]
    rw [List.length_cons, List.range_succ_eq_map, repeatedId?]
    cases hseen : seen.contains node.id with
    | true =>
      rw [List.filterMap_cons_some (b := node.id) (by simpa using hseen)]
      rfl
    | false =>
      rw [List.filterMap_cons_none (by simpa using hseen), List.filterMap_map, if_neg (by simp), ih]
      simp only [hshift]
      rfl

theorem repeats_eq_nil_iff {ids : List String} : repeats ids = [] ↔ ids.Nodup := by
  rw [repeats, List.filterMap_eq_nil_iff]
  constructor
  · intro h
    refine List.pairwise_iff_getElem.mpr ?_
    intro i j hi hj hlt heq
    have hnone := h j (List.mem_range.mpr hj)
    have hmem : ids[j] ∈ ids.take j := heq ▸ List.mem_take_iff_getElem.mpr ⟨i, by omega, rfl⟩
    simp [List.getElem?_eq_getElem hj, hmem] at hnone
  · intro hnodup k hk
    have hlt := List.mem_range.mp hk
    have hfresh : ids[k] ∉ ids.take k := by
      intro hmem
      obtain ⟨i, hi, heq⟩ := List.mem_take_iff_getElem.mp hmem
      exact List.pairwise_iff_getElem.mp hnodup i k (by omega) hlt (by omega) heq
    simp [List.getElem?_eq_getElem hlt, hfresh]

theorem typedGuards_blame (tree : Tree) (table : FieldTable) (constraints : List Predicate) :
    blame (tree.typedGuards table constraints) =
      (constraints.flatMap (·.faultsAt table tree.modelName "guard")).head? := by
  induction constraints with
  | nil => rfl
  | cons p ps ih =>
    rw [List.flatMap_cons, List.head?_append, ← Predicate.typedAt_blame, ← ih]
    simp only [typedGuards]
    cases p.typedAt table tree.modelName "guard" with
    | error e => rfl
    | ok c => cases tree.typedGuards table ps <;> rfl

theorem derive_blame (hproper : tree.Proper) (table : FieldTable) (constraints : List Predicate) :
    blame (tree.derive table constraints) = (tree.faults table constraints).head? := by
  by_cases hnil : tree.nodes = []
  · simp [derive, faults, hnil, blame]
  · have hsize : 0 < tree.size := List.length_pos_of_ne_nil hnil
    have hids : repeatedId? [] tree.nodes = (repeats (tree.nodes.map (·.id))).head? := by
      rw [repeatedId?_eq, repeats, List.length_map]
      rfl
    have hempty : tree.nodes.isEmpty = false := by simpa using hnil
    simp only [faults, hempty, Bool.false_eq_true, if_false, List.nil_append, List.head?_append,
      List.head?_map, ← hids, ← typedGuards_blame]
    simp only [derive, hempty, Bool.false_eq_true, if_false]
    cases repeatedId? [] tree.nodes with
    | some id => rfl
    | none =>
      cases tree.typedGuards table constraints with
      | error e => rfl
      | ok guards =>
        have hwalk : blame (tree.walk table guards tree.size [] 0) = _ :=
          walk_blame hproper tree.size .nil hsize (Nat.le_add_left _ _)
        rw [routes, ← hwalk]
        simp only [visit_eq, show Walk.start.way = [] from rfl]
        cases tree.walk table guards tree.size [] 0 <;> rfl

/-! ## Acceptable trees -/

theorem predicateFaults_eq_nil_iff {path : String} {node : Node} :
    tree.predicateFaults table path node = [] ↔
      ∀ p, node.predicate = some p → p.Typable table := by
  cases hp : node.predicate <;> simp [predicateFaults, hp, Predicate.faultsAt_eq_nil_iff]

theorem defaultFaults_eq_nil_iff {path : String} {node : Node} :
    tree.defaultFaults path node = [] ↔ ∀ id, node.defaultChild = some id →
      ∃ child ∈ node.children, (tree.node? child).map (·.id) = some id := by
  simp only [← mem_idsOn]
  cases hd : node.defaultChild <;> simp [defaultFaults, hd]

theorem leafFaults_eq_nil_iff {path : String} {node : Node} :
    tree.leafFaults path node = [] ↔ (node.isLeaf = true → node.score.isSome = true) := by
  cases hleaf : node.isLeaf <;> cases hscore : node.score <;> simp [leafFaults, hleaf, hscore]

theorem nodeFaultsAt_eq_nil_iff {path : String} {node : Node} :
    tree.nodeFaultsAt table path node = [] ↔
      (∀ p, node.predicate = some p → p.Typable table) ∧
      (∀ id, node.defaultChild = some id →
        ∃ child ∈ node.children, (tree.node? child).map (·.id) = some id) ∧
      (node.isLeaf = true → node.score.isSome = true) := by
  rw [nodeFaultsAt, List.append_eq_nil_iff, List.append_eq_nil_iff, predicateFaults_eq_nil_iff,
    defaultFaults_eq_nil_iff, leafFaults_eq_nil_iff, and_assoc]

/-- Every node is at the end of a way, so no fault is passed over. -/
theorem Grown.routes_clean_iff (hgrown : tree.Grown Bare) :
    tree.routes.flatMap (tree.nodeFaults table) = [] ↔
      ∀ node ∈ tree.nodes, ∀ path, tree.nodeFaultsAt table path node = [] := by
  rw [List.flatMap_eq_nil_iff]
  constructor
  · intro h node hmem path
    obtain ⟨index, hlt, rfl⟩ := List.getElem_of_mem hmem
    have hnode : tree.node? index = some tree.nodes[index] := List.getElem?_eq_getElem hlt
    have hperm := hgrown.preorder_perm tree.size (Nat.le_refl _) (List.ne_nil_of_mem hmem)
    have hends : some index ∈ tree.routes.map List.getLast? := by
      rw [routes, routesFrom_ends]
      exact List.mem_map_of_mem (hperm.mem_iff.mpr (List.mem_range.mpr hlt))
    obtain ⟨route, hroute, hlast⟩ := List.mem_map.mp hends
    have hclean := h route hroute
    simp only [nodeFaults, hlast, Option.bind_some, hnode] at hclean
    -- whether there is a fault does not depend on the path it would be reported with
    exact nodeFaultsAt_eq_nil_iff.mpr (nodeFaultsAt_eq_nil_iff.mp hclean)
  · intro h route _
    simp only [nodeFaults]
    split
    · rfl
    · rename_i node hnode
      obtain ⟨index, -, hindex⟩ := Option.bind_eq_some_iff.mp hnode
      exact h node (List.mem_of_getElem? hindex) _

theorem Grown.faults_eq_nil_iff (hgrown : tree.Grown Bare) (constraints : List Predicate) :
    tree.faults table constraints = [] ↔ tree.Acceptable table constraints := by
  simp only [faults, List.append_eq_nil_iff, List.map_eq_nil_iff, repeats_eq_nil_iff,
    List.flatMap_eq_nil_iff (f := Predicate.faultsAt table tree.modelName "guard"),
    Predicate.faultsAt_eq_nil_iff, hgrown.routes_clean_iff, nodeFaultsAt_eq_nil_iff]
  constructor
  · rintro ⟨⟨⟨hne, hdistinct⟩, hconstraints⟩, hnodes⟩
    refine ⟨?_, hdistinct, hconstraints, fun node hmem => (hnodes node hmem "").1,
      fun node hmem => (hnodes node hmem "").2.1, fun node hmem => (hnodes node hmem "").2.2⟩
    intro hnil
    simp [hnil] at hne
  · intro h
    refine ⟨⟨⟨?_, h.distinct⟩, h.constraints⟩, fun node hmem _ => ⟨h.predicates node hmem,
      h.defaults node hmem, h.scores node hmem⟩⟩
    simp [h.nonempty]

/-- Rules can be derived exactly from acceptable trees. From any other the error is the first fault,
where the nodes are taken depth first and each is named by the way to it from the root. -/
theorem derive_blames (hgrown : tree.Grown Bare) (table : FieldTable)
    (constraints : List Predicate) :
    ((∃ ruleSet, tree.derive table constraints = .ok ruleSet) ↔
      tree.Acceptable table constraints) ∧
    (∀ e, tree.derive table constraints = .error e ↔
      (tree.faults table constraints).head? = some e) ∧
    (∀ route ∈ tree.routes, ∃ index, tree.Leads route index) ∧
    tree.routes.map List.getLast? = (tree.preorder tree.size 0).map some := by
  have hblame := derive_blame hgrown.proper table constraints
  refine ⟨?_, ?_, tree.routes_leads, tree.routesFrom_ends tree.size [] 0⟩
  · rw [← hgrown.faults_eq_nil_iff, ← List.head?_eq_none_iff, ← hblame, blame_eq_none_iff]
  · intro e
    rw [← hblame, blame_eq_some_iff]

/-- A literal that is no number stands below the first child. The second child tests an unknown
field and has no score. -/
def flawed : Document :=
  { dataDictionary := [⟨"n", "numeric", []⟩], transformations := [],
    settings := Settings.named "flawed",
    root := some ⟨⟨none, none, none, [], some "b"⟩, some "r",
      [⟨⟨some .always, none, none, [], none⟩, some "a",
          [⟨⟨some (.simple "n" .lessThan (some "ten")), some "x", none, [], none⟩, some "c", []⟩]⟩,
        ⟨⟨some (.simple "u" .equal (some "1")), none, none, [], none⟩, some "b", []⟩]⟩ }

def flawedTable : FieldTable := ⟨[("n", ⟨.numeric, .double, .data, []⟩)]⟩

def flawedTree : Tree :=
  { flawed.settings with
    nodes :=
      [⟨⟨none, none, none, [], some "b"⟩, "r", [1, 3]⟩,
        ⟨⟨some .always, none, none, [], none⟩, "a", [2]⟩,
        ⟨⟨some (.simple "n" .lessThan (some "ten")), some "x", none, [], none⟩, "c", []⟩,
        ⟨⟨some (.simple "u" .equal (some "1")), none, none, [], none⟩, "b", []⟩] }

theorem derive_blames_flawed :
    flawed.toTree = .ok flawedTree ∧ flawedTree.Grown Bare ∧
      flawedTree.faults flawedTable [] =
        [.predicate "n" "r/a/c" (.notNumber "ten"), .predicate "u" "r/b" .undefinedField,
          .malformed "flawed" (.unscoredLeaf "r/b")] ∧
      flawedTree.derive flawedTable [] = .error (.predicate "n" "r/a/c" (.notNumber "ten")) ∧
      ¬ flawedTree.Acceptable flawedTable [] := by
  have htree : flawed.toTree = .ok flawedTree := rfl
  have hfaults : flawedTree.faults flawedTable [] =
      [.predicate "n" "r/a/c" (.notNumber "ten"), .predicate "u" "r/b" .undefinedField,
        .malformed "flawed" (.unscoredLeaf "r/b")] := by
    decide +kernel
  obtain ⟨haccepts, hblames, -⟩ := derive_blames (Document.toTree_grown htree) flawedTable []
  have herror : flawedTree.derive flawedTable [] =
      .error (.predicate "n" "r/a/c" (.notNumber "ten")) := by
    rw [hblames, hfaults]
    rfl
  refine ⟨htree, Document.toTree_grown htree, hfaults, herror, ?_⟩
  rw [← haccepts, herror]
  simp

end Tree
end ScoringTree
