import ScoringTree.Proofs.Branches

/-!
# ScoringTree.Proofs.DecisionList

The rules of a model, read from the first to the last.

The interpreter goes down the tree and never turns back; the rules stand in one list, leaf after
leaf. As long as no default child is followed, a record that ends at a leaf satisfies the rule of
that leaf and none of the rules before it.

* `Rule.holds`            — all premises of a rule are true.
* `Tree.NoDefaults`       — an unknown predicate stops the run or is passed over.
* `Tree.Compiled.holds_iff`
                          — that is, every node on its path is entered.
* `Tree.walk_blocked`     — no rule below a node holds where the node is not entered.
* `Tree.walk_decides`     — from a node on, the first rule that holds is that of the leaf reached.
* `Document.first_rule_decides`
                          — the same for a whole model.
-/

namespace ScoringTree

/-- All premises of the rule are true. -/
def Rule.holds (record : Record) (rule : Rule) : Bool :=
  rule.premises.all fun p => Helper.isTrue (p.condition.value compare record)

def Waypoint.holds (record : Record) (w : Waypoint) : Bool :=
  Helper.isTrue ((w.condition.getD (.constant true)).value compare record)

namespace Tree

theorem holds_ruleOf (record : Record) (way : List Waypoint) (guards : List Condition)
    (outcome : Outcome) :
    (ruleOf way guards outcome).holds record = way.all (·.holds record) := by
  simp only [ruleOf, Rule.holds]
  induction way with
  | nil => rfl
  | cons w rest ih =>
    cases hw : w.condition with
    | none =>
      rw [List.filterMap_cons_none (by simp [hw]), ih]
      simp [Waypoint.holds, hw, Condition.value, Helper.isTrue]
    | some c =>
      rw [List.filterMap_cons_some (b := ⟨w.node, w.nodeId, c⟩) (by simp [hw]), List.all_cons, ih]
      simp [Waypoint.holds, hw]

/-- An unknown predicate stops the run or is passed over. -/
def NoDefaults (tree : Tree) : Prop :=
  tree.onMissing = .nullPrediction ∨ tree.onMissing = .lastPrediction ∨
    ∀ node ∈ tree.nodes, node.defaultChild = none

theorem NoDefaults.onUnknown {tree : Tree} (h : tree.NoDefaults) {node : Node}
    (hmem : node ∈ tree.nodes) :
    tree.onUnknown node = .ok none ∨ tree.onUnknown node = .ok (some .nullPrediction) ∨
      tree.onUnknown node = .ok (some .lastPrediction) := by
  rcases h with h | h | h
  · simp [Tree.onUnknown, h]
  · simp [Tree.onUnknown, h]
  · cases hs : tree.onMissing <;> simp [Tree.onUnknown, hs, h node hmem]

section Walk

variable {tree : Tree} {table : FieldTable} {guards : List Condition} {types : FieldTypes}

/-- A waypoint stands for a node of the tree and has the condition of that node. -/
def Charted (tree : Tree) (table : FieldTable) (w : Waypoint) : Prop :=
  ∃ node, tree.node? w.node = some node ∧
    node.predicate.map (·.typed table) = w.condition.map Except.ok

/-- Every rule that a walk finds continues the way through the node where the walk began. -/
theorem walk_rules : ∀ fuel (way : List Waypoint) (index : Nat) (harvest : Harvest),
    tree.walk table guards fuel way index = .ok harvest →
    ∃ node branch, tree.node? index = some node ∧ tree.IsBranch table index node branch ∧
      ∀ rule ∈ harvest.rules, ∃ rest outcome, (∀ w ∈ rest, tree.Charted table w) ∧
        rule = ruleOf (onward way index node branch ++ rest) guards outcome := by
  intro fuel
  induction fuel with
  | zero => intro way index harvest h; simp [walk] at h
  | succ fuel ih =>
    have hall : ∀ (way : List Waypoint) (indices : List Nat) (harvest : Harvest),
        tree.walkAll table guards fuel way indices = .ok harvest →
        ∀ rule ∈ harvest.rules, ∃ rest outcome, (∀ w ∈ rest, tree.Charted table w) ∧
          rule = ruleOf (way ++ rest) guards outcome := by
      intro way indices
      induction indices with
      | nil =>
        intro harvest h
        rw [walkAll_nil h]
        simp
      | cons index rest ihr =>
        intro harvest h rule hrule
        obtain ⟨first, others, hfirst, hothers, rfl⟩ := walkAll_cons h
        rcases List.mem_append.mp hrule with hrule | hrule
        · obtain ⟨node, branch, hnode, hbranch, hrules⟩ := ih way index first hfirst
          obtain ⟨rest, outcome, hcharted, rfl⟩ := hrules rule hrule
          refine ⟨⟨index, node.id, branch.condition⟩ :: rest, outcome, ?_, by simp [onward]⟩
          intro w hw
          rcases List.mem_cons.mp hw with rfl | hw
          · exact ⟨node, hnode, hbranch.condition_eq⟩
          · exact hcharted w hw
        · exact ihr others hothers rule hrule
    intro way index harvest h
    obtain ⟨node, branch, hnode, hbranch, hcase⟩ := walk_ok h
    refine ⟨node, branch, hnode, hbranch, ?_⟩
    rcases hcase with ⟨-, outcome, -, rfl⟩ | ⟨-, below, hbelow, rfl⟩
    · intro rule hrule
      exact ⟨[], outcome, by simp, by simpa using hrule⟩
    · exact hall _ _ below hbelow

/-- No rule below a node holds where the node is not entered. -/
theorem walk_blocked (hmatch : types.Matches table) {record : Record} {fuel : Nat}
    {way : List Waypoint} {index : Nat} {harvest : Harvest} {node : Node} {t : Truth}
    (h : tree.walk table guards fuel way index = .ok harvest)
    (hnode : tree.node? index = some node) (henter : node.enter types record = .ok t)
    (ht : t ≠ .true) : harvest.rules.find? (·.holds record) = none := by
  obtain ⟨node', branch, hnode', hbranch, hrules⟩ := walk_rules _ _ _ _ h
  rw [hnode] at hnode'
  cases hnode'
  obtain ⟨t', henter', hvalue⟩ := hbranch.enter hmatch record
  rw [henter] at henter'
  cases henter'
  rw [List.find?_eq_none]
  intro rule hrule
  obtain ⟨rest, outcome, -, rfl⟩ := hrules rule hrule
  have hfalse : Helper.isTrue t.boxed = false := by
    rw [Bool.eq_false_iff, ne_eq, Helper.isTrue_boxed]
    exact ht
  simp [holds_ruleOf, onward, Waypoint.holds, hvalue, hfalse]

/-- The child that is entered is found by the walk, and no rule of the children before it holds. -/
theorem selectChild_descend (hmatch : types.Matches table) (hdefaults : tree.NoDefaults)
    {record : Record} {node : Node} (hmem : node ∈ tree.nodes) {fuel : Nat} {way : List Waypoint}
    {child : Nat} : ∀ {children : List Nat} {below : Harvest},
      tree.selectChild types record node children = .ok (.descend child) →
      tree.walkAll table guards fuel way children = .ok below →
      ∃ target harvest, tree.node? child = some target ∧ target.enter types record = .ok .true ∧
        tree.walk table guards fuel way child = .ok harvest ∧
        ∀ rule, harvest.rules.find? (·.holds record) = some rule →
          below.rules.find? (·.holds record) = some rule := by
  intro children
  induction children with
  | nil => intro below hselect _; simp [selectChild] at hselect
  | cons c rest ih =>
    intro below hselect hwalk
    obtain ⟨first, others, hfirst, hothers, rfl⟩ := walkAll_cons hwalk
    obtain ⟨target, branch, htarget, hbranch, -⟩ := walk_rules _ _ _ _ hfirst
    obtain ⟨t, henter, -⟩ := hbranch.enter hmatch record
    simp only [selectChild, htarget, henter] at hselect
    -- a child that is passed over takes its rules out of the list
    have hpass : t ≠ .true → tree.selectChild types record node rest = .ok (.descend child) →
        ∃ target harvest, tree.node? child = some target ∧
          target.enter types record = .ok .true ∧
          tree.walk table guards fuel way child = .ok harvest ∧
          ∀ rule, harvest.rules.find? (·.holds record) = some rule →
            (first.rules ++ others.rules).find? (·.holds record) = some rule := by
      intro ht hlater
      obtain ⟨target', harvest, htarget', henter', hwalk', hfind⟩ := ih hlater hothers
      refine ⟨target', harvest, htarget', henter', hwalk', ?_⟩
      intro rule hrule
      rw [List.find?_append, walk_blocked hmatch hfirst htarget henter ht, Option.none_or]
      exact hfind rule hrule
    cases t with
    | true =>
      cases hselect
      refine ⟨target, first, htarget, henter, hfirst, ?_⟩
      intro rule hrule
      rw [List.find?_append, hrule, Option.some_or]
    | false => exact hpass (by simp) hselect
    | unknown =>
      rcases hdefaults.onUnknown hmem with hskip | hstop | hstop
      · rw [hskip] at hselect
        exact hpass (by simp) hselect
      · rw [hstop] at hselect
        cases hselect
      · rw [hstop] at hselect
        cases hselect

/-- From a node on that is entered, the first rule that holds is that of the leaf reached. -/
theorem walk_decides (hids : (tree.nodes.map (·.id)).Nodup) (hmatch : types.Matches table)
    (hdefaults : tree.NoDefaults) (record : Record) {k : Nat} {leaf : Node}
    (hleaf : tree.node? k = some leaf) (hisLeaf : leaf.isLeaf = true) :
    ∀ fuel (way : List Waypoint) (index : Nat) (node : Node) (harvest : Harvest),
      tree.walk table guards fuel way index = .ok harvest → tree.node? index = some node →
      node.enter types record = .ok .true → way.all (·.holds record) = true →
      tree.evaluateFrom types record fuel node = .ok (some leaf.prediction) →
      ∃ rule, harvest.rules.find? (·.holds record) = some rule ∧
        tree.outcome? k leaf = some rule.outcome := by
  intro fuel
  induction fuel with
  | zero => intro way index node harvest h; simp [walk] at h
  | succ fuel ih =>
    intro way index node harvest h hnode henter hway heval
    obtain ⟨node', branch, hnode', hbranch, hcase⟩ := walk_ok h
    rw [hnode] at hnode'
    cases hnode'
    obtain ⟨t, henter', hvalue⟩ := hbranch.enter hmatch record
    rw [henter] at henter'
    cases henter'
    have honward : (onward way index node branch).all (·.holds record) = true := by
      rw [onward, List.all_append, hway]
      simp [Waypoint.holds, hvalue, Helper.isTrue_boxed]
    -- only the leaf itself has the leaf's prediction
    have hsame : node.prediction = leaf.prediction → index = k := by
      intro hprediction
      exact node?_id_inj hids hnode hleaf (congrArg Prediction.nodeId hprediction)
    simp only [evaluateFrom] at heval
    rcases hcase with ⟨hend, outcome, houtcome, rfl⟩ | ⟨hinner, below, hbelow, rfl⟩
    · rw [if_pos hend] at heval
      have hindex := hsame (Option.some.inj (Except.ok.inj heval))
      subst hindex
      rw [hnode] at hleaf
      cases hleaf
      refine ⟨ruleOf (onward way index leaf branch) guards outcome, ?_, ?_⟩
      · rw [List.find?_cons_of_pos (by rw [holds_ruleOf]; exact honward)]
      · rw [← hbranch.outcome_eq, houtcome]
        rfl
    · have hnotLast : node.lastPrediction? ≠ some leaf.prediction := by
        intro hlast
        simp only [Node.lastPrediction?] at hlast
        split at hlast
        · have hindex := hsame (Option.some.inj hlast)
          subst hindex
          rw [hnode] at hleaf
          cases hleaf
          rw [hinner] at hisLeaf
          cases hisLeaf
        · cases hlast
      rw [if_neg (by simp [hinner])] at heval
      have hmem : node ∈ tree.nodes := List.mem_of_getElem? hnode
      split at heval
      · cases heval
      · rename_i child hselect
        obtain ⟨target, found, htarget, hentered, hwalk, hfind⟩ :=
          selectChild_descend hmatch hdefaults hmem hselect hbelow
        rw [htarget] at heval
        obtain ⟨rule, hrule, houtcome⟩ :=
          ih _ child target found hwalk htarget hentered honward heval
        exact ⟨rule, hfind rule hrule, houtcome⟩
      · cases heval
      · exact absurd (Except.ok.inj heval) hnotLast
      · split at heval
        · cases heval
        · exact absurd (Except.ok.inj heval) hnotLast

end Walk

/-- A rule holds where every node on its path is entered. -/
theorem Compiled.holds_iff {tree : Tree} {table : FieldTable} {constraints : List Predicate}
    {ruleSet : RuleSet} {types : FieldTypes} (h : tree.Compiled table constraints ruleSet types)
    (record : Record) {rule : Rule} (hrule : rule ∈ ruleSet.rules) :
    rule.holds record = true ↔
      ∀ i ∈ rule.path, ∃ node, tree.node? i = some node ∧
        node.enter types record = .ok .true := by
  obtain ⟨-, -, -, harvest, hwalk, hrules, -, -, -⟩ := derive_ok h.derived
  obtain ⟨root, branch, hroot, hbranch, hways⟩ := walk_rules _ _ _ _ hwalk
  obtain ⟨rest, outcome, hrest, rfl⟩ := hways rule (hrules ▸ hrule)
  have hcharted : ∀ w ∈ onward [] 0 root branch ++ rest, tree.Charted table w := by
    intro w hw
    rcases List.mem_append.mp hw with hw | hw
    · rw [onward, List.nil_append, List.mem_singleton] at hw
      rw [hw]
      exact ⟨root, hroot, hbranch.condition_eq⟩
    · exact hrest w hw
  rw [holds_ruleOf, List.all_eq_true]
  simp only [ruleOf, List.mem_map, forall_exists_index, and_imp, forall_apply_eq_imp_iff₂]
  refine forall₂_congr fun w hw => ?_
  obtain ⟨node, hnode, hcondition⟩ := hcharted w hw
  obtain ⟨t, henter, hvalue⟩ := enter_typed hcondition h.typed record
  simp [Waypoint.holds, hvalue, Helper.isTrue_boxed, hnode, henter]

end Tree

/-- Without default children, a record that is given the prediction of a leaf is decided by the
first rule that holds, and that is the rule of the leaf. -/
theorem Document.first_rule_decides {document : Document} {table : FieldTable} {tree : Tree}
    {constraints : List Predicate} {ruleSet : RuleSet}
    (hresolve : document.dictionaries.resolve = .ok table) (htree : document.toTree = .ok tree)
    (hderive : tree.derive table constraints = .ok ruleSet)
    (hdefaults : tree.onMissing = .nullPrediction ∨ tree.onMissing = .lastPrediction ∨
      ∀ node ∈ tree.nodes, node.defaultChild = none) (record : Record) :
    ∃ types, document.fieldTypes = .ok types ∧
      (∀ rule ∈ ruleSet.rules, rule.holds record = true ↔
        ∀ i ∈ rule.path, ∃ node, tree.node? i = some node ∧
          node.enter types record = .ok .true) ∧
      (∀ k leaf, tree.node? k = some leaf → leaf.isLeaf = true →
        tree.evaluate types (.object record) = .ok (some leaf.prediction) →
        ∃ rule, ruleSet.rules.find? (·.holds record) = some rule ∧
          tree.outcome? k leaf = some rule.outcome) ∧
      ((∀ rule ∈ ruleSet.rules, rule.holds record = false) →
        ∀ k leaf, tree.node? k = some leaf → leaf.isLeaf = true →
          tree.evaluate types (.object record) ≠ .ok (some leaf.prediction)) := by
  obtain ⟨types, htypes, hcompiled⟩ := Document.compiled hresolve htree hderive
  obtain ⟨-, hids, -, harvest, hwalk, hrules, -, -, -⟩ := Tree.derive_ok hderive
  have hdecides : ∀ k leaf, tree.node? k = some leaf → leaf.isLeaf = true →
      tree.evaluate types (.object record) = .ok (some leaf.prediction) →
      ∃ rule, ruleSet.rules.find? (·.holds record) = some rule ∧
        tree.outcome? k leaf = some rule.outcome := by
    intro k leaf hleaf hisLeaf heval
    obtain ⟨root, hroot, henter, hfrom⟩ := Tree.evaluate_eq_some_iff.mp heval
    rw [hrules]
    exact Tree.walk_decides hids hcompiled.typed hdefaults record hleaf hisLeaf tree.size [] 0 root
      harvest hwalk hroot henter rfl hfrom
  refine ⟨types, htypes, fun rule => hcompiled.holds_iff record, hdecides, ?_⟩
  intro hnone k leaf hleaf hisLeaf heval
  obtain ⟨rule, hfind, -⟩ := hdecides k leaf hleaf hisLeaf heval
  have hholds : rule.holds record = true := List.find?_some hfind
  rw [hnone rule (List.mem_of_find?_eq_some hfind)] at hholds
  cases hholds

theorem Document.first_rule_decides_parting :
    Parting.tree.onMissing = .nullPrediction ∧
      Parting.document.fieldTypes = .ok Parting.types ∧
      Parting.tree.evaluate Parting.types (.object [("t", .string "x")]) =
        .ok (some ⟨"1", some "a", []⟩) ∧
      ∃ rule, Parting.ruleSet.rules.find? (·.holds [("t", .string "x")]) = some rule ∧
        rule.outcome = ⟨1, "1", .text "a", []⟩ := by
  have heval : Parting.tree.evaluate Parting.types (.object [("t", .string "x")]) =
      .ok (some ⟨"1", some "a", []⟩) := by decide +kernel
  obtain ⟨types, htypes, -, hdecides, -⟩ :=
    Document.first_rule_decides Parting.resolve_eq Parting.toTree_eq Parting.derive_eq
      (Or.inl rfl) [("t", .string "x")]
  have hsame : types = Parting.types := Except.ok.inj (htypes.symm.trans Parting.fieldTypes_eq)
  obtain ⟨rule, hfind, houtcome⟩ := hdecides 1 _ rfl rfl (hsame ▸ heval)
  exact ⟨rfl, Parting.fieldTypes_eq, heval, rule, hfind, (Option.some.inj houtcome).symm⟩

end ScoringTree
