import ScoringTree.Proofs.Flattening
import ScoringTree.Proofs.Routes
import ScoringTree.Proofs.SingleLines
import ScoringTree.Proofs.UnitRun
import ScoringTree.Source.Sources

/-!
# ScoringTree.Proofs.UnitClosure

Nothing that a generated unit refers to is missing from it.

* `MethodBody.reactions`  — all that a method may answer with, or go on to; its lines return these
                            and nothing else (`ScoringUnit.returned_bodyCode`).
* `MethodBody.tested`     — the children that a method tests; the tests in its lines lead into these
                            (`ScoringUnit.entries_bodyCode`).
* `ScoringUnit.Declares`  — the constant or the method that a reaction names is there.
* `Tree.unit_closed`      — the lines of a unit declare each name once, and no name is missing.
-/

namespace ScoringTree

/-! ## What methods return and test -/

open Source Code ScoringUnit

/-- The expression that stands for a reaction. -/
def Reaction.expression : Reaction → String
  | .reply answer => replyText answer
  | .descend node => call node

/-- Where a test may lead to: into the child, or to what is done when it is unknown. -/
def UnitStep.reactions (step : UnitStep) : List Reaction :=
  .descend step.child :: step.onUnknown.toList

def MethodBody.reactions : MethodBody → List Reaction
  | .leaf reply => [.reply reply]
  | .choice steps fallback => steps.flatMap (·.reactions) ++ [.reply fallback]

/-- The children that a method tests. -/
def MethodBody.tested : MethodBody → List Nat
  | .leaf _ => []
  | .choice steps _ => steps.map (·.child)

theorem Reaction.not_mem_expression (reaction : Reaction) : ';' ∉ reaction.expression.toList := by
  have hnames : ∀ node, ';' ∉ (methodName node).toList ∧ ';' ∉ (constantName node).toList :=
    fun node => ⟨not_mem_numbered (by decide) (by decide) node,
      not_mem_numbered (by decide) (by decide) node⟩
  cases reaction with
  | reply answer =>
    cases answer with
    | none => exact (by decide : ';' ∉ "null".toList)
    | some node => exact (hnames node).2
  | descend node =>
    rw [Reaction.expression, call, String.toList_append, List.mem_append, not_or]
    exact ⟨(hnames node).1, by decide⟩

namespace ScoringUnit

theorem reactionCode_eq (reaction : Reaction) :
    reactionCode reaction = returnLine reaction.expression := by
  cases reaction <;> rfl

theorem returned_reaction (reaction : Reaction) (depth : Nat) :
    ((returnLine reaction.expression).lines depth).filterMap returned? = [reaction.expression] := by
  have hreturned := returned?_return reaction.not_mem_expression depth
  rw [returnLine, lines, List.filterMap_cons_some hreturned, List.filterMap_nil]

/-- A block returns what its body returns. -/
theorem returned_block {head : String} {c : Char} (hc : Opens head c) (hblank : c ≠ ' ')
    (h : c ≠ 'r') (body : List Code) (depth : Nat) :
    (lines depth (.block head body)).filterMap returned? =
      (linesAll (depth + 1) body).filterMap returned? := by
  have hbrace : returned? (indented depth "\x7d") = none :=
    returned?_otherwise (show Opens "\x7d" '\x7d' from rfl) (by decide) (by decide) depth
  rw [lines, List.filterMap_cons_none (returned?_otherwise (hc.append _) hblank h depth),
    List.filterMap_append, List.filterMap_cons_none hbrace, List.filterMap_nil, List.append_nil]

theorem returned_guarded {head : String} {c : Char} (hc : Opens head c) (hblank : c ≠ ' ')
    (h : c ≠ 'r') (reaction : Reaction) (depth : Nat) :
    (lines depth (.block head [returnLine reaction.expression])).filterMap returned? =
      [reaction.expression] := by
  rw [returned_block hc hblank h, filterMap_linesAll, List.flatMap_singleton, returned_reaction]

theorem returned_stepCode (step : UnitStep) (depth : Nat) :
    (linesAll depth (stepCode step)).filterMap returned? = step.reactions.map (·.expression) := by
  have hmatched : Opens "matched = " 'm' := rfl
  have htest : returned? (indented depth ("matched = " ++ step.condition.source ++ ";")) = none :=
    returned?_otherwise ((hmatched.append _).append _) (by decide) (by decide) depth
  have hknown := returned_guarded (show Opens "if (isTrue(matched))" 'i' from rfl) (by decide)
    (by decide) (.descend step.child) depth
  have hunknown := fun reaction => returned_guarded
    (show Opens "if (matched == null)" 'i' from rfl) (by decide) (by decide) reaction depth
  rw [filterMap_linesAll, stepCode, UnitStep.reactions, List.map_cons, List.cons_append,
    List.cons_append, List.nil_append, List.flatMap_cons, List.flatMap_cons, lines,
    List.filterMap_cons_none htest, List.filterMap_nil, List.nil_append]
  refine congr (congrArg _ hknown) ?_
  cases step.onUnknown with
  | none => rfl
  | some reaction =>
    rw [Option.toList_some, List.map_singleton, List.map_singleton, List.flatMap_singleton,
      reactionCode_eq, hunknown]

/-- The lines of a body return what the method may react with, and nothing else. -/
theorem returned_bodyCode (body : MethodBody) (depth : Nat) :
    (linesAll depth (bodyCode body)).filterMap returned? = body.reactions.map (·.expression) := by
  cases body with
  | leaf answer =>
    rw [filterMap_linesAll, bodyCode, List.flatMap_singleton, MethodBody.reactions]
    exact returned_reaction (.reply answer) depth
  | choice steps fallback =>
    have hdeclaration : returned? (indented depth "Boolean matched;") = none :=
      returned?_otherwise (show Opens "Boolean matched;" 'B' from rfl) (by decide) (by decide) depth
    have hsteps : (linesAll depth (steps.flatMap stepCode)).filterMap returned? =
        (steps.flatMap (·.reactions)).map (·.expression) := by
      induction steps with
      | nil => rfl
      | cons step rest ih =>
        rw [List.flatMap_cons, linesAll_append, List.filterMap_append, ih, returned_stepCode,
          List.flatMap_cons, List.map_append]
    have hfallback := returned_reaction (.reply fallback) depth
    rw [bodyCode, linesAll, lines, linesAll_append, List.singleton_append,
      List.filterMap_cons_none hdeclaration, List.filterMap_append, hsteps, linesAll_singleton,
      MethodBody.reactions, List.map_append]
    exact congrArg _ hfallback

theorem returned_evaluateBody (unit : ScoringUnit) (depth : Nat) :
    (linesAll depth unit.evaluateBody).filterMap returned? =
      (unit.guards ++ unit.rootCondition.toList).map (fun _ => "null") ++ [call unit.root] := by
  have hguards : ∀ conditions : List Condition,
      (linesAll depth (conditions.map guardCode)).filterMap returned? =
        conditions.map fun _ => "null" := by
    intro conditions
    have hif : Opens "if (!isTrue(" 'i' := rfl
    rw [filterMap_linesAll, List.flatMap_map, List.map_eq_flatMap]
    refine List.flatMap_congr fun condition _ => ?_
    exact returned_guarded ((hif.append _).append _) (by decide) (by decide) (.reply none) depth
  have hroot := returned_reaction (.descend unit.root) depth
  rw [evaluateBody, ← List.map_append, linesAll_append, List.filterMap_append, hguards,
    linesAll_singleton]
  exact congrArg _ hroot

/-- All that the methods of a unit return. -/
theorem mem_returned_scoringLines {unit : ScoringUnit} {e : String}
    (h : e ∈ unit.scoringLines.filterMap returned?) :
    e = "null" ∨ e = call unit.root ∨
      ∃ method ∈ unit.methods, ∃ reaction ∈ method.body.reactions, e = reaction.expression := by
  have hblank : returned? "" = none := rfl
  have hpublic : Opens "public Outcome evaluate" 'p' := rfl
  have hprivate : Opens "private Outcome " 'p' := rfl
  rw [scoringLines_eq, filterMap_spaced hblank, List.flatMap_map, members, List.flatMap_cons,
    List.flatMap_map, List.mem_append] at h
  rcases h with h | h
  · rw [Member.code, returned_block (hpublic.append _) (by decide) (by decide),
      returned_evaluateBody, List.mem_append, List.mem_map, List.mem_singleton] at h
    rcases h with ⟨_, -, h⟩ | h
    · exact Or.inl h.symm
    · exact Or.inr (Or.inl h)
  · obtain ⟨method, hmethod, h⟩ := List.mem_flatMap.mp h
    rw [Member.code, returned_block ((hprivate.append _).append _) (by decide) (by decide),
      returned_bodyCode] at h
    obtain ⟨reaction, hreaction, rfl⟩ := List.mem_map.mp h
    exact Or.inr (Or.inr ⟨method, hmethod, reaction, hreaction, rfl⟩)

/-! ## Tests in lines -/

theorem entries_guarded {head : String} {c : Char} (hc : Opens head c) (hblank : c ≠ ' ')
    (h : c ≠ 'm') (expression : String) (depth : Nat) (rest : List String) :
    entries (lines depth (.block head [returnLine expression]) ++ rest) = entries rest := by
  have hreturn : Opens "return " 'r' := rfl
  rw [lines, linesAll_singleton, returnLine, lines, List.singleton_append,
    List.cons_append, List.cons_append, List.cons_append, List.nil_append,
    entries_otherwise (hc.append _) hblank h,
    entries_otherwise ((hreturn.append _).append _) (by decide) (by decide),
    entries_otherwise (show Opens "\x7d" '\x7d' from rfl) (by decide) (by decide)]

theorem entered?_guarded (reaction : Reaction) (depth : Nat) (rest : List String) :
    entered?
      (lines depth (.block "if (isTrue(matched))" [returnLine reaction.expression]) ++ rest) =
      some reaction.expression := by
  have hopens : Opens "if (isTrue(matched))" 'i' := rfl
  have hguard : unindented (indented depth ("if (isTrue(matched))" ++ " \x7b")) =
      "if (isTrue(matched)) \x7b".toList := by
    rw [unindented_indented (hopens.append _) (by decide)]
    rfl
  rw [lines, linesAll_singleton, returnLine, lines, List.singleton_append,
    List.cons_append, List.cons_append, entered?, if_pos hguard,
    returned?_return reaction.not_mem_expression]

/-- A step is one test, and it leads into the child. -/
theorem entries_stepCode (step : UnitStep) (depth : Nat) (rest : List String) :
    entries (linesAll depth (stepCode step) ++ rest) = some (call step.child) :: entries rest := by
  have hif : Opens "if (isTrue(matched))" 'i' := rfl
  have hnull : Opens "if (matched == null)" 'i' := rfl
  have hunknown : entries (linesAll depth (step.onUnknown.toList.map fun reaction =>
      .block "if (matched == null)" [reactionCode reaction]) ++ rest) = entries rest := by
    cases step.onUnknown with
    | none => rfl
    | some reaction =>
      rw [Option.toList_some, List.map_singleton, linesAll_singleton,
        reactionCode_eq, entries_guarded hnull (by decide) (by decide)]
  rw [stepCode, linesAll_append, linesAll, linesAll, linesAll, lines, String.append_assoc,
    List.append_nil, List.append_assoc, List.singleton_append, List.cons_append, entries_test]
  refine congr (congrArg _ (entered?_guarded (.descend step.child) depth _)) ?_
  rw [entries_guarded hif (by decide) (by decide), hunknown]

/-- The tests of a body lead into the children that the method tests, in their order. -/
theorem entries_bodyCode (body : MethodBody) (depth : Nat) :
    entries (linesAll depth (bodyCode body)) = body.tested.map fun child => some (call child) := by
  have hreturn : Opens "return " 'r' := rfl
  have hlast : ∀ answer, entries (linesAll depth [returnLine (replyText answer)]) = [] := by
    intro answer
    rw [linesAll_singleton, returnLine, lines,
      entries_otherwise ((hreturn.append _).append _) (by decide) (by decide), entries]
  cases body with
  | leaf answer => exact hlast answer
  | choice steps fallback =>
    have hsteps : ∀ rest, entries (linesAll depth (steps.flatMap stepCode) ++ rest) =
        (steps.map fun step => some (call step.child)) ++ entries rest := by
      intro rest
      induction steps with
      | nil => rfl
      | cons step more ih =>
        rw [List.flatMap_cons, linesAll_append, List.append_assoc, entries_stepCode, ih,
          List.map_cons, List.cons_append]
    rw [bodyCode, linesAll, lines, List.singleton_append, linesAll_append,
      entries_otherwise (show Opens "Boolean matched;" 'B' from rfl) (by decide) (by decide),
      hsteps, hlast, List.append_nil, MethodBody.tested, List.map_map]
    rfl

end ScoringUnit

/-! ## What units declare -/

/-- The constant or the method that a reaction names is there. -/
def ScoringUnit.Declares (unit : ScoringUnit) : Reaction → Prop
  | .reply none => True
  | .reply (some node) => node ∈ unit.outcomes.map (·.node)
  | .descend node => node ∈ unit.methods.map (·.node)

/-- The name is found among those that are read off the lines of the unit. -/
theorem ScoringUnit.Declares.expression {unit : ScoringUnit} {reaction : Reaction}
    (h : unit.Declares reaction) :
    reaction.expression = "null" ∨
      reaction.expression ∈ unit.declaringLines.filterMap declaredConstant? ∨
      ∃ name ∈ unit.declaringLines.filterMap declaredMethod?,
        reaction.expression = name ++ "(requestData)" := by
  rw [filterMap_declaredConstant?, filterMap_declaredMethod?]
  cases reaction with
  | reply answer =>
    cases answer with
    | none => exact Or.inl rfl
    | some node =>
      obtain ⟨outcome, hmem, rfl⟩ := List.mem_map.mp h
      exact Or.inr (Or.inl (List.mem_map_of_mem hmem))
  | descend node =>
    obtain ⟨method, hmem, rfl⟩ := List.mem_map.mp h
    exact Or.inr (Or.inr ⟨_, List.mem_cons_of_mem _ (List.mem_map_of_mem hmem), rfl⟩)

theorem methodName_injective : Function.Injective methodName := by
  intro m n h
  exact toString_injective (by simpa [methodName] using h)

theorem constantName_injective : Function.Injective constantName := by
  intro m n h
  exact toString_injective (by simpa [constantName] using h)

theorem methodName_ne_evaluate (node : Nat) : methodName node ≠ "evaluate" := by
  have hopens : Opens (methodName node) 'n' := (show Opens "node" 'n' from rfl).append _
  intro h
  rw [h, Opens] at hopens
  exact absurd hopens (by decide)

namespace Tree

/-- The rules of a grown tree were derived, and the unit has the methods and constants of their
branches. -/
structure Emits (tree : Tree) (table : FieldTable) (constraints : List Predicate)
    (ruleSet : RuleSet) (unit : ScoringUnit) : Prop where
  grown : tree.Grown Bare
  derived : tree.derive table constraints = .ok ruleSet
  methods_eq : unit.methods = ruleSet.branches.map ruleSet.method
  outcomes_eq : unit.outcomes = ruleSet.branches.filterMap (·.outcome)

namespace Emits

variable {tree : Tree} {table : FieldTable} {constraints : List Predicate} {ruleSet : RuleSet}
  {unit : ScoringUnit} (h : tree.Emits table constraints ruleSet unit)

include h

theorem methods_nodes : unit.methods.map (·.node) = List.range tree.size := by
  rw [h.methods_eq, List.map_map, ← derive_positions h.grown h.derived]
  exact List.map_congr_left fun branch _ => ruleSet.method_node branch

/-- The outcome of a branch is that of its own node, so no node has two. -/
theorem nodup_outcomes : (unit.outcomes.map (·.node)).Nodup := by
  have hsublist : ∀ branches : List Branch, (∀ b ∈ branches, b ∈ ruleSet.branches) →
      ((branches.filterMap (·.outcome)).map (·.node)).Sublist (branches.map (·.node)) := by
    intro branches
    induction branches with
    | nil => intro _; exact List.Sublist.refl _
    | cons branch rest ih =>
      intro hmem
      obtain ⟨hfirst, hrest⟩ := List.forall_mem_cons.mp hmem
      cases houtcome : branch.outcome with
      | none =>
        rw [List.filterMap_cons_none houtcome]
        exact (ih hrest).cons _
      | some outcome =>
        obtain ⟨node, -, hbranch, -⟩ := derive_vouched h.derived branch hfirst
        have hnode := outcome?_node (hbranch.outcome_eq.symm.trans houtcome)
        rw [List.filterMap_cons_some houtcome, List.map_cons, List.map_cons, hnode]
        exact (ih hrest).cons_cons _
  rw [h.outcomes_eq]
  refine (hsublist ruleSet.branches fun _ hb => hb).nodup ?_
  rw [derive_positions h.grown h.derived]
  exact List.nodup_range

theorem nodup_constants : (unit.declaringLines.filterMap declaredConstant?).Nodup := by
  have hnames := h.nodup_outcomes.map constantName_injective
  rw [List.map_map] at hnames
  rw [filterMap_declaredConstant?]
  exact hnames

theorem nodup_methods : (unit.declaringLines.filterMap declaredMethod?).Nodup := by
  have hnames := (List.nodup_range (n := tree.size)).map methodName_injective
  rw [← h.methods_nodes, List.map_map] at hnames
  rw [filterMap_declaredMethod?, List.nodup_cons]
  refine ⟨fun hmem => ?_, hnames⟩
  obtain ⟨method, -, hname⟩ := List.mem_map.mp hmem
  exact methodName_ne_evaluate method.node hname

/-- No child is dropped when the branches of the children are looked up. -/
theorem filterMap_branch? {children : List Nat} (hinside : ∀ c ∈ children, c < tree.size) :
    (children.filterMap ruleSet.branch?).map (·.node) = children := by
  induction children with
  | nil => rfl
  | cons child rest ih =>
    obtain ⟨hchild, hrest⟩ := List.forall_mem_cons.mp hinside
    obtain ⟨node, hnode⟩ := exists_node hchild
    obtain ⟨branch, hbranch, hisBranch, -⟩ := derive_branch? h.grown h.derived hnode
    rw [List.filterMap_cons_some hbranch, List.map_cons, hisBranch.index_eq, ih hrest]

theorem declares_descend {node : Nat} (hinside : node < tree.size) :
    unit.Declares (.descend node) := by
  rw [ScoringUnit.Declares, h.methods_nodes, List.mem_range]
  exact hinside

theorem declares_reply {branch : Branch} (hmem : branch ∈ ruleSet.branches) :
    unit.Declares (.reply branch.reply) := by
  rw [Branch.reply]
  cases houtcome : branch.outcome with
  | none => trivial
  | some outcome =>
    rw [Option.map_some, ScoringUnit.Declares, h.outcomes_eq]
    exact List.mem_map_of_mem (List.mem_filterMap.mpr ⟨branch, hmem, houtcome⟩)

theorem declares_onUnknown {branch : Branch} (hmem : branch ∈ ruleSet.branches)
    {strategy : MissingValueStrategy} {reaction : Reaction}
    (hreaction : branch.onUnknown strategy = some reaction) : unit.Declares reaction := by
  obtain ⟨node, hnode, hbranch, -⟩ := derive_vouched h.derived branch hmem
  have hdefault : branch.defaultChild.map .descend = some reaction → unit.Declares reaction := by
    intro hdescend
    obtain ⟨child, hchild, rfl⟩ := Option.map_eq_some_iff.mp hdescend
    have hchildren := (hbranch.defaultChild.2 child hchild).1
    rw [← childrenAt_of_node hnode] at hchildren
    exact h.declares_descend (h.grown.proper.inside _ child hchildren)
  cases strategy with
  | none => exact hdefault hreaction
  | defaultChild => exact hdefault hreaction
  | nullPrediction =>
    cases hreaction
    trivial
  | lastPrediction =>
    cases hreaction
    exact h.declares_reply hmem

theorem declares_fallback {branch : Branch} (hmem : branch ∈ ruleSet.branches)
    (strategy : NoTrueChildStrategy) : unit.Declares (.reply (branch.fallback strategy)) := by
  cases strategy with
  | returnNullPrediction => trivial
  | returnLastPrediction => exact h.declares_reply hmem

/-- Whatever a method may react with is declared. -/
theorem declares_method {branch : Branch} (hmem : branch ∈ ruleSet.branches) :
    ∀ reaction ∈ (ruleSet.method branch).body.reactions, unit.Declares reaction := by
  intro reaction hreaction
  simp only [RuleSet.method] at hreaction
  split at hreaction
  · rw [List.mem_singleton.mp hreaction]
    exact h.declares_reply hmem
  · rcases List.mem_append.mp hreaction with hreaction | hreaction
    · obtain ⟨step, hstep, hreaction⟩ := List.mem_flatMap.mp hreaction
      obtain ⟨child, hchild, rfl⟩ := List.mem_map.mp hstep
      rcases List.mem_cons.mp hreaction with rfl | hunknown
      · obtain ⟨index, -, hindex⟩ := List.mem_filterMap.mp hchild
        obtain ⟨node, hnode, -, -⟩ := derive_vouched h.derived child (List.mem_of_getElem? hindex)
        exact h.declares_descend (node?_lt hnode)
      · exact h.declares_onUnknown hmem (Option.mem_toList.mp hunknown)
    · rw [List.mem_singleton.mp hreaction]
      exact h.declares_fallback hmem _

/-- The method of a leaf answers with the outcome there, and a method tests the children of its node
in their order. -/
theorem method_of_node {index : Nat} {node : Node} (hnode : tree.node? index = some node) :
    ∃ method ∈ unit.methods, method.node = index ∧ method.body.tested = node.children ∧
      (node.isLeaf = true → method.body = .leaf (some index)) := by
  obtain ⟨branch, hbranch, hisBranch, hscore⟩ := derive_branch? h.grown h.derived hnode
  have hisLeaf : branch.isLeaf = node.isLeaf := by
    rw [Branch.isLeaf, Node.isLeaf, hisBranch.children_eq]
  have hleafBody : node.isLeaf = true → (ruleSet.method branch).body = .leaf (some index) := by
    intro hleaf
    rw [RuleSet.method, if_pos (hisLeaf.trans hleaf), hisBranch.reply_eq, if_pos (hscore hleaf)]
  refine ⟨ruleSet.method branch, ?_, ?_, ?_, hleafBody⟩
  · rw [h.methods_eq]
    exact List.mem_map_of_mem (List.mem_of_getElem? hbranch)
  · rw [RuleSet.method_node, hisBranch.index_eq]
  · cases hleaf : node.isLeaf with
    | true =>
      rw [hleafBody hleaf, MethodBody.tested]
      exact (List.isEmpty_iff.mp hleaf).symm
    | false =>
      have hinside : ∀ c ∈ branch.children, c < tree.size := by
        intro c hc
        rw [hisBranch.children_eq, ← childrenAt_of_node hnode] at hc
        exact h.grown.proper.inside index c hc
      rw [RuleSet.method, if_neg (by simp [hisLeaf, hleaf]), MethodBody.tested, List.map_map,
        ← hisBranch.children_eq]
      exact h.filterMap_branch? hinside

/-- The lines of the method of a node. -/
theorem lines_of_node {index : Nat} {node : Node} (hnode : tree.node? index = some node) :
    ∃ body, (methodName index, body) ∈ methodBodies unit.scoringLines ∧
      entries body = node.children.map (fun child => some (call child)) ∧
      (node.isLeaf = true → body.filterMap returned? = [constantName index]) := by
  obtain ⟨method, hmethod, rfl, htested, hleafBody⟩ := h.method_of_node hnode
  refine ⟨linesAll 2 (bodyCode method.body), ?_, ?_, ?_⟩
  · rw [methodBodies_scoringLines]
    exact List.mem_cons_of_mem _ (List.mem_map.mpr ⟨method, hmethod, rfl⟩)
  · rw [entries_bodyCode, htested]
  · intro hleaf
    rw [returned_bodyCode, hleafBody hleaf]
    rfl

/-- Whatever the lines of the methods return is declared. -/
theorem returned_declared (hroot : unit.Declares (.descend unit.root)) {e : String}
    (he : e ∈ unit.scoringLines.filterMap returned?) :
    e = "null" ∨ e ∈ unit.declaringLines.filterMap declaredConstant? ∨
      ∃ name ∈ unit.declaringLines.filterMap declaredMethod?, e = name ++ "(requestData)" := by
  rcases mem_returned_scoringLines he with rfl | rfl | ⟨method, hmethod, reaction, hreaction, rfl⟩
  · exact Or.inl rfl
  · exact hroot.expression
  · rw [h.methods_eq] at hmethod
    obtain ⟨branch, hmem, rfl⟩ := List.mem_map.mp hmethod
    exact (h.declares_method hmem reaction hreaction).expression

end Emits

/-- A rule set that was derived has a unit, alone in its sources. Read off its lines, outside of the
heading and of the constructor, which is the text of the template:

* no constant and no method is declared twice;
* what methods return is null, a constant that is declared, or a call of a method that is declared;
* the method that is called from outside goes on to that of the root;
* every node has a method. Its tests lead into the children, all of them and in their order, and
  that of a leaf returns the constant of the leaf. -/
theorem unit_closed {tree : Tree} {table : FieldTable} {constraints : List Predicate}
    {ruleSet : RuleSet} (hgrown : tree.Grown Bare)
    (h : tree.derive table constraints = .ok ruleSet) (frame : Source.Skeleton)
    (package : String) :
    ∃ unit, ruleSet.unit? frame package = some unit ∧
      (Sources.empty.insert unit.qualifiedName unit.text).units =
        [(if package.isEmpty then frame.className else package ++ "." ++ frame.className,
          unit.text)] ∧
      ∃ constants scoring : List String,
        unit.text = String.join ((unit.headingLines ++ constants ++ unit.constructorLines ++
          scoring ++ supportLines).map (· ++ "\n")) ∧
        (∀ line ∈ constants ++ scoring, OneLine line) ∧
        ((constants ++ scoring ++ supportLines).filterMap declaredConstant?).Nodup ∧
        ((constants ++ scoring ++ supportLines).filterMap declaredMethod?).Nodup ∧
        (∀ e ∈ scoring.filterMap returned?, e = "null" ∨
          e ∈ (constants ++ scoring ++ supportLines).filterMap declaredConstant? ∨
          ∃ name ∈ (constants ++ scoring ++ supportLines).filterMap declaredMethod?,
            e = name ++ "(requestData)") ∧
        (∃ body, ("evaluate", body) ∈ methodBodies scoring ∧
          (body.filterMap returned?).getLast? = some "node0(requestData)") ∧
        ∀ index node, tree.node? index = some node →
          ∃ body, ("node" ++ toString index, body) ∈ methodBodies scoring ∧
            entries body =
              node.children.map (fun child => some ("node" ++ toString child ++ "(requestData)")) ∧
            (node.isLeaf = true → body.filterMap returned? = ["OUTCOME_" ++ toString index]) := by
  obtain ⟨root, node, unit, hunit, hfollows, hnode, hroot, hpackage, hframe, houtcomes⟩ :=
    derive_unit? hgrown h frame package
  have hemits : tree.Emits table constraints ruleSet unit :=
    ⟨hgrown, h, hfollows.methods_eq, houtcomes⟩
  have hcalled : unit.Declares (.descend unit.root) := by
    rw [hfollows.root_eq, hroot.index_eq]
    exact hemits.declares_descend (node?_lt hnode)
  refine ⟨unit, hunit, ?_, unit.constantLines, unit.scoringLines, unit.text_eq_lines, ?_,
    hemits.nodup_constants, hemits.nodup_methods, fun _ => hemits.returned_declared hcalled, ?_,
    fun _ _ => hemits.lines_of_node⟩
  · rw [ScoringUnit.qualifiedName, hpackage, hframe]
    rfl
  · exact List.forall_mem_append.mpr ⟨unit.oneLine_constantLines, unit.oneLine_scoringLines⟩
  · refine ⟨linesAll 2 unit.evaluateBody, ?_, ?_⟩
    · rw [methodBodies_scoringLines]
      exact List.mem_cons_self
    · have hfirst : call 0 = "node0(requestData)" := by decide +kernel
      rw [returned_evaluateBody, List.getLast?_concat, hfollows.root_eq, hroot.index_eq, hfirst]

theorem unit_closed_parting :
    Parting.tree.Grown Bare ∧ Parting.tree.derive Parting.table [] = .ok Parting.ruleSet ∧
      ∃ unit, Parting.ruleSet.unit? .standard "scoring" = some unit ∧
        (Sources.empty.insert unit.qualifiedName unit.text).units =
          [("scoring.TreeModelTemplate", unit.text)] ∧
        ∃ constants scoring : List String,
          unit.text = String.join ((unit.headingLines ++ constants ++ unit.constructorLines ++
            scoring ++ supportLines).map (· ++ "\n")) ∧
          ∃ body, ("node0", body) ∈ methodBodies scoring ∧
            entries body = [some "node1(requestData)", some "node2(requestData)"] := by
  have hgrown := Document.toTree_grown Parting.toTree_eq
  obtain ⟨unit, hunit, hsources, constants, scoring, htext, -, -, -, -, -, hmethods⟩ :=
    unit_closed hgrown Parting.derive_eq .standard "scoring"
  obtain ⟨body, hbody, hentries, -⟩ := hmethods 0 Parting.root rfl
  have hname : "scoring" ++ "." ++ Source.Skeleton.standard.className =
      "scoring.TreeModelTemplate" := by
    decide +kernel
  have hcalls : Parting.root.children.map
      (fun child => some ("node" ++ toString child ++ "(requestData)")) =
      [some "node1(requestData)", some "node2(requestData)"] := by
    decide +kernel
  have hzero : "node" ++ toString 0 = "node0" := by decide +kernel
  rw [if_neg (by decide +kernel), hname] at hsources
  rw [hzero] at hbody
  rw [hcalls] at hentries
  exact ⟨hgrown, Parting.derive_eq, unit, hunit, hsources, constants, scoring, htext, body, hbody,
    hentries⟩

end Tree
end ScoringTree
