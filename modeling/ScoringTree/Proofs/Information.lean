import ScoringTree.Proofs.Branches

/-!
# ScoringTree.Proofs.Information

Predictions on records that know more.

A record knows more than another if it has all its values, and maybe others where the first has
none. A predicate that does not ask whether a value is there can only come to know more with it,
and so a run that never met an unknown predicate takes the same way again.

* `Truth.Refines`        — one truth is unknown or equal to the other.
* `Predicate.steady`     — no test of presence and no surrogate, at any depth.
* `Record.Extends`       — a record that knows more.
* `Predicate.evaluate_refines`
                         — the truth of a steady predicate is refined.
* `Document.prediction_stable`
                         — predictions under the null strategy are kept.
-/

namespace ScoringTree

/-! ## Truths -/

namespace Truth

/-- What is known stays as it is. -/
def Refines (t t' : Truth) : Prop := t = .unknown ∨ t = t'

theorem Refines.refl (t : Truth) : t.Refines t := Or.inr rfl

theorem Refines.known {t t' : Truth} (h : t.Refines t') (hknown : t ≠ .unknown) : t' = t := by
  rcases h with hunknown | hsame
  · exact absurd hunknown hknown
  · exact hsame.symm

/-- A list of truths refined one by one. -/
abbrev RefinesAll : List Truth → List Truth → Prop := List.Forall₂ Refines

theorem all_refines {ts ts' : List Truth} (h : RefinesAll ts ts') : (all ts).Refines (all ts') := by
  induction h with
  | nil => exact .refl _
  | @cons t t' rest rest' hhead _ ih =>
    rcases hhead with rfl | rfl
    · -- an unknown operand leaves the combination unknown unless another makes it false
      simp only [all]
      by_cases hfalse : all rest = .false
      · have hrest : all rest' = .false := by
          rcases ih with hu | heq
          · rw [hu] at hfalse
            cases hfalse
          · rw [← heq, hfalse]
        rw [if_pos hfalse]
        cases t' <;> simp [all, hrest, Refines]
      · rw [if_neg hfalse]
        exact Or.inl rfl
    · cases t with
      | true => exact ih
      | false => exact .refl _
      | unknown =>
        simp only [all]
        rcases ih with hu | heq
        · simp [hu, Refines]
        · rw [heq]
          exact .refl _

def negate : Truth → Truth
  | .true => .false
  | .false => .true
  | .unknown => .unknown

theorem Refines.negate {t t' : Truth} (h : t.Refines t') : t.negate.Refines t'.negate := by
  rcases h with rfl | rfl
  · exact Or.inl rfl
  · exact .refl _

theorem any_eq_negate (ts : List Truth) : any ts = (all (ts.map Truth.negate)).negate := by
  induction ts with
  | nil => rfl
  | cons t rest ih =>
    cases t with
    | true => rfl
    | false => exact ih
    | unknown =>
      simp only [any, ih, List.map_cons, Truth.negate, all]
      cases all (rest.map Truth.negate) <;> rfl

theorem any_refines {ts ts' : List Truth} (h : RefinesAll ts ts') : (any ts).Refines (any ts') := by
  rw [any_eq_negate, any_eq_negate]
  refine (all_refines ?_).negate
  rw [RefinesAll, List.forall₂_map_left_iff, List.forall₂_map_right_iff]
  exact h.imp fun _ _ => Refines.negate

theorem parity_refines {ts ts' : List Truth} (h : RefinesAll ts ts') :
    (parity ts).Refines (parity ts') := by
  induction h with
  | nil => exact .refl _
  | @cons t t' rest rest' hhead _ ih =>
    rcases hhead with rfl | rfl
    · exact Or.inl rfl
    · cases t with
      | true =>
        simp only [parity]
        rcases ih with hu | heq
        · rw [hu]
          exact Or.inl rfl
        · rw [heq]
          exact .refl _
      | false => exact ih
      | unknown => exact Or.inl rfl

end Truth

/-- All combinations but the first known operand are refined with their operands. -/
theorem Connective.combine_refines {operator : Connective} (h : operator ≠ .surrogate)
    {ts ts' : List Truth} (hall : Truth.RefinesAll ts ts') :
    (operator.combine ts).Refines (operator.combine ts') := by
  cases operator with
  | and => exact Truth.all_refines hall
  | or => exact Truth.any_refines hall
  | xor => exact Truth.parity_refines hall
  | surrogate => exact absurd rfl h

/-! ## Predicates -/

/-- The second record has every value of the first. -/
def Record.Extends (record record' : Record) : Prop :=
  ∀ field value, record.value? field = some value → record'.value? field = some value

namespace Predicate

mutual

/-- Does not ask whether a value is there, at any depth. -/
def steady : Predicate → Bool
  | .simple _ operator _ => !operator.testsPresence
  | .compound operator operands => operator != .surrogate && steadyAll operands
  | _ => true

def steadyAll : List Predicate → Bool
  | [] => true
  | p :: ps => steady p && steadyAll ps

end

section Refines

variable {types : FieldTypes} {record record' : Record}

theorem compareMissing_of_steady {operator : Comparison} (h : operator.testsPresence = false) :
    compareMissing operator = .unknown := by
  cases operator <;> first | rfl | cases h

mutual

/-- More values only make more known of a steady predicate. -/
theorem evaluate_refines (hmore : record.Extends record') : ∀ (p : Predicate) (t t' : Truth),
    p.steady = true → p.evaluate types record = .ok t → p.evaluate types record' = .ok t' →
    t.Refines t'
  | .always, t, t', _, h, h' => by
    cases h
    cases h'
    exact .refl _
  | .never, t, t', _, h, h' => by
    cases h
    cases h'
    exact .refl _
  | .simple field operator literal, t, t', hsteady, h, h' => by
    simp only [evaluate] at h h'
    cases hv : record.value? field with
    | none =>
      rw [hv] at h
      split at h
      · cases h
      · cases h
        exact Or.inl (compareMissing_of_steady (by simpa [steady] using hsteady))
    | some value =>
      rw [hv] at h
      rw [hmore field value hv] at h'
      exact Or.inr (Except.ok.inj (h.symm.trans h'))
  | .set field operator literals, t, t', _, h, h' => by
    simp only [evaluate] at h h'
    cases hv : record.value? field with
    | none =>
      rw [hv] at h
      split at h
      · cases h
      · cases h
        exact Or.inl rfl
    | some value =>
      rw [hv] at h
      rw [hmore field value hv] at h'
      exact Or.inr (Except.ok.inj (h.symm.trans h'))
  | .compound operator operands, t, t', hsteady, h, h' => by
    simp only [steady, Bool.and_eq_true, bne_iff_ne, ne_eq] at hsteady
    simp only [evaluate] at h h'
    split at h
    · rename_i truths htruths
      split at h'
      · rename_i truths' htruths'
        cases h
        cases h'
        exact Connective.combine_refines hsteady.1
          (evaluateAll_refines hmore operands truths truths' hsteady.2 htruths htruths')
      · cases h'
    · cases h

theorem evaluateAll_refines (hmore : record.Extends record') :
    ∀ (ps : List Predicate) (ts ts' : List Truth), steadyAll ps = true →
      evaluateAll types record ps = .ok ts → evaluateAll types record' ps = .ok ts' →
      Truth.RefinesAll ts ts'
  | [], ts, ts', _, h, h' => by
    cases h
    cases h'
    exact .nil
  | p :: ps, ts, ts', hsteady, h, h' => by
    simp only [steadyAll, Bool.and_eq_true] at hsteady
    simp only [evaluateAll] at h h'
    split at h
    · cases h
    · rename_i t ht
      split at h
      · rename_i rest hrest
        cases h
        split at h'
        · cases h'
        · rename_i t' ht'
          split at h'
          · rename_i rest' hrest'
            cases h'
            exact .cons (evaluate_refines hmore p t t' hsteady.1 ht ht')
              (evaluateAll_refines hmore ps rest rest' hsteady.2 hrest hrest')
          · cases h'
      · cases h

end

end Refines

end Predicate

/-! ## Runs -/

namespace Tree

/-- No predicate of the tree asks whether a value is there. -/
def Steady (tree : Tree) : Prop :=
  ∀ node ∈ tree.nodes, ∀ p, node.predicate = some p → p.steady = true

namespace Compiled

variable {tree : Tree} {table : FieldTable} {constraints : List Predicate} {ruleSet : RuleSet}
  {types : FieldTypes} (h : tree.Compiled table constraints ruleSet types)
  (hsteady : tree.Steady) {record record' : Record} (hmore : record.Extends record')

include h hsteady hmore

/-- A node can be tried on both records, and what is known on the first is known on the second. -/
theorem enter_refines {index : Nat} {node : Node} (hnode : tree.node? index = some node) :
    ∃ t t', node.enter types record = .ok t ∧ node.enter types record' = .ok t' ∧
      t.Refines t' := by
  obtain ⟨branch, -, hbranch, -⟩ := h.branch? hnode
  obtain ⟨t, ht, -⟩ := hbranch.enter h.typed record
  obtain ⟨t', ht', -⟩ := hbranch.enter h.typed record'
  refine ⟨t, t', ht, ht', ?_⟩
  cases hp : node.predicate with
  | none =>
    simp only [Node.enter, hp] at ht ht'
    cases ht
    cases ht'
    exact .refl _
  | some p =>
    simp only [Node.enter, hp] at ht ht'
    split at ht
    · rename_i truth htruth
      split at ht'
      · rename_i truth' htruth'
        cases ht
        cases ht'
        exact Predicate.evaluate_refines hmore p t t'
          (hsteady node (List.mem_of_getElem? hnode) p hp) htruth htruth'
      · cases ht'
    · cases ht

/-- A step that was not stopped by an unknown predicate is taken again. -/
theorem selectChild_stable (hmissing : tree.onMissing = .nullPrediction) {index : Nat} {node : Node}
    (hnode : tree.node? index = some node) {step : Step} (hstep : step ≠ .nullPrediction) :
    ∀ {children : List Nat}, (∀ c ∈ children, c ∈ node.children) →
      tree.selectChild types record node children = .ok step →
      tree.selectChild types record' node children = .ok step := by
  intro children
  induction children with
  | nil => intro _ hselect; exact hselect
  | cons c rest ih =>
    intro hsub hselect
    obtain ⟨-, target, htarget⟩ := h.child hnode (hsub c List.mem_cons_self)
    obtain ⟨t, t', ht, ht', hrefines⟩ := h.enter_refines hsteady hmore htarget
    have hrest := ih fun d hd => hsub d (List.mem_cons_of_mem _ hd)
    simp only [selectChild, htarget, ht, ht'] at hselect ⊢
    cases t with
    | true =>
      rw [hrefines.known (by simp)]
      exact hselect
    | false =>
      rw [hrefines.known (by simp)]
      exact hrest hselect
    | unknown =>
      simp only [onUnknown, hmissing] at hselect
      exact absurd (Except.ok.inj hselect).symm hstep

/-- From every node on, a prediction is made again. -/
theorem evaluateFrom_stable (hmissing : tree.onMissing = .nullPrediction) {p : Prediction} :
    ∀ fuel (index : Nat) (node : Node), tree.node? index = some node →
      tree.evaluateFrom types record fuel node = .ok (some p) →
      tree.evaluateFrom types record' fuel node = .ok (some p) := by
  intro fuel
  induction fuel with
  | zero => intro index node _ heval; cases heval
  | succ fuel ih =>
    intro index node hnode heval
    simp only [evaluateFrom] at heval ⊢
    split at heval
    · rename_i hleaf
      rw [if_pos hleaf]
      exact heval
    · rename_i hinner
      rw [if_neg hinner]
      have hagain : ∀ step, step ≠ .nullPrediction →
          tree.selectChild types record node node.children = .ok step →
          tree.selectChild types record' node node.children = .ok step := fun step hstep =>
        h.selectChild_stable hsteady hmore hmissing hnode hstep fun _ hc => hc
      split at heval
      · cases heval
      · rename_i child hselect
        rw [hagain _ (by simp) hselect]
        split at heval
        · rename_i next hnext
          simp only [hnext]
          exact ih child next hnext heval
        · cases heval
      · cases heval
      · rename_i hselect
        rw [hagain _ (by simp) hselect]
        exact heval
      · rename_i hselect
        rw [hagain _ (by simp) hselect]
        exact heval

end Compiled

end Tree

/-- Under the null strategy, a model whose predicates do not ask whether a value is there makes
the same prediction for every record that knows more. -/
theorem Document.prediction_stable {document : Document} {table : FieldTable} {tree : Tree}
    {constraints : List Predicate} {ruleSet : RuleSet}
    (hresolve : document.dictionaries.resolve = .ok table) (htree : document.toTree = .ok tree)
    (hderive : tree.derive table constraints = .ok ruleSet)
    (hmissing : tree.onMissing = .nullPrediction)
    (hsteady : ∀ node ∈ tree.nodes, ∀ p, node.predicate = some p → p.steady = true)
    {record record' : Record}
    (hmore : ∀ field value, record.value? field = some value →
      record'.value? field = some value) :
    ∃ types, document.fieldTypes = .ok types ∧
      ∀ p, tree.evaluate types (.object record) = .ok (some p) →
        tree.evaluate types (.object record') = .ok (some p) := by
  obtain ⟨types, htypes, hcompiled⟩ := Document.compiled hresolve htree hderive
  refine ⟨types, htypes, ?_⟩
  intro p heval
  obtain ⟨root, hroot, henter, hfrom⟩ := Tree.evaluate_eq_some_iff.mp heval
  obtain ⟨t, t', ht, ht', hrefines⟩ := hcompiled.enter_refines hsteady hmore hroot
  rw [henter] at ht
  cases ht
  rw [hrefines.known (by simp)] at ht'
  exact Tree.evaluate_eq_some_iff.mpr ⟨root, hroot, ht',
    hcompiled.evaluateFrom_stable hsteady hmore hmissing tree.size 0 root hroot hfrom⟩

namespace Hearsay

/-! A model whose two leaves test the fields `t` and `u` together. -/

def settings : Settings := { Settings.named "hearsay" with onMissing := .nullPrediction }

def first : Predicate :=
  .compound .and [.simple "t" .equal (some "z"), .simple "u" .equal (some "y")]

def second : Predicate :=
  .compound .or [.simple "t" .equal (some "x"), .simple "u" .equal (some "y")]

def document : Document :=
  Parting.documentOf [⟨"t", "text", []⟩, ⟨"u", "text", []⟩] settings first second

def tree : Tree := Parting.treeOf settings first second

def table : FieldTable :=
  ⟨[("t", ⟨.text, .string, .data, []⟩), ("u", ⟨.text, .string, .data, []⟩)]⟩

def types : FieldTypes := ⟨[("u", .text), ("t", .text)]⟩

theorem dictionaries_eq :
    document.dictionaries = ⟨[⟨"t", "text", []⟩, ⟨"u", "text", []⟩], [], []⟩ :=
  rfl

theorem resolve_eq : document.dictionaries.resolve = .ok table := by
  have hread := FieldType.read_text
  have hmerge : document.dictionaries.merge = .ok table := by
    simp [dictionaries_eq, Dictionaries.merge, bind, Except.bind, Declaration.ofData,
      FieldTable.overlay, FieldTable.add, FieldTable.empty, FieldTable.get?, FieldTable.put,
      FieldTable.putEntry, hread, lookup_cons_ite, Option.filter, table, FieldType.sourceType]
  have hdefined : table.undefined? table.entries = none := rfl
  have hcycles : table.checkCycles = .ok ⟨[.done, .done], []⟩ := by
    simp [FieldTable.checkCycles, FieldTable.size, FieldTable.visitAll, FieldTable.visit,
      show table.entries.length = 2 from rfl, show List.range 2 = [0, 1] from rfl,
      show table.dependenciesAt 0 = [] from rfl, show table.dependenciesAt 1 = [] from rfl,
      show table.entries.map (fun _ => FieldTable.Mark.unvisited) =
        [.unvisited, .unvisited] from rfl]
  simp only [Dictionaries.resolve, hmerge, hdefined, hcycles]

theorem fieldTypes_eq : document.fieldTypes = .ok types := by
  have hdeclared : document.dictionaries.fieldTypes = .ok types := by
    rw [dictionaries_eq, Dictionaries.fieldTypes,
      show Dictionaries.declarations _ = [("t", "text"), ("u", "text")] from rfl,
      FieldTypes.declare_cons, FieldType.read_text]
    dsimp only
    rw [FieldTypes.declare_cons, FieldType.read_text]
    rfl
  rw [Document.fieldTypes, Dictionaries.typesFor, hdeclared]

theorem toTree_eq : document.toTree = .ok tree := rfl

theorem exists_ruleSet : ∃ ruleSet, tree.derive table [] = .ok ruleSet :=
  ⟨_, Parting.derive_treeOf rfl rfl rfl⟩

theorem steady : ∀ node ∈ tree.nodes, ∀ p, node.predicate = some p → p.steady = true := by
  intro node hnode p hp
  simp only [tree, Parting.treeOf, Parting.root, List.mem_cons, List.not_mem_nil, or_false] at hnode
  rcases hnode with rfl | rfl | rfl <;> cases hp <;> rfl

end Hearsay

/-- The second record has a value for `u`, which both leaves test. Without it, one of the operands
is unknown in each of the two tests, and the other one decides. -/
theorem Document.prediction_stable_hearsay :
    Hearsay.tree.onMissing = .nullPrediction ∧
      Hearsay.document.fieldTypes = .ok Hearsay.types ∧
      Predicate.evaluate Hearsay.types [("t", .string "x")] (.simple "u" .equal (some "y")) =
        .ok .unknown ∧
      Hearsay.tree.evaluate Hearsay.types (.object [("t", .string "x")]) =
        .ok (some ⟨"2", some "b", []⟩) ∧
      Hearsay.tree.evaluate Hearsay.types (.object [("t", .string "x"), ("u", .string "z")]) =
        .ok (some ⟨"2", some "b", []⟩) := by
  have heval : Hearsay.tree.evaluate Hearsay.types (.object [("t", .string "x")]) =
      .ok (some ⟨"2", some "b", []⟩) := by decide +kernel
  have hmore : ∀ field value, Record.value? [("t", .string "x")] field = some value →
      Record.value? [("t", .string "x"), ("u", .string "z")] field = some value := by
    intro field value hvalue
    simp only [Record.value?, lookup_cons_ite] at hvalue ⊢
    by_cases ht : field = "t"
    · simpa [ht] using hvalue
    · simp [ht] at hvalue
  obtain ⟨ruleSet, hderive⟩ := Hearsay.exists_ruleSet
  obtain ⟨types, htypes, hstable⟩ :=
    Document.prediction_stable Hearsay.resolve_eq Hearsay.toTree_eq hderive rfl Hearsay.steady hmore
  have hsame : types = Hearsay.types := Except.ok.inj (htypes.symm.trans Hearsay.fieldTypes_eq)
  rw [hsame] at hstable
  exact ⟨rfl, Hearsay.fieldTypes_eq, rfl, heval, hstable _ heval⟩

end ScoringTree
