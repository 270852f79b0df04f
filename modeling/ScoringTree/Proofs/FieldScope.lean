import ScoringTree.Proofs.Arena
import ScoringTree.Proofs.FieldTypes
import ScoringTree.Scoring.Evaluation

/-!
# ScoringTree.Proofs.FieldScope

Which fields a prediction can depend on.

* `Tree.testedFields`    — the fields that the predicates of a tree test.
* `Tree.Alike`           — two records with their tables of types that do not differ on these.
* `Tree.evaluateFrom_alike`
                         — a run takes the same way on both, and ends alike.
* `Tree.evaluateFrom_ends`
                         — a run in a tree that was grown from bare nodes comes to an end.
* `Tree.evaluate_scope`  — nothing outside the tested fields reaches a prediction or an error.
-/

namespace ScoringTree

/-! ## Values and types of a field -/

namespace Record

theorem value?_eq_some_iff {record : Record} {field : String} {value : Json} :
    record.value? field = some value ↔ value ≠ .null ∧ record.lookup field = some value := by
  rw [value?]
  split
  · rename_i hnull
    constructor
    · intro h
      cases h
    · rintro ⟨hvalue, hlookup⟩
      rw [hnull] at hlookup
      exact absurd (Option.some.inj hlookup).symm hvalue
  · rename_i hnull
    constructor
    · intro h
      refine ⟨?_, h⟩
      rintro rfl
      exact hnull h
    · exact And.right

/-- Records that hold the same values other than `null` are read alike. -/
theorem value?_congr {record record' : Record} {field : String}
    (h : ∀ value, value ≠ .null →
      (record.lookup field = some value ↔ record'.lookup field = some value)) :
    record.value? field = record'.value? field := by
  refine Option.ext fun value => ?_
  rw [value?_eq_some_iff, value?_eq_some_iff]
  exact and_congr_right (h value)

end Record

namespace FieldTypes

/-- The table without a field. -/
def remove (types : FieldTypes) (name : String) : FieldTypes :=
  ⟨types.entries.filter fun entry => entry.1 != name⟩

theorem get?_remove_of_ne (types : FieldTypes) {name field : String} (h : field ≠ name) :
    (types.remove name).get? field = types.get? field := by
  simp only [get?, remove]
  induction types.entries with
  | nil => rfl
  | cons entry rest ih =>
    obtain ⟨key, type⟩ := entry
    by_cases hkey : key = name
    · rw [List.filter_cons_of_neg (by simp [hkey]), ih, lookup_cons_ite,
        if_neg fun heq => h (heq.trans hkey)]
    · rw [List.filter_cons_of_pos (by simp [hkey]), lookup_cons_ite, lookup_cons_ite, ih]

end FieldTypes

/-! ## Predicates -/

namespace Predicate

mutual

/-- Every mention of a field, from left to right. -/
def mentions : Predicate → List String
  | .simple field _ _ => [field]
  | .set field _ _ => [field]
  | .compound _ operands => mentionsAll operands
  | .always => []
  | .never => []

def mentionsAll : List Predicate → List String
  | [] => []
  | p :: ps => mentions p ++ mentionsAll ps

end

theorem mem_noteName {noted : List String} {name field : String} :
    field ∈ noteName noted name ↔ field ∈ noted ∨ field = name := by
  rw [noteName]
  split
  · rename_i hnoted
    constructor
    · exact Or.inl
    · rintro (hfield | rfl)
      · exact hfield
      · exact List.contains_iff_mem.mp hnoted
  · rw [List.mem_append, List.mem_singleton]

mutual

theorem mem_noteFields {field : String} : ∀ (p : Predicate) {noted : List String},
    field ∈ noteFields noted p ↔ field ∈ noted ∨ field ∈ p.mentions
  | .always, _ => by simp [noteFields, mentions]
  | .never, _ => by simp [noteFields, mentions]
  | .simple _ _ _, _ => by rw [noteFields, mem_noteName, mentions, List.mem_singleton]
  | .set _ _ _, _ => by rw [noteFields, mem_noteName, mentions, List.mem_singleton]
  | .compound _ operands, _ => by rw [noteFields, mentions, mem_noteFieldsAll operands]

theorem mem_noteFieldsAll {field : String} : ∀ (ps : List Predicate) {noted : List String},
    field ∈ noteFieldsAll noted ps ↔ field ∈ noted ∨ field ∈ mentionsAll ps
  | [], _ => by simp [noteFieldsAll, mentionsAll]
  | p :: ps, _ => by
    rw [noteFieldsAll, mem_noteFieldsAll ps, mem_noteFields p, mentionsAll, List.mem_append,
      or_assoc]

end

/-- Every field that is mentioned is noted, and no other. -/
theorem mem_fields {p : Predicate} {field : String} : field ∈ p.fields ↔ field ∈ p.mentions := by
  rw [fields, mem_noteFields]
  simp

section Scope

variable {types types' : FieldTypes} {record record' : Record}

mutual

theorem evaluate_congr : ∀ p : Predicate,
    (∀ field ∈ p.mentions,
      types.get? field = types'.get? field ∧ record.value? field = record'.value? field) →
    p.evaluate types record = p.evaluate types' record'
  | .always, _ => rfl
  | .never, _ => rfl
  | .simple field operator literal, h => by
    obtain ⟨htype, hvalue⟩ := h field (by simp [mentions])
    simp only [evaluate, htype, hvalue]
  | .set field operator literals, h => by
    obtain ⟨htype, hvalue⟩ := h field (by simp [mentions])
    simp only [evaluate, htype, hvalue]
  | .compound operator operands, h => by
    simp only [evaluate, evaluateAll_congr operands (by simpa [mentions] using h)]

theorem evaluateAll_congr : ∀ ps : List Predicate,
    (∀ field ∈ mentionsAll ps,
      types.get? field = types'.get? field ∧ record.value? field = record'.value? field) →
    evaluateAll types record ps = evaluateAll types' record' ps
  | [], _ => rfl
  | p :: ps, h => by
    simp only [mentionsAll, List.forall_mem_append] at h
    simp only [evaluateAll, evaluate_congr p h.1, evaluateAll_congr ps h.2]

end

theorem compareValue_ends {type : FieldType} {field : String} {operator : Comparison}
    {literal : Option String} {value : Json} :
    compareValue type field operator literal value ≠ .error .endless := by
  unfold compareValue
  split
  · simp
  · split
    · simp
    · split
      · simp
      · split
        · simp
        · split <;> simp

theorem member_ends {field : String} {actual : Scalar} {literals : List String} :
    member field actual literals ≠ .error .endless := by
  induction literals with
  | nil => simp [member]
  | cons literal rest ih =>
    rw [member]
    split
    · simp
    · simp
    · exact ih

mutual

/-- No predicate has a fault that only a run can have. -/
theorem evaluate_ends : ∀ p : Predicate, p.evaluate types record ≠ .error .endless
  | .always => by simp [evaluate]
  | .never => by simp [evaluate]
  | .simple field operator literal => by
    rw [evaluate]
    split
    · simp
    · split
      · simp
      · exact compareValue_ends
  | .set field operator literals => by
    rw [evaluate]
    split
    · simp
    · split
      · simp
      · split
        · simp
        · rename_i fault hmember
          intro h
          cases h
          exact member_ends hmember
  | .compound operator operands => by
    rw [evaluate]
    split
    · simp
    · rename_i fault hoperands
      intro h
      cases h
      exact evaluateAll_ends operands hoperands

theorem evaluateAll_ends : ∀ ps : List Predicate,
    evaluateAll types record ps ≠ .error .endless
  | [] => by simp [evaluateAll]
  | p :: ps => by
    rw [evaluateAll]
    split
    · rename_i fault hp
      intro h
      cases h
      exact evaluate_ends p hp
    · split
      · simp
      · rename_i fault hps
        intro h
        cases h
        exact evaluateAll_ends ps hps

end

end Scope

end Predicate

/-! ## Runs -/

namespace Tree

/-- The fields that the predicates of the nodes test. -/
def testedFields (tree : Tree) : List String :=
  tree.nodes.flatMap fun node => (node.predicate.map Predicate.fields).getD []

/-- Two records with two tables of types, the same on all fields that the tree tests. -/
structure Alike (tree : Tree) (types types' : FieldTypes) (record record' : Record) : Prop where
  types_eq : ∀ field ∈ tree.testedFields, types.get? field = types'.get? field
  value_eq : ∀ field ∈ tree.testedFields, record.value? field = record'.value? field

section Alike

variable {tree : Tree} {types types' : FieldTypes} {record record' : Record}
  (h : tree.Alike types types' record record')

include h

theorem enter_alike {node : Node} (hnode : node ∈ tree.nodes) :
    node.enter types record = node.enter types' record' := by
  rw [Node.enter, Node.enter]
  cases hp : node.predicate with
  | none => rfl
  | some p =>
    have hscope : ∀ field ∈ p.mentions, field ∈ tree.testedFields := by
      intro field hfield
      refine List.mem_flatMap.mpr ⟨node, hnode, ?_⟩
      rw [hp]
      exact Predicate.mem_fields.mpr hfield
    have heval : p.evaluate types record = p.evaluate types' record' :=
      Predicate.evaluate_congr p fun field hfield =>
        ⟨h.types_eq field (hscope field hfield), h.value_eq field (hscope field hfield)⟩
    simp only [heval]

/-- From a node on, the same child is chosen, or the same fault is found. -/
theorem selectChild_alike (node : Node) (children : List Nat) :
    tree.selectChild types record node children =
      tree.selectChild types' record' node children := by
  induction children with
  | nil => rfl
  | cons child rest ih =>
    simp only [selectChild, ih]
    cases hchild : tree.node? child with
    | none => rfl
    | some target => simp only [enter_alike h (List.mem_of_getElem? hchild)]

theorem evaluateFrom_alike (fuel : Nat) (node : Node) :
    tree.evaluateFrom types record fuel node = tree.evaluateFrom types' record' fuel node := by
  induction fuel generalizing node with
  | zero => rfl
  | succ fuel ih => simp only [evaluateFrom, selectChild_alike h, ih]

theorem evaluate_alike :
    tree.evaluate types (.object record) = tree.evaluate types' (.object record') := by
  simp only [evaluate, evaluateRecord]
  cases hnodes : tree.nodes with
  | nil => rfl
  | cons root rest =>
    have hroot : root ∈ tree.nodes := by rw [hnodes]; exact List.mem_cons_self
    simp only [enter_alike h hroot, evaluateFrom_alike h]

end Alike

/-! ## Ends of runs -/

section Ends

variable {tree : Tree} {types : FieldTypes} {record : Record}

/-- A run that went in a circle would end with this error. -/
def endlessAt (id : String) : ScoringError := .evaluation id .endless

theorem enter_ends (node : Node) (id : String) :
    node.enter types record ≠ .error (endlessAt id) := by
  rw [Node.enter]
  split
  · simp
  · rename_i p _
    split
    · simp
    · rename_i fault hfault
      intro heq
      cases heq
      exact Predicate.evaluate_ends p hfault

theorem onUnknown_ends (node : Node) (id : String) :
    tree.onUnknown node ≠ .error (endlessAt id) := by
  rw [onUnknown]
  split
  · simp
  · simp
  all_goals
    split
    · simp
    · split <;> simp [endlessAt]

theorem selectChild_ends (node : Node) (id : String) (children : List Nat) :
    tree.selectChild types record node children ≠ .error (endlessAt id) := by
  induction children with
  | nil => simp [selectChild]
  | cons child rest ih =>
    rw [selectChild]
    split
    · exact ih
    · rename_i target _
      split
      · rename_i e henter
        intro heq
        cases heq
        exact enter_ends target id henter
      · simp
      · exact ih
      · split
        · rename_i e hunknown
          intro heq
          cases heq
          exact onUnknown_ends node id hunknown
        · simp
        · exact ih

theorem onUnknown_child {node : Node} {child : Nat}
    (h : tree.onUnknown node = .ok (some (.descend child))) : child ∈ node.children := by
  rw [onUnknown] at h
  split at h
  · cases h
  · cases h
  -- the strategies that are left look for a default child
  all_goals
    split at h
    · cases h
    · split at h
      · rename_i hfind
        cases h
        exact List.mem_of_find?_eq_some hfind
      · cases h

/-- A step goes down to one of the children, be it by its own guard or as the default. -/
theorem selectChild_child {node : Node} {children : List Nat} {child : Nat}
    (hsub : children ⊆ node.children)
    (h : tree.selectChild types record node children = .ok (.descend child)) :
    child ∈ node.children := by
  induction children with
  | nil => cases h
  | cons first rest ih =>
    have hrest : rest ⊆ node.children := List.subset_of_cons_subset hsub
    rw [selectChild] at h
    split at h
    · exact ih hrest h
    · split at h
      · cases h
      · cases h
        exact hsub List.mem_cons_self
      · exact ih hrest h
      · split at h
        · cases h
        · rename_i hunknown
          cases h
          exact onUnknown_child hunknown
        · exact ih hrest h

/-- A run from a position on passes positions in rising order, so that it ends before there are
no more left. -/
theorem evaluateFrom_ends (hproper : tree.Proper) (id : String) {fuel index : Nat} {node : Node}
    (hnode : tree.node? index = some node) (hfuel : tree.size ≤ index + fuel) :
    tree.evaluateFrom types record fuel node ≠ .error (endlessAt id) := by
  induction fuel generalizing index node with
  | zero => exact absurd (node?_lt hnode) (by omega)
  | succ fuel ih =>
    rw [evaluateFrom]
    split
    · simp
    · split
      · rename_i e hselect
        intro heq
        cases heq
        exact selectChild_ends node id node.children hselect
      · rename_i child hselect
        have hchild : child ∈ tree.childrenAt index := by
          rw [childrenAt_of_node hnode]
          exact selectChild_child (List.Subset.refl _) hselect
        have hbehind : index < child := hproper.behind index child hchild
        split
        · rename_i next hnext
          exact ih hnext (by omega)
        · simp
      · simp
      · simp
      · split <;> simp

theorem evaluate_ends (hproper : tree.Proper) (id : String) :
    tree.evaluate types (.object record) ≠ .error (endlessAt id) := by
  simp only [evaluate, evaluateRecord]
  split
  · simp [endlessAt]
  · rename_i root rest hnodes
    have hroot : tree.node? 0 = some root := by simp [node?, hnodes]
    split
    · rename_i e henter
      intro heq
      cases heq
      exact enter_ends root id henter
    · exact evaluateFrom_ends hproper id hroot (by omega)
    · simp

end Ends

/-! ## The scope of a prediction -/

/-- A tree that was grown from bare nodes, as that of a document is, gives one answer, be it a
prediction or an error, for all records that hold the same values in the fields its predicates
test, whatever else they hold: a value of `null` counts as none. Nor do the types of other fields
matter, be they changed, added or removed. -/
theorem evaluate_scope {tree : Tree} (hgrown : tree.Grown Bare) (types : FieldTypes)
    {record record' : Record}
    (hrecord : ∀ field ∈ tree.testedFields, ∀ value, value ≠ .null →
      (record.lookup field = some value ↔ record'.lookup field = some value)) :
    (∀ id, tree.evaluate types (.object record) ≠ .error (.evaluation id .endless)) ∧
      tree.evaluate types (.object record) = tree.evaluate types (.object record') ∧
      (∀ types' : FieldTypes, (∀ field ∈ tree.testedFields, types.get? field = types'.get? field) →
        tree.evaluate types (.object record) = tree.evaluate types' (.object record')) ∧
      ∀ name ∉ tree.testedFields,
        (∀ type, tree.evaluate (types.insert name type) (.object record') =
          tree.evaluate types (.object record)) ∧
        tree.evaluate (types.remove name) (.object record') =
          tree.evaluate types (.object record) := by
  have hvalue : ∀ field ∈ tree.testedFields, record.value? field = record'.value? field :=
    fun field hfield => Record.value?_congr (hrecord field hfield)
  have hboth : ∀ types' : FieldTypes,
      (∀ field ∈ tree.testedFields, types.get? field = types'.get? field) →
      tree.evaluate types (.object record) = tree.evaluate types' (.object record') :=
    fun types' htypes => evaluate_alike ⟨htypes, hvalue⟩
  refine ⟨evaluate_ends hgrown.proper, hboth types fun _ _ => rfl, hboth, ?_⟩
  intro name hname
  have hne : ∀ field ∈ tree.testedFields, field ≠ name := by
    rintro field hfield rfl
    exact hname hfield
  constructor
  · intro type
    refine (hboth _ fun field hfield => ?_).symm
    rw [FieldTypes.get?_insert, if_neg (hne field hfield)]
  · refine (hboth _ fun field hfield => ?_).symm
    exact (types.get?_remove_of_ne (hne field hfield)).symm

namespace Fallback

/-- Where the region is not known, the default child is entered. -/
def document : Document :=
  { dataDictionary := [⟨"age", "double", []⟩, ⟨"region", "text", []⟩], transformations := [],
    settings := { Settings.named "fallback" with onMissing := .defaultChild },
    root := some ⟨⟨none, none, none, [], some "2"⟩, some "0",
      [⟨⟨some (.compound .and [.simple "age" .greaterOrEqual (some "18"),
          .set "region" .isIn ["north", "south"]]), some "a", none, [], none⟩, some "1", []⟩,
        ⟨⟨some (.simple "age" .lessThan (some "18")), some "b", none, [], none⟩, some "2", []⟩]⟩ }

def tree : Tree :=
  { document.settings with
    nodes :=
      [⟨⟨none, none, none, [], some "2"⟩, "0", [1, 2]⟩,
        ⟨⟨some (.compound .and [.simple "age" .greaterOrEqual (some "18"),
          .set "region" .isIn ["north", "south"]]), some "a", none, [], none⟩, "1", []⟩,
        ⟨⟨some (.simple "age" .lessThan (some "18")), some "b", none, [], none⟩, "2", []⟩] }

def types : FieldTypes := ⟨[("age", .numeric), ("region", .text)]⟩

def record : Record := [("age", .string "40"), ("note", .string "x"), ("region", .null)]

def record' : Record := [("age", .string "40"), ("note", .bool true)]

end Fallback

open Fallback in
theorem evaluate_scope_fallback :
    Fallback.document.toTree = .ok Fallback.tree ∧ "note" ∉ Fallback.tree.testedFields ∧
      Fallback.tree.evaluate types (.object record) = .ok (some ⟨"2", some "b", []⟩) ∧
      Fallback.tree.evaluate (types.insert "note" .boolean) (.object record') =
        .ok (some ⟨"2", some "b", []⟩) := by
  have htree : Fallback.document.toTree = .ok Fallback.tree := rfl
  have hfields : Fallback.tree.testedFields = ["age", "region", "age"] := by decide +kernel
  have hnote : "note" ∉ Fallback.tree.testedFields := by
    rw [hfields]
    decide
  have heval : Fallback.tree.evaluate types (.object record) =
      .ok (some ⟨"2", some "b", []⟩) := by
    decide +kernel
  have hrecord : ∀ field ∈ Fallback.tree.testedFields, ∀ value, value ≠ .null →
      (record.lookup field = some value ↔ record'.lookup field = some value) := by
    rw [hfields]
    intro field hfield value hvalue
    simp only [List.mem_cons, List.not_mem_nil, or_false] at hfield
    rcases hfield with rfl | rfl | rfl
    · rfl
    · have hnull : record.lookup "region" = some .null := rfl
      have habsent : record'.lookup "region" = none := rfl
      rw [hnull, habsent]
      refine iff_of_false (fun h => hvalue ?_) (fun h => by cases h)
      exact (Option.some.inj h).symm
    · rfl
  have hscope := evaluate_scope (Document.toTree_grown htree) types hrecord
  exact ⟨htree, hnote, heval, ((hscope.2.2.2 "note" hnote).1 .boolean).trans heval⟩

end Tree

end ScoringTree
