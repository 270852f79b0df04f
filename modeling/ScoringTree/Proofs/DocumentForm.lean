import ScoringTree.Model.Document
import ScoringTree.Proofs.JsonValue

/-!
# ScoringTree.Proofs.DocumentForm

The JSON form of a model reads as the model.

* `Readable.list_ofJson`, `Readable.optional_elim`
                             — lists and optional values, from what is known of their parts.
* `Predicate.readWithin_toJson`, `Expression.readWithin_toJson`, `NestedNode.readWithin_toJson`
                             — the parts that nest, with enough fuel.
* `Document.constants`       — the values that a document carries along without looking inside.
* `Document.read?_toJson`    — a document whose constants are settled is read as it was written.
-/

namespace ScoringTree

/-! ## Lists and optional values -/

namespace Readable

variable {α : Type} {read : Datum → Option α} {write : α → Json}

theorem mapM_ofItems {xs : List α} (h : ∀ x ∈ xs, read (.ofJson (write x)) = some x) :
    (Datum.ofItems (xs.map write)).mapM read = some xs := by
  induction xs with
  | nil => rfl
  | cons x xs ih =>
    have hrest := ih fun y hy => h y (List.mem_cons_of_mem _ hy)
    simp [Datum.ofItems, List.mapM_cons, h x List.mem_cons_self, hrest]

/-- A list that was written item by item. -/
theorem list_ofJson {xs : List α} (h : ∀ x ∈ xs, read (.ofJson (write x)) = some x) :
    list read (.ofJson (.array (xs.map write))) = some xs :=
  mapM_ofItems h

/-- A value that was written if there is one, and as absent otherwise. -/
theorem optional_elim {value : Option α} (hne : ∀ x, write x ≠ .null)
    (h : ∀ x, value = some x → read (.ofJson (write x)) = some x) :
    optional read (some (.ofJson (value.elim .null write))) = some value := by
  cases value with
  | none => rfl
  | some x =>
    have hpresent : present? (Datum.ofJson (write x)) = some (some (Datum.ofJson (write x))) := by
      cases hx : write x with
      | null => exact absurd hx (hne x)
      | _ => rfl
    simp [optional, hpresent, h x rfl]

end Readable

/-! ## Predicates -/

namespace Predicate

theorem toJson_ne_null (p : Predicate) : p.toJson ≠ .null := by
  cases p <;> simp [toJson]

theorem set?_toJson (field : String) (operator : Membership) (values : List String) :
    set? (.ofJson (set field operator values).toJson) = some (.set field operator values) := by
  have hvalues : (Datum.ofItems (values.map Json.string)).mapM Datum.anyText? = some values :=
    Readable.mapM_ofItems fun _ _ => rfl
  have hoperator : (Datum.text operator.name).pick? (Membership.ordered.map fun m => ([m.name], m))
      = some operator := by cases operator <;> rfl
  have hslots : (bodyOf? "simple_set" (.ofJson (set field operator values).toJson)).bind
      (Datum.slots? ["field", "operator", "values"]) = some [some (.text field),
        some (.text operator.name), some (.seq (Datum.ofItems (values.map Json.string)))] := rfl
  simp only [set?, hslots, Datum.text?, hoperator, Datum.items?, Option.bind_some, hvalues]

theorem compoundParts?_toJson (operator : Connective) (operands : List Predicate) :
    compoundParts? (.ofJson (compound operator operands).toJson)
      = some (operator, Datum.ofItems (toJsonAll operands)) := by
  cases operator <;> rfl

mutual

theorem readWithin_toJson : ∀ (p : Predicate) (fuel : Nat),
    (Datum.ofJson p.toJson).depth < fuel → readWithin fuel (.ofJson p.toJson) = some p
  | _, 0, h => by omega
  | .simple field operator value, fuel + 1, _ => by
    rw [readWithin]
    cases operator <;> cases value <;> rfl
  | .set field operator values, fuel + 1, _ => by
    rw [readWithin, set?_toJson]
    rfl
  | .compound operator operands, fuel + 1, h => by
    have hoperands := mapM_readWithin_toJsonAll operands fuel
      (by simp [toJson, Datum.ofJson, Datum.ofMembers, Datum.depth, Datum.entriesDepth] at h; omega)
    rw [readWithin, compoundParts?_toJson, Option.bind_some, hoperands]
    rfl
  | .always, fuel + 1, _ => rfl
  | .never, fuel + 1, _ => rfl

theorem mapM_readWithin_toJsonAll : ∀ (ps : List Predicate) (fuel : Nat),
    Datum.itemsDepth (Datum.ofItems (toJsonAll ps)) < fuel →
    (Datum.ofItems (toJsonAll ps)).mapM (readWithin fuel) = some ps
  | [], _, _ => rfl
  | p :: ps, fuel, h => by
    obtain ⟨hfirst, hrest⟩ := max_lt_iff.mp h
    simp [toJsonAll, Datum.ofItems, List.mapM_cons, readWithin_toJson p fuel hfirst,
      mapM_readWithin_toJsonAll ps fuel hrest]

end

end Predicate

/-! ## Expressions -/

namespace Expression

mutual

/-- The values of the constants in an expression, from left to right. -/
def constants : Expression → List Json
  | .field _ => []
  | .constant value => [value]
  | .apply _ arguments => constantsAll arguments

def constantsAll : List Expression → List Json
  | [] => []
  | e :: es => constants e ++ constantsAll es

end

mutual

theorem readWithin_toJson : ∀ (e : Expression) (fuel : Nat), (∀ v ∈ e.constants, v.Settled) →
    (Datum.ofJson e.toJson).depth < fuel → readWithin fuel (.ofJson e.toJson) = some e
  | _, 0, _, h => by omega
  | .field name, fuel + 1, _, _ => rfl
  | .constant value, fuel + 1, hsettled, _ => by
    have hvalue := (hsettled value (by simp [constants])).toJson?
    have hslots : Datum.mapSlots? ["constant"] (.ofJson (constant value).toJson)
      = some [some (.ofJson value)] := rfl
    rw [readWithin, hslots, Option.bind_some]
    simp only [hvalue]
    rfl
  | .apply function arguments, fuel + 1, hsettled, h => by
    have harguments := mapM_readWithin_toJsonAll arguments fuel hsettled
      (by simp [toJson, Datum.ofJson, Datum.ofMembers, Datum.depth, Datum.entriesDepth] at h; omega)
    have hslots : Datum.mapSlots? ["apply", "arguments"] (.ofJson (apply function arguments).toJson)
      = some [some (.text function), some (.seq (Datum.ofItems (toJsonAll arguments)))] := rfl
    rw [readWithin, hslots]
    simp only [Datum.items?, Option.bind_some, harguments]
    rfl

theorem mapM_readWithin_toJsonAll : ∀ (es : List Expression) (fuel : Nat),
    (∀ v ∈ constantsAll es, v.Settled) →
    Datum.itemsDepth (Datum.ofItems (toJsonAll es)) < fuel →
    (Datum.ofItems (toJsonAll es)).mapM (readWithin fuel) = some es
  | [], _, _, _ => rfl
  | e :: es, fuel, hsettled, h => by
    obtain ⟨hfirst, hrest⟩ := max_lt_iff.mp h
    obtain ⟨hsettled₁, hsettled₂⟩ := List.forall_mem_append.mp hsettled
    simp [toJsonAll, Datum.ofItems, List.mapM_cons, readWithin_toJson e fuel hsettled₁ hfirst,
      mapM_readWithin_toJsonAll es fuel hsettled₂ hrest]

end

end Expression

/-! ## Records -/

open Readable

theorem Datum.depth_le_of_mem {key : String} {v : Json} {members : List (String × Json)}
    (h : (key, v) ∈ members) : (ofJson v).depth ≤ entriesDepth (ofMembers members) := by
  induction members with
  | nil => simp at h
  | cons first rest ih =>
    rcases List.mem_cons.mp h with rfl | h
    · exact le_max_of_le_left (le_max_right _ _)
    · exact le_max_of_le_right (ih h)

theorem Expression.ofValue?_toJson {e : Expression} (h : ∀ v ∈ e.constants, v.Settled) :
    Expression.ofValue? (Datum.ofJson e.toJson) = some e := by
  have hdatum : datum? (Datum.ofJson e.toJson) = some (Datum.ofJson e.toJson) :=
    if_pos (Datum.readable_ofJson _)
  have hread : Expression.read? (Datum.ofJson e.toJson) = some e :=
    Expression.readWithin_toJson e _ h (Nat.lt_succ_self _)
  simp only [Expression.ofValue?, hdatum, Option.bind_eq_bind, Option.bind_some, hread]
  rfl

theorem Predicate.ofValue?_toJson (p : Predicate) :
    Predicate.ofValue? (Datum.ofJson p.toJson) = some p := by
  have hdatum : datum? (Datum.ofJson p.toJson) = some (Datum.ofJson p.toJson) :=
    if_pos (Datum.readable_ofJson _)
  have hread : Predicate.read? (Datum.ofJson p.toJson) = some p :=
    Predicate.readWithin_toJson p _ (Nat.lt_succ_self _)
  simp only [Predicate.ofValue?, hdatum, Option.bind_eq_bind, Option.bind_some, hread]
  rfl

theorem DataField.read?_toJson (field : DataField) :
    DataField.read? (Datum.ofJson field.toJson) = some field := by
  obtain ⟨name, dataType, values⟩ := field
  cases values with
  | nil => rfl
  | cons value values =>
    have hvalues : list text? (Datum.ofJson (.array ((value :: values).map .string)))
        = some (value :: values) := list_ofJson fun _ _ => rfl
    have hslots : slots? ["name", "data_type", "values"]
        (Datum.ofJson (DataField.toJson ⟨name, dataType, value :: values⟩))
        = some [some (.text name), some (.text dataType),
          some (Datum.ofJson (.array ((value :: values).map .string)))] := rfl
    simp only [DataField.read?, hslots, Option.bind_eq_bind, Option.bind_some, required, defaulted,
      hvalues]
    rfl

theorem DerivedField.read?_toJson {field : DerivedField}
    (h : ∀ v ∈ field.expression.constants, v.Settled) :
    DerivedField.read? (Datum.ofJson field.toJson) = some field := by
  have hslots : slots? ["name", "data_type", "expression"] (Datum.ofJson field.toJson)
      = some [some (.text field.name), some (.text field.dataType),
        some (Datum.ofJson field.expression.toJson)] := rfl
  simp only [DerivedField.read?, hslots, Option.bind_eq_bind, Option.bind_some, required,
    Expression.ofValue?_toJson h]
  rfl

theorem Distribution.read?_toJson (d : Distribution) :
    Distribution.read? (Datum.ofJson d.toJson) = some d := by
  rcases d with ⟨label, count, _ | confidence⟩ <;> rfl

theorem MiningField.read?_toJson (field : MiningField) :
    MiningField.read? (Datum.ofJson field.toJson) = some field := by
  rcases field with ⟨name, _ | _⟩ <;> rfl

/-! ## Nodes -/

namespace NestedNode

theorem toJson_mk (content : NodeContent) (id : Option String) (children : List NestedNode) :
    toJson ⟨content, id, children⟩ = .object [("id", .ofOption id),
      ("predicate", content.predicate.elim .null Predicate.toJson),
      ("score", .ofOption content.score), ("record_count", .ofFloat? content.recordCount),
      ("score_distributions", .array (content.distributions.map Distribution.toJson)),
      ("default_child", .ofOption content.defaultChild),
      ("nodes", .array (toJsonAll children))] := by
  cases h : content.predicate <;> simp [toJson, contentMembers, h]

theorem toJson_ne_null (n : NestedNode) : n.toJson ≠ .null := by
  obtain ⟨content, id, children⟩ := n
  simp [toJson]

theorem depth_children (content : NodeContent) (id : Option String) (children : List NestedNode) :
    Datum.itemsDepth (Datum.ofItems (toJsonAll children)) + 2
      ≤ (Datum.ofJson (toJson ⟨content, id, children⟩)).depth := by
  have hnodes := Datum.depth_le_of_mem (List.mem_append_right (contentMembers id content)
    (List.mem_cons_self (a := ("nodes", Json.array (toJsonAll children))) (l := [])))
  exact Nat.succ_le_succ hnodes

theorem optional_text (value : Option String) :
    optional anyText (some (Datum.ofJson (.ofOption value))) = some value := by
  cases value <;> rfl

theorem optional_float (x : Option Float) :
    optional float? (some (Datum.ofJson (.ofFloat? x))) = some x := by
  cases x <;> rfl

mutual

theorem readWithin_toJson : ∀ (n : NestedNode) (fuel : Nat),
    (Datum.ofJson n.toJson).depth ≤ fuel → readWithin fuel (Datum.ofJson n.toJson) = some n
  | ⟨content, id, children⟩, 0, h => by simp [toJson, Datum.ofJson, Datum.depth] at h
  | ⟨content, id, children⟩, fuel + 1, h => by
    have hnodes := (depth_children content id children).trans h
    have hchildren : list (readWithin fuel) (Datum.ofJson (.array (toJsonAll children)))
        = some children := mapM_readWithin_toJsonAll children fuel (by omega)
    have hdistributions : list Distribution.read?
        (Datum.ofJson (.array (content.distributions.map Distribution.toJson)))
        = some content.distributions := list_ofJson fun d _ => d.read?_toJson
    have hpredicate : optional Predicate.ofValue?
        (some (Datum.ofJson (content.predicate.elim .null Predicate.toJson)))
        = some content.predicate :=
      optional_elim Predicate.toJson_ne_null fun p _ => p.ofValue?_toJson
    have hslots : slots? ["id", "predicate", "score", "record_count", "score_distributions",
        "default_child", "nodes"] (Datum.ofJson (toJson ⟨content, id, children⟩))
        = some [some (Datum.ofJson (.ofOption id)),
          some (Datum.ofJson (content.predicate.elim .null Predicate.toJson)),
          some (Datum.ofJson (.ofOption content.score)),
          some (Datum.ofJson (.ofFloat? content.recordCount)),
          some (Datum.ofJson (.array (content.distributions.map Distribution.toJson))),
          some (Datum.ofJson (.ofOption content.defaultChild)),
          some (Datum.ofJson (.array (toJsonAll children)))] := by
      rw [toJson_mk]
      rfl
    simp only [readWithin, hslots, Option.bind_eq_bind, Option.bind_some, optional_text, hpredicate,
      optional_float, defaulted, hdistributions, hchildren]
    rfl

theorem mapM_readWithin_toJsonAll : ∀ (ns : List NestedNode) (fuel : Nat),
    Datum.itemsDepth (Datum.ofItems (toJsonAll ns)) ≤ fuel →
    (Datum.ofItems (toJsonAll ns)).mapM (readWithin fuel) = some ns
  | [], _, _ => rfl
  | n :: ns, fuel, h => by
    obtain ⟨hfirst, hrest⟩ := max_le_iff.mp h
    simp [toJsonAll, Datum.ofItems, List.mapM_cons, readWithin_toJson n fuel hfirst,
      mapM_readWithin_toJsonAll ns fuel hrest]

end

end NestedNode

/-! ## Documents -/

namespace Document

/-- The values of all constants in the definitions of a document. -/
def constants (document : Document) : List Json :=
  (document.transformations ++ document.settings.locals).flatMap (·.expression.constants)

/-- The document form of the settings and the root node. -/
def modelJson (document : Document) : Json :=
  .object (document.settings.members
    ++ [("node", document.root.elim .null NestedNode.toJson)])

theorem toJson_eq (document : Document) : document.toJson = .object [
    ("data_dictionary", .array (document.dataDictionary.map DataField.toJson)),
    ("transformation_dictionary", .array (document.transformations.map DerivedField.toJson)),
    ("tree_model", document.modelJson)] := by
  cases h : document.root <;> simp [toJson, modelJson, h]

theorem read?_modelJson {document : Document} (hsettled : ∀ v ∈ document.constants, v.Settled)
    (hdepth : (Datum.ofJson document.modelJson).depth ≤ documentDepth) :
    Settings.read? (Datum.ofJson document.modelJson) = some (document.settings, document.root) := by
  have hlocals : list DerivedField.read?
      (Datum.ofJson (.array (document.settings.locals.map DerivedField.toJson)))
      = some document.settings.locals := list_ofJson fun field hfield =>
    DerivedField.read?_toJson fun v hv => hsettled v
      (List.mem_flatMap.mpr ⟨field, List.mem_append_right _ hfield, hv⟩)
  have hschema : list MiningField.read?
      (Datum.ofJson (.array (document.settings.schema.map MiningField.toJson)))
      = some document.settings.schema := list_ofJson fun field _ => field.read?_toJson
  have hfunction : choice MiningFunction.options (Datum.text document.settings.function.name)
      = some document.settings.function := by cases document.settings.function <;> rfl
  have honMissing : choice MissingValueStrategy.options
      (Datum.text document.settings.onMissing.name) = some document.settings.onMissing := by cases document.settings.onMissing <;> rfl
  have honNoMatch : choice NoTrueChildStrategy.options
      (Datum.text document.settings.onNoMatch.name) = some document.settings.onNoMatch := by cases document.settings.onNoMatch <;> rfl
  have halgorithm : optional text? (some (Datum.ofJson (.ofOption document.settings.algorithm)))
      = some document.settings.algorithm := by cases document.settings.algorithm <;> rfl
  have hnode : (Datum.ofJson (document.root.elim .null NestedNode.toJson)).depth ≤ documentDepth :=
    (Datum.depth_le_of_mem (List.mem_append_right _ List.mem_cons_self)).trans
      (Nat.le_of_succ_le hdepth)
  have hroot : optional (NestedNode.readWithin documentDepth)
      (some (Datum.ofJson (document.root.elim .null NestedNode.toJson))) = some document.root := by
    refine optional_elim NestedNode.toJson_ne_null fun node hr => ?_
    rw [hr] at hnode
    exact NestedNode.readWithin_toJson node _ hnode
  have hslots : slots? ["model_name", "algorithm_name", "function_name", "mining_schema",
      "local_transformations", "missing_value_strategy", "no_true_child_strategy", "node"]
      (Datum.ofJson document.modelJson)
      = some [some (.text document.settings.modelName),
        some (Datum.ofJson (.ofOption document.settings.algorithm)),
        some (.text document.settings.function.name),
        some (Datum.ofJson (.array (document.settings.schema.map MiningField.toJson))),
        some (Datum.ofJson (.array (document.settings.locals.map DerivedField.toJson))),
        some (.text document.settings.onMissing.name),
        some (.text document.settings.onNoMatch.name),
        some (Datum.ofJson (document.root.elim .null NestedNode.toJson))] := rfl
  simp only [Settings.read?, hslots, Option.bind_eq_bind, Option.bind_some, required, defaulted,
    halgorithm, hfunction, hschema, hlocals, honMissing, honNoMatch, hroot]
  rfl

/-- A document whose constants are settled is read as it was written. -/
theorem read?_toJson {document : Document} (hsettled : ∀ v ∈ document.constants, v.Settled)
    (hdepth : (Datum.ofJson document.toJson).depth ≤ documentDepth) :
    Document.read? (Datum.ofJson document.toJson) = some document := by
  rw [toJson_eq] at hdepth
  have hdata : list DataField.read?
      (Datum.ofJson (.array (document.dataDictionary.map DataField.toJson)))
      = some document.dataDictionary := list_ofJson fun field _ => field.read?_toJson
  have hderived : list DerivedField.read?
      (Datum.ofJson (.array (document.transformations.map DerivedField.toJson)))
      = some document.transformations := list_ofJson fun field hfield =>
    DerivedField.read?_toJson fun v hv => hsettled v
      (List.mem_flatMap.mpr ⟨field, List.mem_append_left _ hfield, hv⟩)
  have hmodel : Settings.read? (Datum.ofJson document.modelJson)
      = some (document.settings, document.root) := by
    refine read?_modelJson hsettled (le_trans ?_ (Nat.le_of_succ_le hdepth))
    exact Datum.depth_le_of_mem (.tail _ (.tail _ (.head _)))
  have hslots : slots? ["data_dictionary", "transformation_dictionary", "tree_model"]
      (Datum.ofJson document.toJson)
      = some [some (Datum.ofJson (.array (document.dataDictionary.map DataField.toJson))),
        some (Datum.ofJson (.array (document.transformations.map DerivedField.toJson))),
        some (Datum.ofJson document.modelJson)] := by
    rw [toJson_eq]
    rfl
  simp only [Document.read?, hslots, Option.bind_eq_bind, Option.bind_some, required, defaulted,
    hdata, hderived, hmodel]
  rfl

end Document

end ScoringTree
