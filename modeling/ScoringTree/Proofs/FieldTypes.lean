import Mathlib.Data.List.Basic
import ScoringTree.Field.Resolution
import ScoringTree.Model.Tree

/-!
# ScoringTree.Proofs.FieldTypes

The types that scoring uses against those that generated source uses. One table takes the last
declaration of a name as it comes, the other merges the layers under checks; where the checks pass,
both give every name the same type.

* `FieldTypes.Matches`   — a name has a type in one table exactly when it has it in the other, and
                           the type for generated source that is stored with it is that of this type.
* `Dictionaries.resolve_fieldTypes`
                         — the two tables of the same layers match.
* `Dictionaries.types_agree`
                         — what matching means name by name, absent names included.
-/

namespace ScoringTree

theorem FieldType.read_text : FieldType.read "text" = .ok .text := by decide +kernel

-- the words of types are never looked into below
attribute [local irreducible] FieldType.read

theorem lookup_cons_ite {α : Type} (n k : String) (v : α) (rest : List (String × α)) :
    List.lookup n ((k, v) :: rest) = if n = k then some v else List.lookup n rest := by
  rw [List.lookup_cons]
  by_cases h : n = k
  · simp [h]
  · have hne : (n == k) = false := by simpa using h
    simp [hne, h]

theorem FieldTypes.get?_insert (types : FieldTypes) (name : String) (type : FieldType)
    (n : String) : (types.insert name type).get? n = if n = name then some type else types.get? n :=
  lookup_cons_ite n name type types.entries

namespace FieldTable

theorem lookup_putEntry (name : String) (field : ResolvedField) (n : String)
    (entries : List (String × ResolvedField)) :
    (putEntry name field entries).lookup n = if n = name then some field else entries.lookup n := by
  induction entries with
  | nil => exact lookup_cons_ite n name field []
  | cons entry rest ih =>
    obtain ⟨k, f⟩ := entry
    simp only [putEntry]
    by_cases hk : k = name
    · subst hk
      rw [if_pos rfl, lookup_cons_ite, lookup_cons_ite]
      by_cases h : n = k <;> simp [h]
    · rw [if_neg hk, lookup_cons_ite, lookup_cons_ite, ih]
      by_cases h : n = k
      · simp [h, hk]
      · simp [h]

theorem get?_put (table : FieldTable) (name : String) (field : ResolvedField) (n : String) :
    (table.put name field).get? n = if n = name then some field else table.get? n :=
  lookup_putEntry name field n table.entries

/-- What it takes to add a declaration, and what comes of it. -/
theorem add_ok {layer : Layer} {seen : List String} {table table' : FieldTable}
    {declared : Declaration} (h : table.add layer seen declared = .ok table') :
    declared.name ∉ seen ∧
      (∀ e, table.get? declared.name = some e → layer.mayShadow e.origin = true) ∧
      ∃ fieldType, FieldType.read declared.dataType = .ok fieldType ∧
        table' = table.put declared.name
          ⟨fieldType, fieldType.sourceType, layer, declared.dependencies⟩ := by
  simp only [add] at h
  split at h
  · cases h
  · rename_i hseen
    split at h
    · cases h
    · rename_i hfree
      split at h
      · cases h
      · rename_i fieldType hread
        cases h
        refine ⟨by simpa using hseen, ?_, fieldType, hread, rfl⟩
        intro e he
        simpa [he, Option.filter_eq_none_iff] using hfree

end FieldTable

namespace FieldTypes

/-- A name has a type in one table exactly when it has it in the other, and what the other holds as
the type for generated source is made from that type. -/
structure Matches (types : FieldTypes) (table : FieldTable) : Prop where
  declared : ∀ name, types.get? name = (table.get? name).map (·.fieldType)
  generated : ∀ name field, table.get? name = some field →
    field.sourceType = field.fieldType.sourceType

theorem matches_empty : FieldTypes.empty.Matches .empty where
  declared _ := rfl
  generated _ _ h := by cases h

theorem Matches.put {types : FieldTypes} {table : FieldTable} (h : types.Matches table)
    (name : String) (type : FieldType) (layer : Layer) (dependencies : List String) :
    (types.insert name type).Matches
      (table.put name ⟨type, type.sourceType, layer, dependencies⟩) where
  declared n := by
    rw [get?_insert, FieldTable.get?_put]
    split
    · rfl
    · exact h.declared n
  generated n field hfield := by
    rw [FieldTable.get?_put] at hfield
    split at hfield
    · cases hfield
      rfl
    · exact h.generated n field hfield

theorem declare_cons (types : FieldTypes) (name declared : String)
    (rest : List (String × String)) :
    types.declare ((name, declared) :: rest) =
      match FieldType.read declared with
      | .ok type => (types.insert name type).declare rest
      | .error unknown => .error (name, unknown) := rfl

theorem declare_append (types : FieldTypes) (first second : List (String × String)) :
    types.declare (first ++ second) =
      match types.declare first with
      | .ok middle => middle.declare second
      | .error e => .error e := by
  induction first generalizing types with
  | nil => rfl
  | cons entry rest ih =>
    obtain ⟨name, declared⟩ := entry
    rw [List.cons_append, declare_cons, declare_cons]
    cases FieldType.read declared with
    | ok type => exact ih _
    | error unknown => rfl

/-- Declarations that pass the checks of a layer are declared without checks as well. -/
theorem Matches.overlay {layer : Layer} {table' : FieldTable} :
    ∀ {declared : List Declaration} {types : FieldTypes} {seen : List String} {table : FieldTable},
      types.Matches table → table.overlay layer seen declared = .ok table' →
      ∃ types', types.declare (declared.map fun d => (d.name, d.dataType)) = .ok types' ∧
        types'.Matches table' := by
  intro declared
  induction declared with
  | nil =>
    intro types seen table hmatch h
    simp only [FieldTable.overlay] at h
    cases h
    exact ⟨types, rfl, hmatch⟩
  | cons d rest ih =>
    intro types seen table hmatch h
    simp only [FieldTable.overlay] at h
    split at h
    · cases h
    · rename_i hadd
      obtain ⟨-, -, fieldType, hread, rfl⟩ := FieldTable.add_ok hadd
      obtain ⟨types', hdeclare, hmatch'⟩ :=
        ih (hmatch.put d.name fieldType layer d.dependencies) h
      refine ⟨types', ?_, hmatch'⟩
      rw [List.map_cons, declare_cons, hread]
      exact hdeclare

end FieldTypes

namespace Dictionaries

theorem resolve_ok {layers : Dictionaries} {table : FieldTable} (h : layers.resolve = .ok table) :
    layers.merge = .ok table ∧ table.undefined? table.entries = none ∧
      ∃ search, table.checkCycles = .ok search := by
  simp only [resolve] at h
  split at h
  · cases h
  · rename_i hmerge
    split at h
    · cases h
    · rename_i hdefined
      split at h
      · cases h
      · rename_i search hcycles
        cases h
        exact ⟨hmerge, hdefined, search, hcycles⟩

theorem merge_ok {layers : Dictionaries} {table : FieldTable} (h : layers.merge = .ok table) :
    ∃ data derived, FieldTable.empty.overlay .data [] (layers.data.map .ofData) = .ok data ∧
      data.overlay .derived [] (layers.derived.map .ofDerived) = .ok derived ∧
      derived.overlay .inner [] (layers.locals.map .ofDerived) = .ok table := by
  simp only [merge, bind, Except.bind] at h
  split at h
  · cases h
  · rename_i data hdata
    split at h
    · cases h
    · rename_i derived hderived
      exact ⟨data, derived, hdata, hderived, h⟩

theorem resolve_fieldTypes {layers : Dictionaries} {table : FieldTable}
    (h : layers.resolve = .ok table) :
    ∃ types, layers.fieldTypes = .ok types ∧ types.Matches table := by
  obtain ⟨data, derived, hdata, hderived, hlocals⟩ := merge_ok (resolve_ok h).1
  obtain ⟨t1, h1, hmatch1⟩ := FieldTypes.matches_empty.overlay hdata
  obtain ⟨t2, h2, hmatch2⟩ := hmatch1.overlay hderived
  obtain ⟨t3, h3, hmatch3⟩ := hmatch2.overlay hlocals
  refine ⟨t3, ?_, hmatch3⟩
  simp only [List.map_map, Function.comp_def, Declaration.ofData, Declaration.ofDerived]
    at h1 h2 h3
  simp only [fieldTypes, declarations, FieldTypes.declare_append, h1, h2, h3]

/-- Where the layers can be resolved, scoring knows the types of the same fields as generated source
does: a name has a type in one table exactly when the other resolves it to that type, and it is
absent from one exactly when it is absent from the other. -/
theorem types_agree {layers : Dictionaries} {table : FieldTable} (h : layers.resolve = .ok table)
    (model : String) :
    ∃ types, layers.typesFor model = .ok types ∧
      (∀ name type, types.get? name = some type ↔
        ∃ field, table.get? name = some field ∧ field.fieldType = type ∧
          field.sourceType = type.sourceType) ∧
      ∀ name, types.get? name = none ↔ table.get? name = none := by
  obtain ⟨types, htypes, hmatch⟩ := resolve_fieldTypes h
  refine ⟨types, by simp [typesFor, htypes], ?_, ?_⟩
  · intro name type
    rw [hmatch.declared name, Option.map_eq_some_iff]
    constructor
    · rintro ⟨field, hfield, rfl⟩
      exact ⟨field, hfield, rfl, hmatch.generated name field hfield⟩
    · rintro ⟨field, hfield, htype, -⟩
      exact ⟨field, hfield, htype⟩
  · intro name
    rw [hmatch.declared name, Option.map_eq_none_iff]

/-- A field, one derived from it, and a local one in the place of the derived one. -/
def shadowed (declared : String) : Dictionaries :=
  ⟨[⟨"zip", declared, []⟩], [⟨"region", declared, .field "zip"⟩],
    [⟨"region", declared, .apply "lower" [.field "zip"]⟩]⟩

def shadowedTable (type : FieldType) : FieldTable :=
  ⟨[("zip", ⟨type, type.sourceType, .data, []⟩),
    ("region", ⟨type, type.sourceType, .inner, ["zip"]⟩)]⟩

theorem shadowed_resolve {declared : String} {type : FieldType}
    (hread : FieldType.read declared = .ok type) :
    (shadowed declared).resolve = .ok (shadowedTable type) := by
  have hmerge : (shadowed declared).merge = .ok (shadowedTable type) := by
    simp [merge, bind, Except.bind, shadowed, Declaration.ofData, Declaration.ofDerived,
      DerivedField.dependencies, Expression.fields, Expression.noteFields,
      Expression.noteFieldsAll, noteName, FieldTable.overlay, FieldTable.add, FieldTable.empty,
      FieldTable.get?, FieldTable.put, FieldTable.putEntry, hread, Layer.mayShadow,
      lookup_cons_ite, Option.filter, shadowedTable]
  have hdefined : (shadowedTable type).undefined? (shadowedTable type).entries = none := rfl
  have hcycles : (shadowedTable type).checkCycles = .ok ⟨[.done, .done], []⟩ := by
    simp [FieldTable.checkCycles, FieldTable.size, FieldTable.visitAll, FieldTable.visit,
      show (shadowedTable type).entries.length = 2 from rfl, show List.range 2 = [0, 1] from rfl,
      show (shadowedTable type).dependenciesAt 0 = [] from rfl,
      show (shadowedTable type).dependenciesAt 1 = [0] from rfl,
      show (shadowedTable type).entries.map (fun _ => FieldTable.Mark.unvisited) =
        [.unvisited, .unvisited] from rfl]
  simp only [resolve, hmerge, hdefined, hcycles]

theorem types_agree_shadowed :
    (shadowed "text").resolve = .ok (shadowedTable .text) ∧
      ∃ types, (shadowed "text").typesFor "m" = .ok types ∧
        types.get? "region" = some .text ∧ types.get? "size" = none := by
  have hresolve := shadowed_resolve FieldType.read_text
  obtain ⟨types, htypes, hsame, habsent⟩ := types_agree hresolve "m"
  exact ⟨hresolve, types, htypes, (hsame _ _).mpr ⟨_, rfl, rfl, rfl⟩, (habsent _).mpr rfl⟩

end Dictionaries

theorem Document.resolve_fieldTypes {document : Document} {table : FieldTable}
    (h : document.dictionaries.resolve = .ok table) :
    ∃ types, document.fieldTypes = .ok types ∧ types.Matches table := by
  obtain ⟨types, htypes, hmatch⟩ := Dictionaries.resolve_fieldTypes h
  exact ⟨types, by simp [fieldTypes, Dictionaries.typesFor, htypes], hmatch⟩

end ScoringTree
