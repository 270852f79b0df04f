import ScoringTree.Proofs.CycleSearch
import ScoringTree.Proofs.FieldTypes

/-!
# ScoringTree.Proofs.Resolution

Which layers of declarations can be resolved, and to which table.

The layers are put over each other one after the other, with checks at every declaration, and what
comes of it is searched for undeclared fields and for cycles. Here the same is said without any
order of work: a name counts as the last layer declares it, and only these declarations are asked
for the fields they read.

* `FieldTable.overlay_ok_iff`, `FieldTable.overlay_get?`, `FieldTable.overlay_keys`
                              — when a layer can be put over a table, and what the table is then.
* `Dictionaries.winner?`      — the declaration that counts for a name.
* `Dictionaries.WellFormed`   — what it takes to resolve the layers.
* `Dictionaries.resolve_iff_wellFormed`
                              — they are resolved exactly then, name by name as they are declared.
-/

namespace ScoringTree

-- the words of types are never looked into below
attribute [local irreducible] FieldType.read

/-! ## One layer -/

namespace FieldTable

theorem map_fst_putEntry (name : String) (field : ResolvedField)
    (entries : List (String × ResolvedField)) :
    (putEntry name field entries).map (·.1) =
      if name ∈ entries.map (·.1) then entries.map (·.1) else entries.map (·.1) ++ [name] := by
  induction entries with
  | nil => simp [putEntry]
  | cons entry rest ih =>
    obtain ⟨n, f⟩ := entry
    simp only [putEntry]
    by_cases hn : n = name
    · simp [hn]
    · rw [if_neg hn, List.map_cons, ih]
      by_cases hmem : name ∈ rest.map (·.1)
      · simp [hmem]
      · simp [hmem, Ne.symm hn]

theorem keys_put (table : FieldTable) (name : String) (field : ResolvedField) :
    (table.put name field).keys =
      if name ∈ table.keys then table.keys else table.keys ++ [name] :=
  map_fst_putEntry name field table.entries

theorem nodup_keys_put {table : FieldTable} (h : table.keys.Nodup) (name : String)
    (field : ResolvedField) : (table.put name field).keys.Nodup := by
  rw [keys_put]
  split
  · exact h
  · rename_i hnew
    rw [List.nodup_append]
    refine ⟨h, List.nodup_singleton _, ?_⟩
    intro a ha b hb
    rw [List.mem_singleton.mp hb]
    exact fun heq => hnew (heq ▸ ha)

theorem eraseDups_concat (names : List String) (name : String) :
    (names ++ [name]).eraseDups =
      if name ∈ names then names.eraseDups else names.eraseDups ++ [name] := by
  rw [List.eraseDups_append]
  by_cases h : name ∈ names
  · simp [List.cons_removeAll, h]
  · simp [List.cons_removeAll, h, List.eraseDups_cons]

/-- What a layer asks of a declaration, apart from the names it has declared before: what stands in
the table may be shadowed, and the type is known. -/
structure Admits (layer : Layer) (table : FieldTable) (declared : Declaration) : Prop where
  free : ∀ e, table.get? declared.name = some e → layer.mayShadow e.origin = true
  typed : ∃ fieldType, FieldType.read declared.dataType = .ok fieldType

variable {layer : Layer} {table table' : FieldTable}

theorem admits_put {declared : Declaration} {name : String} (hne : declared.name ≠ name)
    (field : ResolvedField) :
    Admits layer (table.put name field) declared ↔ Admits layer table declared := by
  constructor
  · rintro ⟨hfree, htyped⟩
    refine ⟨?_, htyped⟩
    intro e he
    exact hfree e (by rw [get?_put, if_neg hne]; exact he)
  · rintro ⟨hfree, htyped⟩
    refine ⟨?_, htyped⟩
    intro e he
    rw [get?_put, if_neg hne] at he
    exact hfree e he

theorem add_of_admits {seen : List String} {declared : Declaration} {fieldType : FieldType}
    (hseen : declared.name ∉ seen) (hadmits : Admits layer table declared)
    (hread : FieldType.read declared.dataType = .ok fieldType) :
    table.add layer seen declared =
      .ok (table.put declared.name
        ⟨fieldType, fieldType.sourceType, layer, declared.dependencies⟩) := by
  have hfree : ((table.get? declared.name).filter fun e => !layer.mayShadow e.origin) = none := by
    rw [Option.filter_eq_none_iff]
    intro e he
    simp [hadmits.free e he]
  simp [add, hseen, hfree, hread]

/-- A layer can be put over a table exactly where its names are new to it and to each other, and
every declaration is admitted by the table as it is. -/
theorem overlay_ok_iff {declared : List Declaration} {seen : List String} :
    (∃ table', table.overlay layer seen declared = .ok table') ↔
      (declared.map (·.name)).Nodup ∧ ∀ d ∈ declared, d.name ∉ seen ∧ Admits layer table d := by
  induction declared generalizing seen table with
  | nil => simp [overlay]
  | cons d rest ih =>
    rw [List.map_cons, List.nodup_cons]
    constructor
    · rintro ⟨table', h⟩
      simp only [overlay] at h
      split at h
      · cases h
      · rename_i grown hadd
        obtain ⟨hseen, hfree, fieldType, hread, rfl⟩ := add_ok hadd
        obtain ⟨hnodup, hall⟩ := ih.mp ⟨table', h⟩
        have hnew : ∀ other ∈ rest, other.name ≠ d.name := by
          intro other hother heq
          exact (hall other hother).1 (by simp [heq])
        refine ⟨⟨?_, hnodup⟩, ?_⟩
        · intro hmem
          obtain ⟨other, hother, heq⟩ := List.mem_map.mp hmem
          exact hnew other hother heq
        · intro other hother
          rcases List.mem_cons.mp hother with rfl | hother
          · exact ⟨hseen, hfree, fieldType, hread⟩
          · obtain ⟨hunseen, hadmits⟩ := hall other hother
            exact ⟨fun hmem => hunseen (by simp [hmem]),
              (admits_put (hnew other hother) _).mp hadmits⟩
    · rintro ⟨⟨hnew, hnodup⟩, hall⟩
      obtain ⟨hseen, hadmits⟩ := hall d (by simp)
      obtain ⟨fieldType, hread⟩ := hadmits.typed
      simp only [overlay, add_of_admits hseen hadmits hread]
      refine ih.mpr ⟨hnodup, ?_⟩
      intro other hother
      obtain ⟨hunseen, hother'⟩ := hall other (by simp [hother])
      have hne : other.name ≠ d.name := fun heq => hnew (heq ▸ List.mem_map_of_mem hother)
      exact ⟨by simp [hne, hunseen], (admits_put hne _).mpr hother'⟩

/-- A name that the layer declares stands for its declaration there, all others are as before. -/
theorem overlay_get? {declared : List Declaration} {seen : List String}
    (h : table.overlay layer seen declared = .ok table') (name : String) :
    (∀ d, declared.find? (·.name == name) = some d →
      ∃ fieldType, FieldType.read d.dataType = .ok fieldType ∧
        table'.get? name = some ⟨fieldType, fieldType.sourceType, layer, d.dependencies⟩) ∧
      (declared.find? (·.name == name) = none → table'.get? name = table.get? name) := by
  induction declared generalizing seen table with
  | nil =>
    simp only [overlay] at h
    cases h
    simp
  | cons d rest ih =>
    simp only [overlay] at h
    split at h
    · cases h
    · rename_i grown hadd
      obtain ⟨-, -, fieldType, hread, rfl⟩ := add_ok hadd
      obtain ⟨hdeclared, hother⟩ := ih h
      by_cases hname : d.name = name
      · -- the name has been seen, so it does not come again
        obtain ⟨-, hall⟩ := overlay_ok_iff.mp ⟨table', h⟩
        have hnone : rest.find? (·.name == name) = none := by
          rw [List.find?_eq_none]
          intro other hmem heq
          have hsame : other.name = name := by simpa using heq
          exact (hall other hmem).1 (by simp [hsame, hname])
        rw [List.find?_cons_of_pos (by simpa using hname)]
        refine ⟨?_, by simp⟩
        rintro _ ⟨⟩
        exact ⟨fieldType, hread, by rw [hother hnone, get?_put, if_pos hname.symm]⟩
      · rw [List.find?_cons_of_neg (by simpa using hname)]
        refine ⟨hdeclared, ?_⟩
        intro hnone
        rw [hother hnone, get?_put, if_neg (Ne.symm hname)]

/-- Names are added behind those that are there, and none is added twice. -/
theorem overlay_keys {declared : List Declaration} {seen names : List String}
    (hnames : table.keys = names.eraseDups) (h : table.overlay layer seen declared = .ok table') :
    table'.keys = (names ++ declared.map (·.name)).eraseDups := by
  induction declared generalizing seen table names with
  | nil =>
    simp only [overlay] at h
    cases h
    simpa using hnames
  | cons d rest ih =>
    simp only [overlay] at h
    split at h
    · cases h
    · rename_i grown hadd
      obtain ⟨-, -, fieldType, -, rfl⟩ := add_ok hadd
      have hgrown :
          (table.put d.name ⟨fieldType, fieldType.sourceType, layer, d.dependencies⟩).keys =
          (names ++ [d.name]).eraseDups := by
        rw [keys_put, eraseDups_concat, hnames]
        simp only [List.mem_eraseDups]
      simpa using ih hgrown h

theorem overlay_nodup {declared : List Declaration} {seen : List String}
    (hkeys : table.keys.Nodup) (h : table.overlay layer seen declared = .ok table') :
    table'.keys.Nodup := by
  induction declared generalizing seen table with
  | nil =>
    simp only [overlay] at h
    cases h
    exact hkeys
  | cons d rest ih =>
    simp only [overlay] at h
    split at h
    · cases h
    · rename_i grown hadd
      obtain ⟨-, -, fieldType, -, rfl⟩ := add_ok hadd
      exact ih (nodup_keys_put hkeys _ _) h

/-- No field reads an undeclared one. -/
theorem undefined?_eq_none_iff (hkeys : table.keys.Nodup) :
    table.undefined? table.entries = none ↔ ∀ a b, table.Reads a b → b ∈ table.keys := by
  have hall : ∀ entries : List (String × ResolvedField), table.undefined? entries = none ↔
      ∀ entry ∈ entries, ∀ n ∈ entry.2.dependencies, n ∈ table.keys := by
    intro entries
    induction entries with
    | nil => simp [undefined?]
    | cons entry rest ih =>
      simp only [undefined?]
      cases hfind : entry.2.dependencies.find? fun d => (table.get? d).isNone with
      | some missing =>
        have hmissing := List.find?_some hfind
        simp only [reduceCtorEq, false_iff]
        intro h
        have := h entry (by simp) missing (List.mem_of_find?_eq_some hfind)
        rw [mem_keys_iff] at this
        simp_all
      | none =>
        rw [List.find?_eq_none] at hfind
        simp only [ih, List.mem_cons, forall_eq_or_imp, iff_and_self]
        intro _ n hn
        rw [mem_keys_iff]
        simpa [Option.isSome_iff_ne_none] using hfind n hn
  rw [hall]
  constructor
  · rintro h a b ⟨field, hfield, hmem⟩
    obtain ⟨before, after, hsplit, -⟩ := List.lookup_eq_some_iff.mp hfield
    exact h (a, field) (by simp [hsplit]) b hmem
  · intro h entry hentry n hn
    exact h entry.1 n ⟨entry.2, lookup_of_mem hkeys hentry, hn⟩

end FieldTable

/-! ## All layers -/

namespace Dictionaries

/-- The declarations of a layer. -/
def declared (layers : Dictionaries) : Layer → List Declaration
  | .data => layers.data.map .ofData
  | .derived => layers.derived.map .ofDerived
  | .inner => layers.locals.map .ofDerived

/-- The names of a layer. -/
def namesOf (layers : Dictionaries) (layer : Layer) : List String :=
  (layers.declared layer).map (·.name)

/-- All names in the order in which they are declared. -/
def names (layers : Dictionaries) : List String :=
  layers.namesOf .data ++ layers.namesOf .derived ++ layers.namesOf .inner

/-- The declaration of a name in a layer. -/
def declaration? (layers : Dictionaries) (name : String) (layer : Layer) : Option Declaration :=
  (layers.declared layer).find? (·.name == name)

/-- The declaration that counts for a name, that of the last layer which has one. -/
def winner? (layers : Dictionaries) (name : String) : Option (Layer × Declaration) :=
  [.inner, .derived, .data].findSome? fun layer => (layers.declaration? name layer).map (layer, ·)

/-- The definition that counts for the first name reads the second. -/
def Reads (layers : Dictionaries) (a b : String) : Prop :=
  ∃ layer declared, layers.winner? a = some (layer, declared) ∧ b ∈ declared.dependencies

/-- What it takes to put the layers over each other; declarations that do not count are asked as
well. -/
structure Admissible (layers : Dictionaries) : Prop where
  distinct : ∀ layer, (layers.namesOf layer).Nodup
  apart : ∀ layer, layer ≠ .data → ∀ name ∈ layers.namesOf layer, name ∉ layers.namesOf .data
  typed : ∀ layer, ∀ d ∈ layers.declared layer,
    ∃ fieldType, FieldType.read d.dataType = .ok fieldType

/-- What it takes to resolve the layers; only the declarations that count are asked what they
read. -/
structure WellFormed (layers : Dictionaries) : Prop extends layers.Admissible where
  defined : ∀ a b, layers.Reads a b → b ∈ layers.names
  acyclic : ∀ name, ¬Relation.TransGen layers.Reads name name

section Merge

variable {layers : Dictionaries}

theorem declaration?_eq_none_iff {name : String} {layer : Layer} :
    layers.declaration? name layer = none ↔ name ∉ layers.namesOf layer := by
  rw [declaration?, List.find?_eq_none, namesOf, List.mem_map]
  constructor
  · rintro h ⟨d, hd, rfl⟩
    exact h d hd (by simp)
  · intro h d hd heq
    exact h ⟨d, hd, by simpa using heq⟩

theorem winner?_eq (name : String) :
    layers.winner? name =
      ((layers.declaration? name .inner).map (Layer.inner, ·)).or
        (((layers.declaration? name .derived).map (Layer.derived, ·)).or
          ((layers.declaration? name .data).map (Layer.data, ·))) := by
  simp only [winner?, List.findSome?_cons, List.findSome?_nil]
  cases layers.declaration? name .inner <;> cases layers.declaration? name .derived <;>
    cases layers.declaration? name .data <;> rfl

theorem winner?_isSome_iff {name : String} :
    (layers.winner? name).isSome = true ↔ name ∈ layers.names := by
  have hnone : ∀ layer, (layers.declaration? name layer).isSome = true ↔
      name ∈ layers.namesOf layer := by
    intro layer
    rw [← not_iff_not, ← declaration?_eq_none_iff]
    simp
  rw [winner?_eq, names, List.mem_append, List.mem_append, ← hnone, ← hnone, ← hnone]
  simp only [Option.isSome_or, Option.isSome_map, Bool.or_eq_true]
  tauto

/-- The field of a name is that of the declaration which counts for it. -/
theorem merge_get? {table : FieldTable} (h : layers.merge = .ok table) (name : String) :
    (∀ layer d, layers.winner? name = some (layer, d) →
      ∃ fieldType, FieldType.read d.dataType = .ok fieldType ∧
        table.get? name = some ⟨fieldType, fieldType.sourceType, layer, d.dependencies⟩) ∧
      (layers.winner? name = none → table.get? name = none) := by
  obtain ⟨data, derived, hdata, hderived, hinner⟩ := merge_ok h
  obtain ⟨hdata, hnodata⟩ := FieldTable.overlay_get? hdata name
  obtain ⟨hderived, hnoderived⟩ := FieldTable.overlay_get? hderived name
  obtain ⟨hinner, hnoinner⟩ := FieldTable.overlay_get? hinner name
  rw [winner?_eq]
  -- the first layer that declares the name, from the last one on
  cases hi : layers.declaration? name .inner with
  | some d =>
    refine ⟨?_, by simp⟩
    rintro _ _ ⟨⟩
    exact hinner d hi
  | none =>
    rw [hnoinner hi]
    cases hd : layers.declaration? name .derived with
    | some d =>
      refine ⟨?_, by simp⟩
      rintro _ _ ⟨⟩
      exact hderived d hd
    | none =>
      rw [hnoderived hd]
      cases hf : layers.declaration? name .data with
      | some d =>
        refine ⟨?_, by simp⟩
        rintro _ _ ⟨⟩
        exact hdata d hf
      | none => exact ⟨by simp, fun _ => hnodata hf⟩

theorem merge_keys {table : FieldTable} (h : layers.merge = .ok table) :
    table.keys = layers.names.eraseDups ∧ table.keys.Nodup := by
  obtain ⟨data, derived, hdata, hderived, hinner⟩ := merge_ok h
  have hempty : FieldTable.empty.keys = ([] : List String).eraseDups := rfl
  refine ⟨?_, ?_⟩
  · have hkeys := FieldTable.overlay_keys
      (FieldTable.overlay_keys (FieldTable.overlay_keys hempty hdata) hderived) hinner
    simpa [names, namesOf, declared] using hkeys
  · have hnodup : FieldTable.empty.keys.Nodup := List.nodup_nil
    exact FieldTable.overlay_nodup
      (FieldTable.overlay_nodup (FieldTable.overlay_nodup hnodup hdata) hderived) hinner

theorem exists_declaration? {name : String} {layer : Layer} (h : name ∈ layers.namesOf layer) :
    ∃ d, layers.declaration? name layer = some d := by
  cases hfind : layers.declaration? name layer with
  | none => exact absurd h (declaration?_eq_none_iff.mp hfind)
  | some d => exact ⟨d, rfl⟩

theorem Admissible.of_merge {table : FieldTable} (h : layers.merge = .ok table) :
    layers.Admissible := by
  obtain ⟨data, derived, hdata, hderived, hinner⟩ := merge_ok h
  obtain ⟨hdistinct1, hadmits1⟩ := FieldTable.overlay_ok_iff.mp ⟨_, hdata⟩
  obtain ⟨hdistinct2, hadmits2⟩ := FieldTable.overlay_ok_iff.mp ⟨_, hderived⟩
  obtain ⟨hdistinct3, hadmits3⟩ := FieldTable.overlay_ok_iff.mp ⟨_, hinner⟩
  -- a name of the data layer is there and may not be shadowed
  have hkept : ∀ name ∈ layers.namesOf .data, ∃ e, data.get? name = some e ∧ e.origin = .data := by
    intro name hname
    obtain ⟨d, hd⟩ := exists_declaration? hname
    obtain ⟨fieldType, -, hget⟩ := (FieldTable.overlay_get? hdata name).1 d hd
    exact ⟨_, hget, rfl⟩
  have hapart : ∀ name ∈ layers.namesOf .derived, name ∉ layers.namesOf .data := by
    intro name hname hclash
    obtain ⟨d, hd, rfl⟩ := List.mem_map.mp hname
    obtain ⟨e, hget, -⟩ := hkept _ hclash
    have := (hadmits2 d hd).2.free e hget
    simp [Layer.mayShadow] at this
  constructor
  · intro layer
    cases layer with
    | data => exact hdistinct1
    | derived => exact hdistinct2
    | inner => exact hdistinct3
  · intro layer hlayer
    cases layer with
    | data => exact absurd rfl hlayer
    | derived => exact hapart
    | inner =>
      intro name hname hclash
      obtain ⟨d, hd, rfl⟩ := List.mem_map.mp hname
      obtain ⟨e, hget, horigin⟩ := hkept _ hclash
      have hnone : layers.declaration? d.name .derived = none :=
        declaration?_eq_none_iff.mpr fun hmem => hapart _ hmem hclash
      rw [← (FieldTable.overlay_get? hderived d.name).2 hnone] at hget
      have := (hadmits3 d hd).2.free e hget
      simp [Layer.mayShadow, horigin] at this
  · intro layer
    cases layer with
    | data => exact fun d hd => (hadmits1 d hd).2.typed
    | derived => exact fun d hd => (hadmits2 d hd).2.typed
    | inner => exact fun d hd => (hadmits3 d hd).2.typed

theorem Admissible.exists_merge (h : layers.Admissible) : ∃ table, layers.merge = .ok table := by
  obtain ⟨data, hdata⟩ : ∃ data,
      FieldTable.empty.overlay .data [] (layers.declared .data) = .ok data := by
    refine FieldTable.overlay_ok_iff.mpr ⟨h.distinct .data, ?_⟩
    intro d hd
    refine ⟨by simp, ?_, h.typed .data d hd⟩
    intro e he
    cases he
  -- what a derived or local name finds in the first table
  have hnodata : ∀ layer, layer ≠ .data → ∀ name ∈ layers.namesOf layer, data.get? name = none := by
    intro layer hlayer name hname
    exact (FieldTable.overlay_get? hdata name).2
      (declaration?_eq_none_iff.mpr (h.apart layer hlayer name hname))
  obtain ⟨derived, hderived⟩ : ∃ derived,
      data.overlay .derived [] (layers.declared .derived) = .ok derived := by
    refine FieldTable.overlay_ok_iff.mpr ⟨h.distinct .derived, ?_⟩
    intro d hd
    refine ⟨by simp, ?_, h.typed .derived d hd⟩
    intro e he
    rw [hnodata .derived (by simp) d.name (List.mem_map_of_mem hd)] at he
    cases he
  obtain ⟨table, hinner⟩ : ∃ table,
      derived.overlay .inner [] (layers.declared .inner) = .ok table := by
    refine FieldTable.overlay_ok_iff.mpr ⟨h.distinct .inner, ?_⟩
    intro d hd
    refine ⟨by simp, ?_, h.typed .inner d hd⟩
    intro e he
    obtain ⟨hdeclared, hother⟩ := FieldTable.overlay_get? hderived d.name
    cases hfind : layers.declaration? d.name .derived with
    | some shadowed =>
      obtain ⟨fieldType, -, hget⟩ := hdeclared shadowed hfind
      rw [hget] at he
      cases he
      rfl
    | none =>
      rw [hother hfind, hnodata .inner (by simp) d.name (List.mem_map_of_mem hd)] at he
      cases he
  simp only [declared] at hdata hderived hinner
  exact ⟨table, by simp only [merge, bind, Except.bind, hdata, hderived, hinner]⟩

theorem merge_reads {table : FieldTable} (h : layers.merge = .ok table) :
    table.Reads = layers.Reads := by
  funext a b
  obtain ⟨hwinner, hnone⟩ := merge_get? h a
  refine propext ⟨?_, ?_⟩
  · rintro ⟨field, hfield, hmem⟩
    cases hw : layers.winner? a with
    | none =>
      rw [hnone hw] at hfield
      cases hfield
    | some winner =>
      obtain ⟨fieldType, -, hget⟩ := hwinner winner.1 winner.2 hw
      rw [hget] at hfield
      cases hfield
      exact ⟨winner.1, winner.2, hw, hmem⟩
  · rintro ⟨layer, d, hw, hmem⟩
    obtain ⟨fieldType, -, hget⟩ := hwinner layer d hw
    exact ⟨_, hget, hmem⟩

/-- The two searches of the merged table, said of the layers. -/
theorem searches_iff {table : FieldTable} (h : layers.merge = .ok table) :
    (table.undefined? table.entries = none ∧ ∃ search, table.checkCycles = .ok search) ↔
      (∀ a b, layers.Reads a b → b ∈ layers.names) ∧
        ∀ name, ¬Relation.TransGen layers.Reads name name := by
  obtain ⟨hkeys, hnodup⟩ := merge_keys h
  rw [FieldTable.undefined?_eq_none_iff hnodup, FieldTable.checkCycles_ok_iff hnodup,
    merge_reads h, hkeys]
  simp only [List.mem_eraseDups]

end Merge

/-- Layers are resolved exactly where they are well-formed. The names of the table are then those
declared, in the order in which each is declared first, and every name has the type, the layer and
the dependencies of the last layer that declares it. -/
theorem resolve_iff_wellFormed (layers : Dictionaries) :
    ((∃ table, layers.resolve = .ok table) ↔ layers.WellFormed) ∧
      ∀ table, layers.resolve = .ok table →
        table.keys = layers.names.eraseDups ∧
        ∀ name ∈ layers.names, ∃ layer d fieldType, layers.winner? name = some (layer, d) ∧
          FieldType.read d.dataType = .ok fieldType ∧
          table.get? name = some ⟨fieldType, fieldType.sourceType, layer, d.dependencies⟩ := by
  refine ⟨⟨?_, ?_⟩, ?_⟩
  · rintro ⟨table, hresolve⟩
    obtain ⟨hmerge, hdefined, hcycles⟩ := resolve_ok hresolve
    obtain ⟨hdefined, hacyclic⟩ := (searches_iff hmerge).mp ⟨hdefined, hcycles⟩
    exact ⟨.of_merge hmerge, hdefined, hacyclic⟩
  · intro hwell
    obtain ⟨table, hmerge⟩ := hwell.exists_merge
    obtain ⟨hdefined, search, hsearch⟩ :=
      (searches_iff hmerge).mpr ⟨hwell.defined, hwell.acyclic⟩
    exact ⟨table, by simp only [resolve, hmerge, hdefined, hsearch]⟩
  · intro table hresolve
    obtain ⟨hmerge, -, -⟩ := resolve_ok hresolve
    refine ⟨(merge_keys hmerge).1, ?_⟩
    intro name hname
    obtain ⟨⟨layer, d⟩, hw⟩ := Option.isSome_iff_exists.mp (winner?_isSome_iff.mpr hname)
    obtain ⟨fieldType, hread, hget⟩ := (merge_get? hmerge name).1 layer d hw
    exact ⟨layer, d, fieldType, hw, hread, hget⟩

/-- Two derived fields that read each other, and a local one in the place of the first. -/
def untangled (declared : String) : Dictionaries :=
  ⟨[⟨"zip", declared, []⟩],
    [⟨"region", declared, .field "town"⟩, ⟨"town", declared, .field "region"⟩],
    [⟨"region", declared, .field "zip"⟩]⟩

def untangledTable (type : FieldType) : FieldTable :=
  ⟨[("zip", ⟨type, type.sourceType, .data, []⟩),
    ("region", ⟨type, type.sourceType, .inner, ["zip"]⟩),
    ("town", ⟨type, type.sourceType, .derived, ["region"]⟩)]⟩

theorem untangled_resolve {declared : String} {type : FieldType}
    (hread : FieldType.read declared = .ok type) :
    (untangled declared).resolve = .ok (untangledTable type) := by
  have hmerge : (untangled declared).merge = .ok (untangledTable type) := by
    simp [merge, bind, Except.bind, untangled, Declaration.ofData, Declaration.ofDerived,
      DerivedField.dependencies, Expression.fields, Expression.noteFields, noteName,
      FieldTable.overlay, FieldTable.add, FieldTable.empty, FieldTable.get?, FieldTable.put,
      FieldTable.putEntry, hread, Layer.mayShadow, lookup_cons_ite, Option.filter, untangledTable]
  have hdefined : (untangledTable type).undefined? (untangledTable type).entries = none := rfl
  have hcycles : (untangledTable type).checkCycles = .ok ⟨[.done, .done, .done], []⟩ := by
    simp [FieldTable.checkCycles, FieldTable.size, FieldTable.visitAll, FieldTable.visit,
      show (untangledTable type).entries.length = 3 from rfl,
      show List.range 3 = [0, 1, 2] from rfl,
      show (untangledTable type).dependenciesAt 0 = [] from rfl,
      show (untangledTable type).dependenciesAt 1 = [0] from rfl,
      show (untangledTable type).dependenciesAt 2 = [1] from rfl,
      show (untangledTable type).entries.map (fun _ => FieldTable.Mark.unvisited) =
        [.unvisited, .unvisited, .unvisited] from rfl]
  simp only [resolve, hmerge, hdefined, hcycles]

/-- A cycle among declarations of which one does not count is no cycle, and is one without the
declaration that counts. -/
theorem resolve_iff_wellFormed_untangled :
    (untangled "text").resolve = .ok (untangledTable .text) ∧ (untangled "text").WellFormed ∧
      (untangledTable .text).keys = (untangled "text").names.eraseDups ∧
      ¬∃ table, { untangled "text" with locals := [] }.resolve = .ok table := by
  have hresolve := untangled_resolve FieldType.read_text
  obtain ⟨hiff, htable⟩ := resolve_iff_wellFormed (untangled "text")
  refine ⟨hresolve, hiff.mp ⟨_, hresolve⟩, (htable _ hresolve).1, ?_⟩
  rw [(resolve_iff_wellFormed _).1]
  intro hwell
  have hfirst : { untangled "text" with locals := [] }.Reads "region" "town" :=
    ⟨.derived, ⟨"region", "text", ["town"]⟩, by decide, by decide⟩
  have hsecond : { untangled "text" with locals := [] }.Reads "town" "region" :=
    ⟨.derived, ⟨"town", "text", ["region"]⟩, by decide, by decide⟩
  exact hwell.acyclic "region" (.head hfirst (.single hsecond))

end Dictionaries
end ScoringTree
