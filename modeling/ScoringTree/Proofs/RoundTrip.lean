import ScoringTree.Proofs.DocumentForm

/-!
# ScoringTree.Proofs.RoundTrip

Documents that were read from JSON text are read again from the text they are written as.

* `Document.settled_of_read?`
                             — the constants of a document that was read are settled.
* `Document.toJson_fits`     — so all numbers in its JSON form can be written.
* `Document.json_roundtrip`  — the round trip through text.
-/

namespace ScoringTree

open Readable

/-! ## What a document was read from -/

theorem mem_of_mapM {α β : Type} {f : α → Option β} {xs : List α} {ys : List β}
    (h : xs.mapM f = some ys) {y : β} (hy : y ∈ ys) : ∃ x ∈ xs, f x = some y := by
  induction xs generalizing ys with
  | nil =>
    obtain rfl : [] = ys := by simpa using h
    simp at hy
  | cons x xs ih =>
    simp only [List.mapM_cons, Option.bind_eq_bind, Option.bind_eq_some_iff] at h
    obtain ⟨z, hz, zs, hzs, h⟩ := h
    obtain rfl : z :: zs = ys := by simpa using h
    rcases List.mem_cons.mp hy with rfl | hy
    · exact ⟨x, List.mem_cons_self, hz⟩
    · obtain ⟨x', hx', hf⟩ := ih hzs hy
      exact ⟨x', List.mem_cons_of_mem _ hx', hf⟩

namespace Datum

theorem Fits.of_mem_items {items : List Datum} (h : (Datum.seq items).Fits) {d : Datum}
    (hd : d ∈ items) : d.Fits := by
  induction items with
  | nil => simp at hd
  | cons first rest ih =>
    obtain ⟨hfirst, hrest⟩ := List.forall_mem_append.mp h
    rcases List.mem_cons.mp hd with rfl | hd
    · exact hfirst
    · exact ih hrest hd

theorem Fits.of_mem_entries {entries : List (Datum × Datum)} (h : (Datum.map entries).Fits)
    {key d : Datum} (hd : (key, d) ∈ entries) : d.Fits := by
  induction entries with
  | nil => simp at hd
  | cons first rest ih =>
    obtain ⟨hfirst, hrest⟩ := List.forall_mem_append.mp h
    rcases List.mem_cons.mp hd with rfl | hd
    · exact (List.forall_mem_append.mp hfirst).2
    · exact ih hrest hd

/-- What a slot holds stood there before, or is the value of an entry. -/
theorem mem_fillSlots {names : List String} {entries : List (Datum × Datum)}
    {slots filled : List (Option Datum)} (h : fillSlots names slots entries = some filled)
    {d : Datum} (hd : some d ∈ filled) : some d ∈ slots ∨ ∃ key, (key, d) ∈ entries := by
  induction entries generalizing slots with
  | nil =>
    obtain rfl : slots = filled := by simpa [fillSlots] using h
    exact .inl hd
  | cons first rest ih =>
    obtain ⟨key, value⟩ := first
    rw [fillSlots] at h
    split at h
    · simp at h
    · rcases ih h with hslot | ⟨k, hk⟩
      · exact .inl hslot
      · exact .inr ⟨k, List.mem_cons_of_mem _ hk⟩
    · split at h
      · rcases ih h with hslot | ⟨k, hk⟩
        · rcases List.mem_or_eq_of_mem_set hslot with hslot | hslot
          · exact .inl hslot
          · obtain rfl : d = value := by simpa using hslot
            exact .inr ⟨key, List.mem_cons_self⟩
        · exact .inr ⟨k, List.mem_cons_of_mem _ hk⟩
      · simp at h

theorem Fits.of_mapSlots? {names : List String} {d part : Datum} {slots : List (Option Datum)}
    (hd : d.Fits) (h : mapSlots? names d = some slots) (hpart : some part ∈ slots) :
    part.Fits := by
  cases d with
  | map entries =>
    rcases mem_fillSlots h hpart with hslot | ⟨key, hentry⟩
    · simp at hslot
    · exact hd.of_mem_entries hentry
  | _ => simp [mapSlots?] at h

theorem Fits.of_slots? {names : List String} {d part : Datum} {slots : List (Option Datum)}
    (hd : d.Fits) (h : Datum.slots? names d = some slots) (hpart : some part ∈ slots) :
    part.Fits := by
  cases d with
  | seq items =>
    rw [Datum.slots?] at h
    split at h
    · obtain rfl := Option.some.inj h
      have hmem : part ∈ items := by simpa using hpart
      exact hd.of_mem_items hmem
    · simp at h
  | _ => exact hd.of_mapSlots? (show mapSlots? names _ = some slots from h) hpart

end Datum

/-- What is in a list was read from a datum that fits, if the list was. -/
theorem Readable.fits_of_list {α : Type} {read : Datum → Option α} {slot : Option Datum}
    {xs : List α} (hslot : ∀ d, slot = some d → d.Fits)
    (h : defaulted [] (list read) slot = some xs) {x : α} (hx : x ∈ xs) :
    ∃ d, d.Fits ∧ read d = some x := by
  cases slot with
  | none =>
    obtain rfl : [] = xs := by simpa [defaulted] using h
    simp at hx
  | some d =>
    simp only [defaulted, list, Option.bind_eq_bind, Option.bind_eq_some_iff] at h
    obtain ⟨items, hitems, h⟩ := h
    obtain ⟨part, hpart, hread⟩ := mem_of_mapM h hx
    cases d with
    | seq parts =>
      obtain rfl : parts = items := by simpa [items?, Datum.items?] using hitems
      exact ⟨part, (hslot _ rfl).of_mem_items hpart, hread⟩
    | _ => simp [items?, Datum.items?] at hitems

namespace Expression

theorem mem_constantsAll {v : Json} {es : List Expression} :
    v ∈ constantsAll es ↔ ∃ e ∈ es, v ∈ e.constants := by
  induction es with
  | nil => simp [constantsAll]
  | cons e es ih => simp [constantsAll, ih]

theorem settled_of_readWithin {fuel : Nat} {d : Datum} {e : Expression} (hd : d.Fits)
    (h : readWithin fuel d = some e) : ∀ v ∈ e.constants, v.Settled := by
  induction fuel generalizing d e with
  | zero => simp [readWithin] at h
  | succ fuel ih =>
    rw [readWithin] at h
    split at h
    · obtain rfl := Option.some.inj h
      simp [constants]
    · split at h
      · rename_i value hvalue
        obtain rfl := Option.some.inj h
        obtain ⟨slots, hslots, hvalue⟩ := Option.bind_eq_some_iff.mp hvalue
        split at hvalue
        · rename_i part
          have hpart : part.Fits := hd.of_mapSlots? hslots (by simp)
          simpa [constants] using Datum.settled_of_toJson? part value hpart hvalue
        · simp at hvalue
      · split at h
        · obtain rfl := Option.some.inj h
          simp [constants, constantsAll]
        · rename_i function arguments hslots
          obtain ⟨es, hes, rfl⟩ := Option.map_eq_some_iff.mp h
          obtain ⟨items, hitems, hes⟩ := Option.bind_eq_some_iff.mp hes
          have harguments : arguments.Fits := hd.of_mapSlots? hslots (by simp)
          intro v hv
          obtain ⟨e, he, hv⟩ := mem_constantsAll.mp hv
          obtain ⟨part, hpart, hread⟩ := mem_of_mapM hes he
          cases arguments with
          | seq parts =>
            obtain rfl : parts = items := by simpa [Datum.items?] using hitems
            exact ih (harguments.of_mem_items hpart) hread v hv
          | _ => simp [Datum.items?] at hitems
        · simp at h

end Expression

theorem Expression.settled_of_ofValue? {d : Datum} {e : Expression} (hd : d.Fits)
    (h : Expression.ofValue? d = some e) : ∀ v ∈ e.constants, v.Settled := by
  simp only [Expression.ofValue?, Option.bind_eq_bind, Option.bind_eq_some_iff] at h
  obtain ⟨kept, hkept, h⟩ := h
  obtain ⟨-, rfl⟩ : d.readable = true ∧ d = kept := by simpa [datum?] using hkept
  cases hread : Expression.read? d with
  | none => simp [hread, Fallible.ofOption, Fallible.fail] at h
  | some e' =>
    obtain rfl : e' = e := by simpa [hread, Fallible.ofOption] using h
    exact Expression.settled_of_readWithin hd hread

theorem DerivedField.settled_of_read? {d : Datum} {field : DerivedField} (hd : d.Fits)
    (h : DerivedField.read? d = some field) : ∀ v ∈ field.expression.constants, v.Settled := by
  simp only [DerivedField.read?, Option.bind_eq_bind, Option.bind_eq_some_iff] at h
  obtain ⟨slots, hslots, h⟩ := h
  split at h
  · rename_i name dataType slot
    simp only [Option.bind_eq_some_iff] at h
    obtain ⟨_, -, _, -, e, he, h⟩ := h
    obtain rfl := Option.some.inj h
    cases slot with
    | none => simp [required, Fallible.fail] at he
    | some part => exact Expression.settled_of_ofValue? (hd.of_slots? hslots (by simp)) he
  · simp [Fallible.fail] at h

theorem Settings.settled_of_read? {d : Datum} {settings : Settings} {root : Option NestedNode}
    (hd : d.Fits) (h : Settings.read? d = some (settings, root)) :
    ∀ field ∈ settings.locals, ∀ v ∈ field.expression.constants, v.Settled := by
  simp only [Settings.read?, Option.bind_eq_bind, Option.bind_eq_some_iff] at h
  obtain ⟨slots, hslots, h⟩ := h
  split at h
  · rename_i slot _ _ _
    simp only [Option.bind_eq_some_iff] at h
    obtain ⟨_, -, _, -, _, -, _, -, locals, hlocals, _, -, _, -, _, -, h⟩ := h
    obtain ⟨rfl, rfl⟩ := Prod.mk.inj (Option.some.inj h)
    intro field hfield
    obtain ⟨part, hpart, hread⟩ := fits_of_list
      (fun part hslot => hd.of_slots? hslots (by simp [hslot])) hlocals hfield
    exact DerivedField.settled_of_read? hpart hread
  · simp [Fallible.fail] at h

/-- The constants of a document that was read are settled. -/
theorem Document.settled_of_read? {d : Datum} {document : Document} (hd : d.Fits)
    (h : Document.read? d = some document) : ∀ v ∈ document.constants, v.Settled := by
  simp only [Document.read?, Option.bind_eq_bind, Option.bind_eq_some_iff] at h
  obtain ⟨slots, hslots, h⟩ := h
  split at h
  · rename_i data derived model
    simp only [Option.bind_eq_some_iff] at h
    obtain ⟨_, -, transformations, hderived, ⟨settings, root⟩, hmodel, h⟩ := h
    obtain rfl := Option.some.inj h
    intro v hv
    obtain ⟨field, hfield, hv⟩ := List.mem_flatMap.mp hv
    rcases List.mem_append.mp hfield with hfield | hfield
    · obtain ⟨part, hpart, hread⟩ := fits_of_list
        (fun part hslot => hd.of_slots? hslots (by simp [hslot])) hderived hfield
      exact DerivedField.settled_of_read? hpart hread v hv
    · cases model with
      | none => simp [required, Fallible.fail] at hmodel
      | some part =>
        exact Settings.settled_of_read? (hd.of_slots? hslots (by simp)) hmodel field hfield v hv
  · simp [Fallible.fail] at h

/-! ## The numbers of a document -/

namespace Json

@[simp] theorem fits_null : Fits .null := by simp [Fits, numbers]

@[simp] theorem fits_string (s : String) : Fits (.string s) := by simp [Fits, numbers]

@[simp] theorem fits_ofOption (value : Option String) : Fits (.ofOption value) := by
  cases value <;> simp [ofOption]

@[simp] theorem fits_ofFloat (x : Float) : Fits (.ofFloat x) := by
  simp [Fits, ofFloat, numbers, Quantity.Fits]

@[simp] theorem fits_ofFloat? (x : Option Float) : Fits (.ofFloat? x) := by
  cases x <;> simp [ofFloat?]

theorem fits_elim {α : Type} {write : α → Json} (h : ∀ x, (write x).Fits) (value : Option α) :
    Fits (value.elim .null write) := by
  cases value with
  | none => exact fits_null
  | some x => exact h x

@[simp] theorem fits_array {items : List Json} : Fits (.array items) ↔ ∀ v ∈ items, v.Fits := by
  simp only [Fits, numbers, mem_itemsNumbers]
  exact ⟨fun h v hv q hq => h q ⟨v, hv, hq⟩, fun h q ⟨v, hv, hq⟩ => h v hv q hq⟩

@[simp] theorem fits_object {members : List (String × Json)} :
    Fits (.object members) ↔ ∀ member ∈ members, member.2.Fits := by
  simp only [Fits, numbers, mem_membersNumbers]
  exact ⟨fun h m hm q hq => h q ⟨m, hm, hq⟩, fun h q ⟨m, hm, hq⟩ => h m hm q hq⟩

end Json

mutual

theorem Predicate.toJson_fits : ∀ p : Predicate, p.toJson.Fits
  | .simple field operator value => by cases value <;> simp [toJson]
  | .set field operator values => by simp [toJson]
  | .compound operator operands => by simpa [toJson] using Predicate.toJsonAll_fits operands
  | .always => by simp [toJson]
  | .never => by simp [toJson]

theorem Predicate.toJsonAll_fits : ∀ ps : List Predicate, ∀ v ∈ toJsonAll ps, v.Fits
  | [] => by simp [toJsonAll]
  | p :: ps => List.forall_mem_cons.mpr ⟨p.toJson_fits, Predicate.toJsonAll_fits ps⟩

end

mutual

theorem Expression.toJson_fits : ∀ e : Expression, (∀ v ∈ e.constants, v.Settled) → e.toJson.Fits
  | .field name, _ => by simp [toJson]
  | .constant value, h => by simpa [toJson] using (h value (by simp [constants])).fits
  | .apply function arguments, h => by simpa [toJson] using Expression.toJsonAll_fits arguments h

theorem Expression.toJsonAll_fits : ∀ es : List Expression,
    (∀ v ∈ constantsAll es, v.Settled) → ∀ v ∈ toJsonAll es, v.Fits
  | [], _ => by simp [toJsonAll]
  | e :: es, h => by
    obtain ⟨hfirst, hrest⟩ := List.forall_mem_append.mp h
    exact List.forall_mem_cons.mpr ⟨e.toJson_fits hfirst, Expression.toJsonAll_fits es hrest⟩

end

theorem DerivedField.toJson_fits {field : DerivedField}
    (h : ∀ v ∈ field.expression.constants, v.Settled) : field.toJson.Fits := by
  simp [toJson, field.expression.toJson_fits h]

theorem DataField.toJson_fits (field : DataField) : field.toJson.Fits := by
  simp only [toJson]
  split <;> simp

mutual

theorem NestedNode.toJson_fits : ∀ n : NestedNode, n.toJson.Fits
  | ⟨content, id, children⟩ => by
    have hpredicate := Json.fits_elim Predicate.toJson_fits content.predicate
    have hchildren := NestedNode.toJsonAll_fits children
    simpa [toJson_mk, Distribution.toJson, hpredicate] using hchildren

theorem NestedNode.toJsonAll_fits : ∀ ns : List NestedNode, ∀ v ∈ toJsonAll ns, v.Fits
  | [] => by simp [toJsonAll]
  | n :: ns => List.forall_mem_cons.mpr ⟨n.toJson_fits, NestedNode.toJsonAll_fits ns⟩

end

/-- Integers come into a document with its constants only. -/
theorem Document.toJson_fits {document : Document} (h : ∀ v ∈ document.constants, v.Settled) :
    document.toJson.Fits := by
  have hderived : ∀ field ∈ document.transformations ++ document.settings.locals,
      field.toJson.Fits := fun field hfield =>
    DerivedField.toJson_fits fun v hv => h v (List.mem_flatMap.mpr ⟨field, hfield, hv⟩)
  have hroot := Json.fits_elim NestedNode.toJson_fits document.root
  simpa [toJson_eq, modelJson, Settings.members, DataField.toJson_fits, MiningField.toJson, hroot]
    using List.forall_mem_append.mp hderived

/-! ## The round trip -/

/-- A document that was read from JSON text, whose JSON form nests no deeper than what can be read
and whose floats read back, is read again from the compact text of that form. -/
theorem Document.json_roundtrip {text : String} {document : Document}
    (h : Document.ofJson? text = some document)
    (hdepth : (Datum.ofJson document.toJson).depth ≤ Json.nestingLimit)
    (hfloats : ∀ x, Quantity.float x ∈ document.toJson.numbers → Number.ReadsBack x) :
    Document.ofJson? document.toJson.render = some document := by
  obtain ⟨d, hread, hdocument⟩ := Option.bind_eq_some_iff.mp h
  have hsettled := Document.settled_of_read? (Json.read_fits hread) hdocument
  have hlegible : ∀ q ∈ document.toJson.numbers, q.Legible := by
    intro q hq
    cases q with
    | integer z => exact Quantity.Fits.legible (Document.toJson_fits hsettled _ hq)
    | float x => exact (hfloats x hq).legible
  have hlimit : Json.nestingLimit ≤ documentDepth := by decide
  rw [Document.ofJson?, Json.read_render hdepth hlegible, Option.bind_some]
  exact Document.read?_toJson hsettled (hdepth.trans hlimit)

namespace Document

/-- A model in short form: records without names, numbers where text is wanted, keys out of
order. -/
def shorthand : Json :=
  .object [
    ("tree_model", .object [("model_name", .string "m"),
      ("node", .object [("record_count", .number (.float 1.5)), ("nodes", .array [
        .object [("id", .number (.integer 1)), ("score", .bool true),
          ("predicate", .object [("compound", .array [.string "or", .array [
            .object [("simple", .array [.string "x", .string "equal", .number (.integer 7)])],
            .object [("simple_set", .array [.string "x", .string "isIn", .array []])],
            .string "never"]])])]])])]),
    ("transformation_dictionary", .array [
      .array [.string "t", .string "double", .object [("apply", .string "max"),
        ("arguments", .array [.object [("constant", .object [
          ("b", .number (.integer (-3))), ("a", .string "\n")])]])]]])]

/-- What `shorthand` stands for. -/
def longhand : Document :=
  { dataDictionary := []
    transformations := [⟨"t", "double", .apply "max"
      [.constant (.object [("a", .string "\n"), ("b", .number (.integer (-3)))])]⟩]
    settings := Settings.named "m"
    root := some
      { predicate := none, score := none, recordCount := some 1.5, distributions := []
        defaultChild := none, id := none
        children := [
          { predicate := some (.compound .or
              [.simple "x" .equal (some "7"), .set "x" .isIn [], .never])
            score := some "true", recordCount := none, distributions := [], defaultChild := none
            id := some "1", children := [] }] } }

theorem legible_recordCount : (Quantity.float 1.5).Legible :=
  ⟨⟨false, ['1'], ['5'], none⟩, by decide +kernel, by decide +kernel⟩

theorem readsBack_longhand {x : Float} (h : Quantity.float x ∈ longhand.toJson.numbers) :
    Number.ReadsBack x := by
  have hnumbers : longhand.toJson.numbers = [.integer (-3), .float 1.5] := rfl
  obtain rfl : x = 1.5 := by simpa [hnumbers] using h
  exact Number.readsBack_of_legible legible_recordCount

theorem ofJson?_shorthand : Document.ofJson? shorthand.render = some longhand := by
  have hnumbers : shorthand.numbers = [.float 1.5, .integer 1, .integer 7, .integer (-3)] := rfl
  have hlegible : ∀ q ∈ shorthand.numbers, q.Legible := by
    intro q hq
    simp only [hnumbers, List.mem_cons, List.not_mem_nil, or_false] at hq
    rcases hq with rfl | rfl | rfl | rfl
    · exact legible_recordCount
    · exact Quantity.Fits.legible (by simp [Quantity.Fits])
    · exact Quantity.Fits.legible (by simp [Quantity.Fits])
    · exact Quantity.Fits.legible (by simp [Quantity.Fits])
  rw [Document.ofJson?, Json.read_render (by decide +kernel) hlegible]
  rfl

theorem json_roundtrip_shorthand :
    Document.ofJson? shorthand.render = some longhand ∧
      Document.ofJson? longhand.toJson.render = some longhand :=
  ⟨ofJson?_shorthand,
    json_roundtrip ofJson?_shorthand (by decide +kernel) fun _ => readsBack_longhand⟩

end Document

end ScoringTree
