import Mathlib.Data.List.Induction
import Mathlib.Data.List.Nodup
import Mathlib.Data.List.Pairwise
import ScoringTree.Proofs.FieldTypes
import ScoringTree.Source.Sources

/-!
# ScoringTree.Proofs.SourceIdentity

What the bytes behind a fingerprint tell of the sources.

The bytes are the names and sources in the order of names, each with a zero byte behind it and
without their lengths. Which units there are can be read off again as long as no name and no source
has a zero character in it; else the parts between zeros can be dealt out in more than one way.

* `Sources.ofInserts`      — the sources after units have been inserted one after the other.
* `Sources.lastSource?`    — the source that was inserted last for a name.
* `Sources.ofInserts_inj`  — only the last sources count, and not the order of insertion.
* `Sources.pieces`         — names and sources cut at zero characters.
* `Sources.identity_eq_iff`
                           — the bytes tell the pieces, and nothing else.
* `Sources.identity_separates`
                           — where no zero character is left, they tell the sources.
-/

namespace ScoringTree

/-! ## Bytes of a text -/

namespace Text

theorem toList_loop (bytes : ByteArray) (i : Nat) (front : List UInt8) :
    ByteArray.toList.loop bytes i front = front.reverse ++ bytes.data.toList.drop i := by
  rw [ByteArray.toList.loop]
  split
  · rename_i hlt
    have hbyte : bytes.get! i = bytes.data.toList[i] := by
      simp [ByteArray.get!, hlt]
    rw [toList_loop bytes (i + 1) (bytes.get! i :: front), hbyte, List.drop_eq_getElem_cons hlt]
    simp
  · rename_i hle
    rw [List.drop_eq_nil_of_le (by simpa using hle), List.append_nil]
termination_by bytes.size - i

theorem toList_toUTF8 (text : String) :
    text.toUTF8.toList = text.toList.flatMap String.utf8EncodeChar := by
  have hbytes : text.toUTF8 = (text.toList.flatMap String.utf8EncodeChar).toByteArray :=
    String.utf8Encode_toList.symm
  rw [ByteArray.toList, toList_loop, hbytes, List.toList_data_toByteArray]
  rfl

/-- The bytes of a text tell the text. -/
theorem flatMap_utf8EncodeChar_inj {cs ds : List Char} :
    cs.flatMap String.utf8EncodeChar = ds.flatMap String.utf8EncodeChar ↔ cs = ds := by
  rw [← List.toByteArray_inj, ← String.ofList_inj, ← String.toByteArray_inj,
    String.toByteArray_ofList, String.toByteArray_ofList]
  rfl

end Text

namespace Sources

/-! ## Inserting -/

/-- Names stand in their order, and each of them once. -/
def Sorted (units : List (String × String)) : Prop :=
  units.Pairwise fun a b => compare a.1 b.1 = .lt

theorem lookup_insertUnit (name source other : String) (units : List (String × String)) :
    (insertUnit name source units).lookup other =
      if other = name then some source else units.lookup other := by
  induction units with
  | nil => rw [insertUnit, lookup_cons_ite]
  | cons unit rest ih =>
    obtain ⟨n, s⟩ := unit
    rw [insertUnit]
    split
    · rw [lookup_cons_ite]
    · rename_i heq
      cases Std.LawfulEqOrd.eq_of_compare heq
      rw [lookup_cons_ite, lookup_cons_ite]
      split
      · rfl
      · rfl
    · rename_i hgt
      have hne : n ≠ name := by
        rintro rfl
        rw [Std.ReflOrd.compare_self] at hgt
        cases hgt
      rw [lookup_cons_ite, lookup_cons_ite, ih]
      by_cases h : other = n
      · simp [h, hne]
      · rw [if_neg h, if_neg h]

theorem mem_insertUnit {name source : String} {units : List (String × String)}
    {unit : String × String} (h : unit ∈ insertUnit name source units) :
    unit = (name, source) ∨ unit ∈ units := by
  induction units with
  | nil => exact .inl (List.mem_singleton.mp h)
  | cons first rest ih =>
    obtain ⟨n, s⟩ := first
    rw [insertUnit] at h
    split at h
    · exact List.mem_cons.mp h
    · rcases List.mem_cons.mp h with h | h
      · exact .inl h
      · exact .inr (List.mem_cons_of_mem _ h)
    · rcases List.mem_cons.mp h with rfl | h
      · exact .inr List.mem_cons_self
      · rcases ih h with h | h
        · exact .inl h
        · exact .inr (List.mem_cons_of_mem _ h)

theorem Sorted.insertUnit {units : List (String × String)} (h : Sorted units)
    (name source : String) : Sorted (insertUnit name source units) := by
  induction units with
  | nil => exact List.pairwise_singleton _ _
  | cons unit rest ih =>
    obtain ⟨n, s⟩ := unit
    obtain ⟨hfirst, hrest⟩ := List.pairwise_cons.mp h
    rw [Sources.insertUnit]
    split
    · rename_i hlt
      refine List.pairwise_cons.mpr ⟨?_, h⟩
      intro other hother
      rcases List.mem_cons.mp hother with rfl | hother
      · exact hlt
      · exact Std.TransCmp.lt_trans hlt (hfirst other hother)
    · rename_i heq
      cases Std.LawfulEqOrd.eq_of_compare heq
      exact List.pairwise_cons.mpr ⟨hfirst, hrest⟩
    · rename_i hgt
      refine List.pairwise_cons.mpr ⟨?_, ih hrest⟩
      intro other hother
      rcases mem_insertUnit hother with rfl | hother
      · exact Std.OrientedCmp.lt_of_gt hgt
      · exact hfirst other hother

theorem mem_iff_lookup {units : List (String × String)} (h : Sorted units) {name source : String} :
    (name, source) ∈ units ↔ units.lookup name = some source := by
  induction units with
  | nil => simp
  | cons unit rest ih =>
    obtain ⟨n, s⟩ := unit
    obtain ⟨hfirst, hrest⟩ := List.pairwise_cons.mp h
    rw [List.mem_cons, lookup_cons_ite, ih hrest]
    by_cases hname : name = n
    · -- the name does not come again behind its place
      subst hname
      have hnone : rest.lookup name ≠ some source := by
        intro hlater
        have := hfirst _ ((ih hrest).mpr hlater)
        rw [Std.ReflOrd.compare_self] at this
        cases this
      simp [hnone, eq_comm]
    · simp [hname]

/-- Sorted units are determined by what is found under each name. -/
theorem Sorted.ext {units others : List (String × String)} (h : Sorted units) (h' : Sorted others)
    (hsame : ∀ name, units.lookup name = others.lookup name) : units = others := by
  have hirrefl : ∀ {list : List (String × String)}, Sorted list → list.Nodup := by
    intro list hlist
    refine List.Pairwise.imp ?_ hlist
    rintro a _ hlt rfl
    rw [Std.ReflOrd.compare_self] at hlt
    cases hlt
  have hperm : units.Perm others := by
    refine (List.perm_ext_iff_of_nodup (hirrefl h) (hirrefl h')).mpr ?_
    rintro ⟨name, source⟩
    rw [mem_iff_lookup h, mem_iff_lookup h', hsame]
  refine hperm.eq_of_pairwise ?_ h h'
  intro a b _ _ hab hba
  have := Std.TransCmp.lt_trans hab hba
  rw [Std.ReflOrd.compare_self] at this
  cases this

/-- The sources after the units have been inserted in that order. -/
def ofInserts (calls : List (String × String)) : Sources :=
  calls.foldl (fun sources call => sources.insert call.1 call.2) empty

/-- The source that was inserted last for the name. -/
def lastSource? (calls : List (String × String)) (name : String) : Option String :=
  calls.reverse.lookup name

theorem sorted_ofInserts (calls : List (String × String)) : Sorted (ofInserts calls).units := by
  induction calls using List.reverseRecOn with
  | nil => exact List.Pairwise.nil
  | append_singleton front call ih =>
    rw [ofInserts, List.foldl_concat]
    exact ih.insertUnit call.1 call.2

theorem get?_ofInserts (calls : List (String × String)) (name : String) :
    (ofInserts calls).get? name = lastSource? calls name := by
  induction calls using List.reverseRecOn with
  | nil => rfl
  | append_singleton front call ih =>
    obtain ⟨key, source⟩ := call
    rw [lastSource?, List.reverse_concat, lookup_cons_ite, ← lastSource?, ← ih, ofInserts,
      List.foldl_concat]
    exact lookup_insertUnit key source name (ofInserts front).units

/-- The last source of each name counts, and the order of insertion does not. -/
theorem ofInserts_inj {first second : List (String × String)} :
    ofInserts first = ofInserts second ↔
      ∀ name, lastSource? first name = lastSource? second name := by
  simp only [← get?_ofInserts]
  constructor
  · intro h name
    rw [h]
  · intro h
    exact congrArg Sources.mk ((sorted_ofInserts first).ext (sorted_ofInserts second) h)

/-! ## The bytes -/

/-- Names and sources in order, each with a zero character behind it. -/
def written (sources : Sources) : List Char :=
  sources.units.flatMap fun unit =>
    unit.1.toList ++ '\x00' :: (unit.2.toList ++ '\x00' :: [])

/-- Names and sources in order, cut at the zero characters within them. -/
def pieces (sources : Sources) : List (List Char) :=
  sources.units.flatMap fun unit => unit.1.toList.splitOn '\x00' ++ unit.2.toList.splitOn '\x00'

theorem identity_eq (sources : Sources) :
    sources.identity = sources.written.flatMap String.utf8EncodeChar := by
  have hzero : String.utf8EncodeChar '\x00' = [0] := by decide
  rw [identity, written, List.flatMap_assoc]
  refine List.flatMap_congr fun unit _ => ?_
  rw [Text.toList_toUTF8, Text.toList_toUTF8]
  simp [hzero]

/-- Cutting at the zeros gives the pieces back, and an empty rest. -/
theorem splitOn_written (sources : Sources) :
    sources.written.splitOn '\x00' = sources.pieces ++ [[]] := by
  obtain ⟨units⟩ := sources
  simp only [written, pieces]
  induction units with
  | nil => rfl
  | cons unit rest ih =>
    rw [List.flatMap_cons, List.flatMap_cons, List.append_assoc, List.cons_append,
      List.splitOn_append_cons_self, List.append_assoc, List.cons_append, List.nil_append,
      List.splitOn_append_cons_self, ih]
    simp

/-- The bytes tell the pieces and nothing else. -/
theorem identity_eq_iff {first second : Sources} :
    first.identity = second.identity ↔ first.pieces = second.pieces := by
  rw [identity_eq, identity_eq, Text.flatMap_utf8EncodeChar_inj]
  constructor
  · intro h
    have := congrArg (List.splitOn '\x00') h
    rwa [splitOn_written, splitOn_written, List.append_left_inj] at this
  · intro h
    calc first.written
        = ['\x00'].intercalate (first.written.splitOn '\x00') :=
          (List.intercalate_splitOn _).symm
      _ = ['\x00'].intercalate (second.written.splitOn '\x00') := by
        rw [splitOn_written, splitOn_written, h]
      _ = second.written := List.intercalate_splitOn _

/-- No name and no source has a zero character in it. -/
def Clean (sources : Sources) : Prop :=
  ∀ unit ∈ sources.units, '\x00' ∉ unit.1.toList ∧ '\x00' ∉ unit.2.toList

instance (sources : Sources) : Decidable sources.Clean :=
  inferInstanceAs
    (Decidable (∀ unit ∈ sources.units, '\x00' ∉ unit.1.toList ∧ '\x00' ∉ unit.2.toList))

theorem Clean.pieces_eq {sources : Sources} (h : sources.Clean) :
    sources.pieces = sources.units.flatMap fun unit => [unit.1.toList, unit.2.toList] := by
  refine List.flatMap_congr fun unit hunit => ?_
  rw [List.splitOn_eq_singleton (h unit hunit).1, List.splitOn_eq_singleton (h unit hunit).2]
  rfl

theorem flatMap_toList_inj {units others : List (String × String)}
    (h : (units.flatMap fun unit => [unit.1.toList, unit.2.toList]) =
      others.flatMap fun unit => [unit.1.toList, unit.2.toList]) : units = others := by
  induction units generalizing others with
  | nil =>
    cases others with
    | nil => rfl
    | cons other rest => cases h
  | cons unit rest ih =>
    cases others with
    | nil => cases h
    | cons other rest' =>
      simp only [List.flatMap_cons, List.cons_append, List.nil_append, List.cons.injEq,
        String.toList_inj] at h
      rw [ih h.2.2, Prod.ext h.1 h.2.1]

/-- The bytes behind the fingerprint depend on nothing but the last source of each name. They tell
the names and sources cut at zero characters, so they tell the sources themselves if none of those
that are left has such a character. -/
theorem identity_separates (first second : List (String × String)) :
    ((ofInserts first).identity = (ofInserts second).identity ↔
      (ofInserts first).pieces = (ofInserts second).pieces) ∧
    ((∀ name, lastSource? first name = lastSource? second name) →
      (ofInserts first).identity = (ofInserts second).identity) ∧
    ((ofInserts first).Clean → (ofInserts second).Clean →
      ((ofInserts first).identity = (ofInserts second).identity ↔
        ∀ name, lastSource? first name = lastSource? second name)) := by
  refine ⟨identity_eq_iff, ?_, ?_⟩
  · intro h
    rw [ofInserts_inj.mpr h]
  · intro hfirst hsecond
    rw [← ofInserts_inj, identity_eq_iff]
    constructor
    · intro h
      rw [hfirst.pieces_eq, hsecond.pieces_eq] at h
      exact congrArg Sources.mk (flatMap_toList_inj h)
    · intro h
      rw [h]

/-- A source that is replaced may hold anything, and the units come in any order. -/
theorem identity_separates_replaced :
    (ofInserts [("b", "2"), ("a", "x\x00"), ("a", "1")]).Clean ∧
      (ofInserts [("a", "1"), ("b", "2")]).Clean ∧
      ∀ name, lastSource? [("b", "2"), ("a", "x\x00"), ("a", "1")] name =
        lastSource? [("a", "1"), ("b", "2")] name := by
  have hfirst : (ofInserts [("b", "2"), ("a", "x\x00"), ("a", "1")]).Clean := by decide +kernel
  have hsecond : (ofInserts [("a", "1"), ("b", "2")]).Clean := by decide +kernel
  have hbytes : (ofInserts [("b", "2"), ("a", "x\x00"), ("a", "1")]).identity =
      (ofInserts [("a", "1"), ("b", "2")]).identity := identity_eq_iff.mpr (by decide +kernel)
  exact ⟨hfirst, hsecond, ((identity_separates _ _).2.2 hfirst hsecond).mp hbytes⟩

/-- A zero character in a source can pass for the end of a name or source: one unit and two have the
same bytes. -/
theorem identity_collides :
    (ofInserts [("a", "b\x00c\x00d")]).identity = (ofInserts [("a", "b"), ("c", "d")]).identity ∧
      lastSource? [("a", "b\x00c\x00d")] "c" ≠ lastSource? [("a", "b"), ("c", "d")] "c" := by
  refine ⟨identity_eq_iff.mpr ?_, ?_⟩
  · decide +kernel
  · decide +kernel

end Sources

end ScoringTree
