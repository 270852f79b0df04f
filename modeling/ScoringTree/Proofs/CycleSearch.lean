import Mathlib.Data.List.Chain
import Mathlib.Data.List.Nodup
import Mathlib.Data.List.Perm.Subperm
import Mathlib.Logic.Relation
import ScoringTree.Field.Resolution

/-!
# ScoringTree.Proofs.CycleSearch

The search for fields that depend on themselves.

* `FieldTable.Reads`     — the definition of one field reads another one.
* `FieldTable.Links`     — the same between the positions that the search goes through.
* `Search.Valid`         — what holds of marks and stack all along: the stack is a way through the
                           table and holds the fields in progress, and no cycle goes through a field
                           that is done.
* `FieldTable.Settles`   — what a search comes to: the fields are done, or a cycle is reported.
* `FieldTable.visit_settles`, `FieldTable.visitAll_settles`
                         — one visit, and a list of visits.
* `FieldTable.checkCycles_ok_iff`
                         — the search succeeds exactly where no field depends on itself.
-/

namespace ScoringTree
namespace FieldTable

/-- The definition of the first field reads the second. -/
def Reads (table : FieldTable) (a b : String) : Prop :=
  ∃ field, table.get? a = some field ∧ b ∈ field.dependencies

/-- The field at the first position reads the one at the second. -/
def Links (table : FieldTable) (i j : Nat) : Prop := j ∈ table.dependenciesAt i

/-! ## Names and positions -/

section Positions

variable {table : FieldTable}

theorem nameAt_eq {i : Nat} {entry : String × ResolvedField} (h : table.entries[i]? = some entry) :
    table.nameAt i = entry.1 := by
  simp [nameAt, h]

theorem exists_entry {i : Nat} (h : i < table.size) : ∃ entry, table.entries[i]? = some entry :=
  ⟨_, List.getElem?_eq_getElem h⟩

theorem position?_some {name : String} {i : Nat} (h : table.position? name = some i) :
    i < table.size ∧ table.nameAt i = name := by
  obtain ⟨hlt, hname, -⟩ := List.findIdx?_eq_some_iff_getElem.mp h
  refine ⟨hlt, ?_⟩
  rw [nameAt_eq (List.getElem?_eq_getElem hlt)]
  simpa using hname

theorem lookup_isSome_iff {name : String} {entries : List (String × ResolvedField)} :
    (entries.lookup name).isSome = true ↔ name ∈ entries.map (·.1) := by
  induction entries with
  | nil => simp
  | cons entry rest ih =>
    rw [List.lookup_cons, List.map_cons, List.mem_cons]
    by_cases h : name = entry.1
    · simp [h]
    · have hne : (name == entry.1) = false := by simpa using h
      simp [hne, h, ih]

theorem lookup_of_mem {entries : List (String × ResolvedField)}
    (hkeys : (entries.map (·.1)).Nodup) {entry : String × ResolvedField} (h : entry ∈ entries) :
    entries.lookup entry.1 = some entry.2 := by
  induction entries with
  | nil => cases h
  | cons first rest ih =>
    rw [List.map_cons, List.nodup_cons] at hkeys
    rw [List.lookup_cons]
    rcases List.mem_cons.mp h with rfl | hmem
    · simp
    · have hne : (entry.1 == first.1) = false := by
        rw [beq_eq_false_iff_ne]
        intro heq
        exact hkeys.1 (heq ▸ List.mem_map_of_mem hmem)
      rw [hne]
      exact ih hkeys.2 hmem

theorem mem_keys_iff {name : String} : name ∈ table.keys ↔ (table.get? name).isSome = true :=
  lookup_isSome_iff.symm

theorem exists_position {name : String} (h : name ∈ table.keys) :
    ∃ i, table.position? name = some i := by
  obtain ⟨entry, hentry, rfl⟩ := List.mem_map.mp h
  rw [← Option.isSome_iff_exists, position?, List.findIdx?_isSome, List.any_eq_true]
  exact ⟨entry, hentry, by simp⟩

variable (hkeys : table.keys.Nodup)

include hkeys

theorem nameAt_inj {i j : Nat} (hi : i < table.size) (hj : j < table.size)
    (h : table.nameAt i = table.nameAt j) : i = j := by
  obtain ⟨a, ha⟩ := exists_entry hi
  obtain ⟨b, hb⟩ := exists_entry hj
  rw [nameAt_eq ha, nameAt_eq hb] at h
  have hi' : table.keys[i]? = some a.1 := by simp [keys, ha]
  have hj' : table.keys[j]? = some a.1 := by simp [keys, hb, h]
  exact (List.getElem?_inj (by simpa [keys, size] using hi) hkeys).mp (hi'.trans hj'.symm)

theorem get?_nameAt {i : Nat} {entry : String × ResolvedField}
    (h : table.entries[i]? = some entry) : table.get? (table.nameAt i) = some entry.2 := by
  rw [nameAt_eq h]
  exact lookup_of_mem hkeys (List.mem_of_getElem? h)

theorem Links.reads {i j : Nat} (h : table.Links i j) :
    i < table.size ∧ j < table.size ∧ table.Reads (table.nameAt i) (table.nameAt j) := by
  simp only [Links, dependenciesAt] at h
  split at h
  · rename_i entry hentry
    obtain ⟨name, hname, hposition⟩ := List.mem_filterMap.mp h
    obtain ⟨hj, rfl⟩ := position?_some hposition
    exact ⟨(List.getElem?_eq_some_iff.mp hentry).1, hj, entry.2, get?_nameAt hkeys hentry, hname⟩
  · cases h

theorem Reads.links {a b : String} (h : table.Reads a b) {i j : Nat}
    (hi : table.position? a = some i) (hj : table.position? b = some j) : table.Links i j := by
  obtain ⟨field, hfield, hmem⟩ := h
  obtain ⟨hlt, rfl⟩ := position?_some hi
  obtain ⟨entry, hentry⟩ := exists_entry hlt
  rw [get?_nameAt hkeys hentry] at hfield
  cases hfield
  simp only [Links, dependenciesAt, hentry, List.mem_filterMap]
  exact ⟨b, hmem, hj⟩

omit hkeys in
theorem Reads.mem_keys {a b : String} (h : table.Reads a b) : a ∈ table.keys := by
  obtain ⟨field, hfield, -⟩ := h
  simp [mem_keys_iff, hfield]

/-- A field that depends on itself stands at a position from which the links lead back. -/
theorem links_of_reads {a c : String} (h : Relation.TransGen table.Reads a c) {k : Nat}
    (hk : table.position? c = some k) :
    ∃ i, table.position? a = some i ∧ Relation.TransGen table.Links i k := by
  induction h using Relation.TransGen.head_induction_on with
  | single hread =>
    obtain ⟨i, hi⟩ := exists_position hread.mem_keys
    exact ⟨i, hi, .single (hread.links hkeys hi hk)⟩
  | head hread _ ih =>
    obtain ⟨i, hi⟩ := exists_position hread.mem_keys
    obtain ⟨j, hj, hrest⟩ := ih
    exact ⟨i, hi, .head (hread.links hkeys hi hj) hrest⟩

end Positions

/-! ## What holds all along -/

namespace Search

/-- What holds of the marks and the stack all along. -/
structure Valid (table : FieldTable) (search : Search) : Prop where
  length_eq : search.marks.length = table.size
  onStack : ∀ i, search.marks[i]? = some .inProgress ↔ i ∈ search.stack
  nodup : search.stack.Nodup
  chain : search.stack.IsChain table.Links
  closed : ∀ i j, search.marks[i]? = some .done → table.Links i j →
    search.marks[j]? = some .done
  acyclic : ∀ i, search.marks[i]? = some .done → ¬Relation.TransGen table.Links i i

/-- The field can be visited next: it is there, and the last one on the stack reads it. -/
structure Ahead (table : FieldTable) (search : Search) (index : Nat) : Prop where
  inside : index < table.size
  linked : ∀ last ∈ search.stack.getLast?, table.Links last index

variable {table : FieldTable} {search : Search}

theorem valid_start (table : FieldTable) :
    Valid table ⟨table.entries.map fun _ => .unvisited, []⟩ := by
  have hmark : ∀ (i : Nat) (mark : Mark), mark ≠ .unvisited →
      (table.entries.map fun _ => Mark.unvisited)[i]? ≠ some mark := by
    intro i mark hne
    rw [List.getElem?_map]
    cases table.entries[i]? with
    | none => simp
    | some entry => simpa using hne.symm
  refine ⟨by simp [size], ?_, .nil, .nil, ?_, ?_⟩
  · intro i
    simpa using hmark i .inProgress (by simp)
  · intro i j hdone
    exact absurd hdone (hmark i .done (by simp))
  · intro i hdone
    exact absurd hdone (hmark i .done (by simp))

theorem Valid.stack_lt (h : search.Valid table) {i : Nat} (hi : i ∈ search.stack) :
    i < table.size := by
  rw [← h.length_eq]
  exact (List.getElem?_eq_some_iff.mp ((h.onStack i).mpr hi)).1

/-- No field is on the stack twice, so the stack is no longer than the table. -/
theorem Valid.stack_length (h : search.Valid table) : search.stack.length ≤ table.size := by
  have hsub : search.stack ⊆ List.range table.size := by
    intro i hi
    exact List.mem_range.mpr (h.stack_lt hi)
  simpa using (List.subperm_of_subset h.nodup hsub).length_le

/-- What is done stays apart from what is in progress, however far the links lead. -/
theorem Valid.done_of_reaches (h : search.Valid table) {i j : Nat}
    (hi : search.marks[i]? = some .done) (hreach : Relation.ReflTransGen table.Links i j) :
    search.marks[j]? = some .done := by
  induction hreach with
  | refl => exact hi
  | tail _ hlink ih => exact h.closed _ _ ih hlink

/-- A field that has not been visited goes on the stack. -/
theorem Valid.enter (h : search.Valid table) {index : Nat} (hahead : search.Ahead table index)
    (hmark : search.marks[index]? = some .unvisited) :
    Valid table ⟨search.marks.set index .inProgress, search.stack ++ [index]⟩ := by
  have hlt : index < search.marks.length := (List.getElem?_eq_some_iff.mp hmark).1
  have hnew : index ∉ search.stack := by
    rw [← h.onStack, hmark]
    simp
  have hdone : ∀ i : Nat, (search.marks.set index .inProgress)[i]? = some Mark.done ↔
      search.marks[i]? = some Mark.done := by
    intro i
    rw [List.getElem?_set]
    by_cases hi : index = i
    · subst hi
      rw [if_pos rfl, if_pos hlt, hmark]
      simp
    · simp [hi]
  refine ⟨by simpa using h.length_eq, ?_, ?_, ?_, ?_, ?_⟩
  · intro i
    rw [List.getElem?_set, List.mem_append, List.mem_singleton, ← h.onStack]
    by_cases hi : index = i
    · subst hi
      simp [hlt]
    · simp [hi, Ne.symm hi]
  · rw [List.nodup_append]
    refine ⟨h.nodup, List.nodup_singleton _, ?_⟩
    intro a ha b hb
    rw [List.mem_singleton.mp hb]
    exact fun heq => hnew (heq ▸ ha)
  · rw [List.isChain_append]
    refine ⟨h.chain, .singleton _, ?_⟩
    intro last hlast next hnext
    simp only [List.head?_cons, Option.mem_some_iff] at hnext
    exact hnext ▸ hahead.linked last hlast
  · intro i j hi hlink
    rw [hdone] at hi ⊢
    exact h.closed i j hi hlink
  · intro i hi
    exact h.acyclic i ((hdone i).mp hi)

/-- A field all of whose dependencies are done leaves the stack and is done. -/
theorem Valid.leave {stack : List Nat} {index : Nat} (h : search.Valid table)
    (hstack : search.stack = stack ++ [index])
    (hbelow : ∀ j, table.Links index j → search.marks[j]? = some .done) :
    Valid table ⟨search.marks.set index .done, search.stack.dropLast⟩ := by
  have hnodup := h.nodup
  have hchain := h.chain
  rw [hstack, List.nodup_append] at hnodup
  rw [hstack, List.isChain_append] at hchain
  have hmark : search.marks[index]? = some .inProgress := by
    rw [h.onStack, hstack]
    simp
  have hlt : index < search.marks.length := (List.getElem?_eq_some_iff.mp hmark).1
  have hdone : ∀ i : Nat, (search.marks.set index .done)[i]? = some Mark.done ↔
      i = index ∨ search.marks[i]? = some Mark.done := by
    intro i
    rw [List.getElem?_set]
    by_cases hi : index = i
    · subst hi
      simp [hlt]
    · simp [hi, Ne.symm hi]
  simp only [hstack, List.dropLast_concat]
  refine ⟨by simpa using h.length_eq, ?_, hnodup.1, hchain.1, ?_, ?_⟩
  · intro i
    rw [List.getElem?_set]
    by_cases hi : index = i
    · subst hi
      have hnot : index ∉ stack := fun hmem => hnodup.2.2 _ hmem _ (by simp) rfl
      simp [hlt, hnot]
    · rw [if_neg hi, h.onStack, hstack]
      simp [Ne.symm hi]
  · intro i j hi hlink
    rw [hdone] at hi ⊢
    rcases hi with rfl | hi
    · exact Or.inr (hbelow j hlink)
    · exact Or.inr (h.closed i j hi hlink)
  · intro i hi hcycle
    rcases (hdone i).mp hi with rfl | hi
    · -- the cycle goes on to a field that is done, and so could not come back
      obtain ⟨j, hlink, hback⟩ := Relation.TransGen.head'_iff.mp hcycle
      have := h.done_of_reaches (hbelow j hlink) hback
      rw [hmark] at this
      cases this
    · exact h.acyclic i hi hcycle

end Search

/-! ## What a search comes to -/

/-- The error reports a cycle: the names lead from the field back to it, without another repetition,
and each of them reads the next. -/
def Circular (table : FieldTable) (error : ResolutionError) : Prop :=
  ∃ others, error.fault = .cycle (error.field :: others ++ [error.field]) ∧
    (error.field :: others).Nodup ∧
    (error.field :: others ++ [error.field]).IsChain table.Reads

/-- What a search through some fields comes to: they are done and all else that was done still is,
with the stack as before, or a cycle is reported. -/
def Settles (table : FieldTable) (search : Search) (indices : List Nat) :
    Except ResolutionError Search → Prop
  | .ok left => left.Valid table ∧ left.stack = search.stack ∧
      (∀ i : Nat, search.marks[i]? = some Mark.done → left.marks[i]? = some Mark.done) ∧
      ∀ i ∈ indices, left.marks[i]? = some Mark.done
  | .error error => table.Circular error

section Visits

variable {table : FieldTable}

theorem Circular.transGen {error : ResolutionError} (h : table.Circular error) :
    Relation.TransGen table.Reads error.field error.field := by
  obtain ⟨others, -, -, hchain⟩ := h
  obtain ⟨hway, -, hback⟩ := List.isChain_append.mp hchain
  refine .tail' (List.relationReflTransGen_of_exists_isChain_cons others hway rfl) ?_
  exact hback _ (List.getLast?_eq_getLast_of_ne_nil _) _ rfl

/-- To come back to a field in progress closes a cycle, which is the end of the stack. -/
theorem cycleAt_circular (hkeys : table.keys.Nodup) {search : Search} (h : search.Valid table)
    {index : Nat} (hahead : search.Ahead table index)
    (hmark : search.marks[index]? = some .inProgress) :
    table.Circular (table.cycleAt search.stack index) := by
  have hmem : index ∈ search.stack := (h.onStack index).mp hmark
  obtain ⟨start, hstart⟩ : ∃ start, search.stack.idxOf? index = some start := by
    cases hfind : search.stack.idxOf? index with
    | none => exact absurd hmem (List.idxOf?_eq_none_iff.mp hfind)
    | some start => exact ⟨start, rfl⟩
  obtain ⟨hlt, hat, -⟩ := List.idxOf?_eq_some_iff.mp hstart
  have hdrop : search.stack.drop start = index :: search.stack.drop (start + 1) := by
    rw [List.drop_eq_getElem_cons hlt, hat]
  have hends : (index :: search.stack.drop (start + 1)).getLast? = search.stack.getLast? := by
    rw [← hdrop, List.getLast?_drop, if_neg (by omega)]
  have hnodup : (index :: search.stack.drop (start + 1)).Nodup :=
    hdrop ▸ h.nodup.sublist (List.drop_sublist _ _)
  have hchain : (index :: search.stack.drop (start + 1) ++ [index]).IsChain table.Links := by
    rw [List.isChain_append]
    refine ⟨hdrop ▸ h.chain.drop start, .singleton _, ?_⟩
    intro last hlast next hnext
    simp only [List.head?_cons, Option.mem_some_iff] at hnext
    rw [hends] at hlast
    exact hnext ▸ hahead.linked last hlast
  have hinside : ∀ i ∈ index :: search.stack.drop (start + 1), i < table.size := by
    intro i hi
    rw [← hdrop] at hi
    exact h.stack_lt (List.mem_of_mem_drop hi)
  refine ⟨(search.stack.drop (start + 1)).map table.nameAt, ?_, ?_, ?_⟩
  · simp [cycleAt, hstart, hdrop]
  · have := hnodup.map_on fun i hi j hj => nameAt_inj hkeys (hinside i hi) (hinside j hj)
    simpa [cycleAt] using this
  · have := (List.isChain_map table.nameAt).mpr (hchain.imp fun i j hij => (hij.reads hkeys).2.2)
    simpa [cycleAt] using this

/-- A list of visits, from what one of them comes to. -/
theorem visitAll_settles {fuel : Nat}
    (hvisit : ∀ (search : Search) (index : Nat), search.Valid table → search.Ahead table index →
      table.size < fuel + search.stack.length →
      table.Settles search [index] (table.visit fuel search index)) :
    ∀ (indices : List Nat) (search : Search), search.Valid table →
      (∀ i ∈ indices, search.Ahead table i) → table.size < fuel + search.stack.length →
      table.Settles search indices (table.visitAll fuel search indices) := by
  intro indices
  induction indices with
  | nil =>
    intro search hvalid _ _
    rw [visitAll]
    exact ⟨hvalid, rfl, fun _ hi => hi, by simp⟩
  | cons index rest ih =>
    intro search hvalid hahead hfuel
    have hfirst := hvisit search index hvalid (hahead index (by simp)) hfuel
    simp only [visitAll]
    cases hstep : table.visit fuel search index with
    | error e =>
      rw [hstep] at hfirst
      exact hfirst
    | ok left =>
      rw [hstep] at hfirst
      obtain ⟨hleft, hstack, hkeeps, hdone⟩ := hfirst
      have hrest := ih left hleft
        (fun i hi => ⟨(hahead i (by simp [hi])).inside,
          hstack ▸ (hahead i (by simp [hi])).linked⟩) (by rw [hstack]; exact hfuel)
      dsimp only
      cases hothers : table.visitAll fuel left rest with
      | error e =>
        rw [hothers] at hrest
        exact hrest
      | ok last =>
        rw [hothers] at hrest
        obtain ⟨hlast, hstack', hkeeps', hdone'⟩ := hrest
        refine ⟨hlast, hstack'.trans hstack, fun i hi => hkeeps' i (hkeeps i hi), ?_⟩
        intro i hi
        rcases List.mem_cons.mp hi with rfl | hi
        · exact hkeeps' i (hdone i (by simp))
        · exact hdone' i hi

variable (hkeys : table.keys.Nodup)

include hkeys

/-- One visit. The number bounds the way that is still left, which the stack shortens. -/
theorem visit_settles : ∀ fuel (search : Search) (index : Nat), search.Valid table →
    search.Ahead table index → table.size < fuel + search.stack.length →
    table.Settles search [index] (table.visit fuel search index) := by
  intro fuel
  induction fuel with
  | zero =>
    intro search index hvalid _ hfuel
    have := hvalid.stack_length
    omega
  | succ fuel ih =>
    intro search index hvalid hahead hfuel
    have hlt : index < search.marks.length := by
      rw [hvalid.length_eq]
      exact hahead.inside
    obtain ⟨mark, hmark⟩ : ∃ mark, search.marks[index]? = some mark :=
      ⟨_, List.getElem?_eq_getElem hlt⟩
    simp only [visit, hmark]
    cases mark with
    | done => exact ⟨hvalid, rfl, fun _ hi => hi, by simpa using hmark⟩
    | inProgress => exact cycleAt_circular hkeys hvalid hahead hmark
    | unvisited =>
      have hentered := hvalid.enter hahead hmark
      have hbelow := visitAll_settles ih (table.dependenciesAt index) _ hentered
        (fun j hj => ⟨(Links.reads hkeys hj).2.1, by simpa [Links] using hj⟩)
        (by simp only [List.length_append, List.length_singleton]; omega)
      dsimp only
      cases hvisits : table.visitAll fuel
          ⟨search.marks.set index .inProgress, search.stack ++ [index]⟩
          (table.dependenciesAt index) with
      | error e =>
        rw [hvisits] at hbelow
        exact hbelow
      | ok left =>
        rw [hvisits] at hbelow
        obtain ⟨hleft, hstack, hkeeps, hdone⟩ := hbelow
        have hlength : index < left.marks.length := by
          rw [hleft.length_eq]
          exact hahead.inside
        refine ⟨hleft.leave hstack hdone, by simp [hstack], ?_, ?_⟩
        · intro i hi
          have hne : index ≠ i := by
            rintro rfl
            rw [hmark] at hi
            cases hi
          have hstill : (search.marks.set index .inProgress)[i]? = some .done := by
            simpa [List.getElem?_set, hne] using hi
          simpa [List.getElem?_set, hne] using hkeeps i hstill
        · intro i hi
          rw [List.mem_singleton.mp hi]
          simp [hlength]

theorem checkCycles_settles :
    table.Settles ⟨table.entries.map fun _ => .unvisited, []⟩ (List.range table.size)
      table.checkCycles := by
  refine visitAll_settles (visit_settles hkeys _) _ _ (Search.valid_start table) ?_ (by simp)
  intro i hi
  exact ⟨List.mem_range.mp hi, by simp⟩

/-- The search succeeds exactly where no field depends on itself. -/
theorem checkCycles_ok_iff :
    (∃ search, table.checkCycles = .ok search) ↔
      ∀ name, ¬Relation.TransGen table.Reads name name := by
  have hsettles := checkCycles_settles hkeys
  cases hsearch : table.checkCycles with
  | error e =>
    rw [hsearch] at hsettles
    refine ⟨?_, ?_⟩
    · rintro ⟨search, h⟩
      cases h
    · intro hacyclic
      exact absurd (Circular.transGen hsettles) (hacyclic e.field)
  | ok search =>
    rw [hsearch] at hsettles
    obtain ⟨hvalid, -, -, hdone⟩ := hsettles
    refine ⟨?_, fun _ => ⟨search, rfl⟩⟩
    intro _ name hcycle
    obtain ⟨next, hread, -⟩ := Relation.TransGen.head'_iff.mp hcycle
    obtain ⟨k, hk⟩ := exists_position hread.mem_keys
    obtain ⟨i, hi, hlinks⟩ := links_of_reads hkeys hcycle hk
    rw [hk] at hi
    cases hi
    exact hvalid.acyclic k (hdone k (List.mem_range.mpr (position?_some hk).1)) hlinks

end Visits

end FieldTable
end ScoringTree
