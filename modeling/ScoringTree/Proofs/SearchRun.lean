import ScoringTree.Proofs.CycleSearch

/-!
# ScoringTree.Proofs.SearchRun

The search for cycles step by step, without a bound on its depth.

`FieldTable.visit` stops after a given number of fields on the way. Here the search is said as rules
that know no such number. Every search comes to an end by these rules, with the result of
`FieldTable.checkCycles`, and along all of it the fields in progress are those on the stack.

* `Searches`             — what searching through a list of positions comes to.
* `Searches.deterministic`, `visitAll_searches`
                         — it comes to one result, and the bounded search finds it.
* `Passes`               — the states that a search passes through.
* `Search.Sound`         — what holds in each of them.
* `checkCycles_reports`  — the search ends; it fails exactly on a cycle, and reports one.
-/

namespace ScoringTree
namespace FieldTable

namespace Search

/-- Nothing has been visited. -/
def start (table : FieldTable) : Search := ⟨table.entries.map fun _ => .unvisited, []⟩

/-- The field goes on the stack. -/
def enter (search : Search) (index : Nat) : Search :=
  ⟨search.marks.set index .inProgress, search.stack ++ [index]⟩

/-- The field is done, and the last one on the stack goes. -/
def leave (search : Search) (index : Nat) : Search :=
  ⟨search.marks.set index .done, search.stack.dropLast⟩

variable {table : FieldTable} {search other : Search} {index : Nat}

theorem Ahead.congr (h : search.Ahead table index) (hstack : other.stack = search.stack) :
    other.Ahead table index :=
  ⟨h.inside, hstack ▸ h.linked⟩

/-- A field that can be visited has a mark. -/
theorem Valid.exists_mark (h : search.Valid table) (hahead : search.Ahead table index) :
    ∃ mark, search.marks[index]? = some mark :=
  ⟨_, List.getElem?_eq_getElem (h.length_eq ▸ hahead.inside)⟩

end Search

/-! ## Searching without a bound -/

/-- Searching through a list of positions, one after the other, comes to a result. -/
inductive Searches (table : FieldTable) :
    Search → List Nat → Except ResolutionError Search → Prop where
  | nil {search : Search} : Searches table search [] (.ok search)
  | done {search : Search} {index : Nat} {rest : List Nat} {result : Except ResolutionError Search} :
      search.marks[index]? = some .done → Searches table search rest result →
      Searches table search (index :: rest) result
  | closes {search : Search} {index : Nat} {rest : List Nat} :
      search.marks[index]? = some .inProgress →
      Searches table search (index :: rest) (.error (table.cycleAt search.stack index))
  | fails {search : Search} {index : Nat} {rest : List Nat} {error : ResolutionError} :
      search.marks[index]? = some .unvisited →
      Searches table (search.enter index) (table.dependenciesAt index) (.error error) →
      Searches table search (index :: rest) (.error error)
  | leaves {search left : Search} {index : Nat} {rest : List Nat}
      {result : Except ResolutionError Search} :
      search.marks[index]? = some .unvisited →
      Searches table (search.enter index) (table.dependenciesAt index) (.ok left) →
      Searches table (left.leave index) rest result →
      Searches table search (index :: rest) result

/-- The mark of the first position decides which rule applies. -/
theorem Searches.deterministic {table : FieldTable} {search : Search} {indices : List Nat}
    {first second : Except ResolutionError Search} (h₁ : Searches table search indices first)
    (h₂ : Searches table search indices second) : first = second := by
  induction h₁ generalizing second with
  | nil =>
    cases h₂
    rfl
  | done hmark _ ih =>
    cases h₂ with
    | done _ h₂ => exact ih h₂
    | _ => simp_all
  | closes hmark =>
    cases h₂ with
    | closes _ => rfl
    | _ => simp_all
  | fails hmark _ ih =>
    cases h₂ with
    | fails _ h₂ => exact ih h₂
    | leaves _ h₂ _ => cases ih h₂
    | _ => simp_all
  | leaves hmark _ _ ih ih' =>
    cases h₂ with
    | fails _ h₂ => cases ih h₂
    | leaves _ h₂ h₂' =>
      cases ih h₂
      exact ih' h₂'
    | _ => simp_all

section Bounded

variable {table : FieldTable} (hkeys : table.keys.Nodup)

include hkeys

/-- What lies ahead of a field once it is on the stack. -/
theorem ahead_enter {search : Search} {index : Nat} :
    ∀ j ∈ table.dependenciesAt index, (search.enter index).Ahead table j := by
  intro j hj
  exact ⟨(Links.reads hkeys hj).2.1, by simpa [Search.enter, Links] using hj⟩

/-- With one field allowed for each that is not on the stack, the bound is never felt. -/
theorem visitAll_searches : ∀ (fuel : Nat) (indices : List Nat) (search : Search),
    search.Valid table → (∀ i ∈ indices, search.Ahead table i) →
    table.size < fuel + search.stack.length →
    Searches table search indices (table.visitAll fuel search indices) := by
  intro fuel
  induction fuel with
  | zero =>
    intro indices search hvalid _ hfuel
    have := hvalid.stack_length
    omega
  | succ fuel ih =>
    intro indices
    induction indices with
    | nil =>
      intro search _ _ _
      rw [visitAll]
      exact .nil
    | cons index rest ihrest =>
      intro search hvalid hahead hfuel
      have hfirst :=
        visit_settles hkeys (fuel + 1) search index hvalid (hahead index (by simp)) hfuel
      obtain ⟨mark, hmark⟩ := hvalid.exists_mark (hahead index (by simp))
      simp only [visitAll]
      simp only [visit, hmark] at hfirst ⊢
      cases mark with
      | done => exact .done hmark (ihrest search hvalid (fun i hi => hahead i (by simp [hi])) hfuel)
      | inProgress => exact .closes hmark
      | unvisited =>
        have hbelow := ih (table.dependenciesAt index) (search.enter index)
          (hvalid.enter (hahead index (by simp)) hmark) (ahead_enter hkeys)
          (by simp only [Search.enter, List.length_append, List.length_singleton]; omega)
        cases hvisits : table.visitAll fuel (search.enter index) (table.dependenciesAt index) with
        | error e =>
          rw [hvisits] at hbelow
          simp only [Search.enter] at hvisits
          simp only [hvisits]
          exact .fails hmark hbelow
        | ok left =>
          rw [hvisits] at hbelow
          simp only [Search.enter] at hvisits
          simp only [hvisits] at hfirst ⊢
          obtain ⟨hleft, hstack, -, -⟩ := hfirst
          refine .leaves hmark hbelow (ihrest (left.leave index) hleft ?_ ?_)
          · intro i hi
            exact (hahead i (by simp [hi])).congr hstack
          · rw [Search.leave, hstack]
            exact hfuel

/-- Whatever a search comes to, it is what the bounded search comes to. -/
theorem Searches.settles {search : Search} {indices : List Nat}
    {result : Except ResolutionError Search} (h : Searches table search indices result)
    (hvalid : search.Valid table) (hahead : ∀ i ∈ indices, search.Ahead table i) :
    table.Settles search indices result := by
  have hfuel : table.size < table.size + 1 + search.stack.length := by omega
  rw [h.deterministic (visitAll_searches hkeys _ indices search hvalid hahead hfuel)]
  exact visitAll_settles (visit_settles hkeys _) indices search hvalid hahead hfuel

end Bounded

/-! ## States on the way -/

/-- Searching through the first list of positions from the first state passes the second state, where
the second list is what the innermost visit has still to look at. -/
inductive Passes (table : FieldTable) : Search → List Nat → Search → List Nat → Prop where
  | here {search : Search} {indices : List Nat} : Passes table search indices search indices
  | past {search state : Search} {index : Nat} {rest ahead : List Nat} :
      search.marks[index]? = some .done → Passes table search rest state ahead →
      Passes table search (index :: rest) state ahead
  | within {search state : Search} {index : Nat} {rest ahead : List Nat} :
      search.marks[index]? = some .unvisited →
      Passes table (search.enter index) (table.dependenciesAt index) state ahead →
      Passes table search (index :: rest) state ahead
  | behind {search left state : Search} {index : Nat} {rest ahead : List Nat} :
      search.marks[index]? = some .unvisited →
      Searches table (search.enter index) (table.dependenciesAt index) (.ok left) →
      Passes table (left.leave index) rest state ahead →
      Passes table search (index :: rest) state ahead

/-- A field is in progress exactly if it is on the stack, and whatever is looked up is found: the
marks of the fields ahead, those in progress on the stack, and the names of all. -/
structure Search.Sound (table : FieldTable) (search : Search) (ahead : List Nat) : Prop where
  inProgress_iff : ∀ i, search.marks[i]? = some .inProgress ↔ i ∈ search.stack
  marked : ∀ i ∈ ahead, ∃ mark, search.marks[i]? = some mark
  found : ∀ i ∈ ahead, search.marks[i]? = some .inProgress →
    ∃ start, search.stack.idxOf? i = some start
  named : ∀ i, i ∈ search.stack ∨ i ∈ ahead → ∃ entry, table.entries[i]? = some entry

theorem Search.Valid.sound {table : FieldTable} {search : Search} {ahead : List Nat}
    (h : search.Valid table) (hahead : ∀ i ∈ ahead, search.Ahead table i) :
    search.Sound table ahead := by
  refine ⟨h.onStack, fun i hi => h.exists_mark (hahead i hi), ?_, ?_⟩
  · intro i _ hmark
    rw [← Option.isSome_iff_exists, List.isSome_idxOf?]
    exact (h.onStack i).mp hmark
  · rintro i (hi | hi)
    · exact exists_entry (h.stack_lt hi)
    · exact exists_entry (hahead i hi).inside

section Run

variable {table : FieldTable} (hkeys : table.keys.Nodup)

include hkeys

theorem Passes.valid {search state : Search} {indices ahead : List Nat}
    (h : Passes table search indices state ahead) (hvalid : search.Valid table)
    (hahead : ∀ i ∈ indices, search.Ahead table i) :
    state.Valid table ∧ ∀ i ∈ ahead, state.Ahead table i := by
  induction h with
  | here => exact ⟨hvalid, hahead⟩
  | past _ _ ih => exact ih hvalid fun i hi => hahead i (by simp [hi])
  | within hmark _ ih =>
    exact ih (hvalid.enter (hahead _ (by simp)) hmark) (ahead_enter hkeys)
  | @behind search left state index rest ahead hmark hbelow _ ih =>
    have hentered : (search.enter index).Valid table :=
      hvalid.enter (hahead index (by simp)) hmark
    obtain ⟨hleft, hstack, -, hdone⟩ := hbelow.settles hkeys hentered (ahead_enter hkeys)
    have hsame : (left.leave index).stack = search.stack := by
      simp [Search.leave, hstack, Search.enter]
    exact ih (hleft.leave hstack hdone) fun i hi => (hahead i (by simp [hi])).congr hsame

/-- The search for cycles in a table always ends. It fails exactly if a field depends on itself,
directly or through others, and then reports a way from a field back to it on which each field reads
the next and none comes twice. In every state that it passes the fields in progress are those on the
stack, so that nothing it looks up is missing. -/
theorem checkCycles_reports :
    (∀ result, Searches table (.start table) (List.range table.size) result ↔
      result = table.checkCycles) ∧
    ((∃ error, table.checkCycles = .error error) ↔
      ∃ name, Relation.TransGen table.Reads name name) ∧
    (∀ error, table.checkCycles = .error error → table.Circular error) ∧
    ∀ search ahead, Passes table (.start table) (List.range table.size) search ahead →
      search.Sound table ahead := by
  have hvalid : (Search.start table).Valid table := Search.valid_start table
  have hahead : ∀ i ∈ List.range table.size, (Search.start table).Ahead table i :=
    fun i hi => ⟨List.mem_range.mp hi, by simp [Search.start]⟩
  have hsearches : Searches table (.start table) (List.range table.size) table.checkCycles :=
    visitAll_searches hkeys (table.size + 1) _ _ hvalid hahead (by simp [Search.start])
  have hsettles := checkCycles_settles hkeys
  refine ⟨?_, ?_, ?_, ?_⟩
  · intro result
    constructor
    · intro h
      exact h.deterministic hsearches
    · rintro rfl
      exact hsearches
  · have hok := checkCycles_ok_iff hkeys
    cases hresult : table.checkCycles with
    | error error => simpa [hresult] using hok
    | ok search => simpa [hresult] using hok
  · intro error herror
    rw [herror] at hsettles
    exact hsettles
  · intro search ahead hpasses
    obtain ⟨hvalid', hahead'⟩ := hpasses.valid hkeys hvalid hahead
    exact hvalid'.sound hahead'

end Run

/-- The first field leads to a cycle of the two behind it. -/
def entangled : FieldTable :=
  ⟨[("a", ⟨.numeric, .double, .derived, ["d", "b"]⟩),
    ("b", ⟨.numeric, .double, .derived, ["d", "c"]⟩),
    ("c", ⟨.numeric, .double, .inner, ["b"]⟩), ("d", ⟨.numeric, .double, .data, []⟩)]⟩

theorem checkCycles_reports_entangled :
    entangled.keys.Nodup ∧
      entangled.Circular ⟨"b", .cycle ["b", "c", "b"]⟩ ∧
      Search.Sound entangled ⟨[.inProgress, .inProgress, .inProgress, .done], [0, 1, 2]⟩ [1] := by
  have hkeys : entangled.keys.Nodup := by decide
  have herror : entangled.checkCycles = .error ⟨"b", .cycle ["b", "c", "b"]⟩ := by
    simp [checkCycles, size, visitAll, visit, dependenciesAt, position?, entangled, cycleAt, nameAt,
      List.range, List.range.loop, List.findIdx?_cons, List.idxOf?_cons]
  -- The last field is done from the first one on, and the third one comes back to the second.
  have hpasses : Passes entangled (.start entangled) (List.range entangled.size)
      ⟨[.inProgress, .inProgress, .inProgress, .done], [0, 1, 2]⟩ [1] :=
    .within rfl (.behind rfl .nil (.within rfl (.past rfl (.within rfl .here))))
  obtain ⟨-, -, hcircular, hsound⟩ := checkCycles_reports hkeys
  exact ⟨hkeys, hcircular _ herror, hsound _ _ hpasses⟩

end FieldTable
end ScoringTree
