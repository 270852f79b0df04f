import ScoringTree.Source.Skeleton

/-!
# ScoringTree.Proofs.ClassNames

The class names that units are given.

A name is made of the words of the model name. While it is taken, a suffix is appended: first by the
names that every unit uses, then by those that the skeleton imports. No name that every unit uses
ends in the suffix, so the second round cannot undo the first.

* `suffixed`            — a name with that many suffixes.
* `Settles`             — the loop that appends suffixes, started with a name, ends with another.
* `settles_iff`         — it always ends, and with `avoidClash`.
* `Skeleton.Admits`     — a name that a class of the skeleton can have.
* `Skeleton.bind_admitted`
                        — the class of a unit has such a name.
-/

namespace ScoringTree

/-! ## Results -/

theorem bind_ok {ε α β : Type} {first : Except ε α} {next : α → Except ε β} {b : β}
    (h : (first >>= next) = .ok b) : ∃ a, first = .ok a ∧ next a = .ok b := by
  cases first with
  | error e => cases h
  | ok a => exact ⟨a, rfl, h⟩

theorem mapError_ok {ε δ α : Type} {result : Except ε α} {f : ε → δ} {a : α}
    (h : result.mapError f = .ok a) : result = .ok a := by
  cases result with
  | error e => cases h
  | ok b =>
    cases h
    rfl

namespace Source

/-! ## Suffixes -/

/-- The name with that many suffixes. -/
def suffixed (name : String) (count : Nat) : String :=
  name ++ String.join (List.replicate count "Model")

theorem suffixed_zero (name : String) : suffixed name 0 = name := by simp [suffixed]

theorem suffixed_succ (name : String) (count : Nat) :
    suffixed name (count + 1) = suffixed (name ++ "Model") count := by
  simp only [suffixed, List.replicate_succ, String.join_cons, String.append_assoc]

theorem suffixed_succ_right (name : String) (count : Nat) :
    suffixed name (count + 1) = suffixed name count ++ "Model" := by
  simp only [suffixed, List.replicate_succ', String.join_append, String.join_cons, String.join_nil,
    String.append_empty, String.append_assoc]

/-- The loop that appends the suffix while a name is taken. -/
inductive Settles (taken : List String) : String → String → Prop where
  | free {name : String} : name ∉ taken → Settles taken name name
  | suffix {name result : String} :
      name ∈ taken → Settles taken (name ++ "Model") result → Settles taken name result

theorem Settles.deterministic {taken : List String} {name first second : String}
    (h₁ : Settles taken name first) (h₂ : Settles taken name second) : first = second := by
  induction h₁ generalizing second with
  | free hfree =>
    cases h₂ with
    | free _ => rfl
    | suffix htaken _ => exact absurd htaken hfree
  | suffix htaken _ ih =>
    cases h₂ with
    | free hfree => exact absurd htaken hfree
    | suffix _ h₂ => exact ih h₂

/-- The number of suffixes is the least that makes the name free. -/
theorem Settles.least {taken : List String} {name result : String} (h : Settles taken name result) :
    ∃ count, result = suffixed name count ∧ suffixed name count ∉ taken ∧
      ∀ fewer < count, suffixed name fewer ∈ taken := by
  induction h with
  | @free name hfree =>
    refine ⟨0, (suffixed_zero name).symm, ?_, ?_⟩
    · rwa [suffixed_zero]
    · intro fewer hfewer
      omega
  | @suffix name result htaken _ ih =>
    obtain ⟨count, hresult, hfree, hleast⟩ := ih
    rw [← suffixed_succ] at hresult hfree
    refine ⟨count + 1, hresult, hfree, ?_⟩
    intro fewer hfewer
    cases fewer with
    | zero => rwa [suffixed_zero]
    | succ fewer =>
      rw [suffixed_succ]
      exact hleast fewer (by omega)

/-- The taken names that the loop can still meet: no shorter than the one at hand. -/
def ahead (taken : List String) (name : String) : List String :=
  taken.filter fun other => name.length ≤ other.length

/-- A taken name is left behind once it is longer. -/
theorem ahead_append {taken : List String} {name : String} (h : name ∈ taken) :
    (ahead taken (name ++ "Model")).length < (ahead taken name).length := by
  have hfilter : ahead taken (name ++ "Model") =
      (ahead taken name).filter fun other => (name ++ "Model").length ≤ other.length := by
    rw [ahead, ahead, List.filter_filter]
    refine List.filter_congr fun other _ => ?_
    rw [String.length_append, Bool.eq_iff_iff, Bool.and_eq_true]
    simp only [decide_eq_true_eq]
    omega
  rw [hfilter, List.length_filter_lt_length_iff_exists]
  refine ⟨name, ?_, ?_⟩
  · rw [ahead, List.mem_filter]
    exact ⟨h, by simp⟩
  · have hsuffix : 0 < "Model".length := by decide
    rw [String.length_append, decide_eq_true_eq]
    omega

/-- Enough steps are allowed if there is one for every name ahead. -/
theorem settles_suffixWhileTaken {taken : List String} {fuel : Nat} {name : String}
    (h : (ahead taken name).length ≤ fuel) :
    Settles taken name (suffixWhileTaken taken fuel name) := by
  induction fuel generalizing name with
  | zero =>
    refine .free fun htaken => ?_
    have := ahead_append htaken
    omega
  | succ fuel ih =>
    rw [suffixWhileTaken]
    split
    · rename_i htaken
      rw [List.contains_iff_mem] at htaken
      have := ahead_append htaken
      exact .suffix htaken (ih (by omega))
    · rename_i hfree
      rw [List.contains_iff_mem] at hfree
      exact .free hfree

theorem settles_avoidClash (name : String) (taken : List String) :
    Settles taken name (avoidClash name taken) :=
  settles_suffixWhileTaken (List.length_filter_le _ _)

/-- The loop ends whatever name it is started with, and always in the same way. -/
theorem settles_iff (taken : List String) (name result : String) :
    Settles taken name result ↔ result = avoidClash name taken := by
  constructor
  · intro h
    exact h.deterministic (settles_avoidClash name taken)
  · rintro rfl
    exact settles_avoidClash name taken

theorem avoidClash_not_mem (name : String) (taken : List String) : avoidClash name taken ∉ taken := by
  obtain ⟨count, heq, hfree, -⟩ := (settles_avoidClash name taken).least
  rwa [heq]

/-- What appending the suffix keeps, the loop keeps. -/
theorem Settles.keeps {taken : List String} {name result : String} {P : String → Prop}
    (h : Settles taken name result) (hstep : ∀ name, P name → P (name ++ "Model"))
    (hname : P name) : P result := by
  induction h with
  | free _ => exact hname
  | suffix _ _ ih => exact ih (hstep _ hname)

/-! ## Characters of class names -/

/-- Letters and digits, at least one. -/
structure IsClassName (name : String) : Prop where
  nonempty : name ≠ ""
  alphanumeric : ∀ c ∈ name.toList, c.isAlphanum = true

/-- The first character is a capital letter. -/
def startsCapital (name : String) : Bool := name.toList.head?.any Char.isUpper

theorem toUpper_cases (c : Char) :
    (c.isLower = false ∧ c.toUpper = c) ∨ c.toUpper.isUpper = true := by
  delta Char.toUpper
  split
  · rename_i hlower
    right
    have hupper : 65 ≤ (c.val + ('A'.val - 'a'.val)).toNat ∧
        (c.val + ('A'.val - 'a'.val)).toNat ≤ 90 := by
      simp only [UInt32.le_iff_toNat_le, UInt32.toNat_add] at hlower ⊢
      simp at hlower ⊢
      omega
    delta Char.isUpper
    simp only [decide_eq_true_eq, UInt32.le_iff_toNat_le]
    exact hupper
  · rename_i hlower
    left
    refine ⟨?_, rfl⟩
    delta Char.isLower
    rw [Bool.and_eq_false_iff, decide_eq_false_iff_not, decide_eq_false_iff_not]
    exact Classical.not_and_iff_not_or_not.mp hlower

theorem isAlphanum_toUpper {c : Char} (h : c.isAlphanum = true) : c.toUpper.isAlphanum = true := by
  rcases toUpper_cases c with ⟨-, hsame⟩ | hupper
  · rwa [hsame]
  · delta Char.isAlphanum Char.isAlpha
    rw [hupper]
    rfl

/-- A letter or digit that begins a word is a capital or a digit. -/
theorem isUpper_toUpper {c : Char} (h : c.isAlphanum = true) (hdigit : c.toUpper.isDigit = false) :
    c.toUpper.isUpper = true := by
  rcases toUpper_cases c with ⟨hlower, hsame⟩ | hupper
  · rw [hsame] at hdigit ⊢
    delta Char.isAlphanum Char.isAlpha at h
    rwa [hlower, hdigit, Bool.or_false, Bool.or_false] at h
  · exact hupper

theorem isAlphanum_of_mem_runTogether {cs : List Char} {atStart : Bool} {c : Char}
    (h : c ∈ runTogether atStart cs) : c.isAlphanum = true := by
  induction cs generalizing atStart with
  | nil => cases h
  | cons d ds ih =>
    rw [runTogether] at h
    split at h
    · rename_i hword
      rcases List.mem_cons.mp h with rfl | hrest
      · split
        · exact isAlphanum_toUpper hword
        · exact hword
      · exact ih hrest
    · exact ih h

theorem head?_runTogether {cs : List Char} {d : Char} (h : (runTogether true cs).head? = some d) :
    ∃ c : Char, c.isAlphanum = true ∧ d = c.toUpper := by
  induction cs with
  | nil => cases h
  | cons c cs ih =>
    rw [runTogether] at h
    split at h
    · rename_i hword
      cases h
      exact ⟨c, hword, rfl⟩
    · exact ih h

theorem isClassName_base (modelName : String) : IsClassName (baseClassName modelName) := by
  have hmem : ∀ c ∈ runTogether true modelName.toList, c.isAlphanum = true :=
    fun c hc => isAlphanum_of_mem_runTogether hc
  simp only [baseClassName]
  split
  · exact ⟨by decide, List.all_eq_true.mp (by decide)⟩
  · rename_i c cs hname
    split
    · refine ⟨?_, ?_⟩
      · intro h
        simpa using congrArg String.toList h
      · intro d hd
        rw [String.toList_ofList, List.mem_append] at hd
        rcases hd with hd | hd
        · exact List.all_eq_true.mp (by decide) d hd
        · exact hmem d hd
    · refine ⟨?_, ?_⟩
      · intro h
        have hnil := congrArg String.toList h
        rw [String.toList_ofList, hname] at hnil
        cases hnil
      · intro d hd
        rw [String.toList_ofList] at hd
        exact hmem d hd

theorem startsCapital_base (modelName : String) : startsCapital (baseClassName modelName) = true := by
  simp only [baseClassName]
  split
  · decide
  · rename_i c cs hname
    split
    · rw [startsCapital, String.toList_ofList]
      rfl
    · rename_i hdigit
      obtain ⟨d, hword, rfl⟩ := head?_runTogether (by rw [hname]; rfl : _ = some c)
      rw [startsCapital, String.toList_ofList, hname]
      exact isUpper_toUpper hword (by simpa using hdigit)

theorem IsClassName.append_model {name : String} (h : IsClassName name) :
    IsClassName (name ++ "Model") := by
  refine ⟨?_, ?_⟩
  · intro hempty
    simpa using congrArg String.toList hempty
  · intro c hc
    rw [String.toList_append, List.mem_append] at hc
    rcases hc with hc | hc
    · exact h.alphanumeric c hc
    · exact List.all_eq_true.mp (by decide) c hc

theorem startsCapital_append {name : String} (h : startsCapital name = true) (more : String) :
    startsCapital (name ++ more) = true := by
  rw [startsCapital, Option.any_eq_true] at h ⊢
  obtain ⟨c, hc, hupper⟩ := h
  refine ⟨c, ?_, hupper⟩
  rw [String.toList_append, List.head?_append, hc]
  rfl

/-! ## Names chosen for a skeleton -/

namespace Skeleton

/-- The class of a unit, named for the model and apart from what the unit uses and imports. -/
def chosenName (skeleton : Skeleton) (modelName : String) : String :=
  avoidClash (Source.className modelName) skeleton.importedNames

theorem bind_className {skeleton frame : Skeleton} {metadata : Metadata}
    (h : skeleton.bind metadata = .ok frame) :
    frame.className = skeleton.chosenName metadata.modelName := by
  obtain ⟨first, -, h⟩ := bind_ok h
  obtain ⟨second, -, h⟩ := bind_ok h
  obtain ⟨third, -, h⟩ := bind_ok h
  cases h
  rfl

/-- What appending the suffix keeps is true of the chosen name if it is of the words alone. -/
theorem chosenName_keeps {P : String → Prop} (hstep : ∀ name, P name → P (name ++ "Model"))
    (skeleton : Skeleton) {modelName : String} (h : P (baseClassName modelName)) :
    P (skeleton.chosenName modelName) :=
  (settles_avoidClash _ _).keeps hstep ((settles_avoidClash _ _).keeps hstep h)

theorem chosenName_not_reserved (skeleton : Skeleton) (modelName : String) :
    skeleton.chosenName modelName ∉ reservedNames := by
  obtain ⟨count, hname, -, -⟩ :=
    (settles_avoidClash (Source.className modelName) skeleton.importedNames).least
  rw [chosenName, hname]
  cases count with
  | zero =>
    rw [suffixed_zero]
    exact avoidClash_not_mem _ _
  | succ count =>
    -- with a suffix it is like none of the names that every unit uses
    rw [suffixed_succ_right]
    intro hmem
    have hends : ∀ reserved ∈ reservedNames, ¬ "Model".toList <:+ reserved.toList := by decide
    refine hends _ hmem ?_
    rw [String.toList_append]
    exact List.suffix_append _ _

theorem chosenName_not_imported (skeleton : Skeleton) (modelName : String) :
    skeleton.chosenName modelName ∉ skeleton.importedNames :=
  avoidClash_not_mem _ _

/-- A name that a class of the skeleton can have. -/
structure Admits (skeleton : Skeleton) (name : String) : Prop where
  capital : startsCapital name = true
  alphanumeric : ∀ c ∈ name.toList, c.isAlphanum = true
  not_reserved : name ∉ reservedNames
  not_imported : ∀ path ∈ skeleton.imports, name ≠ lastSegment path
  not_superclass : skeleton.superclass ≠ some name

theorem admits_chosenName (skeleton : Skeleton) (modelName : String) :
    skeleton.Admits (skeleton.chosenName modelName) := by
  have hcapital : startsCapital (skeleton.chosenName modelName) = true :=
    chosenName_keeps (P := fun name => startsCapital name = true)
      (fun _ h => startsCapital_append h _) skeleton (startsCapital_base modelName)
  have hclass : IsClassName (skeleton.chosenName modelName) :=
    chosenName_keeps (fun _ => IsClassName.append_model) skeleton (isClassName_base modelName)
  have hfree := skeleton.chosenName_not_imported modelName
  rw [importedNames, List.mem_append, not_or] at hfree
  refine ⟨hcapital, hclass.alphanumeric, skeleton.chosenName_not_reserved modelName, ?_, ?_⟩
  · intro path hpath heq
    exact hfree.1 (List.mem_map.mpr ⟨path, hpath, heq.symm⟩)
  · intro hsuper
    rw [hsuper] at hfree
    exact hfree.2 (List.mem_singleton.mpr rfl)

end Skeleton

theorem isClassName_of_bind {skeleton frame : Skeleton} {metadata : Metadata}
    (h : skeleton.bind metadata = .ok frame) : IsClassName frame.className := by
  rw [Skeleton.bind_className h]
  exact Skeleton.chosenName_keeps (fun _ => IsClassName.append_model) skeleton
    (isClassName_base metadata.modelName)

/-- Whatever the model is called and whatever a skeleton imports, the class of its unit starts with a
capital letter, has letters and digits only, and is called neither like something that every unit
uses nor like an import or the superclass. The loop that finds such names always ends, with the fewest
suffixes that make the name free. -/
theorem Skeleton.bind_admitted (skeleton : Skeleton) (metadata : Metadata) :
    (skeleton.Admits (skeleton.chosenName metadata.modelName) ∧
      ∀ frame, skeleton.bind metadata = .ok frame →
        frame.className = skeleton.chosenName metadata.modelName) ∧
    ∀ (name : String) (taken : List String),
      (∀ result, Settles taken name result ↔ result = avoidClash name taken) ∧
      ∃ count, avoidClash name taken = suffixed name count ∧ suffixed name count ∉ taken ∧
        ∀ fewer < count, suffixed name fewer ∈ taken := by
  refine ⟨⟨skeleton.admits_chosenName metadata.modelName, ?_⟩, ?_⟩
  · intro frame hframe
    exact bind_className hframe
  · intro name taken
    exact ⟨settles_iff taken name, (settles_avoidClash name taken).least⟩

/-- A skeleton that imports the class of a model, and the class it would be called instead. -/
def Skeleton.crowded : Skeleton :=
  { Skeleton.standard with imports := ["org.acme.Golf", "GolfModel", "org.acme.Score"] }

theorem Skeleton.bind_admitted_crowded : ∃ frame,
    Skeleton.crowded.bind ⟨"golf", [], none, none⟩ = .ok frame ∧
      frame.className = "GolfModelModel" ∧ Skeleton.crowded.Admits "GolfModelModel" := by
  have hchosen : Skeleton.crowded.chosenName "golf" = "GolfModelModel" := by decide +kernel
  have hadmitted := (Skeleton.bind_admitted Skeleton.crowded ⟨"golf", [], none, none⟩).1
  rw [hchosen] at hadmitted
  exact ⟨_, rfl, hadmitted.2 _ rfl, hadmitted.1⟩

end Source
end ScoringTree
