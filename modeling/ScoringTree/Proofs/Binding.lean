import ScoringTree.Proofs.ClassNames

/-!
# ScoringTree.Proofs.Binding

What filling in a skeleton changes, and what it leaves as it is.

Three statements are put into the body of a constructor, each in the place of the first one that is
about the same thing. Every other statement stays where it is, so what the statements are about
stays as well, and to fill in once more finds the same places.

* `Statement.subject`     — what a statement is about.
* `FirstAbout`            — where the first statement about a subject stands.
* `fill`, `fillAll`       — one statement put in, and several in order.
* `Filled`                — the two bodies agree but for the first statements about some subjects.
* `fillAll_filled`        — so they do once statements about different subjects have been put in.
* `Skeleton.bind_fills`   — when a skeleton can be filled in, and what comes of it.
-/

namespace ScoringTree
namespace Source

/-! ## What statements are about -/

/-- What a statement is about: the superclass, or an attribute. -/
inductive Subject where
  | superclass
  | attribute (name : String)
  deriving DecidableEq, Repr

namespace Statement

def subject : Statement → Subject
  | .superCall _ => .superclass
  | .assign target _ => .attribute target

@[simp] theorem subject_superCall (arguments : List Value) :
    (superCall arguments).subject = .superclass := rfl

@[simp] theorem subject_assign (target : String) (value : Value) :
    (assign target value).subject = .attribute target := rfl

theorem superclass_mem_iff {body : List Statement} :
    .superclass ∈ body.map subject ↔ ∃ arguments, .superCall arguments ∈ body := by
  rw [List.mem_map]
  constructor
  · rintro ⟨statement, hmem, hsubject⟩
    cases statement with
    | superCall arguments => exact ⟨arguments, hmem⟩
    | assign target value => cases hsubject
  · rintro ⟨arguments, hmem⟩
    exact ⟨_, hmem, rfl⟩

theorem attribute_mem_iff {body : List Statement} {target : String} :
    .attribute target ∈ body.map subject ↔ ∃ value, .assign target value ∈ body := by
  rw [List.mem_map]
  constructor
  · rintro ⟨statement, hmem, hsubject⟩
    cases statement with
    | superCall arguments => cases hsubject
    | assign other value =>
      cases hsubject
      exact ⟨value, hmem⟩
  · rintro ⟨value, hmem⟩
    exact ⟨_, hmem, rfl⟩

end Statement

/-- The first statement of the body about that subject stands at that position. -/
structure FirstAbout (body : List Statement) (subject : Subject) (i : Nat) : Prop where
  here : (body.map Statement.subject)[i]? = some subject
  first : ∀ j < i, (body.map Statement.subject)[j]? ≠ some subject

section First

variable {body other : List Statement} {subject : Subject} {i j : Nat}

theorem firstAbout_iff :
    FirstAbout body subject i ↔ body.findIdx? (fun s => s.subject == subject) = some i := by
  rw [List.findIdx?_eq_some_iff_getElem]
  constructor
  · rintro ⟨hhere, hfirst⟩
    obtain ⟨hlt, hsubject⟩ := List.getElem?_eq_some_iff.mp hhere
    rw [List.length_map] at hlt
    refine ⟨hlt, by simpa using hsubject, ?_⟩
    intro j hj
    have := hfirst j hj
    rw [List.getElem?_map, List.getElem?_eq_getElem (by omega)] at this
    simpa using this
  · rintro ⟨hlt, hhere, hfirst⟩
    refine ⟨?_, ?_⟩
    · rw [List.getElem?_map, List.getElem?_eq_getElem hlt]
      simpa using hhere
    · intro j hj
      rw [List.getElem?_map, List.getElem?_eq_getElem (by omega)]
      simpa using hfirst j hj

theorem FirstAbout.unique (hi : FirstAbout body subject i) (hj : FirstAbout body subject j) :
    i = j := by
  rw [firstAbout_iff] at hi hj
  rw [hi] at hj
  exact Option.some.inj hj

/-- Only the subjects of the statements count. -/
theorem FirstAbout.congr (h : other.map Statement.subject = body.map Statement.subject) :
    FirstAbout other subject i ↔ FirstAbout body subject i := by
  constructor
  · rintro ⟨hhere, hfirst⟩
    exact ⟨h ▸ hhere, h ▸ hfirst⟩
  · rintro ⟨hhere, hfirst⟩
    exact ⟨h ▸ hhere, h ▸ hfirst⟩

theorem FirstAbout.lt (h : FirstAbout body subject i) : i < body.length := by
  simpa using (List.getElem?_eq_some_iff.mp h.here).1

end First

/-! ## One statement -/

/-- The statement takes the place of the first one about the same subject. -/
def fill (body : List Statement) (statement : Statement) : Option (List Statement) :=
  (body.findIdx? fun s => s.subject == statement.subject).map fun i => body.set i statement

theorem fill_cons_same {first statement : Statement} (rest : List Statement)
    (h : first.subject = statement.subject) :
    fill (first :: rest) statement = some (statement :: rest) := by
  simp [fill, List.findIdx?_cons, h]

theorem fill_cons_other {first statement : Statement} (rest : List Statement)
    (h : first.subject ≠ statement.subject) :
    fill (first :: rest) statement = (fill rest statement).map (first :: ·) := by
  simp only [fill, List.findIdx?_cons, beq_eq_false_iff_ne.mpr h, Bool.false_eq_true, if_false,
    Option.map_map]
  rfl

theorem replaceSuperCall_eq (arguments : List Value) (body : List Statement) :
    Constructor.replaceSuperCall arguments body = fill body (.superCall arguments) := by
  induction body with
  | nil => rfl
  | cons first rest ih =>
    cases first with
    | superCall others =>
      rw [Constructor.replaceSuperCall]
      exact (fill_cons_same rest rfl).symm
    | assign target value =>
      rw [fill_cons_other rest (by simp), Constructor.replaceSuperCall, ih]
      simp

theorem replaceAssignment_eq (target : String) (value : Value) (body : List Statement) :
    Constructor.replaceAssignment target value body = fill body (.assign target value) := by
  induction body with
  | nil => rfl
  | cons first rest ih =>
    cases first with
    | superCall others =>
      rw [fill_cons_other rest (by simp), Constructor.replaceAssignment, ih]
      simp
    | assign other old =>
      rw [Constructor.replaceAssignment]
      by_cases h : other = target
      · rw [if_pos h, fill_cons_same rest (by simp [h]), h]
      · rw [if_neg h, fill_cons_other rest (by simpa using h), ih]

section Fill

variable {body filled : List Statement} {statement : Statement} {i : Nat}

theorem fill_eq_some (h : fill body statement = some filled) :
    ∃ i, FirstAbout body statement.subject i ∧ filled = body.set i statement := by
  obtain ⟨i, hi, rfl⟩ := Option.map_eq_some_iff.mp h
  exact ⟨i, firstAbout_iff.mpr hi, rfl⟩

theorem fill_isSome_iff :
    (∃ filled, fill body statement = some filled) ↔
      statement.subject ∈ body.map Statement.subject := by
  rw [← Option.isSome_iff_exists, fill, Option.isSome_map, List.findIdx?_isSome, List.any_eq_true,
    List.mem_map]
  simp

/-- What the statements are about stays. -/
theorem map_subject_set (h : FirstAbout body statement.subject i) :
    (body.set i statement).map Statement.subject = body.map Statement.subject := by
  obtain ⟨hlt, hhere⟩ := List.getElem?_eq_some_iff.mp h.here
  rw [List.map_set, ← hhere, List.set_getElem_self]

/-- A statement that is there already changes nothing. -/
theorem fill_self (h : FirstAbout body statement.subject i) (hhere : body[i]? = some statement) :
    fill body statement = some body := by
  obtain ⟨hlt, heq⟩ := List.getElem?_eq_some_iff.mp hhere
  rw [fill, firstAbout_iff.mp h, Option.map_some, ← heq, List.set_getElem_self]

end Fill

/-! ## Several statements -/

/-- The statements are put in one after the other. -/
def fillAll : List Statement → List Statement → Option (List Statement)
  | [], body => some body
  | statement :: rest, body => (fill body statement).bind (fillAll rest)

/-- The second body has the statements where the first one has the first statements about the same
subjects, and is the same everywhere else. -/
structure Filled (statements body filled : List Statement) : Prop where
  length_eq : filled.length = body.length
  put : ∀ s ∈ statements, ∀ i, FirstAbout body s.subject i → filled[i]? = some s
  kept : ∀ i, (∀ s ∈ statements, ¬FirstAbout body s.subject i) → filled[i]? = body[i]?

section FillAll

variable {statements body filled : List Statement}

theorem fillAll_isSome_iff :
    (∃ filled, fillAll statements body = some filled) ↔
      ∀ s ∈ statements, s.subject ∈ body.map Statement.subject := by
  induction statements generalizing body with
  | nil => simp [fillAll]
  | cons statement rest ih =>
    rw [List.forall_mem_cons, ← fill_isSome_iff, fillAll]
    cases hfill : fill body statement with
    | none => simp
    | some middle =>
      obtain ⟨i, hfirst, rfl⟩ := fill_eq_some hfill
      rw [Option.bind_some, ih, map_subject_set hfirst]
      simp

theorem map_subject_fillAll (h : fillAll statements body = some filled) :
    filled.map Statement.subject = body.map Statement.subject := by
  induction statements generalizing body with
  | nil =>
    cases h
    rfl
  | cons statement rest ih =>
    obtain ⟨middle, hfill, hrest⟩ := Option.bind_eq_some_iff.mp h
    obtain ⟨i, hfirst, rfl⟩ := fill_eq_some hfill
    rw [ih hrest, map_subject_set hfirst]

/-- Statements about different subjects do not take each other's place. -/
theorem fillAll_filled (hdistinct : (statements.map Statement.subject).Nodup)
    (h : fillAll statements body = some filled) : Filled statements body filled := by
  induction statements generalizing body with
  | nil =>
    cases h
    exact ⟨rfl, by simp, fun _ _ => rfl⟩
  | cons statement rest ih =>
    rw [List.map_cons, List.nodup_cons] at hdistinct
    obtain ⟨middle, hfill, hrest⟩ := Option.bind_eq_some_iff.mp h
    obtain ⟨i, hfirst, rfl⟩ := fill_eq_some hfill
    have hsame := map_subject_set hfirst
    obtain ⟨hlength, hput, hkept⟩ := ih hdistinct.2 hrest
    refine ⟨by rw [hlength, List.length_set], ?_, ?_⟩
    · intro s hs j hj
      rcases List.mem_cons.mp hs with rfl | hs
      · -- the others are about something else, so what was put in stays
        cases hj.unique hfirst
        have hstays : ∀ t ∈ rest, ¬FirstAbout (body.set i s) t.subject i := by
          intro t ht hother
          have heq : s.subject = t.subject :=
            Option.some.inj (hfirst.here.symm.trans (hsame ▸ hother.here))
          exact hdistinct.1 (List.mem_map.mpr ⟨t, ht, heq.symm⟩)
        rw [hkept i hstays, List.getElem?_set_self hfirst.lt]
      · exact hput s hs j ((FirstAbout.congr hsame).mpr hj)
    · intro j hnone
      rw [List.forall_mem_cons] at hnone
      have hne : i ≠ j := by
        rintro rfl
        exact hnone.1 hfirst
      have hrest : ∀ s ∈ rest, ¬FirstAbout (body.set i statement) s.subject j :=
        fun s hs hj => hnone.2 s hs ((FirstAbout.congr hsame).mp hj)
      rw [hkept j hrest, List.getElem?_set_ne hne]

/-- To put the statements in once more changes nothing. -/
theorem fillAll_again (hdistinct : (statements.map Statement.subject).Nodup)
    (h : fillAll statements body = some filled) : fillAll statements filled = some filled := by
  have hsame := map_subject_fillAll h
  have hput := (fillAll_filled hdistinct h).put
  have hthere : ∀ s ∈ statements, fill filled s = some filled := by
    intro s hs
    obtain ⟨first, hfirst⟩ := fill_isSome_iff.mpr (fillAll_isSome_iff.mp ⟨filled, h⟩ s hs)
    obtain ⟨i, hi, -⟩ := fill_eq_some hfirst
    exact fill_self ((FirstAbout.congr hsame).mpr hi) (hput s hs i hi)
  clear h hput hdistinct
  induction statements with
  | nil => rfl
  | cons statement rest ih =>
    rw [fillAll, hthere statement (by simp), Option.bind_some]
    exact ih fun s hs => hthere s (by simp [hs])

end FillAll

/-! ## Skeletons -/

namespace Metadata

/-- What a unit is told of its model, as the statements that tell it. -/
def statements (metadata : Metadata) : List Statement :=
  [.superCall [.text metadata.modelName, .texts metadata.contributing,
      .ofOption metadata.algorithm],
    .assign Skeleton.targetAttribute (.ofOption metadata.target),
    .assign Skeleton.kindAttribute .null]

theorem nodup_subjects (metadata : Metadata) :
    (metadata.statements.map Statement.subject).Nodup := by
  simp [statements, Skeleton.targetAttribute, Skeleton.kindAttribute]

end Metadata

namespace Skeleton

/-- A skeleton is filled in by putting the statements into its constructor and giving both the class
and the constructor the chosen name. -/
theorem bind_ok_iff_fillAll {skeleton frame : Skeleton} {metadata : Metadata} :
    skeleton.bind metadata = .ok frame ↔
      ∃ body, fillAll metadata.statements skeleton.constructor.body = some body ∧
        frame = { skeleton with
          className := skeleton.chosenName metadata.modelName,
          constructor := ⟨skeleton.chosenName metadata.modelName, body⟩ } := by
  simp only [bind, Metadata.statements, fillAll, Constructor.setSuperCall,
    Constructor.setAssignment, replaceSuperCall_eq, replaceAssignment_eq]
  cases fill skeleton.constructor.body
      (.superCall [.text metadata.modelName, .texts metadata.contributing,
        .ofOption metadata.algorithm]) with
  | none => simp [Bind.bind, Except.bind]
  | some first =>
    simp only [Bind.bind, Except.bind, Option.bind_some]
    cases fill first (.assign targetAttribute (.ofOption metadata.target)) with
    | none => simp
    | some second =>
      simp only [Option.bind_some]
      cases fill second (.assign kindAttribute .null) with
      | none => simp
      | some third => simp [chosenName, eq_comm]

/-- A skeleton can be filled in exactly if its constructor calls that of the superclass and assigns
both attributes. Then the first of these statements, and no others, are replaced, all else stays but
the name, and to fill in the result once more changes nothing. -/
theorem bind_fills (skeleton : Skeleton) (metadata : Metadata) :
    ((∃ frame, skeleton.bind metadata = .ok frame) ↔
      (∃ arguments, .superCall arguments ∈ skeleton.constructor.body) ∧
        (∃ value, .assign targetAttribute value ∈ skeleton.constructor.body) ∧
        ∃ value, .assign kindAttribute value ∈ skeleton.constructor.body) ∧
    ∀ frame, skeleton.bind metadata = .ok frame →
      Filled metadata.statements skeleton.constructor.body frame.constructor.body ∧
        frame.imports = skeleton.imports ∧ frame.superclass = skeleton.superclass ∧
        frame.constructor.name = frame.className ∧ frame.bind metadata = .ok frame := by
  refine ⟨?_, ?_⟩
  · have hbody : (∃ frame, skeleton.bind metadata = .ok frame) ↔
        ∃ body, fillAll metadata.statements skeleton.constructor.body = some body := by
      simp only [bind_ok_iff_fillAll]
      exact ⟨fun ⟨_, body, h, _⟩ => ⟨body, h⟩, fun ⟨body, h⟩ => ⟨_, body, h, rfl⟩⟩
    rw [hbody, fillAll_isSome_iff, Metadata.statements, List.forall_mem_cons, List.forall_mem_cons,
      List.forall_mem_singleton, Statement.subject_superCall, Statement.subject_assign,
      Statement.subject_assign, Statement.superclass_mem_iff, Statement.attribute_mem_iff,
      Statement.attribute_mem_iff]
  · intro frame hframe
    obtain ⟨body, hfill, rfl⟩ := bind_ok_iff_fillAll.mp hframe
    refine ⟨fillAll_filled metadata.nodup_subjects hfill, rfl, rfl, rfl, ?_⟩
    exact bind_ok_iff_fillAll.mpr ⟨body, fillAll_again metadata.nodup_subjects hfill, rfl⟩

/-- A constructor that calls that of the superclass twice, assigns one attribute twice and has
nothing in the usual order. -/
def untidy : Skeleton :=
  { imports := ["org.acme.Base"], className := "Untidy", superclass := some "Base",
    constructor :=
      { name := "Untidy",
        body := [.assign kindAttribute (.name "kind"), .assign targetAttribute (.text "old"),
          .superCall [], .assign "other" .null, .assign targetAttribute (.name "kept"),
          .superCall [.null]] } }

theorem bind_fills_untidy : ∃ frame, untidy.bind ⟨"base", ["hot"], none, some "y"⟩ = .ok frame ∧
    frame.className = "BaseModel" ∧ frame.constructor.body =
      [.assign kindAttribute .null, .assign targetAttribute (.text "y"),
        .superCall [.text "base", .texts ["hot"], .null], .assign "other" .null,
        .assign targetAttribute (.name "kept"), .superCall [.null]] ∧
    frame.bind ⟨"base", ["hot"], none, some "y"⟩ = .ok frame := by
  have hchosen : untidy.chosenName "base" = "BaseModel" := by decide +kernel
  have hfills := bind_fills untidy ⟨"base", ["hot"], none, some "y"⟩
  obtain ⟨frame, hframe⟩ := hfills.1.mpr
    ⟨⟨[], by simp [untidy]⟩, ⟨.text "old", by simp [untidy]⟩, ⟨.name "kind", by simp [untidy]⟩⟩
  obtain ⟨-, -, -, -, hagain⟩ := hfills.2 frame hframe
  refine ⟨frame, hframe, (bind_className hframe).trans hchosen, ?_, hagain⟩
  cases hframe
  rfl

end Skeleton

end Source
end ScoringTree
