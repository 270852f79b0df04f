import Mathlib.Data.List.Forall2
import Mathlib.Data.List.Nodup
import ScoringTree.Command.Run
import ScoringTree.Proofs.Branches
import ScoringTree.Proofs.DocumentForm
import ScoringTree.Proofs.JsonText

/-!
# ScoringTree.Proofs.Projects

Checking a project against compiling it.

Two loops go over the documents of a project. One loads all of them first and tells units apart by
the names of models, the other loads, compiles and compares document by document and tells units
apart by paths. Both accept exactly the documents that compile one by one to models without a common
unit.

* `Builds`     — documents compile one by one to models that have no unit in common.
* `Faulty`     — a document cannot be read or does not compile, or two of them share a unit.
* `ReadOnly`   — an action over files changes nothing.
* `Files.validate_iff_compile`
               — the command that checks a project accepts it exactly when all its documents compile
                 together, and the command that compiles writes nothing unless they do.
-/

namespace ScoringTree

/-! ## The order of paths -/

namespace Path

/-- The text of a name; nothing for a special component. -/
def Component.text : Component → String
  | .name s => s
  | _ => ""

theorem Component.order_eq :
    Component.order = compareLex (compareOn Component.rank) (compareOn Component.text) := by
  funext a b
  cases a <;> cases b <;> simp [Component.order, Component.rank, Component.text, compareLex,
    compareOn, Ordering.then]

theorem orderComponents_eq : orderComponents = List.compareLex Component.order := by
  funext as bs
  induction as generalizing bs with
  | nil => cases bs <;> rfl
  | cons a as ih =>
    cases bs with
    | nil => rfl
    | cons b bs =>
      rw [orderComponents, ih bs, List.compareLex_cons_cons]

instance : Std.TransCmp Component.order := by
  rw [Component.order_eq]
  infer_instance

instance : Std.TransCmp order where
  eq_swap {a b} := by
    simp only [order, orderComponents_eq]
    exact Std.OrientedCmp.eq_swap
  isLE_trans {a b c} hab hbc := by
    simp only [order, orderComponents_eq] at hab hbc ⊢
    exact Std.TransCmp.isLE_trans hab hbc

end Path

/-! ## Documents that compile together -/

/-- The names of the units that a model generates. -/
def CompiledModel.unitNames (model : CompiledModel) : List String := model.sources.units.map (·.1)

/-- The documents compile one by one to these models, and no two of the models have a unit in
common. -/
structure Builds (options : CompileOptions) (files : List ModelFile)
    (models : List CompiledModel) : Prop where
  each : List.Forall₂ (fun file model => compileFile options file = .ok model) files models
  distinct : (models.flatMap CompiledModel.unitNames).Nodup

/-- A document cannot be read, or does not compile, or shares a unit with another. -/
inductive Faulty (options : CompileOptions) (files : List ModelFile) : Prop where
  | unreadable {file : ModelFile} {error : ProjectError} :
      file ∈ files → file.document = .error error → Faulty options files
  | uncompiled {file : ModelFile} {document : Document} {error : CompileError} :
      file ∈ files → file.document = .ok document → document.compile options = .error error →
      Faulty options files
  | repeated {i j : Nat} {first second : ModelFile} {model other : CompiledModel} {unit : String} :
      i < j → files[i]? = some first → files[j]? = some second →
      compileFile options first = .ok model → compileFile options second = .ok other →
      unit ∈ model.unitNames → unit ∈ other.unitNames → Faulty options files

/-- The units of further models are all different, and none of them has an owner. -/
def Unowned (owners : List (String × String)) (models : List CompiledModel) : Prop :=
  (models.flatMap CompiledModel.unitNames).Nodup ∧
    ∀ unit ∈ models.flatMap CompiledModel.unitNames, unit ∉ owners.map (·.1)

theorem Document.compile_unit {document : Document} {options : CompileOptions}
    {model : CompiledModel} (h : document.compile options = .ok model) :
    ∃ unit, model.sources.units = [unit] := by
  simp only [Document.compile, Request.compile, bind, Except.bind] at h
  split at h
  · cases h
  · split at h
    · cases h
    · cases h
      exact ⟨_, rfl⟩

theorem compileFile_ok_iff {options : CompileOptions} {file : ModelFile} {model : CompiledModel} :
    compileFile options file = .ok model ↔
      ∃ document, file.document = .ok document ∧ document.compile options = .ok model := by
  simp only [compileFile]
  cases file.document with
  | error e => simp
  | ok document => cases hcompile : document.compile options <;> simp [Except.mapError, hcompile]

theorem lookup_eq_none_iff (owners : List (String × String)) (unit : String) :
    owners.lookup unit = none ↔ unit ∉ owners.map (·.1) := by
  rw [List.lookup_eq_none_iff]
  constructor
  · intro h hmem
    obtain ⟨owner, howner, rfl⟩ := List.mem_map.mp hmem
    exact absurd (h owner howner) (by simp)
  · intro h owner howner
    have hne : owner.1 ≠ unit := fun heq => h (List.mem_map.mpr ⟨owner, howner, heq⟩)
    simpa using hne.symm

theorem clash?_eq_none_iff (owners units : List (String × String)) :
    clash? owners units = none ↔ ∀ unit ∈ units.map (·.1), unit ∉ owners.map (·.1) := by
  induction units with
  | nil => simp [clash?]
  | cons entry rest ih =>
    obtain ⟨unit, text⟩ := entry
    rw [clash?]
    cases hlookup : owners.lookup unit with
    | some first =>
      have howned : unit ∈ owners.map (·.1) := by
        by_contra hfree
        rw [(lookup_eq_none_iff owners unit).mpr hfree] at hlookup
        cases hlookup
      simp only [reduceCtorEq, List.map_cons, List.forall_mem_cons, false_iff]
      exact fun h => h.1 howned
    | none =>
      have hfree := (lookup_eq_none_iff owners unit).mp hlookup
      simp only [ih, List.map_cons, List.forall_mem_cons]
      exact ⟨fun h => ⟨hfree, h⟩, fun h => h.2⟩

/-- What both loops check of a model, and what they pass on to the next one. -/
theorem unowned_cons (owners : List (String × String)) (owner : String) {model : CompiledModel}
    (hunit : ∃ unit, model.sources.units = [unit]) (models : List CompiledModel) :
    Unowned owners (model :: models) ↔
      clash? owners model.sources.units = none ∧
        Unowned (model.sources.units.map (fun unit => (unit.1, owner)) ++ owners) models := by
  obtain ⟨⟨unit, text⟩, hunits⟩ := hunit
  have hnames : model.unitNames = [unit] := by simp [CompiledModel.unitNames, hunits]
  rw [clash?_eq_none_iff, hunits]
  simp only [Unowned, List.flatMap_cons, hnames, List.singleton_append, List.nodup_cons,
    List.map_cons, List.map_nil, List.mem_cons, List.not_mem_nil, or_false, forall_eq, not_or]
  constructor
  · rintro ⟨⟨hnew, hnodup⟩, hfree⟩
    refine ⟨hfree unit (Or.inl rfl), hnodup, fun other hother => ⟨?_, hfree other (Or.inr hother)⟩⟩
    rintro rfl
    exact hnew hother
  · rintro ⟨hfree, hnodup, hothers⟩
    refine ⟨⟨fun hmem => (hothers unit hmem).1 rfl, hnodup⟩, ?_⟩
    rintro other (rfl | hother)
    · exact hfree
    · exact (hothers other hother).2

/-! ## The two loops -/

theorem compileFrom_ok_iff (options : CompileOptions) (owners : List (String × String))
    (files : List ModelFile) (models : List CompiledModel) :
    compileFrom options owners files = .ok models ↔
      List.Forall₂ (fun file model => compileFile options file = .ok model) files models ∧
        Unowned owners models := by
  induction files generalizing owners models with
  | nil =>
    cases models with
    | nil => simp [compileFrom, Unowned]
    | cons model rest => simp [compileFrom]
  | cons file rest ih =>
    rw [compileFrom]
    cases hfile : compileFile options file with
    | error e => simp [List.forall₂_cons_left_iff, hfile]
    | ok model =>
      have hunit : ∃ unit, model.sources.units = [unit] := by
        obtain ⟨document, -, hcompile⟩ := compileFile_ok_iff.mp hfile
        exact document.compile_unit hcompile
      constructor
      · intro h
        cases hclash : clash? owners model.sources.units with
        | some clash => simp [hclash] at h
        | none =>
          simp only [hclash] at h
          split at h
          · cases h
          · rename_i others hrest
            cases h
            obtain ⟨heach, hfree⟩ := (ih _ _).mp hrest
            exact ⟨.cons hfile heach,
              (unowned_cons owners file.path hunit _).mpr ⟨hclash, hfree⟩⟩
      · rintro ⟨heach, hfree⟩
        obtain ⟨first, others, hfirst, hrest, rfl⟩ := List.forall₂_cons_left_iff.mp heach
        rw [hfile, Except.ok.injEq] at hfirst
        subst hfirst
        obtain ⟨hclash, hothers⟩ := (unowned_cons owners file.path hunit _).mp hfree
        simp only [hclash, (ih _ _).mpr ⟨hrest, hothers⟩]

theorem compileAll_ok_iff (options : CompileOptions) (files : List ModelFile)
    (models : List CompiledModel) :
    compileAll options files = .ok models ↔ Builds options files models := by
  rw [compileAll, compileFrom_ok_iff]
  constructor
  · rintro ⟨heach, hdistinct, -⟩
    exact ⟨heach, hdistinct⟩
  · rintro ⟨heach, hdistinct⟩
    exact ⟨heach, hdistinct, by simp⟩

theorem within_ok_iff {α : Type} (context : String) (result : Except ProjectError α) (a : α) :
    within context result = .ok a ↔ result = .ok a := by
  cases result <;> simp [within, Except.mapError]

theorem validateFrom_ok_iff (options : CompileOptions) (owners : List (String × String))
    (documents : List Document) :
    validateFrom options owners documents = .ok () ↔
      ∃ models, List.Forall₂ (fun document model => document.compile options = .ok model)
        documents models ∧ Unowned owners models := by
  induction documents generalizing owners with
  | nil => simp [validateFrom, Unowned]
  | cons document rest ih =>
    rw [validateFrom]
    cases hcompile : document.compile options with
    | error e =>
      simp [within, Except.mapError, List.forall₂_cons_left_iff, hcompile]
    | ok model =>
      have hunit := document.compile_unit hcompile
      simp only [within, Except.mapError]
      constructor
      · intro h
        cases hclash : clash? owners model.sources.units with
        | some clash => simp [hclash] at h
        | none =>
          simp only [hclash] at h
          obtain ⟨models, heach, hfree⟩ := (ih _).mp h
          exact ⟨model :: models, .cons hcompile heach,
            (unowned_cons owners document.name hunit _).mpr ⟨hclash, hfree⟩⟩
      · rintro ⟨models, heach, hfree⟩
        obtain ⟨first, others, hfirst, hrest, rfl⟩ := List.forall₂_cons_left_iff.mp heach
        rw [hcompile, Except.ok.injEq] at hfirst
        subst hfirst
        obtain ⟨hclash, hothers⟩ := (unowned_cons owners document.name hunit _).mp hfree
        simp only [hclash]
        exact (ih _).mpr ⟨others, hrest, hothers⟩

theorem documents_ok_iff (files : List ModelFile) (found : List Document) :
    documents files = .ok found ↔
      List.Forall₂ (fun file document => file.document = .ok document) files found := by
  induction files generalizing found with
  | nil => cases found <;> simp [documents]
  | cons file rest ih =>
    rw [documents]
    cases hfile : file.document with
    | error e => cases found <;> simp [hfile]
    | ok document =>
      cases hrest : documents rest with
      | error e => cases found <;> simp [hfile, ← ih, hrest]
      | ok others => cases found <;> simp [hfile, ← ih, hrest]

/-- To compile files is to load all of them and to compile their documents. -/
theorem forall₂_compileFile_iff (options : CompileOptions) (files : List ModelFile)
    (models : List CompiledModel) :
    List.Forall₂ (fun file model => compileFile options file = .ok model) files models ↔
      ∃ found, List.Forall₂ (fun file document => file.document = .ok document) files found ∧
        List.Forall₂ (fun document model => document.compile options = .ok model) found models := by
  induction files generalizing models with
  | nil => simp
  | cons file rest ih =>
    constructor
    · intro h
      obtain ⟨model, others, hfile, hrest, rfl⟩ := List.forall₂_cons_left_iff.mp h
      obtain ⟨document, hdocument, hcompile⟩ := compileFile_ok_iff.mp hfile
      obtain ⟨found, hfound, hmodels⟩ := (ih others).mp hrest
      exact ⟨document :: found, .cons hdocument hfound, .cons hcompile hmodels⟩
    · rintro ⟨found, hfound, hmodels⟩
      obtain ⟨document, found, hdocument, hrest, rfl⟩ := List.forall₂_cons_left_iff.mp hfound
      obtain ⟨model, others, hcompile, hothers, rfl⟩ := List.forall₂_cons_left_iff.mp hmodels
      exact .cons (compileFile_ok_iff.mpr ⟨document, hdocument, hcompile⟩)
        ((ih others).mpr ⟨found, hrest, hothers⟩)

/-- The loop that loads all documents first accepts what the other one accepts. -/
theorem validateFiles_ok_iff (config : Config) (files : List ModelFile) :
    validateFiles config files = .ok () ↔
      ∃ models, Builds ⟨config.settings.package, .standard⟩ files models := by
  simp only [validateFiles, bind, Except.bind]
  constructor
  · intro h
    split at h
    · cases h
    · rename_i found hfound
      rw [within_ok_iff, documents_ok_iff] at hfound
      obtain ⟨models, hmodels, hdistinct, -⟩ := (validateFrom_ok_iff _ _ _).mp h
      exact ⟨models, (forall₂_compileFile_iff _ _ _).mpr ⟨found, hfound, hmodels⟩, hdistinct⟩
  · rintro ⟨models, heach, hdistinct⟩
    obtain ⟨found, hfound, hmodels⟩ := (forall₂_compileFile_iff _ _ _).mp heach
    rw [(within_ok_iff _ _ _).mpr ((documents_ok_iff _ _).mpr hfound)]
    exact (validateFrom_ok_iff _ _ _).mpr ⟨models, hmodels, hdistinct, by simp⟩

/-! ## Faults -/

theorem compileFile_getElem? {options : CompileOptions} {files : List ModelFile}
    {models : List CompiledModel}
    (h : List.Forall₂ (fun file model => compileFile options file = .ok model) files models)
    {i : Nat} {file : ModelFile} (hi : files[i]? = some file) :
    ∃ model, models[i]? = some model ∧ compileFile options file = .ok model := by
  induction h generalizing i with
  | nil => simp at hi
  | cons hfirst _ ih =>
    cases i with
    | zero =>
      simp only [List.getElem?_cons_zero, Option.some.injEq] at hi
      subst hi
      exact ⟨_, rfl, hfirst⟩
    | succ i => exact ih hi

/-- Documents with a fault do not compile together. -/
theorem Faulty.not_builds {options : CompileOptions} {files : List ModelFile}
    (h : Faulty options files) (models : List CompiledModel) : ¬ Builds options files models := by
  rintro ⟨heach, hdistinct⟩
  have hcompiles : ∀ file ∈ files, ∃ model, compileFile options file = .ok model := by
    intro file hfile
    obtain ⟨i, hi⟩ := List.getElem?_of_mem hfile
    obtain ⟨model, -, hmodel⟩ := compileFile_getElem? heach hi
    exact ⟨model, hmodel⟩
  cases h with
  | @unreadable file error hmem hdocument =>
    obtain ⟨model, hmodel⟩ := hcompiles file hmem
    obtain ⟨document, hread, -⟩ := compileFile_ok_iff.mp hmodel
    rw [hdocument] at hread
    cases hread
  | @uncompiled file document error hmem hdocument hcompile =>
    obtain ⟨model, hmodel⟩ := hcompiles file hmem
    obtain ⟨found, hread, hfound⟩ := compileFile_ok_iff.mp hmodel
    rw [hdocument, Except.ok.injEq] at hread
    subst hread
    rw [hcompile] at hfound
    cases hfound
  | @repeated i j first second model other unit hij hi hj hfirst hsecond hunit hunit' =>
    obtain ⟨model', hmodel, hfirst'⟩ := compileFile_getElem? heach hi
    obtain ⟨other', hother, hsecond'⟩ := compileFile_getElem? heach hj
    rw [hfirst, Except.ok.injEq] at hfirst'
    rw [hsecond, Except.ok.injEq] at hsecond'
    subst hfirst' hsecond'
    obtain ⟨hi', rfl⟩ := List.getElem?_eq_some_iff.mp hmodel
    obtain ⟨hj', rfl⟩ := List.getElem?_eq_some_iff.mp hother
    have hapart := List.pairwise_iff_getElem.mp (List.nodup_flatMap.mp hdistinct).2 i j hi' hj' hij
    exact hapart hunit hunit'

/-! ## A document that compiles -/

/-- A class with its package. -/
def qualified (package name : String) : String :=
  if package.isEmpty then name else package ++ "." ++ name

namespace Parting

theorem ofJson?_render : Document.ofJson? document.toJson.render = some document := by
  have hnumbers : document.toJson.numbers = [] := rfl
  have hconstants : document.constants = [] := rfl
  have hdepth : (Datum.ofJson document.toJson).depth ≤ Json.nestingLimit := by decide +kernel
  have hlimit : Json.nestingLimit ≤ documentDepth := by decide
  rw [Document.ofJson?, Json.read_render hdepth (by simp [hnumbers]), Option.bind_some]
  exact Document.read?_toJson (by simp [hconstants]) (hdepth.trans hlimit)

theorem compile_eq (package : String) :
    ∃ text, document.compile ⟨package, .standard⟩ =
      .ok ⟨"parting", ⟨[(qualified package "Parting", text)]⟩⟩ := by
  let request : Request := ⟨document.dataDictionary, document.transformations, tree, []⟩
  have hrequest : Request.ofDocument document [] = .ok request := by
    simp only [Request.ofDocument, toTree_eq, request]
  have hresolve : request.dictionaries.resolve = .ok table := resolve_eq
  have hrules : request.rules = .ok ruleSet := by
    simp only [Request.rules, hresolve, Except.mapError, bind, Except.bind]
    rw [show request.tree = tree from rfl, show request.constraints = [] from rfl, derive_eq]
  obtain ⟨frame, hframe, hclass⟩ : ∃ frame, Source.Skeleton.standard.bind (.ofTree tree) =
      .ok frame ∧ frame.className = "Parting" := ⟨_, rfl, by decide +kernel⟩
  obtain ⟨unit, hunit, hname⟩ : ∃ unit, ruleSet.unit? frame package = some unit ∧
      unit.qualifiedName = qualified package "Parting" :=
    ⟨_, rfl, by rw [ScoringUnit.qualifiedName, qualified, hclass]⟩
  have hmade : request.unit ⟨package, .standard⟩ = .ok unit := by
    simp only [Request.unit, hrules, bind, Except.bind]
    rw [show request.tree = tree from rfl, hframe]
    simp only [Except.mapError, hunit]
  refine ⟨unit.text, ?_⟩
  simp only [Document.compile, hrequest, Request.compile, hmade, bind, Except.bind, hname]
  rfl

/-- A file with the text of the document. -/
theorem compileFile_eq {path : String} (hextension : Path.extension? path = some "json")
    {options : CompileOptions} {model : CompiledModel} (h : document.compile options = .ok model) :
    compileFile options ⟨path, some document.toJson.render⟩ = .ok model := by
  refine compileFile_ok_iff.mpr ⟨document, ?_, h⟩
  simp only [ModelFile.document, hextension, if_true, ofJson?_render]

end Parting

/-! ## Over files in memory -/

/-- The text of a file. -/
def Content.text? : Content → Option String
  | .text s => some s
  | _ => none

theorem run_bind_of_eq {α β : Type} {action : StateM Files α} {next : α → StateM Files β}
    {files files' : Files} {a : α} (h : action.run files = (a, files')) :
    (action >>= next).run files = (next a).run files' := by
  rw [StateT.run_bind, h]
  rfl

/-- The action changes nothing. -/
def ReadOnly {α : Type} (action : StateM Files α) : Prop := ∀ files, (action.run files).2 = files

namespace ReadOnly

theorem pure {α : Type} (a : α) : ReadOnly (Pure.pure a) := fun _ => rfl

theorem bind {α β : Type} {action : StateM Files α} {next : α → StateM Files β}
    (h : ReadOnly action) (hnext : ∀ a, ReadOnly (next a)) : ReadOnly (action >>= next) := by
  intro files
  rw [StateT.run_bind]
  exact (hnext _ _).trans (h files)

/-- The action is its answer. -/
theorem run_eq {α : Type} {action : StateM Files α} (h : ReadOnly action) (files : Files) :
    action.run files = ((action.run files).1, files) :=
  Prod.ext rfl (h files)

theorem kind? (path : String) : ReadOnly (FileStore.kind? path) := fun _ => rfl

theorem read? (path : String) : ReadOnly (FileStore.read? path) := by
  refine bind (fun _ => rfl) fun files => ?_
  split <;> exact pure _

theorem filesAt (path : String) : ReadOnly (FileStore.filesAt path) := fun _ => rfl

theorem load (path : String) : ReadOnly (Config.load path) := by
  refine bind (kind? path) fun kind => bind (kind? _) fun there => ?_
  split
  · exact pure _
  · refine bind (read? _) fun text => ?_
    split <;> exact pure _

theorem readFiles : ∀ paths : List String, ReadOnly (readFiles paths)
  | [] => pure _
  | path :: rest => bind (read? path) fun _ => bind (readFiles rest) fun _ => pure _

theorem documentsAt (path : String) : ReadOnly (documentsAt path) :=
  bind (bind (filesAt path) fun _ => pure _) readFiles

end ReadOnly

namespace Files

/-- The configuration at a path. -/
def config? (files : Files) (path : String) : Except ProjectError Config :=
  ((Config.load path : StateM Files _).run files).1

/-- The documents at or below a path. -/
def documents (files : Files) (path : String) : List ModelFile :=
  ((documentsAt path : StateM Files _).run files).1

/-- What a command reports, and the files after it. -/
def perform (files : Files) (invocation : Invocation) : Report × Files :=
  (invocation.run : StateM Files Report).run files

theorem read?_run (files : Files) (path : String) :
    (FileStore.read? path : StateM Files _).run files =
      ((files.at? path).bind Content.text?, files) := by
  have hget : (get : StateM Files Files).run files = (files, files) := rfl
  simp only [FileStore.read?]
  rw [run_bind_of_eq hget]
  cases files.at? path with
  | none => rfl
  | some content => cases content <;> rfl

/-- The text of the configuration that a path leads to, with the folder of its project. -/
theorem config?_ok_iff {files : Files} {path : String} {config : Config} :
    files.config? path = .ok config ↔
      ∃ text, files.at? (Config.whereabouts path ((files.at? path).map Content.kind)).1 =
          some (.text text) ∧
        Config.ofText (Config.whereabouts path ((files.at? path).map Content.kind)).2 text =
          .ok config := by
  have hkind : ∀ path, (FileStore.kind? path : StateM Files _).run files =
      ((files.at? path).map Content.kind, files) := fun _ => rfl
  rw [config?, Config.load, run_bind_of_eq (hkind path), run_bind_of_eq (hkind _)]
  generalize Config.whereabouts path ((files.at? path).map Content.kind) = target
  have hread := read?_run files target.1
  cases hat : files.at? target.1 with
  | none => simp
  | some content =>
    rw [hat, Option.bind_some] at hread
    simp only [Option.map_some, Option.isNone_some, Bool.false_eq_true, if_false,
      Option.some.injEq]
    rw [run_bind_of_eq hread]
    cases content with
    | folder => simp [Content.text?]
    | binary => simp [Content.text?]
    | text s =>
      simp only [Content.text?, Content.text.injEq, exists_eq_left']
      rfl

theorem readFiles_run (files : Files) (paths : List String) :
    (readFiles paths : StateM Files _).run files =
      (paths.map fun path => ⟨path, (files.at? path).bind Content.text?⟩, files) := by
  induction paths with
  | nil => rfl
  | cons path rest ih =>
    rw [readFiles, run_bind_of_eq (read?_run files path), run_bind_of_eq ih]
    rfl

/-- The documents are the files at or below the path that look like documents, with their texts. -/
theorem documents_eq (files : Files) (path : String) :
    files.documents path =
      (((files.filesAt path).filter isDocumentPath).mergeSort fun a b =>
        (Path.order a b).isLE).map fun path => ⟨path, (files.at? path).bind Content.text?⟩ :=
  congrArg Prod.fst (readFiles_run files _)

theorem documents_paths (files : Files) (path : String) :
    (files.documents path).map (·.path) =
      ((files.filesAt path).filter isDocumentPath).mergeSort fun a b => (Path.order a b).isLE := by
  rw [documents_eq, List.map_map]
  exact List.map_id _

theorem documents_perm (files : Files) (path : String) :
    ((files.documents path).map (·.path)).Perm ((files.filesAt path).filter isDocumentPath) := by
  rw [documents_paths]
  exact List.mergeSort_perm _ _

theorem documents_sorted (files : Files) (path : String) :
    (files.documents path).Pairwise fun a b => (Path.order a.path b.path).isLE = true := by
  have hsorted : ((files.documents path).map (·.path)).Pairwise
      fun a b => (Path.order a b).isLE = true := by
    rw [documents_paths]
    refine List.pairwise_mergeSort (fun _ _ _ => Std.TransCmp.isLE_trans) ?_ _
    intro a b
    have hswap : Path.order b a = (Path.order a b).swap := Std.OrientedCmp.eq_swap
    rw [hswap]
    cases Path.order a b <;> rfl
  exact List.pairwise_map.mp hsorted

theorem loadProject_run {files : Files} {path : String} {config : Config}
    (h : files.config? path = .ok config) :
    (loadProject path : StateM Files _).run files =
      (.ok (config, files.documents config.modelsFolder), files) := by
  have hload : (Config.load path : StateM Files _).run files = (.ok config, files) :=
    Prod.ext h (ReadOnly.load path files)
  rw [loadProject, run_bind_of_eq hload]
  exact run_bind_of_eq ((ReadOnly.documentsAt config.modelsFolder).run_eq files)

theorem validate_run {files : Files} {path : String} {config : Config}
    (h : files.config? path = .ok config) (verbose : Bool) :
    files.perform ⟨path, verbose, .validate⟩ =
      (.ofResult (validateFiles config (files.documents config.modelsFolder)), files) := by
  rw [perform, Invocation.run, validateProject, run_bind_of_eq (loadProject_run h)]
  rfl

/-- A compilation that fails writes nothing. -/
theorem compile_perform_error {files : Files} {path : String} {config : Config}
    (h : files.config? path = .ok config) (verbose : Bool) {model package : Option String}
    (output : Option String) {failure : Failure}
    (hcompile : compileFiles config model package (files.documents config.modelsFolder) =
      .error failure) :
    files.perform ⟨path, verbose, .compile model package output⟩ = (⟨[], some failure⟩, files) := by
  change (compileProject path model package output : StateM Files Report).run files = _
  unfold compileProject
  rw [run_bind_of_eq (loadProject_run h)]
  simp only [hcompile]
  rfl

/-- Documents with a fault end the compilation before anything is written. -/
theorem compile_run {files : Files} {path : String} {config : Config}
    (h : files.config? path = .ok config) (verbose : Bool) (package output : Option String)
    (hfaulty : Faulty ⟨package.getD config.settings.package, .standard⟩
      (files.documents config.modelsFolder)) :
    ∃ failure, files.perform ⟨path, verbose, .compile none package output⟩ =
      (⟨[], some failure⟩, files) := by
  cases hcompile : compileFiles config none package (files.documents config.modelsFolder) with
  | ok models =>
    simp only [compileFiles] at hcompile
    rw [within_ok_iff, compileAll_ok_iff] at hcompile
    exact absurd hcompile (hfaulty.not_builds models)
  | error failure => exact ⟨failure, compile_perform_error h verbose output hcompile⟩

/-- A project whose configuration loads is accepted by validation exactly when all documents at or
below its folder of models compile together under the package it declares. Compiling them gives one
model for each document, in the order of paths, and no unit twice. Where a document cannot be read,
does not compile or repeats a unit, the command that compiles fails and leaves all files as they
were. -/
theorem validate_iff_compile {files : Files} {path : String} {config : Config}
    (h : files.config? path = .ok config) (verbose : Bool) :
    ((files.perform ⟨path, verbose, .validate⟩).1.failure = none ↔
      ∃ models, compileAll ⟨config.settings.package, .standard⟩
        (files.documents config.modelsFolder) = .ok models) ∧
    (∀ options models,
      compileAll options (files.documents config.modelsFolder) = .ok models →
        List.Forall₂ (fun file model => compileFile options file = .ok model)
          (files.documents config.modelsFolder) models ∧
        ((files.documents config.modelsFolder).map (·.path)).Perm
          ((files.filesAt config.modelsFolder).filter isDocumentPath) ∧
        (files.documents config.modelsFolder).Pairwise
          (fun a b => (Path.order a.path b.path).isLE = true) ∧
        (models.flatMap CompiledModel.unitNames).Nodup) ∧
    ∀ package output,
      Faulty ⟨package.getD config.settings.package, .standard⟩
        (files.documents config.modelsFolder) →
      ∃ failure, files.perform ⟨path, verbose, .compile none package output⟩ =
        (⟨[], some failure⟩, files) := by
  refine ⟨?_, ?_, fun package output => compile_run h verbose package output⟩
  · simp only [compileAll_ok_iff, ← validateFiles_ok_iff, validate_run h]
    cases validateFiles config (files.documents config.modelsFolder) <;> simp [Report.ofResult]
  · intro options models hcompile
    obtain ⟨heach, hdistinct⟩ := (compileAll_ok_iff _ _ _).mp hcompile
    exact ⟨heach, files.documents_perm _, files.documents_sorted _, hdistinct⟩

/-- The configuration of a project that declares its name only. -/
def plainConfig : Config :=
  ⟨⟨"p", "0.1.0", "org.treeforge.generated", "models", "generated"⟩, ""⟩

theorem plain_config {files : Files} (hat : files.at? "treeforge.yaml" = some (.text "name: p")) :
    files.config? "treeforge.yaml" = .ok plainConfig := by
  have hkind : Config.whereabouts "treeforge.yaml" (some (Content.text "name: p").kind) =
      ("treeforge.yaml", "") := by decide +kernel
  rw [config?_ok_iff, hat, Option.map_some, hkind]
  exact ⟨"name: p", hat, by decide +kernel⟩

/-- A project with two copies of the document that was worked out. Each compiles alone. -/
def twins : Files :=
  ⟨[(["work", "models", "a.json"], .text Parting.document.toJson.render),
    (["work", "models", "b.json"], .text Parting.document.toJson.render),
    (["work", "models"], .folder), (["work", "treeforge.yaml"], .text "name: p"),
    (["work"], .folder)], ["work"]⟩

theorem twins_config : twins.config? "treeforge.yaml" = .ok plainConfig :=
  plain_config (by decide +kernel)

theorem twins_documents : twins.documents plainConfig.modelsFolder =
    [⟨"models/a.json", some Parting.document.toJson.render⟩,
      ⟨"models/b.json", some Parting.document.toJson.render⟩] := by
  have hfolder : plainConfig.modelsFolder = "models" := by decide +kernel
  have hfiles : (twins.filesAt "models").filter isDocumentPath =
      ["models/a.json", "models/b.json"] := by decide +kernel
  have hsorted : ["models/a.json", "models/b.json"].Pairwise fun a b =>
      (Path.order a b).isLE = true := by decide +kernel
  have hfirst : twins.locate? "models/a.json" = some ["work", "models", "a.json"] := by
    decide +kernel
  have hsecond : twins.locate? "models/b.json" = some ["work", "models", "b.json"] := by
    decide +kernel
  rw [hfolder, documents_eq, hfiles, List.mergeSort_of_pairwise hsorted, List.map_cons,
    List.map_singleton, at?, at?, hfirst, hsecond]
  rfl

theorem validate_iff_compile_twins :
    twins.config? "treeforge.yaml" = .ok plainConfig ∧
      (∀ file ∈ twins.documents plainConfig.modelsFolder,
        ∃ model, compileFile ⟨plainConfig.settings.package, .standard⟩ file = .ok model) ∧
      (twins.perform ⟨"treeforge.yaml", false, .validate⟩).1.failure ≠ none ∧
      ∃ failure, twins.perform ⟨"treeforge.yaml", false, .compile none none none⟩ =
        (⟨[], some failure⟩, twins) := by
  obtain ⟨text, htext⟩ := Parting.compile_eq plainConfig.settings.package
  have hfirst := Parting.compileFile_eq
    (show Path.extension? "models/a.json" = some "json" by decide +kernel) htext
  have hsecond := Parting.compileFile_eq
    (show Path.extension? "models/b.json" = some "json" by decide +kernel) htext
  have hfaulty : Faulty ⟨plainConfig.settings.package, .standard⟩
      (twins.documents plainConfig.modelsFolder) := by
    rw [twins_documents]
    exact .repeated Nat.zero_lt_one rfl rfl hfirst hsecond (List.mem_singleton_self _)
      (List.mem_singleton_self _)
  obtain ⟨haccepts, -, hfails⟩ := validate_iff_compile twins_config false
  refine ⟨twins_config, ?_, ?_, hfails none none hfaulty⟩
  · rw [twins_documents]
    simp only [List.forall_mem_cons, List.not_mem_nil, false_imp_iff, implies_true, and_true]
    exact ⟨⟨_, hfirst⟩, ⟨_, hsecond⟩⟩
  · intro hnone
    obtain ⟨models, hmodels⟩ := haccepts.mp hnone
    exact hfaulty.not_builds models ((compileAll_ok_iff _ _ _).mp hmodels)

end Files

end ScoringTree
