import ScoringTree.Proofs.ClassNames
import ScoringTree.Proofs.FileTree

/-!
# ScoringTree.Proofs.UnitFiles

Where generated units are written.

The path of a unit is the folder for output with a text behind it that has a slash for every dot of
the unit. What that is depends on the text alone: a package that starts with a dot or a slash makes
it an absolute path, which replaces the folder.

* `Package.pieces`  — what stands between the dots and slashes of a package.
* `Package.leaves`  — the package starts with a dot or a slash.
* `Package.isTidy`  — no part between dots is empty or has a slash.
* `Files.compile_writes`
                    — which files a compilation writes, and where.
-/

namespace ScoringTree

open Source in
/-- A model has one unit, whose class stands in the package that was asked for. -/
theorem Document.compile_qualified {document : Document} {options : CompileOptions}
    {model : CompiledModel} (h : document.compile options = .ok model) :
    ∃ name text, IsClassName name ∧
      model.sources.units = [(qualified options.package name, text)] := by
  obtain ⟨request, -, h⟩ := bind_ok h
  obtain ⟨unit, hunit, h⟩ := bind_ok h
  cases h
  obtain ⟨rules, -, hunit⟩ := bind_ok hunit
  obtain ⟨frame, hframe, hunit⟩ := bind_ok hunit
  split at hunit
  · rename_i made hmade
    cases hunit
    simp only [RuleSet.unit?] at hmade
    split at hmade
    · cases hmade
    · split at hmade
      · cases hmade
      · cases hmade
        exact ⟨_, _, isClassName_of_bind (mapError_ok hframe), rfl⟩
  · cases hunit

/-! ## Paths of units -/

namespace Package

/-- What stands between dots; nothing for the empty package. -/
def parts (package : String) : List String :=
  if package.isEmpty then [] else (package.toList.splitOn '.').map String.ofList

def isBreak (c : Char) : Bool := c == '.' || c == '/'

/-- What stands between dots and slashes, unless it is empty. -/
def pieces (package : String) : List String :=
  ((package.toList.splitOnP isBreak).filter (!·.isEmpty)).map String.ofList

/-- The package starts with a dot or a slash. -/
def leaves (package : String) : Bool := (package.toList.head?.map isBreak).getD false

/-- No part between dots is empty or has a slash. -/
def isTidy (package : String) : Bool :=
  (parts package).all fun part => !part.isEmpty && !part.toList.contains '/'

/-- The file name of a class. -/
def file (name : String) : String := name ++ ".java"

theorem splitOnP_congr {p q : Char → Bool} {cs : List Char} (h : ∀ c ∈ cs, p c = q c) :
    cs.splitOnP p = cs.splitOnP q := by
  induction cs with
  | nil => rfl
  | cons c cs ih =>
    rw [List.splitOnP_cons_eq_if_modifyHead, List.splitOnP_cons_eq_if_modifyHead,
      h c (by simp), ih fun d hd => h d (List.mem_cons_of_mem _ hd)]

theorem not_mem_of_splitOnP {p : Char → Bool} {cs piece : List Char} (h : piece ∈ cs.splitOnP p) :
    ∀ c ∈ piece, p c = false := by
  induction cs generalizing piece with
  | nil =>
    rw [List.splitOnP_nil, List.mem_singleton] at h
    subst h
    simp
  | cons d ds ih =>
    rw [List.splitOnP_cons_eq_if_modifyHead] at h
    obtain ⟨first, rest, hsplit⟩ := List.exists_cons_of_ne_nil (List.splitOnP_ne_nil p ds)
    rw [hsplit] at ih h
    split at h
    · rcases List.mem_cons.mp h with rfl | hrest
      · simp
      · exact ih hrest
    · rename_i hd
      rw [List.modifyHead_cons, List.mem_cons] at h
      rcases h with rfl | hrest
      · intro c hc
        rcases List.mem_cons.mp hc with rfl | hc
        · simpa using hd
        · exact ih (by simp) c hc
      · exact ih (List.mem_cons_of_mem _ hrest)

theorem exists_mem_splitOn {a c : Char} {cs : List Char} (hne : c ≠ a) (hc : c ∈ cs) :
    ∃ piece ∈ cs.splitOn a, c ∈ piece := by
  induction cs with
  | nil => cases hc
  | cons d ds ih =>
    obtain ⟨first, rest, hsplit⟩ := List.exists_cons_of_ne_nil (List.splitOn_ne_nil a ds)
    rw [List.splitOn_cons_eq_if_modifyHead, hsplit]
    rw [hsplit] at ih
    split
    · rename_i hd
      rw [beq_iff_eq] at hd
      subst hd
      obtain ⟨piece, hpiece, hmem⟩ := ih ((List.mem_cons.mp hc).resolve_left hne)
      exact ⟨piece, List.mem_cons_of_mem _ hpiece, hmem⟩
    · rw [List.modifyHead_cons]
      rcases List.mem_cons.mp hc with rfl | hc
      · exact ⟨c :: first, by simp, by simp⟩
      · obtain ⟨piece, hpiece, hmem⟩ := ih hc
        rcases List.mem_cons.mp hpiece with rfl | hpiece
        · exact ⟨d :: piece, by simp, List.mem_cons_of_mem _ hmem⟩
        · exact ⟨piece, List.mem_cons_of_mem _ hpiece, hmem⟩

theorem toList_slashed (unit : String) :
    (slashed unit).toList = unit.toList.map fun c => if c = '.' then '/' else c :=
  String.toList_ofList

/-- With a slash for every dot, a text is split at its dots and slashes. -/
theorem segments_slashed (unit : String) :
    Path.segments (slashed unit) = (unit.toList.splitOnP isBreak).map String.ofList := by
  rw [Path.segments, toList_slashed]
  congr 1
  induction unit.toList with
  | nil => rfl
  | cons c cs ih =>
    rw [List.map_cons, List.splitOn_cons_eq_if_modifyHead, List.splitOnP_cons_eq_if_modifyHead, ih]
    by_cases hdot : c = '.'
    · simp [isBreak, hdot]
    · by_cases hslash : c = '/'
      · simp [isBreak, hslash]
      · simp [isBreak, hdot, hslash]

theorem slashed_of_isClassName {name : String} (h : Source.IsClassName name) :
    slashed name = name := by
  rw [← String.toList_inj, toList_slashed]
  refine (List.map_congr_left fun c hc => ?_).trans (List.map_id _)
  rw [if_neg]
  · rfl
  · rintro rfl
    exact absurd (h.alphanumeric _ hc) (by decide)

/-- The text behind the folder for output. -/
theorem slashed_qualified (package : String) {name : String} (h : Source.IsClassName name) :
    slashed (qualified package name) ++ ".java" =
      if package.isEmpty then file name else slashed package ++ "/" ++ file name := by
  rw [qualified, file]
  split
  · rw [slashed_of_isClassName h]
  · have hsplit : slashed (package ++ "." ++ name) = slashed package ++ "/" ++ slashed name := by
      rw [← String.toList_inj]
      simp [toList_slashed]
    rw [hsplit, slashed_of_isClassName h, String.append_assoc]

theorem not_slash_file {name : String} (h : Source.IsClassName name) : '/' ∉ (file name).toList := by
  rw [file, String.toList_append, List.mem_append]
  rintro (hmem | hmem)
  · exact absurd (h.alphanumeric _ hmem) (by decide)
  · revert hmem
    decide

theorem component?_file {name : String} (h : Source.IsClassName name) :
    Path.component? (file name) = some (.name (file name)) := by
  obtain ⟨c, cs, hcs⟩ := List.exists_cons_of_ne_nil (String.toList_eq_nil_iff.not.mpr h.nonempty)
  have hc : c.isAlphanum = true := h.alphanumeric c (by simp [hcs])
  have hne : ∀ s : String, (s.toList.head?.map Char.isAlphanum).getD false = false →
      (file name == s) = false := by
    intro s hs
    rw [beq_eq_false_iff_ne]
    rintro rfl
    rw [file, String.toList_append, hcs] at hs
    simp [hc] at hs
  rw [Path.component?, hne "" rfl, hne "." (by decide), hne ".." (by decide)]
  rfl

theorem component?_piece {piece : List Char} (h : ∀ c ∈ piece, isBreak c = false) :
    Path.component? (String.ofList piece) =
      if piece.isEmpty then none else some (.name (String.ofList piece)) := by
  cases piece with
  | nil => rfl
  | cons c cs =>
    have hdot : c ≠ '.' := by
      rintro rfl
      exact absurd (h '.' (by simp)) (by decide)
    have hne : ∀ s : String, (s = "" ∨ s.toList.head? = some '.') →
        (String.ofList (c :: cs) == s) = false := by
      intro s hs
      rw [beq_eq_false_iff_ne]
      rintro rfl
      rcases hs with hs | hs
      · rw [← String.toList_inj, String.toList_ofList] at hs
        cases hs
      · rw [String.toList_ofList, List.head?_cons, Option.some.injEq] at hs
        exact hdot hs
    rw [Path.component?, hne "" (by simp), hne "." (by simp), hne ".." (by simp)]
    rfl

theorem filterMap_component? (package : String) :
    ((package.toList.splitOnP isBreak).map String.ofList).filterMap Path.component? =
      (pieces package).map .name := by
  have hpieces := @not_mem_of_splitOnP isBreak package.toList
  rw [pieces]
  generalize package.toList.splitOnP isBreak = all at hpieces ⊢
  induction all with
  | nil => rfl
  | cons piece rest ih =>
    have hrest := ih fun {other} hother => hpieces (List.mem_cons_of_mem _ hother)
    have hpiece := component?_piece (hpieces (List.mem_cons_self (l := rest)))
    rw [List.map_cons, List.filterMap_cons, hpiece, List.filter_cons]
    cases hempty : piece.isEmpty
    · simp [hrest]
    · simp [hrest]

theorem filterMap_segments (package : String) {name : String} (h : Source.IsClassName name) :
    (Path.segments (slashed (qualified package name) ++ ".java")).filterMap Path.component? =
      (pieces package ++ [file name]).map .name := by
  have hfile := Path.segments_of_not_mem (not_slash_file h)
  rw [slashed_qualified package h]
  split
  · rename_i hempty
    have hnothing : pieces package = [] := by
      rw [String.isEmpty_iff.mp hempty]
      rfl
    rw [hnothing]
    rw [hfile]
    simp [component?_file h]
  · rw [Path.segments_slash, hfile, segments_slashed, List.filterMap_append,
      filterMap_component?]
    simp [component?_file h]

theorem isAbsolute_unit (package : String) {name : String} (h : Source.IsClassName name) :
    Path.isAbsolute (slashed (qualified package name) ++ ".java") = leaves package := by
  rw [slashed_qualified package h]
  split
  · rename_i hempty
    obtain ⟨c, cs, hcs⟩ := List.exists_cons_of_ne_nil (String.toList_eq_nil_iff.not.mpr h.nonempty)
    have hc : c ≠ '/' := by
      rintro rfl
      exact absurd (h.alphanumeric '/' (by simp [hcs])) (by decide)
    rw [String.isEmpty_iff.mp hempty]
    simp [Path.isAbsolute, leaves, file, hcs, hc]
  · rename_i hfull
    rw [String.isEmpty_iff] at hfull
    obtain ⟨c, cs, hcs⟩ := List.exists_cons_of_ne_nil (String.toList_eq_nil_iff.not.mpr hfull)
    simp only [Path.isAbsolute, leaves, String.toList_append, toList_slashed, hcs, List.map_cons,
      List.cons_append, List.head?_cons, Option.map_some, Option.getD_some, isBreak]
    by_cases hdot : c = '.'
    · simp [hdot]
    · simp [hdot]

theorem head?_unit_ne_dot (package : String) {name : String} (h : Source.IsClassName name) :
    (Path.segments (slashed (qualified package name) ++ ".java")).head? ≠ some "." := by
  have hfile := Path.segments_of_not_mem (not_slash_file h)
  have hdot : file name ≠ "." := by
    intro heq
    have hcomponent := component?_file h
    rw [heq] at hcomponent
    cases hcomponent
  rw [slashed_qualified package h]
  split
  · simp [hfile, hdot]
  · rw [Path.segments_slash, segments_slashed]
    obtain ⟨first, rest, hsplit⟩ :=
      List.exists_cons_of_ne_nil (List.splitOnP_ne_nil isBreak package.toList)
    have hfirst := not_mem_of_splitOnP (hsplit ▸ List.mem_cons_self : first ∈ _)
    rw [hsplit, List.map_cons, List.cons_append, List.head?_cons, Ne, Option.some.injEq,
      ← String.toList_inj, String.toList_ofList]
    intro heq
    rw [heq] at hfirst
    exact absurd (hfirst '.' (by simp)) (by decide)

/-- The path of a unit goes down from the folder, or from the root if the package starts with a dot
or a slash. -/
theorem components_unitPath (folder package : String) {name : String}
    (h : Source.IsClassName name) :
    Path.components (unitPath folder (qualified package name)) =
      (if leaves package then [.root] else Path.components folder) ++
        (pieces package ++ [file name]).map .name := by
  have hsegments := filterMap_segments package h
  have habsolute := isAbsolute_unit package h
  rw [unitPath]
  cases hleaves : leaves package with
  | true =>
    rw [hleaves] at habsolute
    rw [Path.join_of_isAbsolute folder habsolute, Path.components, habsolute, hsegments,
      if_pos rfl, if_pos rfl]
  | false =>
    rw [hleaves] at habsolute
    rw [Path.components_join folder habsolute (head?_unit_ne_dot package h), hsegments,
      if_neg Bool.false_ne_true]

/-! ## Tidy packages -/

theorem isTidy_iff (package : String) :
    isTidy package = true ↔ ∀ part ∈ parts package, part ≠ "" ∧ '/' ∉ part.toList := by
  simp [isTidy]

theorem slash_not_mem {package : String} (h : isTidy package = true) : '/' ∉ package.toList := by
  intro hslash
  obtain ⟨piece, hpiece, hmem⟩ := exists_mem_splitOn (by decide : '/' ≠ '.') hslash
  have hempty : package.isEmpty = false := by
    rw [Bool.eq_false_iff, Ne, String.isEmpty_iff]
    rintro rfl
    cases hslash
  have hpart : String.ofList piece ∈ parts package := by
    rw [parts, hempty, if_neg Bool.false_ne_true]
    exact List.mem_map_of_mem hpiece
  have hplain := ((isTidy_iff package).mp h _ hpart).2
  rw [String.toList_ofList] at hplain
  exact hplain hmem

theorem pieces_of_isTidy {package : String} (h : isTidy package = true) :
    pieces package = parts package := by
  have hslash := slash_not_mem h
  have hsplit : package.toList.splitOnP isBreak = package.toList.splitOn '.' := by
    rw [List.splitOn_eq_splitOnP]
    refine splitOnP_congr fun c hc => ?_
    have hne : c ≠ '/' := by
      rintro rfl
      exact hslash hc
    simp [isBreak, hne]
  rw [pieces, parts, hsplit]
  split
  · rename_i hempty
    rw [String.isEmpty_iff.mp hempty]
    rfl
  · rename_i hfull
    rw [List.filter_eq_self.mpr]
    intro piece hpiece
    have hpart : String.ofList piece ∈ parts package := by
      rw [parts, if_neg hfull]
      exact List.mem_map_of_mem hpiece
    have hne := ((isTidy_iff package).mp h _ hpart).1
    cases piece with
    | nil => exact absurd rfl hne
    | cons c cs => rfl

theorem leaves_of_isTidy {package : String} (h : isTidy package = true) :
    leaves package = false := by
  have hslash := slash_not_mem h
  cases hcs : package.toList with
  | nil => simp [leaves, hcs]
  | cons c cs =>
    have hne : c ≠ '/' := by
      rintro rfl
      exact hslash (by simp [hcs])
    have hdot : c ≠ '.' := by
      rintro rfl
      have hempty : package.isEmpty = false := by
        rw [Bool.eq_false_iff, Ne, String.isEmpty_iff]
        rintro rfl
        cases hcs
      have hpart : "" ∈ parts package := by
        rw [parts, hempty, if_neg Bool.false_ne_true, hcs, List.splitOn_cons_eq_if_modifyHead]
        simp
      exact ((isTidy_iff package).mp h "" hpart).1 rfl
    simp [leaves, hcs, isBreak, hne, hdot]

theorem isTidy_of_isPackage {package : String} (h : isPackage package = true) :
    isTidy package = true := by
  rw [isTidy_iff]
  intro part hpart
  have hparts : part ∈ (package.toList.splitOn '.').map String.ofList := by
    rw [parts] at hpart
    split at hpart
    · cases hpart
    · exact hpart
  obtain ⟨piece, hpiece, rfl⟩ := List.mem_map.mp hparts
  have hidentifier := List.all_eq_true.mp h piece hpiece
  cases piece with
  | nil => cases hidentifier
  | cons c cs =>
    simp only [isIdentifier, Bool.and_eq_true, List.all_eq_true] at hidentifier
    refine ⟨fun hempty => ?_, ?_⟩
    · have hnil := congrArg String.toList hempty
      rw [String.toList_ofList] at hnil
      cases hnil
    · rw [String.toList_ofList]
      intro hslash
      rcases List.mem_cons.mp hslash with rfl | hslash
      · exact absurd hidentifier.1 (by decide)
      · exact absurd (hidentifier.2 '/' hslash) (by decide)

theorem of_name_mem_components {path s : String} (h : .name s ∈ Path.components path) :
    s ≠ "" ∧ '/' ∉ s.toList := by
  have hmem : Path.Component.name s ∈ (Path.segments path).filterMap Path.component? := by
    rw [Path.components, List.mem_append] at h
    refine h.resolve_left fun hfirst => ?_
    split at hfirst
    · simp at hfirst
    · split at hfirst <;> simp at hfirst
  obtain ⟨segment, hsegment, hcomponent⟩ := List.mem_filterMap.mp hmem
  obtain ⟨piece, hpiece, rfl⟩ := List.mem_map.mp hsegment
  rw [List.splitOn_eq_splitOnP] at hpiece
  have hplain := not_mem_of_splitOnP hpiece
  simp only [Path.component?] at hcomponent
  split at hcomponent
  · cases hcomponent
  · rename_i hne
    split at hcomponent
    · cases hcomponent
    · cases hcomponent
      rw [String.toList_ofList]
      refine ⟨fun hempty => hne (by simp [hempty]), fun hslash => ?_⟩
      exact absurd (hplain '/' hslash) (by simp)

/-- The path of a unit is the folder, a component for every part of the package, and the file,
exactly if the package is tidy. -/
theorem components_unitPath_iff (folder package : String) {name : String}
    (h : Source.IsClassName name) :
    Path.components (unitPath folder (qualified package name)) =
        Path.components folder ++ (parts package ++ [file name]).map .name ↔
      isTidy package = true := by
  constructor
  · intro heq
    rw [isTidy_iff]
    intro part hpart
    apply @of_name_mem_components (unitPath folder (qualified package name))
    rw [heq, List.mem_append]
    exact Or.inr (List.mem_map_of_mem (List.mem_append_left _ hpart))
  · intro htidy
    rw [components_unitPath folder package h, leaves_of_isTidy htidy, pieces_of_isTidy htidy,
      if_neg Bool.false_ne_true]

theorem fileName?_unitPath (folder package : String) {name : String}
    (h : Source.IsClassName name) :
    Path.fileName? (unitPath folder (qualified package name)) = some (file name) := by
  rw [Path.fileName?, components_unitPath folder package h, List.map_append, ← List.append_assoc,
    List.map_singleton, List.getLast?_concat]

theorem file_injective {name name' : String} (h : file name = file name') : name = name' := by
  rw [file, file, ← String.toList_inj, String.toList_append, String.toList_append,
    List.append_left_inj, String.toList_inj] at h
  exact h

end Package

/-! ## Written files -/

namespace Files

open Source (IsClassName)

/-- The place that the paths of units start from. -/
def unitStart? (files : Files) (folder package : String) : Option Place :=
  if Package.leaves package then some []
  else if folder = "" then some files.home
  else files.locate? folder

/-- The file of a unit stands below the folder for output, a folder for every piece of the package
down, or as far below the top if the package starts with a dot or a slash. -/
theorem locate?_unitPath {files : Files} {folder package name : String} {place : Place}
    (hname : IsClassName name)
    (h : files.locate? (unitPath folder (qualified package name)) = some place) :
    ∃ start, files.unitStart? folder package = some start ∧
      place = start ++ (Package.pieces package ++ [Package.file name]) := by
  have hsegments := Package.filterMap_segments package hname
  have habsolute := Package.isAbsolute_unit package hname
  rw [unitPath] at h
  rw [unitStart?]
  split
  · rename_i hleaves
    rw [hleaves] at habsolute
    rw [Path.join_of_isAbsolute folder habsolute, locate?_eq_some_iff, origin, if_pos habsolute]
      at h
    exact ⟨[], rfl, walk_names hsegments h.2⟩
  · rename_i hleaves
    rw [Bool.not_eq_true] at hleaves
    rw [hleaves] at habsolute
    split
    · rename_i hfolder
      have hjoin : Path.join folder (slashed (qualified package name) ++ ".java") =
          slashed (qualified package name) ++ ".java" := by
        simp [Path.join, hfolder]
      rw [hjoin, locate?_eq_some_iff, origin, habsolute, if_neg Bool.false_ne_true] at h
      exact ⟨files.home, rfl, walk_names hsegments h.2⟩
    · rename_i hfolder
      obtain ⟨start, hstart, hwalk⟩ := locate?_join habsolute hfolder h
      exact ⟨start, hstart, walk_names hsegments hwalk⟩

theorem apart_unitPath {folder package name name' : String} (hname : IsClassName name)
    (hname' : IsClassName name') (hne : name ≠ name') :
    Apart (unitPath folder (qualified package name)) (unitPath folder (qualified package name')) :=
  apart_of_fileName? (Package.fileName?_unitPath folder package hname)
    (Package.fileName?_unitPath folder package hname') fun h => hne (Package.file_injective h)

theorem writeSource_run (files : Files) (path text : String) :
    ∃ done after, (writeSource path text : StateM Files Bool).run files = (done, after) ∧
      Saves [(path, text)] done files after := by
  have hmade : ∃ (ready : Bool) (between : Files), Touches [path] files between ∧
      (writeSource path text : StateM Files Bool).run files =
        (if ready then between.write path (.text text) else (false, between)) := by
    rw [writeSource]
    cases Path.parent? path with
    | none => exact ⟨true, files, .refl _ _, rfl⟩
    | some parent =>
      have hfolders : (FileStore.makeFolders parent : StateM Files Bool).run files =
        ((files.makeFolders parent).1, (files.makeFolders parent).2) := rfl
      refine ⟨(files.makeFolders parent).1, (files.makeFolders parent).2,
        (touches_makeFolders files parent).mono (by simp), ?_⟩
      rw [run_bind_of_eq hfolders]
      cases (files.makeFolders parent).1 <;> rfl
  obtain ⟨ready, between, htouches, hrun⟩ := hmade
  cases ready with
  | false => exact ⟨false, between, hrun, htouches, nofun⟩
  | true =>
    rcases write_cases between path text with hfail | ⟨after, hwrite, hat, htouches'⟩
    · exact ⟨false, between, hrun.trans hfail, htouches, nofun⟩
    · refine ⟨true, after, hrun.trans hwrite, htouches.trans htouches', ?_⟩
      intro _ _ otherPath otherText hsource
      cases List.mem_singleton.mp hsource
      exact hat

theorem writeSources_run (files : Files) (sources : List (String × String)) :
    ∃ paths after,
      (writeSources sources : StateM Files (Option (List String))).run files = (paths, after) ∧
        Saves sources paths.isSome files after := by
  induction sources generalizing files with
  | nil => exact ⟨some [], files, rfl, .nil _ _⟩
  | cons source rest ih =>
    obtain ⟨path, text⟩ := source
    obtain ⟨done, between, hwrite, hsaves⟩ := writeSource_run files path text
    rw [writeSources, run_bind_of_eq hwrite]
    cases done with
    | false => exact ⟨none, between, rfl, hsaves.stop rest⟩
    | true =>
      obtain ⟨paths, after, hrest, hothers⟩ := ih between
      simp only [if_true]
      rw [run_bind_of_eq hrest]
      refine ⟨paths.map (path :: ·), after, rfl, ?_⟩
      rw [Option.isSome_map]
      exact hsaves.append hothers

theorem saveAll_run (files : Files) (folder : String) (models : List CompiledModel) :
    ∃ report after, (saveAll folder models : StateM Files Report).run files = (report, after) ∧
      Saves (models.flatMap (sourceFiles folder)) report.failure.isNone files after := by
  induction models generalizing files with
  | nil => exact ⟨⟨[], none⟩, files, rfl, .nil _ _⟩
  | cons model rest ih =>
    obtain ⟨paths, between, hwrite, hsaves⟩ := writeSources_run files (sourceFiles folder model)
    rw [saveAll, List.flatMap_cons]
    cases paths with
    | none =>
      have hsave : (saveSources folder model : StateM Files _).run files =
          (.error .system, between) := by
        rw [saveSources, run_bind_of_eq hwrite]
        rfl
      rw [run_bind_of_eq hsave]
      exact ⟨_, between, rfl, hsaves.stop _⟩
    | some paths =>
      have hsave : (saveSources folder model : StateM Files _).run files = (.ok paths, between) := by
        rw [saveSources, run_bind_of_eq hwrite]
        rfl
      obtain ⟨report, after, hrest, hothers⟩ := ih between
      rw [run_bind_of_eq hsave]
      exact ⟨report, after, hrest, hsaves.append hothers⟩

/-! ## Compilations -/

theorem exists_document {options : CompileOptions} {found : List ModelFile}
    {models : List CompiledModel}
    (h : List.Forall₂ (fun file model => compileFile options file = .ok model) found models) :
    ∀ model ∈ models, ∃ document, Document.compile document options = .ok model := by
  induction h with
  | nil => simp
  | cons hfile _ ih =>
    intro model hmodel
    rcases List.mem_cons.mp hmodel with rfl | hmodel
    · obtain ⟨document, -, hcompile⟩ := compileFile_ok_iff.mp hfile
      exact ⟨document, hcompile⟩
    · exact ih model hmodel

theorem exists_names {options : CompileOptions} {models : List CompiledModel}
    (h : ∀ model ∈ models, ∃ document, Document.compile document options = .ok model) :
    ∃ names : List String, (∀ name ∈ names, IsClassName name) ∧
      models.flatMap CompiledModel.unitNames = names.map (qualified options.package) := by
  induction models with
  | nil => exact ⟨[], by simp, rfl⟩
  | cons model rest ih =>
    obtain ⟨document, hcompile⟩ := h model (by simp)
    obtain ⟨name, text, hname, hunits⟩ := document.compile_qualified hcompile
    obtain ⟨names, hnames, hrest⟩ := ih fun other hother => h other (List.mem_cons_of_mem _ hother)
    refine ⟨name :: names, ?_, ?_⟩
    · intro other hother
      rcases List.mem_cons.mp hother with rfl | hother
      · exact hname
      · exact hnames other hother
    · rw [List.flatMap_cons, hrest, CompiledModel.unitNames, hunits]
      rfl

/-- The units of a run are classes of one package, no class twice. -/
theorem compileFiles_names {config : Config} {model package : Option String}
    {found : List ModelFile} {models : List CompiledModel}
    (h : compileFiles config model package found = .ok models) :
    ∃ names : List String, (∀ name ∈ names, IsClassName name) ∧ names.Nodup ∧
      models.flatMap CompiledModel.unitNames =
        names.map (qualified (package.getD config.settings.package)) := by
  have hdocuments : (∀ model ∈ models, ∃ document, Document.compile document
        ⟨package.getD config.settings.package, .standard⟩ = .ok model) ∧
      (models.flatMap CompiledModel.unitNames).Nodup := by
    cases model with
    | some name =>
      obtain ⟨document, -, h⟩ := bind_ok h
      obtain ⟨compiled, hcompile, h⟩ := bind_ok h
      cases h
      rw [within_ok_iff] at hcompile
      have hcompile := mapError_ok hcompile
      obtain ⟨unit, hunit⟩ := document.compile_unit hcompile
      refine ⟨fun other hother => ?_, by simp [CompiledModel.unitNames, hunit]⟩
      rw [List.mem_singleton.mp hother]
      exact ⟨document, hcompile⟩
    | none =>
      simp only [compileFiles] at h
      rw [within_ok_iff, compileAll_ok_iff] at h
      exact ⟨exists_document h.each, h.distinct⟩
  obtain ⟨names, hnames, hunits⟩ := exists_names hdocuments.1
  refine ⟨names, hnames, ?_, hunits⟩
  have hdistinct := hdocuments.2
  rw [hunits] at hdistinct
  exact hdistinct.of_map _

theorem isPackage_of_config? {files : Files} {path : String} {config : Config}
    (h : files.config? path = .ok config) : isPackage config.settings.package = true := by
  obtain ⟨text, -, hof⟩ := config?_ok_iff.mp h
  simp only [Config.ofText] at hof
  split at hof
  · cases hof
  · split at hof
    · rename_i hpackage
      cases hof
      exact hpackage
    · cases hof

/-- The folder that the units of a run are written to. -/
def outputFor (config : Config) (output : Option String) : String :=
  output.elim config.outputFolder (Path.join config.base)

theorem compile_perform_ok {files : Files} {path : String} {config : Config}
    (h : files.config? path = .ok config) (verbose : Bool) {model package : Option String}
    (output : Option String) {models : List CompiledModel}
    (hcompile : compileFiles config model package (files.documents config.modelsFolder) =
      .ok models) :
    files.perform ⟨path, verbose, .compile model package output⟩ =
      (saveAll (outputFor config output) models : StateM Files Report).run files := by
  change (compileProject path model package output : StateM Files Report).run files = _
  unfold compileProject
  rw [run_bind_of_eq (loadProject_run h)]
  simp only [hcompile]
  cases output <;> rfl

/-- The units that models generate in a package, by the names of their classes, and the paths of
their files. -/
structure UnitLayout (folder package : String) (models : List CompiledModel)
    (names : List String) : Prop where
  units : models.flatMap CompiledModel.unitNames = names.map (qualified package)
  components : ∀ name ∈ names, Path.components (unitPath folder (qualified package name)) =
    (if Package.leaves package then [.root] else Path.components folder) ++
      (Package.pieces package ++ [Package.file name]).map .name
  tidy : ∀ name ∈ names, (Path.components (unitPath folder (qualified package name)) =
      Path.components folder ++ (Package.parts package ++ [Package.file name]).map .name ↔
    Package.isTidy package = true)
  distinct : (names.map fun name =>
    Path.components (unitPath folder (qualified package name))).Nodup

theorem unitLayout {folder package : String} {models : List CompiledModel} {names : List String}
    (hnames : ∀ name ∈ names, IsClassName name) (hdistinct : names.Nodup)
    (hunits : models.flatMap CompiledModel.unitNames = names.map (qualified package)) :
    UnitLayout folder package models names where
  units := hunits
  components name hname := Package.components_unitPath folder package (hnames name hname)
  tidy name hname := Package.components_unitPath_iff folder package (hnames name hname)
  distinct := by
    refine hdistinct.map_on fun name hname name' hname' heq => ?_
    have hfile := Package.fileName?_unitPath folder package (hnames name hname)
    rw [Path.fileName?, heq, ← Path.fileName?,
      Package.fileName?_unitPath folder package (hnames name' hname'), Option.some.injEq] at hfile
    exact (Package.file_injective hfile).symm

theorem sourceFiles_paths (folder : String) {package : String} {models : List CompiledModel}
    {names : List String}
    (hunits : models.flatMap CompiledModel.unitNames = names.map (qualified package)) :
    (models.flatMap (sourceFiles folder)).map (·.1) =
      names.map fun name => unitPath folder (qualified package name) := by
  have hpaths : (models.flatMap (sourceFiles folder)).map (·.1) =
      (models.flatMap CompiledModel.unitNames).map (unitPath folder) := by
    rw [List.map_flatMap, List.map_flatMap]
    simp only [sourceFiles, CompiledModel.unitNames, List.map_map, Function.comp_def]
  rw [hpaths, hunits, List.map_map, Function.comp_def]

theorem pairwise_apart (folder : String) {package : String} {models : List CompiledModel}
    {names : List String} (hnames : ∀ name ∈ names, IsClassName name) (hdistinct : names.Nodup)
    (hunits : models.flatMap CompiledModel.unitNames = names.map (qualified package)) :
    (models.flatMap (sourceFiles folder)).Pairwise fun source other => Apart source.1 other.1 := by
  rw [← List.pairwise_map, sourceFiles_paths folder hunits, List.pairwise_map]
  refine hdistinct.imp_of_mem fun {name other} hname hother hne => ?_
  exact apart_unitPath (hnames name hname) (hnames other hother) hne

/-- What a compilation of a project writes. Nothing, if a document does not compile. Otherwise the
files of units, all of them if the run succeeds, and folders where nothing was. The files go down
from the folder for output by the pieces of the package, or from the root if the package starts with
a dot or a slash. They go down by one component for every part of the package exactly if it is tidy,
as every package is that a configuration declares. No two units of a run have one path. -/
theorem compile_writes {files : Files} {path : String} {config : Config}
    (h : files.config? path = .ok config) (verbose : Bool) (model package output : Option String) :
    let folder := outputFor config output
    let used := package.getD config.settings.package
    (package = none → Package.isTidy used = true) ∧
    (∀ failure,
      compileFiles config model package (files.documents config.modelsFolder) = .error failure →
        files.perform ⟨path, verbose, .compile model package output⟩ =
          (⟨[], some failure⟩, files)) ∧
    ∀ models,
      compileFiles config model package (files.documents config.modelsFolder) = .ok models →
        ∃ names report after, UnitLayout folder used models names ∧
          files.perform ⟨path, verbose, .compile model package output⟩ = (report, after) ∧
          (∀ place, after.get? place = files.get? place ∨
            (files.get? place = none ∧ after.get? place = some .folder) ∨
            ∃ name ∈ names, ∃ start, after.unitStart? folder used = some start ∧
              place = start ++ (Package.pieces used ++ [Package.file name])) ∧
          (report.failure = none → ∀ model ∈ models, ∀ unit ∈ model.sources.units,
            after.at? (unitPath folder unit.1) = some (.text unit.2)) := by
  intro folder used
  refine ⟨?_, fun failure hcompile => compile_perform_error h verbose output hcompile, ?_⟩
  · rintro rfl
    exact Package.isTidy_of_isPackage (isPackage_of_config? h)
  · intro models hcompile
    obtain ⟨names, hnames, hdistinct, hunits⟩ := compileFiles_names hcompile
    obtain ⟨report, after, hrun, hsaves⟩ := saveAll_run files (outputFor config output) models
    have hperform := (compile_perform_ok h verbose output hcompile).trans hrun
    refine ⟨names, report, after, unitLayout hnames hdistinct hunits, hperform, ?_, ?_⟩
    · intro place
      rcases hsaves.touches.place place with hsame | hnew | ⟨-, -, written, hwritten, hlocate⟩
      · exact Or.inl hsame
      · exact Or.inr (Or.inl hnew)
      · rw [sourceFiles_paths folder hunits] at hwritten
        obtain ⟨name, hname, rfl⟩ := List.mem_map.mp hwritten
        exact Or.inr (Or.inr ⟨name, hname, locate?_unitPath (hnames name hname) hlocate⟩)
    · intro hnone model hmodel unit hunit
      have hapart := pairwise_apart folder hnames hdistinct hunits
      have hmem : (unitPath folder unit.1, unit.2) ∈ models.flatMap (sourceFiles folder) :=
        List.mem_flatMap.mpr ⟨model, hmodel, List.mem_map.mpr ⟨unit, hunit, rfl⟩⟩
      exact hsaves.written (by simp [hnone]) hapart _ _ hmem

end Files

/-! ## A project with one document -/

namespace Files

/-- A project with that document, which declares no package. -/
def single : Files :=
  ⟨[(["work", "models", "a.json"], .text Parting.document.toJson.render),
    (["work", "models"], .folder), (["work", "treeforge.yaml"], .text "name: p"),
    (["work"], .folder)], ["work"]⟩

theorem single_config : single.config? "treeforge.yaml" = .ok plainConfig :=
  plain_config (by decide +kernel)

theorem single_documents : single.documents plainConfig.modelsFolder =
    [⟨"models/a.json", some Parting.document.toJson.render⟩] := by
  have hfolder : plainConfig.modelsFolder = "models" := by decide +kernel
  have hfiles : (single.filesAt "models").filter isDocumentPath = ["models/a.json"] := by
    decide +kernel
  have hlocate : single.locate? "models/a.json" = some ["work", "models", "a.json"] := by
    decide +kernel
  rw [hfolder, documents_eq, hfiles, List.mergeSort_singleton, List.map_singleton, at?, hlocate]
  rfl

theorem single_compiles (package : Option String) :
    ∃ text, compileFiles plainConfig none package (single.documents plainConfig.modelsFolder) =
      .ok [⟨"parting",
        ⟨[(qualified (package.getD plainConfig.settings.package) "Parting", text)]⟩⟩] := by
  obtain ⟨text, htext⟩ := Parting.compile_eq (package.getD plainConfig.settings.package)
  have hextension : Path.extension? "models/a.json" = some "json" := by decide +kernel
  refine ⟨text, ?_⟩
  rw [single_documents]
  simp only [compileFiles]
  rw [within_ok_iff, compileAll_ok_iff]
  exact ⟨.cons (Parting.compileFile_eq hextension htext) .nil, by simp [CompiledModel.unitNames]⟩

/-- A run that writes the file of the only unit, into folders that it makes. -/
theorem single_performs (package : Option String) {path parent : String} {place : Place}
    (hpath : unitPath (outputFor plainConfig none)
      (qualified (package.getD plainConfig.settings.package) "Parting") = path)
    (hparent : Path.parent? path = some parent)
    (hmade : (single.makeFolders parent).1 = true)
    (hlocate : (single.makeFolders parent).2.locate? path = some place)
    (hfree : (single.makeFolders parent).2.isFolder place = false) :
    ∃ text after,
      compileFiles plainConfig none package (single.documents plainConfig.modelsFolder) =
        .ok [⟨"parting",
          ⟨[(qualified (package.getD plainConfig.settings.package) "Parting", text)]⟩⟩] ∧
      single.perform ⟨"treeforge.yaml", false, .compile none package none⟩ =
        (⟨[], none⟩, after) ∧
      Extends (single.makeFolders parent).2 after ∧ after.at? path = some (.text text) := by
  obtain ⟨text, hcompile⟩ := single_compiles package
  have hfolders : (FileStore.makeFolders parent : StateM Files Bool).run single =
      (true, (single.makeFolders parent).2) := Prod.ext hmade rfl
  obtain ⟨after, hwrite, hat, htouches⟩ : ∃ after, (single.makeFolders parent).2.write path
      (.text text) = (true, after) ∧ after.at? path = some (.text text) ∧
        Touches [path] (single.makeFolders parent).2 after := by
    rcases write_cases (single.makeFolders parent).2 path text with hfail | hwritten
    · rw [write_of_locate? hlocate hfree] at hfail
      cases hfail
    · exact hwritten
  refine ⟨text, after, hcompile, ?_, htouches.toExtends, hat⟩
  rw [compile_perform_ok single_config false none hcompile]
  have hsource : (writeSource path text : StateM Files Bool).run single = (true, after) := by
    rw [writeSource, hparent]
    simp only
    rw [run_bind_of_eq hfolders]
    exact hwrite
  have hsources : (writeSources [(path, text)] : StateM Files _).run single =
      (some [path], after) := by
    rw [writeSources, run_bind_of_eq hsource]
    rfl
  have hsave : (saveSources (outputFor plainConfig none)
      ⟨"parting", ⟨[(qualified (package.getD plainConfig.settings.package) "Parting", text)]⟩⟩ :
        StateM Files _).run single = (.ok [path], after) := by
    rw [saveSources, sourceFiles, List.map_singleton, hpath, run_bind_of_eq hsources]
    rfl
  rw [saveAll]
  exact run_bind_of_eq hsave

/-- The run makes folders for the package and writes one file. -/
theorem compile_writes_single :
    single.config? "treeforge.yaml" = .ok plainConfig ∧
      Package.isTidy "org.treeforge.generated" = true ∧
      ∃ text after,
        compileFiles plainConfig none none (single.documents plainConfig.modelsFolder) =
          .ok [⟨"parting", ⟨[("org.treeforge.generated.Parting", text)]⟩⟩] ∧
        single.perform ⟨"treeforge.yaml", false, .compile none none none⟩ =
          (⟨[], none⟩, after) ∧
        after.at? "generated/org/treeforge/generated/Parting.java" = some (.text text) ∧
        ∀ place, after.get? place = single.get? place ∨
          (single.get? place = none ∧ after.get? place = some .folder) ∨
          place = ["work", "generated", "org", "treeforge", "generated", "Parting.java"] := by
  have hpackage : Option.getD none plainConfig.settings.package = "org.treeforge.generated" := rfl
  have hunit : qualified "org.treeforge.generated" "Parting" =
      "org.treeforge.generated.Parting" := by decide +kernel
  have hfolder : outputFor plainConfig none = "generated" := by decide +kernel
  have hpath : unitPath (outputFor plainConfig none) "org.treeforge.generated.Parting" =
      "generated/org/treeforge/generated/Parting.java" := by decide +kernel
  have hparent : Path.parent? "generated/org/treeforge/generated/Parting.java" =
      some "generated/org/treeforge/generated" := by decide +kernel
  have hlocate : (single.makeFolders "generated/org/treeforge/generated").2.locate?
      "generated/org/treeforge/generated/Parting.java" =
      some ["work", "generated", "org", "treeforge", "generated", "Parting.java"] := by
    decide +kernel
  obtain ⟨text, after, hcompile, hperform, hextends, -⟩ :=
    single_performs none ((congrArg _ hunit).trans hpath) hparent (by decide +kernel) hlocate
      (by decide +kernel)
  obtain ⟨htidy, -, hruns⟩ := compile_writes single_config false none none none
  obtain ⟨names, report, final, hlayout, hrun, hplaces, hwritten⟩ := hruns _ hcompile
  rw [hperform] at hrun
  cases hrun
  rw [hpackage] at htidy hcompile hlayout hplaces hwritten
  have hnames : ∀ name ∈ names, name = "Parting" := by
    intro name hname
    have hmem : qualified "org.treeforge.generated" name ∈
        names.map (qualified "org.treeforge.generated") := List.mem_map_of_mem hname
    rw [← hlayout.units] at hmem
    have hsame : qualified "org.treeforge.generated" name =
        qualified "org.treeforge.generated" "Parting" := List.mem_singleton.mp hmem
    rw [qualified, qualified, if_neg (by decide +kernel)] at hsame
    exact (String.append_right_inj _).mp hsame
  have hstart : after.unitStart? "generated" "org.treeforge.generated" =
      some ["work", "generated"] := by
    have hbetween : (single.makeFolders "generated/org/treeforge/generated").2.locate?
        "generated" = some ["work", "generated"] := by decide +kernel
    rw [unitStart?, if_neg (by decide +kernel), if_neg (by decide +kernel)]
    exact hextends.locate? hbetween
  have hpieces : Package.pieces "org.treeforge.generated" ++ [Package.file "Parting"] =
      ["org", "treeforge", "generated", "Parting.java"] := by decide +kernel
  rw [hunit] at hcompile hwritten
  refine ⟨single_config, htidy rfl, text, after, hcompile, hperform, ?_, fun place => ?_⟩
  · have hat := hwritten rfl _ (List.mem_singleton_self _) _ (List.mem_singleton_self _)
    rw [hpath] at hat
    exact hat
  · rcases hplaces place with hsame | hnew | ⟨name, hname, start, hfrom, hplace⟩
    · exact Or.inl hsame
    · exact Or.inr (Or.inl hnew)
    · rw [hfolder, hstart, Option.some.injEq] at hfrom
      rw [hnames name hname, hpieces, ← hfrom] at hplace
      exact Or.inr (Or.inr hplace)

/-- With a package that starts with a dot, the file of a unit is written below the top. -/
theorem compile_leaves_folder :
    single.config? "treeforge.yaml" = .ok plainConfig ∧
      single.at? "/tmp/Parting.java" = none ∧
      ¬ Path.components plainConfig.outputFolder <+: Path.components "/tmp/Parting.java" ∧
      ∃ after text, single.perform ⟨"treeforge.yaml", false, .compile none (some ".tmp") none⟩ =
          (⟨[], none⟩, after) ∧
        after.at? "/tmp/Parting.java" = some (.text text) := by
  refine ⟨single_config, by decide +kernel, by decide +kernel, ?_⟩
  have hpath : unitPath (outputFor plainConfig none) (qualified ".tmp" "Parting") =
      "/tmp/Parting.java" := by decide +kernel
  have hparent : Path.parent? "/tmp/Parting.java" = some "/tmp" := by decide +kernel
  have hlocate : (single.makeFolders "/tmp").2.locate? "/tmp/Parting.java" =
      some ["tmp", "Parting.java"] := by decide +kernel
  obtain ⟨text, after, -, hperform, -, hat⟩ :=
    single_performs (some ".tmp") hpath hparent (by decide +kernel) hlocate (by decide +kernel)
  exact ⟨after, text, hperform, hat⟩

end Files

end ScoringTree
