import Mathlib.Data.List.TakeDrop
import ScoringTree.Proofs.FileTree
import ScoringTree.Proofs.StarterNames

/-!
# ScoringTree.Proofs.NewProject

What making a new project leaves behind.

A project is made only where there is none. Where nothing is in the way all its files are written,
whatever it is called. Its configuration is then loaded back with that name exactly if the name is
plain.

* `Files.Vacant`      — nothing is in the way of a new project.
* `Files.init_loads`  — when a project is made, and when its name is loaded back.
-/

namespace ScoringTree
namespace Files

/-! ## Below a folder -/

/-- A segment that leads down. -/
structure IsName (name : String) : Prop where
  relative : Path.isAbsolute name = false
  segments : Path.segments name = [name]
  component : Path.component? name = some (.name name)
  short : name.utf8ByteSize ≤ Path.nameLimit

section Below

variable {files : Files} {place start : Place}

theorem enter?_name {name : String} (hname : IsName name)
    (hfolder : files.get? place = some .folder) :
    files.enter? place name = some (place ++ [name]) := by
  have hcomponent := hname.component
  simp only [Path.component?] at hcomponent
  split at hcomponent
  · cases hcomponent
  · rename_i hsome
    split at hcomponent
    · cases hcomponent
    · rename_i hup
      rw [enter?, if_neg (by simp [isFolder_iff.mpr hfolder, hname.short]), if_neg hsome,
        if_neg hup]

theorem walk_folder {segments : List String}
    (h : segments.foldlM files.enter? start = some place)
    (hfolder : files.get? place = some .folder) : files.get? start = some .folder := by
  cases segments with
  | nil =>
    cases h
    exact hfolder
  | cons segment rest =>
    rw [List.foldlM_cons, Option.bind_eq_bind, Option.bind_eq_some_iff] at h
    obtain ⟨next, hnext, -⟩ := h
    exact isFolder_of_enter? hnext

/-- Along folders that are there, nothing is made. -/
theorem makeFoldersFrom_walk {segments : List String}
    (h : segments.foldlM files.enter? start = some place)
    (hfolder : files.get? place = some .folder) (rest : List String) :
    makeFoldersFrom start (segments ++ rest) files = makeFoldersFrom place rest files := by
  induction segments generalizing start with
  | nil =>
    cases h
    rfl
  | cons segment others ih =>
    rw [List.foldlM_cons, Option.bind_eq_bind, Option.bind_eq_some_iff] at h
    obtain ⟨next, hnext, hothers⟩ := h
    rw [List.cons_append, makeFoldersFrom, hnext]
    simp only [walk_folder hothers hfolder]
    exact ih hothers

theorem ne_empty_of_locate? {path : String} (h : files.locate? path = some place) :
    path ≠ "" := by
  obtain ⟨husable, -⟩ := locate?_eq_some_iff.mp h
  rintro rfl
  cases husable

/-- The segments in front of what is joined to a path lead to where the path leads. -/
theorem walk_join {base path : String} (hrelative : Path.isAbsolute path = false)
    (hlocate : files.locate? base = some place) :
    ∃ front, Path.segments (Path.join base path) = front ++ Path.segments path ∧
      front.foldlM files.enter? (files.origin (Path.join base path)) = some place := by
  have hbase := ne_empty_of_locate? hlocate
  obtain ⟨-, hwalk⟩ := locate?_eq_some_iff.mp hlocate
  obtain ⟨front, back, hsegments, hback, -, hjoin⟩ := Path.segments_join hrelative hbase
  have horigin : files.origin (Path.join base path) = files.origin base := by
    simp only [origin, Path.isAbsolute_join hrelative hbase]
  refine ⟨front, hjoin, ?_⟩
  rw [hsegments, List.foldlM_append, Option.bind_eq_bind, Option.bind_eq_some_iff] at hwalk
  obtain ⟨between, hfront, hrest⟩ := hwalk
  have hnone : back.filterMap Path.component? = ([] : Place).map .name := by
    rw [List.map_nil, List.filterMap_eq_nil_iff]
    intro s hs
    rw [hback s hs]
    rfl
  have hsame := walk_names hnone hrest
  rw [List.append_nil] at hsame
  rw [horigin, hfront, hsame]

theorem locate?_join_eq {base path : String} (hrelative : Path.isAbsolute path = false)
    (hlocate : files.locate? base = some place)
    (husable : Path.isUsable (Path.join base path) = true) :
    files.locate? (Path.join base path) =
      (Path.segments path).foldlM files.enter? place := by
  obtain ⟨front, hsegments, hfront⟩ := walk_join hrelative hlocate
  rw [locate?, if_pos husable, hsegments, List.foldlM_append, hfront]
  rfl

/-- What stands below a path shows that a folder is there. -/
theorem folder_of_join {base path : String} (hrelative : Path.isAbsolute path = false)
    (hbase : base ≠ "") (h : files.locate? (Path.join base path) = some place) :
    ∃ start, files.locate? base = some start ∧ files.get? start = some .folder := by
  obtain ⟨start, hlocate, hwalk⟩ := locate?_join hrelative hbase h
  obtain ⟨first, others, hfirst⟩ := List.exists_cons_of_ne_nil (Path.segments_ne_nil path)
  rw [hfirst, List.foldlM_cons, Option.bind_eq_bind, Option.bind_eq_some_iff] at hwalk
  obtain ⟨next, hnext, -⟩ := hwalk
  exact ⟨start, hlocate, isFolder_of_enter? hnext⟩

/-- A folder is made below another one, if nothing else stands there. -/
theorem makeFolders_join {base name : String} (hname : IsName name)
    (hlocate : files.locate? base = some place) (hfolder : files.get? place = some .folder)
    (husable : Path.isUsable (Path.join base name) = true)
    (hfree : files.get? (place ++ [name]) = none ∨ files.get? (place ++ [name]) = some .folder) :
    ∃ after, files.makeFolders (Path.join base name) = (true, after) ∧ after.home = files.home ∧
      ∀ other, after.get? other = if other = place ++ [name] then some .folder
        else files.get? other := by
  obtain ⟨front, hsegments, hfront⟩ := walk_join hname.relative hlocate
  have hnonempty : (Path.join base name == "") = false := by
    rw [beq_eq_false_iff_ne]
    intro hempty
    rw [hempty] at husable
    cases husable
  have hsolid : (name == "" || name == ".") = false := by
    have hcomponent := hname.component
    simp only [Path.component?] at hcomponent
    split at hcomponent
    · cases hcomponent
    · rename_i hsome
      simpa using hsome
  have hmake : files.makeFolders (Path.join base name) = makeFoldersFrom place [name] files := by
    rw [hname.segments] at hsegments
    simp only [makeFolders, hnonempty, husable, hsegments, List.reverse_append,
      List.reverse_singleton, List.singleton_append, List.span_eq_takeWhile_dropWhile,
      List.takeWhile_cons, hsolid, Bool.false_eq_true, if_false, Bool.not_true,
      List.contains_nil]
    exact makeFoldersFrom_walk hfront hfolder [name]
  rw [hmake, makeFoldersFrom, enter?_name hname hfolder]
  rcases hfree with hnone | hthere
  · refine ⟨files.put (place ++ [name]) .folder, ?_, rfl, get?_put files (by simp) .folder⟩
    simp only [hnone]
    rfl
  · refine ⟨files, ?_, rfl, fun other => ?_⟩
    · simp only [hthere]
      rfl
    · split
      · rename_i heq
        rw [heq, hthere]
      · rfl

end Below

/-! ## Making a project -/

theorem makeAll_run (files : Files) (paths : List String) :
    ∃ done after, (makeAll paths : StateM Files Bool).run files = (done, after) ∧
      Touches [] files after := by
  induction paths generalizing files with
  | nil => exact ⟨true, files, rfl, .refl _ _⟩
  | cons path rest ih =>
    have hmake : (FileStore.makeFolders path : StateM Files Bool).run files =
      ((files.makeFolders path).1, (files.makeFolders path).2) := rfl
    have htouches := touches_makeFolders files path
    rw [makeAll, run_bind_of_eq hmake]
    cases (files.makeFolders path).1 with
    | false => exact ⟨false, _, rfl, htouches⟩
    | true =>
      obtain ⟨done, after, hrest, hothers⟩ := ih (files.makeFolders path).2
      exact ⟨done, after, hrest, htouches.trans hothers⟩

theorem writeAll_run (files : Files) (sources : List (String × String)) :
    ∃ done after, (writeAll sources : StateM Files Bool).run files = (done, after) ∧
      Saves sources done files after := by
  induction sources generalizing files with
  | nil => exact ⟨true, files, rfl, .nil _ _⟩
  | cons source rest ih =>
    obtain ⟨path, text⟩ := source
    have hwrite : (FileStore.write path text : StateM Files Bool).run files =
      files.write path (.text text) := rfl
    rcases write_cases files path text with hfail | ⟨between, hdone, hat, htouches⟩
    · rw [writeAll, run_bind_of_eq (hwrite.trans hfail)]
      exact ⟨false, files, rfl, .refl _ _, nofun⟩
    · rw [writeAll, run_bind_of_eq (hwrite.trans hdone)]
      obtain ⟨done, after, hrest, hothers⟩ := ih between
      have hfirst : Saves [(path, text)] true files between := by
        refine ⟨htouches, fun _ _ otherPath otherText hsource => ?_⟩
        cases List.mem_singleton.mp hsource
        exact hat
      exact ⟨done, after, hrest, hfirst.append hothers⟩

/-- The files of a new project, by their paths. -/
def starters (path name : String) : List (String × String) :=
  (Starter.files name).map fun file => (Path.join path file.1, file.2)

/-- A folder that holds a project is left alone. -/
theorem fillProject_existing {files : Files} {path : String}
    (h : (files.at? (Path.join path Config.fileName)).isSome = true) (name : String) :
    (fillProject path name : StateM Files Report).run files =
      (⟨[], some ["Directory '" ++ path ++ "' already contains a treeforge.yaml"]⟩, files) := by
  have hkind : (FileStore.kind? (Path.join path Config.fileName) : StateM Files _).run files =
      ((files.at? (Path.join path Config.fileName)).map Content.kind, files) := rfl
  rw [fillProject, run_bind_of_eq hkind, Option.isSome_map, if_pos h]
  rfl

/-- Folders are made first, then the files are written. -/
theorem fillProject_run (files : Files) (path name : String) :
    ∃ report after, (fillProject path name : StateM Files Report).run files = (report, after) ∧
      Saves (starters path name) report.failure.isNone files after := by
  by_cases hthere : (files.at? (Path.join path Config.fileName)).isSome = true
  · exact ⟨_, files, fillProject_existing hthere name, .refl _ _, nofun⟩
  · have hkind : (FileStore.kind? (Path.join path Config.fileName) : StateM Files _).run files =
        ((files.at? (Path.join path Config.fileName)).map Content.kind, files) := rfl
    obtain ⟨made, between, hmake, htouches⟩ :=
      makeAll_run files (Starter.folders.map (Path.join path))
    rw [fillProject, run_bind_of_eq hkind, Option.isSome_map, if_neg hthere, run_bind_of_eq hmake]
    cases made with
    | false => exact ⟨systemFailure, between, rfl, htouches.mono (by simp), nofun⟩
    | true =>
      obtain ⟨done, after, hwrite, hsaves⟩ := writeAll_run between (starters path name)
      simp only [Bool.not_true, Bool.false_eq_true, if_false]
      rw [starters] at hwrite
      rw [run_bind_of_eq hwrite]
      have hall := (htouches.mono (by simp)).trans hsaves.touches
      cases done with
      | false => exact ⟨systemFailure, after, rfl, hall, nofun⟩
      | true => exact ⟨⟨[], none⟩, after, rfl, hall, hsaves.written⟩

/-! ## Where nothing is in the way -/

/-- Folders are made below a folder where nothing else stands, and nothing else changes. -/
theorem makeAll_join {files : Files} {base : String} {place : Place} {names : List String}
    (hnames : ∀ name ∈ names, IsName name) (hlocate : files.locate? base = some place)
    (hfolder : files.get? place = some .folder)
    (husable : ∀ name ∈ names, Path.isUsable (Path.join base name) = true)
    (hfree : ∀ name ∈ names,
      files.get? (place ++ [name]) = none ∨ files.get? (place ++ [name]) = some .folder) :
    ∃ after, (makeAll (names.map (Path.join base)) : StateM Files Bool).run files = (true, after) ∧
      Extends files after ∧ (∀ name ∈ names, after.get? (place ++ [name]) = some .folder) ∧
      ∀ other, (∀ name ∈ names, other ≠ place ++ [name]) → after.get? other = files.get? other := by
  induction names generalizing files with
  | nil => exact ⟨files, rfl, ⟨rfl, fun _ h => h⟩, by simp, fun _ _ => rfl⟩
  | cons name names ih =>
    obtain ⟨between, hmake, hhome, hget⟩ := makeFolders_join (hnames name (by simp)) hlocate hfolder
      (husable name (by simp)) (hfree name (by simp))
    have hextends : Extends files between := by
      refine ⟨hhome, fun other h => ?_⟩
      rw [hget, h]
      split <;> rfl
    obtain ⟨after, hrest, hextends', hmade, hsame⟩ := ih
      (fun other h => hnames other (List.mem_cons_of_mem _ h)) (hextends.locate? hlocate)
      (hextends.folder _ hfolder) (fun other h => husable other (List.mem_cons_of_mem _ h)) (by
        intro other hother
        rw [hget]
        split
        · exact Or.inr rfl
        · exact hfree other (List.mem_cons_of_mem _ hother))
    refine ⟨after, ?_, ⟨hextends'.home_eq.trans hhome, fun other h =>
      hextends'.folder other (hextends.folder other h)⟩, ?_, ?_⟩
    · have hrun : (FileStore.makeFolders (Path.join base name) : StateM Files Bool).run files =
        (true, between) := hmake
      rw [List.map_cons, makeAll, run_bind_of_eq hrun]
      exact hrest
    · intro other hother
      rcases List.mem_cons.mp hother with rfl | hother
      · exact hextends'.folder _ (by rw [hget, if_pos rfl])
      · exact hmade other hother
    · intro other hother
      rw [hsame other fun n hn => hother n (List.mem_cons_of_mem _ hn), hget,
        if_neg (hother name (by simp))]

/-- A text can be put at a path. -/
def Writable (files : Files) (path : String) : Prop :=
  ∃ place, files.locate? path = some place ∧ files.get? place ≠ some .folder

theorem writeAll_writable {files : Files} {sources : List (String × String)}
    (h : ∀ source ∈ sources, files.Writable source.1) :
    ∃ after, (writeAll sources : StateM Files Bool).run files = (true, after) := by
  induction sources generalizing files with
  | nil => exact ⟨files, rfl⟩
  | cons source rest ih =>
    obtain ⟨path, text⟩ := source
    obtain ⟨place, hlocate, hother⟩ := h (path, text) (by simp)
    have hplace : place ≠ [] := by
      rintro rfl
      exact hother rfl
    have hfile : files.isFolder place = false := by
      rw [← Bool.not_eq_true, isFolder_iff]
      exact hother
    have hwrite : (FileStore.write path text : StateM Files Bool).run files =
      (true, files.put place (.text text)) := write_of_locate? hlocate hfile (.text text)
    rw [writeAll, run_bind_of_eq hwrite]
    refine ih fun source hsource => ?_
    obtain ⟨target, htarget, hfree⟩ := h source (List.mem_cons_of_mem _ hsource)
    refine ⟨target, (extends_put_text hother text).locate? htarget, ?_⟩
    rw [get?_put files hplace]
    split
    · nofun
    · exact hfree

/-- Nothing is in the way of a new project in a folder. -/
structure Vacant (files : Files) (place : Place) : Prop where
  folder : files.get? place = some .folder
  config : files.get? (place ++ [Config.fileName]) = none
  folders : ∀ name ∈ Starter.folders,
    files.get? (place ++ [name]) = none ∨ files.get? (place ++ [name]) = some .folder
  files : ∀ name, ∀ file ∈ Starter.files name,
    files.get? (place ++ Path.segments file.1) ≠ some .folder

/-- A path below a project: of a name, or of a name in one of its folders. -/
structure IsStarter (path : String) : Prop where
  relative : Path.isAbsolute path = false
  clean : '\x00' ∉ path.toList
  short : path.utf8ByteSize ≤ 19
  undotted : (Path.segments path).head? ≠ some "."
  place : (IsName path ∧ path ∉ Starter.folders) ∨
    ∃ folder ∈ Starter.folders, ∃ name, IsName name ∧ Path.segments path = [folder, name]

theorem isName_folders : ∀ name ∈ Starter.folders, IsName name := by
  simp only [Starter.folders, List.forall_mem_cons]
  refine ⟨⟨?_, ?_, ?_, ?_⟩, ⟨?_, ?_, ?_, ?_⟩, by simp⟩ <;> decide +kernel

theorem isName_config : IsName Config.fileName := by
  refine ⟨?_, ?_, ?_, ?_⟩ <;> decide +kernel

theorem isStarter_files (name : String) : ∀ file ∈ Starter.files name, IsStarter file.1 := by
  have hmodel : IsName "golfing.yaml" := by
    refine ⟨?_, ?_, ?_, ?_⟩ <;> decide +kernel
  have hrecords : IsName "records.jsonl" := by
    refine ⟨?_, ?_, ?_, ?_⟩ <;> decide +kernel
  have hignored : IsName ".gitignore" := by
    refine ⟨?_, ?_, ?_, ?_⟩ <;> decide +kernel
  simp only [Starter.files, List.forall_mem_cons]
  refine ⟨⟨?_, ?_, ?_, ?_, Or.inl ⟨isName_config, ?_⟩⟩,
    ⟨?_, ?_, ?_, ?_, Or.inr ⟨"models", ?_, "golfing.yaml", hmodel, ?_⟩⟩,
    ⟨?_, ?_, ?_, ?_, Or.inr ⟨"data", ?_, "records.jsonl", hrecords, ?_⟩⟩,
    ⟨?_, ?_, ?_, ?_, Or.inl ⟨hignored, ?_⟩⟩, by simp⟩ <;> decide +kernel

theorem isUsable_join {base path : String} (hbase : Path.isUsable base = true)
    (hclean : '\x00' ∉ path.toList)
    (hshort : base.utf8ByteSize + 1 + path.utf8ByteSize ≤ Path.pathLimit)
    (hrelative : Path.isAbsolute path = false) : Path.isUsable (Path.join base path) = true := by
  simp only [Path.isUsable, Bool.and_eq_true, bne_iff_ne, decide_eq_true_eq, Bool.not_eq_true',
    ← Bool.not_eq_true, List.contains_iff_mem] at hbase ⊢
  obtain ⟨⟨hnonempty, -⟩, hnull⟩ := hbase
  have hempty : (base == "") = false := by simpa using hnonempty
  have hslash : "/".utf8ByteSize = 1 := by decide +kernel
  have hzero : '\x00' ∉ "/".toList := by decide +kernel
  simp only [Path.join, hrelative, hempty, Bool.or_self, Bool.false_eq_true, if_false]
  split <;> simp only [String.utf8ByteSize_append, String.toList_append, List.mem_append, not_or,
    ne_eq, String.append_eq_empty_iff]
  · exact ⟨⟨fun h => hnonempty h.1, by omega⟩, hnull, hclean⟩
  · exact ⟨⟨fun h => hnonempty h.1.1, by omega⟩, ⟨hnull, hzero⟩, hclean⟩

theorem fileName?_join (base : String) {path name : String}
    (hrelative : Path.isAbsolute path = false)
    (hdot : (Path.segments path).head? ≠ some ".") (h : Path.fileName? path = some name) :
    Path.fileName? (Path.join base path) = some name := by
  have hhead : ((Path.segments path).head? == some ".") = false := by simpa using hdot
  simp only [Path.fileName?, Path.components, hrelative, hhead, Bool.false_eq_true, if_false,
    List.nil_append] at h
  rw [Path.fileName?, Path.components_join base hrelative hdot, List.getLast?_append]
  split at h
  · rename_i last hlast
    rw [hlast]
    exact h
  · cases h

/-- No two files of a new project go to one place. -/
theorem pairwise_starters (path name : String) :
    (starters path name).Pairwise fun file other => Apart file.1 other.1 := by
  have hnames : (Starter.files name).Pairwise fun file other =>
      (∃ n, Path.fileName? file.1 = some n) ∧ (∃ n, Path.fileName? other.1 = some n) ∧
        Path.fileName? file.1 ≠ Path.fileName? other.1 := by
    have hpaths : ((Starter.files name).map (·.1)).Pairwise fun path other =>
        (Path.fileName? path).isSome = true ∧ (Path.fileName? other).isSome = true ∧
          Path.fileName? path ≠ Path.fileName? other := by
      change ["treeforge.yaml", "models/golfing.yaml", "data/records.jsonl", ".gitignore"].Pairwise _
      decide +kernel
    rw [List.pairwise_map] at hpaths
    refine hpaths.imp fun h => ?_
    simpa [Option.isSome_iff_exists] using h
  rw [starters, List.pairwise_map]
  refine hnames.imp_of_mem fun {file other} hfile hother h => ?_
  obtain ⟨⟨n, hn⟩, ⟨n', hn'⟩, hne⟩ := h
  have hstarter := isStarter_files name file hfile
  have hstarter' := isStarter_files name other hother
  refine apart_of_fileName? (fileName?_join path hstarter.relative hstarter.undotted hn)
    (fileName?_join path hstarter'.relative hstarter'.undotted hn') ?_
  rintro rfl
  exact hne (hn.trans hn'.symm)

/-- Once the folders are there, the files of a project are below its folder. -/
theorem locate?_starter {files : Files} {base path : String} {place : Place}
    (hstarter : IsStarter path) (hlocate : files.locate? base = some place)
    (hfolder : files.get? place = some .folder)
    (husable : Path.isUsable (Path.join base path) = true)
    (hfolders : ∀ folder ∈ Starter.folders, files.get? (place ++ [folder]) = some .folder) :
    files.locate? (Path.join base path) = some (place ++ Path.segments path) := by
  rw [locate?_join_eq hstarter.relative hlocate husable]
  rcases hstarter.place with ⟨hname, -⟩ | ⟨folder, hmem, name, hname, hsegments⟩
  · rw [hname.segments, List.foldlM_cons, enter?_name hname hfolder]
    rfl
  · rw [hsegments, List.foldlM_cons, enter?_name (isName_folders folder hmem) hfolder]
    simp only [Option.bind_eq_bind, Option.bind_some, List.foldlM_cons,
      enter?_name hname (hfolders folder hmem)]
    simp

/-- Where nothing is in the way, a folder is filled. -/
theorem fillProject_vacant {files : Files} {path : String} {place : Place}
    (hlocate : files.locate? path = some place)
    (hshort : path.utf8ByteSize + 20 ≤ Path.pathLimit) (hvacant : files.Vacant place)
    (name : String) :
    ∃ after, (fillProject path name : StateM Files Report).run files = (⟨[], none⟩, after) := by
  obtain ⟨husable, -⟩ := locate?_eq_some_iff.mp hlocate
  have hjoin : ∀ file ∈ Starter.files name, Path.isUsable (Path.join path file.1) = true := by
    intro file hfile
    have hstarter := isStarter_files name file hfile
    have hsize := hstarter.short
    exact isUsable_join husable hstarter.clean (by omega) hstarter.relative
  have hjoin' : ∀ folder ∈ Starter.folders, Path.isUsable (Path.join path folder) = true := by
    have hclean : ∀ folder ∈ Starter.folders,
        '\x00' ∉ folder.toList ∧ folder.utf8ByteSize ≤ 19 := by decide +kernel
    intro folder hfolder
    have hsize := hclean folder hfolder
    exact isUsable_join husable hsize.1 (by omega) (isName_folders folder hfolder).relative
  have hnone : files.at? (Path.join path Config.fileName) = none := by
    have husable' : Path.isUsable (Path.join path Config.fileName) = true :=
      hjoin (Config.fileName, Starter.config name) List.mem_cons_self
    have hplace : files.locate? (Path.join path Config.fileName) =
        some (place ++ [Config.fileName]) := by
      rw [locate?_join_eq isName_config.relative hlocate husable', isName_config.segments,
        List.foldlM_cons, enter?_name isName_config hvacant.folder]
      rfl
    rw [at?, hplace, Option.bind_some, hvacant.config]
  obtain ⟨between, hmake, hextends, hmade, hsame⟩ :=
    makeAll_join isName_folders hlocate hvacant.folder hjoin' hvacant.folders
  have hwritable : ∀ source ∈ starters path name, between.Writable source.1 := by
    intro source hsource
    obtain ⟨file, hfile, rfl⟩ := List.mem_map.mp hsource
    have hstarter := isStarter_files name file hfile
    refine ⟨place ++ Path.segments file.1, locate?_starter hstarter (hextends.locate? hlocate)
      (hextends.folder _ hvacant.folder) (hjoin file hfile) hmade, ?_⟩
    rw [hsame]
    · exact hvacant.files name file hfile
    · intro folder hfolder heq
      rw [List.append_cancel_left_eq] at heq
      rcases hstarter.place with ⟨hname, hother⟩ | ⟨_, -, _, -, hsegments⟩
      · rw [hname.segments, List.singleton_inj] at heq
        rw [heq] at hother
        exact hother hfolder
      · rw [hsegments] at heq
        cases heq
  obtain ⟨after, hwrite⟩ := writeAll_writable hwritable
  refine ⟨after, ?_⟩
  have hkind : (FileStore.kind? (Path.join path Config.fileName) : StateM Files _).run files =
      (none, files) := by
    change ((files.at? (Path.join path Config.fileName)).map Content.kind, files) = _
    rw [hnone, Option.map_none]
  rw [fillProject, run_bind_of_eq hkind]
  simp only [Option.isSome_none, Bool.false_eq_true, if_false]
  rw [run_bind_of_eq hmake]
  simp only [Bool.not_true, Bool.false_eq_true, if_false]
  rw [starters] at hwrite
  rw [run_bind_of_eq hwrite]
  rfl

/-! ## The command -/

/-- The folder of a path, made if it is not there. -/
def opened (files : Files) (path : String) : Bool × Files :=
  if (files.at? path).isSome then (true, files) else files.makeFolders path

/-- What is left to do once the folder is there. -/
theorem named_run (files : Files) (path : String) (name : Option String) :
    (FileStore.placeName? path >>= (fun
      | none => pure systemFailure
      | some folder =>
        match name.or folder with
        | none => pure ⟨[], some ["Could not determine project name from path"]⟩
        | some chosen => fillProject path chosen) : StateM Files Report).run files =
      match (files.locate? path).filter fun place => (files.get? place).isSome with
      | none => (systemFailure, files)
      | some place =>
        match name.or place.getLast? with
        | none => (⟨[], some ["Could not determine project name from path"]⟩, files)
        | some chosen => (fillProject path chosen : StateM Files Report).run files := by
  have hname : (FileStore.placeName? path : StateM Files _).run files =
      (((files.locate? path).filter fun place => (files.get? place).isSome).map (·.getLast?),
        files) := rfl
  rw [run_bind_of_eq hname]
  cases (files.locate? path).filter fun place => (files.get? place).isSome with
  | none => rfl
  | some place =>
    simp only [Option.map_some]
    cases name.or place.getLast? <;> rfl

theorem createProject_run (files : Files) (path : String) (name : Option String) :
    (createProject path name : StateM Files Report).run files =
      if (files.opened path).1 = true then
        match ((files.opened path).2.locate? path).filter
            fun place => ((files.opened path).2.get? place).isSome with
        | none => (systemFailure, (files.opened path).2)
        | some place =>
          match name.or place.getLast? with
          | none =>
            (⟨[], some ["Could not determine project name from path"]⟩, (files.opened path).2)
          | some chosen => (fillProject path chosen : StateM Files Report).run (files.opened path).2
      else (systemFailure, (files.opened path).2) := by
  have hkind : (FileStore.kind? path : StateM Files _).run files =
      ((files.at? path).map Content.kind, files) := rfl
  rw [createProject, run_bind_of_eq hkind, Option.isSome_map]
  by_cases hthere : (files.at? path).isSome = true
  · have hopen : files.opened path = (true, files) := if_pos hthere
    simp only [hopen, hthere, if_true]
    exact named_run files path name
  · have hopen : files.opened path = files.makeFolders path := if_neg hthere
    have hmake : (FileStore.makeFolders path : StateM Files Bool).run files =
      ((files.makeFolders path).1, (files.makeFolders path).2) := rfl
    simp only [hopen, hthere, Bool.false_eq_true, if_false]
    rw [run_bind_of_eq hmake]
    cases (files.makeFolders path).1 with
    | false => rfl
    | true => exact named_run _ path name

/-- Where there is a project already, none is made. -/
theorem createProject_existing {files : Files} {path : String}
    (h : (files.at? (Path.join path Config.fileName)).isSome = true) (name : Option String) :
    ∃ failure, (createProject path name : StateM Files Report).run files =
      (⟨[], some failure⟩, files) := by
  rw [createProject_run]
  by_cases hpath : path = ""
  · -- An empty path is taken for a folder that is there, but leads nowhere.
    subst hpath
    exact ⟨_, rfl⟩
  · obtain ⟨place, hplace⟩ := Option.isSome_iff_exists.mp (Option.isSome_of_isSome_bind h)
    obtain ⟨start, hlocate, hfolder⟩ := folder_of_join isName_config.relative hpath hplace
    have hthere : (some start).filter (fun place => (files.get? place).isSome) = some start := by
      simp [hfolder]
    have hopen : files.opened path = (true, files) := by
      rw [opened, at?, hlocate, Option.bind_some, hfolder]
      rfl
    simp only [hopen, if_true, hlocate, hthere]
    cases name.or start.getLast? with
    | none => exact ⟨_, rfl⟩
    | some chosen => exact ⟨_, fillProject_existing h chosen⟩

theorem createProject_vacant {files grown : Files} {path : String} {place : Place}
    (hopen : files.opened path = (true, grown)) (hlocate : grown.locate? path = some place)
    (hshort : path.utf8ByteSize + 20 ≤ Path.pathLimit) (hvacant : grown.Vacant place)
    (name : String) :
    ∃ after, (createProject path (some name) : StateM Files Report).run files =
      (⟨[], none⟩, after) := by
  have hthere : (some place).filter (fun place => (grown.get? place).isSome) = some place := by
    simp [hvacant.folder]
  rw [createProject_run, hopen]
  simp only [if_true, hlocate, hthere, Option.some_or]
  exact fillProject_vacant hlocate hshort hvacant name

/-- A project that was made has all its files. -/
theorem createProject_ok {files after : Files} {path name : String}
    (h : (createProject path (some name) : StateM Files Report).run files =
      (⟨[], none⟩, after)) :
    path ≠ "" ∧ ∀ source ∈ starters path name, after.at? source.1 = some (.text source.2) := by
  rw [createProject_run] at h
  split at h
  · split at h
    · cases h
    · rename_i place hplace
      have hlocate : (files.opened path).2.locate? path = some place := by
        rw [Option.filter_eq_some_iff] at hplace
        exact hplace.1
      simp only [Option.some_or] at h
      obtain ⟨report, after', hrun, hsaves⟩ := fillProject_run (files.opened path).2 path name
      rw [hrun] at h
      cases h
      refine ⟨ne_empty_of_locate? hlocate, fun source hsource => ?_⟩
      exact hsaves.written rfl (pairwise_starters path name) source.1 source.2 hsource
  · cases h

theorem createProject_config {files after : Files} {path name : String}
    (h : (createProject path (some name) : StateM Files Report).run files =
      (⟨[], none⟩, after)) :
    after.at? (Path.join path Config.fileName) = some (.text (Starter.config name)) :=
  (createProject_ok h).2 (Path.join path Config.fileName, Starter.config name) List.mem_cons_self

/-- The configuration of a project that was made. -/
theorem config?_created {files after : Files} {path name : String}
    (h : (createProject path (some name) : StateM Files Report).run files =
      (⟨[], none⟩, after)) (config : Config) :
    after.config? path = .ok config ↔
      Config.ofText path (Starter.config name) = .ok config := by
  have hpath := (createProject_ok h).1
  have htext := createProject_config h
  obtain ⟨place, hplace, -⟩ := Option.bind_eq_some_iff.mp htext
  obtain ⟨start, hlocate, hfolder⟩ := folder_of_join isName_config.relative hpath hplace
  have hwhere : Config.whereabouts path ((after.at? path).map Content.kind) =
      (Path.join path Config.fileName, path) := by
    rw [at?, hlocate, Option.bind_some, hfolder]
    rfl
  rw [config?_ok_iff, hwhere, htext]
  simp

/-- There is a folder at the path, or one can be made, and nothing is in the way of a project. -/
def HasRoom (files : Files) (path : String) : Prop :=
  ∃ grown place, files.opened path = (true, grown) ∧ grown.locate? path = some place ∧
    path.utf8ByteSize + 20 ≤ Path.pathLimit ∧ grown.Vacant place

/-- A project is made only where there is none, and then nothing is changed; where there is room for
it, it is made whatever its name. The configuration of a project that was made is loaded back with
its name if and only if the name is plain, and then with the settings of a new project. -/
theorem init_loads (files : Files) (configPath : String) (verbose : Bool) (path : String) :
    ((files.at? (Path.join path Config.fileName)).isSome = true → ∀ name, ∃ failure,
      files.perform ⟨configPath, verbose, .init path name⟩ = (⟨[], some failure⟩, files)) ∧
    (files.HasRoom path → ∀ name, ∃ after,
      files.perform ⟨configPath, verbose, .init path (some name)⟩ = (⟨[], none⟩, after)) ∧
    ∀ name after,
      files.perform ⟨configPath, verbose, .init path (some name)⟩ = (⟨[], none⟩, after) →
        ((∃ config, after.config? path = .ok config ∧ config.settings.name = name) ↔
          Starter.isPlainName name = true) ∧
        (Starter.isPlainName name = true →
          after.config? path = .ok ⟨Starter.settings name, path⟩) := by
  refine ⟨fun hthere name => createProject_existing hthere name, ?_, fun name after hinit => ?_⟩
  · rintro ⟨grown, place, hopen, hlocate, hshort, hvacant⟩ name
    exact createProject_vacant hopen hlocate hshort hvacant name
  · have hconfig := config?_created hinit
    refine ⟨?_, fun hname => (hconfig _).mpr (Starter.ofText_config hname path)⟩
    simp only [hconfig]
    exact Starter.ofText_config_iff

theorem hasRoom_fresh : (Files.fresh "w").HasRoom "p" := by
  refine ⟨((Files.fresh "w").opened "p").2, ["w", "p"], Prod.ext ?_ rfl, ?_, ?_, ?_, ?_, ?_, ?_⟩
  · decide +kernel
  · decide +kernel
  · decide +kernel
  · decide +kernel
  · decide +kernel
  · decide +kernel
  · simp only [Starter.files, List.forall_mem_cons]
    refine fun _ => ⟨?_, ?_, ?_, ?_, by simp⟩ <;> decide +kernel

/-- A name with a dash in front, a blank, a colon and a number sign is loaded back, and no other
project is made in its place. -/
theorem init_loads_marked :
    (Files.fresh "w").HasRoom "p" ∧ Starter.isPlainName "-x y:z#1" = true ∧ ∃ after,
      (Files.fresh "w").perform ⟨"treeforge.yaml", false, .init "p" (some "-x y:z#1")⟩ =
        (⟨[], none⟩, after) ∧
      after.config? "p" = .ok ⟨Starter.settings "-x y:z#1", "p"⟩ ∧
      (after.at? "p/treeforge.yaml").isSome = true ∧
      ∃ failure, after.perform ⟨"treeforge.yaml", false, .init "p" none⟩ =
        (⟨[], some failure⟩, after) := by
  have hplain : Starter.isPlainName "-x y:z#1" = true := by decide +kernel
  obtain ⟨-, hroom, hloads⟩ := init_loads (Files.fresh "w") "treeforge.yaml" false "p"
  obtain ⟨after, hinit⟩ := hroom hasRoom_fresh "-x y:z#1"
  have hjoin : Path.join "p" Config.fileName = "p/treeforge.yaml" := by decide +kernel
  have hthere : (after.at? (Path.join "p" Config.fileName)).isSome = true := by
    rw [createProject_config hinit]
    rfl
  refine ⟨hasRoom_fresh, hplain, after, hinit, (hloads _ after hinit).2 hplain, hjoin ▸ hthere, ?_⟩
  exact (init_loads after "treeforge.yaml" false "p").1 hthere none

/-- A project whose name has a colon before a blank is made, and cannot be loaded. -/
theorem init_unloadable :
    (Files.fresh "w").at? "p/treeforge.yaml" = none ∧ ∃ after,
      (Files.fresh "w").perform ⟨"treeforge.yaml", false, .init "p" (some "a: b")⟩ =
        (⟨[], none⟩, after) ∧ ∀ config, after.config? "p" ≠ .ok config := by
  obtain ⟨grown, place, hopen, hlocate, hshort, hvacant⟩ := hasRoom_fresh
  obtain ⟨after, hinit⟩ := createProject_vacant hopen hlocate hshort hvacant "a: b"
  refine ⟨by decide +kernel, after, hinit, fun config hconfig => ?_⟩
  have hbad : (Yaml.document? (Starter.config "a: b")).isNone = true := by decide +kernel
  have hread := Starter.read_of_ofText ((config?_created hinit config).mp hconfig)
  rw [Yaml.read, Option.isNone_iff_eq_none.mp hbad] at hread
  cases hread

end Files
end ScoringTree
