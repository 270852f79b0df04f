import Mathlib.Data.List.Induction
import ScoringTree.Proofs.Projects

/-!
# ScoringTree.Proofs.FileTree

Files in memory under the two changes that commands make.

A folder once there stays, so a path that leads somewhere leads there ever after. All that a run of
changes does is said by one relation, which holds of each change and passes on along a run.

* `Files.Touches`       — all that changes is that new folders appear and that texts stand at the
                          places of given paths.
* `Files.locate?_join`  — where a path below another one leads.
* `Files.Apart`         — two paths that never lead to one place.
* `Files.Saves`         — texts written in order, as far as they could be.
-/

namespace ScoringTree
namespace Path

/-! ## Joined paths -/

theorem segments_slash (a b : String) : segments (a ++ "/" ++ b) = segments a ++ segments b := by
  have happend : (a ++ "/" ++ b).toList = a.toList ++ '/' :: b.toList := by simp
  rw [segments, happend, List.splitOn_append_cons_self, List.map_append, segments, segments]

theorem segments_ne_nil (path : String) : segments path ≠ [] := by
  simp [segments]

theorem segments_of_not_mem {s : String} (h : '/' ∉ s.toList) : segments s = [s] := by
  rw [segments, List.splitOn_eq_singleton h, List.map_singleton, String.ofList_toList]

theorem join_of_isAbsolute (base : String) {path : String} (h : isAbsolute path = true) :
    join base path = path := by
  rw [join, h, Bool.true_or, if_pos rfl]

/-- What is joined to a path is read behind it. Where the path ends with a slash, the empty segment
behind that slash goes. -/
theorem segments_join {base path : String} (hrelative : isAbsolute path = false)
    (hbase : base ≠ "") :
    ∃ front back, segments base = front ++ back ∧ (∀ s ∈ back, s = "") ∧ front ≠ [] ∧
      segments (join base path) = front ++ segments path := by
  have hempty : (base == "") = false := by simpa using hbase
  rw [join, hrelative, hempty]
  simp only [Bool.or_self, Bool.false_eq_true, if_false]
  split
  · rename_i hslash
    rw [beq_iff_eq, List.getLast?_eq_some_iff] at hslash
    obtain ⟨cs, hcs⟩ := hslash
    have hsplit : base = String.ofList cs ++ "/" := by
      rw [← String.toList_inj, hcs]
      simp
    refine ⟨segments (String.ofList cs), [""], ?_, by simp, segments_ne_nil _, ?_⟩
    · have hnothing := segments_slash (String.ofList cs) ""
      rw [String.append_empty, ← hsplit] at hnothing
      exact hnothing
    · rw [hsplit, segments_slash]
  · exact ⟨segments base, [], by simp, by simp, segments_ne_nil _, segments_slash base path⟩

theorem isAbsolute_join {base path : String} (hrelative : isAbsolute path = false)
    (hbase : base ≠ "") : isAbsolute (join base path) = isAbsolute base := by
  have hempty : (base == "") = false := by simpa using hbase
  obtain ⟨c, cs, hcs⟩ := List.exists_cons_of_ne_nil (String.toList_eq_nil_iff.not.mpr hbase)
  rw [join, hrelative, hempty]
  simp only [Bool.or_self, Bool.false_eq_true, if_false]
  split <;> simp [isAbsolute, hcs]

/-- A dot in front of what is joined would be a component of its own if nothing came before. -/
theorem components_join (base : String) {path : String} (hrelative : isAbsolute path = false)
    (hdot : (segments path).head? ≠ some ".") :
    components (join base path) = components base ++ (segments path).filterMap component? := by
  by_cases hbase : base = ""
  · subst hbase
    have hhead : ((segments path).head? == some ".") = false := by simpa using hdot
    have hjoin : join "" path = path := by simp [join]
    have hnothing : components "" = [] := rfl
    rw [hjoin, hnothing, components]
    simp only [hrelative, hhead, Bool.false_eq_true, if_false]
  · obtain ⟨front, back, hsegments, hback, hfront, hjoin⟩ := segments_join hrelative hbase
    have hhead : ∀ rest : List String, (front ++ rest).head? = front.head? := by
      intro rest
      rw [List.head?_append_of_ne_nil front hfront]
    have hnone : back.filterMap component? = [] := by
      rw [List.filterMap_eq_nil_iff]
      intro s hs
      rw [hback s hs]
      rfl
    simp only [components, isAbsolute_join hrelative hbase, hjoin, hsegments, hhead,
      List.filterMap_append, hnone, List.append_nil, List.append_assoc]

end Path

namespace Files

/-! ## Places -/

@[simp]
theorem get?_top (files : Files) : files.get? [] = some .folder := rfl

theorem lookup_filter_ne (entries : List (Place × Content)) (place other : Place) :
    (entries.filter (·.1 != place)).lookup other =
      if other = place then none else entries.lookup other := by
  induction entries with
  | nil => simp
  | cons entry rest ih =>
    obtain ⟨key, content⟩ := entry
    by_cases hkey : key = place
    · subst hkey
      simp only [List.filter_cons, bne_self_eq_false, Bool.false_eq_true, if_false, ih,
        List.lookup_cons]
      split
      · rfl
      · rename_i hne
        simp [beq_eq_false_iff_ne.mpr hne]
    · have hkept : (key != place) = true := by simpa using hkey
      simp only [List.filter_cons, hkept, if_true, List.lookup_cons, ih]
      by_cases hother : other = key
      · subst hother
        simp [hkey]
      · simp [beq_eq_false_iff_ne.mpr hother]

theorem get?_put (files : Files) {place : Place} (hplace : place ≠ []) (content : Content)
    (other : Place) :
    (files.put place content).get? other = if other = place then some content
      else files.get? other := by
  cases other with
  | nil => simp [hplace.symm]
  | cons name names =>
    simp only [get?, put, List.isEmpty_cons, Bool.false_eq_true, if_false, List.lookup_cons,
      lookup_filter_ne]
    by_cases hother : name :: names = place
    · simp [hother]
    · simp [beq_eq_false_iff_ne.mpr hother, hother]

theorem isFolder_iff {files : Files} {place : Place} :
    files.isFolder place = true ↔ files.get? place = some .folder := by
  simp [isFolder]

/-- All folders of one file system are folders of another, which runs in the same folder. -/
structure Extends (before after : Files) : Prop where
  home_eq : after.home = before.home
  folder : ∀ place, before.get? place = some .folder → after.get? place = some .folder

namespace Extends

variable {before after : Files}

theorem enter? (h : Extends before after) {place next : Place} {segment : String}
    (henter : before.enter? place segment = some next) :
    after.enter? place segment = some next := by
  simp only [Files.enter?] at henter ⊢
  split at henter
  · cases henter
  · rename_i hpass
    simp only [Bool.or_eq_true, Bool.not_eq_true', decide_eq_true_eq, not_or,
      Bool.not_eq_false] at hpass
    have hfolder := isFolder_iff.mpr (h.folder place (isFolder_iff.mp hpass.1))
    rw [if_neg (by simp [hfolder, hpass.2])]
    exact henter

theorem walk (h : Extends before after) {segments : List String} {start place : Place}
    (hwalk : segments.foldlM before.enter? start = some place) :
    segments.foldlM after.enter? start = some place := by
  induction segments generalizing start with
  | nil => exact hwalk
  | cons segment rest ih =>
    rw [List.foldlM_cons, Option.bind_eq_bind, Option.bind_eq_some_iff] at hwalk
    obtain ⟨next, hnext, hrest⟩ := hwalk
    rw [List.foldlM_cons, h.enter? hnext]
    exact ih hrest

theorem locate? (h : Extends before after) {path : String} {place : Place}
    (hlocate : before.locate? path = some place) : after.locate? path = some place := by
  have horigin : after.origin path = before.origin path := by
    simp only [origin, h.home_eq]
  simp only [Files.locate?, horigin] at hlocate ⊢
  split at hlocate
  · rename_i husable
    rw [if_pos husable]
    exact h.walk hlocate
  · cases hlocate

end Extends

/-! ## What changes -/

/-- All that changes: folders appear where nothing was, and texts stand at the places of given
paths. -/
structure Touches (paths : List String) (before after : Files) : Prop where
  home_eq : after.home = before.home
  place : ∀ place, after.get? place = before.get? place ∨
    (before.get? place = none ∧ after.get? place = some .folder) ∨
    (before.get? place ≠ some .folder ∧ (∃ s, after.get? place = some (.text s)) ∧
      ∃ path ∈ paths, after.locate? path = some place)

namespace Touches

variable {paths others : List String} {before between after : Files}

theorem refl (paths : List String) (files : Files) : Touches paths files files :=
  ⟨rfl, fun _ => Or.inl rfl⟩

theorem toExtends (h : Touches paths before after) : Extends before after := by
  refine ⟨h.home_eq, fun place hfolder => ?_⟩
  rcases h.place place with hsame | ⟨hnone, -⟩ | ⟨hother, -⟩
  · rw [hsame, hfolder]
  · rw [hnone] at hfolder
    cases hfolder
  · exact absurd hfolder hother

theorem mono (h : Touches paths before after) (hsubset : ∀ path ∈ paths, path ∈ others) :
    Touches others before after := by
  refine ⟨h.home_eq, fun place => ?_⟩
  rcases h.place place with hsame | hnew | ⟨hother, htext, path, hpath, hlocate⟩
  · exact Or.inl hsame
  · exact Or.inr (Or.inl hnew)
  · exact Or.inr (Or.inr ⟨hother, htext, path, hsubset path hpath, hlocate⟩)

theorem trans (h : Touches paths before between) (h' : Touches paths between after) :
    Touches paths before after := by
  refine ⟨h'.home_eq.trans h.home_eq, fun place => ?_⟩
  rcases h'.place place with hsame | ⟨hnone, hnew⟩ | ⟨hother, htext⟩
  · rw [hsame]
    rcases h.place place with hsame' | hnew | ⟨hother, htext, path, hpath, hlocate⟩
    · exact Or.inl hsame'
    · exact Or.inr (Or.inl hnew)
    · exact Or.inr (Or.inr ⟨hother, htext, path, hpath, h'.toExtends.locate? hlocate⟩)
  · refine Or.inr (Or.inl ⟨?_, hnew⟩)
    rcases h.place place with hsame | ⟨-, hfolder⟩ | ⟨-, ⟨s, htext⟩, -⟩
    · rw [← hsame, hnone]
    · rw [hnone] at hfolder
      cases hfolder
    · rw [hnone] at htext
      cases htext
  · refine Or.inr (Or.inr ⟨fun hfolder => ?_, htext⟩)
    exact hother (h.toExtends.folder place hfolder)

end Touches

theorem touches_put_folder {files : Files} {place : Place} (hnone : files.get? place = none) :
    Touches [] files (files.put place .folder) := by
  have hplace : place ≠ [] := by
    rintro rfl
    cases hnone
  refine ⟨rfl, fun other => ?_⟩
  rw [get?_put files hplace]
  split
  · rename_i heq
    rw [heq]
    exact Or.inr (Or.inl ⟨hnone, rfl⟩)
  · exact Or.inl rfl

theorem touches_makeFoldersFrom (segments : List String) (place : Place) (files : Files) :
    Touches [] files (makeFoldersFrom place segments files).2 := by
  induction segments generalizing place files with
  | nil => exact .refl _ _
  | cons segment rest ih =>
    rw [makeFoldersFrom]
    split
    · exact .refl _ _
    · rename_i next hnext
      split
      · exact ih next files
      · exact .refl _ _
      · rename_i hnone
        exact (touches_put_folder hnone).trans (ih next _)

theorem touches_makeFolders (files : Files) (path : String) :
    Touches [] files (files.makeFolders path).2 := by
  simp only [makeFolders]
  split
  · exact .refl _ _
  · split
    · exact .refl _ _
    · split
      · exact touches_makeFoldersFrom _ _ _
      · exact touches_makeFoldersFrom _ _ _

theorem write_of_locate? {files : Files} {path : String} {place : Place}
    (h : files.locate? path = some place) (hother : files.isFolder place = false)
    (content : Content) : files.write path content = (true, files.put place content) := by
  simp only [write, h, hother, Bool.false_eq_true, if_false]

/-- No folder goes when a text is put where there is none. -/
theorem extends_put_text {files : Files} {place : Place}
    (hother : files.get? place ≠ some .folder) (text : String) :
    Extends files (files.put place (.text text)) := by
  have hplace : place ≠ [] := by
    rintro rfl
    exact hother rfl
  refine ⟨rfl, fun other h => ?_⟩
  rw [get?_put files hplace, if_neg, h]
  rintro rfl
  exact hother h

/-- A file that is written holds the text, and nothing else changes. -/
theorem write_cases (files : Files) (path text : String) :
    files.write path (.text text) = (false, files) ∨
      ∃ after, files.write path (.text text) = (true, after) ∧
        after.at? path = some (.text text) ∧ Touches [path] files after := by
  simp only [write]
  cases hlocate : files.locate? path with
  | none => exact Or.inl rfl
  | some place =>
    by_cases hfolder : files.isFolder place = true
    · exact Or.inl (if_pos hfolder)
    · refine Or.inr ⟨files.put place (.text text), if_neg hfolder, ?_⟩
      have hplace : place ≠ [] := by
        rintro rfl
        exact hfolder rfl
      have hother : files.get? place ≠ some .folder := fun h => hfolder (isFolder_iff.mpr h)
      have hafter := (extends_put_text hother text).locate? hlocate
      refine ⟨?_, rfl, fun other => ?_⟩
      · rw [at?, hafter, Option.bind_some, get?_put files hplace, if_pos rfl]
      · rw [get?_put files hplace]
        split
        · rename_i heq
          subst heq
          exact Or.inr (Or.inr ⟨hother, ⟨text, rfl⟩, path, by simp, hafter⟩)
        · exact Or.inl rfl

/-! ## Where paths lead -/

section Locate

variable {files : Files} {place next start : Place}

theorem isFolder_of_enter? {segment : String} (h : files.enter? place segment = some next) :
    files.get? place = some .folder := by
  simp only [enter?] at h
  split at h
  · cases h
  · rename_i hpass
    simp only [Bool.or_eq_true, Bool.not_eq_true', decide_eq_true_eq, not_or,
      Bool.not_eq_false] at hpass
    exact isFolder_iff.mp hpass.1

theorem enter?_eq {segment : String} (h : files.enter? place segment = some next) :
    next = match Path.component? segment with
      | some (.name s) => place ++ [s]
      | some _ => place.dropLast
      | none => place := by
  simp only [enter?] at h
  split at h
  · cases h
  · simp only [Path.component?]
    split at h
    · rename_i hnothing
      cases h
      rw [if_pos hnothing]
    · rename_i hsome
      rw [if_neg hsome]
      split at h
      · rename_i hup
        cases h
        rw [if_pos hup]
      · rename_i hname
        cases h
        rw [if_neg hname]

theorem walk_empty {segments : List String} (hempty : ∀ s ∈ segments, s = "")
    (hfolder : files.get? place = some .folder) :
    segments.foldlM files.enter? place = some place := by
  induction segments with
  | nil => rfl
  | cons segment rest ih =>
    have hsegment := hempty segment (by simp)
    have henter : files.enter? place "" = some place := by
      simp [enter?, isFolder_iff.mpr hfolder]
    rw [List.foldlM_cons, hsegment, henter]
    exact ih fun s hs => hempty s (List.mem_cons_of_mem _ hs)

/-- A walk along names goes down. -/
theorem walk_names {segments : List String} {names : Place}
    (hnames : segments.filterMap Path.component? = names.map .name)
    (h : segments.foldlM files.enter? start = some place) : place = start ++ names := by
  induction segments generalizing start names with
  | nil =>
    cases h
    rw [List.filterMap_nil, eq_comm, List.map_eq_nil_iff] at hnames
    rw [hnames, List.append_nil]
  | cons segment rest ih =>
    rw [List.foldlM_cons, Option.bind_eq_bind, Option.bind_eq_some_iff] at h
    obtain ⟨next, hnext, hrest⟩ := h
    have hstep := enter?_eq hnext
    cases hcomponent : Path.component? segment with
    | none =>
      rw [hcomponent] at hstep
      rw [List.filterMap_cons_none hcomponent] at hnames
      rw [ih hnames hrest, hstep]
    | some component =>
      rw [hcomponent] at hstep
      rw [List.filterMap_cons_some hcomponent] at hnames
      cases names with
      | nil => cases hnames
      | cons name names =>
        obtain ⟨rfl, hothers⟩ := List.cons.inj hnames
        rw [ih hothers hrest, hstep, List.append_assoc, List.singleton_append]

/-- The place of a path ends with the name that the path ends with. -/
theorem walk_getLast? {segments : List String} {name : String}
    (hname : (segments.filterMap Path.component?).getLast? = some (.name name))
    (h : segments.foldlM files.enter? start = some place) : place.getLast? = some name := by
  induction segments using List.reverseRecOn generalizing place with
  | nil => cases hname
  | append_singleton front segment ih =>
    rw [List.foldlM_append, Option.bind_eq_bind, Option.bind_eq_some_iff] at h
    obtain ⟨before, hfront, hlast⟩ := h
    rw [List.foldlM_cons, Option.bind_eq_bind, Option.bind_eq_some_iff] at hlast
    obtain ⟨next, hnext, hdone⟩ := hlast
    cases hdone
    have hstep := enter?_eq hnext
    rw [List.filterMap_append] at hname
    cases hcomponent : Path.component? segment with
    | none =>
      rw [hcomponent] at hstep
      rw [List.filterMap_cons_none hcomponent, List.filterMap_nil, List.append_nil] at hname
      rw [hstep]
      exact ih hname hfront
    | some component =>
      rw [hcomponent] at hstep
      rw [List.filterMap_cons_some hcomponent, List.filterMap_nil, List.getLast?_append,
        List.getLast?_singleton, Option.some_or, Option.some.injEq] at hname
      subst hname
      rw [hstep, List.getLast?_append, List.getLast?_singleton, Option.some_or]

theorem locate?_eq_some_iff {path : String} :
    files.locate? path = some place ↔ Path.isUsable path = true ∧
      (Path.segments path).foldlM files.enter? (files.origin path) = some place := by
  rw [locate?]
  split
  · rename_i husable
    simp [husable]
  · rename_i husable
    simp [husable]

theorem getLast?_of_locate? {path name : String} (h : files.locate? path = some place)
    (hname : Path.fileName? path = some name) : place.getLast? = some name := by
  obtain ⟨-, hwalk⟩ := locate?_eq_some_iff.mp h
  refine walk_getLast? ?_ hwalk
  simp only [Path.fileName?, Path.components] at hname
  split at hname
  · rename_i s hlast
    cases hname
    rw [List.getLast?_append] at hlast
    cases hown : ((Path.segments path).filterMap Path.component?).getLast? with
    | some component =>
      rw [hown, Option.some_or] at hlast
      exact hlast
    | none =>
      rw [hown, Option.none_or] at hlast
      split at hlast
      · cases hlast
      · split at hlast <;> cases hlast
  · cases hname

theorem isUsable_of_join {base path : String} (hrelative : Path.isAbsolute path = false)
    (hbase : base ≠ "") (h : Path.isUsable (Path.join base path) = true) :
    Path.isUsable base = true := by
  have hjoin : ∃ rest, Path.join base path = base ++ rest := by
    have hempty : (base == "") = false := by simpa using hbase
    simp only [Path.join, hrelative, hempty, Bool.or_self, Bool.false_eq_true, if_false]
    split
    · exact ⟨path, rfl⟩
    · exact ⟨"/" ++ path, String.append_assoc⟩
  obtain ⟨rest, hrest⟩ := hjoin
  rw [hrest] at h
  simp only [Path.isUsable, Bool.and_eq_true, bne_iff_ne, decide_eq_true_eq,
    String.utf8ByteSize_append, String.toList_append, Bool.not_eq_true',
    ← Bool.not_eq_true, List.contains_iff_mem, List.mem_append, not_or] at h ⊢
  exact ⟨⟨hbase, by omega⟩, h.2.1⟩

/-- A path below another leads on from where that one leads. -/
theorem locate?_join {base path : String} (hrelative : Path.isAbsolute path = false)
    (hbase : base ≠ "") (h : files.locate? (Path.join base path) = some place) :
    ∃ start, files.locate? base = some start ∧
      (Path.segments path).foldlM files.enter? start = some place := by
  obtain ⟨husable, hwalk⟩ := locate?_eq_some_iff.mp h
  obtain ⟨front, back, hsegments, hback, -, hjoin⟩ := Path.segments_join hrelative hbase
  have horigin : files.origin (Path.join base path) = files.origin base := by
    simp only [origin, Path.isAbsolute_join hrelative hbase]
  rw [hjoin, horigin, List.foldlM_append, Option.bind_eq_bind, Option.bind_eq_some_iff] at hwalk
  obtain ⟨start, hstart, hrest⟩ := hwalk
  have hfolder : files.get? start = some .folder := by
    obtain ⟨first, others, hfirst⟩ := List.exists_cons_of_ne_nil (Path.segments_ne_nil path)
    rw [hfirst, List.foldlM_cons, Option.bind_eq_bind, Option.bind_eq_some_iff] at hrest
    obtain ⟨next, hnext, -⟩ := hrest
    exact isFolder_of_enter? hnext
  refine ⟨start, locate?_eq_some_iff.mpr ⟨isUsable_of_join hrelative hbase husable, ?_⟩, hrest⟩
  rw [hsegments, List.foldlM_append, hstart]
  exact walk_empty hback hfolder

end Locate

/-- Two paths that never lead to one place. -/
def Apart (path other : String) : Prop :=
  ∀ (files : Files) (place : Place), files.locate? path = some place →
    files.locate? other ≠ some place

theorem apart_of_fileName? {path other name name' : String}
    (hname : Path.fileName? path = some name) (hname' : Path.fileName? other = some name')
    (hne : name ≠ name') : Apart path other := by
  intro files place hplace hother
  have hlast := getLast?_of_locate? hplace hname
  rw [getLast?_of_locate? hother hname', Option.some.injEq] at hlast
  exact hne hlast.symm

/-- What stands at a path stays unless a path that leads there is written to. -/
theorem Touches.at?_eq {paths : List String} {before after : Files} {path : String}
    {content : Content} (h : Touches paths before after) (hat : before.at? path = some content)
    (hapart : ∀ other ∈ paths, Apart path other) : after.at? path = some content := by
  obtain ⟨place, hplace, hcontent⟩ := Option.bind_eq_some_iff.mp hat
  have hafter := h.toExtends.locate? hplace
  rw [at?, hafter, Option.bind_some]
  rcases h.place place with hsame | ⟨hnone, -⟩ | ⟨-, -, other, hother, hlocate⟩
  · rw [hsame, hcontent]
  · rw [hnone] at hcontent
    cases hcontent
  · exact absurd hlocate (hapart other hother after place hafter)

/-! ## Files that are written -/

/-- Sources are written in order, up to the first that cannot be. Those that were written are there
if no two go to one place. -/
structure Saves (sources : List (String × String)) (done : Bool) (before after : Files) : Prop where
  touches : Touches (sources.map (·.1)) before after
  written : done = true → sources.Pairwise (fun source other => Apart source.1 other.1) →
    ∀ path text, (path, text) ∈ sources → after.at? path = some (.text text)

namespace Saves

variable {sources others : List (String × String)} {before between after : Files}

theorem nil (done : Bool) (files : Files) : Saves [] done files files :=
  ⟨.refl _ _, fun _ _ => by simp⟩

theorem append {done : Bool} (h : Saves sources true before between)
    (h' : Saves others done between after) : Saves (sources ++ others) done before after := by
  refine ⟨?_, fun hdone hapart => ?_⟩
  · refine (h.touches.mono ?_).trans (h'.touches.mono ?_)
    · intro path hpath
      rw [List.map_append]
      exact List.mem_append_left _ hpath
    · intro path hpath
      rw [List.map_append]
      exact List.mem_append_right _ hpath
  · obtain ⟨hsources, hothers, hacross⟩ := List.pairwise_append.mp hapart
    intro path text hsource
    rcases List.mem_append.mp hsource with hsource | hsource
    · refine h'.touches.at?_eq (h.written rfl hsources path text hsource) ?_
      intro otherPath hpath
      obtain ⟨other, hother, rfl⟩ := List.mem_map.mp hpath
      exact hacross (path, text) hsource other hother
    · exact h'.written hdone hothers path text hsource

/-- Where one source cannot be written, no further one is tried. -/
theorem stop (others : List (String × String)) (h : Saves sources false before after) :
    Saves (sources ++ others) false before after := by
  refine ⟨h.touches.mono ?_, nofun⟩
  intro path hpath
  rw [List.map_append]
  exact List.mem_append_left _ hpath

end Saves

end Files
end ScoringTree
