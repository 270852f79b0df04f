import ScoringTree.Proofs.FileTree

/-!
# ScoringTree.Proofs.RecordLines

Which line is reported when a file of records cannot be read.

Blank lines are left out before the lines are counted. The number in the message is therefore that
of the record among the records, and it is the number of the line in the file only if no blank line
stands before it.

* `Text.LineAt`          — where a line stands in a text, by the newlines before it.
* `isRecord`             — a line that is not blank.
* `FirstInvalid`         — where the first record stands that is no JSON text.
* `recordsOf_error_iff`  — reading fails exactly if there is one, and counts the records before it.
* `Files.Scorable`       — the model that is asked for can be scored.
* `Files.ScoreEnds`      — all that scoring the records of a file can come to.
* `Files.score_counts_records`
                         — when a line is reported, which one it is, and that nothing is printed.
-/

namespace ScoringTree

/-! ## Lines -/

namespace Text

/-- The line stands in the text behind that many newlines, and goes on up to the next one. -/
def LineAt (text : List Char) (i : Nat) (line : List Char) : Prop :=
  ∃ front back, text = front ++ line ++ back ∧ front.count '\n' = i ∧
    (front = [] ∨ front.getLast? = some '\n') ∧ '\n' ∉ line ∧
    (back = [] ∨ back.head? = some '\n' ∨ ['\r', '\n'] <+: back)

section LineAt

variable {cs piece : List Char} {i : Nat}

/-- A line end in front of a text moves its lines on by one. -/
theorem LineAt.behind (h : LineAt cs i piece) (ending : List Char)
    (hending : ending.count '\n' = 1) (hlast : ending.getLast? = some '\n') :
    LineAt (ending ++ cs) (i + 1) piece := by
  obtain ⟨front, back, rfl, rfl, hfront, hpiece, hback⟩ := h
  refine ⟨ending ++ front, back, by simp, ?_, .inr ?_, hpiece, hback⟩
  · rw [List.count_append, hending, Nat.add_comm]
  · rw [List.getLast?_append]
    rcases hfront with rfl | hfront
    · simpa using hlast
    · rw [hfront]
      rfl

/-- A character that ends no line belongs to the first one. -/
theorem LineAt.cons_zero {c : Char} (h : LineAt cs 0 piece) (hc : c ≠ '\n') :
    LineAt (c :: cs) 0 (c :: piece) := by
  obtain ⟨front, back, rfl, hcount, hfront, hpiece, hback⟩ := h
  have hnil : front = [] := by
    rcases hfront with hfront | hfront
    · exact hfront
    · exact absurd (List.mem_of_getLast? hfront) (List.count_eq_zero.mp hcount)
  subst hnil
  exact ⟨[], back, rfl, rfl, .inl rfl, by simp [hpiece, Ne.symm hc], hback⟩

theorem LineAt.cons_succ {c : Char} (h : LineAt cs (i + 1) piece) (hc : c ≠ '\n') :
    LineAt (c :: cs) (i + 1) piece := by
  obtain ⟨front, back, rfl, hcount, hfront, hpiece, hback⟩ := h
  have hlast : front.getLast? = some '\n' := by
    rcases hfront with rfl | hfront
    · cases hcount
    · exact hfront
  refine ⟨c :: front, back, rfl, ?_, .inr ?_, hpiece, hback⟩
  · rw [List.count_cons_of_ne hc, hcount]
  · rw [List.getLast?_cons, hlast]
    rfl

/-- The pieces between line ends are the lines. -/
theorem lineAt_of_splitOn (h : ((lineEnds cs).splitOn '\n')[i]? = some piece) :
    LineAt cs i piece := by
  induction cs using lineEnds.induct generalizing i piece with
  | case1 =>
    rw [lineEnds, List.splitOn_nil] at h
    obtain ⟨rfl, rfl⟩ : i = 0 ∧ piece = [] := by
      cases i with
      | zero => simpa [eq_comm] using h
      | succ i => cases h
    exact ⟨[], [], rfl, rfl, .inl rfl, by simp, .inl rfl⟩
  | case2 cs ih =>
    rw [lineEnds, List.splitOn_cons_eq_if_modifyHead, if_pos (by decide)] at h
    cases i with
    | zero =>
      cases h
      exact ⟨[], _, rfl, rfl, .inl rfl, by simp, .inr (.inr ⟨cs, rfl⟩)⟩
    | succ i => exact (ih h).behind ['\r', '\n'] (by decide) rfl
  | case3 c cs hnot ih =>
    rw [lineEnds.eq_3 c cs hnot, List.splitOn_cons_eq_if_modifyHead] at h
    by_cases hc : c = '\n'
    · subst hc
      rw [if_pos (by decide)] at h
      cases i with
      | zero =>
        cases h
        exact ⟨[], _, rfl, rfl, .inl rfl, by simp, .inr (.inl rfl)⟩
      | succ i => exact (ih h).behind ['\n'] (by decide) rfl
    · rw [if_neg (by simpa using hc)] at h
      obtain ⟨first, rest, hsplit⟩ :=
        List.exists_cons_of_ne_nil (List.splitOn_ne_nil '\n' (lineEnds cs))
      rw [hsplit, List.modifyHead_cons] at h
      rw [hsplit] at ih
      cases i with
      | zero =>
        cases h
        exact (ih rfl).cons_zero hc
      | succ i => exact (ih h).cons_succ hc

end LineAt

theorem lineAt_of_lines {text line : String} {i : Nat} (h : (lines text)[i]? = some line) :
    LineAt text.toList i line.toList := by
  rw [lines, List.getElem?_map, Option.map_eq_some_iff] at h
  obtain ⟨piece, hpiece, rfl⟩ := h
  rw [String.toList_ofList]
  exact lineAt_of_splitOn hpiece

end Text

/-- A line that is not blank, and so has to be a record. -/
def isRecord (line : String) : Bool := !(Text.trim line).isEmpty

/-- The message for a record that is no JSON text. -/
def invalidLine (number : Nat) : String := "Invalid JSON on line " ++ toString number

/-- The first record that is no JSON text stands at that position, counted from zero. -/
structure FirstInvalid (lines : List String) (i : Nat) : Prop where
  here : ∃ line, lines[i]? = some line ∧ isRecord line = true ∧ Json.parse line = none
  before : ∀ line ∈ lines.take i, isRecord line = true → (Json.parse line).isSome = true

/-- The number of records before a position. -/
def recordsBefore (lines : List String) (i : Nat) : Nat := (lines.take i).countP isRecord

section Lines

variable {line : String} {rest : List String} {i : Nat}

theorem FirstInvalid.lt {lines : List String} (h : FirstInvalid lines i) : i < lines.length := by
  obtain ⟨line, hline, -⟩ := h.here
  exact (List.getElem?_eq_some_iff.mp hline).1

theorem FirstInvalid.unique {lines : List String} {j : Nat} (hi : FirstInvalid lines i)
    (hj : FirstInvalid lines j) : i = j := by
  have hle : ∀ {a b : Nat}, FirstInvalid lines a → FirstInvalid lines b → a ≤ b := by
    intro a b ha hb
    obtain ⟨line, hline, hrecord, hinvalid⟩ := hb.here
    refine Nat.le_of_not_lt fun hlt => ?_
    have hmem : line ∈ lines.take a := by
      obtain ⟨hb, hat⟩ := List.getElem?_eq_some_iff.mp hline
      exact List.mem_take_iff_getElem.mpr ⟨b, Nat.lt_min.mpr ⟨hlt, hb⟩, hat⟩
    have := ha.before line hmem hrecord
    rw [hinvalid] at this
    cases this
  exact Nat.le_antisymm (hle hi hj) (hle hj hi)

theorem firstInvalid_zero :
    FirstInvalid (line :: rest) 0 ↔ isRecord line = true ∧ Json.parse line = none := by
  constructor
  · rintro ⟨⟨_, ⟨⟩, hrecord, hinvalid⟩, -⟩
    exact ⟨hrecord, hinvalid⟩
  · rintro ⟨hrecord, hinvalid⟩
    exact ⟨⟨line, rfl, hrecord, hinvalid⟩, by simp⟩

theorem firstInvalid_succ :
    FirstInvalid (line :: rest) (i + 1) ↔
      (isRecord line = true → (Json.parse line).isSome = true) ∧ FirstInvalid rest i := by
  constructor
  · rintro ⟨hhere, hbefore⟩
    rw [List.take_succ_cons, List.forall_mem_cons] at hbefore
    exact ⟨hbefore.1, by simpa using hhere, hbefore.2⟩
  · rintro ⟨hline, hhere, hbefore⟩
    refine ⟨by simpa using hhere, ?_⟩
    rw [List.take_succ_cons, List.forall_mem_cons]
    exact ⟨hline, hbefore⟩

/-- A line that can be read is no first invalid one, so the first one stands behind it. -/
theorem exists_firstInvalid_cons {P : Nat → Prop}
    (hline : isRecord line = true → (Json.parse line).isSome = true) :
    (∃ i, FirstInvalid (line :: rest) i ∧ P i) ↔ ∃ i, FirstInvalid rest i ∧ P (i + 1) := by
  constructor
  · rintro ⟨i, hi, hp⟩
    cases i with
    | zero =>
      obtain ⟨hrecord, hinvalid⟩ := firstInvalid_zero.mp hi
      have hread := hline hrecord
      rw [hinvalid] at hread
      cases hread
    | succ i => exact ⟨i, (firstInvalid_succ.mp hi).2, hp⟩
  · rintro ⟨i, hi, hp⟩
    exact ⟨i + 1, firstInvalid_succ.mpr ⟨hline, hi⟩, hp⟩

theorem recordsBefore_succ :
    recordsBefore (line :: rest) (i + 1) =
      recordsBefore rest i + if isRecord line = true then 1 else 0 := by
  rw [recordsBefore, List.take_succ_cons, List.countP_cons, recordsBefore]

/-- The position is the number of records before it exactly if all lines before it are records. -/
theorem FirstInvalid.recordsBefore_eq_iff {lines : List String} (h : FirstInvalid lines i) :
    recordsBefore lines i = i ↔ ∀ line ∈ lines.take i, isRecord line = true := by
  have hlength : (lines.take i).length = i := List.length_take_of_le (Nat.le_of_lt h.lt)
  rw [← List.countP_eq_length, hlength, recordsBefore]

end Lines

/-! ## Records -/

section Records

variable {number : Nat} {line : String} {rest : List String} {failure : Failure}

theorem recordsFrom_invalid (h : Json.parse line = none) :
    recordsFrom number (line :: rest) = .error [invalidLine number] := by
  rw [recordsFrom, h]
  rfl

theorem recordsFrom_valid {record : Json} (h : Json.parse line = some record) :
    recordsFrom number (line :: rest) = .error failure ↔
      recordsFrom (number + 1) rest = .error failure := by
  rw [recordsFrom, h]
  cases recordsFrom (number + 1) rest with
  | error e => rfl
  | ok records => simp

end Records

/-- Records are counted from the given number on; the first that is no JSON text ends the reading. -/
theorem recordsFrom_error_iff {number : Nat} {lines : List String} {failure : Failure} :
    recordsFrom number (lines.filter isRecord) = .error failure ↔
      ∃ i, FirstInvalid lines i ∧ failure = [invalidLine (number + recordsBefore lines i)] := by
  induction lines generalizing number with
  | nil =>
    have hnone : ∀ i, ¬FirstInvalid [] i := fun i h => absurd h.lt (Nat.not_lt_zero i)
    simp [recordsFrom, hnone]
  | cons line rest ih =>
    by_cases hrecord : isRecord line = true
    · rw [List.filter_cons_of_pos hrecord]
      cases hparse : Json.parse line with
      | none =>
        have hfirst : FirstInvalid (line :: rest) 0 := firstInvalid_zero.mpr ⟨hrecord, hparse⟩
        rw [recordsFrom_invalid hparse, Except.error.injEq]
        constructor
        · rintro rfl
          exact ⟨0, hfirst, rfl⟩
        · rintro ⟨i, hi, rfl⟩
          cases hi.unique hfirst
          rfl
      | some record =>
        have hline : isRecord line = true → (Json.parse line).isSome = true := by
          intro _
          rw [hparse]
          rfl
        rw [recordsFrom_valid hparse, ih, exists_firstInvalid_cons hline]
        simp only [recordsBefore_succ, if_pos hrecord, Nat.add_right_comm number 1, Nat.add_assoc]
    · -- a blank line is passed without being counted
      rw [List.filter_cons_of_neg hrecord, ih,
        exists_firstInvalid_cons fun h => absurd h hrecord]
      simp only [recordsBefore_succ, if_neg hrecord, Nat.add_zero]

theorem recordsOf_error_iff {text : String} {failure : Failure} :
    recordsOf text = .error failure ↔
      ∃ i, FirstInvalid (Text.lines text) i ∧
        failure = [invalidLine (recordsBefore (Text.lines text) i + 1)] := by
  have hrecords : recordsOf text = recordsFrom 1 ((Text.lines text).filter isRecord) := rfl
  simp only [hrecords, recordsFrom_error_iff, Nat.add_comm 1]

/-! ## Messages -/

theorem head?_append {front : String} {c : Char} (h : front.toList.head? = some c)
    (back : String) : (front ++ back).toList.head? = some c := by
  rw [String.toList_append, List.head?_append, h]
  rfl

/-- No other message starts like that for a line. -/
theorem ne_invalidLine {message : String} {c : Char} (h : message.toList.head? = some c)
    (hc : c ≠ 'I') (number : Nat) : message ≠ invalidLine number := by
  rintro rfl
  have hhead : (invalidLine number).toList.head? = some 'I' := head?_append (by decide) _
  rw [hhead] at h
  exact hc (Option.some.inj h).symm

theorem InvalidModel.message_ne (error : InvalidModel) (number : Nat) :
    error.message ≠ invalidLine number := by
  obtain ⟨rest, hmessage⟩ : ∃ rest, error.message =
      "invalid model '" ++ error.model ++ "': " ++ rest := ⟨_, rfl⟩
  rw [hmessage]
  exact ne_invalidLine (head?_append (head?_append (head?_append (by decide) _) _) _)
    (by decide : 'i' ≠ 'I') number

theorem ScoringError.message_ne (error : ScoringError) (number : Nat) :
    error.message ≠ invalidLine number := by
  cases error with
  | invalid error =>
    have hmessage : (ScoringError.invalid error).message = error.message := rfl
    rw [hmessage]
    exact error.message_ne number
  | evaluation node fault =>
    have hmessage : (ScoringError.evaluation node fault).message =
        "evaluation error at node '" ++ node ++ "': " ++ fault.text := rfl
    rw [hmessage]
    exact ne_invalidLine (head?_append (head?_append (head?_append (by decide) _) _) _)
      (by decide : 'e' ≠ 'I') number

theorem invalidLine_inj {number other : Nat} :
    invalidLine number = invalidLine other ↔ number = other := by
  constructor
  · intro h
    have hrepr : number.repr = other.repr := (String.append_right_inj _).mp h
    rw [Nat.repr_eq_ofList_toDigits, Nat.repr_eq_ofList_toDigits, String.ofList_inj] at hrepr
    have hdigits := congrArg (fun cs => Nat.ofDigitChars 10 cs 0) hrepr
    simpa only [Nat.ofDigitChars_toDigits (by decide : 1 < 10) (by decide : 10 ≤ 10)] using hdigits
  · rintro rfl
    rfl

/-- Scoring itself reports no line. -/
theorem scoreAll_failure_ne (tree : Tree) (types : FieldTypes) (records : List Json) (number : Nat) :
    (scoreAll tree types records).failure ≠ some [invalidLine number] := by
  induction records with
  | nil => simp [scoreAll]
  | cons record rest ih =>
    rw [scoreAll]
    cases tree.evaluate types record with
    | error e => simpa using e.message_ne number
    | ok prediction => exact ih

theorem scorable_error_ne {document : Document} {failure : Failure}
    (h : scorable document = .error failure) (number : Nat) : failure ≠ [invalidLine number] := by
  simp only [scorable] at h
  split at h
  · rename_i e _
    cases h
    simpa using e.message_ne number
  · split at h
    · rename_i e _
      cases h
      simpa using e.message_ne number
    · cases h

/-! ## The command -/

namespace Files

/-- The model that is asked for is there and can be scored. -/
structure Scorable (files : Files) (path model : String) (config : Config) (tree : Tree)
    (types : FieldTypes) : Prop where
  loads : files.config? path = .ok config
  found : ∃ document, documentNamed config.modelsFolder model
    (files.documents config.modelsFolder) = .ok document ∧ scorable document = .ok (tree, types)

theorem text?_at?_iff {files : Files} {path text : String} :
    (files.at? path).bind Content.text? = some text ↔ files.at? path = some (.text text) := by
  cases files.at? path with
  | none => simp
  | some content => cases content <;> simp [Content.text?]

/-- What scoring the records of a file can come to. -/
inductive ScoreEnds (files : Files) (path model input : String) : Report → Prop where
  | unloaded {e : ProjectError} (config : files.config? path = .error e) :
      ScoreEnds files path model input ⟨[], some ["Failed to load configuration", e.message]⟩
  | notFound {config : Config} {e : ProjectError} (loads : files.config? path = .ok config)
      (found : documentNamed config.modelsFolder model (files.documents config.modelsFolder) =
        .error e) :
      ScoreEnds files path model input ⟨[], some ["Model not found: " ++ model, e.message]⟩
  | unscorable {config : Config} {document : Document} {failure : Failure}
      (loads : files.config? path = .ok config)
      (found : documentNamed config.modelsFolder model (files.documents config.modelsFolder) =
        .ok document) (fails : scorable document = .error failure) :
      ScoreEnds files path model input ⟨[], some failure⟩
  | unreadable {config : Config} {tree : Tree} {types : FieldTypes}
      (ready : files.Scorable path model config tree types)
      (missing : (files.at? (Path.join config.base input)).bind Content.text? = none) :
      ScoreEnds files path model input
        ⟨[], some ["Failed to read " ++ Path.join config.base input]⟩
  | invalid {config : Config} {tree : Tree} {types : FieldTypes} {text : String}
      {failure : Failure} (ready : files.Scorable path model config tree types)
      (content : files.at? (Path.join config.base input) = some (.text text))
      (fails : recordsOf text = .error failure) :
      ScoreEnds files path model input ⟨[], some failure⟩
  | scored {config : Config} {tree : Tree} {types : FieldTypes} {text : String}
      {records : List Json} (ready : files.Scorable path model config tree types)
      (content : files.at? (Path.join config.base input) = some (.text text))
      (read : recordsOf text = .ok records) :
      ScoreEnds files path model input (scoreAll tree types records)

theorem score_ends (files : Files) (path : String) (verbose : Bool) (model input : String) :
    ScoreEnds files path model input
      (files.perform ⟨path, verbose, .score model none (some input)⟩).1 := by
  change ScoreEnds files path model input
    ((scoreRecords path model none (some input) : StateM Files Report).run files).1
  unfold scoreRecords
  cases hconfig : files.config? path with
  | error e =>
    have hread : (Config.load path : StateM Files _).run files = (.error e, files) :=
      Prod.ext hconfig (ReadOnly.load path files)
    have hload : (loadProject path : StateM Files _).run files =
        (.error ["Failed to load configuration", e.message], files) := by
      rw [loadProject, run_bind_of_eq hread]
      rfl
    rw [run_bind_of_eq hload]
    exact .unloaded hconfig
  | ok config =>
    rw [run_bind_of_eq (loadProject_run hconfig)]
    simp only [within, Except.mapError]
    cases hfound : documentNamed config.modelsFolder model
        (files.documents config.modelsFolder) with
    | error e => exact .notFound hconfig hfound
    | ok document =>
      simp only
      cases hscorable : scorable document with
      | error failure => exact .unscorable hconfig hfound hscorable
      | ok scored =>
        obtain ⟨tree, types⟩ := scored
        have hready : files.Scorable path model config tree types :=
          ⟨hconfig, document, hfound, hscorable⟩
        have hread := read?_run files (Path.join config.base input)
        simp only [readRecords, bind_assoc]
        rw [run_bind_of_eq hread]
        cases htext : (files.at? (Path.join config.base input)).bind Content.text? with
        | none => exact .unreadable hready htext
        | some text =>
          have hcontent := text?_at?_iff.mp htext
          simp only [pure_bind]
          cases hrecords : recordsOf text with
          | error failure => exact .invalid hready hcontent hrecords
          | ok records => exact .scored hready hcontent hrecords

section Ends

variable {files : Files} {path model input : String} {report : Report}

/-- A line is reported only for a record that is no JSON text. -/
theorem ScoreEnds.invalid_of_line (h : ScoreEnds files path model input report) {number : Nat}
    (hline : report.failure = some [invalidLine number]) :
    report.lines = [] ∧ ∃ config tree types text, files.Scorable path model config tree types ∧
      files.at? (Path.join config.base input) = some (.text text) ∧
      recordsOf text = .error [invalidLine number] := by
  cases h with
  | unloaded _ => simp at hline
  | notFound _ _ => simp at hline
  | unscorable _ _ fails => exact absurd (Option.some.inj hline) (scorable_error_ne fails number)
  | unreadable _ _ =>
    have hmessage := List.singleton_inj.mp (Option.some.inj hline)
    exact absurd hmessage
      (ne_invalidLine (head?_append (by decide) _) (by decide : 'F' ≠ 'I') number)
  | invalid ready content fails =>
    rw [Option.some.inj hline] at fails
    exact ⟨rfl, _, _, _, _, ready, content, fails⟩
  | scored _ _ _ => exact absurd hline (scoreAll_failure_ne _ _ _ number)

/-- A record that is no JSON text is always reported. -/
theorem ScoreEnds.eq_of_error (h : ScoreEnds files path model input report) {config : Config}
    {tree : Tree} {types : FieldTypes} {text : String} {failure : Failure}
    (hready : files.Scorable path model config tree types)
    (hcontent : files.at? (Path.join config.base input) = some (.text text))
    (hfails : recordsOf text = .error failure) : report = ⟨[], some failure⟩ := by
  obtain ⟨document, hfound, hscorable⟩ := hready.found
  have hsame : ∀ {other : Config}, files.config? path = .ok other → other = config :=
    fun hloads => Except.ok.inj (hloads.symm.trans hready.loads)
  cases h with
  | unloaded config =>
    rw [hready.loads] at config
    cases config
  | notFound loads found =>
    cases hsame loads
    rw [hfound] at found
    cases found
  | unscorable loads found fails =>
    cases hsame loads
    rw [hfound] at found
    cases found
    rw [hscorable] at fails
    cases fails
  | unreadable ready missing =>
    cases hsame ready.loads
    rw [text?_at?_iff.mpr hcontent] at missing
    cases missing
  | invalid ready content fails =>
    cases hsame ready.loads
    rw [hcontent] at content
    cases content
    rw [hfails] at fails
    cases fails
    rfl
  | scored ready content read =>
    cases hsame ready.loads
    rw [hcontent] at content
    cases content
    rw [hfails] at read
    cases read

end Ends

/-- A line is reported exactly if a model can be scored and the file has a record that is no JSON
text. The number is that of the record among the records, which is its line in the file exactly if
no blank line stands before it, and no prediction is printed. -/
theorem score_counts_records (files : Files) (path : String) (verbose : Bool)
    (model input : String) :
    (∀ number, (files.perform ⟨path, verbose, .score model none (some input)⟩).1.failure =
        some [invalidLine number] ↔
      ∃ config tree types text i, files.Scorable path model config tree types ∧
        files.at? (Path.join config.base input) = some (.text text) ∧
        FirstInvalid (Text.lines text) i ∧
        number = recordsBefore (Text.lines text) i + 1) ∧
    (∀ number, (files.perform ⟨path, verbose, .score model none (some input)⟩).1.failure =
        some [invalidLine number] →
      (files.perform ⟨path, verbose, .score model none (some input)⟩).1.lines = []) ∧
    ∀ text i, FirstInvalid (Text.lines text) i →
      (∃ line, (Text.lines text)[i]? = some line ∧ Text.LineAt text.toList i line.toList) ∧
      (recordsBefore (Text.lines text) i + 1 = i + 1 ↔
        ∀ line ∈ (Text.lines text).take i, isRecord line = true) := by
  have hends := files.score_ends path verbose model input
  refine ⟨?_, fun number hline => (hends.invalid_of_line hline).1, ?_⟩
  · intro number
    constructor
    · intro hline
      obtain ⟨-, config, tree, types, text, hready, hcontent, hfails⟩ := hends.invalid_of_line hline
      obtain ⟨i, hi, hnumber⟩ := recordsOf_error_iff.mp hfails
      rw [List.singleton_inj, invalidLine_inj] at hnumber
      exact ⟨config, tree, types, text, i, hready, hcontent, hi, hnumber⟩
    · rintro ⟨config, tree, types, text, i, hready, hcontent, hi, rfl⟩
      rw [hends.eq_of_error hready hcontent (recordsOf_error_iff.mpr ⟨i, hi, rfl⟩)]
  · intro text i hi
    obtain ⟨line, hline, -⟩ := hi.here
    refine ⟨⟨line, hline, Text.lineAt_of_lines hline⟩, ?_⟩
    rw [Nat.add_right_cancel_iff]
    exact hi.recordsBefore_eq_iff

/-- A folder in which one file looks like a document. -/
theorem documents_of_filesAt {files : Files} {folder path text : String}
    (hfiles : files.filesAt folder = [path]) (hlooks : isDocumentPath path = true)
    (hat : files.at? path = some (.text text)) :
    files.documents folder = [⟨path, some text⟩] := by
  have hrun : (FileStore.filesAt folder : StateM Files _).run files = ([path], files) := by
    rw [← hfiles]
    rfl
  have hpaths : (documentPaths folder : StateM Files _).run files = ([path], files) := by
    rw [documentPaths, run_bind_of_eq hrun, List.filter_cons_of_pos hlooks, List.filter_nil,
      List.mergeSort_singleton]
    rfl
  have hread := read?_run files path
  rw [hat, Option.bind_some] at hread
  rw [documents, documentsAt, run_bind_of_eq hpaths, readFiles, run_bind_of_eq hread]
  rfl

theorem exists_of_isOk {ε α β : Type} {first : Except ε α} {next : α → Except ε β}
    (h : (first >>= next).isOk = true) : ∃ a b, first = .ok a ∧ next a = .ok b := by
  cases first with
  | error e => cases h
  | ok a =>
    cases hnext : next a with
    | error e =>
      have hbind : (Except.ok a >>= next) = .error e := hnext
      rw [hbind] at h
      cases h
    | ok b => exact ⟨a, b, rfl, hnext⟩

/-- A model with a single node. -/
def loneModel : String :=
  "\x7b\"tree_model\": \x7b\"model_name\": \"m\", \"node\": \x7b\"score\": \"a\"\x7d\x7d\x7d"

/-- A project with that model and a file of records. -/
def recorded (records : String) : Files :=
  ⟨[(["work", "r.jsonl"], .text records), (["work", "models", "m.json"], .text loneModel),
    (["work", "models"], .folder), (["work", "treeforge.yaml"], .text "name: p"),
    (["work"], .folder)], ["work"]⟩

theorem recorded_scorable (records : String) :
    ∃ config tree types, (recorded records).Scorable "treeforge.yaml" "m" config tree types ∧
      (recorded records).at? (Path.join config.base "r.jsonl") = some (.text records) := by
  let config : Config := ⟨⟨"p", "0.1.0", "org.treeforge.generated", "models", "generated"⟩, ""⟩
  have hconfig : (recorded records).config? "treeforge.yaml" = .ok config := by
    have hat : (recorded records).at? "treeforge.yaml" = some (.text "name: p") := rfl
    have hkind : (some (Content.text "name: p")).map Content.kind = some .file := rfl
    have hwhere : Config.whereabouts "treeforge.yaml" (some .file) = ("treeforge.yaml", "") := by
      decide +kernel
    rw [config?_ok_iff, hat, hkind, hwhere]
    exact ⟨"name: p", hat, by decide +kernel⟩
  have hdocuments : (recorded records).documents "models" = [⟨"models/m.json", some loneModel⟩] :=
    documents_of_filesAt rfl (by decide +kernel) rfl
  have hscores : (within "" (documentNamed "models" "m" [⟨"models/m.json", some loneModel⟩]) >>=
      scorable).isOk = true := by decide +kernel
  obtain ⟨document, scored, hnamed, hscorable⟩ := exists_of_isOk hscores
  have hfolder : config.modelsFolder = "models" := by decide +kernel
  have hpath : Path.join config.base "r.jsonl" = "r.jsonl" := by decide +kernel
  refine ⟨config, scored.1, scored.2, ⟨hconfig, document, ?_, hscorable⟩, ?_⟩
  · rw [hfolder, hdocuments]
    exact (within_ok_iff _ _ _).mp hnamed
  · rw [hpath]
    rfl

theorem firstInvalid_second {first : String} (h : isRecord first = true →
    (Json.parse first).isSome = true) : FirstInvalid [first, "["] 1 := by
  refine firstInvalid_succ.mpr ⟨h, firstInvalid_zero.mpr ⟨?_, ?_⟩⟩
  · decide +kernel
  · rfl

/-- The second of two records is no JSON text. -/
theorem score_counts_records_second :
    FirstInvalid (Text.lines "\x7b\x7d\n[") 1 ∧
      ((recorded "\x7b\x7d\n[").perform
          ⟨"treeforge.yaml", false, .score "m" none (some "r.jsonl")⟩).1.failure =
        some [invalidLine 2] ∧
      ((recorded "\x7b\x7d\n[").perform
          ⟨"treeforge.yaml", false, .score "m" none (some "r.jsonl")⟩).1.lines = [] := by
  have hlines : Text.lines "\x7b\x7d\n[" = ["\x7b\x7d", "["] := by decide +kernel
  have hfirst : FirstInvalid (Text.lines "\x7b\x7d\n[") 1 :=
    hlines ▸ firstInvalid_second fun _ => by decide +kernel
  have hcount : recordsBefore (Text.lines "\x7b\x7d\n[") 1 = 1 := by decide +kernel
  obtain ⟨hreports, hsilent, -⟩ := score_counts_records (recorded "\x7b\x7d\n[") "treeforge.yaml"
    false "m" "r.jsonl"
  obtain ⟨config, tree, types, hready, hcontent⟩ := recorded_scorable "\x7b\x7d\n["
  have hreport := (hreports 2).mpr
    ⟨config, tree, types, _, 1, hready, hcontent, hfirst, by rw [hcount]⟩
  exact ⟨hfirst, hreport, hsilent 2 hreport⟩

/-- With a blank line first, the second line is reported as the first. -/
theorem score_skips_blank :
    FirstInvalid (Text.lines "\n[") 1 ∧
      ((recorded "\n[").perform
          ⟨"treeforge.yaml", false, .score "m" none (some "r.jsonl")⟩).1 =
        ⟨[], some [invalidLine 1]⟩ ∧ invalidLine 1 ≠ invalidLine (1 + 1) := by
  have hlines : Text.lines "\n[" = ["", "["] := by decide +kernel
  have hfirst : FirstInvalid (Text.lines "\n[") 1 :=
    hlines ▸ firstInvalid_second fun h => absurd h (by decide +kernel)
  have hcount : recordsBefore (Text.lines "\n[") 1 = 0 := by decide +kernel
  obtain ⟨config, tree, types, hready, hcontent⟩ := recorded_scorable "\n["
  have hfails : recordsOf "\n[" = .error [invalidLine 1] :=
    recordsOf_error_iff.mpr ⟨1, hfirst, by rw [hcount]⟩
  have hends := (recorded "\n[").score_ends "treeforge.yaml" false "m" "r.jsonl"
  exact ⟨hfirst, hends.eq_of_error hready hcontent hfails, by simp [invalidLine_inj]⟩

end Files

end ScoringTree
