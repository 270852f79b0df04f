import ScoringTree.Command.Starter
import ScoringTree.Project.Config
import ScoringTree.Proofs.PlainLine

/-!
# ScoringTree.Proofs.StarterConfig

The configuration of a new project, read back.

The name of a project is put into the text of its configuration as it is. It is read back if it is
empty or can stand in one line as a plain scalar. The lines around it are read one by one, and give
the same tokens for every such name.

* `Starter.isPlainName`    — such a name.
* `Starter.ofText_config`  — the configuration read back.
-/

namespace ScoringTree

open Yaml Yaml.Lexer

namespace Starter

/-! ## Names that are read back -/

/-- The name is empty, or a plain scalar on one line. -/
def isPlainName (name : String) : Bool :=
  name.toList.all isKept &&
    (name.isEmpty || startsLine name.toList && isPlainRest false name.toList)

/-! ## The text of a configuration -/

def outputLine : List Char :=
  "output_dir".toList ++ ':' :: ' ' :: ("generated".toList ++ List.replicate 1 '\n')

def modelsLines : List Char :=
  "models_dir".toList ++ ':' :: ' ' :: ("models".toList ++ (List.replicate 1 '\n' ++ outputLine))

def packageLines : List Char :=
  "package_name".toList ++ ':' :: ' ' ::
    ("org.treeforge.generated".toList ++ (List.replicate 2 '\n' ++ modelsLines))

def packageComment : String := " Package the generated scoring units are placed in"

/-- What stands behind the line of the name. -/
def versionLines : List Char :=
  "version".toList ++ ':' :: ' ' :: '"' :: ("0.1.0".toList ++ '"' :: '\n' :: '\n' :: '#' ::
    (packageComment.toList ++ '\n' :: packageLines))

def headComment : String := " treeforge project configuration"

/-- The text in front of the name. -/
def headText : String := "#" ++ headComment ++ "\n" ++ "name" ++ ": "

/-- The text behind the name. -/
def tailText : String :=
  "\n" ++ "version" ++ ": " ++ "\"" ++ "0.1.0" ++ "\"" ++ "\n\n" ++ "#" ++ packageComment ++
    "\n" ++ "package_name" ++ ": " ++ "org.treeforge.generated" ++ "\n\n" ++
    "models_dir" ++ ": " ++ "models" ++ "\n" ++ "output_dir" ++ ": " ++ "generated" ++ "\n"

theorem config_eq (name : String) : config name = headText ++ name ++ tailText := by
  have hhead : headText = "# treeforge project configuration
name: " := by decide +kernel
  have htail : tailText = "
version: \"0.1.0\"

# Package the generated scoring units are placed in
package_name: org.treeforge.generated

models_dir: models
output_dir: generated
" := by decide +kernel
  rw [hhead, htail]
  rfl

theorem toList_config (name : String) :
    (config name).toList = '#' :: (headComment.toList ++ '\n' ::
      ("name".toList ++ ':' :: ' ' :: (name.toList ++ '\n' :: versionLines))) := by
  have hmark : "#".toList = ['#'] := rfl
  have hcolon : ": ".toList = [':', ' '] := rfl
  have hquote : "\"".toList = ['"'] := rfl
  have hbreak : "\n".toList = ['\n'] := rfl
  have hbreaks : "\n\n".toList = ['\n', '\n'] := rfl
  rw [config_eq]
  unfold headText tailText versionLines packageLines modelsLines outputLine
  simp only [String.toList_append, hmark, hcolon, hquote, hbreak, hbreaks, List.replicate_succ,
    List.replicate_zero, List.append_assoc, List.cons_append, List.nil_append, -String.reduceAppend]

/-! ## Its tokens -/

def packageTokens : List Token :=
  [.key, .scalar .plain "package_name", .value, .scalar .plain "org.treeforge.generated",
    .key, .scalar .plain "models_dir", .value, .scalar .plain "models",
    .key, .scalar .plain "output_dir", .value, .scalar .plain "generated", .blockEnd]

/-- The tokens behind the value of the name. -/
def tailTokens : List Token :=
  [.key, .scalar .plain "version", .value, .scalar .quoted "0.1.0"] ++ packageTokens

theorem isKey_name : IsKey "name" := ⟨by decide, by decide, by simp, by decide⟩

theorem isKey_version : IsKey "version" := ⟨by decide, by decide, by simp, by decide⟩

theorem isKey_package : IsKey "package_name" := ⟨by decide, by decide, by simp, by decide⟩

theorem isKey_models : IsKey "models_dir" := ⟨by decide, by decide, by simp, by decide⟩

theorem isKey_output : IsKey "output_dir" := ⟨by decide, by decide, by simp, by decide⟩

/-- The tokens in front of the value of the name. -/
def headTokens : List Token := [.blockMappingStart, .key, .scalar .plain "name", .value]

/-- The text in front of the name gives the same tokens, whatever follows. -/
theorem run?_headText (rest : List Char) :
    ∃ place, ∀ fuel, run? (fuel + 2) (start ('#' :: (headComment.toList ++ '\n' ::
      ("name".toList ++ ':' :: ' ' :: rest)))) =
      run? fuel (inBlock place (' ' :: rest) headTokens.reverse [0] none false) := by
  obtain ⟨place, hplace, hcomment⟩ := @skipGaps_comment headComment.toList
    (by simp [headComment, isBreak]) Position.start
    ("name".toList ++ ':' :: ' ' :: rest) [] [] none true
  exact run?_entry isKey_name hplace (.inl rfl) rest [] hcomment

theorem run?_packageLines {lexer : Lexer} {place : Position} {tokens : List Token}
    (hplace : place.column = 0)
    (hlexer : lexer.skipGaps = (inBlock place packageLines tokens [0] none true).skipGaps) :
    ∃ final, (∀ fuel, run? (fuel + 9) lexer = some final) ∧
      final.tokens = packageTokens.reverse ++ tokens := by
  obtain ⟨place₁, hplace₁, hpackage⟩ := @run?_line _ _ _ "org.treeforge.generated"
    modelsLines isKey_package hplace (.inr rfl) (by decide) (by decide)
    (fun c hc => (isKey_models.head_append _ c hc).1.1) (by decide) 1 tokens _ hlexer
  obtain ⟨place₂, hplace₂, hmodels⟩ := @run?_line _ _ _ "models" outputLine isKey_models
    hplace₁ (.inr rfl) (by decide) (by decide)
    (fun c hc => (isKey_output.head_append _ c hc).1.1) (by decide) 0 _ _ rfl
  obtain ⟨final, houtput, htokens⟩ := @run?_last _ _ _ "generated" isKey_output hplace₂
    (.inr rfl) (by decide) (by decide) 0 _ _ rfl
  refine ⟨final, fun fuel => ?_, htokens⟩
  rw [hpackage (fuel + 6)]
  exact (hmodels (fuel + 3)).trans (houtput fuel)

/-- The lines behind that of the name give the same tokens, whatever the name was. -/
theorem run?_versionLines {lexer : Lexer} {place : Position} {tokens : List Token}
    (hplace : place.column = 0)
    (hlexer : lexer.skipGaps = (inBlock place versionLines tokens [0] none true).skipGaps) :
    ∃ final, (∀ fuel, run? (fuel + 12) lexer = some final) ∧
      final.tokens = tailTokens.reverse ++ tokens := by
  obtain ⟨place₁, hversion⟩ := run?_entry isKey_version hplace (.inr rfl)
    ('"' :: ("0.1.0".toList ++ '"' :: '\n' :: '\n' :: '#' ::
      (packageComment.toList ++ '\n' :: packageLines))) tokens hlexer
  obtain ⟨place₂, hquoted⟩ := @step?_quoted "0.1.0" (List.all_eq_true.mp (by decide)) (by decide) place₁
    ('\n' :: '\n' :: '#' :: (packageComment.toList ++ '\n' :: packageLines))
    (.value :: .scalar .plain "version" :: .key :: tokens)
  obtain ⟨place₃, hplace₃, hcomment⟩ := @skipGaps_comment packageComment.toList
    (by simp [packageComment, isBreak])
    ((place₂.after '\n').after '\n') packageLines
    (.scalar .quoted "0.1.0" :: .value :: .scalar .plain "version" :: .key :: tokens) [0] none true
  rw [← skipGaps_newline _ _ _ _ _ true, ← skipGaps_newline _ _ _ _ _ false] at hcomment
  obtain ⟨final, hpackage, htokens⟩ := run?_packageLines hplace₃ hcomment
  refine ⟨final, fun fuel => ?_, htokens⟩
  rw [hversion (fuel + 10)]
  exact (run?_of_step? hquoted (by simp [inBlock]) (fuel + 9)).trans (hpackage fuel)

/-- The tokens of the value of a name. -/
def nameTokens (name : String) : List Token :=
  if name.isEmpty then [] else [.scalar .plain name]

theorem run?_name {name : String} (hname : isPlainName name = true) (place : Position) :
    ∃ final, (∀ fuel, run? (fuel + 13) (inBlock place (' ' :: (name.toList ++ '\n' :: versionLines))
        headTokens.reverse [0] none false) = some final) ∧
      final.tokens = (headTokens ++ nameTokens name ++ tailTokens).reverse := by
  rw [isPlainName, Bool.and_eq_true, Bool.or_eq_true, Bool.and_eq_true] at hname
  by_cases hempty : name.isEmpty
  · have hgap := skipGaps_blank place ('\n' :: versionLines) headTokens.reverse [0] none false
    rw [skipGaps_newline] at hgap
    obtain ⟨final, hrun, htokens⟩ := run?_versionLines rfl hgap
    refine ⟨final, fun fuel => ?_, ?_⟩
    · rw [String.isEmpty_iff.mp hempty]
      exact hrun (fuel + 1)
    · rw [htokens, nameTokens, if_pos hempty]
      simp
  · obtain ⟨hstart, hplain⟩ := hname.2.resolve_left hempty
    obtain ⟨next, hnext, hstep⟩ := @step?_plain name versionLines hstart hplain
      (fun c hc => (isKey_version.head_append _ c hc).1.1) 0 place headTokens.reverse
    obtain ⟨final, hrun, htokens⟩ := run?_versionLines hnext rfl
    refine ⟨final, fun fuel => ?_, ?_⟩
    · exact (run?_of_step? hstep (show versionLines ≠ [] by decide) (fuel + 12)).trans (hrun fuel)
    · rw [htokens, nameTokens, if_neg hempty]
      simp

theorem all_isKept_versionLines : versionLines.all isKept = true := by decide +kernel

theorem readText_config {name : String} (hname : name.toList.all isKept = true) :
    readText (config name) = some (config name).toList := by
  apply readText_of_isKept
  rw [toList_config]
  simp only [List.all_cons, List.all_append, hname, all_isKept_versionLines]
  decide

theorem tokens?_config {name : String} (hname : isPlainName name = true) :
    tokens? (config name).toList = some (headTokens ++ nameTokens name ++ tailTokens) := by
  obtain ⟨place, hhead⟩ := run?_headText (name.toList ++ '\n' :: versionLines)
  obtain ⟨final, hrun, htokens⟩ := run?_name hname place
  have hlength : (config name).toList.length + 1 =
      (headComment.toList.length + name.toList.length + versionLines.length - 5) + 13 + 2 := by
    have hlong : 5 ≤ versionLines.length := by decide +kernel
    have hword : "name".toList.length = 4 := by decide
    rw [toList_config]
    simp only [List.length_cons, List.length_append, hword]
    omega
  rw [tokens?, hlength, toList_config, hhead, hrun, Option.map_some, htokens, List.reverse_reverse]

/-! ## Its meaning -/

/-- What a new project is set to. -/
def settings (name : String) : ProjectSettings :=
  ⟨name, "0.1.0", "org.treeforge.generated", "models", "generated"⟩

def document (name : String) : Yaml.Node :=
  .mapping .none
    [(.scalar .none .plain "name", .scalar .none .plain name),
      (.scalar .none .plain "version", .scalar .none .quoted "0.1.0"),
      (.scalar .none .plain "package_name", .scalar .none .plain "org.treeforge.generated"),
      (.scalar .none .plain "models_dir", .scalar .none .plain "models"),
      (.scalar .none .plain "output_dir", .scalar .none .plain "generated")]

theorem document?_config {name : String} (hname : isPlainName name = true) :
    document? (config name) = some (document name) := by
  have hkept : name.toList.all isKept = true := by
    rw [isPlainName, Bool.and_eq_true] at hname
    exact hname.1
  have hdocument : documentOf? (headTokens ++ nameTokens name ++ tailTokens) =
      some (document name) := by
    by_cases hempty : name.isEmpty
    · rw [nameTokens, if_pos hempty, String.isEmpty_iff.mp hempty]
      rfl
    · rw [nameTokens, if_neg hempty]
      rfl
  rw [document?, readText_config hkept, Option.bind_eq_bind, Option.bind_some,
    tokens?_config hname]
  exact hdocument

theorem read?_document (name : String) :
    (ProjectSettings.read? (⟨(document name).marked.reverse, depthLimit, document name⟩ : View)).run'
      (aliasLimit (document name)) = some (settings name) := by
  simp [ProjectSettings.read?]
  rfl

/-- A plain name is read back, with the default settings. -/
theorem ofText_config {name : String} (hname : isPlainName name = true) (base : String) :
    Config.ofText base (config name) = .ok ⟨settings name, base⟩ := by
  have hpackage : isPackage (settings name).package = true := by
    change isPackage "org.treeforge.generated" = true
    decide +kernel
  rw [Config.ofText, Yaml.read, document?_config hname, Option.bind_some, read?_document]
  exact if_pos hpackage

end Starter
end ScoringTree
