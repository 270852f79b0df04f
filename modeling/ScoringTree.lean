import ScoringTree.Command.Arguments
import ScoringTree.Command.Run
import ScoringTree.Command.Starter
import ScoringTree.Compilation
import ScoringTree.Datum
import ScoringTree.Digest.Sha256
import ScoringTree.Field.DataType
import ScoringTree.Field.Dictionary
import ScoringTree.Field.Expression
import ScoringTree.Field.Reading
import ScoringTree.Field.Resolution
import ScoringTree.Json.Numeral
import ScoringTree.Json.Reader
import ScoringTree.Json.Value
import ScoringTree.Main
import ScoringTree.Model.Basic
import ScoringTree.Model.Document
import ScoringTree.Model.Tree
import ScoringTree.Number.Binary64
import ScoringTree.Number.Layout
import ScoringTree.Number.Reading
import ScoringTree.Number.Shortest
import ScoringTree.Predicate.Basic
import ScoringTree.Predicate.Reading
import ScoringTree.Project.Config
import ScoringTree.Project.Files
import ScoringTree.Project.Models
import ScoringTree.Project.Path
import ScoringTree.Readable
import ScoringTree.Rule.Condition
import ScoringTree.Rule.Derivation
import ScoringTree.Rule.RuleSet
import ScoringTree.Scoring.Evaluation
import ScoringTree.Scoring.Reading
import ScoringTree.Source.Code
import ScoringTree.Source.Literal
import ScoringTree.Source.Name
import ScoringTree.Source.Skeleton
import ScoringTree.Source.Sources
import ScoringTree.Source.Support
import ScoringTree.Source.Unit
import ScoringTree.Text.Blank
import ScoringTree.Text.Hex
import ScoringTree.Text.Lines
import ScoringTree.Text.Lowercase
import ScoringTree.Text.Printable
import ScoringTree.Text.Quoted
import ScoringTree.Text.Ranges
import ScoringTree.Truth
import ScoringTree.Yaml.Cursor
import ScoringTree.Yaml.Grammar
import ScoringTree.Yaml.Node
import ScoringTree.Yaml.Property
import ScoringTree.Yaml.Scalar.Block
import ScoringTree.Yaml.Scalar.Gap
import ScoringTree.Yaml.Scalar.Meaning
import ScoringTree.Yaml.Scalar.Plain
import ScoringTree.Yaml.Scalar.Quoted
import ScoringTree.Yaml.Tag
import ScoringTree.Yaml.Token
import ScoringTree.Yaml.Token.Lexer
import ScoringTree.Yaml.View
import ScoringTree.Proofs.Arena
import ScoringTree.Proofs.FieldTypes
import ScoringTree.Proofs.Meaning
import ScoringTree.Proofs.Branches
import ScoringTree.Proofs.UnitRun
import ScoringTree.Proofs.Agreement
import ScoringTree.Proofs.DecisionList
import ScoringTree.Proofs.Information
import ScoringTree.Proofs.Growth
import ScoringTree.Proofs.Flattening
import ScoringTree.Proofs.Projects
import ScoringTree.Proofs.JsonText
import ScoringTree.Proofs.JsonValue
import ScoringTree.Proofs.RoundTrip
import ScoringTree.Proofs.HelperAgreement
import ScoringTree.Proofs.Translation
import ScoringTree.Proofs.FileTree
import ScoringTree.Proofs.UnitFiles
import ScoringTree.Proofs.NewProject
import ScoringTree.Proofs.ScalarWidth
import ScoringTree.Proofs.TokenGrowth
import ScoringTree.Proofs.StarterNames
import ScoringTree.Proofs.CycleSearch
import ScoringTree.Proofs.Resolution
import ScoringTree.Proofs.Faults
import ScoringTree.Proofs.UnitClosure
import ScoringTree.Proofs.ClassNames
import ScoringTree.Proofs.SourceReading
import ScoringTree.Proofs.HeaderComment
import ScoringTree.Proofs.NearestFloat
import ScoringTree.Proofs.ShortestDigits
import ScoringTree.Proofs.FloatText
import ScoringTree.Proofs.ConditionReading
import ScoringTree.Proofs.CompoundLogic
import ScoringTree.Proofs.FieldScope
import ScoringTree.Proofs.FloatQuotient
import ScoringTree.Proofs.BareWords
import ScoringTree.Proofs.UnitWords
import ScoringTree.Proofs.FiniteNumbers
import ScoringTree.Proofs.Binding
import ScoringTree.Proofs.SourceIdentity
import ScoringTree.Proofs.RecordLines
import ScoringTree.Proofs.SearchRun
