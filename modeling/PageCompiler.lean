import PageCompiler.Checking.Check
import PageCompiler.Checking.Custom
import PageCompiler.Checking.Settings
import PageCompiler.Checking.Standard
import PageCompiler.Checking.Values
import PageCompiler.ClassText.Class
import PageCompiler.ClassText.Content
import PageCompiler.ClassText.Custom
import PageCompiler.ClassText.Generator
import PageCompiler.ClassText.LineMap
import PageCompiler.ClassText.Literal
import PageCompiler.ClassText.Names
import PageCompiler.ClassText.Standard
import PageCompiler.ClassText.Statement
import PageCompiler.CommandLine.Arguments
import PageCompiler.CommandLine.Run
import PageCompiler.Compilation
import PageCompiler.Data.Json
import PageCompiler.Data.Value
import PageCompiler.Data.Yaml
import PageCompiler.Data.Yaml.Scalar
import PageCompiler.Data.Yaml.Symbol
import PageCompiler.Data.Yaml.Tag
import PageCompiler.Data.Yaml.Token
import PageCompiler.Diagnostic
import PageCompiler.Expression.Basic
import PageCompiler.Expression.Composite
import PageCompiler.Expression.Grammar
import PageCompiler.Fault
import PageCompiler.Handlers.Pool
import PageCompiler.Library.Contract
import PageCompiler.Library.Descriptor
import PageCompiler.Library.Resolver
import PageCompiler.Library.TagFile
import PageCompiler.Main
import PageCompiler.Mark
import PageCompiler.Markup.Entity
import PageCompiler.Markup.Event
import PageCompiler.Number.Double
import PageCompiler.Options
import PageCompiler.Page.Bindings
import PageCompiler.Page.Findings
import PageCompiler.Page.Outline
import PageCompiler.Page.Tree
import PageCompiler.Page.View
import PageCompiler.Proofs.Checking.BufferSizes
import PageCompiler.Proofs.Checking.Contracts
import PageCompiler.Proofs.Checking.DeclaredEncodings
import PageCompiler.Proofs.Checking.DirectiveOrder
import PageCompiler.Proofs.Checking.ExposedVariables
import PageCompiler.Proofs.Checking.HookData
import PageCompiler.Proofs.Checking.RawCode
import PageCompiler.Proofs.Checking.ScannedRuns
import PageCompiler.Proofs.ClassText.Accessors
import PageCompiler.Proofs.ClassText.ClassLines
import PageCompiler.Proofs.ClassText.ClassNames
import PageCompiler.Proofs.ClassText.FaultPlaces
import PageCompiler.Proofs.ClassText.FunctionFields
import PageCompiler.Proofs.ClassText.Generation
import PageCompiler.Proofs.ClassText.IntegerLiterals
import PageCompiler.Proofs.ClassText.LineMaps
import PageCompiler.Proofs.ClassText.LiteralStrategies
import PageCompiler.Proofs.ClassText.PlainMaps
import PageCompiler.Proofs.ClassText.PoolFields
import PageCompiler.Proofs.ClassText.Recovery
import PageCompiler.Proofs.ClassText.SavedVariables
import PageCompiler.Proofs.ClassText.SkeletonSteps
import PageCompiler.Proofs.ClassText.SourceMaps
import PageCompiler.Proofs.ClassText.StringLiterals
import PageCompiler.Proofs.ClassText.TrimmedClasses
import PageCompiler.Proofs.ClassText.UnitClasses
import PageCompiler.Proofs.ClassText.VariableScopes
import PageCompiler.Proofs.Expression.ByteScan
import PageCompiler.Proofs.Expression.RoundTrip
import PageCompiler.Proofs.Expression.SourceText
import PageCompiler.Proofs.Forms.Equivalence
import PageCompiler.Proofs.Forms.View
import PageCompiler.Proofs.Forms.ViewReading
import PageCompiler.Proofs.Handlers.Sharing
import PageCompiler.Proofs.Library.SharedCache
import PageCompiler.Proofs.Library.Signatures
import PageCompiler.Proofs.Library.TagRules
import PageCompiler.Proofs.Reading.BindingRuns
import PageCompiler.Proofs.Reading.BindingSteps
import PageCompiler.Proofs.Reading.DirectiveBodies
import PageCompiler.Proofs.Reading.LibraryBindings
import PageCompiler.Proofs.Reading.Places
import PageCompiler.Proofs.Reading.Termination
import PageCompiler.Proofs.Reading.TextRuns
import PageCompiler.Proofs.Reading.VerbatimPages
import PageCompiler.Proofs.Source.CursorRuns
import PageCompiler.Reading.Builder
import PageCompiler.Reading.Relaxed
import PageCompiler.Reading.Strict
import PageCompiler.Reading.Unit
import PageCompiler.Site.FileSystem
import PageCompiler.Site.Path
import PageCompiler.Source.Cursor
import PageCompiler.Source.Encoding
import PageCompiler.Source.LineIndex
import PageCompiler.Source.Loader
import PageCompiler.Text.Alphanumeric
import PageCompiler.Text.Blank
import PageCompiler.Text.Cut
import PageCompiler.Text.Letters
import PageCompiler.Text.Printable
import PageCompiler.Text.Ranges
import PageCompiler.Text.Size
import PageCompiler.Text.Slice
import PageCompiler.Text.Utf16
import PageCompiler.Text.Utf8
import PageCompiler.Text.Word
