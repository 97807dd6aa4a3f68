import AtomicCss.Alias.Expansion
import AtomicCss.Alias.Memo
import AtomicCss.Alias.Rules
import AtomicCss.CommandLine.Grammar
import AtomicCss.CommandLine.Request
import AtomicCss.CommandLine.Script
import AtomicCss.Compile
import AtomicCss.Config
import AtomicCss.Declaration
import AtomicCss.Engine
import AtomicCss.Error
import AtomicCss.Extraction
import AtomicCss.File.ConfigFile
import AtomicCss.File.Document
import AtomicCss.File.StylesFile
import AtomicCss.Json.Reader
import AtomicCss.Json.Value
import AtomicCss.Main
import AtomicCss.Merge
import AtomicCss.Number.Decimal
import AtomicCss.Number.Double
import AtomicCss.Number.Text
import AtomicCss.Numeral
import AtomicCss.Pattern.ByteSequence
import AtomicCss.Pattern.Expr
import AtomicCss.Pattern.Footprint
import AtomicCss.Pattern.Match
import AtomicCss.Pattern.Program
import AtomicCss.Pattern.Reader
import AtomicCss.Plugin.Basic
import AtomicCss.Plugin.Important
import AtomicCss.Plugin.Keyframes
import AtomicCss.Plugin.Pipeline
import AtomicCss.Plugin.Variables
import AtomicCss.Selector.Chain
import AtomicCss.Selector.Groups
import AtomicCss.Selector.Marker
import AtomicCss.Store
import AtomicCss.Style.Decoding
import AtomicCss.Style.Misfit
import AtomicCss.Style.Value
import AtomicCss.Stylesheet
import AtomicCss.Table
import AtomicCss.Text.Blank
import AtomicCss.Text.CaseFold
import AtomicCss.Text.CharSet
import AtomicCss.Text.Quoted
import AtomicCss.Text.Scanner
import AtomicCss.Text.Word
import AtomicCss.Toml.DateTime
import AtomicCss.Toml.Document
import AtomicCss.Toml.Reader
import AtomicCss.Walk
import AtomicCss.Proofs.Alias.Expansion
import AtomicCss.Proofs.Alias.History
import AtomicCss.Proofs.Alias.Memo
import AtomicCss.Proofs.Alias.Remembered
import AtomicCss.Proofs.Alias.Unfolding
import AtomicCss.Proofs.Declaration.Key
import AtomicCss.Proofs.Engine.Core
import AtomicCss.Proofs.Engine.Naming
import AtomicCss.Proofs.Engine.Run
import AtomicCss.Proofs.Engine.Termination
import AtomicCss.Proofs.Engine.Traces
import AtomicCss.Proofs.Extraction.Descent
import AtomicCss.Proofs.Extraction.Inside
import AtomicCss.Proofs.Extraction.Speaking
import AtomicCss.Proofs.Extraction.Vocabulary
import AtomicCss.Proofs.Numeral
import AtomicCss.Proofs.Reading
import AtomicCss.Proofs.Store.Canonical
import AtomicCss.Proofs.Walk
import AtomicCss.Proofs.Budget
import AtomicCss.Proofs.Engine.Previews
import AtomicCss.Proofs.Engine.Rendering
import AtomicCss.Proofs.Extraction.Listing
import AtomicCss.Proofs.Meaning
import AtomicCss.Proofs.Extraction.Splicing
import AtomicCss.Proofs.Engine.Transparency
import AtomicCss.Proofs.Engine.Notices
import AtomicCss.Proofs.Alias.Rulebook
import AtomicCss.Proofs.Stylesheet.Decoding
import AtomicCss.Proofs.Store.Renaming
import AtomicCss.Proofs.Compile
import AtomicCss.Proofs.Store.Prefixes
import AtomicCss.Proofs.Alias.Recall
import AtomicCss.Proofs.Alias.Removal
import AtomicCss.Proofs.Alias.Notebook
import AtomicCss.Proofs.Engine.Observers
import AtomicCss.Proofs.Engine.Merging
import AtomicCss.Proofs.Style.Roundtrip
import AtomicCss.Proofs.Alias.Endless
import AtomicCss.Proofs.Stylesheet.Grouping
import AtomicCss.Proofs.Stylesheet.Writing
import AtomicCss.Proofs.Engine.Cascade
import AtomicCss.Proofs.Engine.Markers
import AtomicCss.Proofs.Alias.Mapping
import AtomicCss.Proofs.Extraction.Importance
import AtomicCss.Proofs.Engine.Keeping
import AtomicCss.Proofs.Plugin.Dispatch
import AtomicCss.Proofs.Extraction.Itemwise
import AtomicCss.Proofs.Extraction.Reaching
import AtomicCss.Proofs.Reporting
import AtomicCss.Proofs.Keyframes.Importance
import AtomicCss.Proofs.Variables.Flattening
import AtomicCss.Proofs.Variables.Rounds
import AtomicCss.Proofs.Numeral.Order
import AtomicCss.Proofs.Selector.Normal
