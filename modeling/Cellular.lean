import Cellular.Automaton.Generation
import Cellular.Automaton.Resolution
import Cellular.Cancellation
import Cellular.Cli.Command
import Cellular.Cli.Host
import Cellular.Cli.Path
import Cellular.Cli.Session
import Cellular.Cli.Volume
import Cellular.Config.Automaton
import Cellular.Config.Delay
import Cellular.Config.Format
import Cellular.Config.Search
import Cellular.Decimal.Dyadic
import Cellular.Decimal.Fixed
import Cellular.Decimal.Shortest
import Cellular.Direction
import Cellular.Formula
import Cellular.Grid.Basic
import Cellular.Grid.Populate
import Cellular.Grid.Position
import Cellular.Json.Numeral
import Cellular.Json.Printer
import Cellular.Json.Reader
import Cellular.Json.Value
import Cellular.Main
import Cellular.Neighborhood
import Cellular.Pattern.Basic
import Cellular.Pattern.Parser
import Cellular.Pattern.Printer
import Cellular.Pattern.Section
import Cellular.Playback
import Cellular.Proofs.Admission
import Cellular.Proofs.Automaton.Agreement
import Cellular.Proofs.Automaton.Calls
import Cellular.Proofs.Automaton.Exact
import Cellular.Proofs.Automaton.Failure
import Cellular.Proofs.Automaton.Faults
import Cellular.Proofs.Automaton.FirstMatch
import Cellular.Proofs.Automaton.Generation
import Cellular.Proofs.Automaton.Hint
import Cellular.Proofs.Automaton.Meaning
import Cellular.Proofs.Automaton.Modes
import Cellular.Proofs.Automaton.Range
import Cellular.Proofs.Automaton.Reversal
import Cellular.Proofs.Automaton.Running
import Cellular.Proofs.Automaton.Scan
import Cellular.Proofs.Formula.Evaluation
import Cellular.Proofs.Formula.Traversal
import Cellular.Proofs.Formula.Truth
import Cellular.Proofs.Grid.Board
import Cellular.Proofs.Grid.Building
import Cellular.Proofs.Grid.Changes
import Cellular.Proofs.Grid.Consistency
import Cellular.Proofs.Grid.Dense
import Cellular.Proofs.Grid.History
import Cellular.Proofs.Grid.Index
import Cellular.Proofs.Grid.Range
import Cellular.Proofs.Grid.Refinement
import Cellular.Proofs.Grid.RowMajor
import Cellular.Proofs.Grid.Sizes
import Cellular.Proofs.Pattern.Cells
import Cellular.Proofs.Pattern.Fields
import Cellular.Proofs.Pattern.Import
import Cellular.Proofs.Pattern.Reading
import Cellular.Proofs.Pattern.Reloading
import Cellular.Proofs.Pattern.Reproduction
import Cellular.Proofs.Pattern.RoundTrip
import Cellular.Proofs.Pattern.Section
import Cellular.Proofs.Playback.Refinement
import Cellular.Proofs.Rule.Accounting
import Cellular.Proofs.Rule.Comments
import Cellular.Proofs.Rule.Compiled
import Cellular.Proofs.Rule.Concatenation
import Cellular.Proofs.Rule.Cursor
import Cellular.Proofs.Rule.Division
import Cellular.Proofs.Rule.Expansion
import Cellular.Proofs.Rule.Extents
import Cellular.Proofs.Rule.Following
import Cellular.Proofs.Rule.Grammar
import Cellular.Proofs.Rule.Growth
import Cellular.Proofs.Rule.Insensitivity
import Cellular.Proofs.Rule.Insertion
import Cellular.Proofs.Rule.Layout
import Cellular.Proofs.Rule.LineColumn
import Cellular.Proofs.Rule.Lists
import Cellular.Proofs.Rule.Locality
import Cellular.Proofs.Rule.Outcomes
import Cellular.Proofs.Rule.Parsing
import Cellular.Proofs.Rule.Productions
import Cellular.Proofs.Rule.Progress
import Cellular.Proofs.Rule.Recompiling
import Cellular.Proofs.Rule.Recovery
import Cellular.Proofs.Rule.Relocation
import Cellular.Proofs.Rule.Rendering
import Cellular.Proofs.Rule.Respelling
import Cellular.Proofs.Rule.RoundTrip
import Cellular.Proofs.Rule.Scanning
import Cellular.Proofs.Rule.Settlement
import Cellular.Proofs.Rule.Spelling
import Cellular.Proofs.Rule.Statement
import Cellular.Proofs.Rule.Terms
import Cellular.Proofs.Rule.Tiling
import Cellular.Proofs.Rule.Vocabulary
import Cellular.Proofs.Rule.Walking
import Cellular.Proofs.Search.Champion
import Cellular.Proofs.Search.Chromosome
import Cellular.Proofs.Search.Course
import Cellular.Proofs.Search.Crossover
import Cellular.Proofs.Search.Elitism
import Cellular.Proofs.Search.Fairness
import Cellular.Proofs.Search.PlayOut
import Cellular.Proofs.Search.Population
import Cellular.Proofs.Search.Recombination
import Cellular.Proofs.Search.Record
import Cellular.Proofs.Search.Scheduling
import Cellular.Proofs.Search.Selection
import Cellular.Proofs.Search.Stages
import Cellular.Proofs.Search.SteadyState
import Cellular.Proofs.State.Interning
import Cellular.Proofs.State.Names
import Cellular.Proofs.Success
import Cellular.Proofs.Text.Lines
import Cellular.Proofs.Text.Numeral
import Cellular.Proofs.Text.Words
import Cellular.Random.Block
import Cellular.Random.Draws
import Cellular.Random.Generator
import Cellular.Rule.Compilation
import Cellular.Rule.Condition
import Cellular.Rule.Diagnostic
import Cellular.Rule.Format
import Cellular.Rule.Limits
import Cellular.Rule.Statement
import Cellular.Rule.Table
import Cellular.Rule.Token
import Cellular.Search.Chromosome
import Cellular.Search.Engine
import Cellular.Search.Format
import Cellular.Search.PlayOut
import Cellular.Search.Score
import Cellular.Search.Selection
import Cellular.Search.Summary
import Cellular.State.Id
import Cellular.State.Name
import Cellular.State.Universe
import Cellular.Text.Blank
import Cellular.Text.Letter
import Cellular.Text.Lines
import Cellular.Text.Numeral
import Cellular.Total
import Cellular.Word
