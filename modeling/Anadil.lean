import Anadil.Cli.Compiler
import Anadil.Cli.Workbench.Root
import Anadil.Config.Load
import Anadil.Config.Write
import Anadil.Corpus
import Anadil.Diagnostic
import Anadil.Digest.Sha256
import Anadil.Editor.Server
import Anadil.Fault
import Anadil.Hook
import Anadil.Json.Difference
import Anadil.Json.Printer
import Anadil.Json.Reader
import Anadil.Main
import Anadil.Number.Double
import Anadil.Number.Integer
import Anadil.Path
import Anadil.Pipeline.Export
import Anadil.Pipeline.Ingest
import Anadil.Pipeline.Worker
import Anadil.Proofs.Python.Blocks
import Anadil.Proofs.Python.RoundTrip
import Anadil.Proofs.Python.Scoping
import Anadil.Python.Emit
import Anadil.Store.Job
import Anadil.Store.Seed
import Anadil.Time
import Anadil.Token.Lexer
import Anadil.Toml.Reader
import Anadil.Tool.Command
import Anadil.Tool.Run
import Anadil.Tree.Document
import Anadil.Tree.Parser
import Anadil.Tree.Walk
import Anadil.Watch
import Anadil.Proofs.Tree.Enclosure
import Anadil.Proofs.Tree.Retold
import Anadil.Proofs.Tree.ExprCompleteness
import Anadil.Proofs.Tree.Completeness
import Anadil.Proofs.Text.Utf8
import Anadil.Proofs.Token.Division
import Anadil.Proofs.Token.Positions
import Anadil.Proofs.Python.Retelling
import Anadil.Proofs.Tree.Likeness
import Anadil.Proofs.Token.Spacing
import Anadil.Proofs.Translation
import Anadil.Proofs.Python.Initialisers
import Anadil.Proofs.Tree.Fuel
import Anadil.Proofs.Tree.Truncation
import Anadil.Proofs.Store.Rows
import Anadil.Proofs.Store.Queue
import Anadil.Proofs.Outcome
import Anadil.Proofs.Time
import Anadil.Proofs.Pipeline.Process
import Anadil.Proofs.Pipeline.Balance
import Anadil.Proofs.Editor.Shown
import Anadil.Proofs.Json.Difference
import Anadil.Proofs.Json.Reading
import Anadil.Proofs.Json.Spelling
import Anadil.Proofs.Json.Unique
import Anadil.Proofs.Pipeline.Endings
import Anadil.Proofs.Pipeline.Verdicts
import Anadil.Proofs.Tree.Sketch
import Anadil.Proofs.Tree.Told
import Anadil.Proofs.Parity
import Anadil.Proofs.Editor.Recency
import Anadil.Proofs.Corpus
import Anadil.Proofs.Tree.Numbers
import Anadil.Proofs.Rendering
import Anadil.Proofs.Path
import Anadil.Proofs.Files
import Anadil.Proofs.Pipeline.Names
import Anadil.Proofs.Pipeline.Writing
import Anadil.Proofs.Pipeline.Filing
import Anadil.Proofs.Diagnosis
import Anadil.Proofs.Editor.Pointing
import Anadil.Proofs.Pipeline.Pace
import Anadil.Proofs.Pipeline.Release
import Anadil.Proofs.Pipeline.Residue
import Anadil.Proofs.Python.Mangling
import Anadil.Proofs.Fences
import Anadil.Proofs.Tree.Shortfall
import Anadil.Proofs.LineEnds
import Anadil.Proofs.Tree.Standalone
import Anadil.Proofs.Token.Slices
import Anadil.Proofs.Spans
import Anadil.Proofs.Python.Quotation
import Anadil.Proofs.Pipeline.Seeding
import Anadil.Proofs.Pipeline.Drain
import Anadil.Proofs.Json.Symmetry
import Anadil.Proofs.Text.Split
import Anadil.Proofs.Pipeline.Output
import Anadil.Proofs.Codes
import Anadil.Proofs.Overwriting
import Anadil.Proofs.Hook
import Anadil.Proofs.Caret
import Anadil.Proofs.Search
