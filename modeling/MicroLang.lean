import MicroLang.Main
import MicroLang.Proofs.Lines
import MicroLang.Proofs.ListingRoundTrip
import MicroLang.Proofs.Operands
import MicroLang.Proofs.Execution
import MicroLang.Proofs.Generation
import MicroLang.Proofs.Grammar
import MicroLang.Proofs.Parsing
import MicroLang.Proofs.Tokenization
import MicroLang.Proofs.Semantics
import MicroLang.Proofs.SourceParsing
import MicroLang.Proofs.Template
import MicroLang.Proofs.CompilerCorrectness
import MicroLang.Proofs.Printing
import MicroLang.Proofs.Diagnosis
import MicroLang.Proofs.RunLength
import MicroLang.Proofs.EmittedCode
import MicroLang.Proofs.StackDiscipline
import MicroLang.Proofs.Observation
import MicroLang.Proofs.Placement
import MicroLang.Proofs.Continuations
import MicroLang.Proofs.Refusals
import MicroLang.Proofs.Excerpts
import MicroLang.Proofs.Allocation
import MicroLang.Proofs.SlotOwnership
import MicroLang.Proofs.TickLimits
import MicroLang.Proofs.Integrity
import MicroLang.Proofs.Encoding
import MicroLang.Proofs.FileTrees
import MicroLang.Proofs.ToolRuns
import MicroLang.Proofs.CommandLines
import MicroLang.Proofs.ListingText
import MicroLang.Proofs.Pipeline
import MicroLang.Proofs.PlainPaths
import MicroLang.Proofs.ShortRuns
import MicroLang.Proofs.SessionFrames
import MicroLang.Proofs.ArtifactRecords
import MicroLang.Proofs.RecordVerification
import MicroLang.Proofs.Renaming
import MicroLang.Proofs.WellFormedPrograms
import MicroLang.Proofs.Displacement
import MicroLang.Proofs.Layout
import MicroLang.Proofs.SharedScanners
import MicroLang.Proofs.FailedSteps
import MicroLang.Proofs.DecodedCode
import MicroLang.Proofs.ImageLayout
import MicroLang.Proofs.Traces
import MicroLang.Proofs.ViablePrefixes
import MicroLang.Proofs.Reformatting
import MicroLang.Proofs.Spellings
import MicroLang.Proofs.WordLists
import MicroLang.Proofs.InputLayouts
import MicroLang.Proofs.WrittenOperands
