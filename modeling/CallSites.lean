import CallSites.Main
import CallSites.Proofs.Calls
import CallSites.Proofs.Declared
import CallSites.Proofs.Record
import CallSites.Proofs.Report
import CallSites.Proofs.Lines
import CallSites.Proofs.Exclusion
import CallSites.Proofs.Merge
import CallSites.Proofs.LineEndings
import CallSites.Proofs.FileOrder
import CallSites.Proofs.Program
import CallSites.Proofs.Ignored
import CallSites.Proofs.JsonTokens
import CallSites.Proofs.Structured
import CallSites.Proofs.AddedFile
import CallSites.Proofs.Balanced
import CallSites.Proofs.Search
import CallSites.Proofs.Nesting
import CallSites.Proofs.LineByLine
import CallSites.Proofs.ScanOutcome
import CallSites.Proofs.LinkFree
import CallSites.Proofs.Characters
import CallSites.Proofs.Literals
import CallSites.Proofs.IgnoredUnion
import CallSites.Proofs.Pretty
import CallSites.Proofs.SettingsDocument
import CallSites.Proofs.RawBytes
import CallSites.Proofs.Traversal
import CallSites.Proofs.Extraction
