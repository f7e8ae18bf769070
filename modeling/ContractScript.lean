import ContractScript.Main
import ContractScript.Settings.Document
import ContractScript.Settings.Load
import ContractScript.Text.Capital
import ContractScript.Proofs.Program.Grammar
import ContractScript.Proofs.Program.Permitted
import ContractScript.Proofs.Program.Reading
import ContractScript.Proofs.Program.Soundness
import ContractScript.Proofs.Program.Delivery
import ContractScript.Proofs.Program.Completeness
import ContractScript.Proofs.Program.Exactness
import ContractScript.Proofs.Run.Restoration
import ContractScript.Proofs.Run.Bracketing
import ContractScript.Proofs.Value.KeyOrder
import ContractScript.Proofs.Value.Equality
import ContractScript.Proofs.Number.Numeral
import ContractScript.Proofs.Program.Cutting
import ContractScript.Proofs.Program.Scanning
import ContractScript.Proofs.Value.Data
import ContractScript.Proofs.Program.Literals
import ContractScript.Proofs.Run.Rebuilding
import ContractScript.Proofs.Run.RoundTrip
import ContractScript.Proofs.Program.Dropping
import ContractScript.Proofs.Program.TestPlacement
import ContractScript.Proofs.Run.Discipline
import ContractScript.Proofs.Run.Trail
import ContractScript.Proofs.Run.Signals
import ContractScript.Proofs.Run.Blame
import ContractScript.Proofs.Run.Isolation
import ContractScript.Proofs.Module.Naming
import ContractScript.Proofs.Run.Circularity
import ContractScript.Proofs.Run.Course
import ContractScript.Proofs.Run.TestResults
import ContractScript.Proofs.Program.Likeness
import ContractScript.Proofs.Value.Renaming
import ContractScript.Proofs.Run.Matching
import ContractScript.Proofs.Run.Following
import ContractScript.Proofs.Run.Purity
import ContractScript.Proofs.Run.Simulation
import ContractScript.Proofs.Run.ContractErasure
import ContractScript.Proofs.Program.Layout
import ContractScript.Proofs.Program.Sequel
import ContractScript.Proofs.Program.Concatenation
import ContractScript.Proofs.Program.Joining
import ContractScript.Proofs.Program.LineEnds
import ContractScript.Proofs.Run.Places
import ContractScript.Proofs.Run.LayoutIrrelevance
import ContractScript.Proofs.Run.Continuation
import ContractScript.Proofs.Run.Enclosure
import ContractScript.Proofs.Run.Nesting
import ContractScript.Proofs.Run.Returning
import ContractScript.Proofs.Run.Grounding
import ContractScript.Proofs.Run.Backdrop
import ContractScript.Proofs.Run.Independence
import ContractScript.Proofs.Run.Breaking
import ContractScript.Proofs.Run.Defects
import ContractScript.Proofs.Module.Directory
import ContractScript.Proofs.Run.ImportDirectory
import ContractScript.Proofs.Number.Counting
import ContractScript.Proofs.Run.Sealing
import ContractScript.Proofs.Run.Guarding
import ContractScript.Proofs.Run.Persistence
import ContractScript.Proofs.Program.Sameness
import ContractScript.Proofs.Run.Lasting
import ContractScript.Proofs.Module.Hashmap
import ContractScript.Proofs.Run.Stepping
import ContractScript.Proofs.Module.KeySearch
import ContractScript.Proofs.Module.MapAccess
import ContractScript.Proofs.Program.Segmentation
import ContractScript.Proofs.Program.Respacing
import ContractScript.Proofs.Value.Dictionary
import ContractScript.Proofs.Run.Keeping
import ContractScript.Proofs.Run.Filling
import ContractScript.Proofs.Program.Walking
import ContractScript.Proofs.Program.Progress
import ContractScript.Proofs.Program.Containment
import ContractScript.Proofs.Program.Origin
import ContractScript.Proofs.Program.Indentation
import ContractScript.Proofs.Program.Clarity
import ContractScript.Proofs.Program.Distinctness
import ContractScript.Proofs.Run.Marking
import ContractScript.Proofs.Run.Provenance
import ContractScript.Proofs.Run.Traversal
import ContractScript.Proofs.Run.Handover
import ContractScript.Proofs.Text.Encoding
import ContractScript.Proofs.Host.Retrying
import ContractScript.Proofs.Host.Fetching
import ContractScript.Proofs.Host.Loading
import ContractScript.Proofs.Host.Priority
import ContractScript.Proofs.Host.Files
import ContractScript.Proofs.Run.Rereading
import ContractScript.Proofs.Run.CommandLine
import ContractScript.Proofs.Value.Cycles
import ContractScript.Proofs.Run.Tying
import ContractScript.Proofs.Run.Looping
import ContractScript.Proofs.Module.HelperCode
import ContractScript.Proofs.Module.ListHelpers
import ContractScript.Proofs.Module.ListCalls
import ContractScript.Proofs.Module.ListLaws
