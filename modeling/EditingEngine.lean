import EditingEngine.CommandLine.Disk
import EditingEngine.Main
import EditingEngine.SessionStep
import EditingEngine.Proofs.Text.Trimming
import EditingEngine.Proofs.History.Bursts
import EditingEngine.Proofs.Indentation.NormalForm
import EditingEngine.Proofs.History.Timeline
import EditingEngine.Proofs.History.Inverse
import EditingEngine.Proofs.History.OpenUndos
import EditingEngine.Proofs.Notebook.PageHistories
import EditingEngine.Proofs.Session.Steps
import EditingEngine.Proofs.Session.StructuralEdits
import EditingEngine.Proofs.History.StoredSnapshots
import EditingEngine.Proofs.Session.Carets
import EditingEngine.Proofs.Indentation.Depth
import EditingEngine.Proofs.Text.LineOffsets
import EditingEngine.Proofs.Indentation.LineBreaks
import EditingEngine.Proofs.History.Coalescing
import EditingEngine.Proofs.History.Forgetting
import EditingEngine.Proofs.Notebook.PageOrigins
import EditingEngine.Proofs.Session.PageIsolation
import EditingEngine.Proofs.Session.PendingBursts
import EditingEngine.Proofs.Brackets.Enclosure
import EditingEngine.Proofs.Brackets.Nesting
import EditingEngine.Proofs.Session.TypedRuns
import EditingEngine.Proofs.Session.RememberedKeys
import EditingEngine.Proofs.Session.GivenSettings
import EditingEngine.Proofs.Session.PageNotices
import EditingEngine.Proofs.Text.CaretColumns
import EditingEngine.Proofs.Session.RemeasuredCarets
import EditingEngine.Proofs.Json.Consumption
import EditingEngine.Proofs.Json.Respacing
import EditingEngine.Proofs.Json.RespacedTokens
import EditingEngine.Proofs.Json.RespacedValues
import EditingEngine.Proofs.Json.RespacedRecords
import EditingEngine.Proofs.Json.ReindentedTexts
import EditingEngine.Proofs.CommandLine.Modes
import EditingEngine.Proofs.Json.WrittenTokens
import EditingEngine.Proofs.Json.WrittenValues
import EditingEngine.Proofs.Json.WrittenForms
import EditingEngine.Proofs.Indentation.LineEdges
import EditingEngine.Proofs.Indentation.MovedCarets
import EditingEngine.Proofs.Indentation.KeptText
import EditingEngine.Proofs.Lexical.CompleteReadings
import EditingEngine.Proofs.Brackets.NearestBalance
import EditingEngine.Proofs.Text.ResolvedColumns
import EditingEngine.Proofs.Text.CaretPositions
import EditingEngine.Proofs.History.BoundedDepths
import EditingEngine.Proofs.Json.SpelledTokens
import EditingEngine.Proofs.Json.DecodedValues
import EditingEngine.Proofs.Json.DecodedRecords
import EditingEngine.Proofs.Json.DecodedForms
import EditingEngine.Proofs.Json.PartialSettings
import EditingEngine.Proofs.Lexical.CutLines
import EditingEngine.Proofs.Session.Refusals
