import OpdfEditor.Binary32
import OpdfEditor.Binary64
import OpdfEditor.Page
import OpdfEditor.Roster
import OpdfEditor.RosterReplay
import OpdfEditor.Document
import OpdfEditor.VecDocument
import OpdfEditor.Command
import OpdfEditor.CommandSteps
import OpdfEditor.UndoHistory
import OpdfEditor.CommandReplay
import OpdfEditor.CommandRejection
import OpdfEditor.UndoStack
import OpdfEditor.Rollback
import OpdfEditor.Split
import OpdfEditor.CrossDocument
import OpdfEditor.Transcript
import OpdfEditor.Trimming
import OpdfEditor.Traversal
import OpdfEditor.PageSelection
import OpdfEditor.SelectionGrammar
import OpdfEditor.PageResolution
import OpdfEditor.Lopdf
import OpdfEditor.FiniteClosure
import OpdfEditor.ObjectGraph
import OpdfEditor.Worklist
import OpdfEditor.ColourRefinement
import OpdfEditor.StructuralDiff
import OpdfEditor.PdfObjects
import OpdfEditor.PdfReading
import OpdfEditor.PdfCopy
import OpdfEditor.CopyReach
import OpdfEditor.CompleteCopy
import OpdfEditor.CaptureFreeCopy
import OpdfEditor.PdfDocument
import OpdfEditor.PdfImport
import OpdfEditor.PdfSave
import OpdfEditor.PdfMaterialize
import OpdfEditor.PdfSession
import OpdfEditor.PdfResidue
import OpdfEditor.PdfCompaction
import OpdfEditor.PdfRelocation
import OpdfEditor.PdfSound
import OpdfEditor.PdfWriteback
import OpdfEditor.PdfImportSound
import OpdfEditor.PdfReopening
import OpdfEditor.Layout
import OpdfEditor.Zoom
import OpdfEditor.Render
import OpdfEditor.RenderWorker
import OpdfEditor.RevisionHonesty
import OpdfEditor.Ledger
import OpdfEditor.RenderAccounting
import OpdfEditor.TileCache
import OpdfEditor.Viewer
import OpdfEditor.Surfaces
import OpdfEditor.StaleTiles
import OpdfEditor.SharedService
import OpdfEditor.Refusals
import OpdfEditor.EditableDocument
import OpdfEditor.ShellService
import OpdfEditor.OpdfApp
import OpdfEditor.ShellHistory
import OpdfEditor.UnsavedEdits
import OpdfEditor.EditedTiles
import OpdfEditor.DiffEquivalence
import OpdfEditor.DiffDigests
import OpdfEditor.SoundDiff
import OpdfEditor.BlindDiff
import OpdfEditor.RunExtraction
import OpdfEditor.PageConservation
import OpdfEditor.PageLedger
import OpdfEditor.StandaloneCopy
import OpdfEditor.RollbackStop
import OpdfEditor.PdfResave
import OpdfEditor.PdfInheritance
import OpdfEditor.PageWalk
import OpdfEditor.WalkingLopdf
import OpdfEditor.PdfBinding
import OpdfEditor.PdfRebinding
import OpdfEditor.CarriedBox
import OpdfEditor.PdfPortable
import OpdfEditor.LeastRecentlyUsed
import OpdfEditor.RecencyQueue
import OpdfEditor.TextureAccounting
import OpdfEditor.RequestPlanning
import OpdfEditor.LayoutScan
import OpdfEditor.CanvasFallback
import OpdfEditor.FrameEviction
import OpdfEditor.PageShape
import OpdfEditor.ArgumentLine
import OpdfEditor.ArgumentReading
import OpdfEditor.InvocationSpelling
import OpdfEditor.SplitHalves
import OpdfEditor.SplitRun
import OpdfEditor.TileIndexing
import OpdfEditor.TileSizeLimit
import OpdfEditor.FilePositions
import OpdfEditor.ViewerSync
import OpdfEditor.CanonicalForm
import OpdfEditor.TidyPages
import OpdfEditor.WholePages
import OpdfEditor.ShellSaves
import OpdfEditor.SelectionEdits
import OpdfEditor.MadeDocuments
import OpdfEditor.CliRuns
import OpdfEditor.CliCatalogue
import OpdfEditor.CliSuccess
import OpdfEditor.CliForetold
import OpdfEditor.PivotBounds
import OpdfEditor.ZoomRuns
import OpdfEditor.SeenDocuments
import OpdfEditor.PlainWorker
import OpdfEditor.FlatTiles
import OpdfEditor.PageHistory
import OpdfEditor.SavesAgree
import OpdfEditor.WorkerProgress
import OpdfEditor.RestingWindow
import OpdfEditor.PageNavigation
