import RegionOutline.Main
import RegionOutline.Proofs.Scan.Balanced
import RegionOutline.Proofs.Session.Supersession
import RegionOutline.Proofs.Scan.AccessScopes
import RegionOutline.Proofs.Session.ParkedScroll
import RegionOutline.Proofs.Session.Ledger
import RegionOutline.Proofs.Session.TextlessRebuild
import RegionOutline.Proofs.Session.Bookkeeping
import RegionOutline.Proofs.Session.Domains
import RegionOutline.Proofs.Session.Viewport
import RegionOutline.Proofs.Engine.CarryOut
import RegionOutline.Proofs.Engine.Machine
import RegionOutline.Proofs.Engine.Idle
import RegionOutline.Proofs.Engine.Freshness
import RegionOutline.Proofs.Engine.Schedule
import RegionOutline.Proofs.Engine.Display
import RegionOutline.Proofs.Engine.Focus
import RegionOutline.Proofs.Index.FiniteMap
import RegionOutline.Proofs.Cancellation.Liveness
import RegionOutline.Proofs.Program.OneShot
import RegionOutline.Proofs.Engine.Navigation
import RegionOutline.Proofs.Scan.Stopping
import RegionOutline.Proofs.View.Window
import RegionOutline.Proofs.Marker.Grammar
import RegionOutline.Proofs.Classification
import RegionOutline.Proofs.Marker.Partition
import RegionOutline.Proofs.Scan.WellFormed
import RegionOutline.Proofs.Index.Replacement
import RegionOutline.Proofs.Session.ScrollTarget
import RegionOutline.Proofs.Scan.Terminators
import RegionOutline.Proofs.Classification.Aliases
import RegionOutline.Proofs.Scan.TrailingBlanks
import RegionOutline.Proofs.Engine.Polling
import RegionOutline.Proofs.Text.Decimal
import RegionOutline.Proofs.Json.Grammar
import RegionOutline.Proofs.Json.Printing
import RegionOutline.Proofs.View.Decoding
import RegionOutline.Proofs.View.Lines
import RegionOutline.Proofs.Document.Insertion
import RegionOutline.Proofs.Engine.Recursion
import RegionOutline.Proofs.Yaml.Fields
import RegionOutline.Proofs.Settings.Storage
