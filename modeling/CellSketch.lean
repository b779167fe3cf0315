import CellSketch.Main
import CellSketch.Proofs.Path.Routes
import CellSketch.Proofs.Path.Search
import CellSketch.Proofs.Path.Cheapest
import CellSketch.Proofs.Path.TurningBack
import CellSketch.Proofs.Path.Corridor
import CellSketch.Proofs.Polyline
import CellSketch.Proofs.LayeredRoute
import CellSketch.Proofs.Scan.Painting
import CellSketch.Proofs.Scan.Growth
import CellSketch.Proofs.GridCells
import CellSketch.Proofs.Scan.PaintsBack
import CellSketch.Proofs.Canvas.Documents
import CellSketch.Proofs.Canvas.Programs
import CellSketch.Proofs.Canvas.Ledger
import CellSketch.Proofs.Canvas.Backends
import CellSketch.Proofs.Flow.Acceptance
import CellSketch.Proofs.Scan.Maximal
import CellSketch.Proofs.Canvas.Extent
import CellSketch.Proofs.Canvas.StyleHistory
import CellSketch.Proofs.Canvas.Looks
import CellSketch.Proofs.Flow.BoxesApart
import CellSketch.Proofs.Scan.SideBySide
import CellSketch.Proofs.Listing.ReadBack
import CellSketch.Proofs.Listing.Drawn
import CellSketch.Proofs.Scan.Transposed
import CellSketch.Proofs.Scan.Joints
import CellSketch.Proofs.Flow.RoundTrip
import CellSketch.Proofs.Canvas.Undisturbed
import CellSketch.Proofs.CommandLine.Untouched
import CellSketch.Proofs.Flow.Beside
import CellSketch.Proofs.Flow.JoinedTexts
import CellSketch.Proofs.Canvas.Contained
import CellSketch.Proofs.Flow.Drawn
import CellSketch.Proofs.Canvas.Names
import CellSketch.Proofs.Number.Written
import CellSketch.Proofs.Mvg.Tokens
import CellSketch.Proofs.Canvas.Inked
import CellSketch.Proofs.Xml.Reading
import CellSketch.Proofs.Svg.WellFormed
import CellSketch.Proofs.Svg.DiagramTexts
import CellSketch.Proofs.Text.FileText
import CellSketch.Proofs.CommandLine.SameDrawing
import CellSketch.Proofs.Number.Magnitude
import CellSketch.Proofs.Canvas.Fitting
import CellSketch.Proofs.Canvas.WrittenOut
import CellSketch.Proofs.CommandLine.Reported
import CellSketch.Proofs.Spline.Natural
import CellSketch.Proofs.Flow.Orthogonal
import CellSketch.Proofs.Flow.HeadOn
import CellSketch.Proofs.Connection.Walk
import CellSketch.Proofs.Flow.Tokens
import CellSketch.Proofs.Connection.Reversed
import CellSketch.Proofs.Scan.DrawnSize
import CellSketch.Proofs.Canvas.Bulge
import CellSketch.Proofs.Connection.Spliced
import CellSketch.Proofs.Spline.Symmetry
import CellSketch.Proofs.Flow.Merging
import CellSketch.Proofs.Spline.Pivots
import CellSketch.Proofs.Scan.Recorded
import CellSketch.Proofs.Number.Trimmed
