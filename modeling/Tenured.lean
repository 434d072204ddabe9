import Tenured.Attempt
import Tenured.Backing
import Tenured.BlockTable
import Tenured.CardMarks
import Tenured.Config.Basic
import Tenured.Config.Environment
import Tenured.CrossingMap
import Tenured.Error
import Tenured.Event.Basic
import Tenured.Event.Journal
import Tenured.Event.Log
import Tenured.Fault
import Tenured.Figures
import Tenured.Generation.Allocation
import Tenured.Generation.Basic
import Tenured.Generation.Blocks
import Tenured.Generation.Build
import Tenured.Generation.Consistency
import Tenured.Generation.Growth
import Tenured.Generation.Report
import Tenured.Generation.Update
import Tenured.Host
import Tenured.Json.Quoted
import Tenured.Json.Record
import Tenured.Json.Skip
import Tenured.LinearSpace
import Tenured.Mapping
import Tenured.Memory.Basic
import Tenured.NodeList
import Tenured.Object
import Tenured.Page
import Tenured.Proofs.Action
import Tenured.Proofs.Attempt
import Tenured.Proofs.BlockTable
import Tenured.Proofs.CardMarks
import Tenured.Proofs.Config
import Tenured.Proofs.Config.Default
import Tenured.Proofs.Config.Environment
import Tenured.Proofs.CrossingMap
import Tenured.Proofs.CrossingMap.AnyMemory
import Tenured.Proofs.CrossingMap.Covering
import Tenured.Proofs.CrossingMap.Decoding
import Tenured.Proofs.CrossingMap.Lookup
import Tenured.Proofs.CrossingMap.Recorded
import Tenured.Proofs.Event.Log
import Tenured.Proofs.Figures
import Tenured.Proofs.Generation.Allocation
import Tenured.Proofs.Generation.Blocks
import Tenured.Proofs.Generation.Books
import Tenured.Proofs.Generation.Build
import Tenured.Proofs.Generation.Calls
import Tenured.Proofs.Generation.Capacity
import Tenured.Proofs.Generation.Change
import Tenured.Proofs.Generation.Commit
import Tenured.Proofs.Generation.Consistency
import Tenured.Proofs.Generation.Cursor
import Tenured.Proofs.Generation.Frame
import Tenured.Proofs.Generation.Growth
import Tenured.Proofs.Generation.Interleaving
import Tenured.Proofs.Generation.Ladder
import Tenured.Proofs.Generation.Layout
import Tenured.Proofs.Generation.Mangled
import Tenured.Proofs.Generation.Noted
import Tenured.Proofs.Generation.Operation
import Tenured.Proofs.Generation.Release
import Tenured.Proofs.Generation.Repeated
import Tenured.Proofs.Generation.Reports
import Tenured.Proofs.Generation.Resize
import Tenured.Proofs.Generation.Room
import Tenured.Proofs.Generation.Safety
import Tenured.Proofs.Generation.Supplied
import Tenured.Proofs.Generation.Tiled
import Tenured.Proofs.Generation.Touches
import Tenured.Proofs.Generation.Underway
import Tenured.Proofs.Generation.Update
import Tenured.Proofs.Json.Quoted
import Tenured.Proofs.Json.Record
import Tenured.Proofs.LinearSpace
import Tenured.Proofs.LinearSpace.Handed
import Tenured.Proofs.LinearSpace.Parsable
import Tenured.Proofs.LinearSpace.Provided
import Tenured.Proofs.Mapping
import Tenured.Proofs.NodeList
import Tenured.Proofs.NodeList.Overflow
import Tenured.Proofs.Object
import Tenured.Proofs.Page
import Tenured.Proofs.Reservation
import Tenured.Proofs.Rounding
import Tenured.Proofs.Rounding.Neighbours
import Tenured.Proofs.Text.Reading
import Tenured.Proofs.TouchCursor
import Tenured.Proofs.Workers
import Tenured.Region.Basic
import Tenured.Region.Bounds
import Tenured.Reservation
import Tenured.ResizeTotals
import Tenured.Rounding
import Tenured.Text.Blank
import Tenured.Text.Bytes
import Tenured.Text.Column
import Tenured.Text.Decimal
import Tenured.Text.Fields
import Tenured.Text.Invisible
import Tenured.Text.Literal
import Tenured.Text.Numeral
import Tenured.Text.Timestamp
import Tenured.TouchCursor
import Tenured.Word
import Tenured.Workers
