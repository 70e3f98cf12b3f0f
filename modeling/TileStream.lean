import TileStream.Admission.Slots
import TileStream.Admission.TokenBucket
import TileStream.Cache.Quads
import TileStream.Cache.Recency
import TileStream.Document.Basic
import TileStream.Document.Codec
import TileStream.Document.Json
import TileStream.Fault
import TileStream.Fetching.Cached
import TileStream.Fetching.Http
import TileStream.Fetching.Retry
import TileStream.Fetching.Signature
import TileStream.Fetching.Template
import TileStream.Flight
import TileStream.Geo.Box
import TileStream.Geo.Camera
import TileStream.Geo.Coverage
import TileStream.Geo.Culling
import TileStream.Geo.Mercator
import TileStream.Geo.Tile
import TileStream.Gpu.Delta
import TileStream.Gpu.Renderer
import TileStream.Gpu.Residents
import TileStream.Holdings
import TileStream.Join.Quads
import TileStream.Join.Tiles
import TileStream.Layer.Basic
import TileStream.Layer.Set
import TileStream.Logging.Directive
import TileStream.Logging.Endpoint
import TileStream.Logging.Filter
import TileStream.Logging.Line
import TileStream.Logging.Setup
import TileStream.Main
import TileStream.Numeric.Binary
import TileStream.Numeric.Bounds
import TileStream.Numeric.Shortest
import TileStream.Numeric.Total
import TileStream.Pattern.Basic
import TileStream.Pattern.Reader
import TileStream.Pattern.Usable
import TileStream.Pipeline.Calls
import TileStream.Pipeline.Effects
import TileStream.Pipeline.Turn
import TileStream.Program
import TileStream.Proofs.Admission.Line
import TileStream.Proofs.Admission.Slots
import TileStream.Proofs.Cache.Insertion
import TileStream.Proofs.Cache.Quads
import TileStream.Proofs.Cache.Recency
import TileStream.Proofs.Fetching.Deadline
import TileStream.Proofs.Fetching.WarmSet
import TileStream.Proofs.Geo.Children
import TileStream.Proofs.Geo.Order
import TileStream.Proofs.Gpu.Delta
import TileStream.Proofs.Gpu.Renderer
import TileStream.Proofs.Holdings.Changes
import TileStream.Proofs.Holdings.Enumeration
import TileStream.Proofs.Holdings.Residency
import TileStream.Proofs.Holdings.Saturation
import TileStream.Proofs.Holdings.Uploads
import TileStream.Proofs.Join.Arrivals
import TileStream.Proofs.Join.Completion
import TileStream.Proofs.Join.Quads
import TileStream.Proofs.Join.Replies
import TileStream.Proofs.Join.Settled
import TileStream.Proofs.Join.Tiles
import TileStream.Proofs.Layer.Set
import TileStream.Proofs.Pipeline.Agreement
import TileStream.Proofs.Pipeline.Answered
import TileStream.Proofs.Pipeline.Consistency
import TileStream.Proofs.Pipeline.Course
import TileStream.Proofs.Pipeline.Demand
import TileStream.Proofs.Pipeline.Enumeration
import TileStream.Proofs.Pipeline.Faithful
import TileStream.Proofs.Pipeline.Idle
import TileStream.Proofs.Pipeline.InView
import TileStream.Proofs.Pipeline.Ledger
import TileStream.Proofs.Pipeline.Mirror
import TileStream.Proofs.Pipeline.Passage
import TileStream.Proofs.Pipeline.Renewal
import TileStream.Proofs.Pipeline.Reports
import TileStream.Proofs.Pipeline.Runs
import TileStream.Proofs.Pipeline.Steady
import TileStream.Proofs.Pipeline.Steps
import TileStream.Proofs.Record.ChildOrder
import TileStream.Proofs.Service.Messages
import TileStream.Proofs.Service.Rehearsal
import TileStream.Proofs.Store.Reliable
import TileStream.Proofs.Table
import TileStream.Record.Basic
import TileStream.Record.Outcome
import TileStream.Service.Actor
import TileStream.Service.Meters
import TileStream.Service.Rehearsal
import TileStream.Settings.Error
import TileStream.Settings.Loader
import TileStream.Settings.Service
import TileStream.Settings.Stream
import TileStream.Settings.Variables
import TileStream.Store.Basic
import TileStream.Store.Disk
import TileStream.Store.FileTree
import TileStream.Store.Memory
import TileStream.Store.Path
import TileStream.Table
import TileStream.Text.Alphanumeric
import TileStream.Text.Blank
import TileStream.Text.Hex
import TileStream.Text.Number
import TileStream.Text.Occurrence
import TileStream.Text.Offset
import TileStream.Time
import TileStream.Proofs.Geo.Ancestors
import TileStream.Proofs.Geo.Extent
import TileStream.Proofs.Fault
import TileStream.Proofs.Geo.Refinement
import TileStream.Proofs.Geo.DrawList
import TileStream.Proofs.Store.FileTree
import TileStream.Proofs.Text.Number
import TileStream.Proofs.Store.Creation
import TileStream.Proofs.Store.Names
import TileStream.Proofs.Store.Layout
import TileStream.Proofs.Store.Listing
import TileStream.Proofs.Store.Disk
import TileStream.Proofs.Holdings.Visibility
import TileStream.Proofs.Time
import TileStream.Proofs.Admission.Announcement
import TileStream.Proofs.Pipeline.Rounds
import TileStream.Proofs.Fetching.Pauses
import TileStream.Proofs.Fetching.AgeLimit
import TileStream.Proofs.Store.Walk
import TileStream.Proofs.Store.Found
import TileStream.Proofs.Store.Spelling
import TileStream.Proofs.Store.Interruption
import TileStream.Proofs.Settings.Limits
import TileStream.Proofs.Text.Substitution
import TileStream.Proofs.Fetching.Template
import TileStream.Proofs.Text.Parts
import TileStream.Proofs.Layer.Lists
import TileStream.Proofs.Numeric.Exact
import TileStream.Proofs.Pipeline.NextDispatch
import TileStream.Proofs.Cache.History
import TileStream.Proofs.Geo.Quads
