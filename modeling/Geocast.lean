import Geocast.BoundingBox
import Geocast.Broker
import Geocast.Calendar
import Geocast.Counter
import Geocast.Dispatcher
import Geocast.Federation
import Geocast.FilterTree
import Geocast.FilterTree.Lemmas
import Geocast.Geofence.Basic
import Geocast.Geofence.Relations
import Geocast.Geofence.WellKnownText
import Geocast.Grid
import Geocast.Grid.Lemmas
import Geocast.Json.Basic
import Geocast.Json.Reader
import Geocast.Json.Writer
import Geocast.Location
import Geocast.Log.Settings
import Geocast.Log.Severity
import Geocast.Log.Wire
import Geocast.Main
import Geocast.Number.Binary64
import Geocast.Number.Decimal
import Geocast.Number.DecimalText
import Geocast.Number.Expansion
import Geocast.Number.Mixing
import Geocast.Number.Trigonometry
import Geocast.Options
import Geocast.Packet.Basic
import Geocast.Packet.Inspect
import Geocast.Packet.Wire
import Geocast.Plane.Basic
import Geocast.Plane.Cover
import Geocast.Plane.Cut
import Geocast.Plane.Meeting
import Geocast.Plane.Outline
import Geocast.Plane.Overlay
import Geocast.Plane.Ring
import Geocast.Plane.Star
import Geocast.Plane.Turn
import Geocast.Program
import Geocast.Proofs.Broker.Consistent
import Geocast.Proofs.Broker.Delivery
import Geocast.Proofs.Broker.Footprint
import Geocast.Proofs.Broker.Receivers
import Geocast.Proofs.Dispatcher.Order
import Geocast.Proofs.Dispatcher.Schedule
import Geocast.Proofs.Dispatcher.Steps
import Geocast.Proofs.Federation.Audience
import Geocast.Proofs.Federation.Delivery
import Geocast.Proofs.Federation.Entries
import Geocast.Proofs.Federation.Home
import Geocast.Proofs.Federation.Redirect
import Geocast.Proofs.Federation.Solitary
import Geocast.Proofs.Federation.Validation
import Geocast.Proofs.FilterTree.Growth
import Geocast.Proofs.FilterTree.Matching
import Geocast.Proofs.FilterTree.Nodes
import Geocast.Proofs.FilterTree.Placed
import Geocast.Proofs.FilterTree.Reflects
import Geocast.Proofs.FilterTree.Uniform
import Geocast.Proofs.FilterTree.Walk
import Geocast.Proofs.Geofence.Antipodes
import Geocast.Proofs.Geofence.Boxes
import Geocast.Proofs.Geofence.Chord
import Geocast.Proofs.Geofence.Closest
import Geocast.Proofs.Geofence.Closing
import Geocast.Proofs.Geofence.Corners
import Geocast.Proofs.Geofence.Covered
import Geocast.Proofs.Geofence.Description
import Geocast.Proofs.Geofence.Frame
import Geocast.Proofs.Geofence.Globe
import Geocast.Proofs.Geofence.Retraced
import Geocast.Proofs.Geofence.SharedPlace
import Geocast.Proofs.Geofence.Shortcuts
import Geocast.Proofs.Geofence.Symmetric
import Geocast.Proofs.Geofence.WrittenPolygon
import Geocast.Proofs.Grid.Buckets
import Geocast.Proofs.Grid.Count
import Geocast.Proofs.Grid.History
import Geocast.Proofs.Grid.Order
import Geocast.Proofs.Grid.Origin
import Geocast.Proofs.Json.Numbers
import Geocast.Proofs.Json.RoundTrip
import Geocast.Proofs.Number.Accuracy
import Geocast.Proofs.Number.Alike
import Geocast.Proofs.Number.Angles
import Geocast.Proofs.Number.Bounds
import Geocast.Proofs.Number.Fraction
import Geocast.Proofs.Number.Least
import Geocast.Proofs.Number.Mirror
import Geocast.Proofs.Number.Nearest
import Geocast.Proofs.Number.Order
import Geocast.Proofs.Number.Product
import Geocast.Proofs.Number.Ranges
import Geocast.Proofs.Number.Roots
import Geocast.Proofs.Number.Rounding
import Geocast.Proofs.Number.Series
import Geocast.Proofs.Number.Sign
import Geocast.Proofs.Number.Sine
import Geocast.Proofs.Number.Sum
import Geocast.Proofs.Number.Whole
import Geocast.Proofs.Packet.Records
import Geocast.Proofs.Packet.RoundTrip
import Geocast.Proofs.Packet.Topics
import Geocast.Proofs.Plane.Covering
import Geocast.Proofs.Plane.Nested
import Geocast.Proofs.Plane.Overlap
import Geocast.Proofs.Plane.Reach
import Geocast.Proofs.Plane.Retraced
import Geocast.Proofs.Plane.Sides
import Geocast.Proofs.Plane.Touching
import Geocast.Proofs.Plane.Ways
import Geocast.Proofs.Plane.Winding
import Geocast.Proofs.Protocol.Answers
import Geocast.Proofs.Protocol.Changes
import Geocast.Proofs.Protocol.Dismissal
import Geocast.Proofs.Protocol.Idle
import Geocast.Proofs.Protocol.Independence
import Geocast.Proofs.Protocol.Onward
import Geocast.Proofs.Protocol.Reordering
import Geocast.Proofs.Protocol.Sent
import Geocast.Proofs.Sessions.Numbers
import Geocast.Proofs.Sessions.Operations
import Geocast.Proofs.Sessions.WellFormed
import Geocast.Proofs.Topic.Grammar
import Geocast.Proofs.Topic.Levelwise
import Geocast.Protocol
import Geocast.Sessions
import Geocast.Sessions.Lemmas
import Geocast.Settings.Basic
import Geocast.Settings.Environment
import Geocast.Settings.FileName
import Geocast.Settings.InUse
import Geocast.Settings.Moment
import Geocast.Settings.Path
import Geocast.Settings.Toml
import Geocast.Settings.Value
import Geocast.Strategy
import Geocast.Subscription
import Geocast.Text.Blank
import Geocast.Text.Hidden
import Geocast.Text.Pieces
import Geocast.Text.Quoted
import Geocast.Topic
