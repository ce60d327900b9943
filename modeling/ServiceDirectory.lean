import ServiceDirectory.CommandLine
import ServiceDirectory.Daemon
import ServiceDirectory.Decode.Dialect
import ServiceDirectory.Directory.Call
import ServiceDirectory.Directory.Registry
import ServiceDirectory.Directory.State
import ServiceDirectory.Directory.Step
import ServiceDirectory.Endpoint
import ServiceDirectory.Endpoint.Numeric
import ServiceDirectory.Engine.Command
import ServiceDirectory.Engine.Run
import ServiceDirectory.Engine.State
import ServiceDirectory.Event
import ServiceDirectory.EventBus
import ServiceDirectory.Failure
import ServiceDirectory.Files
import ServiceDirectory.Filter
import ServiceDirectory.Health.CheckLoop
import ServiceDirectory.Health.Hysteresis
import ServiceDirectory.Health.Probe
import ServiceDirectory.Health.Watch
import ServiceDirectory.Identifier
import ServiceDirectory.Instance
import ServiceDirectory.Json.Decode
import ServiceDirectory.Json.Draft
import ServiceDirectory.Json.Fault
import ServiceDirectory.Json.Number
import ServiceDirectory.Json.Printer
import ServiceDirectory.Json.Quoted
import ServiceDirectory.Json.Reader
import ServiceDirectory.Json.Records
import ServiceDirectory.Json.Value
import ServiceDirectory.Logging
import ServiceDirectory.Main
import ServiceDirectory.Number.Binary64
import ServiceDirectory.Number.Literal
import ServiceDirectory.Number.Shortest
import ServiceDirectory.Proofs.Abandonment
import ServiceDirectory.Proofs.Addresses
import ServiceDirectory.Proofs.Announcements
import ServiceDirectory.Proofs.Arrivals
import ServiceDirectory.Proofs.Attempts
import ServiceDirectory.Proofs.Audience
import ServiceDirectory.Proofs.Books
import ServiceDirectory.Proofs.CacheAnswers
import ServiceDirectory.Proofs.CacheHistory
import ServiceDirectory.Proofs.CachedAttempt
import ServiceDirectory.Proofs.Calendar
import ServiceDirectory.Proofs.Canonical
import ServiceDirectory.Proofs.Chronicle
import ServiceDirectory.Proofs.Closing
import ServiceDirectory.Proofs.Constancy
import ServiceDirectory.Proofs.Courses
import ServiceDirectory.Proofs.Custody
import ServiceDirectory.Proofs.Deeds
import ServiceDirectory.Proofs.Deliveries
import ServiceDirectory.Proofs.Dials
import ServiceDirectory.Proofs.Diaries
import ServiceDirectory.Proofs.Digits
import ServiceDirectory.Proofs.Dispatches
import ServiceDirectory.Proofs.Engines
import ServiceDirectory.Proofs.Erasure
import ServiceDirectory.Proofs.Errands
import ServiceDirectory.Proofs.Evictions
import ServiceDirectory.Proofs.Failures
import ServiceDirectory.Proofs.Freshness
import ServiceDirectory.Proofs.Graces
import ServiceDirectory.Proofs.Grammar
import ServiceDirectory.Proofs.InFlight
import ServiceDirectory.Proofs.Keeping
import ServiceDirectory.Proofs.Keys
import ServiceDirectory.Proofs.Layers
import ServiceDirectory.Proofs.Ledger
import ServiceDirectory.Proofs.Likeness
import ServiceDirectory.Proofs.Listings
import ServiceDirectory.Proofs.Loops
import ServiceDirectory.Proofs.Manning
import ServiceDirectory.Proofs.Moments
import ServiceDirectory.Proofs.Occasions
import ServiceDirectory.Proofs.Origins
import ServiceDirectory.Proofs.Outline
import ServiceDirectory.Proofs.Outlining
import ServiceDirectory.Proofs.PartialSettings
import ServiceDirectory.Proofs.Particulars
import ServiceDirectory.Proofs.Probing
import ServiceDirectory.Proofs.Provenance
import ServiceDirectory.Proofs.Publication
import ServiceDirectory.Proofs.Records
import ServiceDirectory.Proofs.Refusals
import ServiceDirectory.Proofs.Registrations
import ServiceDirectory.Proofs.Replacement
import ServiceDirectory.Proofs.Replay
import ServiceDirectory.Proofs.ResolveCalls
import ServiceDirectory.Proofs.ResolveInstants
import ServiceDirectory.Proofs.ResolveSteps
import ServiceDirectory.Proofs.Restoring
import ServiceDirectory.Proofs.RevisionHistory
import ServiceDirectory.Proofs.Revisions
import ServiceDirectory.Proofs.Rotation
import ServiceDirectory.Proofs.RoundTrip
import ServiceDirectory.Proofs.Schedules
import ServiceDirectory.Proofs.Selection
import ServiceDirectory.Proofs.Shares
import ServiceDirectory.Proofs.Slots
import ServiceDirectory.Proofs.Snapshots
import ServiceDirectory.Proofs.SoundSettings
import ServiceDirectory.Proofs.Spelling
import ServiceDirectory.Proofs.Startup
import ServiceDirectory.Proofs.Stock
import ServiceDirectory.Proofs.Stories
import ServiceDirectory.Proofs.Stranding
import ServiceDirectory.Proofs.Streaks
import ServiceDirectory.Proofs.Sweeps
import ServiceDirectory.Proofs.Table
import ServiceDirectory.Proofs.Tending
import ServiceDirectory.Proofs.Tenure
import ServiceDirectory.Proofs.Timeless
import ServiceDirectory.Proofs.Trail
import ServiceDirectory.Proofs.Transcripts
import ServiceDirectory.Proofs.Turns
import ServiceDirectory.Proofs.Vigils
import ServiceDirectory.Proofs.Waits
import ServiceDirectory.Proofs.Watchers
import ServiceDirectory.Resolve.Attempt
import ServiceDirectory.Resolve.Balance
import ServiceDirectory.Resolve.Broker
import ServiceDirectory.Resolve.Cache
import ServiceDirectory.Resolve.Follow
import ServiceDirectory.Resolve.Pursuit
import ServiceDirectory.Settings.Convert
import ServiceDirectory.Settings.Effective
import ServiceDirectory.Settings.Environment
import ServiceDirectory.Settings.Formats
import ServiceDirectory.Settings.Json
import ServiceDirectory.Settings.Layer
import ServiceDirectory.Settings.Load
import ServiceDirectory.Settings.Read
import ServiceDirectory.Settings.Sections
import ServiceDirectory.Settings.Source
import ServiceDirectory.Settings.Validate
import ServiceDirectory.Store.Redis
import ServiceDirectory.Table
import ServiceDirectory.Text.Blank
import ServiceDirectory.Text.Letters
import ServiceDirectory.Text.Quoted
import ServiceDirectory.Text.Unprintable
import ServiceDirectory.Time.Calendar
import ServiceDirectory.Time.Reader
import ServiceDirectory.Time.Span
import ServiceDirectory.Time.Timestamp
import ServiceDirectory.Toml.Reader
import ServiceDirectory.Toml.Scalar
import ServiceDirectory.Toml.Tree
import ServiceDirectory.Yaml.Node
import ServiceDirectory.Yaml.Reader
import ServiceDirectory.Yaml.Scalar
import ServiceDirectory.Yaml.Text
