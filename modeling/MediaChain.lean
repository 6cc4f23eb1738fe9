import MediaChain.Broadcast
import MediaChain.Chain.Basic
import MediaChain.Chain.Browse
import MediaChain.Chain.Build
import MediaChain.Chain.Effects
import MediaChain.Chain.Negotiation
import MediaChain.Config.Basic
import MediaChain.Config.Settings
import MediaChain.Error
import MediaChain.Facts.Ledger
import MediaChain.Facts.Log
import MediaChain.Facts.Snapshot
import MediaChain.Host
import MediaChain.Journal
import MediaChain.Json.Basic
import MediaChain.Json.Reader
import MediaChain.Library.Session
import MediaChain.Library.Store
import MediaChain.Listing
import MediaChain.Plugin.Basic
import MediaChain.Plugin.Script
import MediaChain.Plugin.Scripted
import MediaChain.Proofs.Broadcast
import MediaChain.Proofs.Chain.Browse
import MediaChain.Proofs.Chain.Building
import MediaChain.Proofs.Chain.Calls
import MediaChain.Proofs.Chain.Career
import MediaChain.Proofs.Chain.Effects
import MediaChain.Proofs.Chain.Entry
import MediaChain.Proofs.Chain.Failures
import MediaChain.Proofs.Chain.Following
import MediaChain.Proofs.Chain.Goals
import MediaChain.Proofs.Chain.Isolation
import MediaChain.Proofs.Chain.Layout
import MediaChain.Proofs.Chain.Lifetimes
import MediaChain.Proofs.Chain.Malformed
import MediaChain.Proofs.Chain.Negotiation
import MediaChain.Proofs.Chain.Places
import MediaChain.Proofs.Chain.Playing
import MediaChain.Proofs.Chain.Rebuild
import MediaChain.Proofs.Chain.Section
import MediaChain.Proofs.Chain.Seek
import MediaChain.Proofs.Chain.Skipped
import MediaChain.Proofs.Chain.Sources
import MediaChain.Proofs.Chain.Tokens
import MediaChain.Proofs.Chain.Types
import MediaChain.Proofs.Config
import MediaChain.Proofs.Facts.Horizons
import MediaChain.Proofs.Facts.Isolation
import MediaChain.Proofs.Facts.Log
import MediaChain.Proofs.Facts.Origin
import MediaChain.Proofs.Facts.Persistence
import MediaChain.Proofs.Facts.Reactions
import MediaChain.Proofs.Facts.Retries
import MediaChain.Proofs.Facts.Seeds
import MediaChain.Proofs.Host
import MediaChain.Proofs.Journal
import MediaChain.Proofs.Json
import MediaChain.Proofs.Library.Attempts
import MediaChain.Proofs.Library.Commits
import MediaChain.Proofs.Library.Serial
import MediaChain.Proofs.Library.Session
import MediaChain.Proofs.Listing.Links
import MediaChain.Proofs.Listing.Order
import MediaChain.Proofs.Listing.Paths
import MediaChain.Proofs.Plugin.Scripted
import MediaChain.Proofs.Registry
import MediaChain.Proofs.Scripts
import MediaChain.Proofs.Stage.Anchors
import MediaChain.Proofs.Stage.Callback
import MediaChain.Proofs.Stage.Conservation
import MediaChain.Proofs.Stage.Cursor
import MediaChain.Proofs.Stage.Cuts
import MediaChain.Proofs.Stage.Diary
import MediaChain.Proofs.Stage.Ending
import MediaChain.Proofs.Stage.Failures
import MediaChain.Proofs.Stage.Flow
import MediaChain.Proofs.Stage.Frame
import MediaChain.Proofs.Stage.Life
import MediaChain.Proofs.Stage.Lifetimes
import MediaChain.Proofs.Stage.Lines
import MediaChain.Proofs.Stage.Marks
import MediaChain.Proofs.Stage.Provenance
import MediaChain.Proofs.Stage.Recording
import MediaChain.Proofs.Stage.Relay
import MediaChain.Proofs.Stage.Requests
import MediaChain.Proofs.Stage.Seek
import MediaChain.Proofs.Stage.Sight
import MediaChain.Proofs.Stage.Stops
import MediaChain.Proofs.Stage.Success
import MediaChain.Proofs.Stage.Supply
import MediaChain.Proofs.Stage.Survival
import MediaChain.Proofs.Stage.Tokens
import MediaChain.Proofs.Stage.Unchanged
import MediaChain.Proofs.StreamType
import MediaChain.Proofs.Text.Characters
import MediaChain.Proofs.Text.Document
import MediaChain.Proofs.Text.Glob
import MediaChain.Proofs.Text.Line
import MediaChain.Proofs.Text.Natural
import MediaChain.Proofs.Text.Stops
import MediaChain.Proofs.Text.Utf8
import MediaChain.Proofs.Text.Wildcards
import MediaChain.Proofs.Url
import MediaChain.Registry
import MediaChain.SampleFormat
import MediaChain.Stage.Basic
import MediaChain.Stage.Callback
import MediaChain.Stage.Flow
import MediaChain.Stage.Life
import MediaChain.Stage.Marks
import MediaChain.StreamType
import MediaChain.Text.Glob
import MediaChain.Text.Line
import MediaChain.Text.Lowercase
import MediaChain.Text.Natural
import MediaChain.Text.Utf8
import MediaChain.Url
import MediaChain.Value
import MediaChain.Window
import MediaChain.World
