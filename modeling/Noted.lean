import Noted.Library.Words
import Noted.Library.Separators
import Noted.Library.Like
import Noted.Library.Attempt
import Noted.Library.Batches
import Noted.Library.Table
import Noted.Library.Pending
import Noted.Library.Parts
import Noted.Library.Netip
import Noted.Text
import Noted.Unicode
import Noted.Proxy
import Noted.Search.Server
import Noted.Search.Browser
import Noted.Search.Fold
import Noted.Search.Index
import Noted.Search.Agreement
import Noted.Search.Match
import Noted.Search.Spelling
import Noted.Search.Finding
import Noted.Search.PerField
import Noted.Types
import Noted.Url
import Noted.Validation
import Noted.Composer
import Noted.Surname
import Noted.Database
import Noted.Imports
import Noted.Pieces
import Noted.Composers
import Noted.Library.Runs
import Noted.System
import Noted.Search.Predicate
import Noted.Integrity
import Noted.Cleanup
import Noted.Transactions
import Noted.Coherence
import Noted.Reading
import Noted.Library.Collector
import Noted.Assets
import Noted.Steps
import Noted.Lifecycle
import Noted.Rows
import Noted.Finalize
import Noted.Unchanged
import Noted.Revisions
import Noted.Merge
import Noted.Derived
import Noted.ComposerMerge
import Noted.Library.Pacing
import Noted.Library.Wrapping
import Noted.Library.DataView
import Noted.Imslp.Breaker
import Noted.Imslp.Limiter
import Noted.Imslp.RetryAfter
import Noted.UserLimiter
import Noted.Ccitt
import Noted.Export.Limiter
import Noted.Imslp.Files
import Noted.Library.Leftmost
import Noted.Imslp.WorkName
import Noted.Library.Firsts
import Noted.Imslp.Search
import Noted.Shortcut
import Noted.Prepare.Details
import Noted.Prepare.Autosave
import Noted.Manifests
import Noted.Prepare.Edges
import Noted.Prepare.ImslpSearch
import Noted.Prepare.Pages
import Noted.OpenDrafts
import Noted.LibraryPage.View
import Noted.LibraryPage.Narrowing
import Noted.Search.Queries
import Noted.Search.Suggestions
import Noted.Filing
import Noted.Search.Highlight
import Noted.Search.Joined
import Noted.Auth
import Noted.LibraryPage.Rows
import Noted.LibraryPage.Address
import Noted.Library.Choice
import Noted.Library.Failing
import Noted.Library.Paging
import Noted.Export.Path
import Noted.Export.Stream
import Noted.Export.Complete
import Noted.Export.Score
import Noted.Reader.SaveQueue
import Noted.Reader.WakeLock
import Noted.LibraryPage.Select
import Noted.Prepare.Worker
import Noted.Prepare.Layout
import Noted.Prepare.Orientation
import Noted.Library.Recency
import Noted.Imslp.Caches
import Noted.Prepare.PreparedPages
import Noted.Search.Offsets
import Noted.Library.Json
import Noted.Prepare.PhotoKey
import Noted.Library.Tokens
import Noted.Search.Spans
import Noted.Search.Shown
import Noted.Library.Isolation
import Noted.Library.Selection
import Noted.Ownership
import Noted.Requests
import Noted.Used
import Noted.Generated
import Noted.Isolation.Queries
import Noted.Isolation.Writes
import Noted.Isolation.Others
import Noted.Isolation.Serving
import Noted.Isolation.Foreign
import Noted.Isolation.Runs
import Noted.Library.Since
import Noted.Library.Programs
import Noted.Sessions.Tables
import Noted.Sessions.Handlers
import Noted.Sessions.Rules
import Noted.Sessions.Keeping
import Noted.Sessions.Rows
import Noted.Sessions.Identities
import Noted.Sessions.Runs
import Noted.Sessions.Access
import Noted.Sessions.Answering
import Noted.Reader.PageMode
