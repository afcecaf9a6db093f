import SupportPilot.Database.Models
import SupportPilot.Documents.AllOrNothing
import SupportPilot.Documents.Filenames
import SupportPilot.Documents.SafeNames
import SupportPilot.Documents.Stages
import SupportPilot.Documents.TextUploads
import SupportPilot.Documents.Upload
import SupportPilot.Domain
import SupportPilot.Domain.Names
import SupportPilot.Domain.Schemas
import SupportPilot.Jobs.Attempts
import SupportPilot.Jobs.Coherence
import SupportPilot.Jobs.Leases
import SupportPilot.Jobs.Queue
import SupportPilot.Jobs.Service
import SupportPilot.Lib.Collections
import SupportPilot.Lib.Effect
import SupportPilot.Lib.Fallible
import SupportPilot.Lib.FileSystem
import SupportPilot.Lib.FileTree
import SupportPilot.Lib.Groups
import SupportPilot.Lib.Inserts
import SupportPilot.Lib.Layout
import SupportPilot.Lib.Partition
import SupportPilot.Lib.Processes
import SupportPilot.Lib.Program
import SupportPilot.Lib.Protocol
import SupportPilot.Lib.ReadCommitted
import SupportPilot.Lib.Regex
import SupportPilot.Lib.Related
import SupportPilot.Lib.Rewrite
import SupportPilot.Lib.RowSecurity
import SupportPilot.Lib.Runs
import SupportPilot.Lib.Scan
import SupportPilot.Lib.Table
import SupportPilot.Lib.Text
import SupportPilot.Lib.Threads
import SupportPilot.Lib.Transition
import SupportPilot.Lib.Utf8
import SupportPilot.Lib.WaitFor
import SupportPilot.Lifecycle.Activation
import SupportPilot.Lifecycle.Changes
import SupportPilot.Lifecycle.Deletion
import SupportPilot.Lifecycle.Events
import SupportPilot.Lifecycle.Idempotency
import SupportPilot.Lifecycle.Identifiers
import SupportPilot.Lifecycle.Index
import SupportPilot.Lifecycle.Knowledge
import SupportPilot.Lifecycle.Quota
import SupportPilot.Lifecycle.Status
import SupportPilot.Lifecycle.Steps
import SupportPilot.Lifecycle.System
import SupportPilot.Lifecycle.Tables
import SupportPilot.Lifecycle.Versions
import SupportPilot.Lifecycle.WellFormed
import SupportPilot.Locking.Deadlock
import SupportPilot.Locking.System
import SupportPilot.Rag.Admission
import SupportPilot.Rag.Apostrophes
import SupportPilot.Rag.BlockCollector
import SupportPilot.Rag.Candidates
import SupportPilot.Rag.ChunkIds
import SupportPilot.Rag.Chunking
import SupportPilot.Rag.Chunks
import SupportPilot.Rag.Citations
import SupportPilot.Rag.Coverage
import SupportPilot.Rag.Embedding
import SupportPilot.Rag.ExactScores
import SupportPilot.Rag.Fitting
import SupportPilot.Rag.Fragments
import SupportPilot.Rag.Fusion
import SupportPilot.Rag.HardLimit
import SupportPilot.Rag.HtmlParser
import SupportPilot.Rag.Lexical
import SupportPilot.Rag.Markdown
import SupportPilot.Rag.MarkdownBlocks
import SupportPilot.Rag.Models
import SupportPilot.Rag.Overlaps
import SupportPilot.Rag.PackedLists
import SupportPilot.Rag.Packing
import SupportPilot.Rag.Parser
import SupportPilot.Rag.PdfLines
import SupportPilot.Rag.PdfParagraphs
import SupportPilot.Rag.PlainText
import SupportPilot.Rag.Ranking
import SupportPilot.Rag.ReadingOrder
import SupportPilot.Rag.Rejection
import SupportPilot.Rag.Repository
import SupportPilot.Rag.Search
import SupportPilot.Rag.Sentences
import SupportPilot.Rag.TailOverlap
import SupportPilot.Rag.Terms
import SupportPilot.Rag.TokenOrder
import SupportPilot.Rag.Tokenizer
import SupportPilot.Rag.VerticalOrder
import SupportPilot.Security.Chains
import SupportPilot.Security.Families
import SupportPilot.Security.Logout
import SupportPilot.Security.Phases
import SupportPilot.Security.Rbac
import SupportPilot.Security.Refusals
import SupportPilot.Security.Replay
import SupportPilot.Security.Requests
import SupportPilot.Security.Sessions
import SupportPilot.Storage.Clients
import SupportPilot.Storage.Confinement
import SupportPilot.Storage.Effects
import SupportPilot.Storage.Interleaving
import SupportPilot.Storage.Keys
import SupportPilot.Storage.Linearizability
import SupportPilot.Storage.Local
import SupportPilot.Storage.Objects
import SupportPilot.Storage.Refinement
import SupportPilot.Storage.Sharing
import SupportPilot.Storage.Store
import SupportPilot.Tenancy.Authorization
import SupportPilot.Tenancy.Claiming
import SupportPilot.Tenancy.Confidentiality
import SupportPilot.Tenancy.Deployment
import SupportPilot.Tenancy.Disclosure
import SupportPilot.Tenancy.Isolation
import SupportPilot.Tenancy.Policies
import SupportPilot.Tenancy.Refinement
import SupportPilot.Tenancy.RouteRefinement
import SupportPilot.Tenancy.Routes
import SupportPilot.Tenancy.Scope
import SupportPilot.Tenancy.Tables
import SupportPilot.Tenancy.Transparency
import SupportPilot.Tenancy.Updates
import SupportPilot.Tenancy.WorkerRefinement
import SupportPilot.Tenancy.WorkerTransactions
import SupportPilot.Web.Api
import SupportPilot.Web.SignIn
import SupportPilot.Web.SingleFlight
import SupportPilot.Worker.Main
import SupportPilot.Workspaces.Registration
import SupportPilot.Workspaces.Requests
import SupportPilot.Workspaces.Roles
import SupportPilot.Workspaces.UniqueAccounts
