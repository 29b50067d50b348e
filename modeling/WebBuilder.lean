import WebBuilder.Async.Layers
import WebBuilder.Budget.Allowance
import WebBuilder.Model.Maintenance
import WebBuilder.Runtime.Ownership
import WebBuilder.Frontend.Transcript
import WebBuilder.Live.Observers
import WebBuilder.Archive.RoundTrip
import WebBuilder.Archive.Listing
import WebBuilder.Context.Isolation
import WebBuilder.Run.Outcomes
import WebBuilder.Service.Admission
import WebBuilder.Budget.ModelSpend
import WebBuilder.Run.Freshness
import WebBuilder.Run.Command
import WebBuilder.Run.Workspace
import WebBuilder.Budget.ModelCost
import WebBuilder.Conversation.Tokens
import WebBuilder.Conversation.Bounds
import WebBuilder.Conversation.Pairing
import WebBuilder.Auth.Identities
import WebBuilder.Frontend.Sessions
import WebBuilder.Events.Redact
import WebBuilder.Context.Assembly
import WebBuilder.Context.Compaction
import WebBuilder.Events.PublicBounds
import WebBuilder.Frontend.Projects
import WebBuilder.Frontend.ContentCache
import WebBuilder.Frontend.FileTree
import WebBuilder.Frontend.Consolidation
import WebBuilder.Context.Skills
import WebBuilder.Events.JsonText
import WebBuilder.Events.Archive
import WebBuilder.Frontend.PreviewLifecycle
import WebBuilder.Auth.MailLimits
import WebBuilder.Store.Lineage
import WebBuilder.Store.Numbered
import WebBuilder.Worker.Steps
import WebBuilder.Worker.Shelf
import WebBuilder.Worker.Quotas
import WebBuilder.Worker.Pointers
import WebBuilder.Worker.Sections
import WebBuilder.Worker.Journal
import WebBuilder.Worker.Writers
import WebBuilder.Worker.Logs
import WebBuilder.Worker.Reports
