import LanguageClient.Main
import LanguageClient.Proofs.Dispatch.Endings
import LanguageClient.Proofs.Entries
import LanguageClient.Proofs.Json.Reading
import LanguageClient.Proofs.Json.Records
import LanguageClient.Proofs.Text.Utf8
import LanguageClient.Proofs.Session.Reading
import LanguageClient.Proofs.Workspace.WireOrder
import LanguageClient.Proofs.Wire.RoundTrip
import LanguageClient.Rehearsal.Engagement
import LanguageClient.Rehearsal.Play
import LanguageClient.Proofs.Session.Turns
import LanguageClient.Proofs.Session.Correlation
import LanguageClient.Proofs.Workspace.Queueing
import LanguageClient.Proofs.Collection.Conveyance
import LanguageClient.Proofs.Collection.EndToEnd
import LanguageClient.Proofs.Workspace.Versions
import LanguageClient.Proofs.Diagnostics.History
import LanguageClient.Proofs.Dispatch.Outbound
import LanguageClient.Proofs.Session.Documents
import LanguageClient.Proofs.Session.Lifecycle
import LanguageClient.Proofs.Workspace.GivingUp
import LanguageClient.Proofs.Collection.Routing
import LanguageClient.Proofs.Session.Delivery
import LanguageClient.Proofs.Workspace.Publishing
import LanguageClient.Proofs.Log.Conservation
import LanguageClient.Proofs.Dispatch.Handlers
import LanguageClient.Proofs.Dispatch.Closing
import LanguageClient.Proofs.Manager.Commands
import LanguageClient.Proofs.Settings.Loading
import LanguageClient.Proofs.Wire.Grammar
import LanguageClient.Proofs.Log.Shifting
import LanguageClient.Proofs.Settings.Comments
import LanguageClient.Proofs.Settings.Fields
import LanguageClient.Proofs.Diagnostics.Queries
import LanguageClient.Proofs.Diagnostics.Rendering
import LanguageClient.Proofs.Json.Grammar
import LanguageClient.Proofs.Wire.Envelopes
import LanguageClient.Proofs.Wire.Reencoding
import LanguageClient.Proofs.Json.Fields
import LanguageClient.Proofs.Protocol.Providers
import LanguageClient.Proofs.Protocol.Severities
import LanguageClient.Proofs.Protocol.Codecs
import LanguageClient.Proofs.Uri.Paths
