import DefinitionFiles.Main
import DefinitionFiles.Record
import DefinitionFiles.Proofs.Category
import DefinitionFiles.Proofs.Editor.Clamping
import DefinitionFiles.Proofs.Editor.LineEndings
import DefinitionFiles.Proofs.Editor.Synchronisation
import DefinitionFiles.Proofs.Outline.Comments
import DefinitionFiles.Proofs.Outline.Diagnostics
import DefinitionFiles.Proofs.Outline.EagerComments
import DefinitionFiles.Proofs.Outline.Pieces
import DefinitionFiles.Proofs.Outline.Sections
import DefinitionFiles.Proofs.Rpc.Envelope
import DefinitionFiles.Proofs.Rpc.Header
import DefinitionFiles.Proofs.Rpc.Message
import DefinitionFiles.Proofs.Rpc.Notification
import DefinitionFiles.Proofs.Rpc.Truncation
import DefinitionFiles.Proofs.Server.Isolation
import DefinitionFiles.Proofs.Server.Lifecycle
import DefinitionFiles.Proofs.Server.Mishap
import DefinitionFiles.Proofs.Server.Responses
import DefinitionFiles.Proofs.Server.Spans
import DefinitionFiles.Proofs.Store.Log
import DefinitionFiles.Proofs.Record.Integers
import DefinitionFiles.Proofs.Record.Literals
import DefinitionFiles.Proofs.Outline.Printing
import DefinitionFiles.Proofs.Path
import DefinitionFiles.Proofs.Program.Verdict
import DefinitionFiles.Proofs.Report
import DefinitionFiles.Proofs.Server.Interruption
import DefinitionFiles.Proofs.Uri
import DefinitionFiles.Proofs.Uri.Files
import DefinitionFiles.Proofs.Watcher.Calm
import DefinitionFiles.Proofs.Watcher.Directories
import DefinitionFiles.Proofs.Watcher.Selection
import DefinitionFiles.Proofs.Watcher.Updates
import DefinitionFiles.Proofs.Workspace
import DefinitionFiles.Proofs.Workspace.LinkedRoots
import DefinitionFiles.Proofs.Workspace.Scanning
import DefinitionFiles.Proofs.Workspace.Schedules
