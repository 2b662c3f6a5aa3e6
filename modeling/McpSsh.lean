import McpSsh.Approval.Collection
import McpSsh.Bastion.Atomicity
import McpSsh.Bastion.Collections
import McpSsh.Bastion.Openings
import McpSsh.Bastion.Withdrawal
import McpSsh.Audit.Completion
import McpSsh.Audit.Forks
import McpSsh.Runs.Accounting
import McpSsh.Runs.Channel
import McpSsh.SessionRefinement
import McpSsh.Foreign
import McpSsh.Wire
import McpSsh.Download.Refinement
import McpSsh.Transfer.Serving
import McpSsh.Sftp.Stream
import McpSsh.Sftp.Replacement
import McpSsh.Sftp.Listing
import McpSsh.Disk
import McpSsh.AuditHistory
import McpSsh.Audit.Activity
import McpSsh.Audit.Evaluations
import McpSsh.Ingress
import McpSsh.SessionSnapshots
import McpSsh.Dashboard
import McpSsh.RemotePaths
import McpSsh.Credentials
import McpSsh.Surfaces
import McpSsh.AuditTranscripts
import McpSsh.Admission
import McpSsh.Bastion.Rest
