import NylonRun.Lib.Machine
import NylonRun.Lib.Dict
import NylonRun.Lib.UnixPath
import NylonRun.Lib.Effect
import NylonRun.Lib.FileTree
import NylonRun.Lib.Text
import NylonRun.Protocol
import NylonRun.Sandbox
import NylonRun.Os
import NylonRun.Oci
import NylonRun.Process.Start
import NylonRun.Process.Manager
import NylonRun.Process.Launch
import NylonRun.Process.Relaunch
import NylonRun.Process.SameCommand
import NylonRun.Process.SamePolicy
import NylonRun.Tls
import NylonRun.Proxy
import NylonRun.State
import NylonRun.Server
import NylonRun.Daemon
import NylonRun.Lib.Touched
import NylonRun.Process.Health
import NylonRun.Process.SameContent
import NylonRun.Backup
import NylonRun.Requests
import NylonRun.Agreement
import NylonRun.Rollback
import NylonRun.Traffic
import NylonRun.CacheHits
import NylonRun.RoundTrip
import NylonRun.Restore
import NylonRun.Layers
import NylonRun.Ports
import NylonRun.Isolation
import NylonRun.Announced
import NylonRun.Listeners
import NylonRun.Certificates
import NylonRun.Process.Metered
import NylonRun.Reroutes
import NylonRun.Lib.Unwinding
import NylonRun.Credentials
import NylonRun.Manifest
import NylonRun.Backends
import NylonRun.Updates
import NylonRun.Persistence
import NylonRun.Messages
import NylonRun.Deletions
import NylonRun.Remaps
import NylonRun.Lib.Inodes
import NylonRun.Process.Logs
import NylonRun.Process.Rotations
import NylonRun.Lib.Overlay
import NylonRun.Images
import NylonRun.CachedBodies
import NylonRun.CacheTtl
import NylonRun.Servers
import NylonRun.Hosts
import NylonRun.Streams
import NylonRun.Process.Capture
import NylonRun.Lib.Outcomes
import NylonRun.Process.Enforced
import NylonRun.Forwarded
import NylonRun.Lib.LinkTree
import NylonRun.Spa
import NylonRun.Process.Contained
import NylonRun.Process.Copies
import NylonRun.Lib.Listing
import NylonRun.Archive
import NylonRun.RestoredBackup
import NylonRun.CloudAgent
import NylonRun.Reverts
import NylonRun.Lib.Trimming
import NylonRun.EnvFiles
import NylonRun.References
import NylonRun.Names
import NylonRun.SameImage
import NylonRun.Lib.Files
import NylonRun.Process.PidFiles
import NylonRun.Acme
import NylonRun.Orders
import NylonRun.Lib.Custody
import NylonRun.Challenges
import NylonRun.Stranded
import NylonRun.Frames
import NylonRun.Lib.Simulation
import NylonRun.Issuance
import NylonRun.AcmeTasks
import NylonRun.Renewals
import NylonRun.Links
import NylonRun.Commands
import NylonRun.Saved
import NylonRun.Lib.Pieces
import NylonRun.Documents
import NylonRun.Exports
import NylonRun.Lib.Arrivals
import NylonRun.Registrations
import NylonRun.Process.Copying
