import SshCommander.CursorMirror
import SshCommander.TransactionBoundaries
import SshCommander.EditIsolation
import SshCommander.PoolShutdown
import SshCommander.SessionIsolation
import SshCommander.EditDurability
import SshCommander.ServerKeyCheck
import SshCommander.SharedKnownHosts
import SshCommander.HostKeyWrites
import SshCommander.SplitterSafety
import SshCommander.EditRoundTrip
import SshCommander.ScriptCommits
import SshCommander.StatementBoundaries
import SshCommander.CtidEdits
import SshCommander.DroppedFutures
import SshCommander.StaleCloses
import SshCommander.PtyGenerations
import SshCommander.OrphanedSessions
import SshCommander.PtyLifetimes
import SshCommander.StatusEvents
import SshCommander.DroppedConnections
import SshCommander.CancelledConnects
import SshCommander.FtpControl
import SshCommander.ShellQuoting
import SshCommander.PacketBoundaries
import SshCommander.MarkedLines
import SshCommander.QuotedSegments
import SshCommander.DiscardedPreambles
import SshCommander.BulkResults
import SshCommander.CursorPaging
import SshCommander.IdleEviction
import SshCommander.SharedBrowsers
import SshCommander.ExhaustedPool
import SshCommander.LineFraming
import SshCommander.AgentAuthentication
import SshCommander.FtpTransfers
import SshCommander.SftpSessions
import SshCommander.TcpdumpOptions
import SshCommander.DnsPerspectives
import SshCommander.GitStatusParse
import SshCommander.ListeningPorts
import SshCommander.FtpListing
import SshCommander.ShellValidators
import SshCommander.PtyTeardown
import SshCommander.CaptureStops
import SshCommander.TunnelForwarding
import SshCommander.OpenWires
import SshCommander.ParquetBatches
import SshCommander.ParquetExports
import SshCommander.IdleAges
import SshCommander.PinnedServers
import SshCommander.RelationalQueries
import SshCommander.SchemaIntrospection
import SshCommander.PostgresConnects
import SshCommander.TunneledPools
import SshCommander.RemoteListings
import SshCommander.LikePatterns
import SshCommander.DatabaseTree
import SshCommander.SequentialHistories
import SshCommander.Keychains
import SshCommander.StoredCredentials
