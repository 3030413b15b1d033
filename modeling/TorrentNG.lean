import TorrentNG.Choker
import TorrentNG.PieceLayers
import TorrentNG.TrackerTiers
import TorrentNG.HybridLayout
import TorrentNG.CrashSafety
import TorrentNG.ExtensionMessages
import TorrentNG.PickerRestart
import TorrentNG.SwarmAvailability
import TorrentNG.FileHints
import TorrentNG.ResumeContainer
import TorrentNG.StorageMoves
import TorrentNG.RegistryInvariant
import TorrentNG.QbitSync
import TorrentNG.EventStream
import TorrentNG.UtpHandshake
import TorrentNG.UtpMessages
import TorrentNG.UtpAcknowledgements
import TorrentNG.RoutingTable
import TorrentNG.Krpc
import TorrentNG.RunMarker
import TorrentNG.RateLimiter
import TorrentNG.TierController
import TorrentNG.SidecarSync
import TorrentNG.MagnetHash
import TorrentNG.SelectiveAck
import TorrentNG.HandleCache
