import SmartDashboard.Direct.Publisher
import SmartDashboard.Direct.SharedIndex
import SmartDashboard.Direct.SingleConsumer
import SmartDashboard.Direct.Flush
import SmartDashboard.Direct.Coalescing
import SmartDashboard.Direct.SmartDashboardClient
import SmartDashboard.NativeLink.Convergence
import SmartDashboard.NativeLink.Rejection
import SmartDashboard.NativeLink.Registry
import SmartDashboard.NativeLink.Session
import SmartDashboard.NativeLink.Provenance
import SmartDashboard.NativeLink.Broadcast
import SmartDashboard.NativeLink.Handshake
import SmartDashboard.NativeLink.SlotHandover
import SmartDashboard.NativeLink.SlotOwnership
import SmartDashboard.NativeLink.SlotStaleness
import SmartDashboard.Library.LastWrite
import SmartDashboard.Transport.Replay
import SmartDashboard.Transport.Playback
import SmartDashboard.Transport.InFlight
import SmartDashboard.App.VariableStore
import SmartDashboard.App.UiQueue
import SmartDashboard.App.QueueDelivery
import SmartDashboard.App.DeliveryOrder
import SmartDashboard.App.ReconnectSnapshot
import SmartDashboard.App.Connection
import SmartDashboard.App.RunBrowserDock
import SmartDashboard.Library.KeyedMap
import SmartDashboard.App.Tiles
import SmartDashboard.App.HiddenKeys
import SmartDashboard.App.Plots
import SmartDashboard.App.PlotOwners
import SmartDashboard.App.PlotMerging
import SmartDashboard.App.LayoutEntries
import SmartDashboard.App.LayoutLoad
import SmartDashboard.App.PlotRuns
import SmartDashboard.Direct.RetainedStore
import SmartDashboard.Library.ByteReader
import SmartDashboard.Library.MessagePack
import SmartDashboard.NT4.MsgPackReader
import SmartDashboard.NT4.Client
import SmartDashboard.NT4.Publishing
import SmartDashboard.NT4.SentFrames
import SmartDashboard.LegacyNt.Entries
import SmartDashboard.LegacyNt.Codec
import SmartDashboard.LegacyNt.EntryTables
import SmartDashboard.Library.Decimal
import SmartDashboard.Transport.ReplayFile
import SmartDashboard.App.RecordedEvents
import SmartDashboard.App.RecordingThreads
import SmartDashboard.Capture.Series
import SmartDashboard.Capture.Timeline
import SmartDashboard.App.LayoutRoundTrip
import SmartDashboard.Library.Numeral
import SmartDashboard.Library.Json
import SmartDashboard.Library.Binary64
import SmartDashboard.Library.GeneralFormat
import SmartDashboard.Direct.RetainedFile
import SmartDashboard.Direct.RetainedMap
import SmartDashboard.Direct.RetainedSystem
import SmartDashboard.Direct.Attachment
import SmartDashboard.Direct.ClientViews
import SmartDashboard.Direct.ProducerHeartbeat
import SmartDashboard.Camera.MjpegStreamSource
import SmartDashboard.Camera.CameraDiscovery
import SmartDashboard.Camera.CameraUnion
import SmartDashboard.App.RunBrowserOrder
import SmartDashboard.App.RunBrowserChecks
import SmartDashboard.App.RunBrowserRuns
import SmartDashboard.Capture.RunJson
import SmartDashboard.Transport.CaptureSession
import SmartDashboard.Capture.CaptureReplay
import SmartDashboard.Direct.DamagedRing
import SmartDashboard.NativeLink.MessageReads
import SmartDashboard.NativeLink.Freshness
import SmartDashboard.Library.SortTies
import SmartDashboard.Transport.SimultaneousEvents
import SmartDashboard.NT4.MsgPackCodec
import SmartDashboard.Library.ByteCursor
import SmartDashboard.NT4.MsgPackCursor
import SmartDashboard.Library.JsonSearch
import SmartDashboard.NT4.TextMessages
import SmartDashboard.NT4.Announces
import SmartDashboard.Library.JsonStrings
import SmartDashboard.NT4.WriteBack
import SmartDashboard.Direct.RetainedOpening
import SmartDashboard.Direct.StaleDetection
import SmartDashboard.Camera.FrameExtraction
import SmartDashboard.Camera.FrameExtraction
import SmartDashboard.App.PlaybackTimeline
import SmartDashboard.Camera.CameraViewerDock
import SmartDashboard.App.ConnectionSettings
import SmartDashboard.Widgets.QColor
import SmartDashboard.Widgets.LinePlotWidget
import SmartDashboard.Widgets.VariableTile
import SmartDashboard.Widgets.LinePlotSamples
import SmartDashboard.Widgets.PlotSources
import SmartDashboard.Layout.WidgetLayoutEntry
import SmartDashboard.Widgets.TileSettings
import SmartDashboard.Layout.LayoutSerializer
import SmartDashboard.Layout.SavedTiles
import SmartDashboard.Layout.SavedTiles
import SmartDashboard.Layout.AppliedEntry
import SmartDashboard.Library.XmlStream
import SmartDashboard.Layout.LegacyImport
import SmartDashboard.Layout.LegacyXml
import SmartDashboard.Library.HighestWrite
import SmartDashboard.App.StoreOrder
import SmartDashboard.NT4.ObjectEnd
import SmartDashboard.App.PluginSettings
import SmartDashboard.Library.FlatJson
import SmartDashboard.App.RunBrowserGroupOrder
import SmartDashboard.App.RunBrowserBatch
import SmartDashboard.Library.FramedStream
import SmartDashboard.NativeLink.TcpFrames
import SmartDashboard.NativeLink.TcpLink
import SmartDashboard.NativeLink.TcpProtocol
