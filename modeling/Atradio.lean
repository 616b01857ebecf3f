import Atradio.Lib.Table
import Atradio.Lib.Run
import Atradio.Lib.Utf16
import Atradio.Lib.Replica
import Atradio.Lib.Unwinding
import Atradio.Lib.Schema
import Atradio.Lib.Async
import Atradio.Lib.Paging
import Atradio.Connect.Protocol
import Atradio.Connect.Hub
import Atradio.Connect.Server
import Atradio.Connect.Views
import Atradio.Connect.Registry
import Atradio.Connect.Total
import Atradio.Connect.Frames
import Atradio.Connect.Presence
import Atradio.Connect.Relay
import Atradio.Connect.Network
import Atradio.Connect.Conns
import Atradio.Connect.Agree
import Atradio.Connect.Isolation
import Atradio.Connect.Sweep
import Atradio.Discord.Firehose
import Atradio.Jetstream.Records
import Atradio.Jetstream.Database
import Atradio.Jetstream.Consumer
import Atradio.Jetstream.Mirror
import Atradio.Jetstream.Completion
import Atradio.Jetstream.Sequential
import Atradio.Jetstream.Notifications
import Atradio.Jetstream.Handlers
import Atradio.Jetstream.Cursor
import Atradio.Jetstream.Live
import Atradio.Jetstream.Converge
import Atradio.Lexicons.Mappers
import Atradio.Lexicons.Stations
import Atradio.Lexicons.Readable
import Atradio.Lexicons.Snapshot
import Atradio.Agent.Favorites
import Atradio.Agent.Unique
import Atradio.Xrpc.Lists
import Atradio.Xrpc.Lossless
import Atradio.Web.Favorites
import Atradio.Web.Toggles
import Atradio.App.Favorites
import Atradio.App.Toggles
import Atradio.App.Auth
import Atradio.App.SignIn
import Atradio.Lib.Rounding
import Atradio.Audio.Settings
import Atradio.Audio.Alike
import Atradio.App.AudioSync
import Atradio.App.SaveGuard
import Atradio.Web.AudioSync
import Atradio.Web.Backends
import Atradio.App.AudioRest
import Atradio.Audio.Settle
import Atradio.App.Sessions
import Atradio.App.Actions
import Atradio.App.PlayHistory
import Atradio.Lib.Reads
import Atradio.Proxy.Chunked
import Atradio.Proxy.Upstream
import Atradio.Proxy.PassThrough
import Atradio.Proxy.Opening
import Atradio.Proxy.Icy
import Atradio.Lib.Text
import Atradio.Web.Resolve
import Atradio.Cli.Resolve
import Atradio.Cli.Mirrors
import Atradio.Cli.Playlists
import Atradio.Web.ConnectClient
import Atradio.Web.Player
import Atradio.Web.Transfer
import Atradio.Web.Routing
import Atradio.Lib.Utf8
import Atradio.Web.RichText
import Atradio.Cli.DspRows
import Atradio.Cli.Grpc
import Atradio.Cli.Bumps
import Atradio.Cli.Player
import Atradio.Cli.Tui.State
import Atradio.Cli.Tui.Jobs
import Atradio.Cli.Tui.Keys
import Atradio.Cli.Tui.Loop
import Atradio.Cli.Tui.Deeds
import Atradio.Cli.Tui.Resolutions
import Atradio.Cli.Daemon
import Atradio.Cli.OnAir
import Atradio.Cli.Tui.Accounts
import Atradio.Cli.Obeys
import Atradio.Cli.Tui.AudioSync
import Atradio.Connect.Merged
import Atradio.Connect.Superseded
import Atradio.Connect.Duty
import Atradio.Connect.Replaced
import Atradio.Connect.Commands
import Atradio.Connect.Released
import Atradio.Jetstream.Owners
import Atradio.Jetstream.Users
import Atradio.Discord.Dedup
import Atradio.Jetstream.Deduped
import Atradio.Discord.Queue
import Atradio.Lib.Links
import Atradio.Discord.Format
import Atradio.Xrpc.Seen
import Atradio.Lib.Like
import Atradio.Xrpc.Search
import Atradio.Audio.Formats
import Atradio.Cli.DspPanel
import Atradio.Cli.Formats
import Atradio.Cli.DspOverflow
import Atradio.Cli.DspMonotone
import Atradio.App.Equalizer
import Atradio.Lib.Document
import Atradio.Native.Settings
import Atradio.Native.Player
import Atradio.Cli.LegacySlice
import Atradio.Proxy.Playlist
import Atradio.Native.Typed
import Atradio.Proxy.Routes
import Atradio.Proxy.Malformed
import Atradio.Proxy.RateLimit
import Atradio.Proxy.TuneIn
import Atradio.Lib.Mailbox
import Atradio.Proxy.Pump
import Atradio.Proxy.Forwarding
import Atradio.Web.Heeded
import Atradio.Web.InsertMention
import Atradio.Web.Loading
import Atradio.Web.Comments
import Atradio.Web.Rollback
import Atradio.Lib.Utf8Slices
import Atradio.Web.Segments
import Atradio.Web.StationLive
import Atradio.Cli.Tui.Comments
import Atradio.Cli.StateFormat
import Atradio.Cli.Reconnect
import Atradio.App.Cancel
import Atradio.Lib.History
import Atradio.App.AuthClient
import Atradio.App.RadioService
import Atradio.App.RadioFocus
import Atradio.Cli.Pending
import Atradio.Lib.Regex
import Atradio.Proxy.StreamTitle
import Atradio.Lib.Percent
import Atradio.Cli.TagPath
import Atradio.Lib.EventStream
import Atradio.Live.Bus
import Atradio.Live.Delivery
import Atradio.Live.Channel
import Atradio.Proxy.Router
import Atradio.Lib.OffsetPages
import Atradio.Web.Category
import Atradio.Native.TsDemuxer
import Atradio.Native.TsMux
import Atradio.Xrpc.Cached
import Atradio.Web.TokenLife
import Atradio.Web.Accounts
import Atradio.App.Silence
import Atradio.Native.Adaptive
import Atradio.Native.HlsLive
import Atradio.Native.HlsText
import Atradio.Native.HlsMaster
import Atradio.Native.Manifest
