import ZoneMinder.Lib.Run
import ZoneMinder.Lib.Keyed
import ZoneMinder.Lib.Words
import ZoneMinder.Lib.Lists
import ZoneMinder.Lib.Walk
import ZoneMinder.StreamSocket.Protocol
import ZoneMinder.StreamSocket.Queue
import ZoneMinder.StreamSocket.Connection
import ZoneMinder.StreamSocket.Server
import ZoneMinder.StreamSocket.Framing
import ZoneMinder.StreamSocket.Generations
import ZoneMinder.PacketQueue.Queue
import ZoneMinder.PacketQueue.Machine
import ZoneMinder.PacketQueue.Sound
import ZoneMinder.PacketQueue.Invariant
import ZoneMinder.PacketQueue.Bounds
import ZoneMinder.PacketQueue.Marks
import ZoneMinder.PacketQueue.Decoded
import ZoneMinder.PacketQueue.Unchanged
import ZoneMinder.Lib.Overwrite
import ZoneMinder.Lib.Segments
import ZoneMinder.Mp4Sidx.Box
import ZoneMinder.Mp4Sidx.Scan
import ZoneMinder.Mp4Sidx.References
import ZoneMinder.Mp4Sidx.Index
import ZoneMinder.Mp4Sidx.Commit
import ZoneMinder.Lib.Tlv
import ZoneMinder.StreamSocket.Event
import ZoneMinder.MonitorLink.Grammar
import ZoneMinder.StreamSocket.Client
import ZoneMinder.MonitorLink.Operands
import ZoneMinder.Analysis.Alarm
import ZoneMinder.VideoStore.Append
import ZoneMinder.VideoStore.Fragments
import ZoneMinder.EventStream.Frames
import ZoneMinder.EventStream.Table
import ZoneMinder.EventStream.SetEvent
import ZoneMinder.EventStream.Guided
import ZoneMinder.Rtsp.MonitorStream
import ZoneMinder.Rtsp.Producer
import ZoneMinder.Access.Groups
import ZoneMinder.Access.Permissions
import ZoneMinder.Access.Visible
import ZoneMinder.Access.Membership
import ZoneMinder.Auth.HashCache
import ZoneMinder.Auth.RemoteAddr
import ZoneMinder.Auth.AuthHash
import ZoneMinder.EventSummaries.Triggers
import ZoneMinder.EventSummaries.Exact
import ZoneMinder.Filter.Sql
import ZoneMinder.Filter.Injection
import ZoneMinder.Lib.Literals
import ZoneMinder.WebFilter.Sql
import ZoneMinder.WebFilter.Safe
import ZoneMinder.WebFilter.Injection
import ZoneMinder.EventSummaries.Queue
import ZoneMinder.EventLock
import ZoneMinder.CronTab.Splice
import ZoneMinder.EventZmsHints
import ZoneMinder.CronTab.Preserved
import ZoneMinder.CronTab.Schedule
import ZoneMinder.CronTab.Validated
import ZoneMinder.LogRedact.Redact
import ZoneMinder.LogRedact.Alike
import ZoneMinder.Onvif.Alarms
import ZoneMinder.Onvif.Polling
import ZoneMinder.Lib.Ring
import ZoneMinder.MonitorStream.Pass
import ZoneMinder.MonitorStream.Sound
import ZoneMinder.EventStream.Requests
import ZoneMinder.Image.Storage
import ZoneMinder.Image.Sound
import ZoneMinder.Image.Exchange
import ZoneMinder.Image.Lifetime
import ZoneMinder.Image.Runs
import ZoneMinder.Lib.Regions
import ZoneMinder.Mp4Sidx.Whole
import ZoneMinder.PacketQueue.Room
import ZoneMinder.PacketQueue.Unread
import ZoneMinder.PacketQueue.Delivery
import ZoneMinder.Zone.Blobs
import ZoneMinder.Zone.Centre
import ZoneMinder.Zone.Opening
import ZoneMinder.Image.Delta
import ZoneMinder.Image.DeltaRows
import ZoneMinder.ZmConf.Agree
import ZoneMinder.EventMove.Move
import ZoneMinder.EventMove.Copy
import ZoneMinder.EventMove.Footage
import ZoneMinder.DecoderQueue
import ZoneMinder.DtsContinuity
import ZoneMinder.EventStream.Resumed
import ZoneMinder.Lib.Pairs
import ZoneMinder.Lib.Hold
import ZoneMinder.Lib.Reorder
import ZoneMinder.Poly.Clip
import ZoneMinder.Poly.Contains
import ZoneMinder.VideoStore.Reorder
import ZoneMinder.VideoStore.Timestamps
import ZoneMinder.Zone.CheckAlarms
import ZoneMinder.Zone.DetectMotion
import ZoneMinder.Zone.Load
import ZoneMinder.Zone.Scoring
import ZoneMinder.Auth.Forwarded
import ZoneMinder.Lib.Base64
import ZoneMinder.Utils.Base64
import ZoneMinder.Utils.QueryString
import ZoneMinder.Utils.Userinfo
import ZoneMinder.Access.OtherUser
import ZoneMinder.EventStream.InProcess
import ZoneMinder.EventStream.Trailing
import ZoneMinder.StreamBase.ZoomCrop
import ZoneMinder.StreamBase.ZoomRun
import ZoneMinder.StreamBase.ZoomSteady
import ZoneMinder.Access.Denied
import ZoneMinder.Access.Expansion
import ZoneMinder.Filter.Ranges
import ZoneMinder.Lib.Nesting
import ZoneMinder.WebFilter.Balanced
import ZoneMinder.WebFilter.Predicates
import ZoneMinder.WebFilter.Skipped
import ZoneMinder.CronTab.Grammar
import ZoneMinder.EventZmsHints.Lookups
import ZoneMinder.Filter.Clauses
import ZoneMinder.Filter.DateRange
import ZoneMinder.WebFilter.Events
import ZoneMinder.WebFilter.GroupTerm
import ZoneMinder.WebFilter.Negation
import ZoneMinder.Buffer
import ZoneMinder.CronTab.Editor
import ZoneMinder.Font
import ZoneMinder.HttpRange
import ZoneMinder.Image.Blend
import ZoneMinder.Image.MaskPrivacy
import ZoneMinder.Onvif.Expiry
import ZoneMinder.Poly.Crossings
import ZoneMinder.StreamSocket.Hello
import ZoneMinder.Utils.RequestLog
import ZoneMinder.Zone.Fill
import ZoneMinder.InetSocket
import ZoneMinder.LevelGraph
import ZoneMinder.Image.Annotate
import ZoneMinder.Image.Geometry
import ZoneMinder.Image.GeometryLaws
import ZoneMinder.Image.OverlaySamples
import ZoneMinder.ZmConf.Pointers
import ZoneMinder.Recorder.AddFrame
import ZoneMinder.Recorder.Delivered
import ZoneMinder.Recorder.Recovery
import ZoneMinder.Rtsp.AnnexB
import ZoneMinder.Rtsp.WriteRun
import ZoneMinder.Rtsp.Obus
import ZoneMinder.Zmdc.Server
import ZoneMinder.Zmdc.Supervision
import ZoneMinder.Zmdc.Control
import ZoneMinder.Zmdc.Runs
