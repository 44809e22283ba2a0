import WisCam.Message.Cursor
import WisCam.Message.RoundTrip
import WisCam.Message.Building
import WisCam.Auth.DigestAcceptance
import WisCam.Auth.Directives
import WisCam.Connection.Framing
import WisCam.Connection.SendRing
import WisCam.Connection.Draining
import WisCam.Connection.TunnelDecoding
import WisCam.Server.Interleaving
import WisCam.Server.LocalArrays
import WisCam.Server.Rounds
import WisCam.Server.Tunnel
import WisCam.Server.Authorisation
import WisCam.Server.Replies
import WisCam.Server.SendUnits
import WisCam.Server.Locations
import WisCam.Server.SessionRuns
import WisCam.Server.Teardown
import WisCam.Server.LiveTracks
import WisCam.Server.OwnedSessions
import WisCam.Rtp.SenderReports
import WisCam.Media.Pipeline
import WisCam.Media.FrameHeap
import WisCam.Media.Streams
import WisCam.Rest.Routing
import WisCam.Rest.OtherParams
import WisCam.Rest.LineReads
import WisCam.Audio.Alignment
import WisCam.Audio.Occupancy
import WisCam.Audio.MuLaw
import WisCam.Rtp.Rtcp
import WisCam.Server.UdpSetup
import WisCam.Events.Timers
import WisCam.Foundations.StrideLoop
import WisCam.Rtp.Jpeg
import WisCam.Rtp.JpegFrames
import WisCam.Rtp.JpegPackets
