import WisCam.Auth.Digest
import WisCam.Connection.Reader
import WisCam.Connection.SendRing
import WisCam.Foundations.NodeTable
import WisCam.Foundations.Program

/-!
# The state of the server

The connections, sessions and endpoints of the server with the pointers between them, as the
modules of the source keep them: `struct conn` (`rtp.h`), `struct session` and
`struct rtp_endpoint`, `struct rtsp_session` (`rtsp.c`), `struct live_source` and
`struct live_session` (`live.c`), and `struct http_stream_session` (`http.c`). A pointer is the
address of a node in one of the lists.

The functions of the server are programs over this state. Where the code would use a pointer that is
null or dangling or leads to a structure of another kind, or would write outside an array, the
program stops at a fault (`Fault`). The history `trace` records the calls that the properties of
whole runs speak about.
-/

set_option autoImplicit false

namespace WisCam.Server

open Foundations Message Connection Auth

/-! ### Connections -/

/-- `MAX_INTERLEAVE_CHANNELS`. -/
abbrev Channel := Fin 8

/-- `MAX_TRACKS`. -/
abbrev Track := Fin 2

/-- An entry of `ichan` that has an endpoint. -/
structure IChan where
  ep : ℕ
  rtcp : Bool
  deriving DecidableEq, Repr

/-- `struct rtsp_conn`: for each channel the entry, or `none` where `ep` is null. -/
abbrev ChannelTable := Channel → Option IChan

/-- What `proto_state` points to. -/
inductive ProtoState
  | null
  | rtsp (table : ChannelTable)
  | http (session : ℕ)

/-- `struct conn`. A descriptor of -1 is `none`. -/
structure Conn where
  fd : Option ℕ
  secondFd : Option ℕ
  secondReadEvent : Bool
  reader : Reader
  httpTunnelCookie : Bytes
  out : SendSide
  protoState : ProtoState

/-! ### Sessions and endpoints -/

/-- The transport of an endpoint: not yet chosen, `RTP_TRANS_UDP` with the address and port for the
session description, or `RTP_TRANS_INTER`. -/
inductive Trans
  | unset
  | udp (sdpAddr : Bytes) (sdpPort : ℕ)
  | inter (conn : ℕ) (rtpChan rtcpChan : Channel)
  deriving DecidableEq, Repr

/-- `struct rtp_endpoint`, as far as the server's control flow uses it. -/
structure Endpoint where
  session : ℕ
  payload : ℕ
  maxDataSize : ℤ
  ssrc : Bytes
  startTimestamp : Bytes
  seqnum : Bytes
  trans : Trans
  deriving DecidableEq, Repr

/-- `struct session` together with the `struct live_session` it belongs to: the live source, whether
it is playing, the endpoints of the tracks, and the RTSP session that controls it. -/
structure Session where
  source : ℕ
  playing : Bool
  ep : Track → Option ℕ
  control : Option ℕ

/-- `struct rtsp_session`. -/
structure RtspSession where
  id : Bytes
  sess : ℕ
  deriving DecidableEq, Repr

/-- `struct http_stream_session`. -/
structure HttpStreamSession where
  loc : ℕ
  conn : ℕ
  deriving DecidableEq, Repr

/-! ### Configuration -/

/-- What a track's `struct rtp_media` says about itself. -/
structure Media where
  getSdp : ℕ → ℕ → Bytes
  getPayload : ℕ → ℕ

/-- `struct live_track`, for a track that has media. -/
structure LiveTrack where
  media : Media
  ready : Bool
  waiting : Bool

/-- `struct live_source`, with the tracks that have media: the first ones of its array. -/
structure LiveSource where
  tracks : List LiveTrack
  maxRtpTransSize : ℤ
  maxConnNum : ℕ
  curConn : ℕ
  length_le : tracks.length ≤ 2

/-- A store into a track. -/
def LiveSource.modifyTrack (source : LiveSource) (t : Track) (f : LiveTrack → LiveTrack) :
    LiveSource :=
  { source with
    tracks := source.tracks.modify t.val f
    length_le := by
      rw [List.length_modify]
      exact source.length_le }

/-- `struct loc_node`: the path, and the bytes that stand in its array behind the NUL at its end. -/
structure LocNode where
  path : Bytes
  stale : ℕ → UInt8

/-- `loc->path[index]`. -/
def LocNode.byteAt (node : LocNode) (index : ℕ) : UInt8 :=
  match node.path[index]? with
  | some b => b
  | none => if index = node.path.length then 0 else node.stale index

/-- `struct rtsp_location`. Every location is opened with `live_open`, on a live source. -/
structure RtspLocation where
  node : LocNode
  realm : Bytes
  username : Bytes
  password : Bytes
  source : ℕ

/-- `struct http_location`. -/
structure HttpLocation where
  node : LocNode
  frame : Option Bytes
  lengthWithJfif : ℕ
  streaming : Bool

/-! ### The server -/

/-- What happened in a run. -/
inductive Obs
  /-- `handle_request` parsed the buffer of a connection and hands the message to the handlers. -/
  | handed (c : ℕ) (buf : Bytes) (msg : Pmsg)
  /-- `interleave_recv_rtcp` is called for an endpoint. -/
  | rtcp (ep : ℕ) (payload : Bytes)
  /-- A tunnel GET stored its cookie in a connection. -/
  | tunnelGet (c : ℕ) (cookie : Bytes)
  /-- A tunnel POST on a connection was attached to another one. -/
  | tunnelPost (c : ℕ) (msg : Pmsg) (cookie : Bytes) (target : ℕ)
  /-- `check_digest_response` returned 1 for a request at a location. -/
  | verified (c : ℕ) (msg : Pmsg) (loc : ℕ)
  /-- A request opened a session through a location. -/
  | opened (c : ℕ) (msg : Pmsg) (loc sess : ℕ)
  /-- A session was entered into the table of RTSP sessions under an id. -/
  | registered (sess : ℕ) (id : Bytes)
  /-- A SETUP request, resolved to a location, created an endpoint in a session. -/
  | endpointSet (c : ℕ) (msg : Pmsg) (loc sess ep : ℕ)
  /-- A TEARDOWN request, resolved to a location, acts on a session. -/
  | tornDown (c : ℕ) (msg : Pmsg) (loc sess : ℕ)
  deriving DecidableEq, Repr

/-- The lists of the server, its configuration, the digest secret once it is created, the number of
random bytes drawn and of UDP ports tried so far, and the history. -/
structure State where
  rtspLocs : List RtspLocation
  httpLocs : List HttpLocation
  sources : List LiveSource
  conns : NodeTable Conn
  sessions : NodeTable Session
  endpoints : NodeTable Endpoint
  rtspSessions : NodeTable RtspSession
  httpSessions : NodeTable HttpStreamSession
  secret : Option Bytes
  randomPos : ℕ
  udpPos : ℕ
  trace : List Obs

/-- What the server is configured with. -/
structure Config where
  rtspLocs : List RtspLocation
  httpLocs : List HttpLocation
  sources : List LiveSource

/-- The server before its first event. -/
def initial (config : Config) : State :=
  ⟨config.rtspLocs, config.httpLocs, config.sources, .empty, .empty, .empty, .empty, .empty, none,
    0, 0, []⟩

/-- What the code would do wrong: use a channel table that is not there, use `proto_state` as a
structure of the wrong kind, follow a pointer to freed memory, write outside a local array of a
handler, print a reply outside the array of `tcp_send_pmsg`, go wrong while parsing a message, or
read the request members of a response. -/
inductive Fault
  | nullTable
  | wrongTable
  | dangling
  | overflow
  | longReply
  | parse (stop : ParseStop)
  | unionMisread
  deriving DecidableEq, Repr

/-- What the server takes from outside: MD5, the random bytes, the outcome of opening UDP ports (the
server port with the address and port for the session description), and the bytes that fresh send
buffers hold. -/
structure Env where
  md5 : Md5
  random : ℕ → UInt8
  udp : ℕ → ℤ → Option (ℕ × Bytes × ℕ)
  cells : ℕ → UInt8

/-- A function of the server. -/
abbrev Srv (α : Type) := Program Fault State α

/-! ### Access to the state -/

/-- Reads a connection. -/
def derefConn (c : ℕ) : Srv Conn := do
  let s ← .get
  .ofOption .dangling (s.conns.get? c)

variable {β : Type} {s : State}

theorem derefConn_apply {c : ℕ} {conn : Conn} {f : Conn → Srv β}
    (hconn : s.conns.get? c = some conn) : (derefConn c >>= f) s = f conn s := by
  change (Program.ofOption _ (s.conns.get? c) >>= f) s = _
  rw [hconn]
  rfl

theorem derefConn_none {c : ℕ} {f : Conn → Srv β} (hnone : s.conns.get? c = none) :
    (derefConn c >>= f) s = (.error .dangling, s) := by
  change (Program.ofOption _ (s.conns.get? c) >>= f) s = _
  rw [hnone]
  rfl

/-- Reads a session. -/
def derefSession (sess : ℕ) : Srv Session := do
  let s ← .get
  .ofOption .dangling (s.sessions.get? sess)

theorem derefSession_apply {sess : ℕ} {session : Session} {f : Session → Srv β}
    (hsession : s.sessions.get? sess = some session) :
    (derefSession sess >>= f) s = f session s := by
  change (Program.ofOption _ (s.sessions.get? sess) >>= f) s = _
  rw [hsession]
  rfl

theorem derefSession_none {sess : ℕ} {f : Session → Srv β} (hnone : s.sessions.get? sess = none) :
    (derefSession sess >>= f) s = (.error .dangling, s) := by
  change (Program.ofOption _ (s.sessions.get? sess) >>= f) s = _
  rw [hnone]
  rfl

/-- Reads an endpoint. -/
def derefEndpoint (ep : ℕ) : Srv Endpoint := do
  let s ← .get
  .ofOption .dangling (s.endpoints.get? ep)

theorem derefEndpoint_apply {ep : ℕ} {endpoint : Endpoint} {f : Endpoint → Srv β}
    (hep : s.endpoints.get? ep = some endpoint) : (derefEndpoint ep >>= f) s = f endpoint s := by
  change (Program.ofOption _ (s.endpoints.get? ep) >>= f) s = _
  rw [hep]
  rfl

/-- Reads a live source. -/
def derefSource (source : ℕ) : Srv LiveSource := do
  let s ← .get
  .ofOption .dangling s.sources[source]?

theorem derefSource_apply {source : ℕ} {live : LiveSource} {f : LiveSource → Srv β}
    (hsource : s.sources[source]? = some live) : (derefSource source >>= f) s = f live s := by
  change (Program.ofOption _ s.sources[source]? >>= f) s = _
  rw [hsource]
  rfl

theorem derefSource_none {source : ℕ} {f : LiveSource → Srv β} (hnone : s.sources[source]? = none) :
    (derefSource source >>= f) s = (.error .dangling, s) := by
  change (Program.ofOption _ s.sources[source]? >>= f) s = _
  rw [hnone]
  rfl

/-- A track of a source. -/
def State.liveTrack (s : State) (source : ℕ) (t : Track) : Option LiveTrack :=
  s.sources[source]?.bind fun live ↦ live.tracks[t.val]?

/-- Stores in a connection. -/
def modifyConn (c : ℕ) (f : Conn → Conn) : Srv Unit :=
  .modify fun s ↦ { s with conns := s.conns.modify c f }

/-- Stores in a session. -/
def modifySession (sess : ℕ) (f : Session → Session) : Srv Unit :=
  .modify fun s ↦ { s with sessions := s.sessions.modify sess f }

/-- Stores in a live source. -/
def modifySource (source : ℕ) (f : LiveSource → LiveSource) : Srv Unit :=
  .modify fun s ↦ { s with sources := s.sources.modify source f }

/-- Records what happens. -/
def log (obs : Obs) : Srv Unit := .modify fun s ↦ { s with trace := s.trace ++ [obs] }

theorem log_bind_apply (obs : Obs) (f : Unit → Srv β) (s : State) :
    (log obs >>= f) s = f () { s with trace := s.trace ++ [obs] } := rfl

/-- `random_bytes`. -/
def randomBytes (env : Env) (len : ℕ) : Srv Bytes := do
  let s ← .get
  .modify fun s ↦ { s with randomPos := s.randomPos + len }
  return (List.range len).map fun i ↦ env.random (s.randomPos + i)

end WisCam.Server
