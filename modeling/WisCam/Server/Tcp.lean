import WisCam.Auth.DigestAcceptance
import WisCam.Server.Http

/-!
# Connections and events

`tcp.c` and the event loop. A connection reads requests and interleaved frames and hands them to the
handlers; RTSP is tunnelled over HTTP by a GET that names a cookie and a POST that is attached to
the connection with the same cookie.

`step` is what the server does at one event, and `run` what it does in a sequence of events. Each
`read()` of the loop in `do_read`, and each packet that a live source sends, is an event of its own.
An event that cannot happen in a state changes nothing.
-/

set_option autoImplicit false

namespace WisCam.Server

open Foundations Message Connection Auth

/-! ### Closing a connection -/

/-- `rtsp_conn_disconnect`. -/
def rtspConnDisconnect (c : ℕ) : Srv Unit :=
  (List.finRange 8).forM fun chan ↦ do
    let conn ← derefConn c
    match conn.protoState with
    | .null => .fault .nullTable
    | .http _ => .fault .wrongTable
    | .rtsp table =>
      match table chan with
      | some ⟨ep, false⟩ => do
        let endpoint ← derefEndpoint ep
        liveTeardown endpoint.session (some ep)
      | _ => pure ()

/-- The part of `drop_conn` that depends on `proto_state`. -/
def disconnect (c : ℕ) (conn : Conn) : Srv Unit :=
  match conn.protoState, conn.reader.proto with
  | .null, _ => pure ()
  | _, .http => httpConnDisconnect c
  | _, .rtsp => rtspConnDisconnect c
  | _, .start => pure ()

def dropConn (c : ℕ) : Srv Unit := do
  let conn ← derefConn c
  disconnect c conn
  .modify fun s ↦ { s with conns := s.conns.erase c }

/-! ### Tunnels -/

/-- The type of tunnel requests. -/
def tunnelType : Bytes := ascii "application/x-rtsp-tunnelled"

/-- The rest of the two refusals. -/
def brokenTunnel : Bytes :=
  ascii "\r\nConnection: close\r\nContent-Type: text/html\r\n\r\n" ++
    ascii "<html><body><p>Broken RTSP/HTTP tunnel request</p></body></html>\n"

/-- The answer to a tunnel request without a usable cookie. -/
def missingCookie : Bytes := ascii "HTTP/1.0 400 Missing session cookie" ++ brokenTunnel

/-- The answer to a tunnel POST whose cookie no connection has. -/
def unknownCookie : Bytes := ascii "HTTP/1.0 400 Unknown session cookie" ++ brokenTunnel

/-- The answer to a tunnel GET. -/
def tunnelOpened : Bytes :=
  ascii "HTTP/1.0 200 OK\r\nConnection: close\r\nCache-Control: no-cache\r\n" ++
    ascii "Pragma: no-cache\r\nContent-Type: application/x-rtsp-tunnelled\r\n\r\n"

/-- The cookie of a tunnel request, if it fits `http_tunnel_cookie`. -/
def sessionCookie (msg : Pmsg) : Option Bytes :=
  (getHeader msg (ascii "x-sessioncookie")).filter fun cookie ↦ cookie.length + 1 ≤ 128

/-- Refuses a tunnel request. -/
def refuseTunnel (c : ℕ) (text : Bytes) : Srv Unit := do
  let _ ← sendTo c text
  setDropAfter c

/-- `handle_QT_tunnel` for a GET. -/
def tunnelGet (c : ℕ) (cookie : Bytes) : Srv Unit := do
  .modify fun s ↦ { s with
    conns := s.conns.modify c fun conn ↦ { conn with httpTunnelCookie := cookie }
    trace := s.trace ++ [.tunnelGet c cookie] }
  let _ ← sendTo c tunnelOpened
  modifyConn c fun conn ↦
    { conn with reader := { conn.reader with proto := .rtsp, base64Count := 0 } }

/-- `handle_QT_tunnel` for a POST: true where it returns 1. The connections are searched newest
first. -/
def tunnelPost (req : Req) (cookie : Bytes) : Srv Bool := do
  let s ← .get
  match s.conns.find? fun conn ↦ conn.httpTunnelCookie == cookie with
  | none => do
    refuseTunnel req.conn unknownCookie
    return false
  | some (target, _) => do
    let conn ← derefConn req.conn
    .modify fun s ↦ { s with
      conns := (s.conns.modify target fun cg ↦
        { cg with secondFd := conn.fd, secondReadEvent := true }).modify req.conn fun conn ↦
          { conn with fd := none }
      trace := s.trace ++ [.tunnelPost req.conn req.msg cookie target] }
    return true

/-- `handle_QT_tunnel`: true where it returns 1. -/
def handleQtTunnel (req : Req) (post : Bool) : Srv Bool :=
  match sessionCookie req.msg with
  | none => do
    refuseTunnel req.conn missingCookie
    return false
  | some cookie =>
    if post then tunnelPost req cookie
    else do
      tunnelGet req.conn cookie
      return false

/-! ### Requests -/

/-- A header that marks a tunnel request. -/
def isTunnel (msg : Pmsg) (name : Bytes) : Bool :=
  (getHeader msg name).any fun value ↦ sameNoCase value tunnelType

/-- `handle_GET` of `tcp.c`: false where it returns -1. -/
def tcpHandleGet (req : Req) : Srv Bool :=
  if isTunnel req.msg (ascii "Accept") then do
    let attached ← handleQtTunnel req false
    return !attached
  else do
    httpHandleMsg req
    return true

/-- `handle_POST` of `tcp.c`: false where it returns -1. -/
def tcpHandlePost (req : Req) : Srv Bool :=
  if isTunnel req.msg (ascii "Content-Type") then do
    let attached ← handleQtTunnel req true
    return !attached
  else do
    httpHandleMsg req
    return true

/-- `handle_unknown` of `tcp.c`. -/
def tcpHandleUnknown (req : Req) : Srv Unit := do
  setDropAfter req.conn
  let (m, protoId) := addPmsgString (newPmsg 256 (.stat 501 none))
    ((req.msg.protoId.map req.msg.text).getD [])
  let (m, reasonAt) := addPmsgString m (ascii "Not Implemented")
  let reply := copyHeaders { m with protoId := protoId, sl := .stat 501 reasonAt } req.msg
    (ascii "CSeq")
  let _ ← tcpSendPmsg req.conn reply none

/-- The dispatch of `handle_request`, by the protocol of the connection: false where it returns
-1. -/
def dispatch (env : Env) (now : ℕ) (proto : Proto) (req : Req) : Srv Bool :=
  match proto with
  | .http =>
    if sameNoCase req.method (ascii "GET") then tcpHandleGet req
    else if sameNoCase req.method (ascii "POST") then tcpHandlePost req
    else do
      httpHandleMsg req
      return true
  | .rtsp => do
    rtspHandleMsg env now req
    return true
  | .start => do
    tcpHandleUnknown req
    return true

/-- `handle_request`: false where it returns -1. The members of the request line are read whatever
the type of the message is. -/
def handleRequest (env : Env) (now : ℕ) (c : ℕ) : Srv Bool := do
  let conn ← derefConn c
  match parseRequest conn.reader.reqBuf with
  | .error .malformed => return false
  | .error stop => .fault (.parse stop)
  | .ok msg => do
    log (.handed c conn.reader.reqBuf msg)
    match msg.sl with
    | .stat _ _ => .fault .unionMisread
    | .req method uri =>
      dispatch env now conn.reader.proto ⟨c, msg, msg.text method, msg.text uri⟩

/-! ### Reading and writing -/

/-- Stores the reader of a connection. -/
def setReader (c : ℕ) (reader : Reader) : Srv Unit :=
  modifyConn c fun conn ↦ { conn with reader := reader }

/-- `c->req_len = 0`. -/
def clearReqBuf (c : ℕ) : Srv Unit :=
  modifyConn c fun conn ↦ { conn with reader := { conn.reader with reqBuf := [] } }

/-- What `parse_client_data` does with what it finds, and `do_read` with its result. -/
def serve (env : Env) (now : ℕ) (c : ℕ) : Found → Srv Unit
  | .wait => pure ()
  | .proto _ => pure ()
  | .reject => dropConn c
  | .frame chan payload => do
    let _ ← interleaveRecv c chan payload
    clearReqBuf c
  | .request => do
    let handled ← handleRequest env now c
    if handled then clearReqBuf c else dropConn c

/-- One round of the loop of `do_read`, with the bytes that `read()` returned. -/
def receive (env : Env) (now : ℕ) (c : ℕ) (conn : Conn) (data : Bytes) : Srv Unit := do
  let reader := conn.reader.receive data
  if reader.reqBuf.length = reqLimit then do
    setReader c reader
    dropConn c
  else if 0 < reader.base64Count then setReader c reader
  else do
    setReader c reader.settle.1
    serve env now c reader.settle.2

def doAccept (env : Env) (fd : ℕ) : Srv Unit :=
  .modify fun s ↦ { s with
    conns := s.conns.push ⟨some fd, none, false, freshReader, [], freshSendSide env.cells, .null⟩ }

/-! ### Packets -/

/-- `send_rtp_packet`, as far as it concerns connections and sessions: `sent` says whether a UDP
send succeeds. The interleaved send does not fail. -/
def sendRtpPacket (ep : ℕ) (packet : Bytes) (sent : Bool) (results : List WriteResult) :
    Srv Unit := do
  let endpoint ← derefEndpoint ep
  match endpoint.trans with
  | .udp _ _ => if sent then pure () else liveTeardown endpoint.session (some ep)
  | .inter c rtpChan _ => do
    let _ ← interleaveSend c rtpChan packet results
  | .unset => pure ()

/-- `rtcp_send`: `sent` says that the client is not timed out and a UDP send succeeds. -/
def rtcpSend (ep : ℕ) (packet : Bytes) (sent : Bool) (results : List WriteResult) : Srv Unit := do
  let endpoint ← derefEndpoint ep
  match endpoint.trans with
  | .udp _ _ => if sent then pure () else liveTeardown endpoint.session (some ep)
  | .inter c _ rtcpChan => do
    let _ ← interleaveSend c rtcpChan packet results
  | .unset => liveTeardown endpoint.session (some ep)

/-- `next_live_frame`, up to the packets it sends. -/
def nextLiveFrame (source : ℕ) (t : Track) : Srv Unit :=
  modifySource source (·.modifyTrack t fun track ↦
    if track.ready then track else { track with ready := true, waiting := false })

/-- `deliver_frame_to_stream`, for the destination that a track is: it gets frames only while it is
waiting. -/
def deliverFrame (source : ℕ) (t : Track) : Srv Unit := do
  let s ← .get
  if (s.liveTrack source t).any LiveTrack.waiting then nextLiveFrame source t else pure ()

/-! ### Events -/

/-- What can happen to the server. -/
inductive Event
  /-- A client connects. -/
  | accept (fd : ℕ)
  /-- A `read()` returns bytes, on the second descriptor or the first. -/
  | read (c : ℕ) (second : Bool) (now : ℕ) (data : Bytes)
  /-- A `read()` returns 0 or an error. -/
  | closed (c : ℕ) (second : Bool)
  /-- The write event of a connection, with the results of the `write()` calls. -/
  | writable (c : ℕ) (results : List WriteResult)
  /-- A live source sends a packet to the endpoint of a playing session. -/
  | rtp (ep : ℕ) (packet : Bytes) (sent : Bool) (results : List WriteResult)
  /-- A sender report is due. -/
  | rtcp (ep : ℕ) (packet : Bytes) (sent : Bool) (results : List WriteResult)
  /-- A socket of a UDP endpoint is closed or fails. -/
  | udpClosed (ep : ℕ)
  /-- The stream of a track has a frame that the track accepts. -/
  | liveFrame (source : ℕ) (t : Track)
  /-- A JPEG frame arrives at an HTTP location. -/
  | jpegFrame (loc : ℕ) (frame : Bytes)

/-- The connection has the descriptor, and its event, that is read. -/
def Conn.reads (conn : Conn) (second : Bool) : Bool :=
  if second then conn.secondFd.isSome && conn.secondReadEvent else conn.fd.isSome

/-- The end of a descriptor. -/
def readClosed (c : ℕ) (second : Bool) : Srv Unit :=
  if second then modifyConn c fun conn ↦ { conn with secondFd := none, secondReadEvent := false }
  else dropConn c

/-- `conn_write` on a connection. -/
def writeConn (c : ℕ) (conn : Conn) (results : List WriteResult) : Srv Unit := do
  modifyConn c fun conn ↦ { conn with out := (connWrite conn.out results).2.1 }
  match (connWrite conn.out results).1 with
  | .waiting => pure ()
  | .looping => pure ()
  | .droppedByError => dropConn c
  | .droppedAfter => dropConn c

/-- The endpoint belongs to a session that is playing. -/
def State.playing (s : State) (ep : ℕ) : Bool :=
  ((s.endpoints.get? ep).bind fun endpoint ↦ s.sessions.get? endpoint.session).any Session.playing

/-- What the server does at one event. -/
def step (env : Env) (event : Event) : Srv Unit := do
  let s ← .get
  match event with
  | .accept fd => doAccept env fd
  | .read c second now data =>
    match s.conns.get? c with
    | none => pure ()
    | some conn =>
      if conn.reads second ∧ data ≠ [] ∧ conn.reader.reqBuf.length + data.length ≤ reqLimit then
        receive env now c conn data
      else pure ()
  | .closed c second =>
    match s.conns.get? c with
    | none => pure ()
    | some conn => if conn.reads second then readClosed c second else pure ()
  | .writable c results =>
    match s.conns.get? c with
    | none => pure ()
    | some conn => if conn.out.writeEnabled then writeConn c conn results else pure ()
  | .rtp ep packet sent results =>
    if s.playing ep then sendRtpPacket ep packet sent results else pure ()
  | .rtcp ep packet sent results =>
    if s.playing ep then rtcpSend ep packet sent results else pure ()
  | .udpClosed ep =>
    match s.endpoints.get? ep with
    | some endpoint => match endpoint.trans with
      | .udp _ _ => liveTeardown endpoint.session (some ep)
      | _ => pure ()
    | none => pure ()
  | .liveFrame source t => deliverFrame source t
  | .jpegFrame loc frame => jpegNextFrame loc frame

/-- What the server does in a sequence of events. It stops at the first fault. -/
def run (env : Env) (events : List Event) : Srv Unit := events.forM (step env)

/-- The states of a configuration that runs without a fault lead to. -/
def Reachable (env : Env) (config : Config) (s : State) : Prop :=
  ∃ events, run env events (initial config) = (.ok (), s)

/-! ### A sample server -/

/-- An environment to run the server on concrete events. -/
def sampleEnv : Env := ⟨checksumMd5, fun n ↦ UInt8.ofNat n, fun _ _ ↦ none, fun _ ↦ 0⟩

/-- A live source with two tracks that are ready. -/
def sampleSource : LiveSource :=
  let track : LiveTrack := ⟨⟨fun _ _ ↦ ascii "m=video 0 RTP/AVP 26\r\n", id⟩, true, false⟩
  ⟨[track, track], 1400, 4, 0, Nat.le_refl 2⟩

/-- A server with an open location and one that asks for the password of `admin`. -/
def sampleConfig : Config where
  rtspLocs :=
    [⟨⟨ascii "/open", fun _ ↦ 0⟩, [], [], [], 0⟩,
      ⟨⟨ascii "/cam", fun _ ↦ 0⟩, ascii "cam", ascii "admin", ascii "pass", 1⟩]
  httpLocs := []
  sources := [sampleSource, sampleSource]

/-- The sample server after some events. -/
def sampleRun (events : List Event) : Except Fault Unit × State :=
  run sampleEnv events (initial sampleConfig)

theorem reachable_sampleRun {events : List Event} (hrun : (sampleRun events).1 = .ok ()) :
    Reachable sampleEnv sampleConfig (sampleRun events).2 :=
  ⟨events, Prod.ext hrun rfl⟩

end WisCam.Server
