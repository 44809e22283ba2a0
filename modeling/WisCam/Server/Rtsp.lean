import WisCam.Server.Live

/-!
# RTSP requests

`rtsp.c`, with the replies of `tcp_send_pmsg`. A URI is resolved to a location by
`findRtspLocation`, which copies its path into an array of the caller; the handlers check the
location's realm, act on sessions and send one reply.
-/

set_option autoImplicit false

namespace WisCam.Server

open Foundations Message Connection Auth

/-! ### Replies -/

/-- `struct req`: the connection, the message, and the strings of its request line. -/
structure Req where
  conn : ℕ
  msg : Pmsg
  method : Bytes
  uri : Bytes

/-- `send_data` on a connection. -/
def sendTo (c : ℕ) (data : Bytes) : Srv ℤ := do
  let conn ← derefConn c
  modifyConn c fun conn ↦ { conn with out := (sendData conn.out data).2 }
  return (sendData conn.out data).1

/-- The text that `tcp_send_pmsg` makes of a reply, for a body of `len` bytes or none. -/
def printPmsg (m : Pmsg) (code : ℕ) (reason : Option ℕ) (len : Option ℕ) : Bytes :=
  let string := fun offset : Option ℕ ↦ (offset.map m.text).getD (ascii "(null)")
  string m.protoId ++ [32] ++ decimal code ++ [32] ++ string reason ++ ascii "\r\n" ++
    (m.fields.flatMap fun field ↦
      m.text field.name ++ ascii ": " ++ m.text field.value ++ ascii "\r\n") ++
    match len with
    | some len => ascii "Content-Length: " ++ decimal len ++ ascii "\r\n\r\n"
    | none => ascii "\r\n"

/-- `tcp_send_pmsg`: true where it returns 0. The reply is sent only if its body fits as well. -/
def tcpSendPmsg (c : ℕ) (m : Pmsg) (len : Option ℕ) : Srv Bool :=
  match m.sl with
  | .req _ _ => return false
  | .stat code reason =>
    let text := printPmsg m code reason len
    -- `buf` holds the text with its NUL.
    if 2048 ≤ text.length then .fault .longReply
    else do
      let conn ← derefConn c
      if availSendBuf conn.out < text.length + len.getD 0 then return false
      else do
        let _ ← sendTo c text
        return true

/-- The state after `send_data` on a connection. -/
def State.enqueue (s : State) (c : ℕ) (data : Bytes) : State :=
  { s with conns := s.conns.modify c fun conn ↦ { conn with out := (sendData conn.out data).2 } }

theorem sendTo_eq {s : State} {c : ℕ} {conn : Conn} (hconn : s.conns.get? c = some conn)
    (data : Bytes) : sendTo c data s = (.ok (sendData conn.out data).1, s.enqueue c data) := by
  rw [sendTo, derefConn_apply hconn]
  rfl

/-- `tcp_send_pmsg` on a connection that is there queues the text of a response, or nothing, if its
array holds the text. -/
theorem tcpSendPmsg_eq {s : State} {c : ℕ} {conn : Conn} (hconn : s.conns.get? c = some conn)
    (m : Pmsg) (len : Option ℕ) :
    tcpSendPmsg c m len s = match m.sl with
      | .req _ _ => (.ok false, s)
      | .stat code reason =>
        if 2048 ≤ (printPmsg m code reason len).length then (.error .longReply, s)
        else if availSendBuf conn.out < (printPmsg m code reason len).length + len.getD 0 then
          (.ok false, s)
        else (.ok true, s.enqueue c (printPmsg m code reason len)) := by
  unfold tcpSendPmsg
  cases m.sl with
  | req method uri => rfl
  | stat code reason =>
    dsimp only
    by_cases hlong : 2048 ≤ (printPmsg m code reason len).length
    · rw [if_pos hlong, if_pos hlong]
      rfl
    · rw [if_neg hlong, if_neg hlong, derefConn_apply hconn]
      split_ifs with hfull
      · rfl
      · rw [Program.bind_apply, sendTo_eq hconn]
        rfl

def rtspCreateReply (req : Req) (code : ℕ) (reason : Bytes) : Pmsg :=
  let (m, protoId) := addPmsgString (newPmsg 512 (.stat code none)) (ascii "RTSP/1.0")
  let (m, reasonAt) := addPmsgString m reason
  copyHeaders { m with protoId := protoId, sl := .stat code reasonAt } req.msg (ascii "CSeq")

def rtspSendError (req : Req) (code : ℕ) (reason : Bytes) : Srv Unit := do
  let _ ← tcpSendPmsg req.conn (rtspCreateReply req code reason) none

/-! ### Locations -/

def getLocalPath (path : Bytes) : Option Bytes :=
  if sameFirstNoCase 7 path (ascii "rtsp://") then
    match (path.drop 7).dropWhile (· != 47) with
    | [] => some [47]
    | local' => some local'
  else none

/-- The track that a path names, and the length of the path without it. -/
def splitTrack (path : Bytes) : ℤ × ℕ :=
  match strrchr 47 path with
  | some c =>
    if sameFirst 6 (path.drop c) (ascii "/track") then
      let (track, read) := strtol (path.drop (c + 6))
      (track, if read = (path.drop (c + 6)).length then c else path.length)
    else (-1, path.length)
  | none => (-1, path.length)

/-- The length of a path without one slash at its end. -/
def trimSlash (path : Bytes) (len : ℕ) : ℕ :=
  if 1 < len ∧ path[len - 1]? = some 47 then len - 1 else len

/-- `node_find_location`, as the index in the list. -/
def nodeFindLocation (nodes : List LocNode) (path : Bytes) (len : ℕ) : Option ℕ :=
  nodes.findIdx? fun loc ↦
    sameFirst loc.path.length path loc.path && (loc.byteAt len == 47 || loc.byteAt len == 0)

/-- The path that `find_rtsp_location` looks for in a URI, its length, and the track (-1 where the
caller does not ask for one). -/
def locationPath (uri : Bytes) (wantTrack : Bool) : Option (Bytes × ℕ × ℤ) :=
  (getLocalPath uri).map fun path ↦
    let (track, len) := if wantTrack then splitTrack path else (-1, path.length)
    (path, trimSlash path len, track)

/-- `find_rtsp_location`: the index of the location with the location itself, and the track. With a
`base` of the given size the path and its NUL are copied there first. -/
def findRtspLocation (uri : Bytes) (base : Option ℕ) (wantTrack : Bool) :
    Srv (Option (ℕ × RtspLocation) × ℤ) := do
  match locationPath uri wantTrack with
  | none => return (none, -1)
  | some (path, len, track) =>
    if base.any (· ≤ len) then .fault .overflow
    else do
      let s ← .get
      let found := nodeFindLocation (s.rtspLocs.map RtspLocation.node) path len
      return (found.bind fun loc ↦ s.rtspLocs[loc]?.map (loc, ·), track)

/-! ### Authentication -/

/-- The digest secret, which the first nonce creates. -/
def digestSecret (env : Env) : Srv Bytes := do
  let s ← .get
  match s.secret with
  | some secret => return secret
  | none => do
    let random ← randomBytes env 8
    .modify fun s ↦ { s with secret := some (createDigestSecret random) }
    return createDigestSecret random

/-- `rtsp_verify_auth`: true where it returns 0. -/
def rtspVerifyAuth (env : Env) (now : ℕ) (req : Req) (loc : ℕ) (location : RtspLocation) :
    Srv Bool := do
  let s ← .get
  let ret := checkDigestResponse env.md5 s.secret now req.msg req.method req.uri location.realm
    location.username location.password
  if 0 < ret then do
    log (.verified req.conn req.msg loc)
    return true
  else do
    let secret ← digestSecret env
    let random ← randomBytes env 12
    let reply := (addDigestChallenge env.md5 secret now random
      (rtspCreateReply req 401 (ascii "Unauthorized")) location.realm (ret = 0)).1
    let _ ← tcpSendPmsg req.conn reply none
    return false

/-! ### Sessions -/

/-- `new_rtsp_session`: the id, `random_id` of 30 digits. -/
def newRtspSession (env : Env) (sess : ℕ) : Srv Bytes := do
  let random ← randomBytes env 15
  let id := random.flatMap upperHexByte
  .modify fun s ↦ { s with
    rtspSessions := s.rtspSessions.push ⟨id, sess⟩
    sessions := s.sessions.modify sess fun session ↦
      { session with control := some s.rtspSessions.next }
    trace := s.trace ++ [.registered sess id] }
  return id

def getSession (id : Option Bytes) : Srv (Option RtspSession) := do
  let s ← .get
  return id.bind fun id ↦ (s.rtspSessions.find? fun rs ↦ rs.id == id).map Prod.snd

/-! ### Transports -/

/-- The channel table of a connection, or the empty one that it would get. -/
def channelTable (conn : Conn) : Except Fault ChannelTable :=
  match conn.protoState with
  | .null => .ok fun _ ↦ none
  | .rtsp table => .ok table
  | .http _ => .error .wrongTable

/-- The pairs of channels that a Transport header admits: the one it names, if that is in range, or
any. -/
def channelPairs (t : Bytes) : List (Channel × Channel) :=
  match strstr (ascii "interleaved") t with
  | some p =>
    if t[p + 11]? = some 61 then
      let (rtpChan, read) := strtol (t.drop (p + 12))
      if read = 0 then []
      else if h : 0 ≤ rtpChan ∧ rtpChan + 1 < 8 then
        [(⟨rtpChan.toNat, by omega⟩, ⟨(rtpChan + 1).toNat, by omega⟩)]
      else []
    else []
  | none => [(0, 1), (2, 3), (4, 5), (6, 7)]

/-- `rtsp_interleave_setup`: the Transport header of the reply, or `none` where it returns -1. The
table is not looked into if the header admits no channels. The stores into the table and into the
endpoint are one step. -/
def rtspInterleaveSetup (c ep : ℕ) (t : Bytes) : Srv (Option Bytes) := do
  let conn ← derefConn c
  if channelPairs t = [] then return none
  else
    match channelTable conn with
    | .error fault => .fault fault
    | .ok table =>
      match (channelPairs t).find? fun pair ↦
          (table pair.1).isNone && (table pair.2).isNone with
      | none => return none
      | some (rtp, rtcp) => do
        .modify fun s ↦ { s with
          conns := s.conns.modify c fun conn ↦ { conn with
            protoState := .rtsp (Function.update (Function.update table rtp (some ⟨ep, false⟩))
              rtcp (some ⟨ep, true⟩)) }
          endpoints := s.endpoints.modify ep fun endpoint ↦
            { endpoint with trans := .inter c rtp rtcp } }
        return some (ascii "RTP/AVP/TCP;unicast;interleaved=" ++ decimal rtp.val ++ [45] ++
          decimal rtcp.val)

/-- A sum of two 32-bit numbers, which wraps around. -/
def wrapInt (value : ℤ) : ℤ := value.bmod (2 ^ 32)

/-- `%d`. -/
def signedDecimal (value : ℤ) : Bytes :=
  if value < 0 then 45 :: decimal (-value).toNat else decimal value.toNat

/-- `connect_udp_endpoint`: the server's port, or `none` where it returns -1. -/
def connectUdpEndpoint (env : Env) (ep : ℕ) (destPort : ℤ) : Srv (Option ℕ) := do
  let s ← .get
  .modify fun s ↦ { s with udpPos := s.udpPos + 1 }
  match env.udp s.udpPos destPort with
  | none => return none
  | some (ourPort, addr, port) => do
    .modify fun s ↦ { s with
      endpoints := s.endpoints.modify ep fun endpoint ↦
        { endpoint with trans := .udp addr port } }
    return some ourPort

/-- `rtsp_udp_setup`: the Transport header of the reply, or `none` where it returns -1. -/
def rtspUdpSetup (env : Env) (ep : ℕ) (t : Bytes) : Srv (Option Bytes) :=
  match strstr (ascii "client_port") t with
  | none => return none
  | some p =>
    if t[p + 11]? = some 61 then
      let (cport, read) := strtol (t.drop (p + 12))
      if read = 0 then return none
      else do
        let serverPort ← connectUdpEndpoint env ep cport
        return serverPort.map fun serverPort ↦
          ascii "RTP/AVP;unicast;client_port=" ++ signedDecimal cport ++ [45] ++
            signedDecimal (wrapInt (cport + 1)) ++ ascii ";server_port=" ++ decimal serverPort ++
            [45] ++ decimal (serverPort + 1)
    else return none

/-- The setup that the Transport header asks for. -/
def setupTransport (env : Env) (c ep : ℕ) (t : Bytes) : Srv (Option Bytes) :=
  if sameFirstNoCase 11 t (ascii "RTP/AVP/TCP") then rtspInterleaveSetup c ep t
  else if sameFirstNoCase 7 t (ascii "RTP/AVP") ∧ t[7]? ≠ some 47 ∨
      sameFirstNoCase 11 t (ascii "RTP/AVP/UDP") then rtspUdpSetup env ep t
  else return none

/-! ### Handlers -/

/-- The check of a location's realm, if it has one. -/
def checkRealm (env : Env) (now : ℕ) (req : Req) (loc : ℕ) (location : RtspLocation) : Srv Bool :=
  if location.realm = [] then return true else rtspVerifyAuth env now req loc location

def handleOptions (req : Req) : Srv Unit := do
  let reply := (addHeader (rtspCreateReply req 200 (ascii "OK")) (ascii "Public")
    (ascii "DESCRIBE, SETUP, TEARDOWN, PLAY, PAUSE")).1
  let _ ← tcpSendPmsg req.conn reply none

/-- The reply of `handle_DESCRIBE` in front of the session description. -/
def descriptionReply (req : Req) : Pmsg :=
  let reply := rtspCreateReply req 200 (ascii "OK")
  let reply := (addHeader reply (ascii "Content-Base") (req.uri ++ [47])).1
  (addHeader reply (ascii "Content-Type") (ascii "application/sdp")).1

/-- The answer of `handle_DESCRIBE` with the session description. The text `hdr` of the Content-Base
header is written into an array of 512 bytes. -/
def sendDescription (req : Req) (sdp : Bytes) : Srv Unit :=
  if 512 ≤ (req.uri ++ [47]).length then .fault .overflow
  else do
    let sent ← tcpSendPmsg req.conn (descriptionReply req) (some sdp.length)
    if sent then do
      let _ ← sendTo req.conn sdp
    else pure ()

/-- `handle_DESCRIBE`. A request that fails the check leaves its session behind. -/
def handleDescribe (env : Env) (now : ℕ) (req : Req) : Srv Unit := do
  let (found, _) ← findRtspLocation req.uri (some 256) false
  match found with
  | none => rtspSendError req 404 (ascii "Not Found")
  | some (loc, location) => do
    let opened ← liveOpen req.conn req.msg loc location
    match opened with
    | none => rtspSendError req 404 (ascii "Not Found")
    | some sess => do
      let allowed ← checkRealm env now req loc location
      if allowed then do
        let s ← .get
        let session ← derefSession sess
        let source ← derefSource session.source
        match liveGetSdp s session source with
        | some sdp => sendDescription req sdp
        | none => rtspSendError req 404 (ascii "Not Found")
        liveTeardown sess none
      else pure ()

/-- The session that `handle_SETUP` works on, and its id if it has one: a new one for a request
without a Session header, or the one with that id. -/
def setupSession (req : Req) (loc : ℕ) (location : RtspLocation) (id : Option Bytes) :
    Srv (Option (ℕ × Option Bytes)) :=
  match id with
  | none => do
    let opened ← liveOpen req.conn req.msg loc location
    return opened.map (·, none)
  | some id => do
    let rs ← getSession (some id)
    return rs.map fun rs ↦ (rs.sess, some rs.id)

/-- `handle_SETUP` from the choice of the session on. -/
def setupTrack (env : Env) (req : Req) (loc : ℕ) (track : Track) (t : Bytes) (sess : ℕ)
    (id : Option Bytes) : Srv Unit := do
  let session ← derefSession sess
  if (session.ep track).isSome then rtspSendError req 461 (ascii "Unsupported Transport")
  else do
    let created ← liveSetup env sess track
    match created with
    | none => do
      rtspSendError req 404 (ascii "Not Found")
      if id.isNone then liveTeardown sess none else pure ()
    | some ep => do
      log (.endpointSet req.conn req.msg loc sess ep)
      let reply := rtspCreateReply req 200 (ascii "OK")
      let transport ← setupTransport env req.conn ep t
      match transport with
      | none => do
        rtspSendError req 461 (ascii "Unsupported Transport")
        liveTeardown sess (some ep)
      | some transport => do
        let reply := (addHeader reply (ascii "Transport") transport).1
        let id ← match id with
          | some id => pure id
          | none => newRtspSession env sess
        let reply := (addHeader reply (ascii "Session") id).1
        let _ ← tcpSendPmsg req.conn reply none

def handleSetup (env : Env) (now : ℕ) (req : Req) : Srv Unit := do
  let (found, track) ← findRtspLocation req.uri (some 256) true
  match found with
  | none => rtspSendError req 404 (ascii "Not Found")
  | some (loc, location) =>
    if h : 0 ≤ track ∧ track < 2 then do
      let allowed ← checkRealm env now req loc location
      if allowed then
        match getHeader req.msg (ascii "Transport") with
        | none => rtspSendError req 461 (ascii "Unspecified Transport")
        | some t => do
          let id := getHeader req.msg (ascii "Session")
          let chosen ← setupSession req loc location id
          match chosen with
          | none =>
            if id.isNone then rtspSendError req 404 (ascii "Not Found")
            else rtspSendError req 454 (ascii "Session Not Found")
          | some (sess, id) => setupTrack env req loc ⟨track.toNat, by omega⟩ t sess id
      else pure ()
    else rtspSendError req 404 (ascii "Not Found")

/-- `handle_PLAY`. Live sessions take no start position, so the Range header of the request changes
nothing and the reply has none. -/
def handlePlay (req : Req) : Srv Unit := do
  let rs ← getSession (getHeader req.msg (ascii "Session"))
  match rs with
  | none => rtspSendError req 454 (ascii "Session Not Found")
  | some rs => do
    livePlay rs.sess
    let reply := (addHeader (rtspCreateReply req 200 (ascii "OK")) (ascii "Session") rs.id).1
    let _ ← tcpSendPmsg req.conn reply none

/-- `handle_PAUSE`. Live sessions have no `pause`. -/
def handlePause (req : Req) : Srv Unit := do
  let rs ← getSession (getHeader req.msg (ascii "Session"))
  match rs with
  | none => rtspSendError req 454 (ascii "Session Not Found")
  | some _ => rtspSendError req 501 (ascii "Not Implemented")

def handleTeardown (req : Req) : Srv Unit := do
  let (found, track) ← findRtspLocation req.uri none true
  match found with
  | none => rtspSendError req 404 (ascii "Not Found")
  | some (loc, _) =>
    if 2 ≤ track then rtspSendError req 404 (ascii "Not Found")
    else do
      let rs ← getSession (getHeader req.msg (ascii "Session"))
      match rs with
      | none => rtspSendError req 454 (ascii "Session Not Found")
      | some rs => do
        log (.tornDown req.conn req.msg loc rs.sess)
        let reply := (addHeader (rtspCreateReply req 200 (ascii "OK")) (ascii "Session") rs.id).1
        let session ← derefSession rs.sess
        liveTeardown rs.sess
          (if h : 0 ≤ track ∧ track < 2 then session.ep ⟨track.toNat, by omega⟩ else none)
        let _ ← tcpSendPmsg req.conn reply none

/-- `rtsp_handle_msg`. Every handler returns 0. -/
def rtspHandleMsg (env : Env) (now : ℕ) (req : Req) : Srv Unit :=
  if sameNoCase req.method (ascii "OPTIONS") then handleOptions req
  else if sameNoCase req.method (ascii "DESCRIBE") then handleDescribe env now req
  else if sameNoCase req.method (ascii "SETUP") then handleSetup env now req
  else if sameNoCase req.method (ascii "PLAY") then handlePlay req
  else if sameNoCase req.method (ascii "PAUSE") then handlePause req
  else if sameNoCase req.method (ascii "TEARDOWN") then handleTeardown req
  else rtspSendError req 501 (ascii "Not Implemented")

/-! ### Interleaved frames -/

/-- `interleave_recv`: what it returns. The payload goes to RTCP processing on an RTCP channel. -/
def interleaveRecv (c : ℕ) (chan : UInt8) (payload : Bytes) : Srv ℤ := do
  let conn ← derefConn c
  if h : chan.toNat < 8 then
    match conn.protoState with
    | .null => .fault .nullTable
    | .http _ => .fault .wrongTable
    | .rtsp table =>
      match table ⟨chan.toNat, h⟩ with
      | none => return -1
      | some entry =>
        if entry.rtcp then do
          let _ ← derefEndpoint entry.ep
          log (.rtcp entry.ep payload)
          return 0
        else return 0
  else return -1

/-- `interleave_send`, with the results of the `write()` calls of `tcp_conn_flush`: true where it
returns 0. -/
def interleaveSend (c : ℕ) (chan : Channel) (data : Bytes) (results : List WriteResult) :
    Srv Bool := do
  let conn ← derefConn c
  if availSendBuf conn.out < data.length + 4 then
    modifyConn c fun conn ↦ { conn with out := (tcpConnFlush conn.out results).1 }
  else pure ()
  let conn ← derefConn c
  if availSendBuf conn.out < data.length + 4 then return false
  else do
    let _ ← sendTo c (36 :: UInt8.ofNat chan.val :: put16 data.length)
    let _ ← sendTo c data
    return true

end WisCam.Server
