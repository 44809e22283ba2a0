import WisCam.Server.State

/-!
# Live sessions

`live.c` and `session.c`, with the endpoints of `rtp.c`: a session is opened on a live source, gets
an endpoint for each track that is set up, plays, and is freed with its last endpoint. Freeing an
endpoint takes it out of the channel table of its connection.
-/

set_option autoImplicit false

namespace WisCam.Server

open Foundations Message Connection Auth

/-! ### Endpoints -/

def interleaveDisconnect (conn : Conn) (chan : Channel) : Except Fault Conn :=
  match conn.protoState with
  | .null => .error .nullTable
  | .http _ => .error .wrongTable
  | .rtsp table => .ok { conn with protoState := .rtsp (Function.update table chan none) }

/-- `del_rtp_endpoint`. The stores into the channel table and the release of the endpoint are one
step. -/
def delRtpEndpoint (ep : ℕ) : Srv Unit := do
  let endpoint ← derefEndpoint ep
  match endpoint.trans with
  | .inter c rtpChan rtcpChan => do
    let conn ← derefConn c
    match interleaveDisconnect conn rtpChan >>= (interleaveDisconnect · rtcpChan) with
    | .error fault => .fault fault
    | .ok conn => .modify fun s ↦
      { s with conns := s.conns.modify c fun _ ↦ conn, endpoints := s.endpoints.erase ep }
  | _ => .modify fun s ↦ { s with endpoints := s.endpoints.erase ep }

/-- `new_rtp_endpoint`, with the session and the transfer size that `live_setup` stores in it. -/
def newRtpEndpoint (env : Env) (payload : ℕ) (sess : ℕ) (maxDataSize : ℤ) : Srv ℕ := do
  let ssrc ← randomBytes env 4
  let startTimestamp ← randomBytes env 4
  let seqnum ← randomBytes env 2
  let s ← .get
  .modify fun s ↦ { s with
    endpoints := s.endpoints.push
      ⟨sess, payload, maxDataSize, ssrc, startTimestamp, seqnum, .unset⟩ }
  return s.endpoints.next

/-! ### Sessions -/

/-- `rtsp_session_close`, for the RTSP session that controls a session. -/
def rtspSessionClose (rs : ℕ) : Srv Unit :=
  .modify fun s ↦ { s with rtspSessions := s.rtspSessions.erase rs }

def delSession (sess : ℕ) : Srv Unit := do
  let session ← derefSession sess
  match session.control with
  | some rs => rtspSessionClose rs
  | none => pure ()
  .modify fun s ↦ { s with sessions := s.sessions.erase sess }

/-- `live_open`, for a request and through a location. -/
def liveOpen (c : ℕ) (msg : Pmsg) (loc : ℕ) (location : RtspLocation) : Srv (Option ℕ) := do
  let source ← derefSource location.source
  if source.maxConnNum ≤ source.curConn then return none
  else do
    let s ← .get
    .modify fun s ↦ { s with
      sessions := s.sessions.push ⟨location.source, false, fun _ ↦ none, none⟩
      trace := s.trace ++ [.opened c msg loc s.sessions.next] }
    return some s.sessions.next

/-- The port that `live_get_sdp` announces for a track. -/
def sdpPort (s : State) (session : Session) (t : ℕ) : ℕ :=
  match (if h : t < 2 then session.ep ⟨t, h⟩ else none).bind s.endpoints.get? with
  | some endpoint => match endpoint.trans with
    | .udp _ port => port
    | _ => 0
  | none => 0

/-- The address that `live_get_sdp` announces. -/
def sdpAddr (s : State) (session : Session) : Bytes :=
  match (session.ep 0).bind s.endpoints.get? with
  | some endpoint => match endpoint.trans with
    | .udp addr _ => addr
    | _ => ascii "IP4 0.0.0.0"
  | none => ascii "IP4 0.0.0.0"

/-- The lines of `live_get_sdp` for the tracks from `t` on, if all of them are ready. -/
def trackSdp (s : State) (session : Session) : ℕ → List LiveTrack → Option Bytes
  | _, [] => some []
  | t, track :: tracks =>
    if track.ready then do
      let rest ← trackSdp s session (t + 1) tracks
      let port := sdpPort s session t
      return track.media.getSdp (96 + t) port ++
        (if port = 0 then ascii "a=control:track" ++ decimal t ++ ascii "\r\n" else []) ++ rest
    else none

/-- `live_get_sdp`: the session description, or `none` where it returns 0. -/
def liveGetSdp (s : State) (session : Session) (source : LiveSource) : Option Bytes :=
  if source.tracks = [] then none
  else (trackSdp s session 0 source.tracks).map fun tracks ↦
    ascii "v=0\r\no=- 1 1 IN IP4 127.0.0.1\r\ns=Test\r\na=type:broadcast\r\nt=0 0\r\nc=IN " ++
      sdpAddr s session ++ ascii "\r\n" ++ tracks

/-- `live_setup`: the new endpoint, or `none` where it returns -1. -/
def liveSetup (env : Env) (sess : ℕ) (t : Track) : Srv (Option ℕ) := do
  let session ← derefSession sess
  let source ← derefSource session.source
  match source.tracks[t.val]? with
  | none => return none
  | some track => do
    let ep ← newRtpEndpoint env (track.media.getPayload (96 + t.val)) sess source.maxRtpTransSize
    modifySession sess fun session ↦ { session with ep := Function.update session.ep t (some ep) }
    return some ep

/-- `set_waiting` on the stream of a track. -/
def setWaiting (source : ℕ) (t : Track) (waiting : Bool) : Srv Unit :=
  modifySource source (·.modifyTrack t fun track ↦ { track with waiting := waiting })

/-- The tracks of a source, as the loops over them see them. -/
def LiveSource.trackList (source : LiveSource) : List Track :=
  (List.finRange 2).filter fun t ↦ t.val < source.tracks.length

def livePlay (sess : ℕ) : Srv Unit := do
  let session ← derefSession sess
  let source ← derefSource session.source
  modifySession sess fun session ↦ { session with playing := true }
  modifySource session.source fun source ↦
    { source with curConn := (source.curConn + 1) % 2 ^ 32 }
  source.trackList.forM fun t ↦
    if (session.ep t).isSome then setWaiting session.source t true else pure ()

def trackCheckRunning (source : ℕ) (t : Track) : Srv Unit := do
  let s ← .get
  if s.sessions.nodes.any fun node ↦
      node.2.source == source && node.2.playing && (node.2.ep t).isSome then pure ()
  else setWaiting source t false

/-- One round of the loop of `live_teardown`. -/
def teardownTrack (sess : ℕ) (ep : Option ℕ) (t : Track) : Srv Unit := do
  let session ← derefSession sess
  match session.ep t with
  | none => pure ()
  | some own =>
    if ep = none ∨ ep = some own then do
      delRtpEndpoint own
      modifySession sess fun session ↦ { session with ep := Function.update session.ep t none }
      trackCheckRunning session.source t
    else pure ()

/-- `live_teardown`: an endpoint of a session, or all of them, and the session with the last one. -/
def liveTeardown (sess : ℕ) (ep : Option ℕ) : Srv Unit := do
  let session ← derefSession sess
  let source ← derefSource session.source
  source.trackList.forM (teardownTrack sess ep)
  let session ← derefSession sess
  if source.trackList.all fun t ↦ (session.ep t).isNone then do
    modifySource session.source fun source ↦
      if 0 < source.curConn ∧ session.playing then { source with curConn := source.curConn - 1 }
      else source
    delSession sess
  else pure ()

end WisCam.Server
