import WisCam.Server.Rtsp

/-!
# HTTP requests

`http.c`: an HTTP location serves the last JPEG frame of its stream, once or as a stream of frames.
A streaming request enters its connection into the location's list of sessions, and each new frame
goes to the connections of that list.
-/

set_option autoImplicit false

namespace WisCam.Server

open Foundations Message Connection Auth

/-! ### Replies -/

def httpCreateReply (code : ℕ) (reason : Bytes) : Pmsg :=
  let (m, protoId) := addPmsgString (newPmsg 512 (.stat code none)) (ascii "HTTP/1.0")
  let (m, reasonAt) := addPmsgString m reason
  { m with protoId := protoId, sl := .stat code reasonAt }

/-- Sets `drop_after`: the connection is closed when its send buffer is empty. -/
def setDropAfter (c : ℕ) : Srv Unit :=
  modifyConn c fun conn ↦ { conn with out := { conn.out with dropAfter := true } }

def httpSendError (req : Req) (code : ℕ) (reason text : Bytes) : Srv Unit := do
  let reply := httpCreateReply code reason
  let reply := (addHeader reply (ascii "Connection") (ascii "close")).1
  let reply := (addHeader reply (ascii "Content-Type") (ascii "text/html")).1
  setDropAfter req.conn
  let sent ← tcpSendPmsg req.conn reply (some text.length)
  if sent then do
    let _ ← sendTo req.conn text
  else pure ()

/-! ### Frames -/

/-- `add_jfif`. -/
def addJfif : Bytes :=
  [0xff, 0xd8, 0xff, 0xe0, 0x00, 0x10, 0x4a, 0x46, 0x49, 0x46,
    0x00, 0x01, 0x02, 0x01, 0x00, 0x48, 0x00, 0x48, 0x00, 0x00]

def sendFrameWithJfif (location : HttpLocation) (frame : Bytes) (c : ℕ) : Srv Unit :=
  if frame.length < location.lengthWithJfif then do
    let _ ← sendTo c addJfif
    let _ ← sendTo c (frame.drop 2)
  else do
    let _ ← sendTo c frame

def sendMultipartFrame (location : HttpLocation) (frame : Bytes) (c : ℕ) : Srv Unit := do
  let hdrs := ascii "--boundary\r\nContent-Type: image/jpeg\r\nContent-Length: " ++
    decimal location.lengthWithJfif ++ ascii "\r\n\r\n"
  let conn ← derefConn c
  if availSendBuf conn.out < location.lengthWithJfif + hdrs.length then pure ()
  else do
    let _ ← sendTo c hdrs
    sendFrameWithJfif location frame c

/-- `add_http_stream_session`. An earlier session of the connection stays in its list. -/
def addHttpStreamSession (loc c : ℕ) : Srv Unit :=
  .modify fun s ↦ { s with
    httpSessions := s.httpSessions.push ⟨loc, c⟩
    conns := s.conns.modify c fun conn ↦
      { conn with protoState := .http s.httpSessions.next } }

def httpConnDisconnect (c : ℕ) : Srv Unit := do
  let conn ← derefConn c
  match conn.protoState with
  | .http session => .modify fun s ↦ { s with httpSessions := s.httpSessions.erase session }
  | .null => .fault .nullTable
  | .rtsp _ => .fault .wrongTable

/-! ### Handlers -/

def findHttpLocation (path : Bytes) : Srv (Option (ℕ × HttpLocation)) := do
  let len := if path.getLast? = some 47 then path.length - 1 else path.length
  let s ← .get
  let found := nodeFindLocation (s.httpLocs.map HttpLocation.node) path len
  return found.bind fun loc ↦ s.httpLocs[loc]?.map (loc, ·)

/-- The reply of `handle_GET` with the frame of a location. -/
def sendImage (req : Req) (loc : ℕ) (location : HttpLocation) (frame : Bytes) : Srv Unit := do
  let reply := httpCreateReply 200 (ascii "OK")
  let reply := (addHeader reply (ascii "Expires") (ascii "0")).1
  let reply := (addHeader reply (ascii "Pragma") (ascii "no-cache")).1
  let reply := (addHeader reply (ascii "Cache-Control") (ascii "no-cache")).1
  if location.streaming then do
    let reply := (addHeader reply (ascii "Content-Type")
      (ascii "multipart/x-mixed-replace;boundary=\"boundary\"")).1
    let _ ← tcpSendPmsg req.conn reply none
    addHttpStreamSession loc req.conn
    sendMultipartFrame location frame req.conn
  else do
    let reply := (addHeader reply (ascii "Connection") (ascii "close")).1
    let reply := (addHeader reply (ascii "Content-Type") (ascii "image/jpeg")).1
    setDropAfter req.conn
    let sent ← tcpSendPmsg req.conn reply (some location.lengthWithJfif)
    if sent then sendFrameWithJfif location frame req.conn else pure ()

/-- `handle_GET` of `http.c`. -/
def httpHandleGet (req : Req) : Srv Unit := do
  let found ← findHttpLocation req.uri
  match found.filter fun found ↦ req.uri.length ≤ found.2.node.path.length with
  | none =>
    httpSendError req 404 (ascii "Not Found")
      (ascii "<html><body><p>File not found</p></body></html>")
  | some (loc, location) => do
    let conn ← derefConn req.conn
    match location.frame.filter fun frame ↦ frame.length + 400 ≤ availSendBuf conn.out with
    | none =>
      httpSendError req 404 (ascii "Not Found")
        (ascii "<html><body><p>Image not available</p></body></html>")
    | some frame => sendImage req loc location frame

/-- `handle_unknown` of `http.c`. -/
def httpHandleUnknown (req : Req) : Srv Unit :=
  httpSendError req 501 (ascii "Not Implemented")
    (ascii "<html><body><p>POST requests are unsupported here</p></body></html>")

/-- `http_handle_msg`. Both handlers return 0. -/
def httpHandleMsg (req : Req) : Srv Unit :=
  if sameNoCase req.method (ascii "GET") then httpHandleGet req else httpHandleUnknown req

/-! ### New frames -/

/-- The length that a frame is announced with: 18 bytes more if it has no JFIF segment. -/
def lengthWithJfif (frame : Bytes) : ℕ :=
  if frame[3]? ≠ some 0xe0 ∨ frame[10]? ≠ some 0 ∨ cstr (frame.drop 6) ≠ ascii "JFIF" then
    frame.length + 18
  else frame.length

/-- `jpeg_next_frame` at a location. -/
def jpegNextFrame (loc : ℕ) (frame : Bytes) : Srv Unit :=
  if frame.take 3 = [0xff, 0xd8, 0xff] then do
    .modify fun s ↦ { s with
      httpLocs := s.httpLocs.modify loc fun location ↦
        { location with frame := some frame, lengthWithJfif := lengthWithJfif frame } }
    let s ← .get
    match s.httpLocs[loc]? with
    | none => pure ()
    | some location =>
      (s.httpSessions.nodes.filter fun node ↦ node.2.loc == loc).forM fun node ↦
        sendMultipartFrame location frame node.2.conn
  else pure ()

end WisCam.Server
