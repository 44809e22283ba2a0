import WisCam.Server.Steps

/-!
# The local arrays of DESCRIBE and SETUP

`handle_DESCRIBE` and `handle_SETUP` have the path of the URI copied into an array of 256 bytes, and
`handle_DESCRIBE` prints the URI with a slash into an array of 512 bytes. Neither compares a length,
and a request buffer has room for much longer URIs. The copies stay within the arrays for every
configuration and every state exactly if the URI is short enough (`UriFits`): the footprint of the
handlers names `overflow` as a possible fault for other URIs only, and for any other URI there is a
server in which DESCRIBE overruns an array.

The copy of the path is made before a location is looked for, so a path that is too long does its
damage in every configuration. The header is printed only once a location with that path is found.
-/

set_option autoImplicit false

namespace WisCam.Server

open Foundations Message Connection Auth Program

variable {env : Env} {s : State} {uri path : Bytes}

/-! ### Requests that fit -/

/-- Handling a request on an RTSP connection writes inside the arrays of the handler, for every
configuration and in every state that a run leads to. -/
def WritesInRange (handler : Env → ℕ → Req → Srv Unit) (msg : Pmsg) (method uri : ℕ) : Prop :=
  ∀ (env : Env) (config : Config) (s : State) (now c : ℕ) (conn : Conn), Reachable env config s →
    s.conns.get? c = some conn → conn.reader.proto = .rtsp →
      (handler env now ⟨c, msg, msg.text method, msg.text uri⟩ s).1 ≠ .error .overflow

/-- A function that may stop at faults of pointers only does not overrun an array. -/
theorem ne_overflow_of_makes {R : State → State → Prop} {m : Srv Unit}
    (hm : Makes R (May fun _ ↦ False) m s) :
    (m s).1 ≠ .error .overflow := by
  intro hfault
  rcases hm.faults .overflow hfault with hpointer | hnamed
  · exact hpointer
  · exact hnamed

theorem writesInRange_of_uriFits {msg : Pmsg} {method uri : ℕ} (hsl : msg.sl = .req method uri)
    (hfits : UriFits (msg.text uri)) :
    WritesInRange handleDescribe msg method uri ∧ WritesInRange handleSetup msg method uri := by
  constructor
  · intro env config s now c conn _ _ _
    exact ne_overflow_of_makes
      (handleDescribe_makes ⟨method, uri, hsl, rfl, rfl⟩ fun h ↦ h hfits)
  · intro env config s now c conn hreachable hconn hproto
    exact ne_overflow_of_makes
      (handleSetup_makes ⟨method, uri, hsl, rfl, rfl⟩ (.of_get? hconn hproto)
        hreachable.tableRecorded fun h ↦ h hfits)

/-! ### Servers in which a request does not fit -/

/-- The first line of a request. -/
def firstLine : Bytes := ascii "OPTIONS * RTSP/1.0\r\n"

/-- The connection of a client that has sent the first line of a request. -/
def greetedConn (env : Env) : Conn :=
  ⟨some 3, none, false, ⟨.rtsp, -1, firstLine⟩, [], freshSendSide env.cells, .null⟩

/-- The server of that client. -/
def greeted (env : Env) (config : Config) : State :=
  { initial config with conns := .push .empty (greetedConn env) }

theorem reachable_greeted (env : Env) (config : Config) :
    Reachable env config (greeted env config) :=
  ⟨[.accept 3, .read 0 false 0 firstLine], rfl⟩

/-- An open location with the given path. -/
def locationAt (path : Bytes) : RtspLocation := ⟨⟨path, fun _ ↦ 0⟩, [], [], [], 0⟩

/-- A server with a single location. -/
def serving (path : Bytes) : Config := ⟨[locationAt path], [], [sampleSource]⟩

theorem locationPath_whole (hpath : getLocalPath uri = some path) :
    locationPath uri false = some (path, trimSlash path path.length, -1) := by
  rw [locationPath, hpath]
  rfl

/-- A path that is too long overruns the array in every state. -/
theorem handleDescribe_long_path {now : ℕ} {req : Req} (hpath : getLocalPath req.uri = some path)
    (hlong : 256 ≤ trimSlash path path.length) :
    (handleDescribe env now req s).1 = .error .overflow := by
  have hover : (some 256).any (· ≤ trimSlash path path.length) = true := decide_eq_true hlong
  have hfind : findRtspLocation req.uri (some 256) false s = (.error .overflow, s) := by
    rw [findRtspLocation, locationPath_whole hpath]
    dsimp only
    rw [if_pos hover]
    rfl
  rw [handleDescribe, bind_apply, hfind]

theorem LocNode.byteAt_length (node : LocNode) : node.byteAt node.path.length = 0 := by
  rw [LocNode.byteAt, List.getElem?_eq_none (Nat.le_refl _)]
  exact if_pos rfl

theorem nodeFindLocation_self {node : LocNode} {len : ℕ} (hlen : len ≤ path.length)
    (hnode : node.path = path.take len) : nodeFindLocation [node] path len = some 0 := by
  have hlength : node.path.length = len := by
    rw [hnode, List.length_take_of_le hlen]
  have hsame : sameFirst len path node.path = true := by
    rw [hnode, sameFirst, List.take_take, Nat.min_self]
    exact beq_self_eq_true _
  have hbyte : node.byteAt len = 0 := by
    rw [← hlength]
    exact node.byteAt_length
  rw [nodeFindLocation, List.findIdx?_cons, hlength, hsame, hbyte]
  rfl

/-- The location with the path of a URI is found, if the path fits. -/
theorem findRtspLocation_serving (hpath : getLocalPath uri = some path)
    (hshort : trimSlash path path.length < 256) :
    let whole := path.take (trimSlash path path.length)
    findRtspLocation uri (some 256) false (greeted env (serving whole)) =
      (.ok (some (0, locationAt whole), -1), greeted env (serving whole)) := by
  have hlen : trimSlash path path.length ≤ path.length := by
    unfold trimSlash
    split <;> omega
  have hroom : ¬ (some 256).any (· ≤ trimSlash path path.length) = true := fun hover ↦
    absurd hshort (Nat.not_lt.mpr (of_decide_eq_true hover))
  rw [findRtspLocation, locationPath_whole hpath]
  dsimp only
  rw [if_neg hroom, get_bind_apply]
  change (Except.ok ((nodeFindLocation [_] path _).bind _, _), _) = _
  rw [nodeFindLocation_self hlen rfl]
  rfl

/-- A URI that is too long overruns the other array where its location exists. -/
theorem handleDescribe_long_uri {now : ℕ} {req : Req} (hpath : getLocalPath req.uri = some path)
    (hshort : trimSlash path path.length < 256) (hlong : 512 ≤ req.uri.length + 1) :
    (handleDescribe env now req
      (greeted env (serving (path.take (trimSlash path path.length))))).1 = .error .overflow := by
  have hsend (sdp : Bytes) : sendDescription req sdp = .fault .overflow := by
    rw [sendDescription]
    exact if_pos (by rwa [List.length_append])
  rw [handleDescribe, bind_apply, findRtspLocation_serving hpath hshort]
  -- The session is opened and described before the header is printed.
  change ((sendDescription req _ >>= fun _ ↦ liveTeardown 0 none) _).1 = _
  rw [hsend]
  rfl

theorem uriFits_of_writesInRange {msg : Pmsg} {method uri : ℕ}
    (hrange : WritesInRange handleDescribe msg method uri) : UriFits (msg.text uri) := by
  intro path hpath
  have hgreeted (config : Config) := hrange sampleEnv config (greeted sampleEnv config) 0 0
    (greetedConn sampleEnv) (reachable_greeted sampleEnv config) rfl rfl
  by_contra hlarge
  by_cases hshort : trimSlash path path.length < 256
  · have hlong : 512 ≤ (msg.text uri).length + 1 := Nat.not_lt.mp fun h ↦ hlarge ⟨hshort, h⟩
    exact hgreeted _ (handleDescribe_long_uri hpath hshort hlong)
  · exact hgreeted ⟨[], [], []⟩ (handleDescribe_long_path hpath (Nat.not_lt.mp hshort))

/-! ### The result -/

/-- DESCRIBE and SETUP write inside their arrays, for every configuration and in every state that a
run leads to, exactly if the URI of the request fits.

Assumes: the message is a request, with these offsets of its method and its URI. -/
theorem local_writes_in_range_iff (msg : Pmsg) (method uri : ℕ) (hsl : msg.sl = .req method uri) :
    WritesInRange handleDescribe msg method uri ∧ WritesInRange handleSetup msg method uri ↔
      UriFits (msg.text uri) :=
  ⟨fun h ↦ uriFits_of_writesInRange h.1, writesInRange_of_uriFits hsl⟩

/-- A request with a short URI. -/
def shortRequest : Pmsg := sampleMessage (ascii "DESCRIBE rtsp://h/open RTSP/1.0\r\n\r\n")

/-- The request was parsed, and its URI fits. -/
theorem local_writes_in_range_short :
    shortRequest.sl = .req 0 9 ∧ shortRequest.text 9 = ascii "rtsp://h/open" ∧
      WritesInRange handleDescribe shortRequest 0 9 ∧
      WritesInRange handleSetup shortRequest 0 9 := by
  have hsl : shortRequest.sl = .req 0 9 := by decide +kernel
  exact ⟨hsl, by decide +kernel,
    (local_writes_in_range_iff shortRequest 0 9 hsl).mpr (by decide +kernel)⟩

/-- A client connects and sends a request without headers. -/
def requestEvents (method uri : Bytes) : List Event :=
  [.accept 3, .read 0 false 0 (method ++ [32] ++ uri ++ ascii " RTSP/1.0\r\n\r\n")]

/-- A path of 301 bytes overruns the array for the path in both handlers, and a URI of 612 bytes
with the path of a location overruns the array for the header. -/
theorem local_arrays_overrun :
    (sampleRun (requestEvents (ascii "DESCRIBE")
        (ascii "rtsp://h/" ++ List.replicate 300 97))).1 = .error .overflow ∧
      (sampleRun (requestEvents (ascii "SETUP")
        (ascii "rtsp://h/" ++ List.replicate 300 97))).1 = .error .overflow ∧
      (sampleRun (requestEvents (ascii "DESCRIBE")
        (ascii "rtsp://" ++ List.replicate 600 104 ++ ascii "/open"))).1 = .error .overflow := by
  decide +kernel

end WisCam.Server
