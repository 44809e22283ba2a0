import WisCam.Server.Tcp

/-!
# What the server does to its state

`Effect` lists the changes that the functions of the server make to the state, one constructor for
each kind of change with what the code has checked at that point. An entry of the history is written
together with the change it records, or on its own if it is justified (`Justified`).

The facts about the history that later changes keep are collected here: the history only grows, the
locations stay as configured, a connection that speaks RTSP keeps doing so, and every RTSP session
in the table has been recorded as registered.
-/

set_option autoImplicit false

namespace WisCam.Server

open Foundations Message Connection Auth

/-! ### Justified entries -/

/-- The location that the URI of a request resolves to, with the track suffix removed. -/
def Resolves (locs : List RtspLocation) (msg : Pmsg) (loc : ℕ) : Prop :=
  ∃ method uri path len track, msg.sl = .req method uri ∧
    locationPath (msg.text uri) true = some (path, len, track) ∧
    nodeFindLocation (locs.map RtspLocation.node) path len = some loc

/-- The request passes the digest check of a location, at some time and for the secret that the
server has then. -/
def PassesCheck (env : Env) (locs : List RtspLocation) (msg : Pmsg) (loc : ℕ) : Prop :=
  ∃ location method uri secret now, locs[loc]? = some location ∧ msg.sl = .req method uri ∧
    0 < checkDigestResponse env.md5 secret now msg (msg.text method) (msg.text uri) location.realm
      location.username location.password

/-- What a SETUP request has been through when it creates an endpoint in a session: the digest check
of the location it names, and the opening of the session or its search by id. -/
structure SetupAllowed (locs : List RtspLocation) (history : List Obs) (c : ℕ) (msg : Pmsg)
    (loc sess : ℕ) : Prop where
  resolves : Resolves locs msg loc
  verified : ∀ location, locs[loc]? = some location → location.realm ≠ [] →
    .verified c msg loc ∈ history
  opened : getHeader msg (ascii "Session") = none → .opened c msg loc sess ∈ history
  registered : ∀ id, getHeader msg (ascii "Session") = some id → .registered sess id ∈ history

/-- What a TEARDOWN request has been through when it acts on a session. -/
structure TeardownAllowed (locs : List RtspLocation) (history : List Obs) (msg : Pmsg)
    (loc sess : ℕ) : Prop where
  resolves : Resolves locs msg loc
  registered : ∃ id, getHeader msg (ascii "Session") = some id ∧ .registered sess id ∈ history

/-- A tunnel request, by its method and the header that marks it. -/
structure TunnelRequest (msg : Pmsg) (method name : Bytes) : Prop where
  method : ∃ at' uri, msg.sl = .req at' uri ∧ sameNoCase (msg.text at') method = true
  marked : isTunnel msg name = true

/-- The entries that are written on their own, and when. -/
def Justified (env : Env) (s : State) : Obs → Prop
  | .handed _ buf msg => parseRequest buf = .ok msg
  | .rtcp ep _ => ∃ endpoint, s.endpoints.get? ep = some endpoint
  | .verified _ msg loc => PassesCheck env s.rtspLocs msg loc
  | .endpointSet c msg loc sess _ => SetupAllowed s.rtspLocs s.trace c msg loc sess
  | .tornDown _ msg loc sess => TeardownAllowed s.rtspLocs s.trace msg loc sess
  | _ => False

/-! ### Effects -/

/-- A store into a connection that leaves its cookie and its protocol state alone, and its send
buffer intact. The protocol is chosen once, or changed to RTSP. -/
structure KeepsState (s : State) (c : ℕ) (f : Conn → Conn) : Prop where
  out : ∀ conn, conn.out.Wf → (f conn).out.Wf
  cookie : ∀ conn, (f conn).httpTunnelCookie = conn.httpTunnelCookie
  protoState : ∀ conn, (f conn).protoState = conn.protoState
  proto : ∀ conn, s.conns.get? c = some conn →
    (f conn).reader.proto = conn.reader.proto ∨ (f conn).reader.proto = .rtsp ∨
      conn.reader.proto = .start

/-- The changes that the functions of the server make. -/
inductive Effect (env : Env) : State → State → Prop
  | conn {s : State} (c : ℕ) (f : Conn → Conn) (hkeeps : KeepsState s c f) :
      Effect env s { s with conns := s.conns.modify c f }
  | accepted {s : State} (fd : ℕ) :
      Effect env s { s with
        conns := s.conns.push
          ⟨some fd, none, false, freshReader, [], freshSendSide env.cells, .null⟩ }
  | dropped {s : State} (c : ℕ) : Effect env s { s with conns := s.conns.erase c }
  | tunnelGet {s : State} (c : ℕ) (buf : Bytes) (msg : Pmsg) (cookie : Bytes)
      (hhanded : .handed c buf msg ∈ s.trace)
      (htunnel : TunnelRequest msg (ascii "GET") (ascii "Accept"))
      (hcookie : sessionCookie msg = some cookie) :
      Effect env s { s with
        conns := s.conns.modify c fun conn ↦ { conn with httpTunnelCookie := cookie }
        trace := s.trace ++ [.tunnelGet c cookie] }
  | tunnelPost {s : State} (c : ℕ) (buf : Bytes) (msg : Pmsg) (cookie : Bytes) (target : ℕ)
      (cg : Conn) (fd : Option ℕ) (hhanded : .handed c buf msg ∈ s.trace)
      (htunnel : TunnelRequest msg (ascii "POST") (ascii "Content-Type"))
      (hcookie : sessionCookie msg = some cookie) (htarget : s.conns.get? target = some cg)
      (hsame : cg.httpTunnelCookie = cookie) :
      Effect env s { s with
        conns := (s.conns.modify target fun cg ↦
          { cg with secondFd := fd, secondReadEvent := true }).modify c fun conn ↦
            { conn with fd := none }
        trace := s.trace ++ [.tunnelPost c msg cookie target] }
  | streamAdded {s : State} (loc c : ℕ)
      (hproto : ∀ conn, s.conns.get? c = some conn → conn.reader.proto = .http) :
      Effect env s { s with
        httpSessions := s.httpSessions.push ⟨loc, c⟩
        conns := s.conns.modify c fun conn ↦
          { conn with protoState := .http s.httpSessions.next } }
  | streamRemoved {s : State} (session : ℕ) :
      Effect env s { s with httpSessions := s.httpSessions.erase session }
  | endpointAdded {s : State} (endpoint : Endpoint) (hunset : endpoint.trans = .unset)
      (hallowed : ∃ c msg loc, SetupAllowed s.rtspLocs s.trace c msg loc endpoint.session) :
      Effect env s { s with endpoints := s.endpoints.push endpoint }
  | udpConnected {s : State} (ep : ℕ) (endpoint : Endpoint) (addr : Bytes) (port : ℕ)
      (hep : s.endpoints.get? ep = some endpoint) (hunset : endpoint.trans = .unset) :
      Effect env s { s with
        endpoints := s.endpoints.modify ep fun endpoint ↦
          { endpoint with trans := .udp addr port } }
  | wired {s : State} (c ep : ℕ) (conn : Conn) (endpoint : Endpoint) (table : ChannelTable)
      (rtp rtcp : Channel) (hconn : s.conns.get? c = some conn)
      (hproto : conn.reader.proto = .rtsp)
      (htable : conn.protoState = .null ∧ table = (fun _ ↦ none) ∨
        conn.protoState = .rtsp table)
      (hep : s.endpoints.get? ep = some endpoint) (hunset : endpoint.trans = .unset)
      (hrtp : table rtp = none) (hrtcp : table rtcp = none) (hne : rtp ≠ rtcp) :
      Effect env s { s with
        conns := s.conns.modify c fun conn ↦ { conn with
          protoState := .rtsp (Function.update (Function.update table rtp (some ⟨ep, false⟩))
            rtcp (some ⟨ep, true⟩)) }
        endpoints := s.endpoints.modify ep fun endpoint ↦
          { endpoint with trans := .inter c rtp rtcp } }
  | unwired {s : State} (c ep : ℕ) (conn : Conn) (endpoint : Endpoint) (table : ChannelTable)
      (rtp rtcp : Channel) (hconn : s.conns.get? c = some conn)
      (htable : conn.protoState = .rtsp table) (hep : s.endpoints.get? ep = some endpoint)
      (htrans : endpoint.trans = .inter c rtp rtcp) :
      Effect env s { s with
        conns := s.conns.modify c fun _ ↦ { conn with
          protoState := .rtsp (Function.update (Function.update table rtp none) rtcp none) }
        endpoints := s.endpoints.erase ep }
  | endpointFreed {s : State} (ep : ℕ) (endpoint : Endpoint)
      (hep : s.endpoints.get? ep = some endpoint)
      (htrans : ∀ c rtp rtcp, endpoint.trans ≠ .inter c rtp rtcp) :
      Effect env s { s with endpoints := s.endpoints.erase ep }
  | sessionOpened {s : State} (c : ℕ) (msg : Pmsg) (loc source : ℕ) :
      Effect env s { s with
        sessions := s.sessions.push ⟨source, false, fun _ ↦ none, none⟩
        trace := s.trace ++ [.opened c msg loc s.sessions.next] }
  | session {s : State} (sess : ℕ) (f : Session → Session) :
      Effect env s { s with sessions := s.sessions.modify sess f }
  | sessionRemoved {s : State} (sess : ℕ) :
      Effect env s { s with sessions := s.sessions.erase sess }
  | registered {s : State} (sess : ℕ) (id : Bytes)
      (hopened : ∃ c msg loc, .opened c msg loc sess ∈ s.trace) :
      Effect env s { s with
        rtspSessions := s.rtspSessions.push ⟨id, sess⟩
        sessions := s.sessions.modify sess fun session ↦
          { session with control := some s.rtspSessions.next }
        trace := s.trace ++ [.registered sess id] }
  | unregistered {s : State} (rs : ℕ) :
      Effect env s { s with rtspSessions := s.rtspSessions.erase rs }
  | source {s : State} (source : ℕ) (f : LiveSource → LiveSource) :
      Effect env s { s with sources := s.sources.modify source f }
  | httpLocation {s : State} (loc : ℕ) (f : HttpLocation → HttpLocation) :
      Effect env s { s with httpLocs := s.httpLocs.modify loc f }
  | udpTried {s : State} : Effect env s { s with udpPos := s.udpPos + 1 }
  | random {s : State} (len : ℕ) : Effect env s { s with randomPos := s.randomPos + len }
  | secret {s : State} (secret : Bytes) : Effect env s { s with secret := some secret }
  | logged {s : State} (obs : Obs) (hjustified : Justified env s obs) :
      Effect env s { s with trace := s.trace ++ [obs] }

variable {env : Env} {s s' : State}

/-- A sequence of effects. -/
abbrev Effects (env : Env) : State → State → Prop := Relation.ReflTransGen (Effect env)

/-! ### What later effects keep -/

/-- The entries that an effect itself adds to the history, and when. -/
def Recorded (env : Env) (s : State) : Obs → Prop
  | .tunnelGet c cookie => ∃ buf msg, .handed c buf msg ∈ s.trace ∧
      TunnelRequest msg (ascii "GET") (ascii "Accept") ∧ sessionCookie msg = some cookie
  | .tunnelPost c msg cookie target => (∃ buf, .handed c buf msg ∈ s.trace) ∧
      TunnelRequest msg (ascii "POST") (ascii "Content-Type") ∧ sessionCookie msg = some cookie ∧
      ∃ cg, s.conns.get? target = some cg ∧ cg.httpTunnelCookie = cookie
  | .opened _ _ _ sess => sess = s.sessions.next
  | .registered sess _ => ∃ c msg loc, .opened c msg loc sess ∈ s.trace
  | obs => Justified env s obs

theorem recorded_of_justified {obs : Obs} (hjustified : Justified env s obs) :
    Recorded env s obs := by
  cases obs with
  | tunnelGet => exact hjustified.elim
  | tunnelPost => exact hjustified.elim
  | opened => exact hjustified.elim
  | registered => exact hjustified.elim
  | _ => exact hjustified

/-- An effect adds at most one entry to the history. -/
theorem Effect.trace_eq (heffect : Effect env s s') :
    s'.trace = s.trace ∨ ∃ obs, s'.trace = s.trace ++ [obs] ∧ Recorded env s obs := by
  cases heffect with
  | tunnelGet c buf msg cookie hhanded htunnel hcookie =>
    exact .inr ⟨_, rfl, buf, msg, hhanded, htunnel, hcookie⟩
  | tunnelPost c buf msg cookie target cg fd hhanded htunnel hcookie htarget hsame =>
    exact .inr ⟨_, rfl, ⟨buf, hhanded⟩, htunnel, hcookie, cg, htarget, hsame⟩
  | sessionOpened => exact .inr ⟨_, rfl, rfl⟩
  | registered sess id hopened => exact .inr ⟨_, rfl, hopened⟩
  | logged obs hjustified => exact .inr ⟨obs, rfl, recorded_of_justified hjustified⟩
  | _ => exact .inl rfl

theorem mem_trace_of_effects {obs : Obs} (heffects : Effects env s s') (hmem : obs ∈ s.trace) :
    obs ∈ s'.trace := by
  refine holds_of_steps (I := fun s ↦ obs ∈ s.trace) (fun heffect hmem ↦ ?_) heffects hmem
  rcases heffect.trace_eq with hsame | ⟨obs', hadded, -⟩
  · rw [hsame]
    exact hmem
  · rw [hadded]
    exact List.mem_append_left _ hmem

theorem rtspLocs_of_effects (heffects : Effects env s s') : s'.rtspLocs = s.rtspLocs := by
  induction heffects with
  | refl => rfl
  | tail _ heffect ih => cases heffect <;> exact ih

variable {c : ℕ}

theorem SetupAllowed.of_effects {msg : Pmsg} {loc sess : ℕ} (heffects : Effects env s s')
    (hallowed : SetupAllowed s.rtspLocs s.trace c msg loc sess) :
    SetupAllowed s'.rtspLocs s'.trace c msg loc sess := by
  rw [rtspLocs_of_effects heffects]
  exact ⟨hallowed.resolves,
    fun location hloc hrealm ↦
      mem_trace_of_effects heffects (hallowed.verified location hloc hrealm),
    fun hnone ↦ mem_trace_of_effects heffects (hallowed.opened hnone),
    fun id hid ↦ mem_trace_of_effects heffects (hallowed.registered id hid)⟩

/-! ### Connections -/

/-- What is known of a connection after a store into one. -/
theorem get?_conns_modify {conns : NodeTable Conn} {c' : ℕ} {f : Conn → Conn} {conn : Conn}
    (hget : (conns.modify c f).get? c' = some conn) :
    ∃ old, conns.get? c' = some old ∧ (c' = c ∧ conn = f old ∨ c' ≠ c ∧ conn = old) := by
  rw [NodeTable.get?_modify] at hget
  by_cases hhere : c' = c
  · rw [if_pos hhere] at hget
    obtain ⟨old, hold, rfl⟩ := Option.map_eq_some_iff.mp hget
    exact ⟨old, hold, .inl ⟨hhere, rfl⟩⟩
  · rw [if_neg hhere] at hget
    exact ⟨conn, hget, .inr ⟨hhere, rfl⟩⟩

/-- How a connection looks after an effect: its send buffer is still in order, its protocol is the
same, or has become RTSP, or is chosen now, and its cookie is the same or is recorded. -/
structure Follows (history : List Obs) (c : ℕ) (conn conn' : Conn) : Prop where
  out : conn.out.Wf → conn'.out.Wf
  proto : conn'.reader.proto = conn.reader.proto ∨ conn'.reader.proto = .rtsp ∨
    conn.reader.proto = .start
  cookie : conn'.httpTunnelCookie = conn.httpTunnelCookie ∨
    .tunnelGet c conn'.httpTunnelCookie ∈ history

theorem Follows.refl (history : List Obs) (c : ℕ) (conn : Conn) : Follows history c conn conn :=
  ⟨id, .inl rfl, .inl rfl⟩

/-- A connection after an effect is a new one or was there before. -/
theorem Effect.conn_eq (heffect : Effect env s s') {conn' : Conn}
    (hget : s'.conns.get? c = some conn') :
    c = s.conns.next ∧ conn'.httpTunnelCookie = [] ∧ conn'.out.Wf ∨
      ∃ conn, s.conns.get? c = some conn ∧ Follows s'.trace c conn conn' := by
  cases heffect with
  | accepted =>
    rw [NodeTable.get?_push] at hget
    by_cases hnew : c = s.conns.next
    · rw [if_pos hnew] at hget
      obtain rfl := Option.some.inj hget
      exact .inl ⟨hnew, rfl, wf_freshSendSide env.cells⟩
    · rw [if_neg hnew] at hget
      exact .inr ⟨_, hget, .refl ..⟩
  | dropped c' =>
    rw [NodeTable.get?_erase] at hget
    split_ifs at hget
    exact .inr ⟨_, hget, .refl ..⟩
  | conn c' f hkeeps =>
    obtain ⟨old, hold, ⟨rfl, rfl⟩ | ⟨-, rfl⟩⟩ := get?_conns_modify hget
    · exact .inr ⟨old, hold, hkeeps.out old, hkeeps.proto old hold, .inl (hkeeps.cookie old)⟩
    · exact .inr ⟨_, hold, .refl ..⟩
  | tunnelGet =>
    obtain ⟨old, hold, ⟨rfl, rfl⟩ | ⟨-, rfl⟩⟩ := get?_conns_modify hget
    · exact .inr ⟨old, hold, id, .inl rfl,
        .inr (List.mem_append_right _ (List.mem_singleton_self _))⟩
    · exact .inr ⟨_, hold, .refl ..⟩
  | tunnelPost =>
    -- The two stores may be into one connection.
    obtain ⟨mid, hmid, hsecond⟩ := get?_conns_modify hget
    obtain ⟨old, hold, hfirst⟩ := get?_conns_modify hmid
    refine .inr ⟨old, hold, ?_⟩
    rcases hsecond with ⟨-, rfl⟩ | ⟨-, rfl⟩ <;> rcases hfirst with ⟨-, rfl⟩ | ⟨-, rfl⟩ <;>
      exact ⟨id, .inl rfl, .inl rfl⟩
  | unwired c' ep conn endpoint table rtp rtcp hconn htable hep htrans =>
    obtain ⟨old, hold, ⟨rfl, rfl⟩ | ⟨-, rfl⟩⟩ := get?_conns_modify hget
    · exact .inr ⟨conn, hconn, id, .inl rfl, .inl rfl⟩
    · exact .inr ⟨_, hold, .refl ..⟩
  | streamAdded | wired =>
    obtain ⟨old, hold, ⟨rfl, rfl⟩ | ⟨-, rfl⟩⟩ := get?_conns_modify hget
    · exact .inr ⟨old, hold, id, .inl rfl, .inl rfl⟩
    · exact .inr ⟨_, hold, .refl ..⟩
  | _ => exact .inr ⟨_, hget, .refl ..⟩

theorem Effect.next_conns_le (heffect : Effect env s s') : s.conns.next ≤ s'.conns.next := by
  cases heffect with
  | accepted => exact Nat.le_succ _
  | _ => exact Nat.le_refl _

/-- An address whose connection, if it is still there, speaks RTSP. -/
structure SpeaksRtsp (s : State) (c : ℕ) : Prop where
  used : c < s.conns.next
  proto : ∀ conn, s.conns.get? c = some conn → conn.reader.proto = .rtsp

theorem SpeaksRtsp.of_get? {conn : Conn} (hconn : s.conns.get? c = some conn)
    (hproto : conn.reader.proto = .rtsp) : SpeaksRtsp s c := by
  refine ⟨NodeTable.lt_next_of_get? hconn, fun conn' hget ↦ ?_⟩
  rw [Option.some.inj (hget.symm.trans hconn)]
  exact hproto

theorem speaksRtsp_of_effects (heffects : Effects env s s') (hspeaks : SpeaksRtsp s c) :
    SpeaksRtsp s' c := by
  refine holds_of_steps (I := (SpeaksRtsp · c)) (fun heffect hbefore ↦ ⟨?_, ?_⟩) heffects hspeaks
  · exact Nat.lt_of_lt_of_le hbefore.used heffect.next_conns_le
  · intro conn' hget
    rcases heffect.conn_eq hget with ⟨hnew, -⟩ | ⟨conn, hconn, hfollows⟩
    · exact absurd hnew (Nat.ne_of_lt hbefore.used)
    · have hrtsp := hbefore.proto conn hconn
      rcases hfollows.proto with hsame | hnow | hstart
      · exact hsame.trans hrtsp
      · exact hnow
      · exact absurd (hrtsp.symm.trans hstart) nofun

/-- A cookie of a connection that is not empty was stored by a tunnel GET. -/
def CookiesRecorded (s : State) : Prop :=
  ∀ c conn, s.conns.get? c = some conn → conn.httpTunnelCookie ≠ [] →
    .tunnelGet c conn.httpTunnelCookie ∈ s.trace

theorem cookiesRecorded_of_effects (heffects : Effects env s s') (hbefore : CookiesRecorded s) :
    CookiesRecorded s' := by
  refine holds_of_steps (I := CookiesRecorded) (fun heffect hbefore ↦ ?_) heffects hbefore
  intro c conn' hget hcookie
  rcases heffect.conn_eq hget with ⟨-, hempty, -⟩ | ⟨conn, hconn, hfollows⟩
  · exact absurd hempty hcookie
  · rcases hfollows.cookie with hsame | hnow
    · rw [hsame] at hcookie ⊢
      exact mem_trace_of_effects (.single heffect) (hbefore c conn hconn hcookie)
    · exact hnow

/-- The send buffers of all connections are in order. -/
def OutsWf (s : State) : Prop := ∀ c conn, s.conns.get? c = some conn → conn.out.Wf

theorem outsWf_of_effects (heffects : Effects env s s') (hbefore : OutsWf s) : OutsWf s' := by
  refine holds_of_steps (I := OutsWf) (fun heffect hbefore ↦ ?_) heffects hbefore
  intro c conn' hget
  rcases heffect.conn_eq hget with ⟨-, -, hfresh⟩ | ⟨conn, hconn, hfollows⟩
  · exact hfresh
  · exact hfollows.out (hbefore c conn hconn)

/-! ### Sessions -/

theorem Effect.next_sessions_le (heffect : Effect env s s') :
    s.sessions.next ≤ s'.sessions.next := by
  cases heffect with
  | sessionOpened => exact Nat.le_succ _
  | _ => exact Nat.le_refl _

/-- The sessions in the table of RTSP sessions have been recorded. -/
def TableRecorded (s : State) : Prop :=
  ∀ rs entry, s.rtspSessions.get? rs = some entry → .registered entry.sess entry.id ∈ s.trace

theorem tableRecorded_initial (config : Config) : TableRecorded (initial config) :=
  fun _ _ hget ↦ absurd hget nofun

theorem tableRecorded_of_effects (heffects : Effects env s s') (hbefore : TableRecorded s) :
    TableRecorded s' := by
  refine holds_of_steps (I := TableRecorded) (fun heffect hbefore ↦ ?_) heffects hbefore
  intro rs entry hget
  have hkept := @mem_trace_of_effects env _ _ (.registered entry.sess entry.id) (.single heffect)
  cases heffect with
  | registered sess id hopened =>
    rw [NodeTable.get?_push] at hget
    split_ifs at hget
    · obtain rfl := Option.some.inj hget
      exact List.mem_append_right _ (List.mem_singleton_self _)
    · exact hkept (hbefore rs entry hget)
  | unregistered closed =>
    rw [NodeTable.get?_erase] at hget
    split_ifs at hget
    exact hbefore rs entry hget
  | _ => exact hkept (hbefore rs entry hget)

end WisCam.Server
