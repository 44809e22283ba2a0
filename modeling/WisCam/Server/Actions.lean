import WisCam.Foundations.Ownership
import WisCam.Server.Effects

/-!
# The actions of the server

The functions that act on sessions and endpoints change the state by effects only, whatever they
return and also if they stop at a fault, and the faults they may stop at are named (`May`). Inside
such a function a session and its endpoints may for a moment not fit together, so each of them
counts as one action (`Act`). Everything else that the server does is an action if it is an effect
that leaves sessions and their endpoints alone (`Quiet`).

The pointers between sessions, endpoints and RTSP sessions are those of an `Ownership` in which a
session owns the endpoints of its tracks and is registered under its RTSP session.
-/

set_option autoImplicit false

namespace WisCam.Server

open Foundations Message Connection Auth Program

variable {env : Env} {s s' : State} {R : State → State → Prop} {P : Fault → Prop}

/-! ### Faults -/

/-- A pointer is used that is null or dangling or leads to a structure of another kind, or a reply
is too long for `tcp_send_pmsg`. -/
def CommonFault : Fault → Prop
  | .nullTable => True
  | .wrongTable => True
  | .dangling => True
  | .longReply => True
  | _ => False

/-- The faults that a function may stop at: those that any function may, and those that `P`
names. -/
def May (P : Fault → Prop) (fault : Fault) : Prop := CommonFault fault ∨ P fault

/-- Any fault at all. -/
def AnyFault (_ : Fault) : Prop := True

/-! ### Reading through pointers -/

variable {sess : ℕ}

section Deref

variable {β : Type} {Q : β → State → Prop}

theorem derefConn_bind {c : ℕ} {f : Conn → Srv β}
    (hnext : ∀ conn, s.conns.get? c = some conn → Ensures R (May P) (f conn) s Q) :
    Ensures R (May P) (derefConn c >>= f) s Q :=
  (ensures_ofOption_bind (.inl trivial) hnext).of_eq rfl

theorem derefSession_bind {f : Session → Srv β}
    (hnext : ∀ session, s.sessions.get? sess = some session → Ensures R (May P) (f session) s Q) :
    Ensures R (May P) (derefSession sess >>= f) s Q :=
  (ensures_ofOption_bind (.inl trivial) hnext).of_eq rfl

theorem derefEndpoint_bind {ep : ℕ} {f : Endpoint → Srv β}
    (hnext : ∀ endpoint, s.endpoints.get? ep = some endpoint → Ensures R (May P) (f endpoint) s Q) :
    Ensures R (May P) (derefEndpoint ep >>= f) s Q :=
  (ensures_ofOption_bind (.inl trivial) hnext).of_eq rfl

theorem derefSource_bind {source : ℕ} {f : LiveSource → Srv β}
    (hnext : ∀ live, s.sources[source]? = some live → Ensures R (May P) (f live) s Q) :
    Ensures R (May P) (derefSource source >>= f) s Q :=
  (ensures_ofOption_bind (.inl trivial) hnext).of_eq rfl

end Deref

/-! ### Sending -/

/-- A change of one send buffer, which stays in order. -/
def Sends (s s' : State) : Prop :=
  ∃ (c : ℕ) (f : SendSide → SendSide), (∀ out, out.Wf → (f out).Wf) ∧
    s' = { s with conns := s.conns.modify c fun conn ↦ { conn with out := f conn.out } }

theorem Sends.effect (hsends : Sends s s') : Effect env s s' := by
  obtain ⟨c, f, hf, rfl⟩ := hsends
  exact .conn c _ ⟨fun conn ↦ hf conn.out, fun _ ↦ rfl, fun _ ↦ rfl, fun _ _ ↦ .inl rfl⟩

/-- Sending leaves the readers alone. -/
theorem reader_of_sends (hsends : Relation.ReflTransGen Sends s s') {c : ℕ} {conn' : Conn}
    (hget : s'.conns.get? c = some conn') :
    ∃ conn, s.conns.get? c = some conn ∧ conn'.reader = conn.reader := by
  induction hsends generalizing conn' with
  | refl => exact ⟨conn', hget, rfl⟩
  | tail _ hlast ih =>
    obtain ⟨target, f, -, rfl⟩ := hlast
    obtain ⟨old, hold, hcase⟩ := get?_conns_modify hget
    obtain ⟨conn, hconn, hreader⟩ := ih hold
    rcases hcase with ⟨-, rfl⟩ | ⟨-, rfl⟩
    · exact ⟨conn, hconn, hreader⟩
    · exact ⟨conn, hconn, hreader⟩

theorem modifyOut_makes (c : ℕ) {f : SendSide → SendSide} (hf : ∀ out, out.Wf → (f out).Wf) :
    Makes Sends (May P) (modifyConn c fun conn ↦ { conn with out := f conn.out }) s :=
  ensures_modify ⟨c, f, hf, rfl⟩ trivial

theorem sendTo_makes (c : ℕ) (data : Bytes) : Makes Sends (May P) (sendTo c data) s :=
  derefConn_bind fun _ _ ↦ makes_bind (modifyOut_makes c fun _ hwf ↦ wf_sendData hwf data)
    fun _ _ _ ↦ ensures_pure trivial

theorem tcpSendPmsg_makes (c : ℕ) (m : Pmsg) (len : Option ℕ) :
    Makes Sends (May P) (tcpSendPmsg c m len) s := by
  unfold tcpSendPmsg
  split
  · exact ensures_pure trivial
  · dsimp only
    split
    · exact ensures_fault (.inl trivial)
    refine derefConn_bind fun conn _ ↦ ?_
    split
    · exact ensures_pure trivial
    · exact makes_bind (sendTo_makes c _) fun _ _ _ ↦ ensures_pure trivial

theorem setDropAfter_makes (c : ℕ) : Makes Sends (May P) (setDropAfter c) s :=
  modifyOut_makes c (f := fun out ↦ { out with dropAfter := true }) fun _ hwf ↦ hwf

theorem sendIf_makes {sent : Bool} (c : ℕ) (data : Bytes) :
    Makes Sends (May P) (if sent then do let _ ← sendTo c data else pure ()) s := by
  split
  · exact makes_bind (sendTo_makes c data) fun _ _ _ ↦ ensures_pure trivial
  · exact ensures_pure trivial

theorem httpSendError_makes (req : Req) (code : ℕ) (reason text : Bytes) :
    Makes Sends (May P) (httpSendError req code reason text) s :=
  makes_bind (setDropAfter_makes _) fun _ _ _ ↦
    makes_bind (tcpSendPmsg_makes ..) fun _ _ _ ↦ sendIf_makes ..

theorem sendFrameWithJfif_makes (location : HttpLocation) (frame : Bytes) (c : ℕ) :
    Makes Sends (May P) (sendFrameWithJfif location frame c) s := by
  unfold sendFrameWithJfif
  split
  · exact makes_bind (sendTo_makes ..) fun _ _ _ ↦
      makes_bind (sendTo_makes ..) fun _ _ _ ↦ ensures_pure trivial
  · exact makes_bind (sendTo_makes ..) fun _ _ _ ↦ ensures_pure trivial

theorem sendMultipartFrame_makes (location : HttpLocation) (frame : Bytes) (c : ℕ) :
    Makes Sends (May P) (sendMultipartFrame location frame c) s := by
  refine derefConn_bind fun conn _ ↦ ?_
  split
  · exact ensures_pure trivial
  · exact makes_bind (sendTo_makes ..) fun _ _ _ ↦ sendFrameWithJfif_makes ..

theorem interleaveSend_makes (c : ℕ) (chan : Channel) (data : Bytes) (results : List WriteResult) :
    Makes Sends (May P) (interleaveSend c chan data results) s := by
  refine derefConn_bind fun conn _ ↦ ?_
  have hrest (s : State) : Makes Sends (May P) (derefConn c >>= fun conn ↦
      if availSendBuf conn.out < data.length + 4 then return false
      else do
        let _ ← sendTo c (36 :: UInt8.ofNat chan.val :: put16 data.length)
        let _ ← sendTo c data
        return true) s := by
    refine derefConn_bind fun conn _ ↦ ?_
    split
    · exact ensures_pure trivial
    · exact makes_bind (sendTo_makes ..) fun _ _ _ ↦
        makes_bind (sendTo_makes ..) fun _ _ _ ↦ ensures_pure trivial
  split
  · exact makes_bind (modifyOut_makes c fun _ hwf ↦ (tcpConnFlush_spec hwf results).1)
      fun _ _ _ ↦ hrest _
  · exact hrest s

theorem refuseTunnel_makes (c : ℕ) (text : Bytes) : Makes Sends (May P) (refuseTunnel c text) s :=
  makes_bind (sendTo_makes c text) fun _ _ _ ↦ setDropAfter_makes c

/-! ### Sessions and their endpoints -/

/-- What a session points to. -/
def Session.owner (session : Session) : Owner Track ℕ := ⟨session.ep, session.control⟩

/-- The pointers between sessions, endpoints and RTSP sessions. -/
def State.ownership (s : State) : Ownership Track ℕ where
  owner sess := (s.sessions.get? sess).map Session.owner
  partOf ep := (s.endpoints.get? ep).map Endpoint.session
  handleOf rs := (s.rtspSessions.get? rs).map RtspSession.sess

/-- The number of tracks of a source. -/
def State.trackCount (s : State) (source : ℕ) : Option ℕ :=
  s.sources[source]?.map fun source ↦ source.tracks.length

/-- The endpoint is there and uses channels of the connection. -/
def UsesConn (s : State) (ep c : ℕ) : Prop :=
  ∃ endpoint rtp rtcp, s.endpoints.get? ep = some endpoint ∧ endpoint.trans = .inter c rtp rtcp

/-- The session is there and no RTSP session controls it. -/
def Unregistered (s : State) (sess : ℕ) : Prop :=
  ∃ own, s.ownership.owner sess = some own ∧ own.handle = none

theorem unregistered_iff : Unregistered s sess ↔ s.ownership.Unhandled sess := Iff.rfl

/-- Sessions and endpoints stay what they are to each other, sources keep their tracks, and no
connection is lost. An endpoint may start to use a connection that is there. -/
structure Quiet (s s' : State) : Prop where
  ownership : s'.ownership = s.ownership
  source : ∀ sess, (s'.sessions.get? sess).map Session.source =
    (s.sessions.get? sess).map Session.source
  trackCount : ∀ source, s'.trackCount source = s.trackCount source
  conns : ∀ c, (s.conns.get? c).isSome → (s'.conns.get? c).isSome
  usesConn : ∀ ep c, UsesConn s' ep c → UsesConn s ep c ∨ (s.conns.get? c).isSome

theorem Quiet.of_same (hsessions : s'.sessions = s.sessions)
    (hrtspSessions : s'.rtspSessions = s.rtspSessions) (hendpoints : s'.endpoints = s.endpoints)
    (hsources : s'.sources = s.sources)
    (hconns : ∀ c, (s.conns.get? c).isSome → (s'.conns.get? c).isSome) : Quiet s s' where
  ownership := by rw [State.ownership, hsessions, hendpoints, hrtspSessions, State.ownership]
  source sess := by rw [hsessions]
  trackCount source := by rw [State.trackCount, hsources, State.trackCount]
  conns := hconns
  usesConn ep c huses := by
    rw [UsesConn, hendpoints] at huses
    exact .inl huses

theorem Quiet.of_modify (c : ℕ) (f : Conn → Conn) :
    Quiet s { s with conns := s.conns.modify c f } := by
  refine .of_same rfl rfl rfl rfl fun c' hpresent ↦ ?_
  rw [NodeTable.isSome_get?_modify]
  exact hpresent

/-- A change of the transport of an endpoint is quiet if the connection it uses then is there. -/
theorem Quiet.of_trans {ep : ℕ} {trans : Trans} {conns : NodeTable Conn}
    (hconns : ∀ c, (s.conns.get? c).isSome → (conns.get? c).isSome)
    (htrans : ∀ c rtp rtcp, trans = .inter c rtp rtcp → (s.conns.get? c).isSome) :
    Quiet s { s with
      conns := conns
      endpoints := s.endpoints.modify ep fun endpoint ↦ { endpoint with trans := trans } } where
  ownership := by
    refine Ownership.ext rfl (funext fun ep' ↦ ?_) rfl
    exact NodeTable.map_get?_modify _ _ _ fun _ ↦ rfl
  source _ := rfl
  trackCount _ := rfl
  conns := hconns
  usesConn ep' c huses := by
    obtain ⟨endpoint, rtp, rtcp, hget, hinter⟩ := huses
    rw [NodeTable.get?_modify] at hget
    split_ifs at hget
    · obtain ⟨old, -, rfl⟩ := Option.map_eq_some_iff.mp hget
      exact .inr (htrans c rtp rtcp hinter)
    · exact .inl ⟨endpoint, rtp, rtcp, hget, hinter⟩

/-- An effect that is quiet. -/
def QuietEffect (env : Env) (s s' : State) : Prop := Effect env s s' ∧ Quiet s s'

/-- The live sources and the sessions are the same. -/
structure SameLive (s s' : State) : Prop where
  sessions : s'.sessions = s.sessions
  sources : s'.sources = s.sources

/-- A quiet effect that leaves live sources and sessions alone. -/
def CalmEffect (env : Env) (s s' : State) : Prop := QuietEffect env s s' ∧ SameLive s s'

theorem ownership_of_quiet (hquiet : Relation.ReflTransGen (QuietEffect env) s s') :
    s'.ownership = s.ownership := by
  induction hquiet with
  | refl => rfl
  | tail _ hlast ih => rw [hlast.2.ownership, ih]

theorem ownership_of_calm (hcalm : Relation.ReflTransGen (CalmEffect env) s s') :
    s'.ownership = s.ownership :=
  ownership_of_quiet (hcalm.lift id fun _ _ ↦ And.left)

theorem CalmEffect.of_same (heffect : Effect env s s') (hsessions : s'.sessions = s.sessions)
    (hrtspSessions : s'.rtspSessions = s.rtspSessions) (hendpoints : s'.endpoints = s.endpoints)
    (hsources : s'.sources = s.sources)
    (hconns : ∀ c, (s.conns.get? c).isSome → (s'.conns.get? c).isSome) : CalmEffect env s s' :=
  ⟨⟨heffect, .of_same hsessions hrtspSessions hendpoints hsources hconns⟩, hsessions, hsources⟩

theorem CalmEffect.conn {c : ℕ} {f : Conn → Conn} (hkeeps : KeepsState s c f) :
    CalmEffect env s { s with conns := s.conns.modify c f } :=
  ⟨⟨.conn c f hkeeps, .of_modify c f⟩, rfl, rfl⟩

theorem CalmEffect.logged {obs : Obs} (hjustified : Justified env s obs) :
    CalmEffect env s { s with trace := s.trace ++ [obs] } :=
  .of_same (.logged obs hjustified) rfl rfl rfl rfl fun _ ↦ id

theorem Sends.calm (hsends : Sends s s') : CalmEffect env s s' := by
  have heffect := @Sends.effect env s s' hsends
  obtain ⟨c, f, -, rfl⟩ := hsends
  exact ⟨⟨heffect, .of_modify c _⟩, rfl, rfl⟩

variable {α : Type}

theorem calm_of_sends {m : Srv α} (hm : Makes Sends (May P) m s) :
    Makes (CalmEffect env) (May P) m s :=
  hm.mono Sends.calm

theorem effects_of_quiet {m : Srv α} {Q : α → State → Prop}
    (hm : Ensures (QuietEffect env) (May P) m s Q) : Ensures (Effect env) (May P) m s Q :=
  hm.mono And.left

theorem effects_of_calm {m : Srv α} {Q : α → State → Prop}
    (hm : Ensures (CalmEffect env) (May P) m s Q) : Ensures (Effect env) (May P) m s Q :=
  hm.mono fun hcalm ↦ hcalm.1.1

theorem log_makes {obs : Obs} (hjustified : Justified env s obs) :
    Makes (CalmEffect env) (May P) (log obs) s :=
  ensures_modify (.logged hjustified) trivial

theorem randomBytes_makes (len : ℕ) : Makes (CalmEffect env) (May P) (randomBytes env len) s :=
  ensures_get_bind (ensures_modify_bind
    (.of_same (.random len) rfl rfl rfl rfl fun _ ↦ id) (ensures_pure trivial))

variable {f : LiveSource → LiveSource}

theorem trackCount_modify (source : ℕ) (hf : ∀ live, (f live).tracks.length = live.tracks.length)
    (source' : ℕ) :
    State.trackCount { s with sources := s.sources.modify source f } source' =
      s.trackCount source' := by
  simp only [State.trackCount, List.getElem?_modify, Option.map_eq_map, Option.map_map]
  congr 1
  funext live
  simp only [Function.comp_apply]
  split_ifs
  · exact hf live
  · rfl

/-- A store into a source that keeps its tracks. -/
theorem modifySource_makes (source : ℕ) (hf : ∀ live, (f live).tracks.length = live.tracks.length) :
    Makes (QuietEffect env) (May P) (modifySource source f) s :=
  ensures_modify ⟨.source source f, rfl, fun _ ↦ rfl, trackCount_modify source hf, fun _ ↦ id,
    fun _ _ ↦ .inl⟩ trivial

theorem setWaiting_makes (source : ℕ) (t : Track) (waiting : Bool) :
    Makes (QuietEffect env) (May P) (setWaiting source t waiting) s :=
  modifySource_makes source fun _ ↦ List.length_modify ..

/-! ### Live sessions -/

/-- The endpoint is there and has no transport yet. -/
def Unconnected (s : State) (ep : ℕ) : Prop :=
  ∃ endpoint, s.endpoints.get? ep = some endpoint ∧ endpoint.trans = .unset

theorem newRtpEndpoint_makes (payload : ℕ) (maxDataSize : ℤ)
    (hallowed : ∃ c msg loc, SetupAllowed s.rtspLocs s.trace c msg loc sess) :
    Makes (Effect env) (May P) (newRtpEndpoint env payload sess maxDataSize) s := by
  obtain ⟨c, msg, loc, hallowed⟩ := hallowed
  refine makes_bind (effects_of_calm (randomBytes_makes 4)) fun ssrc _ hssrc ↦ ?_
  refine makes_bind (effects_of_calm (randomBytes_makes 4)) fun startTimestamp _ hstart ↦ ?_
  refine makes_bind (effects_of_calm (randomBytes_makes 2)) fun seqnum s' hseqnum ↦ ?_
  have hallowed' := hallowed.of_effects ((hssrc.trans hstart).trans hseqnum)
  exact ensures_get_bind (ensures_modify_bind (.endpointAdded _ rfl ⟨c, msg, loc, hallowed'⟩)
    (ensures_pure trivial))

theorem pointerFault_of_interleaveDisconnect {conn : Conn} {rtp rtcp : Channel} {fault : Fault}
    (herror : interleaveDisconnect conn rtp >>= (interleaveDisconnect · rtcp) = .error fault) :
    CommonFault fault := by
  unfold interleaveDisconnect at herror
  cases hstate : conn.protoState with
  | rtsp table =>
    rw [hstate] at herror
    exact absurd herror nofun
  | null =>
    rw [hstate] at herror
    rw [← Except.error.inj herror]
    exact trivial
  | http session =>
    rw [hstate] at herror
    rw [← Except.error.inj herror]
    exact trivial

theorem interleaveDisconnect_eq_ok {conn conn' : Conn} {rtp rtcp : Channel}
    (hok : interleaveDisconnect conn rtp >>= (interleaveDisconnect · rtcp) = .ok conn') :
    ∃ table, conn.protoState = .rtsp table ∧ conn' = { conn with
      protoState := .rtsp (Function.update (Function.update table rtp none) rtcp none) } := by
  cases hstate : conn.protoState with
  | rtsp table =>
    rw [interleaveDisconnect, hstate] at hok
    exact ⟨table, rfl, (Except.ok.inj hok).symm⟩
  | null =>
    rw [interleaveDisconnect, hstate] at hok
    exact absurd hok nofun
  | http session =>
    rw [interleaveDisconnect, hstate] at hok
    exact absurd hok nofun

theorem delRtpEndpoint_makes (ep : ℕ) : Makes (Effect env) (May P) (delRtpEndpoint ep) s := by
  refine derefEndpoint_bind fun endpoint hep ↦ ?_
  cases htrans : endpoint.trans with
  | inter c rtp rtcp =>
    refine derefConn_bind fun conn hconn ↦ ?_
    cases hok : interleaveDisconnect conn rtp >>= (interleaveDisconnect · rtcp) with
    | error fault => exact ensures_fault (.inl (pointerFault_of_interleaveDisconnect hok))
    | ok conn' =>
      obtain ⟨table, htable, rfl⟩ := interleaveDisconnect_eq_ok hok
      exact ensures_modify (.unwired c ep conn endpoint table rtp rtcp hconn htable hep htrans)
        trivial
  | unset =>
    exact ensures_modify (.endpointFreed ep endpoint hep (by rw [htrans]; nofun)) trivial
  | udp addr port =>
    exact ensures_modify (.endpointFreed ep endpoint hep (by rw [htrans]; nofun)) trivial

theorem delSession_makes (sess : ℕ) : Makes (Effect env) (May P) (delSession sess) s := by
  refine derefSession_bind fun session _ ↦ ?_
  have hremove (s : State) : Makes (Effect env) (May P)
      (.modify fun s ↦ { s with sessions := s.sessions.erase sess } : Srv Unit) s :=
    ensures_modify (.sessionRemoved sess) trivial
  split
  · exact ensures_modify_bind (.unregistered _) (hremove _)
  · exact hremove s

theorem owner_next : s.ownership.owner s.sessions.next = none := by
  simp [State.ownership, NodeTable.get?_next]

/-- In terms of owners, `live_open` adds an owner. -/
theorem ownership_opened (c : ℕ) (msg : Pmsg) (loc source : ℕ) :
    State.ownership { s with
      sessions := s.sessions.push ⟨source, false, fun _ ↦ none, none⟩
      trace := s.trace ++ [.opened c msg loc s.sessions.next] } =
        s.ownership.addOwner s.sessions.next := by
  refine Ownership.ext (funext fun sess ↦ ?_) rfl rfl
  by_cases hnew : sess = s.sessions.next
  · simp [State.ownership, Ownership.addOwner, hnew, Session.owner]
  · simp [State.ownership, Ownership.addOwner, hnew]

/-- What `live_open` returns: nothing, and then it has done nothing, or a new session. -/
def OpensSession (s : State) (c : ℕ) (msg : Pmsg) (loc : ℕ) (opened : Option ℕ) (s' : State) :
    Prop :=
  match opened with
  | none => s' = s
  | some sess => .opened c msg loc sess ∈ s'.trace ∧ s.ownership.owner sess = none ∧
      s'.ownership = s.ownership.addOwner sess

theorem liveOpen_ensures (c : ℕ) (msg : Pmsg) (loc : ℕ) (location : RtspLocation) :
    Ensures (Effect env) (May P) (liveOpen c msg loc location) s (OpensSession s c msg loc) := by
  refine derefSource_bind fun source _ ↦ ?_
  split
  · exact ensures_pure rfl
  · refine ensures_get_bind (ensures_modify_bind (.sessionOpened c msg loc location.source) ?_)
    exact ensures_pure ⟨List.mem_append_right _ (List.mem_singleton_self _), owner_next,
      ownership_opened c msg loc location.source⟩

/-- The part of `live_setup` that puts a new endpoint into a track of a session. -/
def addEndpoint (env : Env) (payload sess : ℕ) (maxDataSize : ℤ) (t : Track) : Srv (Option ℕ) := do
  let ep ← newRtpEndpoint env payload sess maxDataSize
  modifySession sess fun session ↦ { session with ep := Function.update session.ep t (some ep) }
  return some ep

theorem addEndpoint_apply (payload sess : ℕ) (maxDataSize : ℤ) (t : Track) :
    ∃ endpoint, endpoint.session = sess ∧ endpoint.trans = .unset ∧
      addEndpoint env payload sess maxDataSize t s =
        (.ok (some s.endpoints.next), { s with
          randomPos := s.randomPos + 4 + 4 + 2
          endpoints := s.endpoints.push endpoint
          sessions := s.sessions.modify sess fun session ↦
            { session with ep := Function.update session.ep t (some s.endpoints.next) } }) :=
  ⟨_, rfl, rfl, rfl⟩

/-- In terms of owners, `live_setup` places a part in a slot. -/
theorem ownership_addEndpoint {sess : ℕ} {session : Session} (payload : ℕ) (maxDataSize : ℤ)
    (t : Track) (hsession : s.sessions.get? sess = some session) :
    (addEndpoint env payload sess maxDataSize t s).2.ownership =
      s.ownership.place sess session.owner t s.endpoints.next := by
  obtain ⟨endpoint, howner, -, heq⟩ := @addEndpoint_apply env s payload sess maxDataSize t
  rw [heq]
  refine Ownership.ext (funext fun sess' ↦ ?_) (funext fun ep ↦ ?_) rfl
  · by_cases hsame : sess' = sess
    · simp [State.ownership, Ownership.place, hsame, hsession, Session.owner]
    · simp [State.ownership, Ownership.place, hsame]
  · by_cases hnew : ep = s.endpoints.next
    · simp [State.ownership, Ownership.place, hnew, howner]
    · simp [State.ownership, Ownership.place, hnew]

theorem addEndpoint_ensures {sess : ℕ} {session : Session} (payload : ℕ) (maxDataSize : ℤ)
    (t : Track) (hsession : s.sessions.get? sess = some session)
    (hallowed : ∃ c msg loc, SetupAllowed s.rtspLocs s.trace c msg loc sess) :
    Ensures (Effect env) (May P) (addEndpoint env payload sess maxDataSize t) s fun created s' ↦
      ∃ ep, created = some ep ∧ Unconnected s' ep ∧
        s'.ownership = s.ownership.place sess session.owner t ep := by
  have hmakes : Makes (Effect env) (May P) (addEndpoint env payload sess maxDataSize t) s :=
    makes_bind (newRtpEndpoint_makes _ _ hallowed) fun ep _ _ ↦
      ensures_modify_bind (.session sess _) (ensures_pure trivial)
  have hplaced := @ownership_addEndpoint env s sess session payload maxDataSize t hsession
  obtain ⟨endpoint, -, hunset, heq⟩ := @addEndpoint_apply env s payload sess maxDataSize t
  refine ⟨hmakes.steps, fun created hcreated ↦ ?_, hmakes.faults⟩
  rw [heq] at hcreated hplaced ⊢
  exact ⟨_, (Except.ok.inj hcreated).symm, ⟨endpoint, by simp, hunset⟩, hplaced⟩

/-- What `live_setup` returns: nothing, and then it has done nothing, or the new endpoint in the
track of the session. -/
def PlacesEndpoint (s : State) (sess : ℕ) (t : Track) (created : Option ℕ) (s' : State) : Prop :=
  ∃ own, s.ownership.owner sess = some own ∧ match created with
    | none => s' = s
    | some ep => Unconnected s' ep ∧ s'.ownership = s.ownership.place sess own t ep

theorem liveSetup_ensures (t : Track)
    (hallowed : ∃ c msg loc, SetupAllowed s.rtspLocs s.trace c msg loc sess) :
    Ensures (Effect env) (May P) (liveSetup env sess t) s (PlacesEndpoint s sess t) := by
  refine derefSession_bind fun session hsession ↦ derefSource_bind fun source _ ↦ ?_
  have hown : s.ownership.owner sess = some session.owner := by
    simp [State.ownership, hsession]
  split
  · exact ensures_pure ⟨_, hown, rfl⟩
  · refine (addEndpoint_ensures _ _ t hsession hallowed).imp fun created s' _ hcreated ↦ ?_
    obtain ⟨ep, rfl, hunconnected, hplaced⟩ := hcreated
    exact ⟨_, hown, hunconnected, hplaced⟩

theorem livePlay_makes (sess : ℕ) : Makes (QuietEffect env) (May P) (livePlay sess) s := by
  refine derefSession_bind fun session _ ↦ derefSource_bind fun source _ ↦ ?_
  have hplaying : QuietEffect env s { s with
      sessions := s.sessions.modify sess fun session ↦ { session with playing := true } } := by
    refine ⟨.session sess _, Ownership.ext (funext fun sess' ↦ ?_) rfl rfl, fun sess' ↦ ?_,
      fun _ ↦ rfl, fun _ ↦ id, fun _ _ ↦ .inl⟩
    · exact NodeTable.map_get?_modify _ _ _ fun _ ↦ rfl
    · exact NodeTable.map_get?_modify _ _ _ fun _ ↦ rfl
  refine ensures_modify_bind hplaying ?_
  refine makes_bind (modifySource_makes _ fun _ ↦ rfl) fun _ _ _ ↦ ?_
  refine ensures_forM fun t _ s' _ ↦ ?_
  split
  · exact setWaiting_makes ..
  · exact ensures_pure trivial

theorem trackCheckRunning_makes (source : ℕ) (t : Track) :
    Makes (QuietEffect env) (May P) (trackCheckRunning source t) s := by
  refine ensures_get_bind ?_
  split
  · exact ensures_pure trivial
  · exact setWaiting_makes ..

theorem teardownTrack_makes (sess : ℕ) (ep : Option ℕ) (t : Track) :
    Makes (Effect env) (May P) (teardownTrack sess ep t) s := by
  refine derefSession_bind fun session _ ↦ ?_
  split
  · exact ensures_pure trivial
  · split
    · refine makes_bind (delRtpEndpoint_makes _) fun _ _ _ ↦ ?_
      exact ensures_modify_bind (.session sess _) (effects_of_quiet (trackCheckRunning_makes ..))
    · exact ensures_pure trivial

theorem liveTeardown_makes (sess : ℕ) (ep : Option ℕ) :
    Makes (Effect env) (May P) (liveTeardown sess ep) s := by
  refine derefSession_bind fun session _ ↦ derefSource_bind fun source _ ↦ ?_
  refine makes_bind (ensures_forM fun t _ s' _ ↦ teardownTrack_makes sess ep t) fun _ s' _ ↦ ?_
  refine derefSession_bind fun session _ ↦ ?_
  split
  · exact ensures_modify_bind (.source _ _) (delSession_makes sess)
  · exact ensures_pure trivial

/-- In terms of owners, `new_rtsp_session` registers an owner. -/
theorem ownership_newRtspSession {sess : ℕ} {session : Session}
    (hsession : s.sessions.get? sess = some session) :
    (newRtspSession env sess s).2.ownership =
      s.ownership.register sess session.owner s.rtspSessions.next := by
  refine Ownership.ext (funext fun sess' ↦ ?_) rfl (funext fun rs ↦ ?_)
  · change ((s.sessions.modify sess _).get? sess').map Session.owner = _
    by_cases hsame : sess' = sess
    · simp [State.ownership, Ownership.register, hsame, hsession, Session.owner]
    · simp [State.ownership, Ownership.register, hsame]
  · change ((s.rtspSessions.push _).get? rs).map RtspSession.sess = _
    by_cases hnew : rs = s.rtspSessions.next
    · simp [State.ownership, Ownership.register, hnew]
    · simp [State.ownership, Ownership.register, hnew]

theorem newRtspSession_makes {c : ℕ} {msg : Pmsg} {loc sess : ℕ}
    (hopened : .opened c msg loc sess ∈ s.trace) :
    Makes (Effect env) (May P) (newRtspSession env sess) s :=
  makes_bind (effects_of_calm (randomBytes_makes 15)) fun _ _ heffects ↦
    ensures_modify_bind (.registered sess _ ⟨c, msg, loc, mem_trace_of_effects heffects hopened⟩)
      (ensures_pure trivial)

/-! ### Closing a connection -/

theorem rtspConnDisconnect_makes (c : ℕ) : Makes (Effect env) (May P) (rtspConnDisconnect c) s := by
  refine ensures_forM fun chan _ s' _ ↦ ?_
  refine derefConn_bind fun conn _ ↦ ?_
  split
  · exact ensures_fault (.inl trivial)
  · exact ensures_fault (.inl trivial)
  · split
    · exact derefEndpoint_bind fun endpoint _ ↦ liveTeardown_makes ..
    · exact ensures_pure trivial

theorem httpConnDisconnect_makes (c : ℕ) : Makes (Effect env) (May P) (httpConnDisconnect c) s := by
  refine derefConn_bind fun conn _ ↦ ?_
  split
  · exact ensures_modify (.streamRemoved _) trivial
  · exact ensures_fault (.inl trivial)
  · exact ensures_fault (.inl trivial)

theorem dropConn_makes (c : ℕ) : Makes (Effect env) (May P) (dropConn c) s := by
  refine derefConn_bind fun conn _ ↦ ?_
  refine makes_bind ?_ fun _ _ _ ↦ ensures_modify (.dropped c) trivial
  unfold disconnect
  split
  · exact ensures_pure trivial
  · exact httpConnDisconnect_makes c
  · exact rtspConnDisconnect_makes c
  · exact ensures_pure trivial

/-! ### Actions -/

/-- What the server does, in steps after which sessions and endpoints fit together. -/
inductive Act (env : Env) : State → State → Prop
  | quiet {s s' : State} (hquiet : QuietEffect env s s') : Act env s s'
  | opened {s : State} (c : ℕ) (msg : Pmsg) (loc : ℕ) (location : RtspLocation) :
      Act env s (liveOpen c msg loc location s).2
  | setUp {s : State} {sess : ℕ} (t : Track)
      (hallowed : ∃ c msg loc, SetupAllowed s.rtspLocs s.trace c msg loc sess)
      (hfree : ∀ own, s.ownership.owner sess = some own → own.part t = none) :
      Act env s (liveSetup env sess t s).2
  | registered {s : State} {c : ℕ} {msg : Pmsg} {loc sess : ℕ}
      (hopened : .opened c msg loc sess ∈ s.trace)
      (hunregistered : Unregistered s sess) (hfilled : s.ownership.Filled sess) :
      Act env s (newRtspSession env sess s).2
  | tornDown {s : State} (sess : ℕ) (ep : Option ℕ) : Act env s (liveTeardown sess ep s).2
  | dropped {s : State} (c : ℕ) : Act env s (dropConn c s).2

/-- A sequence of actions. -/
abbrev Acts (env : Env) : State → State → Prop := Relation.ReflTransGen (Act env)

theorem Act.effects (hact : Act env s s') : Effects env s s' := by
  cases hact with
  | quiet hquiet => exact .single hquiet.1
  | opened c msg loc location =>
    exact (liveOpen_ensures (P := AnyFault) c msg loc location).steps
  | setUp t hallowed => exact (liveSetup_ensures (P := AnyFault) t hallowed).steps
  | registered hopened => exact (newRtspSession_makes (P := AnyFault) hopened).steps
  | tornDown sess ep => exact (liveTeardown_makes (P := AnyFault) sess ep).steps
  | dropped c => exact (dropConn_makes (P := AnyFault) c).steps

theorem effects_of_acts (hacts : Acts env s s') : Effects env s s' := by
  induction hacts with
  | refl => exact .refl
  | tail _ hlast ih => exact ih.trans hlast.effects

/-! ### Passive steps and moves -/

/-- What the server does by itself: calm changes, the end of endpoints and connections, and the
frames that come. -/
inductive Passive (env : Env) : State → State → Prop
  | calm {s s' : State} (hcalm : CalmEffect env s s') : Passive env s s'
  | tornDown {s : State} (sess : ℕ) (ep : Option ℕ) : Passive env s (liveTeardown sess ep s).2
  | dropped {s : State} (c : ℕ) : Passive env s (dropConn c s).2
  | framed {s : State} (source : ℕ) (t : Track) : Passive env s (deliverFrame source t s).2

/-- What the server does, where a request may open a session, set up a track of it, register it and
play it. -/
inductive Move (env : Env) : State → State → Prop
  | passive {s s' : State} (hpassive : Passive env s s') : Move env s s'
  | opened {s : State} (c : ℕ) (msg : Pmsg) (loc : ℕ) (location : RtspLocation) :
      Move env s (liveOpen c msg loc location s).2
  | setUp {s : State} {sess : ℕ} (t : Track)
      (hallowed : ∃ c msg loc, SetupAllowed s.rtspLocs s.trace c msg loc sess)
      (hfree : ∀ own, s.ownership.owner sess = some own → own.part t = none) :
      Move env s (liveSetup env sess t s).2
  | registered {s : State} {c : ℕ} {msg : Pmsg} {loc sess : ℕ}
      (hopened : .opened c msg loc sess ∈ s.trace)
      (hunregistered : Unregistered s sess) (hfilled : s.ownership.Filled sess) :
      Move env s (newRtspSession env sess s).2
  | played {s : State} (sess : ℕ) : Move env s (livePlay sess s).2

/-- A sequence of moves. -/
abbrev Moves (env : Env) : State → State → Prop := Relation.ReflTransGen (Move env)

theorem deliverFrame_makes (source : ℕ) (t : Track) :
    Makes (QuietEffect env) (May P) (deliverFrame source t) s := by
  refine ensures_get_bind ?_
  split
  · exact modifySource_makes source fun _ ↦ List.length_modify ..
  · exact ensures_pure trivial

theorem Passive.acts (hpassive : Passive env s s') : Acts env s s' := by
  cases hpassive with
  | calm hcalm => exact .single (.quiet hcalm.1)
  | tornDown sess ep => exact .single (.tornDown sess ep)
  | dropped c => exact .single (.dropped c)
  | framed source t =>
    exact (deliverFrame_makes (P := AnyFault) source t).steps.lift id fun _ _ ↦ Act.quiet

theorem Move.acts (hmove : Move env s s') : Acts env s s' := by
  cases hmove with
  | passive hpassive => exact hpassive.acts
  | opened c msg loc location => exact .single (.opened c msg loc location)
  | setUp t hallowed hfree => exact .single (.setUp t hallowed hfree)
  | registered hopened hunregistered hfilled =>
    exact .single (.registered hopened hunregistered hfilled)
  | played sess => exact (livePlay_makes (P := AnyFault) sess).steps.lift id fun _ _ ↦ Act.quiet

theorem acts_of_moves (hmoves : Moves env s s') : Acts env s s' := by
  induction hmoves with
  | refl => exact .refl
  | tail _ hlast ih => exact ih.trans hlast.acts

theorem effects_of_moves (hmoves : Moves env s s') : Effects env s s' :=
  effects_of_acts (acts_of_moves hmoves)

theorem passive_of_sends {m : Srv α} (hm : Makes Sends (May P) m s) :
    Makes (Passive env) (May P) m s :=
  hm.mono fun hsends ↦ .calm hsends.calm

theorem passive_of_calm {m : Srv α} {Q : α → State → Prop}
    (hm : Ensures (CalmEffect env) (May P) m s Q) : Ensures (Passive env) (May P) m s Q :=
  hm.mono .calm

theorem moves_of_passive {m : Srv α} {Q : α → State → Prop}
    (hm : Ensures (Passive env) (May P) m s Q) : Ensures (Move env) (May P) m s Q :=
  hm.mono .passive

/-- Calm changes leave the pointers between sessions and endpoints alone. -/
theorem moves_of_calm {m : Srv α} {Q : α → State → Prop}
    (hm : Ensures (CalmEffect env) (May P) m s Q) :
    Ensures (Move env) (May P) m s fun a s' ↦ s'.ownership = s.ownership ∧ Q a s' :=
  (hm.imp fun _ _ hsteps hpost ↦ ⟨ownership_of_calm hsteps, hpost⟩).mono
    fun hcalm ↦ .passive (.calm hcalm)

end WisCam.Server
