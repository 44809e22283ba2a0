import WisCam.Server.Footprint

/-!
# Events and the requests they complete

An event completes an RTSP request (`State.rtspRequest`), and is then one call of `rtsp_handle_msg`
(`step_of_request`), or it is passive (`step_passive`). So every run is a sequence of moves
(`moves_of_run`), of actions (`acts_of_run`) and of effects (`effects_of_run`).
-/

set_option autoImplicit false

namespace WisCam.Server

open Foundations Message Connection Auth Program

variable {env : Env} {s s' : State} {P : Fault → Prop}

/-! ### The request of an event -/

/-- The request that `handle_request` hands to `rtsp_handle_msg`. -/
def Conn.rtspRequest (conn : Conn) (c : ℕ) : Option Req :=
  if conn.reader.proto = .rtsp then
    match parseRequest conn.reader.reqBuf with
    | .error _ => none
    | .ok msg => match msg.sl with
      | .req method uri => some ⟨c, msg, msg.text method, msg.text uri⟩
      | .stat _ _ => none
  else none

variable {c : ℕ}

theorem Conn.rtspRequest_eq_some {conn : Conn} {req : Req} (hreq : conn.rtspRequest c = some req) :
    conn.reader.proto = .rtsp ∧ parseRequest conn.reader.reqBuf = .ok req.msg ∧
      ∃ method uri, req.msg.sl = .req method uri ∧
        req = ⟨c, req.msg, req.msg.text method, req.msg.text uri⟩ := by
  unfold Conn.rtspRequest at hreq
  split_ifs at hreq with hproto
  refine ⟨hproto, ?_⟩
  split at hreq
  · exact absurd hreq nofun
  · rename_i msg hmsg
    split at hreq
    · rename_i method uri hsl
      obtain rfl := Option.some.inj hreq
      exact ⟨hmsg, method, uri, hsl, rfl⟩
    · exact absurd hreq nofun

variable {now : ℕ}

theorem handleRequest_eq {conn : Conn} {req : Req} (hconn : s.conns.get? c = some conn)
    (hreq : conn.rtspRequest c = some req) :
    handleRequest env now c s = (rtspHandleMsg env now req >>= fun _ ↦ pure true)
      { s with trace := s.trace ++ [.handed c conn.reader.reqBuf req.msg] } := by
  obtain ⟨hproto, hmsg, method, uri, hsl, hwhole⟩ := Conn.rtspRequest_eq_some hreq
  rw [handleRequest, derefConn_apply hconn, hmsg]
  dsimp only
  rw [log_bind_apply, hsl]
  dsimp only
  rw [hproto, ← hwhole]
  rfl

/-- A request that is not one of RTSP opens no session. -/
theorem handleRequest_passive {conn : Conn} (now : ℕ) (hconn : s.conns.get? c = some conn)
    (hnone : conn.rtspRequest c = none) :
    Makes (Passive env) (May AnyFault) (handleRequest env now c) s := by
  refine derefConn_bind fun conn' hconn' ↦ ?_
  obtain rfl := Option.some.inj (hconn'.symm.trans hconn)
  split
  · exact ensures_pure trivial
  · exact ensures_fault (.inr trivial)
  · rename_i msg hmsg
    refine ensures_modify_bind (.calm (.logged hmsg)) ?_
    split
    · exact ensures_fault (.inr trivial)
    · rename_i method uri hsl
      refine dispatch_passive ⟨method, uri, hsl, rfl, rfl⟩
        (List.mem_append_right _ (List.mem_singleton_self _)) (fun hhttp ↦ ?_) (fun hrtsp ↦ ?_)
      · intro conn hget
        rw [← hhttp, Option.some.inj (hget.symm.trans hconn)]
      · rw [Conn.rtspRequest, if_pos hrtsp, hmsg] at hnone
        dsimp only at hnone
        rw [hsl] at hnone
        exact absurd hnone nofun

/-! ### Reading -/

theorem proto_receive (r : Reader) (data : Bytes) : (r.receive data).proto = r.proto := by
  unfold Reader.receive
  split <;> rfl

theorem setReader_makes {c : ℕ} {conn : Conn} {reader : Reader} (hconn : s.conns.get? c = some conn)
    (hproto : reader.proto = conn.reader.proto ∨ conn.reader.proto = .start) :
    Makes (CalmEffect env) (May P) (setReader c reader) s := by
  refine ensures_modify (.conn ⟨fun _ ↦ id, fun _ ↦ rfl, fun _ ↦ rfl, fun conn' hget ↦ ?_⟩) trivial
  obtain rfl := Option.some.inj (hget.symm.trans hconn)
  exact hproto.imp_right .inr

theorem clearReqBuf_makes (c : ℕ) : Makes (CalmEffect env) (May P) (clearReqBuf c) s :=
  ensures_modify (.conn ⟨fun _ ↦ id, fun _ ↦ rfl, fun _ ↦ rfl, fun _ _ ↦ .inl rfl⟩) trivial

/-- The connection after the bytes of a `read()` have been put into its buffer. -/
def Conn.received (conn : Conn) (data : Bytes) : Conn :=
  { conn with reader := (conn.reader.receive data).settle.1 }

/-- The `read()` completes a request: the connection is read, the buffer is not full, no part of a
tunnelled group is left over, and the loop of `parse_client_data` ends at a request. -/
def Conn.completes (conn : Conn) (second : Bool) (data : Bytes) : Prop :=
  (conn.reads second ∧ data ≠ [] ∧ conn.reader.reqBuf.length + data.length ≤ reqLimit) ∧
    (conn.reader.receive data).reqBuf.length ≠ reqLimit ∧
    (conn.reader.receive data).base64Count ≤ 0 ∧ (conn.reader.receive data).settle.2 = .request

instance (conn : Conn) (second : Bool) (data : Bytes) : Decidable (conn.completes second data) :=
  inferInstanceAs (Decidable ((_ ∧ _ ∧ _) ∧ _ ∧ _ ∧ _))

/-- The state in which a handler is called with a message. -/
def State.handing (s : State) (c : ℕ) (reader : Reader) (msg : Pmsg) : State :=
  { s with
    conns := s.conns.modify c fun conn ↦ { conn with reader := reader }
    trace := s.trace ++ [.handed c reader.reqBuf msg] }

/-- The RTSP request that an event completes, with its time and the state in which
`rtsp_handle_msg` is called for it. -/
def State.rtspRequest (s : State) : Event → Option (ℕ × Req × State)
  | .read c second now data =>
    match s.conns.get? c with
    | none => none
    | some conn =>
      if conn.completes second data then
        ((conn.received data).rtspRequest c).map fun req ↦
          (now, req, s.handing c (conn.received data).reader req.msg)
      else none
  | _ => none

theorem rtspRequest_eq_some {event : Event} {req : Req} {s₀ : State}
    (hrequest : s.rtspRequest event = some (now, req, s₀)) :
    ∃ c second data conn, event = .read c second now data ∧ s.conns.get? c = some conn ∧
      conn.completes second data ∧ (conn.received data).rtspRequest c = some req ∧
      s₀ = s.handing c (conn.received data).reader req.msg := by
  cases event with
  | read c second now' data =>
    simp only [State.rtspRequest] at hrequest
    split at hrequest
    · exact absurd hrequest nofun
    · rename_i conn hconn
      split_ifs at hrequest with hcompletes
      obtain ⟨req', hreq, hparts⟩ := Option.map_eq_some_iff.mp hrequest
      simp only [Prod.mk.injEq] at hparts
      obtain ⟨rfl, rfl, rfl⟩ := hparts
      exact ⟨c, second, data, conn, rfl, hconn, hcompletes, hreq, rfl⟩
  | _ => exact absurd hrequest nofun

theorem get?_setReader {conn : Conn} (hconn : s.conns.get? c = some conn) (data : Bytes) :
    (setReader c (conn.received data).reader s).2.conns.get? c = some (conn.received data) := by
  simp [setReader, modifyConn, Program.modify, hconn, Conn.received]

theorem step_of_reads {second : Bool} {data : Bytes} {conn : Conn}
    (hconn : s.conns.get? c = some conn)
    (hreads : conn.reads second ∧ data ≠ [] ∧ conn.reader.reqBuf.length + data.length ≤ reqLimit) :
    step env (.read c second now data) s = receive env now c conn data s := by
  rw [step, get_bind_apply]
  dsimp only
  rw [hconn]
  dsimp only
  rw [if_pos hreads]

theorem receive_of_settled {data : Bytes} {conn : Conn}
    (hfull : (conn.reader.receive data).reqBuf.length ≠ reqLimit)
    (hcount : (conn.reader.receive data).base64Count ≤ 0) :
    receive env now c conn data = setReader c (conn.received data).reader >>= fun _ ↦
      serve env now c (conn.reader.receive data).settle.2 := by
  rw [receive, if_neg hfull, if_neg (Int.not_lt.mpr hcount)]
  rfl

/-- What the server does at an event that completes an RTSP request. -/
theorem step_of_request {event : Event} {now : ℕ} {req : Req} {s₀ : State}
    (hrequest : s.rtspRequest event = some (now, req, s₀)) :
    step env event s = (rtspHandleMsg env now req >>= fun _ ↦ clearReqBuf req.conn) s₀ := by
  obtain ⟨c, second, data, conn, rfl, hconn, ⟨hreads, hfull, hcount, hfound⟩, hreq, rfl⟩ :=
    rtspRequest_eq_some hrequest
  rw [step_of_reads hconn hreads, receive_of_settled hfull hcount, hfound]
  obtain ⟨-, -, method, uri, -, hwhole⟩ := Conn.rtspRequest_eq_some hreq
  have hserve : handleRequest env now c (setReader c (conn.received data).reader s).2 =
      (rtspHandleMsg env now req >>= fun _ ↦ pure true)
        (s.handing c (conn.received data).reader req.msg) :=
    handleRequest_eq (get?_setReader hconn data) hreq
  rw [congrArg Req.conn hwhole]
  change (handleRequest env now c >>= fun handled ↦
    if handled then clearReqBuf c else dropConn c) (setReader c (conn.received data).reader s).2 = _
  rw [bind_apply, hserve, ← bind_apply, bind_assoc]
  rfl

/-- The state in which the handler is called, and the request. -/
theorem of_rtspRequest {event : Event} {now : ℕ} {req : Req} {s₀ : State}
    (hrequest : s.rtspRequest event = some (now, req, s₀)) :
    Relation.ReflTransGen (CalmEffect env) s s₀ ∧ req.Wf ∧ SpeaksRtsp s₀ req.conn ∧
      ∃ conn, s₀.conns.get? req.conn = some conn := by
  obtain ⟨c, second, data, conn, rfl, hconn, -, hreq, rfl⟩ := rtspRequest_eq_some hrequest
  obtain ⟨hproto, hmsg, method, uri, hsl, hwhole⟩ := Conn.rtspRequest_eq_some hreq
  have hc : req.conn = c := congrArg Req.conn hwhole
  have hget : (s.handing c (conn.received data).reader req.msg).conns.get? req.conn =
      some (conn.received data) := by
    rw [hc]
    exact get?_setReader hconn data
  obtain ⟨-, -, hchosen, -⟩ := of_settle (r := conn.reader.receive data) rfl
  rw [proto_receive] at hchosen
  have hset := (@setReader_makes env s AnyFault c conn (conn.received data).reader hconn
    hchosen).steps
  refine ⟨hset.tail (.logged hmsg), ⟨method, uri, hsl, ?_, ?_⟩, .of_get? hget hproto, _, hget⟩
  · exact congrArg Req.method hwhole
  · exact congrArg Req.uri hwhole

/-! ### Passive events -/

/-- Bytes that complete no RTSP request. -/
theorem serve_passive {conn : Conn} (now : ℕ) (found : Found) (hconn : s.conns.get? c = some conn)
    (hnone : found = .request → conn.rtspRequest c = none) :
    Makes (Passive env) (May AnyFault) (serve env now c found) s := by
  cases found with
  | wait => exact ensures_pure trivial
  | reject => exact dropConn_passive c
  | proto => exact ensures_pure trivial
  | frame chan payload =>
    exact makes_bind (interleaveRecv_makes ..) fun _ _ _ ↦ passive_of_calm (clearReqBuf_makes c)
  | request =>
    refine makes_bind (handleRequest_passive now hconn (hnone rfl)) fun handled _ _ ↦ ?_
    split
    · exact passive_of_calm (clearReqBuf_makes c)
    · exact dropConn_passive c

theorem receive_passive {conn : Conn} (now : ℕ) (data : Bytes) (hconn : s.conns.get? c = some conn)
    (hnone : (conn.reader.receive data).reqBuf.length ≠ reqLimit →
      (conn.reader.receive data).base64Count ≤ 0 →
      (conn.reader.receive data).settle.2 = .request → (conn.received data).rtspRequest c = none) :
    Makes (Passive env) (May AnyFault) (receive env now c conn data) s := by
  have hsame := proto_receive conn.reader data
  unfold receive
  dsimp only
  split
  · exact makes_bind (passive_of_calm (setReader_makes hconn (.inl hsame)))
      fun _ _ _ ↦ dropConn_passive c
  · rename_i hfull
    split
    · exact passive_of_calm (setReader_makes hconn (.inl hsame))
    · rename_i hcount
      obtain ⟨-, -, hproto, -⟩ := of_settle (r := conn.reader.receive data) rfl
      refine ensures_modify_bind (.calm (.conn ⟨fun _ ↦ id, fun _ ↦ rfl, fun _ ↦ rfl,
        fun conn' hget ↦ ?_⟩)) ?_
      · obtain rfl := Option.some.inj (hget.symm.trans hconn)
        exact (hsame ▸ hproto).imp_right .inr
      · exact serve_passive now _ (get?_setReader hconn data)
          (hnone hfull (Int.not_lt.mp hcount))

theorem readClosed_passive (c : ℕ) (second : Bool) :
    Makes (Passive env) (May P) (readClosed c second) s := by
  unfold readClosed
  split
  · exact ensures_modify (.calm (.conn ⟨fun _ ↦ id, fun _ ↦ rfl, fun _ ↦ rfl,
      fun _ _ ↦ .inl rfl⟩)) trivial
  · exact dropConn_passive c

theorem writeConn_passive (c : ℕ) (conn : Conn) (results : List WriteResult) :
    Makes (Passive env) (May P) (writeConn c conn results) s := by
  refine makes_bind (passive_of_sends (modifyOut_makes c fun _ hwf ↦
    (connWrite_spec hwf results).1)) fun _ _ _ ↦ ?_
  split
  · exact ensures_pure trivial
  · exact ensures_pure trivial
  · exact dropConn_passive c
  · exact dropConn_passive c

theorem sendRtpPacket_passive (ep : ℕ) (packet : Bytes) (sent : Bool)
    (results : List WriteResult) :
    Makes (Passive env) (May P) (sendRtpPacket ep packet sent results) s := by
  refine derefEndpoint_bind fun endpoint _ ↦ ?_
  split
  · split
    · exact ensures_pure trivial
    · exact liveTeardown_passive ..
  · exact makes_bind (passive_of_sends (interleaveSend_makes ..)) fun _ _ _ ↦ ensures_pure trivial
  · exact ensures_pure trivial

theorem rtcpSend_passive (ep : ℕ) (packet : Bytes) (sent : Bool) (results : List WriteResult) :
    Makes (Passive env) (May P) (rtcpSend ep packet sent results) s := by
  refine derefEndpoint_bind fun endpoint _ ↦ ?_
  split
  · split
    · exact ensures_pure trivial
    · exact liveTeardown_passive ..
  · exact makes_bind (passive_of_sends (interleaveSend_makes ..)) fun _ _ _ ↦ ensures_pure trivial
  · exact liveTeardown_passive ..

/-- An event that completes no RTSP request. -/
theorem step_passive {event : Event} (hnone : s.rtspRequest event = none) :
    Makes (Passive env) (May AnyFault) (step env event) s := by
  refine ensures_get_bind ?_
  cases event with
  | accept fd =>
    refine ensures_modify (.calm (.of_same (.accepted fd) rfl rfl rfl rfl fun c hpresent ↦ ?_))
      trivial
    rw [NodeTable.get?_push]
    split_ifs
    · rfl
    · exact hpresent
  | read c second now data =>
    dsimp only
    split
    · exact ensures_pure trivial
    · rename_i conn hconn
      split
      · rename_i hreads
        refine receive_passive now data hconn fun hfull hcount hfound ↦ ?_
        simp only [State.rtspRequest, hconn] at hnone
        rw [if_pos ⟨hreads, hfull, hcount, hfound⟩] at hnone
        exact Option.map_eq_none_iff.mp hnone
      · exact ensures_pure trivial
  | closed c second =>
    dsimp only
    split
    · exact ensures_pure trivial
    · split
      · exact readClosed_passive c second
      · exact ensures_pure trivial
  | writable c results =>
    dsimp only
    split
    · exact ensures_pure trivial
    · split
      · exact writeConn_passive ..
      · exact ensures_pure trivial
  | rtp ep packet sent results =>
    dsimp only
    split
    · exact sendRtpPacket_passive ..
    · exact ensures_pure trivial
  | rtcp ep packet sent results =>
    dsimp only
    split
    · exact rtcpSend_passive ..
    · exact ensures_pure trivial
  | udpClosed ep =>
    dsimp only
    split
    · split
      · exact liveTeardown_passive ..
      · exact ensures_pure trivial
    · exact ensures_pure trivial
  | liveFrame source t =>
    exact (@deliverFrame_makes env s AnyFault source t).whole (.framed source t)
  | jpegFrame loc frame => exact jpegNextFrame_makes loc frame

/-! ### Runs -/

theorem step_makes (event : Event) (htable : TableRecorded s) :
    Makes (Move env) (May AnyFault) (step env event) s := by
  cases hrequest : s.rtspRequest event with
  | none => exact moves_of_passive (step_passive hrequest)
  | some request =>
    obtain ⟨now, req, s₀⟩ := request
    obtain ⟨hcalm, hreq, hspeaks, -⟩ := @of_rtspRequest env s event now req s₀ hrequest
    have htable₀ := tableRecorded_of_effects (hcalm.lift id fun _ _ h ↦ h.1.1) htable
    have hhandler : Makes (Move env) (May AnyFault)
        (rtspHandleMsg env now req >>= fun _ ↦ clearReqBuf req.conn) s₀ :=
      makes_bind (rtspHandleMsg_makes hreq hspeaks htable₀)
        fun _ _ _ ↦ (moves_of_calm (clearReqBuf_makes _)).makes
    have hmoves : Moves env s s₀ := hcalm.lift id fun _ _ hcalm ↦ .passive (.calm hcalm)
    have hstep := @step_of_request env s event now req s₀ hrequest
    obtain ⟨hsteps, hpost, hfaults⟩ := hhandler
    rw [← hstep] at hsteps hpost hfaults
    exact ⟨hmoves.trans hsteps, hpost, hfaults⟩

/-- Every run changes the state by moves only. -/
theorem moves_of_run (env : Env) (events : List Event) (htable : TableRecorded s) :
    Moves env s (run env events s).2 := by
  have hrun : Makes (Move env) (May AnyFault) (run env events) s :=
    ensures_forM fun event _ s' hmoves ↦
      step_makes event (tableRecorded_of_effects (effects_of_moves hmoves) htable)
  exact hrun.steps

/-- Every run changes the state by actions only. -/
theorem acts_of_run (env : Env) (events : List Event) (htable : TableRecorded s) :
    Acts env s (run env events s).2 :=
  acts_of_moves (moves_of_run env events htable)

theorem effects_of_run (env : Env) (config : Config) (events : List Event) :
    Effects env (initial config) (run env events (initial config)).2 :=
  effects_of_acts (acts_of_run env events (tableRecorded_initial config))

/-- After any events, also if the last one led to a fault, the indices of every send ring are
inside it, and the event for writing is enabled wherever bytes are left to send. -/
theorem sendRings_kept (env : Env) (config : Config) (events : List Event) :
    OutsWf (run env events (initial config)).2 :=
  outsWf_of_effects (effects_of_run env config events) fun _ _ hget ↦ absurd hget nofun

variable {config : Config}

theorem Reachable.acts (hreachable : Reachable env config s) : Acts env (initial config) s := by
  obtain ⟨events, hrun⟩ := hreachable
  have hacts := acts_of_run env events (tableRecorded_initial config)
  rw [hrun] at hacts
  exact hacts

theorem Reachable.effects (hreachable : Reachable env config s) : Effects env (initial config) s :=
  effects_of_acts hreachable.acts

theorem Reachable.tableRecorded (hreachable : Reachable env config s) : TableRecorded s :=
  tableRecorded_of_effects hreachable.effects (tableRecorded_initial config)

end WisCam.Server
