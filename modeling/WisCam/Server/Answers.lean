import WisCam.Server.Replies

/-!
# What a request is answered with

Every handler of RTSP requests does three things: it comes to an answer, it sends the answer, and in
some cases it tears a session down afterwards. The answers are a small language (`Answer`), each
with the message that the handler builds for it and the body that follows. `answerTo` is the first
part of the handlers, a program that comes to an answer and sends nothing; `deliver` is the rest.
`rtspHandleMsg_eq` says that this is exactly what `rtsp_handle_msg` does, whatever the request and
the state, also where it stops at a fault.
-/

set_option autoImplicit false

namespace WisCam.Server

open Foundations Message Connection Auth

/-! ### Answers -/

/-- The errors of `rtsp_send_error`. -/
inductive Refusal
  | notFound
  | unspecifiedTransport
  | unsupportedTransport
  | sessionNotFound
  | notImplemented
  deriving DecidableEq, Repr

/-- The code of an error. -/
def Refusal.code : Refusal → ℕ
  | .notFound => 404
  | .unspecifiedTransport => 461
  | .unsupportedTransport => 461
  | .sessionNotFound => 454
  | .notImplemented => 501

/-- The reason of an error. -/
def Refusal.reason : Refusal → Bytes
  | .notFound => ascii "Not Found"
  | .unspecifiedTransport => ascii "Unspecified Transport"
  | .unsupportedTransport => ascii "Unsupported Transport"
  | .sessionNotFound => ascii "Session Not Found"
  | .notImplemented => ascii "Not Implemented"

/-- What a request is answered with: an error, the challenge of a realm, the methods of the server,
a session description, the transport and the session of a track that was set up, or the session that
plays or was torn down. -/
inductive Answer
  | refused (refusal : Refusal)
  | unauthorized (challenge : Bytes)
  | options
  | described (sdp : Bytes)
  | setUp (transport id : Bytes)
  | session (id : Bytes)
  deriving DecidableEq, Repr

/-- The answer is the challenge of a realm. -/
def Answer.challenges : Answer → Bool
  | .unauthorized _ => true
  | _ => false

/-- The code of an answer. -/
def Answer.code : Answer → ℕ
  | .refused refusal => refusal.code
  | .unauthorized _ => 401
  | _ => 200

/-- The reason of an answer. -/
def Answer.reason : Answer → Bytes
  | .refused refusal => refusal.reason
  | .unauthorized _ => ascii "Unauthorized"
  | _ => ascii "OK"

/-- The body of an answer. -/
def Answer.body : Answer → Option Bytes
  | .described sdp => some sdp
  | _ => none

/-- The message that is built for an answer. -/
def Answer.message (answer : Answer) (req : Req) : Pmsg :=
  let reply := rtspCreateReply req answer.code answer.reason
  match answer with
  | .refused _ => reply
  | .unauthorized challenge => (addHeaderPrintf reply (ascii "WWW-Authenticate") challenge).1
  | .options =>
    (addHeader reply (ascii "Public") (ascii "DESCRIBE, SETUP, TEARDOWN, PLAY, PAUSE")).1
  | .described _ => descriptionReply req
  | .setUp transport id =>
    let reply := (addHeader reply (ascii "Transport") transport).1
    (addHeader reply (ascii "Session") id).1
  | .session id => (addHeader reply (ascii "Session") id).1

/-! ### Their messages -/

theorem shortReason (answer : Answer) : ShortReason answer.reason := by
  cases answer with
  | refused refusal =>
    unfold ShortReason
    cases refusal <;> decide
  | unauthorized challenge =>
    exact (by decide : (0 : UInt8) ∉ ascii "Unauthorized" ∧ (ascii "Unauthorized").length ≤ 502)
  | _ => exact shortReason_ok

theorem reads_reply (answer : Answer) (req : Req) :
    (rtspCreateReply req answer.code answer.reason).Reads (ascii "RTSP/1.0") answer.code
      answer.reason (kept (blankReply answer.code answer.reason) (cseqHeaders req)) :=
  reads_rtspCreateReply req answer.code (shortReason answer)

/-- The headers that the handlers add themselves are not called CSeq. -/
theorem Answer.adds_message (answer : Answer) (req : Req) :
    Relation.ReflTransGen (AddsOther (ascii "CSeq"))
      (rtspCreateReply req answer.code answer.reason) (answer.message req) := by
  cases answer with
  | refused refusal => exact .refl
  | unauthorized challenge => exact .single (addsOther_addHeaderPrintf _ _ (by decide))
  | options => exact .single (addsOther_addHeader _ _ (by decide))
  | described sdp =>
    exact .tail (.single (addsOther_addHeader _ _ (by decide)))
      (addsOther_addHeader _ _ (by decide))
  | setUp transport id =>
    exact .tail (.single (addsOther_addHeader _ _ (by decide)))
      (addsOther_addHeader _ _ (by decide))
  | session id => exact .single (addsOther_addHeader _ _ (by decide))

/-- The message of an answer keeps to its buffer and its table, has the CSeq header that was copied,
and reads as a response with the code and the reason of the answer. -/
theorem Answer.reads_message (answer : Answer) (req : Req) :
    (answer.message req).Bounded 512 ∧
      getHeader (answer.message req) (ascii "CSeq") =
        getHeader (rtspCreateReply req answer.code answer.reason) (ascii "CSeq") ∧
      ∃ headers, (answer.message req).Reads (ascii "RTSP/1.0") answer.code answer.reason headers :=
  (reads_reply answer req).adds (bounded_rtspCreateReply req answer.code (shortReason answer))
    (answer.adds_message req)

/-- The head of the response, as `tcp_send_pmsg` prints it. -/
def Answer.head (answer : Answer) (req : Req) : Bytes :=
  (printedReply (answer.message req) (answer.body.map List.length)).getD []

theorem Answer.head_eq (answer : Answer) (req : Req) :
    ∃ reasonAt, (answer.message req).sl = .stat answer.code (some reasonAt) ∧
      (answer.message req).text reasonAt = answer.reason ∧
      answer.head req = printPmsg (answer.message req) answer.code (some reasonAt)
        (answer.body.map List.length) := by
  obtain ⟨-, -, headers, hreads⟩ := answer.reads_message req
  obtain ⟨reasonAt, hsl, hreason⟩ := hreads.response.2.1
  refine ⟨reasonAt, hsl, hreason, ?_⟩
  rw [Answer.head, printedReply, hsl]
  rfl

/-- The head fits the array of `tcp_send_pmsg`, unless the body is far too long for the ring. -/
theorem Answer.length_head_lt (answer : Answer) (req : Req)
    (hbody : ∀ sdp ∈ answer.body, sdp.length < 100000) : (answer.head req).length < 2048 := by
  obtain ⟨hbounded, -, headers, hreads⟩ := answer.reads_message req
  obtain ⟨reasonAt, hsl, -, hhead⟩ := answer.head_eq req
  have hcode : answer.code < 1000 := by
    cases answer with
    | refused refusal => cases refusal <;> decide
    | unauthorized challenge => exact (by decide : 401 < 1000)
    | _ => exact (by decide : 200 < 1000)
  refine printedReply_lt hreads hbounded hcode (fun n hn ↦ ?_)
    (show printedReply _ (answer.body.map List.length) = _ by rw [printedReply, hsl, hhead])
  obtain ⟨sdp, hsdp, rfl⟩ := Option.map_eq_some_iff.mp hn
  exact hbody sdp hsdp

/-! ### Coming to an answer -/

/-- An answer, and the session that is torn down once it is sent, or an endpoint of it. -/
abbrev Decision := Answer × Option (ℕ × Option ℕ)

/-- The value of the header that `add_digest_challenge` adds. -/
def challengeText (md5 : Md5) (secret : Bytes) (now : ℕ) (random realm : Bytes) (stale : Bool) :
    Bytes :=
  ascii "Digest realm=\"" ++ realm ++ ascii "\", nonce=\"" ++ createNonce md5 secret now random ++
    ascii "\"" ++ if stale then ascii ", stale=true" else []

/-- The challenge for a request that does not pass the check of a location's realm. -/
def challengeFor (env : Env) (now : ℕ) (req : Req) (loc : ℕ) (location : RtspLocation) :
    Srv (Option Bytes) :=
  if location.realm = [] then return none
  else do
    let s ← .get
    let ret := checkDigestResponse env.md5 s.secret now req.msg req.method req.uri location.realm
      location.username location.password
    if 0 < ret then do
      log (.verified req.conn req.msg loc)
      return none
    else do
      let secret ← digestSecret env
      let random ← randomBytes env 12
      return some (challengeText env.md5 secret now random location.realm (ret = 0))

theorem toNat_lt_two {track : ℤ} (htrack : 0 ≤ track ∧ track < 2) : track.toNat < 2 := by omega

/-- The answer to a DESCRIBE request. -/
def answerDescribe (env : Env) (now : ℕ) (req : Req) : Srv Decision := do
  let (found, _) ← findRtspLocation req.uri (some 256) false
  match found with
  | none => return (.refused .notFound, none)
  | some (loc, location) => do
    let opened ← liveOpen req.conn req.msg loc location
    match opened with
    | none => return (.refused .notFound, none)
    | some sess => do
      let challenge ← challengeFor env now req loc location
      match challenge with
      | some challenge => return (.unauthorized challenge, none)
      | none => do
        let s ← .get
        let session ← derefSession sess
        let source ← derefSource session.source
        match liveGetSdp s session source with
        | some sdp =>
          if 512 ≤ (req.uri ++ [47]).length then .fault .overflow
          else return (.described sdp, some (sess, none))
        | none => return (.refused .notFound, some (sess, none))

/-- The answer to a SETUP request, from the choice of the session on. -/
def answerTrack (env : Env) (req : Req) (loc : ℕ) (track : Track) (t : Bytes) (sess : ℕ)
    (id : Option Bytes) : Srv Decision := do
  let session ← derefSession sess
  if (session.ep track).isSome then return (.refused .unsupportedTransport, none)
  else do
    let created ← liveSetup env sess track
    match created with
    | none => return (.refused .notFound, if id.isNone then some (sess, none) else none)
    | some ep => do
      log (.endpointSet req.conn req.msg loc sess ep)
      let transport ← setupTransport env req.conn ep t
      match transport with
      | none => return (.refused .unsupportedTransport, some (sess, some ep))
      | some transport => do
        let id ← match id with
          | some id => pure id
          | none => newRtspSession env sess
        return (.setUp transport id, none)

/-- The answer to a SETUP request. -/
def answerSetup (env : Env) (now : ℕ) (req : Req) : Srv Decision := do
  let (found, track) ← findRtspLocation req.uri (some 256) true
  match found with
  | none => return (.refused .notFound, none)
  | some (loc, location) =>
    if h : 0 ≤ track ∧ track < 2 then do
      let challenge ← challengeFor env now req loc location
      match challenge with
      | some challenge => return (.unauthorized challenge, none)
      | none =>
        match getHeader req.msg (ascii "Transport") with
        | none => return (.refused .unspecifiedTransport, none)
        | some t => do
          let id := getHeader req.msg (ascii "Session")
          let chosen ← setupSession req loc location id
          match chosen with
          | none => return (.refused (if id.isNone then .notFound else .sessionNotFound), none)
          | some (sess, id) => answerTrack env req loc ⟨track.toNat, toNat_lt_two h⟩ t sess id
    else return (.refused .notFound, none)

/-- The answer to a PLAY request. -/
def answerPlay (req : Req) : Srv Decision := do
  let rs ← getSession (getHeader req.msg (ascii "Session"))
  match rs with
  | none => return (.refused .sessionNotFound, none)
  | some rs => do
    livePlay rs.sess
    return (.session rs.id, none)

/-- The answer to a PAUSE request. -/
def answerPause (req : Req) : Srv Decision := do
  let rs ← getSession (getHeader req.msg (ascii "Session"))
  return (.refused (if rs.isNone then .sessionNotFound else .notImplemented), none)

/-- The answer to a TEARDOWN request, which is sent after the session is torn down. -/
def answerTeardown (req : Req) : Srv Decision := do
  let (found, track) ← findRtspLocation req.uri none true
  match found with
  | none => return (.refused .notFound, none)
  | some (loc, _) =>
    if 2 ≤ track then return (.refused .notFound, none)
    else do
      let rs ← getSession (getHeader req.msg (ascii "Session"))
      match rs with
      | none => return (.refused .sessionNotFound, none)
      | some rs => do
        log (.tornDown req.conn req.msg loc rs.sess)
        let session ← derefSession rs.sess
        liveTeardown rs.sess
          (if h : 0 ≤ track ∧ track < 2 then session.ep ⟨track.toNat, toNat_lt_two h⟩ else none)
        return (.session rs.id, none)

/-- The answer to a request. -/
def answerTo (env : Env) (now : ℕ) (req : Req) : Srv Decision :=
  if sameNoCase req.method (ascii "OPTIONS") then return (.options, none)
  else if sameNoCase req.method (ascii "DESCRIBE") then answerDescribe env now req
  else if sameNoCase req.method (ascii "SETUP") then answerSetup env now req
  else if sameNoCase req.method (ascii "PLAY") then answerPlay req
  else if sameNoCase req.method (ascii "PAUSE") then answerPause req
  else if sameNoCase req.method (ascii "TEARDOWN") then answerTeardown req
  else return (.refused .notImplemented, none)

/-! ### Delivering it -/

/-- Sends an answer: its message and, if that was sent, its body. -/
def sendAnswer (req : Req) (answer : Answer) : Srv Unit := do
  let sent ← tcpSendPmsg req.conn (answer.message req) (answer.body.map List.length)
  match answer.body with
  | some sdp =>
    if sent then do
      let _ ← sendTo req.conn sdp
    else pure ()
  | none => pure ()

/-- Sends an answer and tears down what is left. -/
def deliver (req : Req) (decision : Decision) : Srv Unit := do
  sendAnswer req decision.1
  match decision.2 with
  | some (sess, ep) => liveTeardown sess ep
  | none => pure ()

variable {env : Env} {now : ℕ} {req : Req}

open Program

/-- An answer without a body is one call of `tcp_send_pmsg`. -/
theorem sendAnswer_of_body {answer : Answer} (hbody : answer.body = none) :
    sendAnswer req answer =
      (do let _ ← tcpSendPmsg req.conn (answer.message req) none : Srv Unit) := by
  rw [sendAnswer, hbody]
  rfl

theorem deliver_eq (decision : Decision) :
    deliver req decision = sendAnswer req decision.1 >>= fun _ ↦
      match decision.2 with
      | some (sess, ep) => liveTeardown sess ep
      | none => pure () := rfl

theorem deliver_none (answer : Answer) : deliver req (answer, none) = sendAnswer req answer :=
  bind_pure _

theorem deliver_refused (refusal : Refusal) :
    deliver req (.refused refusal, none) = rtspSendError req refusal.code refusal.reason := by
  rw [deliver_none, sendAnswer_of_body rfl]
  rfl

theorem deliver_refused_left (refusal : Refusal) (sess : ℕ) (ep : Option ℕ) :
    deliver req (.refused refusal, some (sess, ep)) =
      rtspSendError req refusal.code refusal.reason >>= fun _ ↦ liveTeardown sess ep := by
  rw [deliver_eq, sendAnswer_of_body rfl]
  rfl

/-- The check of a realm sends the challenge itself. -/
theorem checkRealm_eq (loc : ℕ) (location : RtspLocation) :
    checkRealm env now req loc location = challengeFor env now req loc location >>= fun challenge ↦
      match challenge with
      | none => pure true
      | some challenge => sendAnswer req (.unauthorized challenge) >>= fun _ ↦ pure false := by
  unfold checkRealm challengeFor
  split_ifs with hrealm
  · rfl
  · unfold rtspVerifyAuth
    rw [bind_assoc]
    refine bind_congr fun s ↦ ?_
    dsimp only
    split_ifs with hret
    · rw [bind_assoc]
      rfl
    · simp only [bind_assoc]
      refine bind_congr fun secret ↦ bind_congr fun random ↦ ?_
      rw [pure_bind]
      dsimp only
      rw [sendAnswer_of_body rfl, bind_assoc]
      rfl

theorem handleDescribe_eq :
    handleDescribe env now req = answerDescribe env now req >>= deliver req := by
  unfold handleDescribe answerDescribe
  rw [bind_assoc]
  refine bind_congr fun found ↦ ?_
  obtain ⟨found, track⟩ := found
  cases found with
  | none => exact (deliver_refused .notFound).symm
  | some found =>
    obtain ⟨loc, location⟩ := found
    dsimp only
    rw [bind_assoc]
    refine bind_congr fun opened ↦ ?_
    cases opened with
    | none => exact (deliver_refused .notFound).symm
    | some sess =>
      dsimp only
      rw [checkRealm_eq, bind_assoc, bind_assoc]
      refine bind_congr fun challenge ↦ ?_
      cases challenge with
      | some challenge =>
        dsimp only
        rw [bind_assoc]
        rfl
      | none =>
        dsimp only
        rw [pure_bind, if_pos rfl]
        simp only [bind_assoc]
        refine bind_congr fun s ↦ bind_congr fun session ↦ bind_congr fun source ↦ ?_
        cases liveGetSdp s session source with
        | none => exact (deliver_refused_left .notFound sess none).symm
        | some sdp =>
          dsimp only
          unfold sendDescription
          split_ifs with hlong
          · rfl
          · rw [pure_bind, deliver_eq]
            rfl

theorem setupTrack_eq (loc : ℕ) (track : Track) (t : Bytes) (sess : ℕ) (id : Option Bytes) :
    setupTrack env req loc track t sess id =
      answerTrack env req loc track t sess id >>= deliver req := by
  unfold setupTrack answerTrack
  rw [bind_assoc]
  refine bind_congr fun session ↦ ?_
  by_cases hused : (session.ep track).isSome
  · rw [if_pos hused, if_pos hused, pure_bind, deliver_refused]
    rfl
  · rw [if_neg hused, if_neg hused, bind_assoc]
    refine bind_congr fun created ↦ ?_
    cases created with
    | none =>
      dsimp only
      rw [pure_bind]
      split_ifs
      · exact (deliver_refused_left .notFound sess none).symm
      · rw [deliver_refused]
        exact bind_pure _
    | some ep =>
      dsimp only
      simp only [bind_assoc]
      refine bind_congr fun _ ↦ bind_congr fun transport ↦ ?_
      cases transport with
      | none =>
        dsimp only
        rw [pure_bind, deliver_refused_left]
        rfl
      | some transport =>
        dsimp only
        cases id with
        | some id =>
          simp only [pure_bind]
          rw [deliver_none, sendAnswer_of_body rfl]
          rfl
        | none =>
          dsimp only
          rw [bind_assoc]
          refine bind_congr fun id ↦ ?_
          rw [pure_bind, deliver_none, sendAnswer_of_body rfl]
          rfl

theorem handleSetup_eq : handleSetup env now req = answerSetup env now req >>= deliver req := by
  unfold handleSetup answerSetup
  rw [bind_assoc]
  refine bind_congr fun found ↦ ?_
  obtain ⟨found, track⟩ := found
  cases found with
  | none => exact (deliver_refused .notFound).symm
  | some found =>
    obtain ⟨loc, location⟩ := found
    dsimp only
    by_cases htrack : 0 ≤ track ∧ track < 2
    · rw [dif_pos htrack, dif_pos htrack, checkRealm_eq, bind_assoc, bind_assoc]
      refine bind_congr fun challenge ↦ ?_
      cases challenge with
      | some challenge =>
        dsimp only
        rw [bind_assoc]
        rfl
      | none =>
        dsimp only
        rw [pure_bind, if_pos rfl]
        cases getHeader req.msg (ascii "Transport") with
        | none => exact (deliver_refused .unspecifiedTransport).symm
        | some t =>
          dsimp only
          rw [bind_assoc]
          refine bind_congr fun chosen ↦ ?_
          cases chosen with
          | none =>
            dsimp only
            rw [pure_bind, deliver_refused]
            split_ifs <;> rfl
          | some chosen => exact setupTrack_eq ..
    · rw [dif_neg htrack, dif_neg htrack]
      exact (deliver_refused .notFound).symm

theorem handlePlay_eq : handlePlay req = answerPlay req >>= deliver req := by
  unfold handlePlay answerPlay
  rw [bind_assoc]
  refine bind_congr fun rs ↦ ?_
  cases rs with
  | none => exact (deliver_refused .sessionNotFound).symm
  | some rs =>
    dsimp only
    rw [bind_assoc]
    refine bind_congr fun _ ↦ ?_
    rw [pure_bind, deliver_none, sendAnswer_of_body rfl]
    rfl

theorem handlePause_eq : handlePause req = answerPause req >>= deliver req := by
  unfold handlePause answerPause
  rw [bind_assoc]
  refine bind_congr fun rs ↦ ?_
  rw [pure_bind, deliver_refused]
  cases rs <;> rfl

theorem handleTeardown_eq : handleTeardown req = answerTeardown req >>= deliver req := by
  unfold handleTeardown answerTeardown
  rw [bind_assoc]
  refine bind_congr fun found ↦ ?_
  obtain ⟨found, track⟩ := found
  cases found with
  | none => exact (deliver_refused .notFound).symm
  | some found =>
    dsimp only
    by_cases htrack : 2 ≤ track
    · rw [if_pos htrack, if_pos htrack]
      exact (deliver_refused .notFound).symm
    · rw [if_neg htrack, if_neg htrack, bind_assoc]
      refine bind_congr fun rs ↦ ?_
      cases rs with
      | none => exact (deliver_refused .sessionNotFound).symm
      | some rs =>
        dsimp only
        simp only [bind_assoc, pure_bind]
        refine bind_congr fun _ ↦ bind_congr fun session ↦ bind_congr fun _ ↦ ?_
        rw [deliver_none, sendAnswer_of_body rfl]
        rfl

/-- `rtsp_handle_msg` comes to an answer, sends it, and tears down what is left. -/
theorem rtspHandleMsg_eq : rtspHandleMsg env now req = answerTo env now req >>= deliver req := by
  unfold rtspHandleMsg answerTo
  split_ifs
  · rw [pure_bind, deliver_none, sendAnswer_of_body rfl]
    rfl
  · exact handleDescribe_eq
  · exact handleSetup_eq
  · exact handlePlay_eq
  · exact handlePause_eq
  · exact handleTeardown_eq
  · exact (deliver_refused .notImplemented).symm

end WisCam.Server
