import WisCam.Server.Locations
import WisCam.Server.SessionRuns

/-!
# Tearing down one track

A TEARDOWN request whose URI ends in `/track` and a number is meant for one track of the session
that its Session header names. The handler passes the endpoint of that track to `live_teardown`,
which takes a null pointer for all endpoints of the session. So a request for a track that has not
been set up, or for one with a negative number, ends the whole session.
-/

set_option autoImplicit false

namespace WisCam.Server

open Foundations Message Connection Auth Program List

variable {env : Env} {s s' : State} {req : Req} {n : ℤ} {sess : ℕ} {session : Session}

/-! ### The track that a URI names -/

/-- The value of a number in a URI. -/
def numberValue (text : Bytes) : ℤ :=
  if text.head? = some 45 then -(digitsValue 0 (text.drop 1) : ℤ)
  else if text.head? = some 43 then digitsValue 0 (text.drop 1)
  else digitsValue 0 text

/-- `strtol` reads a number to its end. -/
theorem strtol_of_isNumber {text : Bytes} (hnumber : isNumber text = true) :
    strtol text = (clampLong (numberValue text), text.length) := by
  have hwhole {digits : Bytes} (hall : digits.all isDigit = true) :
      digits.takeWhile isDigit = digits :=
    takeWhile_eq_self_iff.mpr (all_eq_true.mp hall)
  cases text with
  | nil => exact absurd hnumber (by decide)
  | cons b rest =>
    by_cases hsign : b = 45 ∨ b = 43
    · have hspace : isSpace b = false := by rcases hsign with rfl | rfl <;> rfl
      simp only [isNumber, List.head?_cons, Option.some.injEq, hsign, if_true, drop_one,
        tail_cons, Bool.and_eq_true, Bool.not_eq_true', isEmpty_eq_false_iff] at hnumber
      simp only [strtol, takeWhile_cons, hspace, Bool.false_eq_true, if_false,
        length_nil, drop_zero, List.head?_cons, Option.some.injEq, hsign, if_true,
        drop_one, tail_cons, hwhole hnumber.2, numberValue]
      rw [if_neg hnumber.1]
      rcases hsign with rfl | rfl <;> simp [Nat.add_comm]
    · simp only [isNumber, List.head?_cons, Option.some.injEq, hsign, if_false,
        Bool.and_eq_true] at hnumber
      have hspace : isSpace b = false :=
        isSpace_of_isDigit (all_eq_true.mp hnumber.2 b mem_cons_self)
      rw [not_or] at hsign
      simp only [strtol, takeWhile_cons (p := isSpace), hspace, Bool.false_eq_true, if_false,
        length_nil, drop_zero, List.head?_cons, Option.some.injEq, hsign, or_self,
        hwhole hnumber.2, numberValue]
      simp

/-- The URI ends in `/track` and a number with this value, and not as the host of `rtsp://`. -/
def NamesTrack (uri : Bytes) (n : ℤ) : Prop :=
  ∃ front number, uri = front ++ 47 :: (ascii "track" ++ number) ∧ isNumber number = true ∧
    numberValue number = n ∧ (sameFirstNoCase 7 uri (ascii "rtsp://") = true → 7 ≤ front.length)

theorem slash_notMem_of_isNumber {number : Bytes} (hnumber : isNumber number = true) :
    (47 : UInt8) ∉ number := by
  simp only [isNumber, Bool.and_eq_true, all_eq_true] at hnumber
  have hslash := fun hmem ↦ hnumber.2 47 hmem
  split_ifs at hslash with hsign
  · cases number with
    | nil => exact not_mem_nil
    | cons b rest =>
      rintro hmem
      rcases mem_cons.mp hmem with rfl | hmem
      · simp at hsign
      · exact absurd (hslash hmem) (by decide)
  · exact fun hmem ↦ absurd (hslash hmem) (by decide)

/-- The handler reads the track from the URI, as a `long` can hold it. -/
theorem splitTrack_of_namesTrack {uri path : Bytes} (hnames : NamesTrack uri n)
    (hpath : getLocalPath uri = some path) : (splitTrack path).1 = clampLong n := by
  obtain ⟨front, number, rfl, hnumber, rfl, hfront⟩ := hnames
  obtain ⟨hrtsp, -⟩ := getLocalPath_eq_some hpath
  have hstart : sameFirstNoCase 7 front (ascii "rtsp://") = true := by
    rwa [sameFirstNoCase, take_append_of_le_length (hfront hrtsp)] at hrtsp
  rw [getLocalPath_append hstart] at hpath
  obtain rfl := Option.some.inj hpath
  rw [splitTrack_of_number _ (slash_notMem_of_isNumber hnumber) (strtol_of_isNumber hnumber)]

/-- What the lookup gives for a URI that names a track. -/
theorem findRtspLocation_of_namesTrack (s : State) (hnames : NamesTrack req.uri n) :
    (∃ loc, findRtspLocation req.uri none true s = (.ok (some loc, clampLong n), s)) ∨
      ∃ track, findRtspLocation req.uri none true s = (.ok (none, track), s) := by
  cases hpath : getLocalPath req.uri with
  | none =>
    refine .inr ⟨-1, ?_⟩
    rw [findRtspLocation, locationPath, hpath]
    rfl
  | some path =>
    have hfound := @findRtspLocation_eq path req.uri none true s hpath
      fun _ hsize ↦ absurd hsize (Option.not_mem_none _)
    rw [if_pos rfl, splitTrack_of_namesTrack hnames hpath] at hfound
    cases hresult : ((s.rtspLocs.map RtspLocation.node).findIdx?
        (·.passes path (lookupLength path true))).bind
          (fun loc ↦ s.rtspLocs[loc]?.map (loc, ·)) with
    | none => exact .inr ⟨_, by rw [hfound, hresult]⟩
    | some loc => exact .inl ⟨loc, by rw [hfound, hresult]⟩

theorem two_le_clampLong : 2 ≤ clampLong n ↔ 2 ≤ n := by
  unfold clampLong
  omega

/-! ### What a request for one track may change -/

/-- The request names the session in its Session header. -/
def NamedSession (s : State) (req : Req) (sess : ℕ) : Prop :=
  ∃ rs, getSession (getHeader req.msg (ascii "Session")) s = (.ok (some rs), s) ∧ rs.sess = sess

/-- At most the endpoint of the track `n` of the session that the request names is gone: the other
endpoints are there, those of the session play as before, and the session is deleted only if it had
no other endpoint. -/
structure RemovesTrack (s s' : State) (req : Req) (n : ℤ) : Prop where
  endpoints : ∀ ep endpoint, s.endpoints.get? ep = some endpoint →
    s'.endpoints.get? ep = some endpoint ∨ ∃ sess session t, NamedSession s req sess ∧
      s.sessions.get? sess = some session ∧ session.ep t = some ep ∧ (t.val : ℤ) = n
  playing : ∀ sess session t ep, NamedSession s req sess → s.sessions.get? sess = some session →
    session.ep t = some ep → (t.val : ℤ) ≠ n →
    ∃ session', s'.sessions.get? sess = some session' ∧ session'.ep t = some ep ∧
      session'.playing = session.playing ∧
      s'.liveTrack session.source t = s.liveTrack session.source t
  others : ∀ sess, ¬ NamedSession s req sess → s'.sessions.get? sess = s.sessions.get? sess
  deleted : ∀ sess session, s.sessions.get? sess = some session → s'.sessions.get? sess = none →
    NamedSession s req sess ∧ ∀ t ep, session.ep t = some ep → (t.val : ℤ) = n

/-- The request gets as far as the session: it names a location, a track that may exist, and the
session. -/
structure GetsTo (s : State) (req : Req) (n : ℤ) (sess : ℕ) (session : Session) : Prop where
  location : ∃ loc track, findRtspLocation req.uri none true s = (.ok (some loc, track), s)
  track : n < 2
  named : NamedSession s req sess
  present : s.sessions.get? sess = some session

/-- A reply changes nothing of the sessions. -/
theorem removesTrack_of_reply (conns : NodeTable Conn) (req : Req) (n : ℤ) :
    RemovesTrack s { s with conns := conns } req n where
  endpoints _ _ hget := .inl hget
  playing _ session _ _ _ hsession hep _ := ⟨session, hsession, hep, rfl, rfl⟩
  others _ _ := rfl
  deleted _ _ hsession hgone := absurd (hsession.symm.trans hgone) nofun

/-! ### The handler -/

/-- Sending an answer without a body returns, and changes nothing but the connections. -/
theorem tcpSendPmsg_returns {conn : Conn} (hconn : s.conns.get? req.conn = some conn)
    {answer : Answer} (hbody : answer.body = none) :
    ∃ sent conns, tcpSendPmsg req.conn (answer.message req) none s =
      (.ok sent, { s with conns := conns }) := by
  obtain ⟨reasonAt, hsl, -, hhead⟩ := answer.head_eq req
  have hshort := answer.length_head_lt req fun _ hsdp ↦ absurd (hbody.symm.trans hsdp) nofun
  rw [hhead, hbody, Option.map_none] at hshort
  rw [tcpSendPmsg_eq hconn, hsl]
  dsimp only
  rw [if_neg (Nat.not_le.mpr hshort)]
  split_ifs with hfull
  · exact ⟨false, s.conns, rfl⟩
  · exact ⟨true, _, rfl⟩

theorem rtspSendError_returns {conn : Conn} (hconn : s.conns.get? req.conn = some conn)
    (refusal : Refusal) :
    ∃ conns, rtspSendError req refusal.code refusal.reason s =
      (.ok (), { s with conns := conns }) := by
  obtain ⟨sent, conns, heq⟩ := @tcpSendPmsg_returns s req conn hconn (.refused refusal) rfl
  refine ⟨conns, ?_⟩
  rw [← deliver_refused, deliver_none, sendAnswer_of_body rfl, bind_apply, heq]
  rfl

/-- The endpoint that the handler passes to `live_teardown`. -/
def chosenEndpoint (session : Session) (n : ℤ) : Option ℕ :=
  if h : 0 ≤ n ∧ n < 2 then session.ep ⟨n.toNat, toNat_lt_two h⟩ else none

theorem chosenEndpoint_clampLong (session : Session) (n : ℤ) :
    chosenEndpoint session (clampLong n) = chosenEndpoint session n := by
  by_cases hrange : 0 ≤ n ∧ n < 2
  · have hsame : clampLong n = n := by
      unfold clampLong
      omega
    rw [hsame]
  · have hrange' : ¬ (0 ≤ clampLong n ∧ clampLong n < 2) := by
      unfold clampLong
      omega
    rw [chosenEndpoint, chosenEndpoint, dif_neg hrange, dif_neg hrange']

theorem chosenEndpoint_eq (session : Session) (t : Track) :
    chosenEndpoint session t.val = session.ep t := by
  have ht := t.isLt
  rw [chosenEndpoint, dif_pos (by omega)]
  rfl

/-- The handler from the session on. -/
theorem teardown_reply {conn : Conn} (hlinked : Linked s)
    (hconn : s.conns.get? req.conn = some conn) (hsession : s.sessions.get? sess = some session)
    (track : ℤ) (id : Bytes) :
    ∃ s' conns, TornDown s s' sess session (chosenEndpoint session track) ∧
      (do
        let session ← derefSession sess
        liveTeardown sess (chosenEndpoint session track)
        let _ ← tcpSendPmsg req.conn ((Answer.session id).message req) none : Srv Unit) s =
          (.ok (), { s' with conns := conns }) := by
  obtain ⟨s', heq, -, htorn⟩ := liveTeardown_spec (chosenEndpoint session track) hlinked hsession
  obtain ⟨conn', hconn'⟩ : ∃ conn', s'.conns.get? req.conn = some conn' := by
    rw [← Option.isSome_iff_exists, htorn.conns.isSome]
    exact Option.isSome_iff_exists.mpr ⟨conn, hconn⟩
  obtain ⟨sent, conns, hsend⟩ := @tcpSendPmsg_returns s' req conn' hconn' (.session id) rfl
  refine ⟨s', conns, htorn, ?_⟩
  rw [derefSession_apply hsession, bind_apply, heq]
  dsimp only
  rw [bind_apply, hsend]
  rfl

/-- The handler refuses the request, or it tears down what it has chosen and replies. -/
theorem handleTeardown_spec {conn : Conn} (htidy : Tidy s)
    (hconn : s.conns.get? req.conn = some conn) (hnames : NamesTrack req.uri n) :
    ((∀ sess session, ¬ GetsTo s req n sess session) ∧
        ∃ conns, handleTeardown req s = (.ok (), { s with conns := conns })) ∨
      ∃ sess session obs s' conns, GetsTo s req n sess session ∧
        TornDown { s with trace := s.trace ++ [obs] } s' sess session (chosenEndpoint session n) ∧
        handleTeardown req s = (.ok (), { s' with conns := conns }) := by
  have herror := @rtspSendError_returns s req conn hconn
  rcases findRtspLocation_of_namesTrack s hnames with ⟨loc, hfound⟩ | ⟨track, hnone⟩
  · by_cases htrack : 2 ≤ n
    · obtain ⟨conns, heq⟩ := herror .notFound
      refine .inl ⟨fun sess session hgets ↦ absurd htrack (Int.not_le.mpr hgets.track), conns, ?_⟩
      rw [handleTeardown, bind_apply, hfound]
      dsimp only
      rw [if_pos (two_le_clampLong.mpr htrack)]
      exact heq
    obtain ⟨found, hsearch⟩ : ∃ found, getSession (getHeader req.msg (ascii "Session")) s =
        (.ok found, s) := ⟨_, rfl⟩
    cases found with
    | none =>
      obtain ⟨conns, heq⟩ := herror .sessionNotFound
      refine .inl ⟨?_, conns, ?_⟩
      · rintro sess session ⟨-, -, ⟨rs, hrs, -⟩, -⟩
        exact absurd (Except.ok.inj (congrArg Prod.fst (hsearch.symm.trans hrs))) nofun
      · rw [handleTeardown, bind_apply, hfound]
        dsimp only
        rw [if_neg (two_le_clampLong.not.mpr htrack), bind_apply, hsearch]
        exact heq
    | some rs =>
      obtain ⟨index, hentry, -⟩ := of_getSession hsearch
      obtain ⟨session, hsession, -⟩ := htidy.sessionsFound.live index rs hentry
      have hlogged : Linked { s with
          trace := s.trace ++ [.tornDown req.conn req.msg loc.1 rs.sess] } :=
        ⟨htidy.wired.congr rfl rfl, htidy.sound, htidy.tracks, htidy.conns⟩
      obtain ⟨s', conns, htorn, heq⟩ := teardown_reply hlogged hconn hsession (clampLong n) rs.id
      rw [chosenEndpoint_clampLong] at htorn
      refine .inr ⟨rs.sess, session, _, s', conns, ⟨⟨loc, _, hfound⟩, Int.not_le.mp htrack,
        ⟨rs, hsearch, rfl⟩, hsession⟩, htorn, ?_⟩
      rw [handleTeardown, bind_apply, hfound]
      dsimp only
      rw [if_neg (two_le_clampLong.not.mpr htrack), bind_apply, hsearch]
      exact heq
  · obtain ⟨conns, heq⟩ := herror .notFound
    refine .inl ⟨?_, conns, ?_⟩
    · rintro sess session ⟨⟨loc, track', hloc⟩, -, -, -⟩
      have hsame := congrArg Prod.fst (Except.ok.inj (congrArg Prod.fst (hnone.symm.trans hloc)))
      exact absurd hsame nofun
    · rw [handleTeardown, bind_apply, hnone]
      exact heq

theorem rtspHandleMsg_teardown {now : ℕ}
    (hmethod : sameNoCase req.method (ascii "TEARDOWN") = true) :
    rtspHandleMsg env now req = handleTeardown req := by
  have hlower := beq_iff_eq.mp hmethod
  simp only [rtspHandleMsg, sameNoCase, hlower]
  rfl

theorem NamedSession.unique {sess' : ℕ} (hnamed : NamedSession s req sess)
    (hnamed' : NamedSession s req sess') : sess = sess' := by
  obtain ⟨rs, hrs, rfl⟩ := hnamed
  obtain ⟨rs', hrs', rfl⟩ := hnamed'
  have hsame := Except.ok.inj (congrArg Prod.fst (hrs.symm.trans hrs'))
  rw [Option.some.inj hsame]

/-- A session that a request names has an endpoint. -/
theorem NamedSession.endpoint (hnamed : NamedSession s req sess) (htidy : Tidy s)
    (hsession : s.sessions.get? sess = some session) :
    ∃ t ep endpoint, session.ep t = some ep ∧ s.endpoints.get? ep = some endpoint := by
  obtain ⟨rs, hrs, rfl⟩ := hnamed
  obtain ⟨index, hentry, -⟩ := of_getSession hrs
  have hhandle : s.ownership.handleOf index = some rs.sess := by simp [State.ownership, hentry]
  obtain ⟨t, ep, hholds⟩ := htidy.filled index rs.sess hhandle
  have hep := (holds_iff_ep hsession).mp hholds
  obtain ⟨endpoint, hget, -⟩ := htidy.endpoint hsession hep
  exact ⟨t, ep, endpoint, hep, hget⟩

/-- Two tracks of a session have different endpoints. -/
theorem Linked.not_chosen {t t' : Track} {ep ep' : ℕ} (hlinked : Linked s)
    (hsession : s.sessions.get? sess = some session) (hep : session.ep t = some ep)
    (hep' : session.ep t' = some ep') (htrack : (t'.val : ℤ) ≠ t.val) :
    ¬ (some ep = none ∨ some ep = some ep') := by
  rintro (hnone | hsame)
  · exact absurd hnone nofun
  · obtain rfl := Option.some.inj hsame
    have hslot := hlinked.sound.slot_inj sess t t' ep ((holds_iff_ep hsession).mpr hep)
      ((holds_iff_ep hsession).mpr hep')
    exact htrack (by rw [hslot])

/-- Tearing down the endpoint of a track leaves the others alone. -/
theorem removesTrack_of_tornDown {t : Track} {ep : ℕ} {obs : Obs} (conns : NodeTable Conn)
    (hlinked : Linked s) (hnamed : NamedSession s req sess)
    (hsession : s.sessions.get? sess = some session) (hep : session.ep t = some ep)
    (htorn : TornDown { s with trace := s.trace ++ [obs] } s' sess session (some ep)) :
    RemovesTrack s { s' with conns := conns } req t.val where
  endpoints e endpoint hget := by
    by_cases hsame : e = ep
    · subst hsame
      exact .inr ⟨sess, session, t, hnamed, hsession, hep, rfl⟩
    · refine .inl ((htorn.endpoints e endpoint).mpr ⟨hget, ?_⟩)
      rintro ⟨hchosen, -⟩
      exact hsame (Option.some.inj (hchosen.resolve_left nofun)).symm
  playing sess' session₁ t' e hnamed' hsession₁ hep₁ htrack := by
    obtain rfl := hnamed.unique hnamed'
    obtain rfl := Option.some.inj (hsession.symm.trans hsession₁)
    exact htorn.left t' e hep₁ (hlinked.not_chosen hsession hep hep₁ htrack)
  others sess' hother := by
    refine htorn.others sess' ?_
    rintro rfl
    exact hother hnamed
  deleted sess' session₁ hsession₁ hgone := by
    by_cases hsame : sess' = sess
    · subst hsame
      obtain rfl := Option.some.inj (hsession.symm.trans hsession₁)
      refine ⟨hnamed, fun t' e hep₁ ↦ ?_⟩
      by_contra htrack
      obtain ⟨session', hsession', -⟩ :=
        htorn.left t' e hep₁ (hlinked.not_chosen hsession hep hep₁ htrack)
      exact absurd (hgone.symm.trans hsession') nofun
    · have hkept := (htorn.others sess' hsame).trans hsession₁
      exact absurd (hgone.symm.trans hkept) nofun

/-! ### The result -/

/-- A TEARDOWN request that names a track removes at most the endpoint of that track exactly if,
where it gets as far as the session, that track has been set up. Otherwise it ends the session with
all its endpoints.

Assumes: the actions of the server have led to the state, as they do wherever a request is handed to
its handler, and the request is a TEARDOWN on a connection that is there, for a URI that names the
track `n`. -/
theorem teardown_removes_track_iff (env : Env) (config : Config) (s : State) (now : ℕ) (req : Req)
    (conn : Conn) (n : ℤ) (hacts : Acts env (initial config) s)
    (hconn : s.conns.get? req.conn = some conn)
    (hmethod : sameNoCase req.method (ascii "TEARDOWN") = true) (hnames : NamesTrack req.uri n) :
    (∃ s', rtspHandleMsg env now req s = (.ok (), s') ∧ RemovesTrack s s' req n) ↔
      ∀ sess session, GetsTo s req n sess session →
        ∃ t : Track, (t.val : ℤ) = n ∧ (session.ep t).isSome := by
  have htidy := tidy_of_acts hacts (tidy_initial config)
  rw [rtspHandleMsg_teardown hmethod]
  rcases handleTeardown_spec htidy hconn hnames with
    ⟨hnone, conns, heq⟩ | ⟨sess, session, obs, s', conns, hgets, htorn, heq⟩
  · exact iff_of_true ⟨_, heq, removesTrack_of_reply conns req n⟩
      fun sess session hgets ↦ absurd hgets (hnone sess session)
  have hunique {sess' : ℕ} {session' : Session} (hnamed : NamedSession s req sess')
      (hsession : s.sessions.get? sess' = some session') : session' = session := by
    rw [← hgets.named.unique hnamed, hgets.present] at hsession
    exact (Option.some.inj hsession).symm
  constructor
  · rintro ⟨s'', heq', hremoves⟩ sess' session' hgets'
    obtain rfl := hunique hgets'.named hgets'.present
    obtain rfl := congrArg Prod.snd (heq.symm.trans heq')
    by_contra hunset
    -- The handler passes a null pointer, and so every endpoint of the session is gone.
    have hchosen : chosenEndpoint session' n = none := by
      rw [chosenEndpoint]
      split_ifs with hrange
      · refine Option.not_isSome_iff_eq_none.mp fun hsome ↦ hunset ⟨_, ?_, hsome⟩
        exact Int.toNat_of_nonneg hrange.1
      · rfl
    obtain ⟨t, ep, endpoint, hep, hget⟩ := hgets.named.endpoint htidy hgets.present
    rcases hremoves.endpoints ep endpoint hget with
      hkept | ⟨sess', session'', t', hnamed', hsession', hep', htrack⟩
    · exact ((htorn.endpoints ep endpoint).mp hkept).2 ⟨.inl hchosen, t, hep⟩
    · rw [hunique hnamed' hsession'] at hep'
      exact hunset ⟨t', htrack, by rw [hep']; rfl⟩
  · intro hset
    obtain ⟨t, rfl, hsome⟩ := hset sess session hgets
    obtain ⟨ep, hep⟩ := Option.isSome_iff_exists.mp hsome
    rw [chosenEndpoint_eq, hep] at htorn
    refine ⟨_, heq, ?_⟩
    exact removesTrack_of_tornDown conns htidy.toLinked hgets.named hgets.present hep htorn

/-- The headers of the client that has set up a track, once it knows the id of its session. -/
def sessionHeader : Bytes := ascii "Session: 0A0B0C0D0E0F101112131415161718\r\n"

/-- The client sets up the second track as well. -/
def bothTracksEvents : List Event :=
  interleavedEvents ++ [.read 0 false 0 (ascii "SETUP rtsp://h/open/track1 RTSP/1.0\r\n" ++
    ascii "Transport: RTP/AVP/TCP;interleaved=2-3\r\n" ++ sessionHeader ++ ascii "\r\n")]

/-- A TEARDOWN request of that client. -/
def teardownRequest (uri : Bytes) : Req :=
  ⟨0, sampleMessage (ascii "TEARDOWN " ++ uri ++ ascii " RTSP/1.0\r\n" ++ sessionHeader ++
    ascii "\r\n"), ascii "TEARDOWN", uri⟩

/-- With both tracks set up, a TEARDOWN of the first one leaves the second. -/
theorem teardown_of_first_track :
    (sampleRun bothTracksEvents).1 = .ok () ∧
      (sampleRun bothTracksEvents).2.endpoints.nodes.map Prod.fst = [1, 0] ∧
      ∃ s', rtspHandleMsg sampleEnv 0 (teardownRequest (ascii "rtsp://h/open/track0"))
          (sampleRun bothTracksEvents).2 = (.ok (), s') ∧
        RemovesTrack (sampleRun bothTracksEvents).2 s'
          (teardownRequest (ascii "rtsp://h/open/track0")) 0 := by
  -- One evaluation of the run for all that is needed of it.
  obtain ⟨hrun, hconn, hset, hnodes⟩ : (sampleRun bothTracksEvents).1 = .ok () ∧
      ((sampleRun bothTracksEvents).2.conns.get? 0).isSome = true ∧
      ((sampleRun bothTracksEvents).2.sessions.nodes.all fun node ↦ (node.2.ep 0).isSome) = true ∧
      (sampleRun bothTracksEvents).2.endpoints.nodes.map Prod.fst = [1, 0] := by
    decide +kernel
  obtain ⟨conn, hconn⟩ := Option.isSome_iff_exists.mp hconn
  have hnames : NamesTrack (ascii "rtsp://h/open/track0") 0 :=
    ⟨ascii "rtsp://h/open", ascii "0", by decide, by decide, by decide, fun _ ↦ by decide⟩
  refine ⟨hrun, hnodes, (teardown_removes_track_iff sampleEnv sampleConfig _ 0
    (teardownRequest (ascii "rtsp://h/open/track0")) conn 0 (reachable_sampleRun hrun).acts hconn
    (by decide) hnames).mpr fun sess session hgets ↦ ⟨0, rfl, ?_⟩⟩
  exact all_eq_true.mp hset (sess, session)
    ((NodeTable.get?_eq_some_iff _ sess).mp hgets.present)

/-- With only the first track set up, a TEARDOWN of the second one deletes the endpoint of the first
and the session. -/
theorem teardown_of_unset_track :
    Reachable sampleEnv sampleConfig (sampleRun interleavedEvents).2 ∧
      NamesTrack (ascii "rtsp://h/open/track1") 1 ∧
      (rtspHandleMsg sampleEnv 0 (teardownRequest (ascii "rtsp://h/open/track1"))
        (sampleRun interleavedEvents).2).2.sessions.nodes.isEmpty = true ∧
      ¬ ∃ s', rtspHandleMsg sampleEnv 0 (teardownRequest (ascii "rtsp://h/open/track1"))
          (sampleRun interleavedEvents).2 = (.ok (), s') ∧
        RemovesTrack (sampleRun interleavedEvents).2 s'
          (teardownRequest (ascii "rtsp://h/open/track1")) 1 := by
  obtain ⟨hrun, hendpoint, hunset, hgone, hempty⟩ : (sampleRun interleavedEvents).1 = .ok () ∧
      ((sampleRun interleavedEvents).2.endpoints.get? 0).isSome = true ∧
      ((sampleRun interleavedEvents).2.sessions.nodes.all fun node ↦ (node.2.ep 1).isNone) = true ∧
      ((rtspHandleMsg sampleEnv 0 (teardownRequest (ascii "rtsp://h/open/track1"))
        (sampleRun interleavedEvents).2).2.endpoints.get? 0).isNone = true ∧
      (rtspHandleMsg sampleEnv 0 (teardownRequest (ascii "rtsp://h/open/track1"))
        (sampleRun interleavedEvents).2).2.sessions.nodes.isEmpty = true := by
    decide +kernel
  refine ⟨reachable_sampleRun hrun,
    ⟨ascii "rtsp://h/open", ascii "1", by decide, by decide, by decide, fun _ ↦ by decide⟩,
    hempty, ?_⟩
  obtain ⟨endpoint, hget⟩ := Option.isSome_iff_exists.mp hendpoint
  rintro ⟨s', heq, hremoves⟩
  rw [heq] at hgone
  rcases hremoves.endpoints 0 endpoint hget with
    hkept | ⟨sess, session, t, -, hsession, hep, htrack⟩
  · rw [hkept] at hgone
    exact absurd hgone nofun
  · have hnone := all_eq_true.mp hunset (sess, session)
      ((NodeTable.get?_eq_some_iff _ sess).mp hsession)
    obtain rfl : t = 1 := Fin.ext (by omega)
    rw [hep] at hnone
    exact absurd hnone nofun

end WisCam.Server
