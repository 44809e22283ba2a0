import WisCam.Server.Describe
import WisCam.Server.LocalArrays
import WisCam.Server.Operations

/-!
# Sessions that their owners can reach

A session is torn down by its owner under the id that the table of RTSP sessions has for it, so a
session that the table does not lead to is there for ever. Requests are followed through all exits
of their handlers (`Leaves`): what a DESCRIBE or SETUP request has opened is torn down again or
registered before the request is done, with one exception. `handle_DESCRIBE` opens a session before
it checks the realm, and does not tear it down when the request is challenged.
-/

set_option autoImplicit false

namespace WisCam.Server

open Foundations Message Connection Auth Program List

variable {env : Env} {s s' s₀ : State} {sess : ℕ} {session : Session}

/-! ### Runs as paths of events -/

/-- The event is handled without a fault. -/
def EventStep (env : Env) (event : Event) (s s' : State) : Prop :=
  step env event s = (.ok (), s')

variable {event : Event}

theorem eventStep_of_ok (hok : (step env event s).1 = .ok ()) :
    EventStep env event s (step env event s).2 :=
  Prod.ext hok rfl

/-- A run without a fault is a path of its events. -/
theorem exists_path_of_events {events : List Event} (hok : (run env events s).1 = .ok ()) :
    ∃ steps, steps.map Prod.fst = events ∧
      Path (EventStep env) s steps (run env events s).2 := by
  induction events generalizing s with
  | nil => exact ⟨[], rfl, .nil s⟩
  | cons event events ih =>
    rcases hstep : step env event s with ⟨result, s₁⟩
    cases result with
    | error fault =>
      rw [run, forM_cons_error hstep] at hok
      exact absurd hok nofun
    | ok value =>
      have hrest : run env (event :: events) s = run env events s₁ := forM_cons_apply hstep
      rw [hrest] at hok ⊢
      obtain ⟨steps, hevents, hpath⟩ := ih hok
      exact ⟨(event, s) :: steps, congrArg (event :: ·) hevents, .cons hstep hpath⟩

theorem tableRecorded_of_eventStep (hstep : EventStep env event s s') (htable : TableRecorded s) :
    TableRecorded s' := by
  have hmoves := (@step_makes env s event htable).steps
  rw [hstep] at hmoves
  exact tableRecorded_of_effects (effects_of_moves hmoves) htable

theorem tidy_of_eventStep (hstep : EventStep env event s s') (htable : TableRecorded s)
    (htidy : Tidy s) : Tidy s' := by
  have hmoves := (@step_makes env s event htable).steps
  rw [hstep] at hmoves
  exact tidy_of_acts (acts_of_moves hmoves) htidy

/-! ### Sessions that nothing controls -/

theorem unregistered_iff_control : Unregistered s sess ↔
    ∃ session, s.sessions.get? sess = some session ∧ session.control = none := by
  constructor
  · rintro ⟨own, hown, hnone⟩
    obtain ⟨session, hsession, rfl⟩ := Option.map_eq_some_iff.mp hown
    exact ⟨session, hsession, hnone⟩
  · rintro ⟨session, hsession, hnone⟩
    exact ⟨session.owner, owner_eq hsession, hnone⟩

theorem unregistered_of_ownership (hsame : s'.ownership = s.ownership) :
    Unregistered s' sess ↔ Unregistered s sess := by
  rw [unregistered_iff, hsame, ← unregistered_iff]

theorem unregistered_of_sessions (hsame : s'.sessions = s.sessions) :
    Unregistered s' sess ↔ Unregistered s sess := by
  rw [unregistered_iff_control, hsame, ← unregistered_iff_control]

/-- A teardown leaves no session uncontrolled that was controlled before. -/
theorem unregistered_of_tornDown {sess' : ℕ} {ep : Option ℕ}
    (hchange : Change (.tornDown sess' ep) s s') (hnone : Unregistered s' sess) :
    Unregistered s sess := by
  cases hchange with
  | notTornDown => exact hnone
  | tornDown hsession hset =>
    rw [unregistered_iff_control] at hnone ⊢
    obtain ⟨session, hafter, hcontrol⟩ := hnone
    by_cases hsame : sess = sess'
    · subst hsame
      rw [hset.here] at hafter
      split_ifs at hafter
      obtain rfl := Option.some.inj hafter
      exact ⟨_, hsession, hcontrol⟩
    · exact ⟨session, (hset.others sess hsame).symm.trans hafter, hcontrol⟩

theorem unregistered_of_ending (hstep : EndingStep env s s') (htidy : Tidy s)
    (hnone : Unregistered s' sess) : Unregistered s sess := by
  cases hstep with
  | other hstep =>
    cases hstep with
    | other hsame => exact (unregistered_of_sessions hsame.sessions).mp hnone
  | tornDown hstep => exact unregistered_of_tornDown (change_of_liveStep hstep htidy) hnone

theorem tidy_of_ending (hstep : EndingStep env s s') (htidy : Tidy s) : Tidy s' := by
  cases hstep with
  | other hstep => exact tidy_of_liveStep hstep htidy
  | tornDown hstep => exact tidy_of_liveStep hstep htidy

/-- What is tidy and leaves only those sessions uncontrolled that a given state has. -/
def OnlyFrom (s₀ s : State) : Prop := Tidy s ∧ ∀ sess, Unregistered s sess → Unregistered s₀ sess

theorem OnlyFrom.refl (htidy : Tidy s) : OnlyFrom s s := ⟨htidy, fun _ ↦ id⟩

theorem onlyFrom_of_passive (hpassive : Passive env s s') (hfrom : OnlyFrom s₀ s) :
    OnlyFrom s₀ s' := by
  have htidy := tidy_of_move (.passive hpassive) hfrom.1
  refine ⟨htidy, fun sess hnone ↦ hfrom.2 sess ?_⟩
  cases hpassive with
  | calm hcalm => exact (unregistered_of_sessions hcalm.2.sessions).mp hnone
  | tornDown sess' ep => exact unregistered_of_tornDown (change_liveTeardown ep hfrom.1) hnone
  | framed source t =>
    cases @change_deliverFrame s source t with
    | framed hsessions => exact (unregistered_of_sessions hsessions).mp hnone
  | dropped c =>
    have hends : OnlyFrom s (dropConn c s).2 := by
      refine holds_of_steps (I := OnlyFrom s) (fun hstep h ↦ ?_) (@dropConn_steps env s c hfrom.1)
        (.refl hfrom.1)
      exact ⟨tidy_of_ending hstep h.1, fun sess hnone ↦
        h.2 sess (unregistered_of_ending hstep h.1 hnone)⟩
    exact hends.2 sess hnone

theorem onlyFrom_of_passives (hsteps : Relation.ReflTransGen (Passive env) s s')
    (hfrom : OnlyFrom s₀ s) : OnlyFrom s₀ s' :=
  holds_of_steps (I := OnlyFrom s₀) onlyFrom_of_passive hsteps hfrom

/-! ### What a request leaves behind -/

/-- A session whose endpoints are all torn down is freed. -/
theorem get?_torn_all {ep : Option ℕ} (hchange : Change (.tornDown sess ep) s s')
    (hall : ∀ t e, s.ownership.Holds sess t e → ep = none ∨ ep = some e) :
    s'.sessions.get? sess = none := by
  cases hchange with
  | notTornDown hnone => exact hnone
  | @tornDown s s' sess session ep hsession hset =>
    have hends : session.Ends ep := by
      intro t
      cases hep : session.ep t with
      | none => simp [Session.torn, Session.without, hep]
      | some e =>
        have hcovered := hall t e ((holds_iff_ep hsession).mpr hep)
        simp [Session.torn, Session.without, hep, hcovered]
    rw [hset.here, if_pos hends]

/-- Delivering an answer tears down the session that the handler has left for it. -/
theorem deliver_ensures (req : Req) {decision : Decision} (htidy : Tidy s)
    (hsettles : Settles s₀ decision s) :
    Ensures (Move env) (May AnyFault) (deliver req decision) s fun _ s' ↦ OnlyFrom s₀ s' := by
  refine ensures_bind (moves_of_calm (calm_of_sends (sendAnswer_makes req decision.1)))
    fun _ s₁ hmoves hsame ↦ ?_
  have htidy₁ := tidy_of_acts (acts_of_moves hmoves) htidy
  have hleft (sess : ℕ) (hnone : Unregistered s₁ sess) : Unregistered s₀ sess ∨
      ∃ ep, decision.2 = some (sess, ep) ∧
        ∀ t e, s₁.ownership.Holds sess t e → ep = none ∨ ep = some e := by
    rw [hsame.1]
    exact hsettles sess ((unregistered_of_ownership hsame.1).mp hnone)
  cases hdecision : decision.2 with
  | none =>
    refine ensures_pure ⟨htidy₁, fun sess hnone ↦ (hleft sess hnone).resolve_right ?_⟩
    rintro ⟨ep, hsome, -⟩
    exact absurd (hdecision.symm.trans hsome) nofun
  | some torn =>
    obtain ⟨sess', ep⟩ := torn
    refine moves_of_passive ?_
    have hmakes := @liveTeardown_passive env s₁ AnyFault sess' ep
    refine ⟨hmakes.steps, fun _ _ ↦ ?_, hmakes.faults⟩
    have hend := @onlyFrom_of_passive env s₁ _ s₁ (.tornDown sess' ep) (.refl htidy₁)
    refine ⟨hend.1, fun sess hnone ↦ ?_⟩
    rcases hleft sess (hend.2 sess hnone) with hbefore | ⟨ep', hsome, hall⟩
    · exact hbefore
    · -- The session itself has no endpoint left.
      obtain ⟨rfl, rfl⟩ := Prod.mk.inj (Option.some.inj (hdecision.symm.trans hsome))
      obtain ⟨session, hsession, -⟩ := unregistered_iff_control.mp hnone
      exact absurd ((get?_torn_all (change_liveTeardown _ htidy₁) hall).symm.trans hsession) nofun

/-- No session of the state is uncontrolled. -/
def AllRegistered (s : State) : Prop := ∀ sess, ¬ Unregistered s sess

/-- The event completes a DESCRIBE request for a location that has a realm and is not at its limit,
and the request does not pass the check of the realm. -/
def ChallengedDescribe (env : Env) (event : Event) (s : State) : Prop :=
  ∃ now req s₀, s.rtspRequest event = some (now, req, s₀) ∧
    sameNoCase req.method (ascii "DESCRIBE") = true ∧ Challenged env now req s

/-- These are the DESCRIBE requests that are answered with the challenge of a realm. -/
theorem describeChallenged_iff {now : ℕ} {req : Req} {decision : Decision} {s₁ : State}
    (hrequest : s.rtspRequest event = some (now, req, s₀))
    (hanswer : answerTo env now req s₀ = (.ok decision, s₁)) :
    DescribeChallenged req decision ↔ ChallengedDescribe env event s := by
  have hsame : Challenged env now req s₀ ↔ Challenged env now req s := by
    obtain ⟨c, second, data, conn, -, -, -, -, rfl⟩ := rtspRequest_eq_some hrequest
    exact challenged_congr rfl rfl rfl
  constructor
  · rintro ⟨hmethod, hchallenges⟩
    exact ⟨now, req, s₀, hrequest, hmethod,
      hsame.mp ((challenges_iff hmethod hanswer).mp hchallenges)⟩
  · rintro ⟨now', req', s₀', hrequest', hmethod, hchallenged⟩
    obtain ⟨rfl, hparts⟩ := Prod.mk.inj (Option.some.inj (hrequest.symm.trans hrequest'))
    obtain ⟨rfl, rfl⟩ := Prod.mk.inj hparts
    exact ⟨hmethod, (challenges_iff hmethod hanswer).mpr (hsame.mpr hchallenged)⟩

theorem OnlyFrom.allRegistered (hfrom : OnlyFrom s₀ s) (hall : AllRegistered s₀) :
    AllRegistered s :=
  fun sess hnone ↦ hall sess (hfrom.2 sess hnone)

theorem allRegistered_of_ownership (hsame : s'.ownership = s.ownership) :
    AllRegistered s' ↔ AllRegistered s :=
  forall_congr' fun _ ↦ not_congr (unregistered_of_ownership hsame)

/-- Whether all sessions are registered when the answer to a request has been delivered. -/
theorem deliver_registers {req : Req} {decision : Decision}
    (hleaves : Leaves env req s₀ decision s) (htidy₀ : Tidy s₀) (htidy : Tidy s)
    (hall : AllRegistered s₀) :
    Ensures (Move env) (May AnyFault) (deliver req decision) s fun _ s' ↦
      (AllRegistered s' ↔ ¬ DescribeChallenged req decision) := by
  by_cases hchallenged : DescribeChallenged req decision
  · obtain ⟨hnothing, sess, hnone⟩ := hleaves.challenged hchallenged
    refine ensures_bind (moves_of_calm (calm_of_sends (sendAnswer_makes req decision.1)))
      fun _ s₁ _ hsame ↦ ?_
    rw [hnothing]
    refine ensures_pure (iff_of_false (fun hall' ↦ ?_) (not_not.mpr hchallenged))
    exact hall' sess ((unregistered_of_ownership hsame.1).mpr hnone)
  · rcases hleaves.settles hchallenged with hsettles | hpassive
    · refine (deliver_ensures req htidy hsettles).imp fun _ s' _ hfrom ↦ ?_
      exact iff_of_true (hfrom.allRegistered hall) hchallenged
    · have hfrom := onlyFrom_of_passives hpassive (.refl htidy₀)
      refine moves_of_passive ((deliver_makes req decision).imp fun _ s' hsteps _ ↦ ?_)
      exact iff_of_true ((onlyFrom_of_passives hsteps hfrom).allRegistered hall) hchallenged

/-- An event keeps all sessions registered exactly if it completes no DESCRIBE request that is
challenged. -/
theorem allRegistered_of_eventStep (hstep : EventStep env event s s') (htidy : Tidy s)
    (htable : TableRecorded s) (hall : AllRegistered s) :
    AllRegistered s' ↔ ¬ ChallengedDescribe env event s := by
  cases hrequest : s.rtspRequest event with
  | none =>
    have hsteps := (@step_passive env s event hrequest).steps
    rw [hstep] at hsteps
    refine iff_of_true ((onlyFrom_of_passives hsteps (.refl htidy)).allRegistered hall) ?_
    rintro ⟨now, req, s₀, hsome, -⟩
    exact absurd (hrequest.symm.trans hsome) nofun
  | some request =>
    obtain ⟨now, req, s₀⟩ := request
    obtain ⟨hcalm, hreq, hspeaks, -⟩ := @of_rtspRequest env s event now req s₀ hrequest
    have heffects := hcalm.lift id fun _ _ h ↦ h.1.1
    have htidy₀ : Tidy s₀ := holds_of_steps (I := Tidy) (fun h ↦ tidy_of_quiet h.1) hcalm htidy
    have hall₀ := (allRegistered_of_ownership (ownership_of_calm hcalm)).mpr hall
    have hanswer := (@answerTo_ensures env s₀ now req hreq hspeaks
      (tableRecorded_of_effects heffects htable)).returns
    have hwhole : Ensures (Move env) (May AnyFault)
        (rtspHandleMsg env now req >>= fun _ ↦ clearReqBuf req.conn) s₀ fun _ s' ↦
          (AllRegistered s' ↔ ¬ ChallengedDescribe env event s) := by
      rw [rtspHandleMsg_eq, bind_assoc]
      refine ensures_bind hanswer fun decision s₁ hmoves hreturns ↦ ?_
      obtain ⟨hdecision, hleaves⟩ := hreturns
      have htidy₁ := tidy_of_acts (acts_of_moves hmoves) htidy₀
      refine ensures_bind (deliver_registers hleaves htidy₀ htidy₁ hall₀) fun _ s₂ _ hiff ↦ ?_
      refine (moves_of_calm (clearReqBuf_makes req.conn)).imp fun _ s' _ hsame ↦ ?_
      rw [allRegistered_of_ownership hsame.1, hiff, describeChallenged_iff hrequest hdecision]
    have hpost := hwhole.post ()
    rw [← @step_of_request env s event now req s₀ hrequest, hstep] at hpost
    exact hpost rfl

/-! ### Sessions and ids -/

/-- Every session in the list of a source is what `get_session` finds under some id. -/
def AllFound (s : State) : Prop :=
  ∀ source sess, sess ∈ s.sessList source →
    ∃ id entry, getSession (some id) s = (.ok (some entry), s) ∧ entry.sess = sess

/-- No two RTSP sessions have the same id. -/
def DistinctIds (s : State) : Prop :=
  ∀ rs rs' entry entry', s.rtspSessions.get? rs = some entry →
    s.rtspSessions.get? rs' = some entry' → entry.id = entry'.id → rs = rs'

theorem mem_sessList {source : ℕ} : sess ∈ s.sessList source ↔
    ∃ session, s.sessions.get? sess = some session ∧ session.source = source := by
  rw [State.sessList, mem_map]
  constructor
  · rintro ⟨⟨sess', session⟩, hmem, rfl⟩
    obtain ⟨hnode, hsource⟩ := mem_filter.mp hmem
    exact ⟨session, (s.sessions.get?_eq_some_iff sess').mpr hnode, beq_iff_eq.mp hsource⟩
  · rintro ⟨session, hsession, rfl⟩
    have hnode := (s.sessions.get?_eq_some_iff sess).mp hsession
    exact ⟨(sess, session), mem_filter.mpr ⟨hnode, by simp⟩, rfl⟩

/-- Where ids are distinct, an RTSP session is found under its id. -/
theorem getSession_own {rs : ℕ} {entry : RtspSession} (hdistinct : DistinctIds s)
    (hentry : s.rtspSessions.get? rs = some entry) :
    getSession (some entry.id) s = (.ok (some entry), s) := by
  change (Except.ok (Option.map Prod.snd (s.rtspSessions.find? fun rs ↦ rs.id == entry.id)), s) = _
  cases hfind : s.rtspSessions.find? fun rs ↦ rs.id == entry.id with
  | none =>
    have hnode := (s.rtspSessions.get?_eq_some_iff rs).mp hentry
    exact absurd (List.find?_eq_none.mp hfind _ hnode) (by simp)
  | some node =>
    obtain ⟨hget, hid⟩ := NodeTable.get?_of_find? hfind
    have hsame := hdistinct node.1 rs node.2 entry hget hentry (beq_iff_eq.mp hid)
    rw [hsame] at hget
    rw [Option.map_some, Option.some.inj (hget.symm.trans hentry)]

/-- Every session is found exactly if all of them are registered, with distinct ids. -/
theorem allFound_iff (htidy : Tidy s) : AllFound s ↔ AllRegistered s ∧ DistinctIds s := by
  constructor
  · intro hfound
    have hget {sess : ℕ} {session : Session} (hsession : s.sessions.get? sess = some session) :=
      hfound session.source sess (mem_sessList.mpr ⟨session, hsession, rfl⟩)
    constructor
    · intro sess hnone
      obtain ⟨session, hsession, hcontrol⟩ := unregistered_iff_control.mp hnone
      obtain ⟨id, entry, hsearch, rfl⟩ := hget hsession
      obtain ⟨rs, hentry, -⟩ := of_getSession hsearch
      exact absurd (hcontrol.symm.trans (htidy.control hentry hsession)) nofun
    · intro rs rs' entry entry' hentry hentry' hsame
      -- Both RTSP sessions are found, and under one id only one can be.
      have hown {rs : ℕ} {entry : RtspSession} (hentry : s.rtspSessions.get? rs = some entry) :
          getSession (some entry.id) s = (.ok (some entry), s) := by
        obtain ⟨session, hsession, -⟩ := htidy.sessionsFound.live rs entry hentry
        obtain ⟨id, found, hsearch, hsess⟩ := hget hsession
        obtain ⟨rs', hfound', hid⟩ := of_getSession hsearch
        obtain rfl := htidy.sessionsFound.unique rs' rs found entry hfound' hentry hsess
        obtain rfl := Option.some.inj (hfound'.symm.trans hentry)
        rw [← hid]
        exact hsearch
      have hboth := (hown hentry).symm.trans (hsame ▸ hown hentry')
      have hentries := Option.some.inj (Except.ok.inj (congrArg Prod.fst hboth))
      exact htidy.sessionsFound.unique rs rs' entry entry' hentry hentry'
        (congrArg RtspSession.sess hentries)
  · rintro ⟨hall, hdistinct⟩ source sess hmem
    obtain ⟨session, hsession, -⟩ := mem_sessList.mp hmem
    cases hcontrol : session.control with
    | none => exact absurd (unregistered_iff_control.mpr ⟨session, hsession, hcontrol⟩) (hall sess)
    | some rs =>
      have hhandled : s.ownership.Handled sess rs :=
        (Ownership.handled_iff (owner_eq hsession)).mpr hcontrol
      have hhandle := (htidy.sound.handleOf_iff rs sess).mpr hhandled
      obtain ⟨entry, hentry, hsess⟩ := Option.map_eq_some_iff.mp hhandle
      exact ⟨entry.id, entry, getSession_own hdistinct hentry, hsess⟩

/-- In every state of a run, when a request has been handled: every session in the list of a source
is found under an id, if and only if no DESCRIBE request has been challenged and the ids that are
in use at one time are distinct. -/
theorem sessions_owned_iff (env : Env) (config : Config) {steps : List (Event × State)} {s : State}
    (hpath : Path (EventStep env) (initial config) steps s) :
    Always AllFound steps s ↔
      (∀ step ∈ steps, ¬ ChallengedDescribe env step.1 step.2) ∧ Always DistinctIds steps s := by
  have hinv {event : Event} {s s' : State} (hstep : EventStep env event s s')
      (hs : Tidy s ∧ TableRecorded s) : Tidy s' ∧ TableRecorded s' :=
    ⟨tidy_of_eventStep hstep hs.2 hs.1, tableRecorded_of_eventStep hstep hs.2⟩
  have hstart : Tidy (initial config) ∧ TableRecorded (initial config) :=
    ⟨tidy_initial config, tableRecorded_initial config⟩
  have htidy := hpath.always hinv hstart
  have hregistered := hpath.always_iff (I := AllRegistered) hinv (fun hstep hs hall ↦
    allRegistered_of_eventStep hstep hs.1 hs.2 hall) hstart fun sess hnone ↦ ?_
  · rw [always_congr htidy fun hs ↦ allFound_iff hs.1, always_and, hregistered]
  · obtain ⟨session, hsession, -⟩ := unregistered_iff_control.mp hnone
    exact absurd hsession nofun

theorem distinctIds_of_length (hlength : s.rtspSessions.nodes.length ≤ 1) : DistinctIds s := by
  intro rs rs' entry entry' hentry hentry' _
  have hmem := (s.rtspSessions.get?_eq_some_iff rs).mp hentry
  have hmem' := (s.rtspSessions.get?_eq_some_iff rs').mp hentry'
  obtain ⟨i, hi, hget⟩ := mem_iff_getElem.mp hmem
  obtain ⟨j, hj, hget'⟩ := mem_iff_getElem.mp hmem'
  obtain rfl : i = j := by omega
  exact congrArg Prod.fst (hget.symm.trans hget')

/-- A client connects. -/
def connected : State := (step sampleEnv (.accept 3) (initial sampleConfig)).2

/-- The client asks for a track to be set up. -/
def setupEvent : Event :=
  .read 0 false 0 (ascii "SETUP rtsp://h/open/track0 RTSP/1.0\r\n" ++
    ascii "Transport: RTP/AVP/TCP;interleaved=0-1\r\n\r\n")

/-- What has led to the session of the client. -/
def setupSteps : List (Event × State) :=
  [(.accept 3, initial sampleConfig), (setupEvent, connected)]

/-- The session of the client is in the list of its source, and found. -/
theorem sessions_owned_after_setup :
    Always AllFound setupSteps (step sampleEnv setupEvent connected).2 ∧
      (step sampleEnv setupEvent connected).2.sessList 0 = [0] := by
  have hsetup := eventStep_of_ok (show (step sampleEnv setupEvent connected).1 = .ok () by
    decide +kernel)
  have hpath : Path (EventStep sampleEnv) (initial sampleConfig) setupSteps
      (step sampleEnv setupEvent connected).2 :=
    .cons rfl (.cons hsetup (.nil _))
  have hmethod : (connected.rtspRequest setupEvent).map (fun request ↦ request.2.1.method) =
      some (ascii "SETUP") := by
    decide +kernel
  refine ⟨(sessions_owned_iff sampleEnv sampleConfig hpath).mpr ⟨fun step hmem ↦ ?_,
    fun step hmem ↦ ?_, ?_⟩, by decide +kernel⟩
  · rintro ⟨now, req, s₀, hrequest, hdescribe, -⟩
    rcases mem_cons.mp hmem with rfl | hmem
    · exact absurd hrequest nofun
    · obtain rfl := mem_singleton.mp hmem
      rw [hrequest, Option.map_some, Option.some.injEq] at hmethod
      rw [show req.method = ascii "SETUP" from hmethod] at hdescribe
      exact absurd hdescribe (by decide)
  · rcases mem_cons.mp hmem with rfl | hmem
    · exact distinctIds_of_length (by decide)
    · obtain rfl := mem_singleton.mp hmem
      exact distinctIds_of_length (by decide)
  · exact distinctIds_of_length (by decide +kernel)

/-- A client asks for the description of a location without the password for it. -/
def describeEvents : List Event := requestEvents (ascii "DESCRIBE") (ascii "rtsp://h/cam")

/-- The DESCRIBE request without the password leaves a session that the table of RTSP sessions does
not lead to, also when the client has gone. -/
theorem describe_leaks_session :
    (sampleRun describeEvents).1 = .ok () ∧ (sampleRun describeEvents).2.sessList 1 = [0] ∧
      (sampleRun describeEvents).2.rtspSessions.nodes = [] ∧
      (sampleRun (describeEvents ++ [.closed 0 false])).1 = .ok () ∧
      (sampleRun (describeEvents ++ [.closed 0 false])).2.sessList 1 = [0] ∧
      ∃ steps, Path (EventStep sampleEnv) (initial sampleConfig) steps
          (sampleRun describeEvents).2 ∧
        ¬ Always AllFound steps (sampleRun describeEvents).2 := by
  have hdescribed : (sampleRun describeEvents).1 = .ok () ∧
      (sampleRun describeEvents).2.sessList 1 = [0] ∧
      (sampleRun describeEvents).2.rtspSessions.nodes = [] := by
    decide +kernel
  have hclosed : (sampleRun (describeEvents ++ [.closed 0 false])).1 = .ok () ∧
      (sampleRun (describeEvents ++ [.closed 0 false])).2.sessList 1 = [0] := by
    decide +kernel
  obtain ⟨hok, hlist, hempty⟩ := hdescribed
  obtain ⟨steps, -, hpath⟩ := exists_path_of_events hok
  refine ⟨hok, hlist, hempty, hclosed.1, hclosed.2, steps, hpath, fun halways ↦ ?_⟩
  obtain ⟨id, entry, hfound, -⟩ := halways.last 1 0 (hlist ▸ mem_singleton_self 0)
  obtain ⟨rs, hentry, -⟩ := of_getSession hfound
  have hmem := (NodeTable.get?_eq_some_iff _ rs).mp hentry
  rw [hempty] at hmem
  exact absurd hmem not_mem_nil

end WisCam.Server
