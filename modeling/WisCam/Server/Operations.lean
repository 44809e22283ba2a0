import WisCam.Foundations.Paths
import WisCam.Server.SessionRuns

/-!
# The operations of the live sources

What happens to the live sources in a run of the server is a path of operations (`LiveStep`): calls
of `live_open`, `live_setup`, `live_play`, `live_teardown` and `next_live_frame`, in the order in
which requests, closed connections and frames bring them about, with steps between them that leave
the sources and their sessions alone. Every run of the server is such a path
(`exists_path_of_run`).

`Change` says what each operation does to sessions, connection counters and tracks. The properties
of the live sources over whole runs are derived from it.
-/

set_option autoImplicit false

namespace WisCam.Server

open Foundations Message Connection Auth Program

variable {env : Env} {s s' : State} {sess : ℕ} {session : Session}

/-! ### Operations -/

/-- The operations on live sources. -/
inductive LiveOp
  /-- Anything that leaves sources and sessions alone. -/
  | other
  /-- A session is to be opened on a source. -/
  | opened (source : ℕ)
  | setUp (sess : ℕ) (t : Track)
  /-- A session is entered into the table of RTSP sessions. -/
  | registered (sess : ℕ)
  | played (sess : ℕ)
  /-- An endpoint of a session is torn down, or all of them. -/
  | tornDown (sess : ℕ) (ep : Option ℕ)
  /-- The stream of a track has a frame. -/
  | framed (source : ℕ) (t : Track)
  deriving DecidableEq, Repr

/-- An operation as the server performs it: a track is set up only on request and where the session
has no endpoint yet, and a session is registered once. -/
inductive LiveStep (env : Env) : LiveOp → State → State → Prop
  | other {s s' : State} (hsame : SameLive s s') (htidy : Tidy s → Tidy s') :
      LiveStep env .other s s'
  | opened {s : State} (c : ℕ) (msg : Pmsg) (loc : ℕ) (location : RtspLocation) :
      LiveStep env (.opened location.source) s (liveOpen c msg loc location s).2
  | setUp {s : State} {sess : ℕ} (t : Track)
      (hallowed : ∃ c msg loc, SetupAllowed s.rtspLocs s.trace c msg loc sess)
      (hfree : ∀ own, s.ownership.owner sess = some own → own.part t = none) :
      LiveStep env (.setUp sess t) s (liveSetup env sess t s).2
  | registered {s : State} {c : ℕ} {msg : Pmsg} {loc sess : ℕ}
      (hopened : .opened c msg loc sess ∈ s.trace)
      (hunregistered : Unregistered s sess) (hfilled : s.ownership.Filled sess) :
      LiveStep env (.registered sess) s (newRtspSession env sess s).2
  | played {s : State} (sess : ℕ) : LiveStep env (.played sess) s (livePlay sess s).2
  | tornDown {s : State} (sess : ℕ) (ep : Option ℕ) :
      LiveStep env (.tornDown sess ep) s (liveTeardown sess ep s).2
  | framed {s : State} (source : ℕ) (t : Track) :
      LiveStep env (.framed source t) s (deliverFrame source t s).2

theorem tidy_of_move (hmove : Move env s s') (htidy : Tidy s) : Tidy s' :=
  tidy_of_acts hmove.acts htidy

/-- Every operation keeps sessions, endpoints and connections in order. -/
theorem tidy_of_liveStep {op : LiveOp} (hstep : LiveStep env op s s') (htidy : Tidy s) :
    Tidy s' := by
  cases hstep with
  | other _ hkeeps => exact hkeeps htidy
  | opened c msg loc location => exact tidy_liveOpen c msg loc location htidy
  | setUp t hallowed hfree => exact tidy_liveSetup hallowed hfree htidy
  | registered hopened hunregistered hfilled =>
    exact tidy_newRtspSession hopened hunregistered hfilled htidy
  | played sess => exact @tidy_of_move env s _ (.played sess) htidy
  | tornDown sess ep => exact tidy_liveTeardown sess ep htidy
  | framed source t => exact @tidy_of_move env s _ (.passive (.framed source t)) htidy

/-! ### Runs as paths -/

/-- Some operation. -/
def AnyStep (env : Env) (s s' : State) : Prop := ∃ op, LiveStep env op s s'

/-- A teardown, or a step that leaves sources and sessions alone. -/
inductive EndingStep (env : Env) : State → State → Prop
  | other {s s' : State} (hstep : LiveStep env .other s s') : EndingStep env s s'
  | tornDown {s s' : State} {sess : ℕ} {ep : Option ℕ}
      (hstep : LiveStep env (.tornDown sess ep) s s') : EndingStep env s s'

theorem EndingStep.any (hstep : EndingStep env s s') : AnyStep env s s' := by
  cases hstep with
  | other hstep => exact ⟨_, hstep⟩
  | tornDown hstep => exact ⟨_, hstep⟩

/-- What `drop_conn` does before it frees the connection is a sequence of teardowns, or the end of
an HTTP stream. -/
theorem disconnect_steps (c : ℕ) (conn : Conn) :
    Makes (EndingStep env) (May AnyFault) (disconnect c conn) s := by
  have hrtsp : Makes (EndingStep env) (May AnyFault) (rtspConnDisconnect c) s := by
    refine ensures_forM fun chan _ s' _ ↦ derefConn_bind fun conn _ ↦ ?_
    split
    · exact ensures_fault (.inl trivial)
    · exact ensures_fault (.inl trivial)
    · split
      · exact derefEndpoint_bind fun endpoint _ ↦
          (@liveTeardown_makes env s' AnyFault _ _).whole (.tornDown (.tornDown _ _))
      · exact ensures_pure trivial
  have hhttp : Makes (EndingStep env) (May AnyFault) (httpConnDisconnect c) s := by
    refine derefConn_bind fun conn _ ↦ ?_
    split
    · refine ensures_modify (.other (.other ⟨rfl, rfl⟩ fun htidy ↦ ?_)) trivial
      exact ⟨⟨htidy.wired.congr rfl rfl, htidy.sound, htidy.tracks, htidy.conns⟩, htidy.filled⟩
    · exact ensures_fault (.inl trivial)
    · exact ensures_fault (.inl trivial)
  unfold disconnect
  split
  · exact ensures_pure trivial
  · exact hhttp
  · exact hrtsp
  · exact ensures_pure trivial

theorem dropConn_steps (c : ℕ) (htidy : Tidy s) :
    Relation.ReflTransGen (EndingStep env) s (dropConn c s).2 := by
  cases hconn : s.conns.get? c with
  | none =>
    rw [dropConn, derefConn_none hconn]
  | some conn =>
    have hsteps := (@disconnect_steps env s c conn).steps
    rw [dropConn, derefConn_apply hconn, bind_apply]
    rcases disconnect_spec htidy hconn with ⟨s', heq, -, -, hunused⟩ | ⟨-, fault, heq⟩
    · rw [heq] at hsteps ⊢
      exact hsteps.tail (.other (.other ⟨rfl, rfl⟩ fun htidy' ↦ tidy_eraseConn htidy' hunused))
    · rw [heq]

theorem steps_of_move (hmove : Move env s s') (htidy : Tidy s) :
    Relation.ReflTransGen (AnyStep env) s s' := by
  cases hmove with
  | passive hpassive =>
    cases hpassive with
    | calm hcalm => exact .single ⟨_, .other hcalm.2 (tidy_of_quiet hcalm.1)⟩
    | tornDown sess ep => exact .single ⟨_, .tornDown sess ep⟩
    | dropped c => exact (dropConn_steps c htidy).lift id fun _ _ hstep ↦ hstep.any
    | framed source t => exact .single ⟨_, .framed source t⟩
  | opened c msg loc location => exact .single ⟨_, .opened c msg loc location⟩
  | setUp t hallowed hfree => exact .single ⟨_, .setUp t hallowed hfree⟩
  | registered hopened hunregistered hfilled =>
    exact .single ⟨_, .registered hopened hunregistered hfilled⟩
  | played sess => exact .single ⟨_, .played sess⟩

theorem steps_of_moves (hmoves : Moves env s s') (htidy : Tidy s) :
    Relation.ReflTransGen (AnyStep env) s s' := by
  induction hmoves with
  | refl => exact .refl
  | tail hmoves hlast ih =>
    exact ih.trans (steps_of_move hlast (tidy_of_acts (acts_of_moves hmoves) htidy))

/-- Every run of the server is a path of operations. -/
theorem exists_path_of_run (env : Env) (config : Config) (events : List Event) :
    ∃ steps, Path (LiveStep env) (initial config) steps (run env events (initial config)).2 :=
  exists_path (steps_of_moves (moves_of_run env events (tableRecorded_initial config))
    (tidy_initial config))

/-! ### What an operation changes -/

/-- The session at an address is set, or freed, and no other one changes. -/
structure SetsSession (s s' : State) (sess : ℕ) (session' : Option Session) : Prop where
  here : s'.sessions.get? sess = session'
  others : ∀ sess', sess' ≠ sess → s'.sessions.get? sess' = s.sessions.get? sess'

/-- The track with its stream. -/
def LiveTrack.on (track : LiveTrack) : LiveTrack := { track with waiting := true }

/-- The track after a frame has been delivered to it, if it is waiting for one. -/
def LiveTrack.framed (track : LiveTrack) : LiveTrack :=
  if track.waiting ∧ ¬ track.ready then { track with ready := true, waiting := false } else track

/-- The endpoint of the track is torn down. -/
def Session.Frees (session : Session) (ep : Option ℕ) (t : Track) : Prop :=
  (session.ep t).isSome = true ∧ (session.torn ep).ep t = none

/-- What an operation does to sessions, counters and tracks. -/
inductive Change : LiveOp → State → State → Prop
  | other {s s' : State} (hsame : SameLive s s') : Change .other s s'
  | refused {s : State} (source : ℕ) : Change (.opened source) s s
  | opened {s s' : State} {sess source cur max : ℕ}
      (hnums : s.connNums source = some (cur, max)) (hroom : cur < max)
      (hfresh : s.sessions.get? sess = none)
      (hset : SetsSession s s' sess (some ⟨source, false, fun _ ↦ none, none⟩))
      (hsources : s'.sources = s.sources) : Change (.opened source) s s'
  | notSetUp {s : State} {sess : ℕ} {t : Track}
      (hnone : ∀ session, s.sessions.get? sess = some session →
        s.liveTrack session.source t = none) : Change (.setUp sess t) s s
  | setUp {s s' : State} {sess ep : ℕ} {session : Session} {t : Track}
      (hsession : s.sessions.get? sess = some session)
      (hset : SetsSession s s' sess
        (some { session with ep := Function.update session.ep t (some ep) }))
      (hsources : s'.sources = s.sources) : Change (.setUp sess t) s s'
  | registered {s s' : State} {sess rs : ℕ} {session : Session}
      (hsession : s.sessions.get? sess = some session)
      (hset : SetsSession s s' sess (some { session with control := some rs }))
      (hsources : s'.sources = s.sources) : Change (.registered sess) s s'
  | notPlayed {s : State} {sess : ℕ} (hnone : s.sessions.get? sess = none) :
      Change (.played sess) s s
  | played {s s' : State} {sess : ℕ} {session : Session}
      (hsession : s.sessions.get? sess = some session)
      (hset : SetsSession s s' sess (some { session with playing := true }))
      (hnums : ∀ source, s'.connNums source = (s.connNums source).map fun nums ↦
        if source = session.source then ((nums.1 + 1) % 2 ^ 32, nums.2) else nums)
      (htracks : ∀ source t, s'.liveTrack source t =
        if source = session.source ∧ (session.ep t).isSome then
          (s.liveTrack source t).map LiveTrack.on
        else s.liveTrack source t) : Change (.played sess) s s'
  | notTornDown {s : State} {sess : ℕ} {ep : Option ℕ} (hnone : s.sessions.get? sess = none) :
      Change (.tornDown sess ep) s s
  | tornDown {s s' : State} {sess : ℕ} {session : Session} {ep : Option ℕ}
      (hsession : s.sessions.get? sess = some session)
      (hset : SetsSession s s' sess (if session.Ends ep then none else some (session.torn ep)))
      (hnums : ∀ source, s'.connNums source = (s.connNums source).map fun nums ↦
        if source = session.source ∧ session.Ends ep ∧ session.playing ∧ 0 < nums.1 then
          (nums.1 - 1, nums.2)
        else nums)
      (hoff : ∀ t, session.Frees ep t → ¬ OthersPlay s sess session.source t →
        s'.liveTrack session.source t = (s.liveTrack session.source t).map LiveTrack.off)
      (hkept : ∀ source t, ¬ (source = session.source ∧ session.Frees ep t ∧
        ¬ OthersPlay s sess source t) → s'.liveTrack source t = s.liveTrack source t) :
      Change (.tornDown sess ep) s s'
  | framed {s s' : State} {source : ℕ} {t : Track} (hsessions : s'.sessions = s.sessions)
      (hnums : ∀ source', s'.connNums source' = s.connNums source')
      (htracks : ∀ source' t', s'.liveTrack source' t' =
        if source' = source ∧ t' = t then (s.liveTrack source' t').map LiveTrack.framed
        else s.liveTrack source' t') : Change (.framed source t) s s'

theorem SetsSession.of_modify (f : Session → Session)
    (hsession : s.sessions.get? sess = some session)
    (hsessions : s'.sessions = s.sessions.modify sess f) :
    SetsSession s s' sess (some (f session)) where
  here := by simp [hsessions, hsession]
  others sess' hother := by simp [hsessions, hother]

theorem connNums_modifySource (source source' : ℕ) {f : LiveSource → LiveSource}
    {g : ℕ × ℕ → ℕ × ℕ}
    (hf : ∀ live, ((f live).curConn, (f live).maxConnNum) = g (live.curConn, live.maxConnNum)) :
    State.connNums { s with sources := s.sources.modify source f } source' =
      (s.connNums source').map fun nums ↦ if source' = source then g nums else nums := by
  simp only [State.connNums, List.getElem?_modify, Option.map_eq_map, Option.map_map]
  congr 1
  funext live
  by_cases hsame : source' = source
  · simp [hsame, hf]
  · simp [hsame, Ne.symm hsame]

theorem liveTrack_modifySource (source source' : ℕ) (t : Track) {f : LiveSource → LiveSource}
    (hf : ∀ live, (f live).tracks = live.tracks) :
    State.liveTrack { s with sources := s.sources.modify source f } source' t =
      s.liveTrack source' t := by
  simp only [State.liveTrack, List.getElem?_modify]
  cases s.sources[source']? with
  | none => rfl
  | some live =>
    by_cases hsame : source' = source
    · simp [hsame, hf]
    · simp [Ne.symm hsame]

theorem change_liveOpen (c : ℕ) (msg : Pmsg) (loc : ℕ) (location : RtspLocation) :
    Change (.opened location.source) s (liveOpen c msg loc location s).2 := by
  cases hsource : s.sources[location.source]? with
  | none =>
    rw [liveOpen, derefSource_none hsource]
    exact .refused _
  | some source =>
    rw [liveOpen, derefSource_apply hsource]
    split_ifs with hfull
    · exact .refused _
    · apply @Change.opened s _ s.sessions.next location.source source.curConn source.maxConnNum
      · simp [State.connNums, hsource]
      · exact Nat.not_le.mp hfull
      · exact s.sessions.get?_next
      · constructor
        · exact (NodeTable.get?_push ..).trans (if_pos rfl)
        · exact fun sess' hother ↦ (NodeTable.get?_push ..).trans (if_neg hother)
      · rfl

theorem change_liveSetup (sess : ℕ) (t : Track) :
    Change (.setUp sess t) s (liveSetup env sess t s).2 := by
  cases hsession : s.sessions.get? sess with
  | none =>
    rw [liveSetup, derefSession_none hsession]
    exact .notSetUp fun session hget ↦ absurd (hsession.symm.trans hget) nofun
  | some session =>
    rw [liveSetup, derefSession_apply hsession]
    have hnothing (hnone : s.liveTrack session.source t = none) : Change (.setUp sess t) s s := by
      refine .notSetUp fun session' hget ↦ ?_
      rw [← Option.some.inj (hsession.symm.trans hget)]
      exact hnone
    cases hsource : s.sources[session.source]? with
    | none =>
      rw [derefSource_none hsource]
      exact hnothing (by simp [State.liveTrack, hsource])
    | some source =>
      rw [derefSource_apply hsource]
      have htrack : s.liveTrack session.source t = source.tracks[t.val]? := by
        simp [State.liveTrack, hsource]
      cases hget : source.tracks[t.val]? with
      | none => exact hnothing (htrack.trans hget)
      | some track =>
        obtain ⟨endpoint, -, -, heq⟩ := @addEndpoint_apply env s
          (track.media.getPayload (96 + t.val)) sess source.maxRtpTransSize t
        have hafter := congrArg Prod.snd heq
        change Change _ s (addEndpoint env (track.media.getPayload (96 + t.val)) sess
          source.maxRtpTransSize t s).2
        rw [hafter]
        exact .setUp hsession (.of_modify (fun session ↦
          { session with ep := Function.update session.ep t (some s.endpoints.next) })
          hsession rfl) rfl

theorem change_newRtspSession (hunregistered : Unregistered s sess) :
    Change (.registered sess) s (newRtspSession env sess s).2 := by
  obtain ⟨own, hown, -⟩ := hunregistered
  obtain ⟨session, hsession, -⟩ := Option.map_eq_some_iff.mp hown
  exact .registered hsession (.of_modify (fun session ↦
    { session with control := some s.rtspSessions.next }) hsession rfl) rfl

/-- One round of the loop of `live_play`. -/
def startTrack (source : ℕ) (session : Session) (t : Track) : Srv Unit :=
  if (session.ep t).isSome then setWaiting source t true else pure ()

/-- The loop of `live_play` starts the streams of the tracks that have an endpoint. -/
theorem startTracks_spec (source : ℕ) (session : Session) (tracks : List Track) :
    ∃ sources, tracks.forM (startTrack source session) s =
        (.ok (), { s with sources := sources }) ∧
      (∀ source', State.connNums { s with sources := sources } source' = s.connNums source') ∧
      ∀ source' t, State.liveTrack { s with sources := sources } source' t =
        if source' = source ∧ t ∈ tracks ∧ (session.ep t).isSome then
          (s.liveTrack source' t).map LiveTrack.on
        else s.liveTrack source' t := by
  induction tracks generalizing s with
  | nil => exact ⟨s.sources, rfl, fun _ ↦ rfl, fun _ _ ↦ by simp⟩
  | cons t tracks ih =>
    by_cases hp : (session.ep t).isSome = true
    · obtain ⟨sources, hrest, hnums, htracks⟩ := @ih { s with
        sources := s.sources.modify source (·.modifyTrack t LiveTrack.on) }
      have hfirst : startTrack source session t s = (.ok (), { s with
          sources := s.sources.modify source (·.modifyTrack t LiveTrack.on) }) := by
        rw [startTrack, if_pos hp]
        rfl
      refine ⟨sources, (forM_cons_apply hfirst).trans hrest, fun source' ↦ ?_, fun source' t' ↦ ?_⟩
      · exact (hnums source').trans (connNums_modify source source' t LiveTrack.on)
      · refine (htracks source' t').trans ?_
        rw [liveTrack_modify]
        by_cases hsource : source' = source
        · by_cases htrack : t' = t
          · subst htrack
            cases s.liveTrack source' t' with
            | none => simp
            | some track => simp [hsource, hp, LiveTrack.on]
          · simp [hsource, htrack]
        · simp [hsource]
    · obtain ⟨sources, hrest, hnums, htracks⟩ := @ih s
      have hfirst : startTrack source session t s = (.ok (), s) := by
        rw [startTrack, if_neg hp]
        rfl
      refine ⟨sources, (forM_cons_apply hfirst).trans hrest, hnums, fun source' t' ↦ ?_⟩
      rw [htracks source' t']
      by_cases htrack : t' = t
      · simp [htrack, hp]
      · simp [htrack]

theorem change_livePlay (htidy : Tidy s) : Change (.played sess) s (livePlay sess s).2 := by
  cases hsession : s.sessions.get? sess with
  | none =>
    rw [livePlay, derefSession_none hsession]
    exact .notPlayed hsession
  | some session =>
    obtain ⟨source, hsource, hused⟩ := htidy.source hsession
    obtain ⟨sources, heq, hnums, htracks⟩ := @startTracks_spec { s with
      sessions := s.sessions.modify sess fun session ↦ { session with playing := true }
      sources := s.sources.modify session.source fun source ↦
        { source with curConn := (source.curConn + 1) % 2 ^ 32 } } session.source session
      source.trackList
    have hafter : (livePlay sess s).2 = { s with
        sessions := s.sessions.modify sess fun session ↦ { session with playing := true }
        sources := sources } := by
      rw [livePlay, derefSession_apply hsession, derefSource_apply hsource]
      exact congrArg Prod.snd heq
    have hlisted (t : Track) : (t ∈ source.trackList ∧ (session.ep t).isSome = true) ↔
        (session.ep t).isSome = true := by
      refine and_iff_right_of_imp fun hsome ↦ ?_
      obtain ⟨ep, hep⟩ := Option.isSome_iff_exists.mp hsome
      exact mem_trackList (hused t ep hep)
    rw [hafter]
    refine .played hsession (.of_modify (fun session ↦ { session with playing := true }) hsession
      rfl) (fun source' ↦ (hnums source').trans ?_) fun source' t ↦ (htracks source' t).trans ?_
    · exact @connNums_modifySource s session.source source' _
        (fun nums ↦ ((nums.1 + 1) % 2 ^ 32, nums.2)) fun _ ↦ rfl
    · have hkept := @liveTrack_modifySource s session.source source' t (fun source ↦
        { source with curConn := (source.curConn + 1) % 2 ^ 32 }) fun _ ↦ rfl
      simp only [hlisted]
      exact congrArg (fun track ↦ if source' = session.source ∧ (session.ep t).isSome then
        track.map LiveTrack.on else track) hkept

theorem change_liveTeardown (ep : Option ℕ) (htidy : Tidy s) :
    Change (.tornDown sess ep) s (liveTeardown sess ep s).2 := by
  cases hsession : s.sessions.get? sess with
  | none =>
    rw [liveTeardown, derefSession_none hsession]
    exact .notTornDown hsession
  | some session =>
    obtain ⟨s₁, -, hcleared, hswitched, heq⟩ := liveTeardown_eq ep htidy.toLinked hsession
    rw [heq]
    have hoff (t : Track) (hfrees : session.Frees ep t)
        (hnobody : ¬ OthersPlay s sess session.source t) :
        s₁.liveTrack session.source t = (s.liveTrack session.source t).map LiveTrack.off :=
      hswitched.off session.source t rfl hfrees.1 hfrees.2 hnobody
    have hkept (source : ℕ) (t : Track) (hnot : ¬ (source = session.source ∧ session.Frees ep t ∧
        ¬ OthersPlay s sess source t)) : s₁.liveTrack source t = s.liveTrack source t :=
      hswitched.same source t fun h ↦ hnot ⟨h.1, ⟨h.2.1, h.2.2.1⟩, h.2.2.2⟩
    by_cases hends : session.Ends ep
    · rw [if_pos hends]
      have hcounted (source : ℕ) (t : Track) :
          (s₁.endSession sess (session.torn ep)).liveTrack source t = s₁.liveTrack source t := by
        refine liveTrack_modifySource _ source t fun live ↦ ?_
        split_ifs <;> rfl
      refine .tornDown hsession ⟨?_, fun sess' hother ↦ ?_⟩ (fun source ↦ ?_)
        (fun t hfrees hnobody ↦ (hcounted _ t).trans (hoff t hfrees hnobody))
        fun source t hnot ↦ (hcounted source t).trans (hkept source t hnot)
      · rw [if_pos hends]
        exact (NodeTable.get?_erase ..).trans (if_pos rfl)
      · refine (NodeTable.get?_erase ..).trans ((if_neg hother).trans ?_)
        exact hcleared.others sess' hother
      · refine (@connNums_modifySource s₁ session.source source (fun source ↦
          if 0 < source.curConn ∧ session.playing then
            { source with curConn := source.curConn - 1 }
          else source) (fun nums ↦ if 0 < nums.1 ∧ session.playing then (nums.1 - 1, nums.2)
            else nums) fun live ↦ ?_).trans ?_
        · split_ifs <;> rfl
        · rw [hswitched.connNums]
          congr 1
          funext nums
          by_cases hsource : source = session.source
          · simp [hsource, hends, and_comm]
          · simp [hsource]
    · rw [if_neg hends]
      refine .tornDown hsession ⟨?_, hcleared.others⟩ (fun source ↦ ?_) hoff hkept
      · rw [if_neg hends]
        exact hcleared.present
      · rw [hswitched.connNums]
        simp [hends]

theorem change_deliverFrame (source : ℕ) (t : Track) :
    Change (.framed source t) s (deliverFrame source t s).2 := by
  rw [deliverFrame, get_bind_apply]
  split_ifs with hwaiting
  · refine .framed rfl (fun source' ↦ connNums_modify source source' t _) fun source' t' ↦ ?_
    refine (liveTrack_modify source source' t t' _).trans ?_
    split_ifs with hhere
    · obtain ⟨rfl, rfl⟩ := hhere
      cases htrack : s.liveTrack source' t' with
      | none => rfl
      | some track =>
        rw [htrack] at hwaiting
        have hon : track.waiting = true := hwaiting
        by_cases hready : track.ready = true
        · simp [LiveTrack.framed, hready]
        · simp [LiveTrack.framed, hready, hon]
    · rfl
  · refine .framed rfl (fun _ ↦ rfl) fun source' t' ↦ ?_
    split_ifs with hhere
    · obtain ⟨rfl, rfl⟩ := hhere
      change s.liveTrack source' t' = _
      cases htrack : s.liveTrack source' t' with
      | none => rfl
      | some track =>
        rw [htrack] at hwaiting
        have hoff : ¬ track.waiting = true := hwaiting
        simp [LiveTrack.framed, hoff]
    · rfl

/-- Where sessions and endpoints are in order, an operation makes its change and no other. -/
theorem change_of_liveStep {op : LiveOp} (hstep : LiveStep env op s s') (htidy : Tidy s) :
    Change op s s' := by
  cases hstep with
  | other hsame => exact .other hsame
  | opened c msg loc location => exact change_liveOpen c msg loc location
  | setUp t => exact change_liveSetup _ t
  | registered hopened hunregistered => exact change_newRtspSession hunregistered
  | played sess => exact change_livePlay htidy
  | tornDown sess ep => exact change_liveTeardown ep htidy
  | framed source t => exact change_deliverFrame source t

end WisCam.Server
