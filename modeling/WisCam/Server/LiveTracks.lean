import WisCam.Server.PlayingSessions

/-!
# Which tracks run

The stream of a track is to run until the track is ready, and from then on while a session plays
the track. Three operations break this: the first frame of a track that is played already switches
the stream off, a teardown of the last session switches it off before the track is ready, and a
track that is set up in a session that plays is not switched on. Without them the stream of every
track runs exactly when it should, whatever else happens.
-/

set_option autoImplicit false

namespace WisCam.Server

open Foundations Message Connection Auth Program

variable {env : Env} {s s' : State} {source sess : ℕ} {session : Session} {op : LiveOp} {t : Track}

/-! ### Tracks that are played -/

/-- The session plays the track of the source. -/
def Session.playsTrack (session : Session) (source : ℕ) (t : Track) : Prop :=
  session.source = source ∧ session.playing = true ∧ (session.ep t).isSome = true

/-- A track is played by the session at one address, or by another one. -/
theorem active_iff_here_or_others (s : State) (source sess : ℕ) (t : Track) :
    s.active source t = true ↔
      (∃ session, s.sessions.get? sess = some session ∧ session.playsTrack source t) ∨
        OthersPlay s sess source t := by
  rw [active_iff]
  constructor
  · rintro ⟨sess', session', hget, hplays⟩
    by_cases hsame : sess' = sess
    · exact .inl ⟨session', hsame ▸ hget, hplays⟩
    · exact .inr ⟨sess', session', hsame, hget, hplays⟩
  · rintro (⟨session', hget, hplays⟩ | ⟨sess', session', -, hget, hplays⟩)
    · exact ⟨sess, session', hget, hplays⟩
    · exact ⟨sess', session', hget, hplays⟩

variable {session' : Option Session}

/-- Which tracks are played after a session has been set. -/
theorem SetsSession.active_iff (hset : SetsSession s s' sess session') :
    s'.active source t = true ↔
      (∃ session, session' = some session ∧ session.playsTrack source t) ∨
        OthersPlay s sess source t := by
  rw [active_iff_here_or_others s' source sess t, hset.here, OthersPlay.congr hset.others]

/-- A session that plays what it played before leaves the played tracks as they are. -/
theorem SetsSession.active_eq (hset : SetsSession s s' sess session')
    (hsame : (∃ session, session' = some session ∧ session.playsTrack source t) ↔
      ∃ session, s.sessions.get? sess = some session ∧ session.playsTrack source t) :
    s'.active source t = s.active source t := by
  rw [Bool.eq_iff_iff, hset.active_iff, hsame, active_iff_here_or_others s source sess t]

theorem active_of_sessions (hsessions : s'.sessions = s.sessions) :
    s'.active source t = s.active source t := by
  rw [State.active, hsessions, State.active]

/-- A session that is there and plays what it played before leaves the played tracks as they
are. -/
theorem SetsSession.active_eq_of_some {session' : Session}
    (hset : SetsSession s s' sess (some session')) (hsession : s.sessions.get? sess = some session)
    (hsame : session'.playsTrack source t ↔ session.playsTrack source t) :
    s'.active source t = s.active source t := by
  apply hset.active_eq
  simp [hsession, hsame]

theorem torn_ep_eq (ep : Option ℕ) (hnot : ¬ session.Frees ep t) :
    (session.torn ep).ep t = session.ep t := by
  show (if t ∈ List.finRange 2 ∧ (ep = none ∨ ep = session.ep t) then none else session.ep t) =
    session.ep t
  split_ifs with hcleared
  · cases hep : session.ep t with
    | none => rfl
    | some endpoint => exact absurd ⟨by simp [hep], if_pos hcleared⟩ hnot
  · rfl

/-! ### Tracks that run -/

/-- The stream of the track runs exactly if the track is not ready yet or a session of the source
plays it. -/
def RunsAsNeeded (source : ℕ) (t : Track) (s : State) : Prop :=
  ∀ track, s.liveTrack source t = some track →
    (track.waiting = true ↔ track.ready = false ∨ s.active source t = true)

theorem RunsAsNeeded.congr (htrack : s'.liveTrack source t = s.liveTrack source t)
    (hactive : s'.active source t = s.active source t) :
    RunsAsNeeded source t s' ↔ RunsAsNeeded source t s := by
  rw [RunsAsNeeded, RunsAsNeeded, htrack, hactive]

/-- The operation does not break the rule for the track. A frame that makes the track ready comes
when no session plays it. A track that is set up in a session that plays is not ready yet, or
played by another session. An endpoint is torn down when the track is ready, or played by another
session. -/
def KeepsRunning (source : ℕ) (t : Track) : LiveOp → State → Prop
  | .framed source' t', s => source' = source → t' = t →
    ∀ track, s.liveTrack source t = some track → track.ready = false → s.active source t = false
  | .setUp sess t', s => t' = t → ∀ session, s.sessions.get? sess = some session →
    session.source = source → session.playing = true →
    ∀ track, s.liveTrack source t = some track → track.ready = true → s.active source t = true
  | .tornDown sess ep, s => ∀ session, s.sessions.get? sess = some session →
    session.source = source → session.Frees ep t →
    ∀ track, s.liveTrack source t = some track → track.ready = false → OthersPlay s sess source t
  | _, _ => True

theorem runsAsNeeded_setUp {ep : ℕ} {t' : Track} (hsession : s.sessions.get? sess = some session)
    (hset : SetsSession s s' sess
      (some { session with ep := Function.update session.ep t' (some ep) }))
    (hsources : s'.sources = s.sources) (hruns : RunsAsNeeded source t s) :
    RunsAsNeeded source t s' ↔ KeepsRunning source t (.setUp sess t') s := by
  have htracks : s'.liveTrack source t = s.liveTrack source t := by
    rw [State.liveTrack, hsources, State.liveTrack]
  by_cases hstarts : t' = t ∧ session.source = source ∧ session.playing = true
  · obtain ⟨rfl, hsource, hplaying⟩ := hstarts
    have hactive : s'.active source t' = true :=
      hset.active_iff.mpr (.inl ⟨_, rfl, hsource, hplaying, by simp⟩)
    constructor
    · intro hafter _ session' hsession' _ _ track htrack hready
      have hwaiting := (hafter track (htracks.trans htrack)).mpr (.inr hactive)
      refine ((hruns track htrack).mp hwaiting).resolve_left ?_
      simp [hready]
    · intro hkeeps track htrack
      rw [htracks] at htrack
      refine iff_of_true ((hruns track htrack).mpr ?_) (.inr hactive)
      cases hready : track.ready with
      | false => exact .inl rfl
      | true => exact .inr (hkeeps rfl session hsession hsource hplaying track htrack hready)
  · refine iff_of_true ((RunsAsNeeded.congr htracks ?_).mpr hruns) ?_
    · refine hset.active_eq_of_some hsession ?_
      by_cases htrack : t' = t
      · refine iff_of_false ?_ ?_
        · exact fun hplays ↦ hstarts ⟨htrack, hplays.1, hplays.2.1⟩
        · exact fun hplays ↦ hstarts ⟨htrack, hplays.1, hplays.2.1⟩
      · simp [Session.playsTrack, Function.update_of_ne (Ne.symm htrack)]
    · intro htrack session' hsession' hsource hplaying
      obtain rfl := Option.some.inj (hsession.symm.trans hsession')
      exact absurd ⟨htrack, hsource, hplaying⟩ hstarts

theorem runsAsNeeded_played (hsession : s.sessions.get? sess = some session)
    (hset : SetsSession s s' sess (some { session with playing := true }))
    (htracks : ∀ source t, s'.liveTrack source t =
      if source = session.source ∧ (session.ep t).isSome then
        (s.liveTrack source t).map LiveTrack.on
      else s.liveTrack source t)
    (hruns : RunsAsNeeded source t s) : RunsAsNeeded source t s' := by
  by_cases hhere : source = session.source ∧ (session.ep t).isSome = true
  · intro track htrack
    rw [htracks, if_pos hhere] at htrack
    obtain ⟨before, -, rfl⟩ := Option.map_eq_some_iff.mp htrack
    exact iff_of_true rfl
      (.inr (hset.active_iff.mpr (.inl ⟨_, rfl, hhere.1.symm, rfl, hhere.2⟩)))
  · refine (RunsAsNeeded.congr ((htracks source t).trans (if_neg hhere)) ?_).mpr hruns
    refine hset.active_eq_of_some hsession (iff_of_false ?_ ?_)
    · exact fun hplays ↦ hhere ⟨hplays.1.symm, hplays.2.2⟩
    · exact fun hplays ↦ hhere ⟨hplays.1.symm, hplays.2.2⟩

theorem active_tornDown {ep : Option ℕ} (hsession : s.sessions.get? sess = some session)
    (hset : SetsSession s s' sess (if session.Ends ep then none else some (session.torn ep)))
    (hnot : ¬ (source = session.source ∧ session.Frees ep t)) :
    s'.active source t = s.active source t := by
  apply hset.active_eq
  have hsame : (session.torn ep).playsTrack source t ↔ session.playsTrack source t := by
    refine and_congr_right fun hsource ↦ ?_
    have hkept := torn_ep_eq ep fun hfrees ↦ hnot ⟨hsource.symm, hfrees⟩
    rw [hkept]
    rfl
  simp only [hsession, Option.some.injEq, exists_eq_left', ← hsame]
  split_ifs with hends
  · simp [Session.playsTrack, hends t]
  · simp

theorem runsAsNeeded_tornDown {ep : Option ℕ} (hsession : s.sessions.get? sess = some session)
    (hset : SetsSession s s' sess (if session.Ends ep then none else some (session.torn ep)))
    (hoff : ∀ t, session.Frees ep t → ¬ OthersPlay s sess session.source t →
      s'.liveTrack session.source t = (s.liveTrack session.source t).map LiveTrack.off)
    (hkept : ∀ source t, ¬ (source = session.source ∧ session.Frees ep t ∧
      ¬ OthersPlay s sess source t) → s'.liveTrack source t = s.liveTrack source t)
    (hruns : RunsAsNeeded source t s) :
    RunsAsNeeded source t s' ↔ KeepsRunning source t (.tornDown sess ep) s := by
  by_cases hfrees : source = session.source ∧ session.Frees ep t
  · obtain ⟨rfl, hfrees⟩ := hfrees
    have hgone : ¬ ∃ after, (if session.Ends ep then none else some (session.torn ep)) =
        some after ∧ after.playsTrack session.source t := by
      rintro ⟨after, hafter, hplays⟩
      split_ifs at hafter with hends
      obtain rfl := Option.some.inj hafter
      exact absurd hplays.2.2 (by simp [hfrees.2])
    have hactive : s'.active session.source t = true ↔ OthersPlay s sess session.source t :=
      hset.active_iff.trans (or_iff_right hgone)
    by_cases hothers : OthersPlay s sess session.source t
    · have htracks := hkept session.source t fun h ↦ h.2.2 hothers
      refine iff_of_true ((RunsAsNeeded.congr htracks ?_).mpr hruns) fun _ _ _ _ _ _ _ ↦ hothers
      rw [hactive.mpr hothers, (active_iff_here_or_others s session.source sess t).mpr
        (.inr hothers)]
    · have htracks := hoff t hfrees hothers
      constructor
      · intro hafter session' _ _ _ track htrack hunready
        rw [htrack, Option.map_some] at htracks
        exact absurd ((hafter _ htracks).mpr (.inl hunready)) nofun
      · intro hkeeps track htrack
        rw [htracks] at htrack
        obtain ⟨before, hbefore, rfl⟩ := Option.map_eq_some_iff.mp htrack
        refine iff_of_false nofun ?_
        rintro (hunready | hplayed)
        · exact hothers (hkeeps session hsession rfl hfrees before hbefore hunready)
        · exact hothers (hactive.mp hplayed)
  · have htracks := hkept source t fun h ↦ hfrees ⟨h.1, h.2.1⟩
    refine iff_of_true ((RunsAsNeeded.congr htracks
      (active_tornDown hsession hset hfrees)).mpr hruns) ?_
    intro session' hsession' hsource hfrees'
    obtain rfl := Option.some.inj (hsession.symm.trans hsession')
    exact absurd ⟨hsource.symm, hfrees'⟩ hfrees

theorem runsAsNeeded_framed {source' : ℕ} {t' : Track} (hsessions : s'.sessions = s.sessions)
    (htracks : ∀ source t, s'.liveTrack source t =
      if source = source' ∧ t = t' then (s.liveTrack source t).map LiveTrack.framed
      else s.liveTrack source t)
    (hruns : RunsAsNeeded source t s) :
    RunsAsNeeded source t s' ↔ KeepsRunning source t (.framed source' t') s := by
  have hactive : s'.active source t = s.active source t := active_of_sessions hsessions
  by_cases hhere : source = source' ∧ t = t'
  · obtain ⟨rfl, rfl⟩ := hhere
    have hafter := (htracks source t).trans (if_pos ⟨rfl, rfl⟩)
    cases htrack : s.liveTrack source t with
    | none =>
      rw [htrack] at hafter
      refine iff_of_true (fun track h ↦ absurd (hafter.symm.trans h) nofun) ?_
      exact fun _ _ track h ↦ absurd (htrack.symm.trans h) nofun
    | some track =>
      have hbefore := hruns track htrack
      rw [htrack, Option.map_some] at hafter
      simp only [RunsAsNeeded, KeepsRunning, hafter, htrack, Option.some.injEq, forall_eq',
        hactive, true_imp_iff, LiveTrack.framed]
      cases hready : track.ready with
      | true => simpa [hready] using hbefore
      | false =>
        have hwaiting := hbefore.mpr (.inl hready)
        simp [hwaiting]
  · refine iff_of_true ((RunsAsNeeded.congr ((htracks source t).trans (if_neg hhere))
      hactive).mpr hruns) ?_
    exact fun hsource htrack ↦ absurd ⟨hsource.symm, htrack.symm⟩ hhere

/-- Where the stream of the track runs as needed, an operation keeps it so exactly if it is not one
of those that break the rule. -/
theorem runsAsNeeded_change (hchange : Change op s s') (hruns : RunsAsNeeded source t s) :
    RunsAsNeeded source t s' ↔ KeepsRunning source t op s := by
  have hsame {s' : State} (hsources : s'.sources = s.sources)
      (hactive : s'.active source t = s.active source t) : RunsAsNeeded source t s' := by
    refine (RunsAsNeeded.congr ?_ hactive).mpr hruns
    rw [State.liveTrack, hsources, State.liveTrack]
  cases hchange with
  | other h => exact iff_of_true (hsame h.sources (active_of_sessions h.sessions)) trivial
  | refused => exact iff_of_true hruns trivial
  | notPlayed => exact iff_of_true hruns trivial
  | notTornDown hnone =>
    refine iff_of_true hruns fun session hsession ↦ ?_
    exact absurd (hnone.symm.trans hsession) (Option.some_ne_none _).symm
  | notSetUp hnone =>
    refine iff_of_true hruns ?_
    rintro rfl session hsession rfl _ track htrack
    exact absurd ((hnone session hsession).symm.trans htrack) (Option.some_ne_none _).symm
  | opened _ _ hfresh hset hsources =>
    refine iff_of_true (hsame hsources (hset.active_eq ?_)) trivial
    simp [hfresh, Session.playsTrack]
  | registered hsession hset hsources =>
    exact iff_of_true (hsame hsources (hset.active_eq_of_some hsession Iff.rfl)) trivial
  | setUp hsession hset hsources => exact runsAsNeeded_setUp hsession hset hsources hruns
  | played hsession hset _ htracks =>
    exact iff_of_true (runsAsNeeded_played hsession hset htracks hruns) trivial
  | tornDown hsession hset _ hoff hkept =>
    exact runsAsNeeded_tornDown hsession hset hoff hkept hruns
  | framed hsessions _ htracks => exact runsAsNeeded_framed hsessions htracks hruns

/-- Whatever is set up, played, torn down and delivered, in any order: in every state on the way
the stream of a track runs exactly if the track is not ready yet or a session plays it, if and only
if none of the operations is one of the three that break the rule. -/
theorem tracks_run_as_needed_iff (env : Env) (config : Config) (source : ℕ) (t : Track)
    {steps : List (LiveOp × State)} {s : State}
    (hstart : ∀ track, (initial config).liveTrack source t = some track →
      track.ready = false ∧ track.waiting = true)
    (hpath : Path (LiveStep env) (initial config) steps s) :
    Always (RunsAsNeeded source t) steps s ↔
      ∀ step ∈ steps, KeepsRunning source t step.1 step.2 := by
  apply hpath.always_iff (J := Tidy)
  · exact fun hstep htidy ↦ tidy_of_liveStep hstep htidy
  · exact fun hstep htidy hruns ↦ runsAsNeeded_change (change_of_liveStep hstep htidy) hruns
  · exact tidy_initial config
  · intro track htrack
    obtain ⟨hready, hwaiting⟩ := hstart track htrack
    simp [hready, hwaiting]

/-- The tracks of the sample server as they are configured: each waits for its first frame. -/
def freshTracks : List LiveTrack :=
  sampleSource.tracks.map fun track ↦ { track with ready := false, waiting := true }

theorem length_freshTracks : freshTracks.length ≤ 2 := Nat.le_refl 2

/-- A source as it is configured. -/
def freshSource : LiveSource := ⟨freshTracks, 1400, 4, 0, length_freshTracks⟩

/-- The sample server before any frame. -/
def freshConfig : Config := { sampleConfig with sources := [freshSource, freshSource] }

/-- The first track. -/
def firstTrack : Track := ⟨0, Nat.two_pos⟩

/-- The sample server after the first frame of the first track. -/
def framedOnce : State := (deliverFrame 0 firstTrack (initial freshConfig)).2

/-- A session is opened then. -/
def openedFramed : State := (liveOpen 0 openMessage 0 openLocation framedOnce).2

/-- The track is set up in it. -/
def setUpFramed : State := (liveSetup sampleEnv 0 firstTrack openedFramed).2

/-- The first frame of a track comes, and a session is opened, set up and played. -/
def framedPlayed : List (LiveOp × State) :=
  [(.framed 0 firstTrack, initial freshConfig), (.opened 0, framedOnce),
    (.setUp 0 firstTrack, openedFramed), (.played 0, setUpFramed)]

theorem setupAllowed_openedFramed :
    SetupAllowed openedFramed.rtspLocs openedFramed.trace 0 openMessage 0 0 where
  resolves := ⟨0, 6, ascii "/open/track0", 5, 0, by decide +kernel, by decide +kernel, by decide⟩
  verified location hlocation hrealm := by
    rw [← Option.some.inj hlocation] at hrealm
    exact absurd rfl hrealm
  opened _ := by decide +kernel
  registered id hid := by
    have hnone : getHeader openMessage (ascii "Session") = none := by decide +kernel
    exact absurd (hnone.symm.trans hid) nofun

/-- The stream is switched off once the track is ready, and on when the session plays it. -/
theorem track_runs_framed_played :
    Always (RunsAsNeeded 0 0) framedPlayed (livePlay 0 setUpFramed).2 ∧
      (setUpFramed.liveTrack 0 0).map (fun track ↦ (track.ready, track.waiting)) =
        some (true, false) ∧
      (livePlay 0 setUpFramed).2.active 0 0 = true ∧
      ((livePlay 0 setUpFramed).2.liveTrack 0 0).map (fun track ↦ (track.ready, track.waiting)) =
        some (true, true) := by
  have hpath : Path (LiveStep sampleEnv) (initial freshConfig) framedPlayed
      (livePlay 0 setUpFramed).2 := by
    refine .cons (.framed 0 firstTrack) (.cons (.opened 0 openMessage 0 openLocation)
      (.cons (.setUp firstTrack ⟨0, openMessage, 0, setupAllowed_openedFramed⟩ fun own hown ↦ ?_)
        (.cons (.played 0) (.nil _))))
    rw [← Option.some.inj hown]
    rfl
  refine ⟨(tracks_run_as_needed_iff sampleEnv freshConfig 0 0 ?_ hpath).mpr ?_, by decide,
    by decide, by decide⟩
  · intro track htrack
    rw [← Option.some.inj htrack]
    exact ⟨rfl, rfl⟩
  · intro step hmem
    simp only [framedPlayed, List.mem_cons, List.not_mem_nil, or_false] at hmem
    rcases hmem with rfl | rfl | rfl | rfl
    · exact fun _ _ _ _ _ ↦ rfl
    · exact trivial
    · intro _ session hsession _ hplaying
      rw [← Option.some.inj hsession] at hplaying
      exact absurd hplaying Bool.false_ne_true
    · exact trivial

/-- The client sets up the second track. -/
def setupSecond : Event :=
  .read 0 false 0 (ascii "SETUP rtsp://h/open/track1 RTSP/1.0\r\n" ++
    ascii "Transport: RTP/AVP/TCP;interleaved=2-3\r\n" ++ sessionHeader ++ ascii "\r\n")

/-- The stream of a track after some events, with what it depends on: whether it runs, whether the
track is ready, and whether a session plays it. -/
def streamAfter (events : List Event) (t : Track) : Option (Bool × Bool × Bool) :=
  let s := (run sampleEnv events (initial freshConfig)).2
  (s.liveTrack 0 t).map fun track ↦ (track.waiting, track.ready, s.active 0 t)

theorem not_always_of_streamAfter {events : List Event} {waiting ready active : Bool}
    (hstream : streamAfter events t = some (waiting, ready, active))
    (hwrong : ¬ (waiting = true ↔ ready = false ∨ active = true)) :
    ∃ steps, Path (LiveStep sampleEnv) (initial freshConfig) steps
        (run sampleEnv events (initial freshConfig)).2 ∧
      ¬ Always (RunsAsNeeded 0 t) steps (run sampleEnv events (initial freshConfig)).2 := by
  obtain ⟨steps, hpath⟩ := exists_path_of_run sampleEnv freshConfig events
  obtain ⟨track, htrack, heq⟩ := Option.map_eq_some_iff.mp hstream
  simp only [Prod.mk.injEq] at heq
  obtain ⟨rfl, rfl, rfl⟩ := heq
  exact ⟨steps, hpath, fun halways ↦ hwrong (halways.last track htrack)⟩

/-- A client that plays before the first frame gets no frame after it. A client that tears down
before the first frame leaves a track that never gets ready. A client that plays one track and then
sets up the other gets no frame of that one. -/
theorem streams_switched_wrongly :
    streamAfter (interleavedEvents ++ [sessionRequest (ascii "PLAY"), .liveFrame 0 0]) 0 =
        some (false, true, true) ∧
      streamAfter (interleavedEvents ++ [sessionRequest (ascii "TEARDOWN")]) 0 =
        some (false, false, false) ∧
      streamAfter (.liveFrame 0 0 :: .liveFrame 0 1 :: interleavedEvents ++
        [sessionRequest (ascii "PLAY"), setupSecond]) 1 = some (false, true, true) ∧
      ∃ steps, Path (LiveStep sampleEnv) (initial freshConfig) steps
          (run sampleEnv (interleavedEvents ++ [sessionRequest (ascii "PLAY"), .liveFrame 0 0])
            (initial freshConfig)).2 ∧
        ¬ Always (RunsAsNeeded 0 0) steps
          (run sampleEnv (interleavedEvents ++ [sessionRequest (ascii "PLAY"), .liveFrame 0 0])
            (initial freshConfig)).2 := by
  have hplayed : streamAfter (interleavedEvents ++
      [sessionRequest (ascii "PLAY"), .liveFrame 0 0]) 0 = some (false, true, true) := by
    decide +kernel
  exact ⟨hplayed, by decide +kernel, by decide +kernel,
    not_always_of_streamAfter hplayed (by decide)⟩

end WisCam.Server
