import WisCam.Server.Operations
import WisCam.Server.Teardown

/-!
# Counting the sessions that play

A live source counts its connections in `u32CurConn`: `live_play` adds one, `live_teardown` takes
one away when it frees a session that plays, and `live_open` refuses a new session once the count
has reached `u32MaxConnNum`. The counter is right as long as no session is played twice. The limit
is tested when a session is opened and reached when it is played, so it is kept only if sessions
are not opened ahead of being played.
-/

set_option autoImplicit false

namespace WisCam.Server

open Foundations Message Connection Auth Program List

variable {env : Env} {s s' : State} {source sess : ℕ} {session : Session} {op : LiveOp}

/-! ### Counts of sessions -/

/-- The session is one of the source. -/
def Session.isOf (source : ℕ) (session : Session) : Bool := session.source == source

/-- The session is one of the source and plays. -/
def Session.playsOn (source : ℕ) (session : Session) : Bool :=
  session.source == source && session.playing

/-- The number of sessions of a source. -/
def State.sessionCount (s : State) (source : ℕ) : ℕ := s.sessions.count (Session.isOf source)

/-- The number of sessions of a source that play. -/
def State.playingCount (s : State) (source : ℕ) : ℕ := s.sessions.count (Session.playsOn source)

theorem SetsSession.count {session' : Option Session} (hset : SetsSession s s' sess session')
    (p : Session → Bool) :
    s'.sessions.count p + ((s.sessions.get? sess).any p).toNat =
      s.sessions.count p + (session'.any p).toNat := by
  rw [← hset.here]
  exact NodeTable.count_of_others hset.others

/-- A session that still counts as before does not change the count. -/
theorem SetsSession.count_eq {session' : Session} {p : Session → Bool}
    (hset : SetsSession s s' sess (some session')) (hsession : s.sessions.get? sess = some session)
    (hsame : p session' = p session) : s'.sessions.count p = s.sessions.count p := by
  have hcount := hset.count p
  rw [hsession, Option.any_some, Option.any_some, hsame] at hcount
  exact Nat.add_right_cancel hcount

/-- A new session adds to the count if it is of the kind that is counted. -/
theorem SetsSession.count_new {session' : Session}
    (hset : SetsSession s s' sess (some session')) (hfresh : s.sessions.get? sess = none)
    (p : Session → Bool) : s'.sessions.count p = s.sessions.count p + (p session').toNat := by
  have hcount := hset.count p
  rw [hfresh] at hcount
  exact hcount

/-- A session that has just been opened does not play. -/
theorem playingCount_opened {source' : ℕ} (hfresh : s.sessions.get? sess = none)
    (hset : SetsSession s s' sess (some ⟨source', false, fun _ ↦ none, none⟩)) :
    s'.playingCount source = s.playingCount source := by
  refine (hset.count_new hfresh (Session.playsOn source)).trans ?_
  rw [Session.playsOn, Bool.and_false, Bool.toNat_false]
  rfl

theorem isOf_torn (source : ℕ) (ep : Option ℕ) :
    (session.torn ep).isOf source = session.isOf source := rfl

theorem playsOn_torn (source : ℕ) (ep : Option ℕ) :
    (session.torn ep).playsOn source = session.playsOn source := rfl

/-- After a teardown a session counts as before, or is gone. -/
theorem count_tornDown {ep : Option ℕ} {p : Session → Bool}
    (hset : SetsSession s s' sess (if session.Ends ep then none else some (session.torn ep)))
    (hsession : s.sessions.get? sess = some session) (hsame : p (session.torn ep) = p session) :
    s'.sessions.count p + (if session.Ends ep then (p session).toNat else 0) =
      s.sessions.count p := by
  have hcount := hset.count p
  rw [hsession, Option.any_some] at hcount
  split_ifs at hcount ⊢ with hends
  · exact hcount
  · rw [Option.any_some, hsame] at hcount
    exact Nat.add_right_cancel hcount

/-! ### The counter -/

/-- `u32CurConn` of the source is the number of its sessions that play, and 0 if it has no session
at all. -/
def CountsPlaying (s : State) (source : ℕ) : Prop :=
  ∀ live, s.sources[source]? = some live →
    live.curConn = s.playingCount source ∧ (s.sessList source = [] → live.curConn = 0)

theorem playingCount_of_sessList (hempty : s.sessList source = []) : s.playingCount source = 0 := by
  rw [State.sessList, map_eq_nil_iff, filter_eq_nil_iff] at hempty
  refine countP_eq_zero.mpr fun node hmem hplays ↦ hempty node hmem ?_
  rw [Session.playsOn, Bool.and_eq_true] at hplays
  exact hplays.1

theorem countsPlaying_iff : CountsPlaying s source ↔
    ∀ nums, s.connNums source = some nums → nums.1 = s.playingCount source := by
  constructor
  · intro hcounts nums hnums
    obtain ⟨live, hlive, rfl⟩ := Option.map_eq_some_iff.mp hnums
    exact (hcounts live hlive).1
  · intro hcounts live hlive
    have hcount := hcounts (live.curConn, live.maxConnNum) (by simp [State.connNums, hlive])
    exact ⟨hcount, fun hempty ↦ hcount.trans (playingCount_of_sessList hempty)⟩

theorem CountsPlaying.congr (hnums : s'.connNums source = s.connNums source)
    (hcount : s'.playingCount source = s.playingCount source) :
    CountsPlaying s' source ↔ CountsPlaying s source := by
  rw [countsPlaying_iff, countsPlaying_iff, hnums, hcount]

theorem connNums_of_sources (hsources : s'.sources = s.sources) :
    s'.connNums source = s.connNums source := by
  rw [State.connNums, hsources, State.connNums]

/-- If the operation plays a session of the source, the session does not play yet and the counter
has room for one more. -/
def PlaysFirst (source : ℕ) : LiveOp → State → Prop
  | .played sess, s => ∀ session, s.sessions.get? sess = some session →
    session.source = source → session.playing = false ∧ s.playingCount source + 1 < 2 ^ 32
  | _, _ => True

theorem playsFirst_iff (hsession : s.sessions.get? sess = some session) :
    PlaysFirst source (.played sess) s ↔
      (session.source = source → session.playing = false ∧ s.playingCount source + 1 < 2 ^ 32) := by
  constructor
  · exact fun hfirst ↦ hfirst session hsession
  · intro hfirst session' hsession'
    obtain rfl := Option.some.inj (hsession.symm.trans hsession')
    exact hfirst

/-- Where the counter is right, playing a session keeps it right exactly if that is the first time
and there is room. -/
theorem countsPlaying_played (htidy : Tidy s) (hsession : s.sessions.get? sess = some session)
    (hset : SetsSession s s' sess (some { session with playing := true }))
    (hnums : ∀ source, s'.connNums source = (s.connNums source).map fun nums ↦
      if source = session.source then ((nums.1 + 1) % 2 ^ 32, nums.2) else nums)
    (hcounts : CountsPlaying s source) :
    CountsPlaying s' source ↔ PlaysFirst source (.played sess) s := by
  rw [playsFirst_iff hsession]
  by_cases hsource : session.source = source
  · subst hsource
    obtain ⟨live, hlive, -⟩ := htidy.source hsession
    have hbefore := (hcounts live hlive).1
    have hafter : s'.connNums session.source =
        some ((live.curConn + 1) % 2 ^ 32, live.maxConnNum) := by
      rw [hnums, State.connNums, hlive]
      simp
    have hcount := hset.count (Session.playsOn session.source)
    rw [countsPlaying_iff, hafter]
    simp only [Option.some.injEq, forall_eq', hbefore, true_imp_iff]
    rw [hsession] at hcount
    simp only [Option.any_some, Session.playsOn, beq_self_eq_true, Bool.true_and,
      Bool.toNat_true] at hcount
    change s'.playingCount session.source + _ = s.playingCount session.source + 1 at hcount
    cases hplaying : session.playing with
    | true =>
      rw [hplaying] at hcount
      simp only [Bool.toNat_true] at hcount
      simp
      omega
    | false =>
      rw [hplaying] at hcount
      simp only [Bool.toNat_false] at hcount
      simp
      omega
  · refine iff_of_true ((CountsPlaying.congr ?_ ?_).mpr hcounts) fun h ↦ absurd h hsource
    · rw [hnums]
      simp [Ne.symm hsource]
    · exact hset.count_eq hsession (by simp [Session.playsOn, hsource])

/-- A teardown keeps a right counter right. -/
theorem countsPlaying_tornDown {ep : Option ℕ} (hsession : s.sessions.get? sess = some session)
    (hset : SetsSession s s' sess (if session.Ends ep then none else some (session.torn ep)))
    (hnums : ∀ source, s'.connNums source = (s.connNums source).map fun nums ↦
      if source = session.source ∧ session.Ends ep ∧ session.playing ∧ 0 < nums.1 then
        (nums.1 - 1, nums.2)
      else nums)
    (hcounts : CountsPlaying s source) : CountsPlaying s' source := by
  rw [countsPlaying_iff] at hcounts ⊢
  intro nums hafter
  rw [hnums] at hafter
  obtain ⟨before, hbefore, rfl⟩ := Option.map_eq_some_iff.mp hafter
  have hright := hcounts before hbefore
  have hcount := count_tornDown hset hsession (playsOn_torn source ep)
  change s'.playingCount source + _ = s.playingCount source at hcount
  by_cases hends : session.Ends ep
  · rw [if_pos hends] at hcount
    by_cases hplays : source = session.source ∧ session.playing = true
    · have hone : session.playsOn source = true := by simp [Session.playsOn, hplays]
      rw [hone, Bool.toNat_true] at hcount
      rw [if_pos ⟨hplays.1, hends, hplays.2, by omega⟩]
      show before.1 - 1 = s'.playingCount source
      omega
    · have hzero : session.playsOn source = false := by
        rw [Session.playsOn, Bool.and_eq_false_iff, beq_eq_false_iff_ne]
        by_cases hsource : session.source = source
        · exact .inr (Bool.eq_false_iff.mpr fun hplaying ↦ hplays ⟨hsource.symm, hplaying⟩)
        · exact .inl hsource
      rw [hzero, Bool.toNat_false] at hcount
      rw [if_neg fun h ↦ hplays ⟨h.1, h.2.2.1⟩, hright]
      exact hcount.symm
  · rw [if_neg hends] at hcount
    rw [if_neg fun h ↦ hends h.2.1, hright]
    exact hcount.symm

/-- Where the counter is right, an operation keeps it right exactly if it does not play a session
twice, nor one more than it can count. -/
theorem countsPlaying_change (hchange : Change op s s') (htidy : Tidy s)
    (hcounts : CountsPlaying s source) : CountsPlaying s' source ↔ PlaysFirst source op s := by
  cases hchange with
  | other hsame =>
    refine iff_of_true ((CountsPlaying.congr ?_ ?_).mpr hcounts) trivial
    · exact connNums_of_sources hsame.sources
    · rw [State.playingCount, hsame.sessions, State.playingCount]
  | refused => exact iff_of_true hcounts trivial
  | notSetUp => exact iff_of_true hcounts trivial
  | notTornDown => exact iff_of_true hcounts trivial
  | notPlayed hnone =>
    exact iff_of_true hcounts fun session hsession ↦
      absurd (hnone.symm.trans hsession) nofun
  | opened _ _ hfresh hset hsources =>
    refine iff_of_true ((CountsPlaying.congr ?_ ?_).mpr hcounts) trivial
    · exact connNums_of_sources hsources
    · exact playingCount_opened hfresh hset
  | setUp hsession hset hsources =>
    exact iff_of_true ((CountsPlaying.congr (connNums_of_sources hsources)
      (hset.count_eq hsession rfl)).mpr hcounts) trivial
  | registered hsession hset hsources =>
    exact iff_of_true ((CountsPlaying.congr (connNums_of_sources hsources)
      (hset.count_eq hsession rfl)).mpr hcounts) trivial
  | played hsession hset hnums => exact countsPlaying_played htidy hsession hset hnums hcounts
  | tornDown hsession hset hnums =>
    exact iff_of_true (countsPlaying_tornDown hsession hset hnums hcounts)
      trivial
  | framed hsessions hnums =>
    refine iff_of_true ((CountsPlaying.congr (hnums source) ?_).mpr hcounts)
      trivial
    rw [State.playingCount, hsessions, State.playingCount]

theorem playingCount_initial (config : Config) (source : ℕ) :
    (initial config).playingCount source = 0 := rfl

/-- Whatever is opened, set up, played, torn down and disconnected, in any order: `u32CurConn` of a
source is the number of its sessions that play in every state on the way exactly if no session of
the source is played while it plays already, nor when 2^32 - 1 of them play. -/
theorem curConn_counts_iff (env : Env) (config : Config) (source : ℕ)
    {steps : List (LiveOp × State)} {s : State}
    (hzero : ∀ live, config.sources[source]? = some live → live.curConn = 0)
    (hpath : Path (LiveStep env) (initial config) steps s) :
    Always (CountsPlaying · source) steps s ↔
      ∀ step ∈ steps, PlaysFirst source step.1 step.2 := by
  refine hpath.always_iff (J := Tidy) (fun hstep htidy ↦ tidy_of_liveStep hstep htidy)
    (fun hstep htidy hcounts ↦ countsPlaying_change (change_of_liveStep hstep htidy) htidy hcounts)
    (tidy_initial config) fun live hlive ↦ ⟨?_, fun _ ↦ hzero live hlive⟩
  rw [playingCount_initial]
  exact hzero live hlive

/-- The open location of the sample server. -/
def openLocation : RtspLocation := ⟨⟨ascii "/open", fun _ ↦ 0⟩, [], [], [], 0⟩

/-- A request for a track of it. -/
def openMessage : Pmsg := sampleMessage (ascii "SETUP rtsp://h/open/track0 RTSP/1.0\r\n\r\n")

/-- The sample server with a session on its open location. -/
def openedOne : State := (liveOpen 0 openMessage 0 openLocation (initial sampleConfig)).2

/-- A session is opened and then played. -/
def openedPlayed : List (LiveOp × State) :=
  [(.opened 0, initial sampleConfig), (.played 0, openedOne)]

/-- The session that is opened and played is counted. -/
theorem curConn_counts_opened_played :
    Path (LiveStep sampleEnv) (initial sampleConfig) openedPlayed (livePlay 0 openedOne).2 ∧
      Always (CountsPlaying · 0) openedPlayed (livePlay 0 openedOne).2 ∧
      (livePlay 0 openedOne).2.connNums 0 = some (1, 4) := by
  have hpath : Path (LiveStep sampleEnv) (initial sampleConfig) openedPlayed
      (livePlay 0 openedOne).2 :=
    .cons (.opened 0 openMessage 0 openLocation) (.cons (.played 0) (.nil _))
  have hzero (live : LiveSource) (hlive : sampleConfig.sources[0]? = some live) :
      live.curConn = 0 := by
    rw [← Option.some.inj hlive]
    rfl
  refine ⟨hpath, (curConn_counts_iff sampleEnv sampleConfig 0 hzero hpath).mpr ?_, by decide⟩
  intro step hmem
  rcases mem_cons.mp hmem with rfl | hmem
  · exact trivial
  · obtain rfl := mem_singleton.mp hmem
    exact (playsFirst_iff rfl).mpr fun _ ↦ ⟨rfl, by decide⟩

/-- A request of the client that has set up a track. -/
def sessionRequest (method : Bytes) : Event :=
  .read 0 false 0 (method ++ ascii " rtsp://h/open RTSP/1.0\r\n" ++ sessionHeader ++ ascii "\r\n")

/-- The client asks for its session to be played twice. -/
def playedTwice : List Event :=
  interleavedEvents ++ [sessionRequest (ascii "PLAY"), sessionRequest (ascii "PLAY")]

/-- The client that asks twice is counted twice, and still counted once when it has torn down its
session and none is left. -/
theorem curConn_after_two_plays :
    (sampleRun playedTwice).1 = .ok () ∧
      (sampleRun playedTwice).2.connNums 0 = some (2, 4) ∧
      (sampleRun playedTwice).2.playingCount 0 = 1 ∧
      (sampleRun (playedTwice ++ [sessionRequest (ascii "TEARDOWN")])).1 = .ok () ∧
      (sampleRun (playedTwice ++ [sessionRequest (ascii "TEARDOWN")])).2.connNums 0 =
        some (1, 4) ∧
      (sampleRun (playedTwice ++ [sessionRequest (ascii "TEARDOWN")])).2.sessions.nodes = [] ∧
      ∃ steps, Path (LiveStep sampleEnv) (initial sampleConfig) steps
          (sampleRun playedTwice).2 ∧
        ¬ Always (CountsPlaying · 0) steps (sampleRun playedTwice).2 := by
  -- One evaluation of each run for all that is said about it.
  have hplayed : (sampleRun playedTwice).1 = .ok () ∧
      (sampleRun playedTwice).2.connNums 0 = some (2, 4) ∧
      (sampleRun playedTwice).2.playingCount 0 = 1 := by
    decide +kernel
  have htorn : (sampleRun (playedTwice ++ [sessionRequest (ascii "TEARDOWN")])).1 = .ok () ∧
      (sampleRun (playedTwice ++ [sessionRequest (ascii "TEARDOWN")])).2.connNums 0 =
        some (1, 4) ∧
      (sampleRun (playedTwice ++ [sessionRequest (ascii "TEARDOWN")])).2.sessions.nodes = [] := by
    decide +kernel
  obtain ⟨hok, hnums, hcount⟩ := hplayed
  obtain ⟨hok', hnums', hempty⟩ := htorn
  obtain ⟨steps, hpath⟩ := exists_path_of_run sampleEnv sampleConfig playedTwice
  refine ⟨hok, hnums, hcount, hok', hnums', hempty, steps, hpath, fun halways ↦ ?_⟩
  have hright := countsPlaying_iff.mp halways.last (2, 4) hnums
  rw [hcount] at hright
  exact absurd hright (by decide)

/-! ### The limit -/

/-- Whether playing a session adds to those that play. -/
theorem playingCount_played (hsession : s.sessions.get? sess = some session)
    (hset : SetsSession s s' sess (some { session with playing := true })) :
    s'.playingCount source = s.playingCount source +
      if session.source = source ∧ session.playing = false then 1 else 0 := by
  have hcount := hset.count (Session.playsOn source)
  rw [hsession, Option.any_some, Option.any_some] at hcount
  change s'.playingCount source + _ = s.playingCount source + _ at hcount
  by_cases hsource : session.source = source
  · cases hplaying : session.playing with
    | true =>
      simp only [Session.playsOn, hsource, hplaying, beq_self_eq_true, Bool.and_self,
        Bool.toNat_true, Nat.add_right_cancel_iff] at hcount
      simp [hcount]
    | false =>
      simp only [Session.playsOn, hsource, hplaying, beq_self_eq_true, Bool.and_self,
        Bool.and_false, Bool.toNat_true, Bool.toNat_false, Nat.add_zero] at hcount
      simp [hsource, hcount]
  · have hnot : (session.source == source) = false := beq_eq_false_iff_ne.mpr hsource
    simp only [Session.playsOn, hnot, Bool.false_and, Bool.toNat_false, Nat.add_zero] at hcount
    simp [hsource, hcount]

/-- If the operation opens a session of the source, all sessions of the source play; if it plays
one, the counter does not start over. -/
def OpensInTurn (source : ℕ) : LiveOp → State → Prop
  | .opened source', s => source' = source → ∀ sess session,
    s.sessions.get? sess = some session → session.source = source → session.playing = true
  | .played sess, s => ∀ session, s.sessions.get? sess = some session →
    session.source = source → ∀ nums, s.connNums source = some nums → nums.1 + 1 < 2 ^ 32
  | _, _ => True

/-- The source has at most `max` sessions, and counts at least those that play. -/
structure Limited (source max : ℕ) (s : State) : Prop where
  counted : ∃ cur, s.connNums source = some (cur, max) ∧ s.playingCount source ≤ cur
  opened : s.sessionCount source ≤ max

theorem playingCount_le_sessionCount (s : State) (source : ℕ) :
    s.playingCount source ≤ s.sessionCount source :=
  countP_mono_left fun _ _ hplays ↦ (Bool.and_eq_true_iff.mp hplays).1

theorem sessionCount_eq_playingCount
    (hall : ∀ sess session, s.sessions.get? sess = some session → session.source = source →
      session.playing = true) : s.sessionCount source = s.playingCount source := by
  refine countP_congr fun node hmem ↦ ?_
  show node.2.isOf source = true ↔ node.2.playsOn source = true
  rw [Session.isOf, Session.playsOn, Bool.and_eq_true, beq_iff_eq]
  refine ⟨fun hsource ↦ ⟨hsource, ?_⟩, And.left⟩
  exact hall node.1 node.2 ((NodeTable.get?_eq_some_iff _ _).mpr hmem) hsource

theorem Limited.congr {max : ℕ} (hlimited : Limited source max s)
    (hnums : s'.connNums source = s.connNums source)
    (hplaying : s'.playingCount source ≤ s.playingCount source)
    (hcount : s'.sessionCount source ≤ s.sessionCount source) : Limited source max s' := by
  obtain ⟨⟨cur, hcur, hle⟩, hopened⟩ := hlimited
  exact ⟨⟨cur, hnums.trans hcur, hplaying.trans hle⟩, hcount.trans hopened⟩

theorem limited_change {max : ℕ} (hchange : Change op s s') (hturn : OpensInTurn source op s)
    (hlimited : Limited source max s) : Limited source max s' := by
  cases hchange with
  | other hsame =>
    refine hlimited.congr (connNums_of_sources hsame.sources) ?_ ?_
    · rw [State.playingCount, hsame.sessions, State.playingCount]
    · rw [State.sessionCount, hsame.sessions, State.sessionCount]
  | refused => exact hlimited
  | notSetUp => exact hlimited
  | notTornDown => exact hlimited
  | notPlayed => exact hlimited
  | @opened s s' sess source' cur max' hnums hroom hfresh hset hsources =>
    obtain ⟨⟨cur', hcur, hle⟩, hopened⟩ := hlimited
    refine ⟨⟨cur', (connNums_of_sources hsources).trans hcur, ?_⟩, ?_⟩
    · exact (playingCount_opened hfresh hset).le.trans hle
    · have hcount := hset.count_new hfresh (Session.isOf source)
      change s'.sessionCount source = s.sessionCount source + _ at hcount
      rw [hcount]
      by_cases hsource : source' = source
      · subst hsource
        rw [hcur] at hnums
        obtain ⟨rfl, rfl⟩ := Prod.mk.inj (Option.some.inj hnums)
        have hall := sessionCount_eq_playingCount (hturn rfl)
        have hone := Bool.toNat_le (Session.isOf source' ⟨source', false, fun _ ↦ none, none⟩)
        omega
      · have hzero : Session.isOf source ⟨source', false, fun _ ↦ none, none⟩ = false :=
          beq_eq_false_iff_ne.mpr hsource
        rw [hzero]
        exact hopened
  | setUp hsession hset hsources =>
    exact hlimited.congr (connNums_of_sources hsources) (hset.count_eq hsession rfl).le
      (hset.count_eq hsession rfl).le
  | registered hsession hset hsources =>
    exact hlimited.congr (connNums_of_sources hsources) (hset.count_eq hsession rfl).le
      (hset.count_eq hsession rfl).le
  | @played s s' sess session hsession hset hnums =>
    obtain ⟨⟨cur, hcur, hle⟩, hopened⟩ := hlimited
    refine ⟨?_, (hset.count_eq hsession rfl).le.trans hopened⟩
    have hplaying := @playingCount_played s s' source sess session hsession hset
    rw [hnums, hcur, Option.map_some]
    by_cases hsource : session.source = source
    · have hroom := hturn session hsession hsource (cur, max) hcur
      rw [if_pos hsource.symm, Nat.mod_eq_of_lt hroom]
      refine ⟨cur + 1, rfl, hplaying.le.trans ?_⟩
      split_ifs <;> omega
    · rw [if_neg (Ne.symm hsource)]
      rw [if_neg fun h ↦ hsource h.1] at hplaying
      exact ⟨cur, rfl, hplaying.le.trans hle⟩
  | @tornDown s s' sess session ep hsession hset hnums =>
    obtain ⟨⟨cur, hcur, hle⟩, hopened⟩ := hlimited
    have hcount := count_tornDown hset hsession (isOf_torn source ep)
    have hplaying := count_tornDown hset hsession (playsOn_torn source ep)
    change s'.sessionCount source + _ = s.sessionCount source at hcount
    change s'.playingCount source + _ = s.playingCount source at hplaying
    refine ⟨?_, (Nat.le_add_right _ _).trans (hcount.le.trans hopened)⟩
    rw [hnums, hcur, Option.map_some]
    split_ifs with hfewer
    · have hplays : session.playsOn source = true := by
        simp [Session.playsOn, hfewer.1, hfewer.2.2.1]
      rw [if_pos hfewer.2.1, hplays, Bool.toNat_true] at hplaying
      exact ⟨cur - 1, rfl, by omega⟩
    · exact ⟨cur, rfl, by omega⟩
  | framed hsessions hnums =>
    refine hlimited.congr (hnums source) ?_ ?_
    · rw [State.playingCount, hsessions, State.playingCount]
    · rw [State.sessionCount, hsessions, State.sessionCount]

/-- Never more than `u32MaxConnNum` sessions of a source play if a session of it is opened only when
all its sessions play, and the counter does not start over, whatever else the clients do. -/
theorem playing_le_limit (env : Env) (config : Config) (source : ℕ) (live : LiveSource)
    {steps : List (LiveOp × State)} {s : State} (hlive : config.sources[source]? = some live)
    (hpath : Path (LiveStep env) (initial config) steps s)
    (hturn : ∀ step ∈ steps, OpensInTurn source step.1 step.2) :
    Always (fun s ↦ s.playingCount source ≤ live.maxConnNum) steps s := by
  have hlimited : Always (fun s ↦ Tidy s ∧ Limited source live.maxConnNum s) steps s := by
    refine hpath.always_of_good (fun hstep hgood hs ↦ ?_) hturn ⟨tidy_initial config, ?_, ?_⟩
    · exact ⟨tidy_of_liveStep hstep hs.1,
        limited_change (change_of_liveStep hstep hs.1) hgood hs.2⟩
    · exact ⟨live.curConn, by simp [State.connNums, initial, hlive], Nat.zero_le _⟩
    · exact Nat.zero_le _
  refine always_mono hlimited fun {s} hs ↦ ?_
  exact (playingCount_le_sessionCount s source).trans hs.2.opened

/-- One session of the sample server plays, and four may. -/
theorem playing_le_limit_opened_played :
    Always (fun s ↦ s.playingCount 0 ≤ 4) openedPlayed (livePlay 0 openedOne).2 := by
  have hpath : Path (LiveStep sampleEnv) (initial sampleConfig) openedPlayed
      (livePlay 0 openedOne).2 :=
    .cons (.opened 0 openMessage 0 openLocation) (.cons (.played 0) (.nil _))
  refine playing_le_limit sampleEnv sampleConfig 0 sampleSource rfl hpath ?_
  intro step hmem
  rcases mem_cons.mp hmem with rfl | hmem
  · exact fun _ _ _ hsession ↦ absurd hsession nofun
  · obtain rfl := mem_singleton.mp hmem
    intro _ _ _ nums hnums
    rw [← Option.some.inj hnums]
    decide

/-- The sample server with a limit of one connection. -/
def limitedConfig : Config :=
  { sampleConfig with sources := [{ sampleSource with maxConnNum := 1 }, sampleSource] }

/-- A request of a second client, with the id of its session. -/
def secondRequest (method : Bytes) : Event :=
  .read 1 false 0 (method ++ ascii " rtsp://h/open RTSP/1.0\r\n" ++
    ascii "Session: 232425262728292A2B2C2D2E2F3031\r\n\r\n")

/-- Two clients set up a track each, and then play. -/
def bothPlay : List Event :=
  interleavedEvents ++ [.accept 4,
    .read 1 false 0 (ascii "SETUP rtsp://h/open/track0 RTSP/1.0\r\n" ++
      ascii "Transport: RTP/AVP/TCP;interleaved=0-1\r\n\r\n"),
    sessionRequest (ascii "PLAY"), secondRequest (ascii "PLAY")]

/-- Both play, although the limit is one. -/
theorem two_play_beyond_limit :
    (run sampleEnv bothPlay (initial limitedConfig)).1 = .ok () ∧
      (run sampleEnv bothPlay (initial limitedConfig)).2.connNums 0 = some (2, 1) ∧
      (run sampleEnv bothPlay (initial limitedConfig)).2.playingCount 0 = 2 ∧
      ∃ steps, Path (LiveStep sampleEnv) (initial limitedConfig) steps
          (run sampleEnv bothPlay (initial limitedConfig)).2 ∧
        ¬ Always (fun s ↦ s.playingCount 0 ≤ 1) steps
          (run sampleEnv bothPlay (initial limitedConfig)).2 := by
  have hplayed : (run sampleEnv bothPlay (initial limitedConfig)).1 = .ok () ∧
      (run sampleEnv bothPlay (initial limitedConfig)).2.connNums 0 = some (2, 1) ∧
      (run sampleEnv bothPlay (initial limitedConfig)).2.playingCount 0 = 2 := by
    decide +kernel
  obtain ⟨hok, hnums, hcount⟩ := hplayed
  obtain ⟨steps, hpath⟩ := exists_path_of_run sampleEnv limitedConfig bothPlay
  refine ⟨hok, hnums, hcount, steps, hpath, fun halways ↦ ?_⟩
  exact absurd (hcount.symm.le.trans halways.last) (by decide)

end WisCam.Server
