import WisCam.Server.Interleaving

/-!
# Sessions and their endpoints

In every state that the server comes to between two events, sessions, endpoints and RTSP sessions
fit together (`Tidy`): a session and the endpoints of its tracks point to each other, a registered
session and its RTSP session point to each other, a registered session has an endpoint, and the
connection that an interleaved endpoint uses is there. This module shows it of the functions that
act on sessions.

The work is in `live_teardown`, which frees the endpoints of a session one by one and the session
with the last of them. In a tidy state it runs without a fault, and what it leaves behind is
described by `TornDown`.
-/

set_option autoImplicit false

namespace WisCam.Server

open Foundations Message Connection Auth Program List

variable {env : Env} {s s' s'' : State} {sess : ℕ} {session session' : Session}

/-! ### The invariant -/

/-- Sessions, endpoints and connections fit together, where an RTSP session may have lost its last
endpoint. -/
structure Linked (s : State) : Prop where
  wired : Wired s
  sound : s.ownership.Sound
  tracks : ∀ sess source, (s.sessions.get? sess).map Session.source = some source →
    ∃ count, s.trackCount source = some count ∧
      ∀ t ep, s.ownership.Holds sess t ep → t.val < count
  conns : ∀ ep c, UsesConn s ep c → (s.conns.get? c).isSome

/-- Sessions, endpoints, RTSP sessions and connections fit together. -/
structure Tidy (s : State) : Prop extends Linked s where
  filled : ∀ rs sess, s.ownership.handleOf rs = some sess → s.ownership.Filled sess

theorem tidy_initial (config : Config) : Tidy (initial config) where
  wired := wired_initial config
  sound := by
    constructor
    · exact fun p o ↦ iff_of_false nofun (by rintro ⟨t, own, hown, -⟩; exact absurd hown nofun)
    · rintro o t t' p ⟨own, hown, -⟩
      exact absurd hown nofun
    · exact fun h o ↦ iff_of_false nofun (by rintro ⟨own, hown, -⟩; exact absurd hown nofun)
  tracks _ _ hsource := absurd hsource nofun
  conns := by
    rintro ep c ⟨endpoint, rtp, rtcp, hget, -⟩
    exact absurd hget nofun
  filled _ _ hhandle := absurd hhandle nofun

theorem owner_eq (hsession : s.sessions.get? sess = some session) :
    s.ownership.owner sess = some session.owner := by
  simp [State.ownership, hsession]

theorem holds_iff_ep (hsession : s.sessions.get? sess = some session) {t : Track} {ep : ℕ} :
    s.ownership.Holds sess t ep ↔ session.ep t = some ep :=
  Ownership.holds_iff (owner_eq hsession)

/-- An endpoint of a track is there and belongs to the session. -/
theorem Linked.endpoint (hlinked : Linked s) (hsession : s.sessions.get? sess = some session)
    {t : Track} {ep : ℕ} (hep : session.ep t = some ep) :
    ∃ endpoint, s.endpoints.get? ep = some endpoint ∧ endpoint.session = sess :=
  Option.map_eq_some_iff.mp
    ((hlinked.sound.partOf_iff ep sess).mpr ⟨t, (holds_iff_ep hsession).mpr hep⟩)

/-- An endpoint is in a track of its session. -/
theorem Linked.track (hlinked : Linked s) {ep : ℕ} {endpoint : Endpoint}
    (hep : s.endpoints.get? ep = some endpoint) :
    ∃ session t, s.sessions.get? endpoint.session = some session ∧ session.ep t = some ep := by
  have hpart : s.ownership.partOf ep = some endpoint.session := by simp [State.ownership, hep]
  obtain ⟨t, own, hown, hslot⟩ := (hlinked.sound.partOf_iff _ _).mp hpart
  obtain ⟨session, hsession, rfl⟩ := Option.map_eq_some_iff.mp hown
  exact ⟨session, t, hsession, hslot⟩

/-- The source of a session has the tracks that the session uses. -/
theorem Linked.source (hlinked : Linked s) (hsession : s.sessions.get? sess = some session) :
    ∃ source, s.sources[session.source]? = some source ∧
      ∀ t ep, session.ep t = some ep → t.val < source.tracks.length := by
  obtain ⟨count, hcount, htracks⟩ := hlinked.tracks sess session.source (by simp [hsession])
  obtain ⟨source, hsource, rfl⟩ := Option.map_eq_some_iff.mp hcount
  exact ⟨source, hsource, fun t ep hep ↦ htracks t ep ((holds_iff_ep hsession).mpr hep)⟩

theorem linked_of_quiet (hquiet : QuietEffect env s s') (hlinked : Linked s) : Linked s' where
  wired := wired_of_effect hquiet.1 hlinked.wired
  sound := by
    rw [hquiet.2.ownership]
    exact hlinked.sound
  tracks sess source hsource := by
    rw [hquiet.2.source] at hsource
    rw [hquiet.2.trackCount, hquiet.2.ownership]
    exact hlinked.tracks sess source hsource
  conns ep c huses := by
    refine hquiet.2.conns c ?_
    rcases hquiet.2.usesConn ep c huses with hbefore | hpresent
    · exact hlinked.conns ep c hbefore
    · exact hpresent

theorem tidy_of_quiet (hquiet : QuietEffect env s s') (htidy : Tidy s) : Tidy s' where
  toLinked := linked_of_quiet hquiet htidy.toLinked
  filled := by
    rw [hquiet.2.ownership]
    exact htidy.filled

/-! ### Sessions over time -/

/-- A session of the later state that is not a new one was there before, and if it had an RTSP
session it still has that one. -/
structure Persists (s s' : State) : Prop where
  next : s.sessions.next ≤ s'.sessions.next
  session : ∀ sess session', sess < s.sessions.next → s'.sessions.get? sess = some session' →
    ∃ session, s.sessions.get? sess = some session ∧
      (session.control = none ∨ session'.control = session.control)

theorem Persists.of_same (hsessions : s'.sessions = s.sessions) : Persists s s' where
  next := Nat.le_of_eq (by rw [hsessions])
  session sess session' _ hget := ⟨session', by rwa [hsessions] at hget, .inr rfl⟩

theorem Persists.trans (hfirst : Persists s s') (hsecond : Persists s' s'') : Persists s s'' where
  next := hfirst.next.trans hsecond.next
  session sess session'' hused hget := by
    obtain ⟨session', hget', hcontrol'⟩ :=
      hsecond.session sess session'' (Nat.lt_of_lt_of_le hused hfirst.next) hget
    obtain ⟨session, hget, hcontrol⟩ := hfirst.session sess session' hused hget'
    refine ⟨session, hget, ?_⟩
    rcases hcontrol with hnone | hsame
    · exact .inl hnone
    · rcases hcontrol' with hnone | hsame'
      · exact .inl (hsame.symm.trans hnone)
      · exact .inr (hsame'.trans hsame)

theorem Persists.of_steps (hsteps : Relation.ReflTransGen Persists s s') : Persists s s' := by
  induction hsteps with
  | refl => exact .of_same rfl
  | tail _ hlast ih => exact ih.trans hlast

/-- A store into a session that leaves its RTSP session alone, or gives it its first one. -/
theorem Persists.of_modify (sess : ℕ) (f : Session → Session)
    (hsessions : s'.sessions = s.sessions.modify sess f)
    (hcontrol : ∀ session, s.sessions.get? sess = some session →
      session.control = none ∨ (f session).control = session.control) : Persists s s' where
  next := Nat.le_of_eq (by rw [hsessions, NodeTable.next_modify])
  session sess' session' _ hget := by
    rw [hsessions, NodeTable.get?_modify] at hget
    split_ifs at hget with hsame
    · obtain ⟨session, hsession, rfl⟩ := Option.map_eq_some_iff.mp hget
      exact ⟨session, hsession, hcontrol session (hsame ▸ hsession)⟩
    · exact ⟨session', hget, .inr rfl⟩

/-! ### Freeing an endpoint -/

/-- A connection apart from the entries of its channel table. -/
def Conn.withoutEntries (conn : Conn) : Conn :=
  { conn with
    protoState := match conn.protoState with
      | .rtsp _ => .rtsp fun _ ↦ none
      | other => other }

/-- The connections are the same apart from the entries of their channel tables. -/
def SameConns (s s' : State) : Prop :=
  ∀ c, (s'.conns.get? c).map Conn.withoutEntries = (s.conns.get? c).map Conn.withoutEntries

theorem SameConns.isSome (hsame : SameConns s s') (c : ℕ) :
    (s'.conns.get? c).isSome = (s.conns.get? c).isSome := by
  have hmap := congrArg Option.isSome (hsame c)
  rwa [Option.isSome_map, Option.isSome_map] at hmap

/-- Where tables and endpoints agree, an endpoint is freed without a fault. -/
theorem delRtpEndpoint_apply {ep : ℕ} {endpoint : Endpoint} (hlinked : Linked s)
    (hep : s.endpoints.get? ep = some endpoint) :
    ∃ conns, delRtpEndpoint ep s =
        (.ok (), { s with conns := conns, endpoints := s.endpoints.erase ep }) ∧
      SameConns s { s with conns := conns } ∧
      Wired { s with conns := conns, endpoints := s.endpoints.erase ep } := by
  rw [delRtpEndpoint, derefEndpoint_apply hep]
  cases htrans : endpoint.trans with
  | unset =>
    exact ⟨s.conns, rfl, fun _ ↦ rfl, hlinked.wired.of_freed hep (by rw [htrans]; nofun)⟩
  | udp addr port =>
    exact ⟨s.conns, rfl, fun _ ↦ rfl, hlinked.wired.of_freed hep (by rw [htrans]; nofun)⟩
  | inter c rtp rtcp =>
    obtain ⟨conn, hconn⟩ := Option.isSome_iff_exists.mp
      (hlinked.conns ep c ⟨endpoint, rtp, rtcp, hep, htrans⟩)
    have hentry : conn.entry rtp = some ⟨ep, false⟩ :=
      (hlinked.wired.entry_iff c conn hconn rtp ep false).mpr
        ⟨endpoint, rtp, rtcp, hep, htrans, rfl⟩
    obtain ⟨table, htable⟩ := table_of_entry hentry
    have hcleared : interleaveDisconnect conn rtp >>= (interleaveDisconnect · rtcp) =
        .ok { conn with
          protoState := .rtsp (Function.update (Function.update table rtp none) rtcp none) } := by
      rw [interleaveDisconnect, htable]
      rfl
    refine ⟨s.conns.modify c fun _ ↦ { conn with
      protoState := .rtsp (Function.update (Function.update table rtp none) rtcp none) },
      ?_, fun c' ↦ ?_, hlinked.wired.of_unwired hconn htable hep htrans rfl rfl⟩
    · dsimp only
      rw [derefConn_apply hconn, hcleared]
      rfl
    · dsimp only
      rw [NodeTable.get?_modify]
      split_ifs with hsame
      · rw [hsame, hconn]
        simp [Conn.withoutEntries, htable]
      · rfl

/-! ### Tearing down tracks -/

theorem liveTrack_modify (source source' : ℕ) (t t' : Track) (f : LiveTrack → LiveTrack) :
    State.liveTrack { s with sources := s.sources.modify source (·.modifyTrack t f) } source' t' =
      if source' = source ∧ t' = t then (s.liveTrack source' t').map f
      else s.liveTrack source' t' := by
  simp only [State.liveTrack, List.getElem?_modify]
  cases s.sources[source']? with
  | none => simp
  | some live =>
    by_cases hsource : source' = source
    · by_cases htrack : t' = t
      · simp [hsource, htrack, LiveSource.modifyTrack]
      · simp [hsource, htrack, LiveSource.modifyTrack, Fin.val_ne_of_ne (Ne.symm htrack)]
    · simp [hsource, Ne.symm hsource]

/-- `u32CurConn` and `u32MaxConnNum` of a source. -/
def State.connNums (s : State) (source : ℕ) : Option (ℕ × ℕ) :=
  s.sources[source]?.map fun live ↦ (live.curConn, live.maxConnNum)

theorem connNums_modify (source source' : ℕ) (t : Track) (f : LiveTrack → LiveTrack) :
    State.connNums { s with sources := s.sources.modify source (·.modifyTrack t f) } source' =
      s.connNums source' := by
  simp only [State.connNums, List.getElem?_modify, Option.map_eq_map, Option.map_map]
  congr 1
  funext live
  simp only [Function.comp_apply]
  split_ifs <;> rfl

/-- The test of `track_check_running`: a session of the source plays the track. -/
def State.active (s : State) (source : ℕ) (t : Track) : Bool :=
  s.sessions.nodes.any fun node ↦
    node.2.source == source && node.2.playing && (node.2.ep t).isSome

theorem active_iff {source : ℕ} {t : Track} : s.active source t = true ↔
    ∃ sess session, s.sessions.get? sess = some session ∧ session.source = source ∧
      session.playing = true ∧ (session.ep t).isSome = true := by
  rw [State.active, NodeTable.exists_get?_iff s.sessions fun session ↦
    session.source == source && session.playing && (session.ep t).isSome]
  simp only [Bool.and_eq_true, beq_iff_eq, and_assoc]

/-- A session of the source other than this one plays the track. -/
def OthersPlay (s : State) (sess source : ℕ) (t : Track) : Prop :=
  ∃ sess' session', sess' ≠ sess ∧ s.sessions.get? sess' = some session' ∧
    session'.source = source ∧ session'.playing = true ∧ (session'.ep t).isSome = true

theorem OthersPlay.congr {source : ℕ} {t : Track}
    (hothers : ∀ sess', sess' ≠ sess → s'.sessions.get? sess' = s.sessions.get? sess') :
    OthersPlay s' sess source t ↔ OthersPlay s sess source t := by
  refine exists_congr fun sess' ↦ exists_congr fun session' ↦ and_congr_right fun hother ↦ ?_
  rw [hothers sess' hother]

/-- The track without its stream. -/
def LiveTrack.off (track : LiveTrack) : LiveTrack := { track with waiting := false }

/-- What clearing tracks of a session does to the sources: the stream of a cleared track that no
other session plays is switched off. -/
structure Switched (s s' : State) (sess : ℕ) (session session' : Session) : Prop where
  connNums : ∀ source, s'.connNums source = s.connNums source
  off : ∀ source t, source = session.source → (session.ep t).isSome = true →
    session'.ep t = none → ¬ OthersPlay s sess source t →
    s'.liveTrack source t = (s.liveTrack source t).map LiveTrack.off
  same : ∀ source t, ¬ (source = session.source ∧ (session.ep t).isSome = true ∧
    session'.ep t = none ∧ ¬ OthersPlay s sess source t) →
    s'.liveTrack source t = s.liveTrack source t

theorem Switched.refl : Switched s s sess session session where
  connNums _ := rfl
  off source t _ hsome hnone := absurd hsome (by simp [hnone])
  same _ _ _ := rfl

/-- Tracks of a session have been cleared: their endpoints are freed, and the others are as they
were. -/
structure Cleared (s s' : State) (sess : ℕ) (session session' : Session) : Prop where
  kept : ∀ t ep, session'.ep t = some ep → session.ep t = some ep
  playing : session'.playing = session.playing
  control : session'.control = session.control
  source : session'.source = session.source
  present : s'.sessions.get? sess = some session'
  others : ∀ sess', sess' ≠ sess → s'.sessions.get? sess' = s.sessions.get? sess'
  persists : Persists s s'
  endpoints : ∀ ep endpoint, s'.endpoints.get? ep = some endpoint ↔
    s.endpoints.get? ep = some endpoint ∧ ¬ ∃ t, session.ep t = some ep ∧ session'.ep t = none
  rtspSessions : s'.rtspSessions = s.rtspSessions
  conns : SameConns s s'
  trackCount : ∀ source, s'.trackCount source = s.trackCount source
  liveTrack : ∀ t ep, session'.ep t = some ep →
    s'.liveTrack session.source t = s.liveTrack session.source t

theorem Cleared.refl (hsession : s.sessions.get? sess = some session) :
    Cleared s s sess session session where
  kept _ _ := id
  playing := rfl
  control := rfl
  source := rfl
  present := hsession
  others _ _ := rfl
  persists := .of_same rfl
  endpoints ep endpoint := by
    refine (and_iff_left ?_).symm
    rintro ⟨t, hsome, hnone⟩
    exact absurd (hsome.symm.trans hnone) nofun
  rtspSessions := rfl
  conns _ := rfl
  trackCount _ := rfl
  liveTrack _ _ _ := rfl

theorem Cleared.trans {session'' : Session} (hfirst : Cleared s s' sess session session')
    (hsecond : Cleared s' s'' sess session' session'') : Cleared s s'' sess session session'' where
  kept t ep hep := hfirst.kept t ep (hsecond.kept t ep hep)
  playing := hsecond.playing.trans hfirst.playing
  control := hsecond.control.trans hfirst.control
  source := hsecond.source.trans hfirst.source
  present := hsecond.present
  others sess' hother := (hsecond.others sess' hother).trans (hfirst.others sess' hother)
  persists := hfirst.persists.trans hsecond.persists
  endpoints ep endpoint := by
    rw [hsecond.endpoints, hfirst.endpoints, and_assoc, ← not_or]
    refine and_congr_right fun _ ↦ not_congr ⟨?_, ?_⟩
    · rintro (⟨t, hep, hgone⟩ | ⟨t, hep, hgone⟩)
      · refine ⟨t, hep, Option.eq_none_iff_forall_ne_some.mpr fun ep' hep' ↦ ?_⟩
        exact absurd (hgone.symm.trans (hsecond.kept t ep' hep')) nofun
      · exact ⟨t, hfirst.kept t ep hep, hgone⟩
    · rintro ⟨t, hep, hgone⟩
      cases hmiddle : session'.ep t with
      | none => exact .inl ⟨t, hep, hmiddle⟩
      | some ep' =>
        obtain rfl := Option.some.inj ((hfirst.kept t ep' hmiddle).symm.trans hep)
        exact .inr ⟨t, hmiddle, hgone⟩
  rtspSessions := hsecond.rtspSessions.trans hfirst.rtspSessions
  conns c := (hsecond.conns c).trans (hfirst.conns c)
  trackCount source := (hsecond.trackCount source).trans (hfirst.trackCount source)
  liveTrack t ep hep := by
    rw [← hfirst.liveTrack t ep (hsecond.kept t ep hep), ← hfirst.source]
    exact hsecond.liveTrack t ep hep

theorem Switched.trans {session'' : Session} (hfirst : Switched s s' sess session session')
    (hcleared : Cleared s s' sess session session')
    (hcleared' : Cleared s' s'' sess session' session'')
    (hsecond : Switched s' s'' sess session' session'') :
    Switched s s'' sess session session'' where
  connNums source := (hsecond.connNums source).trans (hfirst.connNums source)
  off source t hsource hsome hnone hothers := by
    have hothers' := mt (OthersPlay.congr hcleared.others).mp hothers
    cases hmiddle : session'.ep t with
    | none =>
      -- The track has been cleared in the first part.
      rw [hsecond.same source t (by simp [hmiddle])]
      exact hfirst.off source t hsource hsome hmiddle hothers
    | some e =>
      rw [hsecond.off source t (hsource.trans hcleared.source.symm) (by simp [hmiddle]) hnone
        hothers', hfirst.same source t (by simp [hmiddle])]
  same source t hkept := by
    have hothers := @OthersPlay.congr s s' sess source t hcleared.others
    rw [hsecond.same, hfirst.same]
    · rintro ⟨hsource, hsome, hmiddle, hnobody⟩
      refine hkept ⟨hsource, hsome, ?_, hnobody⟩
      exact Option.eq_none_iff_forall_ne_some.mpr fun e hep ↦
        absurd (hmiddle.symm.trans (hcleared'.kept t e hep)) nofun
    · rintro ⟨hsource, hsome, hnone, hnobody⟩
      obtain ⟨e, hep⟩ := Option.isSome_iff_exists.mp hsome
      refine hkept ⟨hsource.trans hcleared.source, ?_, hnone, fun h ↦ hnobody (hothers.mpr h)⟩
      rw [hcleared.kept t e hep]
      rfl

/-- The session without the endpoints of some tracks: all of them, or one endpoint. -/
def Session.without (session : Session) (ep : Option ℕ) (tracks : List Track) : Session :=
  { session with
    ep := fun t ↦
      if t ∈ tracks ∧ (ep = none ∨ ep = session.ep t) then none else session.ep t }

/-- The sources after `track_check_running`. -/
def State.checked (s : State) (source : ℕ) (t : Track) : List LiveSource :=
  if s.active source t then s.sources
  else s.sources.modify source (·.modifyTrack t LiveTrack.off)

theorem trackCheckRunning_eq (source : ℕ) (t : Track) :
    trackCheckRunning source t s = (.ok (), { s with sources := s.checked source t }) := by
  rw [trackCheckRunning, get_bind_apply, State.checked, State.active]
  split_ifs <;> rfl

theorem trackCount_checked (source source' : ℕ) (t : Track) :
    State.trackCount { s with sources := s.checked source t } source' = s.trackCount source' := by
  unfold State.checked
  split_ifs
  · rfl
  · exact trackCount_modify source (fun _ ↦ length_modify ..) source'

theorem connNums_checked (source source' : ℕ) (t : Track) :
    State.connNums { s with sources := s.checked source t } source' = s.connNums source' := by
  unfold State.checked
  split_ifs
  · rfl
  · exact connNums_modify source source' t LiveTrack.off

theorem liveTrack_checked (source source' : ℕ) (t t' : Track) :
    State.liveTrack { s with sources := s.checked source t } source' t' =
      if source' = source ∧ t' = t ∧ s.active source t = false then
        (s.liveTrack source' t').map LiveTrack.off
      else s.liveTrack source' t' := by
  unfold State.checked
  cases s.active source t with
  | true => simp
  | false =>
    rw [if_neg (by simp), liveTrack_modify]
    simp

/-- The state after the endpoint of a track has been freed. -/
def State.freeTrack (s : State) (sess : ℕ) (t : Track) (own : ℕ) (conns : NodeTable Conn)
    (sources : List LiveSource) : State :=
  { s with
    conns := conns
    sources := sources
    endpoints := s.endpoints.erase own
    sessions := s.sessions.modify sess fun session ↦
      { session with ep := Function.update session.ep t none } }

/-- A round of the loop that frees an endpoint. -/
theorem teardownTrack_apply {ep : Option ℕ} {t : Track} {own : ℕ} (hlinked : Linked s)
    (hsession : s.sessions.get? sess = some session) (hown : session.ep t = some own)
    (hchosen : ep = none ∨ ep = some own) :
    ∃ conns, teardownTrack sess ep t s = (.ok (), s.freeTrack sess t own conns
        ((s.freeTrack sess t own conns s.sources).checked session.source t)) ∧
      SameConns s { s with conns := conns } ∧
      Wired { s with conns := conns, endpoints := s.endpoints.erase own } := by
  obtain ⟨endpoint, hep, -⟩ := hlinked.endpoint hsession hown
  obtain ⟨conns, hfreed, hconns, hwired⟩ := delRtpEndpoint_apply hlinked hep
  refine ⟨conns, ?_, hconns, hwired⟩
  rw [teardownTrack, derefSession_apply hsession, hown]
  dsimp only
  rw [if_pos hchosen, bind_apply, hfreed]
  exact @trackCheckRunning_eq (s.freeTrack sess t own conns s.sources) session.source t

/-- A round of the loop that has nothing to free. -/
theorem teardownTrack_skip {ep : Option ℕ} {t : Track}
    (hsession : s.sessions.get? sess = some session)
    (hskip : ∀ own, session.ep t = some own → ¬ (ep = none ∨ ep = some own)) :
    teardownTrack sess ep t s = (.ok (), s) := by
  rw [teardownTrack, derefSession_apply hsession]
  cases hown : session.ep t with
  | none => rfl
  | some own =>
    dsimp only
    rw [if_neg (hskip own hown)]
    rfl

theorem without_chosen {ep : Option ℕ} {t : Track} (hchosen : ep = none ∨ ep = session.ep t) :
    session.without ep [t] = { session with ep := Function.update session.ep t none } := by
  rw [Session.without]
  congr 1
  funext t'
  by_cases hsame : t' = t
  · subst hsame
    simp [hchosen]
  · simp [hsame]

theorem without_skipped {ep : Option ℕ} {t : Track}
    (hskip : ∀ own, session.ep t = some own → ¬ (ep = none ∨ ep = some own)) :
    session.without ep [t] = session := by
  rw [Session.without]
  congr 1
  funext t'
  split_ifs with hcond
  · obtain ⟨hsame, hchosen⟩ := hcond
    obtain rfl := mem_singleton.mp hsame
    refine (Option.eq_none_iff_forall_ne_some.mpr fun own hown ↦ ?_).symm
    rw [hown] at hchosen
    exact hskip own hown hchosen
  · rfl

section FreeTrack

variable {t : Track} {own : ℕ} {conns : NodeTable Conn} {sources : List LiveSource}

theorem ownership_freeTrack (hsession : s.sessions.get? sess = some session) :
    (s.freeTrack sess t own conns sources).ownership =
      s.ownership.take sess session.owner t own := by
  refine Ownership.ext (funext fun sess' ↦ ?_) (funext fun ep ↦ ?_) rfl
  · by_cases hsame : sess' = sess
    · simp [State.ownership, State.freeTrack, Ownership.take, hsame, hsession, Session.owner]
    · simp [State.ownership, State.freeTrack, Ownership.take, hsame]
  · by_cases hfreed : ep = own
    · simp [State.ownership, State.freeTrack, Ownership.take, hfreed]
    · simp [State.ownership, State.freeTrack, Ownership.take, hfreed]

theorem linked_freeTrack (hlinked : Linked s) (hsession : s.sessions.get? sess = some session)
    (hown : session.ep t = some own) (hconns : SameConns s { s with conns := conns })
    (hwired : Wired { s with conns := conns, endpoints := s.endpoints.erase own })
    (hsources : ∀ source,
      State.trackCount { s with sources := sources } source = s.trackCount source) :
    Linked (s.freeTrack sess t own conns sources) where
  wired := hwired.congr rfl rfl
  sound := by
    rw [ownership_freeTrack hsession]
    exact hlinked.sound.take (owner_eq hsession) hown
  tracks sess' source hsource := by
    have hsame : ((s.freeTrack sess t own conns sources).sessions.get? sess').map Session.source =
        (s.sessions.get? sess').map Session.source :=
      NodeTable.map_get?_modify _ _ _ fun _ ↦ rfl
    obtain ⟨count, hcount, htracks⟩ := hlinked.tracks sess' source (hsame.symm.trans hsource)
    refine ⟨count, (hsources source).trans hcount, fun t' ep hholds ↦ htracks t' ep ?_⟩
    rw [ownership_freeTrack hsession, Ownership.holds_take (owner_eq hsession)] at hholds
    exact hholds.2
  conns ep c huses := by
    obtain ⟨endpoint, rtp, rtcp, hget, htrans⟩ := huses
    rw [State.freeTrack, NodeTable.get?_erase] at hget
    split_ifs at hget
    have hpresent := hlinked.conns ep c ⟨endpoint, rtp, rtcp, hget, htrans⟩
    rwa [← hconns.isSome] at hpresent

theorem cleared_freeTrack (hsession : s.sessions.get? sess = some session)
    (hown : session.ep t = some own) (hconns : SameConns s { s with conns := conns })
    (hsources : ∀ source,
      State.trackCount { s with sources := sources } source = s.trackCount source)
    (hlive : ∀ source t', t' ≠ t →
      State.liveTrack { s with sources := sources } source t' = s.liveTrack source t') :
    Cleared s (s.freeTrack sess t own conns sources) sess session
      { session with ep := Function.update session.ep t none } where
  kept t' ep hep := by
    by_cases hsame : t' = t
    · simp [hsame] at hep
    · simpa [hsame] using hep
  playing := rfl
  control := rfl
  source := rfl
  present := by simp [State.freeTrack, hsession]
  others sess' hother := by simp [State.freeTrack, hother]
  persists := .of_modify sess (fun session ↦
    { session with ep := Function.update session.ep t none }) rfl fun _ _ ↦ .inr rfl
  endpoints ep endpoint := by
    simp only [State.freeTrack, NodeTable.get?_erase]
    by_cases hfreed : ep = own
    · subst hfreed
      refine iff_of_false (by simp) fun h ↦ h.2 ⟨t, hown, Function.update_self ..⟩
    · rw [if_neg hfreed, iff_self_and]
      rintro - ⟨t', hep, hgone⟩
      by_cases hsame : t' = t
      · exact hfreed (Option.some.inj (hep.symm.trans (hsame ▸ hown)))
      · rw [Function.update_of_ne hsame, hep] at hgone
        exact absurd hgone nofun
  rtspSessions := rfl
  conns := hconns
  trackCount := hsources
  liveTrack t' ep hep := by
    refine hlive session.source t' ?_
    rintro rfl
    simp at hep

end FreeTrack

/-- After a track of a session has been freed, it is active if another session plays it. -/
theorem active_freeTrack {t : Track} {own : ℕ} {conns : NodeTable Conn}
    (hsession : s.sessions.get? sess = some session) {source : ℕ} :
    (s.freeTrack sess t own conns s.sources).active source t = true ↔
      OthersPlay s sess source t := by
  rw [active_iff]
  refine exists_congr fun sess' ↦ ⟨?_, ?_⟩
  · rintro ⟨session', hget, hsource, hplaying, hep⟩
    have hother : sess' ≠ sess := by
      rintro rfl
      simp only [State.freeTrack, NodeTable.get?_modify, hsession, if_true, Option.map_some,
        Option.some.injEq] at hget
      simp [← hget] at hep
    simp only [State.freeTrack, NodeTable.get?_modify, if_neg hother] at hget
    exact ⟨session', hother, hget, hsource, hplaying, hep⟩
  · rintro ⟨session', hother, hget, hsource, hplaying, hep⟩
    refine ⟨session', ?_, hsource, hplaying, hep⟩
    simp only [State.freeTrack, NodeTable.get?_modify, if_neg hother]
    exact hget

theorem switched_freeTrack {t : Track} {own : ℕ} {conns : NodeTable Conn}
    (hsession : s.sessions.get? sess = some session) (hown : session.ep t = some own) :
    Switched s (s.freeTrack sess t own conns
      ((s.freeTrack sess t own conns s.sources).checked session.source t)) sess session
      { session with ep := Function.update session.ep t none } where
  connNums source := connNums_checked session.source source t
  off source t' hsource hsome hnone hothers := by
    have htrack : t' = t := by
      by_contra hother
      simp [hother] at hnone
      simp [hnone] at hsome
    refine (liveTrack_checked session.source source t t').trans ?_
    refine if_pos ⟨hsource, htrack, Bool.eq_false_iff.mpr fun hactive ↦ hothers ?_⟩
    rw [hsource, htrack]
    exact (active_freeTrack hsession).mp hactive
  same source t' hkept := by
    refine (liveTrack_checked session.source source t t').trans (if_neg ?_)
    rintro ⟨hsource, htrack, hinactive⟩
    subst hsource htrack
    refine hkept ⟨rfl, by simp [hown], by simp, fun hothers ↦ ?_⟩
    rw [(active_freeTrack hsession).mpr hothers] at hinactive
    exact absurd hinactive nofun

/-- One round of the loop clears a track, or none, and needs no more than the pointers in order. -/
theorem teardownTrack_spec (ep : Option ℕ) (t : Track) (hlinked : Linked s)
    (hsession : s.sessions.get? sess = some session) :
    ∃ s', teardownTrack sess ep t s = (.ok (), s') ∧ Linked s' ∧
      Cleared s s' sess session (session.without ep [t]) ∧
      Switched s s' sess session (session.without ep [t]) := by
  by_cases hfree : ∃ own, session.ep t = some own ∧ (ep = none ∨ ep = some own)
  · obtain ⟨own, hown, hchosen⟩ := hfree
    obtain ⟨conns, heq, hconns, hwired⟩ := teardownTrack_apply hlinked hsession hown hchosen
    have hsources := fun source ↦
      @trackCount_checked (s.freeTrack sess t own conns s.sources) session.source source t
    refine ⟨_, heq, linked_freeTrack hlinked hsession hown hconns hwired hsources, ?_⟩
    rw [without_chosen (hown ▸ hchosen)]
    refine ⟨cleared_freeTrack hsession hown hconns hsources fun source t' hother ↦ ?_,
      switched_freeTrack hsession hown⟩
    exact (liveTrack_checked session.source source t t').trans (if_neg fun h ↦ hother h.2.1)
  · have hskip : ∀ own, session.ep t = some own → ¬ (ep = none ∨ ep = some own) :=
      fun own hown hchosen ↦ hfree ⟨own, hown, hchosen⟩
    refine ⟨s, teardownTrack_skip hsession hskip, hlinked, ?_⟩
    rw [without_skipped hskip]
    exact ⟨.refl hsession, .refl⟩

theorem without_nil (ep : Option ℕ) : session.without ep [] = session := by
  simp [Session.without]

theorem without_cons (ep : Option ℕ) (t : Track) (tracks : List Track) :
    (session.without ep [t]).without ep tracks = session.without ep (t :: tracks) := by
  simp only [Session.without]
  congr 1
  funext t'
  by_cases hsame : t' = t
  · subst hsame
    by_cases hchosen : ep = none ∨ ep = session.ep t'
    · simp [hchosen]
    · simp [hchosen]
  · simp [hsame]

/-- The loop clears the tracks it goes through. -/
theorem teardownTracks_spec (ep : Option ℕ) (tracks : List Track) (hlinked : Linked s)
    (hsession : s.sessions.get? sess = some session) :
    ∃ s', tracks.forM (teardownTrack sess ep) s = (.ok (), s') ∧ Linked s' ∧
      Cleared s s' sess session (session.without ep tracks) ∧
      Switched s s' sess session (session.without ep tracks) := by
  induction tracks generalizing s session with
  | nil =>
    rw [without_nil]
    exact ⟨s, rfl, hlinked, .refl hsession, .refl⟩
  | cons t tracks ih =>
    obtain ⟨s₁, hfirst, hlinked₁, hcleared₁, hswitched₁⟩ :=
      teardownTrack_spec ep t hlinked hsession
    obtain ⟨s₂, hrest, hlinked₂, hcleared₂, hswitched₂⟩ := ih hlinked₁ hcleared₁.present
    rw [without_cons] at hcleared₂ hswitched₂
    exact ⟨s₂, (forM_cons_apply hfirst).trans hrest, hlinked₂, hcleared₁.trans hcleared₂,
      hswitched₁.trans hcleared₁ hcleared₂ hswitched₂⟩

/-! ### Tearing down a session -/

theorem Linked.of_sources {sources : List LiveSource} (hlinked : Linked s)
    (hsources : ∀ source,
      State.trackCount { s with sources := sources } source = s.trackCount source) :
    Linked { s with sources := sources } where
  wired := hlinked.wired.congr rfl rfl
  sound := hlinked.sound
  tracks sess source hsource := by
    rw [hsources]
    exact hlinked.tracks sess source hsource
  conns := hlinked.conns

/-- The state after a session has been freed. -/
def State.closeSession (s : State) (sess : ℕ) (session : Session) : State :=
  { s with
    sessions := s.sessions.erase sess
    rtspSessions := match session.control with
      | some rs => s.rtspSessions.erase rs
      | none => s.rtspSessions }

theorem delSession_apply (hsession : s.sessions.get? sess = some session) :
    delSession sess s = (.ok (), s.closeSession sess session) := by
  rw [delSession, derefSession_apply hsession, State.closeSession]
  cases session.control with
  | none => rfl
  | some rs => rfl

theorem ownership_closeSession :
    (s.closeSession sess session).ownership = s.ownership.close sess session.owner := by
  refine Ownership.ext (funext fun sess' ↦ ?_) rfl (funext fun rs ↦ ?_)
  · by_cases hsame : sess' = sess
    · simp [State.ownership, State.closeSession, Ownership.close, hsame]
    · simp [State.ownership, State.closeSession, Ownership.close, hsame]
  · cases hcontrol : session.control with
    | none => simp [State.ownership, State.closeSession, Ownership.close, Session.owner, hcontrol]
    | some own =>
      by_cases hown : rs = own
      · simp [State.ownership, State.closeSession, Ownership.close, Session.owner, hcontrol, hown]
      · simp [State.ownership, State.closeSession, Ownership.close, Session.owner, hcontrol, hown,
          Ne.symm hown]

theorem linked_closeSession (hlinked : Linked s) (hsession : s.sessions.get? sess = some session)
    (hempty : ∀ t, session.ep t = none) : Linked (s.closeSession sess session) where
  wired := hlinked.wired.congr rfl rfl
  sound := by
    rw [ownership_closeSession]
    exact hlinked.sound.close (owner_eq hsession) hempty
  tracks sess' source hsource := by
    have hother : sess' ≠ sess := by
      rintro rfl
      simp [State.closeSession] at hsource
    rw [State.closeSession, NodeTable.get?_erase, if_neg hother] at hsource
    obtain ⟨count, hcount, htracks⟩ := hlinked.tracks sess' source hsource
    refine ⟨count, hcount, fun t ep hholds ↦ htracks t ep ?_⟩
    rwa [ownership_closeSession, Ownership.holds_close (owner_eq hsession) hempty] at hholds
  conns := hlinked.conns

/-- What `live_teardown` leaves of a session: the endpoints it is called for are freed, and so is
the session if it had no others. -/
structure TornDown (s s' : State) (sess : ℕ) (session : Session) (ep : Option ℕ) : Prop where
  endpoints : ∀ e endpoint, s'.endpoints.get? e = some endpoint ↔
    s.endpoints.get? e = some endpoint ∧ ¬ ((ep = none ∨ ep = some e) ∧ ∃ t, session.ep t = some e)
  left : ∀ t e, session.ep t = some e → ¬ (ep = none ∨ ep = some e) →
    ∃ session', s'.sessions.get? sess = some session' ∧ session'.ep t = some e ∧
      session'.playing = session.playing ∧
      s'.liveTrack session.source t = s.liveTrack session.source t
  others : ∀ sess', sess' ≠ sess → s'.sessions.get? sess' = s.sessions.get? sess'
  persists : Persists s s'
  registered : ∀ rs sess', s'.ownership.handleOf rs = some sess' →
    s.ownership.handleOf rs = some sess' ∧ (sess' = sess → s'.ownership.Filled sess)
  conns : SameConns s s'

theorem without_ep {ep : Option ℕ} {tracks : List Track} {t : Track} {e : ℕ}
    (hep : session.ep t = some e) (htrack : t ∈ tracks) :
    (session.without ep tracks).ep t = if ep = none ∨ ep = some e then none else some e := by
  simp [Session.without, hep, htrack]

/-- The tracks of a source include those of its sessions. -/
theorem mem_trackList {source : LiveSource} {t : Track} (htrack : t.val < source.tracks.length) :
    t ∈ source.trackList :=
  mem_filter.mpr ⟨mem_finRange t, decide_eq_true htrack⟩

section Cleared

variable {ep : Option ℕ} {tracks : List Track}

theorem endpoints_of_cleared (htracks : ∀ t e, session.ep t = some e → t ∈ tracks)
    (hcleared : Cleared s s' sess session (session.without ep tracks)) (e : ℕ)
    (endpoint : Endpoint) :
    s'.endpoints.get? e = some endpoint ↔ s.endpoints.get? e = some endpoint ∧
      ¬ ((ep = none ∨ ep = some e) ∧ ∃ t, session.ep t = some e) := by
  rw [hcleared.endpoints]
  refine and_congr_right fun _ ↦ not_congr ⟨?_, ?_⟩
  · rintro ⟨t, hep, hgone⟩
    rw [without_ep hep (htracks t e hep)] at hgone
    split_ifs at hgone with hchosen
    exact ⟨hchosen, t, hep⟩
  · rintro ⟨hchosen, t, hep⟩
    exact ⟨t, hep, by rw [without_ep hep (htracks t e hep), if_pos hchosen]⟩

/-- A session that keeps an endpoint is not freed. -/
theorem tornDown_of_cleared (htracks : ∀ t e, session.ep t = some e → t ∈ tracks)
    (hcleared : Cleared s s' sess session (session.without ep tracks))
    (hfilled : ∃ t e, (session.without ep tracks).ep t = some e) :
    TornDown s s' sess session ep where
  endpoints := endpoints_of_cleared htracks hcleared
  left t e hep hother := by
    have hkept : (session.without ep tracks).ep t = some e := by
      rw [without_ep hep (htracks t e hep), if_neg hother]
    exact ⟨_, hcleared.present, hkept, hcleared.playing, hcleared.liveTrack t e hkept⟩
  others := hcleared.others
  persists := hcleared.persists
  registered rs sess' hhandle := by
    refine ⟨?_, fun _ ↦ ?_⟩
    · rwa [State.ownership, hcleared.rtspSessions] at hhandle
    · obtain ⟨t, e, hep⟩ := hfilled
      exact ⟨t, e, (holds_iff_ep hcleared.present).mpr hep⟩
  conns := hcleared.conns

/-- A session without endpoints is freed. -/
theorem tornDown_of_closed {sources : List LiveSource}
    (htracks : ∀ t e, session.ep t = some e → t ∈ tracks) (hlinked : Linked s')
    (hcleared : Cleared s s' sess session (session.without ep tracks))
    (hempty : ∀ t, (session.without ep tracks).ep t = none) :
    TornDown s (State.closeSession { s' with sources := sources } sess
      (session.without ep tracks)) sess session ep where
  endpoints e endpoint := by
    rw [← endpoints_of_cleared htracks hcleared e endpoint]
    rfl
  left t e hep hother := by
    have hkept := hempty t
    rw [without_ep hep (htracks t e hep), if_neg hother] at hkept
    exact absurd hkept nofun
  others sess' hother := by
    simp only [State.closeSession, NodeTable.get?_erase, if_neg hother]
    exact hcleared.others sess' hother
  persists := by
    refine hcleared.persists.trans ⟨Nat.le_refl _, fun sess' session' _ hget ↦ ?_⟩
    simp only [State.closeSession, NodeTable.get?_erase] at hget
    split_ifs at hget
    exact ⟨session', hget, .inr rfl⟩
  registered rs sess' hhandle := by
    rw [ownership_closeSession] at hhandle
    simp only [Ownership.close] at hhandle
    split_ifs at hhandle with hown
    refine ⟨?_, ?_⟩
    · simpa only [State.ownership, hcleared.rtspSessions] using hhandle
    · rintro rfl
      have hhandled := (hlinked.sound.handleOf_iff rs sess').mp hhandle
      exact absurd ((Ownership.handled_iff (owner_eq hcleared.present)).mp hhandled) hown
  conns := hcleared.conns

end Cleared

/-- The session without all its endpoints, or without one. -/
def Session.torn (session : Session) (ep : Option ℕ) : Session :=
  session.without ep (List.finRange 2)

/-- No endpoint of the session is left, so that it is freed. -/
def Session.Ends (session : Session) (ep : Option ℕ) : Prop := ∀ t, (session.torn ep).ep t = none

instance (session : Session) (ep : Option ℕ) : Decidable (session.Ends ep) :=
  inferInstanceAs (Decidable (∀ _, _))

theorem without_eq_torn {ep : Option ℕ} {tracks : List Track}
    (htracks : ∀ t e, session.ep t = some e → t ∈ tracks) :
    session.without ep tracks = session.torn ep := by
  rw [Session.torn, Session.without, Session.without]
  congr 1
  funext t
  cases hep : session.ep t with
  | none => simp
  | some e => simp [htracks t e hep, mem_finRange]

/-- The state after a session has been freed and is counted no more. -/
def State.endSession (s : State) (sess : ℕ) (session : Session) : State :=
  State.closeSession { s with
    sources := s.sources.modify session.source fun source ↦
      if 0 < source.curConn ∧ session.playing then { source with curConn := source.curConn - 1 }
      else source } sess session

/-- Where the pointers are in order, `live_teardown` runs without a fault: it clears the tracks it
is called for, and frees the session if none is left. -/
theorem liveTeardown_eq (ep : Option ℕ) (hlinked : Linked s)
    (hsession : s.sessions.get? sess = some session) :
    ∃ s₁, Linked s₁ ∧ Cleared s s₁ sess session (session.torn ep) ∧
      Switched s s₁ sess session (session.torn ep) ∧
      liveTeardown sess ep s = (.ok (), if session.Ends ep then
        s₁.endSession sess (session.torn ep) else s₁) := by
  obtain ⟨source, hsource, hused⟩ := hlinked.source hsession
  have htracks (t : Track) (e : ℕ) (hep : session.ep t = some e) : t ∈ source.trackList :=
    mem_trackList (hused t e hep)
  obtain ⟨s₁, hloop, hlinked₁, hcleared, hswitched⟩ :=
    teardownTracks_spec ep source.trackList hlinked hsession
  rw [without_eq_torn htracks] at hcleared hswitched
  refine ⟨s₁, hlinked₁, hcleared, hswitched, ?_⟩
  have hall : (source.trackList.all fun t ↦ ((session.torn ep).ep t).isNone) = true ↔
      session.Ends ep := by
    rw [all_eq_true]
    constructor
    · intro hnone t
      refine Option.eq_none_iff_forall_ne_some.mpr fun e hep ↦ ?_
      have hgone := hnone t (htracks t e (hcleared.kept t e hep))
      rw [hep] at hgone
      cases hgone
    · exact fun hnone t _ ↦ by rw [hnone t]; rfl
  rw [liveTeardown, derefSession_apply hsession, derefSource_apply hsource, bind_apply, hloop]
  dsimp only
  rw [derefSession_apply hcleared.present]
  by_cases hempty : session.Ends ep
  · rw [if_pos (hall.mpr hempty), if_pos hempty]
    exact delSession_apply hcleared.present
  · rw [if_neg (mt hall.mp hempty), if_neg hempty]
    rfl

/-- Where the pointers are in order, `live_teardown` runs without a fault and leaves them in order.
The session is freed if it has no endpoint left. -/
theorem liveTeardown_spec (ep : Option ℕ) (hlinked : Linked s)
    (hsession : s.sessions.get? sess = some session) :
    ∃ s', liveTeardown sess ep s = (.ok (), s') ∧ Linked s' ∧ TornDown s s' sess session ep := by
  obtain ⟨s₁, hlinked₁, hcleared, -, heq⟩ := liveTeardown_eq ep hlinked hsession
  have htracks (t : Track) (e : ℕ) (_ : session.ep t = some e) : t ∈ List.finRange 2 :=
    mem_finRange t
  refine ⟨_, heq, ?_⟩
  split_ifs with hempty
  · refine ⟨?_, tornDown_of_closed htracks hlinked₁ hcleared hempty⟩
    refine linked_closeSession (hlinked₁.of_sources (trackCount_modify _ fun live ↦ ?_))
      hcleared.present hempty
    split_ifs <;> rfl
  · refine ⟨hlinked₁, tornDown_of_cleared htracks hcleared ?_⟩
    obtain ⟨t, hsome⟩ := not_forall.mp hempty
    exact ⟨t, Option.ne_none_iff_exists'.mp hsome⟩

/-- `live_teardown` keeps the invariant. -/
theorem tidy_liveTeardown (sess : ℕ) (ep : Option ℕ) (htidy : Tidy s) :
    Tidy (liveTeardown sess ep s).2 := by
  cases hsession : s.sessions.get? sess with
  | none =>
    rw [liveTeardown, derefSession_none hsession]
    exact htidy
  | some session =>
    obtain ⟨s', heq, hlinked, htorn⟩ := liveTeardown_spec ep htidy.toLinked hsession
    rw [heq]
    refine ⟨hlinked, fun rs sess' hhandle ↦ ?_⟩
    obtain ⟨hbefore, hown⟩ := htorn.registered rs sess' hhandle
    by_cases hsame : sess' = sess
    · rw [hsame]
      exact hown hsame
    · obtain ⟨t, e, own, howner, hpart⟩ := htidy.filled rs sess' hbefore
      refine ⟨t, e, own, ?_, hpart⟩
      rw [← howner]
      simp only [State.ownership, htorn.others sess' hsame]

/-! ### Opening and setting up sessions -/

theorem wired_of_effects (heffects : Effects env s s') (hwired : Wired s) : Wired s' :=
  holds_of_steps (I := Wired) wired_of_effect heffects hwired

/-- What keeps the invariant in every step keeps it. -/
theorem tidy_of_makes {α : Type} {m : Srv α} {F : Fault → Prop}
    (hm : Makes (fun s s' ↦ Tidy s → Tidy s') F m s) (htidy : Tidy s) : Tidy (m s).2 :=
  holds_of_steps (I := Tidy) (fun hstep ↦ hstep) hm.steps htidy

theorem tidy_liveOpen (c : ℕ) (msg : Pmsg) (loc : ℕ) (location : RtspLocation) (htidy : Tidy s) :
    Tidy (liveOpen c msg loc location s).2 := by
  refine tidy_of_makes (F := May AnyFault) (derefSource_bind fun source hsource ↦ ?_) htidy
  split
  · exact ensures_pure trivial
  · refine ensures_get_bind (ensures_modify_bind (fun _ ↦ ?_) (ensures_pure trivial))
    have hfresh := @owner_next s
    have hadded := @ownership_opened s c msg loc location.source
    refine ⟨⟨htidy.wired.congr rfl rfl, ?_, fun sess source' hsource' ↦ ?_, htidy.conns⟩, ?_⟩
    · rw [hadded]
      exact htidy.sound.addOwner hfresh
    · simp only [hadded, Ownership.holds_addOwner hfresh]
      rw [NodeTable.get?_push] at hsource'
      split_ifs at hsource' with hnew
      · -- The new session is in none of its tracks yet.
        obtain rfl := Option.some.inj hsource'
        refine ⟨source.tracks.length, by simp [State.trackCount, hsource], ?_⟩
        rintro t ep ⟨own, hown, -⟩
        rw [hnew, hfresh] at hown
        cases hown
      · exact htidy.tracks sess source' hsource'
    · intro rs sess hhandle
      rw [hadded] at hhandle ⊢
      obtain ⟨t, ep, hholds⟩ := htidy.filled rs sess hhandle
      exact ⟨t, ep, (Ownership.holds_addOwner hfresh).mpr hholds⟩

theorem tidy_liveSetup {t : Track}
    (hallowed : ∃ c msg loc, SetupAllowed s.rtspLocs s.trace c msg loc sess)
    (hfree : ∀ own, s.ownership.owner sess = some own → own.part t = none) (htidy : Tidy s) :
    Tidy (liveSetup env sess t s).2 := by
  refine tidy_of_makes (F := May AnyFault) (derefSession_bind fun session hsession ↦
    derefSource_bind fun source hsource ↦ ?_) htidy
  split
  · exact ensures_pure trivial
  · rename_i track htrack
    have hadd := @addEndpoint_ensures env s AnyFault sess session
      (track.media.getPayload (96 + t.val)) source.maxRtpTransSize t hsession hallowed
    have hplaced := @ownership_addEndpoint env s sess session
      (track.media.getPayload (96 + t.val)) source.maxRtpTransSize t hsession
    obtain ⟨endpoint, -, hunset, heq⟩ := @addEndpoint_apply env s
      (track.media.getPayload (96 + t.val)) sess source.maxRtpTransSize t
    have hwired := wired_of_effects hadd.steps htidy.wired
    rw [heq] at hwired hplaced
    have hpart := hfree _ (owner_eq hsession)
    have hholds {sess' : ℕ} {t' : Track} {ep : ℕ} := @Ownership.holds_place _ _ _ s.ownership
      sess sess' s.endpoints.next ep session.owner t t' _ (owner_eq hsession) hpart
    refine hadd.makes.whole fun _ ↦ ?_
    rw [heq]
    refine ⟨⟨hwired, ?_, fun sess' source' hsource' ↦ ?_, ?_⟩, ?_⟩
    · rw [hplaced]
      exact htidy.sound.place (owner_eq hsession) hpart
        (by simp [State.ownership, NodeTable.get?_next])
    · simp only [hplaced, hholds]
      have hsame : ((s.sessions.modify sess fun session ↦ { session with
          ep := Function.update session.ep t (some s.endpoints.next) }).get? sess').map
            Session.source = (s.sessions.get? sess').map Session.source :=
        NodeTable.map_get?_modify _ _ _ fun _ ↦ rfl
      rw [hsame] at hsource'
      obtain ⟨count, hcount, htracks⟩ := htidy.tracks sess' source' hsource'
      refine ⟨count, hcount, ?_⟩
      rintro t' ep (⟨rfl, rfl, -⟩ | hbefore)
      · rw [hsession] at hsource'
        obtain rfl := Option.some.inj hsource'
        rw [State.trackCount, hsource] at hcount
        obtain rfl := Option.some.inj hcount
        exact (List.getElem?_eq_some_iff.mp htrack).1
      · exact htracks t' ep hbefore
    · rintro ep c ⟨endpoint', rtp, rtcp, hget, htrans⟩
      rw [NodeTable.get?_push] at hget
      split_ifs at hget with hnew
      · obtain rfl := Option.some.inj hget
        cases hunset.symm.trans htrans
      · exact htidy.conns ep c ⟨endpoint', rtp, rtcp, hget, htrans⟩
    · intro rs sess' hhandle
      rw [hplaced] at hhandle ⊢
      obtain ⟨t', ep, hbefore⟩ := htidy.filled rs sess' hhandle
      exact ⟨t', ep, hholds.mpr (.inr hbefore)⟩

theorem tidy_newRtspSession {c : ℕ} {msg : Pmsg} {loc : ℕ}
    (hopened : .opened c msg loc sess ∈ s.trace)
    (hunregistered : Unregistered s sess) (hfilled : s.ownership.Filled sess) (htidy : Tidy s) :
    Tidy (newRtspSession env sess s).2 := by
  have hwired := wired_of_effects (@newRtspSession_makes env s AnyFault c msg loc sess hopened).steps
    htidy.wired
  obtain ⟨own, hown, hnone⟩ := hunregistered
  obtain ⟨session, hsession, rfl⟩ := Option.map_eq_some_iff.mp hown
  have hregistered := @ownership_newRtspSession env s sess session hsession
  have hholds {sess' : ℕ} {t : Track} {ep : ℕ} := @Ownership.holds_register _ _ _ s.ownership
    sess sess' ep s.rtspSessions.next session.owner t hown
  refine ⟨⟨hwired, ?_, fun sess' source hsource ↦ ?_, htidy.conns⟩, fun rs sess' hhandle ↦ ?_⟩
  · rw [hregistered]
    exact htidy.sound.register hown hnone (by simp [State.ownership, NodeTable.get?_next])
  · simp only [hregistered, hholds]
    have hsame : ((newRtspSession env sess s).2.sessions.get? sess').map Session.source =
        (s.sessions.get? sess').map Session.source :=
      NodeTable.map_get?_modify _ _ _ fun _ ↦ rfl
    exact htidy.tracks sess' source (hsame.symm.trans hsource)
  · simp only [hregistered, Ownership.Filled, hholds]
    simp only [hregistered, Ownership.register] at hhandle
    by_cases hnew : rs = s.rtspSessions.next
    · rw [hnew, Function.update_self] at hhandle
      rw [← Option.some.inj hhandle]
      exact hfilled
    · rw [Function.update_of_ne hnew] at hhandle
      exact htidy.filled rs sess' hhandle

theorem persists_liveOpen (c : ℕ) (msg : Pmsg) (loc : ℕ) (location : RtspLocation) :
    Persists s (liveOpen c msg loc location s).2 := by
  have hmakes : Makes Persists (May AnyFault) (liveOpen c msg loc location) s := by
    refine derefSource_bind fun source hsource ↦ ?_
    split
    · exact ensures_pure trivial
    · refine ensures_get_bind (ensures_modify_bind ⟨Nat.le_succ _, ?_⟩ (ensures_pure trivial))
      intro sess session' hused hget
      rw [NodeTable.get?_push, if_neg (Nat.ne_of_lt hused)] at hget
      exact ⟨session', hget, .inr rfl⟩
  exact .of_steps hmakes.steps

theorem persists_liveSetup (t : Track)
    (hallowed : ∃ c msg loc, SetupAllowed s.rtspLocs s.trace c msg loc sess) :
    Persists s (liveSetup env sess t s).2 := by
  have hmakes : Makes Persists (May AnyFault) (liveSetup env sess t) s := by
    refine derefSession_bind fun session hsession ↦ derefSource_bind fun source _ ↦ ?_
    split
    · exact ensures_pure trivial
    · refine Ensures.whole
        (@addEndpoint_ensures env s AnyFault sess session _ _ t hsession hallowed).makes ?_
      exact .of_modify sess (fun session ↦
        { session with ep := Function.update session.ep t (some s.endpoints.next) }) rfl
        fun _ _ ↦ .inr rfl
  exact .of_steps hmakes.steps

theorem persists_newRtspSession (hunregistered : Unregistered s sess) :
    Persists s (newRtspSession env sess s).2 := by
  obtain ⟨own, hown, hnone⟩ := hunregistered
  obtain ⟨session, hsession, rfl⟩ := Option.map_eq_some_iff.mp hown
  refine .of_modify sess (fun session ↦
    { session with control := some s.rtspSessions.next }) rfl fun session' hsession' ↦ ?_
  obtain rfl := Option.some.inj (hsession.symm.trans hsession')
  exact .inl hnone

end WisCam.Server
