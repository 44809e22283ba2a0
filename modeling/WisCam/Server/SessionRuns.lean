import WisCam.Server.Sessions

/-!
# Sessions and channels in every run

`drop_conn` tears down every endpoint that uses the connection before it frees the connection. With
it each action of the server keeps sessions, endpoints and connections in order (`tidy_of_act`), and
so they are in order in every state that a run leads to.

Two properties of all runs follow. Channel tables and interleaved endpoints point to each other, and
nothing points to a connection that has been dropped. The RTSP sessions that requests name lead to
live sessions with an endpoint, and a session that has lost its last endpoint is never found again.
-/

set_option autoImplicit false

namespace WisCam.Server

open Foundations Message Connection Auth Program List

variable {env : Env} {s s' s'' : State} {sess : ℕ} {session session' : Session}

/-! ### Closing a connection -/

/-- The connection is there and has a channel table. -/
def HasTable (s : State) (c : ℕ) : Prop :=
  ∃ conn table, s.conns.get? c = some conn ∧ conn.protoState = .rtsp table

variable {c : ℕ}

theorem SameConns.hasTable (hsame : SameConns s s') (htable : HasTable s c) : HasTable s' c := by
  obtain ⟨conn, table, hconn, hstate⟩ := htable
  have hmap := hsame c
  rw [hconn] at hmap
  obtain ⟨conn', hconn', heq⟩ := Option.map_eq_some_iff.mp hmap
  have hstate' := congrArg Conn.protoState heq
  simp only [Conn.withoutEntries, hstate] at hstate'
  cases hkind : conn'.protoState with
  | rtsp table' => exact ⟨conn', table', hconn', hkind⟩
  | null => simp [hkind] at hstate'
  | http stream => simp [hkind] at hstate'

/-- Tearing down an endpoint frees it and no channel is used that was not. -/
theorem TornDown.connected {ep : Option ℕ} {e : ℕ} {chan : Channel} {isRtcp : Bool}
    (htorn : TornDown s s' sess session ep) (hconnected : Connected s' c e chan isRtcp) :
    Connected s c e chan isRtcp := by
  obtain ⟨endpoint, rtp, rtcp, hget, htrans, hchan⟩ := hconnected
  exact ⟨endpoint, rtp, rtcp, ((htorn.endpoints e endpoint).mp hget).1, htrans, hchan⟩

/-- One round of `rtsp_conn_disconnect`. -/
def disconnectChannel (c : ℕ) (chan : Channel) : Srv Unit := do
  let conn ← derefConn c
  match conn.protoState with
  | .null => .fault .nullTable
  | .http _ => .fault .wrongTable
  | .rtsp table =>
    match table chan with
    | some ⟨ep, false⟩ => do
      let endpoint ← derefEndpoint ep
      liveTeardown endpoint.session (some ep)
    | _ => pure ()

theorem disconnectChannel_spec (chan : Channel) (htidy : Tidy s) (htable : HasTable s c) :
    ∃ s', disconnectChannel c chan s = (.ok (), s') ∧ Tidy s' ∧ Persists s s' ∧ HasTable s' c ∧
      (∀ ep, ¬ Connected s' c ep chan false) ∧
      ∀ ep chan' isRtcp, Connected s' c ep chan' isRtcp → Connected s c ep chan' isRtcp := by
  have ⟨conn, table, hconn, hstate⟩ := htable
  have hentry (ep : ℕ) (isRtcp : Bool) :
      table chan = some ⟨ep, isRtcp⟩ ↔ Connected s c ep chan isRtcp := by
    rw [← htidy.wired.entry_iff c conn hconn, entry_of_table (.inr hstate)]
  have hnothing (hunused : ∀ ep, table chan ≠ some ⟨ep, false⟩)
      (hskip : disconnectChannel c chan s = (.ok (), s)) :
      ∃ s', disconnectChannel c chan s = (.ok (), s') ∧ Tidy s' ∧ Persists s s' ∧ HasTable s' c ∧
        (∀ ep, ¬ Connected s' c ep chan false) ∧
        ∀ ep chan' isRtcp, Connected s' c ep chan' isRtcp → Connected s c ep chan' isRtcp :=
    ⟨s, hskip, htidy, .of_same rfl, htable,
      fun ep hconnected ↦ hunused ep ((hentry ep false).mpr hconnected), fun _ _ _ ↦ id⟩
  rw [disconnectChannel, derefConn_apply hconn, hstate] at hnothing ⊢
  dsimp only at hnothing ⊢
  cases hused : table chan with
  | none =>
    rw [hused] at hnothing
    exact hnothing nofun rfl
  | some entry =>
    obtain ⟨ep, isRtcp⟩ := entry
    rw [hused] at hnothing
    cases isRtcp with
    | true => exact hnothing nofun rfl
    | false =>
      have hconnected := (hentry ep false).mp hused
      have ⟨endpoint, rtp, rtcp, hep, htrans, hchan⟩ := hconnected
      obtain ⟨session, t, hsession, hslot⟩ := htidy.track hep
      obtain ⟨s', heq, hlinked, htorn⟩ := liveTeardown_spec (some ep) htidy.toLinked hsession
      have htidy' := tidy_liveTeardown endpoint.session (some ep) htidy
      rw [heq] at htidy'
      refine ⟨s', ?_, htidy', htorn.persists, htorn.conns.hasTable htable,
        fun ep' hconnected' ↦ ?_, fun _ _ _ ↦ htorn.connected⟩
      · dsimp only
        rw [derefEndpoint_apply hep]
        exact heq
      · -- The channel was used by the endpoint that has been freed.
        have hbefore := (hentry ep' false).mpr (htorn.connected hconnected')
        rw [hused] at hbefore
        obtain ⟨rfl, -⟩ := IChan.mk.inj (Option.some.inj hbefore)
        obtain ⟨endpoint', -, -, hget, -⟩ := hconnected'
        exact ((htorn.endpoints ep endpoint').mp hget).2 ⟨.inr rfl, t, hslot⟩

theorem disconnectChannels_spec (chans : List Channel) (htidy : Tidy s) (htable : HasTable s c) :
    ∃ s', chans.forM (disconnectChannel c) s = (.ok (), s') ∧ Tidy s' ∧ Persists s s' ∧
      (∀ chan ∈ chans, ∀ ep, ¬ Connected s' c ep chan false) ∧
      ∀ ep chan isRtcp, Connected s' c ep chan isRtcp → Connected s c ep chan isRtcp := by
  induction chans generalizing s with
  | nil =>
    exact ⟨s, rfl, htidy, .of_same rfl, fun _ hmem ↦ absurd hmem not_mem_nil, fun _ _ _ ↦ id⟩
  | cons chan chans ih =>
    obtain ⟨s₁, hfirst, htidy₁, hpersists₁, htable₁, hfreed, hfewer₁⟩ :=
      disconnectChannel_spec chan htidy htable
    obtain ⟨s₂, hrest, htidy₂, hpersists₂, hothers, hfewer₂⟩ := ih htidy₁ htable₁
    refine ⟨s₂, (forM_cons_apply hfirst).trans hrest, htidy₂, hpersists₁.trans hpersists₂,
      fun chan' hmem ep hconnected ↦ ?_,
      fun ep chan' isRtcp hconnected ↦ hfewer₁ _ _ _ (hfewer₂ _ _ _ hconnected)⟩
    rcases mem_cons.mp hmem with rfl | hmem
    · exact hfreed ep (hfewer₂ _ _ _ hconnected)
    · exact hothers chan' hmem ep hconnected

/-- `rtsp_conn_disconnect` frees every endpoint that uses the connection. -/
theorem rtspConnDisconnect_spec (htidy : Tidy s) (htable : HasTable s c) :
    ∃ s', rtspConnDisconnect c s = (.ok (), s') ∧ Tidy s' ∧ Persists s s' ∧
      ∀ ep, ¬ UsesConn s' ep c := by
  obtain ⟨s', heq, htidy', hpersists, hunused, -⟩ :=
    disconnectChannels_spec (List.finRange 8) htidy htable
  refine ⟨s', heq, htidy', hpersists, ?_⟩
  rintro ep ⟨endpoint, rtp, rtcp, hget, htrans⟩
  exact hunused rtp (mem_finRange rtp) ep ⟨endpoint, rtp, rtcp, hget, htrans, rfl⟩

/-- No endpoint uses a connection without a channel table. -/
theorem Linked.not_usesConn {ep : ℕ} {conn : Conn} (hlinked : Linked s)
    (hconn : s.conns.get? c = some conn) (hnone : ∀ table, conn.protoState ≠ .rtsp table) :
    ¬ UsesConn s ep c := by
  rintro ⟨endpoint, rtp, rtcp, hget, htrans⟩
  have hentry := (hlinked.wired.entry_iff c conn hconn rtp ep false).mpr
    ⟨endpoint, rtp, rtcp, hget, htrans, rfl⟩
  obtain ⟨table, htable⟩ := table_of_entry hentry
  exact hnone table htable

/-- What `drop_conn` does before it frees the connection leaves no endpoint that uses it. It stops
at a fault where a tunnel is opened on a connection that an HTTP stream goes to. -/
theorem disconnect_spec {conn : Conn} (htidy : Tidy s) (hconn : s.conns.get? c = some conn) :
    (∃ s', disconnect c conn s = (.ok (), s') ∧ Tidy s' ∧ Persists s s' ∧
        ∀ ep, ¬ UsesConn s' ep c) ∨
      (∃ stream, conn.protoState = .http stream) ∧
        ∃ fault, disconnect c conn s = (.error fault, s) := by
  unfold disconnect
  cases hstate : conn.protoState with
  | null =>
    exact .inl ⟨s, rfl, htidy, .of_same rfl,
      fun ep ↦ htidy.not_usesConn hconn (by rw [hstate]; nofun)⟩
  | rtsp table =>
    rw [htidy.wired.proto c conn table hconn hstate]
    exact .inl (rtspConnDisconnect_spec htidy ⟨conn, table, hconn, hstate⟩)
  | http stream =>
    have hunused (ep : ℕ) : ¬ UsesConn s ep c :=
      htidy.not_usesConn hconn (by rw [hstate]; nofun)
    cases conn.reader.proto with
    | start => exact .inl ⟨s, rfl, htidy, .of_same rfl, hunused⟩
    | http =>
      refine .inl ⟨{ s with httpSessions := s.httpSessions.erase stream }, ?_, ?_, .of_same rfl,
        hunused⟩
      · dsimp only
        rw [httpConnDisconnect, derefConn_apply hconn, hstate]
        rfl
      · exact ⟨⟨htidy.wired.congr rfl rfl, htidy.sound, htidy.tracks, htidy.conns⟩, htidy.filled⟩
    | rtsp =>
      refine .inr ⟨⟨stream, rfl⟩, .wrongTable, ?_⟩
      change (List.finRange 8).forM (disconnectChannel c) s = _
      rw [finRange_succ]
      refine forM_cons_error ?_
      rw [disconnectChannel, derefConn_apply hconn, hstate]
      rfl

theorem tidy_eraseConn (htidy : Tidy s) (hunused : ∀ ep, ¬ UsesConn s ep c) :
    Tidy { s with conns := s.conns.erase c } where
  wired := htidy.wired.of_dropped c
  sound := htidy.sound
  tracks := htidy.tracks
  conns ep c' huses := by
    have hother : c' ≠ c := by
      rintro rfl
      exact hunused ep huses
    rw [NodeTable.get?_erase, if_neg hother]
    exact htidy.conns ep c' huses
  filled := htidy.filled

/-- `drop_conn` frees the connection after the endpoints that use it. -/
theorem dropConn_spec {conn : Conn} (htidy : Tidy s) (hconn : s.conns.get? c = some conn) :
    (∃ s', dropConn c s = (.ok (), s') ∧ Tidy s' ∧ Persists s s' ∧ s'.conns.get? c = none ∧
        ∀ ep, ¬ UsesConn s' ep c) ∨
      (∃ stream, conn.protoState = .http stream) ∧
        ∃ fault, dropConn c s = (.error fault, s) := by
  rw [dropConn, derefConn_apply hconn, bind_apply]
  rcases disconnect_spec htidy hconn with
    ⟨s', heq, htidy', hpersists, hunused⟩ | ⟨hstream, fault, heq⟩
  · rw [heq]
    exact .inl ⟨_, rfl, tidy_eraseConn htidy' hunused, hpersists.trans (.of_same rfl), by simp,
      hunused⟩
  · rw [heq]
    exact .inr ⟨hstream, fault, rfl⟩

theorem dropConn_keeps (c : ℕ) (htidy : Tidy s) :
    Tidy (dropConn c s).2 ∧ Persists s (dropConn c s).2 := by
  cases hconn : s.conns.get? c with
  | none =>
    rw [dropConn, derefConn_none hconn]
    exact ⟨htidy, .of_same rfl⟩
  | some conn =>
    rcases dropConn_spec htidy hconn with ⟨s', heq, htidy', hpersists, -⟩ | ⟨-, fault, heq⟩
    · rw [heq]
      exact ⟨htidy', hpersists⟩
    · rw [heq]
      exact ⟨htidy, .of_same rfl⟩

/-! ### Runs -/

/-- Every action of the server keeps the invariant. -/
theorem tidy_of_act (hact : Act env s s') (htidy : Tidy s) : Tidy s' := by
  cases hact with
  | quiet hquiet => exact tidy_of_quiet hquiet htidy
  | opened c msg loc location => exact tidy_liveOpen c msg loc location htidy
  | setUp t hallowed hfree => exact tidy_liveSetup hallowed hfree htidy
  | registered hopened hunregistered hfilled =>
    exact tidy_newRtspSession hopened hunregistered hfilled htidy
  | tornDown sess ep => exact tidy_liveTeardown sess ep htidy
  | dropped c => exact (dropConn_keeps c htidy).1

theorem tidy_of_acts (hacts : Acts env s s') (htidy : Tidy s) : Tidy s' :=
  holds_of_steps (I := Tidy) tidy_of_act hacts htidy

/-- In every state that a run leads to, sessions, endpoints and connections fit together. -/
theorem tidy_of_reachable {config : Config} (hreachable : Reachable env config s) : Tidy s :=
  tidy_of_acts hreachable.acts (tidy_initial config)

theorem persists_of_act (hact : Act env s s') (htidy : Tidy s) : Persists s s' := by
  cases hact with
  | quiet hquiet =>
    refine ⟨hquiet.1.next_sessions_le, fun sess session' _ hget ↦ ?_⟩
    have howner := owner_eq hget
    rw [hquiet.2.ownership] at howner
    obtain ⟨session, hsession, hsame⟩ := Option.map_eq_some_iff.mp howner
    exact ⟨session, hsession, .inr (congrArg Owner.handle hsame).symm⟩
  | opened c msg loc location => exact persists_liveOpen c msg loc location
  | setUp t hallowed hfree => exact persists_liveSetup t hallowed
  | registered hopened hunregistered hfilled => exact persists_newRtspSession hunregistered
  | tornDown sess ep =>
    cases hsession : s.sessions.get? sess with
    | none =>
      rw [liveTeardown, derefSession_none hsession]
      exact .of_same rfl
    | some session =>
      obtain ⟨s', heq, -, htorn⟩ := liveTeardown_spec ep htidy.toLinked hsession
      rw [heq]
      exact htorn.persists
  | dropped c => exact (dropConn_keeps c htidy).2

theorem persists_of_acts (hacts : Acts env s s') (htidy : Tidy s) : Persists s s' := by
  induction hacts with
  | refl => exact .of_same rfl
  | tail hacts hlast ih => exact ih.trans (persists_of_act hlast (tidy_of_acts hacts htidy))

/-! ### Channels -/

/-- The endpoint uses the channel of the connection, for RTP or for RTCP. -/
def Serves (s : State) (c : ℕ) (chan : Channel) (ep : ℕ) : Prop :=
  ∃ isRtcp, Connected s c ep chan isRtcp

/-- An endpoint that is interleaved on two channels of a connection and the entries of the
connection's table for them come together, and no channel serves two endpoints. -/
structure ChannelsPaired (s : State) : Prop where
  paired : ∀ ep c rtp rtcp,
    (∃ endpoint, s.endpoints.get? ep = some endpoint ∧ endpoint.trans = .inter c rtp rtcp) ↔
      ∃ conn, s.conns.get? c = some conn ∧ conn.entry rtp = some ⟨ep, false⟩ ∧
        conn.entry rtcp = some ⟨ep, true⟩
  unique : ∀ c chan ep ep', Serves s c chan ep → Serves s c chan ep' → ep = ep'

/-- The connection is gone, and no endpoint refers to it, in a session or anywhere else. -/
structure Forgotten (s : State) (c : ℕ) : Prop where
  conn : s.conns.get? c = none
  endpoints : ∀ ep endpoint rtp rtcp, s.endpoints.get? ep = some endpoint →
    endpoint.trans ≠ .inter c rtp rtcp
  sessions : ∀ sess session t ep endpoint rtp rtcp, s.sessions.get? sess = some session →
    session.ep t = some ep → s.endpoints.get? ep = some endpoint →
    endpoint.trans ≠ .inter c rtp rtcp

theorem Tidy.channelsPaired (htidy : Tidy s) : ChannelsPaired s where
  paired ep c rtp rtcp := by
    constructor
    · rintro ⟨endpoint, hget, htrans⟩
      obtain ⟨conn, hconn⟩ := Option.isSome_iff_exists.mp
        (htidy.conns ep c ⟨endpoint, rtp, rtcp, hget, htrans⟩)
      refine ⟨conn, hconn, ?_, ?_⟩
      · exact (htidy.wired.entry_iff c conn hconn rtp ep false).mpr
          ⟨endpoint, rtp, rtcp, hget, htrans, rfl⟩
      · exact (htidy.wired.entry_iff c conn hconn rtcp ep true).mpr
          ⟨endpoint, rtp, rtcp, hget, htrans, rfl⟩
    · rintro ⟨conn, hconn, hrtp, hrtcp⟩
      obtain ⟨endpoint, rtp', rtcp', hget, htrans, rfl⟩ :=
        (htidy.wired.entry_iff c conn hconn rtp ep false).mp hrtp
      have hcontrol := (htidy.wired.entry_iff c conn hconn rtcp ep true).mp hrtcp
      obtain ⟨-, rfl⟩ := (connected_iff hget htrans).mp hcontrol
      exact ⟨endpoint, hget, htrans⟩
  unique c chan ep ep' := by
    rintro ⟨isRtcp, hfirst⟩ ⟨isRtcp', hsecond⟩
    have ⟨endpoint, rtp, rtcp, hget, htrans, _⟩ := hfirst
    obtain ⟨conn, hconn⟩ := Option.isSome_iff_exists.mp
      (htidy.conns ep c ⟨endpoint, rtp, rtcp, hget, htrans⟩)
    rw [← htidy.wired.entry_iff c conn hconn] at hfirst hsecond
    exact (IChan.mk.inj (Option.some.inj (hfirst.symm.trans hsecond))).1

/-- In every state that a run leads to, interleaved endpoints and channel tables point to each other
and no channel serves two endpoints, and nothing refers to a connection after `drop_conn`. That
function returns for every connection that no HTTP stream goes to.

Assumes: the server has come to the state without a fault. -/
theorem channels_paired (env : Env) (config : Config) (s : State)
    (hreachable : Reachable env config s) :
    ChannelsPaired s ∧ ∀ c conn, s.conns.get? c = some conn →
      (∀ s', dropConn c s = (.ok (), s') → Forgotten s' c) ∧
      ((∀ stream, conn.protoState ≠ .http stream) → ∃ s', dropConn c s = (.ok (), s')) := by
  have htidy := tidy_of_reachable hreachable
  refine ⟨htidy.channelsPaired, fun c conn hconn ↦ ?_⟩
  rcases dropConn_spec htidy hconn with
    ⟨s', heq, -, -, hgone, hunused⟩ | ⟨⟨stream, hstream⟩, fault, heq⟩
  · refine ⟨fun s'' heq' ↦ ?_, fun _ ↦ ⟨s', heq⟩⟩
    obtain rfl := congrArg Prod.snd (heq.symm.trans heq')
    refine ⟨hgone, fun ep endpoint rtp rtcp hget htrans ↦ ?_,
      fun _ _ _ ep endpoint rtp rtcp _ _ hget htrans ↦ ?_⟩
    · exact hunused ep ⟨endpoint, rtp, rtcp, hget, htrans⟩
    · exact hunused ep ⟨endpoint, rtp, rtcp, hget, htrans⟩
  · refine ⟨fun s'' heq' ↦ ?_, fun hnone ↦ absurd hstream (hnone stream)⟩
    exact absurd (congrArg Prod.fst (heq.symm.trans heq')) nofun

/-- A client has set up a track on the channels 0 and 1; its connection is dropped. -/
theorem channels_paired_sample :
    (sampleRun interleavedEvents).1 = .ok () ∧
      (((sampleRun interleavedEvents).2.endpoints.get? 0).map Endpoint.trans =
        some (.inter 0 0 1)) ∧
      ChannelsPaired (sampleRun interleavedEvents).2 ∧
      ∃ s', dropConn 0 (sampleRun interleavedEvents).2 = (.ok (), s') ∧ Forgotten s' 0 := by
  -- One evaluation of the run for all that is needed of it.
  obtain ⟨hrun, hentry, htrans⟩ : (sampleRun interleavedEvents).1 = .ok () ∧
      ((sampleRun interleavedEvents).2.conns.get? 0).bind (·.entry 0) = some ⟨0, false⟩ ∧
      ((sampleRun interleavedEvents).2.endpoints.get? 0).map Endpoint.trans =
        some (.inter 0 0 1) := by
    decide +kernel
  obtain ⟨conn, hconn, hentry⟩ := Option.bind_eq_some_iff.mp hentry
  obtain ⟨table, htable⟩ := table_of_entry hentry
  obtain ⟨hpaired, hdrop⟩ := channels_paired sampleEnv sampleConfig _ (reachable_sampleRun hrun)
  obtain ⟨hforgotten, hreturns⟩ := hdrop 0 conn hconn
  obtain ⟨s', heq⟩ := hreturns (by rw [htable]; nofun)
  exact ⟨hrun, htrans, hpaired, s', heq, hforgotten s' heq⟩

/-! ### RTSP sessions -/

/-- `sess_list` of a source. -/
def State.sessList (s : State) (source : ℕ) : List ℕ :=
  (s.sessions.nodes.filter fun node ↦ node.2.source == source).map Prod.fst

/-- The endpoint is there and belongs to the session. -/
def HasEndpoint (s : State) (sess : ℕ) : Prop :=
  ∃ ep endpoint, s.endpoints.get? ep = some endpoint ∧ endpoint.session = sess

/-- Every RTSP session leads to a live session, in the list of its source and with an endpoint, and
no two of them lead to the same one. -/
structure SessionsFound (s : State) : Prop where
  live : ∀ rs entry, s.rtspSessions.get? rs = some entry →
    ∃ session, s.sessions.get? entry.sess = some session ∧ session.source < s.sources.length ∧
      entry.sess ∈ s.sessList session.source ∧ HasEndpoint s entry.sess
  unique : ∀ rs rs' entry entry', s.rtspSessions.get? rs = some entry →
    s.rtspSessions.get? rs' = some entry' → entry.sess = entry'.sess → rs = rs'

/-- `get_session` does not lead to the session under any id, and finds nothing under its own id
unless another session has been given the same one. -/
structure NotFound (s : State) (sess : ℕ) (id : Bytes) : Prop where
  other : ∀ id' entry, getSession id' s = (.ok (some entry), s) → entry.sess ≠ sess
  own : (∀ rs entry, s.rtspSessions.get? rs = some entry → entry.id = id → entry.sess = sess) →
    getSession (some id) s = (.ok none, s)

theorem Tidy.sessionsFound (htidy : Tidy s) : SessionsFound s where
  live rs entry hentry := by
    have hhandle : s.ownership.handleOf rs = some entry.sess := by
      simp [State.ownership, hentry]
    obtain ⟨t, ep, own, hown, hpart⟩ := htidy.filled rs entry.sess hhandle
    obtain ⟨session, hsession, rfl⟩ := Option.map_eq_some_iff.mp hown
    obtain ⟨source, hsource, -⟩ := htidy.source hsession
    obtain ⟨endpoint, hep, hback⟩ := htidy.endpoint hsession hpart
    refine ⟨session, hsession, (List.getElem?_eq_some_iff.mp hsource).1, ?_, ep, endpoint, hep,
      hback⟩
    refine mem_map.mpr ⟨(entry.sess, session), mem_filter.mpr ⟨?_, by simp⟩, rfl⟩
    exact (s.sessions.get?_eq_some_iff entry.sess).mp hsession
  unique rs rs' entry entry' hentry hentry' hsame := by
    have hhandle : s.ownership.handleOf rs = some entry.sess := by
      simp [State.ownership, hentry]
    have hhandle' : s.ownership.handleOf rs' = some entry.sess := by
      simp [State.ownership, hentry', hsame]
    obtain ⟨own, hown, hcontrol⟩ := (htidy.sound.handleOf_iff rs _).mp hhandle
    have hcontrol' := (Ownership.handled_iff hown).mp ((htidy.sound.handleOf_iff rs' _).mp hhandle')
    exact Option.some.inj (hcontrol.symm.trans hcontrol')

/-- What `get_session` returns is in the table, under the id it was called with. -/
theorem of_getSession {id : Option Bytes} {entry : RtspSession}
    (hfound : getSession id s = (.ok (some entry), s)) :
    ∃ rs, s.rtspSessions.get? rs = some entry ∧ id = some entry.id := by
  have hbind := Except.ok.inj (congrArg Prod.fst hfound)
  obtain ⟨id', rfl, hmap⟩ := Option.bind_eq_some_iff.mp hbind
  obtain ⟨⟨rs, entry'⟩, hnode, rfl⟩ := Option.map_eq_some_iff.mp hmap
  obtain ⟨hget, hid⟩ := NodeTable.get?_of_find? hnode
  exact ⟨rs, hget, congrArg some (beq_iff_eq.mp hid).symm⟩

/-- A session that nothing in the table leads to is not found. -/
theorem notFound_of_unregistered (id : Bytes)
    (hnone : ∀ rs entry, s.rtspSessions.get? rs = some entry → entry.sess ≠ sess) :
    NotFound s sess id where
  other id' entry hfound := by
    obtain ⟨rs, hget, -⟩ := of_getSession hfound
    exact hnone rs entry hget
  own hunshared := by
    change (Except.ok (Option.map Prod.snd (s.rtspSessions.find? fun rs ↦ rs.id == id)), s) = _
    cases hfind : s.rtspSessions.find? fun rs ↦ rs.id == id with
    | none => rfl
    | some node =>
      obtain ⟨hget, hid⟩ := NodeTable.get?_of_find? hfind
      exact absurd (hunshared node.1 node.2 hget (beq_iff_eq.mp hid)) (hnone node.1 node.2 hget)

/-- An RTSP session is what its session points to. -/
theorem Tidy.control (htidy : Tidy s) {rs : ℕ} {entry : RtspSession}
    (hentry : s.rtspSessions.get? rs = some entry)
    (hsession : s.sessions.get? entry.sess = some session) : session.control = some rs := by
  have hhandle : s.ownership.handleOf rs = some entry.sess := by simp [State.ownership, hentry]
  exact (Ownership.handled_iff (owner_eq hsession)).mp ((htidy.sound.handleOf_iff rs _).mp hhandle)

/-- A session that an RTSP session controls has an endpoint. -/
theorem Tidy.hasEndpoint (htidy : Tidy s) {rs : ℕ} (hsession : s.sessions.get? sess = some session)
    (hcontrol : session.control = some rs) : HasEndpoint s sess := by
  have hhandled : s.ownership.Handled sess rs :=
    (Ownership.handled_iff (owner_eq hsession)).mpr hcontrol
  obtain ⟨t, ep, hholds⟩ := htidy.filled rs sess ((htidy.sound.handleOf_iff rs sess).mpr hhandled)
  obtain ⟨endpoint, hget, hback⟩ := htidy.endpoint hsession ((holds_iff_ep hsession).mp hholds)
  exact ⟨ep, endpoint, hget, hback⟩

/-- A session that was registered and has no endpoint is gone for ever. -/
theorem gone_of_no_endpoint {rs : ℕ} {entry : RtspSession} (htidy : Tidy s)
    (hacts : Acts env s s') (hentry : s.rtspSessions.get? rs = some entry)
    (hnone : ¬ HasEndpoint s' entry.sess) (hacts' : Acts env s' s'') :
    s''.sessions.get? entry.sess = none := by
  have htidy' := tidy_of_acts hacts htidy
  obtain ⟨session, hsession, -⟩ := htidy.sessionsFound.live rs entry hentry
  have hused := NodeTable.lt_next_of_get? hsession
  have hcontrol := htidy.control hentry hsession
  have hfirst := persists_of_acts hacts htidy
  refine Option.eq_none_iff_forall_ne_some.mpr fun session'' hsession'' ↦ hnone ?_
  obtain ⟨session', hsession', -⟩ := (persists_of_acts hacts' htidy').session entry.sess session''
    (Nat.lt_of_lt_of_le hused hfirst.next) hsession''
  obtain ⟨old, hold, hkept⟩ := hfirst.session entry.sess session' hused hsession'
  obtain rfl := Option.some.inj (hsession.symm.trans hold)
  rcases hkept with hunset | hsame
  · exact absurd (hcontrol.symm.trans hunset) nofun
  · exact htidy'.hasEndpoint hsession' (hsame.trans hcontrol)

/-- In every state that a run leads to, every RTSP session leads to a live session that is in the
list of its source and has an endpoint, and no two lead to the same session; and once a session has
lost its last endpoint, `get_session` does not find it in that state or any later one.

Assumes: the server has come to the state without a fault. -/
theorem sessions_found (env : Env) (config : Config) (s : State)
    (hreachable : Reachable env config s) :
    SessionsFound s ∧ ∀ rs entry, s.rtspSessions.get? rs = some entry →
      ∀ events s', run env events s = (.ok (), s') → ¬ HasEndpoint s' entry.sess →
        ∀ later s'', run env later s' = (.ok (), s'') → NotFound s'' entry.sess entry.id := by
  have htidy := tidy_of_reachable hreachable
  refine ⟨htidy.sessionsFound, fun rs entry hentry events s' hrun hnone later s'' hlater ↦ ?_⟩
  have hacts := acts_of_run env events hreachable.tableRecorded
  rw [hrun] at hacts
  have hacts' := acts_of_run env later
    (tableRecorded_of_effects (effects_of_acts hacts) hreachable.tableRecorded)
  rw [hlater] at hacts'
  have hgone := gone_of_no_endpoint htidy hacts hentry hnone hacts'
  refine notFound_of_unregistered entry.id fun rs' entry' hentry' hsame ↦ ?_
  -- What the table leads to is there, and the session is not.
  have htidy'' := tidy_of_acts hacts' (tidy_of_acts hacts htidy)
  obtain ⟨session, hsession, -⟩ := htidy''.sessionsFound.live rs' entry' hentry'
  rw [hsame, hgone] at hsession
  exact absurd hsession nofun

/-- A client sets up a track and closes its connection: its session is registered and then lost. -/
theorem sessions_found_sample :
    (sampleRun interleavedEvents).1 = .ok () ∧ SessionsFound (sampleRun interleavedEvents).2 ∧
      ∃ entry s', (sampleRun interleavedEvents).2.rtspSessions.get? 0 = some entry ∧
        run sampleEnv [.closed 0 false] (sampleRun interleavedEvents).2 = (.ok (), s') ∧
        ¬ HasEndpoint s' entry.sess ∧ NotFound s' entry.sess entry.id := by
  obtain ⟨hrun, hregistered, hclosed, hempty⟩ : (sampleRun interleavedEvents).1 = .ok () ∧
      ((sampleRun interleavedEvents).2.rtspSessions.get? 0).isSome = true ∧
      (run sampleEnv [.closed 0 false] (sampleRun interleavedEvents).2).1 = .ok () ∧
      (run sampleEnv [.closed 0 false] (sampleRun interleavedEvents).2).2.endpoints.nodes =
        [] := by
    decide +kernel
  obtain ⟨entry, hentry⟩ := Option.isSome_iff_exists.mp hregistered
  obtain ⟨hfound, hlost⟩ := sessions_found sampleEnv sampleConfig _ (reachable_sampleRun hrun)
  refine ⟨hrun, hfound, entry, ?_⟩
  specialize hlost 0 entry hentry [.closed 0 false]
  generalize run sampleEnv [.closed 0 false] (sampleRun interleavedEvents).2 = closed at *
  obtain ⟨result, s'⟩ := closed
  obtain rfl : result = .ok () := hclosed
  have hnone : ¬ HasEndpoint s' entry.sess := by
    rintro ⟨ep, endpoint, hget, -⟩
    have hmem := (s'.endpoints.get?_eq_some_iff ep).mp hget
    rw [hempty] at hmem
    exact absurd hmem not_mem_nil
  exact ⟨s', hentry, rfl, hnone, hlost s' rfl hnone [] s' rfl⟩

/-! ### Pointers -/

/-- No pointer between sessions, endpoints and RTSP sessions dangles, and none to a connection. -/
structure PointersSound (s : State) : Prop where
  /-- An endpoint is in one slot, of the session that it points back to. -/
  endpoint : ∀ ep endpoint, s.endpoints.get? ep = some endpoint →
    ∃ t, ∀ sess t', (∃ session, s.sessions.get? sess = some session ∧ session.ep t' = some ep) ↔
      sess = endpoint.session ∧ t' = t
  /-- What is in a slot is there, and the source has a track for the slot. -/
  slot : ∀ sess session t ep, s.sessions.get? sess = some session → session.ep t = some ep →
    (∃ endpoint, s.endpoints.get? ep = some endpoint) ∧
      ∃ source, s.sources[session.source]? = some source ∧ t.val < source.tracks.length
  /-- A session and its RTSP session point to each other. -/
  control : ∀ rs sess, (∃ entry, s.rtspSessions.get? rs = some entry ∧ entry.sess = sess) ↔
    ∃ session, s.sessions.get? sess = some session ∧ session.control = some rs
  conn : ∀ ep c, UsesConn s ep c → (s.conns.get? c).isSome

theorem tidy_of_run (env : Env) (config : Config) (events : List Event) :
    Tidy (run env events (initial config)).2 :=
  tidy_of_acts (acts_of_run env events (tableRecorded_initial config)) (tidy_initial config)

/-- After any events, also if the last one led to a fault, no pointer dangles. -/
theorem pointers_sound (env : Env) (config : Config) (events : List Event) :
    PointersSound (run env events (initial config)).2 := by
  have htidy := tidy_of_run env config events
  generalize (run env events (initial config)).2 = s at htidy
  have hholds (sess : ℕ) (t : Track) (ep : ℕ) : s.ownership.Holds sess t ep ↔
      ∃ session, s.sessions.get? sess = some session ∧ session.ep t = some ep := by
    simp [Ownership.Holds, State.ownership, Session.owner]
  refine ⟨fun ep endpoint hget ↦ ?_, fun sess session t ep hget hep ↦ ?_, fun rs sess ↦ ?_,
    htidy.conns⟩
  · have hpart : s.ownership.partOf ep = some endpoint.session :=
      congrArg (Option.map Endpoint.session) hget
    obtain ⟨t, ht⟩ := (htidy.sound.partOf_iff ep _).mp hpart
    refine ⟨t, fun sess t' ↦ (hholds sess t' ep).symm.trans ⟨fun hother ↦ ?_, ?_⟩⟩
    · have hsame := ((htidy.sound.partOf_iff ep sess).mpr ⟨t', hother⟩).symm.trans hpart
      obtain rfl := Option.some.inj hsame
      exact ⟨rfl, htidy.sound.slot_inj _ _ _ _ hother ht⟩
    · rintro ⟨rfl, rfl⟩
      exact ht
  · have hslot := (hholds sess t ep).mpr ⟨session, hget, hep⟩
    obtain ⟨endpoint, hend, -⟩ :=
      Option.map_eq_some_iff.mp ((htidy.sound.partOf_iff ep sess).mpr ⟨t, hslot⟩)
    obtain ⟨count, hcount, hlt⟩ := htidy.tracks sess session.source (congrArg _ hget)
    obtain ⟨source, hsource, rfl⟩ := Option.map_eq_some_iff.mp hcount
    exact ⟨⟨endpoint, hend⟩, source, hsource, hlt t ep hslot⟩
  · have hhandled := htidy.sound.handleOf_iff rs sess
    simpa [Ownership.Handled, State.ownership, Session.owner] using hhandled

/-- However a run goes on, a session that was closed does not come back, and one that has an RTSP
session is never given another. -/
theorem sessions_persist (env : Env) (config : Config) (events more : List Event) :
    let s := (run env events (initial config)).2
    Persists s (run env more s).2 := by
  intro s
  have htable : TableRecorded s :=
    tableRecorded_of_effects (effects_of_run env config events) (tableRecorded_initial config)
  exact persists_of_acts (acts_of_run env more htable) (tidy_of_run env config events)

end WisCam.Server
