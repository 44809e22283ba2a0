import WisCam.Server.Actions
import WisCam.Server.Answers

/-!
# The footprint of the server

Every function of the server changes the state by moves only, whatever it returns and also if it
stops at a fault, and the faults it may stop at are named (`May`). Only the handlers of RTSP
requests make moves that are not passive. Of these handlers the module also says what they leave
behind when they have come to an answer (`Leaves`): a session that a request has opened is
registered by then or is torn down next, unless the request is a DESCRIBE request that the realm of
its location challenges.
-/

set_option autoImplicit false

namespace WisCam.Server

open Foundations Message Connection Auth Program List

variable {env : Env} {s s' : State} {R : State → State → Prop} {P : Fault → Prop}

/-! ### Live sessions -/

theorem liveOpen_moves (c : ℕ) (msg : Pmsg) (loc : ℕ) (location : RtspLocation) :
    Ensures (Move env) (May P) (liveOpen c msg loc location) s (OpensSession s c msg loc) :=
  (@liveOpen_ensures env s P c msg loc location).whole (.opened c msg loc location)

theorem liveTeardown_passive (sess : ℕ) (ep : Option ℕ) :
    Makes (Passive env) (May P) (liveTeardown sess ep) s :=
  (@liveTeardown_makes env s P sess ep).whole (.tornDown sess ep)

theorem dropConn_passive (c : ℕ) : Makes (Passive env) (May P) (dropConn c) s :=
  (@dropConn_makes env s P c).whole (.dropped c)

/-! ### RTSP requests -/

/-- The strings of a request are those of its message. -/
def Req.Wf (req : Req) : Prop :=
  ∃ method uri, req.msg.sl = .req method uri ∧ req.method = req.msg.text method ∧
    req.uri = req.msg.text uri

/-- The arrays of `handle_DESCRIBE` and `handle_SETUP` are large enough for a URI: its path, without
one slash at the end, has room in `path`, and the URI followed by a slash has room in `hdr`. -/
def UriFits (uri : Bytes) : Prop :=
  ∀ path ∈ getLocalPath uri, trimSlash path path.length < 256 ∧ uri.length + 1 < 512

instance (uri : Bytes) : Decidable (UriFits uri) :=
  inferInstanceAs (Decidable (∀ path ∈ getLocalPath uri, _))

theorem splitTrack_le (path : Bytes) :
    (splitTrack path).2 = path.length ∨ (splitTrack path).2 < path.length := by
  unfold splitTrack
  split
  · rename_i c hc
    split
    · dsimp only
      split
      · exact .inr (lt_length_of_strrchr hc)
      · exact .inl rfl
    · exact .inl rfl
  · exact .inl rfl

/-- The path that is copied is not longer than the whole path without one slash at the end: without
its track a path is shorter by at least one byte. -/
theorem trimSlash_splitTrack_le (path : Bytes) :
    trimSlash path (splitTrack path).2 ≤ trimSlash path path.length := by
  rcases splitTrack_le path with hsame | hless
  · rw [hsame]
  · have hcut : trimSlash path (splitTrack path).2 ≤ (splitTrack path).2 := by
      unfold trimSlash
      split <;> omega
    have hslash : path.length - 1 ≤ trimSlash path path.length := by
      unfold trimSlash
      split <;> omega
    omega

theorem UriFits.of_locationPath {uri path : Bytes} {wantTrack : Bool} {len : ℕ} {track : ℤ}
    (hfits : UriFits uri) (hpath : locationPath uri wantTrack = some (path, len, track)) :
    len < 256 ∧ uri.length + 1 < 512 := by
  obtain ⟨path', hlocal, hparts⟩ := Option.map_eq_some_iff.mp hpath
  obtain ⟨hwhole, huri⟩ := hfits path' hlocal
  refine ⟨?_, huri⟩
  cases wantTrack with
  | false =>
    rw [← (Prod.mk.inj (Prod.mk.inj hparts).2).1]
    exact hwhole
  | true =>
    rw [← (Prod.mk.inj (Prod.mk.inj hparts).2).1]
    exact (trimSlash_splitTrack_le path').trans_lt hwhole

theorem findRtspLocation_bind {β : Type} {Q : β → State → Prop} {uri : Bytes} {base : Option ℕ}
    {wantTrack : Bool} {f : Option (ℕ × RtspLocation) × ℤ → Srv β}
    (hbase : ∀ path len track, locationPath uri wantTrack = some (path, len, track) →
      base.any (· ≤ len) = true → P .overflow)
    (hnext : ∀ found track, (∀ loc location, found = some (loc, location) →
        s.rtspLocs[loc]? = some location ∧ ∃ path len,
          locationPath uri wantTrack = some (path, len, track) ∧
          nodeFindLocation (s.rtspLocs.map RtspLocation.node) path len = some loc) →
      Ensures R (May P) (f (found, track)) s Q) :
    Ensures R (May P) (findRtspLocation uri base wantTrack >>= f) s Q := by
  unfold findRtspLocation
  cases hpath : locationPath uri wantTrack with
  | none => exact (hnext none (-1) nofun).of_eq rfl
  | some parts =>
    obtain ⟨path, len, track⟩ := parts
    dsimp only
    split
    · exact (ensures_fault (.inr (hbase path len track hpath ‹_›))).of_eq rfl
    · refine (hnext _ track fun loc location hfound ↦ ?_).of_eq rfl
      obtain ⟨loc', hloc, hlocation⟩ := Option.bind_eq_some_iff.mp hfound
      obtain ⟨location', hget, hpair⟩ := Option.map_eq_some_iff.mp hlocation
      obtain ⟨rfl, rfl⟩ := Prod.mk.inj hpair
      exact ⟨hget, path, len, hpath, hloc⟩

theorem digestSecret_makes : Makes (CalmEffect env) (May P) (digestSecret env) s := by
  refine ensures_get_bind ?_
  split
  · exact ensures_pure trivial
  · refine makes_bind (randomBytes_makes 8) fun random _ _ ↦ ?_
    exact ensures_modify_bind (.of_same (.secret _) rfl rfl rfl rfl fun _ ↦ id)
      (ensures_pure trivial)

variable {now loc : ℕ} {req : Req}

/-- A request that is not challenged has passed the check of the realm. -/
theorem challengeFor_ensures {location : RtspLocation} (hreq : req.Wf)
    (hloc : s.rtspLocs[loc]? = some location) :
    Ensures (CalmEffect env) (May P) (challengeFor env now req loc location) s fun challenge s' ↦
      challenge = none → location.realm ≠ [] → .verified req.conn req.msg loc ∈ s'.trace := by
  unfold challengeFor
  split
  · exact ensures_pure fun _ hrealm ↦ absurd ‹_› hrealm
  · refine ensures_get_bind ?_
    dsimp only
    split
    · obtain ⟨method, uri, hsl, hmethod, huri⟩ := hreq
      refine ensures_modify_bind (.logged ?_) (ensures_pure fun _ _ ↦ ?_)
      · refine ⟨location, method, uri, s.secret, now, hloc, hsl, ?_⟩
        rw [← hmethod, ← huri]
        assumption
      · exact mem_append_right _ (mem_singleton_self _)
    · refine makes_bind digestSecret_makes fun secret _ _ ↦ ?_
      exact makes_bind (randomBytes_makes 12) fun random _ _ ↦ ensures_pure nofun

variable {id : Option Bytes}

theorem getSession_bind {β : Type} {Q : β → State → Prop} {f : Option RtspSession → Srv β}
    (htable : TableRecorded s) (hnext : ∀ found, (∀ rs, found = some rs →
        ∃ id', id = some id' ∧ .registered rs.sess id' ∈ s.trace) →
      Ensures R (May P) (f found) s Q) : Ensures R (May P) (getSession id >>= f) s Q := by
  refine (hnext _ fun rs hrs ↦ ?_).of_eq rfl
  obtain ⟨id', hid, hfound⟩ := Option.bind_eq_some_iff.mp hrs
  obtain ⟨node, hnode, rfl⟩ := Option.map_eq_some_iff.mp hfound
  obtain ⟨hget, hsame⟩ := NodeTable.get?_of_find? hnode
  exact ⟨id', hid, beq_iff_eq.mp hsame ▸ htable _ _ hget⟩

/-- The two channels of a pair are different ones. -/
theorem ne_of_mem_channelPairs {t : Bytes} {pair : Channel × Channel}
    (hpair : pair ∈ channelPairs t) : pair.1 ≠ pair.2 := by
  unfold channelPairs at hpair
  dsimp only at hpair
  split at hpair
  · split_ifs at hpair
    · exact absurd hpair not_mem_nil
    · rw [mem_singleton.mp hpair]
      intro hsame
      have := congrArg Fin.val hsame
      dsimp only at this
      omega
    · exact absurd hpair not_mem_nil
    · exact absurd hpair not_mem_nil
  · have hall : ∀ pair ∈ [((0 : Channel), (1 : Channel)), (2, 3), (4, 5), (6, 7)],
        pair.1 ≠ pair.2 := by
      decide
    exact hall pair hpair

/-- The channel table that a connection has or gets. -/
theorem of_channelTable {conn : Conn} {table : ChannelTable}
    (htable : channelTable conn = .ok table) :
    conn.protoState = .null ∧ table = (fun _ ↦ none) ∨ conn.protoState = .rtsp table := by
  unfold channelTable at htable
  cases hstate : conn.protoState with
  | null =>
    rw [hstate] at htable
    exact .inl ⟨rfl, (Except.ok.inj htable).symm⟩
  | rtsp own =>
    rw [hstate] at htable
    exact .inr (congrArg _ (Except.ok.inj htable))
  | http session =>
    rw [hstate] at htable
    exact absurd htable nofun

theorem pointerFault_of_channelTable {conn : Conn} {fault : Fault}
    (herror : channelTable conn = .error fault) : CommonFault fault := by
  unfold channelTable at herror
  split at herror
  · exact absurd herror nofun
  · exact absurd herror nofun
  · rw [← Except.error.inj herror]
    exact trivial

variable {ep : ℕ}

theorem rtspInterleaveSetup_makes {c : ℕ} (t : Bytes) (hspeaks : SpeaksRtsp s c)
    (hep : Unconnected s ep) : Makes (CalmEffect env) (May P) (rtspInterleaveSetup c ep t) s := by
  refine derefConn_bind fun conn hconn ↦ ?_
  split
  · exact ensures_pure trivial
  · split
    · exact ensures_fault (.inl (pointerFault_of_channelTable ‹_›))
    · rename_i table htable
      split
      · exact ensures_pure trivial
      · rename_i rtp rtcp hfound
        have hfree := List.find?_some hfound
        rw [Bool.and_eq_true, Option.isNone_iff_eq_none, Option.isNone_iff_eq_none] at hfree
        have hne := ne_of_mem_channelPairs (List.mem_of_find?_eq_some hfound)
        obtain ⟨endpoint, hget, hunset⟩ := hep
        have hwired := @Effect.wired env s c ep conn endpoint _ rtp rtcp hconn
          (hspeaks.proto conn hconn) (of_channelTable htable) hget hunset hfree.1 hfree.2 hne
        refine ensures_modify_bind ⟨⟨hwired, .of_trans (fun c' hpresent ↦ ?_) ?_⟩, rfl, rfl⟩
          (ensures_pure trivial)
        · rw [NodeTable.isSome_get?_modify]
          exact hpresent
        · rintro c' rtp' rtcp' htrans
          rw [← (Trans.inter.inj htrans).1, hconn]
          rfl

theorem connectUdpEndpoint_makes (destPort : ℤ) (hep : Unconnected s ep) :
    Makes (CalmEffect env) (May P) (connectUdpEndpoint env ep destPort) s := by
  refine ensures_get_bind (ensures_modify_bind
    (.of_same .udpTried rfl rfl rfl rfl fun _ ↦ id) ?_)
  split
  · exact ensures_pure trivial
  · obtain ⟨endpoint, hget, hunset⟩ := hep
    exact ensures_modify_bind
      ⟨⟨.udpConnected ep endpoint _ _ hget hunset, .of_trans (fun _ ↦ id) nofun⟩, rfl, rfl⟩
      (ensures_pure trivial)

theorem rtspUdpSetup_makes (t : Bytes) (hep : Unconnected s ep) :
    Makes (CalmEffect env) (May P) (rtspUdpSetup env ep t) s := by
  unfold rtspUdpSetup
  split
  · exact ensures_pure trivial
  · split
    · dsimp only
      split
      · exact ensures_pure trivial
      · exact makes_bind (connectUdpEndpoint_makes _ hep) fun _ _ _ ↦ ensures_pure trivial
    · exact ensures_pure trivial

theorem setupTransport_makes {c : ℕ} (t : Bytes) (hspeaks : SpeaksRtsp s c)
    (hep : Unconnected s ep) : Makes (CalmEffect env) (May P) (setupTransport env c ep t) s := by
  unfold setupTransport
  split
  · exact rtspInterleaveSetup_makes t hspeaks hep
  · split
    · exact rtspUdpSetup_makes t hep
    · exact ensures_pure trivial

/-- The session that is left to tear down is there. -/
def LeftThere (decision : Decision) (s : State) : Prop :=
  ∀ sess ep, decision.2 = some (sess, ep) → (s.ownership.owner sess).isSome

variable {sess : ℕ}

theorem leftThere_of_eq {answer : Answer} {ep : Option ℕ}
    (hthere : (s.ownership.owner sess).isSome) : LeftThere (answer, some (sess, ep)) s := by
  intro sess' ep' hleft
  rwa [← (Prod.mk.inj (Option.some.inj hleft)).1]

theorem leftThere_none {answer : Answer} : LeftThere (answer, none) s :=
  fun _ _ hleft ↦ absurd hleft (Option.some_ne_none _).symm

/-- A session that no RTSP session controls was there before, or it is left to tear down, with all
its endpoints. -/
def Settles (s : State) (decision : Decision) (s' : State) : Prop :=
  ∀ sess, Unregistered s' sess → Unregistered s sess ∨ ∃ ep, decision.2 = some (sess, ep) ∧
    ∀ t e, s'.ownership.Holds sess t e → ep = none ∨ ep = some e

variable {decision : Decision}

theorem settles_of_ownership (hsame : s'.ownership = s.ownership) : Settles s decision s' := by
  intro sess hunregistered
  rw [Unregistered, hsame] at hunregistered
  exact .inl hunregistered

theorem Settles.of_ownership {s₁ : State} (hsettles : Settles s₁ decision s')
    (hsame : s₁.ownership = s.ownership) : Settles s decision s' := by
  intro sess hnone
  refine (hsettles sess hnone).imp_left fun hbefore ↦ ?_
  rwa [Unregistered, hsame] at hbefore

/-- What the handler of DESCRIBE leaves behind. A request that is challenged has opened a session
that is neither registered nor torn down. -/
structure Describes (s : State) (decision : Decision) (s' : State) : Prop where
  there : LeftThere decision s'
  challenged : decision.1.challenges = true → decision.2 = none ∧ ∃ sess, Unregistered s' sess
  settles : decision.1.challenges = false → Settles s decision s'

theorem Describes.of_settles (hthere : LeftThere decision s') (hno : decision.1.challenges = false)
    (hsettles : Settles s decision s') : Describes s decision s' :=
  ⟨hthere, fun hyes ↦ absurd (hno.symm.trans hyes) Bool.false_ne_true, fun _ ↦ hsettles⟩

theorem answerDescribe_ensures (hreq : req.Wf) (hfits : ¬ UriFits req.uri → P .overflow) :
    Ensures (Move env) (May P) (answerDescribe env now req) s (Describes s) := by
  have hhdr {path : Bytes} {len : ℕ} {track : ℤ} {wantTrack : Bool}
      (hpath : locationPath req.uri wantTrack = some (path, len, track))
      (hlarge : ¬ (len < 256 ∧ req.uri.length + 1 < 512)) : P .overflow :=
    hfits fun h ↦ hlarge (h.of_locationPath hpath)
  refine findRtspLocation_bind (fun path len track hpath hover ↦ hhdr hpath fun h ↦ ?_)
    fun found track hfound ↦ ?_
  · exact absurd h.1 (Nat.not_lt.mpr (of_decide_eq_true hover))
  dsimp only
  split
  · exact ensures_pure (.of_settles leftThere_none rfl (settles_of_ownership rfl))
  · rename_i loc location
    obtain ⟨-, path, len, hpath, -⟩ := hfound loc location rfl
    refine ensures_bind (liveOpen_moves req.conn req.msg loc location)
      fun opened s₁ hmoves hopened ↦ ?_
    split
    · obtain rfl : s₁ = s := hopened
      exact ensures_pure (.of_settles leftThere_none rfl (settles_of_ownership rfl))
    · rename_i sess
      obtain ⟨-, -, hadded⟩ := hopened
      have hloc : s₁.rtspLocs[loc]? = some location := by
        rw [rtspLocs_of_effects (effects_of_moves hmoves)]
        exact (hfound loc location rfl).1
      refine ensures_bind (moves_of_calm (challengeFor_ensures hreq hloc))
        fun challenge s₂ _ hchecked ↦ ?_
      -- The only session that the request has added is the one it opened.
      have hunregistered (sess' : ℕ) :
          Unregistered s₂ sess' ↔ sess' = sess ∨ Unregistered s sess' := by
        rw [unregistered_iff, hchecked.1, hadded]
        exact Ownership.unhandled_addOwner
      have hsettles (answer : Answer) : Settles s (answer, some (sess, none)) s₂ := by
        intro sess' hnone
        rcases (hunregistered sess').mp hnone with rfl | hbefore
        · exact .inr ⟨none, rfl, fun _ _ _ ↦ .inl rfl⟩
        · exact .inl hbefore
      split
      · exact ensures_pure ⟨leftThere_none, fun _ ↦ ⟨rfl, sess,
          (hunregistered sess).mpr (.inl rfl)⟩, fun hno ↦ absurd hno.symm Bool.false_ne_true⟩
      · refine ensures_get_bind (derefSession_bind fun session hsession ↦ ?_)
        have hthere : (s₂.ownership.owner sess).isSome := by simp [State.ownership, hsession]
        refine derefSource_bind fun source _ ↦ ?_
        split
        · split
          · rename_i hlong
            rw [length_append] at hlong
            exact ensures_fault (.inr (hhdr hpath fun h ↦ absurd h.2 (Nat.not_lt.mpr hlong)))
          · exact ensures_pure (.of_settles (leftThere_of_eq hthere) rfl (hsettles _))
        · exact ensures_pure (.of_settles (leftThere_of_eq hthere) rfl (hsettles _))

/-- The session that a SETUP request works on: one that it has opened, without endpoints, or the one
that its Session header names. -/
structure Chosen (s : State) (req : Req) (loc : ℕ) (id : Option Bytes) (sess : ℕ) (own : Option Bytes)
    (s' : State) : Prop where
  unregistered : ∀ sess', Unregistered s' sess' → Unregistered s sess' ∨ own = none ∧ sess' = sess
  fresh : own = none → .opened req.conn req.msg loc sess ∈ s'.trace ∧ Unregistered s' sess ∧
    ∀ t e, ¬ s'.ownership.Holds sess t e
  opened : id = none → .opened req.conn req.msg loc sess ∈ s'.trace
  registered : ∀ id', id = some id' → .registered sess id' ∈ s'.trace

theorem setupSession_ensures {location : RtspLocation} (htable : TableRecorded s) :
    Ensures (Move env) (May P) (setupSession req loc location id) s fun chosen s' ↦
      (chosen = none → s' = s) ∧ ∀ sess own, chosen = some (sess, own) →
        Chosen s req loc id sess own s' := by
  cases id with
  | none =>
    refine ensures_bind (liveOpen_moves req.conn req.msg loc location) fun opened s' _ hopened ↦ ?_
    refine ensures_pure ⟨fun hnone ↦ ?_, fun sess own hchosen ↦ ?_⟩
    · rw [Option.map_eq_none_iff.mp hnone] at hopened
      exact hopened
    · obtain ⟨sess', rfl, hpair⟩ := Option.map_eq_some_iff.mp hchosen
      obtain ⟨rfl, rfl⟩ := Prod.mk.inj hpair
      obtain ⟨hrecorded, hfresh, hadded⟩ := hopened
      have hunregistered (sess : ℕ) :
          Unregistered s' sess ↔ sess = sess' ∨ Unregistered s sess := by
        rw [unregistered_iff, hadded]
        exact Ownership.unhandled_addOwner
      refine ⟨fun sess hnone ↦ ?_, fun _ ↦ ⟨hrecorded, ?_, ?_⟩, fun _ ↦ hrecorded, nofun⟩
      · exact ((hunregistered sess).mp hnone).symm.imp_right fun hsame ↦ ⟨rfl, hsame⟩
      · exact (hunregistered sess').mpr (.inl rfl)
      · rintro t e hholds
        rw [hadded, Ownership.holds_addOwner hfresh] at hholds
        obtain ⟨own, hown, -⟩ := hholds
        exact absurd (hfresh.symm.trans hown) nofun
  | some id =>
    refine getSession_bind htable fun found hfound ↦ ?_
    refine ensures_pure ⟨fun _ ↦ rfl, fun sess own hchosen ↦ ?_⟩
    obtain ⟨rs, hrs, hpair⟩ := Option.map_eq_some_iff.mp hchosen
    obtain ⟨id', hid', hregistered⟩ := hfound rs hrs
    obtain ⟨rfl, rfl⟩ := Prod.mk.inj hpair
    refine ⟨fun _ ↦ .inl, nofun, nofun, fun id'' hid'' ↦ ?_⟩
    rw [← Option.some.inj (hid'.symm.trans hid'')]
    exact hregistered

theorem liveSetup_moves {session : Session} {t : Track}
    (hallowed : ∃ c msg loc, SetupAllowed s.rtspLocs s.trace c msg loc sess)
    (hsession : s.sessions.get? sess = some session) (hfree : session.ep t = none) :
    Ensures (Move env) (May P) (liveSetup env sess t) s (PlacesEndpoint s sess t) := by
  refine (liveSetup_ensures t hallowed).whole (.setUp t hallowed fun own hown ↦ ?_)
  obtain ⟨session', hsession', rfl⟩ := Option.map_eq_some_iff.mp hown
  obtain rfl := Option.some.inj (hsession.symm.trans hsession')
  exact hfree

theorem newRtspSession_moves {c : ℕ} {msg : Pmsg} (hopened : .opened c msg loc sess ∈ s.trace)
    (hunregistered : Unregistered s sess) (hfilled : s.ownership.Filled sess) :
    Ensures (Move env) (May P) (newRtspSession env sess) s fun _ s' ↦
      ∀ sess', Unregistered s' sess' ↔ sess' ≠ sess ∧ Unregistered s sess' := by
  have hmakes := (@newRtspSession_makes env s P c msg loc sess hopened).whole
    (Move.registered hopened hunregistered hfilled)
  refine ⟨hmakes.steps, fun _ _ sess' ↦ ?_, hmakes.faults⟩
  obtain ⟨own, hown, -⟩ := hunregistered
  obtain ⟨session, hsession, -⟩ := Option.map_eq_some_iff.mp hown
  rw [unregistered_iff, ownership_newRtspSession hsession]
  exact Ownership.unhandled_register

/-- What the handler of SETUP leaves behind. -/
structure SetsUp (s : State) (decision : Decision) (s' : State) : Prop where
  there : LeftThere decision s'
  settles : Settles s decision s'

theorem answerTrack_ensures {s₀ : State} {own : Option Bytes} (track : Track) (t : Bytes)
    (hspeaks : SpeaksRtsp s req.conn)
    (hallowed : SetupAllowed s.rtspLocs s.trace req.conn req.msg loc sess)
    (hchosen : Chosen s₀ req loc id sess own s) :
    Ensures (Move env) (May P) (answerTrack env req loc track t sess own) s (SetsUp s₀) := by
  refine derefSession_bind fun session hsession ↦ ?_
  have hholds (t' : Track) (e : ℕ) : s.ownership.Holds sess t' e ↔ session.ep t' = some e := by
    simp [Ownership.Holds, State.ownership, hsession, Session.owner]
  split
  · rename_i hused
    refine ensures_pure ⟨leftThere_none, fun sess' hnone ↦ ?_⟩
    rcases hchosen.unregistered sess' hnone with hbefore | ⟨hown, rfl⟩
    · exact .inl hbefore
    · -- A session that was just opened has no endpoint.
      obtain ⟨e, hep⟩ := Option.isSome_iff_exists.mp hused
      exact absurd ((hholds track e).mpr hep) ((hchosen.fresh hown).2.2 track e)
  · rename_i hfree
    refine ensures_bind (liveSetup_moves ⟨_, _, loc, hallowed⟩ hsession
      (Option.not_isSome_iff_eq_none.mp hfree)) fun created s₁ hmoves hplaces ↦ ?_
    have heffects := effects_of_moves hmoves
    obtain ⟨owner, howner, hplaces⟩ := hplaces
    split
    · obtain rfl : s₁ = s := hplaces
      refine ensures_pure ⟨?_, fun sess' hnone ↦ ?_⟩
      · split
        · exact leftThere_of_eq (by rw [howner]; rfl)
        · exact leftThere_none
      · rcases hchosen.unregistered sess' hnone with hbefore | ⟨hown, rfl⟩
        · exact .inl hbefore
        · exact .inr ⟨none, by rw [hown]; rfl, fun _ _ _ ↦ .inl rfl⟩
    · rename_i ep
      obtain ⟨hunconnected, hplaced⟩ := hplaces
      have hlogged : CalmEffect env s₁ { s₁ with
          trace := s₁.trace ++ [.endpointSet req.conn req.msg loc sess ep] } :=
        .logged (hallowed.of_effects heffects)
      refine ensures_modify_bind (.passive (.calm hlogged)) ?_
      have heffects' := heffects.tail hlogged.1.1
      have hspeaks' := speaksRtsp_of_effects heffects' hspeaks
      refine ensures_bind (moves_of_calm (setupTransport_makes t hspeaks' hunconnected))
        fun transport s₂ hmoves' hcalm ↦ ?_
      -- Choosing the transport leaves the session as it is.
      have hsame : s₂.ownership = s.ownership.place sess owner track ep := hcalm.1.trans hplaced
      have hunregistered (sess' : ℕ) : Unregistered s₂ sess' ↔ Unregistered s sess' := by
        rw [unregistered_iff, hsame]
        exact Ownership.unhandled_place howner
      have hpart : owner.part track = none := by
        refine Option.eq_none_iff_forall_ne_some.mpr fun e hpart ↦ hfree ?_
        rw [(hholds track e).mp ((Ownership.holds_iff howner).mpr hpart)]
        rfl
      have hplace (t' : Track) (e : ℕ) : s₂.ownership.Holds sess t' e ↔
          sess = sess ∧ t' = track ∧ e = ep ∨ s.ownership.Holds sess t' e := by
        rw [hsame]
        exact Ownership.holds_place howner hpart
      split
      · refine ensures_pure ⟨leftThere_of_eq ?_, fun sess' hnone ↦ ?_⟩
        · simp [hsame, Ownership.place]
        · rcases hchosen.unregistered sess' ((hunregistered sess').mp hnone) with
            hbefore | ⟨hown, rfl⟩
          · exact .inl hbefore
          · refine .inr ⟨some ep, rfl, fun t' e hheld ↦ ?_⟩
            rcases (hplace t' e).mp hheld with ⟨-, -, rfl⟩ | hold
            · exact .inr rfl
            · exact absurd hold ((hchosen.fresh hown).2.2 t' e)
      · dsimp only
        split
        · refine (ensures_pure ⟨leftThere_none, fun sess' hnone ↦ ?_⟩).of_eq rfl
          rcases hchosen.unregistered sess' ((hunregistered sess').mp hnone) with
            hbefore | ⟨hown, -⟩
          · exact .inl hbefore
          · exact absurd hown (Option.some_ne_none _)
        · obtain ⟨hrecorded, hfresh, -⟩ := hchosen.fresh rfl
          have hopened := mem_trace_of_effects (heffects'.trans (effects_of_moves hmoves')) hrecorded
          refine ensures_bind (newRtspSession_moves hopened ((hunregistered sess).mpr hfresh)
            ⟨track, ep, (hplace track ep).mpr (.inl ⟨rfl, rfl, rfl⟩)⟩) fun _ s₃ _ hregistered ↦ ?_
          refine ensures_pure ⟨leftThere_none, fun sess' hnone ↦ ?_⟩
          obtain ⟨hother, hbefore⟩ := (hregistered sess').mp hnone
          rcases hchosen.unregistered sess' ((hunregistered sess').mp hbefore) with
            hbefore | ⟨-, hsame⟩
          · exact .inl hbefore
          · exact absurd hsame hother

theorem answerSetup_ensures (hreq : req.Wf) (hspeaks : SpeaksRtsp s req.conn)
    (htable : TableRecorded s) (hfits : ¬ UriFits req.uri → P .overflow) :
    Ensures (Move env) (May P) (answerSetup env now req) s (SetsUp s) := by
  refine findRtspLocation_bind (fun path len track hpath hover ↦ hfits fun h ↦ ?_)
    fun found track hfound ↦ ?_
  · exact absurd (h.of_locationPath hpath).1 (Nat.not_lt.mpr (of_decide_eq_true hover))
  dsimp only
  split
  · exact ensures_pure ⟨leftThere_none, settles_of_ownership rfl⟩
  · rename_i loc location
    obtain ⟨hloc, path, len, hpath, hfind⟩ := hfound loc location rfl
    split
    · refine ensures_bind (moves_of_calm (challengeFor_ensures hreq hloc))
        fun challenge s₁ hmoves hchecked ↦ ?_
      obtain ⟨hsame, hverified⟩ := hchecked
      have heffects := effects_of_moves hmoves
      split
      · exact ensures_pure ⟨leftThere_none, settles_of_ownership hsame⟩
      · split
        · exact ensures_pure ⟨leftThere_none, settles_of_ownership hsame⟩
        · rename_i t _
          refine ensures_bind (setupSession_ensures (tableRecorded_of_effects heffects htable))
            fun chosen s₂ hmoves' hsetup ↦ ?_
          obtain ⟨hnothing, hchosen⟩ := hsetup
          have heffects' := effects_of_moves hmoves'
          split
          · rw [hnothing rfl]
            exact ensures_pure ⟨leftThere_none, settles_of_ownership hsame⟩
          · rename_i sess own
            have hall := heffects.trans heffects'
            specialize hchosen sess own rfl
            refine (answerTrack_ensures _ t (speaksRtsp_of_effects hall hspeaks) ?_ hchosen).imp
              fun decision s' _ hset ↦ ⟨hset.there, hset.settles.of_ownership hsame⟩
            rw [rtspLocs_of_effects hall]
            refine ⟨?_, fun location' hlocation' hrealm ↦ ?_, hchosen.opened, hchosen.registered⟩
            · obtain ⟨method, uri, hsl, -, huri⟩ := hreq
              exact ⟨method, uri, path, len, track, hsl, huri ▸ hpath, hfind⟩
            · obtain rfl := Option.some.inj (hloc.symm.trans hlocation')
              exact mem_trace_of_effects heffects' (hverified rfl hrealm)
    · exact ensures_pure ⟨leftThere_none, settles_of_ownership rfl⟩

theorem livePlay_moves (sess : ℕ) :
    Ensures (Move env) (May P) (livePlay sess) s fun _ s' ↦ s'.ownership = s.ownership :=
  ((@livePlay_makes env s P sess).imp fun _ _ hquiet _ ↦ ownership_of_quiet hquiet).whole
    (.played sess)

theorem answerPlay_ensures (htable : TableRecorded s) :
    Ensures (Move env) (May P) (answerPlay req) s (SetsUp s) := by
  refine getSession_bind htable fun found _ ↦ ?_
  split
  · exact ensures_pure ⟨leftThere_none, settles_of_ownership rfl⟩
  · exact ensures_bind (livePlay_moves _) fun _ _ _ hsame ↦
      ensures_pure ⟨leftThere_none, settles_of_ownership hsame⟩

theorem answerPause_ensures (htable : TableRecorded s) :
    Ensures (Move env) (May P) (answerPause req) s (SetsUp s) :=
  getSession_bind htable fun _ _ ↦ ensures_pure ⟨leftThere_none, settles_of_ownership rfl⟩

theorem answerTeardown_ensures (hreq : req.Wf) (htable : TableRecorded s) :
    Ensures (Passive env) (May P) (answerTeardown req) s LeftThere := by
  refine findRtspLocation_bind (fun _ _ _ _ hover ↦ absurd hover nofun) fun found track hfound ↦ ?_
  dsimp only
  split
  · exact ensures_pure leftThere_none
  · rename_i loc location
    obtain ⟨-, path, len, hpath, hfind⟩ := hfound loc location rfl
    split
    · exact ensures_pure leftThere_none
    · refine getSession_bind htable fun found hrs ↦ ?_
      split
      · exact ensures_pure leftThere_none
      · rename_i rs
        obtain ⟨method, uri, hsl, -, huri⟩ := hreq
        have hjustified : TeardownAllowed s.rtspLocs s.trace req.msg loc rs.sess :=
          ⟨⟨method, uri, path, len, track, hsl, huri ▸ hpath, hfind⟩, hrs rs rfl⟩
        refine makes_bind (passive_of_calm (log_makes hjustified)) fun _ _ _ ↦ ?_
        refine derefSession_bind fun session _ ↦ ?_
        exact makes_bind (liveTeardown_passive ..) fun _ _ _ ↦ ensures_pure leftThere_none

/-- The request is a DESCRIBE request that is answered with the challenge of a realm. -/
def DescribeChallenged (req : Req) (decision : Decision) : Prop :=
  sameNoCase req.method (ascii "DESCRIBE") = true ∧ decision.1.challenges = true

/-- What a handler leaves behind that has come to an answer. -/
structure Leaves (env : Env) (req : Req) (s : State) (decision : Decision) (s' : State) : Prop where
  there : LeftThere decision s'
  challenged : DescribeChallenged req decision → decision.2 = none ∧ ∃ sess, Unregistered s' sess
  settles : ¬ DescribeChallenged req decision →
    Settles s decision s' ∨ Relation.ReflTransGen (Passive env) s s'

theorem SetsUp.leaves (hsets : SetsUp s decision s')
    (hother : ¬ sameNoCase req.method (ascii "DESCRIBE") = true) : Leaves env req s decision s' :=
  ⟨hsets.there, fun hchallenged ↦ absurd hchallenged.1 hother, fun _ ↦ .inl hsets.settles⟩

theorem answerTo_ensures {now : ℕ} {req : Req} (hreq : req.Wf) (hspeaks : SpeaksRtsp s req.conn)
    (htable : TableRecorded s) :
    Ensures (Move env) (May AnyFault) (answerTo env now req) s (Leaves env req s) := by
  unfold answerTo
  split_ifs with hoptions hdescribe
  · exact ensures_pure ⟨leftThere_none, fun hchallenged ↦ absurd hchallenged.2 nofun,
      fun _ ↦ .inl (settles_of_ownership rfl)⟩
  · refine (answerDescribe_ensures hreq fun _ ↦ trivial).imp fun decision s' _ hdescribes ↦ ?_
    refine ⟨hdescribes.there, fun hchallenged ↦ hdescribes.challenged hchallenged.2, fun hnot ↦ ?_⟩
    refine .inl (hdescribes.settles (Bool.eq_false_iff.mpr fun hchallenges ↦ ?_))
    exact hnot ⟨hdescribe, hchallenges⟩
  · exact (answerSetup_ensures hreq hspeaks htable fun _ ↦ trivial).imp
      fun _ _ _ hsets ↦ hsets.leaves hdescribe
  · exact (answerPlay_ensures htable).imp fun _ _ _ hsets ↦ hsets.leaves hdescribe
  · exact (answerPause_ensures htable).imp fun _ _ _ hsets ↦ hsets.leaves hdescribe
  · refine moves_of_passive ((answerTeardown_ensures hreq htable).imp
      fun decision s' hpassive hthere ↦ ⟨hthere, fun hchallenged ↦ ?_, fun _ ↦ .inr hpassive⟩)
    exact absurd hchallenged.1 hdescribe
  · exact ensures_pure ⟨leftThere_none, fun hchallenged ↦ absurd hchallenged.2 nofun,
      fun _ ↦ .inl (settles_of_ownership rfl)⟩

theorem sendAnswer_makes (req : Req) (answer : Answer) :
    Makes Sends (May P) (sendAnswer req answer) s := by
  refine makes_bind (tcpSendPmsg_makes ..) fun sent _ _ ↦ ?_
  split
  · exact sendIf_makes ..
  · exact ensures_pure trivial

/-- Delivering an answer is a sequence of sends and at most one teardown. -/
theorem deliver_makes (req : Req) (decision : Decision) :
    Makes (Passive env) (May P) (deliver req decision) s := by
  refine makes_bind (passive_of_sends (sendAnswer_makes ..)) fun _ _ _ ↦ ?_
  split
  · exact liveTeardown_passive ..
  · exact ensures_pure trivial

theorem handleDescribe_makes (hreq : req.Wf) (hfits : ¬ UriFits req.uri → P .overflow) :
    Makes (Move env) (May P) (handleDescribe env now req) s := by
  rw [handleDescribe_eq]
  exact makes_bind (answerDescribe_ensures hreq hfits).makes
    fun _ _ _ ↦ moves_of_passive (deliver_makes ..)

theorem handleSetup_makes (hreq : req.Wf) (hspeaks : SpeaksRtsp s req.conn)
    (htable : TableRecorded s) (hfits : ¬ UriFits req.uri → P .overflow) :
    Makes (Move env) (May P) (handleSetup env now req) s := by
  rw [handleSetup_eq]
  exact makes_bind (answerSetup_ensures hreq hspeaks htable hfits).makes
    fun _ _ _ ↦ moves_of_passive (deliver_makes ..)

theorem rtspHandleMsg_makes (hreq : req.Wf) (hspeaks : SpeaksRtsp s req.conn)
    (htable : TableRecorded s) : Makes (Move env) (May AnyFault) (rtspHandleMsg env now req) s := by
  rw [rtspHandleMsg_eq]
  exact makes_bind (answerTo_ensures hreq hspeaks htable).makes
    fun _ _ _ ↦ moves_of_passive (deliver_makes ..)

theorem interleaveRecv_makes (c : ℕ) (chan : UInt8) (payload : Bytes) :
    Makes (Passive env) (May P) (interleaveRecv c chan payload) s := by
  refine derefConn_bind fun conn _ ↦ ?_
  split
  · split
    · exact ensures_fault (.inl trivial)
    · exact ensures_fault (.inl trivial)
    · split
      · exact ensures_pure trivial
      · split
        · refine derefEndpoint_bind fun endpoint hep ↦ ?_
          refine ensures_modify_bind (.calm (.logged ?_)) (ensures_pure trivial)
          exact ⟨endpoint, hep⟩
        · exact ensures_pure trivial
  · exact ensures_pure trivial

/-! ### HTTP requests -/

theorem sends_ensures {α : Type} {m : Srv α} (hm : Makes Sends (May P) m s) :
    Ensures (Passive env) (May P) m s fun _ s' ↦ Relation.ReflTransGen Sends s s' :=
  ⟨(passive_of_sends hm).steps, fun _ _ ↦ hm.steps, hm.faults⟩

/-- The connection at an address, if it is there, speaks HTTP. -/
def SpeaksHttp (s : State) (c : ℕ) : Prop :=
  ∀ conn, s.conns.get? c = some conn → conn.reader.proto = .http

theorem speaksHttp_of_sends {c : ℕ} (hsends : Relation.ReflTransGen Sends s s')
    (hspeaks : SpeaksHttp s c) : SpeaksHttp s' c := by
  intro conn' hget
  obtain ⟨conn, hconn, hreader⟩ := reader_of_sends hsends hget
  rw [hreader]
  exact hspeaks conn hconn

theorem sendImage_makes (loc : ℕ) (location : HttpLocation) (frame : Bytes)
    (hspeaks : SpeaksHttp s req.conn) :
    Makes (Passive env) (May P) (sendImage req loc location frame) s := by
  unfold sendImage
  dsimp only
  split
  · refine ensures_bind (sends_ensures (tcpSendPmsg_makes ..)) fun _ s' _ hsends ↦ ?_
    have hadded := @Effect.streamAdded env s' loc req.conn (speaksHttp_of_sends hsends hspeaks)
    refine ensures_modify_bind (.calm (.of_same hadded rfl rfl rfl rfl fun c hpresent ↦ ?_)) ?_
    · rw [NodeTable.isSome_get?_modify]
      exact hpresent
    exact passive_of_sends (sendMultipartFrame_makes ..)
  · refine makes_bind (passive_of_sends (setDropAfter_makes _)) fun _ _ _ ↦ ?_
    refine makes_bind (passive_of_sends (tcpSendPmsg_makes ..)) fun _ _ _ ↦ ?_
    split
    · exact passive_of_sends (sendFrameWithJfif_makes ..)
    · exact ensures_pure trivial

theorem findHttpLocation_bind {β : Type} {Q : β → State → Prop} {path : Bytes}
    {f : Option (ℕ × HttpLocation) → Srv β} (hnext : ∀ found, Ensures R (May P) (f found) s Q) :
    Ensures R (May P) (findHttpLocation path >>= f) s Q :=
  (hnext _).of_eq rfl

theorem httpHandleMsg_makes (hspeaks : SpeaksHttp s req.conn) :
    Makes (Passive env) (May P) (httpHandleMsg req) s := by
  unfold httpHandleMsg
  split
  · refine findHttpLocation_bind fun found ↦ ?_
    split
    · exact passive_of_sends (httpSendError_makes ..)
    · refine derefConn_bind fun conn _ ↦ ?_
      split
      · exact passive_of_sends (httpSendError_makes ..)
      · exact sendImage_makes _ _ _ hspeaks
  · exact passive_of_sends (httpSendError_makes ..)

theorem jpegNextFrame_makes (loc : ℕ) (frame : Bytes) :
    Makes (Passive env) (May P) (jpegNextFrame loc frame) s := by
  unfold jpegNextFrame
  split
  · refine ensures_modify_bind (.calm (.of_same (.httpLocation loc _) rfl rfl rfl rfl fun _ ↦ id))
      (ensures_get_bind ?_)
    split
    · exact ensures_pure trivial
    · exact ensures_forM fun node _ _ _ ↦ passive_of_sends (sendMultipartFrame_makes ..)
  · exact ensures_pure trivial

/-! ### Connections -/

variable {buf : Bytes}

theorem tunnelGet_makes {cookie : Bytes} (hhanded : .handed req.conn buf req.msg ∈ s.trace)
    (htunnel : TunnelRequest req.msg (ascii "GET") (ascii "Accept"))
    (hcookie : sessionCookie req.msg = some cookie) :
    Makes (Passive env) (May P) (tunnelGet req.conn cookie) s := by
  have hget := @Effect.tunnelGet env s req.conn buf req.msg cookie hhanded htunnel hcookie
  refine ensures_modify_bind (.calm (.of_same hget rfl rfl rfl rfl fun c hpresent ↦ ?_)) ?_
  · rw [NodeTable.isSome_get?_modify]
    exact hpresent
  · refine makes_bind (passive_of_sends (sendTo_makes ..)) fun _ _ _ ↦ ?_
    exact ensures_modify (.calm (.conn ⟨fun _ ↦ id, fun _ ↦ rfl, fun _ ↦ rfl,
      fun _ _ ↦ .inr (.inl rfl)⟩)) trivial

theorem tunnelPost_makes {cookie : Bytes} (hhanded : .handed req.conn buf req.msg ∈ s.trace)
    (htunnel : TunnelRequest req.msg (ascii "POST") (ascii "Content-Type"))
    (hcookie : sessionCookie req.msg = some cookie) :
    Makes (Passive env) (May P) (tunnelPost req cookie) s := by
  refine ensures_get_bind ?_
  split
  · exact makes_bind (passive_of_sends (refuseTunnel_makes ..)) fun _ _ _ ↦ ensures_pure trivial
  · rename_i target cg hfind
    obtain ⟨htarget, hsame⟩ := NodeTable.get?_of_find? hfind
    refine derefConn_bind fun conn _ ↦ ?_
    have hpost := @Effect.tunnelPost env s req.conn buf req.msg cookie target cg conn.fd hhanded
      htunnel hcookie htarget (beq_iff_eq.mp hsame)
    refine ensures_modify_bind (.calm (.of_same hpost rfl rfl rfl rfl fun c hpresent ↦ ?_))
      (ensures_pure trivial)
    rw [NodeTable.isSome_get?_modify, NodeTable.isSome_get?_modify]
    exact hpresent

theorem handleQtTunnel_makes (post : Bool) (hhanded : .handed req.conn buf req.msg ∈ s.trace)
    (htunnel : if post then TunnelRequest req.msg (ascii "POST") (ascii "Content-Type")
      else TunnelRequest req.msg (ascii "GET") (ascii "Accept")) :
    Makes (Passive env) (May P) (handleQtTunnel req post) s := by
  unfold handleQtTunnel
  split
  · exact makes_bind (passive_of_sends (refuseTunnel_makes ..)) fun _ _ _ ↦ ensures_pure trivial
  · split
    · rw [if_pos ‹_›] at htunnel
      exact tunnelPost_makes hhanded htunnel ‹_›
    · rw [if_neg ‹_›] at htunnel
      exact makes_bind (tunnelGet_makes hhanded htunnel ‹_›) fun _ _ _ ↦ ensures_pure trivial

/-- Requests on a connection that does not speak RTSP open no session. -/
theorem dispatch_passive {proto : Proto} (hreq : req.Wf)
    (hhanded : .handed req.conn buf req.msg ∈ s.trace)
    (hhttp : proto = .http → SpeaksHttp s req.conn) (hother : proto ≠ .rtsp) :
    Makes (Passive env) (May P) (dispatch env now proto req) s := by
  have hmethod {name : Bytes} (hname : sameNoCase req.method name = true) :
      ∃ method uri, req.msg.sl = .req method uri ∧
        sameNoCase (req.msg.text method) name = true := by
    obtain ⟨method, uri, hsl, heq, -⟩ := hreq
    exact ⟨method, uri, hsl, heq ▸ hname⟩
  cases proto with
  | http =>
    have hmsg : Makes (Passive env) (May P) (httpHandleMsg req >>= fun _ ↦ pure true) s :=
      makes_bind (httpHandleMsg_makes (hhttp rfl)) fun _ _ _ ↦ ensures_pure trivial
    unfold dispatch tcpHandleGet tcpHandlePost
    dsimp only
    split_ifs with hget htunnel hpost htunnel
    · exact makes_bind (handleQtTunnel_makes false hhanded ⟨hmethod hget, htunnel⟩)
        fun _ _ _ ↦ ensures_pure trivial
    · exact hmsg
    · exact makes_bind (handleQtTunnel_makes true hhanded ⟨hmethod hpost, htunnel⟩)
        fun _ _ _ ↦ ensures_pure trivial
    · exact hmsg
    · exact hmsg
  | rtsp => exact absurd rfl hother
  | start =>
    refine makes_bind (makes_bind (passive_of_sends (setDropAfter_makes _)) fun _ _ _ ↦ ?_)
      fun _ _ _ ↦ ensures_pure trivial
    exact makes_bind (passive_of_sends (tcpSendPmsg_makes ..)) fun _ _ _ ↦ ensures_pure trivial

end WisCam.Server
