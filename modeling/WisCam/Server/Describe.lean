import WisCam.Server.Answers

/-!
# What a DESCRIBE request is answered with

`handle_DESCRIBE` opens a session of the location that it finds, checks the request against the
realm, and has the session described. `yields_answerDescribe` says what it comes to in terms of the
state before the request: it sends a challenge exactly if the location has a realm and the request
does not pass the check (`Challenged`), and a session description has a control line for every track
of the location's source (`DescribesTracks`).
-/

set_option autoImplicit false

namespace WisCam.Server

open Foundations Message Auth Program List

/-! ### Session descriptions -/

/-- The control name of a track. -/
def controlName (t : ℕ) : Bytes := ascii "track" ++ decimal t

/-- A description has a control line with this name. -/
def HasControl (sdp name : Bytes) : Prop :=
  ∃ front back, sdp = front ++ (ascii "a=control:" ++ name ++ ascii "\r\n") ++ back

theorem HasControl.append {sdp name : Bytes} (hcontrol : HasControl sdp name) (front : Bytes) :
    HasControl (front ++ sdp) name := by
  obtain ⟨first, back, rfl⟩ := hcontrol
  exact ⟨front ++ first, back, by simp only [append_assoc]⟩

variable {s s' : State} {session : Session}

/-- A session without endpoints has a control line for each of its tracks. -/
theorem hasControl_trackSdp (hfresh : ∀ t, session.ep t = none) {tracks : List LiveTrack}
    {first : ℕ} {sdp : Bytes} (hsdp : trackSdp s session first tracks = some sdp) {t : ℕ}
    (ht : t < tracks.length) : HasControl sdp (controlName (first + t)) := by
  induction tracks generalizing first sdp t with
  | nil => exact absurd ht (Nat.not_lt_zero t)
  | cons track tracks ih =>
    have hport : sdpPort s session first = 0 := by
      rw [sdpPort]
      split_ifs with hlt
      · rw [hfresh]
        rfl
      · rfl
    rw [trackSdp] at hsdp
    split_ifs at hsdp with hready
    obtain ⟨rest, hrest, hlines⟩ := Option.bind_eq_some_iff.mp hsdp
    dsimp only at hlines
    rw [hport, if_pos rfl] at hlines
    rw [← Option.some.inj hlines]
    cases t with
    | zero => exact ⟨track.media.getSdp (96 + first) 0, rest, rfl⟩
    | succ t =>
      refine HasControl.append ?_ _
      rw [Nat.add_succ, ← Nat.succ_add]
      exact ih hrest (Nat.lt_of_succ_lt_succ ht)

theorem hasControl_liveGetSdp (hfresh : ∀ t, session.ep t = none) {source : LiveSource}
    {sdp : Bytes} (hsdp : liveGetSdp s session source = some sdp) {t : ℕ}
    (ht : t < source.tracks.length) : HasControl sdp (controlName t) := by
  unfold liveGetSdp at hsdp
  split_ifs at hsdp
  obtain ⟨tracks, htracks, rfl⟩ := Option.map_eq_some_iff.mp hsdp
  have hcontrol := hasControl_trackSdp hfresh htracks ht
  rw [Nat.zero_add] at hcontrol
  exact hcontrol.append _

/-! ### The answer -/

variable {env : Env} {now : ℕ} {req : Req}

/-- The reply has a Content-Base header exactly if there is room for it behind the CSeq headers. -/
theorem getHeader_descriptionReply (huri : (0 : UInt8) ∉ req.uri) :
    getHeader (descriptionReply req) (ascii "Content-Base") =
      if (replyRoom (ascii "OK") req).Holds 12 (req.uri.length + 1) then some (req.uri ++ [47])
      else none := by
  have hreply := reads_rtspCreateReply req 200 shortReason_ok
  have hlen := (bounded_rtspCreateReply req 200 shortReason_ok).maxLen_eq
  have hadded := addHeader_added (rtspCreateReply req 200 (ascii "OK")) (ascii "Content-Base")
    (req.uri ++ [47])
  have hother := addHeader_added (addHeader (rtspCreateReply req 200 (ascii "OK"))
    (ascii "Content-Base") (req.uri ++ [47])).1 (ascii "Content-Type") (ascii "application/sdp")
  have hbase : (0 : UInt8) ∉ req.uri ++ [47] := by
    rw [mem_append, not_or]
    exact ⟨huri, by decide⟩
  have hroom := @hasRoom_iff _ (ascii "Content-Base") (req.uri ++ [47]) hlen
  rw [room_rtspCreateReply req 200 shortReason_ok, length_append, length_singleton,
    show (ascii "Content-Base").length = 12 by decide] at hroom
  rw [descriptionReply, hother.getHeader_of_ne (hadded.reads hreply) (by decide),
    hadded.getHeader_eq hreply (by decide)
      (getHeader_rtspCreateReply_of_ne req 200 shortReason_ok (by decide)), cstr_eq_self hbase]
  exact if_congr hroom rfl rfl

/-- The request finds this location, and this is its source. -/
def Finds (req : Req) (s : State) (loc : ℕ) (location : RtspLocation) (source : LiveSource) : Prop :=
  (∃ track, (findRtspLocation req.uri (some 256) false s).1 = .ok (some (loc, location), track)) ∧
    s.sources[location.source]? = some source

/-- The location has a realm and is not at its limit, and the request does not pass the check. -/
def Challenged (env : Env) (now : ℕ) (req : Req) (s : State) : Prop :=
  ∃ loc location source, Finds req s loc location source ∧ source.curConn < source.maxConnNum ∧
    location.realm ≠ [] ∧ checkDigestResponse env.md5 s.secret now req.msg req.method req.uri
      location.realm location.username location.password ≤ 0

/-- The description has a control line for each track of the source. -/
def DescribesTracks (req : Req) (s : State) (sdp : Bytes) : Prop :=
  ∃ loc location source, Finds req s loc location source ∧
    ∀ t < source.tracks.length, HasControl sdp (controlName t)

theorem findRtspLocation_state (uri : Bytes) (base : Option ℕ) (wantTrack : Bool) (s : State) :
    (findRtspLocation uri base wantTrack s).2 = s := by
  unfold findRtspLocation
  cases locationPath uri wantTrack with
  | none => rfl
  | some parts =>
    dsimp only
    split_ifs <;> rfl

theorem findRtspLocation_congr (uri : Bytes) (base : Option ℕ) (wantTrack : Bool)
    (hlocs : s'.rtspLocs = s.rtspLocs) :
    (findRtspLocation uri base wantTrack s').1 = (findRtspLocation uri base wantTrack s).1 := by
  unfold findRtspLocation
  cases locationPath uri wantTrack with
  | none => rfl
  | some parts =>
    dsimp only
    split_ifs
    · rfl
    · rw [get_bind_apply, get_bind_apply, hlocs]
      rfl

/-- A request is challenged by what the locations, the sources and the secret are. -/
theorem challenged_congr (hlocs : s'.rtspLocs = s.rtspLocs) (hsources : s'.sources = s.sources)
    (hsecret : s'.secret = s.secret) : Challenged env now req s' ↔ Challenged env now req s := by
  unfold Challenged Finds
  rw [findRtspLocation_congr req.uri (some 256) false hlocs, hsources, hsecret]

theorem Finds.unique {loc loc' : ℕ} {location location' : RtspLocation} {source source' : LiveSource}
    (hfinds : Finds req s loc location source) (hfinds' : Finds req s loc' location' source') :
    location = location' ∧ source = source' := by
  obtain ⟨⟨track, hfound⟩, hsource⟩ := hfinds
  obtain ⟨⟨track', hfound'⟩, hsource'⟩ := hfinds'
  have hsame := Except.ok.inj (hfound.symm.trans hfound')
  obtain ⟨-, rfl⟩ := Prod.mk.inj (Option.some.inj (Prod.mk.inj hsame).1)
  exact ⟨rfl, Option.some.inj (hsource.symm.trans hsource')⟩

/-- The check of a realm sends a challenge unless there is none or the request passes, and leaves
the sessions and the sources alone. -/
theorem yields_challengeFor (loc : ℕ) (location : RtspLocation) :
    Yields (challengeFor env now req loc location) s
      (fun challenge s' ↦ (challenge ≠ none ↔ location.realm ≠ [] ∧
          checkDigestResponse env.md5 s.secret now req.msg req.method req.uri
            location.realm location.username location.password ≤ 0) ∧
        s'.sessions = s.sessions ∧ s'.sources = s.sources) fun _ _ ↦ False := by
  unfold challengeFor
  split_ifs with hrealm
  · exact yields_pure ⟨iff_of_false (not_not.mpr rfl) fun h ↦ h.1 hrealm, rfl, rfl⟩
  · refine yields_get_bind ?_
    dsimp only
    split_ifs with hret
    · exact ⟨iff_of_false (not_not.mpr rfl) fun h ↦ Int.not_le.mpr hret h.2, rfl, rfl⟩
    · have hfails := Int.not_lt.mp hret
      refine yields_bind (yields_get_bind ?_)
      revert hfails
      cases s.secret with
      | some secret =>
        exact fun hfails ↦ ⟨iff_of_true (Option.some_ne_none _) ⟨hrealm, hfails⟩, rfl, rfl⟩
      | none =>
        exact fun hfails ↦ ⟨iff_of_true (Option.some_ne_none _) ⟨hrealm, hfails⟩, rfl, rfl⟩

/-- What `live_open` comes to: nothing at the limit of the source, or a new session. -/
theorem yields_liveOpen (c : ℕ) (msg : Pmsg) (loc : ℕ) (location : RtspLocation) (s : State) :
    Yields (liveOpen c msg loc location) s
      (fun opened s' ↦ ∃ source, s.sources[location.source]? = some source ∧
        (source.maxConnNum ≤ source.curConn ∧ opened = none ∨
          source.curConn < source.maxConnNum ∧ opened = some s.sessions.next ∧ s' = { s with
            sessions := s.sessions.push ⟨location.source, false, fun _ ↦ none, none⟩
            trace := s.trace ++ [.opened c msg loc s.sessions.next] }))
      fun _ _ ↦ True := by
  cases hsource : s.sources[location.source]? with
  | none =>
    have hopen : liveOpen c msg loc location s = (.error .dangling, s) := derefSource_none hsource
    rw [Yields, hopen]
    trivial
  | some source =>
    rw [Yields, liveOpen, derefSource_apply hsource]
    by_cases hlimit : source.maxConnNum ≤ source.curConn
    · rw [if_pos hlimit]
      exact ⟨source, rfl, .inl ⟨hlimit, rfl⟩⟩
    · rw [if_neg hlimit]
      exact ⟨source, rfl, .inr ⟨Nat.not_le.mp hlimit, rfl, rfl⟩⟩

/-- What `handle_DESCRIBE` comes to. -/
theorem yields_answerDescribe (env : Env) (now : ℕ) (req : Req) (s : State) :
    Yields (answerDescribe env now req) s
      (fun decision _ ↦ (decision.1.challenges = true ↔ Challenged env now req s) ∧
        ∀ sdp, decision.1 = .described sdp → DescribesTracks req s sdp)
      fun _ _ ↦ True := by
  obtain ⟨result, hfind⟩ : ∃ result, findRtspLocation req.uri (some 256) false s = (result, s) :=
    ⟨_, Prod.ext rfl (findRtspLocation_state ..)⟩
  have hrefused : ¬ (Answer.refused .notFound).challenges = true ∧
      ∀ sdp, Answer.refused .notFound = .described sdp → DescribesTracks req s sdp :=
    ⟨Bool.false_ne_true, fun _ hdescribed ↦ by cases hdescribed⟩
  unfold answerDescribe
  refine yields_bind ?_
  rw [Yields, hfind]
  cases result with
  | error fault => trivial
  | ok found =>
    obtain ⟨_ | ⟨loc, location⟩, track⟩ := found
    · refine yields_pure ⟨iff_of_false hrefused.1 ?_, hrefused.2⟩
      rintro ⟨loc, location, source, ⟨⟨track', hfound⟩, -⟩, -⟩
      cases (congrArg Prod.fst hfind).symm.trans hfound
    · refine yields_bind ((yields_liveOpen req.conn req.msg loc location s).imp ?_ id)
      rintro opened s₁ ⟨source, hsource, hopened⟩
      have hfinds : Finds req s loc location source := ⟨⟨track, congrArg Prod.fst hfind⟩, hsource⟩
      rcases hopened with ⟨hlimit, rfl⟩ | ⟨hbelow, rfl, rfl⟩
      · refine yields_pure ⟨iff_of_false hrefused.1 ?_, hrefused.2⟩
        rintro ⟨loc', location', source', hfinds', hbelow, -⟩
        obtain ⟨-, rfl⟩ := hfinds.unique hfinds'
        exact Nat.not_lt.mpr hlimit hbelow
      · refine yields_bind ((yields_challengeFor loc location).imp ?_ False.elim)
        rintro challenge s₂ ⟨hiff, hsessions, hsources⟩
        have hchallenged : Challenged env now req s ↔ challenge ≠ none := by
          refine Iff.trans ⟨?_, ?_⟩ hiff.symm
          · rintro ⟨loc', location', source', hfinds', -, hfails⟩
            obtain ⟨rfl, -⟩ := hfinds.unique hfinds'
            exact hfails
          · exact fun hfails ↦ ⟨loc, location, source, hfinds, hbelow, hfails⟩
        rw [hchallenged]
        cases challenge with
        | some challenge =>
          exact yields_pure ⟨iff_of_true rfl (Option.some_ne_none _),
            fun _ hdescribed ↦ by cases hdescribed⟩
        | none =>
          have hsession : s₂.sessions.get? s.sessions.next =
              some ⟨location.source, false, fun _ ↦ none, none⟩ := by
            rw [hsessions]
            exact (NodeTable.get?_push ..).trans (if_pos rfl)
          have hlive : s₂.sources[location.source]? = some source := by
            rw [hsources]
            exact hsource
          refine yields_get_bind ?_
          rw [Yields, derefSession_apply hsession, derefSource_apply hlive]
          cases hsdp : liveGetSdp s₂ ⟨location.source, false, fun _ ↦ none, none⟩ source with
          | none => exact ⟨iff_of_false hrefused.1 (not_not.mpr rfl), hrefused.2⟩
          | some sdp =>
            dsimp only
            split_ifs
            · trivial
            · refine ⟨iff_of_false Bool.false_ne_true (not_not.mpr rfl), ?_⟩
              rintro sdp' ⟨⟩
              exact ⟨loc, location, source, hfinds,
                fun t ht ↦ hasControl_liveGetSdp (fun _ ↦ rfl) hsdp ht⟩

/-- A DESCRIBE request is answered with a challenge exactly if it is challenged. -/
theorem challenges_iff {decision : Decision}
    (hmethod : sameNoCase req.method (ascii "DESCRIBE") = true)
    (hanswer : answerTo env now req s = (.ok decision, s')) :
    decision.1.challenges = true ↔ Challenged env now req s := by
  have hother : ¬ sameNoCase req.method (ascii "OPTIONS") = true := by
    intro hoptions
    rw [sameNoCase, beq_iff_eq] at hmethod hoptions
    exact absurd (hmethod.symm.trans hoptions) (by decide)
  have hyields := yields_answerDescribe env now req s
  rw [answerTo, if_neg hother, if_pos hmethod] at hanswer
  rw [Yields, hanswer] at hyields
  exact hyields.1

end WisCam.Server
