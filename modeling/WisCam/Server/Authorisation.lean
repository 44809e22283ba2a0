import WisCam.Server.History

/-!
# Authorisation of sessions

Who may act on a session? A SETUP or TEARDOWN request names a location by its URI and a session by
its Session header, and the code looks the two up independently of each other. The digest check is
that of the location, the session is found by its id alone. So the id of a session is all that is
needed to add an endpoint to it, through any location that lets the request pass.

What the code does guarantee is stated over whole runs: every endpoint comes from a SETUP request
that passed the check of the location it named, in a session that this request opened through that
location or whose id it carried.
-/

set_option autoImplicit false

namespace WisCam.Server

open Foundations Message Connection Auth

variable {env : Env} {s s' : State}

/-! ### Endpoints -/

/-- Every endpoint comes from a SETUP request that was allowed to create it. -/
def EndpointsAllowed (s : State) : Prop :=
  ∀ ep endpoint, s.endpoints.get? ep = some endpoint →
    ∃ c msg loc, SetupAllowed s.rtspLocs s.trace c msg loc endpoint.session

/-- An endpoint after an effect is a new one, or was there before and belongs to the same
session. -/
theorem Effect.endpoint_eq (heffect : Effect env s s') {ep : ℕ} {endpoint' : Endpoint}
    (hget : s'.endpoints.get? ep = some endpoint') :
    (∃ c msg loc, SetupAllowed s.rtspLocs s.trace c msg loc endpoint'.session) ∨
      ∃ endpoint, s.endpoints.get? ep = some endpoint ∧ endpoint'.session = endpoint.session := by
  have hmodify {target : ℕ} {f : Endpoint → Endpoint}
      (hget : (s.endpoints.modify target f).get? ep = some endpoint')
      (hsession : ∀ endpoint, (f endpoint).session = endpoint.session) :
      ∃ endpoint, s.endpoints.get? ep = some endpoint ∧ endpoint'.session = endpoint.session := by
    rw [NodeTable.get?_modify] at hget
    split_ifs at hget
    · obtain ⟨endpoint, hep, rfl⟩ := Option.map_eq_some_iff.mp hget
      exact ⟨endpoint, hep, hsession endpoint⟩
    · exact ⟨endpoint', hget, rfl⟩
  have herase {target : ℕ} (hget : (s.endpoints.erase target).get? ep = some endpoint') :
      s.endpoints.get? ep = some endpoint' := by
    rw [NodeTable.get?_erase] at hget
    split_ifs at hget
    exact hget
  cases heffect with
  | endpointAdded endpoint hunset hallowed =>
    rw [NodeTable.get?_push] at hget
    split_ifs at hget
    · obtain rfl := Option.some.inj hget
      exact .inl hallowed
    · exact .inr ⟨_, hget, rfl⟩
  | udpConnected => exact .inr (hmodify hget fun _ ↦ rfl)
  | wired => exact .inr (hmodify hget fun _ ↦ rfl)
  | unwired => exact .inr ⟨_, herase hget, rfl⟩
  | endpointFreed => exact .inr ⟨_, herase hget, rfl⟩
  | _ => exact .inr ⟨_, hget, rfl⟩

theorem endpointsAllowed_of_effect (heffect : Effect env s s') (hbefore : EndpointsAllowed s) :
    EndpointsAllowed s' := by
  intro ep endpoint' hget
  rcases heffect.endpoint_eq hget with ⟨c, msg, loc, hallowed⟩ | ⟨endpoint, hep, hsession⟩
  · exact ⟨c, msg, loc, hallowed.of_effects (.single heffect)⟩
  · obtain ⟨c, msg, loc, hallowed⟩ := hbefore ep endpoint hep
    rw [hsession]
    exact ⟨c, msg, loc, hallowed.of_effects (.single heffect)⟩

/-! ### Runs -/

/-- The rules for what concerns sessions: a session is opened once, through one location; only
sessions that were opened get an id; a request that counts as verified passes the check of its
location; and SETUP and TEARDOWN act on sessions as they are allowed to. -/
def SessionRule (env : Env) (locs : List RtspLocation) (earlier : List Obs) : Obs → Prop
  | .opened _ _ _ sess => ∀ c msg loc, .opened c msg loc sess ∉ earlier
  | .registered sess _ => ∃ c msg loc, .opened c msg loc sess ∈ earlier
  | .verified _ msg loc => PassesCheck env locs msg loc
  | .endpointSet c msg loc sess _ => SetupAllowed locs earlier c msg loc sess
  | .tornDown _ msg loc sess => TeardownAllowed locs earlier msg loc sess
  | _ => True

/-- In every run, SETUP and TEARDOWN requests with a Session header act on the session that was
registered under that id, SETUP requests without one on a session that they have opened through
their own location, and every endpoint of the state that the run leads to comes from a SETUP request
that passed the digest check of the location its URI resolves to, if that has a realm. -/
theorem sessions_guarded (env : Env) (config : Config) (events : List Event) :
    (∀ ep endpoint, (run env events (initial config)).2.endpoints.get? ep = some endpoint →
      ∃ c msg loc, SetupAllowed config.rtspLocs (run env events (initial config)).2.trace c msg loc
        endpoint.session) ∧
    Causal (SessionRule env config.rtspLocs) (run env events (initial config)).2.trace := by
  have hsound := sound_of_run env config events
  refine ⟨?_, causal_mono hsound.causal fun earlier obs hprecedes ↦ ?_⟩
  · rw [← hsound.locs_eq]
    refine holds_of_steps (I := EndpointsAllowed) endpointsAllowed_of_effect
      (effects_of_run env config events) ?_
    exact fun ep endpoint hget ↦ absurd hget nofun
  · cases obs with
    | opened | registered | verified | endpointSet | tornDown => exact hprecedes
    | handed | rtcp | tunnelGet | tunnelPost => trivial

/-! ### A session used through another location -/

/-- The Transport header of the sample requests. -/
def sampleTransport : Bytes := ascii "Transport: RTP/AVP/TCP;interleaved=0-1\r\n"

/-- A SETUP request for the location that asks for a password. -/
def unsignedSetup : Bytes :=
  ascii "SETUP rtsp://h/cam/track0 RTSP/1.0\r\n" ++ sampleTransport ++ ascii "\r\n"

/-- What a client that knows the password makes of the nonce in the answer. -/
def setupAuth : DigestAuthInfo :=
  let nonce := createNonce checksumMd5 (createDigestSecret [0, 1, 2, 3, 4, 5, 6, 7]) 0
    [8, 9, 10, 11, 12, 13, 14, 15, 16, 17, 18, 19]
  let auth : DigestAuthInfo :=
    ⟨ascii "cam", ascii "rtsp://h/cam/track0", nonce, [], ascii "admin", []⟩
  { auth with response := createResponse checksumMd5 auth (ascii "SETUP") (ascii "pass") }

/-- The request with an Authorization header. -/
def signedSetup : Bytes :=
  ascii "SETUP rtsp://h/cam/track0 RTSP/1.0\r\n" ++ sampleTransport ++
    ascii "Authorization: Digest username=\"admin\", realm=\"cam\", nonce=\"" ++ setupAuth.nonce ++
    ascii "\", uri=\"rtsp://h/cam/track0\", response=\"" ++ setupAuth.response ++ ascii "\"\r\n\r\n"

/-- The id that the session gets. -/
def sampleSessionId : Bytes := ascii "1E1F202122232425262728292A2B2C"

/-- A SETUP request for the open location with the id of that session. -/
def crossSetup : Bytes :=
  ascii "SETUP rtsp://h/open/track1 RTSP/1.0\r\n" ++ sampleTransport ++ ascii "Session: " ++
    sampleSessionId ++ ascii "\r\n\r\n"

/-- A client sets up a track of the protected location, and another one uses its session. -/
def crossEvents : List Event :=
  [.accept 3, .read 0 false 0 unsignedSetup, .read 0 false 0 signedSetup, .accept 4,
    .read 1 false 0 crossSetup]

/-- The session 0 was opened through the protected location 1, and a SETUP request that resolves to
the open location 0 and has not passed the check of location 1 creates an endpoint in it. -/
theorem session_used_across_locations :
    (sampleRun crossEvents).1 = .ok () ∧
      (sampleConfig.rtspLocs[1]?.map (·.realm)) = some (ascii "cam") ∧
      .opened 0 (sampleMessage signedSetup) 1 0 ∈ (sampleRun crossEvents).2.trace ∧
      .endpointSet 1 (sampleMessage crossSetup) 0 0 1 ∈ (sampleRun crossEvents).2.trace ∧
      .verified 1 (sampleMessage crossSetup) 1 ∉ (sampleRun crossEvents).2.trace ∧
      ((sampleRun crossEvents).2.endpoints.get? 1).map (·.session) = some 0 := by
  decide +kernel

end WisCam.Server
