import WisCam.Message.StartLine
import WisCam.Server.Steps

/-!
# Histories

The history of a run is causal: what stands before an entry justifies it (`Precedes`). This holds of
every run, also of one that ends at a fault. Two invariants of the state carry it: a session that
has been opened has an address that is not used again, and a cookie that is not empty was stored by
a tunnel GET.

The first consequence is about the requests that are handed to the handlers. `handle_request` does
not look at the type of the message, so a message whose first word has a slash in it, which is
parsed as a response, is handed to them as well.
-/

set_option autoImplicit false

namespace WisCam.Server

open Foundations Message Connection Auth List

variable {env : Env} {s s' : State}

/-! ### Sessions and their addresses -/

/-- The sessions that have been opened have addresses in use. -/
def OpenedBelow (s : State) : Prop :=
  ∀ c msg loc sess, .opened c msg loc sess ∈ s.trace → sess < s.sessions.next

theorem openedBelow_of_effect (heffect : Effect env s s') (hbefore : OpenedBelow s) :
    OpenedBelow s' := by
  intro c msg loc sess hmem
  have hold (hmem : .opened c msg loc sess ∈ s.trace) : sess < s'.sessions.next :=
    Nat.lt_of_lt_of_le (hbefore c msg loc sess hmem) heffect.next_sessions_le
  cases heffect with
  | sessionOpened =>
    rcases mem_append.mp hmem with hmem | hmem
    · exact hold hmem
    · obtain ⟨-, -, -, rfl⟩ := Obs.opened.inj (mem_singleton.mp hmem)
      exact Nat.lt_succ_self _
  | logged obs hjustified =>
    rcases mem_append.mp hmem with hmem | hmem
    · exact hold hmem
    · rw [← mem_singleton.mp hmem] at hjustified
      exact hjustified.elim
  | tunnelGet | tunnelPost | registered =>
    rcases mem_append.mp hmem with hmem | hmem
    · exact hold hmem
    · exact absurd (mem_singleton.mp hmem) nofun
  | _ => exact hold hmem

/-! ### What stands before an entry -/

/-- What the history before an entry has to say for it. -/
def Precedes (env : Env) (locs : List RtspLocation) (earlier : List Obs) : Obs → Prop
  | .handed _ buf msg => parseRequest buf = .ok msg
  | .rtcp _ _ => True
  | .tunnelGet c cookie => ∃ buf msg, .handed c buf msg ∈ earlier ∧
      TunnelRequest msg (ascii "GET") (ascii "Accept") ∧ sessionCookie msg = some cookie
  | .tunnelPost c msg cookie target => (∃ buf, .handed c buf msg ∈ earlier) ∧
      TunnelRequest msg (ascii "POST") (ascii "Content-Type") ∧ sessionCookie msg = some cookie ∧
      (cookie ≠ [] → .tunnelGet target cookie ∈ earlier)
  | .verified _ msg loc => PassesCheck env locs msg loc
  | .opened _ _ _ sess => ∀ c msg loc, .opened c msg loc sess ∉ earlier
  | .registered sess _ => ∃ c msg loc, .opened c msg loc sess ∈ earlier
  | .endpointSet c msg loc sess _ => SetupAllowed locs earlier c msg loc sess
  | .tornDown _ msg loc sess => TeardownAllowed locs earlier msg loc sess

theorem precedes_of_recorded {obs : Obs} (hopened : OpenedBelow s) (hcookies : CookiesRecorded s)
    (hrecorded : Recorded env s obs) : Precedes env s.rtspLocs s.trace obs := by
  cases obs with
  | tunnelPost c msg cookie target =>
    obtain ⟨hhanded, htunnel, hcookie, cg, hcg, rfl⟩ := hrecorded
    exact ⟨hhanded, htunnel, hcookie, fun hne ↦ hcookies target cg hcg hne⟩
  | opened =>
    intro c msg loc hmem
    rw [hrecorded] at hmem
    exact Nat.lt_irrefl _ (hopened c msg loc _ hmem)
  | rtcp => trivial
  | _ => exact hrecorded

/-- The facts about a state that make its history causal. -/
structure Sound (env : Env) (locs : List RtspLocation) (s : State) : Prop where
  locs_eq : s.rtspLocs = locs
  opened : OpenedBelow s
  cookies : CookiesRecorded s
  causal : Causal (Precedes env locs) s.trace

theorem sound_of_effect {locs : List RtspLocation} (heffect : Effect env s s')
    (hbefore : Sound env locs s) : Sound env locs s' where
  locs_eq := (rtspLocs_of_effects (.single heffect)).trans hbefore.locs_eq
  opened := openedBelow_of_effect heffect hbefore.opened
  cookies := cookiesRecorded_of_effects (.single heffect) hbefore.cookies
  causal := by
    rcases heffect.trace_eq with hsame | ⟨obs, hadded, hrecorded⟩
    · rw [hsame]
      exact hbefore.causal
    · rw [hadded, ← hbefore.locs_eq]
      refine causal_append (hbefore.locs_eq ▸ hbefore.causal) ?_
      exact precedes_of_recorded hbefore.opened hbefore.cookies hrecorded

theorem sound_of_run (env : Env) (config : Config) (events : List Event) :
    Sound env config.rtspLocs (run env events (initial config)).2 := by
  refine holds_of_steps (I := Sound env config.rtspLocs) sound_of_effect
    (effects_of_run env config events) ⟨rfl, ?_, ?_, causal_nil⟩
  · exact fun _ _ _ _ hmem ↦ absurd hmem not_mem_nil
  · exact fun c conn hget ↦ absurd hget nofun

/-! ### Requests and responses -/

theorem parseRequest_eq_ok {buf : Bytes} {msg : Pmsg} (hparse : parseRequest buf = .ok msg) :
    ∃ ret, parsePmsg buf = .ok (msg, ret) := by
  unfold parseRequest at hparse
  split_ifs at hparse
  cases hpmsg : parsePmsg buf with
  | error stop =>
    rw [hpmsg] at hparse
    exact absurd hparse nofun
  | ok result =>
    rw [hpmsg] at hparse
    obtain rfl := Except.ok.inj hparse
    exact ⟨result.2, rfl⟩

/-- A message that was handed to the handlers is the parsed buffer, and it is a request exactly if
the first word of the buffer has no slash. -/
theorem handed_type_iff {config : Config} {events : List Event} {c : ℕ} {buf : Bytes} {msg : Pmsg}
    (hmem : .handed c buf msg ∈ (run env events (initial config)).2.trace) :
    parseRequest buf = .ok msg ∧ (msg.type = .req ↔ 47 ∉ buf.takeWhile (· != 32)) := by
  obtain ⟨earlier, later, hsplit⟩ := append_of_mem hmem
  have hparse : parseRequest buf = .ok msg :=
    (sound_of_run env config events).causal earlier _ later hsplit
  obtain ⟨ret, hpmsg⟩ := parseRequest_eq_ok hparse
  exact ⟨hparse, type_parsePmsg hpmsg⟩

/-- In every run, all messages that are handed to the request handlers are messages that were parsed
as requests, with the method and the URI that were stored for them, exactly if no request buffer
that is handed over has a slash before its first space. -/
theorem handed_requests_iff (env : Env) (config : Config) (events : List Event) :
    (∀ c buf msg, .handed c buf msg ∈ (run env events (initial config)).2.trace →
        parseRequest buf = .ok msg ∧ msg.type = .req ∧
          ∃ method uri, msg.sl = .req method uri) ↔
      ∀ c buf msg, .handed c buf msg ∈ (run env events (initial config)).2.trace →
        47 ∉ buf.takeWhile (· != 32) := by
  constructor
  · intro hrequests c buf msg hmem
    exact (handed_type_iff hmem).2.mp (hrequests c buf msg hmem).2.1
  · intro hwords c buf msg hmem
    obtain ⟨hparse, htype⟩ := handed_type_iff hmem
    have hreq := htype.mpr (hwords c buf msg hmem)
    refine ⟨hparse, hreq, ?_⟩
    unfold Pmsg.type at hreq
    split at hreq
    · exact ⟨_, _, ‹_›⟩
    · exact absurd hreq nofun

/-- A response line whose reason ends in `RTSP/1.0`. -/
def responseText : Bytes := ascii "RTSP/1.0 200 RTSP/1.0\r\n\r\n"

/-- A client that sends a response has it handed to the RTSP handlers, which read the method and the
URI of a message that has neither. -/
theorem response_handed :
    (sampleRun [.accept 3, .read 0 false 0 responseText]).1 = .error .unionMisread ∧
      .handed 0 responseText (sampleMessage responseText) ∈
        (sampleRun [.accept 3, .read 0 false 0 responseText]).2.trace ∧
      (sampleMessage responseText).type = .resp := by
  decide +kernel

end WisCam.Server
