import WisCam.Server.History

/-!
# Tunnels

RTSP over HTTP: a GET stores its cookie in its connection, and a POST is attached to the first
connection that has the cookie of the POST. Connections start with the empty cookie, so a POST with
an empty cookie is attached to a connection that has sent nothing of the kind. Where no POST carries
an empty cookie, every POST that is attached was preceded by a GET with its cookie on the connection
it is attached to, and every other POST is refused.
-/

set_option autoImplicit false

namespace WisCam.Server

open Foundations Message Connection Auth List

variable {s : State} {c : ℕ} {conn : Conn}

/-! ### Refusals -/

/-- A tunnel request on a connection is refused: one of the two answers with the code 400 is queued,
the connection is to be closed when it is sent, and nothing else changes. -/
structure Refused (s : State) (c : ℕ) (conn : Conn) (outcome : Except Fault Bool × State) :
    Prop where
  returns : outcome.1 = .ok true
  answered : ∃ conn' text, outcome.2.conns.get? c = some conn' ∧
    (text = missingCookie ∨ text = unknownCookie) ∧
    conn'.out.queued = conn.out.queued ++ text ∧ conn'.out.dropAfter = true ∧
    conn' = { conn with out := conn'.out }
  others : ∀ c', c' ≠ c → outcome.2.conns.get? c' = s.conns.get? c'
  rest : outcome.2 = { s with conns := outcome.2.conns }

theorem refuseTunnel_apply (hconn : s.conns.get? c = some conn) (text : Bytes) :
    refuseTunnel c text s = (.ok (), { s with
      conns := (s.conns.modify c fun conn ↦ { conn with
        out := (sendData conn.out text).2 }).modify c fun conn ↦ { conn with
          out := { conn.out with dropAfter := true } } }) := by
  rw [refuseTunnel, Program.bind_apply, sendTo, derefConn_apply hconn]
  rfl

theorem refused_of_refuseTunnel {text : Bytes} (hconn : s.conns.get? c = some conn)
    (hwf : conn.out.Wf) (htext : text = missingCookie ∨ text = unknownCookie)
    (hroom : text.length ≤ availSendBuf conn.out) :
    Refused s c conn (((do refuseTunnel c text; return false : Srv Bool) >>= fun attached ↦
      return !attached) s) := by
  have hsend : (sendData conn.out text).2.queued = conn.out.queued ++ text := by
    have havail := availSendBuf_eq hwf.1
    have hbound := length_queued_le hwf.1
    rcases sendData_spec hwf.1 text with ⟨-, -, -, hqueued, -⟩ | ⟨hfull, -⟩
    · exact hqueued
    · omega
  rw [Program.bind_apply, Program.bind_apply, refuseTunnel_apply hconn]
  dsimp only [Program.pure_apply]
  refine ⟨rfl, ⟨{ conn with out := { (sendData conn.out text).2 with dropAfter := true } }, text,
    ?_, htext, hsend, rfl, rfl⟩, fun c' hother ↦ ?_, rfl⟩
  · rw [NodeTable.get?_modify, if_pos rfl, NodeTable.get?_modify, if_pos rfl, hconn]
    rfl
  · rw [NodeTable.get?_modify, if_neg hother, NodeTable.get?_modify, if_neg hother]

/-- A POST whose cookie no connection has is refused. -/
theorem refused_of_no_cookie {req : Req} (hconn : s.conns.get? req.conn = some conn)
    (hwf : conn.out.Wf) (htunnel : isTunnel req.msg (ascii "Content-Type") = true)
    (hnone : ∀ cookie c' cg, sessionCookie req.msg = some cookie → s.conns.get? c' = some cg →
      cg.httpTunnelCookie ≠ cookie)
    (hroom : unknownCookie.length ≤ availSendBuf conn.out) :
    Refused s req.conn conn (tcpHandlePost req s) := by
  have hlength : missingCookie.length = unknownCookie.length := by decide +kernel
  rw [tcpHandlePost, if_pos htunnel, handleQtTunnel]
  cases hcookie : sessionCookie req.msg with
  | none =>
    exact refused_of_refuseTunnel hconn hwf (.inl rfl) (Nat.le_trans (Nat.le_of_eq hlength) hroom)
  | some cookie =>
    have hfind : (s.conns.find? fun conn ↦ conn.httpTunnelCookie == cookie) = none := by
      cases hfind : s.conns.find? fun conn ↦ conn.httpTunnelCookie == cookie with
      | none => rfl
      | some found =>
        obtain ⟨hget, hsame⟩ := NodeTable.get?_of_find? hfind
        exact absurd (beq_iff_eq.mp hsame) (hnone cookie _ _ hcookie hget)
    dsimp only
    rw [if_pos rfl, tunnelPost, Program.bind_apply, Program.get_bind_apply, hfind]
    exact refused_of_refuseTunnel hconn hwf (.inr rfl) hroom

/-! ### Attached connections -/

theorem header_of_sessionCookie {msg : Pmsg} {cookie : Bytes}
    (hcookie : sessionCookie msg = some cookie) :
    getHeader msg (ascii "x-sessioncookie") = some cookie :=
  (Option.filter_eq_some_iff.mp hcookie).1

/-- A POST that was attached follows a GET with the same cookie, if the cookie is not empty. -/
theorem tunnelGet_before {env : Env} {locs : List RtspLocation} {history earlier later : List Obs}
    {msg : Pmsg} {cookie : Bytes} {target : ℕ} (hcausal : Causal (Precedes env locs) history)
    (hsplit : history = earlier ++ .tunnelPost c msg cookie target :: later) (hne : cookie ≠ []) :
    ∃ buf get, .handed target buf get ∈ earlier ∧
      TunnelRequest get (ascii "GET") (ascii "Accept") ∧ sessionCookie get = some cookie := by
  obtain ⟨-, -, -, hget⟩ := hcausal earlier _ later hsplit
  obtain ⟨before, after, rfl⟩ := append_of_mem (hget hne)
  have hsplit' : history = before ++ .tunnelGet target cookie ::
      (after ++ .tunnelPost c msg cookie target :: later) := by
    rw [hsplit, append_assoc, cons_append]
  obtain ⟨buf, get, hhanded, htunnel, hcookie⟩ := hcausal before _ _ hsplit'
  exact ⟨buf, get, mem_append_left _ hhanded, htunnel, hcookie⟩

/-- In every run in which no tunnel POST carries an empty cookie: a POST that is attached to a
connection was preceded there by a tunnel GET with the same cookie; and in the state that the run
leads to, a POST whose cookie is missing, or is not empty and was sent in no tunnel GET of a
connection that is still there, is refused and changes no other connection.

Assumes: no tunnel POST of the run carries an empty cookie. -/
theorem tunnelPosts_paired (env : Env) (config : Config) (events : List Event)
    (hcookies : ∀ c buf msg, .handed c buf msg ∈ (run env events (initial config)).2.trace →
      TunnelRequest msg (ascii "POST") (ascii "Content-Type") → sessionCookie msg ≠ some []) :
    let s := (run env events (initial config)).2
    (∀ earlier later c msg cookie target,
      s.trace = earlier ++ .tunnelPost c msg cookie target :: later →
        getHeader msg (ascii "x-sessioncookie") = some cookie ∧
        ∃ buf get, .handed target buf get ∈ earlier ∧
          TunnelRequest get (ascii "GET") (ascii "Accept") ∧
          getHeader get (ascii "x-sessioncookie") = some cookie) ∧
    ∀ req conn, s.conns.get? req.conn = some conn →
      isTunnel req.msg (ascii "Content-Type") = true → sessionCookie req.msg ≠ some [] →
      (∀ cookie c cg, sessionCookie req.msg = some cookie → s.conns.get? c = some cg →
        .tunnelGet c cookie ∉ s.trace) →
      unknownCookie.length ≤ availSendBuf conn.out →
      Refused s req.conn conn (tcpHandlePost req s) := by
  intro s
  have hsound := sound_of_run env config events
  refine ⟨fun earlier later c msg cookie target hsplit ↦ ?_,
    fun req conn hconn htunnel hne hnone hroom ↦ ?_⟩
  · obtain ⟨⟨buf, hhanded⟩, htunnel, hcookie, -⟩ := hsound.causal earlier _ later hsplit
    have hmem : .handed c buf msg ∈ s.trace := by
      rw [hsplit]
      exact mem_append_left _ hhanded
    have hne : cookie ≠ [] := by
      rintro rfl
      exact hcookies c buf msg hmem htunnel hcookie
    obtain ⟨buf', get, hget, hgetTunnel, hgetCookie⟩ :=
      tunnelGet_before hsound.causal hsplit hne
    exact ⟨header_of_sessionCookie hcookie, buf', get, hget, hgetTunnel,
      header_of_sessionCookie hgetCookie⟩
  · have hwf : OutsWf s := outsWf_of_effects (effects_of_run env config events)
      fun c conn hget ↦ absurd hget nofun
    refine refused_of_no_cookie hconn (hwf _ conn hconn) htunnel ?_ hroom
    rintro cookie c cg hcookie hcg rfl
    -- A connection with this cookie has processed a GET that carried it.
    have hcookieNe : cg.httpTunnelCookie ≠ [] := fun hempty ↦ hne (hempty ▸ hcookie)
    exact hnone _ c cg hcookie hcg (hsound.cookies c cg hcg hcookieNe)

/-- A tunnel GET with the cookie `k`. -/
def tunnelGetText : Bytes :=
  ascii "GET / HTTP/1.0\r\nAccept: application/x-rtsp-tunnelled\r\nx-sessioncookie: k\r\n\r\n"

/-- A tunnel POST with a cookie. -/
def tunnelPostText (cookie : Bytes) : Bytes :=
  ascii "POST / HTTP/1.0\r\nContent-Type: application/x-rtsp-tunnelled\r\nx-sessioncookie: " ++
    cookie ++ ascii "\r\n\r\n"

/-- Two clients connect, the first sends the GET and the second the POST. -/
def tunnelEvents : List Event :=
  [.accept 3, .accept 4, .read 0 false 0 tunnelGetText,
    .read 1 false 0 (tunnelPostText (ascii "k"))]

/-- The POST was attached to the first connection, after its GET. -/
theorem tunnelPosts_paired_sample :
    ∃ earlier msg, (run sampleEnv tunnelEvents (initial sampleConfig)).2.trace =
        earlier ++ [.tunnelPost 1 msg (ascii "k") 0] ∧
      ∃ buf get, .handed 0 buf get ∈ earlier ∧
        TunnelRequest get (ascii "GET") (ascii "Accept") ∧
        getHeader get (ascii "x-sessioncookie") = some (ascii "k") := by
  have htrace : (run sampleEnv tunnelEvents (initial sampleConfig)).2.trace =
      [.handed 0 tunnelGetText (sampleMessage tunnelGetText), .tunnelGet 0 (ascii "k"),
        .handed 1 (tunnelPostText (ascii "k")) (sampleMessage (tunnelPostText (ascii "k")))] ++
        [.tunnelPost 1 (sampleMessage (tunnelPostText (ascii "k"))) (ascii "k") 0] := by
    decide +kernel
  have hcookies (c : ℕ) (buf : Bytes) (msg : Pmsg)
      (hmem : .handed c buf msg ∈ (run sampleEnv tunnelEvents (initial sampleConfig)).2.trace)
      (_ : TunnelRequest msg (ascii "POST") (ascii "Content-Type")) :
      sessionCookie msg ≠ some [] := by
    rw [htrace] at hmem
    simp only [cons_append, nil_append, mem_cons, not_mem_nil, or_false,
      Obs.handed.injEq, reduceCtorEq, false_or] at hmem
    rcases hmem with ⟨-, -, rfl⟩ | ⟨-, -, rfl⟩ <;> decide +kernel
  exact ⟨_, _, htrace,
    ((tunnelPosts_paired sampleEnv sampleConfig tunnelEvents hcookies).1 _ [] 1 _ _ 0 htrace).2⟩

/-- Two clients connect, and the first sends a POST with an empty cookie. -/
def emptyCookieEvents : List Event :=
  [.accept 3, .accept 4, .read 0 false 0 (tunnelPostText [])]

/-- The POST is attached to the second connection, which has sent nothing, and its descriptor is
read for that connection from then on. -/
theorem empty_cookie_attached :
    (sampleRun emptyCookieEvents).1 = .ok () ∧
      (sampleRun emptyCookieEvents).2.trace =
        [.handed 0 (tunnelPostText []) (sampleMessage (tunnelPostText [])),
          .tunnelPost 0 (sampleMessage (tunnelPostText [])) [] 1] ∧
      ((sampleRun emptyCookieEvents).2.conns.get? 1).map (·.secondFd) = some (some 3) := by
  decide +kernel

end WisCam.Server
