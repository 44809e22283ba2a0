import WisCam.Connection.Framing
import WisCam.Server.Interleaving

/-!
# Rounds of reading

`Connection.readStep` is a round of `do_read` on one connection, with what it calls as `Callees`.
`step_follows_readStep` relates it to the server: at every `read()` of a connection the server does
what the round says, with the calls of `handle_request` and `interleave_recv` that the round records.
-/

set_option autoImplicit false

namespace WisCam.Server

open Foundations Message Connection Program

variable {env : Env} {now c : ℕ} {second : Bool} {data : Bytes} {s : State} {conn : Conn}
  {dispatched : List Dispatch}

/-- What the functions that are called with a unit find when these bytes have been read. -/
def Conn.callees (conn : Conn) (env : Env) (now c : ℕ) (s : State) (data : Bytes) : Callees where
  handles _ _ :=
    match (handleRequest env now c (setReader c (conn.received data).reader s).2).1 with
    | .ok handled => handled
    | .error _ => false
  table _ :=
    match conn.protoState with
    | .rtsp _ => true
    | _ => false

theorem table_callees_iff : (conn.callees env now c s data).table dispatched = true ↔
    ∃ table, conn.protoState = .rtsp table := by
  unfold Conn.callees
  cases conn.protoState with
  | rtsp table => exact iff_of_true rfl ⟨table, rfl⟩
  | _ => exact iff_of_false Bool.false_ne_true (fun ⟨_, h⟩ ↦ absurd h nofun)

/-- The call for a unit. -/
def calls (env : Env) (now c : ℕ) : Dispatch → Srv Unit
  | .request _ => do let _ ← handleRequest env now c
  | .frame chan payload => do let _ ← interleaveRecv c chan payload

/-- What the server does in a round that leaves this reading: the connection is gone, or the server
has ended; it waits for more bytes; or it has called a function and given the buffer up. -/
inductive InStep (env : Env) (now c : ℕ) (s : State) (dispatched : List Dispatch) :
    Reading → Except Fault Unit × State → Prop
  | ended {r : Reading} {outcome : Except Fault Unit × State} (hended : r.ended = true)
      (hgone : outcome.1 = .ok () → outcome.2.conns.get? c = none) :
      InStep env now c s dispatched r outcome
  | waits {r : Reading} (hopen : r.ended = false) (hnone : r.dispatched = dispatched) :
      InStep env now c s dispatched r (setReader c r.reader s)
  | called {r : Reading} (reqBuf : Bytes) {unit : Dispatch} {s' : State} (hopen : r.ended = false)
      (hone : r.dispatched = dispatched ++ [unit])
      (hcall : calls env now c unit (setReader c { r.reader with reqBuf := reqBuf } s).2 =
        (.ok (), s')) :
      InStep env now c s dispatched r (clearReqBuf c s')

theorem dropConn_gone (c : ℕ) (s : State) :
    (dropConn c s).1 = .ok () → (dropConn c s).2.conns.get? c = none := by
  intro hreturns
  cases hconn : s.conns.get? c with
  | none =>
    rw [dropConn, derefConn_none hconn] at hreturns
    exact absurd hreturns nofun
  | some conn =>
    rw [dropConn, derefConn_apply hconn, bind_apply] at hreturns ⊢
    cases hdisconnect : disconnect c conn s with
    | mk result s' =>
      rw [hdisconnect] at hreturns
      cases result with
      | error fault => exact absurd hreturns nofun
      | ok _ => exact (NodeTable.get?_erase ..).trans (if_pos rfl)

/-- A request is handled, or the connection is dropped. -/
theorem serve_request_follows (hconn : s.conns.get? c = some conn) :
    InStep env now c s dispatched
      (Reading.dispatch (conn.callees env now c s data) ⟨conn.reader, false, dispatched⟩
        ((conn.received data).reader, .request))
      (serve env now c .request (setReader c (conn.received data).reader s).2) := by
  have hget := get?_setReader hconn data
  set s₁ := (setReader c (conn.received data).reader s).2 with hs₁
  have hserve : serve env now c .request s₁ = (handleRequest env now c >>= fun handled ↦
      if handled then clearReqBuf c else dropConn c) s₁ := rfl
  rw [hserve, bind_apply]
  dsimp only [Reading.dispatch]
  cases hparse : parseRequest (conn.received data).reader.reqBuf with
  | error stop =>
    refine .ended rfl ?_
    rw [handleRequest, derefConn_apply hget, hparse]
    cases stop with
    | malformed => exact dropConn_gone c s₁
    | _ =>
      intro hreturns
      cases hreturns
  | ok msg =>
    dsimp only [Reading.call, Callees.returns, Conn.callees]
    rw [← hs₁]
    cases hhandle : handleRequest env now c s₁ with
    | mk result s₂ =>
      cases result with
      | error fault => exact .ended rfl fun hreturns ↦ by cases hreturns
      | ok handled =>
        cases handled with
        | false => exact .ended rfl (dropConn_gone c s₂)
        | true =>
          refine .called (conn.received data).reader.reqBuf rfl rfl ?_
          change (handleRequest env now c >>= fun _ ↦ pure ()) s₁ = _
          rw [bind_apply, hhandle]
          rfl

theorem wired_setReader (env : Env) (hwired : Wired s) (hconn : s.conns.get? c = some conn) (data : Bytes) :
    Wired (setReader c (conn.received data).reader s).2 := by
  obtain ⟨-, -, hchosen, -⟩ := of_settle (r := conn.reader.receive data) rfl
  rw [proto_receive] at hchosen
  have hset := (@setReader_makes env s AnyFault c conn (conn.received data).reader hconn
    hchosen).steps
  exact holds_of_steps (I := Wired) (fun hcalm ↦ wired_of_effect hcalm.1.1) hset hwired

/-- The call for a frame as a step, where the server returns from it. -/
theorem serve_frame_called {chan : UInt8} {payload : Bytes}
    (hreturns : ∃ ret s', interleaveRecv c chan payload
      (setReader c (conn.received data).reader s).2 = (.ok ret, s')) :
    InStep env now c s dispatched
      ⟨{ (conn.received data).reader with reqBuf := [] }, false,
        dispatched ++ [.frame chan payload]⟩
      (serve env now c (.frame chan payload) (setReader c (conn.received data).reader s).2) := by
  obtain ⟨ret, s', hret⟩ := hreturns
  change InStep _ _ _ _ _ _ ((interleaveRecv c chan payload >>= fun _ ↦ clearReqBuf c) _)
  rw [bind_apply, hret]
  refine .called (conn.received data).reader.reqBuf rfl rfl ?_
  change (interleaveRecv c chan payload >>= fun _ ↦ pure ()) _ = _
  rw [bind_apply, hret]
  rfl

/-- A frame is handed over if its channel is in no table or there is a table. -/
theorem serve_frame_follows (hwired : Wired s) (hconn : s.conns.get? c = some conn) (chan : UInt8)
    (payload : Bytes) :
    InStep env now c s dispatched
      (Reading.dispatch (conn.callees env now c s data) ⟨conn.reader, false, dispatched⟩
        ((conn.received data).reader, .frame chan payload))
      (serve env now c (.frame chan payload) (setReader c (conn.received data).reader s).2) := by
  have hget := get?_setReader hconn data
  by_cases hreturns : (conn.callees env now c s data).returns dispatched (.frame chan payload) = true
  · have hdispatch : Reading.dispatch (conn.callees env now c s data)
        ⟨conn.reader, false, dispatched⟩ ((conn.received data).reader, .frame chan payload) =
        ⟨{ (conn.received data).reader with reqBuf := [] }, false,
          dispatched ++ [.frame chan payload]⟩ := if_pos hreturns
    rw [hdispatch]
    rw [Callees.returns, Bool.or_eq_true, decide_eq_true_iff, table_callees_iff] at hreturns
    apply serve_frame_called
    by_cases hchan : chan.toNat < 8
    · obtain ⟨table, hstate⟩ := hreturns.resolve_left (Nat.not_le.mpr hchan)
      have hwired' := wired_setReader env hwired hconn data
      exact (FrameHandled.of_table payload hwired' hget hstate hchan).returns
    · exact ⟨_, _, interleaveRecv_of_le payload hget (Nat.not_lt.mp hchan)⟩
  · have hdispatch : Reading.dispatch (conn.callees env now c s data)
        ⟨conn.reader, false, dispatched⟩ ((conn.received data).reader, .frame chan payload) =
        ⟨conn.reader, true, dispatched⟩ := if_neg hreturns
    rw [hdispatch]
    rw [Callees.returns, Bool.or_eq_true, decide_eq_true_iff, table_callees_iff, not_or] at hreturns
    obtain ⟨fault, hfault⟩ := interleaveRecv_no_table payload hget (Nat.not_le.mp hreturns.1)
      fun table htable ↦ hreturns.2 ⟨table, htable⟩
    change InStep _ _ _ _ _ _ ((interleaveRecv c chan payload >>= fun _ ↦ clearReqBuf c) _)
    rw [bind_apply, hfault]
    exact .ended rfl fun hreturns ↦ by cases hreturns

/-- At a `read()` of a connection the server does what the round of `do_read` says, and nothing if
`read()` cannot return these bytes. -/
theorem step_follows_readStep (hwired : Wired s) (hconn : s.conns.get? c = some conn)
    (hreads : conn.reads second = true) (dispatched : List Dispatch) :
    match readStep (conn.callees env now c s data) ⟨conn.reader, false, dispatched⟩ data with
    | none => step env (.read c second now data) s = (.ok (), s)
    | some r => InStep env now c s dispatched r (step env (.read c second now data) s) := by
  by_cases hpossible : data ≠ [] ∧ conn.reader.reqBuf.length + data.length ≤ reqLimit
  · unfold readStep
    rw [step_of_reads hconn ⟨hreads, hpossible⟩, if_neg hpossible.1, if_neg Bool.false_ne_true,
      if_neg (Nat.not_lt.mpr hpossible.2)]
    by_cases hfull : (conn.reader.receive data).reqBuf.length = reqLimit
    · rw [receive]
      dsimp only
      rw [if_pos hfull, if_pos hfull]
      exact .ended rfl (dropConn_gone c _)
    by_cases hcount : 0 < (conn.reader.receive data).base64Count
    · rw [receive]
      dsimp only
      rw [if_neg hfull, if_neg hfull, if_pos hcount, if_pos hcount]
      exact .waits rfl rfl
    rw [receive_of_settled hfull (Int.not_lt.mp hcount)]
    dsimp only
    rw [if_neg hfull, if_neg hcount]
    change InStep env now c s dispatched
      (Reading.dispatch _ _ ((conn.received data).reader, (conn.reader.receive data).settle.2))
      (serve env now c (conn.reader.receive data).settle.2
        (setReader c (conn.received data).reader s).2)
    cases (conn.reader.receive data).settle.2 with
    | wait => exact .waits rfl rfl
    | proto proto => exact .waits rfl rfl
    | reject => exact .ended rfl (dropConn_gone c _)
    | request => exact serve_request_follows hconn
    | frame chan payload => exact serve_frame_follows hwired hconn chan payload
  · have hround : readStep (conn.callees env now c s data) ⟨conn.reader, false, dispatched⟩ data =
        none := by
      unfold readStep
      by_cases hdata : data = []
      · exact if_pos hdata
      · have hlong : reqLimit < conn.reader.reqBuf.length + data.length :=
          Nat.not_le.mp fun hfits ↦ hpossible ⟨hdata, hfits⟩
        rw [if_neg hdata, if_neg Bool.false_ne_true]
        exact if_pos hlong
    rw [hround, step, get_bind_apply]
    dsimp only
    rw [hconn]
    dsimp only
    rw [if_neg fun h ↦ hpossible h.2]
    rfl

end WisCam.Server
