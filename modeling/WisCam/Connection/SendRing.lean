import Mathlib.Data.Int.Notation
import Mathlib.Data.List.Induction
import Mathlib.Logic.Relation
import WisCam.Foundations.Bytes
import WisCam.Foundations.RingQueue

/-!
# The send ring of a connection

`tcp.c` and `rtsp.c`. Every connection has a ring of `sizeof(send_buf)` bytes between the handlers
and the socket. `send_data` stores a whole payload or refuses it, and two functions take bytes out:
`conn_write`, called when the socket is writable, and `tcp_conn_flush`, called by `interleave_send`
when a frame does not fit. Both run the same loop over the results of `write()` (`drain`) and
differ in what they do at its end.

The ring is an instance of `Foundations.RingBuffer`. `Fifo` is what it is for: a queue of at most
`sizeof(send_buf) - 1` bytes, with the bytes accepted so far and the bytes handed over so far.
`sendStep_refines` shows that every call on a connection is a sequence of steps of that queue, and
`sendRun_refines` carries this along every sequence of calls.
-/

set_option autoImplicit false

namespace WisCam.Connection

open Foundations List

/-! ### The queue the ring stands for -/

/-- A queue with its history: the bytes it holds, the bytes it has ever accepted and the bytes it
has handed over. -/
structure Fifo where
  queue : Bytes
  accepted : Bytes
  handed : Bytes

/-- The steps of a queue that holds at most `bound` bytes: a payload is accepted as a whole or
refused as a whole, and bytes leave from the front. -/
inductive Fifo.Step (bound : ℕ) : Fifo → Fifo → Prop
  | accept (fifo : Fifo) (data : Bytes) (hfits : fifo.queue.length + data.length ≤ bound) :
    Fifo.Step bound fifo ⟨fifo.queue ++ data, fifo.accepted ++ data, fifo.handed⟩
  | hand (fifo : Fifo) (amount : ℕ) :
    Fifo.Step bound fifo
      ⟨fifo.queue.drop amount, fifo.accepted, fifo.handed ++ fifo.queue.take amount⟩

/-- The queue never exceeds its bound, and what it handed over followed by what it holds is what it
accepted. -/
def Fifo.Lawful (bound : ℕ) (fifo : Fifo) : Prop :=
  fifo.queue.length ≤ bound ∧ fifo.handed ++ fifo.queue = fifo.accepted

theorem Fifo.Step.lawful {bound : ℕ} {before after : Fifo} (hstep : Fifo.Step bound before after)
    (hlawful : before.Lawful bound) : after.Lawful bound := by
  obtain ⟨hbound, hhistory⟩ := hlawful
  cases hstep with
  | accept data hfits =>
    refine ⟨by rw [length_append]; exact hfits, ?_⟩
    rw [← append_assoc, hhistory]
  | hand amount =>
    refine ⟨?_, ?_⟩
    · rw [length_drop]
      omega
    · rw [append_assoc, take_append_drop, hhistory]

/-- Every state a queue reaches from a lawful one is lawful. -/
theorem Fifo.lawful_of_reaches {bound : ℕ} {before after : Fifo}
    (hreach : Relation.ReflTransGen (Fifo.Step bound) before after)
    (hlawful : before.Lawful bound) : after.Lawful bound := by
  induction hreach with
  | refl => exact hlawful
  | tail _ hstep ih => exact hstep.lawful ih

/-! ### The ring as the code has it -/

/-- `sizeof(c->send_buf)`. -/
def sendBufSize : ℕ := 65536

/-- The fields of `struct conn` behind the socket's write side: `send_buf` with `send_buf_r` and
`send_buf_w`, whether `write_event` is enabled, and `drop_after`. -/
structure SendSide where
  sendBuf : RingBuffer UInt8
  writeEnabled : Bool
  dropAfter : Bool

/-- The bytes waiting in the ring, oldest first. -/
def SendSide.queued (out : SendSide) : Bytes := out.sendBuf.contents sendBufSize

def availSendBuf (out : SendSide) : ℕ := out.sendBuf.room sendBufSize

def sendData (out : SendSide) (data : Bytes) : ℤ × SendSide :=
  if availSendBuf out < data.length then (1, out)
  else (0, { out with sendBuf := out.sendBuf.pushAll sendBufSize data, writeEnabled := true })

/-- What one `write()` returns: a count, `EAGAIN`, or another error. -/
inductive WriteResult
  | wrote (ret : ℕ)
  | again
  | failed
  deriving DecidableEq, Repr

/-- How the loop over `write()` ends: the indices met, a `write()` failed, or it is still looping
when the results given are used up. -/
inductive DrainEnd
  | emptied
  | failed
  | looping
  deriving DecidableEq, Repr

/-- The ring after the loop, the bytes the socket took, and how the loop ended. -/
structure Drained where
  sendBuf : RingBuffer UInt8
  handed : Bytes
  ending : DrainEnd

/-- The loop that `conn_write` and `tcp_conn_flush` share. `write()` takes at most the `span` bytes
it is given, and a count of zero is a failure. -/
def drain (ring : RingBuffer UInt8) : List WriteResult → Drained
  | [] => if ring.read = ring.write then ⟨ring, [], .emptied⟩ else ⟨ring, [], .looping⟩
  | result :: rest =>
    if ring.read = ring.write then ⟨ring, [], .emptied⟩
    else match result with
      | .again => drain ring rest
      | .failed => ⟨ring, [], .failed⟩
      | .wrote ret =>
        let taken := min ret (ring.span sendBufSize)
        if taken = 0 then ⟨ring, [], .failed⟩
        else
          let after := drain (ring.skip sendBufSize taken) rest
          { after with handed := ring.segment taken ++ after.handed }

/-- What `conn_write` leaves behind: a connection that waits for more data, one that was dropped
after a failed `write()`, one that was dropped because of `drop_after`, or a call that has not
returned. -/
inductive WriteEnd
  | waiting
  | droppedByError
  | droppedAfter
  | looping
  deriving DecidableEq, Repr

/-- `conn_write`, with the results of its `write()` calls. -/
def connWrite (out : SendSide) (results : List WriteResult) : WriteEnd × SendSide × Bytes :=
  let drained := drain out.sendBuf results
  let after := { out with sendBuf := drained.sendBuf }
  match drained.ending with
  | .looping => (.looping, after, drained.handed)
  | .failed => (.droppedByError, after, drained.handed)
  | .emptied =>
    if out.dropAfter then (.droppedAfter, after, drained.handed)
    else (.waiting, { after with writeEnabled := false }, drained.handed)

/-- `tcp_conn_flush`, with the results of its `write()` calls. It leaves the write event alone. -/
def tcpConnFlush (out : SendSide) (results : List WriteResult) : SendSide × Bytes :=
  let drained := drain out.sendBuf results
  ({ out with sendBuf := drained.sendBuf }, drained.handed)

/-- A connection as `do_accept` leaves it, over whatever bytes `malloc` returned. -/
def freshSendSide (cells : ℕ → UInt8) : SendSide := ⟨⟨cells, 0, 0⟩, false, false⟩

/-! ### One call -/

/-- The indices are in range, and a ring that is not empty has its write event enabled. -/
def SendSide.Wf (out : SendSide) : Prop :=
  out.sendBuf.Valid sendBufSize ∧ (out.queued ≠ [] → out.writeEnabled = true)

theorem wf_freshSendSide (cells : ℕ → UInt8) : (freshSendSide cells).Wf :=
  ⟨⟨Nat.zero_lt_succ _, Nat.zero_lt_succ _⟩, fun hne ↦ absurd rfl hne⟩

variable {out : SendSide}

theorem availSendBuf_eq (hvalid : out.sendBuf.Valid sendBufSize) :
    availSendBuf out = 65535 - out.queued.length := by
  rw [availSendBuf, RingBuffer.room_eq hvalid, SendSide.queued, RingBuffer.length_contents]
  rfl

theorem length_queued_le (hvalid : out.sendBuf.Valid sendBufSize) : out.queued.length ≤ 65535 := by
  have hcount := RingBuffer.count_lt hvalid
  rw [SendSide.queued, RingBuffer.length_contents]
  unfold sendBufSize at hcount ⊢
  omega

/-- `send_data` on valid indices: a payload that fits is queued as a whole and enables the write
event, and one that does not fit changes nothing. -/
theorem sendData_spec (hvalid : out.sendBuf.Valid sendBufSize) (data : Bytes) :
    (out.queued.length + data.length ≤ 65535 ∧ (sendData out data).1 = 0 ∧
        (sendData out data).2.sendBuf.Valid sendBufSize ∧
        (sendData out data).2.queued = out.queued ++ data ∧
        (sendData out data).2.writeEnabled = true) ∨
      (65535 < out.queued.length + data.length ∧ sendData out data = (1, out)) := by
  have havail := availSendBuf_eq hvalid
  have hbound := length_queued_le hvalid
  unfold sendData
  split_ifs with hfull
  · exact Or.inr ⟨by omega, rfl⟩
  · obtain ⟨hpush, hcontents⟩ := RingBuffer.pushAll_spec hvalid data (Nat.not_lt.mp hfull)
    exact Or.inl ⟨by omega, rfl, hpush, hcontents, rfl⟩

theorem wf_sendData (hwf : out.Wf) (data : Bytes) : (sendData out data).2.Wf := by
  rcases sendData_spec hwf.1 data with ⟨-, -, hvalid, -, henabled⟩ | ⟨-, hrefused⟩
  · exact ⟨hvalid, fun _ ↦ henabled⟩
  · rw [hrefused]
    exact hwf

/-- The loop over `write()` on valid indices: it takes a front part of the queue and hands it to
the socket, and it ends emptied only with an empty ring. -/
theorem drain_spec {ring : RingBuffer UInt8} (hvalid : ring.Valid sendBufSize)
    (results : List WriteResult) :
    (drain ring results).sendBuf.Valid sendBufSize ∧
      (∃ amount, (drain ring results).handed = (ring.contents sendBufSize).take amount ∧
        (drain ring results).sendBuf.contents sendBufSize =
          (ring.contents sendBufSize).drop amount) ∧
      ((drain ring results).ending = .emptied →
        (drain ring results).sendBuf.contents sendBufSize = []) := by
  have hstay : ∃ amount, ([] : Bytes) = (ring.contents sendBufSize).take amount ∧
      ring.contents sendBufSize = (ring.contents sendBufSize).drop amount :=
    ⟨0, take_zero.symm, drop_zero.symm⟩
  induction results generalizing ring with
  | nil =>
    unfold drain
    split_ifs with hempty
    · exact ⟨hvalid, hstay, fun _ ↦ (RingBuffer.contents_eq_nil_iff hvalid).mpr hempty⟩
    · exact ⟨hvalid, hstay, nofun⟩
  | cons result rest ih =>
    unfold drain
    split_ifs with hempty
    · exact ⟨hvalid, hstay, fun _ ↦ (RingBuffer.contents_eq_nil_iff hvalid).mpr hempty⟩
    cases result with
    | again => exact ih hvalid hstay
    | failed => exact ⟨hvalid, hstay, nofun⟩
    | wrote ret =>
      set taken := min ret (ring.span sendBufSize) with htaken
      dsimp only
      split_ifs with hzero
      · exact ⟨hvalid, hstay, nofun⟩
      have hspan : taken ≤ ring.span sendBufSize := Nat.min_le_right _ _
      have hskip := RingBuffer.valid_skip hvalid hspan
      obtain ⟨hdone, ⟨amount, hhanded, hqueue⟩, hend⟩ :=
        ih hskip ⟨0, take_zero.symm, drop_zero.symm⟩
      refine ⟨hdone, ⟨taken + amount, ?_, ?_⟩, hend⟩
      · rw [hhanded, RingBuffer.segment_eq_take hvalid hspan, RingBuffer.contents_skip hvalid hspan,
          take_add]
      · rw [hqueue, RingBuffer.contents_skip hvalid hspan, drop_drop]

/-! ### Sequences of calls -/

/-- A `write()` that takes bytes hands them over. -/
theorem drain_wrote {ring : RingBuffer UInt8} (hvalid : ring.Valid sendBufSize)
    (hsome : ring.contents sendBufSize ≠ []) {ret : ℕ} (hret : 0 < ret)
    (results : List WriteResult) : (drain ring (.wrote ret :: results)).handed ≠ [] := by
  have hne : ring.read ≠ ring.write := (RingBuffer.contents_eq_nil_iff hvalid).not.mp hsome
  have hspan : 0 < ring.span sendBufSize := by
    obtain ⟨hread, hwrite⟩ := hvalid
    unfold RingBuffer.span
    split_ifs <;> omega
  have htaken : min ret (ring.span sendBufSize) ≠ 0 := by omega
  rw [drain, if_neg hne]
  dsimp only
  rw [if_neg htaken, RingBuffer.segment_eq_take hvalid (Nat.min_le_right _ _)]
  refine append_ne_nil_of_left_ne_nil ?_ _
  rw [ne_eq, take_eq_nil_iff, not_or]
  exact ⟨htaken, hsome⟩

/-- The calls that reach a connection's ring. A handler may set `drop_after` between any two. -/
inductive SendCall
  | sendData (data : Bytes)
  | connWrite (results : List WriteResult)
  | tcpConnFlush (results : List WriteResult)
  | markDropAfter
  deriving DecidableEq, Repr

/-- A connection with what happened on it: whether `conn_write` has dropped it, the payloads it
accepted and the bytes the socket took. -/
structure SendHistory where
  out : SendSide
  dropped : Bool
  accepted : Bytes
  handed : Bytes

def SendHistory.fifo (history : SendHistory) : Fifo :=
  ⟨history.out.queued, history.accepted, history.handed⟩

/-- One call. No call is made on a connection that was dropped. -/
def sendStep (history : SendHistory) (call : SendCall) : SendHistory :=
  if history.dropped then history
  else match call with
    | .sendData data =>
      let (ret, after) := sendData history.out data
      { history with
        out := after
        accepted := if ret = 0 then history.accepted ++ data else history.accepted }
    | .connWrite results =>
      let (ending, after, taken) := connWrite history.out results
      { history with
        out := after
        dropped := ending = .droppedByError ∨ ending = .droppedAfter
        handed := history.handed ++ taken }
    | .tcpConnFlush results =>
      let (after, taken) := tcpConnFlush history.out results
      { history with out := after, handed := history.handed ++ taken }
    | .markDropAfter => { history with out := { history.out with dropAfter := true } }

/-- The calls made on a connection since `do_accept`, oldest first. -/
def sendRun (cells : ℕ → UInt8) (calls : List SendCall) : SendHistory :=
  calls.foldl sendStep ⟨freshSendSide cells, false, [], []⟩

/-- `conn_write` on a well-formed connection hands a front part of the queue to the socket, keeps
the connection well formed, and drops it without an error only when it is marked and empty. -/
theorem connWrite_spec (hwf : out.Wf) (results : List WriteResult) :
    (connWrite out results).2.1.Wf ∧
      (∃ amount, (connWrite out results).2.2 = out.queued.take amount ∧
        (connWrite out results).2.1.queued = out.queued.drop amount) ∧
      ((connWrite out results).1 = .droppedAfter →
        out.dropAfter = true ∧ (connWrite out results).2.1.queued = []) := by
  obtain ⟨hvalid, henabled⟩ := hwf
  obtain ⟨hdone, ⟨amount, hhanded, hqueue⟩, hend⟩ := drain_spec hvalid results
  have hstill : (drain out.sendBuf results).sendBuf.contents sendBufSize ≠ [] →
      out.writeEnabled = true := by
    intro hne
    refine henabled fun hnil ↦ hne ?_
    rw [hqueue]
    change out.queued.drop amount = []
    rw [hnil, drop_nil]
  unfold connWrite
  dsimp only
  split
  · exact ⟨⟨hdone, hstill⟩, ⟨amount, hhanded, hqueue⟩, nofun⟩
  · exact ⟨⟨hdone, hstill⟩, ⟨amount, hhanded, hqueue⟩, nofun⟩
  · rename_i hemptied
    have hnil := hend hemptied
    split_ifs with hdrop
    · exact ⟨⟨hdone, hstill⟩, ⟨amount, hhanded, hqueue⟩, fun _ ↦ ⟨hdrop, hnil⟩⟩
    · exact ⟨⟨hdone, fun hne ↦ absurd hnil hne⟩, ⟨amount, hhanded, hqueue⟩, nofun⟩

theorem handed_connWrite (out : SendSide) (results : List WriteResult) :
    (connWrite out results).2.2 = (drain out.sendBuf results).handed := by
  unfold connWrite
  dsimp only
  split
  · rfl
  · rfl
  · split_ifs <;> rfl

/-- `tcp_conn_flush` on a well-formed connection hands a front part of the queue to the socket and
keeps the connection well formed. -/
theorem tcpConnFlush_spec (hwf : out.Wf) (results : List WriteResult) :
    (tcpConnFlush out results).1.Wf ∧
      ∃ amount, (tcpConnFlush out results).2 = out.queued.take amount ∧
        (tcpConnFlush out results).1.queued = out.queued.drop amount := by
  obtain ⟨hvalid, henabled⟩ := hwf
  obtain ⟨hdone, ⟨amount, hhanded, hqueue⟩, -⟩ := drain_spec hvalid results
  refine ⟨⟨hdone, fun hne ↦ henabled fun hnil ↦ hne ?_⟩, amount, hhanded, hqueue⟩
  change (drain out.sendBuf results).sendBuf.contents sendBufSize = []
  rw [hqueue]
  change out.queued.drop amount = []
  rw [hnil, drop_nil]

/-- One call keeps a connection well formed and is at most one step of the queue it stands for. -/
theorem sendStep_refines {history : SendHistory} (hwf : history.out.Wf) (call : SendCall) :
    (sendStep history call).out.Wf ∧
      Relation.ReflTransGen (Fifo.Step 65535) history.fifo (sendStep history call).fifo := by
  unfold sendStep
  split_ifs with hdropped
  · exact ⟨hwf, .refl⟩
  cases call with
  | sendData data =>
    rcases sendData_spec hwf.1 data with ⟨hfits, hret, hvalid, hqueued, henabled⟩ | ⟨-, hrefused⟩
    · refine ⟨⟨hvalid, fun _ ↦ henabled⟩, .single ?_⟩
      have hstep := Fifo.Step.accept history.fifo data hfits
      simpa only [SendHistory.fifo, hret, hqueued, if_true] using hstep
    · simp only [hrefused]
      exact ⟨hwf, .refl⟩
  | connWrite results =>
    obtain ⟨hafter, ⟨amount, hhanded, hqueue⟩, -⟩ := connWrite_spec hwf results
    refine ⟨hafter, .single ?_⟩
    have hstep := @Fifo.Step.hand 65535 history.fifo amount
    simpa only [SendHistory.fifo, hhanded, hqueue] using hstep
  | tcpConnFlush results =>
    obtain ⟨hafter, amount, hhanded, hqueue⟩ := tcpConnFlush_spec hwf results
    refine ⟨hafter, .single ?_⟩
    have hstep := @Fifo.Step.hand 65535 history.fifo amount
    simpa only [SendHistory.fifo, hhanded, hqueue] using hstep
  | markDropAfter => exact ⟨hwf, .refl⟩

/-- Every sequence of calls keeps the connection well formed and is a run of the queue. -/
theorem sendRun_refines (cells : ℕ → UInt8) (calls : List SendCall) :
    (sendRun cells calls).out.Wf ∧
      Relation.ReflTransGen (Fifo.Step 65535) ⟨[], [], []⟩ (sendRun cells calls).fifo := by
  induction calls using List.reverseRecOn with
  | nil => exact ⟨wf_freshSendSide cells, .refl⟩
  | append_singleton calls call ih =>
    obtain ⟨hwf, hreach⟩ := ih
    obtain ⟨hafter, hstep⟩ := sendStep_refines hwf call
    rw [sendRun, foldl_append]
    exact ⟨hafter, hreach.trans hstep⟩

/-- The send ring refines a queue of at most 65535 bytes. After any sequence of calls, with any
payloads and any results of `write()`: both indices are in range, `avail_send_buf` is 65535 minus
the queued bytes, the bytes the socket took are followed in the accepted payloads by exactly the
queued ones, and a ring that is not empty has its write event enabled. The next `send_data` queues
its whole payload and returns 0 if there is room for it, and otherwise changes nothing and returns
1. The next `conn_write` or `tcp_conn_flush` hands bytes over if there are some and the first
`write()` takes some, and the next `conn_write` drops the connection without a write error only if
it is marked `drop_after` and its ring is empty. -/
theorem sendRing_refines_fifo (cells : ℕ → UInt8) (calls : List SendCall) :
    let history := sendRun cells calls
    history.out.sendBuf.read < 65536 ∧ history.out.sendBuf.write < 65536 ∧
      Relation.ReflTransGen (Fifo.Step 65535) ⟨[], [], []⟩ history.fifo ∧
      history.out.queued.length ≤ 65535 ∧
      availSendBuf history.out = 65535 - history.out.queued.length ∧
      history.handed ++ history.out.queued = history.accepted ∧
      (history.out.queued ≠ [] → history.out.writeEnabled = true) ∧
      (∀ data, (history.out.queued.length + data.length ≤ 65535 ∧
          (sendData history.out data).1 = 0 ∧
          (sendData history.out data).2.queued = history.out.queued ++ data) ∨
        (65535 < history.out.queued.length + data.length ∧
          (sendData history.out data).1 = 1 ∧ (sendData history.out data).2 = history.out)) ∧
      (∀ ret results, history.out.queued ≠ [] → 0 < ret →
        (connWrite history.out (.wrote ret :: results)).2.2 ≠ [] ∧
          (tcpConnFlush history.out (.wrote ret :: results)).2 ≠ []) ∧
      (∀ results, (connWrite history.out results).1 = .droppedAfter →
        history.out.dropAfter = true ∧ (connWrite history.out results).2.1.queued = []) := by
  intro history
  obtain ⟨⟨⟨hread, hwrite⟩, henabled⟩, hreach⟩ := sendRun_refines cells calls
  have hlawful := Fifo.lawful_of_reaches hreach ⟨Nat.zero_le _, rfl⟩
  refine ⟨hread, hwrite, hreach, hlawful.1, availSendBuf_eq ⟨hread, hwrite⟩, hlawful.2, henabled,
    fun data ↦ ?_, fun ret results hsome hret ↦ ?_,
    fun results ↦ (connWrite_spec ⟨⟨hread, hwrite⟩, henabled⟩ results).2.2⟩
  · rcases sendData_spec ⟨hread, hwrite⟩ data with ⟨hfits, hret, -, hqueued, -⟩ | ⟨hover, hrefused⟩
    · exact Or.inl ⟨hfits, hret, hqueued⟩
    · exact Or.inr ⟨hover, congrArg Prod.fst hrefused, congrArg Prod.snd hrefused⟩
  · have hhanded := drain_wrote ⟨hread, hwrite⟩ hsome hret results
    rw [handed_connWrite]
    exact ⟨hhanded, hhanded⟩

end WisCam.Connection
