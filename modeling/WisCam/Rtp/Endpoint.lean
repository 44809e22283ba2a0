import WisCam.Server.SendUnits

/-!
# RTP endpoints

`send_rtp_packet` and `rtcp_send` (`rtp.c`) on one endpoint. The transport is outside the model: an
`Outcome` says what the clock shows during a call and what `sendmsg`, `send` or `interleave_send`
return. Everything that is passed to the transport is recorded in `log` with what the transport
returned for it.

`interleave_send` returns 0 when it has queued the packet and 1 when the send ring has no room for
it, and it never fails, whereas `sendmsg` and `send` return a negative
number where they fail.
-/

set_option autoImplicit false

namespace WisCam.Rtp

open Foundations Connection Server List

/-! ### Frames -/

/-- `struct frame`, as far as the packetisers use it. `mem k` is `f->d[k]`, also where `k` lies
outside the frame; `stray` are the bytes behind a pointer that does not come from `f->d`. -/
structure Frame where
  length : ℕ
  mem : ℤ → UInt8
  stray : ℕ → UInt8
  timestamp : UInt32
  length_lt : length < 2147483648

/-- The bytes at a pointer. A pointer is an offset from `f->d`, or `none` where it is null or was
never set for this frame. -/
def Frame.bytes (f : Frame) (pointer : Option ℤ) (len : ℤ) : Bytes :=
  (List.range len.toNat).map fun k : ℕ ↦
    match pointer with
    | some offset => f.mem (offset + k)
    | none => f.stray k

@[simp] theorem Frame.length_bytes (f : Frame) (pointer : Option ℤ) (len : ℤ) :
    (f.bytes pointer len).length = len.toNat := by
  rw [Frame.bytes, length_map, length_range]

/-! ### The endpoint -/

/-- `trans_type`: 0 before the transport is chosen, `RTP_TRANS_UDP`, `RTP_TRANS_INTER`. -/
inductive TransType
  | unset
  | udp
  | inter
  deriving DecidableEq, Repr

/-- `struct timeval`, as `gettimeofday` sets it. -/
structure TimeOfDay where
  sec : ℕ
  usec : ℕ
  deriving DecidableEq, Repr

/-- `struct rtp_endpoint`, as far as sending uses it. The counters are ints that wrap around, kept
as their 32 bits; `seqnum` is an int below 65536; of the times the code reads the seconds only;
`rtcpSendEvent` says whether the timer is enabled. -/
structure RtpEndpoint where
  payload : ℕ
  maxDataSize : ℤ
  ssrc : UInt32
  startTimestamp : UInt32
  lastTimestamp : UInt32
  seqnum : UInt16
  packetCount : UInt32
  octetCount : UInt32
  rtcpSendEvent : Bool
  forceRtcp : Bool
  lastRtcpRecv : ℕ
  lastRtcpSend : ℕ
  transType : TransType
  deriving DecidableEq, Repr

/-- `new_rtp_endpoint` with the random numbers it draws, and the members that `live_setup` and the
connect functions set. -/
def newRtpEndpoint (payload : ℕ) (ssrc startTimestamp : UInt32) (seqnum : UInt16) (now : TimeOfDay)
    (maxDataSize : ℤ) (transType : TransType) : RtpEndpoint where
  payload := payload
  maxDataSize := maxDataSize
  ssrc := ssrc
  startTimestamp := startTimestamp
  lastTimestamp := startTimestamp
  seqnum := seqnum
  packetCount := 0
  octetCount := 0
  rtcpSendEvent := false
  forceRtcp := true
  lastRtcpRecv := now.sec
  lastRtcpSend := now.sec
  transType := transType

/-- A packet that was passed to the transport, with what `sendmsg`, `send` or `interleave_send`
returned. -/
inductive Transfer
  | rtp (packet : Bytes) (ret : ℤ)
  | rtcp (report : Bytes) (ret : ℤ)
  deriving DecidableEq, Repr

/-- An endpoint, whether its session has been told to tear it down, and what was passed to the
transport, oldest first. -/
structure Sender where
  ep : RtpEndpoint
  closed : Bool
  log : List Transfer
  deriving DecidableEq, Repr

/-- The RTP packets that were passed to the transport, with its answers. -/
def rtpPackets (log : List Transfer) : List (Bytes × ℤ) :=
  log.filterMap fun
    | .rtp packet ret => some (packet, ret)
    | .rtcp _ _ => none

theorem rtpPackets_rtp (log : List Transfer) (packet : Bytes) (ret : ℤ) :
    rtpPackets (log ++ [.rtp packet ret]) = rtpPackets log ++ [(packet, ret)] :=
  filterMap_append

theorem rtpPackets_rtcp (log : List Transfer) (report : Bytes) (ret : ℤ) :
    rtpPackets (log ++ [.rtcp report ret]) = rtpPackets log :=
  filterMap_append.trans (append_nil _)

/-- What happens during one call of `rtcp_send`: the time, and the answer of the transport. -/
structure RtcpOutcome where
  now : TimeOfDay
  ret : ℤ
  deriving DecidableEq, Repr

/-- What happens during one call of `send_rtp_packet`: the answer of the transport for the packet,
the time afterwards, and what happens during the call of `rtcp_send` if there is one. -/
structure Outcome where
  ret : ℤ
  now : TimeOfDay
  rtcp : RtcpOutcome
  deriving DecidableEq, Repr

/-! ### Sender reports -/

/-- The buffer that `rtcp_send` fills: a sender report and a source description. The fraction of the
second is computed in doubles, which are exact here. -/
def senderReport (ep : RtpEndpoint) (now : TimeOfDay) : Bytes :=
  [128, 200] ++ put16 6 ++ put32 ep.ssrc.toNat ++ put32 (now.sec + 0x83AA7E80) ++
    put32 (now.usec * 0x4000000 / 15625) ++ put32 ep.lastTimestamp.toNat ++
    put32 ep.packetCount.toNat ++ put32 ep.octetCount.toNat ++
    [129, 202] ++ put16 5 ++ put32 ep.ssrc.toNat ++ [1, 14] ++ ascii "Unnamed stream"

/-- `rtcp_send`. It returns -1 where it has torn the endpoint down. -/
def rtcpSend (outcome : RtcpOutcome) (s : Sender) : ℤ × Sender :=
  let ep := { s.ep with lastRtcpSend := outcome.now.sec, forceRtcp := false }
  let closed := (-1, { s with ep := ep, closed := true })
  if ep.transType ≠ .inter ∧ (outcome.now.sec : ℤ) - ep.lastRtcpRecv > 20 then closed
  else if ep.transType = .unset then closed
  else
    let log := s.log ++ [.rtcp (senderReport ep outcome.now) outcome.ret]
    if outcome.ret < 0 then (-1, { s with ep := ep, closed := true, log := log })
    else (0, { s with ep := ep, log := log })

/-! ### Packets -/

/-- The 12 bytes of `rtphdr`. -/
def rtpHeader (ep : RtpEndpoint) (marker : Bool) : Bytes :=
  [128, if marker then UInt8.ofNat ep.payload ||| 0x80 else UInt8.ofNat ep.payload] ++
    put16 ep.seqnum.toNat ++ put32 ep.lastTimestamp.toNat ++ put32 ep.ssrc.toNat

/-- `for (i = 0; i < count; ++i) ep->octet_count += v[i].iov_len;` -/
def addOctets (octets : UInt32) (v : List Bytes) : UInt32 :=
  v.foldl (fun octets data ↦ octets + UInt32.ofNat data.length) octets

/-- The end of `send_rtp_packet`: a report is forced, or one is due after ten seconds without
one. -/
def reportWhenDue (outcome : Outcome) (s : Sender) : ℤ × Sender :=
  if s.ep.forceRtcp then
    let (ret, s) := rtcpSend outcome.rtcp s
    if ret < 0 then (-1, s) else (0, { s with ep := { s.ep with rtcpSendEvent := true } })
  else if (outcome.now.sec : ℤ) - s.ep.lastRtcpSend > 10 then rtcpSend outcome.rtcp s
  else (0, s)

/-- `ep->last_timestamp = (ep->start_timestamp + timestamp) & 0xFFFFFFFF;` -/
def RtpEndpoint.stamp (ep : RtpEndpoint) (timestamp : UInt32) : RtpEndpoint :=
  { ep with lastTimestamp := ep.startTimestamp + timestamp }

/-- The counters and the sequence number after a packet of the given buffers. -/
def RtpEndpoint.count (ep : RtpEndpoint) (v : List Bytes) : RtpEndpoint :=
  { ep with
    octetCount := addOctets ep.octetCount v
    packetCount := ep.packetCount + 1
    seqnum := ep.seqnum + 1 }

/-- `send_rtp_packet`, for the buffers `v[1]` to `v[count - 1]`; it fills `v[0]` itself. It returns
-1 where the endpoint has been torn down. -/
def sendRtpPacket (outcome : Outcome) (s : Sender) (v : List Bytes) (timestamp : UInt32)
    (marker : Bool) : ℤ × Sender :=
  let ep := s.ep.stamp timestamp
  let v := rtpHeader ep marker :: v
  match ep.transType with
  | .unset => reportWhenDue outcome { s with ep := ep.count v }
  | .udp | .inter =>
    let log := s.log ++ [.rtp v.flatten outcome.ret]
    if outcome.ret < 0 then (-1, { s with ep := ep, closed := true, log := log })
    else reportWhenDue outcome { s with ep := ep.count v, log := log }

variable {s : Sender}

theorem sendRtpPacket_unset (hunset : s.ep.transType = .unset) (outcome : Outcome) (v : List Bytes)
    (timestamp : UInt32) (marker : Bool) :
    sendRtpPacket outcome s v timestamp marker = reportWhenDue outcome
      ⟨(s.ep.stamp timestamp).count (rtpHeader (s.ep.stamp timestamp) marker :: v), s.closed,
        s.log⟩ := by
  simp only [sendRtpPacket, RtpEndpoint.stamp, hunset]

theorem sendRtpPacket_connected (hconnected : s.ep.transType ≠ .unset) (outcome : Outcome)
    (v : List Bytes) (timestamp : UInt32) (marker : Bool) :
    sendRtpPacket outcome s v timestamp marker =
      if outcome.ret < 0 then
        (-1, ⟨s.ep.stamp timestamp, true,
          s.log ++ [.rtp (rtpHeader (s.ep.stamp timestamp) marker ++ v.flatten) outcome.ret]⟩)
      else
        reportWhenDue outcome
          ⟨(s.ep.stamp timestamp).count (rtpHeader (s.ep.stamp timestamp) marker :: v), s.closed,
            s.log ++ [.rtp (rtpHeader (s.ep.stamp timestamp) marker ++ v.flatten) outcome.ret]⟩ := by
  cases htype : s.ep.transType with
  | unset => exact absurd htype hconnected
  | udp => simp only [sendRtpPacket, RtpEndpoint.stamp, htype, flatten_cons]
  | inter => simp only [sendRtpPacket, RtpEndpoint.stamp, htype, flatten_cons]

/-! ### What a packet does to the log -/

theorem rtpPackets_rtcpSend (outcome : RtcpOutcome) (s : Sender) :
    rtpPackets (rtcpSend outcome s).2.log = rtpPackets s.log := by
  unfold rtcpSend
  dsimp only
  split_ifs
  · rfl
  · rfl
  · exact rtpPackets_rtcp s.log _ _
  · exact rtpPackets_rtcp s.log _ _

theorem rtpPackets_reportWhenDue (outcome : Outcome) (s : Sender) :
    rtpPackets (reportWhenDue outcome s).2.log = rtpPackets s.log := by
  have hsend := rtpPackets_rtcpSend outcome.rtcp s
  unfold reportWhenDue
  dsimp only
  split_ifs
  · exact hsend
  · exact hsend
  · exact hsend
  · rfl

/-- A call of `send_rtp_packet` passes one RTP packet to the transport, if there is a transport. -/
theorem rtpPackets_sendRtpPacket (outcome : Outcome) (s : Sender) (v : List Bytes)
    (timestamp : UInt32) (marker : Bool) :
    rtpPackets (sendRtpPacket outcome s v timestamp marker).2.log = rtpPackets s.log ++
      if s.ep.transType = .unset then []
      else [(rtpHeader (s.ep.stamp timestamp) marker ++ v.flatten, outcome.ret)] := by
  by_cases hunset : s.ep.transType = .unset
  · rw [if_pos hunset, append_nil, sendRtpPacket_unset hunset]
    exact rtpPackets_reportWhenDue outcome _
  · rw [if_neg hunset, sendRtpPacket_connected hunset]
    split_ifs
    · exact rtpPackets_rtp s.log _ _
    · rw [rtpPackets_reportWhenDue]
      exact rtpPackets_rtp s.log _ _

theorem rtpPackets_le_sendRtpPacket (outcome : Outcome) (s : Sender) (v : List Bytes)
    (timestamp : UInt32) (marker : Bool) :
    rtpPackets s.log <+: rtpPackets (sendRtpPacket outcome s v timestamp marker).2.log := by
  rw [rtpPackets_sendRtpPacket]
  exact prefix_append _ _

@[simp] theorem length_rtpHeader (ep : RtpEndpoint) (marker : Bool) :
    (rtpHeader ep marker).length = 12 := rfl

/-! ### Sends that succeed -/

/-- Nothing goes wrong during a call of `send_rtp_packet`: the transport does not fail, and a client
that is to send RTCP packets has sent one in the last 20 seconds. -/
structure Outcome.Succeeds (outcome : Outcome) (ep : RtpEndpoint) : Prop where
  rtp : 0 ≤ outcome.ret
  rtcp : 0 ≤ outcome.rtcp.ret
  alive : ep.transType = .inter ∨ (outcome.rtcp.now.sec : ℤ) - ep.lastRtcpRecv ≤ 20

/-- An endpoint whose sends all succeed. -/
structure SendsSucceed (env : ℕ → Outcome) (ep : RtpEndpoint) : Prop where
  connected : ep.transType ≠ .unset
  succeeds : ∀ k, (env k).Succeeds ep

/-- What sending leaves alone. -/
structure SameEndpoint (ep ep' : RtpEndpoint) : Prop where
  payload : ep'.payload = ep.payload
  maxDataSize : ep'.maxDataSize = ep.maxDataSize
  ssrc : ep'.ssrc = ep.ssrc
  startTimestamp : ep'.startTimestamp = ep.startTimestamp
  transType : ep'.transType = ep.transType
  lastRtcpRecv : ep'.lastRtcpRecv = ep.lastRtcpRecv

theorem SameEndpoint.refl (ep : RtpEndpoint) : SameEndpoint ep ep :=
  ⟨rfl, rfl, rfl, rfl, rfl, rfl⟩

theorem SameEndpoint.trans {ep ep' ep'' : RtpEndpoint} (hfirst : SameEndpoint ep ep')
    (hsecond : SameEndpoint ep' ep'') : SameEndpoint ep ep'' where
  payload := hsecond.payload.trans hfirst.payload
  maxDataSize := hsecond.maxDataSize.trans hfirst.maxDataSize
  ssrc := hsecond.ssrc.trans hfirst.ssrc
  startTimestamp := hsecond.startTimestamp.trans hfirst.startTimestamp
  transType := hsecond.transType.trans hfirst.transType
  lastRtcpRecv := hsecond.lastRtcpRecv.trans hfirst.lastRtcpRecv

theorem SendsSucceed.congr {env : ℕ → Outcome} {ep ep' : RtpEndpoint}
    (hsucceed : SendsSucceed env ep) (hsame : SameEndpoint ep ep') : SendsSucceed env ep' := by
  refine ⟨?_, fun k ↦ ⟨(hsucceed.succeeds k).rtp, (hsucceed.succeeds k).rtcp, ?_⟩⟩
  · rw [hsame.transType]
    exact hsucceed.connected
  · rw [hsame.transType, hsame.lastRtcpRecv]
    exact (hsucceed.succeeds k).alive

theorem rtcpSend_endpoint (outcome : RtcpOutcome) (s : Sender) :
    SameEndpoint s.ep (rtcpSend outcome s).2.ep ∧ (rtcpSend outcome s).2.ep.seqnum = s.ep.seqnum := by
  unfold rtcpSend
  dsimp only
  split_ifs
  · exact ⟨⟨rfl, rfl, rfl, rfl, rfl, rfl⟩, rfl⟩
  · exact ⟨⟨rfl, rfl, rfl, rfl, rfl, rfl⟩, rfl⟩
  · exact ⟨⟨rfl, rfl, rfl, rfl, rfl, rfl⟩, rfl⟩
  · exact ⟨⟨rfl, rfl, rfl, rfl, rfl, rfl⟩, rfl⟩

theorem reportWhenDue_endpoint (outcome : Outcome) (s : Sender) :
    SameEndpoint s.ep (reportWhenDue outcome s).2.ep ∧
      (reportWhenDue outcome s).2.ep.seqnum = s.ep.seqnum := by
  obtain ⟨hsame, hseqnum⟩ := rtcpSend_endpoint outcome.rtcp s
  unfold reportWhenDue
  dsimp only
  split_ifs
  · exact ⟨hsame, hseqnum⟩
  · exact ⟨⟨hsame.payload, hsame.maxDataSize, hsame.ssrc, hsame.startTimestamp, hsame.transType,
      hsame.lastRtcpRecv⟩, hseqnum⟩
  · exact ⟨hsame, hseqnum⟩
  · exact ⟨SameEndpoint.refl s.ep, rfl⟩

/-- Whatever happens, `send_rtp_packet` changes only counters, times and flags of the endpoint. -/
theorem sendRtpPacket_endpoint (outcome : Outcome) (s : Sender) (v : List Bytes)
    (timestamp : UInt32) (marker : Bool) :
    SameEndpoint s.ep (sendRtpPacket outcome s v timestamp marker).2.ep := by
  have hreport (s' : Sender) (hsame : SameEndpoint s.ep s'.ep) :
      SameEndpoint s.ep (reportWhenDue outcome s').2.ep :=
    hsame.trans (reportWhenDue_endpoint outcome s').1
  by_cases hunset : s.ep.transType = .unset
  · rw [sendRtpPacket_unset hunset]
    exact hreport _ ⟨rfl, rfl, rfl, rfl, rfl, rfl⟩
  · rw [sendRtpPacket_connected hunset]
    split_ifs
    · exact ⟨rfl, rfl, rfl, rfl, rfl, rfl⟩
    · exact hreport _ ⟨rfl, rfl, rfl, rfl, rfl, rfl⟩

theorem rtcpSend_succeeds {outcome : RtcpOutcome} (hconnected : s.ep.transType ≠ .unset)
    (hret : 0 ≤ outcome.ret)
    (halive : s.ep.transType = .inter ∨ (outcome.now.sec : ℤ) - s.ep.lastRtcpRecv ≤ 20) :
    (rtcpSend outcome s).1 = 0 := by
  unfold rtcpSend
  dsimp only
  split_ifs with htimeout hfails
  · rcases halive with hinter | hrecent
    · exact absurd hinter htimeout.1
    · exact absurd htimeout.2 (Int.not_lt.mpr hrecent)
  · exact absurd hfails (Int.not_lt.mpr hret)
  · rfl

/-- A packet that is sent with success: `send_rtp_packet` returns 0, and the sequence number has
advanced by one. -/
theorem sendRtpPacket_succeeds {outcome : Outcome} (hconnected : s.ep.transType ≠ .unset)
    (hsucceeds : outcome.Succeeds s.ep) (v : List Bytes) (timestamp : UInt32) (marker : Bool) :
    (sendRtpPacket outcome s v timestamp marker).1 = 0 ∧
      (sendRtpPacket outcome s v timestamp marker).2.ep.seqnum = s.ep.seqnum + 1 := by
  rw [sendRtpPacket_connected hconnected, if_neg (Int.not_lt.mpr hsucceeds.rtp)]
  constructor
  · have hreport (s' : Sender) (hsame : SameEndpoint s.ep s'.ep) :
        (reportWhenDue outcome s').1 = 0 := by
      have hsent : (rtcpSend outcome.rtcp s').1 = 0 := by
        refine rtcpSend_succeeds ?_ hsucceeds.rtcp ?_
        · rw [hsame.transType]
          exact hconnected
        · rw [hsame.transType, hsame.lastRtcpRecv]
          exact hsucceeds.alive
      unfold reportWhenDue
      dsimp only
      rw [hsent]
      split_ifs with hforce hfails hdue
      · exact absurd hfails (by decide)
      · rfl
      · exact hsent
      · rfl
    exact hreport _ ⟨rfl, rfl, rfl, rfl, rfl, rfl⟩
  · rw [(reportWhenDue_endpoint outcome _).2]
    rfl

end WisCam.Rtp
