import Mathlib.Data.Rat.Cast.Order
import WisCam.Foundations.Bytes
import WisCam.Foundations.Fallible

/-!
# Receiver reports

`ProcRTCPPacket` (`rtcp-parse.c`) walks through the packets of a received RTCP datagram and passes
the first report block of each receiver report to `ComputeRTT` and to the QoS analyser
(`qos-analyzer.c`). A datagram is a list of bytes, a pointer into it an offset, and a read at an
offset outside of it the fault `outside`. The walk has a bound on its rounds, and to exceed it is
the fault `endless`.

The packets of a datagram are cut out by the lengths that they claim. A report block is used if it
lies inside the datagram and inside its packet as claimed, and the two conditions are checked in
different functions. `procRTCPPacket_ok` says that together they are enough: no datagram leads to a
fault. `rtt_changes_iff` says when each change of the round-trip time is the work of a report about
this endpoint. The code looks neither at the version of the later packets nor at the number of
report blocks nor at the SSRC, and it computes the time in unsigned numbers, so that no result is
negative.

Left out: the suggestions of the analyser, which have no effect, and the rounding of its statistics
to single precision. `TimevalToNTP`, which is computed in doubles, is an input.
-/

set_option autoImplicit false

namespace WisCam.Rtp

open Foundations

/-! ### Reading the datagram -/

/-- What would go wrong: a byte outside the datagram is read, or the packets do not come to an
end. -/
inductive RtcpFault
  | outside
  | endless
deriving DecidableEq, Repr

/-- The byte at an offset of the datagram. -/
def byteAt (data : Bytes) (offset : ℕ) : Except RtcpFault UInt8 :=
  match data[offset]? with
  | some b => .ok b
  | none => .error .outside

/-- `ntohs` of the two bytes at an offset. -/
def ntohsAt (data : Bytes) (offset : ℕ) : Except RtcpFault ℕ := do
  let high ← byteAt data offset
  let low ← byteAt data (offset + 1)
  .ok (get16 high low)

/-- `ntohl` of the four bytes at an offset. -/
def ntohlAt (data : Bytes) (offset : ℕ) : Except RtcpFault UInt32 := do
  let b₃ ← byteAt data offset
  let b₂ ← byteAt data (offset + 1)
  let b₁ ← byteAt data (offset + 2)
  let b₀ ← byteAt data (offset + 3)
  .ok (UInt32.ofNat (get32 b₃ b₂ b₁ b₀))

/-! ### Packets and report blocks -/

/-- `RTCPGetCommonHeader`: the header at the read pointer, unless fewer than four bytes are left. -/
def rtcpGetCommonHeader (data : Bytes) (readPtr : ℕ) : Option ℕ :=
  if data.length - readPtr < 4 then none else some readPtr

def rtcpGetSize (data : Bytes) (readPtr : ℕ) : Except RtcpFault ℤ :=
  match rtcpGetCommonHeader data readPtr with
  | none => .ok (-1)
  | some commonHdr => do
    let length ← ntohsAt data (commonHdr + 2)
    .ok ((1 + length) * 4)

/-- `RTCPNextPacket`: the read pointer of the next packet of a compound packet. -/
def rtcpNextPacket (data : Bytes) (readPtr : ℕ) : Except RtcpFault (Option ℕ) := do
  let nextLen ← rtcpGetSize data readPtr
  if nextLen ≥ 0 ∧ readPtr + nextLen < data.length then
    .ok (some (readPtr + nextLen.toNat))
  else .ok none

/-- `RTCPisRR`: the type is `eRTCP_RR`, and an `S_RTCP_RR` of 32 bytes is left of the datagram. -/
def rtcpIsRR (data : Bytes) (readPtr : ℕ) : Except RtcpFault Bool :=
  match rtcpGetCommonHeader data readPtr with
  | none => .ok false
  | some commonHdr => do
    let packetType ← byteAt data (commonHdr + 1)
    if packetType = 201 then .ok (!decide (data.length - readPtr < 32)) else .ok false

/-- `RTCP_RR_GetReportBlock`: the report block at an index, if it lies in the packet as claimed. -/
def rtcpRRGetReportBlock (data : Bytes) (readPtr idx : ℕ) : Except RtcpFault (Option ℕ) := do
  let reportBlock := readPtr + 8 + 24 * idx
  let size ← rtcpGetSize data readPtr
  if ((reportBlock + 24 : ℕ) : ℤ) ≤ readPtr + size then .ok (some reportBlock)
  else do
    -- the report count is read here, and only for a message to the log
    let _rc ← byteAt data readPtr
    .ok none

/-! ### The endpoint -/

/-- `i32Format`, as far as `ProcRTCPPacket` tells formats apart. -/
inductive StreamFormat
  | h264
  | jpeg
  | other
deriving DecidableEq, Repr

/-- `S_RTP_STATS`. -/
structure RtpStats where
  highSeqRecv : ℕ
  lostPercentage : ℚ
  intJitter : ℚ
  roundTripProp : ℚ
deriving DecidableEq

/-- `SimpleQosAnalyser`, with the `STATS_HISTORY` entries of its statistics. -/
structure SimpleQosAnalyser where
  ssrc : UInt32
  stats : List RtpStats
  curIndex : Int32
deriving DecidableEq

/-- `struct rtp_endpoint`, as far as RTCP packets are concerned. -/
structure RtcpEndpoint where
  ssrc : UInt32
  format : StreamFormat
  rtt : ℚ
  qosAnalyser : Option SimpleQosAnalyser
deriving DecidableEq

/-- `SimpleAnalyserProcRTCP`, given the round-trip time of the endpoint. -/
def simpleAnalyserProcRTCP (obj : SimpleQosAnalyser) (rtt : ℚ) (data : Bytes) (readPtr : ℕ)
    (clockRate : ℕ) : Except RtcpFault (SimpleQosAnalyser × Bool) := do
  match ← rtcpRRGetReportBlock data readPtr 0 with
  | none => .ok (obj, false)
  | some rb => do
    let ssrc ← ntohlAt data rb
    if ssrc = obj.ssrc then do
      let curIndex := obj.curIndex + 1
      let highExtSeq ← ntohlAt data (rb + 8)
      let fractionCumLost ← ntohlAt data (rb + 4)
      let jitter ← ntohlAt data (rb + 12)
      let cur : RtpStats :=
        { highSeqRecv := highExtSeq.toNat
          lostPercentage := 100 * ((fractionCumLost.toNat / 2 ^ 24 : ℕ) : ℚ) / 256
          intJitter := 1000 * (jitter.toNat : ℚ) / clockRate
          roundTripProp := rtt }
      -- after 2^31 reports the index is negative, and the entry before the array is none of these
      let stats := if 0 ≤ curIndex then obj.stats.set (curIndex % 3).toNatClampNeg cur else obj.stats
      .ok ({ obj with curIndex := curIndex, stats := stats }, true)
    else .ok (obj, true)

/-- `ComputeRTT` for the report block at an offset; `curNTP` is the time as `TimevalToNTP` gives
it. -/
def computeRTT (ep : RtcpEndpoint) (curNTP : UInt64) (data : Bytes) (reportBlock : ℕ) :
    Except RtcpFault RtcpEndpoint := do
  let approxNTP := (curNTP >>> 16).toUInt32
  let lastSRTime ← ntohlAt data (reportBlock + 16)
  let lastSRDelay ← ntohlAt data (reportBlock + 20)
  if lastSRTime ≠ 0 ∧ lastSRDelay ≠ 0 then
    -- the difference of unsigned numbers is converted to a double afterwards
    let rttFrac : ℚ := (approxNTP - lastSRTime - lastSRDelay).toNat
    if rttFrac ≥ 0 then .ok { ep with rtt := rttFrac / 65536 } else .ok ep
  else .ok ep

/-- One round of the loop in `ProcRTCPPacket`, at the packet that the read pointer points to. -/
def procPacket (curNTP : UInt64) (data : Bytes) (readPtr : ℕ) (ep : RtcpEndpoint) :
    Except RtcpFault RtcpEndpoint := do
  if ← rtcpIsRR data readPtr then
    match ← rtcpRRGetReportBlock data readPtr 0 with
    | none => .ok ep
    | some reportBlock => do
      let ep ← computeRTT ep curNTP data reportBlock
      if ep.format = .h264 ∨ ep.format = .jpeg then
        match ep.qosAnalyser with
        | none => .ok ep
        | some obj => do
          let (obj, _) ← simpleAnalyserProcRTCP obj ep.rtt data readPtr 90000
          .ok { ep with qosAnalyser := some obj }
      else .ok ep
  else .ok ep

/-- The loop of `ProcRTCPPacket`. The time is looked up for each packet; `clock` gives it for the
packet at an offset. -/
def packetLoop (clock : ℕ → UInt64) (data : Bytes) :
    ℕ → ℕ → RtcpEndpoint → Except RtcpFault RtcpEndpoint
  | 0, _, _ => .error .endless
  | fuel + 1, readPtr, ep => do
    let ep ← procPacket (clock readPtr) data readPtr ep
    match ← rtcpNextPacket data readPtr with
    | some readPtr => packetLoop clock data fuel readPtr ep
    | none => .ok ep

/-- `ProcRTCPPacket`. -/
def procRTCPPacket (clock : ℕ → UInt64) (data : Bytes) (ep : RtcpEndpoint) :
    Except RtcpFault RtcpEndpoint :=
  if data.length < 4 then .ok ep
  else do
    let first ← byteAt data 0
    if first.toNat / 64 ≠ 2 then .ok ep else packetLoop clock data data.length 0 ep

/-! ### What a datagram says -/

section Contents

variable (data : Bytes) (offset : ℕ)

/-- The byte at an offset, 0 outside. -/
def byteOf : UInt8 := data.getD offset 0

/-- The two-byte number at an offset. -/
def halfOf : ℕ := get16 (byteOf data offset) (byteOf data (offset + 1))

/-- The four-byte number at an offset. -/
def wordOf : UInt32 :=
  UInt32.ofNat (get32 (byteOf data offset) (byteOf data (offset + 1)) (byteOf data (offset + 2))
    (byteOf data (offset + 3)))

/-- The length in bytes that the packet at an offset claims. -/
def claimedSize : ℕ := (1 + halfOf data (offset + 2)) * 4

/-- The packet at an offset is a receiver report whose first report block lies in the datagram and
in the packet as claimed. -/
def Reports : Prop :=
  byteOf data (offset + 1) = 201 ∧ offset + 32 ≤ data.length ∧ 32 ≤ claimedSize data offset

/-- A report whose LSR and DLSR are not zero. -/
def Timed : Prop :=
  Reports data offset ∧ wordOf data (offset + 24) ≠ 0 ∧ wordOf data (offset + 28) ≠ 0

/-- Now - LSR - DLSR in 32 bits. -/
def delayOf (curNTP : UInt64) : UInt32 :=
  (curNTP >>> 16).toUInt32 - wordOf data (offset + 24) - wordOf data (offset + 28)

/-- A report from which the round-trip time to the endpoint with this SSRC can be told. -/
structure Qualifies (curNTP : UInt64) (ssrc : UInt32) : Prop where
  timed : Timed data offset
  version : (byteOf data offset).toNat / 64 = 2
  count : 1 ≤ (byteOf data offset).toNat % 32
  own : wordOf data (offset + 8) = ssrc
  nonneg : 0 ≤ (delayOf data offset curNTP).toInt32.toInt

instance : Decidable (Reports data offset) := inferInstanceAs (Decidable (_ ∧ _))

instance : Decidable (Timed data offset) := inferInstanceAs (Decidable (_ ∧ _))

end Contents

/-- The offsets of the packets from one packet on, by the lengths that the packets claim. -/
def packetsFrom (data : Bytes) : ℕ → ℕ → List ℕ
  | 0, _ => []
  | fuel + 1, offset =>
    offset :: if offset + 4 ≤ data.length ∧ offset + claimedSize data offset < data.length then
        packetsFrom data fuel (offset + claimedSize data offset)
      else []

/-- The offsets of the packets that are looked at. -/
def packets (data : Bytes) : List ℕ :=
  if 4 ≤ data.length ∧ (byteOf data 0).toNat / 64 = 2 then packetsFrom data data.length 0 else []

/-- The packets at the given offsets one after another. -/
def procPackets (clock : ℕ → UInt64) (data : Bytes) (offsets : List ℕ) (ep : RtcpEndpoint) :
    Except RtcpFault RtcpEndpoint :=
  offsets.foldlM (fun ep offset ↦ procPacket (clock offset) data offset ep) ep

/-! ### Reads inside the datagram -/

variable {data : Bytes} {offset : ℕ}

theorem byteAt_eq (hoffset : offset < data.length) : byteAt data offset = .ok (byteOf data offset) := by
  rw [byteAt, byteOf, List.getD_eq_getElem?_getD, List.getElem?_eq_getElem hoffset]
  rfl

theorem ntohsAt_eq (hoffset : offset + 2 ≤ data.length) :
    ntohsAt data offset = .ok (halfOf data offset) := by
  rw [ntohsAt, byteAt_eq (by omega), byteAt_eq (by omega)]
  rfl

theorem ntohlAt_eq (hoffset : offset + 4 ≤ data.length) :
    ntohlAt data offset = .ok (wordOf data offset) := by
  rw [ntohlAt, byteAt_eq (by omega), byteAt_eq (by omega), byteAt_eq (by omega),
    byteAt_eq (by omega)]
  rfl

theorem rtcpGetCommonHeader_eq (data : Bytes) (offset : ℕ) :
    rtcpGetCommonHeader data offset = if offset + 4 ≤ data.length then some offset else none := by
  rw [rtcpGetCommonHeader]
  by_cases hroom : offset + 4 ≤ data.length
  · rw [if_neg (by omega), if_pos hroom]
  · rw [if_pos (by omega), if_neg hroom]

theorem rtcpGetSize_eq (data : Bytes) (offset : ℕ) :
    rtcpGetSize data offset =
      .ok (if offset + 4 ≤ data.length then (claimedSize data offset : ℤ) else -1) := by
  rw [rtcpGetSize, rtcpGetCommonHeader_eq]
  by_cases hroom : offset + 4 ≤ data.length
  · rw [if_pos hroom, if_pos hroom]
    show (ntohsAt data (offset + 2) >>= _) = _
    rw [ntohsAt_eq (by omega), ok_bind, claimedSize]
    push_cast
    rfl
  · rw [if_neg hroom, if_neg hroom]

theorem rtcpNextPacket_eq (data : Bytes) (offset : ℕ) :
    rtcpNextPacket data offset =
      .ok (if offset + 4 ≤ data.length ∧ offset + claimedSize data offset < data.length then
        some (offset + claimedSize data offset) else none) := by
  rw [rtcpNextPacket, rtcpGetSize_eq, ok_bind]
  by_cases hroom : offset + 4 ≤ data.length
  · rw [if_pos hroom]
    by_cases hnext : offset + claimedSize data offset < data.length
    · rw [if_pos (by omega), if_pos ⟨hroom, hnext⟩, Int.toNat_natCast]
    · rw [if_neg (by omega), if_neg (fun h ↦ hnext h.2)]
  · rw [if_neg hroom, if_neg (by omega), if_neg (fun h ↦ hroom h.1)]

theorem rtcpIsRR_eq (data : Bytes) (offset : ℕ) :
    rtcpIsRR data offset =
      .ok (decide (byteOf data (offset + 1) = 201 ∧ offset + 32 ≤ data.length)) := by
  rw [rtcpIsRR, rtcpGetCommonHeader_eq]
  by_cases hroom : offset + 4 ≤ data.length
  · rw [if_pos hroom]
    show (byteAt data (offset + 1) >>= _) = _
    rw [byteAt_eq (by omega), ok_bind]
    by_cases htype : byteOf data (offset + 1) = 201
    · rw [if_pos htype, ← decide_not]
      congr 1
      rw [decide_eq_decide]
      constructor
      · intro hlong
        exact ⟨htype, by omega⟩
      · rintro ⟨-, hlong⟩
        omega
    · rw [if_neg htype, decide_eq_false (fun h ↦ htype h.1)]
  · have hshort : ¬(byteOf data (offset + 1) = 201 ∧ offset + 32 ≤ data.length) :=
      fun h ↦ hroom (by omega)
    rw [if_neg hroom, decide_eq_false hshort]

theorem rtcpRRGetReportBlock_eq (hoffset : offset + 32 ≤ data.length) :
    rtcpRRGetReportBlock data offset 0 =
      .ok (if 32 ≤ claimedSize data offset then some (offset + 8) else none) := by
  have hroom : offset + 4 ≤ data.length := by omega
  rw [rtcpRRGetReportBlock, rtcpGetSize_eq, if_pos hroom, ok_bind]
  by_cases hsize : 32 ≤ claimedSize data offset
  · rw [if_pos (by omega), if_pos hsize]
  · rw [if_neg (by omega), if_neg hsize, byteAt_eq (by omega)]
    rfl

theorem simpleAnalyserProcRTCP_ok (obj : SimpleQosAnalyser) (rtt : ℚ) (clockRate : ℕ)
    (hreports : Reports data offset) :
    ∃ obj', simpleAnalyserProcRTCP obj rtt data offset clockRate = .ok (obj', true) := by
  obtain ⟨-, hroom, hsize⟩ := hreports
  rw [simpleAnalyserProcRTCP, rtcpRRGetReportBlock_eq hroom, ok_bind, if_pos hsize]
  show ∃ obj', (ntohlAt data (offset + 8) >>= _) = _
  rw [ntohlAt_eq (by omega), ok_bind]
  by_cases hssrc : wordOf data (offset + 8) = obj.ssrc
  · rw [if_pos hssrc, ntohlAt_eq (by omega), ntohlAt_eq (by omega), ntohlAt_eq (by omega)]
    exact ⟨_, rfl⟩
  · rw [if_neg hssrc]
    exact ⟨obj, rfl⟩

/-- The round-trip time that the report at an offset leads to. -/
def measured (data : Bytes) (offset : ℕ) (curNTP : UInt64) : ℚ :=
  ((delayOf data offset curNTP).toNat : ℚ) / 65536

theorem computeRTT_eq (ep : RtcpEndpoint) (curNTP : UInt64) (hreports : Reports data offset) :
    computeRTT ep curNTP data (offset + 8) =
      .ok (if Timed data offset then { ep with rtt := measured data offset curNTP } else ep) := by
  obtain ⟨-, hroom, -⟩ := id hreports
  rw [computeRTT, ntohlAt_eq (by omega), ok_bind, ntohlAt_eq (by omega), ok_bind]
  show (if wordOf data (offset + 24) ≠ 0 ∧ wordOf data (offset + 28) ≠ 0 then _ else _) = _
  by_cases hwords : wordOf data (offset + 24) ≠ 0 ∧ wordOf data (offset + 28) ≠ 0
  · -- a natural number is never negative
    rw [if_pos hwords, if_pos (Nat.cast_nonneg _), if_pos ⟨hreports, hwords⟩]
    rfl
  · rw [if_neg hwords, if_neg (fun h ↦ hwords h.2)]

/-- A round ends without a fault and sets the round-trip time in the case of a timed report only. -/
theorem procPacket_ok (curNTP : UInt64) (data : Bytes) (offset : ℕ) (ep : RtcpEndpoint) :
    ∃ ep', procPacket curNTP data offset ep = .ok ep' ∧
      ep'.rtt = if Timed data offset then measured data offset curNTP else ep.rtt := by
  rw [procPacket, rtcpIsRR_eq, ok_bind]
  by_cases hrr : byteOf data (offset + 1) = 201 ∧ offset + 32 ≤ data.length
  · rw [decide_eq_true hrr, if_pos rfl, rtcpRRGetReportBlock_eq hrr.2, ok_bind]
    by_cases hsize : 32 ≤ claimedSize data offset
    · have hreports : Reports data offset := ⟨hrr.1, hrr.2, hsize⟩
      rw [if_pos hsize]
      show ∃ ep', (computeRTT ep curNTP data (offset + 8) >>= _) = _ ∧ _
      rw [computeRTT_eq ep curNTP hreports, ok_bind]
      generalize hnext : (if Timed data offset then
        { ep with rtt := measured data offset curNTP } else ep) = next
      have hrtt : next.rtt = if Timed data offset then measured data offset curNTP else ep.rtt := by
        rw [← hnext, apply_ite RtcpEndpoint.rtt]
      by_cases hformat : next.format = .h264 ∨ next.format = .jpeg
      · rw [if_pos hformat]
        cases next.qosAnalyser with
        | none => exact ⟨next, rfl, hrtt⟩
        | some obj =>
          obtain ⟨obj', hobj'⟩ := simpleAnalyserProcRTCP_ok obj next.rtt 90000 hreports
          show ∃ ep', (simpleAnalyserProcRTCP obj next.rtt data offset 90000 >>= _) = _ ∧ _
          rw [hobj', ok_bind]
          exact ⟨_, rfl, hrtt⟩
      · rw [if_neg hformat]
        exact ⟨next, rfl, hrtt⟩
    · rw [if_neg hsize, if_neg (fun h : Timed data offset ↦ hsize h.1.2.2)]
      exact ⟨ep, rfl, rfl⟩
  · rw [decide_eq_false hrr, if_neg Bool.false_ne_true,
      if_neg (fun h : Timed data offset ↦ hrr ⟨h.1.1, h.1.2.1⟩)]
    exact ⟨ep, rfl, rfl⟩

/-! ### The walk through the packets -/

theorem packetLoop_eq (clock : ℕ → UInt64) (data : Bytes) (fuel offset : ℕ)
    (hoffset : offset < data.length) (hfuel : data.length ≤ offset + fuel) (ep : RtcpEndpoint) :
    packetLoop clock data fuel offset ep =
      procPackets clock data (packetsFrom data fuel offset) ep := by
  induction fuel generalizing offset ep with
  | zero => omega
  | succ fuel ih =>
    rw [packetLoop, packetsFrom, procPackets, List.foldlM_cons]
    congr 1
    funext ep'
    rw [rtcpNextPacket_eq, ok_bind]
    by_cases hnext : offset + 4 ≤ data.length ∧ offset + claimedSize data offset < data.length
    · rw [if_pos hnext, if_pos hnext]
      -- a packet is at least four bytes long, so the bound of the walk is never reached
      have hsize : 4 ≤ claimedSize data offset := by
        rw [claimedSize]
        omega
      exact ih (offset + claimedSize data offset) hnext.2 (by omega) ep'
    · rw [if_neg hnext, if_neg hnext]
      rfl

theorem procRTCPPacket_eq (clock : ℕ → UInt64) (data : Bytes) (ep : RtcpEndpoint) :
    procRTCPPacket clock data ep = procPackets clock data (packets data) ep := by
  rw [procRTCPPacket, packets]
  by_cases hlength : data.length < 4
  · rw [if_pos hlength, if_neg (by omega)]
    rfl
  · rw [if_neg hlength, byteAt_eq (by omega), ok_bind]
    by_cases hversion : (byteOf data 0).toNat / 64 = 2
    · rw [if_neg (not_not_intro hversion), if_pos ⟨by omega, hversion⟩]
      exact packetLoop_eq clock data data.length 0 (by omega) (by omega) ep
    · rw [if_pos hversion, if_neg (fun h ↦ hversion h.2)]
      rfl

theorem procPackets_ok (clock : ℕ → UInt64) (data : Bytes) (offsets : List ℕ) (ep : RtcpEndpoint) :
    ∃ ep', procPackets clock data offsets ep = .ok ep' := by
  induction offsets generalizing ep with
  | nil => exact ⟨ep, rfl⟩
  | cons offset offsets ih =>
    obtain ⟨next, hnext, -⟩ := procPacket_ok (clock offset) data offset ep
    rw [procPackets, List.foldlM_cons, hnext, ok_bind]
    exact ih next

/-- Whatever a datagram contains, the walk comes to an end and every field that it reads, for the
round-trip time or for the analyser, lies in the datagram. -/
theorem procRTCPPacket_ok (clock : ℕ → UInt64) (data : Bytes) (ep : RtcpEndpoint) :
    ∃ ep', procRTCPPacket clock data ep = .ok ep' := by
  rw [procRTCPPacket_eq]
  exact procPackets_ok clock data (packets data) ep

/-! ### Changes of the round-trip time -/

/-- While a datagram is handled, the packet at `offset` is looked at and finds the endpoint as
`before`. -/
def Reaches (clock : ℕ → UInt64) (data : Bytes) (ep : RtcpEndpoint) (offset : ℕ)
    (before : RtcpEndpoint) : Prop :=
  ∃ earlier later, packets data = earlier ++ offset :: later ∧
    procPackets clock data earlier ep = .ok before

/-- The round-trip time after these packets: what the last timed report among them leads to. -/
def lastMeasured (clock : ℕ → UInt64) (data : Bytes) (offsets : List ℕ) (rtt : ℚ) : ℚ :=
  match (offsets.filter fun offset ↦ Timed data offset).getLast? with
  | some last => measured data last (clock last)
  | none => rtt

theorem lastMeasured_cons (clock : ℕ → UInt64) (data : Bytes) (offset : ℕ) (offsets : List ℕ)
    (rtt : ℚ) :
    lastMeasured clock data (offset :: offsets) rtt =
      lastMeasured clock data offsets
        (if Timed data offset then measured data offset (clock offset) else rtt) := by
  rw [lastMeasured, lastMeasured, List.filter_cons]
  by_cases htimed : Timed data offset
  · rw [if_pos (decide_eq_true htimed), List.getLast?_cons, if_pos htimed]
    cases (offsets.filter fun offset ↦ Timed data offset).getLast? <;> rfl
  · rw [if_neg (by simpa using htimed), if_neg htimed]

theorem rtt_of_procPackets {clock : ℕ → UInt64} {offsets : List ℕ} {ep before : RtcpEndpoint}
    (hrun : procPackets clock data offsets ep = .ok before) :
    before.rtt = lastMeasured clock data offsets ep.rtt := by
  induction offsets generalizing ep with
  | nil =>
    cases hrun
    rfl
  | cons offset offsets ih =>
    obtain ⟨next, hnext, hrtt⟩ := procPacket_ok (clock offset) data offset ep
    rw [procPackets, List.foldlM_cons, hnext, ok_bind] at hrun
    rw [lastMeasured_cons, ← hrtt]
    exact ih hrun

/-- Every packet that changes the round-trip time is a report from which it can be told if and only
if every timed report is one, or leads to the value that the last timed report before it or else the
endpoint has. -/
theorem rtt_changes_iff (clock : ℕ → UInt64) (data : Bytes) (ep : RtcpEndpoint) :
    procRTCPPacket clock data ep = procPackets clock data (packets data) ep ∧
      ((∀ offset before after, Reaches clock data ep offset before →
          procPacket (clock offset) data offset before = .ok after → after.rtt ≠ before.rtt →
          Qualifies data offset (clock offset) ep.ssrc) ↔
        ∀ earlier offset later, packets data = earlier ++ offset :: later → Timed data offset →
          Qualifies data offset (clock offset) ep.ssrc ∨
            measured data offset (clock offset) = lastMeasured clock data earlier ep.rtt) := by
  refine ⟨procRTCPPacket_eq clock data ep, ?_⟩
  constructor
  · intro hchanges earlier offset later hpackets htimed
    obtain ⟨before, hbefore⟩ := procPackets_ok clock data earlier ep
    obtain ⟨after, hafter, hrtt⟩ := procPacket_ok (clock offset) data offset before
    rw [if_pos htimed] at hrtt
    rw [← rtt_of_procPackets hbefore]
    by_cases hsame : measured data offset (clock offset) = before.rtt
    · exact Or.inr hsame
    · apply Or.inl
      apply hchanges offset before after ⟨earlier, later, hpackets, hbefore⟩ hafter
      rw [hrtt]
      exact hsame
  · rintro htimed offset before after ⟨earlier, later, hpackets, hbefore⟩ hafter hchanged
    obtain ⟨after', hafter', hrtt⟩ := procPacket_ok (clock offset) data offset before
    rw [hafter] at hafter'
    cases hafter'
    by_cases htime : Timed data offset
    · rw [if_pos htime] at hrtt
      rcases htimed earlier offset later hpackets htime with hqualifies | hsame
      · exact hqualifies
      · rw [← rtt_of_procPackets hbefore] at hsame
        exact absurd (hrtt.trans hsame) hchanged
    · rw [if_neg htime] at hrtt
      exact absurd hrtt hchanged

/-- A receiver report with one report block. -/
def receiverReport (rc ssrc lastSR delaySncLastSR : ℕ) : Bytes :=
  [UInt8.ofNat (128 + rc), 201] ++ put16 7 ++ put32 0 ++
    put32 ssrc ++ put32 0 ++ put32 0 ++ put32 0 ++ put32 lastSR ++ put32 delaySncLastSR

/-- A round-trip time of 65535 seconds from a report about the endpoint which says that the last
sender report arrived in the future, and one of three seconds from a report about another endpoint
that has no report blocks. -/
theorem other_reports_change_rtt :
    procRTCPPacket (fun _ ↦ 0x500000000) (receiverReport 1 7 0x40000 0x20000) ⟨7, .other, 0, none⟩ =
        .ok ⟨7, .other, 65535, none⟩ ∧
      (delayOf (receiverReport 1 7 0x40000 0x20000) 0 0x500000000).toInt32.toInt = -65536 ∧
      procRTCPPacket (fun _ ↦ 0x500000000) (receiverReport 0 8 0x10000 0x10000) ⟨7, .other, 0, none⟩ =
        .ok ⟨7, .other, 3, none⟩ := by
  decide +kernel

end WisCam.Rtp
