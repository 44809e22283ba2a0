import Mathlib.Algebra.Ring.Nat
import WisCam.Rtp.Endpoint

/-!
# What sender reports count

The life of an endpoint after it is connected: `send_rtp_packet` calls, the RTCP timer, and RTCP
packets from the client, in any order and with any answer of the transport. `Counted` is what the
counters of the endpoint hold along such a life: one packet for each packet that was passed to the
transport and not refused with an error, and the bytes of these packets with their RTP headers.

A sender report is to say how many packets were handed to the transport and how many payload octets
they carried. `sender_report_iff` says exactly when one does. A packet that `interleave_send`
refuses is counted, and each packet is counted with the 12 bytes of its header, so a report is right
only where these two errors vanish modulo 2³²; `forall_right_iff` draws the consequence for whole
lives: already the first report is wrong.
-/

set_option autoImplicit false

namespace WisCam.Rtp

open Foundations Connection Server List

/-! ### Lives of an endpoint -/

/-- What can happen to a connected endpoint. -/
inductive EndpointEvent
  /-- A call of `send_rtp_packet`. -/
  | send (v : List Bytes) (timestamp : UInt32) (marker : Bool) (outcome : Outcome)
  /-- The timer calls `rtcp_fire`. -/
  | rtcpFire (outcome : RtcpOutcome)
  /-- A packet for `udp_rtcp_read` or `interleave_recv_rtcp`. -/
  | rtcpRecv (now : TimeOfDay)

/-- One event. Nothing happens to an endpoint that was torn down, and the timer fires only while it
is enabled. -/
def endpointStep (s : Sender) (event : EndpointEvent) : Sender :=
  if s.closed then s
  else match event with
    | .send v timestamp marker outcome => (sendRtpPacket outcome s v timestamp marker).2
    | .rtcpFire outcome => if s.ep.rtcpSendEvent then (rtcpSend outcome s).2 else s
    | .rtcpRecv now => { s with ep := { s.ep with lastRtcpRecv := now.sec } }

/-- The events of an endpoint, oldest first. -/
def endpointRun (ep : RtpEndpoint) (events : List EndpointEvent) : Sender :=
  events.foldl endpointStep ⟨ep, false, []⟩

/-! ### What the transport was given -/

/-- Whether an answer says that the transport took the packet. -/
def Takes (transType : TransType) (ret : ℤ) : Prop :=
  match transType with
  | .unset => False
  | .udp => 0 ≤ ret
  | .inter => ret = 0

instance : (transType : TransType) → (ret : ℤ) → Decidable (Takes transType ret)
  | .unset, _ => inferInstanceAs (Decidable False)
  | .udp, ret => inferInstanceAs (Decidable (0 ≤ ret))
  | .inter, ret => inferInstanceAs (Decidable (ret = 0))

/-- The packets that the transport took. -/
def handed (transType : TransType) (log : List Transfer) : List Bytes :=
  ((rtpPackets log).filter fun packet ↦ Takes transType packet.2).map Prod.fst

/-- The packets that the transport did not take. -/
def refused (transType : TransType) (log : List Transfer) : List Bytes :=
  ((rtpPackets log).filter fun packet ↦ ¬ Takes transType packet.2).map Prod.fst

/-- The octets of packets without their RTP headers. -/
def payloadOctets (packets : List Bytes) : ℕ := (packets.map fun packet ↦ packet.length - 12).sum

/-- The number at an offset of a packet. -/
def field32 (bytes : Bytes) (offset : ℕ) : ℕ :=
  match bytes.drop offset with
  | b₃ :: b₂ :: b₁ :: b₀ :: _ => get32 b₃ b₂ b₁ b₀
  | _ => 0

/-- A report that is sent after `log` counts what the transport took. -/
def Right (transType : TransType) (log : List Transfer) (report : Bytes) : Prop :=
  field32 report 20 = (handed transType log).length % 2 ^ 32 ∧
    field32 report 24 = payloadOctets (handed transType log) % 2 ^ 32

instance (transType : TransType) (log : List Transfer) (report : Bytes) :
    Decidable (Right transType log report) :=
  inferInstanceAs (Decidable (_ ∧ _))

/-- The packets that were passed to the transport are those it took and those it did not take. -/
theorem length_rtpPackets (transType : TransType) (log : List Transfer) :
    (rtpPackets log).length =
      (handed transType log).length + (refused transType log).length := by
  simp only [handed, refused, length_map, decide_not]
  exact length_eq_length_filter_add _

theorem sum_rtpPackets (transType : TransType) {log : List Transfer}
    (hheader : ∀ packet ∈ rtpPackets log, 12 ≤ packet.1.length) :
    ((rtpPackets log).map fun packet ↦ packet.1.length).sum =
      12 * (rtpPackets log).length + payloadOctets (handed transType log) +
        payloadOctets (refused transType log) := by
  simp only [handed, refused, payloadOctets]
  generalize rtpPackets log = packets at hheader
  induction packets with
  | nil => rfl
  | cons packet packets ih =>
    obtain ⟨hpacket, hpackets⟩ := forall_mem_cons.mp hheader
    have hrest := ih hpackets
    by_cases htakes : Takes transType packet.2
    · simp only [map_cons, sum_cons, hrest, length_cons, filter_cons, htakes,
        decide_true, if_true, not_true_eq_false, decide_false, Bool.false_eq_true, if_false]
      omega
    · simp only [map_cons, sum_cons, hrest, length_cons, filter_cons, htakes,
        decide_true, if_true, not_false_eq_true, decide_false, Bool.false_eq_true, if_false]
      omega

/-! ### The counters -/

/-- The counters of an endpoint count the packets that were passed to the transport, with their
headers; no packet failed. -/
structure Counted (ep : RtpEndpoint) (log : List Transfer) : Prop where
  packetCount : ep.packetCount = UInt32.ofNat (rtpPackets log).length
  octetCount : ep.octetCount =
    UInt32.ofNat ((rtpPackets log).map fun packet ↦ packet.1.length).sum
  header : ∀ packet ∈ rtpPackets log, 12 ≤ packet.1.length

/-- The numbers in a report are the counters of the endpoint. -/
theorem field32_senderReport (ep : RtpEndpoint) (now : TimeOfDay) :
    field32 (senderReport ep now) 20 = ep.packetCount.toNat ∧
      field32 (senderReport ep now) 24 = ep.octetCount.toNat := by
  have hread (count : UInt32) : count.toNat % 4294967296 = count.toNat :=
    Nat.mod_eq_of_lt count.toNat_lt
  constructor
  · exact (get32_put32 ep.packetCount.toNat).trans (hread _)
  · exact (get32_put32 ep.octetCount.toNat).trans (hread _)

theorem addOctets_eq (octets : UInt32) (v : List Bytes) :
    addOctets octets v = octets + UInt32.ofNat v.flatten.length := by
  induction v generalizing octets with
  | nil => simp [addOctets]
  | cons data v ih =>
    have hrest := ih (octets + UInt32.ofNat data.length)
    rw [addOctets] at hrest
    rw [addOctets, foldl_cons, hrest, flatten_cons, length_append,
      UInt32.ofNat_add, UInt32.add_assoc]

/-- Every report of a log has the counters of the packets before it. -/
def ReportsCounted (log : List Transfer) : Prop :=
  ∀ before report ret after, log = before ++ .rtcp report ret :: after →
    ∃ ep now, report = senderReport ep now ∧ Counted ep before

theorem ReportsCounted.nil : ReportsCounted [] := by
  intro before report ret after hlog
  simp at hlog

theorem ReportsCounted.concat {log : List Transfer} (hlog : ReportsCounted log)
    {transfer : Transfer} (hlast : ∀ report ret, transfer = .rtcp report ret →
      ∃ ep now, report = senderReport ep now ∧ Counted ep log) :
    ReportsCounted (log ++ [transfer]) := by
  intro before report ret after hsplit
  rcases eq_nil_or_concat after with rfl | ⟨after, last, rfl⟩
  · obtain ⟨rfl, hlast'⟩ := append_inj' hsplit rfl
    exact hlast report ret (List.cons.inj hlast').1
  · have hsplit' : log ++ [transfer] = (before ++ .rtcp report ret :: after) ++ [last] := by
      rw [hsplit, append_assoc, cons_append, concat_eq_append]
    exact hlog before report ret after (append_inj' hsplit' rfl).1

/-- What holds along the life of a connected endpoint. -/
structure Accounted (s : Sender) : Prop where
  reports : ReportsCounted s.log
  counted : s.closed = false → Counted s.ep s.log
  connected : s.ep.transType ≠ .unset

variable {ep : RtpEndpoint} {ret : ℤ}

theorem Counted.rtcp {ep' : RtpEndpoint} {log : List Transfer} (hcounted : Counted ep log)
    (hpackets : ep'.packetCount = ep.packetCount) (hoctets : ep'.octetCount = ep.octetCount)
    {report : Bytes} : Counted ep' (log ++ [.rtcp report ret]) := by
  constructor
  · rw [rtpPackets_rtcp, hpackets, hcounted.packetCount]
  · rw [rtpPackets_rtcp, hoctets, hcounted.octetCount]
  · rw [rtpPackets_rtcp]
    exact hcounted.header

variable {s : Sender}

theorem accounted_rtcpSend (hs : Accounted s) (hopen : s.closed = false) (outcome : RtcpOutcome) :
    Accounted (rtcpSend outcome s).2 := by
  have hcounted := hs.counted hopen
  have hlog : ReportsCounted (s.log ++ [.rtcp (senderReport { s.ep with
      lastRtcpSend := outcome.now.sec, forceRtcp := false } outcome.now) outcome.ret]) := by
    refine hs.reports.concat fun report ret hreport ↦ ?_
    rw [Transfer.rtcp.injEq] at hreport
    exact ⟨_, outcome.now, hreport.1.symm, ⟨hcounted.packetCount, hcounted.octetCount,
      hcounted.header⟩⟩
  unfold rtcpSend
  dsimp only
  split_ifs with htimeout hunset hret
  · exact ⟨hs.reports, nofun, hs.connected⟩
  · exact absurd hunset hs.connected
  · exact ⟨hlog, nofun, hs.connected⟩
  · exact ⟨hlog, fun _ ↦ hcounted.rtcp (by rfl) (by rfl), hs.connected⟩

theorem accounted_reportWhenDue (hs : Accounted s) (hopen : s.closed = false) (outcome : Outcome) :
    Accounted (reportWhenDue outcome s).2 := by
  have hsent := accounted_rtcpSend hs hopen outcome.rtcp
  unfold reportWhenDue
  dsimp only
  split_ifs with hforce hret hdue
  · exact hsent
  · exact ⟨hsent.reports, fun hclosed ↦
      ⟨(hsent.counted hclosed).packetCount, (hsent.counted hclosed).octetCount,
        (hsent.counted hclosed).header⟩, hsent.connected⟩
  · exact hsent
  · exact hs

theorem accounted_sendRtpPacket (hs : Accounted s) (hopen : s.closed = false) (outcome : Outcome)
    (v : List Bytes) (timestamp : UInt32) (marker : Bool) :
    Accounted (sendRtpPacket outcome s v timestamp marker).2 := by
  have hcounted := hs.counted hopen
  have hlog (packet : Bytes) : ReportsCounted (s.log ++ [.rtp packet outcome.ret]) :=
    hs.reports.concat fun _ _ hrtcp ↦ Transfer.noConfusion hrtcp
  rw [sendRtpPacket_connected hs.connected]
  split_ifs with hfails
  · exact ⟨hlog _, fun hclosed ↦ Bool.noConfusion hclosed, hs.connected⟩
  · apply accounted_reportWhenDue
    · refine ⟨hlog _, fun _ ↦ ⟨?_, ?_, ?_⟩, hs.connected⟩
      · rw [rtpPackets_rtp, length_append, UInt32.ofNat_add, ← hcounted.packetCount]
        rfl
      · rw [rtpPackets_rtp, map_append, sum_append, UInt32.ofNat_add, ← hcounted.octetCount]
        simp [RtpEndpoint.count, RtpEndpoint.stamp, addOctets_eq]
      · rw [rtpPackets_rtp]
        intro packet hpacket
        rcases mem_append.mp hpacket with hpacket | hpacket
        · exact hcounted.header packet hpacket
        · rw [mem_singleton.mp hpacket, length_append]
          exact Nat.le_add_right 12 _
    · exact hopen

theorem accounted_endpointStep (hs : Accounted s) (event : EndpointEvent) :
    Accounted (endpointStep s event) := by
  unfold endpointStep
  by_cases hclosed : s.closed = true
  · rw [if_pos hclosed]
    exact hs
  rw [if_neg hclosed]
  rw [Bool.not_eq_true] at hclosed
  cases event with
  | send v timestamp marker outcome =>
    exact accounted_sendRtpPacket hs hclosed outcome v timestamp marker
  | rtcpFire outcome =>
    dsimp only
    split_ifs with htimer
    · exact accounted_rtcpSend hs hclosed outcome
    · exact hs
  | rtcpRecv now =>
    exact ⟨hs.reports, fun hopen ↦ ⟨(hs.counted hopen).packetCount, (hs.counted hopen).octetCount,
      (hs.counted hopen).header⟩, hs.connected⟩

/-- A connected endpoint is accounted for along its whole life. -/
theorem accounted_endpointRun (hfresh : Accounted ⟨ep, false, []⟩) (events : List EndpointEvent) :
    Accounted (endpointRun ep events) := by
  rw [endpointRun]
  generalize (⟨ep, false, []⟩ : Sender) = s at hfresh ⊢
  induction events generalizing s with
  | nil => exact hfresh
  | cons event events ih => exact ih _ (accounted_endpointStep hfresh event)

theorem accounted_newRtpEndpoint (payload : ℕ) (ssrc startTimestamp : UInt32) (seqnum : UInt16)
    (now : TimeOfDay) (maxDataSize : ℤ) {transType : TransType} (hconnected : transType ≠ .unset) :
    Accounted ⟨newRtpEndpoint payload ssrc startTimestamp seqnum now maxDataSize transType, false,
      []⟩ :=
  ⟨.nil, fun _ ↦ ⟨rfl, rfl, fun _ h ↦ absurd h not_mem_nil⟩, hconnected⟩

/-! ### When a report is right -/

/-- The counters of an endpoint say what the transport took exactly when the number of refused
packets, and the octets of the headers and of the refused packets, vanish modulo 2³². -/
theorem right_senderReport_iff {log : List Transfer} (hcounted : Counted ep log)
    (transType : TransType) (now : TimeOfDay) :
    Right transType log (senderReport ep now) ↔
      2 ^ 32 ∣ (refused transType log).length ∧
        2 ^ 32 ∣ 12 * (rtpPackets log).length + payloadOctets (refused transType log) := by
  have hlength := length_rtpPackets transType log
  have hsum := sum_rtpPackets transType hcounted.header
  rw [Right, (field32_senderReport ep now).1, (field32_senderReport ep now).2,
    hcounted.packetCount, hcounted.octetCount, UInt32.toNat_ofNat', UInt32.toNat_ofNat', hsum]
  constructor
  · rintro ⟨hpackets, hoctets⟩
    constructor
    · omega
    · omega
  · rintro ⟨hpackets, hoctets⟩
    constructor
    · omega
    · omega

theorem Accounted.right_iff (hs : Accounted s) {before after : List Transfer} {report : Bytes}
    (hlog : s.log = before ++ .rtcp report ret :: after) (transType : TransType) :
    Right transType before report ↔
      2 ^ 32 ∣ (refused transType before).length ∧
        2 ^ 32 ∣ 12 * (rtpPackets before).length + payloadOctets (refused transType before) := by
  obtain ⟨ep, now, hreport, hcounted⟩ := hs.reports before report ret after hlog
  rw [hreport]
  exact right_senderReport_iff hcounted transType now

/-! ### The first report -/

/-- Where the life of an endpoint stands: nothing was passed to the transport yet, the endpoint was
torn down over its first packet, or its first packet was followed by a report. -/
def Opening (s : Sender) : Prop :=
  (s.log = [] ∧ s.ep.forceRtcp = true ∧ s.ep.rtcpSendEvent = false) ∨
    (s.closed = true ∧ ∃ packet ret, s.log = [.rtp packet ret]) ∨
      ∃ packet ret report ret' rest, s.log = .rtp packet ret :: .rtcp report ret' :: rest

theorem Opening.grow {s' : Sender} {packet report : Bytes} {ret' : ℤ} {rest : List Transfer}
    (hs : s.log = .rtp packet ret :: .rtcp report ret' :: rest) (hgrow : s.log <+: s'.log) :
    Opening s' := by
  obtain ⟨more, hmore⟩ := hgrow
  rw [hs, cons_append, cons_append] at hmore
  exact Or.inr (Or.inr ⟨packet, ret, report, ret', rest ++ more, hmore.symm⟩)

/-- `rtcp_send` passes one report to the transport, or it tears the endpoint down without one. -/
theorem rtcpSend_log (outcome : RtcpOutcome) (s : Sender) :
    ((rtcpSend outcome s).1 = -1 ∧ (rtcpSend outcome s).2.closed = true ∧
        (rtcpSend outcome s).2.log = s.log) ∨
      ∃ report, (rtcpSend outcome s).2.log = s.log ++ [.rtcp report outcome.ret] := by
  unfold rtcpSend
  dsimp only
  split_ifs with htimeout hunset hret
  · exact Or.inl ⟨rfl, rfl, rfl⟩
  · exact Or.inl ⟨rfl, rfl, rfl⟩
  · exact Or.inr ⟨_, rfl⟩
  · exact Or.inr ⟨_, rfl⟩

theorem log_rtcpSend_le (outcome : RtcpOutcome) (s : Sender) :
    s.log <+: (rtcpSend outcome s).2.log := by
  rcases rtcpSend_log outcome s with ⟨-, -, hlog⟩ | ⟨report, hlog⟩
  · exact hlog ▸ prefix_rfl
  · exact hlog ▸ prefix_append _ _

theorem log_reportWhenDue_le (outcome : Outcome) (s : Sender) :
    s.log <+: (reportWhenDue outcome s).2.log := by
  have hsend := log_rtcpSend_le outcome.rtcp s
  unfold reportWhenDue
  dsimp only
  split_ifs with hforce hret hdue
  · exact hsend
  · exact hsend
  · exact hsend
  · exact prefix_rfl

theorem log_sendRtpPacket_le (hconnected : s.ep.transType ≠ .unset) (outcome : Outcome)
    (v : List Bytes) (timestamp : UInt32) (marker : Bool) :
    s.log <+: (sendRtpPacket outcome s v timestamp marker).2.log := by
  rw [sendRtpPacket_connected hconnected]
  split_ifs with hfails
  · exact prefix_append _ _
  · refine List.IsPrefix.trans ?_ (log_reportWhenDue_le outcome _)
    exact prefix_append _ _

/-- While a report is forced, the first packet is followed by one, or the endpoint is torn down. -/
theorem opening_reportWhenDue {packet : Bytes} (hlog : s.log = [.rtp packet ret])
    (hforce : s.ep.forceRtcp = true) (outcome : Outcome) : Opening (reportWhenDue outcome s).2 := by
  unfold reportWhenDue
  dsimp only
  rw [if_pos hforce]
  rcases rtcpSend_log outcome.rtcp s with ⟨hret, hclosed, hsame⟩ | ⟨report, hsent⟩
  · rw [if_pos (by rw [hret]; decide)]
    exact Or.inr (Or.inl ⟨hclosed, packet, ret, hsame.trans hlog⟩)
  · refine Or.inr (Or.inr ⟨packet, ret, report, outcome.rtcp.ret, [], ?_⟩)
    rw [hlog] at hsent
    split_ifs
    · exact hsent
    · exact hsent

theorem opening_endpointStep (hconnected : s.ep.transType ≠ .unset) (hs : Opening s)
    (event : EndpointEvent) : Opening (endpointStep s event) := by
  unfold endpointStep
  by_cases hclosed : s.closed = true
  · rw [if_pos hclosed]
    exact hs
  rw [if_neg hclosed]
  rcases hs with ⟨hlog, hforce, htimer⟩ | ⟨hclosed', -⟩ | ⟨packet, ret, report, ret', rest, hlog⟩
  · cases event with
    | send v timestamp marker outcome =>
      dsimp only
      rw [sendRtpPacket_connected hconnected, hlog, nil_append]
      split_ifs with hfails
      · exact Or.inr (Or.inl ⟨rfl, _, _, rfl⟩)
      · apply opening_reportWhenDue
        · rfl
        · exact hforce
    | rtcpFire outcome =>
      dsimp only
      rw [htimer]
      exact Or.inl ⟨hlog, hforce, htimer⟩
    | rtcpRecv now => exact Or.inl ⟨hlog, hforce, htimer⟩
  · exact absurd hclosed' hclosed
  · refine Opening.grow hlog ?_
    cases event with
    | send v timestamp marker outcome =>
      exact log_sendRtpPacket_le hconnected outcome v timestamp marker
    | rtcpFire outcome =>
      dsimp only
      split_ifs with htimer
      · exact log_rtcpSend_le outcome s
      · exact prefix_rfl
    | rtcpRecv now => exact prefix_rfl

theorem opening_endpointRun (hfresh : Accounted ⟨ep, false, []⟩) (hforce : ep.forceRtcp = true)
    (htimer : ep.rtcpSendEvent = false) (events : List EndpointEvent) :
    Opening (endpointRun ep events) := by
  have hopening : Opening ⟨ep, false, []⟩ := Or.inl ⟨rfl, hforce, htimer⟩
  rw [endpointRun]
  generalize (⟨ep, false, []⟩ : Sender) = s at hfresh hopening ⊢
  induction events generalizing s with
  | nil => exact hopening
  | cons event events ih =>
    exact ih _ (accounted_endpointStep hfresh event)
      (opening_endpointStep hfresh.connected hopening event)

/-- Along every life of a connected endpoint, a sender report counts the packets that the transport
took, and their payload octets, exactly when the errors of the counters vanish modulo 2³²: the
refused packets, and the headers together with the payload of the refused packets. -/
theorem sender_report_iff (payload : ℕ) (ssrc startTimestamp : UInt32) (seqnum : UInt16)
    (now : TimeOfDay) (maxDataSize : ℤ) {transType : TransType} (hconnected : transType ≠ .unset)
    (events : List EndpointEvent) {before after : List Transfer} {report : Bytes} {ret : ℤ}
    (hlog : (endpointRun (newRtpEndpoint payload ssrc startTimestamp seqnum now maxDataSize
      transType) events).log = before ++ .rtcp report ret :: after) :
    Right transType before report ↔
      2 ^ 32 ∣ (refused transType before).length ∧
        2 ^ 32 ∣ 12 * (rtpPackets before).length + payloadOctets (refused transType before) := by
  have hfresh := accounted_newRtpEndpoint payload ssrc startTimestamp seqnum now maxDataSize
    hconnected
  exact (accounted_endpointRun hfresh events).right_iff hlog transType

/-- A report that no other report precedes. -/
def IsFirst (log before : List Transfer) (report : Bytes) : Prop :=
  (∃ ret after, log = before ++ .rtcp report ret :: after) ∧
    ∀ report' ret', .rtcp report' ret' ∉ before

/-- The first report is sent behind the first packet. -/
theorem Opening.isFirst {before : List Transfer} {report : Bytes} (hs : Opening s)
    (hfirst : IsFirst s.log before report) : ∃ packet ret, before = [.rtp packet ret] := by
  obtain ⟨⟨ret, after, hsplit⟩, hnone⟩ := hfirst
  have hmem : .rtcp report ret ∈ s.log := by
    rw [hsplit]
    exact mem_append_right _ mem_cons_self
  rcases hs with ⟨hnil, -⟩ | ⟨-, packet, ret', hone⟩ | ⟨packet, ret', report', ret'', rest, htwo⟩
  · rw [hnil] at hmem
    exact absurd hmem not_mem_nil
  · rw [hone, mem_singleton] at hmem
    exact Transfer.noConfusion hmem
  · rw [htwo] at hsplit
    cases before with
    | nil => exact Transfer.noConfusion (List.cons.inj hsplit).1
    | cons first before =>
      obtain ⟨rfl, hrest⟩ := List.cons.inj hsplit
      cases before with
      | nil => exact ⟨packet, ret', rfl⟩
      | cons second before =>
        obtain ⟨rfl, -⟩ := List.cons.inj hrest
        exact absurd (mem_cons_of_mem _ mem_cons_self) (hnone report' ret'')

/-- A report behind one packet is off by its header. -/
theorem not_right_of_one {before : List Transfer} {report : Bytes} {ret : ℤ}
    {after : List Transfer} (hs : Accounted s) (hlog : s.log = before ++ .rtcp report ret :: after)
    {packet : Bytes} {ret' : ℤ} (hone : before = [.rtp packet ret']) (transType : TransType) :
    ¬ Right transType before report := by
  intro hright
  obtain ⟨hpackets, hoctets⟩ := (hs.right_iff hlog transType).mp hright
  rw [hone] at hpackets hoctets
  have hlength := length_rtpPackets transType [.rtp packet ret']
  have hrtp : (rtpPackets [.rtp packet ret']).length = 1 := rfl
  have hnil : refused transType [.rtp packet ret'] = [] :=
    eq_nil_of_length_eq_zero (by omega)
  rw [hnil, hrtp] at hoctets
  exact absurd hoctets (by decide)

/-- Along every life of a connected endpoint, the first report is sent behind the first packet and is
not right; so the reports of a life are all right only if there are none. -/
theorem forall_right_iff (payload : ℕ) (ssrc startTimestamp : UInt32) (seqnum : UInt16)
    (now : TimeOfDay) (maxDataSize : ℤ) {transType : TransType} (hconnected : transType ≠ .unset)
    (events : List EndpointEvent) {log : List Transfer}
    (hlog : log = (endpointRun (newRtpEndpoint payload ssrc startTimestamp seqnum now maxDataSize
      transType) events).log) :
    (∀ before report, IsFirst log before report →
        (∃ packet ret, before = [.rtp packet ret]) ∧ ¬ Right transType before report) ∧
      ((∀ before report ret after, log = before ++ .rtcp report ret :: after →
          Right transType before report) ↔
        ∀ report ret, .rtcp report ret ∉ log) := by
  have hfresh := accounted_newRtpEndpoint payload ssrc startTimestamp seqnum now maxDataSize
    hconnected
  have hopening := opening_endpointRun hfresh rfl rfl events
  have haccounted := accounted_endpointRun hfresh events
  have hfirst (before : List Transfer) (report : Bytes) (hreport : IsFirst log before report) :
      (∃ packet ret, before = [.rtp packet ret]) ∧ ¬ Right transType before report := by
    rw [hlog] at hreport
    obtain ⟨packet, ret, hone⟩ := hopening.isFirst hreport
    obtain ⟨⟨ret', after, hsplit⟩, -⟩ := hreport
    exact ⟨⟨packet, ret, hone⟩, not_right_of_one haccounted hsplit hone transType⟩
  refine ⟨hfirst, fun hright report ret hmem ↦ ?_, fun hnone before report ret after hsplit ↦ ?_⟩
  · rw [Opening, ← hlog] at hopening
    rcases hopening with ⟨hnil, -⟩ | ⟨-, packet, ret', hone⟩ |
      ⟨packet, ret', report', ret'', rest, htwo⟩
    · rw [hnil] at hmem
      exact absurd hmem not_mem_nil
    · rw [hone, mem_singleton] at hmem
      exact Transfer.noConfusion hmem
    · have hsplit : log = [.rtp packet ret'] ++ .rtcp report' ret'' :: rest := htwo
      refine (hfirst _ _ ⟨⟨_, _, hsplit⟩, fun report ret hmem ↦ ?_⟩).2 (hright _ _ _ _ hsplit)
      exact Transfer.noConfusion (mem_singleton.mp hmem)
  · refine absurd ?_ (hnone report ret)
    rw [hsplit]
    exact mem_append_right _ mem_cons_self

/-- An endpoint over an RTSP connection. -/
def sampleEndpoint : RtpEndpoint := newRtpEndpoint 26 7 100 65535 ⟨1000, 0⟩ 1400 .inter

/-- One packet with a payload of three bytes, which the send ring takes. -/
def samplePacket : EndpointEvent :=
  .send [[1], [2, 3]] 90 true ⟨0, ⟨1000, 0⟩, ⟨⟨1000, 500000⟩, 0⟩⟩

/-- The packet of `samplePacket`. -/
def sampleTransfer : Transfer :=
  .rtp [128, 154, 255, 255, 0, 0, 0, 190, 0, 0, 0, 7, 1, 2, 3] 0

/-- The report that goes out behind the packet of `samplePacket`. -/
def sampleReport : Bytes :=
  [128, 200, 0, 6, 0, 0, 0, 7, 131, 170, 130, 104, 128, 0, 0, 0, 0, 0, 0, 190, 0, 0, 0, 1,
    0, 0, 0, 15, 129, 202, 0, 5, 0, 0, 0, 7, 1, 14] ++ ascii "Unnamed stream"

theorem sample_report_right_iff :
    (endpointRun sampleEndpoint [samplePacket]).log = [sampleTransfer, .rtcp sampleReport 0] ∧
      (Right .inter [sampleTransfer] sampleReport ↔
        2 ^ 32 ∣ (refused .inter [sampleTransfer]).length ∧
          2 ^ 32 ∣ 12 * (rtpPackets [sampleTransfer]).length +
            payloadOctets (refused .inter [sampleTransfer])) :=
  ⟨by decide +kernel, @sender_report_iff 26 7 100 65535 ⟨1000, 0⟩ 1400 .inter (by decide)
    [samplePacket] [sampleTransfer] [] sampleReport 0 (by decide +kernel)⟩

/-- The transport has taken one packet with three payload octets, and the report says 15. -/
theorem sample_report_wrong :
    (endpointRun sampleEndpoint [samplePacket]).log = [sampleTransfer, .rtcp sampleReport 0] ∧
      field32 sampleReport 24 = 15 ∧ ¬ Right .inter [sampleTransfer] sampleReport :=
  ⟨by decide +kernel, by decide +kernel, by decide +kernel⟩

theorem forall_right_iff_sample :
    IsFirst (endpointRun sampleEndpoint [samplePacket]).log [sampleTransfer] sampleReport ∧
      ¬ Right .inter [sampleTransfer] sampleReport ∧
      ((∀ before report ret after, (endpointRun sampleEndpoint [samplePacket]).log =
          before ++ .rtcp report ret :: after → Right .inter before report) ↔
        ∀ report ret, .rtcp report ret ∉ (endpointRun sampleEndpoint [samplePacket]).log) := by
  have hfirst : IsFirst (endpointRun sampleEndpoint [samplePacket]).log [sampleTransfer]
      sampleReport := by
    refine ⟨⟨0, [], by decide +kernel⟩, fun report ret hmem ↦ ?_⟩
    exact Transfer.noConfusion (mem_singleton.mp hmem)
  obtain ⟨hwrong, hiff⟩ :=
    @forall_right_iff 26 7 100 65535 ⟨1000, 0⟩ 1400 .inter (by decide) [samplePacket] _ rfl
  exact ⟨hfirst, (hwrong _ _ hfirst).2, hiff⟩

end WisCam.Rtp
