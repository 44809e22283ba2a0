import WisCam.Rtp.JpegFrames
import WisCam.Rtp.RawAudio

/-!
# The packets of a JPEG frame

What `jpeg_send` makes of a frame. The array `v` is filled once with the headers and tables of the
first packet and then used again: the entry behind the headers of the later packets, which held a
part of the first packet, is overwritten with the next piece of the scan data. `Loaded` says what
the array holds before each round, and `rtpPackets_jpegSendRound` from it what the round sends.

When all sends succeed the rounds tile the scan data (`jpegSend_tiles`). From this follow that the
packets reassemble to the frame (`packets_reassemble`), for which transfer sizes the loop makes
progress (`fragmentation_progress_iff`), and when every packet keeps to the transfer size
(`payload_le_iff`): with a restart interval the headers of the later packets are counted four bytes
short.
-/

set_option autoImplicit false

namespace WisCam.Rtp

open Foundations List
open Server (wrapInt wrapInt_eq)

/-! ### The headers of a packet -/

/-- The header of the first packet, tables included. -/
def fullHeader (out : RtpJpeg) : ℕ := if out.bHasDRI then 144 else 140

/-- The header of a later packet. -/
def laterHeader (out : RtpJpeg) : ℕ := if out.bHasDRI then 12 else 8

/-- The luma and the chroma table of a frame. -/
def quantTables (f : Frame) (out : RtpJpeg) : Bytes :=
  f.bytes (out.quantAt out.lumaTable) 64 ++ f.bytes (out.quantAt out.chromaTable) 64

/-- What stands before the scan data in the packet at offset `i`. -/
def packetHeader (f : Frame) (out : RtpJpeg) (i : ℤ) (first : Bool) : Bytes :=
  vhdr out i ++ (if out.bHasDRI then rhdr out else []) ++
    if first then qhdr ++ quantTables f out else []

theorem length_packetHeader (f : Frame) (out : RtpJpeg) (i : ℤ) (first : Bool) :
    (packetHeader f out i first).length = if first then fullHeader out else laterHeader out := by
  cases first <;> cases hdri : out.bHasDRI <;>
    simp [packetHeader, quantTables, fullHeader, laterHeader, hdri, vhdr, rhdr, qhdr, put16]

/-- The array `v`, the number of its entries that are headers, and the length of the headers as
`jpeg_send` counts it, before a round. -/
structure Loaded (out : RtpJpeg) (first : Bool) (vars : JpegSend) : Prop where
  main : vars.v 1 = ⟨.vhdr, 8⟩
  restart : out.bHasDRI = true → vars.v 2 = ⟨.array (rhdr out), 4⟩
  vcnt : vars.vcnt = (if first then 5 else 2) + if out.bHasDRI then 1 else 0
  hdrLen : vars.hdrLen = if first then (fullHeader out : ℤ) else 8
  tables : first = true →
    vars.v (vars.vcnt - 3) = ⟨.array qhdr, 4⟩ ∧
      vars.v (vars.vcnt - 2) = ⟨.memory (out.quantAt out.lumaTable), 64⟩ ∧
      vars.v (vars.vcnt - 1) = ⟨.memory (out.quantAt out.chromaTable), 64⟩

theorem loaded_start (out : RtpJpeg) (sender : Sender) :
    Loaded out true (jpegSendStart out sender) := by
  cases hdri : out.bHasDRI with
  | true =>
    have hstart : jpegSendStart out sender =
        ((((((⟨fun _ ↦ ⟨.memory none, 0⟩, 1, 0, sender, 0⟩ : JpegSend).push ⟨.vhdr, 8⟩).push
          ⟨.array (rhdr out), 4⟩).push ⟨.array qhdr, 4⟩).push
          ⟨.memory (out.quantAt out.lumaTable), 64⟩).push
          ⟨.memory (out.quantAt out.chromaTable), 64⟩) := by
      rw [jpegSendStart, if_pos hdri]
    rw [hstart]
    refine ⟨rfl, fun _ ↦ rfl, ?_, ?_, fun _ ↦ ⟨rfl, rfl, rfl⟩⟩
    · rw [if_pos hdri]
      rfl
    · rw [fullHeader, if_pos hdri]
      rfl
  | false =>
    have hne : ¬ out.bHasDRI = true := Bool.eq_false_iff.mp hdri
    have hstart : jpegSendStart out sender =
        (((((⟨fun _ ↦ ⟨.memory none, 0⟩, 1, 0, sender, 0⟩ : JpegSend).push ⟨.vhdr, 8⟩).push
          ⟨.array qhdr, 4⟩).push ⟨.memory (out.quantAt out.lumaTable), 64⟩).push
          ⟨.memory (out.quantAt out.chromaTable), 64⟩) := by
      rw [jpegSendStart, if_neg hne]
    rw [hstart]
    refine ⟨rfl, fun h ↦ absurd h hne, ?_, ?_, fun _ ↦ ⟨rfl, rfl, rfl⟩⟩
    · rw [if_neg hne]
      rfl
    · rw [fullHeader, if_neg hne]
      rfl

theorem sender_jpegSendStart (out : RtpJpeg) (sender : Sender) :
    (jpegSendStart out sender).sender = sender := by
  unfold jpegSendStart
  cases out.bHasDRI <;> rfl

/-- The buffers of a packet are its header and the piece of the scan data. -/
theorem flatten_buffers {f : Frame} {out : RtpJpeg} {first : Bool} {vars : JpegSend}
    (hloaded : Loaded out first vars) (i : ℤ) (pointer : Option ℤ) (plen : ℤ) :
    ((List.range vars.vcnt).map fun k ↦
      ((Function.update vars.v vars.vcnt ⟨.memory pointer, plen⟩) (k + 1)).bytes f out i).flatten =
      packetHeader f out i first ++ f.bytes pointer plen := by
  have hmain := hloaded.main
  have hrestart := hloaded.restart
  have htables := hloaded.tables
  have hvcnt := hloaded.vcnt
  cases first with
  | true =>
    obtain ⟨hqhdr, hluma, hchroma⟩ := htables rfl
    cases hdri : out.bHasDRI with
    | true =>
      simp only [hdri, if_true] at hvcnt hrestart
      rw [hvcnt] at hqhdr hluma hchroma ⊢
      simp [range_succ, Function.update_apply, hmain, hrestart, hqhdr, hluma, hchroma,
        Iov.bytes, packetHeader, quantTables, hdri]
    | false =>
      simp only [hdri, if_true, Bool.false_eq_true, if_false] at hvcnt
      rw [hvcnt] at hqhdr hluma hchroma ⊢
      simp [range_succ, Function.update_apply, hmain, hqhdr, hluma, hchroma,
        Iov.bytes, packetHeader, quantTables, hdri]
  | false =>
    cases hdri : out.bHasDRI with
    | true =>
      simp only [hdri, if_true, Bool.false_eq_true, if_false] at hvcnt hrestart
      rw [hvcnt]
      simp [range_succ, Function.update_apply, hmain, hrestart, Iov.bytes, packetHeader, hdri]
    | false =>
      simp only [hdri, Bool.false_eq_true, if_false] at hvcnt
      rw [hvcnt]
      simp [range_succ, Function.update_apply, hmain, Iov.bytes, packetHeader, hdri]

/-- The bytes of the packet with the piece at `i`, for an endpoint that has the sequence number. -/
def packetBytes (f : Frame) (out : RtpJpeg) (ep : RtpEndpoint) (i plen : ℤ) (first : Bool) : Bytes :=
  rtpHeader (ep.stamp out.timestamp) (wrapInt (plen + i) = out.scanDataLen) ++
    (packetHeader f out i first ++ f.bytes (out.scanData.map (· + i)) plen)

theorem length_packetBytes (f : Frame) (out : RtpJpeg) (ep : RtpEndpoint) (i plen : ℤ)
    (first : Bool) : (packetBytes f out ep i plen first).length =
      12 + (if first then fullHeader out else laterHeader out) + plen.toNat := by
  rw [packetBytes, length_append, length_append, length_rtpHeader, length_packetHeader,
    Frame.length_bytes, Nat.add_assoc]

section Round

variable (env : ℕ → Outcome) (f : Frame) {out : RtpJpeg} {first : Bool} {vars : JpegSend}

/-- What a round passes to the transport. -/
theorem rtpPackets_jpegSendRound (hloaded : Loaded out first vars) (i : ℤ) :
    rtpPackets (jpegSendRound env f out i vars).2.2.sender.log = rtpPackets vars.sender.log ++
      if vars.sender.ep.transType = .unset then []
      else [(packetBytes f out vars.sender.ep i
        (jpegPlen out vars.sender.ep.maxDataSize vars.hdrLen i) first, (env vars.calls).ret)] := by
  unfold jpegSendRound
  dsimp only
  rw [rtpPackets_sendRtpPacket, flatten_buffers hloaded, packetBytes]

/-- After a round the array is loaded for a later packet. -/
theorem loaded_jpegSendRound (hloaded : Loaded out first vars) (i : ℤ) :
    Loaded out false (jpegSendRound env f out i vars).2.2 := by
  have hvcnt := hloaded.vcnt
  have hmain : 1 ≠ vars.vcnt := by
    rw [hvcnt]
    cases first <;> cases out.bHasDRI <;> decide
  refine ⟨?_, fun hdri ↦ ?_, ?_, rfl, fun h ↦ absurd h (by decide)⟩
  · exact (Function.update_of_ne hmain _ _).trans hloaded.main
  · have hrestart : 2 ≠ vars.vcnt := by
      rw [hvcnt, hdri]
      cases first <;> decide
    exact (Function.update_of_ne hrestart _ _).trans (hloaded.restart hdri)
  · change (if out.bHasDRI then 3 else 2) = _
    cases out.bHasDRI <;> rfl

theorem jpegSendRound_endpoint (out : RtpJpeg) (i : ℤ) (vars : JpegSend) :
    SameEndpoint vars.sender.ep (jpegSendRound env f out i vars).2.2.sender.ep :=
  sendRtpPacket_endpoint _ _ _ _ _

variable {env} in
theorem jpegSendRound_succeeds (hsucceed : SendsSucceed env vars.sender.ep) (out : RtpJpeg)
    (i : ℤ) :
    (jpegSendRound env f out i vars).1 = 0 ∧
      (jpegSendRound env f out i vars).2.2.sender.ep.seqnum = vars.sender.ep.seqnum + 1 :=
  sendRtpPacket_succeeds hsucceed.connected (hsucceed.succeeds vars.calls) _ _ _

theorem rtpPackets_le_jpegSendRound (out : RtpJpeg) (i : ℤ) (vars : JpegSend) :
    rtpPackets vars.sender.log <+: rtpPackets (jpegSendRound env f out i vars).2.2.sender.log :=
  rtpPackets_le_sendRtpPacket _ _ _ _ _

end Round

/-! ### All sends succeed -/

/-- The room for scan data in the packet at offset `i`, as `jpeg_send` counts it. -/
def jpegRoom (out : RtpJpeg) (maxDataSize : ℤ) (i : ℕ) : ℤ :=
  wrapInt (maxDataSize - if i = 0 then (fullHeader out : ℤ) else 8)

theorem jpegRoom_later {i j : ℕ} (hi : 0 < i) (hj : 0 < j) (out : RtpJpeg) (maxDataSize : ℤ) :
    jpegRoom out maxDataSize i = jpegRoom out maxDataSize j := by
  rw [jpegRoom, jpegRoom, if_neg (Nat.pos_iff_ne_zero.mp hi), if_neg (Nat.pos_iff_ne_zero.mp hj)]

/-- The packet of a piece, when it is the `k`-th packet. -/
def piecePacket (f : Frame) (out : RtpJpeg) (ep : RtpEndpoint) (k : ℕ) (piece : ℕ × ℕ) : Bytes :=
  packetBytes f out { ep with seqnum := ep.seqnum + UInt16.ofNat k } piece.1 piece.2 (piece.1 = 0)

variable {ep : RtpEndpoint}

theorem packetBytes_congr {ep' : RtpEndpoint} (hsame : SameEndpoint ep ep') (f : Frame)
    (out : RtpJpeg) (i plen : ℤ) (first : Bool) :
    packetBytes f out ep' i plen first =
      packetBytes f out { ep with seqnum := ep'.seqnum } i plen first := by
  simp only [packetBytes, rtpHeader, RtpEndpoint.stamp, hsame.payload, hsame.startTimestamp,
    hsame.ssrc]

/-- What holds before the round at offset `i`. -/
structure Sending (out : RtpJpeg) (ep : RtpEndpoint) (len i : ℕ) (vars : JpegSend) : Prop where
  same : SameEndpoint ep vars.sender.ep
  loaded : Loaded out (i = 0) vars
  seqnum : vars.sender.ep.seqnum =
    ep.seqnum + UInt16.ofNat ((rtpPackets vars.sender.log).map Prod.fst).length
  room : i < len → 0 < jpegRoom out ep.maxDataSize i

variable {len : ℕ}

theorem jpegPlen_eq {out : RtpJpeg} (hlen : out.scanDataLen = len) (hlt : len < 2147483648) {i : ℕ}
    (hi : i ≤ len) (maxDataSize : ℤ) {hdrLen : ℤ}
    (hhdrLen : hdrLen = if i = 0 then (fullHeader out : ℤ) else 8) :
    jpegPlen out maxDataSize hdrLen i =
      min ((len - i : ℕ) : ℤ) (jpegRoom out maxDataSize i) := by
  rw [jpegPlen, hlen, hhdrLen, wrapInt_rest hlt hi, ← jpegRoom]
  split_ifs with hlong
  · rw [min_eq_right hlong.le]
  · rw [min_eq_left (Int.not_lt.mp hlong)]

theorem jpegSendRound_sending {env : ℕ → Outcome} (hsucceed : SendsSucceed env ep) {f : Frame}
    {out : RtpJpeg} (hlen : out.scanDataLen = len) (hlt : len < 2147483648)
    (hlater : (len : ℤ) ≤ jpegRoom out ep.maxDataSize 0 ∨ 0 < jpegRoom out ep.maxDataSize 1) (i : ℕ)
    (vars : JpegSend) (hsending : Sending out ep len i vars) (hi : i < len) :
    ∃ (ret : ℤ) (size : ℕ) (vars' : JpegSend),
      jpegSendRound env f out i vars = (ret, (size : ℤ), vars') ∧ 0 ≤ ret ∧ 0 < size ∧
        i + size ≤ len ∧
        (size : ℤ) = min ((len - i : ℕ) : ℤ) (jpegRoom out ep.maxDataSize i) ∧
        Sending out ep len (i + size) vars' ∧
        (rtpPackets vars'.sender.log).map Prod.fst = (rtpPackets vars.sender.log).map Prod.fst ++
          [piecePacket f out ep ((rtpPackets vars.sender.log).map Prod.fst).length (i, size)] := by
  have hsucceed' := hsucceed.congr hsending.same
  have hhdrLen : vars.hdrLen = if i = 0 then (fullHeader out : ℤ) else 8 := by
    rw [hsending.loaded.hdrLen]
    simp only [decide_eq_true_eq]
  have hplen := jpegPlen_eq hlen hlt hi.le ep.maxDataSize hhdrLen
  have hroom := hsending.room hi
  have hpos : 0 < jpegPlen out ep.maxDataSize vars.hdrLen i := by omega
  obtain ⟨size, hsize⟩ := Int.eq_ofNat_of_zero_le hpos.le
  have hmax : vars.sender.ep.maxDataSize = ep.maxDataSize := hsending.same.maxDataSize
  obtain ⟨hret, hseqnum⟩ := jpegSendRound_succeeds f hsucceed' out i
  have hpackets := rtpPackets_jpegSendRound env f hsending.loaded i
  rw [if_neg hsucceed'.connected, hmax, hsize, packetBytes_congr hsending.same,
    hsending.seqnum] at hpackets
  have hsame := hsending.same.trans (jpegSendRound_endpoint env f out i vars)
  have hloaded := loaded_jpegSendRound env f hsending.loaded i
  have hplen' : (jpegSendRound env f out i vars).2.1 = size := by
    rw [← hsize, ← hmax]
    rfl
  generalize jpegSendRound env f out i vars = result at *
  refine ⟨result.1, size, result.2.2, Prod.ext rfl (Prod.ext hplen' rfl), hret.ge, by omega,
    by omega, by omega, ?_, ?_⟩
  · have hnext : decide (i + size = 0) = false := by
      rw [decide_eq_false_iff_not]
      omega
    refine ⟨hsame, ?_, ?_, fun hmore ↦ ?_⟩
    · rw [hnext]
      exact hloaded
    · rw [hseqnum, hsending.seqnum, hpackets, map_append, length_append,
        UInt16.ofNat_add, ← UInt16.add_assoc]
      rfl
    · rw [jpegRoom_later (show 0 < i + size by omega) Nat.one_pos]
      rcases Nat.eq_zero_or_pos i with rfl | hipos
      · exact hlater.resolve_left (by omega)
      · rw [jpegRoom_later Nat.one_pos hipos]
        exact hroom
  · rw [hpackets, map_append]
    rfl

/-- When all sends succeed and there is room for scan data, `jpeg_send` returns 0, and it has sent
the packets of pieces that tile the scan data. -/
theorem jpegSend_tiles {env : ℕ → Outcome} (hsucceed : SendsSucceed env ep) (f : Frame)
    {out : RtpJpeg} (hlen : out.scanDataLen = len) (hlt : len < 2147483648)
    (hfirst : 0 < jpegRoom out ep.maxDataSize 0)
    (hlater : (len : ℤ) ≤ jpegRoom out ep.maxDataSize 0 ∨ 0 < jpegRoom out ep.maxDataSize 1) :
    ∃ pieces vars, jpegSend env f out ⟨ep, false, []⟩ (len + 1) = some (0, vars) ∧
      Tiles pieces 0 len ∧
      (∀ piece ∈ pieces, (piece.2 : ℤ) =
        min ((len - piece.1 : ℕ) : ℤ) (jpegRoom out ep.maxDataSize piece.1)) ∧
      (rtpPackets vars.sender.log).map Prod.fst = pieces.mapIdx (piecePacket f out ep) := by
  have hstart : Sending out ep len 0 (jpegSendStart out ⟨ep, false, []⟩) := by
    refine ⟨?_, loaded_start out _, ?_, fun _ ↦ hfirst⟩
    · rw [sender_jpegSendStart]
      exact SameEndpoint.refl ep
    · rw [sender_jpegSendStart]
      exact (UInt16.add_zero _).symm
  obtain ⟨pieces, vars, hloop, htiles, hfits, houtput⟩ := strideLoop_tiles (Sending out ep len)
    (fun piece ↦ (piece.2 : ℤ) =
      min ((len - piece.1 : ℕ) : ℤ) (jpegRoom out ep.maxDataSize piece.1))
    (fun vars : JpegSend ↦ (rtpPackets vars.sender.log).map Prod.fst) (piecePacket f out ep) hlt
    (jpegSendRound_sending hsucceed hlen hlt hlater) (Nat.zero_le len) hstart
    (Nat.lt_succ_self (len - 0))
  refine ⟨pieces, vars, ?_, htiles, hfits, ?_⟩
  · rw [jpegSend, hlen]
    exact hloop
  · rw [houtput, sender_jpegSendStart]
    simp [rtpPackets]

/-! ### What a receiver reads -/

/-- A transport that takes everything. -/
def calmEnv (_k : ℕ) : Outcome := ⟨0, ⟨1000, 0⟩, ⟨⟨1000, 0⟩, 0⟩⟩

/-- An endpoint over an RTSP connection with a given transfer size. -/
def sizedEndpoint (maxDataSize : ℤ) : RtpEndpoint :=
  newRtpEndpoint (jpegGetPayload 96) 7 100 65535 ⟨1000, 0⟩ maxDataSize .inter

theorem sendsSucceed_calmEnv (hinter : ep.transType = .inter) : SendsSucceed calmEnv ep := by
  refine ⟨?_, fun k ↦ ⟨le_refl 0, le_refl 0, Or.inl hinter⟩⟩
  rw [hinter]
  decide

/-- The scan data after an accepted frame. -/
theorem scanData_of_accepted {f : Frame} {ms : ℕ} {before : RtpJpeg}
    (haccepted : Accepts f ms before) :
    ∃ p, (jpegProcessFrame f ms before).2.scanData = some p ∧
      (jpegProcessFrame f ms before).2.scanDataLen < 2147483648 := by
  obtain ⟨scan, out, -, hnonneg, -, -, hwalk⟩ := parsed_of_accepted haccepted
  have hlt := f.length_lt
  rw [hwalk]
  refine ⟨_, rfl, ?_⟩
  simp only [startScan]
  omega

/-- The bytes before the scan data in the `k`-th packet. -/
def headerLength (out : RtpJpeg) (k : ℕ) : ℕ :=
  12 + if k = 0 then fullHeader out else laterHeader out

/-- The sender after `jpeg_send`. -/
def jpegSender (env : ℕ → Outcome) (f : Frame) (out : RtpJpeg) (ep : RtpEndpoint) (fuel : ℕ) :
    Option Sender :=
  (jpegSend env f out ⟨ep, false, []⟩ fuel).map (·.2.sender)

/-- The packet that a round has sent is there when `jpeg_send` returns. -/
theorem packet_of_round {env : ℕ → Outcome} {f : Frame} {out : RtpJpeg} {first : Bool}
    {vars : JpegSend} (hloaded : Loaded out first vars)
    (hconnected : vars.sender.ep.transType ≠ .unset) {i : ℤ} (hi : i < out.scanDataLen) {fuel : ℕ}
    {result : ℤ × JpegSend}
    (hloop : strideLoop out.scanDataLen (jpegSendRound env f out) fuel i vars = some result) :
    ∃ packet, (rtpPackets result.2.sender.log)[(rtpPackets vars.sender.log).length]? = some packet ∧
      packet.1.length = 12 + (if first then fullHeader out else laterHeader out) +
        (jpegPlen out vars.sender.ep.maxDataSize vars.hdrLen i).toNat := by
  obtain ⟨more, hmore⟩ := strideLoop_output_first
    (fun vars : JpegSend ↦ rtpPackets vars.sender.log) (rtpPackets_le_jpegSendRound env f out) hi
    hloop
  rw [rtpPackets_jpegSendRound env f hloaded, if_neg hconnected] at hmore
  have hfound : (rtpPackets result.2.sender.log)[(rtpPackets vars.sender.log).length]? =
      some (packetBytes f out vars.sender.ep i
        (jpegPlen out vars.sender.ep.maxDataSize vars.hdrLen i) first, (env vars.calls).ret) := by
    rw [← hmore, append_assoc, List.getElem?_append_right (Nat.le_refl _), Nat.sub_self]
    rfl
  exact ⟨_, hfound, length_packetBytes f out vars.sender.ep i _ first⟩

/-- Where all packets carry scan data there is room for it in the first packet and, if there is one,
in the second. -/
theorem room_of_progress {env : ℕ → Outcome} (hsucceed : SendsSucceed env ep) {f : Frame}
    {out : RtpJpeg} (hlen : out.scanDataLen = len) (hlt : len < 2147483648) (hpos : 0 < len)
    (hprogress : Progress (jpegSender env f out ep) (headerLength out) len) :
    0 < jpegRoom out ep.maxDataSize 0 ∧
      ((len : ℤ) ≤ jpegRoom out ep.maxDataSize 0 ∨ 0 < jpegRoom out ep.maxDataSize 1) := by
  obtain ⟨fuel, sender, hrun, -, hcarries⟩ := hprogress
  obtain ⟨result, hloop, rfl⟩ := Option.map_eq_some_iff.mp hrun
  have hstart := sender_jpegSendStart out ⟨ep, false, []⟩
  have hloaded := loaded_start out ⟨ep, false, []⟩
  rw [jpegSend] at hloop
  generalize jpegSendStart out ⟨ep, false, []⟩ = vars at hloop hstart hloaded
  have hsucceed' : SendsSucceed env vars.sender.ep := by
    rw [hstart]
    exact hsucceed
  have hmax : vars.sender.ep.maxDataSize = ep.maxDataSize := by rw [hstart]
  have hzero : 0 < out.scanDataLen := by omega
  -- The first packet.
  have hplen := jpegPlen_eq hlen hlt (Nat.zero_le len) ep.maxDataSize hloaded.hdrLen
  obtain ⟨packet, hpacket, hlength⟩ := packet_of_round hloaded hsucceed'.connected hzero hloop
  rw [hstart] at hpacket
  have hcarry := hcarries 0 packet hpacket
  rw [hlength, headerLength, if_pos rfl, if_pos rfl, hmax] at hcarry
  rw [Int.natCast_zero] at hplen
  refine ⟨by omega, ?_⟩
  by_contra hnone
  obtain ⟨hmore, hnoroom⟩ := not_or.mp hnone
  -- The second packet.
  cases fuel with
  | zero => exact absurd hloop.symm (Option.some_ne_none _)
  | succ fuel =>
    obtain ⟨hret, -⟩ := jpegSendRound_succeeds f hsucceed' out 0
    have hstep : jpegPlen out vars.sender.ep.maxDataSize vars.hdrLen 0 =
        jpegRoom out ep.maxDataSize 0 := by
      rw [hmax, hplen]
      omega
    obtain ⟨room, hroom⟩ := Int.eq_ofNat_of_zero_le (show 0 ≤ jpegRoom out ep.maxDataSize 0 by omega)
    have hround : (jpegSendRound env f out 0 vars).2.1 = (room : ℤ) := hstep.trans hroom
    have hloaded' := loaded_jpegSendRound env f hloaded 0
    have hsame := jpegSendRound_endpoint env f out 0 vars
    have hsucceed'' := hsucceed'.congr hsame
    have hcount : (rtpPackets (jpegSendRound env f out 0 vars).2.2.sender.log).length = 1 := by
      rw [rtpPackets_jpegSendRound env f hloaded, if_neg hsucceed'.connected, hstart]
      rfl
    rw [strideLoop_next hzero hret.ge, hround, Int.zero_add, bmod_natCast (by omega)] at hloop
    have hplen' := jpegPlen_eq hlen hlt (show room ≤ len by omega) ep.maxDataSize
      (if_neg (show room ≠ 0 by omega)).symm
    obtain ⟨packet', hpacket', hlength'⟩ :=
      packet_of_round hloaded' hsucceed''.connected (by omega) hloop
    rw [hcount] at hpacket'
    have hcarry' := hcarries 1 packet' hpacket'
    rw [hlength', hsame.maxDataSize, hmax, hloaded'.hdrLen, if_neg (by decide),
      headerLength, if_neg (by decide), if_neg (by decide), hplen',
      jpegRoom_later (show 0 < room by omega) Nat.one_pos] at hcarry'
    omega

/-- `jpeg_send` makes progress exactly when there is nothing to send, or there is room for scan data
in the first packet and in the second, if there is one. -/
theorem jpeg_progress_iff {env : ℕ → Outcome} (hsucceed : SendsSucceed env ep) (f : Frame)
    {out : RtpJpeg} (hlt : out.scanDataLen < 2147483648) :
    Progress (jpegSender env f out ep) (headerLength out) out.scanDataLen ↔
      out.scanDataLen ≤ 0 ∨ (0 < jpegRoom out ep.maxDataSize 0 ∧
        (out.scanDataLen ≤ jpegRoom out ep.maxDataSize 0 ∨ 0 < jpegRoom out ep.maxDataSize 1)) := by
  by_cases hnone : out.scanDataLen ≤ 0
  · refine iff_of_true (Progress.of_nil 1 (congrArg _ (strideLoop_of_le hnone)) ?_) (Or.inl hnone)
    dsimp only
    rw [sender_jpegSendStart]
    rfl
  have hpos : 0 < out.scanDataLen := Int.not_le.mp hnone
  obtain ⟨len, hlen⟩ := Int.eq_ofNat_of_zero_le hpos.le
  constructor
  · intro hprogress
    rw [hlen] at hprogress ⊢
    exact Or.inr (room_of_progress hsucceed hlen (by omega) (by omega) hprogress)
  · intro hroom
    obtain ⟨hfirst, hlater⟩ := hroom.resolve_left hnone
    rw [hlen] at hlater
    obtain ⟨pieces, vars, hsend, htiles, -, hpackets⟩ := jpegSend_tiles hsucceed f hlen (by omega)
      hfirst hlater
    rw [hlen]
    refine Progress.of_tiles (congrArg _ hsend) htiles ?_
    have hlengths : (rtpPackets vars.sender.log).map (·.1.length) =
        ((rtpPackets vars.sender.log).map Prod.fst).map List.length := by
      rw [map_map]
      rfl
    rw [hlengths, hpackets]
    refine ext_getElem? fun k ↦ ?_
    simp only [List.getElem?_map, List.getElem?_mapIdx, Option.map_map]
    cases hpiece : pieces[k]? with
    | none => rfl
    | some piece =>
      simp only [Option.map_some, Function.comp_apply, piecePacket, length_packetBytes,
        headerLength, decide_eq_true_eq, htiles.start_eq_first_iff hpiece, Int.toNat_natCast]

/-- Transfer sizes with which fragmentation makes progress: for an accepted JPEG frame there must be
room for scan data behind the headers as they are counted, unless there is nothing to send; for a
frame of raw audio the frame or a sample of all channels must fit. -/
theorem fragmentation_progress_iff {env : ℕ → Outcome} {ep : RtpEndpoint}
    (hsucceed : SendsSucceed env ep) :
    (∀ (f : Frame) (ms : ℕ) (before after : RtpJpeg), Accepts f ms before →
      after = (jpegProcessFrame f ms before).2 →
        (Progress (jpegSender env f after ep) (headerLength after) after.scanDataLen ↔
          after.scanDataLen ≤ 0 ∨ (0 < jpegRoom after ep.maxDataSize 0 ∧
            (after.scanDataLen ≤ jpegRoom after ep.maxDataSize 0 ∨
              0 < jpegRoom after ep.maxDataSize 1)))) ∧
      ∀ (f : Frame) (out : RtpRawaudio),
        (Progress (fun fuel ↦ (rawaudioSend env f (rawaudioProcessFrame f out).2 ⟨ep, false, []⟩
            fuel).map (·.2.1)) (fun _ ↦ 12) f.length ↔
          f.length = 0 ∨ (f.length : ℤ) ≤ ep.maxDataSize ∨ (out.sample : ℤ) ≤ ep.maxDataSize) := by
  constructor
  · intro f ms before after haccepted hafter
    obtain ⟨p, -, hlt⟩ := scanData_of_accepted haccepted
    rw [← hafter] at hlt
    exact jpeg_progress_iff hsucceed f hlt
  · intro f out
    exact rawaudio_progress_iff hsucceed f out

theorem pictureFrame_progress :
    Progress (jpegSender calmEnv (pictureFrame 0x11)
      (jpegProcessFrame (pictureFrame 0x11) 0 blankJpeg).2 (sizedEndpoint 141))
      (headerLength (jpegProcessFrame (pictureFrame 0x11) 0 blankJpeg).2)
      (jpegProcessFrame (pictureFrame 0x11) 0 blankJpeg).2.scanDataLen :=
  ((fragmentation_progress_iff (sendsSucceed_calmEnv rfl)).1 _ 0 blankJpeg _ (by decide +kernel)
    rfl).mpr (by decide +kernel)

/-- With a transfer size of 140 there is no room for scan data behind the header of 140 bytes. -/
theorem pictureFrame_no_progress :
    SendsSucceed calmEnv (sizedEndpoint 140) ∧ Accepts (pictureFrame 0x11) 0 blankJpeg ∧
      ¬ Progress (jpegSender calmEnv (pictureFrame 0x11)
        (jpegProcessFrame (pictureFrame 0x11) 0 blankJpeg).2 (sizedEndpoint 140))
        (headerLength (jpegProcessFrame (pictureFrame 0x11) 0 blankJpeg).2)
        (jpegProcessFrame (pictureFrame 0x11) 0 blankJpeg).2.scanDataLen := by
  refine ⟨sendsSucceed_calmEnv rfl, by decide +kernel, ?_⟩
  rw [jpeg_progress_iff (sendsSucceed_calmEnv rfl) _ (by decide +kernel)]
  decide +kernel

/-! ### The size of the packets -/

/-- What holds before a round when the transfer size is larger than the full header: the array is
loaded for the first packet, or for a later one after all the room of the first was used; the
packets so far keep to the transfer size. -/
structure Keeping (out : RtpJpeg) (maxDataSize i : ℤ) (vars : JpegSend) : Prop where
  nonneg : 0 ≤ i
  max : vars.sender.ep.maxDataSize = maxDataSize
  loaded : (i = 0 ∧ Loaded out true vars) ∨
    ((out.scanDataLen ≤ i ∨ maxDataSize - fullHeader out ≤ i) ∧ Loaded out false vars)
  kept : ∀ packet ∈ rtpPackets vars.sender.log, (packet.1.length : ℤ) - 12 ≤ maxDataSize

theorem fullHeader_eq (out : RtpJpeg) :
    (fullHeader out : ℤ) = 132 + laterHeader out ∧
      (laterHeader out : ℤ) = if out.bHasDRI then 12 else 8 := by
  unfold fullHeader laterHeader
  cases out.bHasDRI <;> exact ⟨rfl, rfl⟩

theorem jpegPlen_of_room {out : RtpJpeg} {maxDataSize hdrLen i : ℤ}
    (hlt : out.scanDataLen < 2147483648) (hint : maxDataSize < 2147483648) (hnonneg : 0 ≤ i)
    (hi : i < out.scanDataLen) (hhdrLen : 0 ≤ hdrLen) (hroom : hdrLen < maxDataSize) :
    jpegPlen out maxDataSize hdrLen i = min (out.scanDataLen - i) (maxDataSize - hdrLen) := by
  rw [jpegPlen, wrapInt_eq (by omega) (by omega), wrapInt_eq (by omega) (by omega)]
  split_ifs with hlong
  · rw [min_eq_right hlong.le]
  · rw [min_eq_left (Int.not_lt.mp hlong)]

/-- A round keeps to the transfer size. -/
theorem keeping_jpegSendRound (env : ℕ → Outcome) (f : Frame) {out : RtpJpeg} {maxDataSize : ℤ}
    (hlt : out.scanDataLen < 2147483648) (hmax : (fullHeader out : ℤ) < maxDataSize)
    (hint : maxDataSize < 2147483648)
    (hfits : out.bHasDRI = false ∨ out.scanDataLen ≤ 2 * maxDataSize - 156) {i : ℤ}
    {vars : JpegSend} (hkeeping : Keeping out maxDataSize i vars) (hi : i < out.scanDataLen) :
    Keeping out maxDataSize ((i + (jpegSendRound env f out i vars).2.1).bmod (2 ^ 32))
      (jpegSendRound env f out i vars).2.2 := by
  obtain ⟨hnonneg, hsize, hloaded, hkept⟩ := hkeeping
  obtain ⟨hfull, hlater⟩ := fullHeader_eq out
  have hplen : (jpegSendRound env f out i vars).2.1 =
      jpegPlen out maxDataSize vars.hdrLen i := by
    rw [← hsize]
    rfl
  have hnext {plen : ℤ} (hpos : 0 < plen) (hle : plen ≤ out.scanDataLen - i) :
      (i + plen).bmod (2 ^ 32) = i + plen := wrapInt_eq (by omega) (by omega)
  have hpackets {first : Bool} (hload : Loaded out first vars)
      (hpacket : ((if first then fullHeader out else laterHeader out : ℕ) : ℤ) +
        (jpegPlen out maxDataSize vars.hdrLen i).toNat ≤ maxDataSize) :
      ∀ packet ∈ rtpPackets (jpegSendRound env f out i vars).2.2.sender.log,
        (packet.1.length : ℤ) - 12 ≤ maxDataSize := by
    intro packet hmem
    rw [rtpPackets_jpegSendRound env f hload, hsize] at hmem
    rcases mem_append.mp hmem with hmem | hmem
    · exact hkept packet hmem
    · split_ifs at hmem with hunset
      · exact absurd hmem not_mem_nil
      · rw [mem_singleton.mp hmem, length_packetBytes]
        omega
  have hmax' : (jpegSendRound env f out i vars).2.2.sender.ep.maxDataSize = maxDataSize :=
    (jpegSendRound_endpoint env f out i vars).maxDataSize.trans hsize
  rw [hplen]
  rcases hloaded with ⟨rfl, hload⟩ | ⟨hused, hload⟩
  · have hhdrLen : vars.hdrLen = fullHeader out := hload.hdrLen
    have hroom := jpegPlen_of_room hlt hint hnonneg hi (Int.natCast_nonneg _) hmax
    rw [← hhdrLen] at hroom
    rw [hnext (by omega) (by omega)]
    refine ⟨by omega, hmax', Or.inr ⟨by omega, loaded_jpegSendRound env f hload 0⟩,
      hpackets hload ?_⟩
    rw [if_pos rfl]
    omega
  · have hhdrLen : vars.hdrLen = 8 := hload.hdrLen
    have hroom := jpegPlen_of_room hlt hint hnonneg hi (show (0 : ℤ) ≤ 8 by decide)
      (show 8 < maxDataSize by omega)
    rw [← hhdrLen] at hroom
    rw [hnext (by omega) (by omega)]
    refine ⟨by omega, hmax', Or.inr ⟨by omega, loaded_jpegSendRound env f hload i⟩,
      hpackets hload ?_⟩
    rw [if_neg (by decide)]
    rcases hfits with hdri | hshort
    · rw [hdri, if_neg (by decide)] at hlater
      omega
    · split_ifs at hlater <;> omega

/-- With a restart interval, the second packet of a long frame exceeds the transfer size. -/
theorem exists_packet_gt (f : Frame) {out : RtpJpeg} {env : ℕ → Outcome}
    (hsucceed : SendsSucceed env ep) (hdri : out.bHasDRI = true)
    (hlt : out.scanDataLen < 2147483648) (hmax : (fullHeader out : ℤ) < ep.maxDataSize)
    (hint : ep.maxDataSize < 2147483648) (hlong : 2 * ep.maxDataSize - 156 < out.scanDataLen) :
    ∃ fuel sender, jpegSender env f out ep fuel = some sender ∧
      ∃ packet ∈ rtpPackets sender.log, ep.maxDataSize < (packet.1.length : ℤ) - 12 := by
  have hfull : fullHeader out = 144 := if_pos hdri
  have hlater : laterHeader out = 12 := if_pos hdri
  rw [hfull] at hmax
  obtain ⟨len, hlen⟩ := Int.eq_ofNat_of_zero_le (show 0 ≤ out.scanDataLen by omega)
  obtain ⟨max, hsize⟩ := Int.eq_ofNat_of_zero_le (show 0 ≤ ep.maxDataSize by omega)
  have hroom : jpegRoom out ep.maxDataSize 0 = (max - 144 : ℕ) := by
    rw [jpegRoom, if_pos rfl, hfull, wrapInt_eq (by omega) (by omega)]
    omega
  have hroom' {i : ℕ} (hi : 0 < i) : jpegRoom out ep.maxDataSize i = (max - 8 : ℕ) := by
    rw [jpegRoom, if_neg (Nat.pos_iff_ne_zero.mp hi), wrapInt_eq (by omega) (by omega)]
    omega
  obtain ⟨pieces, vars, hsend, htiles, hfits, hpackets⟩ := jpegSend_tiles hsucceed f hlen
    (by omega) (by omega) (Or.inr (by rw [hroom' Nat.one_pos]; omega))
  refine ⟨len + 1, vars.sender, congrArg _ hsend, ?_⟩
  -- The first piece takes all the room, and the second starts behind it.
  cases htiles with
  | nil => omega
  | @cons rest _ size _ hpos hrest =>
    obtain ⟨hfit, hfits'⟩ := forall_mem_cons.mp hfits
    rw [hroom] at hfit
    cases hrest with
    | nil => omega
    | @cons rest' _ size' _ hpos' hrest' =>
      obtain ⟨hfit', -⟩ := forall_mem_cons.mp hfits'
      rw [hroom' (by omega)] at hfit'
      have hmem : piecePacket f out ep 1 (0 + size, size') ∈
          (rtpPackets vars.sender.log).map Prod.fst := by
        rw [hpackets, mem_iff_getElem?]
        refine ⟨1, ?_⟩
        rw [List.getElem?_mapIdx]
        rfl
      obtain ⟨packet, hpacket, hbytes⟩ := mem_map.mp hmem
      refine ⟨packet, hpacket, ?_⟩
      have hne : ¬ decide (0 + size = 0) = true := by
        rw [decide_eq_true_eq]
        omega
      rw [hbytes, piecePacket, length_packetBytes, if_neg hne, hlater]
      dsimp only at hfit hfit' ⊢
      omega

/-- Every packet of an accepted frame keeps to a transfer size that is larger than the full header,
whatever the transport does, exactly when the frame has no restart interval or needs at most a
second packet that is not full. -/
theorem payload_le_iff {f : Frame} {ms : ℕ} {before after : RtpJpeg}
    (haccepted : Accepts f ms before) (hafter : after = (jpegProcessFrame f ms before).2)
    {maxDataSize : ℤ} (hmax : (fullHeader after : ℤ) < maxDataSize)
    (hint : maxDataSize < 2147483648) :
    (∀ env ep fuel sender, ep.maxDataSize = maxDataSize →
        jpegSender env f after ep fuel = some sender →
          ∀ packet ∈ rtpPackets sender.log, (packet.1.length : ℤ) - 12 ≤ maxDataSize) ↔
      after.bHasDRI = false ∨ after.scanDataLen ≤ 2 * maxDataSize - 156 := by
  obtain ⟨p, -, hlt⟩ := scanData_of_accepted haccepted
  rw [← hafter] at hlt
  constructor
  · intro hkeeps
    by_contra hnone
    obtain ⟨hdri, hlong⟩ := not_or.mp hnone
    have hsucceed : SendsSucceed calmEnv (sizedEndpoint maxDataSize) := sendsSucceed_calmEnv rfl
    obtain ⟨fuel, sender, hsend, packet, hpacket, hgt⟩ := exists_packet_gt f hsucceed
      (Bool.eq_true_of_not_eq_false hdri) hlt hmax hint (Int.not_le.mp hlong)
    exact absurd (hkeeps calmEnv _ fuel sender rfl hsend packet hpacket) (Int.not_le.mpr hgt)
  · intro hfits env ep fuel sender hsize hsend
    obtain ⟨result, hloop, rfl⟩ := Option.map_eq_some_iff.mp hsend
    have hstart := sender_jpegSendStart after ⟨ep, false, []⟩
    refine strideLoop_invariant (Keeping after maxDataSize) (fun _ _ hkeeping ↦ hkeeping.kept) ?_ ?_
      hloop
    · intro i vars hkeeping hi
      have hround := keeping_jpegSendRound env f hlt hmax hint hfits hkeeping hi
      exact ⟨hround.kept, fun _ ↦ hround⟩
    · refine ⟨le_refl 0, ?_, Or.inl ⟨rfl, loaded_start after _⟩, ?_⟩
      · rw [hstart]
        exact hsize
      · rw [hstart]
        exact fun packet hpacket ↦ absurd hpacket not_mem_nil

/-- A picture with a restart interval and a scan of 135 bytes. -/
def restartBytes : Bytes :=
  [0xFF, 0xD8] ++ ([0xFF, 0xDB, 0, 67, 0] ++ List.replicate 64 16) ++ [0xFF, 0xDD, 0, 4, 0, 8] ++
    [0xFF, 0xC0, 0, 17, 8, 0, 16, 0, 16, 3, 1, 0x22, 0, 2, 0x11, 0, 3, 0x11, 0] ++
    [0xFF, 0xDA, 0, 2] ++ List.replicate 135 1

theorem length_restartBytes : restartBytes.length < 2147483648 := by decide +kernel

/-- The frame of the picture with a restart interval. -/
def restartFrame : Frame := .ofBytes ⟨restartBytes, length_restartBytes⟩

theorem restartFrame_payload_le_iff :
    (∀ env ep fuel sender, ep.maxDataSize = 146 →
        jpegSender env restartFrame (jpegProcessFrame restartFrame 0 blankJpeg).2 ep fuel =
          some sender →
          ∀ packet ∈ rtpPackets sender.log, (packet.1.length : ℤ) - 12 ≤ 146) ↔
      (jpegProcessFrame restartFrame 0 blankJpeg).2.bHasDRI = false ∨
        (jpegProcessFrame restartFrame 0 blankJpeg).2.scanDataLen ≤ 2 * 146 - 156 :=
  @payload_le_iff restartFrame 0 blankJpeg _ (by decide +kernel) rfl 146 (by decide +kernel)
    (by decide)

/-- The second packet carries 146 bytes where the transfer size is 145. -/
theorem restartFrame_payload_gt :
    Accepts restartFrame 0 blankJpeg ∧
      (jpegSender calmEnv restartFrame (jpegProcessFrame restartFrame 0 blankJpeg).2
        (sizedEndpoint 145) 3).map
          (fun sender ↦ (rtpPackets sender.log).map fun packet ↦ packet.1.length - 12) =
        some [145, 146] := by
  decide +kernel

end WisCam.Rtp
