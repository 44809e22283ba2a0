import Mathlib.Algebra.Order.Ring.Int
import WisCam.Foundations.StrideLoop
import WisCam.Rtp.Endpoint

/-!
# Raw audio over RTP

`rawaudio_process_frame` and `rawaudio_send` (`rtp-rawaudio.c`). A frame that does not fit into one
packet is cut into packets of whole samples, as many as fit into the transfer size of the endpoint.

`Progress` says that such a loop returns after not more packets than there are media bytes, and that
each packet carries one. `rawaudio_progress_iff` says for which transfer sizes this holds: where not
even one sample fits, the loop sends empty packets and does not return.
-/

set_option autoImplicit false

namespace WisCam.Rtp

open Foundations
open Server (wrapInt wrapInt_eq)

/-! ### The packetiser -/

/-- `struct rtp_rawaudio`. There is at least one channel, as the constructor divides by their number,
and the size of a sample of all channels is an int. -/
structure RtpRawaudio where
  sampsize : ℕ
  channels : ℕ
  timestamp : UInt32
  rawaudioData : Option ℤ
  rawaudioLen : ℤ
  sampsize_pos : 0 < sampsize
  channels_pos : 0 < channels
  sample_lt : channels * sampsize < 2147483648

/-- `out->channels * out->sampsize`: the bytes of one sample of all channels. -/
def RtpRawaudio.sample (out : RtpRawaudio) : ℕ := out.channels * out.sampsize

theorem RtpRawaudio.sample_pos (out : RtpRawaudio) : 0 < out.sample :=
  Nat.mul_pos out.channels_pos out.sampsize_pos

/-- `out->sampsize`, as the constructor sets it for `FORMAT_PCM` and for the other formats. -/
def rawaudioSampsize (pcm : Bool) : ℕ := if pcm then 2 else 1

theorem rawaudioSampsize_pos (pcm : Bool) : 0 < rawaudioSampsize pcm := by
  cases pcm with
  | true => exact Nat.two_pos
  | false => exact Nat.one_pos

theorem rawaudioSample_lt {channels : ℕ} (hlt : 2 * channels < 2147483648) (pcm : Bool) :
    channels * rawaudioSampsize pcm < 2147483648 := by
  cases pcm with
  | true => exact (Nat.mul_comm channels 2).trans_lt hlt
  | false =>
    show channels * 1 < 2147483648
    omega

/-- `new_rtp_media_rawaudio_stream`. -/
def newRtpMediaRawaudioStream (pcm : Bool) (channels : ℕ) (hpos : 0 < channels)
    (hlt : 2 * channels < 2147483648) : RtpRawaudio :=
  ⟨rawaudioSampsize pcm, channels, 0, none, 0, rawaudioSampsize_pos pcm, hpos,
    rawaudioSample_lt hlt pcm⟩

/-- `rawaudio_process_frame`, which accepts every frame. -/
def rawaudioProcessFrame (f : Frame) (out : RtpRawaudio) : ℤ × RtpRawaudio :=
  (1, { out with timestamp := f.timestamp, rawaudioData := some 0, rawaudioLen := f.length })

/-- `plen` in `rawaudio_send`: all that is left, or what fits of whole samples. -/
def rawaudioPlen (out : RtpRawaudio) (maxDataSize i : ℤ) : ℤ :=
  let rest := wrapInt (out.rawaudioLen - i)
  if rest > maxDataSize then maxDataSize - maxDataSize.tmod out.sample else rest

/-- One round of the loop of `rawaudio_send`, on the endpoint and the number of packets so far. -/
def rawaudioRound (env : ℕ → Outcome) (f : Frame) (out : RtpRawaudio) (i : ℤ)
    (vars : Sender × ℕ) : ℤ × ℤ × (Sender × ℕ) :=
  let plen := rawaudioPlen out vars.1.ep.maxDataSize i
  let (ret, sender) := sendRtpPacket (env vars.2) vars.1
    [f.bytes (out.rawaudioData.map (· + i)) plen]
    (out.timestamp + UInt32.ofInt ((i.tdiv out.channels).tdiv out.sampsize)) false
  (ret, plen, (sender, vars.2 + 1))

/-- `rawaudio_send`, where `env` says what happens during its calls of `send_rtp_packet`. -/
def rawaudioSend (env : ℕ → Outcome) (f : Frame) (out : RtpRawaudio) (sender : Sender)
    (fuel : ℕ) : Option (ℤ × (Sender × ℕ)) :=
  strideLoop out.rawaudioLen (rawaudioRound env f out) fuel 0 (sender, 0)

/-! ### Progress -/

/-- A function that sends packets returns, after not more packets than there are media bytes, and
the `k`-th packet carries a byte behind its `header k` bytes of headers. -/
def Progress (run : ℕ → Option Sender) (header : ℕ → ℕ) (len : ℤ) : Prop :=
  ∃ fuel sender, run fuel = some sender ∧ (rtpPackets sender.log).length ≤ len.toNat ∧
    ∀ k packet, (rtpPackets sender.log)[k]? = some packet → header k < packet.1.length

/-- Packets for the pieces of a tiling make progress. -/
theorem Progress.of_tiles {run : ℕ → Option Sender} {header : ℕ → ℕ} {len fuel : ℕ}
    {sender : Sender} {pieces : List (ℕ × ℕ)} (hrun : run fuel = some sender)
    (htiles : Tiles pieces 0 len) (hlengths : (rtpPackets sender.log).map (·.1.length) =
      pieces.mapIdx fun k piece ↦ header k + piece.2) : Progress run header len := by
  have hcount : (rtpPackets sender.log).length = pieces.length := by
    simpa using congrArg List.length hlengths
  refine ⟨fuel, sender, hrun, ?_, fun k packet hpacket ↦ ?_⟩
  · have hle := htiles.add_length_le
    omega
  · have hlength := congrArg (·[k]?) hlengths
    simp only [List.getElem?_map, hpacket, Option.map_some, List.getElem?_mapIdx] at hlength
    obtain ⟨piece, hpiece, hsize⟩ := Option.map_eq_some_iff.mp hlength.symm
    have hpos := htiles.size_pos (List.mem_of_getElem? hpiece)
    omega

/-- A function that sends nothing makes progress. -/
theorem Progress.of_nil {run : ℕ → Option Sender} {header : ℕ → ℕ} {len : ℤ} (fuel : ℕ)
    {sender : Sender} (hrun : run fuel = some sender) (hnil : rtpPackets sender.log = []) :
    Progress run header len := by
  refine ⟨fuel, sender, hrun, ?_, fun k packet hpacket ↦ ?_⟩
  · rw [hnil]
    exact Nat.zero_le _
  · rw [hnil] at hpacket
    simp at hpacket

/-- What fits of whole samples is something exactly when one sample fits. -/
theorem aligned_pos_iff {size : ℤ} {sample : ℕ} (hsample : 0 < sample) :
    0 < size - size.tmod sample ↔ (sample : ℤ) ≤ size := by
  have hcast : (0 : ℤ) < sample := Int.natCast_pos.mpr hsample
  rw [Int.tmod_def, sub_sub_cancel, mul_pos_iff_of_pos_left hcast]
  rcases lt_or_ge size 0 with hneg | hpos
  · have hquot : 0 ≤ (-size).tdiv sample := Int.tdiv_nonneg (by omega) (by omega)
    rw [Int.neg_tdiv] at hquot
    omega
  · rw [Int.tdiv_eq_ediv_of_nonneg hpos, ← Int.add_one_le_iff, Int.le_ediv_iff_mul_le hcast,
      zero_add, one_mul]

theorem aligned_le {size : ℤ} {sample : ℕ} (hsize : 0 ≤ size) :
    size - size.tmod sample ≤ size := by
  have htmod := Int.tmod_nonneg (sample : ℤ) hsize
  omega

/-- A round passes one packet to the transport. -/
theorem rtpPackets_rawaudioRound (env : ℕ → Outcome) (f : Frame) (out : RtpRawaudio) (i : ℤ)
    {vars : Sender × ℕ} (hconnected : vars.1.ep.transType ≠ .unset) :
    ∃ packet, rtpPackets (rawaudioRound env f out i vars).2.2.1.log =
        rtpPackets vars.1.log ++ [packet] ∧
      packet.1.length = 12 + (rawaudioPlen out vars.1.ep.maxDataSize i).toNat := by
  have hsent := rtpPackets_sendRtpPacket (env vars.2) vars.1
    [f.bytes (out.rawaudioData.map (· + i)) (rawaudioPlen out vars.1.ep.maxDataSize i)]
    (out.timestamp + UInt32.ofInt ((i.tdiv out.channels).tdiv out.sampsize)) false
  rw [if_neg hconnected] at hsent
  exact ⟨_, hsent, by simp⟩

/-- What is left of a frame, without overflow. -/
theorem wrapInt_rest {len i : ℕ} (hlen : len < 2147483648) (hi : i ≤ len) :
    wrapInt ((len : ℤ) - i) = (len - i : ℕ) := by
  rw [wrapInt_eq (by omega) (by omega)]
  omega

theorem rawaudioPlen_eq (f : Frame) (out : RtpRawaudio) {maxDataSize : ℤ} {i : ℕ}
    (hi : i ≤ f.length) :
    rawaudioPlen (rawaudioProcessFrame f out).2 maxDataSize i =
      if ((f.length - i : ℕ) : ℤ) > maxDataSize then maxDataSize - maxDataSize.tmod out.sample
      else (f.length - i : ℕ) := by
  rw [rawaudioPlen, rawaudioProcessFrame]
  dsimp only
  rw [wrapInt_rest f.length_lt hi]
  rfl

/-- Where the frame or a sample fits, a round sends something, and not more than there is. -/
theorem rawaudioPlen_bounds (f : Frame) (out : RtpRawaudio) {maxDataSize : ℤ}
    (hfits : (f.length : ℤ) ≤ maxDataSize ∨ (out.sample : ℤ) ≤ maxDataSize) {i : ℕ}
    (hi : i < f.length) :
    0 < rawaudioPlen (rawaudioProcessFrame f out).2 maxDataSize i ∧
      rawaudioPlen (rawaudioProcessFrame f out).2 maxDataSize i ≤ (f.length - i : ℕ) := by
  rw [rawaudioPlen_eq f out hi.le]
  split_ifs with hlong
  · have hsample : (out.sample : ℤ) ≤ maxDataSize := by omega
    have haligned := @aligned_le maxDataSize out.sample (by omega)
    exact ⟨(aligned_pos_iff out.sample_pos).mpr hsample, by omega⟩
  · omega

/-- Raw audio is sent with progress exactly when the frame or a sample of all channels fits into the
transfer size, or there is nothing to send. -/
theorem rawaudio_progress_iff {env : ℕ → Outcome} {ep : RtpEndpoint}
    (hsucceed : SendsSucceed env ep) (f : Frame) (out : RtpRawaudio) :
    Progress (fun fuel ↦ (rawaudioSend env f (rawaudioProcessFrame f out).2 ⟨ep, false, []⟩
        fuel).map (·.2.1)) (fun _ ↦ 12) f.length ↔
      f.length = 0 ∨ (f.length : ℤ) ≤ ep.maxDataSize ∨ (out.sample : ℤ) ≤ ep.maxDataSize := by
  constructor
  · rintro ⟨fuel, sender, hrun, -, hcarries⟩
    obtain ⟨result, hloop, rfl⟩ := Option.map_eq_some_iff.mp hrun
    by_contra hnone
    obtain ⟨hpos, hfits, hsample⟩ : 0 < f.length ∧ ep.maxDataSize < f.length ∧
        ep.maxDataSize < out.sample := by omega
    -- The first packet is empty.
    obtain ⟨packet, hpacket, hlength⟩ := @rtpPackets_rawaudioRound env f
      (rawaudioProcessFrame f out).2 0 (⟨ep, false, []⟩, 0) hsucceed.connected
    obtain ⟨more, hmore⟩ := strideLoop_output_first
      (fun vars : Sender × ℕ ↦ rtpPackets vars.1.log)
      (fun i vars ↦ rtpPackets_le_sendRtpPacket _ _ _ _ _) (Int.natCast_pos.mpr hpos) hloop
    rw [hpacket] at hmore
    have hcarry : 12 < packet.1.length := by
      apply hcarries 0 packet
      rw [← hmore]
      rfl
    have hempty : ¬ 0 < rawaudioPlen (rawaudioProcessFrame f out).2 ep.maxDataSize (0 : ℕ) := by
      rw [rawaudioPlen_eq f out (Nat.zero_le _), if_pos (by omega), aligned_pos_iff out.sample_pos]
      omega
    rw [hlength] at hcarry
    exact hempty (by simpa using hcarry)
  · intro hfits
    rcases Nat.eq_zero_or_pos f.length with hzero | hpos
    · have hend : ((rawaudioProcessFrame f out).2.rawaudioLen : ℤ) ≤ 0 := by
        simp [rawaudioProcessFrame, hzero]
      exact Progress.of_nil 1 (congrArg _ (strideLoop_of_le hend)) rfl
    replace hfits := hfits.resolve_left (Nat.pos_iff_ne_zero.mp hpos)
    have hround (i : ℕ) (vars : Sender × ℕ) (hsame : SameEndpoint ep vars.1.ep)
        (hi : i < f.length) : ∃ (ret : ℤ) (size : ℕ) (vars' : Sender × ℕ),
        rawaudioRound env f (rawaudioProcessFrame f out).2 i vars = (ret, (size : ℤ), vars') ∧
          0 ≤ ret ∧ 0 < size ∧ i + size ≤ f.length ∧ True ∧ SameEndpoint ep vars'.1.ep ∧
          (rtpPackets vars'.1.log).map (·.1.length) =
            (rtpPackets vars.1.log).map (·.1.length) ++ [12 + size] := by
      have hsucceed' := hsucceed.congr hsame
      obtain ⟨packet, hpacket, hlength⟩ := rtpPackets_rawaudioRound env f
        (rawaudioProcessFrame f out).2 i hsucceed'.connected
      rw [hsame.maxDataSize] at hlength
      obtain ⟨hplen, hle⟩ := rawaudioPlen_bounds f out hfits hi
      refine ⟨0, (rawaudioPlen (rawaudioProcessFrame f out).2 ep.maxDataSize i).toNat, _,
        Prod.ext ?_ (Prod.ext ?_ rfl), le_refl 0, by omega, by omega, trivial,
        hsame.trans (sendRtpPacket_endpoint _ _ _ _ _), ?_⟩
      · exact (sendRtpPacket_succeeds hsucceed'.connected (hsucceed'.succeeds _) _ _ _).1
      · change rawaudioPlen _ vars.1.ep.maxDataSize i = _
        rw [hsame.maxDataSize, Int.toNat_of_nonneg hplen.le]
      · rw [← hlength]
        exact (congrArg _ hpacket).trans (by simp)
    obtain ⟨pieces, vars, hloop, htiles, -, houtput⟩ := strideLoop_tiles
      (fun _ vars ↦ SameEndpoint ep vars.1.ep) (fun _ ↦ True)
      (fun vars : Sender × ℕ ↦ (rtpPackets vars.1.log).map (·.1.length))
      (fun _ piece ↦ 12 + piece.2) f.length_lt hround (s := (⟨ep, false, []⟩, 0))
      (Nat.zero_le f.length) (SameEndpoint.refl ep) (Nat.lt_succ_self _)
    exact Progress.of_tiles (congrArg _ hloop) htiles houtput

end WisCam.Rtp
