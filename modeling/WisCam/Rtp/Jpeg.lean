import WisCam.Foundations.StrideLoop
import WisCam.Rtp.Endpoint

/-!
# Motion JPEG over RTP

`jpeg_process_frame` and `jpeg_send` (`rtp-jpeg.c`, built with `__NVT_RTP_JPEG__`). The first walks
over the marker segments of a frame and leaves in `struct rtp_jpeg` what the second needs: the type
and the size of the picture, pointers to the quantisation tables, and the scan data. The structure
lives as long as the stream, so what a frame does not set is what an earlier frame has left.

An offset that would not be an int ends the walk, as it is beyond the end of every frame.
-/

set_option autoImplicit false

namespace WisCam.Rtp

open Foundations
open Server (wrapInt)

/-- `struct rtp_jpeg`. The pointers are offsets into the frame at hand. -/
structure RtpJpeg where
  type : ℤ
  width : ℤ
  height : ℤ
  lumaTable : ℤ
  chromaTable : ℤ
  quant : Fin 16 → Option ℤ
  scanData : Option ℤ
  scanDataLen : ℤ
  initDone : Bool
  timestamp : UInt32
  bHasDRI : Bool
  dri : UInt16

/-- `out->quant[n]`. Outside the array there is no pointer into the frame. -/
def RtpJpeg.quantAt (out : RtpJpeg) (n : ℤ) : Option ℤ :=
  if h : n.toNat < 16 then
    if 0 ≤ n then out.quant ⟨n.toNat, h⟩ else none
  else none

/-! ### The segments -/

/-- The loop of `parse_DQT`, over the `len` bytes at the offset `d`. -/
def parseDqtFrom (f : Frame) (d len : ℤ) : ℕ → ℤ → RtpJpeg → ℤ × RtpJpeg
  | 0, _, out => (0, out)
  | fuel + 1, i, out =>
    if i < len then
      if f.mem (d + i) &&& 0xF0 ≠ 0 then (-1, out)
      else
        parseDqtFrom f d len fuel (i + 65) { out with
          quant := Function.update out.quant (Fin.ofNat 16 (f.mem (d + i)).toNat)
            (some (d + i + 1)) }
    else (0, out)

/-- `parse_DQT`. There are not more tables than bytes. -/
def parseDqt (f : Frame) (d len : ℤ) (out : RtpJpeg) : ℤ × RtpJpeg :=
  parseDqtFrom f d len len.toNat 0 out

def parseDri (f : Frame) (d : ℤ) (out : RtpJpeg) : ℤ × RtpJpeg :=
  (0, { out with bHasDRI := true, dri := UInt16.ofNat (get16 (f.mem d) (f.mem (d + 1))) })

def parseDht (out : RtpJpeg) : ℤ × RtpJpeg := (0, out)

/-- The parameters of the component at `d + c`, in `parse_SOF`. -/
def parseComponent (f : Frame) (d c : ℤ) (out : RtpJpeg) : ℤ × RtpJpeg :=
  let component := f.mem (d + c)
  let sampling := f.mem (d + c + 1)
  let table := (f.mem (d + c + 2)).toNat
  if 16 ≤ table ∨ out.quantAt table = none then (-1, out)
  else if component = 1 then
    if sampling = 0x11 then (0, { out with type := 0, lumaTable := table })
    else if sampling = 0x22 then (0, { out with type := 1, lumaTable := table })
    else if sampling = 0x21 then (0, { out with type := 0, lumaTable := table })
    else (-1, out)
  else if component = 2 ∨ component = 3 then
    if sampling ≠ 0x11 then (-1, out)
    else if out.chromaTable < 0 then (0, { out with chromaTable := table })
    else if out.chromaTable ≠ table then (-1, out)
    else (0, out)
  else (-1, out)

/-- The loop of `parse_SOF` over the components at the given offsets. -/
def parseComponents (f : Frame) (d : ℤ) : List ℤ → RtpJpeg → ℤ × RtpJpeg
  | [], out => (0, out)
  | c :: rest, out =>
    let (ret, out) := parseComponent f d c out
    if ret < 0 then (-1, out) else parseComponents f d rest out

def parseSof (f : Frame) (d : ℤ) (out : RtpJpeg) : ℤ × RtpJpeg :=
  let out := { out with chromaTable := -1 }
  if f.mem d ≠ 8 then (-1, out)
  else
    let height := get16 (f.mem (d + 1)) (f.mem (d + 2))
    let width := get16 (f.mem (d + 3)) (f.mem (d + 4))
    if height % 8 ≠ 0 ∨ width % 8 ≠ 0 then (-1, { out with height := height, width := width })
    else
      let out := { out with height := (height / 8 : ℕ), width := (width / 8 : ℕ) }
      if f.mem (d + 5) ≠ 3 then (-1, out)
      else parseComponents f d [6, 9, 12] out

/-- The switch of `jpeg_process_frame`, without the start of the scan. -/
def parseSegment (f : Frame) (marker : UInt8) (d len : ℤ) (out : RtpJpeg) : ℤ × RtpJpeg :=
  if marker = 0xDB then parseDqt f d len out
  else if marker = 0xC0 then parseSof f d out
  else if marker = 0xC4 then if out.initDone then (0, out) else parseDht out
  else if marker = 0xDD then parseDri f d out
  else (0, out)

/-! ### The walk over a frame -/

/-- `blen` for the marker at the offset `i`: SOI has no length field. -/
def blen (f : Frame) (i : ℤ) : ℕ :=
  if f.mem (i + 1) = 0xD8 then 0 else get16 (f.mem (i + 2)) (f.mem (i + 3))

/-- The frame is refused. -/
def refuse (out : RtpJpeg) : ℤ × RtpJpeg := (0, { out with scanDataLen := 0 })

/-- The start of the scan at the offset `i`, at the time `ms`. -/
def startScan (f : Frame) (ms : ℕ) (i : ℤ) (out : RtpJpeg) : ℤ × RtpJpeg :=
  (1, { out with
    initDone := true
    scanData := some (i + 2 + blen f i)
    scanDataLen := f.length - i - 2 - blen f i
    timestamp := UInt32.ofNat (ms * 90) })

/-- The loop of `jpeg_process_frame` at the offset `i`. -/
def jpegWalk (f : Frame) (ms : ℕ) : ℕ → ℤ → RtpJpeg → ℤ × RtpJpeg
  | 0, _, out => refuse out
  | fuel + 1, i, out =>
    if i < f.length then
      if f.mem i ≠ 0xFF then refuse out
      else if f.mem (i + 1) = 0xDA then startScan f ms i out
      else
        let (ret, out) := parseSegment f (f.mem (i + 1)) (i + 4) (blen f i - 2) out
        if ret < 0 then refuse out else jpegWalk f ms fuel (i + (blen f i + 2)) out
    else refuse out

/-- `jpeg_process_frame`, at a time in milliseconds. The offset grows in every round, so that there
are not more rounds than bytes. -/
def jpegProcessFrame (f : Frame) (ms : ℕ) (out : RtpJpeg) : ℤ × RtpJpeg :=
  jpegWalk f ms f.length 0 { out with bHasDRI := false, quant := fun _ ↦ none }

def jpegGetPayload (_payload : ℕ) : ℕ := 26

/-! ### The packets -/

/-- What an entry of the array `v` points to: the header `vhdr`, which changes from packet to
packet, another array of `jpeg_send`, or memory. -/
inductive IovBase
  | vhdr
  | array (bytes : Bytes)
  | memory (pointer : Option ℤ)

/-- `struct iovec`. -/
structure Iov where
  base : IovBase
  len : ℤ

/-- `vhdr` for the fragment at offset `i`. -/
def vhdr (out : RtpJpeg) (i : ℤ) : Bytes :=
  [0, UInt8.ofInt (i / 65536), UInt8.ofInt (i / 256), UInt8.ofInt i,
    UInt8.ofInt (if out.bHasDRI then out.type + 64 else out.type), 255, UInt8.ofInt out.width,
    UInt8.ofInt out.height]

/-- `rhdr`. -/
def rhdr (out : RtpJpeg) : Bytes := put16 out.dri.toNat ++ [0xFF, 0xFF]

/-- `qhdr`. -/
def qhdr : Bytes := [0, 0] ++ put16 128

/-- The bytes that an entry stands for, in the packet with the fragment at offset `i`. -/
def Iov.bytes (f : Frame) (out : RtpJpeg) (i : ℤ) (iov : Iov) : Bytes :=
  match iov.base with
  | .vhdr => vhdr out i
  | .array bytes => bytes
  | .memory pointer => f.bytes pointer iov.len

/-- The variables of `jpeg_send` with the endpoint and the number of packets so far. -/
structure JpegSend where
  v : ℕ → Iov
  vcnt : ℕ
  hdrLen : ℤ
  sender : Sender
  calls : ℕ

/-- `v[vcnt] = …; vcnt++; hdr_len += …;` -/
def JpegSend.push (vars : JpegSend) (iov : Iov) : JpegSend :=
  { vars with
    v := Function.update vars.v vars.vcnt iov
    vcnt := vars.vcnt + 1
    hdrLen := vars.hdrLen + iov.len }

/-- `jpeg_send` before its loop. `v[0]` is left to `send_rtp_packet`. -/
def jpegSendStart (out : RtpJpeg) (sender : Sender) : JpegSend :=
  let start : JpegSend := ⟨fun _ ↦ ⟨.memory none, 0⟩, 1, 0, sender, 0⟩
  let main := start.push ⟨.vhdr, 8⟩
  let restart := if out.bHasDRI then main.push ⟨.array (rhdr out), 4⟩ else main
  ((restart.push ⟨.array qhdr, 4⟩).push ⟨.memory (out.quantAt out.lumaTable), 64⟩).push
    ⟨.memory (out.quantAt out.chromaTable), 64⟩

/-- `plen` in `jpeg_send`: what is left of the scan data, or what fits behind the headers. -/
def jpegPlen (out : RtpJpeg) (maxDataSize hdrLen i : ℤ) : ℤ :=
  let rest := wrapInt (out.scanDataLen - i)
  let room := wrapInt (maxDataSize - hdrLen)
  if rest > room then room else rest

/-- One round of the loop of `jpeg_send`: what `send_rtp_packet` returned, `plen` and the
variables. -/
def jpegSendRound (env : ℕ → Outcome) (f : Frame) (out : RtpJpeg) (i : ℤ) (vars : JpegSend) :
    ℤ × ℤ × JpegSend :=
  let plen := jpegPlen out vars.sender.ep.maxDataSize vars.hdrLen i
  let v := Function.update vars.v vars.vcnt ⟨.memory (out.scanData.map (· + i)), plen⟩
  let buffers := (List.range vars.vcnt).map fun k ↦ (v (k + 1)).bytes f out i
  let (ret, sender) := sendRtpPacket (env vars.calls) vars.sender buffers out.timestamp
    (wrapInt (plen + i) = out.scanDataLen)
  -- Done with all headers except the main one and the restart header.
  (ret, plen, ⟨v, if out.bHasDRI then 3 else 2, 8, sender, vars.calls + 1⟩)

/-- `jpeg_send`, where `env` says what happens during its calls of `send_rtp_packet`. -/
def jpegSend (env : ℕ → Outcome) (f : Frame) (out : RtpJpeg) (sender : Sender) (fuel : ℕ) :
    Option (ℤ × JpegSend) :=
  strideLoop out.scanDataLen (jpegSendRound env f out) fuel 0 (jpegSendStart out sender)

end WisCam.Rtp
