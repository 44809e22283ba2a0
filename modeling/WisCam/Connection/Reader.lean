import WisCam.Message.Pmsg

/-!
# The reading side of a connection

`do_read` and `parse_client_data` of `tcp.c`, as far as they concern the request buffer: what one
`read()` adds to it, when it is given up, and what is found in it. `parseClientData` says what is to
be done with the buffer, and the server does it; a request or a frame is then removed together with
everything else in the buffer.
-/

set_option autoImplicit false

namespace WisCam.Connection

open Foundations Message

/-! ### The request buffer -/

/-- `CONN_PROTO_START`, `CONN_PROTO_RTSP` and `CONN_PROTO_HTTP`. -/
inductive Proto
  | start
  | rtsp
  | http
  deriving DecidableEq, Repr

/-- The members of `struct conn` that reading uses: the protocol, the number of characters at the
end of the buffer that still have to be decoded (-1 on a connection without Base64), and the first
`req_len` bytes of the buffer. -/
structure Reader where
  proto : Proto
  base64Count : ℤ
  reqBuf : Bytes
  deriving DecidableEq, Repr

def freshReader : Reader := ⟨.start, -1, []⟩

/-- The largest number of bytes that `read()` is asked to fill the buffer up to. -/
def reqLimit : ℕ := 4095

/-! ### Base64 -/

/-- `base64`: the value of a character, or -1. -/
def base64 (b : UInt8) : ℤ :=
  if 65 ≤ b ∧ b ≤ 90 then b.toNat - 65
  else if 97 ≤ b ∧ b ≤ 122 then b.toNat - 71
  else if 48 ≤ b ∧ b ≤ 57 then b.toNat + 4
  else if b = 43 then 62
  else if b = 47 then 63
  else if b = 61 then 0
  else -1

/-- The bytes that four characters of Base64 stand for. -/
def decodeGroup (a b c d : UInt8) : Bytes :=
  let value := fun e : UInt8 ↦ UInt8.ofNat (base64 e).toNat
  let first := ((value a <<< 2) &&& (0xFC : UInt8)) ||| (value b >>> 4)
  let second := ((value b <<< 4) &&& (0xF0 : UInt8)) ||| (value c >>> 2)
  let third := ((value c <<< 6) &&& (0xC0 : UInt8)) ||| value d
  if d = 61 then if c = 61 then [first] else [first, second]
  else [first, second, third]

/-- `unbase64`, with the characters collected so far: the decoded bytes followed by the characters
of an unfinished group, and the number of these. Other characters are skipped. -/
def unbase64 : Bytes → Bytes → Bytes × ℕ
  | enc, [] => (enc, enc.length)
  | enc, b :: d =>
    if base64 b < 0 then unbase64 enc d
    else
      match enc with
      | [e0, e1, e2] =>
        let (rest, remain) := unbase64 [] d
        (decodeGroup e0 e1 e2 b ++ rest, remain)
      | _ => unbase64 (enc ++ [b]) d

/-- What `do_read` does with the bytes that `read()` returned. -/
def Reader.receive (r : Reader) (data : Bytes) : Reader :=
  if 0 ≤ r.base64Count then
    let decoded := r.reqBuf.length - r.base64Count.toNat
    let (text, remain) := unbase64 [] (r.reqBuf.drop decoded ++ data)
    { r with reqBuf := r.reqBuf.take decoded ++ text, base64Count := remain }
  else { r with reqBuf := r.reqBuf ++ data }

/-! ### What is in the buffer -/

/-- What `parse_client_data` finds: nothing complete yet, an error, the protocol of the connection
(the one case in which it returns 1), an interleaved frame, or a request. -/
inductive Found
  | wait
  | reject
  | proto (proto : Proto)
  | frame (chan : UInt8) (payload : Bytes)
  | request
  deriving DecidableEq, Repr

def blankLine : Bytes := ascii "\r\n\r\n"

/-- `parse_client_data` up to the call of `interleave_recv` or `handle_request`. The string
functions see the buffer up to its first NUL. -/
def parseClientData (r : Reader) : Found :=
  match r.proto with
  | .start =>
    let text := cstr r.reqBuf
    if 10 ∈ text then
      let line := text.takeWhile (· != 10)
      match strrchr 32 line with
      | none => .reject
      | some b =>
        if sameFirst 5 (line.drop (b + 1)) (ascii "HTTP/") then .proto .http
        else if sameFirst 5 (line.drop (b + 1)) (ascii "RTSP/") then .proto .rtsp
        else .reject
    else .wait
  | .rtsp =>
    match r.reqBuf with
    | b :: chan :: high :: low :: rest =>
      if b = 36 then
        if r.reqBuf.length < get16 high low + 4 then .wait
        else .frame chan (rest.take (get16 high low))
      else if (strstr blankLine (cstr r.reqBuf)).isNone then .wait
      else .request
    | _ => .wait
  | .http => if (strstr blankLine (cstr r.reqBuf)).isNone then .wait else .request

/-- The loop `while ((ret = parse_client_data(c)) > 0)`: the protocol is found at most once. -/
def Reader.settle (r : Reader) : Reader × Found :=
  match parseClientData r with
  | .proto proto => ({ r with proto := proto }, parseClientData { r with proto := proto })
  | found => (r, found)

/-- The test and the parse at the start of `handle_request`. -/
def parseRequest (reqBuf : Bytes) : Except ParseStop Pmsg :=
  if reqBuf.head? = some 0 then .error .malformed
  else (parsePmsg reqBuf).map Prod.fst

/-! ### The protocol is found once -/

theorem proto_of_parseClientData {r : Reader} {proto : Proto}
    (hfound : parseClientData r = .proto proto) :
    r.proto = .start ∧ (proto = .rtsp ∨ proto = .http) := by
  unfold parseClientData at hfound
  cases hproto : r.proto with
  | start =>
    rw [hproto] at hfound
    dsimp only at hfound
    split_ifs at hfound
    split at hfound
    · exact absurd hfound nofun
    · split_ifs at hfound
      · exact ⟨rfl, .inr (Found.proto.inj hfound).symm⟩
      · exact ⟨rfl, .inl (Found.proto.inj hfound).symm⟩
  | rtsp =>
    rw [hproto] at hfound
    dsimp only at hfound
    split at hfound
    · split_ifs at hfound
    · exact absurd hfound nofun
  | http =>
    rw [hproto] at hfound
    dsimp only at hfound
    split_ifs at hfound

/-- What the loop leaves alone, and what it has found in the end. -/
theorem of_settle {r r' : Reader} {found : Found} (hsettle : r.settle = (r', found)) :
    r'.reqBuf = r.reqBuf ∧ r'.base64Count = r.base64Count ∧
      (r'.proto = r.proto ∨ r.proto = .start) ∧ parseClientData r' = found := by
  unfold Reader.settle at hsettle
  split at hsettle
  · rename_i hfound
    obtain ⟨rfl, rfl⟩ := Prod.mk.inj hsettle
    exact ⟨rfl, rfl, .inr (proto_of_parseClientData hfound).1, rfl⟩
  · obtain ⟨rfl, rfl⟩ := Prod.mk.inj hsettle
    exact ⟨rfl, rfl, .inl rfl, rfl⟩

end WisCam.Connection
