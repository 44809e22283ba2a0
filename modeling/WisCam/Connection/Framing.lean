import Mathlib.Data.List.Forall2
import Mathlib.Data.List.Induction
import Mathlib.Tactic.Tauto
import WisCam.Connection.Reader
import WisCam.Message.StartLine

/-!
# Requests and frames in a stream

A client's stream on an RTSP connection is a sequence of requests and interleaved frames
(`RtspStream`), and `read()` delivers it in pieces of any size. A request or frame is dispatched
when it is complete, and the whole buffer is given up with it. So what is dispatched is what the
stream is composed of exactly when no piece goes on beyond the end of a unit and the server returns
from every call (`dispatched_eq_iff`); the bytes of a unit that a piece begins behind the end of
another one are lost.
-/

set_option autoImplicit false

namespace WisCam.Connection

open Foundations Message List

/-! ### Units of a stream -/

/-- A request, as its bytes up to and including the blank line, or an interleaved frame. -/
inductive Dispatch
  | request (text : Bytes)
  | frame (chan : UInt8) (payload : Bytes)
  deriving DecidableEq, Repr

def Dispatch.bytes : Dispatch → Bytes
  | .request text => text
  | .frame chan payload => 36 :: chan :: (put16 payload.length ++ payload)

/-- The unit is a request that ends with its first blank line and that the parser takes, or a frame
whose length fits its header; and it is shorter than the request buffer. -/
def Dispatch.WellFormed (unit : Dispatch) : Prop :=
  unit.bytes.length < 4096 ∧
    match unit with
    | .request text =>
      strstr blankLine text = some (text.length - 4) ∧ 0 ∉ text ∧ text.head? ≠ some 36 ∧
        ∃ m ret, parsePmsg text = .ok (m, ret) ∧ m.type = .req
    | .frame _ payload => payload.length < 65536

/-- A stream on an RTSP connection: it begins with a request whose first line names RTSP. -/
structure RtspStream (units : List Dispatch) : Prop where
  wellFormed : ∀ unit ∈ units, unit.WellFormed
  first : ∀ unit, units.head? = some unit →
    ∃ text, unit = .request text ∧ parseClientData ⟨.start, -1, text⟩ = .proto .rtsp

/-! ### Reading -/

/-- What the functions that are called with a unit find when these units have been dispatched:
whether `handle_request` returns from a request, and whether `proto_state` is a channel table. -/
structure Callees where
  handles : List Dispatch → Bytes → Bool
  table : List Dispatch → Bool

/-- The server returns from the call for a unit. `interleave_recv` looks a channel below 8 up in the
channel table, and without one uses a null pointer. -/
def Callees.returns (callees : Callees) (before : List Dispatch) : Dispatch → Bool
  | .request text => callees.handles before text
  | .frame chan _ => 8 ≤ chan.toNat || callees.table before

/-- A connection that is being read: its reader, whether it has been dropped or the server has ended
in a call, and what has been dispatched. -/
structure Reading where
  reader : Reader
  ended : Bool
  dispatched : List Dispatch
  deriving DecidableEq, Repr

/-- The request in a buffer, up to its blank line. -/
def requestText (reqBuf : Bytes) : Bytes :=
  reqBuf.take ((strstr blankLine (cstr reqBuf)).getD 0 + 4)

variable (callees : Callees)

/-- The call for a unit, after which the whole buffer is given up. -/
def Reading.call (s : Reading) (r : Reader) (unit : Dispatch) : Reading :=
  if callees.returns s.dispatched unit then
    ⟨{ r with reqBuf := [] }, false, s.dispatched ++ [unit]⟩
  else { s with ended := true }

/-- What `do_read` does after the buffer has been looked at. `handle_request` fails on an RTSP
connection only when the message cannot be parsed, for the handlers return 0. -/
def Reading.dispatch (s : Reading) : Reader × Found → Reading
  | (r, .frame chan payload) => s.call callees r (.frame chan payload)
  | (r, .request) =>
    match parseRequest r.reqBuf with
    | .ok _ => s.call callees r (.request (requestText r.reqBuf))
    | .error _ => { s with ended := true }
  | (_, .reject) => { s with ended := true }
  | (r, _) => { s with reader := r }

/-- One round of `do_read`, for a `read()` that returned `data`. Nothing is read from a connection
that has been dropped. There is no such round when `read()` cannot return that many bytes. -/
def readStep (s : Reading) (data : Bytes) : Option Reading :=
  if data = [] then none
  else if s.ended then some s
  else if reqLimit < s.reader.reqBuf.length + data.length then none
  else
    let r := s.reader.receive data
    if r.reqBuf.length = reqLimit then some { s with ended := true }
    else if 0 < r.base64Count then some { s with reader := r }
    else some (s.dispatch callees r.settle)

/-- The rounds of `do_read` on an accepted connection. -/
def readAll (pieces : List Bytes) : Option Reading :=
  pieces.foldlM (readStep callees) ⟨freshReader, false, []⟩

/-! ### What a buffer holds while a unit arrives -/

variable {callees} {part : Bytes}

theorem cstr_of_isPrefixOf {text : Bytes} (htext : 0 ∉ text) (hpart : part <+: text) :
    cstr part = part :=
  cstr_eq_self fun h ↦ htext (hpart.subset h)

/-- A part of a request that is not all of it has no blank line. -/
theorem strstr_part {text : Bytes} (hend : strstr blankLine text = some (text.length - 4))
    (hpart : part <+: text) (hproper : part.length < text.length) :
    strstr blankLine part = none := by
  have hblank : blankLine ≠ [] := by decide
  obtain ⟨-, hfirst⟩ := (strstr_eq_some_iff hblank).mp hend
  rw [strstr_eq_none_iff hblank]
  intro index hfound
  have hlength := hfound.length_le
  have hfour : blankLine.length = 4 := rfl
  rw [length_drop, hfour] at hlength
  obtain ⟨rest, rfl⟩ := hpart
  refine hfirst index (by omega) ?_
  rw [drop_append_of_le_length (by omega)]
  exact hfound.trans (prefix_append _ _)

theorem length_request {text : Bytes} (hend : strstr blankLine text = some (text.length - 4)) :
    4 ≤ text.length := by
  have hfound := ((strstr_eq_some_iff (by decide)).mp hend).1.length_le
  have hfour : blankLine.length = 4 := rfl
  rw [length_drop, hfour] at hfound
  omega

/-- On an RTSP connection, a request is waited for until its last byte. -/
theorem parseClientData_request {text : Bytes}
    (hend : strstr blankLine text = some (text.length - 4)) (hnul : 0 ∉ text)
    (hdollar : text.head? ≠ some 36) (hpart : part <+: text) :
    parseClientData ⟨.rtsp, -1, part⟩ = if part = text then .request else .wait := by
  have hcstr := cstr_of_isPrefixOf hnul hpart
  by_cases hall : part = text
  · subst hall
    rw [if_pos rfl]
    have hlong := length_request hend
    unfold parseClientData
    dsimp only
    match hpartEq : part with
    | [] | [_] | [_, _] | [_, _, _] => simp at hlong
    | b :: _ :: _ :: _ :: _ =>
      have hb : b ≠ 36 := fun h ↦ hdollar (h ▸ rfl)
      dsimp only
      rw [if_neg hb, hcstr, hend]
      rfl
  · rw [if_neg hall]
    have hproper : part.length < text.length := by
      refine Nat.lt_of_le_of_ne hpart.length_le fun h ↦ hall (hpart.eq_of_length h)
    have hnone := strstr_part hend hpart hproper
    unfold parseClientData
    dsimp only
    match hpartEq : part with
    | [] | [_] | [_, _] | [_, _, _] => rfl
    | b :: _ :: _ :: _ :: _ =>
      have hb : b ≠ 36 := by
        rintro rfl
        obtain ⟨rest, rfl⟩ := hpart
        exact hdollar rfl
      dsimp only
      rw [if_neg hb, hcstr, hnone]
      rfl

/-- On an RTSP connection, a frame is waited for until its last byte. -/
theorem parseClientData_frame {chan : UInt8} {payload : Bytes} (hshort : payload.length < 65536)
    (hpart : part <+: (Dispatch.frame chan payload).bytes) :
    parseClientData ⟨.rtsp, -1, part⟩ =
      if part = (Dispatch.frame chan payload).bytes then .frame chan payload else .wait := by
  have hbytes : (Dispatch.frame chan payload).bytes = 36 :: chan ::
      UInt8.ofNat (payload.length / 256) :: UInt8.ofNat payload.length :: payload := rfl
  rw [hbytes] at hpart ⊢
  unfold parseClientData
  dsimp only
  match part with
  | [] | [_] | [_, _] | [_, _, _] => exact (if_neg (by simp)).symm
  | b :: chan' :: high :: low :: rest =>
    simp only [cons_prefix_cons] at hpart
    obtain ⟨rfl, rfl, rfl, rfl, hrest⟩ := hpart
    dsimp only
    rw [if_pos rfl, get16_put16 hshort]
    by_cases hall : rest = payload
    · subst hall
      rw [if_neg (by simp only [length_cons]; omega), if_pos rfl, take_length]
    · have hproper : rest.length < payload.length :=
        Nat.lt_of_le_of_ne hrest.length_le fun h ↦ hall (hrest.eq_of_length h)
      rw [if_pos (by simp only [length_cons]; omega), if_neg (by simpa using hall)]

/-- On an accepted connection, the protocol is found with the first line. -/
theorem parseClientData_start {text : Bytes} (hnul : 0 ∉ text)
    (hrtsp : parseClientData ⟨.start, -1, text⟩ = .proto .rtsp) (hpart : part <+: text) :
    parseClientData ⟨.start, -1, part⟩ = if 10 ∈ part then .proto .rtsp else .wait := by
  have hcstr := cstr_of_isPrefixOf hnul hpart
  have htext := cstr_of_isPrefixOf hnul (prefix_refl text)
  by_cases hlf : 10 ∈ part
  · have hline : part.takeWhile (· != 10) = text.takeWhile (· != 10) := by
      obtain ⟨rest, rfl⟩ := hpart
      rw [takeWhile_append]
      have hstops : (part.takeWhile (· != 10)).length ≠ part.length := by
        intro hlength
        have hself := (List.takeWhile_prefix (· != (10 : UInt8)) (l := part)).eq_of_length hlength
        exact absurd (takeWhile_eq_self_iff.mp hself 10 hlf) (by decide)
      rw [if_neg hstops]
    rw [if_pos hlf, ← hrtsp]
    unfold parseClientData
    simp only [hcstr, htext, hline, hlf, hpart.subset hlf]
  · rw [if_neg hlf]
    unfold parseClientData
    simp only [hcstr, hlf, if_false]

/-- A connection in this state can read the unit: it is known to be an RTSP connection, or the unit
is a request that makes it one. -/
def Expects (proto : Proto) (unit : Dispatch) : Prop :=
  proto = .rtsp ∨ proto = .start ∧
    ∃ text, unit = .request text ∧ parseClientData ⟨.start, -1, text⟩ = .proto .rtsp

/-- What is found on an RTSP connection while a unit arrives. -/
theorem parseClientData_rtsp {unit : Dispatch} (hwf : unit.WellFormed)
    (hpart : part <+: unit.bytes) :
    parseClientData ⟨.rtsp, -1, part⟩ =
      if part = unit.bytes then
        match unit with
        | .request _ => .request
        | .frame chan payload => .frame chan payload
      else .wait := by
  cases unit with
  | request text =>
    obtain ⟨-, hend, hnul, hdollar, -⟩ := hwf
    exact parseClientData_request hend hnul hdollar hpart
  | frame chan payload => exact parseClientData_frame hwf.2 hpart

variable {proto : Proto}

/-- A unit that has not arrived completely is waited for. -/
theorem settle_part {unit : Dispatch} (hwf : unit.WellFormed) (hexpects : Expects proto unit)
    (hpart : part <+: unit.bytes) (hproper : part ≠ unit.bytes) :
    ∃ proto', (Reader.mk proto (-1) part).settle = (⟨proto', -1, part⟩, .wait) ∧
      Expects proto' unit := by
  have hwait := parseClientData_rtsp hwf hpart
  rw [if_neg hproper] at hwait
  rcases hexpects with rfl | ⟨rfl, text, rfl, hrtsp⟩
  · exact ⟨.rtsp, by rw [Reader.settle, hwait], .inl rfl⟩
  · obtain ⟨-, -, hnul, -⟩ := hwf
    have hfound := parseClientData_start hnul hrtsp hpart
    by_cases hlf : 10 ∈ part
    · rw [if_pos hlf] at hfound
      exact ⟨.rtsp, by rw [Reader.settle, hfound]; dsimp only; rw [hwait], .inl rfl⟩
    · rw [if_neg hlf] at hfound
      exact ⟨.start, by rw [Reader.settle, hfound], .inr ⟨rfl, text, rfl, hrtsp⟩⟩

/-- A unit that has arrived is dispatched, and the buffer is empty after it. -/
theorem dispatch_whole {unit : Dispatch} {s : Reading} (hwf : unit.WellFormed)
    (hexpects : Expects proto unit) (hreturns : callees.returns s.dispatched unit = true) :
    s.dispatch callees (Reader.mk proto (-1) unit.bytes).settle =
      ⟨⟨.rtsp, -1, []⟩, false, s.dispatched ++ [unit]⟩ := by
  have hsettle : (Reader.mk proto (-1) unit.bytes).settle =
      (⟨.rtsp, -1, unit.bytes⟩, parseClientData ⟨.rtsp, -1, unit.bytes⟩) := by
    rcases hexpects with rfl | ⟨rfl, text, rfl, hrtsp⟩
    · rw [Reader.settle, parseClientData_rtsp hwf (prefix_refl _), if_pos rfl]
      cases unit <;> rfl
    · rw [Reader.settle, Dispatch.bytes, hrtsp]
  rw [hsettle, parseClientData_rtsp hwf (prefix_refl _), if_pos rfl]
  cases unit with
  | request text =>
    obtain ⟨-, hend, hnul, -, m, ret, hparse, -⟩ := hwf
    have htext : requestText text = text := by
      have hlong := length_request hend
      rw [requestText, cstr_eq_self hnul, hend, Option.getD_some, Nat.sub_add_cancel hlong,
        take_length]
    have hfirst : text.head? ≠ some 0 := fun h ↦ hnul (mem_of_mem_head? h)
    dsimp only [Dispatch.bytes, Reading.dispatch]
    rw [parseRequest, if_neg hfirst, hparse, htext]
    exact if_pos hreturns
  | frame chan payload => exact if_pos hreturns

variable {pieces : List Bytes} {dispatched : List Dispatch}

/-- The pieces that a unit arrives in are read, and the unit is dispatched with the last of them. -/
theorem foldlM_readStep_unit {unit : Dispatch} (hwf : unit.WellFormed)
    (hshort : unit.bytes.length < reqLimit) (hexpects : Expects proto unit)
    (hreturns : callees.returns dispatched unit = true) (hpieces : ∀ piece ∈ pieces, piece ≠ [])
    (hsome : pieces ≠ []) (hunit : part ++ pieces.flatten = unit.bytes) :
    pieces.foldlM (readStep callees) ⟨⟨proto, -1, part⟩, false, dispatched⟩ =
      some ⟨⟨.rtsp, -1, []⟩, false, dispatched ++ [unit]⟩ := by
  induction pieces generalizing proto part with
  | nil => exact absurd rfl hsome
  | cons piece pieces ih =>
    have hpiece := hpieces piece (mem_cons_self ..)
    have hpart : part ++ piece <+: unit.bytes := by
      rw [← hunit, flatten_cons, ← append_assoc]
      exact prefix_append _ _
    have hlength : part.length + piece.length < reqLimit := by
      have := hpart.length_le
      rw [length_append] at this
      omega
    have hreceive : (Reader.mk proto (-1) part).receive piece = ⟨proto, -1, part ++ piece⟩ := rfl
    have hstep : readStep callees ⟨⟨proto, -1, part⟩, false, dispatched⟩ piece =
        some (Reading.dispatch callees ⟨⟨proto, -1, part⟩, false, dispatched⟩
          (Reader.mk proto (-1) (part ++ piece)).settle) := by
      unfold readStep
      dsimp only
      rw [if_neg hpiece, if_neg Bool.false_ne_true, if_neg (by omega), hreceive,
        if_neg (by rw [length_append]; omega), if_neg (show ¬ (0 : ℤ) < -1 by decide)]
    rw [foldlM_cons, hstep, Option.bind_eq_bind, Option.bind_some]
    cases pieces with
    | nil =>
      have hwhole : part ++ piece = unit.bytes := by simpa using hunit
      rw [hwhole, dispatch_whole hwf hexpects hreturns]
      rfl
    | cons next pieces =>
      have hproper : part ++ piece ≠ unit.bytes := by
        intro hall
        have hnext := hpieces next (by simp)
        rw [flatten_cons, ← append_assoc, hall] at hunit
        have hnil := append_right_eq_self.mp hunit
        rw [flatten_cons] at hnil
        exact hnext (append_eq_nil_iff.mp hnil).1
      obtain ⟨proto', hsettle, hexpects'⟩ := settle_part hwf hexpects hpart hproper
      rw [hsettle]
      refine ih hexpects' (fun p hp ↦ hpieces p (mem_cons_of_mem _ hp)) (by simp) ?_
      rw [← hunit, flatten_cons (l := piece), append_assoc]

variable {units : List Dispatch} {groups : List (List Bytes)}

/-- The server returns from the call for every one of these units, when those before it have been
dispatched. -/
def Callees.Serves (callees : Callees) (units : List Dispatch) : Prop :=
  ∀ before unit after, units = before ++ unit :: after → callees.returns before unit = true

theorem Callees.Serves.concat {unit : Dispatch} (hserves : callees.Serves units)
    (hreturns : callees.returns units unit = true) : callees.Serves (units ++ [unit]) := by
  intro before unit' after hsplit
  rcases after.eq_nil_or_concat with rfl | ⟨after, last, rfl⟩
  · obtain ⟨rfl, hlast⟩ := append_inj' hsplit rfl
    rw [← (List.cons.inj hlast).1]
    exact hreturns
  · rw [concat_eq_append, ← cons_append, ← append_assoc] at hsplit
    exact hserves before unit' after (append_inj' hsplit rfl).1

/-- Units whose pieces are separate are dispatched one after another. -/
theorem foldlM_readStep_units (hwf : ∀ unit ∈ units, unit.WellFormed)
    (hshort : ∀ unit ∈ units, unit.bytes.length < reqLimit)
    (hexpects : ∀ unit, units.head? = some unit → Expects proto unit)
    (hserves : callees.Serves (dispatched ++ units)) (hpieces : ∀ piece ∈ groups.flatten, piece ≠ [])
    (hgroups : groups.map List.flatten = units.map Dispatch.bytes) :
    ∃ reader, groups.flatten.foldlM (readStep callees) ⟨⟨proto, -1, []⟩, false, dispatched⟩ =
      some ⟨reader, false, dispatched ++ units⟩ := by
  induction units generalizing groups proto dispatched with
  | nil =>
    obtain rfl : groups = [] := map_eq_nil_iff.mp hgroups
    exact ⟨⟨proto, -1, []⟩, by rw [append_nil]; rfl⟩
  | cons unit units ih =>
    cases groups with
    | nil => exact absurd hgroups nofun
    | cons group groups =>
      rw [map_cons, map_cons] at hgroups
      obtain ⟨hunit, hgroups⟩ := List.cons.inj hgroups
      have hbytes : unit.bytes ≠ [] := by
        cases unit with
        | request text =>
          have hlong := length_request (hwf _ (mem_cons_self ..)).2.1
          intro hnil
          rw [show text = [] from hnil] at hlong
          exact absurd hlong (by decide)
        | frame chan payload => exact nofun
      have hgroup : group ≠ [] := by
        rintro rfl
        exact hbytes hunit.symm
      rw [flatten_cons] at hpieces
      rw [flatten_cons, foldlM_append,
        foldlM_readStep_unit (hwf unit (mem_cons_self ..))
          (hshort unit (mem_cons_self ..)) (hexpects unit rfl) (hserves dispatched unit units rfl)
          (fun p hp ↦ hpieces p (mem_append_left _ hp)) hgroup hunit,
        Option.bind_eq_bind, Option.bind_some]
      rw [append_cons] at hserves
      obtain ⟨reader, hrest⟩ := ih (fun u hu ↦ hwf u (mem_cons_of_mem _ hu))
        (fun u hu ↦ hshort u (mem_cons_of_mem _ hu)) (fun _ _ ↦ .inl rfl)
        hserves (fun p hp ↦ hpieces p (mem_append_right _ hp)) hgroups
      exact ⟨reader, by rw [hrest, append_assoc, singleton_append]⟩

/-! ### Where the bytes of a stream go -/

/-- A buffer in which a frame is found begins with the bytes of the frame: the two length bytes say
how long the payload is. -/
theorem bytes_of_frame {r : Reader} {chan : UInt8} {payload : Bytes}
    (hfound : parseClientData r = .frame chan payload) :
    (Dispatch.frame chan payload).bytes <+: r.reqBuf := by
  unfold parseClientData at hfound
  cases hproto : r.proto with
  | start =>
    rw [hproto] at hfound
    dsimp only at hfound
    split_ifs at hfound
    split at hfound
    · exact absurd hfound nofun
    · split_ifs at hfound
  | http =>
    rw [hproto] at hfound
    dsimp only at hfound
    split_ifs at hfound
  | rtsp =>
    rw [hproto] at hfound
    dsimp only at hfound
    split at hfound
    · rename_i b chan' high low rest hreqBuf
      split_ifs at hfound with hdollar hlong
      obtain ⟨rfl, rfl⟩ := Found.frame.inj hfound
      subst hdollar
      have hrest : get16 high low ≤ rest.length := by
        rw [hreqBuf] at hlong
        simp only [length_cons] at hlong
        omega
      rw [hreqBuf, Dispatch.bytes, length_take_of_le hrest, put16_get16]
      simp only [cons_append, nil_append, cons_prefix_cons, true_and]
      exact List.take_prefix _ _
    · exact absurd hfound nofun

variable {s : Reading}

/-- What a buffer is given up for is a unit whose bytes the buffer begins with, and the server has
returned from the call for it. -/
theorem dispatch_initialPart {r r' : Reader} {found : Found} (hsettle : r.settle = (r', found)) :
    s.dispatch callees (r', found) = { s with ended := true } ∨
      s.dispatch callees (r', found) = { s with reader := r' } ∧ r'.reqBuf = r.reqBuf ∨
        ∃ unit, s.dispatch callees (r', found) =
            ⟨{ r' with reqBuf := [] }, false, s.dispatched ++ [unit]⟩ ∧
          unit.bytes <+: r.reqBuf ∧ callees.returns s.dispatched unit = true := by
  obtain ⟨hbuf, -, -, hfound⟩ := of_settle hsettle
  have hcall (unit : Dispatch) (hbytes : unit.bytes <+: r.reqBuf) :
      s.call callees r' unit = { s with ended := true } ∨
        s.call callees r' unit = { s with reader := r' } ∧ r'.reqBuf = r.reqBuf ∨
        ∃ unit', s.call callees r' unit =
            ⟨{ r' with reqBuf := [] }, false, s.dispatched ++ [unit']⟩ ∧
          unit'.bytes <+: r.reqBuf ∧ callees.returns s.dispatched unit' = true := by
    unfold Reading.call
    split_ifs with hreturns
    · exact .inr (.inr ⟨unit, rfl, hbytes, hreturns⟩)
    · exact .inl rfl
  cases found with
  | wait => exact .inr (.inl ⟨rfl, hbuf⟩)
  | reject => exact .inl rfl
  | proto proto => exact .inr (.inl ⟨rfl, hbuf⟩)
  | request =>
    dsimp only [Reading.dispatch]
    split
    · exact hcall (.request _) (hbuf ▸ List.take_prefix _ _)
    · exact .inl rfl
  | frame chan payload => exact hcall (.frame chan payload) (hbuf ▸ bytes_of_frame hfound)

/-- The pieces of a group hold at least the bytes of a unit, and do not fill the buffer. -/
def Covers (group : List Bytes) (unit : Dispatch) : Prop :=
  unit.bytes <+: group.flatten ∧ group.flatten.length < reqLimit

/-- The pieces of a stream, grouped by the units that were dispatched: each group covers its unit,
and the pieces after the last group are in the buffer. -/
def Accounted (callees : Callees) (pieces : List Bytes) (s : Reading) : Prop :=
  ∃ (groups : List (List Bytes)) (tail : List Bytes), pieces = groups.flatten ++ tail ∧
    List.Forall₂ Covers groups s.dispatched ∧ callees.Serves s.dispatched ∧
    (s.ended = false → s.reader.reqBuf = tail.flatten ∧ s.reader.base64Count = -1)

theorem accounted_readStep {piece : Bytes} {s' : Reading} (haccounted : Accounted callees pieces s)
    (hstep : readStep callees s piece = some s') : Accounted callees (pieces ++ [piece]) s' := by
  obtain ⟨groups, tail, rfl, hgroups, hserves, hbuffer⟩ := haccounted
  unfold readStep at hstep
  split_ifs at hstep with hpiece hended hroom
  · obtain rfl := Option.some.inj hstep
    exact ⟨groups, tail ++ [piece], append_assoc .., hgroups, hserves,
      fun h ↦ absurd (hended.symm.trans h) nofun⟩
  have hopen : s.ended = false := Bool.not_eq_true _ ▸ hended
  obtain ⟨hreqBuf, hplain⟩ := hbuffer hopen
  have hreceive : s.reader.receive piece =
      { s.reader with reqBuf := (tail ++ [piece]).flatten } := by
    rw [Reader.receive, if_neg (by rw [hplain]; decide), hreqBuf, flatten_append, flatten_singleton]
  have hlong : (tail ++ [piece]).flatten.length ≤ reqLimit := by
    rw [flatten_append, flatten_singleton, length_append, ← hreqBuf]
    omega
  dsimp only at hstep
  rw [hreceive] at hstep
  dsimp only at hstep
  split_ifs at hstep with hfull hpending
  · obtain rfl := Option.some.inj hstep
    exact ⟨groups, tail ++ [piece], append_assoc .., hgroups, hserves, nofun⟩
  · exact absurd hpending (by rw [hplain]; decide)
  · obtain rfl := Option.some.inj hstep
    cases hsettle : Reader.settle { s.reader with reqBuf := (tail ++ [piece]).flatten } with
    | mk r' found =>
      have hplain' : r'.base64Count = -1 := (of_settle hsettle).2.1.trans hplain
      rcases dispatch_initialPart (s := s) hsettle with
        hend | ⟨hwait, hsame⟩ | ⟨unit, hunit, hinitial, hreturns⟩
      · rw [hend]
        exact ⟨groups, tail ++ [piece], append_assoc .., hgroups, hserves, nofun⟩
      · rw [hwait]
        exact ⟨groups, tail ++ [piece], append_assoc .., hgroups, hserves,
          fun _ ↦ ⟨hsame, hplain'⟩⟩
      · rw [hunit]
        refine ⟨groups ++ [tail ++ [piece]], [], ?_, ?_, hserves.concat hreturns,
          fun _ ↦ ⟨rfl, hplain'⟩⟩
        · rw [append_nil, flatten_append, flatten_singleton, append_assoc]
        · exact rel_append hgroups
            (.cons ⟨hinitial, Nat.lt_of_le_of_ne hlong hfull⟩ .nil)

theorem accounted_readAll (hrun : readAll callees pieces = some s) :
    Accounted callees pieces s := by
  induction pieces using List.reverseRecOn generalizing s with
  | nil =>
    obtain rfl := Option.some.inj hrun
    exact ⟨[], [], rfl, .nil, fun _ _ _ h ↦ absurd h (by simp), fun _ ↦ ⟨rfl, rfl⟩⟩
  | append_singleton pieces piece ih =>
    rw [readAll, foldlM_append, Option.bind_eq_bind, Option.bind_eq_some_iff] at hrun
    obtain ⟨s₀, hbefore, hstep⟩ := hrun
    rw [foldlM_cons, Option.bind_eq_bind, Option.bind_eq_some_iff] at hstep
    obtain ⟨s₁, hstep, hend⟩ := hstep
    obtain rfl := Option.some.inj hend
    exact accounted_readStep (ih hbefore) hstep

theorem pieces_ne_nil {s' : Reading} (hrun : pieces.foldlM (readStep callees) s = some s') :
    ∀ piece ∈ pieces, piece ≠ [] := by
  induction pieces generalizing s with
  | nil => exact fun _ h ↦ absurd h not_mem_nil
  | cons piece pieces ih =>
    rw [foldlM_cons, Option.bind_eq_bind, Option.bind_eq_some_iff] at hrun
    obtain ⟨s₁, hstep, hrest⟩ := hrun
    intro p hp
    rcases mem_cons.mp hp with rfl | hp
    · rintro rfl
      exact absurd hstep nofun
    · exact ih hrest p hp

theorem length_units_le (hgroups : List.Forall₂ Covers groups units) :
    (units.flatMap Dispatch.bytes).length ≤ groups.flatten.flatten.length := by
  induction hgroups with
  | nil => exact Nat.le_refl _
  | cons hhead _ ih =>
    have hunit := hhead.1.length_le
    rw [flatMap_cons, flatten_cons, flatten_append, length_append, length_append]
    omega

/-- Groups that hold at least their units, and no more bytes than these together, hold exactly
their units. -/
theorem groups_eq_of_total {rest : Bytes} (hgroups : List.Forall₂ Covers groups units)
    (htotal : groups.flatten.flatten ++ rest = units.flatMap Dispatch.bytes) :
    groups.map List.flatten = units.map Dispatch.bytes ∧ rest = [] := by
  induction hgroups with
  | nil => exact ⟨rfl, htotal⟩
  | cons hhead htail ih =>
    obtain ⟨⟨more, hmore⟩, -⟩ := hhead
    rw [flatMap_cons, flatten_cons, flatten_append, ← hmore, append_assoc, append_assoc] at htotal
    have hrest := append_cancel_left htotal
    have hnone : more = [] := by
      have hlength := congrArg List.length hrest
      have := length_units_le htail
      rw [length_append, length_append] at hlength
      exact length_eq_zero_iff.mp (by omega)
    rw [hnone, nil_append] at hrest
    rw [hnone, append_nil] at hmore
    obtain ⟨hmap, hnil⟩ := ih hrest
    exact ⟨by rw [map_cons, map_cons, hmap, hmore], hnil⟩

theorem length_unit_lt (hgroups : List.Forall₂ Covers groups units) :
    ∀ unit ∈ units, unit.bytes.length < reqLimit := by
  induction hgroups with
  | nil => exact fun _ h ↦ absurd h not_mem_nil
  | cons hhead _ ih =>
    intro unit hunit
    rcases mem_cons.mp hunit with rfl | hunit
    · exact Nat.lt_of_le_of_lt hhead.1.length_le hhead.2
    · exact ih unit hunit

/-- The requests and frames that are dispatched are those that the stream is composed of exactly
when every piece that `read()` returns lies within one of them, none of them fills the buffer, and
the server returns from the call for each: `handle_request` from every request, and every frame is
on a channel that no table has or comes when there is a channel table.

Assumes: the pieces make up the stream, and each is a possible result of `read()`. -/
theorem dispatched_eq_iff (callees : Callees) (units : List Dispatch) (pieces : List Bytes)
    (s : Reading) (hstream : RtspStream units)
    (hpieces : pieces.flatten = units.flatMap Dispatch.bytes)
    (hrun : readAll callees pieces = some s) :
    s.dispatched = units ↔
      (∃ groups : List (List Bytes), groups.flatten = pieces ∧
        groups.map List.flatten = units.map Dispatch.bytes) ∧
      (∀ unit ∈ units, unit.bytes.length < reqLimit) ∧
      ∀ before unit after, units = before ++ unit :: after →
        match unit with
        | .request text => callees.handles before text = true
        | .frame chan _ => 8 ≤ chan.toNat ∨ callees.table before = true := by
  have hserves : callees.Serves units ↔ ∀ before unit after, units = before ++ unit :: after →
      match unit with
      | .request text => callees.handles before text = true
      | .frame chan _ => 8 ≤ chan.toNat ∨ callees.table before = true := by
    refine forall_congr' fun before ↦ forall_congr' fun unit ↦ forall₂_congr fun after _ ↦ ?_
    cases unit with
    | request text => exact Iff.rfl
    | frame chan payload => simp [Callees.returns]
  rw [← hserves]
  constructor
  · rintro rfl
    obtain ⟨groups, tail, rfl, hgroups, hall, -⟩ := accounted_readAll hrun
    rw [flatten_append] at hpieces
    obtain ⟨hmap, htail⟩ := groups_eq_of_total hgroups hpieces
    have hnone : tail = [] := by
      cases tail with
      | nil => rfl
      | cons piece tail =>
        have hpiece := pieces_ne_nil hrun piece (by simp)
        exact absurd (append_eq_nil_iff.mp htail).1 hpiece
    rw [hnone, append_nil]
    exact ⟨⟨groups, rfl, hmap⟩, length_unit_lt hgroups, hall⟩
  · rintro ⟨⟨groups, rfl, hgroups⟩, hshort, hall⟩
    have hexpects : ∀ unit, units.head? = some unit → Expects .start unit := fun unit hunit ↦
      .inr ⟨rfl, hstream.first unit hunit⟩
    obtain ⟨reader, hread⟩ : ∃ reader,
        readAll callees groups.flatten = some ⟨reader, false, [] ++ units⟩ :=
      foldlM_readStep_units hstream.wellFormed hshort hexpects hall (pieces_ne_nil hrun) hgroups
    obtain rfl := Option.some.inj (hrun.symm.trans hread)
    rfl

def optionsRequest : Bytes := ascii "OPTIONS * RTSP/1.0\r\n\r\n"

/-- Two requests, and between them a frame on a channel that no table has. -/
def sampleUnits : List Dispatch :=
  [.request optionsRequest, .frame 9 [7], .request optionsRequest]

def plainCallees : Callees := ⟨fun _ _ ↦ true, fun _ ↦ false⟩

theorem rtspStream_sample : RtspStream sampleUnits := by
  have hrequest : (Dispatch.request optionsRequest).WellFormed := by
    refine ⟨by decide, by decide +kernel, by decide, by decide, ?_⟩
    cases hparse : parsePmsg optionsRequest with
    | error stop =>
      have hok : (parsePmsg optionsRequest).isOk = true := by decide +kernel
      rw [hparse] at hok
      exact absurd hok nofun
    | ok result =>
      refine ⟨result.1, result.2, rfl, (type_parsePmsg hparse).mpr (by decide)⟩
  have hframe : (Dispatch.frame 9 [7]).WellFormed := by
    exact ⟨by decide, by decide⟩
  refine ⟨fun unit hunit ↦ ?_, fun unit hunit ↦ ?_⟩
  · simp only [sampleUnits, mem_cons, not_mem_nil, or_false] at hunit
    rcases hunit with rfl | rfl | rfl
    · exact hrequest
    · exact hframe
    · exact hrequest
  · obtain rfl := Option.some.inj hunit
    exact ⟨optionsRequest, rfl, by decide +kernel⟩

def samplePieces : List Bytes :=
  [optionsRequest.take 9, optionsRequest.drop 9, [36, 9, 0, 1, 7], optionsRequest]

theorem dispatched_eq_sample :
    (readAll plainCallees samplePieces).map Reading.dispatched = some sampleUnits := by
  cases hrun : readAll plainCallees samplePieces with
  | none =>
    have hsome : (readAll plainCallees samplePieces).isSome = true := by decide +kernel
    rw [hrun] at hsome
    exact absurd hsome nofun
  | some s =>
    have hgroups : ∃ groups : List (List Bytes), groups.flatten = samplePieces ∧
        groups.map List.flatten = sampleUnits.map Dispatch.bytes :=
      ⟨[[optionsRequest.take 9, optionsRequest.drop 9], [[36, 9, 0, 1, 7]], [optionsRequest]],
        rfl, by decide +kernel⟩
    refine congrArg some ((dispatched_eq_iff plainCallees _ _ s rtspStream_sample
      (by decide +kernel) hrun).mpr ⟨hgroups, by decide, fun before unit after hsplit ↦ ?_⟩)
    have hmem : unit ∈ sampleUnits := by
      rw [hsplit]
      simp
    simp only [sampleUnits, mem_cons, not_mem_nil, or_false] at hmem
    rcases hmem with rfl | rfl | rfl
    · rfl
    · exact .inl (by decide)
    · rfl

/-- When one `read()` returns a request together with what follows it, the rest is lost. -/
theorem pipelined_units_lost :
    RtspStream sampleUnits ∧
      (readAll plainCallees [optionsRequest ++ [36, 9, 0, 1, 7] ++ optionsRequest]).map
        Reading.dispatched = some [.request optionsRequest] ∧
      (readAll plainCallees [optionsRequest, [36, 9, 0, 1, 7], optionsRequest]).map
        Reading.dispatched = some sampleUnits :=
  ⟨rtspStream_sample, by decide +kernel, by decide +kernel⟩

end WisCam.Connection
