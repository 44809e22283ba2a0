import Mathlib.Logic.Function.Basic
import WisCam.Rest.Update

/-!
# Requests to the REST server

The HTTP library hands the request over as parts of the memory that it was received in. The handlers
do not use the lengths of these parts: the name in a URI and the query string are taken up to the
first ` HTTP/1.1` that is found behind them, or up to a NUL.

`slices_exact_iff` says when this gives what the library delimits. It does exactly if ` HTTP/1.1`
stands directly behind the part (or a NUL), which excludes other versions, further blanks and, for a
name, a query string.
-/

set_option autoImplicit false

namespace WisCam.Rest

open Foundations List

/-! ### Requests -/

/-- `struct mg_str` with a pointer that is not null. -/
structure Slice where
  place : ℕ
  len : ℕ
deriving DecidableEq, Repr

def Slice.text (mem : Bytes) (slice : Slice) : Bytes := (mem.drop slice.place).take slice.len

/-- The parts of `struct http_message` that are used, and the memory from the start of the request
on. -/
structure HttpMessage where
  mem : Bytes
  method : Slice
  uri : Slice
  /-- The query string, whose pointer may be null. -/
  query : Option Slice
deriving DecidableEq, Repr

def HttpMessage.uriText (hm : HttpMessage) : Bytes := hm.uri.text hm.mem

def HttpMessage.methodText (hm : HttpMessage) : Bytes := hm.method.text hm.mem

/-- What is sent for a request: the status lines, and the body if there is one. -/
structure Answer where
  status : List ℕ
  body : Option Bytes
  ret : ℤ
deriving DecidableEq, Repr

/-- `mg_strstr(text, needle) != NULL`. -/
def mgStrstr (text needle : Bytes) : Bool := (strstr needle text).isSome

/-- `RK_PLATFORM_API`. -/
def platformApi : Bytes := ascii "wiscam.api/v1/"

/-- What is searched for behind the parts of a request. -/
def versionMark : Bytes := ascii " HTTP/1.1"

/-- The memory from a pointer on after `if((p = strstr(pointer, " HTTP/1.1"))) *p = '\0';`. -/
def cutVersion (mem : Bytes) : Except Fault Bytes :=
  match strstr versionMark (cstr mem) with
  | some place => .ok (mem.set place 0)
  | none => if 0 ∈ mem then .ok mem else .error .stray

def getUriHost (hm : HttpMessage) (baseUriLen : ℕ) : Except Fault (Option Bytes) :=
  if hm.uri.len = baseUriLen + 1 ∨ hm.uri.len = baseUriLen + 2 then .ok (some (ascii "list_all"))
  else if baseUriLen + 1 < hm.uri.len then do
    let mem ← cutVersion (hm.mem.drop (hm.uri.place + baseUriLen + 2))
    .ok (some (cstr mem))
  else .ok none

/-! ### The PUT method -/

/-- The endpoints of `rk_put_method`. -/
inductive PutEndpoint
  | audioModify
  | videoModify
  | wifiModify
  | nabtoModify
  | wifiRestart
deriving DecidableEq, Repr

def PutEndpoint.path : PutEndpoint → Bytes
  | .audioModify => platformApi ++ ascii "audio/modify"
  | .videoModify => platformApi ++ ascii "video/modify"
  | .wifiModify => platformApi ++ ascii "wifi/modify"
  | .nabtoModify => platformApi ++ ascii "nabto/modify"
  | .wifiRestart => platformApi ++ ascii "wifi/restart"

/-- The endpoints in the order in which `rk_put_method` tests them. -/
def putEndpoints : List PutEndpoint :=
  [.audioModify, .videoModify, .wifiModify, .nabtoModify, .wifiRestart]

/-- The first endpoint that is found in a URI. -/
def putEndpoint (uri : Bytes) : Option PutEndpoint :=
  putEndpoints.find? fun endpoint ↦ mgStrstr uri endpoint.path

/-- The memory from the query string on, as `rk_put_method` hands it to `configs_update`. -/
def queryMem (hm : HttpMessage) : Except Fault (Option Bytes) :=
  match hm.query with
  | none => .ok none
  | some query => (cutVersion (hm.mem.drop query.place)).map some

/-- The result of `configs_update`, as it is sent. -/
def putBody (ret : ℤ) : Bytes :=
  ascii "\x7b \"value\": " ++ ((if ret < 0 then [45] else []) ++ (decimal ret.natAbs ++ ascii " \x7d"))

/-- `configs_update(hm->query_string.p, group)` and its answer. `strtok_r` follows a null
pointer. -/
def updateGroup (group : Group) (mem : Option Bytes) (files : Group → Storage) :
    Except Fault (Answer × (Group → Storage)) :=
  match mem with
  | none => .error .null
  | some mem => do
    let (reason, file) ← configsUpdate writeParamStr group mem (files group)
    .ok (⟨[200], some (putBody reason.code), 0⟩, Function.update files group file)

/-- `rk_put_method`. What the script for a restart returns is not looked at. -/
def rkPutMethod (hm : HttpMessage) (files : Group → Storage) :
    Except Fault (Answer × (Group → Storage)) := do
  let mem ← queryMem hm
  match putEndpoint hm.uriText with
  | none => .ok (⟨[501], none, -1⟩, files)
  | some .audioModify => .ok (⟨[501], none, -1⟩, files)
  | some .videoModify => updateGroup .stream mem files
  | some .wifiModify => updateGroup .wifi mem files
  | some .nabtoModify => updateGroup .nabto mem files
  | some .wifiRestart => .ok (⟨[200], some (putBody 0), 0⟩, files)

/-- The text that `configs_update` parses. -/
def parsedText (hm : HttpMessage) : Except Fault Bytes := do
  match ← queryMem hm with
  | none => .error .null
  | some mem => .ok (cstr mem)

/-! ### Where a part ends -/

/-- A part of a request ends here for the handlers. -/
def EndsPart (follow : Bytes) : Prop := versionMark <+: follow ∨ follow.head? = some 0

instance (follow : Bytes) : Decidable (EndsPart follow) := inferInstanceAs (Decidable (_ ∨ _))

theorem cstr_append {text : Bytes} (htext : (0 : UInt8) ∉ text) (follow : Bytes) :
    cstr (text ++ follow) = text ++ cstr follow := by
  apply takeWhile_append_of_pos
  intro b hb
  simp only [bne_iff_ne, ne_eq]
  exact fun hzero ↦ htext (hzero ▸ hb)

theorem cstr_cons {b : UInt8} (hb : b ≠ 0) (mem : Bytes) : cstr (b :: mem) = b :: cstr mem :=
  takeWhile_cons_of_pos (by simpa using hb)

/-- A NUL that is written into a string ends it. -/
theorem cstr_set {mem : Bytes} {place : ℕ} (hplace : place < (cstr mem).length) :
    cstr (mem.set place 0) = (cstr mem).take place := by
  induction mem generalizing place with
  | nil => cases hplace
  | cons b mem ih =>
    by_cases hb : b = 0
    · subst hb
      cases hplace
    · rw [cstr_cons hb] at hplace ⊢
      cases place with
      | zero => rfl
      | succ place =>
        rw [set_cons_succ, cstr_cons hb, ih (Nat.lt_of_succ_lt_succ hplace), take_succ_cons]

theorem cstr_eq_nil_iff {mem : Bytes} : cstr mem = [] ↔ mem = [] ∨ mem.head? = some 0 := by
  cases mem with
  | nil => simp [cstr]
  | cons b mem =>
    by_cases hb : b = 0
    · subst hb
      simp [cstr]
    · simp [cstr_cons hb, hb]

/-- The mark has no NUL, so it stands in the memory exactly if it stands in the string. -/
theorem versionMark_cstr {follow : Bytes} : versionMark <+: cstr follow ↔ versionMark <+: follow := by
  constructor
  · exact fun hmark ↦ hmark.trans (List.takeWhile_prefix _)
  · rintro ⟨rest, rfl⟩
    rw [cstr_append (by decide)]
    exact prefix_append _ _

/-- Up to where a part of a request is taken. -/
theorem cstr_cutVersion_iff {text follow : Bytes} (htext : ∀ b ∈ text, b ≠ 32 ∧ b ≠ 0) :
    (cutVersion (text ++ follow)).map cstr = .ok text ↔ EndsPart follow := by
  have hnul : (0 : UInt8) ∉ text := fun hzero ↦ (htext 0 hzero).2 rfl
  have hblank : (32 : UInt8) ∉ text := fun hmem ↦ (htext 32 hmem).1 rfl
  have hstring := cstr_append hnul follow
  have hsearch : strstr versionMark (text ++ cstr follow) =
      (strstr versionMark (cstr follow)).map (· + text.length) := strstr_skip hblank _
  rw [cutVersion, hstring, hsearch, EndsPart, ← versionMark_cstr]
  cases hfound : strstr versionMark (cstr follow) with
  | none =>
    have hmissing : ¬versionMark <+: cstr follow := by
      rw [← strstr_eq_zero_iff, hfound]
      exact nofun
    simp only [Option.map_none, hmissing, false_or]
    split
    · rename_i hzero
      have hfollow : follow ≠ [] := by
        rintro rfl
        rw [append_nil] at hzero
        exact hnul hzero
      rw [Except.map, hstring, Except.ok.injEq, append_right_eq_self, cstr_eq_nil_iff]
      exact or_iff_right hfollow
    · rename_i hnone
      constructor
      · exact nofun
      · intro hhead
        obtain ⟨rest, rfl⟩ := List.head?_eq_some_iff.mp hhead
        exact absurd (mem_append_right _ mem_cons_self) hnone
  | some place =>
    have hwithin : place < (cstr follow).length := by
      have hmark := ((strstr_eq_some_iff (by decide)).mp hfound).1.length_le
      rw [length_drop, show versionMark.length = 9 from rfl] at hmark
      omega
    have hne : cstr follow ≠ [] := ne_nil_of_length_pos (Nat.zero_lt_of_lt hwithin)
    have hcut : cstr ((text ++ follow).set (place + text.length) 0) =
        text ++ (cstr follow).take place := by
      rw [cstr_set, hstring, Nat.add_comm, take_length_add_append]
      rw [hstring, length_append]
      omega
    have hhead : ¬follow.head? = some 0 := fun hhead ↦ hne (cstr_eq_nil_iff.mpr (.inr hhead))
    simp only [Option.map_some, Except.map, hcut, Except.ok.injEq, append_right_eq_self,
      take_eq_nil_iff, hne, or_false, hhead]
    rw [← strstr_eq_zero_iff, hfound, Option.some.injEq]

/-! ### Requests in memory -/

/-- A request as it was received: its URI and its query string, which a blank ends, and what stands
before and behind them in the memory. -/
structure RawRequest where
  front : Bytes
  method : Slice
  uri : Bytes
  query : Option Bytes
  follow : Bytes
  uri_plain : ∀ b ∈ uri, b ≠ 32 ∧ b ≠ 63 ∧ b ≠ 0
  query_plain : ∀ text ∈ query, ∀ b ∈ text, b ≠ 32 ∧ b ≠ 0

/-- What stands in the memory from the end of the URI on. -/
def RawRequest.behind (request : RawRequest) : Bytes :=
  match request.query with
  | none => request.follow
  | some text => 63 :: (text ++ request.follow)

/-- The parts that the HTTP library delimits. -/
def RawRequest.message (request : RawRequest) : HttpMessage where
  mem := request.front ++ (request.uri ++ request.behind)
  method := request.method
  uri := ⟨request.front.length, request.uri.length⟩
  query := request.query.map fun text ↦
    ⟨request.front.length + (request.uri.length + 1), text.length⟩

theorem drop_mem (request : RawRequest) {place : ℕ} (hplace : place ≤ request.uri.length) :
    request.message.mem.drop (request.front.length + place) =
      request.uri.drop place ++ request.behind := by
  rw [RawRequest.message, drop_length_add_append, drop_append_of_le_length hplace]

theorem endsPart_behind_iff (request : RawRequest) :
    EndsPart request.behind ↔ request.query = none ∧ EndsPart request.follow := by
  rw [RawRequest.behind]
  cases request.query with
  | none => simp
  | some text =>
    -- A question mark is neither a blank nor a NUL.
    have hmark : ¬EndsPart (63 :: (text ++ request.follow)) := by
      rintro (hmark | hzero)
      · exact absurd (cons_prefix_cons.mp hmark).1 (by decide)
      · exact absurd (Option.some.inj hzero) (by decide)
    simp [hmark]

/-- The name at the end of a URI is returned exactly if there is one and it ends the target. -/
theorem getUriHost_iff (request : RawRequest) {endpoint name : Bytes}
    (huri : request.uri = 47 :: (endpoint ++ 47 :: name)) :
    getUriHost request.message endpoint.length = .ok (some name) ↔
      name ≠ [] ∧ request.query = none ∧ EndsPart request.follow := by
  have hlength : request.message.uri.len = endpoint.length + 2 + name.length := by
    show request.uri.length = _
    rw [huri, length_cons, length_append, length_cons]
    omega
  by_cases hname : name = []
  · have hall : getUriHost request.message endpoint.length = .ok (some (ascii "list_all")) := by
      rw [getUriHost, if_pos]
      rw [hlength, hname]
      exact .inr rfl
    rw [hall, hname]
    simp only [ne_eq, not_true_eq_false, false_and, iff_false]
    decide
  · have hpos := length_pos_of_ne_nil hname
    have hplain : ∀ b ∈ name, b ≠ 32 ∧ b ≠ 0 := by
      intro b hb
      have hmem : b ∈ request.uri := by
        rw [huri]
        exact mem_cons_of_mem _ (mem_append_right _ (mem_cons_of_mem _ hb))
      exact ⟨(request.uri_plain b hmem).1, (request.uri_plain b hmem).2.2⟩
    have hmem : request.message.mem.drop (request.message.uri.place + endpoint.length + 2) =
        name ++ request.behind := by
      rw [Nat.add_assoc]
      show request.message.mem.drop (request.front.length + (endpoint.length + 2)) = _
      have hplace : endpoint.length + 2 ≤ request.uri.length := by
        have huriLength : request.uri.length = endpoint.length + 2 + name.length := hlength
        omega
      rw [drop_mem request hplace, huri, drop_succ_cons, drop_length_add_append]
      rfl
    rw [getUriHost, if_neg (by omega), if_pos (by omega), hmem, and_iff_right hname,
      ← endsPart_behind_iff, ← cstr_cutVersion_iff hplain]
    cases cutVersion (name ++ request.behind) <;> simp [Except.map, bind, Except.bind]

/-- The query string is parsed as it is exactly if there is one and it ends the target. -/
theorem parsedText_iff (request : RawRequest) :
    parsedText request.message =
        .ok ((request.message.query.map (Slice.text request.message.mem)).getD []) ↔
      request.query ≠ none ∧ EndsPart request.follow := by
  cases hquery : request.query with
  | none =>
    have hnull : request.message.query = none := by
      rw [RawRequest.message, hquery]
      rfl
    rw [parsedText, queryMem, hnull]
    simp [bind, Except.bind]
  | some text =>
    have hslice : request.message.query =
        some ⟨request.front.length + (request.uri.length + 1), text.length⟩ := by
      rw [RawRequest.message, hquery]
      rfl
    have hmem : request.message.mem.drop (request.front.length + (request.uri.length + 1)) =
        text ++ request.follow := by
      rw [RawRequest.message, drop_length_add_append, drop_length_add_append,
        RawRequest.behind, hquery]
      rfl
    have htext : Slice.text request.message.mem
        ⟨request.front.length + (request.uri.length + 1), text.length⟩ = text := by
      rw [Slice.text, hmem, take_left]
    rw [parsedText, queryMem, hslice]
    dsimp only
    rw [hmem, Option.map_some, Option.getD_some, htext,
      ← cstr_cutVersion_iff (request.query_plain text hquery)]
    cases cutVersion (text ++ request.follow) <;> simp [Except.map, bind, Except.bind]

/-- The handlers take the parts of a request that the library delimits exactly if the part is there
and ends the target: the name that is the last part of the URI, and the query string. -/
theorem slices_exact_iff (request : RawRequest) :
    (∀ endpoint name, request.uri = 47 :: (endpoint ++ 47 :: name) →
      (getUriHost request.message endpoint.length = .ok (some name) ↔
        name ≠ [] ∧ request.query = none ∧ EndsPart request.follow)) ∧
    (parsedText request.message =
        .ok ((request.message.query.map (Slice.text request.message.mem)).getD []) ↔
      request.query ≠ none ∧ EndsPart request.follow) :=
  ⟨fun _ _ huri ↦ getUriHost_iff request huri, parsedText_iff request⟩

/-- The endpoint for the parameters of the stream, and the URI for one of them. -/
def videoLists : Bytes := ascii "wiscam.api/v1/video/lists"

def bitrateUri : Bytes := 47 :: (videoLists ++ 47 :: ascii "bitrate")

theorem bitrateUri_plain : ∀ b ∈ bitrateUri, b ≠ 32 ∧ b ≠ 63 ∧ b ≠ 0 := by decide

theorem noQuery_plain : ∀ text ∈ (none : Option Bytes), ∀ b ∈ text, b ≠ 32 ∧ b ≠ 0 := by
  intro text htext
  cases htext

/-- A request for one parameter, with the rest of its first line. -/
def bitrateRequest (follow : Bytes) : RawRequest where
  front := ascii "GET "
  method := ⟨0, 3⟩
  uri := bitrateUri
  query := none
  follow := follow
  uri_plain := bitrateUri_plain
  query_plain := noQuery_plain

theorem slices_exact_bitrate :
    getUriHost (bitrateRequest (ascii " HTTP/1.1\r\n\r\n")).message videoLists.length =
      .ok (some (ascii "bitrate")) :=
  ((slices_exact_iff _).1 videoLists (ascii "bitrate") rfl).mpr ⟨by decide, rfl, by decide⟩

/-- With another version the rest of the request is taken for a part of the name. -/
theorem host_with_version :
    getUriHost (bitrateRequest (ascii " HTTP/1.0\r\n\r\n" ++ [0])).message videoLists.length =
      .ok (some (ascii "bitrate HTTP/1.0\r\n\r\n")) := by
  decide +kernel

end WisCam.Rest
