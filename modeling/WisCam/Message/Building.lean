import Mathlib.Logic.Relation
import WisCam.Message.RoundTrip

/-!
# Building a reply

A reply is built in a buffer of fixed size: `add_pmsg_string` appends strings, and `add_header` and
`add_header_printf` enter the offsets of a name and a value into the table, or fail. A string that
has been stored ends inside the buffer and is not touched again, so a reply reads as a protocol
word, a code, a reason and the headers that were added without a failure (`Reads`). A header that
does not fit leaves the reply as it reads, though its first string may stay behind in the buffer and
take room from later headers.
-/

set_option autoImplicit false

namespace WisCam.Message

open Foundations List

/-! ### Strings that stay -/

/-- The string at this offset ends inside the buffer. -/
def EndsIn (buffer : Bytes) (offset : ℕ) : Prop := (0 : UInt8) ∈ buffer.drop offset

variable {buffer : Bytes} {offset : ℕ}

theorem EndsIn.drop_append (hends : EndsIn buffer offset) (more : Bytes) :
    (buffer ++ more).drop offset = buffer.drop offset ++ more := by
  refine drop_append_of_le_length ?_
  by_contra hout
  have hnil : buffer.drop offset = [] := drop_eq_nil_of_le (Nat.le_of_not_le hout)
  rw [EndsIn, hnil] at hends
  exact absurd hends not_mem_nil

theorem EndsIn.append (hends : EndsIn buffer offset) (more : Bytes) :
    EndsIn (buffer ++ more) offset := by
  rw [EndsIn, hends.drop_append]
  exact mem_append_left _ hends

/-- What is appended behind a string that has ended does not change it. -/
theorem EndsIn.cstr_append (hends : EndsIn buffer offset) (more : Bytes) :
    cstr ((buffer ++ more).drop offset) = cstr (buffer.drop offset) := by
  rw [hends.drop_append, cstr, cstr, takeWhile_append, if_neg]
  intro hwhole
  have hself : (buffer.drop offset).takeWhile (· != 0) = buffer.drop offset :=
    (List.takeWhile_prefix _).eq_of_length hwhole
  have hzero := takeWhile_eq_self_iff.mp hself 0 hends
  exact absurd hzero (by decide)

/-! ### What a reply reads as -/

/-- The bytes that headers take in a buffer. -/
def headersSize : List (Bytes × Bytes) → ℕ
  | [] => 0
  | header :: headers => header.1.length + header.2.length + 2 + headersSize headers

/-- A reply that is being built, with strings that have all ended and do not overlap. -/
structure Pmsg.Reads (m : Pmsg) (proto : Bytes) (code : ℕ) (reason : Bytes)
    (headers : List (Bytes × Bytes)) : Prop where
  response : m.IsResponse proto code reason headers
  fields_end : ∀ field ∈ m.fields, EndsIn m.msg field.name ∧ EndsIn m.msg field.value
  proto_end : ∀ offset ∈ m.protoId, EndsIn m.msg offset
  reason_end : ∀ code offset, m.sl = .stat code (some offset) → EndsIn m.msg offset
  size_le : proto.length + reason.length + 2 + headersSize headers ≤ m.msg.length

variable {m : Pmsg} {proto reason name value : Bytes} {code : ℕ} {headers : List (Bytes × Bytes)}

/-- A buffer that grows reads the same. -/
theorem Pmsg.Reads.grow (hm : m.Reads proto code reason headers) (more : Bytes) :
    Pmsg.Reads { m with msg := m.msg ++ more } proto code reason headers := by
  obtain ⟨⟨hproto, ⟨reasonAt, hsl, hreason⟩, hheaders⟩, hfields, hprotoEnd, hreasonEnd, hsize⟩ := hm
  refine ⟨⟨?_, ⟨reasonAt, hsl, ?_⟩, ?_⟩, fun field hfield ↦ ?_, fun offset hoffset ↦ ?_,
    fun code offset hstat ↦ ?_, hsize.trans (by simp)⟩
  · rw [← hproto]
    refine Option.map_congr fun offset hoffset ↦ ?_
    exact (hprotoEnd offset hoffset).cstr_append more
  · rw [← hreason]
    exact (hreasonEnd code reasonAt hsl).cstr_append more
  · rw [← hheaders]
    refine map_congr_left fun field hfield ↦ ?_
    obtain ⟨hname, hvalue⟩ := hfields field hfield
    exact Prod.ext (hname.cstr_append more) (hvalue.cstr_append more)
  · obtain ⟨hname, hvalue⟩ := hfields field hfield
    exact ⟨hname.append more, hvalue.append more⟩
  · exact (hprotoEnd offset hoffset).append more
  · exact (hreasonEnd code offset hstat).append more

theorem headersSize_concat (headers : List (Bytes × Bytes)) (header : Bytes × Bytes) :
    headersSize (headers ++ [header]) =
      headersSize headers + (header.1.length + header.2.length + 2) := by
  induction headers with
  | nil => exact Nat.add_comm ..
  | cons first headers ih =>
    rw [cons_append, headersSize, headersSize, ih]
    omega

/-- An entry for two strings that have ended adds a header. -/
theorem Pmsg.Reads.addField (hm : m.Reads proto code reason headers) {nameAt valueAt : ℕ}
    (hname : EndsIn m.msg nameAt) (hvalue : EndsIn m.msg valueAt)
    (hsize : proto.length + reason.length + 2 +
      headersSize (headers ++ [(m.text nameAt, m.text valueAt)]) ≤ m.msg.length) :
    Pmsg.Reads { m with fields := m.fields ++ [⟨nameAt, valueAt⟩] } proto code reason
      (headers ++ [(m.text nameAt, m.text valueAt)]) := by
  refine ⟨⟨hm.response.1, hm.response.2.1, ?_⟩, ?_, hm.proto_end, hm.reason_end, hsize⟩
  · rw [← hm.response.2.2, Pmsg.headers, map_append]
    rfl
  · intro field hfield
    rcases mem_append.mp hfield with hold | hnew
    · exact hm.fields_end field hold
    · rw [mem_singleton.mp hnew]
      exact ⟨hname, hvalue⟩

/-! ### Adding headers -/

/-- There is a free entry for a header, and room for its strings. -/
def Pmsg.HasRoom (m : Pmsg) (name value : Bytes) : Prop :=
  m.fields.length ≠ maxFields ∧ m.msg.length + (name.length + 1) + (value.length + 1) ≤ m.maxLen

instance (m : Pmsg) (name value : Bytes) : Decidable (m.HasRoom name value) :=
  inferInstanceAs (Decidable (_ ∧ _))

/-- The buffer has this size, and it and the table hold what they have room for. -/
structure Pmsg.Bounded (m : Pmsg) (size : ℕ) : Prop where
  maxLen_eq : m.maxLen = size
  length_msg : m.msg.length ≤ size
  length_fields : m.fields.length ≤ maxFields

/-- What a function that adds a header makes of a reply: it returns 0 and the header is there, or it
returns -1 and the reply reads as before. -/
structure Added (m : Pmsg) (name value : Bytes) (result : Pmsg × ℤ) : Prop where
  outcome : m.HasRoom name value ∧ result.2 = 0 ∨ ¬ m.HasRoom name value ∧ result.2 = -1
  reads : ∀ {proto code reason headers}, m.Reads proto code reason headers →
    result.1.Reads proto code reason
      (headers ++ if result.2 = 0 then [(cstr name, cstr value)] else [])
  grows : m.msg.length ≤ result.1.msg.length ∧ result.1.maxLen = m.maxLen
  bounded : ∀ {size}, m.Bounded size → result.1.Bounded size
  fields_failure : result.2 ≠ 0 → result.1.fields = m.fields

/-- The string at this offset ends inside the buffer and reads as this one. -/
def Stored (buffer : Bytes) (offset : ℕ) (text : Bytes) : Prop :=
  EndsIn buffer offset ∧ cstr (buffer.drop offset) = cstr text

theorem stored_at {front text back : Bytes} (hcut : CutAt buffer offset front (text ++ 0 :: back)) :
    Stored buffer offset text := by
  refine ⟨?_, cstr_drop_nul hcut⟩
  rw [EndsIn, hcut.drop]
  exact mem_append_right _ mem_cons_self

/-- Two strings one after the other, read back from the buffer. -/
theorem stored_twice (front first second : Bytes) :
    Stored (front ++ first ++ [0] ++ second ++ [0]) front.length first ∧
      Stored (front ++ first ++ [0] ++ second ++ [0]) (front ++ first ++ [0]).length second := by
  have hfirst : CutAt (front ++ first ++ [0] ++ second ++ [0]) front.length front
      (first ++ 0 :: (second ++ [0])) :=
    ⟨by simp only [append_assoc, cons_append, nil_append], rfl⟩
  have hsecond := stored_at hfirst.move.next
  rw [← length_append, ← @List.length_singleton _ (0 : UInt8), ← length_append] at hsecond
  exact ⟨stored_at hfirst, hsecond⟩

/-- A failure leaves the reply as it reads. -/
theorem added_failure {more : Bytes} (hmore : m.msg.length ≤ m.maxLen →
      m.msg.length + more.length ≤ m.maxLen) (hroom : ¬ m.HasRoom name value) :
    Added m name value ({ m with msg := m.msg ++ more }, -1) := by
  have hfailed : ¬ (-1 : ℤ) = 0 := by decide
  refine ⟨Or.inr ⟨hroom, rfl⟩, fun hm ↦ ?_, ⟨?_, rfl⟩, ?_, fun _ ↦ rfl⟩
  · rw [if_neg hfailed, append_nil]
    exact hm.grow more
  · rw [length_append]
    exact Nat.le_add_right _ _
  · rintro size ⟨rfl, hlength, hfields⟩
    refine ⟨rfl, ?_, hfields⟩
    rw [length_append]
    exact hmore hlength

theorem added_unchanged (hroom : ¬ m.HasRoom name value) : Added m name value (m, -1) := by
  have hfailure := @added_failure m name value [] id hroom
  rwa [append_nil] at hfailure

/-- A success enters the two strings, in the order in which they were stored. -/
theorem added_success {nameAt valueAt : ℕ} (hroom : m.HasRoom name value)
    (hbuffer : m.msg <+: buffer)
    (hlength : buffer.length = m.msg.length + (name.length + value.length + 2))
    (hname : Stored buffer nameAt name) (hvalue : Stored buffer valueAt value) :
    Added m name value
      ({ m with msg := buffer, fields := m.fields ++ [⟨nameAt, valueAt⟩] }, 0) := by
  refine ⟨Or.inl ⟨hroom, rfl⟩, fun {_ _ _ headers} hm ↦ ?_, ⟨hbuffer.length_le, rfl⟩, ?_,
    fun h ↦ absurd rfl h⟩
  · obtain ⟨more, rfl⟩ := hbuffer
    have hsize := hm.size_le
    have hnameSize : (cstr name).length ≤ name.length := (List.takeWhile_prefix _).length_le
    have hvalueSize : (cstr value).length ≤ value.length := (List.takeWhile_prefix _).length_le
    rw [if_pos rfl, ← hname.2, ← hvalue.2]
    refine (hm.grow more).addField hname.1 hvalue.1 ?_
    show _ + headersSize (headers ++ [(cstr _, cstr _)]) ≤ _
    rw [hname.2, hvalue.2, headersSize_concat]
    dsimp only
    omega
  · rintro size ⟨rfl, -, hfields⟩
    have hfits := hroom.2
    refine ⟨rfl, by dsimp only; omega, ?_⟩
    rw [length_append]
    exact Nat.lt_of_le_of_ne hfields hroom.1

theorem addPmsgString_of_le {s : Bytes} (hfits : m.msg.length + (s.length + 1) ≤ m.maxLen) :
    addPmsgString m s = ({ m with msg := m.msg ++ s ++ [0] }, some m.msg.length) :=
  if_neg (Nat.not_lt.mpr hfits)

theorem addPmsgString_of_lt {s : Bytes} (hover : m.maxLen < m.msg.length + (s.length + 1)) :
    addPmsgString m s = (m, none) :=
  if_pos hover

/-- What `add_header` and `add_header_printf` have in common: two strings are stored, and a header
for their offsets is entered. -/
def addTwo (m : Pmsg) (first second : Bytes) (entry : ℕ → ℕ → Hdrf) : Pmsg × ℤ :=
  if m.fields.length = maxFields then (m, -1)
  else
    match addPmsgString m first with
    | (m, none) => (m, -1)
    | (m, some firstAt) =>
      match addPmsgString m second with
      | (m, none) => (m, -1)
      | (m, some secondAt) => ({ m with fields := m.fields ++ [entry firstAt secondAt] }, 0)

theorem addHeaderPrintf_eq (m : Pmsg) (name value : Bytes) :
    addHeaderPrintf m name value = addTwo m value name fun valueAt nameAt ↦ ⟨nameAt, valueAt⟩ := by
  unfold addHeaderPrintf addTwo
  split_ifs with hfull hover
  · rfl
  · rw [@addPmsgString_of_lt m value (by omega)]
  · rewrite [@addPmsgString_of_le m value (by omega)]
    rfl

theorem addTwo_added {first second : Bytes} {entry : ℕ → ℕ → Hdrf}
    (hsize : first.length + second.length = name.length + value.length)
    (hentry : ∀ {buffer a b}, Stored buffer a first → Stored buffer b second →
      Stored buffer (entry a b).name name ∧ Stored buffer (entry a b).value value) :
    Added m name value (addTwo m first second entry) := by
  have hstored : (m.msg ++ first ++ [0]).length = m.msg.length + (first.length + 1) := by
    simp only [length_append, length_singleton, Nat.add_assoc]
  have hroom : m.HasRoom name value ↔ m.HasRoom first second := by
    unfold Pmsg.HasRoom
    omega
  unfold addTwo
  by_cases hfull : m.fields.length = maxFields
  · rw [if_pos hfull]
    exact added_unchanged fun hnew ↦ hnew.1 hfull
  rw [if_neg hfull]
  by_cases hfirst : m.msg.length + (first.length + 1) ≤ m.maxLen
  · rw [addPmsgString_of_le hfirst]
    dsimp only
    by_cases hsecond : m.msg.length + (first.length + 1) + (second.length + 1) ≤ m.maxLen
    · rw [addPmsgString_of_le (by rwa [hstored])]
      dsimp only
      obtain ⟨hfirstEnds, hsecondEnds⟩ := stored_twice m.msg first second
      have hends := hentry hfirstEnds hsecondEnds
      refine added_success (hroom.mpr ⟨hfull, hsecond⟩) ?_ ?_ hends.1 hends.2
      · simp only [append_assoc, prefix_append]
      · simp only [length_append, length_singleton]
        omega
    · rw [addPmsgString_of_lt (by rw [hstored]; exact Nat.not_le.mp hsecond)]
      dsimp only
      rw [append_assoc]
      refine added_failure (fun _ ↦ ?_) fun hnew ↦ hsecond (hroom.mp hnew).2
      rw [length_append]
      exact hfirst
  · rw [addPmsgString_of_lt (Nat.not_le.mp hfirst)]
    exact added_unchanged fun hnew ↦ hfirst (Nat.le_of_add_right_le (hroom.mp hnew).2)

/-- `add_header`: the name is stored before the value. -/
theorem addHeader_added (m : Pmsg) (name value : Bytes) :
    Added m name value (addHeader m name value) :=
  addTwo_added rfl fun hname hvalue ↦ ⟨hname, hvalue⟩

/-- How much of the buffer is used after `add_header`: the name stays behind if there is room for
no more than that. -/
theorem length_msg_addHeader (m : Pmsg) (name value : Bytes) :
    (addHeader m name value).1.msg.length =
      if m.HasRoom name value then m.msg.length + (name.length + 1) + (value.length + 1)
      else if m.fields.length ≠ maxFields ∧ m.msg.length + (name.length + 1) ≤ m.maxLen then
        m.msg.length + (name.length + 1)
      else m.msg.length := by
  unfold addHeader
  by_cases hfull : m.fields.length = maxFields
  · have hroom : ¬ m.HasRoom name value := fun h ↦ h.1 hfull
    rw [if_pos hfull, if_neg hroom, if_neg fun h ↦ h.1 hfull]
  rw [if_neg hfull]
  by_cases hname : m.msg.length + (name.length + 1) ≤ m.maxLen
  · have hlength : (m.msg ++ name ++ [0]).length = m.msg.length + (name.length + 1) := by
      simp only [length_append, length_singleton, Nat.add_assoc]
    rw [addPmsgString_of_le hname]
    dsimp only
    by_cases hvalue : m.msg.length + (name.length + 1) + (value.length + 1) ≤ m.maxLen
    · have hroom : m.HasRoom name value := ⟨hfull, hvalue⟩
      rw [addPmsgString_of_le (by rwa [hlength]), if_pos hroom]
      simp only [length_append, length_singleton, Nat.add_assoc]
    · have hroom : ¬ m.HasRoom name value := fun h ↦ hvalue h.2
      rw [addPmsgString_of_lt (by rw [hlength]; exact Nat.not_le.mp hvalue), if_neg hroom,
        if_pos ⟨hfull, hname⟩]
      exact hlength
  · have hroom : ¬ m.HasRoom name value := fun h ↦ hname (Nat.le_of_add_right_le h.2)
    rw [addPmsgString_of_lt (Nat.not_le.mp hname), if_neg hroom, if_neg fun h ↦ hname h.2]

/-- `add_header_printf`: the value is stored before the name. -/
theorem addHeaderPrintf_added (m : Pmsg) (name value : Bytes) :
    Added m name value (addHeaderPrintf m name value) := by
  rw [addHeaderPrintf_eq]
  exact addTwo_added (Nat.add_comm _ _) fun hvalue hname ↦ ⟨hname, hvalue⟩

variable {result : Pmsg × ℤ}

theorem Added.result_eq_zero_iff (hadded : Added m name value result) :
    result.2 = 0 ↔ m.HasRoom name value := by
  rcases hadded.outcome with ⟨hroom, hret⟩ | ⟨hfull, hret⟩
  · exact iff_of_true hret hroom
  · rw [hret]
    exact iff_of_false (by decide) hfull

variable {other : Bytes}

/-- A header with another name is found as before. -/
theorem Added.getHeader_of_ne (hadded : Added m name value result)
    (hm : m.Reads proto code reason headers) (hne : sameNoCase (cstr name) other = false) :
    getHeader result.1 other = getHeader m other := by
  rw [getHeader_eq, getHeader_eq, (hadded.reads hm).response.2.2, hm.response.2.2,
    List.find?_append]
  split_ifs
  · rw [List.find?_singleton, hne]
    simp
  · simp

/-- A header that was not there is there, with the value as a string, if there was room for it. -/
theorem Added.getHeader_eq (hadded : Added m name value result)
    (hm : m.Reads proto code reason headers) (hsame : sameNoCase (cstr name) other = true)
    (hnone : getHeader m other = none) :
    getHeader result.1 other = if m.HasRoom name value then some (cstr value) else none := by
  rw [Message.getHeader_eq, hm.response.2.2, Option.map_eq_none_iff] at hnone
  rw [Message.getHeader_eq, (hadded.reads hm).response.2.2, List.find?_append, hnone,
    Option.none_or]
  by_cases hroom : m.HasRoom name value
  · rw [if_pos (hadded.result_eq_zero_iff.mpr hroom), if_pos hroom, List.find?_singleton, hsame]
    rfl
  · rw [if_neg (hadded.result_eq_zero_iff.not.mpr hroom), if_neg hroom]
    rfl

/-- What a call that adds a header under a name other than this one leaves of the message. -/
def AddsOther (other : Bytes) (m m' : Pmsg) : Prop :=
  ∃ name value result, Added m name value result ∧ sameNoCase (cstr name) other = false ∧
    result.1 = m'

theorem addsOther_addHeader (m : Pmsg) {name : Bytes} (value : Bytes)
    (hne : sameNoCase (cstr name) other = false) : AddsOther other m (addHeader m name value).1 :=
  ⟨name, value, _, addHeader_added m name value, hne, rfl⟩

theorem addsOther_addHeaderPrintf (m : Pmsg) {name : Bytes} (value : Bytes)
    (hne : sameNoCase (cstr name) other = false) :
    AddsOther other m (addHeaderPrintf m name value).1 :=
  ⟨name, value, _, addHeaderPrintf_added m name value, hne, rfl⟩

/-- Adding headers leaves the status line and the headers with another name. -/
theorem Pmsg.Reads.adds {m' : Pmsg} {size : ℕ} (hm : m.Reads proto code reason headers)
    (hbounded : m.Bounded size) (hadds : Relation.ReflTransGen (AddsOther other) m m') :
    m'.Bounded size ∧ getHeader m' other = getHeader m other ∧
      ∃ headers', m'.Reads proto code reason headers' := by
  induction hadds with
  | refl => exact ⟨hbounded, rfl, headers, hm⟩
  | tail _ hlast ih =>
    obtain ⟨hbounded', hget, headers', hm'⟩ := ih
    obtain ⟨name, value, result, hadded, hne, rfl⟩ := hlast
    exact ⟨hadded.bounded hbounded', (hadded.getHeader_of_ne hm' hne).trans hget, _,
      hadded.reads hm'⟩

/-! ### Copying headers -/

theorem zero_notMem_text (m : Pmsg) (offset : ℕ) : (0 : UInt8) ∉ m.text offset := by
  intro hzero
  have := mem_takeWhile_imp hzero
  exact absurd this (by decide)

/-- The headers of a message that have this name. -/
def headersNamed (m : Pmsg) (name : Bytes) : List (Bytes × Bytes) :=
  m.headers.filter fun header ↦ sameNoCase header.1 name

theorem copyHeaders_eq (dest src : Pmsg) (name : Bytes) :
    copyHeaders dest src name = (headersNamed src name).foldl
      (fun dest header ↦ (addHeader dest header.1 header.2).1) dest := by
  rw [copyHeaders, headersNamed, Pmsg.headers, filter_map, foldl_map]
  rfl

theorem headersNamed_zero {header : Bytes × Bytes} (hheader : header ∈ headersNamed m name) :
    (0 : UInt8) ∉ header.1 ∧ (0 : UInt8) ∉ header.2 := by
  obtain ⟨field, -, rfl⟩ := mem_map.mp (mem_filter.mp hheader).1
  exact ⟨zero_notMem_text m _, zero_notMem_text m _⟩

/-- The headers that fit, if these are added one after another. -/
def kept : Pmsg → List (Bytes × Bytes) → List (Bytes × Bytes)
  | _, [] => []
  | m, header :: headers =>
    (if (addHeader m header.1 header.2).2 = 0 then [header] else []) ++
      kept (addHeader m header.1 header.2).1 headers

theorem kept_sublist (m : Pmsg) (headers : List (Bytes × Bytes)) :
    (kept m headers).Sublist headers := by
  induction headers generalizing m with
  | nil => exact .slnil
  | cons header headers ih =>
    rw [kept]
    split_ifs
    · exact (ih _).cons_cons header
    · exact (ih _).cons header

/-- Adding headers one after another adds those that fit. -/
theorem Pmsg.Reads.addAll {added : List (Bytes × Bytes)} (hm : m.Reads proto code reason headers)
    (hzero : ∀ header ∈ added, (0 : UInt8) ∉ header.1 ∧ (0 : UInt8) ∉ header.2) :
    (added.foldl (fun m header ↦ (addHeader m header.1 header.2).1) m).Reads proto code reason
      (headers ++ kept m added) := by
  induction added generalizing m headers with
  | nil =>
    rw [kept, append_nil]
    exact hm
  | cons header added ih =>
    obtain ⟨hheader, hlater⟩ := forall_mem_cons.mp hzero
    have hread := ih ((addHeader_added m header.1 header.2).reads hm) hlater
    rw [foldl_cons, kept]
    rw [cstr_eq_self hheader.1, cstr_eq_self hheader.2, append_assoc] at hread
    exact hread

theorem Pmsg.Bounded.addAll {added : List (Bytes × Bytes)} {size : ℕ} (hm : m.Bounded size) :
    (added.foldl (fun m header ↦ (addHeader m header.1 header.2).1) m).Bounded size := by
  induction added generalizing m with
  | nil => exact hm
  | cons header added ih => exact ih ((addHeader_added m header.1 header.2).bounded hm)

end WisCam.Message
