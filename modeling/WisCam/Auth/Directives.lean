import Mathlib.Data.List.Induction
import WisCam.Auth.Digest
import WisCam.Foundations.Scan

/-!
# The directives of an Authorization header

`parse_auth_header` once more, as it works in memory: on positions in the header, which ends with a
NUL, and with the arrays of `struct digest_auth_info`. A read behind the NUL and a write behind the
end of an array are outcomes of their own (`AuthStop`). `parseDirectivesAt_at` says that there is no
such outcome for any header, and that the result is that of `parseDirectives`, which is about texts.

A list of directives is described by `DirectiveList`. On such a list every directive is read as it
was written (`parseDirectives_directive`), whatever its value looks like, so that the arrays hold
the last values afterwards.
-/

set_option autoImplicit false

namespace WisCam.Auth

open Foundations

/-! ### The arrays -/

/-- `struct digest_auth_info`, with the bytes of its arrays. -/
structure DigestBuffers where
  array : (field : AuthField) → Vector UInt8 field.size

def DigestBuffers.string (auth : DigestBuffers) (field : AuthField) : Bytes :=
  cstr (auth.array field).toList

def DigestBuffers.info (auth : DigestBuffers) : DigestAuthInfo :=
  ⟨auth.string .realm, auth.string .uri, auth.string .nonce, auth.string .opaqueData,
    auth.string .username, auth.string .response⟩

def DigestAuthInfo.get (auth : DigestAuthInfo) : AuthField → Bytes
  | .realm => auth.realm
  | .uri => auth.uri
  | .nonce => auth.nonce
  | .opaqueData => auth.opaqueData
  | .username => auth.username
  | .response => auth.response

@[simp] theorem DigestBuffers.get_info (auth : DigestBuffers) (field : AuthField) :
    auth.info.get field = auth.string field := by
  cases field <;> rfl

theorem DigestAuthInfo.get_set (auth : DigestAuthInfo) (field other : AuthField) (value : Bytes) :
    (auth.set field value).get other = if other = field then value else auth.get other := by
  cases field <;> cases other <;> rfl

theorem DigestAuthInfo.ext_get {auth auth' : DigestAuthInfo}
    (h : ∀ field, auth.get field = auth'.get field) : auth = auth' := by
  cases auth
  cases auth'
  simp only [DigestAuthInfo.mk.injEq]
  exact ⟨h .realm, h .uri, h .nonce, h .opaqueData, h .username, h .response⟩

/-! ### The scan in memory -/

/-- How `parse_auth_header` ends without 0: it returns -1, or it reads behind the end of the header,
or it writes behind the end of an array. `endless` is a loop running out of fuel. -/
inductive AuthStop
  | rejected
  | readOutside
  | writeOutside
  | endless
  deriving DecidableEq, Repr

/-- The byte at a position of the header. The last one is its NUL. -/
def charAt (header : Bytes) (i : ℕ) : Except AuthStop UInt8 :=
  match (header ++ [0])[i]? with
  | some b => .ok b
  | none => .error .readOutside

/-- The store `dest[k] = b`. -/
def putAt {size : ℕ} (dest : Vector UInt8 size) (k : ℕ) (b : UInt8) :
    Except AuthStop (Vector UInt8 size) :=
  if h : k < size then .ok (dest.set k b h) else .error .writeOutside

/-- Returns -1 unless the condition holds. -/
def orReject (condition : Bool) : Except AuthStop Unit :=
  if condition then .ok () else .error .rejected

@[simp] theorem orReject_true : orReject true = .ok () := rfl

/-- The position of the first byte from `i` on for which the condition does not hold. -/
def scanWhile (p : UInt8 → Bool) (header : Bytes) : ℕ → ℕ → Except AuthStop ℕ
  | 0, _ => .error .endless
  | fuel + 1, i => do
    let b ← charAt header i
    if p b then scanWhile p header fuel (i + 1) else .ok i

/-- `strncasecmp(header + i, tag, strlen(tag)) == 0` -/
def sameTagAt (header : Bytes) : ℕ → Bytes → Except AuthStop Bool
  | _, [] => .ok true
  | i, t :: tag => do
    let b ← charAt header i
    if lower b = lower t then sameTagAt header (i + 1) tag else .ok false

/-- `strncpy(dest, v, len)` and `dest[len] = 0`, with `k` bytes copied already. There is no NUL
among the bytes that are copied. -/
def copyValue (header : Bytes) {size : ℕ} :
    ℕ → ℕ → ℕ → Vector UInt8 size → Except AuthStop (Vector UInt8 size)
  | 0, _, k, dest => putAt dest k 0
  | len + 1, v, k, dest => do
    let b ← charAt header v
    let dest ← putAt dest k b
    copyValue header len (v + 1) (k + 1) dest

def DigestBuffers.update (auth : DigestBuffers) (field : AuthField)
    (bytes : Vector UInt8 field.size) : DigestBuffers :=
  ⟨Function.update auth.array field bytes⟩

/-- What is done with the directive at `n` whose value is the `len` bytes at `v`. -/
def storeDirectiveAt (header : Bytes) (n v len : ℕ) (auth : DigestBuffers) :
    List AuthField → Except AuthStop DigestBuffers
  | [] => do
    if ← sameTagAt header n (ascii "algorithm=") then
      orReject (← sameTagAt header v (ascii "md5"))
      .ok auth
    else .ok auth
  | field :: fields => do
    if ← sameTagAt header n field.tag then
      orReject (len < field.size)
      let bytes ← copyValue header len v 0 (auth.array field)
      .ok (auth.update field bytes)
    else storeDirectiveAt header n v len auth fields

/-- Where the value of a directive starts, from the byte after the equals sign on, and its
length. -/
def directiveValueAt (header : Bytes) (v : ℕ) : Except AuthStop (ℕ × ℕ) := do
  if (← charAt header v) = 34 then
    let stop ← scanWhile (fun b ↦ b != 34 && b != 0) header (header.length + 1) (v + 1)
    orReject ((← charAt header stop) != 0)
    .ok (v + 1, stop - (v + 1))
  else
    let stop ← scanWhile (fun b ↦ b != 44 && b != 32 && b != 0) header (header.length + 1) v
    .ok (v, stop - v)

/-- The loop of `parse_auth_header`. -/
def parseDirectivesAt (header : Bytes) :
    ℕ → ℕ → DigestBuffers → Except AuthStop DigestBuffers
  | 0, _, _ => .error .endless
  | fuel + 1, n, auth => do
    if (← charAt header n) = 0 then .ok auth
    else
      let v ← scanWhile (fun b ↦ b != 61 && b != 0) header (header.length + 1) n
      orReject ((← charAt header v) != 0)
      orReject ((← charAt header (v + 1)) != 0)
      let (v, len) ← directiveValueAt header (v + 1)
      let auth ← storeDirectiveAt header n v len auth authFields
      let n ← scanWhile (fun b ↦ b == 34 || b == 44 || b == 32) header (header.length + 1) (v + len)
      parseDirectivesAt header fuel n auth

/-- `parse_auth_header`, which leaves the arrays as they are where no directive is for them. -/
def parseAuthHeaderAt (header : Bytes) (auth : DigestBuffers) : Except AuthStop DigestBuffers := do
  orReject (← sameTagAt header 0 (ascii "digest "))
  parseDirectivesAt header (header.length + 1) 7 auth

/-! ### Inside the header and the arrays -/

/-- Returns -1 where there is no result. -/
def orRejected {α : Type} : Option α → Except AuthStop α
  | some a => .ok a
  | none => .error .rejected

section Header

variable {header front text : Bytes} {i : ℕ}

theorem charAt_at (hcut : CutAt header i front text) : charAt header i = .ok (text.headD 0) := by
  have hnul : CutAt (header ++ [0]) i front (text ++ [0]) :=
    ⟨by rw [hcut.append, List.append_assoc], hcut.length⟩
  rw [charAt, hnul.get]
  cases text <;> rfl

theorem headD_ne_zero (hne : text ≠ []) (hnul : (0 : UInt8) ∉ text) : text.headD 0 ≠ 0 := by
  cases text with
  | nil => exact absurd rfl hne
  | cons b text => exact fun h ↦ hnul (h ▸ List.mem_cons_self)

/-- A pointer moves to the end of the string, or to a byte before it where it stops. -/
theorem scanWhile_of_lt {p : UInt8 → Bool} {taken rest : Bytes} {fuel : ℕ} (hp : p 0 = false)
    (hcut : CutAt header i front (taken ++ rest)) (htaken : ∀ b ∈ taken, p b = true)
    (hrest : ∀ b, rest.head? = some b → p b = false) (hfuel : taken.length < fuel) :
    scanWhile p header fuel i = .ok (i + taken.length) := by
  induction taken generalizing fuel i front with
  | nil =>
    obtain ⟨fuel, rfl⟩ := Nat.exists_eq_add_one.mpr hfuel
    have hstop : p (rest.headD 0) = false := by
      cases rest with
      | nil => exact hp
      | cons b rest => exact hrest b rfl
    rw [scanWhile, charAt_at hcut, ok_bind, List.nil_append, hstop, if_neg Bool.false_ne_true]
    rfl
  | cons b taken ih =>
    obtain ⟨hb, htaken⟩ := List.forall_mem_cons.mp htaken
    obtain ⟨fuel, rfl⟩ := Nat.exists_eq_add_one.mpr (Nat.zero_lt_of_lt hfuel)
    rw [scanWhile, charAt_at hcut, ok_bind, List.cons_append, List.headD_cons, if_pos hb,
      ih hcut.next htaken (Nat.lt_of_succ_lt_succ hfuel), List.length_cons, Nat.add_right_comm,
      Nat.add_assoc]

/-- A scan that stops at the NUL is one over the bytes of the text. -/
theorem scanWhile_at {p q : UInt8 → Bool} (hcut : CutAt header i front text)
    (hnul : (0 : UInt8) ∉ text) (hzero : p 0 = false) (hp : ∀ b, b ≠ 0 → p b = q b) :
    ∃ taken rest, text = taken ++ rest ∧ text.takeWhile q = taken ∧ text.dropWhile q = rest ∧
      scanWhile p header (header.length + 1) i = .ok (i + taken.length) := by
  obtain ⟨taken, rest, rfl, htaken, hrest⟩ := exists_takeWhile_split q text
  have hsame (b : UInt8) (hb : b ∈ taken ++ rest) : p b = q b := hp b fun h ↦ hnul (h ▸ hb)
  refine ⟨taken, rest, rfl, takeWhile_append_stop htaken hrest, ?_, ?_⟩
  · rw [← drop_length_takeWhile, takeWhile_append_stop htaken hrest, List.drop_left]
  · refine scanWhile_of_lt hzero hcut (fun b hb ↦ ?_) (fun b hb ↦ ?_) ?_
    · rw [hsame b (List.mem_append_left _ hb), htaken b hb]
    · rw [hsame b (List.mem_append_right _ (List.mem_of_mem_head? hb)), hrest b hb]
    · rw [hcut.append, List.length_append, List.length_append]
      omega

theorem sameFirstNoCase_cons (k : ℕ) (b t : UInt8) (text tag : Bytes) :
    sameFirstNoCase (k + 1) (b :: text) (t :: tag) =
      (lower b == lower t && sameFirstNoCase k text tag) := rfl

theorem sameTagAt_at {tag : Bytes} (htag : ∀ t ∈ tag, lower t ≠ 0)
    (hcut : CutAt header i front text) :
    sameTagAt header i tag = .ok (sameFirstNoCase tag.length text tag) := by
  induction tag generalizing i front text with
  | nil => rfl
  | cons t tag ih =>
    obtain ⟨ht, htag⟩ := List.forall_mem_cons.mp htag
    rw [sameTagAt, charAt_at hcut, ok_bind]
    cases text with
    | nil =>
      have hzero : lower 0 ≠ lower t := ht.symm
      rw [List.headD_nil, if_neg hzero]
      rfl
    | cons b text =>
      rw [List.headD_cons, ih htag hcut.next, List.length_cons, sameFirstNoCase_cons]
      split_ifs with hb
      · rw [beq_iff_eq.mpr hb, Bool.true_and]
      · rw [beq_eq_false_iff_ne.mpr hb, Bool.false_and]

theorem take_set_succ {dest : Bytes} {k : ℕ} (hk : k < dest.length) (b : UInt8) :
    (dest.set k b).take (k + 1) = dest.take k ++ [b] := by
  have hset : (dest.set k b)[k]? = some b := List.getElem?_set_self hk
  rw [List.take_add_one, hset, List.take_set_of_le (Nat.le_refl k)]
  rfl

/-- The bytes of the value and a NUL are stored one after another. -/
theorem copyValue_at {value rest : Bytes} {size k : ℕ} {dest : Vector UInt8 size}
    (hcut : CutAt header i front (value ++ rest)) (hlen : k + value.length < size) :
    ∃ dest', copyValue header value.length i k dest = .ok dest' ∧
      dest'.toList.take (k + value.length + 1) = dest.toList.take k ++ value ++ [0] := by
  have hsize : k < size := Nat.lt_of_le_of_lt (Nat.le_add_right _ _) hlen
  have hk : k < dest.toList.length := by rwa [Vector.length_toList]
  induction value generalizing i k dest front with
  | nil =>
    rw [List.length_nil, copyValue, putAt, dif_pos hsize]
    refine ⟨_, rfl, ?_⟩
    rw [Vector.toList_set, Nat.add_zero, take_set_succ hk, List.append_nil]
  | cons b value ih =>
    have hcount : k + (b :: value).length = k + 1 + value.length := by
      rw [List.length_cons]
      omega
    rw [hcount] at hlen ⊢
    have hsize' : k + 1 < size := by omega
    obtain ⟨dest', hcopy, htake⟩ := @ih _ _ _ (dest.set k b hsize) hcut.next hlen hsize'
      (by rwa [Vector.length_toList])
    refine ⟨dest', ?_, ?_⟩
    · rw [List.length_cons, copyValue, charAt_at hcut, ok_bind, putAt, dif_pos hsize, ok_bind]
      exact hcopy
    · rw [htake, Vector.toList_set, take_set_succ hk, List.append_assoc _ [b]]
      rfl

/-- The value is then the string in the array. -/
theorem cstr_of_take {bytes value : Bytes} (hvalue : (0 : UInt8) ∉ value)
    (htake : bytes.take (value.length + 1) = value ++ [0]) : cstr bytes = value := by
  rw [← List.take_append_drop (value.length + 1) bytes, htake, cstr, List.append_assoc]
  refine takeWhile_append_stop (fun b hb ↦ ?_) fun b hb ↦ ?_
  · exact bne_iff_ne.mpr fun h ↦ hvalue (h ▸ hb)
  · cases hb
    rfl

theorem string_update (auth : DigestBuffers) (field other : AuthField)
    (bytes : Vector UInt8 field.size) :
    (auth.update field bytes).string other =
      if other = field then cstr bytes.toList else auth.string other := by
  show cstr (Function.update auth.array field bytes other).toList = _
  by_cases hother : other = field
  · subst hother
    rw [if_pos rfl, Function.update_self]
  · rw [if_neg hother, Function.update_of_ne hother]
    rfl

theorem info_update {auth : DigestBuffers} {field : AuthField} {bytes : Vector UInt8 field.size}
    {value : Bytes} (hstring : cstr bytes.toList = value) :
    (auth.update field bytes).info = auth.info.set field value := by
  refine DigestAuthInfo.ext_get fun other ↦ ?_
  rw [DigestBuffers.get_info, DigestAuthInfo.get_set, DigestBuffers.get_info, string_update,
    hstring]

theorem lower_tag_ne_zero (field : AuthField) : ∀ t ∈ field.tag, lower t ≠ 0 := by
  cases field <;> decide

/-- The result is that of `storeDirective`. -/
theorem storeDirectiveAt_at {front' value rest : Bytes} {v : ℕ} (auth : DigestBuffers)
    (hcut : CutAt header i front text) (hvalue : CutAt header v front' (value ++ rest))
    (hnul : (0 : UInt8) ∉ value) :
    (storeDirectiveAt header i v value.length auth authFields).map DigestBuffers.info =
      orRejected (storeDirective text (value ++ rest) value.length auth.info) := by
  unfold storeDirective
  induction authFields with
  | nil =>
    rw [storeDirectiveAt, sameTagAt_at (by decide) hcut, ok_bind, List.find?_nil]
    dsimp only
    show Except.map _ (if sameFirstNoCase 10 text (ascii "algorithm=") = true then _ else _) = _
    rw [sameTagAt_at (by decide) hvalue, ok_bind]
    show Except.map _ (if _ then orReject (sameFirstNoCase 3 (value ++ rest) (ascii "md5")) >>= _
      else _) = _
    split_ifs with halgorithm hmd5
    · rw [hmd5]
      rfl
    · rw [Bool.eq_false_iff.mpr hmd5]
      rfl
    · rfl
  | cons field fields ih =>
    rw [storeDirectiveAt, sameTagAt_at (lower_tag_ne_zero field) hcut, ok_bind, List.find?_cons]
    cases hsame : sameFirstNoCase field.tag.length text field.tag with
    | false => exact ih
    | true =>
      rw [if_pos rfl]
      dsimp only
      by_cases hsize : field.size ≤ value.length
      · rw [if_pos hsize, decide_eq_false (Nat.not_lt.mpr hsize)]
        rfl
      · rw [if_neg hsize, decide_eq_true (Nat.not_le.mp hsize), List.take_left]
        have hfits : 0 + value.length < field.size := by omega
        obtain ⟨bytes, hcopy, htake⟩ := @copyValue_at _ _ _ _ _ _ _ (auth.array field) hvalue hfits
        have hstring : cstr bytes.toList = value := by
          refine cstr_of_take hnul ?_
          simpa using htake
        show Except.map _ (copyValue header value.length v 0 (auth.array field) >>=
          fun bytes ↦ .ok (auth.update field bytes)) = _
        rw [hcopy]
        exact congrArg Except.ok (info_update hstring)

/-- The value of a directive is found where `directiveValue` finds it. -/
theorem directiveValueAt_at {b : UInt8} (hcut : CutAt header i front (b :: text))
    (hnul : (0 : UInt8) ∉ b :: text) :
    directiveValueAt header i = .error .rejected ∧ directiveValue (b :: text) = none ∨
    ∃ start front' value rest, CutAt header start front' (value ++ rest) ∧
      (value ++ rest) <:+ (b :: text) ∧ directiveValueAt header i = .ok (start, value.length) ∧
      directiveValue (b :: text) = some (value ++ rest, value.length) := by
  rw [directiveValueAt, charAt_at hcut, ok_bind, directiveValue, List.headD_cons, List.head?_cons]
  by_cases hquote : b = 34
  · rw [if_pos hquote, if_pos (congrArg some hquote)]
    have hnul' := List.not_mem_of_not_mem_cons hnul
    obtain ⟨value, rest, rfl, htake, -, hscan⟩ := @scanWhile_at _ _ _ _
      (fun b ↦ b != 34 && b != 0) (· != 34) hcut.next hnul' rfl (fun b hb ↦ by simp [hb])
    rw [hscan, ok_bind, charAt_at hcut.next.move, ok_bind, List.tail_cons]
    dsimp only
    rw [htake, Nat.add_sub_cancel_left]
    cases rest with
    | nil =>
      rw [if_pos (by rw [List.append_nil])]
      exact .inl ⟨rfl, rfl⟩
    | cons c rest =>
      have hc : c ≠ 0 := fun h ↦ hnul' (h ▸ List.mem_append_right _ List.mem_cons_self)
      rw [if_neg (by rw [List.length_append, List.length_cons]; omega), List.headD_cons,
        bne_iff_ne.mpr hc]
      exact .inr ⟨_, _, value, c :: rest, hcut.next, List.suffix_cons .., rfl, rfl⟩
  · rw [if_neg hquote, if_neg fun h ↦ hquote (Option.some.inj h)]
    obtain ⟨value, rest, heq, htake, -, hscan⟩ := @scanWhile_at _ _ _ _
      (fun b ↦ b != 44 && b != 32 && b != 0) (fun b ↦ b != 44 && b != 32) hcut hnul rfl
      (fun b hb ↦ by simp [hb])
    rw [hscan, ok_bind, htake, Nat.add_sub_cancel_left, heq]
    exact .inr ⟨_, _, value, rest, heq ▸ hcut, List.suffix_rfl, rfl, rfl⟩

/-- The loop stays inside the header and the arrays, and its result is that of
`parseDirectives`. -/
theorem parseDirectivesAt_at {fuel : ℕ} (auth : DigestBuffers) (hcut : CutAt header i front text)
    (hnul : (0 : UInt8) ∉ text) (hfuel : text.length < fuel) :
    (parseDirectivesAt header fuel i auth).map DigestBuffers.info =
      orRejected (parseDirectives fuel text auth.info) := by
  induction fuel generalizing i front text auth with
  | zero => omega
  | succ fuel ih =>
    rw [parseDirectivesAt, parseDirectives, charAt_at hcut, ok_bind]
    by_cases hempty : text = []
    · rw [if_pos hempty, hempty]
      rfl
    rw [if_neg hempty, if_neg (headD_ne_zero hempty hnul)]
    obtain ⟨name, rest, rfl, -, hdrop, hscan⟩ := @scanWhile_at _ _ _ _
      (fun b ↦ b != 61 && b != 0) (· != 61) hcut hnul rfl (fun b hb ↦ by simp [hb])
    have hrest : (0 : UInt8) ∉ rest := fun h ↦ hnul (List.mem_append_right name h)
    rw [hdrop, hscan, ok_bind, charAt_at hcut.move, ok_bind]
    have hequals := hcut.move
    cases rest with
    | nil => rfl
    | cons e rest =>
      rw [bne_iff_ne.mpr (headD_ne_zero (List.cons_ne_nil _ _) hrest), orReject_true, ok_bind,
        charAt_at hequals.next, ok_bind]
      cases rest with
      | nil => rfl
      | cons b v =>
        have hv := List.not_mem_of_not_mem_cons hrest
        rw [bne_iff_ne.mpr (headD_ne_zero (List.cons_ne_nil _ _) hv), orReject_true, ok_bind]
        rcases directiveValueAt_at hequals.next hv with
          ⟨hat, hlist⟩ | ⟨start, front', value, more, hvalue, hsuffix, hat, hlist⟩
        · rw [hat]
          dsimp only
          rw [hlist]
          rfl
        · have hplain (c : UInt8) (hc : c ∈ value ++ more) : c ≠ 0 :=
            fun h ↦ hv (hsuffix.mem (h ▸ hc))
          have hstore := storeDirectiveAt_at auth hcut hvalue
            (fun h ↦ hplain 0 (List.mem_append_left _ h) rfl)
          rw [hat, ok_bind]
          dsimp only
          rw [hlist, Option.bind_eq_bind, Option.bind_some]
          dsimp only
          cases hdirective : storeDirective (name ++ e :: b :: v) (value ++ more) value.length
              auth.info with
          | none =>
            rw [hdirective] at hstore
            rw [map_eq_error_iff.mp hstore]
            rfl
          | some info =>
            rw [hdirective] at hstore
            obtain ⟨auth', hat', rfl⟩ := map_eq_ok_iff.mp hstore
            have hmore : (0 : UInt8) ∉ more := fun h ↦ hplain 0 (List.mem_append_right _ h) rfl
            obtain ⟨skipped, rest, rfl, -, hrest, hskip⟩ := @scanWhile_at _ _ _ _
              (fun b ↦ b == 34 || b == 44 || b == 32) _ hvalue.move hmore rfl (fun _ _ ↦ rfl)
            have hlength := hsuffix.length_le
            rw [List.length_append, List.length_append] at hlength
            rw [List.length_append, List.length_cons] at hfuel
            rw [hat', ok_bind, hskip, ok_bind, Option.bind_eq_bind, Option.bind_some,
              List.drop_left, hrest]
            exact ih auth' hvalue.move.move (fun h ↦ hmore (List.mem_append_right _ h)) (by omega)

theorem length_of_sameFirstNoCase {tag text : Bytes}
    (hsame : sameFirstNoCase tag.length text tag = true) : tag.length ≤ text.length := by
  have hlength := congrArg List.length (beq_iff_eq.mp hsame)
  simp only [List.length_map, List.length_take, Nat.min_self] at hlength
  omega

/-- `parse_auth_header` stays inside the header and the arrays. -/
theorem parseAuthHeaderAt_eq (auth : DigestBuffers) (hnul : (0 : UInt8) ∉ header) :
    (parseAuthHeaderAt header auth).map DigestBuffers.info =
      if sameFirstNoCase 7 header (ascii "digest ") then
        orRejected (parseDirectives (header.length + 1) (header.drop 7) auth.info)
      else .error .rejected := by
  rw [parseAuthHeaderAt, sameTagAt_at (by decide) (.start header), ok_bind]
  show Except.map _ (orReject (sameFirstNoCase 7 header (ascii "digest ")) >>= _) = _
  split_ifs with hdigest
  · have hlength : 7 ≤ header.length := @length_of_sameFirstNoCase (ascii "digest ") _ hdigest
    rw [hdigest, orReject_true, ok_bind]
    exact parseDirectivesAt_at auth
      ⟨(List.take_append_drop 7 header).symm, List.length_take_of_le hlength⟩
      (fun h ↦ hnul (List.mem_of_mem_drop h)) (by rw [List.length_drop]; omega)
  · rw [Bool.eq_false_iff.mpr hdigest]
    rfl

end Header

/-! ### Lists of directives -/

def AuthField.name : AuthField → Bytes
  | .realm => ascii "realm"
  | .uri => ascii "uri"
  | .nonce => ascii "nonce"
  | .opaqueData => ascii "opaque"
  | .username => ascii "username"
  | .response => ascii "response"

theorem AuthField.tag_eq (field : AuthField) : field.tag = field.name ++ [61] := by
  cases field <;> rfl

/-- A directive `name=value`. A quoted value has no quote in it; one without quotes is not empty,
has no comma and no space in it and does not begin with a quote. -/
structure Directive where
  name : Bytes
  value : Bytes
  quoted : Bool
  name_plain : ∀ b ∈ name, b ≠ 61
  name_start : ∀ b, name.head? = some b → b ≠ 34 ∧ b ≠ 44 ∧ b ≠ 32
  quoted_plain : quoted = true → ∀ b ∈ value, b ≠ 34
  unquoted_plain : quoted = false →
    value ≠ [] ∧ value.head? ≠ some 34 ∧ ∀ b ∈ value, b ≠ 44 ∧ b ≠ 32

namespace Directive

def valueText (d : Directive) : Bytes := if d.quoted then 34 :: (d.value ++ [34]) else d.value

def text (d : Directive) : Bytes := d.name ++ 61 :: d.valueText

/-- The field that a directive is for. Letter case does not matter. -/
def field (d : Directive) : Option AuthField :=
  authFields.find? fun field ↦ sameNoCase d.name field.name

def IsAlgorithm (d : Directive) : Prop := sameNoCase d.name (ascii "algorithm") = true

/-- A value for one of the fields is too long for its array. -/
def TooLong (d : Directive) : Prop := ∃ field, d.field = some field ∧ field.size ≤ d.value.length

/-- A value for one of the fields fits its array, and an algorithm begins with MD5. -/
structure Fits (d : Directive) : Prop where
  short : ∀ field, d.field = some field → d.value.length < field.size
  algorithm : d.IsAlgorithm → sameFirstNoCase 3 d.value (ascii "md5") = true

end Directive

/-- A byte that may stand between directives. -/
def IsSeparator (b : UInt8) : Prop := b = 44 ∨ b = 32

/-- The text of some directives, with commas and spaces between them. There may also be some after
the last one. -/
inductive DirectiveList : Bytes → List Directive → Prop
  | nil : DirectiveList [] []
  | cons (d : Directive) {separators rest : Bytes} {directives : List Directive}
      (hseparators : ∀ b ∈ separators, IsSeparator b) (hbetween : directives ≠ [] → separators ≠ [])
      (hrest : DirectiveList rest directives) :
      DirectiveList (d.text ++ (separators ++ rest)) (d :: directives)

/-- The last value that is given for a field. -/
def lastValue (field : AuthField) (directives : List Directive) : Option Bytes :=
  (directives.filter fun d ↦ d.field = some field).getLast?.map Directive.value

theorem lower_ne_equals {b : UInt8} (hb : b ≠ 61) : lower b ≠ 61 := by
  rw [lower]
  split_ifs with hupper
  · intro h
    have hb : b = 29 := by rw [← UInt8.add_sub_cancel b 32, h]; rfl
    rw [hb] at hupper
    exact absurd hupper (by decide)
  · exact hb

/-- Comparing a name with its equals sign is comparing the names. -/
theorem sameFirstNoCase_tag {name tag : Bytes} (rest : Bytes) (hname : ∀ b ∈ name, b ≠ 61)
    (htag : ∀ b ∈ tag, b ≠ 61) :
    sameFirstNoCase (tag ++ [61]).length (name ++ 61 :: rest) (tag ++ [61]) =
      sameNoCase name tag := by
  induction tag generalizing name with
  | nil =>
    cases name with
    | nil => rfl
    | cons b name =>
      have hb : (lower b == lower 61) = false :=
        beq_eq_false_iff_ne.mpr (lower_ne_equals (List.forall_mem_cons.mp hname).1)
      show (lower b == lower 61 && _) = _
      rw [hb]
      rfl
  | cons t tag ih =>
    obtain ⟨ht, htag⟩ := List.forall_mem_cons.mp htag
    cases name with
    | nil =>
      have ht : (lower 61 == lower t) = false :=
        beq_eq_false_iff_ne.mpr (Ne.symm (lower_ne_equals ht))
      show (lower 61 == lower t && _) = _
      rw [ht]
      rfl
    | cons b name =>
      show (lower b == lower t && sameFirstNoCase (tag ++ [61]).length (name ++ 61 :: rest)
        (tag ++ [61])) = (lower b == lower t && sameNoCase name tag)
      rw [ih (List.forall_mem_cons.mp hname).2 htag]

/-- The value is found as it was written, whatever comes after the directive. -/
theorem Directive.directiveValue_valueText (d : Directive) {back : Bytes}
    (hback : ∀ b, back.head? = some b → IsSeparator b) :
    ∃ b v more, d.valueText ++ back = b :: v ∧
      directiveValue (b :: v) = some (d.value ++ more, d.value.length) ∧
      (more = back ∨ more = 34 :: back) := by
  unfold valueText
  cases hquoted : d.quoted with
  | true =>
    have htake : (d.value ++ 34 :: back).takeWhile (· != 34) = d.value := by
      refine takeWhile_append_stop (fun b hb ↦ ?_) fun b hb ↦ ?_
      · exact bne_iff_ne.mpr (d.quoted_plain hquoted b hb)
      · cases hb
        rfl
    refine ⟨34, d.value ++ 34 :: back, 34 :: back, ?_, ?_, .inr rfl⟩
    · rw [if_pos rfl, List.cons_append, List.append_assoc]
      rfl
    · have hclosed : d.value.length ≠ (d.value ++ 34 :: back).length := by
        rw [List.length_append, List.length_cons]
        omega
      rw [directiveValue, if_pos List.head?_cons]
      dsimp only
      rw [List.tail_cons, htake, if_neg hclosed]
  | false =>
    obtain ⟨hne, hstart, hplain⟩ := d.unquoted_plain hquoted
    obtain ⟨b, v, hvalue⟩ := List.exists_cons_of_ne_nil hne
    have htake : (d.value ++ back).takeWhile (fun b ↦ b != 44 && b != 32) = d.value := by
      refine takeWhile_append_stop (fun b hb ↦ ?_) fun b hb ↦ ?_
      · obtain ⟨hcomma, hspace⟩ := hplain b hb
        rw [bne_iff_ne.mpr hcomma, bne_iff_ne.mpr hspace, Bool.and_true]
      · rcases hback b hb with rfl | rfl <;> rfl
    have hsame : d.value ++ back = b :: (v ++ back) := by rw [hvalue, List.cons_append]
    refine ⟨b, v ++ back, back, ?_, ?_, .inl rfl⟩
    · rw [if_neg Bool.false_ne_true, hsame]
    · have hstart : (b :: (v ++ back)).head? ≠ some 34 := by
        rw [hvalue] at hstart
        exact hstart
      rw [directiveValue, if_neg hstart, ← hsame, htake]

/-- What a directive does. -/
def Directive.store (d : Directive) (more : Bytes) (auth : DigestAuthInfo) :
    Option DigestAuthInfo :=
  match d.field with
  | some field => if field.size ≤ d.value.length then none else some (auth.set field d.value)
  | none =>
    if sameNoCase d.name (ascii "algorithm") then
      if sameFirstNoCase 3 (d.value ++ more) (ascii "md5") then some auth else none
    else some auth

theorem Directive.storeDirective_text (d : Directive) (back more : Bytes) (auth : DigestAuthInfo) :
    storeDirective (d.text ++ back) (d.value ++ more) d.value.length auth = d.store more auth := by
  have hsplit : d.text ++ back = d.name ++ 61 :: (d.valueText ++ back) := by
    rw [text, List.append_assoc, List.cons_append]
  have hfield : authFields.find? (fun field ↦ sameFirstNoCase field.tag.length (d.text ++ back)
      field.tag) = d.field := by
    unfold Directive.field
    congr 1
    funext field
    rw [hsplit, AuthField.tag_eq, sameFirstNoCase_tag _ d.name_plain]
    cases field <;> decide
  have halgorithm : sameFirstNoCase 10 (d.text ++ back) (ascii "algorithm=") =
      sameNoCase d.name (ascii "algorithm") := by
    have htag : ∀ b ∈ ascii "algorithm", b ≠ 61 := by decide
    rw [hsplit]
    exact sameFirstNoCase_tag _ d.name_plain htag
  rw [storeDirective, hfield, halgorithm, List.take_left]
  rfl

/-- The first byte of a directive is not one that is skipped after the directive before it. -/
theorem Directive.head_text (d : Directive) {back : Bytes} {b : UInt8}
    (hb : (d.text ++ back).head? = some b) : b ≠ 34 ∧ b ≠ 44 ∧ b ≠ 32 := by
  have hstart := d.name_start
  unfold text at hb
  cases hname : d.name with
  | nil =>
    rw [hname] at hb
    cases hb
    decide
  | cons c name =>
    rw [hname] at hb hstart
    exact hstart b hb

/-- One round of the loop takes one directive and the separators after it. -/
theorem parseDirectives_directive (fuel : ℕ) (auth : DigestAuthInfo) (d : Directive)
    {separators rest : Bytes} (hseparators : ∀ b ∈ separators, IsSeparator b)
    (hbetween : rest ≠ [] → separators ≠ [])
    (hrest : ∀ b, rest.head? = some b → b ≠ 34 ∧ b ≠ 44 ∧ b ≠ 32) :
    ∃ more, parseDirectives (fuel + 1) (d.text ++ (separators ++ rest)) auth =
      (d.store more auth).bind (parseDirectives fuel rest) := by
  have hback : ∀ b, (separators ++ rest).head? = some b → IsSeparator b := by
    intro b hb
    cases separators with
    | nil =>
      cases rest with
      | nil => cases hb
      | cons c rest => exact absurd rfl (hbetween (List.cons_ne_nil c rest))
    | cons c separators =>
      cases hb
      exact hseparators b List.mem_cons_self
  obtain ⟨b, v, more, hvalue, hfound, hmore⟩ := d.directiveValue_valueText hback
  have hdrop : (d.text ++ (separators ++ rest)).dropWhile (· != 61) = 61 :: b :: v := by
    rw [Directive.text, List.append_assoc, List.cons_append, hvalue, List.dropWhile_append_of_pos]
    · rfl
    · exact fun b hb ↦ bne_iff_ne.mpr (d.name_plain b hb)
  have hskip : more.dropWhile (fun b ↦ b == 34 || b == 44 || b == 32) = rest := by
    have hseparated : (separators ++ rest).dropWhile (fun b ↦ b == 34 || b == 44 || b == 32) =
        rest := by
      rw [List.dropWhile_append_of_pos]
      · cases rest with
        | nil => rfl
        | cons c rest =>
          obtain ⟨hquote, hcomma, hspace⟩ := hrest c rfl
          rw [List.dropWhile_cons_of_neg]
          simp [hquote, hcomma, hspace]
      · intro b hb
        rcases hseparators b hb with rfl | rfl <;> rfl
    rcases hmore with rfl | rfl
    · exact hseparated
    · rw [List.dropWhile_cons_of_pos (by rfl)]
      exact hseparated
  refine ⟨more, ?_⟩
  have hne : d.text ++ (separators ++ rest) ≠ [] := by
    intro hnil
    rw [hnil] at hdrop
    cases hdrop
  rw [parseDirectives, if_neg hne, hdrop]
  dsimp only
  rw [hfound, Option.bind_eq_bind, Option.bind_some]
  dsimp only
  rw [d.storeDirective_text, List.drop_left, hskip]
  rfl

def storeValues (directives : List Directive) (auth : DigestAuthInfo) : DigestAuthInfo :=
  directives.foldl (fun auth d ↦ d.field.elim auth fun field ↦ auth.set field d.value) auth

theorem get_storeValues (field : AuthField) (directives : List Directive) (auth : DigestAuthInfo) :
    (storeValues directives auth).get field =
      (lastValue field directives).getD (auth.get field) := by
  induction directives using List.reverseRecOn with
  | nil => rfl
  | append_singleton directives d ih =>
    have hlast : (storeValues (directives ++ [d]) auth) =
        d.field.elim (storeValues directives auth)
          fun field ↦ (storeValues directives auth).set field d.value := by
      rw [storeValues, List.foldl_append]
      rfl
    rw [hlast, lastValue, List.filter_append]
    by_cases hfield : d.field = some field
    · simp [hfield, DigestAuthInfo.get_set]
    · have hsame : (d.field.elim (storeValues directives auth)
          fun field ↦ (storeValues directives auth).set field d.value).get field =
            (storeValues directives auth).get field := by
        cases hother : d.field with
        | none => rfl
        | some other =>
          have hne : field ≠ other := fun h ↦ hfield (h ▸ hother)
          rw [Option.elim_some, DigestAuthInfo.get_set, if_neg hne]
      rw [hsame, ih, lastValue]
      simp [hfield]

theorem Directive.Fits.store_eq {d : Directive} (hfits : d.Fits) (more : Bytes)
    (auth : DigestAuthInfo) : d.store more auth = some (storeValues [d] auth) := by
  rw [store]
  show _ = some (d.field.elim auth fun field ↦ auth.set field d.value)
  cases hfield : d.field with
  | some field =>
    have hshort := hfits.short field hfield
    exact if_neg (Nat.not_le.mpr hshort)
  | none =>
    dsimp only
    split_ifs with halgorithm hmd5
    · rfl
    · have hvalue := hfits.algorithm halgorithm
      have hlength : 3 ≤ d.value.length := @length_of_sameFirstNoCase (ascii "md5") _ hvalue
      rw [sameFirstNoCase, ← List.take_append_of_le_length hlength] at hvalue
      exact absurd hvalue hmd5
    · rfl

theorem Directive.TooLong.store_eq {d : Directive} (hlong : d.TooLong) (more : Bytes)
    (auth : DigestAuthInfo) : d.store more auth = none := by
  obtain ⟨field, hfield, hsize⟩ := hlong
  rw [store, hfield]
  exact if_pos hsize

variable {text : Bytes} {directives : List Directive}

theorem DirectiveList.head_text (hlist : DirectiveList text directives) :
    ∀ b, text.head? = some b → b ≠ 34 ∧ b ≠ 44 ∧ b ≠ 32 := by
  cases hlist with
  | nil => exact fun b hb ↦ by cases hb
  | cons d => exact fun b hb ↦ d.head_text hb

theorem DirectiveList.text_ne_nil (hlist : DirectiveList text directives) (hne : text ≠ []) :
    directives ≠ [] := by
  cases hlist with
  | nil => exact absurd rfl hne
  | cons d => exact List.cons_ne_nil _ _

/-- The directives are stored one after another. -/
theorem DirectiveList.parseDirectives_fits (hlist : DirectiveList text directives) {fuel : ℕ}
    {auth : DigestAuthInfo} (hfuel : directives.length < fuel) (hfits : ∀ d ∈ directives, d.Fits) :
    parseDirectives fuel text auth = some (storeValues directives auth) := by
  induction hlist generalizing fuel auth with
  | nil =>
    obtain ⟨fuel, rfl⟩ := Nat.exists_eq_add_one_of_ne_zero hfuel.ne'
    rfl
  | cons d hseparators hbetween hrest ih =>
    obtain ⟨hd, hfits⟩ := List.forall_mem_cons.mp hfits
    obtain ⟨fuel, rfl⟩ := Nat.exists_eq_add_one_of_ne_zero (Nat.ne_zero_of_lt hfuel)
    obtain ⟨more, hround⟩ := parseDirectives_directive fuel auth d hseparators
      (fun hne ↦ hbetween (hrest.text_ne_nil hne)) hrest.head_text
    rw [hround, hd.store_eq, Option.bind_some]
    exact ih (Nat.lt_of_succ_lt_succ hfuel) hfits

/-- A value that is too long ends the loop, if it has not been ended before. -/
theorem DirectiveList.parseDirectives_tooLong (hlist : DirectiveList text directives) {fuel : ℕ}
    {auth : DigestAuthInfo} (hlong : ∃ d ∈ directives, d.TooLong) :
    parseDirectives fuel text auth = none := by
  induction hlist generalizing fuel auth with
  | nil =>
    obtain ⟨d, hd, -⟩ := hlong
    cases hd
  | cons d hseparators hbetween hrest ih =>
    cases fuel with
    | zero => rfl
    | succ fuel =>
      obtain ⟨more, hround⟩ := parseDirectives_directive fuel auth d hseparators
        (fun hne ↦ hbetween (hrest.text_ne_nil hne)) hrest.head_text
      rw [hround]
      obtain ⟨d', hd', hlong⟩ := hlong
      rcases List.mem_cons.mp hd' with rfl | hd'
      · rw [hlong.store_eq]
        rfl
      · cases hstore : d.store more auth with
        | none => rfl
        | some auth => exact ih ⟨d', hd', hlong⟩

theorem DirectiveList.length_le (hlist : DirectiveList text directives) :
    directives.length ≤ text.length := by
  induction hlist with
  | nil => exact Nat.le_refl _
  | cons d _ _ _ ih =>
    simp only [Directive.text, List.length_append, List.length_cons]
    omega

/-- `parse_auth_header` never reads behind the end of the header or writes behind the end of an
array. On `digest` in any letter case and a list of directives that fit, it returns 0, and every
array holds the last value that was given for it, or what it held before. If a value is too long, it
returns -1. -/
theorem parse_auth_header_directives {header : Bytes} (hnul : (0 : UInt8) ∉ header)
    (auth : DigestBuffers) :
    ((∃ auth', parseAuthHeaderAt header auth = .ok auth') ∨
      parseAuthHeaderAt header auth = .error .rejected) ∧
    ∀ digest text directives, header = digest ++ text →
      sameNoCase digest (ascii "digest ") = true → DirectiveList text directives →
      ((∀ d ∈ directives, d.Fits) → ∃ auth', parseAuthHeaderAt header auth = .ok auth' ∧
        ∀ field, auth'.string field = (lastValue field directives).getD (auth.string field)) ∧
      ((∃ d ∈ directives, d.TooLong) → parseAuthHeaderAt header auth = .error .rejected) := by
  have hparse := parseAuthHeaderAt_eq auth hnul
  refine ⟨?_, ?_⟩
  · cases hresult : parseAuthHeaderAt header auth with
    | ok auth' => exact .inl ⟨auth', rfl⟩
    | error stop =>
      rw [hresult] at hparse
      refine .inr (congrArg Except.error ?_)
      split_ifs at hparse with hdigest
      · cases hdirectives : parseDirectives (header.length + 1) (header.drop 7) auth.info with
        | none =>
          rw [hdirectives] at hparse
          exact Except.error.inj hparse
        | some info =>
          rw [hdirectives] at hparse
          cases hparse
      · exact Except.error.inj hparse
  · rintro digest text directives rfl hdigest hlist
    have hlength : digest.length = 7 := by
      have hsame := congrArg List.length (beq_iff_eq.mp hdigest)
      rwa [List.length_map, List.length_map] at hsame
    have hbegins : sameFirstNoCase 7 (digest ++ text) (ascii "digest ") = true := by
      rw [sameFirstNoCase, List.take_left' hlength]
      exact hdigest
    rw [if_pos hbegins, ← hlength, List.drop_left] at hparse
    refine ⟨fun hfits ↦ ?_, fun hlong ↦ ?_⟩
    · have hfuel : directives.length < (digest ++ text).length + 1 := by
        have := hlist.length_le
        rw [List.length_append]
        omega
      rw [hlist.parseDirectives_fits hfuel hfits] at hparse
      obtain ⟨auth', hresult, hinfo⟩ := map_eq_ok_iff.mp hparse
      refine ⟨auth', hresult, fun field ↦ ?_⟩
      rw [← DigestBuffers.get_info, hinfo, get_storeValues, DigestBuffers.get_info]
    · rw [hlist.parseDirectives_tooLong hlong] at hparse
      exact map_eq_error_iff.mp hparse

theorem Directive.fits_of_field {d : Directive} {field : AuthField} (hfield : d.field = some field)
    (hshort : d.value.length < field.size) (hname : ¬d.IsAlgorithm) : d.Fits := by
  refine ⟨fun other hother ↦ ?_, fun halgorithm ↦ absurd halgorithm hname⟩
  rw [hfield] at hother
  cases hother
  exact hshort

/-- A quoted value that looks like two directives, and a realm in another letter case. -/
theorem parse_auth_header_quoted :
    (0 : UInt8) ∉ ascii "DIGEST username=\"a, realm=b\", Realm=cam" ∧
    ∃ auth', parseAuthHeaderAt (ascii "DIGEST username=\"a, realm=b\", Realm=cam")
        ⟨fun field ↦ .replicate field.size 0⟩ = .ok auth' ∧
      auth'.string .username = ascii "a, realm=b" ∧ auth'.string .realm = ascii "cam" := by
  have hnul : (0 : UInt8) ∉ ascii "DIGEST username=\"a, realm=b\", Realm=cam" := by decide
  let username : Directive := ⟨ascii "username", ascii "a, realm=b", true, by decide,
    by simp [ascii], fun _ ↦ by decide, fun h ↦ absurd h Bool.noConfusion⟩
  let realm : Directive := ⟨ascii "Realm", ascii "cam", false, by decide, by simp [ascii],
    fun h ↦ absurd h Bool.noConfusion, fun _ ↦ ⟨by decide, by decide, by decide⟩⟩
  have hlist : DirectiveList (ascii "username=\"a, realm=b\", Realm=cam") [username, realm] := by
    have hcomma : ∀ b ∈ ascii ", ", IsSeparator b := by simp [ascii, IsSeparator]
    have hnone : ∀ b ∈ ([] : Bytes), IsSeparator b := by simp
    exact .cons username hcomma (by decide) (.cons realm hnone (absurd rfl) .nil)
  have hfits : ∀ d ∈ [username, realm], d.Fits := by
    intro d hd
    rcases List.mem_cons.mp hd with rfl | hd
    · exact Directive.fits_of_field (show _ = some AuthField.username by decide) (by decide)
        (by unfold Directive.IsAlgorithm; decide)
    · rw [List.mem_singleton.mp hd]
      exact Directive.fits_of_field (show _ = some AuthField.realm by decide) (by decide)
        (by unfold Directive.IsAlgorithm; decide)
  obtain ⟨-, hdirectives⟩ := parse_auth_header_directives hnul ⟨fun field ↦ .replicate field.size 0⟩
  obtain ⟨auth', hparse, hstring⟩ :=
    (hdirectives (ascii "DIGEST ") _ _ rfl (by decide) hlist).1 hfits
  refine ⟨hnul, auth', hparse, ?_, ?_⟩
  · rw [hstring]
    decide
  · rw [hstring]
    decide

end WisCam.Auth
