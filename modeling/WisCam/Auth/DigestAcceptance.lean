import Mathlib.Data.Nat.Digits.Lemmas
import WisCam.Auth.Digest

/-!
# Which responses and which nonces are accepted

`CorrectResponse` says when `check_digest_response` gets as far as the nonce: the header names the
realm and the user, and its response is the hash of the user, realm, password, nonce, method and URI
that are checked. The URI that is checked is the header's own when it has one, and the password that
is checked is empty unless both a user and a password are configured.
`checkDigestResponse_eq_one_iff` is the resulting characterisation of acceptance.

The age of a nonce is read back from its text by `get_hex_u32`. Since that function adds the
character code of a decimal digit where its value is meant, the digit before it is overlaid with 3
(`overlaid`), and the time comes back as it was written exactly when every digit before a decimal
one already ends in two set bits (`TimeReadsBack`).
-/

set_option autoImplicit false

namespace WisCam.Auth

open Foundations Message List

/-! ### Acceptance -/

/-- The request carries an Authorization header that is correct but for its nonce. -/
structure CorrectResponse (md5 : Md5) (msg : Pmsg) (method uri realm username password : Bytes)
    (auth : DigestAuthInfo) : Prop where
  header : (getHeader msg (ascii "authorization")).bind parseAuthHeader = some auth
  realm_eq : auth.realm = realm
  username_eq : username ≠ [] → sameNoCase auth.username username
  uri_short : auth.uri = [] → uri.length < 512
  response_eq : sameNoCase auth.response
    (md5Hash md5
      [md5Hash md5 [auth.username, auth.realm,
          if username ≠ [] ∧ password ≠ [] then password else []],
        auth.nonce,
        md5Hash md5 [method, if auth.uri = [] then uri else auth.uri]])

/-- The nonce has 64 characters, its second half is the hash of its first half and the secret, and
the time in it is at most 15 seconds ago. -/
structure FreshNonce (md5 : Md5) (secret : Bytes) (now : ℕ) (nonce : Bytes) : Prop where
  length_eq : nonce.length = 64
  hash_eq : nonce.drop 32 = md5Hash md5 [nonce.take 32, secret]
  recent : now ≤ (getHexU32 (nonce.take 32) + 15) % 2 ^ 32

variable {md5 : Md5} {secret : Option Bytes} {now : ℕ} {msg : Pmsg}
variable {method uri realm username password : Bytes}

theorem checkNonce_eq_one_iff {nonce : Bytes} :
    checkNonce md5 secret now nonce = 1 ↔ ∃ s, secret = some s ∧ FreshNonce md5 s now nonce := by
  cases secret with
  | none => exact iff_of_false nofun nofun
  | some s =>
    unfold checkNonce
    dsimp only
    constructor
    · intro hone
      split_ifs at hone with hlength hhash hold
      · exact absurd hone nofun
      · exact absurd hone nofun
      · exact absurd hone nofun
      · exact ⟨s, rfl, not_not.mp hlength, not_not.mp hhash, Nat.not_lt.mp hold⟩
    · rintro ⟨s', hs, hlength, hhash, hrecent⟩
      obtain rfl := Option.some.inj hs
      rw [if_neg (not_not_intro hlength), if_neg (not_not_intro hhash),
        if_neg (Nat.not_lt.mpr hrecent)]

/-- The response that is expected depends on the password only where a user and a password are
configured. -/
theorem expected_eq (auth : DigestAuthInfo) :
    (if 0 < username.length ∧ 0 < password.length then createResponse md5 auth method password
      else createResponse md5 auth method []) =
      md5Hash md5
        [md5Hash md5 [auth.username, auth.realm,
            if username ≠ [] ∧ password ≠ [] then password else []],
          auth.nonce, md5Hash md5 [method, auth.uri]] := by
  simp only [length_pos_iff]
  split_ifs <;> rfl

/-- A correct response leaves only the nonce to be checked. -/
theorem CorrectResponse.check_eq {auth : DigestAuthInfo}
    (hcorrect : CorrectResponse md5 msg method uri realm username password auth) :
    checkDigestResponse md5 secret now msg method uri realm username password =
      checkNonce md5 secret now auth.nonce := by
  obtain ⟨hread, rfl, husername, huri, hresponse⟩ := hcorrect
  obtain ⟨hdr, hheader, hparse⟩ := Option.bind_eq_some_iff.mp hread
  have hname : ¬ (0 < username.length ∧ ¬ sameNoCase auth.username username) := by
    rintro ⟨hpos, hdiffers⟩
    exact hdiffers (husername (length_pos_iff.mp hpos))
  have hshort : ¬ (auth.uri = [] ∧ 512 ≤ uri.length) := by
    rintro ⟨hnone, hlong⟩
    exact absurd (huri hnone) (Nat.not_lt.mpr hlong)
  unfold checkDigestResponse
  simp only [hheader, hparse, expected_eq]
  rw [if_neg (not_not_intro rfl), if_neg hname, if_neg hshort]
  by_cases hnone : auth.uri = []
  · rw [if_pos hnone] at hresponse ⊢
    dsimp only
    rw [if_neg (not_not_intro hresponse)]
  · rw [if_neg hnone] at hresponse ⊢
    rw [if_neg (not_not_intro hresponse)]

/-- Without a correct response the request is refused. -/
theorem exists_correctResponse
    (haccepted : checkDigestResponse md5 secret now msg method uri realm username password ≠ -1) :
    ∃ auth, CorrectResponse md5 msg method uri realm username password auth := by
  unfold checkDigestResponse at haccepted
  cases hheader : getHeader msg (ascii "authorization") with
  | none =>
    rw [hheader] at haccepted
    exact absurd rfl haccepted
  | some hdr =>
    rw [hheader] at haccepted
    cases hparse : parseAuthHeader hdr with
    | none =>
      simp only [hparse] at haccepted
      exact absurd rfl haccepted
    | some auth =>
      simp only [hparse, expected_eq] at haccepted
      have hread : (getHeader msg (ascii "authorization")).bind parseAuthHeader = some auth :=
        Option.bind_eq_some_iff.mpr ⟨hdr, hheader, hparse⟩
      refine ⟨auth, hread, ?_, fun husername ↦ ?_, fun hnone ↦ ?_, ?_⟩
      · by_contra hrealm
        exact haccepted (if_pos hrealm)
      all_goals rw [if_neg (by intro h; exact haccepted (if_pos h))] at haccepted
      · by_contra hdiffers
        exact haccepted (if_pos ⟨length_pos_iff.mpr husername, hdiffers⟩)
      all_goals rw [if_neg (by intro h; exact haccepted (if_pos h))] at haccepted
      · by_contra hlong
        exact haccepted (if_pos ⟨hnone, Nat.not_lt.mp hlong⟩)
      rw [if_neg (by intro h; exact haccepted (if_pos h))] at haccepted
      by_contra hwrong
      refine haccepted (if_pos ?_)
      by_cases hnone : auth.uri = []
      · rw [if_pos hnone] at hwrong ⊢
        exact hwrong
      · rw [if_neg hnone] at hwrong ⊢
        exact hwrong

/-- `check_digest_response` returns 1 exactly when the header is correct for the configured realm
and for the user, the password and the URI that are checked, and its nonce is a fresh one of this
server. -/
theorem checkDigestResponse_eq_one_iff (md5 : Md5) (secret : Option Bytes) (now : ℕ) (msg : Pmsg)
    (method uri realm username password : Bytes) :
    checkDigestResponse md5 secret now msg method uri realm username password = 1 ↔
      ∃ auth s, CorrectResponse md5 msg method uri realm username password auth ∧
        secret = some s ∧ FreshNonce md5 s now auth.nonce := by
  constructor
  · intro hone
    have haccepted :
        checkDigestResponse md5 secret now msg method uri realm username password ≠ -1 := by
      rw [hone]
      decide
    obtain ⟨auth, hcorrect⟩ := exists_correctResponse haccepted
    rw [hcorrect.check_eq] at hone
    obtain ⟨s, hs, hfresh⟩ := checkNonce_eq_one_iff.mp hone
    exact ⟨auth, s, hcorrect, hs, hfresh⟩
  · rintro ⟨auth, s, hcorrect, hs, hfresh⟩
    rw [hcorrect.check_eq]
    exact checkNonce_eq_one_iff.mpr ⟨s, hs, hfresh⟩

/-! ### A sample server -/

/-- A checksum in the place of MD5, to run the check on concrete requests. -/
def checksumMd5 : Md5 where
  digest text :=
    let sum := put32 (text.foldl (fun acc b ↦ (acc * 33 + b.toNat) % 2 ^ 32) 5381)
    sum ++ sum ++ sum ++ sum
  length_digest _ := rfl

/-- The nonce that the sample server makes at time `t`. -/
def sampleNonce (t : ℕ) : Bytes := createNonce checksumMd5 (ascii "secret") t (List.replicate 12 0)

/-- A SETUP request for `uri` whose Authorization header says what `auth` does. -/
def sampleRequest (uri : Bytes) (auth : DigestAuthInfo) : Bytes :=
  ascii "SETUP " ++ uri ++ ascii " RTSP/1.0\r\nAuthorization: Digest username=\"" ++
    auth.username ++ ascii "\", realm=\"" ++ auth.realm ++ ascii "\", nonce=\"" ++ auth.nonce ++
    ascii "\", uri=\"" ++
    auth.uri ++ ascii "\", response=\"" ++ auth.response ++ ascii "\"\r\n\r\n"

/-- The header of a client that knows the password `password` of `admin` and signs `uri`. -/
def sampleAuth (t : ℕ) (uri password : Bytes) : DigestAuthInfo :=
  let auth : DigestAuthInfo := ⟨ascii "cam", uri, sampleNonce t, [], ascii "admin", []⟩
  { auth with response := createResponse checksumMd5 auth (ascii "SETUP") password }

/-- The parsed message, for a text that is one. -/
def sampleMessage (text : Bytes) : Pmsg :=
  match parsePmsg text with
  | .ok (m, _) => m
  | .error _ => newPmsg 0 (.req 0 0)

/-- A response for `/open` is accepted on a request for `/private`, where the response for that URI
is another one, and without a configured user a client is accepted whose response was made with
another name and without the configured password. -/
theorem checkDigestResponse_accepts_other :
    (let auth := sampleAuth 0 (ascii "/open") (ascii "pass");
      checkDigestResponse checksumMd5 (some (ascii "secret")) 0
          (sampleMessage (sampleRequest (ascii "/private") auth)) (ascii "SETUP")
          (ascii "/private") (ascii "cam") (ascii "admin") (ascii "pass") = 1 ∧
        ¬ sameNoCase auth.response (createResponse checksumMd5 { auth with uri := ascii "/private" }
          (ascii "SETUP") (ascii "pass"))) ∧
    (let auth := sampleAuth 0 (ascii "/private") [];
      checkDigestResponse checksumMd5 (some (ascii "secret")) 0
          (sampleMessage (sampleRequest (ascii "/private") auth)) (ascii "SETUP")
          (ascii "/private") (ascii "cam") [] (ascii "pass") = 1 ∧
        ¬ sameNoCase auth.username [] ∧
        ¬ sameNoCase auth.response (createResponse checksumMd5 auth (ascii "SETUP")
          (ascii "pass"))) := by
  decide +kernel

/-! ### Reading the time back -/

def timeDigits (t : ℕ) : List ℕ := (put32 t).flatMap fun b ↦ [b.toNat / 16, b.toNat % 16]

/-- The number that a list of hexadecimal digits stands for. -/
def hexValue (digits : List ℕ) : ℕ := Nat.ofDigits 16 digits.reverse

/-- Every digit before a decimal digit has its two low bits set. -/
def TimeReadsBack (t : ℕ) : Prop := (timeDigits t).IsChain fun a b ↦ b < 10 → a % 4 = 3

instance (t : ℕ) : Decidable (TimeReadsBack t) :=
  inferInstanceAs (Decidable (List.IsChain _ _))

/-- What the digit after it makes of a value that has been read: a decimal digit's character code
sets the two low bits. -/
def overlay (val digit : ℕ) : ℕ := if digit < 10 then val / 4 * 4 + 3 else val

/-- The digits as they come back. -/
def overlaid : List ℕ → List ℕ
  | [] => []
  | [digit] => [digit]
  | digit :: next :: digits => overlay digit next :: overlaid (next :: digits)

theorem or_three (val : ℕ) : val ||| 3 = val / 4 * 4 + 3 := by
  have hsplit : val = (val / 4) <<< 2 ||| val % 4 := by
    rw [← Nat.shiftLeft_add_eq_or_of_lt (by omega), Nat.shiftLeft_eq]
    omega
  have hlow : val % 4 ||| 3 = 3 := by
    have : val % 4 < 4 := Nat.mod_lt _ (by decide)
    interval_cases val % 4 <;> rfl
  calc val ||| 3 = (val / 4) <<< 2 ||| (val % 4 ||| 3) := by
        conv_lhs => rw [hsplit, Nat.or_assoc]
    _ = (val / 4) <<< 2 + 3 := by
        rw [hlow, Nat.shiftLeft_add_eq_or_of_lt (by decide)]
    _ = val / 4 * 4 + 3 := by rw [Nat.shiftLeft_eq]

variable {digit : ℕ}

theorem shift_or_letter (val : ℕ) (hdigit : digit < 16) :
    (val <<< 4) ||| digit = 16 * val + digit := by
  rw [← Nat.shiftLeft_add_eq_or_of_lt (by omega), Nat.shiftLeft_eq]
  omega

theorem shift_or_decimal (val : ℕ) (hdigit : digit < 10) :
    (val <<< 4) ||| (48 + digit) = 16 * (val / 4 * 4 + 3) + digit := by
  have hcode : 48 + digit = 3 <<< 4 ||| digit := by
    rw [shift_or_letter 3 (by omega)]
  rw [hcode, ← Nat.or_assoc, ← Nat.shiftLeft_or_distrib, or_three, shift_or_letter _ (by omega)]

/-- One round of `get_hex_u32` on a digit that `%02x` printed. -/
theorem getHexU32Loop_hexDigit {count val : ℕ} {hex : Bytes} (hdigit : digit < 16) :
    getHexU32Loop (count + 1) val (hexDigit digit :: hex) =
      getHexU32Loop count ((16 * overlay val digit + digit) % 2 ^ 32) hex := by
  unfold overlay
  by_cases hdecimal : digit < 10
  · have hbyte : (hexDigit digit).toNat = 48 + digit := by
      rw [hexDigit, if_pos hdecimal]
      exact Nat.mod_eq_of_lt (by omega)
    have hrange : 48 ≤ hexDigit digit ∧ hexDigit digit ≤ 57 := by
      rw [UInt8.le_iff_toNat_le, UInt8.le_iff_toNat_le, hbyte]
      exact ⟨Nat.le_add_right 48 digit, Nat.add_le_add_left (Nat.le_of_lt_succ hdecimal) 48⟩
    rw [getHexU32Loop, if_pos hrange, hbyte, Nat.sub_zero, shift_or_decimal val hdecimal,
      if_pos hdecimal]
  · have hbyte : (hexDigit digit).toNat = 87 + digit := by
      rw [hexDigit, if_neg hdecimal]
      exact Nat.mod_eq_of_lt (by omega)
    have hbounds (low high : UInt8) : (low ≤ hexDigit digit ∧ hexDigit digit ≤ high) ↔
        (low.toNat ≤ 87 + digit ∧ 87 + digit ≤ high.toNat) := by
      rw [UInt8.le_iff_toNat_le, UInt8.le_iff_toNat_le, hbyte]
    have habove (low high : UInt8) (hhigh : high.toNat < 87) :
        ¬ (low ≤ hexDigit digit ∧ hexDigit digit ≤ high) := by
      rw [hbounds]
      omega
    have hnotDecimal : ¬ (48 ≤ hexDigit digit ∧ hexDigit digit ≤ 57) := habove 48 57 (by decide)
    have hnotUpper : ¬ (65 ≤ hexDigit digit ∧ hexDigit digit ≤ 70) := habove 65 70 (by decide)
    have hlower : 97 ≤ hexDigit digit ∧ hexDigit digit ≤ 102 := by
      rw [hbounds]
      exact ⟨Nat.add_le_add_left (Nat.not_lt.mp hdecimal) 87,
        Nat.add_le_add_left (Nat.le_of_lt_succ hdigit) 87⟩
    have hvalue : 87 + digit - 97 + 10 = digit := by omega
    rw [getHexU32Loop, if_neg hnotDecimal, if_neg hnotUpper, if_pos hlower, hbyte, hvalue,
      shift_or_letter val hdigit, if_neg hdecimal]

theorem overlay_mod (val digit : ℕ) :
    (16 * overlay (val % 2 ^ 32) digit + digit) % 2 ^ 32 =
      (16 * overlay val digit + digit) % 2 ^ 32 := by
  unfold overlay
  split_ifs
  · omega
  · omega

theorem length_overlaid (digits : List ℕ) : (overlaid digits).length = digits.length := by
  induction digits using overlaid.induct with
  | case1 => rfl
  | case2 digit => rfl
  | case3 digit next digits ih =>
    rw [overlaid, length_cons, ih]
    rfl

theorem overlaid_lt {digits : List ℕ} (hdigits : ∀ d ∈ digits, d < 16) :
    ∀ d ∈ overlaid digits, d < 16 := by
  induction digits using overlaid.induct with
  | case1 => exact hdigits
  | case2 digit => exact hdigits
  | case3 digit next digits ih =>
    rw [overlaid]
    intro d hd
    rcases mem_cons.mp hd with rfl | hd
    · have hdigit := hdigits digit (by simp)
      unfold overlay
      split_ifs <;> omega
    · exact ih (fun d hd ↦ hdigits d (mem_cons_of_mem _ hd)) d hd

/-- Digits are overlaid without a change when those before a decimal digit end in two set bits. -/
theorem overlaid_eq_self_iff (digits : List ℕ) :
    overlaid digits = digits ↔ digits.IsChain fun a b ↦ b < 10 → a % 4 = 3 := by
  induction digits using overlaid.induct with
  | case1 => exact iff_of_true rfl .nil
  | case2 digit => exact iff_of_true rfl (.singleton digit)
  | case3 digit next digits ih =>
    rw [overlaid, List.cons.injEq, ih, isChain_cons_cons]
    refine and_congr_left fun _ ↦ ?_
    unfold overlay
    split_ifs with hdecimal
    · exact ⟨fun h _ ↦ by omega, fun h ↦ by have := h hdecimal; omega⟩
    · exact iff_of_true rfl fun h ↦ absurd h hdecimal

/-- Reading digits after a value: the value and all digits but the last are overlaid. -/
theorem getHexU32Loop_digits {digits : List ℕ} {val : ℕ} {hex : Bytes}
    (hdigits : ∀ d ∈ digit :: digits, d < 16) :
    getHexU32Loop (digits.length + 1) (val % 2 ^ 32) ((digit :: digits).map hexDigit ++ hex) =
      (16 ^ (digits.length + 1) * overlay val digit + hexValue (overlaid (digit :: digits))) %
        2 ^ 32 := by
  induction digits generalizing digit val with
  | nil =>
    rw [map_cons, cons_append, getHexU32Loop_hexDigit (hdigits digit (by simp)), overlay_mod]
    simp [getHexU32Loop, overlaid, hexValue]
  | cons next digits ih =>
    have hdigit := hdigits digit (by simp)
    have hcarry : overlay (16 * overlay val digit + digit) next =
        16 * overlay val digit + overlay digit next := by
      unfold overlay
      split_ifs <;> omega
    have hvalue : hexValue (overlaid (digit :: next :: digits)) =
        hexValue (overlaid (next :: digits)) + 16 ^ (digits.length + 1) * overlay digit next := by
      rw [overlaid, hexValue, reverse_cons, Nat.ofDigits_append, length_reverse,
        length_overlaid, length_cons, Nat.ofDigits_singleton, hexValue]
    rw [map_cons, cons_append, getHexU32Loop_hexDigit hdigit, overlay_mod,
      length_cons, ih fun d hd ↦ hdigits d (mem_cons_of_mem _ hd), hcarry, hvalue]
    congr 1
    ring

theorem timeDigits_lt (t : ℕ) : ∀ d ∈ timeDigits t, d < 16 := by
  intro d hd
  obtain ⟨b, -, hb⟩ := mem_flatMap.mp hd
  have hbyte := b.toNat_lt
  simp only [mem_cons, not_mem_nil, or_false] at hb
  omega

theorem hexText_put32 (t : ℕ) : hexText (put32 t) = (timeDigits t).map hexDigit := by
  simp [hexText, hexByte, timeDigits, put32]

theorem hexValue_timeDigits {t : ℕ} (ht : t < 2 ^ 32) : hexValue (timeDigits t) = t := by
  have hbyte (value : ℕ) : (UInt8.ofNat value).toNat = value % 256 := rfl
  simp only [hexValue, timeDigits, put32, flatMap_cons, flatMap_nil, append_nil, cons_append,
    nil_append, reverse_cons, reverse_nil, hbyte, Nat.ofDigits_cons, Nat.ofDigits_nil]
  omega

theorem hexValue_lt {digits : List ℕ} (hdigits : ∀ d ∈ digits, d < 16) :
    hexValue digits < 16 ^ digits.length := by
  rw [← length_reverse]
  exact Nat.ofDigits_lt_base_pow_length (by decide) fun d hd ↦ hdigits d (mem_reverse.mp hd)

theorem hexValue_inj {first second : List ℕ} (hfirst : ∀ d ∈ first, d < 16)
    (hsecond : ∀ d ∈ second, d < 16) (hlength : first.length = second.length) :
    hexValue first = hexValue second ↔ first = second := by
  refine ⟨fun h ↦ ?_, congrArg hexValue⟩
  refine reverse_injective (Nat.ofDigits_inj_of_len_eq (by decide) ?_ ?_ ?_ h)
  · rw [length_reverse, length_reverse, hlength]
  · exact fun d hd ↦ hfirst d (mem_reverse.mp hd)
  · exact fun d hd ↦ hsecond d (mem_reverse.mp hd)

/-- The time that `get_hex_u32` finds in a text that starts with a printed time. -/
theorem getHexU32_hexText (t : ℕ) (rest : Bytes) :
    getHexU32 (hexText (put32 t) ++ rest) = hexValue (overlaid (timeDigits t)) := by
  have hcount : (timeDigits t).length = 8 := rfl
  have hlt : hexValue (overlaid (timeDigits t)) < 2 ^ 32 := by
    have := hexValue_lt (overlaid_lt (timeDigits_lt t))
    rwa [length_overlaid, hcount] at this
  rw [hexText_put32, getHexU32]
  cases hdigits : timeDigits t with
  | nil => exact absurd hdigits nofun
  | cons digit digits =>
    have hall := timeDigits_lt t
    rw [hdigits] at hcount hall hlt
    have hloop : getHexU32Loop (digits.length + 1) (0 % 2 ^ 32)
        ((digit :: digits).map hexDigit ++ rest) = _ :=
      getHexU32Loop_digits hall
    have height : digits.length + 1 = 8 := hcount
    -- The three that the first digit may add is shifted out.
    rw [height, Nat.zero_mod] at hloop
    rw [hloop, show (16 : ℕ) ^ 8 = 2 ^ 32 from rfl, Nat.mul_add_mod, Nat.mod_eq_of_lt hlt]

/-- The time comes back as it was written exactly when its digits allow it. -/
theorem getHexU32_eq_iff {t : ℕ} (ht : t < 2 ^ 32) (rest : Bytes) :
    getHexU32 (hexText (put32 t) ++ rest) = t ↔ TimeReadsBack t := by
  have hvalue := hexValue_timeDigits ht
  rw [getHexU32_hexText, TimeReadsBack, ← overlaid_eq_self_iff, ← hexValue_inj
    (overlaid_lt (timeDigits_lt t)) (timeDigits_lt t) (length_overlaid _), hvalue]

/-! ### The lifetime of a nonce -/

theorem length_hexText (bytes : Bytes) : (hexText bytes).length = 2 * bytes.length := by
  induction bytes with
  | nil => rfl
  | cons b bytes ih =>
    rw [hexText, flatMap_cons, length_append, ← hexText, ih, length_cons]
    change 2 + _ = _
    omega

/-- A nonce of this server has the right form, so its age alone decides. -/
theorem checkNonce_createNonce {s random : Bytes} {t : ℕ} (hrandom : random.length = 12) :
    checkNonce md5 (some s) now (createNonce md5 s t random) =
      if now > (getHexU32 (hexText (put32 t) ++ hexText random) + 15) % 2 ^ 32 then 0 else 1 := by
  have htoken : (hexText (put32 t ++ random)).length = 32 := by
    rw [length_hexText, length_append, hrandom]
    rfl
  have hhash (v : List Bytes) : (md5Hash md5 v).length = 32 := by
    rw [md5Hash, length_hexText, md5.length_digest]
  have hsplit : hexText (put32 t ++ random) = hexText (put32 t) ++ hexText random :=
    flatMap_append
  unfold checkNonce createNonce
  dsimp only
  rw [if_neg (by rw [length_append, htoken, hhash]; decide), take_left' htoken,
    drop_left' htoken, if_neg (not_not_intro rfl), hsplit]

/-- A nonce that was made at time `t` is accepted up to 15 seconds later and is stale after that,
and its time is read back, exactly when the digits of `t` allow it.

Assumes: the request carries the nonce and an otherwise correct response. -/
theorem nonce_lifetime_iff (md5 : Md5) (s random : Bytes) (t : ℕ) (msg : Pmsg)
    (method uri realm username password : Bytes) (auth : DigestAuthInfo) (ht : t < 2 ^ 32 - 16)
    (hrandom : random.length = 12)
    (hcorrect : CorrectResponse md5 msg method uri realm username password auth)
    (hnonce : auth.nonce = createNonce md5 s t random) :
    ((∀ t', t ≤ t' → t' < 2 ^ 32 - 16 →
        checkDigestResponse md5 (some s) t' msg method uri realm username password =
          if t' ≤ t + 15 then 1 else 0) ∧
      getHexU32 (createNonce md5 s t random) = t) ↔ TimeReadsBack t := by
  have hrange : t < 2 ^ 32 := Nat.lt_of_lt_of_le ht (Nat.sub_le _ _)
  have hread (rest : Bytes) := getHexU32_eq_iff hrange rest
  have htoken : createNonce md5 s t random =
      hexText (put32 t) ++ (hexText random ++ md5Hash md5 [hexText (put32 t ++ random), s]) := by
    rw [createNonce, hexText, flatMap_append, ← hexText, ← hexText, append_assoc]
  rw [htoken, hread]
  refine ⟨And.right, fun hback ↦ ⟨fun t' hafter hbefore ↦ ?_, hback⟩⟩
  have hwrap : (t + 15) % 2 ^ 32 = t + 15 := Nat.mod_eq_of_lt (by omega)
  rw [hcorrect.check_eq, hnonce, checkNonce_createNonce hrandom, (hread _).mpr hback, hwrap]
  by_cases hold : t' ≤ t + 15
  · rw [if_pos hold, if_neg (Nat.not_lt.mpr hold)]
  · rw [if_neg hold, if_pos (Nat.not_le.mp hold)]

theorem nonce_lifetime_sample :
    (∀ t', 1790762746 ≤ t' → t' < 2 ^ 32 - 16 →
      checkDigestResponse checksumMd5 (some (ascii "secret")) t'
          (sampleMessage (sampleRequest (ascii "/a")
            (sampleAuth 1790762746 (ascii "/a") (ascii "pass"))))
          (ascii "SETUP") (ascii "/a") (ascii "cam") (ascii "admin") (ascii "pass") =
        if t' ≤ 1790762746 + 15 then 1 else 0) ∧
      getHexU32 (sampleNonce 1790762746) = 1790762746 := by
  refine (nonce_lifetime_iff checksumMd5 (ascii "secret") (List.replicate 12 0) 1790762746 _ _ _ _ _
    _ (sampleAuth 1790762746 (ascii "/a") (ascii "pass")) (by decide) rfl ?_ rfl).mpr (by decide)
  exact ⟨by decide +kernel, by decide +kernel, fun _ ↦ by decide +kernel, nofun, by decide +kernel⟩

/-- Sixteen seconds after a nonce was made at time 1600000000 it is still accepted, for the time
that is read back from it is a later one. -/
theorem nonce_outlives_its_time :
    checkDigestResponse checksumMd5 (some (ascii "secret")) (1600000000 + 16)
        (sampleMessage (sampleRequest (ascii "/a")
          (sampleAuth 1600000000 (ascii "/a") (ascii "pass"))))
        (ascii "SETUP") (ascii "/a") (ascii "cam") (ascii "admin") (ascii "pass") = 1 ∧
      getHexU32 (sampleNonce 1600000000) = 1600074544 := by
  decide +kernel

end WisCam.Auth
