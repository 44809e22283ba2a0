import WisCam.Message.Pmsg

/-!
# Digest authentication

`http-auth.c`. MD5 is an arbitrary function to sixteen bytes (`Md5`). The Authorization header is
taken apart by `parseAuthHeader`, a loop over its directives, and `checkDigestResponse` compares
what it says with the configured realm, user and password and with the nonce that `createNonce`
made. The clock and the random bytes are arguments, and the secret is `none` until it is created.
-/

set_option autoImplicit false

namespace WisCam.Auth

open Foundations Message

/-! ### Hashes and nonces -/

/-- MD5, as far as the server depends on it. -/
structure Md5 where
  digest : Bytes → Bytes
  length_digest : ∀ text, (digest text).length = 16

/-- `md5_hash`: the hash of the strings joined by colons, in hexadecimal. -/
def md5Hash (md5 : Md5) (v : List Bytes) : Bytes :=
  hexText (md5.digest (List.intercalate [58] v))

/-- `create_digest_secret`: `random_id` of sixteen digits, from eight random bytes. -/
def createDigestSecret (random : Bytes) : Bytes := random.flatMap upperHexByte

/-- `create_nonce`: the time and twelve random bytes in hexadecimal, and their hash with the
secret. -/
def createNonce (md5 : Md5) (secret : Bytes) (now : ℕ) (random : Bytes) : Bytes :=
  let token := hexText (put32 now ++ random)
  token ++ md5Hash md5 [token, secret]

/-- `get_hex_u32`. The value of a decimal digit is taken to be its character code. -/
def getHexU32Loop : ℕ → ℕ → Bytes → ℕ
  | 0, val, _ => val
  | _ + 1, val, [] => val
  | count + 1, val, b :: hex =>
    if 48 ≤ b ∧ b ≤ 57 then
      getHexU32Loop count (((val <<< 4) ||| (b.toNat - 0)) % 2 ^ 32) hex
    else if 65 ≤ b ∧ b ≤ 70 then
      getHexU32Loop count (((val <<< 4) ||| (b.toNat - 65 + 10)) % 2 ^ 32) hex
    else if 97 ≤ b ∧ b ≤ 102 then
      getHexU32Loop count (((val <<< 4) ||| (b.toNat - 97 + 10)) % 2 ^ 32) hex
    else val

@[inherit_doc getHexU32Loop]
def getHexU32 (hex : Bytes) : ℕ := getHexU32Loop 8 0 hex

/-! ### The Authorization header -/

/-- The members of `struct digest_auth_info` that a directive sets. -/
inductive AuthField
  | realm
  | uri
  | nonce
  | opaqueData
  | username
  | response
  deriving DecidableEq, Repr

/-- `struct digest_auth_info`, with the strings in its arrays. -/
structure DigestAuthInfo where
  realm : Bytes
  uri : Bytes
  nonce : Bytes
  opaqueData : Bytes
  username : Bytes
  response : Bytes
  deriving DecidableEq, Repr

def emptyAuthInfo : DigestAuthInfo := ⟨[], [], [], [], [], []⟩

/-- The directives in the order in which they are compared. -/
def authFields : List AuthField := [.realm, .uri, .nonce, .opaqueData, .username, .response]

def AuthField.tag : AuthField → Bytes
  | .realm => ascii "realm="
  | .uri => ascii "uri="
  | .nonce => ascii "nonce="
  | .opaqueData => ascii "opaque="
  | .username => ascii "username="
  | .response => ascii "response="

def AuthField.size : AuthField → ℕ
  | .realm => 128
  | .uri => 512
  | .nonce => 128
  | .opaqueData => 128
  | .username => 128
  | .response => 33

def DigestAuthInfo.set (auth : DigestAuthInfo) (field : AuthField) (value : Bytes) :
    DigestAuthInfo :=
  match field with
  | .realm => { auth with realm := value }
  | .uri => { auth with uri := value }
  | .nonce => { auth with nonce := value }
  | .opaqueData => { auth with opaqueData := value }
  | .username => { auth with username := value }
  | .response => { auth with response := value }

/-- What is done with the directive at `n` whose value is the first `len` bytes at `v`: it is stored
if it is one that is handled, and has to fit its array. -/
def storeDirective (n v : Bytes) (len : ℕ) (auth : DigestAuthInfo) : Option DigestAuthInfo :=
  match authFields.find? fun field ↦ sameFirstNoCase field.tag.length n field.tag with
  | some field => if field.size ≤ len then none else some (auth.set field (v.take len))
  | none =>
    if sameFirstNoCase 10 n (ascii "algorithm=") then
      if sameFirstNoCase 3 v (ascii "md5") then some auth else none
    else some auth

/-- Where the value of the directive starts, from the byte after its equals sign on, and how long it
is: up to the closing quote, which has to be there, or up to a comma or space. -/
def directiveValue (v : Bytes) : Option (Bytes × ℕ) :=
  if v.head? = some 34 then
    let v := v.tail
    let len := (v.takeWhile (· != 34)).length
    if len = v.length then none else some (v, len)
  else some (v, (v.takeWhile fun b ↦ b != 44 && b != 32).length)

/-- The loop of `parse_auth_header` over the directives. -/
def parseDirectives : ℕ → Bytes → DigestAuthInfo → Option DigestAuthInfo
  | 0, _, _ => none
  | fuel + 1, n, auth =>
    if n = [] then some auth
    else
      match n.dropWhile (· != 61) with
      | _ :: b :: v => do
        let (v, len) ← directiveValue (b :: v)
        let auth ← storeDirective n v len auth
        parseDirectives fuel
          ((v.drop len).dropWhile fun b ↦ b == 34 || b == 44 || b == 32) auth
      | _ => none

def parseAuthHeader (header : Bytes) : Option DigestAuthInfo :=
  if sameFirstNoCase 7 header (ascii "digest ") then
    parseDirectives (header.length + 1) (header.drop 7) emptyAuthInfo
  else none

/-! ### The check -/

def createResponse (md5 : Md5) (auth : DigestAuthInfo) (method password : Bytes) : Bytes :=
  let ha1 := md5Hash md5 [auth.username, auth.realm, password]
  let ha2 := md5Hash md5 [method, auth.uri]
  md5Hash md5 [ha1, auth.nonce, ha2]

/-- The part of `check_digest_response` after the response has been found correct: 1 for a nonce of
this server that is not more than 15 seconds old, and 0 for a stale one. -/
def checkNonce (md5 : Md5) (secret : Option Bytes) (now : ℕ) (nonce : Bytes) : ℤ :=
  match secret with
  | none => 0
  | some secret =>
    if nonce.length ≠ 64 then 0
    else
      let token := nonce.take 32
      if nonce.drop 32 ≠ md5Hash md5 [token, secret] then 0
      else if now > (getHexU32 token + 15) % 2 ^ 32 then 0
      else 1

/-- `check_digest_response`, for a request with this method and URI. -/
def checkDigestResponse (md5 : Md5) (secret : Option Bytes) (now : ℕ) (msg : Pmsg)
    (method uri realm username password : Bytes) : ℤ :=
  match getHeader msg (ascii "authorization") with
  | none => -1
  | some hdr =>
    match parseAuthHeader hdr with
    | none => -1
    | some auth =>
      if auth.realm ≠ realm then -1
      else if 0 < username.length ∧ ¬ sameNoCase auth.username username then -1
      else if auth.uri = [] ∧ 512 ≤ uri.length then -1
      else
        let auth := if auth.uri = [] then { auth with uri := uri } else auth
        let expected :=
          if 0 < username.length ∧ 0 < password.length then createResponse md5 auth method password
          else createResponse md5 auth method []
        if ¬ sameNoCase auth.response expected then -1
        else checkNonce md5 secret now auth.nonce

def addDigestChallenge (md5 : Md5) (secret : Bytes) (now : ℕ) (random : Bytes) (msg : Pmsg)
    (realm : Bytes) (stale : Bool) : Pmsg × ℤ :=
  let nonce := createNonce md5 secret now random
  addHeaderPrintf msg (ascii "WWW-Authenticate")
    (ascii "Digest realm=\"" ++ realm ++ ascii "\", nonce=\"" ++ nonce ++ ascii "\"" ++
      if stale then ascii ", stale=true" else [])

/-! ### The loop over the directives ends -/

/-- Every directive takes at least its equals sign, so as much fuel as there are bytes is enough. -/
theorem parseDirectives_fuel {fuel more : ℕ} {n : Bytes} {auth : DigestAuthInfo}
    (hfuel : n.length < fuel) :
    parseDirectives (fuel + more) n auth = parseDirectives fuel n auth := by
  induction fuel generalizing n auth with
  | zero => exact absurd hfuel (Nat.not_lt_zero _)
  | succ fuel ih =>
    rw [Nat.succ_add, parseDirectives, parseDirectives]
    by_cases hn : n = []
    · rw [if_pos hn, if_pos hn]
    rw [if_neg hn, if_neg hn]
    have hsub := (List.dropWhile_sublist (· != (61 : UInt8)) (l := n)).length_le
    split
    · rename_i first b v hdrop
      rw [hdrop] at hsub
      cases hvalue : directiveValue (b :: v) with
      | none => rfl
      | some found =>
        obtain ⟨v', len⟩ := found
        have hshort : v'.length ≤ (b :: v).length := by
          unfold directiveValue at hvalue
          dsimp only at hvalue
          split_ifs at hvalue with hquote hclosed
          · obtain ⟨rfl, -⟩ := Prod.mk.inj (Option.some.inj hvalue)
            exact Nat.le_succ _
          · obtain ⟨rfl, -⟩ := Prod.mk.inj (Option.some.inj hvalue)
            exact Nat.le_refl _
        cases hstore : storeDirective n v' len auth with
        | none => simp [hstore]
        | some auth' =>
          simp only [hstore, Option.bind_eq_bind, Option.bind_some]
          refine ih ?_
          have hrest := (List.dropWhile_sublist (fun b : UInt8 ↦ b == 34 || b == 44 || b == 32)
            (l := v'.drop len)).length_le
          rw [List.length_drop] at hrest
          simp only [List.length_cons] at hsub hshort hfuel
          omega
    · rfl

end WisCam.Auth
