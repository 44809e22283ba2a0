import WisCam.Foundations.Fallible
import WisCam.Rest.Config

/-!
# Updating parameters from a query string

`configs_update` cuts a query string into `name=value` pairs, decodes the values and writes the
parameters. It works in the memory of the request: `strtok_r` puts a NUL in place of each `&`,
`strtok` one in place of the first `=`, and the name of a pair is replaced by the name of its
parameter where it stands. The memory is a list of bytes, from the place where `strtok_r` is to go
on, and reading or writing past its end is a fault.

A parameter with a longer name than the pair's overwrites the value, which was copied before, and
what comes after the value if the value is short. `ap_key` becomes `AP_AUTH_KEY`, four bytes longer
than `ap_key=`, so the place where `strtok_r` goes on is overwritten when the value has fewer than
four bytes. `configs_update_writes_iff` says that this, and a value with a decoded NUL, is all that
can go wrong with a list of well-formed pairs.
-/

set_option autoImplicit false

namespace WisCam.Rest

open Foundations List

/-! ### Decoding -/

/-- `hex_char_to_int`. -/
def hexCharToInt (b : UInt8) : Option UInt8 :=
  if 48 ≤ b ∧ b ≤ 57 then some (b - 48)
  else if 97 ≤ b ∧ b ≤ 102 then some (b - 97 + 10)
  else if 65 ≤ b ∧ b ≤ 70 then some (b - 65 + 10)
  else none

/-- `unescape`, if every percent sign is followed by two hexadecimal digits. -/
def unescape : Bytes → Option Bytes
  | [] => some []
  | b :: rest =>
    if b = 37 then
      match rest with
      | high :: low :: more =>
        match hexCharToInt high, hexCharToInt low with
        | some h, some l => (unescape more).map ((h * 16 + l) :: ·)
        | _, _ => none
      | _ => none
    else (unescape rest).map (b :: ·)

/-! ### Names of parameters -/

/-- What the names of pairs in the `wifi` group stand for. -/
def wifiNames : List (Bytes × Bytes) :=
  [("ap_ssid", "AP_SSID"), ("ap_key", "AP_AUTH_KEY"), ("ap_ipaddr", "AP_IPADDR"),
    ("ap_channel", "AP_CHANNEL"), ("sta_ssid", "SSID"), ("sta_key", "AUTH_KEY")].map
    fun (name, param) ↦ (ascii name, ascii param)

/-- What the names of pairs in the `stream` group stand for. -/
def streamNames : List (Bytes × Bytes) :=
  [("bitrate", "BITRATE"), ("vin_width", "VINWIDTH"), ("vin_height", "VINHEIGHT"),
    ("jpegenc_width", "JPEGENCWIDTH"), ("jpegenc_height", "JPEGENCHEIGHT")].map
    fun (name, param) ↦ (ascii name, ascii param)

/-- The names that are replaced by those of parameters, for the groups that have such names. -/
def Group.names : Group → Option (List (Bytes × Bytes))
  | .wifi => some wifiNames
  | .stream => some streamNames
  | _ => none

/-- The parameter that a name stands for, if the group knows it. -/
def paramOf (group : Group) (name : Bytes) : Option Bytes :=
  match group.names with
  | some names => names.lookup name
  | none => some name

/-- The writes for a pair. A key for the access point sets the encryption as well. -/
def writesFor (group : Group) (name param value : Bytes) : List (Bytes × Bytes) :=
  if group = .wifi ∧ name = ascii "ap_key" then
    [(ascii "AP_AUTH_MODE", ascii "WPA2PSK"), (ascii "AP_ENCRYPT_TYPE", ascii "AES"), (param, value)]
  else [(param, value)]

/-! ### One pair -/

/-- Overwrites a part of the memory. -/
def overwrite (mem : Bytes) (place : ℕ) (text : Bytes) : Except Fault Bytes :=
  if place + text.length ≤ mem.length then
    .ok (mem.take place ++ (text ++ mem.drop (place + text.length)))
  else .error .overflow

/-- The string at a place of the memory. -/
def stringAt (mem : Bytes) (place : ℕ) : Except Fault Bytes :=
  if 0 ∈ mem.drop place then .ok (cstr (mem.drop place)) else .error .stray

/-- A token of `strtok_r`: its text, the memory after the NUL that ends it, and whether this NUL
took the place of a `&`. -/
structure Token where
  text : Bytes
  after : Bytes
  cut : Bool
deriving DecidableEq, Repr

/-- `strtok_r(NULL, "&", &save)`. -/
def strtokR (mem : Bytes) : Except Fault (Option Token) :=
  let rest := mem.dropWhile (· == 38)
  let text := rest.takeWhile fun b ↦ b != 38 && b != 0
  match rest.drop text.length with
  | [] => .error .stray
  | stop :: after => .ok (if text = [] then none else some ⟨text, after, stop == 38⟩)

/-- How `configs_update` ends: all pairs were written, a write failed, or a pair was refused. -/
inductive UpdateEnd
  | done
  | writeFailed
  | badEscape
  | badName
deriving DecidableEq, Repr

/-- The result of `configs_update`. -/
def UpdateEnd.code : UpdateEnd → ℤ
  | .done => 0
  | .writeFailed | .badEscape | .badName => -1

/-- What one turn of the loop does before it writes. -/
inductive PairStep
  | finished
  | refused (reason : UpdateEnd)
  /-- The writes to do, and the memory from the place where `strtok_r` goes on. -/
  | writes (list : List (Bytes × Bytes)) (next : Bytes)
deriving DecidableEq, Repr

/-- The name of the pair in a token, and where it begins. -/
def pairName (token : Bytes) : ℕ × Bytes :=
  let start := (token.takeWhile (· == 61)).length
  (start, (token.drop start).takeWhile (· != 61))

/-- The size of `paramVal`. -/
def paramValSize : ℕ := 128

/-- The pair in a token. -/
def pairIn (group : Group) (token : Token) : Except Fault PairStep := do
  let (start, name) := pairName token.text
  -- Without a name `strtok` returns a null pointer, and `strlen` follows it.
  if name = [] then .error .null
  else
    let mem := (token.text ++ 0 :: token.after).set (start + name.length) 0
    let raw ← stringAt mem (start + name.length + 1)
    if paramValSize ≤ raw.length then .error .overflow
    else
      match unescape raw with
      | none => .ok (.refused .badEscape)
      | some value =>
        match paramOf group name with
        | none => .ok (.refused .badName)
        | some param =>
          let mem ← if group.names.isSome then overwrite mem start (param ++ [0]) else .ok mem
          .ok (.writes (writesFor group name param (cstr value))
            (mem.drop (if token.cut then token.text.length + 1 else token.text.length)))

/-- The next pair in the memory. -/
def pairAt (group : Group) (mem : Bytes) : Except Fault PairStep := do
  match ← strtokR mem with
  | none => .ok .finished
  | some token => pairIn group token

/-! ### The loop -/

section Loop

variable {σ : Type} (write : Bytes → Bytes → σ → Except Fault (ℤ × σ))

/-- The writes for one pair, up to the first that fails. -/
def runWrites : List (Bytes × Bytes) → σ → Except Fault (Bool × σ)
  | [], s => .ok (true, s)
  | (param, value) :: rest, s => do
    let (ret, s) ← write param value s
    if ret = 0 then runWrites rest s else .ok (false, s)

/-- The loop of `configs_update`. -/
def updateLoop (group : Group) : ℕ → Bytes → σ → Except Fault (UpdateEnd × σ)
  | 0, _, _ => .error .stray
  | fuel + 1, mem, s => do
    match ← pairAt group mem with
    | .finished => .ok (.done, s)
    | .refused reason => .ok (reason, s)
    | .writes list next =>
      let (written, s) ← runWrites write list s
      if written then updateLoop group fuel next s else .ok (.writeFailed, s)

/-- `configs_update` on the memory from the query string on, with a given `WriteParamStr`. Each turn
of the loop goes on behind at least one byte. -/
def configsUpdate (group : Group) (mem : Bytes) (s : σ) : Except Fault (UpdateEnd × σ) :=
  updateLoop write group (mem.length + 1) mem s

end Loop

/-- A `WriteParamStr` that succeeds and is recorded. -/
def recordWrite (param value : Bytes) (s : List (Bytes × Bytes)) :
    Except Fault (ℤ × List (Bytes × Bytes)) :=
  .ok (0, s ++ [(param, value)])

/-- The writes that the loop does when all succeed. -/
def plannedWrites (group : Group) : ℕ → Bytes → Except Fault (UpdateEnd × List (Bytes × Bytes))
  | 0, _ => .error .stray
  | fuel + 1, mem => do
    match ← pairAt group mem with
    | .finished => .ok (.done, [])
    | .refused reason => .ok (reason, [])
    | .writes list next =>
      let (reason, more) ← plannedWrites group fuel next
      .ok (reason, list ++ more)

theorem runWrites_record (list s : List (Bytes × Bytes)) :
    runWrites recordWrite list s = .ok (true, s ++ list) := by
  induction list generalizing s with
  | nil => rw [runWrites, append_nil]
  | cons first rest ih =>
    rw [runWrites, recordWrite, ok_bind]
    dsimp only
    rw [if_pos rfl, ih, append_assoc]
    rfl

/-- What is recorded are the planned writes. -/
theorem updateLoop_record (group : Group) (fuel : ℕ) (mem : Bytes) (s : List (Bytes × Bytes)) :
    updateLoop recordWrite group fuel mem s =
      (plannedWrites group fuel mem).map fun (reason, list) ↦ (reason, s ++ list) := by
  induction fuel generalizing mem s with
  | zero => rfl
  | succ fuel ih =>
    rw [updateLoop, plannedWrites]
    cases pairAt group mem with
    | error fault => rfl
    | ok step =>
      rw [ok_bind, ok_bind]
      cases step with
      | finished | refused =>
        dsimp only [Except.map]
        rw [append_nil]
      | writes list next =>
        dsimp only
        rw [runWrites_record, ok_bind, if_pos rfl, ih]
        cases plannedWrites group fuel next with
        | error fault => rfl
        | ok result =>
          rw [ok_bind]
          dsimp only [Except.map]
          rw [append_assoc]

/-! ### A pair in the memory -/

variable {stop : UInt8} {decoded : Bytes}

section Pairs

variable {group : Group} {name value param after : Bytes}

theorem strtokR_nul (after : Bytes) : strtokR (0 :: after) = .ok none := rfl

theorem strtokR_token {text : Bytes} (hne : text ≠ []) (htext : ∀ b ∈ text, b ≠ 38 ∧ b ≠ 0)
    (hstop : stop = 38 ∨ stop = 0) (after : Bytes) :
    strtokR (text ++ stop :: after) = .ok (some ⟨text, after, stop == 38⟩) := by
  obtain ⟨first, rest, rfl⟩ := exists_cons_of_ne_nil hne
  have hfirst := htext first mem_cons_self
  have hskip : ((first :: rest) ++ stop :: after).dropWhile (· == 38) =
      (first :: rest) ++ stop :: after :=
    dropWhile_cons_of_neg (by simpa using hfirst.1)
  have htake : ((first :: rest) ++ stop :: after).takeWhile (fun b ↦ b != 38 && b != 0) =
      first :: rest := by
    apply takeWhile_append_stop
    · intro b hb
      simpa using htext b hb
    · intro b hb
      cases hb
      rcases hstop with rfl | rfl <;> rfl
  rw [strtokR, hskip, htake, drop_left]
  rfl

/-- The name of a pair ends at the first `=`. -/
theorem pairName_pair (hne : name ≠ []) (hname : (61 : UInt8) ∉ name) (tail : Bytes)
    (htail : ∀ b, tail.head? = some b → b = 61) : pairName (name ++ tail) = (0, name) := by
  obtain ⟨first, rest, rfl⟩ := exists_cons_of_ne_nil hne
  have hstart : ((first :: rest) ++ tail).takeWhile (· == 61) = [] := by
    apply takeWhile_cons_of_neg
    simp only [beq_iff_eq]
    rintro rfl
    exact hname mem_cons_self
  have htake : ((first :: rest) ++ tail).takeWhile (· != 61) = first :: rest := by
    apply takeWhile_append_stop
    · intro b hb
      simp only [bne_iff_ne, ne_eq]
      rintro rfl
      exact hname hb
    · intro b hb
      rw [htail b hb]
      rfl
  rw [pairName, hstart]
  simp only [length_nil, drop_zero, htake]

/-- Where the string at a place ends. -/
theorem stringAt_cut {front text : Bytes} (htext : (0 : UInt8) ∉ text) (after : Bytes) :
    stringAt (front ++ (text ++ 0 :: after)) front.length = .ok text := by
  have hcut : cstr (text ++ 0 :: after) = text := by
    apply takeWhile_append_stop
    · intro b hb
      simp only [bne_iff_ne, ne_eq]
      rintro rfl
      exact htext hb
    · intro b hb
      cases hb
      rfl
  rw [stringAt, drop_left, if_pos (by simp), hcut]

/-- The memory behind a place that was not overwritten. -/
theorem drop_overwritten {mem text : Bytes} {place : ℕ} (hplace : text.length ≤ place) :
    (text ++ mem.drop text.length).drop place = mem.drop place := by
  rw [List.drop_append, drop_eq_nil_of_le hplace, nil_append, drop_drop]
  congr 1
  omega

/-- What `strtok_r` finds behind a name that was replaced, if the new name is not longer than the
pair. -/
theorem drop_overwrite (hfits : param.length ≤ name.length + 1 + value.length) (after : Bytes)
    (cut : Bool) :
    ∃ mem, overwrite (name ++ 0 :: (value ++ 0 :: after)) 0 (param ++ [0]) = .ok mem ∧
      mem.drop (if cut then (name ++ 61 :: value).length + 1 else (name ++ 61 :: value).length) =
        if cut then after else 0 :: after := by
  have hlength : (name ++ 61 :: value).length = name.length + 1 + value.length := by
    rw [length_append, length_cons]
    omega
  have hmem : name ++ 0 :: (value ++ 0 :: after) = (name ++ 0 :: value) ++ 0 :: after := by simp
  have hfront : (name ++ 0 :: value).length = (name ++ 61 :: value).length := by simp
  have hroom : 0 + (param ++ [0]).length ≤ (name ++ 0 :: (value ++ 0 :: after)).length := by
    simp only [length_append, length_cons, length_nil]
    omega
  have hnul : (param ++ [0]).length = param.length + 1 := length_append
  have hend : ((name ++ 0 :: value) ++ 0 :: after).drop (name ++ 61 :: value).length = 0 :: after :=
    drop_left' hfront
  have hbehind : ((name ++ 0 :: value) ++ 0 :: after).drop ((name ++ 61 :: value).length + 1) =
      after := by
    rw [← drop_drop, hend]
    rfl
  refine ⟨_, if_pos hroom, ?_⟩
  rw [take_zero, nil_append, Nat.zero_add, hmem]
  cases cut with
  | true =>
    rw [if_pos rfl, if_pos rfl, drop_overwritten (by omega), hbehind]
  | false =>
    rw [if_neg Bool.false_ne_true, if_neg Bool.false_ne_true]
    by_cases hlast : param.length = (name ++ 61 :: value).length
    · -- The NUL of the new name takes the place of the NUL that ends the pair.
      rw [append_assoc, drop_left' hlast, hnul, hlast, hbehind]
      rfl
    · rw [drop_overwritten (by omega), hend]

/-- A pair of a group with names of its own, as the memory has it. -/
structure IsPair (group : Group) (name value : Bytes) : Prop where
  known : (paramOf group name).isSome
  value_plain : ∀ b ∈ value, b ≠ 38 ∧ b ≠ 61 ∧ b ≠ 0
  escapes : (unescape value).isSome
  short : value.length < paramValSize

instance (group : Group) (name value : Bytes) : Decidable (IsPair group name value) :=
  decidable_of_iff ((paramOf group name).isSome ∧ (∀ b ∈ value, b ≠ 38 ∧ b ≠ 61 ∧ b ≠ 0) ∧
      (unescape value).isSome ∧ value.length < paramValSize)
    ⟨fun h ↦ ⟨h.1, h.2.1, h.2.2.1, h.2.2.2⟩,
      fun h ↦ ⟨h.known, h.value_plain, h.escapes, h.short⟩⟩

/-- What is checked of the names in the tables. -/
theorem names_plain {names : List (Bytes × Bytes)} (hnames : group.names = some names) :
    ∀ pair ∈ names, pair.1 ≠ [] ∧ (∀ b ∈ pair.1, b ≠ 38 ∧ b ≠ 61 ∧ b ≠ 0) ∧
      (pair.2.length ≤ pair.1.length + 1 ∨
        pair = (ascii "ap_key", ascii "AP_AUTH_KEY") ∧ group = .wifi) := by
  cases group with
  | wifi =>
    obtain rfl := Option.some.inj hnames
    decide
  | stream =>
    obtain rfl := Option.some.inj hnames
    decide
  | nabto | apmsg | stamsg | apstamsg | version => cases hnames

theorem IsPair.value_ne (hpair : IsPair group name value) : ∀ b ∈ value, b ≠ 38 ∧ b ≠ 0 :=
  fun b hb ↦ ⟨(hpair.value_plain b hb).1, (hpair.value_plain b hb).2.2⟩

/-- A name that a group with names of its own knows. -/
theorem name_spec (hnames : group.names.isSome) (hparam : paramOf group name = some param) :
    name ≠ [] ∧ (∀ b ∈ name, b ≠ 38 ∧ b ≠ 61 ∧ b ≠ 0) ∧
      (param.length ≤ name.length + 1 ∨
        name = ascii "ap_key" ∧ param = ascii "AP_AUTH_KEY" ∧ group = .wifi) := by
  obtain ⟨names, hnames⟩ := Option.isSome_iff_exists.mp hnames
  have hmem : (name, param) ∈ names := by
    rw [paramOf, hnames] at hparam
    obtain ⟨front, back, hsplit, -⟩ := List.lookup_eq_some_iff.mp hparam
    rw [hsplit]
    exact mem_append_right _ mem_cons_self
  obtain ⟨hne, hplain, hlength⟩ := names_plain hnames _ hmem
  refine ⟨hne, hplain, hlength.imp_right fun hkey ↦ ?_⟩
  obtain ⟨hsame, hwifi⟩ := hkey
  exact ⟨congrArg Prod.fst hsame, congrArg Prod.snd hsame, hwifi⟩

/-- A pair is written, and its name is replaced if the group has names of its own. -/
theorem pairIn_pair (hparam : paramOf group name = some param)
    (hdecoded : unescape value = some decoded) (hnul : (0 : UInt8) ∉ value) (hne : name ≠ [])
    (hname : (61 : UInt8) ∉ name) (after : Bytes) (cut : Bool) :
    pairIn group ⟨name ++ 61 :: value, after, cut⟩ =
      if paramValSize ≤ value.length then .error .overflow
      else
        (if group.names.isSome then overwrite (name ++ 0 :: (value ++ 0 :: after)) 0 (param ++ [0])
          else .ok (name ++ 0 :: (value ++ 0 :: after))).map fun mem ↦
          .writes (writesFor group name param (cstr decoded))
            (mem.drop (if cut then (name ++ 61 :: value).length + 1
              else (name ++ 61 :: value).length)) := by
  have hmem : ((name ++ 61 :: value) ++ 0 :: after).set (0 + name.length) 0 =
      name ++ 0 :: (value ++ 0 :: after) := by
    rw [Nat.zero_add, append_assoc, cons_append]
    exact (CutAt.set ⟨rfl, rfl⟩ 0).append
  have hraw : stringAt (name ++ 0 :: (value ++ 0 :: after)) (0 + name.length + 1) = .ok value := by
    have hfront : name ++ 0 :: (value ++ 0 :: after) = (name ++ [0]) ++ (value ++ 0 :: after) := by simp
    have hplace : 0 + name.length + 1 = (name ++ [0]).length := by simp
    rw [hfront, hplace]
    exact stringAt_cut hnul after
  rw [pairIn, pairName_pair hne hname _ (by simp)]
  dsimp only
  rw [if_neg hne, hmem, hraw, ok_bind, hdecoded, hparam]
  dsimp only
  split
  · rfl
  · split
    · cases overwrite (name ++ 0 :: (value ++ 0 :: after)) 0 (param ++ [0]) <;> rfl
    · rfl

/-- A token without `=` whose name is not known is not written. -/
theorem pairIn_unknown {text : Bytes} (hne : text ≠ []) (htext : (61 : UInt8) ∉ text)
    (hparam : paramOf group text = none) (after : Bytes) (cut : Bool) :
    (∃ fault, pairIn group ⟨text, after, cut⟩ = .error fault) ∨
      pairIn group ⟨text, after, cut⟩ = .ok (.refused .badEscape) ∨
      pairIn group ⟨text, after, cut⟩ = .ok (.refused .badName) := by
  have hpairName : pairName text = (0, text) := by
    simpa using pairName_pair hne htext [] (by simp)
  rw [pairIn, hpairName]
  dsimp only
  rw [if_neg hne]
  cases stringAt ((text ++ 0 :: after).set (0 + text.length) 0) (0 + text.length + 1) with
  | error fault => exact .inl ⟨fault, rfl⟩
  | ok raw =>
    rw [ok_bind]
    split
    · exact .inl ⟨_, rfl⟩
    · cases unescape raw with
      | none => exact .inr (.inl rfl)
      | some value =>
        dsimp only
        rw [hparam]
        exact .inr (.inr rfl)

end Pairs

/-! ### Lists of pairs -/

/-- A query string: pairs of names and values, joined by `&`. -/
def queryString (pairs : List (Bytes × Bytes)) : Bytes :=
  [38].intercalate (pairs.map fun (name, value) ↦ name ++ 61 :: value)

/-- The writes that a list of pairs asks for. -/
def expectedWrites (group : Group) (pairs : List (Bytes × Bytes)) : List (Bytes × Bytes) :=
  pairs.flatMap fun (name, value) ↦
    match paramOf group name, unescape value with
    | some param, some decoded => writesFor group name param decoded
    | _, _ => []

/-- The place where `strtok_r` goes on is not overwritten, and the decoded value has no NUL. -/
def WritesWhole (pair : Bytes × Bytes) : Prop :=
  (pair.1 = ascii "ap_key" → 4 ≤ pair.2.length) ∧
    ∀ decoded, unescape pair.2 = some decoded → (0 : UInt8) ∉ decoded

section Lists

variable {group : Group} {pairs : List (Bytes × Bytes)}

theorem queryString_cons (name value : Bytes) (pairs : List (Bytes × Bytes)) (rest : Bytes) :
    queryString ((name, value) :: pairs) ++ 0 :: rest =
      (name ++ 61 :: value) ++
        if pairs = [] then 0 :: rest else 38 :: (queryString pairs ++ 0 :: rest) := by
  cases pairs with
  | nil => simp [queryString, List.intercalate]
  | cons next pairs => simp [queryString, List.intercalate]

theorem expectedWrites_cons {name value param : Bytes} (hparam : paramOf group name = some param)
    (hdecoded : unescape value = some decoded) (pairs : List (Bytes × Bytes)) :
    expectedWrites group ((name, value) :: pairs) =
      writesFor group name param decoded ++ expectedWrites group pairs := by
  rw [expectedWrites, flatMap_cons]
  simp only [hparam, hdecoded]
  rfl

theorem expectedWrites_ne_nil (hpairs : ∀ pair ∈ pairs, IsPair group pair.1 pair.2)
    (hne : pairs ≠ []) : expectedWrites group pairs ≠ [] := by
  obtain ⟨⟨name, value⟩, rest, rfl⟩ := exists_cons_of_ne_nil hne
  have hpair := hpairs _ mem_cons_self
  obtain ⟨param, hparam⟩ := Option.isSome_iff_exists.mp hpair.known
  obtain ⟨decoded, hdecoded⟩ := Option.isSome_iff_exists.mp hpair.escapes
  rw [expectedWrites_cons hparam hdecoded, writesFor]
  split <;> simp

theorem cstr_eq_self_iff {text : Bytes} : cstr text = text ↔ (0 : UInt8) ∉ text := by
  refine ⟨fun hself hzero ↦ ?_, cstr_eq_self⟩
  have hne := takeWhile_eq_self_iff.mp hself 0 hzero
  simp at hne

/-- The writes for one pair say which value is written. -/
theorem writesFor_append_inj {name param value value' : Bytes} {more more' : List (Bytes × Bytes)} :
    writesFor group name param value ++ more = writesFor group name param value' ++ more' ↔
      value = value' ∧ more = more' := by
  unfold writesFor
  split <;> simp

/-- What the loop plans for the first pair of a list. -/
theorem plannedWrites_pair {name value param : Bytes} (hvalue : ∀ b ∈ value, b ≠ 38 ∧ b ≠ 0)
    (hparam : paramOf group name = some param) (hdecoded : unescape value = some decoded)
    (hne : name ≠ []) (hname : ∀ b ∈ name, b ≠ 38 ∧ b ≠ 61 ∧ b ≠ 0) (fuel : ℕ)
    (hstop : stop = 38 ∨ stop = 0) (after : Bytes) :
    plannedWrites group (fuel + 1) ((name ++ 61 :: value) ++ stop :: after) =
      if paramValSize ≤ value.length then .error .overflow
      else
        (if group.names.isSome then overwrite (name ++ 0 :: (value ++ 0 :: after)) 0 (param ++ [0])
          else .ok (name ++ 0 :: (value ++ 0 :: after))) >>= fun mem ↦
        (plannedWrites group fuel (mem.drop (if stop == 38 then (name ++ 61 :: value).length + 1
          else (name ++ 61 :: value).length))).map fun (reason, more) ↦
            (reason, writesFor group name param (cstr decoded) ++ more) := by
  have htoken : ∀ b ∈ name ++ 61 :: value, b ≠ 38 ∧ b ≠ 0 := by
    intro b hb
    rcases mem_append.mp hb with hb | hb
    · exact ⟨(hname b hb).1, (hname b hb).2.2⟩
    · rcases mem_cons.mp hb with rfl | hb
      · decide
      · exact hvalue b hb
  rw [plannedWrites, pairAt, strtokR_token (by simp) htoken hstop, ok_bind]
  dsimp only
  rw [pairIn_pair hparam hdecoded (fun hmem ↦ (hvalue _ hmem).2 rfl) hne
    (fun hmem ↦ (hname _ hmem).2.1 rfl)]
  split
  · rfl
  generalize (if group.names.isSome then overwrite (name ++ 0 :: (value ++ 0 :: after)) 0 (param ++ [0])
    else .ok (name ++ 0 :: (value ++ 0 :: after))) = result
  cases result with
  | error fault => rfl
  | ok mem =>
    dsimp only [Except.map]
    rw [ok_bind, ok_bind]
    dsimp only
    cases plannedWrites group fuel _ <;> rfl

/-- The tails of `AP_AUTH_KEY` that can be left where `strtok_r` goes on are no names of pairs. -/
theorem keyTail_unknown : ∀ place < 11, 7 ≤ place →
    (ascii "AP_AUTH_KEY").drop place ≠ [] ∧
      (∀ b ∈ (ascii "AP_AUTH_KEY").drop place, b ≠ 38 ∧ b ≠ 61 ∧ b ≠ 0) ∧
      paramOf .wifi ((ascii "AP_AUTH_KEY").drop place) = none := by
  decide

/-- A tail of `AP_AUTH_KEY` where `strtok_r` goes on ends the loop with a refusal or worse. -/
theorem plannedWrites_keyTail {place : ℕ} (hplace : place < 11) (hkey : 7 ≤ place) (fuel : ℕ)
    (after : Bytes) (list : List (Bytes × Bytes)) :
    plannedWrites .wifi fuel ((ascii "AP_AUTH_KEY").drop place ++ 0 :: after) ≠ .ok (.done, list) := by
  obtain ⟨hne, hplain, hparam⟩ := keyTail_unknown place hplace hkey
  cases fuel with
  | zero => exact nofun
  | succ fuel =>
    have htoken := strtokR_token hne (fun b hb ↦ ⟨(hplain b hb).1, (hplain b hb).2.2⟩) (.inr rfl) after
    rw [plannedWrites, pairAt, htoken, ok_bind]
    dsimp only
    rcases pairIn_unknown hne (fun hmem ↦ (hplain _ hmem).2.1 rfl) hparam after ((0 : UInt8) == 38) with
      ⟨fault, hpair⟩ | hpair | hpair
    · rw [hpair]
      exact nofun
    · rw [hpair]
      exact nofun
    · rw [hpair]
      exact nofun

variable {list : List (Bytes × Bytes)}

theorem plannedWrites_nul (fuel : ℕ) (after : Bytes)
    (hplanned : plannedWrites group fuel (0 :: after) = .ok (.done, list)) : list = [] := by
  cases fuel with
  | zero => cases hplanned
  | succ fuel =>
    rw [plannedWrites, pairAt, strtokR_nul, ok_bind] at hplanned
    exact (Prod.mk.inj (Except.ok.inj hplanned)).2.symm

/-- A key that is too short lets `strtok_r` go on in the new name, or at its end. The loop then ends
well only at the end of the new name, and leaves out what comes after the pair. -/
theorem plannedWrites_shortKey {value : Bytes} (hvalue : ∀ b ∈ value, b ≠ 38 ∧ b ≠ 0)
    (hdecoded : unescape value = some decoded) (hshort : value.length < 4) (fuel : ℕ)
    (hstop : stop = 38 ∨ stop = 0) (after : Bytes)
    (hplanned : plannedWrites .wifi (fuel + 1) ((ascii "ap_key" ++ 61 :: value) ++ stop :: after) =
      .ok (.done, list)) :
    stop = 38 ∧ list = writesFor .wifi (ascii "ap_key") (ascii "AP_AUTH_KEY") (cstr decoded) := by
  have hlength : (ascii "ap_key" ++ 61 :: value).length = 7 + value.length := by
    rw [length_append, length_cons]
    exact Nat.add_right_comm 6 value.length 1
  have hfits : ¬paramValSize ≤ value.length := Nat.not_le.mpr (Nat.lt_trans hshort (by decide))
  rw [plannedWrites_pair hvalue rfl hdecoded (by decide) (by decide) fuel hstop, if_neg hfits,
    if_pos (show Group.wifi.names.isSome = true from rfl), overwrite] at hplanned
  split at hplanned
  case isFalse => cases hplanned
  case isTrue =>
    rw [ok_bind, take_zero, nil_append, append_assoc] at hplanned
    obtain ⟨⟨reason, more⟩, hrest, hresult⟩ := map_eq_ok_iff.mp hplanned
    obtain ⟨rfl, rfl⟩ := Prod.mk.inj hresult
    rw [drop_append_of_le_length, singleton_append] at hrest
    · rcases hstop with rfl | rfl
      · rw [if_pos (by decide), hlength] at hrest
        by_cases hthree : value.length = 3
        · rw [hthree] at hrest
          rw [plannedWrites_nul fuel _ hrest, append_nil]
          exact ⟨rfl, rfl⟩
        · exact absurd hrest (plannedWrites_keyTail (by omega) (by omega) fuel _ _)
      · rw [if_neg (by decide), hlength] at hrest
        exact absurd hrest (plannedWrites_keyTail (by omega) (by omega) fuel _ _)
    · rw [hlength]
      have hkey : (ascii "AP_AUTH_KEY").length = 11 := rfl
      split <;> omega

/-- A pair with a key for the access point whose new name fits has a value of four bytes or more. -/
theorem four_le_of_fits {name value param : Bytes} (hnames : group.names.isSome)
    (hparam : paramOf group name = some param) (hkey : name = ascii "ap_key")
    (hfits : param.length ≤ name.length + 1 + value.length) : 4 ≤ value.length := by
  subst hkey
  cases group with
  | wifi =>
    obtain rfl : ascii "AP_AUTH_KEY" = param := Option.some.inj hparam
    have hlong : 11 ≤ 6 + 1 + value.length := hfits
    omega
  | stream => cases hparam
  | nabto | apmsg | stamsg | apstamsg | version => cases hnames

/-- A single pair that is accepted is written, and nothing else is. -/
theorem plannedWrites_accepted {name value param rest : Bytes} {fuel : ℕ}
    (hvalue : ∀ b ∈ value, b ≠ 38 ∧ b ≠ 0) (hparam : paramOf group name = some param)
    (hdecoded : unescape value = some decoded) (hne : name ≠ [])
    (hname : ∀ b ∈ name, b ≠ 38 ∧ b ≠ 61 ∧ b ≠ 0)
    (hplanned : plannedWrites group (fuel + 1) ((name ++ 61 :: value) ++ 0 :: rest) =
      .ok (.done, list)) :
    value.length < paramValSize ∧ list = writesFor group name param (cstr decoded) := by
  have hpair := hplanned
  rw [plannedWrites_pair hvalue hparam hdecoded hne hname fuel (.inr rfl)] at hplanned
  split at hplanned
  · cases hplanned
  · rename_i hshort
    refine ⟨Nat.lt_of_not_le hshort, ?_⟩
    obtain ⟨mem, hmem, hplanned⟩ := bind_eq_ok_iff.mp hplanned
    obtain ⟨⟨reason, more⟩, hrest, hresult⟩ := map_eq_ok_iff.mp hplanned
    obtain ⟨rfl, rfl⟩ := Prod.mk.inj hresult
    -- What is left for `strtok_r` is the end of the query string.
    have hnext : mem.drop (if ((0 : UInt8) == 38) = true then (name ++ 61 :: value).length + 1
        else (name ++ 61 :: value).length) = 0 :: rest := by
      split at hmem
      · rename_i hnames
        by_cases hfits : param.length ≤ name.length + 1 + value.length
        · obtain ⟨mem', hoverwrite, hdrop⟩ := drop_overwrite hfits rest ((0 : UInt8) == 38)
          obtain rfl : mem' = mem := Except.ok.inj (hoverwrite.symm.trans hmem)
          exact hdrop
        · obtain ⟨-, -, hlength⟩ := name_spec hnames hparam
          obtain ⟨rfl, rfl, rfl⟩ := hlength.resolve_left fun hle ↦
            hfits (Nat.le_trans hle (Nat.le_add_right _ _))
          have hfour : value.length < 4 := by
            rw [show (ascii "AP_AUTH_KEY").length = 11 from rfl,
              show (ascii "ap_key").length = 6 from rfl] at hfits
            omega
          have hcut := (plannedWrites_shortKey hvalue hdecoded hfour fuel (.inr rfl) rest hpair).1
          exact absurd hcut (by decide)
      · obtain rfl := Except.ok.inj hmem
        have hfront : name ++ 0 :: (value ++ 0 :: rest) = (name ++ 0 :: value) ++ 0 :: rest := by simp
        rw [if_neg (by decide), hfront]
        exact drop_left' (by simp)
    rw [hnext] at hrest
    rw [plannedWrites_nul fuel _ hrest, append_nil]

/-- The planned writes of a list of pairs. -/
theorem plannedWrites_pairs_iff (hnames : group.names.isSome)
    (hpairs : ∀ pair ∈ pairs, IsPair group pair.1 pair.2) {fuel : ℕ} (hfuel : pairs.length < fuel)
    (rest : Bytes) :
    plannedWrites group fuel (queryString pairs ++ 0 :: rest) =
      .ok (.done, expectedWrites group pairs) ↔ ∀ pair ∈ pairs, WritesWhole pair := by
  induction pairs generalizing fuel with
  | nil =>
    obtain ⟨fuel, rfl⟩ := Nat.exists_eq_succ_of_ne_zero (Nat.ne_of_gt hfuel)
    exact iff_of_true rfl fun _ hmem ↦ absurd hmem not_mem_nil
  | cons pair pairs ih =>
    obtain ⟨name, value⟩ := pair
    obtain ⟨fuel, rfl⟩ := Nat.exists_eq_succ_of_ne_zero (Nat.ne_of_gt (Nat.zero_lt_of_lt hfuel))
    rw [forall_mem_cons] at hpairs
    obtain ⟨hpair, hpairs⟩ := hpairs
    have ih := ih hpairs (Nat.lt_of_succ_lt_succ hfuel)
    obtain ⟨param, hparam⟩ := Option.isSome_iff_exists.mp hpair.known
    obtain ⟨decoded, hdecoded⟩ := Option.isSome_iff_exists.mp hpair.escapes
    obtain ⟨hne, hplain, hlength⟩ := name_spec hnames hparam
    rw [forall_mem_cons, queryString_cons, expectedWrites_cons hparam hdecoded]
    -- The pair ends at the NUL of the query string or at a `&`.
    obtain ⟨stop, after, hmem, hstop, hmore, hnext⟩ : ∃ stop after,
        (if pairs = [] then 0 :: rest else 38 :: (queryString pairs ++ 0 :: rest)) = stop :: after ∧
          (stop = 38 ∨ stop = 0) ∧ (stop = 38 → pairs ≠ []) ∧
          (if stop == 38 then after else 0 :: after) = queryString pairs ++ 0 :: rest := by
      by_cases hlast : pairs = []
      · exact ⟨0, rest, if_pos hlast, .inr rfl, fun hcut ↦ absurd hcut (by decide), by rw [hlast]; rfl⟩
      · exact ⟨38, _, if_neg hlast, .inl rfl, fun _ ↦ hlast, rfl⟩
    rw [hmem]
    by_cases hfits : param.length ≤ name.length + 1 + value.length
    · obtain ⟨mem, hoverwrite, hdrop⟩ := drop_overwrite hfits after (stop == 38)
      rw [plannedWrites_pair hpair.value_ne hparam hdecoded hne hplain fuel hstop,
        if_neg (Nat.not_le.mpr hpair.short), if_pos hnames, hoverwrite, ok_bind, hdrop, hnext,
        map_eq_ok_iff]
      have hwhole : WritesWhole (name, value) ↔ cstr decoded = decoded := by
        rw [cstr_eq_self_iff]
        constructor
        · exact fun hwhole ↦ hwhole.2 decoded hdecoded
        · intro hnul
          refine ⟨fun hkey ↦ four_le_of_fits hnames hparam hkey hfits, fun other hother ↦ ?_⟩
          rwa [← Option.some.inj (hdecoded.symm.trans hother)]
      rw [hwhole, ← ih]
      constructor
      · rintro ⟨⟨reason, more⟩, hplanned, hresult⟩
        obtain ⟨rfl, hlist⟩ := Prod.mk.inj hresult
        obtain ⟨hcstr, rfl⟩ := writesFor_append_inj.mp hlist
        exact ⟨hcstr, hplanned⟩
      · rintro ⟨hcstr, hplanned⟩
        refine ⟨_, hplanned, ?_⟩
        rw [hcstr]
    · obtain ⟨rfl, rfl, rfl⟩ := hlength.resolve_left fun hle ↦
        hfits (Nat.le_trans hle (Nat.le_add_right _ _))
      have hshort : value.length < 4 := by
        rw [show (ascii "AP_AUTH_KEY").length = 11 from rfl,
          show (ascii "ap_key").length = 6 from rfl] at hfits
        omega
      refine iff_of_false (fun hplanned ↦ ?_) fun hall ↦ absurd (hall.1.1 rfl) (Nat.not_le.mpr hshort)
      obtain ⟨hcut, hlist⟩ := plannedWrites_shortKey hpair.value_ne hdecoded hshort fuel hstop after
        hplanned
      rw [← append_nil (writesFor _ _ _ (cstr _)), writesFor_append_inj] at hlist
      exact expectedWrites_ne_nil hpairs (hmore hcut) hlist.2

end Lists

theorem length_le_queryString (pairs : List (Bytes × Bytes)) :
    pairs.length ≤ (queryString pairs).length := by
  induction pairs with
  | nil => exact Nat.zero_le _
  | cons pair pairs ih =>
    obtain ⟨name, value⟩ := pair
    have hlength := congrArg List.length (queryString_cons name value pairs [])
    simp only [length_append, length_cons, length_nil] at hlength ⊢
    split at hlength
    · subst pairs
      simp only [length_cons, length_nil] at hlength ⊢
      omega
    · simp only [length_cons, length_append, length_nil] at hlength
      omega

/-- For pairs whose names are known and whose values are well formed, `configs_update` does exactly
their writes, in order, if and only if every key for the access point has at least four bytes and no
decoded value has a NUL. -/
theorem configs_update_writes_iff {group : Group} {pairs : List (Bytes × Bytes)}
    (hgroup : group = .wifi ∨ group = .stream)
    (hpairs : ∀ pair ∈ pairs, IsPair group pair.1 pair.2) (rest : Bytes) :
    configsUpdate recordWrite group (queryString pairs ++ 0 :: rest) [] =
      .ok (.done, expectedWrites group pairs) ↔ ∀ pair ∈ pairs, WritesWhole pair := by
  have hnames : group.names.isSome := by
    rcases hgroup with rfl | rfl <;> rfl
  have hfuel : pairs.length < (queryString pairs ++ 0 :: rest).length + 1 := by
    have hle := length_le_queryString pairs
    rw [length_append]
    omega
  rw [← plannedWrites_pairs_iff hnames hpairs hfuel rest, configsUpdate, updateLoop_record]
  cases plannedWrites group _ (queryString pairs ++ 0 :: rest) <;> rfl

/-- A network name and a key for the access point. -/
def networkPairs : List (Bytes × Bytes) :=
  [(ascii "ap_ssid", ascii "my%20cam"), (ascii "ap_key", ascii "12345678")]

/-- A key of three bytes, and another pair after it. -/
def shortKeyPairs : List (Bytes × Bytes) :=
  [(ascii "ap_key", ascii "abc"), (ascii "ap_channel", ascii "6")]

theorem configs_update_writes_network :
    configsUpdate recordWrite .wifi (queryString networkPairs ++ 0 :: ascii "HTTP/1.1") [] =
      .ok (.done, expectedWrites .wifi networkPairs) := by
  have hpairs : ∀ pair ∈ networkPairs, IsPair .wifi pair.1 pair.2 := by decide +kernel
  refine (configs_update_writes_iff (.inl rfl) hpairs _).mpr fun pair hpair ↦ ?_
  have hall : ∀ pair ∈ networkPairs, (pair.1 = ascii "ap_key" → 4 ≤ pair.2.length) ∧
      (0 : UInt8) ∉ (unescape pair.2).getD [] := by decide +kernel
  refine ⟨(hall pair hpair).1, fun decoded hdecoded ↦ ?_⟩
  have hnul := (hall pair hpair).2
  rwa [hdecoded] at hnul

/-- After a key of three bytes the channel is not written, and `configs_update` returns 0. -/
theorem pair_after_short_key_dropped :
    configsUpdate recordWrite .wifi (queryString shortKeyPairs ++ 0 :: ascii "HTTP/1.1") [] =
        .ok (.done, [(ascii "AP_AUTH_MODE", ascii "WPA2PSK"), (ascii "AP_ENCRYPT_TYPE", ascii "AES"),
          (ascii "AP_AUTH_KEY", ascii "abc")]) ∧
      expectedWrites .wifi shortKeyPairs =
        [(ascii "AP_AUTH_MODE", ascii "WPA2PSK"), (ascii "AP_ENCRYPT_TYPE", ascii "AES"),
          (ascii "AP_AUTH_KEY", ascii "abc"), (ascii "AP_CHANNEL", ascii "6")] ∧
      ∀ pair ∈ shortKeyPairs, IsPair .wifi pair.1 pair.2 := by
  decide +kernel

end WisCam.Rest
