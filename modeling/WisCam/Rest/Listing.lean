import WisCam.Rest.Request
import WisCam.Rest.Scanning

/-!
# Listing the parameters

The GET method lists the parameters of a group, or one of them, as the members of a JSON object that
is put together from the values as they are in the file. The lists of the wireless networks get a
wrapper that opens one more brace than it closes.

`listing_json_iff` says when a body is well-formed and has the values. The lists of whole networks
never are, and another list is exactly if every value stands for itself in JSON.
-/

set_option autoImplicit false

namespace WisCam.Rest

open Foundations Json List

/-! ### Lists of parameters -/

/-- The size of the arrays for one parameter, `pBuf` and `pRet`. -/
def paramBufSize : ℕ := 128

/-- The size of the arrays for a list, `pRet` and `respData`. -/
def listBufSize : ℕ := 1024

/-- The text in an array of a given size. -/
def fitIn (size : ℕ) (text : Bytes) : Except Fault Bytes :=
  if text.length < size then .ok text else .error .overflow

/-- A parameter as it is printed. No name in the tables has a dot, for which there is another
format. -/
def memberText (name value : Bytes) : Bytes := 34 :: (name ++ (ascii "\": \"" ++ (value ++ [34])))

/-- The array for the value after `ReadParamStr`, which is cleared before. -/
def paramValue (file : Option Bytes) (name : Bytes) : Except Fault Bytes :=
  (readParamStr file name).map fun value ↦ value.getD []

/-- What `configs_list_all` adds between two parameters, where another object may begin. -/
def addComma (last : Bool) (rest : List Bytes) (ret : Bytes) : Except Fault Bytes :=
  if rest = [] then .ok ret
  else fitIn listBufSize (ret ++ (ascii ", " ++ if last then [123] else []))

/-- The loop of `configs_list_all`. In the combined group an object ends with the gateway of the
access point and another one begins. -/
def listParams (group : Group) (file : Option Bytes) : List Bytes → Bytes → Except Fault Bytes
  | [], ret => .ok ret
  | name :: rest, ret => do
    let value ← paramValue file name
    let buf ← fitIn paramBufSize (memberText name value)
    let last := group == .apstamsg && (strstr (ascii "ap_gateway") buf).isSome
    let ret ← fitIn listBufSize (ret ++ (buf ++ if last then [125] else []))
    let ret ← addComma last rest ret
    listParams group file rest ret

def configsListAll (group : Group) (file : Option Bytes) : Except Fault (Option Bytes) := do
  let ret ← listParams group file group.params []
  .ok (if ret = [] then none else some ret)

/-- What `configs_list` returns: a null pointer, a literal or an array that can be freed. -/
inductive ListText
  | null
  | literal (text : Bytes)
  | allocated (text : Bytes)
deriving DecidableEq, Repr

/-- The parameter that a name in a URI stands for. -/
def listedParam (group : Group) (name : Bytes) : Option Bytes :=
  if group = .stream then streamNames.lookup name else some name

def configsList (group : Group) (file : Option Bytes) (name : Bytes) : Except Fault ListText :=
  match listedParam group name with
  | none => .ok .null
  | some param =>
    if param ∈ group.params then do
      let value ← paramValue file param
      let text ← fitIn paramBufSize (memberText param value)
      .ok (.allocated text)
    else .ok (.literal (ascii "no match"))

/-! ### The GET method -/

/-- The endpoints of `rk_get_method`. -/
inductive GetEndpoint
  | audioLists
  | videoLists
  | wifiLists
  | wifiScan
  | nabtoLists
  | version
deriving DecidableEq, Repr

def GetEndpoint.path : GetEndpoint → Bytes
  | .audioLists => platformApi ++ ascii "audio/lists"
  | .videoLists => platformApi ++ ascii "video/lists"
  | .wifiLists => platformApi ++ ascii "wifi/lists"
  | .wifiScan => platformApi ++ ascii "wifi/scanning"
  | .nabtoLists => platformApi ++ ascii "nabto/lists"
  | .version => platformApi ++ ascii "version"

/-- The endpoints in the order in which `rk_get_method` tests them. -/
def getEndpoints : List GetEndpoint :=
  [.audioLists, .videoLists, .wifiLists, .wifiScan, .nabtoLists, .version]

/-- The first endpoint that is found in a URI. -/
def getEndpoint (uri : Bytes) : Option GetEndpoint :=
  getEndpoints.find? fun endpoint ↦ mgStrstr uri endpoint.path

/-- What the handlers find outside: the files of the groups after the scripts have written them,
whether the scripts succeed, and the result of a scan. -/
structure Device where
  files : Group → Option Bytes
  scripts : Group → Bool
  scanned : Bool
  scanFile : Option Bytes

/-- The answer with a body. -/
def respond (body : Bytes) : Answer := ⟨[200], some body, 0⟩

/-- An answer without a body. -/
def refuse (status : ℕ) : Answer := ⟨[status], none, -1⟩

/-- What is printed for a null pointer. -/
def nullBody : Bytes := ascii "\x7b(null)\x7d"

/-- `sprintf(respData, "\x7b%s\x7d", configs_list_all(group))` and the answer. -/
def answerAll (device : Device) (group : Group) : Except Fault Answer := do
  match ← configsListAll group (device.files group) with
  | none => .ok (respond nullBody)
  | some text =>
    let body ← fitIn listBufSize (123 :: (text ++ [125]))
    .ok (respond body)

/-- The same with the wrapper for a network, after the script has been run. -/
def answerNetwork (device : Device) (group : Group) (title : Bytes) : Except Fault Answer :=
  if device.scripts group then do
    match ← configsListAll group (device.files group) with
    | none => .ok (respond [])
    | some text =>
      let body ← fitIn listBufSize (123 :: 34 :: (title ++ (ascii "\": [\x7b" ++ (text ++
        ascii "\x7d]"))))
      .ok (respond body)
  else .ok (refuse 404)

/-- `sprintf(respData, "\x7b%s\x7d", configs_list(group, name))`, the call of `free` and the
answer. -/
def answerNamed (device : Device) (group : Group) (name : Bytes) : Except Fault Answer := do
  match ← configsList group (device.files group) name with
  | .null => .ok (respond nullBody)
  | .literal _ => .error .badFree
  | .allocated text =>
    let body ← fitIn listBufSize (123 :: (text ++ [125]))
    .ok (respond body)

/-- The lists of one network: all of it if nothing follows in the URI, or the parameter behind the
next byte. -/
def answerPart (device : Device) (group : Group) (title rest : Bytes) : Except Fault Answer :=
  if rest = [] then answerNetwork device group title
  else if device.scripts group then answerNamed device group rest.tail
  else .ok (refuse 404)

/-- The branch of `rk_get_method` for the wireless networks. -/
def answerWifi (device : Device) (host : Bytes) : Except Fault Answer :=
  if host = ascii "list_all" then answerNetwork device .apstamsg (ascii "apstamessages")
  else
    match strstr (ascii "ap") host with
    | some place => answerPart device .apmsg (ascii "apmessage") (host.drop (place + 2))
    | none =>
      match strstr (ascii "sta") host with
      | some place => answerPart device .stamsg (ascii "stamessage") (host.drop (place + 3))
      | none => .ok (refuse 400)

def rkGetMethod (device : Device) (hm : HttpMessage) : Except Fault Answer :=
  match getEndpoint hm.uriText with
  | none => .ok (refuse 501)
  | some .audioLists => .ok (refuse 501)
  | some .videoLists => do
    let _ ← configsListAll .stream (device.files .stream)
    match ← getUriHost hm GetEndpoint.videoLists.path.length with
    | none => .ok ⟨[400, 200], some [], 0⟩
    | some host =>
      if host = ascii "list_all" then answerAll device .stream else answerNamed device .stream host
  | some .wifiLists => do
    match ← getUriHost hm GetEndpoint.wifiLists.path.length with
    | none => .error .null
    | some host => answerWifi device host
  | some .wifiScan => do
    match ← wifiScanning device.scanned device.scanFile with
    | none => .ok (refuse 500)
    | some body => .ok (respond body)
  | some .nabtoLists => do
    let _ ← configsListAll .nabto (device.files .nabto)
    match ← getUriHost hm GetEndpoint.nabtoLists.path.length with
    | none => .ok (refuse 400)
    | some host =>
      if host = ascii "list_all" then answerAll device .nabto else answerNamed device .nabto host
  | some .version => answerAll device .version

/-! ### What is asked for -/

/-- What a request asks for: all parameters of a group or one of them. -/
inductive Listing
  | all (group : Group)
  | one (group : Group) (name : Bytes)
deriving DecidableEq, Repr

/-- A name in a URI, or all parameters. -/
def listingOf (group : Group) (host : Bytes) : Listing :=
  if host = ascii "list_all" then .all group else .one group host

def partListing (group : Group) (rest : Bytes) : Listing :=
  if rest = [] then .all group else .one group rest.tail

def wifiListing (host : Bytes) : Option Listing :=
  if host = ascii "list_all" then some (.all .apstamsg)
  else
    match strstr (ascii "ap") host with
    | some place => some (partListing .apmsg (host.drop (place + 2)))
    | none =>
      match strstr (ascii "sta") host with
      | some place => some (partListing .stamsg (host.drop (place + 3)))
      | none => none

/-- What a GET request asks for, unless it is for something else than a list. -/
def asked (hm : HttpMessage) : Option Listing :=
  match getEndpoint hm.uriText with
  | some .videoLists =>
    match getUriHost hm GetEndpoint.videoLists.path.length with
    | .ok (some host) => some (listingOf .stream host)
    | _ => none
  | some .wifiLists =>
    match getUriHost hm GetEndpoint.wifiLists.path.length with
    | .ok (some host) => wifiListing host
    | _ => none
  | some .nabtoLists =>
    match getUriHost hm GetEndpoint.nabtoLists.path.length with
    | .ok (some host) => some (listingOf .nabto host)
    | _ => none
  | some .version => some (.all .version)
  | _ => none

def Listing.group : Listing → Group
  | .all group => group
  | .one group _ => group

/-- The parameters that are listed. -/
def Listing.params : Listing → List Bytes
  | .all group => group.params
  | .one group name => (listedParam group name).toList

/-- The value that `ReadParamStr` returns for a parameter. -/
def valueOf (file : Option Bytes) (name : Bytes) : Bytes :=
  match paramValue file name with
  | .ok value => value
  | .error _ => []

/-- The parameters that are listed, with their values. -/
def Listing.values (device : Device) (listing : Listing) : List (Bytes × Bytes) :=
  listing.params.map fun name ↦ (name, valueOf (device.files listing.group) name)

/-- The text is JSON and each parameter is there as a string with its value. -/
def ListsParams (body : Bytes) (values : List (Bytes × Bytes)) : Prop :=
  ∃ json, decode body = some json ∧ ∀ pair ∈ values, (∃ inner, HasMember json pair.1 inner) ∧
    ∀ inner, HasMember json pair.1 inner → inner = .string pair.2

/-- The list is not one of a whole network, and a name stands for a parameter. -/
def Listing.IsFlat : Listing → Prop
  | .all group => group ≠ .apmsg ∧ group ≠ .stamsg ∧ group ≠ .apstamsg
  | .one group name => (listedParam group name).isSome

/-! ### Printed members -/

variable {rest : Bytes}

section Members

/-- Members with commas between them. -/
def membersText : List (Bytes × Bytes) → Bytes
  | [] => []
  | [pair] => memberText pair.1 pair.2
  | pair :: rest => memberText pair.1 pair.2 ++ 44 :: 32 :: membersText rest

variable {values : List (Bytes × Bytes)} {depth fuel : ℕ} {tail : Bytes}

theorem memberText_append (name value tail : Bytes) :
    memberText name value ++ tail = stringMember name [32] (value ++ 34 :: tail) := by
  have hmiddle : ascii "\": \"" = [34, 58, 32, 34] := rfl
  rw [memberText, hmiddle, stringMember]
  simp

theorem isBlank_gap : ∀ b ∈ ([32] : Bytes), isBlank b = true := by decide

theorem membersText_cons (pair next : Bytes × Bytes) (rest : List (Bytes × Bytes)) (tail : Bytes) :
    membersText (pair :: next :: rest) ++ tail =
      stringMember pair.1 [32]
        (pair.2 ++ 34 :: 44 :: ([32] ++ (membersText (next :: rest) ++ tail))) := by
  rw [membersText, append_assoc, memberText_append]
  · rfl
  · exact nofun

theorem membersText_single (pair : Bytes × Bytes) (tail : Bytes) :
    membersText [pair] ++ tail = stringMember pair.1 [32] (pair.2 ++ 34 :: tail) := by
  rw [membersText, memberText_append]

theorem sequence_blank (text : Bytes) :
    sequence (member (value depth)) 125 fuel ([32] ++ text) =
      sequence (member (value depth)) 125 fuel text :=
  sequence_congr (member_gap isBlank_gap text) fuel

/-- Members are read with their values if these are plain. -/
theorem sequence_members (hne : values ≠ []) (hnames : ∀ pair ∈ values, IsPlain pair.1)
    (hplain : ∀ pair ∈ values, IsPlain pair.2) (hfuel : values.length ≤ fuel) :
    sequence (member (value (depth + 1))) 125 fuel (membersText values ++ 125 :: tail) =
      some (values.map fun pair ↦ (pair.1, .string pair.2), tail) := by
  induction values generalizing fuel with
  | nil => exact absurd rfl hne
  | cons pair values ih =>
    rw [forall_mem_cons] at hnames hplain
    cases fuel with
    | zero => cases hfuel
    | succ fuel =>
      cases values with
      | nil =>
        rw [membersText_single]
        exact (sequence_stringMember_close hnames.1 isBlank_gap).mpr ⟨hplain.1, rfl⟩
      | cons next values =>
        rw [membersText_cons]
        apply (sequence_stringMember_comma hnames.1 isBlank_gap).mpr
        rw [sequence_blank]
        exact ⟨hplain.1, ih (cons_ne_nil _ _) hnames.2 hplain.2 (Nat.le_of_succ_le_succ hfuel)⟩

theorem exists_stringMember (pair : Bytes × Bytes) (values : List (Bytes × Bytes)) (tail : Bytes) :
    ∃ after, membersText (pair :: values) ++ tail =
      stringMember pair.1 [32] (pair.2 ++ 34 :: after) := by
  cases values with
  | nil => exact ⟨_, membersText_single pair tail⟩
  | cons next values => exact ⟨_, membersText_cons pair next values tail⟩

/-- The first member has the name that was printed for it. -/
theorem name_of_member {first : Bytes × Json} {name text : Bytes} (hname : IsPlain name)
    (hfirst : member (value (depth + 1)) (stringMember name [32] text) = some (first, rest)) :
    ∃ decoded, first = (name, .string decoded) := by
  rw [member_stringMember hname isBlank_gap] at hfirst
  obtain ⟨⟨decoded, after⟩, -, hpair⟩ := Option.map_eq_some_iff.mp hfirst
  exact ⟨decoded, (Prod.mk.inj hpair).1.symm⟩

/-- Members that are read with their values have plain values. -/
theorem isPlain_of_sequence {list : List (Bytes × Json)} (hnames : ∀ pair ∈ values, IsPlain pair.1)
    (hlist : sequence (member (value (depth + 1))) 125 fuel (membersText values ++ 125 :: tail) =
      some (list, rest))
    (hvalues : ∀ pair ∈ values, ∀ json, (pair.1, json) ∈ list → json = .string pair.2) :
    ∀ pair ∈ values, IsPlain pair.2 := by
  induction values generalizing fuel list with
  | nil => exact fun _ hmem ↦ absurd hmem not_mem_nil
  | cons pair values ih =>
    rw [forall_mem_cons] at hnames hvalues ⊢
    obtain ⟨first, after, more, hfirst, rfl⟩ := exists_of_sequence hlist
    obtain ⟨after', htext⟩ := exists_stringMember pair values (125 :: tail)
    rw [htext] at hfirst
    obtain ⟨decoded, rfl⟩ := name_of_member hnames.1 hfirst
    rw [hvalues.1 _ mem_cons_self] at hlist
    cases fuel with
    | zero => cases hlist
    | succ fuel =>
      cases values with
      | nil =>
        -- The list may go on after the last member that was printed.
        rw [hvalues.1 _ mem_cons_self] at hfirst
        refine ⟨((member_stringMember_iff hnames.1 isBlank_gap).mp hfirst).1, ?_⟩
        exact fun _ hmem ↦ absurd hmem not_mem_nil
      | cons next values =>
        rw [membersText_cons] at hlist
        obtain ⟨hplain, hmore⟩ := (sequence_stringMember_comma hnames.1 isBlank_gap).mp hlist
        rw [sequence_blank] at hmore
        refine ⟨hplain, ih hnames.2 hmore fun later hlater json hjson ↦ ?_⟩
        exact hvalues.2 later hlater json (mem_cons_of_mem _ hjson)

theorem isUtf8_members (hnames : ∀ pair ∈ values, ∀ b ∈ pair.1, b < 0x80) (tail : Bytes) :
    isUtf8 (membersText values ++ tail) = (values.all (fun pair ↦ isUtf8 pair.2) && isUtf8 tail) := by
  induction values with
  | nil => rfl
  | cons pair values ih =>
    rw [forall_mem_cons] at hnames
    have hmember (after : Bytes) : isUtf8 (stringMember pair.1 [32] (pair.2 ++ 34 :: after)) =
        (isUtf8 pair.2 && isUtf8 after) := by
      rw [stringMember, isUtf8_cons (by decide), isUtf8_ascii_append hnames.1,
        isUtf8_cons (by decide), isUtf8_cons (by decide), cons_append, nil_append,
        isUtf8_cons (by decide), isUtf8_cons (by decide), isUtf8_cut (by decide)]
    cases values with
    | nil =>
      rw [membersText_single, hmember]
      simp
    | cons next values =>
      rw [membersText_cons, hmember, isUtf8_cons (by decide), cons_append, nil_append,
        isUtf8_cons (by decide), ih hnames.2]
      simp only [all_cons, Bool.and_assoc]

end Members

section Flat

variable {values : List (Bytes × Bytes)}

/-- An object with strings has no members in its members. -/
theorem hasMember_strings {name : Bytes} {json : Json}
    (hmember : HasMember (.object (values.map fun pair ↦ (pair.1, .string pair.2))) name json) :
    ∃ pair ∈ values, pair.1 = name ∧ json = .string pair.2 := by
  cases hmember with
  | here hmem =>
    obtain ⟨pair, hpair, heq⟩ := mem_map.mp hmem
    obtain ⟨rfl, rfl⟩ := Prod.mk.inj heq
    exact ⟨pair, hpair, rfl, rfl⟩
  | inMember hmem hinner =>
    obtain ⟨pair, hpair, heq⟩ := mem_map.mp hmem
    obtain ⟨rfl, rfl⟩ := Prod.mk.inj heq
    cases hinner

theorem length_le_membersText (values : List (Bytes × Bytes)) :
    values.length ≤ (membersText values).length := by
  induction values with
  | nil => exact Nat.le_refl 0
  | cons pair values ih =>
    have hmember : 1 ≤ (memberText pair.1 pair.2).length := Nat.succ_pos _
    cases values with
    | nil => exact hmember
    | cons next values =>
      rw [membersText]
      · simp only [length_cons, length_append] at ih ⊢
        omega
      · exact nofun

/-- How an object that is printed is read. -/
theorem decode_flat (hne : values ≠ []) :
    ∃ depth fuel, values.length ≤ fuel ∧ decode (123 :: (membersText values ++ [125])) =
      if isUtf8 (membersText values ++ [125]) then
        (sequence (member (value (depth + 1))) 125 fuel (membersText values ++ [125])).bind
          fun (list, rest) ↦ if skip rest = [] then some (.object list) else none
      else none := by
  obtain ⟨pair, rest, rfl⟩ := exists_cons_of_ne_nil hne
  obtain ⟨after, hafter⟩ := exists_stringMember pair rest [125]
  refine ⟨(membersText (pair :: rest)).length, (membersText (pair :: rest) ++ [125]).length,
    ?_, ?_⟩
  · rw [length_append]
    exact Nat.le_add_right_of_le (length_le_membersText _)
  · have hdepth : (123 :: (membersText (pair :: rest) ++ [125])).length =
        (membersText (pair :: rest)).length + 1 + 1 := by
      rw [length_cons, length_append]
      rfl
    have hitems : items (member (value ((membersText (pair :: rest)).length + 1))) 125
        (membersText (pair :: rest) ++ [125]) =
        sequence (member (value ((membersText (pair :: rest)).length + 1))) 125
          (membersText (pair :: rest) ++ [125]).length (membersText (pair :: rest) ++ [125]) := by
      rw [hafter, stringMember]
      exact items_eq_sequence (by decide) (by decide)
    rw [decode, isUtf8_cons (by decide), hdepth, value_brace, hitems]
    cases sequence (member (value ((membersText (pair :: rest)).length + 1))) 125
      (membersText (pair :: rest) ++ [125]).length (membersText (pair :: rest) ++ [125]) <;> rfl

/-- An object that is printed has the parameters exactly if their values stand for themselves. -/
theorem listsParams_flat_iff (hne : values ≠ [])
    (hnames : ∀ pair ∈ values, IsPlain pair.1 ∧ ∀ b ∈ pair.1, b < 0x80)
    (hvalues : ∀ pair ∈ values, ∀ other ∈ values, pair.1 = other.1 → pair.2 = other.2) :
    ListsParams (123 :: (membersText values ++ [125])) values ↔
      ∀ pair ∈ values, IsPlain pair.2 ∧ isUtf8 pair.2 = true := by
  obtain ⟨depth, fuel, hfuel, hdecode⟩ := decode_flat hne
  have hplainNames : ∀ pair ∈ values, IsPlain pair.1 := fun pair hpair ↦ (hnames pair hpair).1
  have hutf8 : isUtf8 (membersText values ++ [125]) = values.all fun pair ↦ isUtf8 pair.2 := by
    rw [isUtf8_members (fun pair hpair ↦ (hnames pair hpair).2), show isUtf8 [125] = true by decide,
      Bool.and_true]
  rw [hutf8] at hdecode
  constructor
  · rintro ⟨json, hjson, hmembers⟩
    rw [hdecode] at hjson
    split at hjson
    · rename_i hall
      obtain ⟨⟨list, rest⟩, hlist, hobject⟩ := Option.bind_eq_some_iff.mp hjson
      have hjsonList : json = .object list := by
        dsimp only at hobject
        split at hobject
        · exact (Option.some.inj hobject).symm
        · cases hobject
      have hplain := isPlain_of_sequence hplainNames hlist fun pair hpair inner hinner ↦ by
        apply (hmembers pair hpair).2
        rw [hjsonList]
        exact .here hinner
      exact fun pair hpair ↦ ⟨hplain pair hpair, all_eq_true.mp hall pair hpair⟩
    · cases hjson
  · intro hclean
    have hall : (values.all fun pair ↦ isUtf8 pair.2) = true :=
      all_eq_true.mpr fun pair hpair ↦ (hclean pair hpair).2
    rw [if_pos hall, sequence_members hne hplainNames (fun pair hpair ↦ (hclean pair hpair).1) hfuel]
      at hdecode
    refine ⟨_, hdecode, fun pair hpair ↦ ⟨⟨.string pair.2, .here ?_⟩, fun inner hinner ↦ ?_⟩⟩
    · exact mem_map.mpr ⟨pair, hpair, rfl⟩
    · obtain ⟨other, hother, hname, rfl⟩ := hasMember_strings hinner
      rw [hvalues pair hpair other hother hname.symm]

end Flat

/-! ### What the server sends -/

section Sent

variable {device : Device} {group : Group} {file : Option Bytes} {names : List Bytes} {text ret : Bytes}

/-- The parameters with their values. -/
def namedValues (file : Option Bytes) (names : List Bytes) : List (Bytes × Bytes) :=
  names.map fun name ↦ (name, valueOf file name)

theorem valueOf_eq {name value : Bytes} (hvalue : paramValue file name = .ok value) :
    valueOf file name = value := by
  rw [valueOf, hvalue]

theorem eq_of_fitIn {size : ℕ} {fitted : Bytes} (hfits : fitIn size text = .ok fitted) :
    fitted = text := by
  unfold fitIn at hfits
  split at hfits
  · exact (Except.ok.inj hfits).symm
  · cases hfits

theorem membersText_named_cons (name : Bytes) (hne : names ≠ []) :
    membersText (namedValues file (name :: names)) =
      memberText name (valueOf file name) ++ (ascii ", " ++ membersText (namedValues file names)) := by
  obtain ⟨next, names, rfl⟩ := exists_cons_of_ne_nil hne
  rfl

/-- A list of parameters, except in the combined group, has them as members. -/
theorem listParams_ok (hgroup : group ≠ .apstamsg) (hlist : listParams group file names ret = .ok text) :
    text = ret ++ membersText (namedValues file names) := by
  induction names generalizing ret with
  | nil => rw [← Except.ok.inj hlist, namedValues, map_nil, membersText, append_nil]
  | cons name names ih =>
    obtain ⟨value, hvalue, hlist⟩ := bind_eq_ok_iff.mp hlist
    obtain ⟨buf, hbuf, hlist⟩ := bind_eq_ok_iff.mp hlist
    obtain ⟨ret₁, hret₁, hlist⟩ := bind_eq_ok_iff.mp hlist
    obtain ⟨ret₂, hret₂, hlist⟩ := bind_eq_ok_iff.mp hlist
    have hsingle : (group == Group.apstamsg) = false := beq_eq_false_iff_ne.mpr hgroup
    have hfirst := eq_of_fitIn hret₁
    rw [hsingle, Bool.false_and, if_neg Bool.false_ne_true, append_nil, eq_of_fitIn hbuf,
      ← valueOf_eq hvalue] at hfirst
    rw [ih hlist]
    unfold addComma at hret₂
    split at hret₂
    · rename_i hempty
      rw [← Except.ok.inj hret₂, hfirst, hempty, namedValues, map_nil, membersText, append_nil]
      rfl
    · rename_i hne
      have hsecond := eq_of_fitIn hret₂
      rw [hsingle, Bool.false_and, if_neg Bool.false_ne_true, append_nil] at hsecond
      rw [membersText_named_cons name hne, hsecond, hfirst]
      simp

/-- What the server sends for all parameters. -/
theorem answerAll_ok {answer : Answer} (hgroup : group ≠ .apstamsg) (hparams : group.params ≠ [])
    (hanswer : answerAll device group = .ok answer) :
    answer.body = some (123 :: (membersText (namedValues (device.files group) group.params) ++
      [125])) := by
  obtain ⟨list, hlist, hanswer⟩ := bind_eq_ok_iff.mp hanswer
  obtain ⟨ret, hret, hlist⟩ := bind_eq_ok_iff.mp hlist
  have htext := listParams_ok hgroup hret
  rw [nil_append] at htext
  have hsome : ret ≠ [] := by
    have hlength := length_le_membersText (namedValues (device.files group) group.params)
    rw [← htext, namedValues, length_map] at hlength
    rintro rfl
    exact hparams (length_eq_zero_iff.mp (Nat.le_zero.mp hlength))
  rw [if_neg hsome] at hlist
  obtain rfl := Except.ok.inj hlist
  obtain ⟨body, hbody, hanswer⟩ := bind_eq_ok_iff.mp hanswer
  obtain rfl := Except.ok.inj hanswer
  rw [eq_of_fitIn hbody, htext]
  rfl

/-- What the server sends for one parameter, or for a name that stands for none. -/
theorem answerNamed_ok {name : Bytes} {answer : Answer}
    (hanswer : answerNamed device group name = .ok answer) :
    listedParam group name = none ∧ answer.body = some nullBody ∨
      ∃ param ∈ group.params, listedParam group name = some param ∧
        answer.body =
          some (123 :: (membersText (namedValues (device.files group) [param]) ++ [125])) := by
  obtain ⟨list, hlist, hanswer⟩ := bind_eq_ok_iff.mp hanswer
  unfold configsList at hlist
  split at hlist
  · rename_i hparam
    obtain rfl := Except.ok.inj hlist
    obtain rfl := Except.ok.inj hanswer
    exact .inl ⟨hparam, rfl⟩
  · rename_i param hparam
    split at hlist
    · rename_i hknown
      obtain ⟨value, hvalue, hlist⟩ := bind_eq_ok_iff.mp hlist
      obtain ⟨text, htext, hlist⟩ := bind_eq_ok_iff.mp hlist
      obtain rfl := Except.ok.inj hlist
      obtain ⟨body, hbody, hanswer⟩ := bind_eq_ok_iff.mp hanswer
      obtain rfl := Except.ok.inj hanswer
      refine .inr ⟨param, hknown, hparam, ?_⟩
      rw [eq_of_fitIn hbody, eq_of_fitIn htext, ← valueOf_eq hvalue]
      rfl
    · obtain rfl := Except.ok.inj hlist
      cases hanswer

variable {title : Bytes}

/-- What the server sends for a whole network begins with a brace and does not end with one. -/
theorem answerNetwork_ok {body : Bytes} {answer : Answer}
    (hanswer : answerNetwork device group title = .ok answer) (hbody : answer.body = some body) :
    ∃ front, body = [] ∨ body = 123 :: (front ++ [93]) := by
  unfold answerNetwork at hanswer
  split at hanswer
  · obtain ⟨list, -, hanswer⟩ := bind_eq_ok_iff.mp hanswer
    cases list with
    | none =>
      obtain rfl := Except.ok.inj hanswer
      exact ⟨[], .inl (Option.some.inj hbody).symm⟩
    | some text =>
      obtain ⟨printed, hprinted, hanswer⟩ := bind_eq_ok_iff.mp hanswer
      obtain rfl := Except.ok.inj hanswer
      have hclose : ascii "\x7d]" = [125, 93] := rfl
      refine ⟨34 :: (title ++ (ascii "\": [\x7b" ++ (text ++ [125]))), .inr ?_⟩
      rw [← Option.some.inj hbody, eq_of_fitIn hprinted, hclose]
      simp
  · obtain rfl := Except.ok.inj hanswer
    cases hbody

/-- Such a text is not JSON. -/
theorem decode_network {front body : Bytes} (hbody : body = [] ∨ body = 123 :: (front ++ [93])) :
    decode body = none := by
  rcases hbody with rfl | rfl
  · rfl
  · cases hdecode : decode (123 :: (front ++ [93])) with
    | none => rfl
    | some json =>
      obtain ⟨raw, blanks, hsplit, hblanks⟩ := ends_of_decode_brace hdecode
      have hlast : (raw ++ 125 :: blanks).getLast? = some 93 := by
        rw [← hsplit, List.getLast?_concat]
      rw [List.getLast?_append, List.getLast?_cons] at hlast
      cases hend : blanks.getLast? with
      | none =>
        rw [hend] at hlast
        exact absurd (Option.some.inj hlast) (by decide)
      | some b =>
        rw [hend] at hlast
        obtain rfl : b = 93 := Option.some.inj hlast
        exact absurd (hblanks _ (mem_of_getLast? hend)) (by decide)

/-- What is sent for a listing: an object with the parameters, or a text that is not JSON. -/
def SentFor (device : Device) (listing : Listing) (body : Bytes) : Prop :=
  (listing.IsFlat ∧ listing.params ≠ [] ∧ (∀ name ∈ listing.params, name ∈ listing.group.params) ∧
      body = 123 :: (membersText (listing.values device) ++ [125])) ∨
    (¬listing.IsFlat ∧ decode body = none)

variable {answer : Answer} {body : Bytes}

theorem sentFor_all (hgroup : group = .stream ∨ group = .nabto ∨ group = .version)
    (hanswer : answerAll device group = .ok answer) (hbody : answer.body = some body) :
    SentFor device (.all group) body := by
  have hflat : (Listing.all group).IsFlat ∧ group.params ≠ [] := by
    rcases hgroup with rfl | rfl | rfl <;> exact ⟨⟨by decide, by decide, by decide⟩, by decide⟩
  rw [answerAll_ok hflat.1.2.2 hflat.2 hanswer] at hbody
  exact .inl ⟨hflat.1, hflat.2, fun _ hmem ↦ hmem, (Option.some.inj hbody).symm⟩

theorem sentFor_one {name : Bytes} (hanswer : answerNamed device group name = .ok answer)
    (hbody : answer.body = some body) : SentFor device (.one group name) body := by
  obtain ⟨hparam, hsent⟩ | ⟨param, hknown, hparam, hsent⟩ := answerNamed_ok hanswer
  · rw [hsent] at hbody
    obtain rfl := Option.some.inj hbody
    refine .inr ⟨?_, Option.isNone_iff_eq_none.mp (by decide)⟩
    rw [Listing.IsFlat, hparam]
    exact Bool.false_ne_true
  have hparams : (Listing.one group name).params = [param] := by
    rw [Listing.params, hparam]
    rfl
  rw [hsent] at hbody
  refine .inl ⟨Option.isSome_of_eq_some hparam, ?_, ?_, ?_⟩
  · rw [hparams]
    exact cons_ne_nil _ _
  · rw [hparams]
    exact fun other hmem ↦ mem_singleton.mp hmem ▸ hknown
  · rw [Listing.values, hparams]
    exact (Option.some.inj hbody).symm

theorem sentFor_listingOf {host : Bytes} (hgroup : group = .stream ∨ group = .nabto)
    (hanswer : (if host = ascii "list_all" then answerAll device group
      else answerNamed device group host) = .ok answer)
    (hbody : answer.body = some body) : SentFor device (listingOf group host) body := by
  unfold listingOf
  split at hanswer
  · rw [if_pos ‹_›]
    exact sentFor_all (hgroup.imp_right .inl) hanswer hbody
  · rw [if_neg ‹_›]
    exact sentFor_one hanswer hbody

theorem sentFor_network (hgroup : group = .apmsg ∨ group = .stamsg ∨ group = .apstamsg)
    (hanswer : answerNetwork device group title = .ok answer) (hbody : answer.body = some body) :
    SentFor device (.all group) body := by
  obtain ⟨front, htext⟩ := answerNetwork_ok hanswer hbody
  refine .inr ⟨fun hflat ↦ ?_, decode_network htext⟩
  rcases hgroup with rfl | rfl | rfl
  · exact hflat.1 rfl
  · exact hflat.2.1 rfl
  · exact hflat.2.2 rfl

theorem sentFor_part (hgroup : group = .apmsg ∨ group = .stamsg)
    (hanswer : answerPart device group title rest = .ok answer) (hbody : answer.body = some body) :
    SentFor device (partListing group rest) body := by
  unfold answerPart at hanswer
  unfold partListing
  split at hanswer
  · rw [if_pos ‹_›]
    exact sentFor_network (hgroup.imp_right .inl) hanswer hbody
  · rw [if_neg ‹_›]
    split at hanswer
    · exact sentFor_one hanswer hbody
    · obtain rfl := Except.ok.inj hanswer
      cases hbody

theorem sentFor_wifi {host : Bytes} {listing : Listing} (hlisting : wifiListing host = some listing)
    (hanswer : answerWifi device host = .ok answer) (hbody : answer.body = some body) :
    SentFor device listing body := by
  unfold answerWifi at hanswer
  unfold wifiListing at hlisting
  split at hanswer
  · rw [if_pos ‹_›] at hlisting
    obtain rfl := Option.some.inj hlisting
    exact sentFor_network (.inr (.inr rfl)) hanswer hbody
  · rw [if_neg ‹_›] at hlisting
    cases hap : strstr (ascii "ap") host with
    | some place =>
      rw [hap] at hanswer hlisting
      obtain rfl := Option.some.inj hlisting
      exact sentFor_part (.inl rfl) hanswer hbody
    | none =>
      rw [hap] at hanswer hlisting
      cases hsta : strstr (ascii "sta") host with
      | some place =>
        rw [hsta] at hanswer hlisting
        obtain rfl := Option.some.inj hlisting
        exact sentFor_part (.inr rfl) hanswer hbody
      | none =>
        rw [hsta] at hlisting
        cases hlisting

/-- What is sent for a request that asks for a list. -/
theorem sentFor_asked {hm : HttpMessage} {listing : Listing} (hasked : asked hm = some listing)
    (hanswer : rkGetMethod device hm = .ok answer) (hbody : answer.body = some body) :
    SentFor device listing body := by
  unfold asked at hasked
  unfold rkGetMethod at hanswer
  cases hendpoint : getEndpoint hm.uriText with
  | none =>
    rw [hendpoint] at hasked
    cases hasked
  | some endpoint =>
    rw [hendpoint] at hasked hanswer
    cases endpoint with
    | audioLists | wifiScan => cases hasked
    | version =>
      obtain rfl := Option.some.inj hasked
      exact sentFor_all (.inr (.inr rfl)) hanswer hbody
    | videoLists | nabtoLists =>
      obtain ⟨list, -, hanswer⟩ := bind_eq_ok_iff.mp hanswer
      obtain ⟨host, hhost, hanswer⟩ := bind_eq_ok_iff.mp hanswer
      dsimp only at hasked
      rw [hhost] at hasked
      cases host with
      | none => cases hasked
      | some host =>
        obtain rfl := Option.some.inj hasked
        exact sentFor_listingOf (by decide) hanswer hbody
    | wifiLists =>
      obtain ⟨host, hhost, hanswer⟩ := bind_eq_ok_iff.mp hanswer
      dsimp only at hasked
      rw [hhost] at hasked
      cases host with
      | none => cases hasked
      | some host => exact sentFor_wifi hasked hanswer hbody

end Sent

/-- For a request that asks for a list and gets a body: the body is JSON and each listed parameter
is there as a string with the value that was read for it, exactly if it is not the list of a whole
network, a name that is given stands for a parameter, and the values stand for themselves in JSON. -/
theorem listing_json_iff {device : Device} {hm : HttpMessage} {answer : Answer} {body : Bytes}
    {listing : Listing} (hasked : asked hm = some listing)
    (hanswer : rkGetMethod device hm = .ok answer) (hbody : answer.body = some body) :
    ListsParams body (listing.values device) ↔
      listing.IsFlat ∧ ∀ pair ∈ listing.values device, IsPlain pair.2 ∧ isUtf8 pair.2 = true := by
  rcases sentFor_asked hasked hanswer hbody with ⟨hflat, hne, hknown, rfl⟩ | ⟨hnetwork, hnone⟩
  · have hvalues : listing.values device ≠ [] := by
      rw [Listing.values, ne_eq, map_eq_nil_iff]
      exact hne
    have htable : ∀ group : Group, ∀ name ∈ group.params, IsPlain name ∧ ∀ b ∈ name, b < 0x80 := by
      intro group
      cases group <;> decide +kernel
    rw [listsParams_flat_iff hvalues, and_iff_right hflat]
    · intro pair hpair
      obtain ⟨name, hname, rfl⟩ := mem_map.mp hpair
      exact htable _ name (hknown name hname)
    · intro pair hpair other hother hsame
      obtain ⟨name, -, rfl⟩ := mem_map.mp hpair
      obtain ⟨name', -, rfl⟩ := mem_map.mp hother
      exact congrArg (valueOf _) hsame
  · constructor
    · rintro ⟨json, hdecode, -⟩
      rw [hnone] at hdecode
      cases hdecode
    · exact fun hboth ↦ absurd hboth.1 hnetwork

/-- A GET request for a URI. -/
def getRequest (uri : Bytes) : HttpMessage where
  mem := ascii "GET " ++ (uri ++ (ascii " HTTP/1.1\r\n\r\n" ++ [0]))
  method := ⟨0, 3⟩
  uri := ⟨4, uri.length⟩
  query := none

/-- A device whose files all have the same text. -/
def deviceWith (text : Bytes) : Device where
  files := fun _ ↦ some text
  scripts := fun _ ↦ true
  scanned := true
  scanFile := none

/-- A request for the version. -/
def versionRequest : HttpMessage := getRequest (ascii "/wiscam.api/v1/version")

theorem listing_json_version :
    rkGetMethod (deviceWith (ascii "version 1.0.3\n")) versionRequest =
        .ok ⟨[200], some (ascii "\x7b\"version\": \"1.0.3\"\x7d"), 0⟩ ∧
      ListsParams (ascii "\x7b\"version\": \"1.0.3\"\x7d") [(ascii "version", ascii "1.0.3")] := by
  have hanswer : rkGetMethod (deviceWith (ascii "version 1.0.3\n")) versionRequest =
      .ok ⟨[200], some (ascii "\x7b\"version\": \"1.0.3\"\x7d"), 0⟩ := by decide +kernel
  have hasked : asked versionRequest = some (.all .version) := by decide +kernel
  have hvalues : Listing.values (deviceWith (ascii "version 1.0.3\n")) (.all .version) =
      [(ascii "version", ascii "1.0.3")] := by decide +kernel
  refine ⟨hanswer, ?_⟩
  rw [← hvalues]
  refine (listing_json_iff hasked hanswer rfl).mpr ⟨⟨by decide, by decide, by decide⟩, ?_⟩
  rw [hvalues]
  decide

/-- A request for the parameters of the access point. -/
def apRequest : HttpMessage := getRequest (ascii "/wiscam.api/v1/wifi/lists/ap")

/-- What is sent for it. -/
def apBody : Bytes :=
  ascii "\x7b\"apmessage\": [\x7b\"ap_ssid\": \"cam\", \"ap_key\": \"\", \"ap_bssid\": \"\", " ++
    ascii "\"ap_ipaddr\": \"\", \"ap_channel\": \"\", \"ap_gateway\": \"\"\x7d]"

/-- The last brace is missing. -/
theorem network_without_brace :
    rkGetMethod (deviceWith (ascii "ap_ssid cam\n")) apRequest = .ok ⟨[200], some apBody, 0⟩ ∧
      asked apRequest = some (.all .apmsg) ∧ decode apBody = none :=
  ⟨by decide +kernel, by decide +kernel, Option.isNone_iff_eq_none.mp (by decide +kernel)⟩

end WisCam.Rest
