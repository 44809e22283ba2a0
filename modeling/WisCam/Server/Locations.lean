import WisCam.Foundations.Scan
import WisCam.Server.Describe
import WisCam.Server.Tcp

/-!
# Looking up locations

`find_rtsp_location` takes the path of a URI, computes how long it is without a track and a slash at
its end, and asks `node_find_location` for the first location whose path is a prefix of it. The test
that the prefix ends at a slash reads `loc->path[len]`, where `len` is the length of what is looked
for: for a location with a shorter path that is a byte behind the terminating NUL, whatever stands
there (`passes_iff`).

The lookup is compared with what it is for (`Names`): the first location whose path is the path
looked for, or a prefix of it that ends just before a slash. The second part relates the lookups of
DESCRIBE and SETUP, for the URLs that a client builds from the Content-Base header and the control
lines of the answer to a DESCRIBE.
-/

set_option autoImplicit false

namespace WisCam.Server

open Foundations Message Program List

variable {path : Bytes} {len : ℕ} {node : LocNode} {nodes : List LocNode}

/-! ### The path that is looked for -/

theorem getElem?_of_strrchr {b : UInt8} {text : Bytes} {index : ℕ}
    (hfound : strrchr b text = some index) : text[index]? = some b := by
  induction text generalizing index with
  | nil => exact absurd hfound nofun
  | cons first rest ih =>
    rw [strrchr] at hfound
    cases hrest : strrchr b rest with
    | some later =>
      rw [hrest] at hfound
      rw [← Option.some.inj hfound, List.getElem?_cons_succ]
      exact ih hrest
    | none =>
      rw [hrest] at hfound
      dsimp only at hfound
      split_ifs at hfound with hfirst
      rw [← Option.some.inj hfound, List.getElem?_cons_zero, hfirst]

theorem strrchr_eq_none {b : UInt8} {text : Bytes} (hb : b ∉ text) : strrchr b text = none := by
  induction text with
  | nil => rfl
  | cons first rest ih =>
    rw [mem_cons, not_or] at hb
    rw [strrchr, ih hb.2]
    exact if_neg (Ne.symm hb.1)

/-- The last occurrence in a text is the one that no other follows. -/
theorem strrchr_append_cons {b : UInt8} (front : Bytes) {back : Bytes} (hback : b ∉ back) :
    strrchr b (front ++ b :: back) = some front.length := by
  induction front with
  | nil =>
    rw [nil_append, strrchr, strrchr_eq_none hback]
    exact if_pos rfl
  | cons first front ih =>
    rw [cons_append, strrchr, ih]
    rfl

/-- A last segment that is `track` with a number behind it is split off. -/
theorem splitTrack_of_number (own : Bytes) {number : Bytes} {value : ℤ}
    (hslash : (47 : UInt8) ∉ number) (hread : strtol number = (value, number.length)) :
    splitTrack (own ++ 47 :: (ascii "track" ++ number)) = (value, own.length) := by
  have hsegment : (47 : UInt8) ∉ ascii "track" ++ number := by
    rw [mem_append, not_or]
    exact ⟨by decide, hslash⟩
  have hnumber : (own ++ 47 :: (ascii "track" ++ number)).drop (own.length + 6) = number := by
    rw [List.drop_append, drop_eq_nil_of_le (Nat.le_add_right _ _), nil_append,
      Nat.add_sub_cancel_left]
    rfl
  have hname : sameFirst 6 (47 :: (ascii "track" ++ number)) (ascii "/track") = true := by
    rw [sameFirst, beq_iff_eq]
    rfl
  unfold splitTrack
  rw [strrchr_append_cons own hsegment]
  dsimp only
  rw [drop_left, if_pos hname, hnumber, hread]
  dsimp only
  rw [if_pos rfl]

/-- The length of the path that is looked for, in the path of a URI. -/
def lookupLength (path : Bytes) (wantTrack : Bool) : ℕ :=
  trimSlash path (if wantTrack then (splitTrack path).2 else path.length)

variable {uri : Bytes}

theorem locationPath_eq (hpath : getLocalPath uri = some path) (wantTrack : Bool) :
    locationPath uri wantTrack = some (path, lookupLength path wantTrack,
      if wantTrack then (splitTrack path).1 else -1) := by
  rw [locationPath, hpath]
  cases wantTrack <;> rfl

/-- The path that is looked for ends with the path of the URI or just before a slash of it. -/
def EndsAtSlash (path : Bytes) (len : ℕ) : Prop := path[len]? = some 47 ∨ len = path.length

theorem endsAtSlash_splitTrack (path : Bytes) : EndsAtSlash path (splitTrack path).2 := by
  unfold splitTrack
  split
  · rename_i c hfound
    split_ifs with htrack
    · dsimp only
      split_ifs with hread
      · exact Or.inl (getElem?_of_strrchr hfound)
      · exact Or.inr rfl
    · exact Or.inr rfl
  · exact Or.inr rfl

theorem endsAtSlash_trimSlash (hend : EndsAtSlash path len) :
    EndsAtSlash path (trimSlash path len) := by
  unfold trimSlash
  split_ifs with hslash
  · exact Or.inl hslash.2
  · exact hend

theorem endsAtSlash_lookupLength (path : Bytes) (wantTrack : Bool) :
    EndsAtSlash path (lookupLength path wantTrack) := by
  refine endsAtSlash_trimSlash ?_
  cases wantTrack with
  | true => exact endsAtSlash_splitTrack path
  | false => exact Or.inr rfl

theorem EndsAtSlash.le_length (hend : EndsAtSlash path len) : len ≤ path.length := by
  rcases hend with hslash | rfl
  · obtain ⟨hlt, -⟩ := List.getElem?_eq_some_iff.mp hslash
    exact Nat.le_of_lt hlt
  · exact Nat.le_refl _

/-! ### The test of `node_find_location` -/

/-- The condition of the loop. -/
def LocNode.passes (node : LocNode) (path : Bytes) (len : ℕ) : Bool :=
  sameFirst node.path.length path node.path && (node.byteAt len == 47 || node.byteAt len == 0)

theorem sameFirst_length_iff {q : Bytes} : sameFirst q.length path q = true ↔ q <+: path := by
  rw [sameFirst, take_length, beq_iff_eq, prefix_iff_eq_take, eq_comm]

theorem LocNode.byteAt_of_lt {index : ℕ} (hindex : node.path.length < index) :
    node.byteAt index = node.stale index := by
  rw [LocNode.byteAt, List.getElem?_eq_none (Nat.le_of_lt hindex)]
  exact if_neg (Nat.ne_of_gt hindex)

/-- A location passes if its path is a prefix that is long enough. A shorter one passes or not with
a byte behind the end of its string. -/
theorem passes_iff (hend : EndsAtSlash path len) :
    node.passes path len = true ↔ node.path <+: path ∧
      (len ≤ node.path.length ∨ node.stale len = 47 ∨ node.stale len = 0) := by
  rw [LocNode.passes, Bool.and_eq_true, sameFirst_length_iff, Bool.or_eq_true, beq_iff_eq,
    beq_iff_eq]
  refine and_congr_right fun hstarts ↦ ?_
  rcases Nat.lt_trichotomy len node.path.length with hlt | heq | hgt
  · have hbyte : node.byteAt len = 47 := by
      have hget : node.path[len]? = path[len]? := by
        obtain ⟨rest, rfl⟩ := hstarts
        rw [List.getElem?_append_left hlt]
      rcases hend with hslash | rfl
      · rw [LocNode.byteAt, hget, hslash]
      · exact absurd hstarts.length_le (Nat.not_le.mpr hlt)
    exact iff_of_true (Or.inl hbyte) (Or.inl (Nat.le_of_lt hlt))
  · have hbyte : node.byteAt len = 0 := by
      rw [LocNode.byteAt, List.getElem?_eq_none (Nat.le_of_eq heq.symm)]
      exact if_pos heq
    exact iff_of_true (Or.inr hbyte) (Or.inl (Nat.le_of_eq heq))
  · rw [LocNode.byteAt_of_lt hgt]
    exact ⟨Or.inr, fun h ↦ h.resolve_left (Nat.not_le.mpr hgt)⟩

/-- `find_rtsp_location` returns if the path fits into the caller's array. -/
theorem findRtspLocation_eq {uri : Bytes} {base : Option ℕ} {wantTrack : Bool} {s : State}
    (hpath : getLocalPath uri = some path)
    (hbase : ∀ size ∈ base, lookupLength path wantTrack < size) :
    findRtspLocation uri base wantTrack s =
      (.ok (((s.rtspLocs.map RtspLocation.node).findIdx?
          (·.passes path (lookupLength path wantTrack))).bind
            fun loc ↦ s.rtspLocs[loc]?.map (loc, ·),
        if wantTrack then (splitTrack path).1 else -1), s) := by
  have hroom : ¬ base.any (· ≤ lookupLength path wantTrack) = true := by
    cases base with
    | none => exact nofun
    | some size =>
      intro hover
      exact absurd (hbase size rfl) (Nat.not_lt.mpr (of_decide_eq_true hover))
  rw [findRtspLocation, locationPath_eq hpath]
  dsimp only
  rw [if_neg hroom, get_bind_apply]
  rfl

/-! ### What the lookup is for -/

/-- A number in a URI: digits, with a sign in front of them or not. -/
def isNumber (text : Bytes) : Bool :=
  let digits := if text.head? = some 45 ∨ text.head? = some 43 then text.drop 1 else text
  !digits.isEmpty && digits.all isDigit

/-- A path without the track that its last segment names. -/
def withoutTrack (path : Bytes) : Bytes :=
  match strrchr 47 path with
  | some c =>
    if sameFirst 6 (path.drop c) (ascii "/track") && isNumber (path.drop (c + 6)) then path.take c
    else path
  | none => path

/-- A path without one slash at its end. The root stays. -/
def withoutSlash (path : Bytes) : Bytes :=
  if 1 < path.length ∧ path.getLast? = some 47 then path.dropLast else path

/-- The path that a URI names. -/
def namedPath (path : Bytes) (wantTrack : Bool) : Bytes :=
  withoutSlash (if wantTrack then withoutTrack path else path)

/-- The path `q` of a location stands for `p`: it is `p`, or a prefix of it that ends just before a
slash. -/
def Names (p q : Bytes) : Prop := q = p ∨ q <+: p ∧ p[q.length]? = some 47

instance (p q : Bytes) : Decidable (Names p q) := inferInstanceAs (Decidable (_ ∨ _ ∧ _))

/-- With these location paths the lookup gives the first location that stands for the path of the
URI, whatever stands behind the strings. -/
def FindsNamed (paths : List Bytes) (uri path : Bytes) (wantTrack : Bool) : Prop :=
  ∀ (s : State) (base : Option ℕ), s.rtspLocs.map (fun loc ↦ loc.node.path) = paths →
    (∀ size ∈ base, lookupLength path wantTrack < size) →
    ∃ track, findRtspLocation uri base wantTrack s =
      (.ok ((paths.findIdx? fun q ↦ decide (Names (namedPath path wantTrack) q)).bind
        fun loc ↦ s.rtspLocs[loc]?.map (loc, ·), track), s)

theorem isPrefix_withoutTrack (path : Bytes) : withoutTrack path <+: path := by
  unfold withoutTrack
  split
  · split_ifs
    · exact List.take_prefix _ _
    · exact prefix_rfl
  · exact prefix_rfl

theorem isPrefix_namedPath (path : Bytes) (wantTrack : Bool) :
    namedPath path wantTrack <+: path := by
  have hslash (text : Bytes) : withoutSlash text <+: text := by
    unfold withoutSlash
    split_ifs
    · exact List.dropLast_prefix _
    · exact prefix_rfl
  refine (hslash _).trans ?_
  cases wantTrack with
  | true => exact isPrefix_withoutTrack path
  | false => exact prefix_rfl

theorem Names.isPrefix {p q : Bytes} (hnames : Names p q) : q <+: p := by
  rcases hnames with rfl | ⟨hstarts, -⟩
  · exact prefix_rfl
  · exact hstarts

/-- An open location with this path, and one byte all behind it. -/
def plainLocation (stale : UInt8) (path : Bytes) : RtspLocation :=
  ⟨⟨path, fun _ ↦ stale⟩, [], [], [], 0⟩

/-- Such locations with these paths. -/
def locationsAt (paths : List Bytes) (stale : UInt8) : List RtspLocation :=
  paths.map (plainLocation stale)

/-- A server with these locations and nothing else. -/
def lookupState (paths : List Bytes) (stale : UInt8) : State :=
  initial ⟨locationsAt paths stale, [], []⟩

/-- The lookup among these locations, as the index. -/
theorem findIdx?_locationsAt (paths : List Bytes) (stale : UInt8) (hend : EndsAtSlash path len) :
    ((locationsAt paths stale).map RtspLocation.node).findIdx? (·.passes path len) =
      paths.findIdx? fun q ↦ decide (q <+: path ∧ (len ≤ q.length ∨ stale = 47 ∨ stale = 0)) := by
  rw [locationsAt, map_map, List.findIdx?_map]
  congr 1
  funext q
  rw [Bool.eq_iff_iff, decide_eq_true_iff]
  exact passes_iff hend

variable {locs : List RtspLocation}

theorem map_fst_found {paths : List Bytes} {test : Bytes → Bool}
    (hlength : paths.length = locs.length) :
    ((paths.findIdx? test).bind fun loc ↦ locs[loc]?.map (loc, ·)).map Prod.fst =
      paths.findIdx? test := by
  cases hfound : paths.findIdx? test with
  | none => rfl
  | some loc =>
    obtain ⟨hlt, -⟩ := List.findIdx?_eq_some_iff_getElem.mp hfound
    rw [Option.bind_some, List.getElem?_eq_getElem (hlength ▸ hlt)]
    rfl

/-- What `FindsNamed` says about the server whose locations have one byte behind their strings. -/
theorem FindsNamed.findIdx?_eq {paths : List Bytes} {wantTrack : Bool}
    (hfinds : FindsNamed paths uri path wantTrack) (hpath : getLocalPath uri = some path)
    (stale : UInt8) :
    (paths.findIdx? fun q ↦ decide (q <+: path ∧
        (lookupLength path wantTrack ≤ q.length ∨ stale = 47 ∨ stale = 0))) =
      paths.findIdx? fun q ↦ decide (Names (namedPath path wantTrack) q) := by
  have hpaths : (locationsAt paths stale).map (fun loc ↦ loc.node.path) = paths := by
    rw [locationsAt, map_map]
    exact map_id paths
  have hlength : paths.length = (locationsAt paths stale).length := by
    rw [locationsAt, length_map]
  have hbase : ∀ size ∈ (none : Option ℕ), lookupLength path wantTrack < size :=
    fun _ hsize ↦ absurd hsize (Option.not_mem_none _)
  obtain ⟨track, hresult⟩ := hfinds (lookupState paths stale) none hpaths hbase
  rw [findRtspLocation_eq hpath hbase] at hresult
  have hfound := congrArg Prod.fst (Except.ok.inj (congrArg Prod.fst hresult))
  dsimp only at hfound
  rw [show (lookupState paths stale).rtspLocs = locationsAt paths stale from rfl,
    findIdx?_locationsAt paths stale (endsAtSlash_lookupLength path wantTrack)] at hfound
  rw [← map_fst_found hlength, hfound, map_fst_found hlength]

/-- The lookup gives the first location that stands for the path of the URI, and depends on the
strings alone, exactly if the first location whose path is a prefix of the URI's path stands for it
and is not shorter than what the code looks for. Any other prefix is passed over or found with the
bytes behind it.

Assumes: an rtsp:// URI with this path. -/
theorem findRtspLocation_named_iff (paths : List Bytes) (uri path : Bytes) (wantTrack : Bool)
    (hpath : getLocalPath uri = some path) :
    FindsNamed paths uri path wantTrack ↔
      ∀ q, paths.find? (fun q ↦ decide (q <+: path)) = some q →
        Names (namedPath path wantTrack) q ∧ lookupLength path wantTrack ≤ q.length := by
  have hend := endsAtSlash_lookupLength path wantTrack
  have hwide (q : Bytes) (hq : decide (Names (namedPath path wantTrack) q) = true) :
      decide (q <+: path) = true :=
    decide_eq_true ((of_decide_eq_true hq).isPrefix.trans (isPrefix_namedPath path wantTrack))
  constructor
  · intro hfinds q hfirst
    have hnamed := hfinds.findIdx?_eq hpath 0
    have hlong := hfinds.findIdx?_eq hpath 1
    simp only [or_true, and_true] at hnamed
    rw [← hnamed] at hlong
    have hq := (findIdx?_eq_iff_first hwide paths).mp hnamed.symm q hfirst
    have hq' := (findIdx?_eq_iff_first (fun q hq ↦ decide_eq_true (of_decide_eq_true hq).1)
      paths).mp hlong q hfirst
    refine ⟨of_decide_eq_true hq, (of_decide_eq_true hq').2.resolve_right ?_⟩
    decide
  · intro hfirst s base hpaths hbase
    have hnodes : (s.rtspLocs.map RtspLocation.node).map LocNode.path = paths := by
      rw [map_map]
      exact hpaths
    have hpass : (s.rtspLocs.map RtspLocation.node).findIdx?
          (·.passes path (lookupLength path wantTrack)) =
        (s.rtspLocs.map RtspLocation.node).findIdx? fun node ↦ decide (node.path <+: path) := by
      refine (findIdx?_eq_iff_first (fun node hnode ↦ ?_) _).mpr fun node hnode ↦ ?_
      · exact decide_eq_true ((passes_iff hend).mp hnode).1
      · have hpathFirst : paths.find? (fun q ↦ decide (q <+: path)) = some node.path := by
          rw [← hnodes, List.find?_map]
          exact congrArg (Option.map LocNode.path) hnode
        have hstarts : decide (node.path <+: path) = true := by simpa using List.find?_some hnode
        exact (passes_iff hend).mpr
          ⟨of_decide_eq_true hstarts, Or.inl (hfirst _ hpathFirst).2⟩
    have hnamed : (paths.findIdx? fun q ↦ decide (Names (namedPath path wantTrack) q)) =
        paths.findIdx? fun q ↦ decide (q <+: path) :=
      (findIdx?_eq_iff_first hwide paths).mpr fun q hq ↦ decide_eq_true (hfirst q hq).1
    have hindex : (s.rtspLocs.map RtspLocation.node).findIdx?
          (·.passes path (lookupLength path wantTrack)) =
        paths.findIdx? fun q ↦ decide (Names (namedPath path wantTrack) q) := by
      rw [hpass, hnamed, ← hnodes]
      conv_rhs => rw [List.findIdx?_map]
      rfl
    rw [← hindex]
    exact ⟨_, findRtspLocation_eq hpath hbase⟩

theorem findRtspLocation_named_cam :
    FindsNamed [ascii "/cam"] (ascii "rtsp://h/cam/track1") (ascii "/cam/track1") true := by
  refine (findRtspLocation_named_iff _ _ _ true (by decide)).mpr fun q hq ↦ ?_
  have hfirst : [ascii "/cam"].find? (fun q ↦ decide (q <+: ascii "/cam/track1")) =
      some (ascii "/cam") := by decide
  obtain rfl := Option.some.inj (hfirst.symm.trans hq)
  decide

/-- The location "/cam" stands for "/cam/a/b" but is found or not with a byte behind its string, and
"/ca" is found for "/cam" with a zero there. -/
theorem findRtspLocation_reads_stale :
    ¬ FindsNamed [ascii "/cam"] (ascii "rtsp://h/cam/a/b") (ascii "/cam/a/b") false ∧
      ¬ FindsNamed [ascii "/ca"] (ascii "rtsp://h/cam") (ascii "/cam") false := by
  constructor
  · intro hfinds
    exact absurd (hfinds.findIdx?_eq (by decide) 1) (by decide)
  · intro hfinds
    exact absurd (hfinds.findIdx?_eq (by decide) 0) (by decide)

/-! ### The URLs of tracks -/

/-- The control name of a track in the session description, after the slash that ends
Content-Base. -/
def trackSuffix (t : Track) : Bytes := 47 :: controlName t

/-- The path as it stands in a URI. -/
def ownPath (uri : Bytes) : Bytes := (uri.drop 7).dropWhile (· != 47)

theorem getLocalPath_eq_some (hpath : getLocalPath uri = some path) :
    sameFirstNoCase 7 uri (ascii "rtsp://") = true ∧
      path = if ownPath uri = [] then [47] else ownPath uri := by
  unfold getLocalPath at hpath
  split_ifs at hpath with hrtsp
  refine ⟨hrtsp, ?_⟩
  unfold ownPath
  split at hpath
  · rename_i hempty
    rw [if_pos hempty]
    exact (Option.some.inj hpath).symm
  · rename_i hother
    rw [if_neg hother]
    exact (Option.some.inj hpath).symm

theorem length_of_rtsp (hrtsp : sameFirstNoCase 7 uri (ascii "rtsp://") = true) :
    7 ≤ uri.length := by
  have hsame := congrArg List.length (beq_iff_eq.mp hrtsp)
  rw [length_map, length_map, length_take] at hsame
  have hseven : ((ascii "rtsp://").take 7).length = 7 := by decide
  omega

/-- What is appended to a URI behind a slash is appended to its path. -/
theorem getLocalPath_append (hrtsp : sameFirstNoCase 7 uri (ascii "rtsp://") = true)
    (rest : Bytes) : getLocalPath (uri ++ 47 :: rest) = some (ownPath uri ++ 47 :: rest) := by
  have hlength := length_of_rtsp hrtsp
  have htake : (uri ++ 47 :: rest).take 7 = uri.take 7 := take_append_of_le_length hlength
  have hdrop : ((uri ++ 47 :: rest).drop 7).dropWhile (· != 47) = ownPath uri ++ 47 :: rest := by
    rw [drop_append_of_le_length hlength, dropWhile_append]
    unfold ownPath
    split_ifs with hempty
    · rw [List.isEmpty_iff.mp hempty]
      rfl
    · rfl
  have hne : ownPath uri ++ 47 :: rest ≠ [] :=
    append_ne_nil_of_right_ne_nil _ (cons_ne_nil _ _)
  rw [getLocalPath, sameFirstNoCase, htake, ← sameFirstNoCase, if_pos hrtsp, hdrop]
  split
  · exact absurd ‹_› hne
  · rfl

/-- The path of a track's URL is that of the URI with the track behind it. -/
theorem getLocalPath_trackSuffix (hpath : getLocalPath uri = some path) (t : Track) :
    getLocalPath (uri ++ trackSuffix t) = some (ownPath uri ++ trackSuffix t) :=
  getLocalPath_append (getLocalPath_eq_some hpath).1 _

theorem trackSuffix_spec (t : Track) :
    (47 : UInt8) ∉ decimal t ∧ strtol (decimal t) = ((t.val : ℤ), (decimal t).length) := by
  revert t
  decide

theorem splitTrack_trackSuffix (own : Bytes) (t : Track) :
    splitTrack (own ++ trackSuffix t) = ((t.val : ℤ), own.length) := by
  obtain ⟨hslash, hread⟩ := trackSuffix_spec t
  exact splitTrack_of_number own hslash hread

/-- SETUP looks for a path of the same length as DESCRIBE, but for a URI without a path. -/
theorem lookupLength_trackSuffix (hpath : getLocalPath uri = some path) (t : Track) :
    path <+: ownPath uri ++ trackSuffix t ∧
      (lookupLength (ownPath uri ++ trackSuffix t) true = 0 ∨
        lookupLength (ownPath uri ++ trackSuffix t) true = lookupLength path false) := by
  have hlookup : lookupLength (ownPath uri ++ trackSuffix t) true =
      trimSlash (ownPath uri ++ trackSuffix t) (ownPath uri).length := by
    rw [lookupLength, if_pos rfl, splitTrack_trackSuffix]
  obtain ⟨-, hown⟩ := getLocalPath_eq_some hpath
  rw [hlookup]
  split_ifs at hown with hempty
  · rw [hempty, hown]
    exact ⟨⟨_, rfl⟩, Or.inl (if_neg fun h ↦ absurd h.1 (by decide))⟩
  · rw [← hown] at hempty ⊢
    have hpos := length_pos_iff.mpr hempty
    have hlast : (path ++ trackSuffix t)[path.length - 1]? = path[path.length - 1]? :=
      List.getElem?_append_left (by omega)
    refine ⟨prefix_append _ _, Or.inr ?_⟩
    rw [lookupLength, if_neg Bool.false_ne_true, trimSlash, trimSlash, hlast]

/-- A lookup that returned had room for the path. -/
theorem lookupLength_lt_of_found {size : ℕ} {wantTrack : Bool} {s s' : State}
    {result : Option (ℕ × RtspLocation) × ℤ} (hpath : getLocalPath uri = some path)
    (hfound : findRtspLocation uri (some size) wantTrack s = (.ok result, s')) :
    lookupLength path wantTrack < size := by
  by_contra hlong
  have hover : (some size).any (· ≤ lookupLength path wantTrack) = true :=
    decide_eq_true (Nat.not_lt.mp hlong)
  rw [findRtspLocation, locationPath_eq hpath] at hfound
  dsimp only at hfound
  rw [if_pos hover] at hfound
  exact absurd (congrArg Prod.fst hfound) nofun

/-- The path `q` of a location reaches from the path that SETUP looks for into the track. -/
def Captures (q path : Bytes) : Prop := q <+: path ∧ lookupLength path true ≤ q.length

/-- What passes in DESCRIBE passes in SETUP for the tracks' URLs. -/
theorem passes_trackSuffix (hpath : getLocalPath uri = some path) (t : Track)
    (hpasses : node.passes path (lookupLength path false) = true) :
    node.passes (ownPath uri ++ trackSuffix t)
      (lookupLength (ownPath uri ++ trackSuffix t) true) = true := by
  obtain ⟨hpathPrefix, hlength⟩ := lookupLength_trackSuffix hpath t
  obtain ⟨hstarts, hlong⟩ := (passes_iff (endsAtSlash_lookupLength path false)).mp hpasses
  refine (passes_iff (endsAtSlash_lookupLength _ true)).mpr ⟨hstarts.trans hpathPrefix, ?_⟩
  rcases hlength with hzero | heq
  · exact Or.inl (hzero ▸ Nat.zero_le _)
  · rwa [heq]

/-- What is passed over in DESCRIBE passes in SETUP only if its path reaches into the track. -/
theorem passes_trackSuffix_iff (hpath : getLocalPath uri = some path) (t : Track)
    (hpassed : ¬ node.passes path (lookupLength path false) = true) :
    node.passes (ownPath uri ++ trackSuffix t)
        (lookupLength (ownPath uri ++ trackSuffix t) true) = true ↔
      Captures node.path (ownPath uri ++ trackSuffix t) := by
  obtain ⟨hpathPrefix, hlength⟩ := lookupLength_trackSuffix hpath t
  have hend := endsAtSlash_lookupLength path false
  rw [passes_iff (endsAtSlash_lookupLength _ true)]
  refine ⟨fun ⟨hstarts, hlong⟩ ↦ ⟨hstarts, ?_⟩, fun ⟨hstarts, hlong⟩ ↦ ⟨hstarts, Or.inl hlong⟩⟩
  by_contra hshort
  have hstale := hlong.resolve_left hshort
  rcases hlength with hzero | heq
  · exact hshort (hzero ▸ Nat.zero_le _)
  · rw [heq] at hshort hstale
    have hle : node.path.length ≤ path.length := by
      have := hend.le_length
      omega
    exact hpassed ((passes_iff hend).mpr
      ⟨prefix_of_prefix_length_le hstarts hpathPrefix hle, Or.inr hstale⟩)

theorem findIdx?_nodes_iff {i : ℕ} :
    (locs.map RtspLocation.node).findIdx? (·.passes path len) = some i ↔
      (∃ location, locs[i]? = some location ∧ location.node.passes path len = true) ∧
        ∀ k location, k < i → locs[k]? = some location →
          ¬ location.node.passes path len = true := by
  rw [List.findIdx?_map, List.findIdx?_eq_some_iff_getElem]
  constructor
  · rintro ⟨hlt, hpasses, hbefore⟩
    refine ⟨⟨_, List.getElem?_eq_getElem hlt, hpasses⟩, fun k location hk hlocation ↦ ?_⟩
    obtain ⟨hkLength, rfl⟩ := List.getElem?_eq_some_iff.mp hlocation
    exact hbefore k hk
  · rintro ⟨⟨location, hlocation, hpasses⟩, hbefore⟩
    obtain ⟨hlt, rfl⟩ := List.getElem?_eq_some_iff.mp hlocation
    exact ⟨hlt, hpasses, fun k hk ↦
      hbefore k _ hk (List.getElem?_eq_getElem (Nat.lt_trans hk hlt))⟩

/-- A lookup that found a location had a path to look for. -/
theorem exists_path_of_found {base : Option ℕ} {wantTrack : Bool} {s s' : State}
    {found : ℕ × RtspLocation} {track : ℤ}
    (hfound : findRtspLocation uri base wantTrack s = (.ok (some found, track), s')) :
    ∃ path, getLocalPath uri = some path := by
  refine Option.ne_none_iff_exists'.mp fun hnone ↦ ?_
  have hparts : locationPath uri wantTrack = none := by
    rw [locationPath, hnone]
    rfl
  rw [findRtspLocation, hparts] at hfound
  exact absurd (congrArg Prod.fst hfound) (by simp [Program.pure_apply])

variable {s later : State} {i : ℕ} {location : RtspLocation} {track : ℤ}

/-- The tracks' URLs under the URI of a DESCRIBE resolve in SETUP to the location that DESCRIBE
found, unless the path of an earlier location reaches into one of them. -/
theorem findRtspLocation_trackSuffix_iff
    (hfound : findRtspLocation uri (some 256) false s = (.ok (some (i, location), track), s))
    (hlater : later.rtspLocs = s.rtspLocs) :
    (∀ t : Track, findRtspLocation (uri ++ trackSuffix t) (some 256) true later =
        (.ok (some (i, location), (t.val : ℤ)), later)) ↔
      ∀ (t : Track) (k : ℕ) (earlier : RtspLocation), k < i → s.rtspLocs[k]? = some earlier →
        ¬ Captures earlier.node.path (ownPath uri ++ trackSuffix t) := by
  obtain ⟨path, hpath⟩ := exists_path_of_found hfound
  have hfits := lookupLength_lt_of_found hpath hfound
  -- What DESCRIBE found: this location passes, and no earlier one does.
  rw [findRtspLocation_eq hpath (by simpa using hfits)] at hfound
  have hbind := congrArg Prod.fst (Except.ok.inj (congrArg Prod.fst hfound))
  obtain ⟨found, hindex, hlocation⟩ := Option.bind_eq_some_iff.mp hbind
  obtain ⟨_, hget, hpair⟩ := Option.map_eq_some_iff.mp hlocation
  obtain ⟨rfl, rfl⟩ := Prod.mk.inj hpair
  obtain ⟨⟨_, hget', hpasses⟩, hbefore⟩ := findIdx?_nodes_iff.mp hindex
  obtain rfl := Option.some.inj (hget.symm.trans hget')
  refine forall_congr' fun t ↦ ?_
  have hfits' : lookupLength (ownPath uri ++ trackSuffix t) true < 256 := by
    rcases (lookupLength_trackSuffix hpath t).2 with hzero | heq
    · rw [hzero]
      decide
    · rwa [heq]
  have hroom : ∀ size ∈ some 256, lookupLength (ownPath uri ++ trackSuffix t) true < size := by
    simpa using hfits'
  rw [findRtspLocation_eq (getLocalPath_trackSuffix hpath t) hroom, if_pos rfl,
    splitTrack_trackSuffix, hlater]
  constructor
  · intro hresult k earlier hk hearlier hcaptures
    have hbind := congrArg Prod.fst (Except.ok.inj (congrArg Prod.fst hresult))
    obtain ⟨found', hindex', hlocation'⟩ := Option.bind_eq_some_iff.mp hbind
    obtain ⟨_, -, hpair'⟩ := Option.map_eq_some_iff.mp hlocation'
    obtain ⟨rfl, -⟩ := Prod.mk.inj hpair'
    exact (findIdx?_nodes_iff.mp hindex').2 k earlier hk hearlier
      ((passes_trackSuffix_iff hpath t (hbefore k earlier hk hearlier)).mpr hcaptures)
  · intro hfree
    have hindex' := findIdx?_nodes_iff.mpr ⟨⟨_, hget, passes_trackSuffix hpath t hpasses⟩,
      fun k earlier hk hearlier hpass ↦ hfree k earlier hk hearlier
        ((passes_trackSuffix_iff hpath t (hbefore k earlier hk hearlier)).mp hpass)⟩
    rw [hindex', Option.bind_some, hget]
    rfl

/-- For a DESCRIBE request that is answered with a session description of the location that it
finds: the reply has a Content-Base header and the description a control line for every track, and
the URLs that a client builds from them resolve in SETUP to this location and the track, exactly if
the Content-Base header fits into the reply behind the CSeq headers of the request, and no location
before this one in the list has a path that reaches into one of these URLs. The location may be any
that DESCRIBE finds, with the path of the URI or a shorter one.

Assumes: a URI without NUL, as every one that was read from a message, and that the list of
locations is the same when the SETUP comes. -/
theorem controlUrl_resolves_iff (env : Env) (now : ℕ) (req : Req) (s later : State) (i : ℕ)
    (location : RtspLocation) (source : LiveSource) (sdp : Bytes)
    (left : Option (ℕ × Option ℕ)) (huri : (0 : UInt8) ∉ req.uri)
    (hfinds : Finds req s i location source)
    (hanswer : (answerDescribe env now req s).1 = .ok (.described sdp, left))
    (hlater : later.rtspLocs = s.rtspLocs) :
    (∃ base, getHeader ((Answer.described sdp).message req) (ascii "Content-Base") = some base ∧
        (∀ t < source.tracks.length, HasControl sdp (controlName t)) ∧
        ∀ t : Track, findRtspLocation (base ++ controlName t) (some 256) true later =
          (.ok (some (i, location), (t.val : ℤ)), later)) ↔
      (replyRoom (ascii "OK") req).Holds 12 (req.uri.length + 1) ∧
        ∀ (t : Track) (k : ℕ) (earlier : RtspLocation), k < i → s.rtspLocs[k]? = some earlier →
          ¬ Captures earlier.node.path (ownPath req.uri ++ trackSuffix t) := by
  have hcontrol : ∀ t < source.tracks.length, HasControl sdp (controlName t) := by
    have hyields := yields_answerDescribe env now req s
    rw [Yields, ← Prod.mk.eta (p := answerDescribe env now req s), hanswer] at hyields
    obtain ⟨i', location', source', hfinds', hlines⟩ := hyields.2 sdp rfl
    obtain ⟨-, rfl⟩ := hfinds.unique hfinds'
    exact hlines
  have hmessage : (Answer.described sdp).message req = descriptionReply req := rfl
  obtain ⟨⟨track, hfirst⟩, -⟩ := hfinds
  have hfound : findRtspLocation req.uri (some 256) false s = (.ok (some (i, location), track), s) :=
    Prod.ext hfirst (findRtspLocation_state ..)
  have hurl (t : Track) : req.uri ++ [47] ++ controlName t = req.uri ++ trackSuffix t :=
    append_assoc _ _ _
  rw [← findRtspLocation_trackSuffix_iff hfound hlater, hmessage, getHeader_descriptionReply huri]
  constructor
  · rintro ⟨base, hbase, -, hresolves⟩
    split_ifs at hbase with hroom
    rw [← Option.some.inj hbase] at hresolves
    simp only [hurl] at hresolves
    exact ⟨hroom, hresolves⟩
  · rintro ⟨hroom, hresolves⟩
    refine ⟨req.uri ++ [47], if_pos hroom, hcontrol, fun t ↦ ?_⟩
    rw [hurl]
    exact hresolves t

/-- A request with this URI. -/
def describeRequest (uri : Bytes) : Req :=
  ⟨0, newPmsg 512 (.req 0 0), ascii "DESCRIBE", uri⟩

/-- A server that serves one source at locations with these paths. -/
def servingState (paths : List Bytes) (stale : UInt8) : State :=
  initial ⟨locationsAt paths stale, [], [sampleSource]⟩

/-- With one location the tracks' URLs resolve to it. -/
theorem controlUrl_resolves_cam :
    ∃ sdp, (answerDescribe sampleEnv 0 (describeRequest (ascii "rtsp://h/cam"))
        (servingState [ascii "/cam"] 1)).1 = .ok (.described sdp, some (0, none)) ∧
      ∃ base, getHeader ((Answer.described sdp).message (describeRequest (ascii "rtsp://h/cam")))
          (ascii "Content-Base") = some base ∧
        (∀ t < 2, HasControl sdp (controlName t)) ∧
        ∀ t : Track, findRtspLocation (base ++ controlName t) (some 256) true
            (servingState [ascii "/cam"] 1) =
          (.ok (some (0, plainLocation 1 (ascii "/cam")), (t.val : ℤ)),
            servingState [ascii "/cam"] 1) :=
  ⟨_, rfl, (controlUrl_resolves_iff sampleEnv 0 (describeRequest (ascii "rtsp://h/cam"))
    (servingState [ascii "/cam"] 1) _ 0 _ sampleSource _ (some (0, none)) (by decide)
    ⟨⟨-1, rfl⟩, rfl⟩ rfl rfl).mpr ⟨by decide, fun _ k _ hk ↦ absurd hk (Nat.not_lt_zero k)⟩⟩

/-- A URI with a host of 480 bytes. -/
def longUri : Bytes := ascii "rtsp://" ++ List.replicate 480 104 ++ ascii "/cam"

set_option maxRecDepth 4000 in
/-- The location "/cam/track0" in front of "/cam" takes the URL of its first track, and the
Content-Base header of a long URI does not fit into the reply. -/
theorem controlUrl_captured :
    (∃ sdp, (answerDescribe sampleEnv 0 (describeRequest (ascii "rtsp://h/cam"))
        (servingState [ascii "/cam/track0", ascii "/cam"] 0)).1 =
          .ok (.described sdp, some (0, none)) ∧
      getHeader ((Answer.described sdp).message (describeRequest (ascii "rtsp://h/cam")))
          (ascii "Content-Base") = some (ascii "rtsp://h/cam/")) ∧
    Finds (describeRequest (ascii "rtsp://h/cam"))
      (servingState [ascii "/cam/track0", ascii "/cam"] 0) 1 (plainLocation 0 (ascii "/cam"))
        sampleSource ∧
    findRtspLocation (ascii "rtsp://h/cam/" ++ controlName 0) (some 256) true
        (servingState [ascii "/cam/track0", ascii "/cam"] 0) =
      (.ok (some (0, plainLocation 0 (ascii "/cam/track0")), 0),
        servingState [ascii "/cam/track0", ascii "/cam"] 0) ∧
    ∃ sdp, (answerDescribe sampleEnv 0 (describeRequest longUri)
        (servingState [ascii "/cam"] 1)).1 = .ok (.described sdp, some (0, none)) ∧
      getHeader ((Answer.described sdp).message (describeRequest longUri))
        (ascii "Content-Base") = none := by
  refine ⟨⟨_, rfl, by decide⟩, ⟨⟨-1, rfl⟩, rfl⟩, rfl, _, rfl, ?_⟩
  have huri : (0 : UInt8) ∉ longUri := by decide +kernel
  exact (getHeader_descriptionReply huri).trans (if_neg (by decide +kernel))

end WisCam.Server
