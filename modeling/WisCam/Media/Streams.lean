import WisCam.Foundations.Bytes
import WisCam.Foundations.Paths

/-!
# Streams and the destinations that wait for them

A stream delivers frames to its destinations. A convert stream gets its frames from a destination of
its own at another stream, so that streams and destinations form trees whose roots are the sources.
`set_waiting` switches a destination. If with this the first destination of the stream starts to
wait or the last one stops, the stream is switched as well: a source through the `set_running` of
its owner, a convert stream by `set_waiting` on its input, which may go on up to the root.

`Propagated` says that every stream has been told what its destinations want. `set_waiting` restores
it from the leaf to the root (`Streams.setWaitingFrom_passed`), and by induction on the tree the
root has been told what the leaves want (`Propagated.told_iff`).

Left out: the functions that are called with a frame, names longer than the field for them, and
streams whose owner sets no `set_running`.
-/

set_option autoImplicit false

namespace WisCam.Media

open Foundations List

/-! ### The functions -/

def formatRawRgb24 : ℤ := 1

def formatRawUyvy : ℤ := 2

/-- `struct stream`. For a convert stream `input` is its `private`, and its `set_running` is the
static function of `stream.c`; for a source it is `none`. -/
structure Stream where
  name : Bytes
  format : ℤ
  destList : List ℕ
  input : Option ℕ

/-- `struct stream_destination` -/
structure StreamDestination where
  stream : ℕ
  waiting : Bool

/-- The streams and the destinations by number, in the order in which they were allocated, and the
list of the streams. `running` is the value that was last passed to the `set_running` of a source,
or 0. -/
structure Streams where
  stream : ℕ → Stream
  streamCount : ℕ
  dest : ℕ → StreamDestination
  destCount : ℕ
  streamList : List ℕ
  running : ℕ → ℤ

def formatMatch (format : ℤ) (formats : List ℤ) : Bool := formats.isEmpty || formats.contains format

namespace Streams

/-- Nothing has been allocated. -/
def empty : Streams :=
  ⟨fun _ ↦ ⟨[], 0, [], none⟩, 0, fun _ ↦ ⟨0, false⟩, 0, [], fun _ ↦ 0⟩

def newDest (s : ℕ) (m : Streams) : ℕ × Streams :=
  let d := m.destCount
  (d, { m with
    dest := Function.update m.dest d ⟨s, false⟩
    destCount := d + 1
    stream := Function.update m.stream s
      { m.stream s with destList := d :: (m.stream s).destList } })

/-- A stream is inserted into the list behind another one. -/
def insertBehind (base s : ℕ) : List ℕ → List ℕ
  | [] => []
  | x :: list => if x = base then x :: s :: list else x :: insertBehind base s list

def allocate (stream : Stream) (m : Streams) : Streams :=
  { m with
    stream := Function.update m.stream m.streamCount stream
    streamCount := m.streamCount + 1 }

def newConvertStream (base : ℕ) (format : ℤ) (m : Streams) : ℕ × Streams :=
  let s := m.streamCount
  let (input, m) := m.newDest base
  (s, { m.allocate ⟨(m.stream base).name, format, [], some input⟩ with
    streamList := insertBehind base s m.streamList })

/-- `connect_to_stream`. Without a stream of the name in one of the formats, the first one that can
be converted is. -/
def connectToStream (name : Bytes) (formats : List ℤ) (m : Streams) : Option ℕ × Streams :=
  match m.streamList.find? fun s ↦
      (m.stream s).name = name && formatMatch (m.stream s).format formats with
  | some s =>
    let (d, m) := m.newDest s
    (some d, m)
  | none =>
    match m.streamList.find? fun s ↦ (m.stream s).name = name &&
        ((m.stream s).format = formatRawUyvy && formatMatch formatRawRgb24 formats) with
    | some base =>
      let (s, m) := m.newConvertStream base formatRawRgb24
      let (d, m) := m.newDest s
      (some d, m)
    | none => (none, m)

def newStream (name : Bytes) (format : ℤ) (m : Streams) : Streams :=
  { m.allocate ⟨name, format, [], none⟩ with streamList := m.streamCount :: m.streamList }

def setFlag (d : ℕ) (waiting : Bool) (m : Streams) : Streams :=
  { m with dest := Function.update m.dest d { m.dest d with waiting := waiting } }

/-- The `set_running` of the source's owner is called. -/
def callOwner (s : ℕ) (running : ℤ) (m : Streams) : Streams :=
  { m with running := Function.update m.running s running }

/-- `s->set_running(s, running)`, which for a convert stream is `set_running`. -/
def setRunning (setWaiting : ℕ → ℤ → Streams → Option Streams) (s : ℕ) (running : ℤ) (m : Streams) :
    Option Streams :=
  match (m.stream s).input with
  | some input => setWaiting input running m
  | none => some (m.callOwner s running)

/-- `set_waiting`, which `set_running` calls for the input of a convert stream. -/
def setWaitingFrom : ℕ → ℕ → ℤ → Streams → Option Streams
  | 0, _, _, _ => none
  | fuel + 1, d, waiting, m =>
    let s := (m.dest d).stream
    if (m.dest d).waiting then
      if waiting ≠ 0 then some m -- no change in status
      else
        let m := m.setFlag d false
        if (m.stream s).destList.any fun other ↦ (m.dest other).waiting then
          some m -- others are still listening
        else m.setRunning (setWaitingFrom fuel) s waiting
    else
      if waiting = 0 then some m -- no change in status
      else (m.setFlag d true).setRunning (setWaitingFrom fuel) s waiting

/-- `set_waiting`. On the way to the root there are at most as many streams as were allocated. -/
def setWaiting (d : ℕ) (waiting : ℤ) (m : Streams) : Option Streams :=
  m.setWaitingFrom m.streamCount d waiting

end Streams

/-! ### The callers -/

/-- A call. -/
inductive StreamCall
  | newStream (name : Bytes) (format : ℤ)
  | newConvertStream (base : ℕ) (format : ℤ)
  | connectToStream (name : Bytes) (formats : List ℤ)
  | setWaiting (d : ℕ) (waiting : ℤ)
deriving DecidableEq, Repr

namespace Streams

/-- A destination that is not the input of a convert stream. -/
def Leaf (m : Streams) (d : ℕ) : Prop :=
  d < m.destCount ∧ ∀ s < m.streamCount, (m.stream s).input ≠ some d

instance (m : Streams) : DecidablePred m.Leaf := fun d ↦
  inferInstanceAs (Decidable (d < m.destCount ∧ ∀ s < m.streamCount, (m.stream s).input ≠ some d))

def perform (m : Streams) : StreamCall → Option Streams
  | .newStream name format => some (m.newStream name format)
  | .newConvertStream base format => some (m.newConvertStream base format).2
  | .connectToStream name formats => some (m.connectToStream name formats).2
  | .setWaiting d waiting => m.setWaiting d waiting

/-- Streams are built on streams, and callers switch leaves. -/
def Allowed (m : Streams) : StreamCall → Prop
  | .newStream _ _ | .connectToStream _ _ => True
  | .newConvertStream base _ => base < m.streamCount
  | .setWaiting d _ => m.Leaf d

instance (m : Streams) : DecidablePred m.Allowed
  | .newStream _ _ | .connectToStream _ _ => inferInstanceAs (Decidable True)
  | .newConvertStream base _ => inferInstanceAs (Decidable (base < m.streamCount))
  | .setWaiting d _ => inferInstanceAs (Decidable (m.Leaf d))

def Step (call : StreamCall) (m m' : Streams) : Prop :=
  m.Allowed call ∧ m.perform call = some m'

/-- The leaf is below the stream. -/
inductive LeafBelow (m : Streams) : ℕ → ℕ → Prop
  | here {d : ℕ} (hleaf : m.Leaf d) : LeafBelow m (m.dest d).stream d
  | through {s input d : ℕ} (hs : s < m.streamCount) (hinput : (m.stream s).input = some input)
      (hbelow : LeafBelow m s d) : LeafBelow m (m.dest input).stream d

/-- Some leaf below the stream is waiting. -/
def LeafWaits (m : Streams) (s : ℕ) : Prop := ∃ d, m.LeafBelow s d ∧ (m.dest d).waiting = true

/-! ### The trees -/

/-- The destinations of a stream are in its list, and a convert stream was allocated after the
stream that its input is a destination of. -/
structure Tree (m : Streams) : Prop where
  stream_lt : ∀ d < m.destCount, (m.dest d).stream < m.streamCount
  mem_destList : ∀ s < m.streamCount, ∀ d,
    d ∈ (m.stream s).destList ↔ d < m.destCount ∧ (m.dest d).stream = s
  input_lt : ∀ s < m.streamCount, ∀ d, (m.stream s).input = some d →
    d < m.destCount ∧ (m.dest d).stream < s
  input_inj : ∀ s < m.streamCount, ∀ s' < m.streamCount, ∀ d, (m.stream s).input = some d →
    (m.stream s').input = some d → s = s'
  streamList_lt : ∀ s ∈ m.streamList, s < m.streamCount

/-- Some destination of the stream is waiting. -/
def Wanted (m : Streams) (s : ℕ) : Prop :=
  ∃ d < m.destCount, (m.dest d).stream = s ∧ (m.dest d).waiting = true

/-- The stream was told to run. -/
def Told (m : Streams) (s : ℕ) : Prop :=
  match (m.stream s).input with
  | some input => (m.dest input).waiting = true
  | none => m.running s ≠ 0

theorem told_some {m : Streams} {s input : ℕ} (hinput : (m.stream s).input = some input) :
    m.Told s ↔ (m.dest input).waiting = true := by
  rw [Told, hinput]

theorem told_none {m : Streams} {s : ℕ} (hinput : (m.stream s).input = none) :
    m.Told s ↔ m.running s ≠ 0 := by
  rw [Told, hinput]

/-- Every stream has been told what its destinations want. -/
structure Propagated (m : Streams) : Prop where
  tree : m.Tree
  told : ∀ s < m.streamCount, m.Told s ↔ m.Wanted s
  unused : ∀ s, m.streamCount ≤ s → m.running s = 0

variable {m m' : Streams} {s d : ℕ}

/-- A destination that is not a leaf is the input of a convert stream. -/
theorem Tree.exists_input (htree : m.Tree) (hd : d < m.destCount) (hleaf : ¬m.Leaf d) :
    ∃ s < m.streamCount, (m.stream s).input = some d ∧ (m.dest d).stream < s := by
  have hinner : ∃ s, s < m.streamCount ∧ (m.stream s).input = some d := by
    by_contra hnone
    refine hleaf ⟨hd, fun s hs hinput ↦ hnone ⟨s, hs, hinput⟩⟩
  obtain ⟨s, hs, hinput⟩ := hinner
  exact ⟨s, hs, hinput, (htree.input_lt s hs d hinput).2⟩

/-- A waiting leaf reaches every stream above it. -/
theorem Propagated.wanted_of_leafBelow (hm : m.Propagated) (hbelow : m.LeafBelow s d)
    (hwaiting : (m.dest d).waiting = true) : m.Wanted s := by
  induction hbelow with
  | @here d hleaf => exact ⟨d, hleaf.1, rfl, hwaiting⟩
  | @through s input d hs hinput hbelow ih =>
    have htold := (hm.told s hs).mpr (ih hwaiting)
    rw [told_some hinput] at htold
    exact ⟨input, (hm.tree.input_lt s hs input hinput).1, rfl, htold⟩

/-- A stream that is wanted is wanted by a leaf. The way down ends, since the convert streams were
allocated later. -/
theorem Propagated.leafWaits_of_wanted (hm : m.Propagated) (hwanted : m.Wanted s) :
    m.LeafWaits s := by
  induction hdepth : m.streamCount - s using Nat.strong_induction_on generalizing s with
  | _ depth ih =>
    obtain ⟨d, hd, rfl, hwaiting⟩ := hwanted
    by_cases hleaf : m.Leaf d
    · exact ⟨d, .here hleaf, hwaiting⟩
    · obtain ⟨s, hs, hinput, hlt⟩ := hm.tree.exists_input hd hleaf
      have hwanted := (hm.told s hs).mp ((told_some hinput).mpr hwaiting)
      obtain ⟨leaf, hbelow, hleafWaiting⟩ := ih (m.streamCount - s) (by omega) hwanted rfl
      exact ⟨leaf, .through hs hinput hbelow, hleafWaiting⟩

/-- A stream has been told to run exactly if some leaf below it is waiting. -/
theorem Propagated.told_iff (hm : m.Propagated) (hs : s < m.streamCount) :
    m.Told s ↔ m.LeafWaits s := by
  rw [hm.told s hs]
  constructor
  · exact hm.leafWaits_of_wanted
  · rintro ⟨d, hbelow, hwaiting⟩
    exact hm.wanted_of_leafBelow hbelow hwaiting

/-! ### Building -/

theorem propagated_empty : empty.Propagated where
  tree := {
    stream_lt := fun d hd ↦ absurd hd (Nat.not_lt_zero d)
    mem_destList := fun s hs ↦ absurd hs (Nat.not_lt_zero s)
    input_lt := fun s hs ↦ absurd hs (Nat.not_lt_zero s)
    input_inj := fun s hs ↦ absurd hs (Nat.not_lt_zero s)
    streamList_lt := fun _ hs ↦ absurd hs not_mem_nil }
  told := fun s hs ↦ absurd hs (Nat.not_lt_zero s)
  unused := fun _ _ ↦ rfl

theorem Propagated.setStreamList (hm : m.Propagated) {list : List ℕ}
    (hlist : ∀ s ∈ list, s < m.streamCount) : { m with streamList := list }.Propagated :=
  ⟨⟨hm.tree.stream_lt, hm.tree.mem_destList, hm.tree.input_lt, hm.tree.input_inj, hlist⟩,
    hm.told, hm.unused⟩

theorem input_newDest (m : Streams) (base s : ℕ) :
    ((m.newDest base).2.stream s).input = (m.stream s).input := by
  show (Function.update m.stream base _ s).input = _
  by_cases hs : s = base
  · rw [hs, Function.update_self]
  · rw [Function.update_of_ne hs]

theorem dest_newDest_self (m : Streams) (base : ℕ) :
    (m.newDest base).2.dest m.destCount = ⟨base, false⟩ := Function.update_self ..

theorem dest_newDest_of_lt (base : ℕ) (hd : d < m.destCount) :
    (m.newDest base).2.dest d = m.dest d := Function.update_of_ne hd.ne _ _

variable {base : ℕ}

theorem Tree.newDest (htree : m.Tree) (hbase : base < m.streamCount) :
    (m.newDest base).2.Tree where
  stream_lt d hd := by
    rcases Nat.lt_succ_iff_lt_or_eq.mp hd with hd | rfl
    · rw [dest_newDest_of_lt base hd]
      exact htree.stream_lt d hd
    · rw [dest_newDest_self]
      exact hbase
  mem_destList s hs d := by
    have hold := htree.mem_destList s hs d
    have hlist : ((m.newDest base).2.stream s).destList =
        if s = base then m.destCount :: (m.stream s).destList else (m.stream s).destList := by
      show (Function.update m.stream base _ s).destList = _
      split_ifs with hs
      · rw [hs, Function.update_self]
      · rw [Function.update_of_ne hs]
    show d ∈ ((m.newDest base).2.stream s).destList ↔ d < m.destCount + 1 ∧ _
    rw [hlist]
    rcases Nat.lt_trichotomy d m.destCount with hd | rfl | hd
    · rw [dest_newDest_of_lt base hd]
      split_ifs with hs
      · rw [mem_cons, hold]
        omega
      · rw [hold]
        omega
    · rw [dest_newDest_self]
      split_ifs with hs
      · simp [hs]
      · simp [hold, Ne.symm hs]
    · split_ifs with hs
      · rw [mem_cons, hold]
        omega
      · rw [hold]
        omega
  input_lt s hs d hinput := by
    rw [input_newDest] at hinput
    obtain ⟨hd, hlt⟩ := htree.input_lt s hs d hinput
    rw [dest_newDest_of_lt base hd]
    exact ⟨Nat.lt_succ_of_lt hd, hlt⟩
  input_inj s hs s' hs' d hinput hinput' := by
    rw [input_newDest] at hinput hinput'
    exact htree.input_inj s hs s' hs' d hinput hinput'
  streamList_lt := htree.streamList_lt

/-- A new destination does not wait. -/
theorem Propagated.newDest (hm : m.Propagated) (hbase : base < m.streamCount) :
    (m.newDest base).2.Propagated where
  tree := hm.tree.newDest hbase
  told s hs := by
    have htold : (m.newDest base).2.Told s ↔ m.Told s := by
      cases hinput : (m.stream s).input with
      | none => rw [told_none hinput, told_none ((input_newDest m base s).trans hinput)]; rfl
      | some input =>
        rw [told_some hinput, told_some ((input_newDest m base s).trans hinput),
          dest_newDest_of_lt base (hm.tree.input_lt s hs input hinput).1]
    have hwanted : (m.newDest base).2.Wanted s ↔ m.Wanted s := by
      constructor
      · rintro ⟨d, hd, hstream, hwaiting⟩
        rcases Nat.lt_succ_iff_lt_or_eq.mp hd with hd | rfl
        · rw [dest_newDest_of_lt base hd] at hstream hwaiting
          exact ⟨d, hd, hstream, hwaiting⟩
        · rw [dest_newDest_self] at hwaiting
          cases hwaiting
      · rintro ⟨d, hd, hstream, hwaiting⟩
        rw [← dest_newDest_of_lt base hd] at hstream hwaiting
        exact ⟨d, Nat.lt_succ_of_lt hd, hstream, hwaiting⟩
    rw [htold, hwanted]
    exact hm.told s hs
  unused := hm.unused

theorem stream_allocate_self (stream : Stream) (m : Streams) :
    (m.allocate stream).stream m.streamCount = stream := Function.update_self ..

theorem stream_allocate_of_lt (stream : Stream) (hs : s < m.streamCount) :
    (m.allocate stream).stream s = m.stream s := Function.update_of_ne hs.ne _ _

/-- A new stream has no destinations, and its input, if it has one, does not wait. -/
theorem Propagated.allocate (hm : m.Propagated) {stream : Stream} (hnil : stream.destList = [])
    (hinput : ∀ d, stream.input = some d → m.Leaf d ∧ (m.dest d).waiting = false) :
    (m.allocate stream).Propagated := by
  have hnot (d : ℕ) (hd : d < m.destCount) : (m.dest d).stream ≠ m.streamCount :=
    (hm.tree.stream_lt d hd).ne
  refine ⟨⟨fun d hd ↦ Nat.lt_succ_of_lt (hm.tree.stream_lt d hd), fun s hs d ↦ ?_,
    fun s hs d hsome ↦ ?_, fun s hs s' hs' d hsome hsome' ↦ ?_,
    fun s hs ↦ Nat.lt_succ_of_lt (hm.tree.streamList_lt s hs)⟩, fun s hs ↦ ?_,
    fun s hs ↦ hm.unused s (Nat.le_of_succ_le hs)⟩
  · rcases Nat.lt_succ_iff_lt_or_eq.mp hs with hs | rfl
    · rw [stream_allocate_of_lt stream hs]
      exact hm.tree.mem_destList s hs d
    · rw [stream_allocate_self, hnil]
      exact iff_of_false not_mem_nil fun hd ↦ hnot d hd.1 hd.2
  · rcases Nat.lt_succ_iff_lt_or_eq.mp hs with hs | rfl
    · rw [stream_allocate_of_lt stream hs] at hsome
      exact hm.tree.input_lt s hs d hsome
    · rw [stream_allocate_self] at hsome
      have hd := (hinput d hsome).1.1
      exact ⟨hd, hm.tree.stream_lt d hd⟩
  · rcases Nat.lt_succ_iff_lt_or_eq.mp hs with hs | rfl <;>
      rcases Nat.lt_succ_iff_lt_or_eq.mp hs' with hs' | rfl
    · rw [stream_allocate_of_lt stream hs] at hsome
      rw [stream_allocate_of_lt stream hs'] at hsome'
      exact hm.tree.input_inj s hs s' hs' d hsome hsome'
    · rw [stream_allocate_of_lt stream hs] at hsome
      rw [stream_allocate_self] at hsome'
      exact absurd hsome ((hinput d hsome').1.2 s hs)
    · rw [stream_allocate_self] at hsome
      rw [stream_allocate_of_lt stream hs'] at hsome'
      exact absurd hsome' ((hinput d hsome).1.2 s' hs')
    · rfl
  · rcases Nat.lt_succ_iff_lt_or_eq.mp hs with hs | rfl
    · have htold : (m.allocate stream).Told s ↔ m.Told s := by
        rw [Told, Told, stream_allocate_of_lt stream hs]
        rfl
      rw [htold]
      exact hm.told s hs
    · refine iff_of_false (fun htold ↦ ?_) fun ⟨d, hd, hstream, _⟩ ↦ hnot d hd hstream
      cases hsome : stream.input with
      | none =>
        rw [told_none (by rw [stream_allocate_self, hsome])] at htold
        exact htold (hm.unused _ (Nat.le_refl _))
      | some input =>
        rw [told_some (by rw [stream_allocate_self, hsome])] at htold
        exact absurd htold (by simp [Streams.allocate, (hinput input hsome).2])

theorem mem_insertBehind {x : ℕ} {list : List ℕ} (hx : x ∈ insertBehind base s list) :
    x ∈ list ∨ x = s := by
  induction list with
  | nil => exact .inl hx
  | cons y list ih =>
    rw [insertBehind] at hx
    split_ifs at hx with hy
    · rcases mem_cons.mp hx with rfl | hx
      · exact .inl mem_cons_self
      · rcases mem_cons.mp hx with rfl | hx
        · exact .inr rfl
        · exact .inl (mem_cons_of_mem y hx)
    · rcases mem_cons.mp hx with rfl | hx
      · exact .inl mem_cons_self
      · exact (ih hx).imp_left (mem_cons_of_mem y)

theorem Propagated.newConvertStream (hm : m.Propagated) (hbase : base < m.streamCount)
    (format : ℤ) : (m.newConvertStream base format).2.Propagated := by
  have hdest := hm.newDest hbase
  have hleaf : (m.newDest base).2.Leaf m.destCount := by
    refine ⟨Nat.lt_succ_self _, fun s hs hinput ↦ ?_⟩
    rw [input_newDest] at hinput
    exact Nat.lt_irrefl _ (hm.tree.input_lt s hs _ hinput).1
  refine (hdest.allocate rfl fun d hd ↦ ?_).setStreamList fun s hs ↦ ?_
  · cases hd
    rw [dest_newDest_self]
    exact ⟨hleaf, rfl⟩
  · rcases mem_insertBehind hs with hs | rfl
    · exact Nat.lt_succ_of_lt (hm.tree.streamList_lt s hs)
    · exact Nat.lt_succ_self _

theorem Propagated.newStream (hm : m.Propagated) (name : Bytes) (format : ℤ) :
    (m.newStream name format).Propagated := by
  refine (hm.allocate rfl fun d hd ↦ ?_).setStreamList fun s hs ↦ ?_
  · cases hd
  · rcases mem_cons.mp hs with rfl | hs
    · exact Nat.lt_succ_self _
    · exact Nat.lt_succ_of_lt (hm.tree.streamList_lt s hs)

theorem Propagated.connectToStream (hm : m.Propagated) (name : Bytes) (formats : List ℤ) :
    (m.connectToStream name formats).2.Propagated := by
  rw [Streams.connectToStream]
  split
  next s hfind =>
    exact hm.newDest (hm.tree.streamList_lt s (List.mem_of_find?_eq_some hfind))
  next =>
    split
    next base hfind =>
      have hconvert := hm.newConvertStream
        (hm.tree.streamList_lt base (List.mem_of_find?_eq_some hfind)) formatRawRgb24
      exact hconvert.newDest (Nat.lt_succ_self _)
    next => exact hm

/-! ### Switching -/

/-- Only the flags of the destinations and the calls of the sources' `set_running` differ. -/
structure SameTree (m m' : Streams) : Prop where
  stream : m'.stream = m.stream
  streamCount : m'.streamCount = m.streamCount
  destCount : m'.destCount = m.destCount
  dest : ∀ d, (m'.dest d).stream = (m.dest d).stream
  streamList : m'.streamList = m.streamList

namespace SameTree

theorem refl (m : Streams) : SameTree m m := ⟨rfl, rfl, rfl, fun _ ↦ rfl, rfl⟩

theorem trans {m'' : Streams} (h : SameTree m m') (h' : SameTree m' m'') : SameTree m m'' :=
  ⟨h'.stream.trans h.stream, h'.streamCount.trans h.streamCount, h'.destCount.trans h.destCount,
    fun d ↦ (h'.dest d).trans (h.dest d), h'.streamList.trans h.streamList⟩

theorem setFlag (m : Streams) (d : ℕ) (waiting : Bool) : SameTree m (m.setFlag d waiting) := by
  refine ⟨rfl, rfl, rfl, fun e ↦ ?_, rfl⟩
  rw [Streams.setFlag]
  dsimp only
  by_cases he : e = d
  · rw [he, Function.update_self]
  · rw [Function.update_of_ne he]

theorem tree (h : SameTree m m') (htree : m.Tree) : m'.Tree := by
  obtain ⟨hstream, hstreamCount, hdestCount, hdest, hlist⟩ := h
  constructor
  · simpa only [hdestCount, hdest, hstreamCount] using htree.stream_lt
  · simpa only [hdestCount, hdest, hstreamCount, hstream] using htree.mem_destList
  · simpa only [hdestCount, hdest, hstreamCount, hstream] using htree.input_lt
  · simpa only [hstreamCount, hstream] using htree.input_inj
  · simpa only [hstreamCount, hlist] using htree.streamList_lt

theorem leaf_iff (h : SameTree m m') : m'.Leaf d ↔ m.Leaf d := by
  rw [Leaf, Leaf, h.destCount, h.streamCount, h.stream]

end SameTree

theorem waiting_setFlag (m : Streams) (d e : ℕ) (waiting : Bool) :
    ((m.setFlag d waiting).dest e).waiting = if e = d then waiting else (m.dest e).waiting := by
  rw [setFlag]
  dsimp only
  split_ifs with he
  · rw [he, Function.update_self]
  · rw [Function.update_of_ne he]

theorem told_setFlag {waiting : Bool} (hinput : (m.stream s).input ≠ some d) :
    (m.setFlag d waiting).Told s ↔ m.Told s := by
  cases hsome : (m.stream s).input with
  | none =>
    have hsame : ((m.setFlag d waiting).stream s).input = none := hsome
    rw [told_none hsome, told_none hsame]
    rfl
  | some input =>
    have hsame : ((m.setFlag d waiting).stream s).input = some input := hsome
    have hne : input ≠ d := fun h ↦ hinput (h ▸ hsome)
    rw [told_some hsome, told_some hsame, waiting_setFlag, if_neg hne]

theorem wanted_setFlag {waiting : Bool} (hs : (m.dest d).stream ≠ s) :
    (m.setFlag d waiting).Wanted s ↔ m.Wanted s := by
  refine exists_congr fun e ↦ and_congr_right fun _ ↦ ?_
  rw [(SameTree.setFlag m d waiting).dest]
  refine and_congr_right fun he ↦ ?_
  have hne : e ≠ d := fun h ↦ hs (h ▸ he)
  rw [waiting_setFlag, if_neg hne]

theorem told_callOwner_self (hinput : (m.stream s).input = none) (running : ℤ) :
    (m.callOwner s running).Told s ↔ running ≠ 0 := by
  have hsame : ((m.callOwner s running).stream s).input = none := hinput
  rw [told_none hsame]
  show Function.update m.running s running s ≠ 0 ↔ running ≠ 0
  rw [Function.update_self]

theorem told_callOwner_of_ne {s' : ℕ} (hne : s' ≠ s) (running : ℤ) :
    (m.callOwner s running).Told s' ↔ m.Told s' := by
  rw [Told, Told, callOwner]
  dsimp only
  rw [Function.update_of_ne hne]

theorem setFlag_eq_self {waiting : Bool} (hflag : (m.dest d).waiting = waiting) :
    m.setFlag d waiting = m := by
  subst hflag
  rw [setFlag]
  congr
  exact Function.update_eq_self ..

/-- Every stream has been told what its destinations want, the flags of the leaves are as before,
and a source that was called got the given value. -/
structure Passed (waiting : ℤ) (m m' : Streams) : Prop where
  same : SameTree m m'
  told : ∀ s < m.streamCount, m'.Told s ↔ m'.Wanted s
  leaf : ∀ e, m.Leaf e → (m'.dest e).waiting = (m.dest e).waiting
  running : ∀ s, m'.running s = m.running s ∨ s < m.streamCount ∧ m'.running s = waiting

variable {waiting : ℤ}

theorem passed_refl (htold : ∀ s < m.streamCount, m.Told s ↔ m.Wanted s) : Passed waiting m m :=
  ⟨.refl m, htold, fun _ _ ↦ rfl, fun _ ↦ .inl rfl⟩

/-- The stream is the only one that may not have been told what its destinations want, and is told
now. For a convert stream this is left to the call for its input. -/
theorem setRunning_passed {setWaiting : ℕ → ℤ → Streams → Option Streams} (hs : s < m.streamCount)
    (hother : ∀ s' < m.streamCount, s' ≠ s → (m.Told s' ↔ m.Wanted s'))
    (hwanted : m.Wanted s ↔ waiting ≠ 0)
    (hinput : ∀ input, (m.stream s).input = some input →
      ∃ m', setWaiting input waiting m = some m' ∧
        Passed waiting (m.setFlag input (decide (waiting ≠ 0))) m') :
    ∃ m', m.setRunning setWaiting s waiting = some m' ∧ Passed waiting m m' := by
  cases hsome : (m.stream s).input with
  | none =>
    rw [setRunning, hsome]
    refine ⟨_, rfl, ⟨rfl, rfl, rfl, fun _ ↦ rfl, rfl⟩, fun s' hs' ↦ ?_, fun _ _ ↦ rfl, fun s' ↦ ?_⟩
    · show _ ↔ m.Wanted s'
      by_cases hne : s' = s
      · rw [hne, told_callOwner_self hsome]
        exact hwanted.symm
      · rw [told_callOwner_of_ne hne]
        exact hother s' hs' hne
    · by_cases hne : s' = s
      · rw [hne]
        exact .inr ⟨hs, Function.update_self ..⟩
      · exact .inl (Function.update_of_ne hne ..)
  | some input =>
    obtain ⟨m', hcall, hpassed⟩ := hinput input hsome
    rw [setRunning, hsome]
    refine ⟨m', hcall, (SameTree.setFlag m input _).trans hpassed.same, hpassed.told,
      fun e he ↦ ?_, hpassed.running⟩
    have hne : e ≠ input := fun h ↦ he.2 s hs (h ▸ hsome)
    rw [hpassed.leaf e he, waiting_setFlag, if_neg hne]

/-- After a flag was set, the streams other than the destination's own have been told what their
destinations want, if this was so before for all but the convert stream of the destination, and the
flag is what that one wants. -/
theorem told_iff_setFlag {waiting : Bool}
    (hother : ∀ s < m.streamCount, (m.stream s).input ≠ some d → (m.Told s ↔ m.Wanted s))
    (hconvert : ∀ s < m.streamCount, (m.stream s).input = some d → (m.Wanted s ↔ waiting = true))
    (hs : s < m.streamCount) (hne : s ≠ (m.dest d).stream) :
    (m.setFlag d waiting).Told s ↔ (m.setFlag d waiting).Wanted s := by
  rw [wanted_setFlag hne.symm]
  by_cases hinput : (m.stream s).input = some d
  · have hsame : ((m.setFlag d waiting).stream s).input = some d := hinput
    rw [told_some hsame, waiting_setFlag, if_pos rfl]
    exact (hconvert s hs hinput).symm
  · rw [told_setFlag hinput]
    exact hother s hs hinput

/-- The loop of `set_waiting` finds out whether the stream is wanted. -/
theorem Tree.any_iff (htree : m.Tree) (hs : s < m.streamCount) :
    ((m.stream s).destList.any fun other ↦ (m.dest other).waiting) = true ↔ m.Wanted s := by
  rw [any_eq_true]
  refine exists_congr fun e ↦ ?_
  rw [htree.mem_destList s hs, and_assoc]

theorem setWaitingFrom_of_eq {fuel : ℕ} (hflag : (m.dest d).waiting = decide (waiting ≠ 0)) :
    m.setWaitingFrom (fuel + 1) d waiting = some m := by
  rw [setWaitingFrom]
  by_cases hw : waiting = 0
  · simp [hflag, hw]
  · simp [hflag, hw]

theorem setWaitingFrom_of_ne {fuel : ℕ} {next : Streams}
    (hflag : (m.dest d).waiting ≠ decide (waiting ≠ 0))
    (hnext : m.setFlag d (decide (waiting ≠ 0)) = next) :
    m.setWaitingFrom (fuel + 1) d waiting =
      if waiting = 0 ∧ ((next.stream (m.dest d).stream).destList.any
          fun other ↦ (next.dest other).waiting) = true then some next
      else next.setRunning (setWaitingFrom fuel) (m.dest d).stream waiting := by
  rw [setWaitingFrom]
  by_cases hw : waiting = 0
  · have hwaiting : (m.dest d).waiting = true := by simpa [hw] using hflag
    have hoff : m.setFlag d false = next := by rw [← hnext, hw]; rfl
    simp only [hwaiting, hw, if_true, ne_eq, not_true_eq_false, if_false, hoff, true_and]
  · have hwaiting : (m.dest d).waiting = false := by simpa [hw] using hflag
    have hon : m.setFlag d true = next := by rw [← hnext, decide_eq_true hw]
    simp only [hwaiting, hw, Bool.false_eq_true, if_false, hon, false_and]

/-- `set_waiting` on a destination. Its stream has been told what the destinations want, and so will
be the others once the flag is set; on the way to the root the streams are told one by one. -/
theorem setWaitingFrom_passed {fuel : ℕ} (waiting : ℤ) (htree : m.Tree) (hd : d < m.destCount)
    (hfuel : (m.dest d).stream < fuel)
    (htold : m.Told (m.dest d).stream ↔ m.Wanted (m.dest d).stream)
    (hrest : ∀ s < m.streamCount, s ≠ (m.dest d).stream →
      ((m.setFlag d (decide (waiting ≠ 0))).Told s ↔
        (m.setFlag d (decide (waiting ≠ 0))).Wanted s)) :
    ∃ m', m.setWaitingFrom fuel d waiting = some m' ∧
      Passed waiting (m.setFlag d (decide (waiting ≠ 0))) m' := by
  induction fuel generalizing m d with
  | zero => exact absurd hfuel (Nat.not_lt_zero _)
  | succ fuel ih =>
    by_cases hflag : (m.dest d).waiting = decide (waiting ≠ 0)
    · -- There is no change in status.
      have hself := setFlag_eq_self hflag
      rw [hself] at hrest ⊢
      refine ⟨m, setWaitingFrom_of_eq hflag, passed_refl fun s hs ↦ ?_⟩
      by_cases hs' : s = (m.dest d).stream
      · rw [hs']
        exact htold
      · exact hrest s hs hs'
    · have hs := htree.stream_lt d hd
      obtain ⟨next, hnext⟩ : ∃ next, m.setFlag d (decide (waiting ≠ 0)) = next := ⟨_, rfl⟩
      have hsame : SameTree m next := hnext ▸ SameTree.setFlag m d _
      have htree' := hsame.tree htree
      have hs' : (m.dest d).stream < next.streamCount := by rwa [hsame.streamCount]
      have hloop := htree'.any_iff hs'
      rw [setWaitingFrom_of_ne hflag hnext]
      rw [hnext] at hrest ⊢
      rw [← hsame.streamCount] at hrest
      split_ifs with hothers
      · -- Others are still listening, and the stream was told to run before.
        have hwanted : m.Wanted (m.dest d).stream :=
          ⟨d, hd, rfl, by simpa [hothers.1] using hflag⟩
        have hinput : (m.stream (m.dest d).stream).input ≠ some d := fun hinput ↦
          Nat.lt_irrefl _ (htree.input_lt _ hs d hinput).2
        refine ⟨next, rfl, passed_refl fun s hs ↦ ?_⟩
        by_cases hne : s = (m.dest d).stream
        · rw [hne, ← hnext, told_setFlag hinput, htold, hnext]
          exact iff_of_true hwanted (hloop.mp hothers.2)
        · exact hrest s hs hne
      · have hwanted : next.Wanted (m.dest d).stream ↔ waiting ≠ 0 := by
          constructor
          · exact fun hwanted hw ↦ hothers ⟨hw, hloop.mpr hwanted⟩
          · intro hw
            refine ⟨d, hsame.destCount ▸ hd, hsame.dest d, ?_⟩
            rw [← hnext, waiting_setFlag, if_pos rfl, decide_eq_true hw]
        refine setRunning_passed hs' hrest hwanted fun input hinput ↦ ?_
        obtain ⟨hd', hlt⟩ := htree'.input_lt _ hs' input hinput
        refine ih htree' hd' (by omega) ?_ fun s hs hne ↦ told_iff_setFlag ?_ ?_ hs hne
        · exact hrest _ (htree'.stream_lt input hd') hlt.ne
        · exact fun s hs hne ↦ hrest s hs fun h ↦ hne (h ▸ hinput)
        · intro s hs hinput'
          rw [htree'.input_inj s hs _ hs' input hinput' hinput, hwanted, decide_eq_true_eq]

/-- `set_waiting` on a leaf returns, gives the leaf its flag and tells the streams above it. -/
theorem Propagated.setWaiting (hm : m.Propagated) (hleaf : m.Leaf d) (waiting : ℤ) :
    ∃ m', m.setWaiting d waiting = some m' ∧ m'.Propagated ∧
      (∀ e, m.Leaf e →
        (m'.dest e).waiting = if e = d then decide (waiting ≠ 0) else (m.dest e).waiting) ∧
      ∀ s, m'.running s = m.running s ∨ m'.running s = waiting := by
  have hs := hm.tree.stream_lt d hleaf.1
  obtain ⟨m', hcall, hpassed⟩ := setWaitingFrom_passed waiting hm.tree hleaf.1 hs
    (hm.told _ hs) fun s hs hne ↦ told_iff_setFlag (fun s hs _ ↦ hm.told s hs)
      (fun s hs hinput ↦ absurd hinput (hleaf.2 s hs)) hs hne
  have hsame := (SameTree.setFlag m d (decide (waiting ≠ 0))).trans hpassed.same
  refine ⟨m', hcall, ⟨hsame.tree hm.tree, ?_, fun s hs ↦ ?_⟩, fun e he ↦ ?_,
    fun s ↦ (hpassed.running s).imp_right And.right⟩
  · rw [hsame.streamCount]
    exact hpassed.told
  · rw [hsame.streamCount] at hs
    rcases hpassed.running s with hrunning | ⟨hlt, -⟩
    · exact hrunning.trans (hm.unused s hs)
    · exact absurd hlt hs.not_gt
  · rw [hpassed.leaf e ((SameTree.setFlag m d _).leaf_iff.mpr he), waiting_setFlag]

/-! ### Runs -/

theorem running_connectToStream (m : Streams) (name : Bytes) (formats : List ℤ) :
    (m.connectToStream name formats).2.running = m.running := by
  rw [connectToStream]
  split
  next => rfl
  next =>
    split
    next => rfl
    next => rfl

/-- Every allowed call returns. Only `set_waiting` calls a source, with the value it was given. -/
theorem Propagated.perform (hm : m.Propagated) {call : StreamCall} (hallowed : m.Allowed call) :
    ∃ m', m.perform call = some m' ∧ m'.Propagated ∧
      ∀ s, m'.running s = m.running s ∨ ∃ d, call = .setWaiting d (m'.running s) := by
  cases call with
  | newStream name format => exact ⟨_, rfl, hm.newStream name format, fun _ ↦ .inl rfl⟩
  | newConvertStream base format =>
    exact ⟨_, rfl, hm.newConvertStream hallowed format, fun _ ↦ .inl rfl⟩
  | connectToStream name formats =>
    refine ⟨_, rfl, hm.connectToStream name formats, fun s ↦ .inl ?_⟩
    rw [running_connectToStream]
  | setWaiting d waiting =>
    obtain ⟨m', hcall, hm', -, hrunning⟩ := hm.setWaiting hallowed waiting
    refine ⟨m', hcall, hm', fun s ↦ (hrunning s).imp_right fun h ↦ ⟨d, ?_⟩⟩
    rw [h]

theorem Propagated.path {calls : List (StreamCall × Streams)} (hpath : Path Step m calls m')
    (hm : m.Propagated) : m'.Propagated ∧
      ∀ s, m'.running s = m.running s ∨
        ∃ call ∈ calls, ∃ d, call.1 = .setWaiting d (m'.running s) := by
  induction hpath with
  | nil m => exact ⟨hm, fun _ ↦ .inl rfl⟩
  | @cons call m next m' calls hstep hrest ih =>
    obtain ⟨next', hperform, hnext, hrunning⟩ := hm.perform hstep.1
    cases hstep.2.symm.trans hperform
    obtain ⟨hm', hlater⟩ := ih hnext
    refine ⟨hm', fun s ↦ ?_⟩
    rcases hlater s with hlater | ⟨call', hcall, hvalue⟩
    · rcases hrunning s with hfirst | ⟨d, hvalue⟩
      · exact .inl (hlater.trans hfirst)
      · exact .inr ⟨_, mem_cons_self, d, hlater ▸ hvalue⟩
    · exact .inr ⟨call', mem_cons_of_mem _ hcall, hvalue⟩

end Streams

/-- A sequence of calls is executed, if all of them are allowed and return. -/
def Streams.run (calls : List StreamCall) : Option Streams :=
  calls.foldlM (fun m call ↦ if m.Allowed call then m.perform call else none) .empty

theorem Streams.exists_path_of_run {calls : List StreamCall} {m : Streams}
    (hrun : Streams.run calls = some m) :
    ∃ steps, Path Streams.Step .empty steps m ∧ steps.map Prod.fst = calls := by
  refine exists_path_of_foldlM (fun {m call m'} hcall ↦ ?_) hrun
  split_ifs at hcall with hallowed
  exact ⟨hallowed, hcall⟩

/-- `set_waiting` is called with 0 or 1, as all callers do. -/
def StreamCall.ZeroOrOne : StreamCall → Prop
  | .setWaiting _ waiting => waiting = 0 ∨ waiting = 1
  | _ => True

/-- After every sequence of calls, building and switching in any order:
* every further call returns, and one that switches a leaf gives it its flag and leaves the flags of
  the other leaves;
* the value that a source was last called with is not 0 exactly if some leaf below it is waiting;
* it is 1 exactly then, if all calls passed 0 or 1;
* the input of a convert stream is waiting exactly if some leaf below the convert stream is. -/
theorem streams_run {calls : List (StreamCall × Streams)} {m : Streams}
    (hpath : Path Streams.Step .empty calls m) :
    (∀ call, m.Allowed call → ∃ m', m.perform call = some m' ∧
      ∀ d waiting, call = .setWaiting d waiting → ∀ e, m.Leaf e →
        (m'.dest e).waiting = if e = d then decide (waiting ≠ 0) else (m.dest e).waiting) ∧
    (∀ s < m.streamCount, (m.stream s).input = none →
      (m.running s ≠ 0 ↔ m.LeafWaits s) ∧
      ((∀ call ∈ calls, call.1.ZeroOrOne) → (m.running s = 1 ↔ m.LeafWaits s))) ∧
    ∀ s < m.streamCount, ∀ input, (m.stream s).input = some input →
      ((m.dest input).waiting = true ↔ m.LeafWaits s) := by
  obtain ⟨hm, hrunning⟩ := Streams.propagated_empty.path hpath
  refine ⟨fun call hallowed ↦ ?_, fun s hs hinput ↦ ?_, fun s hs input hinput ↦ ?_⟩
  · obtain ⟨m', hperform, -⟩ := hm.perform hallowed
    refine ⟨m', hperform, ?_⟩
    rintro d waiting rfl
    obtain ⟨m'', hcall, -, hleaf, -⟩ := hm.setWaiting hallowed waiting
    cases hcall.symm.trans hperform
    exact hleaf
  · have htold := hm.told_iff hs
    rw [Streams.told_none hinput] at htold
    refine ⟨htold, fun hcalls ↦ ?_⟩
    have hvalue : m.running s = 0 ∨ m.running s = 1 := by
      rcases hrunning s with hzero | ⟨call, hcall, d, hvalue⟩
      · exact .inl hzero
      · have hplain := hcalls call hcall
        rwa [hvalue] at hplain
    rw [← htold]
    omega
  · rw [← Streams.told_some hinput]
    exact hm.told_iff hs

/-- A camera in the format UYVY, which is converted for one destination and not for the other. -/
def converted : List StreamCall :=
  [.newStream (ascii "camera") formatRawUyvy, .connectToStream (ascii "camera") [formatRawRgb24],
    .connectToStream (ascii "camera") []]

/-- The destination behind the conversion starts to wait: the camera runs. -/
theorem converted_runs : ∃ steps m, Path Streams.Step .empty steps m ∧ m.LeafWaits 0 := by
  have hrun : (Streams.run (converted ++ [.setWaiting 1 1])).map
      (fun m ↦ (m.streamCount, (m.stream 0).input, m.running 0)) = some (2, none, 1) := by
    decide
  obtain ⟨m, hm, hvalues⟩ := Option.map_eq_some_iff.mp hrun
  obtain ⟨hcount, hinput, hrunning⟩ := Prod.mk.inj hvalues |>.imp_right Prod.mk.inj
  obtain ⟨steps, hpath, -⟩ := Streams.exists_path_of_run hm
  obtain ⟨-, hsource, -⟩ := streams_run hpath
  refine ⟨steps, m, hpath, (hsource 0 (by omega) hinput).1.mp ?_⟩
  rw [hrunning]
  exact Int.one_ne_zero

/-- The value that `set_waiting` is called with is handed to the source. -/
theorem source_called_with_two : ∃ steps m, Path Streams.Step .empty steps m ∧
    0 < m.streamCount ∧ (m.stream 0).input = none ∧ m.LeafWaits 0 ∧ m.running 0 ≠ 1 := by
  have hrun : (Streams.run (converted ++ [.setWaiting 2 2])).map
      (fun m ↦ (m.streamCount, (m.stream 0).input, m.running 0, (m.dest 2).stream,
        (m.dest 2).waiting, decide (m.Leaf 2))) = some (2, none, 2, 0, true, true) := by
    decide
  obtain ⟨m, hm, hvalues⟩ := Option.map_eq_some_iff.mp hrun
  simp only [Prod.mk.injEq, decide_eq_true_eq] at hvalues
  obtain ⟨hcount, hinput, hrunning, hstream, hwaiting, hleaf⟩ := hvalues
  obtain ⟨steps, hpath, -⟩ := Streams.exists_path_of_run hm
  refine ⟨steps, m, hpath, by omega, hinput, ⟨2, ?_, hwaiting⟩, by omega⟩
  rw [← hstream]
  exact .here hleaf

end WisCam.Media
