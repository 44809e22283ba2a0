import Mathlib.Data.List.Nodup
import WisCam.Foundations.SlotRing

/-!
# The frame exchanger

An encoder thread hands frames to the event loop through an exchanger: a ring of slots under a
mutex, and a pipe that gets one byte for each stored frame. `deliver_frame` runs in the encoder
thread. It takes the mutex, gives the frame back when only one slot is free, and otherwise stores
the frame, writes a byte and moves on. `exchanger_read` runs in the event loop. It reads a byte
first, takes the mutex after that, empties the slot to read and passes the frame on.

The two threads take turns at their program points. The locked section of `exchanger_read` is one
turn, since nobody sees what happens inside; the locked section of `deliver_frame` takes several,
since the byte it writes can be read before the mutex is free. Calls of `deliver_frame` are
numbered, so that two deliveries of one frame can be told apart, and the exchanger carries a record
of the calls and of what became of them.

`Exchanging` is the invariant of the two threads together, `exchanger_delivers` what follows for
every interleaving.
-/

set_option autoImplicit false

namespace WisCam.Media

open Foundations List

/-! ### The two threads -/

structure Delivery (Frame : Type) where
  number : ℕ
  frame : Frame
deriving DecidableEq, Repr

/-- Where the encoder thread is in `deliver_frame`. -/
inductive Encoder (Frame : Type)
  | outside
  /-- Before the mutex is taken. -/
  | entered (d : Delivery Frame)
  /-- After the unlock of the full ring, before `unref_frame`. -/
  | rejected (d : Delivery Frame)
  /-- In the locked section: the frame is in its slot, the byte is not yet written. -/
  | stored (d : Delivery Frame)
  /-- In the locked section: the byte is written, `slave_cur` has not yet moved. -/
  | written (d : Delivery Frame)
deriving DecidableEq, Repr

/-- Where the event loop is in `exchanger_read`. -/
inductive Reader (Frame : Type)
  | outside
  /-- A byte has been read, the mutex is not yet taken. -/
  | reading
  /-- After the unlock, before the frame is passed on. -/
  | taken (d : Delivery Frame)
deriving DecidableEq, Repr

/-- An exchanger with its two threads, and the record of the calls so far. The ring's slot to write
is `slave_cur`, its slot to read is `master_read`. -/
structure Exchanger (Frame : Type) where
  ring : SlotRing (Delivery Frame)
  /-- The unread bytes. -/
  pipe : ℕ
  encoder : Encoder Frame
  reader : Reader Frame
  calls : ℕ
  accepted : List (Delivery Frame)
  rejected : List (Delivery Frame)
  unreferenced : List (Delivery Frame)
  passed : List (Delivery Frame)
  /-- How often `exchanger_read` found an empty slot. -/
  lost : ℕ

variable {Frame : Type}

/-- `new_exchanger`: all slots are empty. -/
def newExchanger : Exchanger Frame :=
  { ring := .empty, pipe := 0, encoder := .outside, reader := .outside, calls := 0, accepted := [],
    rejected := [], unreferenced := [], passed := [], lost := 0 }

/-- Whether the encoder thread has the mutex. -/
def Encoder.locks : Encoder Frame → Bool
  | .stored _ | .written _ => true
  | _ => false

/-- The encoder thread calls `deliver_frame`. -/
def callDeliverFrame (f : Frame) (s : Exchanger Frame) : Exchanger Frame :=
  match s.encoder with
  | .outside => { s with encoder := .entered ⟨s.calls, f⟩, calls := s.calls + 1 }
  | _ => s

/-- One turn of the encoder thread in `deliver_frame`. -/
def deliverFrame (slots : ℕ) (s : Exchanger Frame) : Exchanger Frame :=
  match s.encoder with
  | .outside => s
  | .entered d =>
    if SlotRing.next slots s.ring.write = s.ring.read then
      { s with encoder := .rejected d, rejected := s.rejected ++ [d] }
    else { s with ring := s.ring.store d, encoder := .stored d }
  | .rejected d => { s with encoder := .outside, unreferenced := s.unreferenced ++ [d] }
  | .stored d => { s with pipe := s.pipe + 1, encoder := .written d }
  | .written d =>
    { s with ring := s.ring.advance slots, encoder := .outside, accepted := s.accepted ++ [d] }

/-- One turn of the event loop in `exchanger_read`. Without a byte in the pipe, and without the
mutex, nothing happens. -/
def exchangerRead (slots : ℕ) (s : Exchanger Frame) : Exchanger Frame :=
  match s.reader with
  | .outside =>
    match s.pipe with
    | 0 => s
    | unread + 1 => { s with pipe := unread, reader := .reading }
  | .reading =>
    if s.encoder.locks then s
    else match s.ring.slots s.ring.read with
      | none => -- "We lost a frame!"
        { s with ring := { s.ring with read := s.ring.write }, reader := .outside, lost := s.lost + 1 }
      | some d => { s with ring := s.ring.take slots, reader := .taken d }
  | .taken d => { s with reader := .outside, passed := s.passed ++ [d] }

/-- Whose turn it is. -/
inductive Turn (Frame : Type)
  | call (f : Frame)
  | encoder
  | reader
deriving DecidableEq, Repr

def exchangerStep (slots : ℕ) (s : Exchanger Frame) : Turn Frame → Exchanger Frame
  | .call f => callDeliverFrame f s
  | .encoder => deliverFrame slots s
  | .reader => exchangerRead slots s

/-- An interleaving of the two threads, from a new exchanger on. -/
def exchangerRun (slots : ℕ) (turns : List (Turn Frame)) : Exchanger Frame :=
  turns.foldl (exchangerStep slots) newExchanger

/-! ### The invariant of both threads -/

namespace Encoder

/-- The delivery in the slot that `slave_cur` has not yet left. -/
def storing : Encoder Frame → List (Delivery Frame)
  | .stored d | .written d => [d]
  | _ => []

/-- The delivery that is to be unreferenced. -/
def unreferencing : Encoder Frame → List (Delivery Frame)
  | .rejected d => [d]
  | _ => []

/-- The delivery that was neither accepted nor rejected yet. -/
def undecided : Encoder Frame → List (Delivery Frame)
  | .entered d | .stored d | .written d => [d]
  | _ => []

/-- The delivery whose frame the encoder thread has in its hands. -/
def inHand : Encoder Frame → List (Delivery Frame)
  | .entered d | .rejected d => [d]
  | _ => []

/-- The frames that are stored without a byte in the pipe. -/
def unannounced : Encoder Frame → ℕ
  | .stored _ => 1
  | _ => 0

end Encoder

namespace Reader

/-- The delivery that was taken from the ring and not yet passed on. -/
def inHand : Reader Frame → List (Delivery Frame)
  | .taken d => [d]
  | _ => []

/-- The reads in progress: the byte is read, the slot is not yet emptied. -/
def inProgress : Reader Frame → ℕ
  | .reading => 1
  | _ => 0

end Reader

/-- The ring once the encoder thread has left its locked section. -/
def Exchanger.settled (slots : ℕ) (s : Exchanger Frame) : SlotRing (Delivery Frame) :=
  if s.encoder.locks then s.ring.advance slots else s.ring

/-- The deliveries whose frames are in the exchanger or with one of the two threads, for the queue
in its ring. -/
def Exchanger.held (s : Exchanger Frame) (queue : List (Delivery Frame)) : List (Delivery Frame) :=
  queue ++ (s.reader.inHand ++ s.encoder.inHand)

/-- The ring holds a queue, and the queue is what was accepted and not yet passed on. There is a
byte or a read in progress for each of its frames, except for one that is stored and not yet
announced. -/
structure Exchanging (slots : ℕ) (s : Exchanger Frame) (queue : List (Delivery Frame)) : Prop where
  holds : SlotRing.Holds slots (s.settled slots) queue
  room : queue.length < slots
  last : s.encoder.storing <:+ queue
  flow : s.accepted ++ s.encoder.storing = s.passed ++ s.reader.inHand ++ queue
  bytes : s.pipe + s.reader.inProgress + s.encoder.unannounced = queue.length
  rejects : s.rejected = s.unreferenced ++ s.encoder.unreferencing
  numbers : ((s.accepted ++ s.rejected ++ s.encoder.undecided).map Delivery.number).Perm
    (List.range s.calls)
  lost : s.lost = 0

variable {slots : ℕ} {s : Exchanger Frame} {queue : List (Delivery Frame)}

theorem Encoder.storing_of_free {encoder : Encoder Frame} (hfree : encoder.locks = false) :
    encoder.storing = [] ∧ encoder.unannounced = 0 := by
  cases encoder with
  | outside | entered | rejected => exact ⟨rfl, rfl⟩
  | stored | written => exact absurd hfree Bool.true_eq_false_eq_False

theorem exchanging_newExchanger (hslots : 0 < slots) :
    Exchanging slots (newExchanger : Exchanger Frame) [] where
  holds := SlotRing.holds_empty hslots
  room := hslots
  last := suffix_rfl
  flow := rfl
  bytes := rfl
  rejects := rfl
  numbers := List.Perm.refl _
  lost := rfl

variable {d : Delivery Frame} {rest : List (Delivery Frame)}

namespace Exchanging

theorem call (hex : Exchanging slots s queue) (f : Frame) :
    Exchanging slots (callDeliverFrame f s) queue := by
  unfold callDeliverFrame
  split
  case h_2 => exact hex
  case h_1 hout =>
    obtain ⟨hholds, hroom, hlast, hflow, hbytes, hrejects, hnumbers, hlost⟩ := hex
    rw [Exchanger.settled, hout] at hholds
    rw [hout] at hlast hflow hbytes hrejects hnumbers
    refine ⟨hholds, hroom, hlast, hflow, hbytes, hrejects, ?_, hlost⟩
    rw [range_succ]
    simpa [Encoder.undecided] using hnumbers.append_right [s.calls]

/-- Where one slot is free, the delivery is rejected. -/
theorem reject (hex : Exchanging slots s queue) (hentered : s.encoder = .entered d) :
    Exchanging slots { s with encoder := .rejected d, rejected := s.rejected ++ [d] } queue := by
  obtain ⟨hholds, hroom, hlast, hflow, hbytes, hrejects, hnumbers, hlost⟩ := hex
  rw [Exchanger.settled, hentered] at hholds
  rw [hentered] at hlast hflow hbytes hrejects hnumbers
  refine ⟨hholds, hroom, hlast, hflow, hbytes, ?_, ?_, hlost⟩
  · simpa [Encoder.unreferencing] using hrejects
  · simpa [Encoder.undecided] using hnumbers

/-- Where more than one slot is free, the delivery is the last one of the queue. -/
theorem store (hex : Exchanging slots s queue) (hentered : s.encoder = .entered d)
    (hfree : SlotRing.next slots s.ring.write ≠ s.ring.read) :
    Exchanging slots { s with ring := s.ring.store d, encoder := .stored d } (queue ++ [d]) := by
  obtain ⟨hholds, hroom, hlast, hflow, hbytes, hrejects, hnumbers, hlost⟩ := hex
  rw [Exchanger.settled, hentered] at hholds
  rw [hentered] at hlast hflow hbytes hrejects hnumbers
  have hmore : queue.length + 1 ≠ slots := fun hone ↦
    hfree ((hholds.next_write_iff hroom).mpr hone)
  refine ⟨hholds.push hroom, ?_, suffix_append _ _, ?_, ?_, hrejects, hnumbers, hlost⟩
  · rw [length_append, length_singleton]
    omega
  · show s.accepted ++ [d] = _
    have hsofar : s.accepted = s.passed ++ s.reader.inHand ++ queue :=
      (append_nil _).symm.trans hflow
    rw [hsofar, append_assoc _ queue]
  · rw [length_append, ← hbytes]
    rfl

/-- A turn of the encoder thread keeps the invariant. It lets go of a frame only where it
unreferences a rejected one. -/
theorem deliverFrame (hex : Exchanging slots s queue) :
    ∃ queue', Exchanging slots (deliverFrame slots s) queue' ∧
      (s.held queue).Perm
        ((Media.deliverFrame slots s).held queue' ++ s.encoder.unreferencing) := by
  unfold Media.deliverFrame
  split
  case h_1 hout =>
    refine ⟨queue, hex, ?_⟩
    simp [hout, Encoder.unreferencing]
  case h_2 d hentered =>
    split
    · refine ⟨queue, hex.reject hentered, ?_⟩
      simp [Exchanger.held, hentered, Encoder.inHand, Encoder.unreferencing]
    · rename_i hfree
      refine ⟨queue ++ [d], hex.store hentered hfree, ?_⟩
      simp only [Exchanger.held, hentered, Encoder.inHand, Encoder.unreferencing, append_nil,
        append_assoc]
      exact perm_append_comm.append_left queue
  case h_3 d hrejected =>
    obtain ⟨hholds, hroom, hlast, hflow, hbytes, hrejects, hnumbers, hlost⟩ := hex
    rw [Exchanger.settled, hrejected] at hholds
    rw [hrejected] at hlast hflow hbytes hrejects hnumbers
    refine ⟨queue, ⟨hholds, hroom, hlast, hflow, hbytes, ?_, hnumbers, hlost⟩, ?_⟩
    · simpa [Encoder.unreferencing] using hrejects
    · simp [Exchanger.held, hrejected, Encoder.inHand, Encoder.unreferencing]
  case h_4 d hstored =>
    obtain ⟨hholds, hroom, hlast, hflow, hbytes, hrejects, hnumbers, hlost⟩ := hex
    rw [Exchanger.settled, hstored] at hholds
    rw [hstored] at hlast hflow hbytes hrejects hnumbers
    refine ⟨queue, ⟨hholds, hroom, hlast, hflow, ?_, hrejects, hnumbers, hlost⟩, ?_⟩
    · show s.pipe + 1 + s.reader.inProgress + 0 = queue.length
      rw [← hbytes, Nat.add_right_comm s.pipe]
      rfl
    · simp [Exchanger.held, hstored, Encoder.inHand, Encoder.unreferencing]
  case h_5 d hwritten =>
    obtain ⟨hholds, hroom, hlast, hflow, hbytes, hrejects, hnumbers, hlost⟩ := hex
    rw [Exchanger.settled, hwritten] at hholds
    rw [hwritten] at hlast hflow hbytes hrejects hnumbers
    refine ⟨queue, ⟨hholds, hroom, nil_suffix, ?_, hbytes, hrejects, ?_, hlost⟩, ?_⟩
    · simpa [Encoder.storing] using hflow
    · refine List.Perm.trans (List.Perm.map _ ?_) hnumbers
      simp only [Encoder.undecided, append_nil, append_assoc]
      exact perm_append_comm.append_left s.accepted
    · simp [Exchanger.held, hwritten, Encoder.inHand, Encoder.unreferencing]

/-- A byte is read. -/
theorem read {unread : ℕ} (hex : Exchanging slots s queue) (hout : s.reader = .outside)
    (hpipe : s.pipe = unread + 1) :
    Exchanging slots { s with pipe := unread, reader := .reading } queue := by
  obtain ⟨hholds, hroom, hlast, hflow, hbytes, hrejects, hnumbers, hlost⟩ := hex
  rw [hout] at hflow hbytes
  refine ⟨hholds, hroom, hlast, hflow, ?_, hrejects, hnumbers, hlost⟩
  rw [← hbytes, hpipe]
  rfl

/-- While a read is in progress, there is a frame to take. -/
theorem exists_cons (hex : Exchanging slots s queue) (hreading : s.reader = .reading) :
    ∃ d rest, queue = d :: rest := by
  have hbytes := hex.bytes
  rw [hreading, Reader.inProgress] at hbytes
  apply exists_cons_of_length_pos
  omega

/-- The frame that is taken is the oldest one. -/
theorem take (hex : Exchanging slots s (d :: rest)) (hreading : s.reader = .reading)
    (hfree : s.encoder.locks = false) :
    s.ring.slots s.ring.read = some d ∧
      Exchanging slots { s with ring := s.ring.take slots, reader := .taken d } rest := by
  obtain ⟨hholds, hroom, hlast, hflow, hbytes, hrejects, hnumbers, hlost⟩ := hex
  rw [Exchanger.settled, hfree] at hholds
  rw [hreading] at hflow hbytes
  obtain ⟨hstoring, hannounced⟩ := Encoder.storing_of_free hfree
  refine ⟨hholds.slot_read, ?_, Nat.lt_of_succ_lt hroom, ?_, ?_, ?_, hrejects, hnumbers, hlost⟩
  · rw [Exchanger.settled, hfree]
    exact hholds.take
  · rw [hstoring]
    exact nil_suffix
  · simpa [Reader.inHand] using hflow
  · rw [hannounced, length_cons] at hbytes
    show s.pipe + 0 + s.encoder.unannounced = rest.length
    rw [hannounced]
    exact Nat.succ_injective hbytes

/-- The frame that was taken is passed on. -/
theorem pass (hex : Exchanging slots s queue) (htaken : s.reader = .taken d) :
    Exchanging slots { s with reader := .outside, passed := s.passed ++ [d] } queue := by
  obtain ⟨hholds, hroom, hlast, hflow, hbytes, hrejects, hnumbers, hlost⟩ := hex
  rw [htaken] at hflow hbytes
  refine ⟨hholds, hroom, hlast, ?_, hbytes, hrejects, hnumbers, hlost⟩
  simpa [Reader.inHand] using hflow

/-- A turn of the event loop keeps the invariant. It lets go of a frame only where it passes it
on. -/
theorem exchangerRead (hex : Exchanging slots s queue) :
    ∃ queue', Exchanging slots (exchangerRead slots s) queue' ∧
      (s.held queue).Perm ((Media.exchangerRead slots s).held queue' ++ s.reader.inHand) := by
  unfold Media.exchangerRead
  split
  case h_1 hout =>
    split
    · refine ⟨queue, hex, ?_⟩
      simp [hout, Reader.inHand]
    · rename_i unread hpipe
      refine ⟨queue, hex.read hout hpipe, ?_⟩
      simp [Exchanger.held, hout, Reader.inHand]
  case h_2 hreading =>
    split
    · refine ⟨queue, hex, ?_⟩
      simp [hreading, Reader.inHand]
    · rename_i hlocks
      obtain ⟨d, rest, rfl⟩ := hex.exists_cons hreading
      obtain ⟨hslot, htake⟩ := hex.take hreading (Bool.eq_false_iff.mpr hlocks)
      rw [hslot]
      refine ⟨rest, htake, ?_⟩
      simp only [Exchanger.held, hreading, Reader.inHand, append_nil, nil_append]
      exact perm_middle.symm
  case h_3 d htaken =>
    refine ⟨queue, hex.pass htaken, ?_⟩
    simp only [Exchanger.held, htaken, Reader.inHand, nil_append, append_assoc]
    exact perm_append_comm.append_left queue

end Exchanging

/-- The invariant holds in every interleaving. -/
theorem exchanging_run (hslots : 0 < slots) (turns : List (Turn Frame)) :
    ∃ queue, Exchanging slots (exchangerRun slots turns) queue := by
  -- The turns are added at the end, so that the step lemma applies to the run before them.
  induction turns using List.reverseRecOn with
  | nil => exact ⟨[], exchanging_newExchanger hslots⟩
  | append_singleton turns turn ih =>
    obtain ⟨queue, hex⟩ := ih
    rw [exchangerRun, foldl_append]
    cases turn with
    | call f => exact ⟨queue, hex.call f⟩
    | encoder =>
      obtain ⟨queue', hnext, -⟩ := hex.deliverFrame
      exact ⟨queue', hnext⟩
    | reader =>
      obtain ⟨queue', hnext, -⟩ := hex.exchangerRead
      exact ⟨queue', hnext⟩

/-! ### What an exchanger delivers -/

/-- The event loop, taking turn after turn, passes on all that was accepted. -/
def PassesAll (slots : ℕ) (s : Exchanger Frame) : Prop :=
  ∃ turns, ((exchangerRead slots)^[turns] s).passed = s.accepted

/-- An exchanger does what it is for: it passes on the frames it accepted, once and in order, and
gives back the frames it rejected. -/
structure Delivers (slots : ℕ) (s : Exchanger Frame) : Prop where
  /-- Every call was accepted or rejected or is in progress, and only one of them. -/
  answered : ((s.accepted ++ s.rejected ++ s.encoder.undecided).map Delivery.number).Perm
    (List.range s.calls)
  /-- Frames are passed on in the order in which they were accepted, without gaps. -/
  passed_in_order : s.passed <+: s.accepted
  /-- No delivery is passed on twice. -/
  passed_once : s.passed.Nodup
  /-- Unless the encoder thread has the mutex, the event loop can pass on all that was accepted. -/
  passes_all : s.encoder.locks = false → PassesAll slots s
  /-- The rejected deliveries are the unreferenced ones, but for the one whose `unref_frame` is
  still to come. -/
  rejected_unreferenced : s.rejected = s.unreferenced ++ s.encoder.unreferencing
  /-- No rejected delivery is unreferenced twice. -/
  unreferenced_once : s.unreferenced.Nodup
  /-- No rejected delivery is passed on. -/
  rejected_never_passed : ∀ d ∈ s.rejected, d ∉ s.passed
  /-- Bytes and reads in progress tell how many slots are occupied, except between the two
  statements of the locked section that fill the slot and write the byte. -/
  bytes : (∀ d, s.encoder ≠ .stored d) →
    s.pipe + s.reader.inProgress = s.ring.occupied slots
  /-- One slot is always free. -/
  queued : s.ring.occupied slots ≤ slots - 1
  /-- The branch for a lost frame is not taken. -/
  lost : s.lost = 0

/-- Neither the encoder thread nor what was accepted changes in a turn of the event loop. -/
theorem exchangerRead_frame (s : Exchanger Frame) :
    (exchangerRead slots s).encoder = s.encoder ∧
      (exchangerRead slots s).accepted = s.accepted := by
  unfold exchangerRead
  repeat' split
  all_goals exact ⟨rfl, rfl⟩

theorem PassesAll.of_next (hnext : PassesAll slots (exchangerRead slots s)) : PassesAll slots s := by
  obtain ⟨turns, hpassed⟩ := hnext
  refine ⟨turns + 1, ?_⟩
  rw [Function.iterate_succ_apply, hpassed, (exchangerRead_frame s).2]

namespace Exchanging

theorem occupied (hex : Exchanging slots s queue) : s.ring.occupied slots = queue.length := by
  rw [← hex.holds.occupied, Exchanger.settled]
  -- Moving `slave_cur` does not touch the slots.
  split <;> rfl

theorem nodup (hex : Exchanging slots s queue) :
    (s.accepted ++ s.rejected ++ s.encoder.undecided).Nodup :=
  .of_map Delivery.number (hex.numbers.nodup_iff.mpr nodup_range)

theorem passed_append (hex : Exchanging slots s queue) (hfree : s.encoder.locks = false) :
    s.accepted = s.passed ++ s.reader.inHand ++ queue := by
  rw [← hex.flow, (Encoder.storing_of_free hfree).1, append_nil]

/-- From a point where a frame was taken, one turn leads out of `exchanger_read`. -/
theorem passesAll_of_taken (htaken : s.reader = .taken d)
    (hpass : PassesAll slots { s with reader := .outside, passed := s.passed ++ [d] }) :
    PassesAll slots s := by
  apply PassesAll.of_next
  simpa only [Media.exchangerRead, htaken] using hpass

/-- From a point where a byte was read, two turns pass on the oldest frame. -/
theorem passesAll_of_reading (hex : Exchanging slots s (d :: rest))
    (hfree : s.encoder.locks = false) (hreading : s.reader = .reading)
    (hout : ∀ {s'}, Exchanging slots s' rest → s'.encoder.locks = false → s'.reader = .outside →
      PassesAll slots s') : PassesAll slots s := by
  obtain ⟨hslot, htake⟩ := hex.take hreading hfree
  have hread : Media.exchangerRead slots s =
      { s with ring := s.ring.take slots, reader := .taken d } := by
    simp [Media.exchangerRead, hreading, hfree, hslot]
  apply PassesAll.of_next
  rw [hread]
  exact passesAll_of_taken rfl (hout (htake.pass rfl) hfree rfl)

theorem passesAll_of_outside (hex : Exchanging slots s queue) (hfree : s.encoder.locks = false)
    (hout : s.reader = .outside) : PassesAll slots s := by
  induction queue generalizing s with
  | nil =>
    refine ⟨0, ?_⟩
    rw [hex.passed_append hfree, hout]
    simp [Reader.inHand]
  | cons d rest ih =>
    have hpipe : s.pipe = rest.length + 1 := by
      have hbytes := hex.bytes
      rw [hout, (Encoder.storing_of_free hfree).2] at hbytes
      exact hbytes
    have hread : Media.exchangerRead slots s =
        { s with pipe := rest.length, reader := .reading } := by
      simp [Media.exchangerRead, hout, hpipe]
    apply PassesAll.of_next
    rw [hread]
    exact passesAll_of_reading (hex.read hout hpipe) hfree rfl ih

theorem passesAll (hex : Exchanging slots s queue) (hfree : s.encoder.locks = false) :
    PassesAll slots s := by
  cases hreader : s.reader with
  | outside => exact hex.passesAll_of_outside hfree hreader
  | reading =>
    obtain ⟨d, rest, rfl⟩ := hex.exists_cons hreader
    exact hex.passesAll_of_reading hfree hreader passesAll_of_outside
  | taken d => exact passesAll_of_taken hreader ((hex.pass hreader).passesAll_of_outside hfree rfl)

/-- What was passed on was accepted before: the delivery that is being stored is the last one of the
queue. -/
theorem passed_prefix (hex : Exchanging slots s queue) : s.passed <+: s.accepted := by
  obtain ⟨earlier, rfl⟩ := hex.last
  have hflow := hex.flow
  rw [← append_assoc, append_cancel_right_eq, append_assoc] at hflow
  rw [hflow]
  exact prefix_append _ _

theorem delivers (hex : Exchanging slots s queue) : Delivers slots s where
  answered := hex.numbers
  passed_in_order := hex.passed_prefix
  passed_once := hex.nodup.of_append_left.of_append_left.sublist hex.passed_prefix.sublist
  passes_all := hex.passesAll
  rejected_unreferenced := hex.rejects
  unreferenced_once := by
    have hrejected := hex.nodup.of_append_left.of_append_right
    rw [hex.rejects] at hrejected
    exact hrejected.of_append_left
  rejected_never_passed d hrejected hpassed :=
    disjoint_of_nodup_append hex.nodup.of_append_left (hex.passed_prefix.subset hpassed)
      hrejected
  bytes hstored := by
    have hannounced : s.encoder.unannounced = 0 := by
      unfold Encoder.unannounced
      split
      · exact absurd ‹_› (hstored _)
      · rfl
    rw [hex.occupied, ← hex.bytes, hannounced, Nat.add_zero]
  queued := by
    rw [hex.occupied]
    exact Nat.le_sub_one_of_lt hex.room
  lost := hex.lost

end Exchanging

/-- Every interleaving of an encoder thread that calls `deliver_frame` and of the event loop that
calls `exchanger_read` delivers the accepted frames in order, and gives the rejected ones back. -/
theorem exchanger_delivers (hslots : 2 ≤ slots) (turns : List (Turn Frame)) :
    Delivers slots (exchangerRun slots turns) := by
  obtain ⟨queue, hex⟩ := exchanging_run (Nat.lt_of_lt_of_le Nat.two_pos hslots) turns
  exact hex.delivers

/-- Two frames for an exchanger of two slots: the first one is accepted, its byte is read before the
encoder thread has let go of the mutex, and the second one comes before the slot is emptied. -/
def crossedTurns : List (Turn ℕ) :=
  [.call 7, .encoder, .encoder, .reader, .reader, .encoder, .call 8, .encoder, .encoder, .reader,
    .reader]

theorem exchanger_delivers_crossed :
    Delivers 2 (exchangerRun 2 crossedTurns) ∧
      (exchangerRun 2 crossedTurns).passed = [⟨0, 7⟩] ∧
      (exchangerRun 2 crossedTurns).unreferenced = [⟨1, 8⟩] :=
  ⟨exchanger_delivers (Nat.le_refl 2) crossedTurns, by decide, by decide⟩

end WisCam.Media
