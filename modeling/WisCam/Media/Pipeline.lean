import Mathlib.Algebra.BigOperators.Group.Finset.Basic
import Mathlib.Algebra.Order.BigOperators.Group.Multiset
import Mathlib.Data.Fintype.Basic
import Mathlib.Tactic.Abel
import WisCam.Media.Exchanger

/-!
# The frames of the media pipeline

All frames come from one heap, a ring in which every slot has a frame at the start. The loop of an
encoder takes a frame with `new_frame`, fills it and calls `deliver_frame` on its exchanger, which
stores the frame or drops the reference. The event loop takes the frame out with `exchanger_read`
and calls `deliver_frame_to_stream`: each waiting destination gets a reference of its own, which
`next_live_frame` drops again, whether the packetiser accepts the frame or not, and at the end the
reference of the encoder is dropped. A frame without references goes back into the heap.

A line is an encoder with its exchanger and the stream behind it. The encoder threads and the event
loop take turns. `unref_frame` takes two turns when it drops the last reference, one for the count
and one for the heap, since other threads can use the heap in between. What the listeners do is not
restricted: they may come, go, wait or stop waiting between any two turns.

`Conserving` says where the frames are at every point, and `frames_conserved` what this means when
nobody is at work.
-/

set_option autoImplicit false

namespace WisCam.Media

open Foundations List

/-! ### The pipeline -/

/-- The sizes of the rings, as given to `init_frame_heap` and `new_exchanger`. -/
structure Sizes (Line : Type) where
  count : ℕ
  slots : Line → ℕ
  count_pos : 0 < count
  slots_pos : ∀ line, 0 < slots line

/-- Where the event loop is. -/
inductive Loop (Line Track : Type)
  | idle
  /-- In `exchanger_read`, with a byte read. -/
  | reading (line : Line)
  /-- In `deliver_frame_to_stream`, with the destinations that are still to come. -/
  | delivering (f : ℕ) (rest : List Track)
  /-- In `next_live_frame` for a track. -/
  | processing (f : ℕ) (track : Track) (rest : List Track)
  /-- In `unref_frame`, before the heap is locked, called at the end of `deliver_frame_to_stream`
  or, with the destinations that are still to come, in `next_live_frame`. -/
  | returning (f : ℕ) (rest : Option (List Track))

/-- The heap, the lines with their exchangers, the event loop and the destinations of the
streams. -/
structure Pipeline (Line Track : Type) where
  /-- The slot to read is `frame_heap_take`, the slot to write is `frame_heap_put`. -/
  heap : SlotRing ℕ
  /-- The heap stays locked after a frame was found at `frame_heap_put`. -/
  heapLocked : Bool
  refCount : ℕ → ℤ
  exchangers : Line → Exchanger ℕ
  /-- The frame that the encoder thread is about to put into the heap. -/
  returning : Line → Option ℕ
  loop : Loop Line Track
  destList : Line → List Track
  waiting : Track → Bool
  ready : Track → Bool

section Turns

variable {Line Track : Type} [DecidableEq Line] [DecidableEq Track] (sizes : Sizes Line)

/-- `init_frame_heap` and `new_exchanger`. The reference counts are not set. -/
def initPipeline (refCount : ℕ → ℤ) : Pipeline Line Track :=
  { heap := .full id, heapLocked := false, refCount := refCount, exchangers := fun _ ↦ newExchanger,
    returning := fun _ ↦ none, loop := .idle, destList := fun _ ↦ [], waiting := fun _ ↦ false,
    ready := fun _ ↦ false }

namespace Pipeline

def setExchanger (s : Pipeline Line Track) (line : Line) (ex : Exchanger ℕ) : Pipeline Line Track :=
  { s with exchangers := Function.update s.exchangers line ex }

def setRefCount (s : Pipeline Line Track) (f : ℕ) (count : ℤ) : Pipeline Line Track :=
  { s with refCount := Function.update s.refCount f count }

/-- The frame that the encoder thread of a line is about to put into the heap. -/
def setReturning (s : Pipeline Line Track) (line : Line) (f : Option ℕ) : Pipeline Line Track :=
  { s with returning := Function.update s.returning line f }

end Pipeline

open Pipeline

/-- `new_frame` in the loop of an encoder, and the call of `deliver_frame` once the frame is filled.
Without a free frame the loop starts again. -/
def newFrame (line : Line) (s : Pipeline Line Track) : Pipeline Line Track :=
  if s.heapLocked then s
  else match (s.exchangers line).encoder, s.returning line, s.heap.slots s.heap.read with
    | .outside, none, some f =>
      ({ s with heap := s.heap.take sizes.count }.setRefCount f 1).setExchanger line
        (callDeliverFrame f (s.exchangers line))
    | _, _, _ => s

/-- The second part of `unref_frame`: the frame goes back into the heap. -/
def putFrame (f : ℕ) (s : Pipeline Line Track) : Pipeline Line Track :=
  match s.heap.slots s.heap.write with
  | some _ => { s with heapLocked := true } -- "Ack!  There is a frame at frame_heap_put!"
  | none => { s with heap := s.heap.push sizes.count f }

/-- A turn of an encoder thread in `deliver_frame`. A rejected frame loses its reference. -/
def encoderTurn (line : Line) (s : Pipeline Line Track) : Pipeline Line Track :=
  match s.returning line with
  | some f => if s.heapLocked then s else (putFrame sizes f s).setReturning line none
  | none =>
    let s' := s.setExchanger line (deliverFrame (sizes.slots line) (s.exchangers line))
    match (s.exchangers line).encoder with
    | .rejected d =>
      let r := s.refCount d.frame - 1
      if 0 < r then s'.setRefCount d.frame r
      else (s'.setRefCount d.frame r).setReturning line (some d.frame)
    | _ => s'

/-- The event loop calls `exchanger_read`, which returns at once if there is no byte to read. -/
def dispatch (line : Line) (s : Pipeline Line Track) : Pipeline Line Track :=
  match s.loop with
  | .idle =>
    { s.setExchanger line (exchangerRead (sizes.slots line) (s.exchangers line)) with
      loop := if (s.exchangers line).pipe = 0 then .idle else .reading line }
  | _ => s

/-- A turn of `exchanger_read` after the byte was read. -/
def exchangerTurn (line : Line) (s : Pipeline Line Track) : Pipeline Line Track :=
  let ex := exchangerRead (sizes.slots line) (s.exchangers line)
  { s.setExchanger line ex with
    loop := match (s.exchangers line).reader with
      | .taken d => .delivering d.frame (s.destList line)
      | _ => match ex.reader with
        | .outside => .idle
        | _ => .reading line }

/-- A turn of `deliver_frame_to_stream`: a destination gets the frame if it waits for one. -/
def deliverFrameToStream (f : ℕ) (s : Pipeline Line Track) :
    List Track → Pipeline Line Track
  | track :: rest =>
    if s.waiting track then
      { s.setRefCount f (s.refCount f + 1) with loop := .processing f track rest }
    else { s with loop := .delivering f rest }
  | [] =>
    let r := s.refCount f - 1
    { s.setRefCount f r with loop := if 0 < r then .idle else .returning f none }

/-- `next_live_frame`, with the answer of the packetiser. The first frame that is accepted makes the
track ready. -/
def nextLiveFrame (accepts : Bool) (f : ℕ) (track : Track) (rest : List Track)
    (s : Pipeline Line Track) : Pipeline Line Track :=
  let r := s.refCount f - 1
  let loop : Loop Line Track := if 0 < r then .delivering f rest else .returning f (some rest)
  if accepts && !s.ready track then
    { s.setRefCount f r with
      loop := loop, waiting := Function.update s.waiting track false,
      ready := Function.update s.ready track true }
  else { s.setRefCount f r with loop := loop }

/-- A turn of the event loop in a handler. -/
def loopTurn (accepts : Bool) (s : Pipeline Line Track) : Pipeline Line Track :=
  match s.loop with
  | .idle => s
  | .reading line => exchangerTurn sizes line s
  | .delivering f rest => deliverFrameToStream f s rest
  | .processing f track rest => nextLiveFrame accepts f track rest s
  | .returning f rest =>
    if s.heapLocked then s
    else { putFrame sizes f s with
      loop := match rest with
        | none => .idle
        | some rest => .delivering f rest }

/-- Whose turn it is in the pipeline. -/
inductive PipelineTurn (Line Track : Type)
  | newFrame (line : Line)
  | encoder (line : Line)
  | dispatch (line : Line)
  /-- The event loop goes on, with the answer of the packetiser if it is asked. -/
  | loop (accepts : Bool)
  /-- The listeners do what they like with the destinations. -/
  | listeners (destList : Line → List Track) (waiting ready : Track → Bool)

def pipelineStep (s : Pipeline Line Track) : PipelineTurn Line Track → Pipeline Line Track
  | .newFrame line => newFrame sizes line s
  | .encoder line => encoderTurn sizes line s
  | .dispatch line => dispatch sizes line s
  | .loop accepts => loopTurn sizes accepts s
  | .listeners destList waiting ready =>
    { s with destList := destList, waiting := waiting, ready := ready }

def pipelineRun (refCount : ℕ → ℤ) (turns : List (PipelineTurn Line Track)) :
    Pipeline Line Track :=
  turns.foldl (pipelineStep sizes) (initPipeline refCount)

end Turns

/-! ### Where the frames are -/

variable {Line Track : Type}

/-- The frames of a line: in its exchanger, in the hands of its encoder thread, or taken from the
exchanger and not yet passed on. -/
def framesOf (ex : Exchanger ℕ) (returning : Option ℕ) (queue : List (Delivery ℕ)) : Multiset ℕ :=
  ((ex.held queue).map Delivery.frame : List ℕ) + (returning.toList : List ℕ)

namespace Loop

/-- The frame in the hands of the event loop. -/
def frames : Loop Line Track → Multiset ℕ
  | .idle | .reading _ => 0
  | .delivering f _ | .processing f _ _ | .returning f _ => {f}

/-- The references to the frame in the hands of the event loop. -/
def Refs (refCount : ℕ → ℤ) : Loop Line Track → Prop
  | .idle | .reading _ => True
  | .delivering f _ => refCount f = 1
  | .processing f _ _ => refCount f = 2
  | .returning _ rest => rest = none

end Loop

variable {loop : Loop Line Track} {f : ℕ}

theorem Loop.Refs.update {refCount : ℕ → ℤ} (hrefs : loop.Refs refCount) (hnot : f ∉ loop.frames)
    (r : ℤ) : loop.Refs (Function.update refCount f r) := by
  cases loop with
  | idle | reading => trivial
  | returning => exact hrefs
  | delivering g | processing g =>
    have hne : g ≠ f := fun hsame ↦ hnot (Multiset.mem_singleton.mpr hsame.symm)
    exact (Function.update_of_ne hne _ _).trans hrefs

variable {ex : Exchanger ℕ}

theorem framesOf_call (hout : ex.encoder = .outside) (f : ℕ) (returning : Option ℕ)
    (queue : List (Delivery ℕ)) :
    framesOf (callDeliverFrame f ex) returning queue = f ::ₘ framesOf ex returning queue := by
  have hheld : ((callDeliverFrame f ex).held queue).map Delivery.frame =
      (ex.held queue).map Delivery.frame ++ [f] := by
    simp [callDeliverFrame, Exchanger.held, hout, Encoder.inHand]
  rw [framesOf, framesOf, hheld, ← Multiset.coe_add, Multiset.coe_singleton, add_right_comm,
    ← Multiset.singleton_add, add_comm]

theorem framesOf_some (ex : Exchanger ℕ) (f : ℕ) (queue : List (Delivery ℕ)) :
    framesOf ex (some f) queue = framesOf ex none queue + {f} := by
  rw [framesOf, framesOf, Option.toList_none, Multiset.coe_nil, add_zero, Option.toList_some,
    Multiset.coe_singleton]

theorem framesOf_perm {ex' : Exchanger ℕ} {queue queue' released : List (Delivery ℕ)}
    (hperm : (ex.held queue).Perm (ex'.held queue' ++ released)) (returning : Option ℕ) :
    framesOf ex returning queue =
      framesOf ex' returning queue' + (released.map Delivery.frame : List ℕ) := by
  rw [framesOf, framesOf, Multiset.coe_eq_coe.mpr (hperm.map _), map_append,
    ← Multiset.coe_add, add_right_comm]

variable [Fintype Line] {sizes : Sizes Line}

/-- Every frame of the heap is in one place, and the counts are as the places want them. -/
structure Conserving (sizes : Sizes Line) (s : Pipeline Line Track) (free : List ℕ)
    (queues : Line → List (Delivery ℕ)) : Prop where
  heap : SlotRing.Holds sizes.count s.heap free
  lines : ∀ line, Exchanging (sizes.slots line) (s.exchangers line) (queues line)
  frames : (free : Multiset ℕ) + s.loop.frames +
    ∑ line, framesOf (s.exchangers line) (s.returning line) (queues line) =
      Multiset.range sizes.count
  refs : ∀ line, ∀ d ∈ (s.exchangers line).held (queues line), s.refCount d.frame = 1
  loopRefs : s.loop.Refs s.refCount
  readers : ∀ line, (s.exchangers line).reader ≠ .outside → s.loop = .reading line
  unlocked : s.heapLocked = false

variable {s : Pipeline Line Track} {free : List ℕ} {queues : Line → List (Delivery ℕ)}

theorem conserving_initPipeline (refCount : ℕ → ℤ) :
    Conserving sizes (initPipeline refCount : Pipeline Line Track) (List.range sizes.count)
      fun _ ↦ [] where
  heap := by
    have hfull := SlotRing.holds_full sizes.count_pos id
    rwa [map_id] at hfull
  lines line := exchanging_newExchanger (sizes.slots_pos line)
  frames := by
    have hline : framesOf newExchanger none [] = 0 := rfl
    simp [initPipeline, Loop.frames, hline, Multiset.range]
  refs line d hd := absurd hd not_mem_nil
  loopRefs := trivial
  readers line hreader := absurd rfl hreader
  unlocked := rfl

namespace Conserving

/-- No frame is in two places. -/
theorem frames_nodup (hcons : Conserving sizes s free queues) :
    ((free : Multiset ℕ) + s.loop.frames +
      ∑ line, framesOf (s.exchangers line) (s.returning line) (queues line)).Nodup := by
  rw [hcons.frames]
  exact Multiset.nodup_range _

theorem mem_framesOf {returning : Option ℕ} {queue : List (Delivery ℕ)} {d : Delivery ℕ}
    (hd : d ∈ ex.held queue) : d.frame ∈ framesOf ex returning queue :=
  Multiset.mem_add.mpr (.inl (mem_map_of_mem hd))

variable {s' : Pipeline Line Track}

/-- A turn of the event loop with the frame in its hands. -/
theorem changeLoop (hcons : Conserving sizes s free queues) {free' : List ℕ}
    (hexchangers : s'.exchangers = s.exchangers) (hreturning : s'.returning = s.returning)
    (hheap : SlotRing.Holds sizes.count s'.heap free')
    (hframes : (free' : Multiset ℕ) + s'.loop.frames = free + s.loop.frames)
    (hother : ∀ f, f ∉ s.loop.frames → s'.refCount f = s.refCount f)
    (hloop : s'.loop.Refs s'.refCount) (hreaders : ∀ line, s.loop ≠ .reading line)
    (hunlocked : s'.heapLocked = false) :
    Conserving sizes s' free' queues where
  heap := hheap
  lines line := by
    rw [hexchangers]
    exact hcons.lines line
  frames := by
    rw [hexchangers, hreturning, hframes]
    exact hcons.frames
  refs line d hd := by
    rw [hexchangers] at hd
    have hmem : d.frame ∈ ∑ line, framesOf (s.exchangers line) (s.returning line) (queues line) :=
      Multiset.mem_sum.mpr ⟨line, Finset.mem_univ _, mem_framesOf hd⟩
    have hnot := Multiset.disjoint_right.mp (Multiset.nodup_add.mp hcons.frames_nodup).2.2 hmem
    rw [hother _ fun hloop ↦ hnot (Multiset.mem_add.mpr (.inr hloop))]
    exact hcons.refs line d hd
  loopRefs := hloop
  readers line hreader := by
    rw [hexchangers] at hreader
    exact absurd (hcons.readers line hreader) (hreaders line)
  unlocked := hunlocked

/-- While a frame is with the event loop or a line, the heap has room for it. -/
theorem room (hcons : Conserving sizes s free queues) (hmem : f ∈ s.loop.frames +
      ∑ line, framesOf (s.exchangers line) (s.returning line) (queues line)) :
    free.length < sizes.count := by
  have hcard := congrArg Multiset.card hcons.frames
  rw [add_assoc, Multiset.card_add, Multiset.coe_card, Multiset.card_range] at hcard
  have hpos := Multiset.card_pos_iff_exists_mem.mpr ⟨f, hmem⟩
  omega

theorem heap_free (hcons : Conserving sizes s free queues) : ¬s.heapLocked = true := by
  rw [hcons.unlocked]
  exact Bool.false_ne_true

/-- A frame without references goes back into the heap. -/
theorem putFrame (hcons : Conserving sizes s free queues) (hmem : f ∈ s.loop.frames +
      ∑ line, framesOf (s.exchangers line) (s.returning line) (queues line)) :
    putFrame sizes f s = { s with heap := s.heap.push sizes.count f } ∧
      SlotRing.Holds sizes.count (s.heap.push sizes.count f) (free ++ [f]) := by
  have hroom := hcons.room hmem
  constructor
  · rw [Media.putFrame, hcons.heap.slot_write hroom]
  · exact hcons.heap.push hroom

/-- A turn of the event loop that keeps its frame and changes at most its reference count. -/
theorem countTurn {r : ℤ} {waiting ready : Track → Bool} (hcons : Conserving sizes s free queues)
    (hbefore : s.loop.frames = {f}) (hafter : loop.frames = {f})
    (hrefs : loop.Refs (Function.update s.refCount f r)) :
    ∃ free' queues', Conserving sizes
      { s.setRefCount f r with loop := loop, waiting := waiting, ready := ready }
      free' queues' := by
  refine ⟨free, queues, hcons.changeLoop rfl rfl hcons.heap ?_ ?_ hrefs ?_ hcons.unlocked⟩
  · rw [hbefore, hafter]
  · intro g hg
    apply Function.update_of_ne
    rintro rfl
    exact hg (hbefore ▸ Multiset.mem_singleton_self _)
  · intro line hreading
    rw [hreading] at hbefore
    exact absurd hbefore.symm (Multiset.singleton_ne_zero f)

/-- A destination gets a reference of its own, and at the end the reference of the encoder is
dropped. -/
theorem deliverFrameToStream {rest : List Track} (hcons : Conserving sizes s free queues)
    (hloop : s.loop = .delivering f rest) :
    ∃ free' queues', Conserving sizes (deliverFrameToStream f s rest) free' queues' := by
  have hone : s.refCount f = 1 := by
    have hrefs := hcons.loopRefs
    rwa [hloop] at hrefs
  have hbefore : s.loop.frames = {f} := by
    rw [hloop]
    rfl
  unfold Media.deliverFrameToStream
  split
  · rename_i track rest
    split
    · apply hcons.countTurn hbefore rfl
      show Function.update s.refCount f _ f = 2
      rw [Function.update_self, hone]
      rfl
    · refine ⟨free, queues, hcons.changeLoop rfl rfl hcons.heap ?_ (fun _ _ ↦ rfl) hone ?_
        hcons.unlocked⟩
      · rw [hbefore]
        rfl
      · intro line hreading
        rw [hloop] at hreading
        cases hreading
  · simp only [hone, sub_self, lt_self_iff_false, if_false]
    exact hcons.countTurn hbefore rfl rfl

/-- The reference of a destination is dropped, whether the packetiser accepts the frame or not. -/
theorem nextLiveFrame {track : Track} {rest : List Track} [DecidableEq Track]
    (hcons : Conserving sizes s free queues) (hloop : s.loop = .processing f track rest)
    (accepts : Bool) :
    ∃ free' queues', Conserving sizes (nextLiveFrame accepts f track rest s) free' queues' := by
  have htwo : s.refCount f - 1 = 1 := by
    have hrefs := hcons.loopRefs
    rw [hloop] at hrefs
    rw [show s.refCount f = 2 from hrefs]
    rfl
  have hbefore : s.loop.frames = {f} := by
    rw [hloop]
    rfl
  have hafter : (Loop.delivering f rest : Loop Line Track).Refs
      (Function.update s.refCount f 1) := Function.update_self _ _ _
  simp only [Media.nextLiveFrame, htwo, Int.zero_lt_one, if_true]
  split
  · exact hcons.countTurn hbefore rfl hafter
  · exact hcons.countTurn hbefore rfl hafter

/-- The event loop puts a frame into the heap. -/
theorem loopReturns {rest : Option (List Track)} (hcons : Conserving sizes s free queues)
    (hloop : s.loop = .returning f rest) :
    ∃ free' queues', Conserving sizes
      { Media.putFrame sizes f s with
        loop := match rest with
          | none => .idle
          | some rest => .delivering f rest } free' queues' := by
  have hlast : rest = none := by
    have hrefs := hcons.loopRefs
    rwa [hloop] at hrefs
  subst hlast
  have hbefore : s.loop.frames = {f} := by
    rw [hloop]
    rfl
  obtain ⟨hput, hheap⟩ := hcons.putFrame (f := f)
    (Multiset.mem_add.mpr (.inl (hbefore ▸ Multiset.mem_singleton_self _)))
  rw [hput]
  refine ⟨_, _, hcons.changeLoop rfl rfl hheap ?_ (fun _ _ ↦ rfl) trivial ?_ hcons.unlocked⟩
  · rw [hbefore, ← Multiset.coe_add, Multiset.coe_singleton]
    exact add_zero _
  · intro line hreading
    rw [hloop] at hreading
    cases hreading

variable [DecidableEq Line]

/-- The frames of one line, apart from those of the others. -/
theorem frames_split (hcons : Conserving sizes s free queues) (line : Line) :
    (free : Multiset ℕ) + s.loop.frames +
        framesOf (s.exchangers line) (s.returning line) (queues line) +
      ∑ other ∈ Finset.univ.erase line,
        framesOf (s.exchangers other) (s.returning other) (queues other) =
      Multiset.range sizes.count := by
  rw [← hcons.frames, ← Finset.add_sum_erase _ _ (Finset.mem_univ line), add_assoc _ (framesOf _ _ _)]

theorem line_nodup (hcons : Conserving sizes s free queues) (line : Line) :
    (framesOf (s.exchangers line) (s.returning line) (queues line)).Nodup ∧
      ∀ f ∈ framesOf (s.exchangers line) (s.returning line) (queues line), f ∉ s.loop.frames := by
  have hnodup : (Multiset.range sizes.count).Nodup := Multiset.nodup_range _
  rw [← hcons.frames_split line, Multiset.nodup_add, Multiset.nodup_add] at hnodup
  obtain ⟨⟨-, hline, hdisjoint⟩, -⟩ := hnodup
  refine ⟨hline, fun f hf hloop ↦ ?_⟩
  exact Multiset.disjoint_right.mp hdisjoint hf (Multiset.mem_add.mpr (.inr hloop))

/-- A turn on one line. It moves frames between the line, the heap and the event loop, and changes
the reference counts of such frames only. -/
theorem change (hcons : Conserving sizes s free queues) (line : Line) {free' : List ℕ}
    (returning : Option ℕ) {queue : List (Delivery ℕ)}
    (hexchangers : s'.exchangers = Function.update s.exchangers line ex)
    (hreturning : s'.returning = Function.update s.returning line returning)
    (hheap : SlotRing.Holds sizes.count s'.heap free')
    (hline : Exchanging (sizes.slots line) ex queue)
    (hframes : (free' : Multiset ℕ) + s'.loop.frames + framesOf ex returning queue =
      free + s.loop.frames + framesOf (s.exchangers line) (s.returning line) (queues line))
    (hother : ∀ f, f ∉ (free : Multiset ℕ) + s.loop.frames +
        framesOf (s.exchangers line) (s.returning line) (queues line) →
      s'.refCount f = s.refCount f) (hrefs : ∀ d ∈ ex.held queue, s'.refCount d.frame = 1)
    (hloop : s'.loop.Refs s'.refCount) (hreader : ex.reader ≠ .outside → s'.loop = .reading line)
    (hreaders : ∀ other ≠ line, s.loop = .reading other → s'.loop = .reading other)
    (hunlocked : s'.heapLocked = false) :
    Conserving sizes s' free' (Function.update queues line queue) where
  heap := hheap
  lines other := by
    rw [hexchangers]
    by_cases hsame : other = line
    · subst hsame
      simpa using hline
    · simpa [hsame] using hcons.lines other
  frames := by
    rw [← hcons.frames_split line, ← hframes, ← Finset.add_sum_erase _ _ (Finset.mem_univ line),
      ← add_assoc, hexchangers, hreturning]
    congr 1
    · simp
    · apply Finset.sum_congr rfl
      intro other hmem
      have hne := Finset.ne_of_mem_erase hmem
      simp [hne]
  refs other d hd := by
    by_cases hsame : other = line
    · subst hsame
      rw [hexchangers] at hd
      simp only [Function.update_self] at hd
      exact hrefs d hd
    · rw [hexchangers] at hd
      simp only [Function.update_of_ne hsame] at hd
      -- A frame of another line is not one of those that the turn can touch.
      have hnodup : (Multiset.range sizes.count).Nodup := Multiset.nodup_range _
      rw [← hcons.frames_split line, Multiset.nodup_add] at hnodup
      have hmem : d.frame ∈ ∑ other ∈ Finset.univ.erase line,
          framesOf (s.exchangers other) (s.returning other) (queues other) :=
        Multiset.mem_sum.mpr
          ⟨other, Finset.mem_erase.mpr ⟨hsame, Finset.mem_univ _⟩, mem_framesOf hd⟩
      rw [hother _ (Multiset.disjoint_right.mp hnodup.2.2 hmem)]
      exact hcons.refs other d hd
  loopRefs := hloop
  readers other hother := by
    rw [hexchangers] at hother
    by_cases hsame : other = line
    · subst hsame
      exact hreader (by simpa using hother)
    · apply hreaders other hsame
      exact hcons.readers other (by simpa [hsame] using hother)
  unlocked := hunlocked

theorem newFrame (hcons : Conserving sizes s free queues) (line : Line) :
    ∃ free' queues', Conserving sizes (newFrame sizes line s) free' queues' := by
  unfold Media.newFrame
  rw [if_neg hcons.heap_free]
  split
  case h_2 => exact ⟨free, queues, hcons⟩
  case h_1 f hout hidle hslot =>
    rw [hcons.heap.slot_read] at hslot
    obtain ⟨rest, rfl⟩ : ∃ rest, free = f :: rest := List.head?_eq_some_iff.mp hslot
    have hfree : f ∈ ((f :: rest : List ℕ) : Multiset ℕ) + s.loop.frames :=
      Multiset.mem_add.mpr (.inl mem_cons_self)
    have hloop : f ∉ s.loop.frames := by
      have hnodup := (Multiset.nodup_add.mp hcons.frames_nodup).1
      exact Multiset.disjoint_left.mp (Multiset.nodup_add.mp hnodup).2.2 mem_cons_self
    have hreader : (callDeliverFrame f (s.exchangers line)).reader = (s.exchangers line).reader := by
      rw [callDeliverFrame, hout]
    refine ⟨rest, _, hcons.change line (s.returning line) rfl
      (Function.update_eq_self _ _).symm hcons.heap.take ((hcons.lines line).call f) ?_ ?_ ?_
      (hcons.loopRefs.update hloop 1) ?_ (fun _ _ hsame ↦ hsame) hcons.unlocked⟩
    · show (rest : Multiset ℕ) + s.loop.frames + _ = _
      rw [framesOf_call hout, ← Multiset.cons_coe, Multiset.cons_add, Multiset.cons_add,
        Multiset.add_cons]
    · intro g hg
      apply Function.update_of_ne
      rintro rfl
      exact hg (Multiset.mem_add.mpr (.inl hfree))
    · intro d hd
      show Function.update s.refCount f 1 d.frame = 1
      by_cases hsame : d.frame = f
      · rw [hsame, Function.update_self]
      · rw [Function.update_of_ne hsame]
        apply hcons.refs line d
        simp only [callDeliverFrame, hout, Exchanger.held, Encoder.inHand, append_nil,
          mem_append, mem_singleton] at hd ⊢
        rcases hd with hqueue | htaken | rfl
        · exact .inl hqueue
        · exact .inr htaken
        · exact absurd rfl hsame
    · rw [hreader]
      exact hcons.readers line

/-- The encoder thread puts a rejected frame into the heap. -/
theorem encoderReturns {line : Line} (hcons : Conserving sizes s free queues)
    (hreturning : s.returning line = some f) :
    ∃ free' queues', Conserving sizes ((Media.putFrame sizes f s).setReturning line none)
      free' queues' := by
  have hmem : f ∈ framesOf (s.exchangers line) (s.returning line) (queues line) := by
    rw [hreturning]
    exact Multiset.mem_add.mpr (.inr mem_cons_self)
  obtain ⟨hput, hheap⟩ := hcons.putFrame (Multiset.mem_add.mpr
    (.inr (Multiset.mem_sum.mpr ⟨line, Finset.mem_univ _, hmem⟩)))
  rw [hput]
  refine ⟨_, _, hcons.change line none (Function.update_eq_self _ _).symm rfl hheap
    (hcons.lines line) ?_ (fun _ _ ↦ rfl) (hcons.refs line) hcons.loopRefs (hcons.readers line)
    (fun _ _ hsame ↦ hsame) hcons.unlocked⟩
  show ((free ++ [f] : List ℕ) : Multiset ℕ) + s.loop.frames +
    framesOf (s.exchangers line) none (queues line) = _
  rw [hreturning, framesOf_some, ← Multiset.coe_add, Multiset.coe_singleton]
  abel

theorem deliverFrame_reader (slots : ℕ) (ex : Exchanger ℕ) :
    (deliverFrame slots ex).reader = ex.reader := by
  unfold deliverFrame
  repeat' split
  all_goals rfl

/-- The encoder thread drops the only reference of a rejected frame. -/
theorem encoderDrops {line : Line} {d : Delivery ℕ} (hcons : Conserving sizes s free queues)
    (hreturning : s.returning line = none)
    (hrejected : (s.exchangers line).encoder = .rejected d) :
    ∃ free' queues', Conserving sizes
      (((s.setExchanger line (deliverFrame (sizes.slots line) (s.exchangers line))).setRefCount
        d.frame 0).setReturning line (some d.frame)) free' queues' := by
  obtain ⟨queue', hline, hperm⟩ := (hcons.lines line).deliverFrame
  rw [hrejected, Encoder.unreferencing] at hperm
  have hframes := framesOf_perm hperm none
  rw [map_singleton, Multiset.coe_singleton] at hframes
  obtain ⟨hnodup, hloop⟩ := hcons.line_nodup line
  have hmem : d.frame ∈ framesOf (s.exchangers line) (s.returning line) (queues line) := by
    rw [hreturning, hframes]
    exact Multiset.mem_add.mpr (.inr (Multiset.mem_singleton_self _))
  refine ⟨_, _, hcons.change line (some d.frame) rfl rfl hcons.heap hline ?_ ?_ ?_
    (hcons.loopRefs.update (hloop _ hmem) 0) ?_ (fun _ _ hsame ↦ hsame) hcons.unlocked⟩
  · rw [hreturning, hframes, framesOf_some]
    rfl
  · intro f hf
    apply Function.update_of_ne
    rintro rfl
    exact hf (Multiset.mem_add.mpr (.inr hmem))
  · intro e he
    have hne : e.frame ≠ d.frame := by
      rw [hreturning, hframes, Multiset.nodup_add] at hnodup
      intro hsame
      exact Multiset.disjoint_left.mp hnodup.2.2 (mem_framesOf he)
        (Multiset.mem_singleton.mpr hsame)
    refine (Function.update_of_ne hne _ _).trans (hcons.refs line e ?_)
    exact hperm.mem_iff.mpr (mem_append_left _ he)
  · rw [deliverFrame_reader]
    exact hcons.readers line

theorem encoderTurn (hcons : Conserving sizes s free queues) (line : Line) :
    ∃ free' queues', Conserving sizes (encoderTurn sizes line s) free' queues' := by
  unfold Media.encoderTurn
  split
  case h_1 f hreturning =>
    rw [if_neg hcons.heap_free]
    exact hcons.encoderReturns hreturning
  case h_2 hreturning =>
    split
    case h_1 d hrejected =>
      have hone : s.refCount d.frame = 1 := by
        apply hcons.refs line d
        simp [Exchanger.held, hrejected, Encoder.inHand]
      simp only [hone, sub_self, lt_self_iff_false, if_false]
      exact hcons.encoderDrops hreturning hrejected
    case h_2 hother =>
      obtain ⟨queue', hline, hperm⟩ := (hcons.lines line).deliverFrame
      have hkeeps : (s.exchangers line).encoder.unreferencing = [] := by
        unfold Encoder.unreferencing
        split
        · exact absurd ‹_› (hother _)
        · rfl
      rw [hkeeps, append_nil] at hperm
      refine ⟨_, _, hcons.change line (s.returning line) rfl (Function.update_eq_self _ _).symm
        hcons.heap hline ?_ (fun _ _ ↦ rfl) ?_ hcons.loopRefs ?_ (fun _ _ hsame ↦ hsame)
        hcons.unlocked⟩
      · show (free : Multiset ℕ) + s.loop.frames + framesOf _ _ queue' = _
        rw [framesOf, framesOf, Multiset.coe_eq_coe.mpr (hperm.map _)]
      · intro d hd
        exact hcons.refs line d (hperm.mem_iff.mpr hd)
      · rw [deliverFrame_reader]
        exact hcons.readers line

/-- A turn of `exchanger_read` that does not pass a frame on. -/
theorem readerTurn {line : Line} (hcons : Conserving sizes s free queues)
    (hkeeps : (s.exchangers line).reader.inHand = []) (hbefore : s.loop.frames = 0)
    (hafter : loop.frames = 0) (hrefs : loop.Refs s.refCount)
    (hreader : (exchangerRead (sizes.slots line) (s.exchangers line)).reader ≠ .outside →
      loop = .reading line) (hreaders : ∀ other ≠ line, s.loop ≠ .reading other) :
    ∃ free' queues', Conserving sizes
      { s.setExchanger line (exchangerRead (sizes.slots line) (s.exchangers line)) with
        loop := loop } free' queues' := by
  obtain ⟨queue', hline, hperm⟩ := (hcons.lines line).exchangerRead
  rw [hkeeps, append_nil] at hperm
  refine ⟨_, _, hcons.change line (s.returning line) rfl (Function.update_eq_self _ _).symm
    hcons.heap hline ?_ (fun _ _ ↦ rfl) ?_ hrefs hreader ?_ hcons.unlocked⟩
  · show (free : Multiset ℕ) + loop.frames + framesOf _ _ queue' = _
    rw [hafter, hbefore, framesOf, framesOf, Multiset.coe_eq_coe.mpr (hperm.map _)]
  · intro d hd
    exact hcons.refs line d (hperm.mem_iff.mpr hd)
  · intro other hne hreading
    exact absurd hreading (hreaders other hne)

/-- The event loop reads a byte, or finds none. -/
theorem dispatch (hcons : Conserving sizes s free queues) (line : Line) :
    ∃ free' queues', Conserving sizes (dispatch sizes line s) free' queues' := by
  unfold Media.dispatch
  split
  case h_2 => exact ⟨free, queues, hcons⟩
  case h_1 hidle =>
    have hnone : ∀ other, s.loop ≠ .reading other := by
      intro other hreading
      rw [hidle] at hreading
      cases hreading
    have hout : (s.exchangers line).reader = .outside := by
      by_contra hin
      exact hnone line (hcons.readers line hin)
    refine hcons.readerTurn (by rw [hout]; rfl) (by rw [hidle]; rfl) ?_ ?_ ?_ fun other _ ↦ hnone other
    · split <;> rfl
    · split <;> trivial
    · intro hin
      rw [if_neg]
      intro hempty
      apply hin
      rw [exchangerRead, hout, hempty]
      exact hout

/-- The event loop takes a frame, or passes it on to `deliver_frame_to_stream`. -/
theorem exchangerTurn {line : Line} (hcons : Conserving sizes s free queues)
    (hreading : s.loop = .reading line) :
    ∃ free' queues', Conserving sizes (exchangerTurn sizes line s) free' queues' := by
  have hothers : ∀ other ≠ line, s.loop ≠ .reading other := by
    intro other hne hother
    rw [hreading] at hother
    exact hne (Loop.reading.inj hother).symm
  have hbefore : s.loop.frames = 0 := by
    rw [hreading]
    rfl
  unfold Media.exchangerTurn
  cases hreader : (s.exchangers line).reader with
  | outside | reading =>
    refine hcons.readerTurn (by rw [hreader]; rfl) hbefore ?_ ?_ ?_ hothers
    · dsimp only
      split <;> rfl
    · dsimp only
      split <;> trivial
    · intro hin
      dsimp only
      split
      · contradiction
      · rfl
  | taken d =>
    obtain ⟨queue', hline, hperm⟩ := (hcons.lines line).exchangerRead
    rw [hreader, Reader.inHand] at hperm
    have hframes := framesOf_perm hperm (s.returning line)
    rw [map_singleton, Multiset.coe_singleton] at hframes
    have hout : (exchangerRead (sizes.slots line) (s.exchangers line)).reader = .outside := by
      rw [exchangerRead, hreader]
    refine ⟨_, _, hcons.change line (s.returning line) rfl (Function.update_eq_self _ _).symm
      hcons.heap hline ?_ (fun _ _ ↦ rfl) ?_ ?_ (absurd hout) ?_ hcons.unlocked⟩
    · rw [hframes, hbefore]
      show (free : Multiset ℕ) + {d.frame} + _ = _
      abel
    · intro e he
      exact hcons.refs line e (hperm.mem_iff.mpr (mem_append_left _ he))
    · exact hcons.refs line d (hperm.mem_iff.mpr (mem_append_right _ mem_cons_self))
    · intro other hne hother
      exact absurd hother (hothers other hne)

theorem loopTurn [DecidableEq Track] (hcons : Conserving sizes s free queues) (accepts : Bool) :
    ∃ free' queues', Conserving sizes (loopTurn sizes accepts s) free' queues' := by
  unfold Media.loopTurn
  split
  case h_1 => exact ⟨free, queues, hcons⟩
  case h_2 line hloop => exact hcons.exchangerTurn hloop
  case h_3 f rest hloop => exact hcons.deliverFrameToStream hloop
  case h_4 f track rest hloop => exact hcons.nextLiveFrame hloop accepts
  case h_5 f rest hloop =>
    rw [if_neg hcons.heap_free]
    exact hcons.loopReturns hloop

end Conserving

section Runs

variable [DecidableEq Line] [DecidableEq Track]

/-- At every point of a run each frame is in one place. -/
theorem conserving_run (refCount : ℕ → ℤ) (turns : List (PipelineTurn Line Track)) :
    ∃ free queues, Conserving sizes (pipelineRun sizes refCount turns) free queues := by
  induction turns using List.reverseRecOn with
  | nil => exact ⟨_, _, conserving_initPipeline refCount⟩
  | append_singleton turns turn ih =>
    obtain ⟨free, queues, hcons⟩ := ih
    rw [pipelineRun, foldl_append]
    cases turn with
    | newFrame line => exact hcons.newFrame line
    | encoder line => exact hcons.encoderTurn line
    | dispatch line => exact hcons.dispatch line
    | loop accepts => exact hcons.loopTurn accepts
    | listeners =>
      exact ⟨free, queues, hcons.heap, hcons.lines, hcons.frames, hcons.refs, hcons.loopRefs,
        hcons.readers, hcons.unlocked⟩

end Runs

/-! ### Conservation -/

namespace Pipeline

/-- No handler of the event loop and no encoder loop is at work on a frame. -/
structure Quiet (s : Pipeline Line Track) : Prop where
  loop : s.loop = .idle
  encoders : ∀ line, (s.exchangers line).encoder = .outside
  readers : ∀ line, (s.exchangers line).reader = .outside
  returning : ∀ line, s.returning line = none

def timesFree (sizes : Sizes Line) (s : Pipeline Line Track) (f : ℕ) : ℕ :=
  s.heap.slotsWith sizes.count (· == f)

def timesQueued (sizes : Sizes Line) (s : Pipeline Line Track) (line : Line) (f : ℕ) : ℕ :=
  (s.exchangers line).ring.slotsWith (sizes.slots line) (·.frame == f)

/-- The frame is in the heap, once and not elsewhere. -/
def InHeap (sizes : Sizes Line) (s : Pipeline Line Track) (f : ℕ) : Prop :=
  s.timesFree sizes f = 1 ∧ ∀ line, s.timesQueued sizes line f = 0

/-- The frame is in one slot of one exchanger and not elsewhere, with one reference. -/
def InOneSlot (sizes : Sizes Line) (s : Pipeline Line Track) (f : ℕ) : Prop :=
  s.timesFree sizes f = 0 ∧ s.refCount f = 1 ∧
    ∃ line, s.timesQueued sizes line f = 1 ∧ ∀ other ≠ line, s.timesQueued sizes other f = 0

end Pipeline

namespace Conserving

omit [Fintype Line] in
/-- With nobody at work, the frames of a line are the queue of its exchanger. -/
theorem framesOf_quiet (hquiet : s.Quiet) (line : Line) (queue : List (Delivery ℕ)) :
    framesOf (s.exchangers line) (s.returning line) queue = (queue.map Delivery.frame : List ℕ) := by
  rw [framesOf, Exchanger.held, hquiet.encoders line, hquiet.readers line, hquiet.returning line]
  simp [Encoder.inHand, Reader.inHand]

theorem timesFree_eq (hcons : Conserving sizes s free queues) (f : ℕ) :
    s.timesFree sizes f = free.count f :=
  hcons.heap.slotsWith_eq _

theorem timesQueued_eq (hcons : Conserving sizes s free queues) (hquiet : s.Quiet) (line : Line)
    (f : ℕ) : s.timesQueued sizes line f = ((queues line).map Delivery.frame).count f := by
  have hholds := (hcons.lines line).holds
  rw [Exchanger.settled, hquiet.encoders line] at hholds
  rw [List.count, countP_map]
  exact hholds.slotsWith_eq _

/-- With nobody at work, each frame is counted once in the heap and the exchangers together. -/
theorem times_eq_one (hcons : Conserving sizes s free queues) (hquiet : s.Quiet)
    (hf : f < sizes.count) : s.timesFree sizes f + ∑ line, s.timesQueued sizes line f = 1 := by
  have hcount := congrArg (Multiset.count f) hcons.frames
  rw [Multiset.count_eq_one_of_mem (Multiset.nodup_range _) (Multiset.mem_range.mpr hf),
    Multiset.count_add, Multiset.count_add, Multiset.coe_count, hquiet.loop, Loop.frames,
    Multiset.count_zero, Nat.add_zero, Multiset.count_sum'] at hcount
  rw [hcons.timesFree_eq, ← hcount]
  congr 1
  apply Finset.sum_congr rfl
  intro line _
  rw [hcons.timesQueued_eq hquiet, framesOf_quiet hquiet, Multiset.coe_count]

theorem inHeap_or_inOneSlot (hcons : Conserving sizes s free queues) (hquiet : s.Quiet)
    (hf : f < sizes.count) : s.InHeap sizes f ∨ s.InOneSlot sizes f := by
  classical
  have htimes := hcons.times_eq_one hquiet hf
  rcases Nat.eq_zero_or_pos (s.timesFree sizes f) with hzero | hpos
  · right
    rw [hzero, Nat.zero_add] at htimes
    obtain ⟨line, -, hline⟩ := Finset.exists_ne_zero_of_sum_ne_zero (htimes ▸ Nat.one_ne_zero)
    rw [← Finset.add_sum_erase _ _ (Finset.mem_univ line)] at htimes
    have hone : s.timesQueued sizes line f = 1 := by omega
    have hothers : ∑ other ∈ Finset.univ.erase line, s.timesQueued sizes other f = 0 := by omega
    refine ⟨hzero, ?_, line, hone, fun other hne ↦ ?_⟩
    · rw [hcons.timesQueued_eq hquiet] at hline
      obtain ⟨d, hd, rfl⟩ := mem_map.mp (count_pos_iff.mp (Nat.pos_of_ne_zero hline))
      exact hcons.refs line d (mem_append_left _ hd)
    · exact Finset.sum_eq_zero_iff.mp hothers other
        (Finset.mem_erase.mpr ⟨hne, Finset.mem_univ _⟩)
  · left
    have hsum : ∑ line, s.timesQueued sizes line f = 0 := by omega
    refine ⟨by omega, fun line ↦ ?_⟩
    exact Finset.sum_eq_zero_iff.mp hsum line (Finset.mem_univ _)

end Conserving

/-- Along every run of the encoder loops and the event loop, and whatever the listeners do, each
frame of the heap is in the heap or in one slot of one exchanger with one reference when nobody is
at work. No frame is found at `frame_heap_put`, and no exchanger loses one. -/
theorem frames_conserved [DecidableEq Line] [DecidableEq Track] (sizes : Sizes Line)
    (refCount : ℕ → ℤ) (turns : List (PipelineTurn Line Track)) :
    ((pipelineRun sizes refCount turns).Quiet → ∀ f < sizes.count,
      (pipelineRun sizes refCount turns).InHeap sizes f ∨
        (pipelineRun sizes refCount turns).InOneSlot sizes f) ∧
      (pipelineRun sizes refCount turns).heapLocked = false ∧
      ∀ line, ((pipelineRun sizes refCount turns).exchangers line).lost = 0 := by
  obtain ⟨free, queues, hcons⟩ := @conserving_run Line Track _ sizes _ _ refCount turns
  refine ⟨fun hquiet f hf ↦ hcons.inHeap_or_inOneSlot hquiet hf, hcons.unlocked, fun line ↦ ?_⟩
  exact (hcons.lines line).lost

/-- Two encoders with exchangers of two slots each, and two frames. -/
def twoLines : Sizes Bool := ⟨2, fun _ ↦ 2, Nat.two_pos, fun _ ↦ Nat.two_pos⟩

/-- Both encoders deliver a frame. The first one goes to two destinations, of which one is waiting,
and comes back into the heap. -/
def oneDelivered : List (PipelineTurn Bool Bool) :=
  [.listeners (fun _ ↦ [true, false]) id (fun _ ↦ false), .newFrame true, .encoder true,
    .encoder true, .encoder true, .newFrame false, .encoder false, .encoder false, .encoder false,
    .dispatch true, .loop true, .loop true, .loop true, .loop true, .loop true, .loop true,
    .loop true]

theorem frames_conserved_one_delivered :
    (pipelineRun twoLines (fun _ ↦ 0) oneDelivered).Quiet ∧
      (∀ f < 2, (pipelineRun twoLines (fun _ ↦ 0) oneDelivered).InHeap twoLines f ∨
        (pipelineRun twoLines (fun _ ↦ 0) oneDelivered).InOneSlot twoLines f) ∧
      (pipelineRun twoLines (fun _ ↦ 0) oneDelivered).timesQueued twoLines false 1 = 1 := by
  have hquiet : (pipelineRun twoLines (fun _ ↦ 0) oneDelivered).Quiet :=
    ⟨rfl, by decide, by decide, by decide⟩
  exact ⟨hquiet, (frames_conserved twoLines (fun _ ↦ 0) oneDelivered).1 hquiet, by decide⟩

end WisCam.Media
