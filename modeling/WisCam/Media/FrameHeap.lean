import Mathlib.Algebra.Order.Group.Multiset
import Mathlib.Data.Finset.Card
import Mathlib.Data.Finset.Range
import WisCam.Foundations.Paths
import WisCam.Foundations.SlotRing

/-!
# The frame heap

`frame.c` keeps the frames that nobody uses in a ring of slots. `new_frame` takes a frame out of the
slot at `frame_heap_take` and gives it one reference; `unref_frame` drops a reference, and with the
last one puts the frame into the slot at `frame_heap_put`. A clone shares the data of another frame,
holds a reference to it, and has a destructor that drops this reference before the clone goes back.
So one call of `unref_frame` can return a whole chain of frames, in another order than they were
taken.

`HeapUse` adds to the heap the references that the callers hold. A caller drops only references that
it holds, and refers only to frames that are out of the heap (`Allowed`); apart from this the calls
may come in any order. `Counted` is the invariant, with the frames whose release is in progress, and
`frame_heap_run` is what follows for every sequence of calls.

Left out: the data of the frames, and destructors other than that of a clone.
-/

set_option autoImplicit false

namespace WisCam.Media

open Foundations List

/-! ### The functions -/

/-- The ring with the slot to read at `frame_heap_take` and the slot to write at `frame_heap_put`,
and the frames by number. `original` is the frame that the destructor of a clone releases, or `none`
for a frame without a destructor. The mutex stays locked after a frame was found at
`frame_heap_put`. -/
structure FrameHeap where
  ring : SlotRing ℕ
  refCount : ℕ → ℤ
  original : ℕ → Option ℕ
  locked : Bool

/-- `init_frame_heap`. The members of the frames are not set. -/
def initFrameHeap (refCount : ℕ → ℤ) (original : ℕ → Option ℕ) : FrameHeap :=
  ⟨.full id, refCount, original, false⟩

namespace FrameHeap

def setRefCount (s : FrameHeap) (f : ℕ) (r : ℤ) : FrameHeap :=
  { s with refCount := Function.update s.refCount f r }

def setOriginal (s : FrameHeap) (f : ℕ) (original : Option ℕ) : FrameHeap :=
  { s with original := Function.update s.original f original }

variable (count : ℕ)

/-- `new_frame`, which returns a frame or NULL. It does not return while the mutex is locked. -/
def newFrame (s : FrameHeap) : Option (Option ℕ × FrameHeap) :=
  if s.locked then none
  else match s.ring.slots s.ring.read with
    | some f =>
      some (some f, ({ s with ring := s.ring.take count }.setRefCount f 1).setOriginal f none)
    | none => some (none, s)

/-- `ref_frame`. -/
def refFrame (f : ℕ) (s : FrameHeap) : FrameHeap := s.setRefCount f (s.refCount f + 1)

/-- `clone_frame`. -/
def cloneFrame (orig : ℕ) (s : FrameHeap) : Option (Option ℕ × FrameHeap) := do
  match ← s.newFrame count with
  | (some f, s) => some (some f, refFrame orig (s.setOriginal f (some orig)))
  | (none, s) => some (none, s)

/-- The end of `unref_frame`: the frame goes into its slot. -/
def putFrame (f : ℕ) (s : FrameHeap) : Option FrameHeap :=
  if s.locked then none
  else match s.ring.slots s.ring.write with
    | some _ => some { s with locked := true } -- "Ack!  There is a frame at frame_heap_put!"
    | none => some { s with ring := s.ring.push count f }

/-- `unref_frame`, which calls itself in the destructor of a clone. -/
def unrefFrameFrom : ℕ → ℕ → FrameHeap → Option FrameHeap
  | 0, _, _ => none
  | fuel + 1, f, s =>
    let r := s.refCount f - 1
    if 0 < r then some (s.setRefCount f r)
    else match s.original f with
      | some orig => do
        let s ← unrefFrameFrom fuel orig (s.setRefCount f 1)
        s.putFrame count f
      | none => (s.setRefCount f r).putFrame count f

/-- `unref_frame`. A chain of clones has at most as many frames as there are. -/
def unrefFrame (f : ℕ) (s : FrameHeap) : Option FrameHeap := unrefFrameFrom count count f s

/-- A frame that is in no slot. -/
def Outstanding (s : FrameHeap) (f : ℕ) : Prop :=
  f < count ∧ ∀ position < count, s.ring.slots position ≠ some f

instance (s : FrameHeap) : DecidablePred (s.Outstanding count) := fun f ↦
  inferInstanceAs (Decidable (f < count ∧ ∀ position < count, s.ring.slots position ≠ some f))

end FrameHeap

/-! ### The callers -/

/-- The heap and the number of references that callers hold to each frame. -/
structure HeapUse where
  heap : FrameHeap
  held : ℕ → ℕ

/-- A call. -/
inductive HeapCall
  | newFrame
  | refFrame (f : ℕ)
  | cloneFrame (f : ℕ)
  | unrefFrame (f : ℕ)
deriving DecidableEq, Repr

namespace HeapUse

variable (count : ℕ)

/-- A caller has got a reference to a frame, if there is one. -/
def gain (u : HeapUse) (f : Option ℕ) (heap : FrameHeap) : HeapUse :=
  match f with
  | some f => ⟨heap, Function.update u.held f (u.held f + 1)⟩
  | none => { u with heap := heap }

def perform (u : HeapUse) : HeapCall → Option HeapUse
  | .newFrame => do
    let (f, heap) ← u.heap.newFrame count
    some (u.gain f heap)
  | .refFrame f => some (u.gain (some f) (u.heap.refFrame f))
  | .cloneFrame f => do
    let (clone, heap) ← u.heap.cloneFrame count f
    some (u.gain clone heap)
  | .unrefFrame f => do
    let heap ← u.heap.unrefFrame count f
    some ⟨heap, Function.update u.held f (u.held f - 1)⟩

/-- A caller drops only a reference that it holds, and a frame that gets a reference or a clone is
out of the heap. -/
def Allowed (u : HeapUse) : HeapCall → Prop
  | .newFrame => True
  | .refFrame f | .cloneFrame f => u.heap.Outstanding count f
  | .unrefFrame f => 0 < u.held f

instance (u : HeapUse) : DecidablePred (u.Allowed count)
  | .newFrame => inferInstanceAs (Decidable True)
  | .refFrame f | .cloneFrame f => inferInstanceAs (Decidable (u.heap.Outstanding count f))
  | .unrefFrame f => inferInstanceAs (Decidable (0 < u.held f))

def Step (call : HeapCall) (u u' : HeapUse) : Prop :=
  u.Allowed count call ∧ u.perform count call = some u'

end HeapUse

/-! ### The invariant -/

namespace FrameHeap

/-- The clones of a frame, among given frames. -/
def clonesOf (s : FrameHeap) (out : Finset ℕ) (f : ℕ) : Finset ℕ :=
  out.filter fun g ↦ s.original g = some f

theorem mem_clonesOf {s : FrameHeap} {out : Finset ℕ} {f g : ℕ} :
    g ∈ s.clonesOf out f ↔ g ∈ out ∧ s.original g = some f := Finset.mem_filter

/-- Every frame is in the heap, or it is being released, or it is out. The frames that are out have
the references that are held from outside and those of their clones, at least one. A clone is born
after its original. -/
structure Counted (count : ℕ) (s : FrameHeap) (refs : ℕ → ℕ) (free released : List ℕ)
    (out : Finset ℕ) (born : ℕ → ℕ) : Prop where
  holds : SlotRing.Holds count s.ring free
  frames : (free : Multiset ℕ) + (released : Multiset ℕ) + out.val = Multiset.range count
  counts : ∀ f ∈ out, s.refCount f = refs f + (s.clonesOf out f).card
  referenced : ∀ f ∈ out, 0 < refs f + (s.clonesOf out f).card
  held : ∀ f, 0 < refs f → f ∈ out
  originals : ∀ g ∈ out, ∀ f, s.original g = some f → f ∈ out ∧ born f < born g
  unlocked : s.locked = false

variable {count : ℕ} {s : FrameHeap} {refs : ℕ → ℕ} {free released : List ℕ} {out : Finset ℕ}
  {born : ℕ → ℕ} {f : ℕ}

theorem counted_initFrameHeap (hcount : 0 < count) (refCount : ℕ → ℤ) (original : ℕ → Option ℕ) :
    Counted count (initFrameHeap refCount original) (fun _ ↦ 0) (List.range count) [] ∅
      fun _ ↦ 0 where
  holds := by
    have hfull := SlotRing.holds_full hcount id
    rwa [map_id] at hfull
  frames := by
    rw [Multiset.coe_nil, add_zero, Finset.empty_val, add_zero]
    rfl
  counts f hf := absurd hf (Finset.notMem_empty f)
  referenced f hf := absurd hf (Finset.notMem_empty f)
  held f hf := absurd hf (Nat.lt_irrefl 0)
  originals g hg := absurd hg (Finset.notMem_empty g)
  unlocked := rfl

namespace Counted

theorem nodup (hcounted : Counted count s refs free released out born) :
    ((free : Multiset ℕ) + (released : Multiset ℕ) + out.val).Nodup := by
  rw [hcounted.frames]
  exact Multiset.nodup_range count

/-- A frame in the heap is not out. -/
theorem notMem_out (hcounted : Counted count s refs free released out born) (hf : f ∈ free) :
    f ∉ out := by
  have hdisjoint := (Multiset.nodup_add.mp hcounted.nodup).2.2
  exact Multiset.disjoint_left.mp hdisjoint (Multiset.mem_add.mpr (.inl hf))

theorem refs_eq_zero (hcounted : Counted count s refs free released out born) (hf : f ∉ out) :
    refs f = 0 := Nat.eq_zero_of_not_pos fun hpos ↦ hf (hcounted.held f hpos)

/-- No frame that is out is a clone of a frame that is not. -/
theorem clonesOf_eq_empty (hcounted : Counted count s refs free released out born) (hf : f ∉ out) :
    s.clonesOf out f = ∅ :=
  Finset.filter_eq_empty_iff.mpr fun g hg hclone ↦ hf (hcounted.originals g hg f hclone).1

/-! ### Calls that take a frame or a reference -/

/-- `new_frame` hands out the first of the free frames. -/
theorem newFrame (hcounted : Counted count s refs (f :: free) released out born) (birth : ℕ) :
    ∃ s', s.newFrame count = some (some f, s') ∧
      Counted count s' (Function.update refs f 1) free released (insert f out)
        (Function.update born f birth) := by
  have hnot := hcounted.notMem_out mem_cons_self
  have hslot : s.ring.slots s.ring.read = some f := hcounted.holds.slot_read
  have hne {g : ℕ} (hg : g ∈ out) : g ≠ f := fun h ↦ hnot (h ▸ hg)
  refine ⟨({ s with ring := s.ring.take count }.setRefCount f 1).setOriginal f none, ?_, ?_⟩
  · rw [FrameHeap.newFrame, hcounted.unlocked, if_neg Bool.false_ne_true, hslot]
  have hclones (g : ℕ) : FrameHeap.clonesOf (({ s with ring := s.ring.take count }.setRefCount f
      1).setOriginal f none) (insert f out) g = s.clonesOf out g := by
    unfold FrameHeap.clonesOf
    rw [Finset.filter_insert, if_neg]
    · refine Finset.filter_congr fun h hh ↦ ?_
      show Function.update s.original f none h = some g ↔ _
      rw [Function.update_of_ne (hne hh)]
    · show Function.update s.original f none f ≠ some g
      rw [Function.update_self]
      exact Option.some_ne_none g ∘ Eq.symm
  constructor
  · exact hcounted.holds.take
  · have hframes := hcounted.frames
    rw [Finset.insert_val_of_notMem hnot, ← hframes, ← Multiset.cons_coe, Multiset.cons_add,
      Multiset.cons_add, Multiset.add_cons]
  · intro g hg
    rw [hclones]
    rcases Finset.mem_insert.mp hg with rfl | hg
    · rw [hcounted.clonesOf_eq_empty hnot]
      show Function.update s.refCount g 1 g = _
      simp
    · show Function.update s.refCount f 1 g = _
      rw [Function.update_of_ne (hne hg), Function.update_of_ne (hne hg)]
      exact hcounted.counts g hg
  · intro g hg
    rw [hclones]
    rcases Finset.mem_insert.mp hg with rfl | hg
    · rw [Function.update_self]
      exact Nat.lt_of_lt_of_le Nat.one_pos (Nat.le_add_right _ _)
    · rw [Function.update_of_ne (hne hg)]
      exact hcounted.referenced g hg
  · intro g hg
    by_cases hgf : g = f
    · exact hgf ▸ Finset.mem_insert_self _ _
    · rw [Function.update_of_ne hgf] at hg
      exact Finset.mem_insert_of_mem (hcounted.held g hg)
  · intro g hg h horiginal
    change Function.update s.original f none g = some h at horiginal
    by_cases hgf : g = f
    · rw [hgf, Function.update_self] at horiginal
      exact absurd horiginal.symm (Option.some_ne_none h)
    · have hgout := (Finset.mem_insert.mp hg).resolve_left hgf
      rw [Function.update_of_ne hgf] at horiginal
      obtain ⟨hhout, hborn⟩ := hcounted.originals g hgout h horiginal
      rw [Function.update_of_ne hgf, Function.update_of_ne (hne hhout)]
      exact ⟨Finset.mem_insert_of_mem hhout, hborn⟩
  · exact hcounted.unlocked

/-- A frame that is out gets one more reference. -/
theorem refFrame (hcounted : Counted count s refs free released out born) (hf : f ∈ out) :
    Counted count (s.refFrame f) (Function.update refs f (refs f + 1)) free released out born where
  holds := hcounted.holds
  frames := hcounted.frames
  counts g hg := by
    show Function.update s.refCount f (s.refCount f + 1) g =
      Function.update refs f (refs f + 1) g + ((s.clonesOf out g).card : ℤ)
    have hcounts := hcounted.counts g hg
    by_cases hgf : g = f
    · subst hgf
      rw [Function.update_self, Function.update_self, hcounts, Int.natCast_add]
      omega
    · rw [Function.update_of_ne hgf, Function.update_of_ne hgf]
      exact hcounts
  referenced g hg := by
    show 0 < Function.update refs f (refs f + 1) g + (s.clonesOf out g).card
    have hreferenced := hcounted.referenced g hg
    by_cases hgf : g = f
    · subst hgf
      rw [Function.update_self]
      omega
    · rw [Function.update_of_ne hgf]
      exact hreferenced
  held g hg := by
    by_cases hgf : g = f
    · exact hgf ▸ hf
    · rw [Function.update_of_ne hgf] at hg
      exact hcounted.held g hg
  originals := hcounted.originals
  unlocked := hcounted.unlocked

/-- A frame without a destructor becomes the clone of an older frame, which gets a reference. -/
theorem becomeClone {orig : ℕ} (hcounted : Counted count s refs free released out born)
    (hf : f ∈ out) (hplain : s.original f = none) (horig : orig ∈ out)
    (hborn : born orig < born f) :
    Counted count ((s.setOriginal f (some orig)).refFrame orig) refs free released out born := by
  have hclones (g : ℕ) : ((s.setOriginal f (some orig)).refFrame orig).clonesOf out g =
      if g = orig then insert f (s.clonesOf out g) else s.clonesOf out g := by
    ext h
    have hmem : h ∈ ((s.setOriginal f (some orig)).refFrame orig).clonesOf out g ↔
        h ∈ out ∧ Function.update s.original f (some orig) h = some g := mem_clonesOf
    rw [hmem]
    by_cases hhf : h = f
    · subst hhf
      rw [Function.update_self, Option.some_inj]
      split_ifs with hg
      · simp [hf, hg]
      · simp [mem_clonesOf, hplain, Ne.symm hg]
    · rw [Function.update_of_ne hhf]
      split_ifs
      · rw [Finset.mem_insert, or_iff_right hhf, mem_clonesOf]
      · rw [mem_clonesOf]
  have hnew : f ∉ s.clonesOf out orig := by
    simp [mem_clonesOf, hplain]
  refine ⟨hcounted.holds, hcounted.frames, fun g hg ↦ ?_, fun g hg ↦ ?_, hcounted.held,
    fun g hg h horiginal ↦ ?_, hcounted.unlocked⟩
  · show Function.update s.refCount orig (s.refCount orig + 1) g = _
    have hcounts := hcounted.counts g hg
    rw [hclones]
    split_ifs with hgo
    · subst hgo
      rw [Function.update_self, Finset.card_insert_of_notMem hnew, hcounts, Int.natCast_add,
        Int.add_assoc]
      rfl
    · rw [Function.update_of_ne hgo]
      exact hcounts
  · have hreferenced := hcounted.referenced g hg
    rw [hclones]
    split_ifs with hgo
    · subst hgo
      rw [Finset.card_insert_of_notMem hnew]
      omega
    · exact hreferenced
  · change Function.update s.original f (some orig) g = some h at horiginal
    by_cases hgf : g = f
    · rw [hgf, Function.update_self, Option.some_inj] at horiginal
      rw [hgf, ← horiginal]
      exact ⟨horig, hborn⟩
    · rw [Function.update_of_ne hgf] at horiginal
      exact hcounted.originals g hg h horiginal

/-! ### Releases -/

/-- The last reference to a frame is dropped. Its release begins, and if it is a clone, its
reference to the original is now held by the release. -/
theorem retire (hcounted : Counted count s refs free released out born) (refs' : ℕ → ℕ)
    (hf : f ∈ out) (hlast : refs f + (s.clonesOf out f).card = 1)
    (hrefs : ∀ g, refs' g = if g = f then 0 else refs g + if s.original f = some g then 1 else 0)
    (hheld : 0 < refs f) (r : ℤ) :
    Counted count (s.setRefCount f r) refs' free (f :: released) (out.erase f) born := by
  have hnone : s.clonesOf out f = ∅ := Finset.card_eq_zero.mp (by omega)
  have hclones (g : ℕ) :
      (s.setRefCount f r).clonesOf (out.erase f) g = (s.clonesOf out g).erase f :=
    Finset.filter_erase _ _ _
  have hsame {g : ℕ} (hgf : g ≠ f) : refs' g + ((s.setRefCount f r).clonesOf (out.erase f) g).card =
      refs g + (s.clonesOf out g).card := by
    rw [hrefs, if_neg hgf, hclones]
    split_ifs with horiginal
    · have hmem : f ∈ s.clonesOf out g := mem_clonesOf.mpr ⟨hf, horiginal⟩
      have hcard := Finset.card_erase_add_one hmem
      omega
    · rw [Finset.erase_eq_of_notMem fun hmem ↦ horiginal (mem_clonesOf.mp hmem).2]
      rfl
  refine ⟨hcounted.holds, ?_, fun g hg ↦ ?_, fun g hg ↦ ?_, fun g hg ↦ ?_,
    fun g hg h horiginal ↦ ?_, hcounted.unlocked⟩
  · rw [← hcounted.frames, ← Multiset.cons_coe, Multiset.add_cons, Multiset.cons_add,
      ← Multiset.add_cons, Finset.erase_val, Multiset.cons_erase hf]
  · have hgf := (Finset.mem_erase.mp hg).1
    show Function.update s.refCount f r g = _
    rw [Function.update_of_ne hgf, hcounted.counts g (Finset.mem_erase.mp hg).2, ← Int.natCast_add,
      ← Int.natCast_add, hsame hgf]
  · rw [hsame (Finset.mem_erase.mp hg).1]
    exact hcounted.referenced g (Finset.mem_erase.mp hg).2
  · rw [hrefs] at hg
    split_ifs at hg with hgf horiginal
    · exact absurd hg (Nat.lt_irrefl 0)
    · exact Finset.mem_erase.mpr ⟨hgf, (hcounted.originals f hf g horiginal).1⟩
    · exact Finset.mem_erase.mpr ⟨hgf, hcounted.held g hg⟩
  · have hgout := (Finset.mem_erase.mp hg).2
    obtain ⟨hhout, hborn⟩ := hcounted.originals g hgout h horiginal
    refine ⟨Finset.mem_erase.mpr ⟨?_, hhout⟩, hborn⟩
    rintro rfl
    have hclone : g ∈ s.clonesOf out h := mem_clonesOf.mpr ⟨hgout, horiginal⟩
    rw [hnone] at hclone
    exact Finset.notMem_empty g hclone

/-- While a frame is being released, the heap has room for it. -/
theorem room (hcounted : Counted count s refs free (f :: released) out born) :
    free.length < count := by
  have hcard := congrArg Multiset.card hcounted.frames
  rw [Multiset.card_add, Multiset.card_add, Multiset.coe_card, Multiset.coe_card,
    Multiset.card_range, length_cons] at hcard
  omega

/-- A release ends: the frame goes into the heap. -/
theorem putFrame (hcounted : Counted count s refs free (f :: released) out born) :
    ∃ s', s.putFrame count f = some s' ∧
      Counted count s' refs (free ++ [f]) released out born := by
  have hroom := hcounted.room
  refine ⟨{ s with ring := s.ring.push count f }, ?_, hcounted.holds.push hroom, ?_,
    hcounted.counts, hcounted.referenced, hcounted.held, hcounted.originals, hcounted.unlocked⟩
  · rw [FrameHeap.putFrame, hcounted.unlocked, if_neg Bool.false_ne_true,
      hcounted.holds.slot_write hroom]
  · rw [← hcounted.frames, ← Multiset.coe_add, Multiset.coe_singleton,
      add_assoc (free : Multiset ℕ), Multiset.singleton_add, Multiset.cons_coe]

/-- `unref_frame` returns. It drops one reference, and it may put frames into the heap. The
induction is on the number of frames that are out and were not born after the one that is
released. -/
theorem unrefFrameFrom {fuel : ℕ} (hcounted : Counted count s refs free released out born)
    (hheld : 0 < refs f) (hfuel : (out.filter fun g ↦ born g ≤ born f).card ≤ fuel) :
    ∃ s' free' out', s.unrefFrameFrom count fuel f = some s' ∧
      Counted count s' (Function.update refs f (refs f - 1)) free' released out' born := by
  have hf := hcounted.held f hheld
  induction fuel generalizing s refs free released out f with
  | zero =>
    have hmem : f ∈ out.filter fun g ↦ born g ≤ born f :=
      Finset.mem_filter.mpr ⟨hf, Nat.le_refl _⟩
    rw [Finset.card_eq_zero.mp (Nat.le_zero.mp hfuel)] at hmem
    exact absurd hmem (Finset.notMem_empty f)
  | succ fuel ih =>
    have hcount := hcounted.counts f hf
    rw [FrameHeap.unrefFrameFrom]
    split_ifs with hmore
    · -- There are other references.
      refine ⟨_, free, out, rfl, hcounted.holds, hcounted.frames, fun g hg ↦ ?_, fun g hg ↦ ?_,
        fun g hg ↦ ?_, hcounted.originals, hcounted.unlocked⟩
      · show Function.update s.refCount f (s.refCount f - 1) g =
          Function.update refs f (refs f - 1) g + ((s.clonesOf out g).card : ℤ)
        by_cases hgf : g = f
        · subst hgf
          rw [Function.update_self, Function.update_self, hcount]
          omega
        · rw [Function.update_of_ne hgf, Function.update_of_ne hgf]
          exact hcounted.counts g hg
      · show 0 < Function.update refs f (refs f - 1) g + (s.clonesOf out g).card
        by_cases hgf : g = f
        · subst hgf
          rw [Function.update_self]
          omega
        · rw [Function.update_of_ne hgf]
          exact hcounted.referenced g hg
      · by_cases hgf : g = f
        · exact hgf ▸ hf
        · rw [Function.update_of_ne hgf] at hg
          exact hcounted.held g hg
    · have hlast : refs f + (s.clonesOf out f).card = 1 := by omega
      have hrest : refs f - 1 = 0 := by omega
      cases horiginal : s.original f with
      | none =>
        have hretired := hcounted.retire (Function.update refs f (refs f - 1)) hf hlast
          (fun g ↦ by simp [Function.update_apply, hrest, horiginal]) hheld (s.refCount f - 1)
        obtain ⟨s', hput, hcounted'⟩ := hretired.putFrame
        exact ⟨s', _, _, hput, hcounted'⟩
      | some orig =>
        -- The destructor of the clone drops the reference to the original first.
        obtain ⟨horig, hborn⟩ := hcounted.originals f hf orig horiginal
        have hne : orig ≠ f := fun h ↦ Nat.lt_irrefl _ (h ▸ hborn)
        have hretired := hcounted.retire
          (Function.update (Function.update refs f 0) orig (refs orig + 1)) hf hlast
          (fun g ↦ ?_) hheld 1
        · have hfewer : ((out.erase f).filter fun g ↦ born g ≤ born orig).card ≤ fuel := by
            refine Nat.le_of_lt_succ (Nat.lt_of_lt_of_le (Finset.card_lt_card ?_) hfuel)
            refine Finset.ssubset_iff_of_subset (fun g hg ↦ ?_) |>.mpr ⟨f, ?_, ?_⟩
            · obtain ⟨hg, hle⟩ := Finset.mem_filter.mp hg
              exact Finset.mem_filter.mpr ⟨(Finset.mem_erase.mp hg).2, hle.trans hborn.le⟩
            · exact Finset.mem_filter.mpr ⟨hf, Nat.le_refl _⟩
            · exact fun hmem ↦ Finset.notMem_erase f out (Finset.mem_filter.mp hmem).1
          have hheld' :
              0 < Function.update (Function.update refs f 0) orig (refs orig + 1) orig := by
            rw [Function.update_self]
            exact Nat.succ_pos _
          obtain ⟨s₁, free₁, out₁, hunref, hcounted₁⟩ :=
            ih hretired hheld' hfewer (hretired.held orig hheld')
          obtain ⟨s', hput, hcounted'⟩ := hcounted₁.putFrame
          refine ⟨s', free₁ ++ [f], out₁, ?_, ?_⟩
          · dsimp only
            rw [hunref]
            exact hput
          · have hrefs : Function.update (Function.update (Function.update refs f 0) orig
                (refs orig + 1)) orig (Function.update (Function.update refs f 0) orig
                (refs orig + 1) orig - 1) = Function.update refs f (refs f - 1) := by
              rw [Function.update_self, Function.update_idem, Nat.add_sub_cancel, hrest]
              refine Function.update_eq_self_iff.mpr ?_
              rw [Function.update_of_ne hne]
            rwa [hrefs] at hcounted'
        · by_cases hgo : g = orig
          · subst hgo
            rw [Function.update_self, if_neg hne, horiginal, if_pos rfl]
          · rw [Function.update_of_ne hgo, horiginal,
              if_neg (fun h ↦ hgo (Option.some_inj.mp h).symm), Function.update_apply]
            rfl

/-! ### Between the calls -/

/-- A frame is out exactly as long as it is held or has a clone that is out. -/
theorem mem_out_iff (hcounted : Counted count s refs free released out born) :
    f ∈ out ↔ 0 < refs f ∨ ∃ g ∈ out, s.original g = some f := by
  constructor
  · intro hf
    rcases Nat.add_pos_iff_pos_or_pos.mp (hcounted.referenced f hf) with hheld | hclones
    · exact .inl hheld
    · obtain ⟨g, hg⟩ := Finset.card_pos.mp hclones
      exact .inr ⟨g, mem_clonesOf.mp hg⟩
  · rintro (hheld | ⟨g, hg, horiginal⟩)
    · exact hcounted.held f hheld
    · exact (hcounted.originals g hg f horiginal).1

/-- When no release is in progress, the frames in no slot are those that are out. -/
theorem outstanding_iff (hcounted : Counted count s refs free [] out born) :
    s.Outstanding count f ↔ f ∈ out := by
  have hframes := hcounted.frames
  rw [Multiset.coe_nil, add_zero] at hframes
  have hrange : f < count ↔ f ∈ free ∨ f ∈ out := by
    rw [← Multiset.mem_range, ← hframes, Multiset.mem_add]
    rfl
  have hslots : (∀ position < count, s.ring.slots position ≠ some f) ↔ f ∉ free := by
    rw [← hcounted.holds.exists_slot_iff]
    push Not
    rfl
  rw [FrameHeap.Outstanding, hrange, hslots]
  constructor
  · rintro ⟨hin, hnot⟩
    exact hin.resolve_left hnot
  · intro hout
    exact ⟨.inr hout, fun hfree ↦ hcounted.notMem_out hfree hout⟩

/-- The outstanding frames and those in the heap are all frames. -/
theorem length_add_card (hcounted : Counted count s refs free [] out born) :
    free.length + out.card = count := by
  have hcard := congrArg Multiset.card hcounted.frames
  rwa [Multiset.coe_nil, add_zero, Multiset.card_add, Multiset.coe_card, Multiset.card_range]
    at hcard

/-- `new_frame` and `clone_frame` return NULL when the heap is empty. -/
theorem newFrame_nil (hcounted : Counted count s refs [] released out born) :
    s.newFrame count = some (none, s) := by
  have hslot : s.ring.slots s.ring.read = none := hcounted.holds.slot_read
  rw [FrameHeap.newFrame, hcounted.unlocked, if_neg Bool.false_ne_true, hslot]

/-- NULL is returned only when no frame is in the heap. -/
theorem outstanding_of_newFrame (hcounted : Counted count s refs free [] out born) {s' : FrameHeap}
    (hnew : s.newFrame count = some (none, s')) (hf : f < count) : s.Outstanding count f := by
  cases free with
  | nil =>
    have hframes := hcounted.frames
    rw [Multiset.coe_nil, add_zero, zero_add] at hframes
    refine hcounted.outstanding_iff.mpr ?_
    rw [← Finset.mem_val, hframes, Multiset.mem_range]
    exact hf
  | cons first free =>
    obtain ⟨s'', hnew', -⟩ := hcounted.newFrame 0
    rw [hnew', Option.some_inj, Prod.mk.injEq] at hnew
    exact absurd hnew.1 (Option.some_ne_none first)

/-- Only a frame without references is handed out. -/
theorem refs_of_newFrame (hcounted : Counted count s refs free [] out born) {s' : FrameHeap}
    (hnew : s.newFrame count = some (some f, s')) :
    refs f = 0 ∧ ∀ g, s.Outstanding count g → s.original g ≠ some f := by
  cases free with
  | nil =>
    rw [hcounted.newFrame_nil, Option.some_inj, Prod.mk.injEq] at hnew
    exact absurd hnew.1.symm (Option.some_ne_none f)
  | cons first free =>
    obtain ⟨s'', hnew', -⟩ := hcounted.newFrame 0
    rw [hnew', Option.some_inj, Prod.mk.injEq, Option.some_inj] at hnew
    obtain ⟨rfl, -⟩ := hnew
    have hnot := hcounted.notMem_out mem_cons_self
    refine ⟨hcounted.refs_eq_zero hnot, fun g hg hclone ↦ ?_⟩
    exact hnot (hcounted.originals g (hcounted.outstanding_iff.mp hg) first hclone).1

/-- `clone_frame` of a frame that is out. -/
theorem cloneFrame {orig : ℕ} (hcounted : Counted count s refs (f :: free) released out born)
    (horig : orig ∈ out) :
    ∃ s', s.cloneFrame count orig = some (some f, s') ∧
      Counted count s' (Function.update refs f 1) free released (insert f out)
        (Function.update born f (born orig + 1)) := by
  have hne : orig ≠ f := fun h ↦ hcounted.notMem_out mem_cons_self (h ▸ horig)
  obtain ⟨s₁, hnew, hcounted₁⟩ := hcounted.newFrame (born orig + 1)
  have hplain : s₁.original f = none := by
    have hslot : s.ring.slots s.ring.read = some f := hcounted.holds.slot_read
    rw [FrameHeap.newFrame, hcounted.unlocked, if_neg Bool.false_ne_true, hslot, Option.some_inj,
      Prod.mk.injEq] at hnew
    rw [← hnew.2]
    exact Function.update_self f none s.original
  have hborn : Function.update born f (born orig + 1) orig <
      Function.update born f (born orig + 1) f := by
    rw [Function.update_self, Function.update_of_ne hne]
    exact Nat.lt_succ_self _
  refine ⟨_, ?_, hcounted₁.becomeClone (Finset.mem_insert_self f out) hplain
    (Finset.mem_insert_of_mem horig) hborn⟩
  rw [FrameHeap.cloneFrame, hnew]
  rfl

end Counted

end FrameHeap

/-! ### Sequences of calls -/

namespace HeapUse

open FrameHeap

variable {count : ℕ} {u u' : HeapUse}

def Sound (count : ℕ) (u : HeapUse) : Prop :=
  ∃ free out born, Counted count u.heap u.held free [] out born

/-- An allowed call returns and keeps the invariant. -/
theorem Sound.perform (hsound : u.Sound count) {call : HeapCall} (hallowed : u.Allowed count call) :
    ∃ u', u.perform count call = some u' ∧ u'.Sound count := by
  obtain ⟨free, out, born, hcounted⟩ := hsound
  cases call with
  | newFrame =>
    rw [HeapUse.perform]
    cases free with
    | nil =>
      rw [hcounted.newFrame_nil]
      exact ⟨u, rfl, [], out, born, hcounted⟩
    | cons f free =>
      obtain ⟨heap, hnew, hcounted'⟩ := hcounted.newFrame 0
      rw [hnew]
      refine ⟨_, rfl, free, insert f out, Function.update born f 0, ?_⟩
      have hzero := hcounted.refs_eq_zero (hcounted.notMem_out mem_cons_self)
      show Counted count heap (Function.update u.held f (u.held f + 1)) free [] _ _
      rw [hzero]
      exact hcounted'
  | refFrame f =>
    exact ⟨_, rfl, free, out, born, hcounted.refFrame (hcounted.outstanding_iff.mp hallowed)⟩
  | cloneFrame orig =>
    rw [HeapUse.perform]
    cases free with
    | nil =>
      rw [FrameHeap.cloneFrame, hcounted.newFrame_nil]
      exact ⟨u, rfl, [], out, born, hcounted⟩
    | cons f free =>
      obtain ⟨heap, hclone, hcounted'⟩ := hcounted.cloneFrame (hcounted.outstanding_iff.mp hallowed)
      rw [hclone]
      refine ⟨_, rfl, free, insert f out, Function.update born f (born orig + 1), ?_⟩
      have hzero := hcounted.refs_eq_zero (hcounted.notMem_out mem_cons_self)
      show Counted count heap (Function.update u.held f (u.held f + 1)) free [] _ _
      rw [hzero]
      exact hcounted'
  | unrefFrame f =>
    have hfuel : (out.filter fun g ↦ born g ≤ born f).card ≤ count := by
      have hcard := hcounted.length_add_card
      exact (Finset.card_filter_le _ _).trans (by omega)
    obtain ⟨heap, free', out', hunref, hcounted'⟩ := hcounted.unrefFrameFrom hallowed hfuel
    rw [HeapUse.perform, FrameHeap.unrefFrame, hunref]
    exact ⟨_, rfl, free', out', born, hcounted'⟩

theorem Sound.path {calls : List (HeapCall × HeapUse)} (hpath : Path (Step count) u calls u')
    (hsound : u.Sound count) : u'.Sound count := by
  induction hpath with
  | nil u => exact hsound
  | cons hstep hrest ih =>
    obtain ⟨hallowed, hperform⟩ := hstep
    obtain ⟨u₁, hperform', hsound₁⟩ := hsound.perform hallowed
    rw [hperform] at hperform'
    cases hperform'
    exact ih hsound₁

end HeapUse

/-- After every sequence of allowed calls:
* every allowed call returns;
* the frames in the heap and the outstanding frames are as many as there are frames;
* a frame is outstanding as long as a caller holds it or an outstanding frame is its clone, and no
  longer, and these are the references that it counts;
* the filled slots are those from `frame_heap_take` up to `frame_heap_put`;
* `new_frame` hands out no frame that a caller or a clone refers to, and returns NULL only when all
  frames are outstanding;
* no frame was found at `frame_heap_put`. -/
theorem frame_heap_run {count : ℕ} (hcount : 0 < count) (refCount : ℕ → ℤ)
    (original : ℕ → Option ℕ) (calls : List (HeapCall × HeapUse)) (u : HeapUse)
    (hpath : Path (HeapUse.Step count) ⟨initFrameHeap refCount original, fun _ ↦ 0⟩ calls u) :
    (∀ call, u.Allowed count call → ∃ u', u.perform count call = some u') ∧
    u.heap.ring.occupied count +
      ((Finset.range count).filter (u.heap.Outstanding count)).card = count ∧
    (∀ f, (u.heap.Outstanding count f ↔
        0 < u.held f ∨ ∃ g, u.heap.Outstanding count g ∧ u.heap.original g = some f) ∧
      (u.heap.Outstanding count f → u.heap.refCount f = u.held f +
        (u.heap.clonesOf ((Finset.range count).filter (u.heap.Outstanding count)) f).card)) ∧
    (u.heap.ring.write = (u.heap.ring.read + u.heap.ring.occupied count) % count ∧
      ∀ k < count, (u.heap.ring.slots ((u.heap.ring.read + k) % count)).isSome ↔
        k < u.heap.ring.occupied count) ∧
    (∀ f heap, u.heap.newFrame count = some (some f, heap) →
      u.held f = 0 ∧ ∀ g, u.heap.Outstanding count g → u.heap.original g ≠ some f) ∧
    (∀ heap, u.heap.newFrame count = some (none, heap) → ∀ f < count, u.heap.Outstanding count f) ∧
    u.heap.locked = false := by
  have hstart : HeapUse.Sound count ⟨initFrameHeap refCount original, fun _ ↦ 0⟩ :=
    ⟨_, _, _, FrameHeap.counted_initFrameHeap hcount refCount original⟩
  have hsound := HeapUse.Sound.path hpath hstart
  have hreturns (call : HeapCall) (hallowed : u.Allowed count call) :
      ∃ u', u.perform count call = some u' := by
    obtain ⟨u', hperform, -⟩ := hsound.perform hallowed
    exact ⟨u', hperform⟩
  obtain ⟨free, out, born, hcounted⟩ := hsound
  have hoccupied := hcounted.holds.occupied
  have hout : (Finset.range count).filter (u.heap.Outstanding count) = out := by
    ext f
    rw [Finset.mem_filter, hcounted.outstanding_iff]
    refine and_iff_right_of_imp fun hf ↦ ?_
    exact Finset.mem_range.mpr (hcounted.outstanding_iff.mpr hf).1
  refine ⟨hreturns, ?_, fun f ↦ ⟨?_, fun hf ↦ ?_⟩, ⟨?_, fun k hk ↦ ?_⟩, fun f heap hnew ↦ ?_,
    fun heap hnew f hf ↦ ?_, hcounted.unlocked⟩
  · rw [hout, hoccupied]
    exact hcounted.length_add_card
  · simp only [hcounted.outstanding_iff]
    exact hcounted.mem_out_iff
  · rw [hout]
    exact hcounted.counts f (hcounted.outstanding_iff.mp hf)
  · rw [hoccupied]
    exact hcounted.holds.write
  · rw [hoccupied, hcounted.holds.slots k hk]
    simp
  · exact hcounted.refs_of_newFrame hnew
  · exact hcounted.outstanding_of_newFrame hnew hf

/-- A sequence of calls is executed, if all of them are allowed and return. -/
def runCalls (count : ℕ) (calls : List HeapCall) (u : HeapUse) : Option HeapUse :=
  calls.foldlM (fun u call ↦ if u.Allowed count call then u.perform count call else none) u

theorem exists_path_of_runCalls {count : ℕ} {calls : List HeapCall} {u u' : HeapUse}
    (hrun : runCalls count calls u = some u') :
    ∃ steps, Path (HeapUse.Step count) u steps u' ∧ steps.map Prod.fst = calls := by
  refine exists_path_of_foldlM (fun {u call u'} hcall ↦ ?_) hrun
  split_ifs at hcall with hallowed
  exact ⟨hallowed, hcall⟩

/-- A caller clones a frame of two and drops its own reference: the frame stays out of the heap as
long as the clone does. -/
theorem clone_keeps_original : ∃ steps u,
    Path (HeapUse.Step 2) ⟨initFrameHeap (fun _ ↦ 0) fun _ ↦ none, fun _ ↦ 0⟩ steps u ∧
      u.held 0 = 0 ∧ u.heap.Outstanding 2 0 := by
  have hrun : (runCalls 2 [.newFrame, .cloneFrame 0, .unrefFrame 0]
      ⟨initFrameHeap (fun _ ↦ 0) fun _ ↦ none, fun _ ↦ 0⟩).map
        (fun u ↦ (u.held 0, u.held 1, u.heap.original 1)) = some (0, 1, some 0) := by
    decide
  obtain ⟨u, hu, hheld⟩ := Option.map_eq_some_iff.mp hrun
  simp only [Prod.mk.injEq] at hheld
  obtain ⟨steps, hpath, -⟩ := exists_path_of_runCalls hu
  obtain ⟨-, -, hout, -⟩ := frame_heap_run Nat.two_pos _ _ steps u hpath
  have hclone := (hout 1).1.mpr (.inl (Nat.lt_of_lt_of_eq Nat.one_pos hheld.2.1.symm))
  exact ⟨steps, u, hpath, hheld.1, (hout 0).1.mpr (.inr ⟨1, hclone, hheld.2.2⟩)⟩

end WisCam.Media
