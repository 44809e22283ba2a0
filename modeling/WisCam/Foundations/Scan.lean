import Mathlib.Data.List.TakeWhile

/-!
# Scanning a list at a cut

A scanner that walks over a list by index and reads, overwrites or skips elements is easiest to
follow on a list written as a front and a back, with the index at the cut between them (`CutAt`).
The lemmas here evaluate the list operations at such a cut and move it, and relate `takeWhile` to
the cut where it stops (`takeWhile_append_stop`, `exists_takeWhile_split`). Two searches through a
list are compared by what they find first (`findIdx?_eq_iff_first`).
-/

set_option autoImplicit false

namespace WisCam.Foundations

open List

variable {α : Type*}

/-- The list is a front and a back, with the index at the cut between them. -/
structure CutAt (l : List α) (index : ℕ) (front back : List α) : Prop where
  append : l = front ++ back
  length : front.length = index

section CutAt

variable {l front part back : List α} {a : α} {index : ℕ}

theorem CutAt.start (l : List α) : CutAt l 0 [] l := ⟨rfl, rfl⟩

theorem CutAt.drop (hcut : CutAt l index front back) : l.drop index = back := by
  rw [hcut.append]
  exact drop_left' hcut.length

theorem CutAt.get (hcut : CutAt l index front back) : l[index]? = back.head? := by
  rw [← List.head?_drop, hcut.drop]

theorem CutAt.lt (hcut : CutAt l index front (a :: back)) : index < l.length := by
  rw [hcut.append, length_append, hcut.length, length_cons]
  exact Nat.lt_add_of_pos_right (Nat.zero_lt_succ _)

theorem CutAt.set (hcut : CutAt l index front (a :: back)) (b : α) :
    CutAt (l.set index b) index front (b :: back) := by
  obtain ⟨rfl, rfl⟩ := hcut
  exact ⟨by rw [set_append_right _ _ (Nat.le_refl _), Nat.sub_self, set_cons_zero], rfl⟩

/-- The cut moves over a part of the back. -/
theorem CutAt.move (hcut : CutAt l index front (part ++ back)) :
    CutAt l (index + part.length) (front ++ part) back := by
  obtain ⟨rfl, rfl⟩ := hcut
  exact ⟨(append_assoc ..).symm, length_append⟩

theorem CutAt.next (hcut : CutAt l index front (a :: back)) :
    CutAt l (index + 1) (front ++ [a]) back :=
  @CutAt.move _ _ _ [a] _ _ hcut

end CutAt

/-- A scan over elements that satisfy the predicate, followed by one that does not, stops between
them. -/
theorem takeWhile_append_stop {p : α → Bool} {front back : List α}
    (hfront : ∀ a ∈ front, p a = true) (hback : ∀ a, back.head? = some a → p a = false) :
    (front ++ back).takeWhile p = front := by
  rw [takeWhile_append_of_pos hfront]
  cases back with
  | nil => rw [takeWhile_nil, append_nil]
  | cons a rest =>
    have hstop : ¬ p a = true := by
      rw [hback a rfl]
      exact Bool.false_ne_true
    rw [takeWhile_cons_of_neg hstop, append_nil]

/-- Where a scan over a list stops. -/
theorem exists_takeWhile_split (p : α → Bool) (l : List α) :
    ∃ front back, l = front ++ back ∧ (∀ a ∈ front, p a = true) ∧
      (∀ a, back.head? = some a → p a = false) := by
  refine ⟨l.takeWhile p, l.dropWhile p, (takeWhile_append_dropWhile).symm,
    fun a ha ↦ mem_takeWhile_imp ha, fun a ha ↦ ?_⟩
  have hnot := List.head?_dropWhile_not p l
  rw [ha] at hnot
  simpa using hnot

theorem drop_length_takeWhile (p : α → Bool) (l : List α) :
    l.drop (l.takeWhile p).length = l.dropWhile p := by
  calc l.drop (l.takeWhile p).length
      = (l.takeWhile p ++ l.dropWhile p).drop (l.takeWhile p).length := by
        rw [takeWhile_append_dropWhile]
    _ = l.dropWhile p := drop_left

/-- A scan does not go beyond an element where it has to stop. -/
theorem length_takeWhile_le {p : α → Bool} {l : List α} {k : ℕ} {a : α} (hk : l[k]? = some a)
    (ha : p a = false) : (l.takeWhile p).length ≤ k := by
  induction l generalizing k with
  | nil => exact Nat.zero_le k
  | cons b l ih =>
    rw [takeWhile_cons]
    split_ifs with hb
    · cases k with
      | zero =>
        cases hk
        exact absurd hb (by rw [ha]; exact Bool.false_ne_true)
      | succ k => exact Nat.succ_le_succ (ih hk)
    · exact Nat.zero_le k

/-- A search for less comes to the same place as a wider one exactly if what the wider search finds
first is also what the narrower one looks for. -/
theorem findIdx?_eq_iff_first {narrow wide : α → Bool}
    (hnarrow : ∀ a, narrow a = true → wide a = true) (l : List α) :
    l.findIdx? narrow = l.findIdx? wide ↔ ∀ a, l.find? wide = some a → narrow a = true := by
  induction l with
  | nil => exact iff_of_true rfl nofun
  | cons a l ih =>
    rw [List.findIdx?_cons, List.findIdx?_cons, List.find?_cons]
    by_cases hwide : wide a = true
    · rw [if_pos hwide, hwide]
      by_cases ha : narrow a = true
      · rw [if_pos ha]
        exact iff_of_true rfl fun b hb ↦ Option.some.inj hb ▸ ha
      · rw [if_neg ha]
        refine iff_of_false ?_ fun h ↦ ha (h a rfl)
        cases l.findIdx? narrow <;> exact nofun
    · have ha : ¬ narrow a = true := fun h ↦ hwide (hnarrow a h)
      rw [if_neg hwide, if_neg ha, Bool.eq_false_iff.mpr hwide]
      exact (Option.map_injective Nat.succ_injective).eq_iff.trans ih

end WisCam.Foundations
