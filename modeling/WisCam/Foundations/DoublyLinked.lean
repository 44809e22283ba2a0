import Mathlib.Data.List.Nodup

/-!
# Doubly linked lists

Nodes of any type with a pointer to the node before and one to the node after. `Linked prev next
head xs` says that the list that begins at `head` consists of the nodes `xs`, in this order and each
once, and that the pointers agree in both directions. A new node in front (`Linked.push`) and a node
that is taken out (`Linked.unlink`) keep it so; both are stated for pointers that are changed in a
few places, which are given node by node. What happens to nodes outside of the list does not matter
(`Linked.congr`).
-/

set_option autoImplicit false

namespace WisCam.Foundations

open List

variable {α : Type} {prev next prev' next' : α → Option α}

/-- The nodes are linked in this order, behind `before` and in front of `after`. -/
def Chain (prev next : α → Option α) (before : Option α) : List α → Option α → Prop
  | [], _ => True
  | x :: xs, after =>
    prev x = before ∧ next x = xs.head?.or after ∧ Chain prev next (some x) xs after

/-- A list that begins at `head`. -/
structure Linked (prev next : α → Option α) (head : Option α) (xs : List α) : Prop where
  head_eq : head = xs.head?
  chain : Chain prev next none xs none
  nodup : xs.Nodup

/-! ### Parts of a list -/

theorem chain_append {xs ys : List α} {before after : Option α} :
    Chain prev next before (xs ++ ys) after ↔
      Chain prev next before xs (ys.head?.or after) ∧
        Chain prev next (xs.getLast?.or before) ys after := by
  induction xs generalizing before with
  | nil => exact ⟨fun h ↦ ⟨trivial, h⟩, fun h ↦ h.2⟩
  | cons x xs ih =>
    have hlast : (x :: xs).getLast?.or before = xs.getLast?.or (some x) := by
      cases hxs : xs.getLast? with
      | none => rw [List.getLast?_cons, hxs]; rfl
      | some last => rw [List.getLast?_cons, hxs]; rfl
    rw [cons_append, Chain, Chain, ih, hlast, List.head?_append, Option.or_assoc]
    exact ⟨fun ⟨hprev, hnext, hxs, hys⟩ ↦ ⟨⟨hprev, hnext, hxs⟩, hys⟩,
      fun ⟨⟨hprev, hnext, hxs⟩, hys⟩ ↦ ⟨hprev, hnext, hxs, hys⟩⟩

theorem Chain.congr {xs : List α} {before after : Option α}
    (hchain : Chain prev next before xs after)
    (hsame : ∀ x ∈ xs, prev' x = prev x ∧ next' x = next x) : Chain prev' next' before xs after := by
  induction xs generalizing before with
  | nil => trivial
  | cons x xs ih =>
    obtain ⟨hprev, hnext, hxs⟩ := hchain
    obtain ⟨hprev', hnext'⟩ := hsame x mem_cons_self
    refine ⟨hprev'.trans hprev, hnext'.trans hnext, ih hxs ?_⟩
    intro y hy
    exact hsame y (mem_cons_of_mem x hy)

theorem linked_nil : Linked prev next none [] := ⟨rfl, trivial, List.nodup_nil⟩

theorem Linked.congr {head : Option α} {xs : List α} (hlinked : Linked prev next head xs)
    (hsame : ∀ x ∈ xs, prev' x = prev x ∧ next' x = next x) : Linked prev' next' head xs :=
  ⟨hlinked.head_eq, hlinked.chain.congr hsame, hlinked.nodup⟩

variable {front back : List α} {x : α}

/-- The neighbours of a node. -/
theorem Linked.neighbours {head : Option α} (hlinked : Linked prev next head (front ++ x :: back)) :
    prev x = front.getLast? ∧ next x = back.head? := by
  obtain ⟨hprev, hnext, -⟩ := (chain_append.mp hlinked.chain).2
  rw [Option.or_none] at hprev hnext
  exact ⟨hprev, hnext⟩

/-! ### Changes -/

variable [DecidableEq α]

theorem Linked.push {head : Option α} {xs : List α} (hlinked : Linked prev next head xs)
    (hx : x ∉ xs)
    (hprev : ∀ y, prev' y = if y = x then none else if head = some y then some x else prev y)
    (hnext : ∀ y, next' y = if y = x then head else next y) :
    Linked prev' next' (some x) (x :: xs) := by
  obtain ⟨hhead, hchain, hnodup⟩ := hlinked
  refine ⟨rfl, ⟨?_, ?_, ?_⟩, nodup_cons.mpr ⟨hx, hnodup⟩⟩
  · rw [hprev, if_pos rfl]
  · rw [hnext, if_pos rfl, hhead, Option.or_none]
  · cases xs with
    | nil => trivial
    | cons first rest =>
      rw [List.head?_cons] at hhead
      have hfirst : first ≠ x := fun h ↦ hx (h ▸ mem_cons_self)
      refine ⟨?_, ?_, hchain.2.2.congr ?_⟩
      · rw [hprev, if_neg hfirst, if_pos hhead]
      · rw [hnext, if_neg hfirst, hchain.2.1]
      · intro y hy
        have hyx : y ≠ x := fun h ↦ hx (h ▸ mem_cons_of_mem first hy)
        have hyfirst : ¬head = some y := by
          rw [hhead]
          intro h
          cases h
          exact (nodup_cons.mp hnodup).1 hy
        rw [hprev, hnext, if_neg hyx, if_neg hyfirst, if_neg hyx]
        exact ⟨rfl, rfl⟩

/-- The part in front of a node that is taken out. -/
theorem chain_front {after : Option α} (hfront : Chain prev next none front (some x))
    (hnodup : front.Nodup) (hprev : ∀ y ∈ front, prev' y = prev y)
    (hnext : ∀ y ∈ front, next' y = if front.getLast? = some y then after else next y) :
    Chain prev' next' none front after := by
  rcases eq_nil_or_concat front with rfl | ⟨init, last, rfl⟩
  · trivial
  · rw [concat_eq_append] at *
    rw [chain_append] at hfront ⊢
    obtain ⟨hinit, hlast, -⟩ := hfront
    have hend : (init ++ [last]).getLast? = some last := List.getLast?_concat
    refine ⟨hinit.congr ?_, ?_, ?_, trivial⟩
    · intro y hy
      have hmem : y ∈ init ++ [last] := mem_append_left _ hy
      have hne : ¬some last = some y := by
        intro h
        cases h
        exact (nodup_append.mp hnodup).2.2 last hy last mem_cons_self rfl
      rw [hprev y hmem, hnext y hmem, hend, if_neg hne]
      exact ⟨rfl, rfl⟩
    · rw [hprev last (mem_append_right _ mem_cons_self), hlast]
    · rw [hnext last (mem_append_right _ mem_cons_self), hend, if_pos rfl]
      rfl

/-- The part behind a node that is taken out. -/
theorem chain_back {before : Option α} (hback : Chain prev next (some x) back none)
    (hnodup : back.Nodup)
    (hprev : ∀ y ∈ back, prev' y = if back.head? = some y then before else prev y)
    (hnext : ∀ y ∈ back, next' y = next y) : Chain prev' next' before back none := by
  cases back with
  | nil => trivial
  | cons first rest =>
    obtain ⟨-, hfirst, hrest⟩ := hback
    refine ⟨?_, ?_, hrest.congr ?_⟩
    · rw [hprev first mem_cons_self, List.head?_cons, if_pos rfl]
    · rw [hnext first mem_cons_self, hfirst]
    · intro y hy
      have hmem := mem_cons_of_mem first hy
      have hne : ¬(first :: rest).head? = some y := by
        intro h
        cases h
        exact (nodup_cons.mp hnodup).1 hy
      rw [hprev y hmem, hnext y hmem, if_neg hne]
      exact ⟨rfl, rfl⟩

theorem Linked.unlink {head : Option α} (hlinked : Linked prev next head (front ++ x :: back))
    (hprev : ∀ y, prev' y = if next x = some y then prev x else prev y)
    (hnext : ∀ y, next' y = if prev x = some y then next x else next y) :
    Linked prev' next' (if prev x = none then next x else head) (front ++ back) := by
  obtain ⟨hbefore, hafter⟩ := hlinked.neighbours
  obtain ⟨hhead, hchain, hnodup⟩ := hlinked
  obtain ⟨hfront, hrest⟩ := chain_append.mp hchain
  obtain ⟨hnodupFront, hnodupRest, hdisjoint⟩ := nodup_append.mp hnodup
  have hnodupBack := (nodup_cons.mp hnodupRest).2
  have hapart {y : α} (hy : y ∈ front) (hback : y ∈ back) : False :=
    hdisjoint y hy y (mem_cons_of_mem x hback) rfl
  rw [hafter] at hprev
  rw [hbefore] at hnext
  refine ⟨?_, chain_append.mpr ⟨?_, ?_⟩, ?_⟩
  · rw [hbefore, hafter, hhead]
    cases front with
    | nil => rfl
    | cons first front => rw [if_neg (by simp)]; rfl
  · rw [Option.or_none]
    refine chain_front hfront hnodupFront ?_ ?_
    · intro y hy
      have hne : ¬back.head? = some y := fun h ↦ hapart hy (mem_of_mem_head? h)
      rw [hprev, if_neg hne]
    · intro y hy
      rw [hnext, hafter]
  · rw [Option.or_none]
    refine chain_back hrest.2.2 hnodupBack ?_ ?_
    · intro y hy
      rw [hprev, hbefore]
    · intro y hy
      have hne : ¬front.getLast? = some y := fun h ↦ hapart (mem_of_getLast? h) hy
      rw [hnext, if_neg hne]
  · exact nodup_append.mpr ⟨hnodupFront, hnodupBack,
      fun y hy z hz ↦ hdisjoint y hy z (mem_cons_of_mem x hz)⟩

end WisCam.Foundations
