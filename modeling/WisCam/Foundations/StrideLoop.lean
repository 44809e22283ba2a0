import Mathlib.Algebra.Ring.Nat
import Mathlib.Data.Int.Notation
import Mathlib.Data.List.Range

/-!
# Loops that advance by a computed amount

The loop `for (i = 0; i < len; i += plen)` whose body computes `plen` and may leave the function
with an error, over the 32-bit `int` of C. A body that always advances, and never beyond the end,
cuts the range into pieces that tile it (`Tiles`): the loop then returns, after one round for each
piece (`strideLoop_tiles`). For a body that may fail there is the invariant rule
`strideLoop_invariant`.
-/

set_option autoImplicit false

namespace WisCam.Foundations

open List

/-! ### Tilings -/

/-- Pieces, each with its start and its size, that tile the numbers from `first` up to `last`: none
is empty, and each starts where the one before it ends. -/
inductive Tiles : List (ℕ × ℕ) → ℕ → ℕ → Prop
  | nil (first : ℕ) : Tiles [] first first
  | cons {pieces : List (ℕ × ℕ)} {first size last : ℕ} (hsize : 0 < size)
      (hrest : Tiles pieces (first + size) last) : Tiles ((first, size) :: pieces) first last

section Tiles

variable {pieces : List (ℕ × ℕ)} {first last : ℕ}

/-- There are at most as many pieces as numbers. -/
theorem Tiles.add_length_le (htiles : Tiles pieces first last) : first + pieces.length ≤ last := by
  induction htiles with
  | nil => exact Nat.le_refl _
  | cons hsize hrest ih =>
    rw [length_cons]
    omega

variable {piece : ℕ × ℕ}

theorem Tiles.size_pos (htiles : Tiles pieces first last) (hpiece : piece ∈ pieces) :
    0 < piece.2 := by
  induction htiles with
  | nil => exact absurd hpiece not_mem_nil
  | cons hsize hrest ih =>
    rcases mem_cons.mp hpiece with rfl | hpiece
    · exact hsize
    · exact ih hpiece

/-- A piece starts after as many numbers as the pieces before it have. -/
theorem Tiles.start_eq (htiles : Tiles pieces first last) {k : ℕ}
    (hpiece : pieces[k]? = some piece) : piece.1 = first + ((pieces.take k).map Prod.snd).sum := by
  induction htiles generalizing k with
  | nil => simp at hpiece
  | cons hsize hrest ih =>
    cases k with
    | zero =>
      rw [List.getElem?_cons_zero, Option.some_inj] at hpiece
      subst hpiece
      simp
    | succ k =>
      rw [List.getElem?_cons_succ] at hpiece
      rw [ih hpiece, take_succ_cons, map_cons, sum_cons, Nat.add_assoc]

/-- Only the first piece starts at the first number. -/
theorem Tiles.start_eq_first_iff (htiles : Tiles pieces first last) {k : ℕ}
    (hpiece : pieces[k]? = some piece) : piece.1 = first ↔ k = 0 := by
  rw [htiles.start_eq hpiece]
  constructor
  · intro hstart
    cases htiles with
    | nil => simp at hpiece
    | cons hsize hrest =>
      cases k with
      | zero => rfl
      | succ k =>
        rw [take_succ_cons, map_cons, sum_cons] at hstart
        omega
  · rintro rfl
    simp

end Tiles

/-! ### The loop -/

variable {σ : Type}

/-- `for (i = …; i < len; i += plen)`. The body is run on the index and the variables of the
function; it gives its result, `plen` and the variables, and a negative result makes the function
return -1. After the loop the function returns 0. There is no result as long as the loop runs. -/
def strideLoop (len : ℤ) (body : ℤ → σ → ℤ × ℤ × σ) : ℕ → ℤ → σ → Option (ℤ × σ)
  | 0, _, _ => none
  | fuel + 1, i, s =>
    if i < len then
      let (ret, plen, s) := body i s
      if ret < 0 then some (-1, s)
      else strideLoop len body fuel ((i + plen).bmod (2 ^ 32)) s
    else some (0, s)

section Loop

variable {len : ℤ} {body : ℤ → σ → ℤ × ℤ × σ} {fuel : ℕ} {i : ℤ} {s : σ}

theorem strideLoop_of_le (hi : len ≤ i) : strideLoop len body (fuel + 1) i s = some (0, s) := by
  rw [strideLoop, if_neg (Int.not_lt.mpr hi)]

theorem strideLoop_next (hi : i < len) (hret : 0 ≤ (body i s).1) :
    strideLoop len body (fuel + 1) i s =
      strideLoop len body fuel ((i + (body i s).2.1).bmod (2 ^ 32)) (body i s).2.2 := by
  rw [strideLoop, if_pos hi]
  exact if_neg (Int.not_lt.mpr hret)

variable {result : ℤ × σ}

/-- A property of the variables holds when the loop returns, by an invariant of the rounds. -/
theorem strideLoop_invariant (I : ℤ → σ → Prop) {Q : σ → Prop} (hdone : ∀ i s, I i s → Q s)
    (hround : ∀ i s, I i s → i < len → Q (body i s).2.2 ∧
      (0 ≤ (body i s).1 → I ((i + (body i s).2.1).bmod (2 ^ 32)) (body i s).2.2)) (hI : I i s)
    (hresult : strideLoop len body fuel i s = some result) : Q result.2 := by
  induction fuel generalizing i s with
  | zero => exact absurd hresult (Option.some_ne_none _ ∘ Eq.symm)
  | succ fuel ih =>
    rw [strideLoop] at hresult
    by_cases hi : i < len
    · obtain ⟨hQ, hnext⟩ := hround i s hI hi
      rw [if_pos hi] at hresult
      dsimp only at hresult
      by_cases hret : (body i s).1 < 0
      · rw [if_pos hret, Option.some_inj] at hresult
        rw [← hresult]
        exact hQ
      · rw [if_neg hret] at hresult
        exact ih (hnext (Int.not_lt.mp hret)) hresult
    · rw [if_neg hi, Option.some_inj] at hresult
      rw [← hresult]
      exact hdone i s hI

/-- A loop that only adds to its output still has at the end what it had before. -/
theorem strideLoop_output {α : Type} (output : σ → List α)
    (hgrows : ∀ i s, output s <+: output (body i s).2.2)
    (hresult : strideLoop len body fuel i s = some result) : output s <+: output result.2 := by
  refine strideLoop_invariant (fun _ s' ↦ output s <+: output s') (fun _ _ h ↦ h) ?_
    prefix_rfl hresult
  intro j s' hbefore _
  have hafter := hbefore.trans (hgrows j s')
  exact ⟨hafter, fun _ ↦ hafter⟩

/-- What the first round adds to the output is there at the end. -/
theorem strideLoop_output_first {α : Type} (output : σ → List α)
    (hgrows : ∀ i s, output s <+: output (body i s).2.2) (hi : i < len)
    (hresult : strideLoop len body fuel i s = some result) :
    output (body i s).2.2 <+: output result.2 := by
  cases fuel with
  | zero => exact absurd hresult.symm (Option.some_ne_none _)
  | succ fuel =>
    rw [strideLoop, if_pos hi] at hresult
    dsimp only at hresult
    by_cases hret : (body i s).1 < 0
    · rw [if_pos hret, Option.some_inj] at hresult
      subst hresult
      exact prefix_rfl
    · rw [if_neg hret] at hresult
      exact strideLoop_output output hgrows hresult

/-- A sum of ints that stays an int. -/
theorem bmod_natCast {n : ℕ} (hn : n < 2147483648) : ((n : ℤ)).bmod (2 ^ 32) = n := by
  rw [Int.bmod_eq_of_le (by omega) (by omega)]

/-- The loop returns 0 when every round advances and none goes beyond the end. The rounds tile the
range with pieces that fit, and the `k`-th round adds what `emit` gives for its number and its piece
to the output. -/
theorem strideLoop_tiles {α : Type} (I : ℕ → σ → Prop) (fits : ℕ × ℕ → Prop) (output : σ → List α)
    (emit : ℕ → ℕ × ℕ → α) {len : ℕ} (hlen : len < 2147483648)
    (hround : ∀ (i : ℕ) s, I i s → i < len → ∃ (ret : ℤ) (size : ℕ) (s' : σ),
      body i s = (ret, (size : ℤ), s') ∧ 0 ≤ ret ∧ 0 < size ∧ i + size ≤ len ∧ fits (i, size) ∧
        I (i + size) s' ∧ output s' = output s ++ [emit (output s).length (i, size)])
    {i : ℕ} (hi : i ≤ len) (hI : I i s) (hfuel : len - i < fuel) :
    ∃ pieces s', strideLoop len body fuel i s = some (0, s') ∧ Tiles pieces i len ∧
      (∀ piece ∈ pieces, fits piece) ∧ output s' = output s ++
        pieces.mapIdx fun k piece ↦ emit ((output s).length + k) piece := by
  induction fuel generalizing i s with
  | zero => exact absurd hfuel (Nat.not_lt_zero _)
  | succ fuel ih =>
    rcases Nat.eq_or_lt_of_le hi with rfl | hi
    · refine ⟨[], s, strideLoop_of_le (Int.le_refl _), Tiles.nil i, ?_, ?_⟩
      · exact fun _ h ↦ absurd h not_mem_nil
      · rw [mapIdx_nil, append_nil]
    · obtain ⟨ret, size, s', hbody, hret, hsize, hend, hfits, hI', houtput⟩ := hround i s hI hi
      obtain ⟨pieces, s'', hloop, htiles, hall, houtput'⟩ := ih hend hI' (by omega)
      refine ⟨(i, size) :: pieces, s'', ?_, Tiles.cons hsize htiles, ?_, ?_⟩
      · rw [strideLoop_next (Int.ofNat_lt.mpr hi) (by rw [hbody]; exact hret), hbody,
          ← Int.natCast_add, bmod_natCast (by omega)]
        exact hloop
      · exact forall_mem_cons.mpr ⟨hfits, hall⟩
      · rw [houtput', houtput, mapIdx_cons, append_assoc, singleton_append,
          length_append, length_singleton]
        simp only [Nat.add_zero, Nat.add_assoc, Nat.add_comm 1]

end Loop

end WisCam.Foundations
