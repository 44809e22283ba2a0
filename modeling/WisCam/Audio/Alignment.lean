import WisCam.Audio.Recorder

/-!
# Audio data and the clock

The frame number of a block says how many blocks have passed since the recording began. A block
whose number is not the next one follows lost blocks, and `OSS_RecRead` counts zeros for them, so
that as many bytes are queued as the clock says.

The number of zeros is computed from the frame number before the previous one, so that a gap is
filled with two blocks too many, and while the second buffer is in use a block after a gap is
dropped with the zeros. `gap_filling_iff` says that the bytes agree with the clock exactly as long
as there is no gap.
-/

set_option autoImplicit false

namespace WisCam.Audio

open Foundations List

/-- As many bytes have been queued as the last frame number says. -/
def Aligned (r : Recording) : Prop :=
  ((r.given.length + r.data.queue.length : ℕ) : ℤ) =
    (r.data.prevFrames.toInt + 1) * r.data.drvFrameSize.toNat

/-- The block of a call is the next one or an old one, and frame numbers have not come to their
end. -/
def RecOp.InStep (op : RecOp) (s : RecData) : Prop :=
  match op with
  | .read (.block _ frames) =>
    frames.toInt ≤ s.prevFrames.toInt + 1 ∧ s.prevFrames.toInt + 1 < 2147483648
  | _ => True

/-- The driver returns whole blocks. -/
def RecOp.Full (drvFrameSize : UInt32) : RecOp → Prop
  | .read (.block data _) => data.length = drvFrameSize.toNat
  | _ => True

theorem RecOp.Full.fits {op : RecOp} {drvFrameSize : UInt32} (hfull : op.Full drvFrameSize)
    (hpos : 0 < drvFrameSize.toNat) : op.Fits drvFrameSize := by
  cases op with
  | setFrameSize frameSize => trivial
  | read input =>
    cases input with
    | notEnough => trivial
    | empty => trivial
    | failed => trivial
    | block data frames => exact ⟨Nat.lt_of_lt_of_eq hpos hfull.symm, Nat.le_of_eq hfull⟩

section Frames

variable {s t : RecData} {data : Bytes} {frames : Int32} {op : RecOp} {r r' : Recording}

/-- A number that has been brought into the range of 32 bits. -/
theorem bmod_spec (value : ℤ) :
    -2147483648 ≤ value.bmod (2 ^ 32) ∧ value.bmod (2 ^ 32) < 2147483648 ∧
      ∃ turns, value.bmod (2 ^ 32) = value + 4294967296 * turns := by
  rw [show 2 ^ 32 = 4294967296 from rfl]
  refine ⟨?_, ?_, -value.bdiv 4294967296, ?_⟩
  · have hle := @Int.le_bmod value 4294967296 (by decide)
    omega
  · have hlt := @Int.bmod_lt value 4294967296 (by decide)
    omega
  · have hmod := Int.bmod_add_bdiv value 4294967296
    omega

/-- Frame numbers are ints: what follows a number, and how far another one is ahead, are computed
modulo 2^32. -/
theorem frames_spec (frames prev : Int32) :
    (-2147483648 ≤ frames.toInt ∧ frames.toInt < 2147483648) ∧
      (-2147483648 ≤ prev.toInt ∧ prev.toInt < 2147483648) ∧
      (-2147483648 ≤ (prev + 1).toInt ∧ (prev + 1).toInt < 2147483648) ∧
      (-2147483648 ≤ (frames - prev).toInt ∧ (frames - prev).toInt < 2147483648) ∧
      ∃ nextTurns movedTurns : ℤ, (prev + 1).toInt = prev.toInt + 1 + 4294967296 * nextTurns ∧
        (frames - prev).toInt = frames.toInt - prev.toInt + 4294967296 * movedTurns := by
  have hrange (value : Int32) : -2147483648 ≤ value.toInt ∧ value.toInt < 2147483648 :=
    ⟨value.le_toInt, value.toInt_lt⟩
  obtain ⟨-, -, nextTurns, hnext⟩ := bmod_spec (prev.toInt + 1)
  obtain ⟨-, -, movedTurns, hmoved⟩ := bmod_spec (frames.toInt - prev.toInt)
  refine ⟨hrange _, hrange _, hrange _, hrange _, nextTurns, movedTurns, ?_, ?_⟩
  · rw [Int32.toInt_add, Int32.toInt_one, hnext]
  · rw [Int32.toInt_sub, hmoved]

theorem toNat_toUInt32 (value : Int32) :
    (value.toUInt32.toNat : ℤ) = value.toInt % 4294967296 := by
  have hmod : value.toInt = (value.toUInt32.toNat : ℤ).bmod (2 ^ 32) :=
    BitVec.toInt_eq_toNat_bmod value.toBitVec
  have hlt := value.toUInt32.toNat_lt
  obtain ⟨-, -, turns, hturns⟩ := bmod_spec value.toUInt32.toNat
  omega

/-- What is done with a block, and what this means for the queue. -/
inductive Reception (data : Bytes) (frames : Int32) (s : RecData) (t : RecData) : Prop
  /-- The same number again stands for the next one. -/
  | again (hsame : frames = s.prevFrames) (hprev : t.prevFrames = s.prevFrames + 1)
      (hqueue : t.queue = s.queue ++ data)
  | older (hless : ¬frames ≥ s.prevFrames + 1) (hsame : t = s)
  | plain (hmore : frames ≥ s.prevFrames + 1) (hnext : ¬frames - s.prevFrames > 1)
      (hprev : t.prevFrames = frames) (hqueue : t.queue = s.queue ++ data)
  | skipped (hmore : frames ≥ s.prevFrames + 1) (hgap : frames - s.prevFrames > 1)
      (hprev : t.prevFrames = frames) (hqueue : t.queue = s.queue)
  | filled (hmore : frames ≥ s.prevFrames + 1) (hgap : frames - s.prevFrames > 1)
      (hprev : t.prevFrames = frames)
      (hqueue : t.queue = s.queue ++
        (.replicate ((frames - (s.prevFrames - 1)).toUInt32 * s.drvFrameSize).toNat 0 ++ data))

/-- A block that is stored changes the buffers only. -/
theorem putAudioToBuf_kept (hput : putAudioToBuf data s = .ok t) :
    t.prevFrames = s.prevFrames ∧ t.drvFrameSize = s.drvFrameSize := by
  rw [putAudioToBuf] at hput
  split_ifs at hput <;> cases hput <;> exact ⟨rfl, rfl⟩

theorem reception (hreceive : receiveBlock data frames s = .ok t) (hsettled : s.Settled) :
    Reception data frames s t := by
  by_cases hsame : frames = s.prevFrames
  · rw [receiveBlock, acceptBlock_next (Or.inl hsame), if_pos rfl] at hreceive
    have hqueue := queue_putAudioToBuf hreceive
    exact .again hsame (putAudioToBuf_kept hreceive).1 hqueue
  · by_cases hmore : frames ≥ s.prevFrames + 1
    · by_cases hgap : frames - s.prevFrames > 1
      · by_cases hpost : s.post = []
        · have hzero : s.zeroAudLenInBuf = 0 := not_not.mp fun hne ↦ hsettled hne hpost
          simp only [receiveBlock, acceptBlock, if_neg hsame, if_pos hmore, if_pos hgap,
            if_neg (not_not.mpr hpost), if_true] at hreceive
          have hqueue := queue_putAudioToBuf hreceive
          simp only [queue_of_post, hpost] at hqueue
          refine .filled hmore hgap (putAudioToBuf_kept hreceive).1 ?_
          rw [hqueue, queue_of_zero hzero, hpost, nil_append, append_assoc]
        · simp only [receiveBlock, acceptBlock, if_neg hsame, if_pos hmore, if_pos hgap,
            if_pos hpost, Bool.false_eq_true, if_false] at hreceive
          cases hreceive
          exact .skipped hmore hgap rfl rfl
      · simp only [receiveBlock, acceptBlock, if_neg hsame, if_pos hmore, if_neg hgap,
          if_true] at hreceive
        have hqueue := queue_putAudioToBuf hreceive
        exact .plain hmore hgap (putAudioToBuf_kept hreceive).1 hqueue
    · simp only [receiveBlock, acceptBlock, if_neg hsame, if_neg hmore, Bool.false_eq_true,
        if_false] at hreceive
      cases hreceive
      exact .older hmore rfl

theorem receiveBlock_drv (hreceive : receiveBlock data frames s = .ok t) :
    t.drvFrameSize = s.drvFrameSize := by
  have haccept : (acceptBlock frames s).1.drvFrameSize = s.drvFrameSize := by
    simp only [acceptBlock]
    split_ifs <;> rfl
  rw [receiveBlock] at hreceive
  split at hreceive
  · exact (putAudioToBuf_kept hreceive).2.trans haccept
  · cases hreceive
    exact haccept

theorem afterGet_kept (s : RecData) :
    s.afterGet.prevFrames = s.prevFrames ∧ s.afterGet.drvFrameSize = s.drvFrameSize := by
  rw [RecData.afterGet, RecData.dropFront]
  split_ifs <;> exact ⟨rfl, rfl⟩

/-- Giving out does not change what has been queued. -/
theorem aligned_afterGet (given : Bytes) (s : RecData) :
    Aligned ⟨s.afterGet, given ++ s.frame⟩ ↔ Aligned ⟨s, given⟩ := by
  have hlength : (given ++ s.frame).length + s.afterGet.queue.length =
      given.length + s.queue.length := by
    rw [← frame_append_queue s, length_append, length_append, Nat.add_assoc]
  simp only [Aligned, hlength, (afterGet_kept s).1, (afterGet_kept s).2]

/-- The zeros for a gap are never as many as the lost blocks had bytes. -/
theorem zeros_ne {drv : UInt32} (hpos : 0 < drv.toNat) (hint : drv.toNat < 2 ^ 31)
    (frames prev : Int32) :
    (((frames - (prev - 1)).toUInt32 * drv).toNat : ℤ) ≠
      (frames.toInt - prev.toInt - 1) * drv.toNat := by
  intro hsame
  have hcount := toNat_toUInt32 (frames - (prev - 1))
  rw [Int32.toInt_sub, Int32.toInt_sub, Int32.toInt_one] at hcount
  obtain ⟨-, -, inner, hinner⟩ := bmod_spec (prev.toInt - 1)
  obtain ⟨-, -, outer, houter⟩ := bmod_spec (frames.toInt - (prev.toInt - 1).bmod (2 ^ 32))
  obtain ⟨turns, hturns⟩ : ∃ turns, ((frames - (prev - 1)).toUInt32.toNat : ℤ) =
      (frames.toInt - prev.toInt - 1) + 2 + 4294967296 * turns := by
    refine ⟨-((frames.toInt - (prev.toInt - 1).bmod (2 ^ 32)).bmod (2 ^ 32) / 4294967296) + outer -
      inner, ?_⟩
    omega
  -- Modulo 2^32 the zeros are those of two more blocks, and two blocks are less than that.
  rw [UInt32.toNat_mul, show 2 ^ 32 = 4294967296 from rfl, Int.natCast_emod, Int.natCast_mul] at hsame
  rw [hturns, Int.add_mul, Int.add_mul, Int.mul_assoc] at hsame
  omega

theorem aligned_receive_iff (hreceive : receiveBlock data frames s = .ok t) (hsettled : s.Settled)
    (hpos : 0 < s.drvFrameSize.toNat) (hint : s.drvFrameSize.toNat < 2 ^ 31)
    (hfull : data.length = s.drvFrameSize.toNat) {given : Bytes} (haligned : Aligned ⟨s, given⟩) :
    Aligned ⟨t, given⟩ ↔
      frames.toInt ≤ s.prevFrames.toInt + 1 ∧ s.prevFrames.toInt + 1 < 2147483648 := by
  have hdrv := receiveBlock_drv hreceive
  have hnonzero : (s.drvFrameSize.toNat : ℤ) ≠ 0 := by omega
  obtain ⟨hframes, hlast, hnext, hmoved, nextTurns, movedTurns, hnextTurns, hmovedTurns⟩ :=
    frames_spec frames s.prevFrames
  -- As many blocks as the frame number has moved on.
  have hblocks {moved : ℤ} (hlength : (t.queue.length : ℤ) =
      s.queue.length + moved * s.drvFrameSize.toNat) :
      Aligned ⟨t, given⟩ ↔ moved = t.prevFrames.toInt - s.prevFrames.toInt := by
    rw [Aligned] at haligned ⊢
    dsimp only at haligned ⊢
    rw [← Int.mul_eq_mul_right_iff (a := moved) hnonzero, Int.sub_mul, hdrv]
    rw [Int.add_mul] at haligned ⊢
    push_cast at haligned ⊢
    omega
  cases reception hreceive hsettled with
  | again hsame hprev hqueue =>
    rw [@hblocks 1, hprev, hsame]
    · omega
    · rw [hqueue, length_append, hfull]
      omega
  | older hless hsame =>
    subst hsame
    rw [ge_iff_le, Int32.le_iff_toInt_le] at hless
    exact iff_of_true haligned (by omega)
  | plain hmore hless hprev hqueue =>
    rw [ge_iff_le, Int32.le_iff_toInt_le] at hmore
    rw [gt_iff_lt, Int32.lt_iff_toInt_lt, Int32.toInt_one] at hless
    rw [@hblocks 1, hprev]
    · omega
    · rw [hqueue, length_append, hfull]
      omega
  | skipped hmore hgap hprev hqueue =>
    rw [ge_iff_le, Int32.le_iff_toInt_le] at hmore
    rw [gt_iff_lt, Int32.lt_iff_toInt_lt, Int32.toInt_one] at hgap
    rw [@hblocks 0, hprev]
    · omega
    · rw [hqueue]
      omega
  | filled hmore hgap hprev hqueue =>
    rw [ge_iff_le, Int32.le_iff_toInt_le] at hmore
    rw [gt_iff_lt, Int32.lt_iff_toInt_lt, Int32.toInt_one] at hgap
    refine iff_of_false (fun hstill ↦ ?_) (by omega)
    apply zeros_ne hpos hint frames s.prevFrames
    rw [Aligned] at haligned hstill
    dsimp only at haligned hstill
    rw [hqueue, hdrv, hprev, length_append, length_append, length_replicate, hfull,
      Int.add_mul] at hstill
    rw [Int.add_mul] at haligned
    rw [Int.sub_mul, Int.sub_mul]
    push_cast at haligned hstill ⊢
    omega

/-- A block that is later than the previous one is queued after the zeros for the blocks between
them exactly if there are none. -/
theorem queue_receive_iff (hreceive : receiveBlock data frames s = .ok t) (hsettled : s.Settled)
    (hpos : 0 < s.drvFrameSize.toNat) (hint : s.drvFrameSize.toNat < 2 ^ 31) (hdata : data ≠ [])
    (hlater : s.prevFrames < frames) :
    t.queue = s.queue ++ (.replicate
        ((frames.toInt - s.prevFrames.toInt - 1).toNat * s.drvFrameSize.toNat) 0 ++ data) ↔
      frames.toInt = s.prevFrames.toInt + 1 := by
  have hdataPos := length_pos_iff.mpr hdata
  obtain ⟨hframes, hlast, hnext, hmoved, nextTurns, movedTurns, hnextTurns, hmovedTurns⟩ :=
    frames_spec frames s.prevFrames
  have hless := Int32.lt_iff_toInt_lt.mp hlater
  cases reception hreceive hsettled with
  | again hsame hprev hqueue =>
    rw [hsame] at hless
    omega
  | older hnot hsame =>
    rw [ge_iff_le, Int32.le_iff_toInt_le] at hnot
    omega
  | plain hmore hnot hprev hqueue =>
    constructor
    · intro hsame
      have hlength := congrArg List.length hsame
      rw [hqueue, length_append, length_append, length_append, length_replicate] at hlength
      have hnone : (frames.toInt - s.prevFrames.toInt - 1).toNat = 0 :=
        (Nat.mul_eq_zero.mp (by omega)).resolve_right (Nat.pos_iff_ne_zero.mp hpos)
      omega
    · intro hsame
      have hnone : (frames.toInt - s.prevFrames.toInt - 1).toNat = 0 := by omega
      rw [hqueue, hnone, Nat.zero_mul]
      rfl
  | skipped hmore hgap hprev hqueue =>
    rw [gt_iff_lt, Int32.lt_iff_toInt_lt, Int32.toInt_one] at hgap
    refine iff_of_false (fun hsame ↦ ?_) (by omega)
    have hlength := congrArg List.length hsame
    rw [hqueue, length_append, length_append] at hlength
    omega
  | filled hmore hgap hprev hqueue =>
    rw [gt_iff_lt, Int32.lt_iff_toInt_lt, Int32.toInt_one] at hgap
    refine iff_of_false (fun hsame ↦ ?_) (by omega)
    have hlength := congrArg List.length hsame
    rw [hqueue] at hlength
    simp only [length_append, length_replicate] at hlength
    have hzeros : ((frames - (s.prevFrames - 1)).toUInt32 * s.drvFrameSize).toNat =
        (frames.toInt - s.prevFrames.toInt - 1).toNat * s.drvFrameSize.toNat := by omega
    apply zeros_ne hpos hint frames s.prevFrames
    rw [hzeros, Int.natCast_mul, Int.toNat_of_nonneg (by omega)]

/-- A call keeps the bytes with the clock exactly if its block is in step. -/
theorem aligned_call_iff (hcall : Call op r r') (hsettled : r.data.Settled)
    (hpos : 0 < r.data.drvFrameSize.toNat) (hint : r.data.drvFrameSize.toNat < 2 ^ 31)
    (hfull : op.Full r.data.drvFrameSize) (haligned : Aligned r) :
    Aligned r' ↔ op.InStep r.data := by
  cases hcall.shape with
  | setFrameSize frameSize => exact iff_of_true haligned trivial
  | notEnough => exact iff_of_true haligned trivial
  | empty => exact iff_of_true haligned trivial
  | failed => exact iff_of_true ((aligned_afterGet _ _).mpr haligned) trivial
  | block hreceive =>
    rw [aligned_afterGet]
    exact aligned_receive_iff hreceive hsettled hpos hint hfull haligned

theorem drvFrameSize_call (hcall : Call op r r') : r'.data.drvFrameSize = r.data.drvFrameSize := by
  cases hcall.shape with
  | setFrameSize frameSize => rfl
  | notEnough => rfl
  | empty => rfl
  | failed => exact (afterGet_kept _).2
  | block hreceive => exact (afterGet_kept _).2.trans (receiveBlock_drv hreceive)

end Frames

/-- For a driver whose block size is a positive int: a block is queued after exactly the zeros for
the blocks that were lost before it exactly if none was lost; and along a run with whole blocks as
many bytes are queued as the frame numbers say exactly if every block is in step. -/
theorem gap_filling_iff {drvFrameSize : UInt32} (hpos : 0 < drvFrameSize.toNat)
    (hint : drvFrameSize.toNat < 2 ^ 31) :
    (∀ s t data frames, s.drvFrameSize = drvFrameSize → s.Settled → data ≠ [] →
      s.prevFrames < frames → receiveBlock data frames s = .ok t →
      (t.queue = s.queue ++ (.replicate
          ((frames.toInt - s.prevFrames.toInt - 1).toNat * drvFrameSize.toNat) 0 ++ data) ↔
        frames.toInt = s.prevFrames.toInt + 1)) ∧
    ∀ sampleRate steps last, Path Call ⟨recOpen sampleRate drvFrameSize, []⟩ steps last →
      (∀ step ∈ steps, step.1.Full drvFrameSize) →
      (Always Aligned steps last ↔ ∀ step ∈ steps, step.1.InStep step.2.data) := by
  constructor
  · rintro s t data frames rfl hsettled hdata hlater hreceive
    exact queue_receive_iff hreceive hsettled hpos hint hdata hlater
  · intro sampleRate steps last hpath hfull
    apply (hpath.restrict hfull).always_iff
      (J := fun r ↦ r.data.Settled ∧ r.data.drvFrameSize = drvFrameSize)
      (G := fun op r ↦ op.InStep r.data)
    · rintro op r r' ⟨hfull, hcall⟩ ⟨hsettled, hdrv⟩
      refine ⟨settled_call hcall (hfull.fits hpos) hsettled, ?_⟩
      exact (drvFrameSize_call hcall).trans hdrv
    · rintro op r r' ⟨hfull, hcall⟩ ⟨hsettled, rfl⟩ haligned
      exact aligned_call_iff hcall hsettled hpos hint hfull haligned
    · exact ⟨fun hne ↦ absurd rfl hne, rfl⟩
    · exact (Int.zero_mul _).symm

def twoBlocks : List (RecOp × Recording) :=
  [(.read (.block [1, 2] 0), ⟨recOpen 2 2, []⟩),
    (.read (.block [3, 4] 1), ⟨{ recOpen 2 2 with prevFrames := 0 }, [1, 2]⟩)]

theorem gap_filling_two_blocks :
    Always Aligned twoBlocks ⟨{ recOpen 2 2 with prevFrames := 1 }, [1, 2, 3, 4]⟩ := by
  have hpath : Path Call ⟨recOpen 2 2, []⟩ twoBlocks
      ⟨{ recOpen 2 2 with prevFrames := 1 }, [1, 2, 3, 4]⟩ :=
    .cons ⟨[1, 2], by decide, rfl⟩ (.cons ⟨[3, 4], by decide, rfl⟩ (.nil _))
  have hfull : ∀ step ∈ twoBlocks, step.1.Full 2 := by
    simp [twoBlocks, RecOp.Full]
  refine ((gap_filling_iff (by decide) (by decide)).2 2 _ _ hpath hfull).mpr ?_
  simp only [twoBlocks, mem_cons, not_mem_nil, or_false, forall_eq_or_imp, forall_eq, RecOp.InStep]
  decide

/-- After one lost block three blocks of zeros are queued, so that frame 2 comes after four blocks
instead of two. -/
theorem lost_block_filled_thrice :
    RecOp.perform (.read (.block [1, 2] 0)) (recOpen 2 2) =
        .ok ([1, 2], { recOpen 2 2 with prevFrames := 0 }) ∧
      (receiveBlock [3, 4] 2 { recOpen 2 2 with prevFrames := 0 }).map RecData.queue =
        .ok [0, 0, 0, 0, 0, 0, 3, 4] := by
  decide

end WisCam.Audio
