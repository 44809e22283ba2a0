import WisCam.Audio.Recorder

/-!
# The sizes of the audio buffers

`PutAudioToBuf` does not compare what it stores with the size of a buffer. Each call gives out a
frame, which is at least as long as a block, so without lost blocks at most a frame and a block are
in the first buffer. The zeros for lost blocks are given out as well, and meanwhile all blocks go to
the second buffer, which is emptied only after them.

`blocks_fit_iff` says that the blocks fit as long as gaps are short compared with what is queued
(`ShortGap`), exactly if a buffer has room for a block after all but a byte of a frame.

What the buffers hold is followed by three numbers (`Occupancy`), of which `Room` is the invariant.
-/

set_option autoImplicit false

namespace WisCam.Audio

open Foundations List

/-! ### Occupancy -/

/-- The numbers of bytes in the three parts of the queue. -/
structure Occupancy where
  pre : ℕ
  zeros : ℕ
  post : ℕ
deriving DecidableEq, Repr

namespace Occupancy

def total (o : Occupancy) : ℕ := o.pre + o.zeros + o.post

def put (len : ℕ) (o : Occupancy) : Occupancy :=
  if o.zeros ≠ 0 then { o with post := o.post + len } else { o with pre := o.pre + len }

def get (frame : ℕ) (o : Occupancy) : Occupancy :=
  if o.total < frame then o
  else if o.zeros ≠ 0 then
    ⟨o.pre - frame, o.zeros - (frame - o.pre), o.post - (frame - o.pre - o.zeros)⟩
  else ⟨o.pre - (frame - o.post), 0, o.post - frame⟩

/-- The blocks that arrive while what is queued is given out fit into buffers of the given size.
While there are zeros, those that arrive until they are used up fit behind what is in the second
buffer, and the whole queue is short. Afterwards the blocks that arrive until the second buffer is
empty fit into the first one, also together with what follows. -/
structure Room (block frame size : ℕ) (o : Occupancy) : Prop where
  countable : o.total + block < 2 ^ 32
  zeros : o.zeros ≠ 0 → o.post + (o.pre + o.zeros) / frame * block + block ≤ size ∧
    o.total / frame * block + 2 * block ≤ size + 1
  plain : o.zeros = 0 → o.pre + o.post / frame * block + block ≤ size ∧
    o.pre + o.post + o.post / frame * block + 2 * block ≤ size + o.post / frame * frame + frame

section Room

variable {block frame size len : ℕ} {o : Occupancy}

/-- One frame less is given out in one call less. -/
theorem div_mul_sub (hframe : 0 < frame) {n : ℕ} (hle : frame ≤ n) (block : ℕ) :
    (n - frame) / frame * block + block = n / frame * block := by
  rw [Nat.div_eq_sub_div hframe hle, Nat.add_mul, Nat.one_mul]

theorem put_zero (o : Occupancy) : o.put 0 = o := by
  rw [put]
  split
  · rfl
  · rfl

/-- A block that arrives has room. -/
theorem Room.put_le (hroom : Room block frame size o) (hlen : len ≤ block) :
    (o.zeros ≠ 0 → o.post + len ≤ size) ∧ (o.zeros = 0 → o.pre + len ≤ size) := by
  constructor
  · intro hzeros
    have hfits := (hroom.zeros hzeros).1
    omega
  · intro hzeros
    have hfits := (hroom.plain hzeros).1
    omega

/-- Less than a frame leaves room. -/
theorem room_of_lt (hless : o.total < frame) (hframe : block ≤ frame)
    (hsize : frame + block ≤ size + 1) (hint : size < 2 ^ 32) : Room block frame size o := by
  rw [total] at hless
  have hnone {n : ℕ} (hle : n ≤ o.total) : n / frame = 0 := by
    rw [total] at hle
    exact Nat.div_eq_of_lt (by omega)
  constructor
  · rw [total]
    omega
  · intro hzeros
    rw [hnone (Nat.le_add_right _ _), hnone (Nat.le_refl _), Nat.zero_mul]
    omega
  · intro hzeros
    rw [hnone (Nat.le_add_left _ _), Nat.zero_mul, Nat.zero_mul]
    omega

/-- The second buffer when the zeros have been used up. -/
theorem room_of_post {post : ℕ} (hcount : post + block < 2 ^ 32) (hblock : 0 < block)
    (hshort : post / frame * block + 2 * block ≤ size + 1) (hframe : 0 < frame) :
    Room block frame size ⟨0, 0, post⟩ := by
  have hlt := @Nat.lt_div_mul_add post frame hframe
  constructor
  · dsimp only [total]
    omega
  · exact fun hzeros ↦ absurd rfl hzeros
  · intro _
    dsimp only
    omega

/-- A call leaves room while there are zeros. -/
theorem Room.get_put_zeros (hroom : Room block frame size o) (hzeros : o.zeros ≠ 0)
    (hlen : len ≤ block) (hblock : 0 < block) (hframe : block ≤ frame)
    (henough : frame ≤ (o.put len).total) : Room block frame size ((o.put len).get frame) := by
  obtain ⟨pre, zeros, post⟩ := o
  dsimp only at hzeros
  obtain ⟨hcount, hbehind, -⟩ := hroom
  obtain ⟨hbehind, hshort⟩ := hbehind hzeros
  rw [put, if_pos hzeros] at henough ⊢
  rw [get, if_neg (Nat.not_lt.mpr henough), if_pos hzeros]
  dsimp only [total] at *
  have hmono {n : ℕ} (hle : n ≤ pre + zeros + post) :
      n / frame * block ≤ (pre + zeros + post) / frame * block :=
    Nat.mul_le_mul_right block (Nat.div_le_div_right hle)
  rcases Nat.lt_or_ge frame (pre + zeros) with hmore | hless
  · have hcalls := div_mul_sub (by omega) (Nat.le_of_lt hmore) block
    have htotal := @hmono (pre + zeros + post + len - frame) (by omega)
    have hfront : pre - frame + (zeros - (frame - pre)) = pre + zeros - frame := by omega
    have hwhole : pre + zeros - frame + (post + len - (frame - pre - zeros)) =
        pre + zeros + post + len - frame := by omega
    constructor
    · dsimp only [total]
      omega
    · intro _
      dsimp only [total]
      rw [hfront, hwhole]
      omega
    · intro hused
      dsimp only at hused
      omega
  · have hpre : pre - frame = 0 := by omega
    have hused : zeros - (frame - pre) = 0 := by omega
    have hpost : post + len - (frame - pre - zeros) = pre + zeros + post + len - frame := by omega
    have htotal := @hmono (pre + zeros + post + len - frame) (by omega)
    rw [hpre, hused, hpost]
    exact room_of_post (by omega) hblock (by omega) (by omega)

/-- A call leaves room while there are no zeros. -/
theorem Room.get_put_plain (hroom : Room block frame size o) (hzeros : o.zeros = 0)
    (hlen : len ≤ block) (hblock : 0 < block) (hframe : block ≤ frame)
    (henough : frame ≤ (o.put len).total) : Room block frame size ((o.put len).get frame) := by
  obtain ⟨pre, zeros, post⟩ := o
  dsimp only at hzeros
  subst hzeros
  obtain ⟨hcount, -, hplain⟩ := hroom
  obtain ⟨hfirst, hlater⟩ := hplain rfl
  rw [put, if_neg (not_not.mpr rfl)] at henough ⊢
  rw [get, if_neg (Nat.not_lt.mpr henough), if_neg (not_not.mpr rfl)]
  dsimp only [total] at *
  rcases Nat.lt_or_ge post frame with hless | hmore
  · have hnone : post / frame = 0 := Nat.div_eq_of_lt hless
    have hpost : post - frame = 0 := by omega
    rw [hnone, Nat.zero_mul] at hfirst hlater
    rw [hpost]
    constructor
    · dsimp only [total]
      omega
    · exact fun hne ↦ absurd rfl hne
    · intro _
      dsimp only
      rw [Nat.zero_div, Nat.zero_mul, Nat.zero_mul]
      omega
  · have hcalls := div_mul_sub (by omega) hmore block
    have hframes := div_mul_sub (by omega) hmore frame
    have hpre : pre + len - (frame - post) = pre + len := by omega
    rw [hpre]
    constructor
    · dsimp only [total]
      omega
    · exact fun hne ↦ absurd rfl hne
    · intro _
      dsimp only
      omega

/-- A call leaves room. -/
theorem Room.get_put (hroom : Room block frame size o) (hlen : len ≤ block) (hblock : 0 < block)
    (hframe : block ≤ frame) (hsize : frame + block ≤ size + 1) (hint : size < 2 ^ 32) :
    Room block frame size ((o.put len).get frame) := by
  rcases Nat.lt_or_ge (o.put len).total frame with hless | henough
  · rw [get, if_pos hless]
    exact room_of_lt hless hframe hsize hint
  · by_cases hzeros : o.zeros = 0
    · exact hroom.get_put_plain hzeros hlen hblock hframe henough
    · exact hroom.get_put_zeros hzeros hlen hblock hframe henough

end Room

end Occupancy

/-! ### The recorder -/

def RecData.occupancy (s : RecData) : Occupancy :=
  ⟨s.pre.length, s.zeroAudLenInBuf.toNat, s.post.length⟩

/-- A block comes after lost ones, and zeros are counted for them. -/
def Fills (frames : Int32) (s : RecData) : Prop :=
  frames ≠ s.prevFrames ∧ frames ≥ s.prevFrames + 1 ∧ frames - s.prevFrames > 1 ∧ s.post = []

def gapZeros (frames : Int32) (s : RecData) : ℕ :=
  ((frames - (s.prevFrames - 1)).toUInt32 * s.drvFrameSize).toNat

/-- When a gap is filled, a buffer has room for as many blocks as there are whole frames in the
queue and almost two more, and the bytes in the queue can be counted in 32 bits. -/
def ShortGap (input : Input) (s : RecData) : Prop :=
  match input with
  | .block _ frames => Fills frames s →
    s.pre.length + gapZeros frames s + s.drvFrameSize.toNat < 2 ^ 32 ∧
      ((s.pre.length + gapZeros frames s) / s.outFrameSize.toNat + 2) * s.drvFrameSize.toNat ≤
        s.preAudTempBufSize.toNat + 1
  | _ => True

structure Sized (drvFrameSize frameSize size : UInt32) (s : RecData) : Prop where
  drv : s.drvFrameSize = drvFrameSize
  out : s.outFrameSize = frameSize
  pre : s.preAudTempBufSize = size
  post : s.postAudTempBufSize = size

/-- A recorder whose next block fits. -/
structure Roomy (drvFrameSize frameSize size : UInt32) (s : RecData) : Prop where
  sized : Sized drvFrameSize frameSize size s
  settled : s.Settled
  room : s.occupancy.Room drvFrameSize.toNat frameSize.toNat size.toNat

section Recorder

variable {drvFrameSize frameSize size : UInt32} {s t : RecData} {data : Bytes} {frames : Int32}
  {input : Input} {r r' : Recording}

theorem zeros_occupancy_iff : s.occupancy.zeros ≠ 0 ↔ s.zeroAudLenInBuf ≠ 0 :=
  not_congr (@UInt32.toNat_inj s.zeroAudLenInBuf 0)

theorem total_occupancy (s : RecData) : s.occupancy.total = s.queue.length := (length_queue s).symm

/-- What is stored, seen as numbers. -/
theorem occupancy_putAudioToBuf (hput : putAudioToBuf data s = .ok t) :
    t.occupancy = s.occupancy.put data.length := by
  rw [putAudioToBuf] at hput
  split at hput
  · rename_i hzero
    rw [Occupancy.put, if_pos (zeros_occupancy_iff.mpr hzero)]
    split at hput
    · cases hput
      simp only [RecData.occupancy, length_append]
    · cases hput
  · rename_i hzero
    rw [Occupancy.put, if_neg (mt zeros_occupancy_iff.mp hzero)]
    split at hput
    · cases hput
      simp only [RecData.occupancy, length_append]
    · cases hput

/-- What is given out, seen as numbers. -/
theorem occupancy_afterGet (hcount : s.queue.length < 2 ^ 32) :
    s.afterGet.occupancy = s.occupancy.get s.outFrameSize.toNat := by
  have hless : s.totalBytesInBuf < s.outFrameSize ↔
      s.occupancy.total < s.outFrameSize.toNat := by
    rw [UInt32.lt_iff_toNat_lt, toNat_totalBytesInBuf, Nat.mod_eq_of_lt hcount, total_occupancy]
  rw [RecData.afterGet, Occupancy.get]
  by_cases henough : s.totalBytesInBuf < s.outFrameSize
  · rw [if_pos henough, if_pos (hless.mp henough)]
  · rw [if_neg henough, if_neg (mt hless.mpr henough), RecData.dropFront]
    by_cases hzero : s.zeroAudLenInBuf = 0
    · rw [if_neg (not_not.mpr hzero), if_neg (mt zeros_occupancy_iff.mp (not_not.mpr hzero))]
      simp only [RecData.occupancy, length_drop, hzero, UInt32.toNat_zero]
    · rw [if_pos hzero, if_pos (zeros_occupancy_iff.mpr hzero)]
      simp only [RecData.occupancy, length_drop, toNat_ofNat_sub]

/-- A block for which no zeros are counted changes the frame number at most. -/
theorem acceptBlock_of_not_fills (hnot : ¬Fills frames s) :
    ∃ prevFrames, (acceptBlock frames s).1 = { s with prevFrames := prevFrames } := by
  by_cases hsame : frames = s.prevFrames
  · refine ⟨s.prevFrames + 1, ?_⟩
    rw [acceptBlock_next (Or.inl hsame)]
  · simp only [acceptBlock, if_neg hsame]
    by_cases hmore : frames ≥ s.prevFrames + 1
    · refine ⟨frames, ?_⟩
      rw [if_pos hmore]
      by_cases hgap : frames - s.prevFrames > 1
      · have hpost : s.post ≠ [] := fun hpost ↦ hnot ⟨hsame, hmore, hgap, hpost⟩
        rw [if_pos hgap, if_pos hpost]
      · rw [if_neg hgap]
    · rw [if_neg hmore]
      exact ⟨s.prevFrames, rfl⟩

/-- Before a block is stored there is room for it. -/
theorem Roomy.accept (hroomy : Roomy drvFrameSize frameSize size s)
    (hshort : ShortGap (.block data frames) s) (hblock : 0 < drvFrameSize.toNat) :
    Sized drvFrameSize frameSize size (acceptBlock frames s).1 ∧
      (acceptBlock frames s).1.occupancy.Room drvFrameSize.toNat frameSize.toNat size.toNat := by
  obtain ⟨hsized, hsettled, hroom⟩ := hroomy
  by_cases hfills : Fills frames s
  · obtain ⟨hcount, hshort⟩ := hshort hfills
    obtain ⟨hother, hmore, hgap, hpost⟩ := hfills
    have hzero : s.zeroAudLenInBuf = 0 := not_not.mp fun hne ↦ hsettled hne hpost
    have haccept : acceptBlock frames s = ({ s with
        zeroAudLenInBuf := (frames - (s.prevFrames - 1)).toUInt32 * s.drvFrameSize
        prevFrames := frames }, true) := by
      simp only [acceptBlock, if_neg hother, if_pos hmore, if_pos hgap, if_neg (not_not.mpr hpost)]
    rw [haccept]
    refine ⟨⟨hsized.drv, hsized.out, hsized.pre, hsized.post⟩, ?_, ?_, ?_⟩
    · rw [hsized.drv] at hcount
      simp only [RecData.occupancy, Occupancy.total, hpost, length_nil]
      exact hcount
    · intro _
      rw [hsized.drv, hsized.out, hsized.pre, Nat.add_mul] at hshort
      simp only [RecData.occupancy, Occupancy.total, hpost, length_nil]
      change _ + (s.pre.length + gapZeros frames s) / _ * _ + _ ≤ _ ∧
        (s.pre.length + gapZeros frames s + 0) / _ * _ + _ ≤ _
      rw [Nat.add_zero]
      omega
    · intro _
      exact hroom.plain (congrArg UInt32.toNat hzero)
  · obtain ⟨prevFrames, haccept⟩ := acceptBlock_of_not_fills hfills
    rw [haccept]
    exact ⟨⟨hsized.drv, hsized.out, hsized.pre, hsized.post⟩, hroom⟩

/-- What is stored keeps the sizes, and so does what is given out. -/
theorem Sized.putAudioToBuf (hsized : Sized drvFrameSize frameSize size s)
    (hput : putAudioToBuf data s = .ok t) : Sized drvFrameSize frameSize size t := by
  rw [Audio.putAudioToBuf] at hput
  split_ifs at hput <;> cases hput <;>
    exact ⟨hsized.drv, hsized.out, hsized.pre, hsized.post⟩

theorem Sized.afterGet (hsized : Sized drvFrameSize frameSize size s) :
    Sized drvFrameSize frameSize size s.afterGet := by
  rw [RecData.afterGet, RecData.dropFront]
  split_ifs <;> exact ⟨hsized.drv, hsized.out, hsized.pre, hsized.post⟩

/-- A block for which there is room is stored. -/
theorem exists_putAudioToBuf (hsized : Sized drvFrameSize frameSize size s)
    (hroom : s.occupancy.Room drvFrameSize.toNat frameSize.toNat size.toNat)
    (hlen : data.length ≤ drvFrameSize.toNat) : ∃ t, putAudioToBuf data s = .ok t := by
  obtain ⟨hpost, hpre⟩ := hroom.put_le hlen
  rw [putAudioToBuf]
  by_cases hzero : s.zeroAudLenInBuf = 0
  · have hle : s.pre.length + data.length ≤ size.toNat := hpre (congrArg UInt32.toNat hzero)
    rw [if_neg (not_not.mpr hzero), hsized.pre, if_pos hle]
    exact ⟨_, rfl⟩
  · have hle : s.post.length + data.length ≤ size.toNat := hpost (zeros_occupancy_iff.mpr hzero)
    rw [if_pos hzero, hsized.post, if_pos hle]
    exact ⟨_, rfl⟩

section Calls

variable (hblock : 0 < drvFrameSize.toNat) (hframe : drvFrameSize.toNat ≤ frameSize.toNat)
  (hsize : frameSize.toNat + drvFrameSize.toNat ≤ size.toNat + 1)

include hblock hframe hsize

/-- A call that has stored some bytes, or none, leaves a recorder with room. -/
theorem roomy_afterGet {len : ℕ} (hsized : Sized drvFrameSize frameSize size t)
    (hsettled : t.Settled) {o : Occupancy} (hroom : o.Room drvFrameSize.toNat frameSize.toNat size.toNat)
    (hlen : len ≤ drvFrameSize.toNat) (ht : t.occupancy = o.put len) :
    Roomy drvFrameSize frameSize size t.afterGet := by
  have hcount : t.queue.length < 2 ^ 32 := by
    have htotal : (o.put len).total = o.total + len := by
      rw [Occupancy.put]
      split <;> simp only [Occupancy.total] <;> omega
    have hcountable := hroom.countable
    rw [← total_occupancy, ht, htotal]
    omega
  refine ⟨hsized.afterGet, settled_afterGet hsettled, ?_⟩
  rw [occupancy_afterGet hcount, ht, hsized.out]
  exact hroom.get_put hlen hblock hframe hsize size.toNat_lt

theorem roomy_call (hroomy : Roomy drvFrameSize frameSize size r.data)
    (hcall : Call (.read input) r r') (hfits : (RecOp.read input).Fits drvFrameSize)
    (hshort : ShortGap input r.data) : Roomy drvFrameSize frameSize size r'.data := by
  cases hcall.shape with
  | notEnough => exact hroomy
  | empty => exact hroomy
  | failed =>
    exact roomy_afterGet hblock hframe hsize hroomy.sized hroomy.settled hroomy.room (Nat.zero_le _)
      (Occupancy.put_zero _).symm
  | block hreceive =>
    obtain ⟨hsized, hroom⟩ := hroomy.accept hshort hblock
    have hdata := ne_nil_of_length_pos hfits.1
    have hsettled := settled_receiveBlock hreceive hdata hroomy.settled
    rw [receiveBlock] at hreceive
    split at hreceive
    · exact roomy_afterGet hblock hframe hsize (hsized.putAudioToBuf hreceive) hsettled hroom hfits.2
        (occupancy_putAudioToBuf hreceive)
    · cases hreceive
      exact roomy_afterGet hblock hframe hsize hsized hsettled hroom (Nat.zero_le _)
        (Occupancy.put_zero _).symm

omit hframe hsize in
/-- The next block fits. -/
theorem exists_call (hroomy : Roomy drvFrameSize frameSize size r.data)
    (hfits : (RecOp.read input).Fits drvFrameSize) (hshort : ShortGap input r.data) :
    ∃ r', Call (.read input) r r' := by
  cases input with
  | notEnough => exact ⟨r, (Shape.notEnough r).call⟩
  | empty => exact ⟨r, (Shape.empty r).call⟩
  | failed => exact ⟨_, (Shape.failed r).call⟩
  | block data frames =>
    obtain ⟨hsized, hroom⟩ := hroomy.accept hshort hblock
    by_cases hput : (acceptBlock frames r.data).2 = true
    · obtain ⟨t, hstored⟩ := exists_putAudioToBuf hsized hroom hfits.2
      exact ⟨_, (Shape.block (by rw [receiveBlock, if_pos hput, hstored])).call⟩
    · exact ⟨_, (Shape.block (by rw [receiveBlock, if_neg hput])).call⟩

end Calls

theorem not_fills_next (s : RecData) : ¬Fills (s.prevFrames + 1) s := by
  rintro ⟨-, -, hgap, -⟩
  rw [Int32.add_comm, Int32.add_sub_cancel] at hgap
  exact absurd hgap (by decide)

/-- The next block is stored in the first buffer, if there are no zeros. -/
theorem receiveBlock_next (hzero : s.zeroAudLenInBuf = 0) :
    receiveBlock data (s.prevFrames + 1) s =
      if s.pre.length + data.length ≤ s.preAudTempBufSize.toNat then
        .ok { s with prevFrames := s.prevFrames + 1, pre := s.pre ++ data }
      else .error .overflow := by
  rw [receiveBlock, acceptBlock_next (Or.inr rfl), if_pos rfl, putAudioToBuf, if_neg (not_not.mpr hzero)]

/-- Any number of bytes below a frame can be in the first buffer. -/
theorem exists_path_pre {sampleRate : UInt32} (hblock : 0 < drvFrameSize.toNat) {n : ℕ}
    (hless : n < frameSize.toNat)
    (hroom : n ≤ (recOpen sampleRate drvFrameSize).preAudTempBufSize.toNat) :
    ∃ steps s, Path (fun input ↦ Call (.read input))
        ⟨recSetFrameSize frameSize (recOpen sampleRate drvFrameSize), []⟩ steps ⟨s, []⟩ ∧
      (∀ step ∈ steps, (RecOp.read step.1).Fits drvFrameSize ∧ ShortGap step.1 step.2.data) ∧
      Sized drvFrameSize frameSize (recOpen sampleRate drvFrameSize).preAudTempBufSize s ∧
      s.zeroAudLenInBuf = 0 ∧ s.post = [] ∧ s.pre.length = n := by
  induction n with
  | zero =>
    refine ⟨[], _, .nil _, fun _ hmem ↦ absurd hmem not_mem_nil, ⟨rfl, rfl, rfl, rfl⟩, rfl, rfl,
      rfl⟩
  | succ n ih =>
    obtain ⟨steps, s, hpath, hgood, hsized, hzero, hpost, hpre⟩ := ih (by omega) (by omega)
    have hreceive := @receiveBlock_next s [0] hzero
    rw [if_pos (by rw [hsized.pre, hpre]; exact hroom)] at hreceive
    obtain ⟨t, ht⟩ : ∃ t : RecData, t = { s with
      prevFrames := s.prevFrames + 1
      pre := s.pre ++ [0] } := ⟨_, rfl⟩
    rw [← ht] at hreceive
    have htotal : t.totalBytesInBuf < t.outFrameSize := by
      have hlength : t.queue.length = n + 1 := by
        rw [ht, length_queue, hzero, hpost, length_append, hpre]
        rfl
      rw [UInt32.lt_iff_toNat_lt, toNat_totalBytesInBuf, hlength, ht, hsized.out]
      exact lt_of_le_of_lt (Nat.mod_le _ _) hless
    have hcall := (@Shape.block _ _ ⟨s, []⟩ t hreceive).call
    rw [RecData.afterGet, RecData.frame, if_pos htotal, if_pos htotal] at hcall
    refine ⟨_, t, hpath.append (.single hcall), ?_, ?_, ?_, ?_, ?_⟩
    · intro step hmem
      rcases mem_append.mp hmem with hmem | hmem
      · exact hgood step hmem
      · rw [mem_singleton.mp hmem]
        exact ⟨⟨Nat.zero_lt_one, hblock⟩, fun hfills ↦ absurd hfills (not_fills_next s)⟩
    · rw [ht]
      exact ⟨hsized.drv, hsized.out, hsized.pre, hsized.post⟩
    · rw [ht, hzero]
    · rw [ht, hpost]
    · rw [ht, length_append, hpre]
      rfl

end Recorder

/-- For a driver block that is not longer than the output frame, and an output frame that fits into
a buffer: every block fits into the buffers in every run in which gaps are short, exactly if a
buffer has room for a block after all but a byte of an output frame. -/
theorem blocks_fit_iff {sampleRate drvFrameSize frameSize : UInt32} (hblock : 0 < drvFrameSize.toNat)
    (hframe : drvFrameSize ≤ frameSize)
    (hsize : frameSize ≤ (recOpen sampleRate drvFrameSize).preAudTempBufSize) :
    (∀ steps last, Path (fun input ↦ Call (.read input))
        ⟨recSetFrameSize frameSize (recOpen sampleRate drvFrameSize), []⟩ steps last →
      (∀ step ∈ steps, (RecOp.read step.1).Fits drvFrameSize ∧ ShortGap step.1 step.2.data) →
      ∀ input, (RecOp.read input).Fits drvFrameSize → ShortGap input last.data →
        ∃ next, Call (.read input) last next) ↔
      frameSize.toNat + drvFrameSize.toNat ≤
        (recOpen sampleRate drvFrameSize).preAudTempBufSize.toNat + 1 := by
  rw [UInt32.le_iff_toNat_le] at hframe hsize
  constructor
  · intro hfit
    by_contra hmore
    obtain ⟨steps, s, hpath, hgood, hsized, hzero, hpost, hpre⟩ :=
      @exists_path_pre drvFrameSize frameSize sampleRate hblock (frameSize.toNat - 1) (by omega)
        (by omega)
    -- The block that comes next has no room.
    have hfits : (RecOp.read (.block (.replicate drvFrameSize.toNat 0) (s.prevFrames + 1))).Fits
        drvFrameSize := by
      rw [RecOp.Fits, length_replicate]
      exact ⟨hblock, Nat.le_refl _⟩
    obtain ⟨next, hcall⟩ := hfit steps _ hpath hgood _ hfits
      fun hfills ↦ absurd hfills (not_fills_next s)
    cases hcall.shape with
    | block hreceive =>
      rw [receiveBlock_next hzero, if_neg] at hreceive
      · cases hreceive
      · rw [hpre, hsized.pre, length_replicate]
        omega
  · intro hroom steps last hpath hgood input hfits hshort
    have hstart : Roomy drvFrameSize frameSize (recOpen sampleRate drvFrameSize).preAudTempBufSize
        (recSetFrameSize frameSize (recOpen sampleRate drvFrameSize)) := by
      refine ⟨⟨rfl, rfl, rfl, rfl⟩, fun hne ↦ absurd rfl hne, ?_⟩
      apply Occupancy.room_of_lt _ hframe hroom (UInt32.toNat_lt _)
      exact Nat.lt_of_lt_of_le hblock hframe
    have halways := hpath.always_of_good
      (I := fun r ↦ Roomy drvFrameSize frameSize
        (recOpen sampleRate drvFrameSize).preAudTempBufSize r.data)
      (G := fun input r ↦ (RecOp.read input).Fits drvFrameSize ∧ ShortGap input r.data)
      (fun hcall hgood hroomy ↦ roomy_call hblock hframe hroom hroomy hcall hgood.1 hgood.2) hgood
      hstart
    exact exists_call hblock halways.last hfits hshort

/-- A recorder with room for eight blocks gets a block, and then one before which another was
lost. -/
def shortGapSteps : List (Input × Recording) :=
  [(.block [1, 2] 0, ⟨recSetFrameSize 2 (recOpen 8 2), []⟩),
    (.block [3, 4] 2, ⟨{ recSetFrameSize 2 (recOpen 8 2) with prevFrames := 0 }, [1, 2]⟩)]

def afterShortGap : Recording :=
  ⟨{ recSetFrameSize 2 (recOpen 8 2) with
    prevFrames := 2, post := [3, 4], zeroAudLenInBuf := 4 }, [1, 2, 0, 0]⟩

/-- The next block fits. -/
theorem blocks_fit_after_gap : ∃ next, Call (.read (.block [5, 6] 3)) afterShortGap next := by
  have hpath : Path (fun input ↦ Call (.read input)) ⟨recSetFrameSize 2 (recOpen 8 2), []⟩
      shortGapSteps afterShortGap :=
    .cons ⟨[1, 2], by decide, rfl⟩ (.cons ⟨[0, 0], by decide, rfl⟩ (.nil _))
  apply (@blocks_fit_iff 8 2 2 (by decide) (by decide) (by decide)).mpr (by decide) _ _ hpath
  · intro step hmem
    simp only [shortGapSteps, mem_cons, not_mem_nil, or_false] at hmem
    rcases hmem with rfl | rfl
    · refine ⟨⟨by decide, by decide⟩, ?_⟩
      rintro ⟨-, -, hgap, -⟩
      exact absurd hgap (by decide)
    · exact ⟨⟨by decide, by decide⟩, fun _ ↦ ⟨by decide, by decide⟩⟩
  · exact ⟨by decide, by decide⟩
  · rintro ⟨-, -, hgap, -⟩
    exact absurd hgap (by decide)

/-- One block is lost. The third block after it is written past the end of the second buffer. -/
theorem lost_block_overflows :
    ([0, 2, 3, 4].foldlM (fun s frames ↦ (recRead (.block [1, 2] frames) s).map fun result ↦
      result.2.2) (recSetFrameSize 2 (recOpen 2 2))) = .error .overflow := by
  decide

end WisCam.Audio
