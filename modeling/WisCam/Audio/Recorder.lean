import WisCam.Foundations.Bytes
import WisCam.Foundations.Fallible
import WisCam.Foundations.Paths

/-!
# The audio recorder

`OSS_RecRead` (`OSS.c`) takes blocks from the sound driver and gives out frames of another size.
What is not yet given out is kept in three parts: the bytes of two buffers, and a number of zero
bytes that stand for lost blocks. A block goes to the second buffer while there are zeros, otherwise
to the first one, and the order in which the parts are given out changes when the zeros have been
used up.

The queue of a recorder is the sequence of bytes that it will give out. `PutAudioToBuf` appends to
it and `GetAudioFromBuf` takes from its front, but the number of bytes in the queue is computed in
32 bits. `recorder_refines_queue_iff` says that this is the only thing that can go wrong.

The frame number of a block, which the code computes from the time of its arrival in doubles, is an
input here. The time stamps of the frames that are given out are left out.
-/

set_option autoImplicit false

namespace WisCam.Audio

open Foundations List

/-! ### The buffers -/

/-- What the code would do wrong: write past the end of a buffer, or stay in a loop. -/
inductive Fault
  | overflow
  | endless
deriving DecidableEq, Repr

/-- `S_OSS_REC_DATA`, as far as the audio data depend on it. Of the two buffers the bytes that are
in use are kept. -/
structure RecData where
  drvFrameSize : UInt32
  prevFrames : Int32
  preAudTempBufSize : UInt32
  pre : Bytes
  postAudTempBufSize : UInt32
  post : Bytes
  zeroAudLenInBuf : UInt32
  outFrameSize : UInt32
deriving DecidableEq, Repr

def recOpen (sampleRate drvFrameSize : UInt32) : RecData :=
  let tempAudBufLen := if sampleRate > drvFrameSize then sampleRate else drvFrameSize
  { drvFrameSize := drvFrameSize
    prevFrames := -1
    preAudTempBufSize := tempAudBufLen * 2
    pre := []
    postAudTempBufSize := tempAudBufLen * 2
    post := []
    zeroAudLenInBuf := 0
    outFrameSize := sampleRate }

def recSetFrameSize (frameSize : UInt32) (s : RecData) : RecData :=
  { s with outFrameSize := frameSize }

def putAudioToBuf (data : Bytes) (s : RecData) : Except Fault RecData :=
  if s.zeroAudLenInBuf ≠ 0 then
    if s.post.length + data.length ≤ s.postAudTempBufSize.toNat then
      .ok { s with post := s.post ++ data }
    else .error .overflow
  else
    if s.pre.length + data.length ≤ s.preAudTempBufSize.toNat then
      .ok { s with pre := s.pre ++ data }
    else .error .overflow

/-- `u32PreAudLenInBuf + u32ZeroAudLenInBuf + u32PostAudLenInBuf`. -/
def RecData.totalBytesInBuf (s : RecData) : UInt32 :=
  UInt32.ofNat s.pre.length + s.zeroAudLenInBuf + UInt32.ofNat s.post.length

inductive Part
  | pre
  | zeros
  | post
deriving DecidableEq, Repr

/-- The part that the next bytes are taken from. -/
def RecData.source (s : RecData) : Part :=
  if s.pre ≠ [] then
    if s.zeroAudLenInBuf = 0 ∧ s.post ≠ [] then .post else .pre
  else if s.zeroAudLenInBuf ≠ 0 then .zeros
  else .post

/-- A round of the loop in `GetAudioFromBuf`, which needs some more bytes. -/
def copyRound (need : ℕ) (s : RecData) : Bytes × RecData :=
  match s.source with
  | .pre => (s.pre.take need, { s with pre := s.pre.drop need })
  | .zeros =>
    let copyLen := min need s.zeroAudLenInBuf.toNat
    (.replicate copyLen 0, { s with zeroAudLenInBuf := s.zeroAudLenInBuf - .ofNat copyLen })
  | .post => (s.post.take need, { s with post := s.post.drop need })

/-- The loop of `GetAudioFromBuf`, for a number of rounds. -/
def copyLoop : ℕ → ℕ → RecData → Except Fault (Bytes × RecData)
  | _, 0, s => .ok ([], s)
  | 0, _ + 1, _ => .error .endless
  | rounds + 1, need + 1, s => do
    let (rest, last) ← copyLoop rounds (need + 1 - (copyRound (need + 1) s).1.length)
      (copyRound (need + 1) s).2
    .ok ((copyRound (need + 1) s).1 ++ rest, last)

/-- `GetAudioFromBuf`: the bytes, or none where it returns false. In as many rounds as bytes are
asked for the loop ends, unless it makes no progress. -/
def getAudioFromBuf (dataLen : UInt32) (s : RecData) : Except Fault (Option Bytes × RecData) :=
  if s.totalBytesInBuf < dataLen then .ok (none, s)
  else do
    let (out, s) ← copyLoop dataLen.toNat dataLen.toNat s
    .ok (some out, s)

/-! ### Reading -/

/-- What the driver answers: less than a block is there, `read` returns zero or fails, or it returns
a block, whose frame number is computed from the time. -/
inductive Input
  | notEnough
  | empty
  | failed
  | block (data : Bytes) (frames : Int32)
deriving DecidableEq, Repr

/-- The error codes of `OSS_RecRead`. -/
inductive ErrCode
  | none
  | io
  | notReady
deriving DecidableEq, Repr

/-- What is done with a block before `PutAudioToBuf` is called, and whether it is called. Lost
blocks are counted as zeros, but not while the second buffer is in use. -/
def acceptBlock (frames : Int32) (s : RecData) : RecData × Bool :=
  let frames := if frames = s.prevFrames then s.prevFrames + 1 else frames
  if frames ≥ s.prevFrames + 1 then
    if frames - s.prevFrames > 1 then
      if s.post ≠ [] then ({ s with prevFrames := frames }, false)
      else
        ({ s with
          zeroAudLenInBuf := (frames - (s.prevFrames - 1)).toUInt32 * s.drvFrameSize
          prevFrames := frames }, true)
    else ({ s with prevFrames := frames }, true)
  else (s, false)

/-- The part of `OSS_RecRead` before `get_audio` that stores a block. -/
def receiveBlock (data : Bytes) (frames : Int32) (s : RecData) : Except Fault RecData :=
  if (acceptBlock frames s).2 then putAudioToBuf data (acceptBlock frames s).1
  else .ok (acceptBlock frames s).1

/-- The part of `OSS_RecRead` from `get_audio` on. -/
def getAudio (s : RecData) : Except Fault (ErrCode × Bytes × RecData) := do
  match ← getAudioFromBuf s.outFrameSize s with
  | (none, s) => .ok (.notReady, [], s)
  | (some out, s) => .ok (.none, out, s)

/-- `OSS_RecRead`: the error code and the frame. -/
def recRead (input : Input) (s : RecData) : Except Fault (ErrCode × Bytes × RecData) :=
  match input with
  | .notEnough => .ok (.io, [], s)
  | .empty => .ok (.io, [], s)
  | .failed =>
    if s.totalBytesInBuf < s.outFrameSize then .ok (.notReady, [], s) else getAudio s
  | .block data frames => do
    let s ← receiveBlock data frames s
    getAudio s

/-! ### The queue -/

/-- The bytes that will be given out, in their order. -/
def RecData.queue (s : RecData) : Bytes :=
  if s.zeroAudLenInBuf ≠ 0 then s.pre ++ (.replicate s.zeroAudLenInBuf.toNat 0 ++ s.post)
  else s.post ++ s.pre

/-- There are zeros only in front of later audio data. -/
def RecData.Settled (s : RecData) : Prop := s.zeroAudLenInBuf ≠ 0 → s.post ≠ []

section Queue

variable {s s' : RecData} {data out : Bytes} {need rounds : ℕ} {len : UInt32}

theorem length_queue (s : RecData) :
    s.queue.length = s.pre.length + s.zeroAudLenInBuf.toNat + s.post.length := by
  rw [RecData.queue]
  split
  · simp only [length_append, length_replicate]
    omega
  · rename_i hzero
    rw [not_not.mp hzero, length_append]
    simp only [UInt32.toNat_zero]
    omega

theorem toNat_totalBytesInBuf (s : RecData) :
    s.totalBytesInBuf.toNat = s.queue.length % 2 ^ 32 := by
  rw [RecData.totalBytesInBuf, length_queue]
  simp only [UInt32.toNat_add, UInt32.toNat_ofNat']
  omega

/-- A block with the next number is stored, and so is one with the same number again. -/
theorem acceptBlock_next {frames : Int32}
    (hframes : frames = s.prevFrames ∨ frames = s.prevFrames + 1) :
    acceptBlock frames s = ({ s with prevFrames := s.prevFrames + 1 }, true) := by
  have hnumber : (if frames = s.prevFrames then s.prevFrames + 1 else frames) = s.prevFrames + 1 := by
    rcases hframes with hsame | hnext
    · exact if_pos hsame
    · rw [hnext, ite_self]
  have hone : ¬s.prevFrames + 1 - s.prevFrames > 1 := by
    rw [Int32.add_comm, Int32.add_sub_cancel]
    decide
  rw [acceptBlock, hnumber, if_pos (Int32.le_refl _), if_neg hone]

/-- What is stored is appended, whichever buffer it goes to. -/
theorem queue_putAudioToBuf (hput : putAudioToBuf data s = .ok s') :
    s'.queue = s.queue ++ data := by
  rw [putAudioToBuf] at hput
  split at hput
  · rename_i hzero
    split at hput
    · cases hput
      simp only [RecData.queue, if_pos hzero, append_assoc]
    · cases hput
  · rename_i hzero
    split at hput
    · cases hput
      simp only [RecData.queue, if_neg hzero, append_assoc]
    · cases hput

theorem queue_of_zero (hzero : s.zeroAudLenInBuf = 0) : s.queue = s.post ++ s.pre :=
  if_neg (not_not.mpr hzero)

/-- Without bytes in the first buffer the zeros come first, also if there are none. -/
theorem queue_of_pre (hpre : s.pre = []) :
    s.queue = .replicate s.zeroAudLenInBuf.toNat 0 ++ s.post := by
  rw [RecData.queue, hpre]
  split
  · rfl
  · rename_i hzero
    rw [not_not.mp hzero, append_nil]
    rfl

/-- Without bytes in the second buffer the zeros come last, also if there are none. -/
theorem queue_of_post (hpost : s.post = []) :
    s.queue = s.pre ++ .replicate s.zeroAudLenInBuf.toNat 0 := by
  rw [RecData.queue, hpost]
  split
  · rw [append_nil]
  · rename_i hzero
    rw [not_not.mp hzero]
    exact (append_nil _).symm

/-- The part that is taken from stands at the front of the queue. -/
inductive Front (s : RecData) : Part → Prop
  | pre (hne : s.pre ≠ []) (hlater : s.zeroAudLenInBuf ≠ 0 ∨ s.post = []) : Front s .pre
  | zeros (hpre : s.pre = []) (hne : s.zeroAudLenInBuf ≠ 0) : Front s .zeros
  | post (hzero : s.zeroAudLenInBuf = 0) (hne : s.post ≠ [] ∨ s.pre = []) : Front s .post

theorem front_source (s : RecData) : Front s s.source := by
  rw [RecData.source]
  by_cases hpre : s.pre = []
  · rw [if_neg (not_not.mpr hpre)]
    split
    · rename_i hzero
      exact .zeros hpre hzero
    · rename_i hzero
      exact .post (not_not.mp hzero) (.inr hpre)
  · rw [if_pos hpre]
    split
    · rename_i hboth
      exact .post hboth.1 (.inl hboth.2)
    · rename_i hboth
      rw [not_and_or, not_not] at hboth
      exact .pre hpre hboth

theorem toNat_ofNat_sub (zeros : UInt32) (n : ℕ) :
    (UInt32.ofNat (zeros.toNat - n)).toNat = zeros.toNat - n :=
  UInt32.toNat_ofNat_of_lt' (lt_of_le_of_lt (Nat.sub_le _ _) zeros.toNat_lt)

/-- The zeros that are left where some are taken. -/
theorem sub_ofNat_min (zeros : UInt32) (need : ℕ) :
    zeros - .ofNat (min need zeros.toNat) = .ofNat (zeros.toNat - need) := by
  have hlt := zeros.toNat_lt
  have hmin : (UInt32.ofNat (min need zeros.toNat)).toNat = min need zeros.toNat :=
    UInt32.toNat_ofNat_of_lt' (lt_of_le_of_lt (min_le_right _ _) hlt)
  apply UInt32.toNat_inj.mp
  rw [toNat_ofNat_sub, UInt32.toNat_sub_of_le, hmin]
  · omega
  · rw [UInt32.le_iff_toNat_le, hmin]
    exact min_le_right _ _

/-- A round takes bytes from the front of the queue. -/
theorem queue_copyRound (need : ℕ) (s : RecData) :
    (copyRound need s).1 ++ (copyRound need s).2.queue = s.queue := by
  have hfront := front_source s
  rw [copyRound]
  cases hsource : s.source with
  | pre =>
    rw [hsource] at hfront
    cases hfront with
    | pre hne hlater =>
      dsimp only
      rcases hlater with hzero | hpost
      · rw [RecData.queue, RecData.queue, if_pos hzero, if_pos hzero, ← append_assoc,
          take_append_drop]
      · simp only [queue_of_post, hpost, ← append_assoc, take_append_drop]
  | zeros =>
    rw [hsource] at hfront
    cases hfront with
    | zeros hpre hne =>
      have hcount : min need s.zeroAudLenInBuf.toNat + (s.zeroAudLenInBuf.toNat - need) =
          s.zeroAudLenInBuf.toNat := by
        omega
      dsimp only
      simp only [queue_of_pre, hpre, sub_ofNat_min, toNat_ofNat_sub, ← append_assoc,
        replicate_append_replicate, hcount]
  | post =>
    rw [hsource] at hfront
    cases hfront with
    | post hzero hne =>
      dsimp only
      simp only [queue_of_zero, hzero, ← append_assoc, take_append_drop]

theorem length_copyRound_le (need : ℕ) (s : RecData) : (copyRound need s).1.length ≤ need := by
  rw [copyRound]
  cases s.source with
  | pre => exact length_take_le _ _
  | zeros =>
    rw [length_replicate]
    exact min_le_left _ _
  | post => exact length_take_le _ _

/-- A round takes something, if there is something. -/
theorem copyRound_ne_nil (hneed : 0 < need) (hqueue : s.queue ≠ []) : (copyRound need s).1 ≠ [] := by
  have htake {text : Bytes} (hne : text ≠ []) : text.take need ≠ [] := by
    rw [ne_eq, take_eq_nil_iff, not_or]
    exact ⟨Nat.pos_iff_ne_zero.mp hneed, hne⟩
  have hfront := front_source s
  rw [copyRound]
  cases hsource : s.source with
  | pre =>
    rw [hsource] at hfront
    cases hfront with
    | pre hne hlater => exact htake hne
  | zeros =>
    rw [hsource] at hfront
    cases hfront with
    | zeros hpre hne =>
      have hpos : 0 < s.zeroAudLenInBuf.toNat :=
        Nat.pos_of_ne_zero fun hzero ↦ hne (UInt32.toNat_inj.mp hzero)
      have hcopy : min need s.zeroAudLenInBuf.toNat ≠ 0 := by omega
      rw [ne_eq, replicate_eq_nil_iff]
      exact hcopy
  | post =>
    rw [hsource] at hfront
    cases hfront with
    | post hzero hne =>
      rcases hne with hne | hpre
      · exact htake hne
      · rw [queue_of_zero hzero, hpre, append_nil] at hqueue
        exact htake hqueue

/-- The recorder without the first bytes of its queue. -/
def RecData.dropFront (n : ℕ) (s : RecData) : RecData :=
  if s.zeroAudLenInBuf ≠ 0 then
    { s with
      pre := s.pre.drop n
      zeroAudLenInBuf := .ofNat (s.zeroAudLenInBuf.toNat - (n - s.pre.length))
      post := s.post.drop (n - s.pre.length - s.zeroAudLenInBuf.toNat) }
  else { s with post := s.post.drop n, pre := s.pre.drop (n - s.post.length) }

theorem dropFront_zero (s : RecData) : s.dropFront 0 = s := by
  rw [RecData.dropFront]
  split
  · simp
  · simp

/-- Bytes that were asked for and are not there are not there the second time. -/
theorem drop_drop_missing {α : Type} (n : ℕ) (list : List α) :
    (list.drop n).drop (n - min n list.length) = list.drop n := by
  rcases Nat.le_total n list.length with hle | hle
  · rw [Nat.min_eq_left hle, Nat.sub_self, drop_zero]
  · rw [drop_of_length_le hle, drop_nil]

/-- What a round leaves is taken from next. -/
theorem dropFront_copyRound (need : ℕ) (s : RecData) :
    (copyRound need s).2.dropFront (need - (copyRound need s).1.length) = s.dropFront need := by
  have hfront := front_source s
  rw [copyRound]
  cases hsource : s.source with
  | pre =>
    rw [hsource] at hfront
    cases hfront with
    | pre hne hlater =>
      have hmissing : need - min need s.pre.length - (s.pre.length - need) = need - s.pre.length := by
        omega
      dsimp only
      by_cases hzero : s.zeroAudLenInBuf = 0
      · have hpost := hlater.resolve_left (not_not.mpr hzero)
        rw [RecData.dropFront, if_neg (not_not.mpr hzero), RecData.dropFront,
          if_neg (not_not.mpr hzero)]
        simp only [hpost, drop_nil, length_nil, Nat.sub_zero, length_take, drop_drop_missing]
      · rw [RecData.dropFront, if_pos hzero, RecData.dropFront, if_pos hzero]
        simp only [length_take, length_drop, drop_drop_missing, hmissing]
  | zeros =>
    rw [hsource] at hfront
    cases hfront with
    | zeros hpre hne =>
      dsimp only
      rw [sub_ofNat_min, length_replicate]
      rcases Nat.lt_or_ge need s.zeroAudLenInBuf.toNat with hmore | hless
      · have hnone : need - s.zeroAudLenInBuf.toNat = 0 := by omega
        rw [Nat.min_eq_left (Nat.le_of_lt hmore), Nat.sub_self, dropFront_zero, RecData.dropFront,
          if_pos hne]
        simp only [hpre, drop_nil, length_nil, Nat.sub_zero, hnone, drop_zero]
      · have hempty : UInt32.ofNat (s.zeroAudLenInBuf.toNat - need) = 0 := by
          rw [Nat.sub_eq_zero_of_le hless]
          rfl
        rw [RecData.dropFront, if_neg (not_not.mpr hempty), RecData.dropFront, if_pos hne]
        simp only [hpre, drop_nil, length_nil, Nat.sub_zero, hempty, Nat.min_eq_right hless]
  | post =>
    rw [hsource] at hfront
    cases hfront with
    | post hzero hne =>
      have hmissing : need - min need s.post.length - (s.post.length - need) =
          need - s.post.length := by
        omega
      dsimp only
      rw [RecData.dropFront, if_neg (not_not.mpr hzero), RecData.dropFront,
        if_neg (not_not.mpr hzero)]
      simp only [length_take, length_drop, drop_drop_missing, hmissing]

/-- The loop takes what it needs from the front of the queue, if that is there, and ends. -/
theorem copyLoop_eq_ok (hrounds : need ≤ rounds) (hneed : need ≤ s.queue.length) :
    copyLoop rounds need s = .ok (s.queue.take need, s.dropFront need) ∧
      (s.dropFront need).queue = s.queue.drop need := by
  -- Induction on the rounds: each takes at least one byte.
  induction rounds generalizing need s with
  | zero =>
    obtain rfl := Nat.le_zero.mp hrounds
    rw [dropFront_zero]
    exact ⟨rfl, rfl⟩
  | succ rounds ih =>
    cases need with
    | zero =>
      rw [dropFront_zero]
      exact ⟨rfl, rfl⟩
    | succ need =>
      have hqueue : s.queue ≠ [] := ne_nil_of_length_pos (by omega)
      have hsome : 0 < (copyRound (need + 1) s).1.length :=
        length_pos_iff.mpr (copyRound_ne_nil (Nat.succ_pos need) hqueue)
      have hmost := length_copyRound_le (need + 1) s
      have hsplit := queue_copyRound (need + 1) s
      have hlength := congrArg List.length hsplit
      rw [length_append] at hlength
      obtain ⟨hloop, hleft⟩ := @ih (copyRound (need + 1) s).2
        (need + 1 - (copyRound (need + 1) s).1.length) (by omega) (by omega)
      rw [dropFront_copyRound] at hloop hleft
      constructor
      · rw [copyLoop, hloop, ok_bind, ← hsplit, take_append, take_of_length_le hmost]
      · rw [hleft, ← hsplit, List.drop_append, drop_of_length_le hmost, nil_append]

/-- The zeros are taken before what follows them. -/
theorem settled_dropFront (hsettled : s.Settled) (n : ℕ) : (s.dropFront n).Settled := by
  rw [RecData.dropFront]
  split
  · rename_i hne
    intro hleft
    have hzeros : n - s.pre.length - s.zeroAudLenInBuf.toNat = 0 := by
      by_contra hpast
      have hused : s.zeroAudLenInBuf.toNat - (n - s.pre.length) = 0 := by omega
      exact hleft (by rw [hused]; rfl)
    simp only [hzeros, drop_zero]
    exact hsettled hne
  · rename_i hzero
    exact fun hne ↦ absurd hne hzero

/-- `GetAudioFromBuf` always ends. -/
theorem getAudioFromBuf_eq (len : UInt32) (s : RecData) :
    getAudioFromBuf len s = .ok (if s.totalBytesInBuf < len then (none, s)
      else (some (s.queue.take len.toNat), s.dropFront len.toNat)) := by
  rw [getAudioFromBuf]
  split
  · rfl
  · rename_i henough
    have hle : len.toNat ≤ s.queue.length := by
      rw [UInt32.not_lt, UInt32.le_iff_toNat_le, toNat_totalBytesInBuf] at henough
      exact henough.trans (Nat.mod_le _ _)
    rw [(copyLoop_eq_ok (Nat.le_refl _) hle).1]
    rfl

end Queue

/-! ### Runs of the recorder -/

/-- The calls of a recorder that is open. -/
inductive RecOp
  | setFrameSize (frameSize : UInt32)
  | read (input : Input)
deriving DecidableEq, Repr

/-- A call: the bytes that are given out, and the recorder after it. -/
def RecOp.perform (op : RecOp) (s : RecData) : Except Fault (Bytes × RecData) :=
  match op with
  | .setFrameSize frameSize => .ok ([], recSetFrameSize frameSize s)
  | .read input => (recRead input s).map Prod.snd

structure Recording where
  data : RecData
  given : Bytes

/-- A call that stays inside the buffers. -/
def Call (op : RecOp) (r r' : Recording) : Prop :=
  ∃ out, op.perform r.data = .ok (out, r'.data) ∧ r'.given = r.given ++ out

/-- The block that a call stores, with the state in which `PutAudioToBuf` is called. -/
def RecOp.puts (op : RecOp) (s : RecData) : Option (Bytes × RecData) :=
  match op with
  | .read (.block data frames) =>
    if (acceptBlock frames s).2 then some (data, (acceptBlock frames s).1) else none
  | _ => none

/-- The state in which a call comes to `GetAudioFromBuf`. -/
def RecOp.gets (op : RecOp) (s : RecData) : Option RecData :=
  match op with
  | .read .failed => if s.totalBytesInBuf < s.outFrameSize then none else some s
  | .read (.block data frames) => (receiveBlock data frames s).toOption
  | _ => none

/-- What the driver can return for a block size. -/
def RecOp.Fits (drvFrameSize : UInt32) : RecOp → Prop
  | .read (.block data _) => 0 < data.length ∧ data.length ≤ drvFrameSize.toNat
  | _ => True

/-- `GetAudioFromBuf` takes the first bytes of the queue exactly if there are enough of them. -/
def ReadsQueue (len : UInt32) (s : RecData) : Prop :=
  ∃ got s', getAudioFromBuf len s = .ok (got, s') ∧
    (got.isSome ↔ len.toNat ≤ s.queue.length) ∧
    (∀ out ∈ got, out = s.queue.take len.toNat ∧ s'.queue = s.queue.drop len.toNat) ∧
    (got = none → s' = s)

/-- A call uses the buffers as a queue. -/
structure RefinesQueue (op : RecOp) (s : RecData) : Prop where
  put : ∀ block ∈ op.puts s, ∀ s', putAudioToBuf block.1 block.2 = .ok s' →
    s'.queue = block.2.queue ++ block.1
  get : ∀ t ∈ op.gets s, ReadsQueue t.outFrameSize t

section Runs

variable {s s' : RecData} {op : RecOp} {data : Bytes} {frames : Int32} {len : UInt32}
  {r r' : Recording}

theorem readsQueue_iff :
    ReadsQueue len s ↔ s.queue.length < 2 ^ 32 ∨ len.toNat ≤ s.queue.length % 2 ^ 32 := by
  have hlen := len.toNat_lt
  have htotal := toNat_totalBytesInBuf s
  rw [ReadsQueue, getAudioFromBuf_eq]
  split
  · rename_i hless
    rw [UInt32.lt_iff_toNat_lt, htotal] at hless
    constructor
    · rintro ⟨got, s', hget, henough, -⟩
      cases hget
      have hshort : ¬len.toNat ≤ s.queue.length := fun hle ↦ absurd (henough.mpr hle) (by simp)
      exact .inl (by omega)
    · intro hsmall
      have hshort : ¬len.toNat ≤ s.queue.length := by omega
      refine ⟨none, s, rfl, ?_, ?_, fun _ ↦ rfl⟩
      · simp [hshort]
      · intro out hout
        cases hout
  · rename_i henough
    rw [UInt32.lt_iff_toNat_lt, htotal, not_lt] at henough
    have hle : len.toNat ≤ s.queue.length := henough.trans (Nat.mod_le _ _)
    refine iff_of_true ⟨_, _, rfl, ?_, ?_, ?_⟩ (.inr henough)
    · simp [hle]
    · intro out hout
      cases hout
      exact ⟨rfl, (copyLoop_eq_ok (Nat.le_refl _) hle).2⟩
    · intro hnone
      cases hnone

theorem getAudio_eq (s : RecData) :
    getAudio s = .ok (if s.totalBytesInBuf < s.outFrameSize then (.notReady, [], s)
      else (.none, s.queue.take s.outFrameSize.toNat, s.dropFront s.outFrameSize.toNat)) := by
  rw [getAudio, getAudioFromBuf_eq]
  split
  · rfl
  · rfl

/-- A failed read is answered from the buffers. -/
theorem recRead_failed (s : RecData) : recRead .failed s = getAudio s := by
  rw [recRead, getAudio_eq]
  split
  · rfl
  · rfl

theorem acceptBlock_same (frames : Int32) (s : RecData) :
    (acceptBlock frames s).1.pre = s.pre ∧ (acceptBlock frames s).1.post = s.post := by
  simp only [acceptBlock]
  split_ifs <;> exact ⟨rfl, rfl⟩

/-- After a block has been stored there are no zeros at the end of the queue. -/
theorem settled_putAudioToBuf (hput : putAudioToBuf data s = .ok s') (hdata : data ≠ []) :
    s'.Settled := by
  rw [putAudioToBuf] at hput
  split at hput
  · split at hput
    · cases hput
      intro _
      simp [hdata]
    · cases hput
  · rename_i hzero
    split at hput
    · cases hput
      exact fun hne ↦ absurd hne hzero
    · cases hput

theorem acceptBlock_of_not (hnot : (acceptBlock frames s).2 = false) :
    (acceptBlock frames s).1.zeroAudLenInBuf = s.zeroAudLenInBuf := by
  simp only [acceptBlock] at hnot ⊢
  split_ifs at hnot ⊢ <;> rfl

theorem settled_receiveBlock (hreceive : receiveBlock data frames s = .ok s') (hdata : data ≠ [])
    (hsettled : s.Settled) : s'.Settled := by
  rw [receiveBlock] at hreceive
  split at hreceive
  · exact settled_putAudioToBuf hreceive hdata
  · rename_i hnot
    cases hreceive
    rw [RecData.Settled, acceptBlock_of_not (Bool.not_eq_true _ ▸ hnot), (acceptBlock_same _ _).2]
    exact hsettled

def RecData.frame (s : RecData) : Bytes :=
  if s.totalBytesInBuf < s.outFrameSize then [] else s.queue.take s.outFrameSize.toNat

def RecData.afterGet (s : RecData) : RecData :=
  if s.totalBytesInBuf < s.outFrameSize then s else s.dropFront s.outFrameSize.toNat

theorem getAudio_map (s : RecData) : (getAudio s).map Prod.snd = .ok (s.frame, s.afterGet) := by
  rw [getAudio_eq, RecData.frame, RecData.afterGet]
  split
  · rfl
  · rfl

theorem settled_afterGet (hsettled : s.Settled) : s.afterGet.Settled := by
  rw [RecData.afterGet]
  split
  · exact hsettled
  · exact settled_dropFront hsettled _

/-- What is given out was at the front of the queue. -/
theorem frame_append_queue (s : RecData) : s.frame ++ s.afterGet.queue = s.queue := by
  rw [RecData.frame, RecData.afterGet]
  split
  · rfl
  · rename_i henough
    rw [UInt32.lt_iff_toNat_lt, toNat_totalBytesInBuf, not_lt] at henough
    have hle : s.outFrameSize.toNat ≤ s.queue.length := henough.trans (Nat.mod_le _ _)
    rw [(copyLoop_eq_ok (Nat.le_refl _) hle).2, take_append_drop]

/-- What a call does. -/
inductive Shape : RecOp → Recording → Recording → Prop
  | setFrameSize (frameSize : UInt32) (r : Recording) :
    Shape (.setFrameSize frameSize) r ⟨recSetFrameSize frameSize r.data, r.given⟩
  | notEnough (r : Recording) : Shape (.read .notEnough) r r
  | empty (r : Recording) : Shape (.read .empty) r r
  | failed (r : Recording) :
    Shape (.read .failed) r ⟨r.data.afterGet, r.given ++ r.data.frame⟩
  | block {data : Bytes} {frames : Int32} {r : Recording} {t : RecData}
      (hreceive : receiveBlock data frames r.data = .ok t) :
    Shape (.read (.block data frames)) r ⟨t.afterGet, r.given ++ t.frame⟩

theorem Call.shape (hcall : Call op r r') : Shape op r r' := by
  obtain ⟨data', given'⟩ := r'
  obtain ⟨out, hperform, rfl⟩ := hcall
  cases op with
  | setFrameSize frameSize =>
    cases hperform
    rw [append_nil]
    exact .setFrameSize frameSize r
  | read input =>
    rw [RecOp.perform] at hperform
    cases input with
    | notEnough =>
      cases hperform
      rw [append_nil]
      exact .notEnough r
    | empty =>
      cases hperform
      rw [append_nil]
      exact .empty r
    | failed =>
      rw [recRead_failed, getAudio_map] at hperform
      cases hperform
      exact .failed r
    | block data frames =>
      obtain ⟨result, hread, hresult⟩ := map_eq_ok_iff.mp hperform
      obtain ⟨t, hreceive, hget⟩ := bind_eq_ok_iff.mp hread
      have hmap := getAudio_map t
      rw [hget] at hmap
      cases hmap.symm.trans (congrArg Except.ok hresult)
      exact .block hreceive

theorem Shape.call (hshape : Shape op r r') : Call op r r' := by
  cases hshape with
  | setFrameSize frameSize => exact ⟨[], rfl, (append_nil _).symm⟩
  | notEnough => exact ⟨[], rfl, (append_nil _).symm⟩
  | empty => exact ⟨[], rfl, (append_nil _).symm⟩
  | failed =>
    refine ⟨r.data.frame, ?_, rfl⟩
    rw [RecOp.perform, recRead_failed, getAudio_map]
  | @block data frames r t hreceive =>
    refine ⟨t.frame, ?_, rfl⟩
    rw [RecOp.perform, recRead, hreceive, ok_bind, getAudio_map]

theorem settled_call (hcall : Call op r r') (hfits : op.Fits len) (hsettled : r.data.Settled) :
    r'.data.Settled := by
  cases hcall.shape with
  | setFrameSize frameSize => exact hsettled
  | notEnough => exact hsettled
  | empty => exact hsettled
  | failed => exact settled_afterGet hsettled
  | block hreceive =>
    exact settled_afterGet (settled_receiveBlock hreceive (ne_nil_of_length_pos hfits.1) hsettled)

end Runs

/-- Along every run that stays inside the buffers, the recorder is a queue that has zeros only
before later audio data, exactly if no number of queued bytes that is beyond 32 bits looks like less
than a frame when `GetAudioFromBuf` compares them. -/
theorem recorder_refines_queue_iff {sampleRate drvFrameSize : UInt32}
    {steps : List (RecOp × Recording)} {last : Recording}
    (hpath : Path Call ⟨recOpen sampleRate drvFrameSize, []⟩ steps last)
    (hfits : ∀ step ∈ steps, step.1.Fits drvFrameSize) :
    (Always (fun r : Recording ↦ r.data.Settled) steps last ∧
        ∀ step ∈ steps, RefinesQueue step.1 step.2.data) ↔
      ∀ step ∈ steps, ∀ t ∈ step.1.gets step.2.data,
        t.queue.length < 2 ^ 32 ∨ t.outFrameSize.toNat ≤ t.queue.length % 2 ^ 32 := by
  constructor
  · rintro ⟨-, hrefines⟩ step hmem t ht
    exact readsQueue_iff.mp ((hrefines step hmem).get t ht)
  · intro hsmall
    constructor
    · apply hpath.always_of_good (fun hcall hgood hsettled ↦ settled_call hcall hgood hsettled) hfits
      exact fun hne ↦ absurd rfl hne
    · intro step hmem
      refine ⟨fun block _ s' hput ↦ queue_putAudioToBuf hput, fun t ht ↦ ?_⟩
      exact readsQueue_iff.mpr (hsmall step hmem t ht)

/-- A recorder gets a block, and then one before which another was lost. -/
def gapSteps : List (RecOp × Recording) :=
  [(.read (.block [1, 2] 0), ⟨recOpen 2 2, []⟩),
    (.read (.block [3, 4] 2), ⟨{ recOpen 2 2 with prevFrames := 0 }, [1, 2]⟩)]

def gapLast : Recording :=
  ⟨{ recOpen 2 2 with prevFrames := 2, post := [3, 4], zeroAudLenInBuf := 4 }, [1, 2, 0, 0]⟩

theorem recorder_refines_queue_gap :
    Always (fun r : Recording ↦ r.data.Settled) gapSteps gapLast ∧
      ∀ step ∈ gapSteps, RefinesQueue step.1 step.2.data := by
  have hpath : Path Call ⟨recOpen 2 2, []⟩ gapSteps gapLast :=
    .cons ⟨[1, 2], by decide, rfl⟩ (.cons ⟨[0, 0], by decide, rfl⟩ (.nil _))
  have hfits : ∀ step ∈ gapSteps, step.1.Fits 2 := by
    simp [gapSteps, RecOp.Fits]
  have hsmall : ∀ step ∈ gapSteps, ∀ t ∈ step.1.gets step.2.data,
      t.queue.length < 2 ^ 32 ∨ t.outFrameSize.toNat ≤ t.queue.length % 2 ^ 32 := by
    decide
  exact (recorder_refines_queue_iff hpath hfits).mpr hsmall

/-- A block of samples that are not silent. -/
def loudBlock : Bytes := .replicate 8192 1

theorem length_loudBlock : loudBlock.length = 8192 := List.length_replicate

/-- The recorder after some blocks that have been given out. -/
def emptied (frames : Int32) : RecData := ⟨8192, frames, 16384, [], 16384, [], 0, 8192⟩

/-- The recorder when the next block has been stored three days after the first one. -/
def afterGap : RecData := ⟨8192, 524286, 16384, [], 16384, loudBlock, 4294959104, 8192⟩

/-- More than four billion bytes are there, but no frame is given out. -/
theorem long_gap_hides_audio :
    recSetFrameSize 8192 (recOpen 8000 8192) = emptied (-1) ∧
      RecOp.perform (.read (.block loudBlock 0)) (emptied (-1)) = .ok (loudBlock, emptied 0) ∧
      receiveBlock loudBlock 524286 (emptied 0) = .ok afterGap ∧
      getAudioFromBuf 8192 afterGap = .ok (none, afterGap) ∧ 8192 ≤ afterGap.queue.length := by
  have hreceive : receiveBlock loudBlock 0 (emptied (-1)) =
      .ok ⟨8192, 0, 16384, loudBlock, 16384, [], 0, 8192⟩ := by
    have haccept : acceptBlock 0 (emptied (-1)) = (emptied 0, true) := by decide
    rw [receiveBlock, haccept, if_pos rfl, putAudioToBuf, if_neg (by decide), if_pos]
    · rfl
    · rw [length_loudBlock]
      decide
  have hlength : afterGap.queue.length = 4294967296 := by
    rw [length_queue, afterGap]
    simp only [length_loudBlock]
    rfl
  refine ⟨by decide, ?_, ?_, ?_, ?_⟩
  · change ((receiveBlock loudBlock 0 (emptied (-1))) >>= getAudio).map Prod.snd = _
    rw [hreceive, ok_bind, getAudio_map, RecData.frame, RecData.afterGet, if_neg, if_neg]
    · simp [RecData.dropFront, queue_of_zero, length_loudBlock, emptied, take_of_length_le,
        drop_of_length_le]
    · simp only [RecData.totalBytesInBuf, length_loudBlock]
      decide
    · simp only [RecData.totalBytesInBuf, length_loudBlock]
      decide
  · have haccept : acceptBlock 524286 (emptied 0) =
        (⟨8192, 524286, 16384, [], 16384, [], 4294959104, 8192⟩, true) := by decide
    rw [receiveBlock, haccept, if_pos rfl, putAudioToBuf, if_pos (by decide), if_pos]
    · rfl
    · rw [length_loudBlock]
      decide
  · rw [getAudioFromBuf, if_pos]
    rw [UInt32.lt_iff_toNat_lt, toNat_totalBytesInBuf, hlength]
    decide
  · rw [hlength]
    decide

end WisCam.Audio
