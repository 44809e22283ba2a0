import Mathlib.Data.List.Count
import WisCam.Server.Rtsp

/-!
# Sockets of a UDP endpoint

`connect_udp_endpoint` (`rtp.c`) binds two sockets to a pair of ports of the configured range and
connects them to the client. The system is outside the model: a `Kernel` says what each system call
answers, and all calls are recorded in a log with their answers. A socket is named by the position
of the call that opened it, so that a descriptor which is handed out again is another socket.

Where it returns -1, the code closes what it has opened at some exits and not at others.
`descriptors_iff` says for which answers of the system a socket is left behind: all ports are in
use, or no other socket for RTP can be opened after the one for RTCP was.
-/

set_option autoImplicit false

namespace WisCam.Rtp

open Foundations Server List

/-! ### System calls -/

/-- What `bind` answers: the port is bound, `EADDRINUSE`, or another error. -/
inductive BindResult
  | bound
  | inUse
  | refused
deriving DecidableEq, Repr

/-- A system call with its answer; ports are those that go over the network. -/
inductive SysCall
  | socket (fd : Option ℕ)
  | bind (fd port : ℕ) (result : BindResult)
  | connect (fd port : ℕ) (ok : Bool)
  | getsockname (fd : ℕ) (ok : Bool)
  | close (fd : ℕ)
deriving DecidableEq, Repr

/-- What the system answers to the call at a position of the log. `getsockname` gives an address, as
`inet_ntoa` writes it, and a port. -/
structure Kernel where
  socket : ℕ → Bool
  bind : ℕ → ℕ → BindResult
  connect : ℕ → ℕ → Bool
  getsockname : ℕ → Option (Bytes × ℕ)

/-- The exits of `connect_udp_endpoint` with -1, one for each message. -/
inductive UdpFailure
  | rtpSocket
  | rtcpSocket
  | rtpBind
  | rtcpBind
  | outOfPorts
  | rtpConnect
  | rtcpConnect
  | sockName
deriving DecidableEq, Repr

/-- A part of `connect_udp_endpoint`. -/
abbrev Udp (α : Type) := Program UdpFailure (List SysCall) α

/-- Makes a call whose answer depends on its position. -/
def call {α : Type} (answer : ℕ → α) (record : α → SysCall) : Udp α :=
  fun log ↦ (.ok (answer log.length), log ++ [record (answer log.length)])

def sysSocket (kernel : Kernel) : Udp (Option ℕ) :=
  call (fun position ↦ if kernel.socket position then some position else none) .socket

def sysBind (kernel : Kernel) (fd port : ℕ) : Udp BindResult :=
  call (fun position ↦ kernel.bind position port) (.bind fd port)

def sysConnect (kernel : Kernel) (fd port : ℕ) : Udp Bool :=
  call (fun position ↦ kernel.connect position port) (.connect fd port)

def sysGetsockname (kernel : Kernel) (fd : ℕ) : Udp (Option (Bytes × ℕ)) :=
  call kernel.getsockname fun answer ↦ .getsockname fd answer.isSome

def sysClose (fd : ℕ) : Udp Unit := call (fun _ ↦ ()) fun _ ↦ .close fd

/-! ### The endpoint -/

/-- `rtp_port_start` and `rtp_port_end`. -/
structure PortRange where
  start : ℤ
  stop : ℤ
  start_even : start % 2 = 0
  wide : 8 ≤ stop - start + 1

theorem default_wide : (8 : ℤ) ≤ 60000 - 50000 + 1 := by decide

/-- The range that is compiled in. -/
def defaultRange : PortRange := ⟨50000, 60000, rfl, default_wide⟩

/-- The next even number. -/
def roundUp (value : ℤ) : ℤ := if value % 2 = 1 then value + 1 else value

theorem roundUp_even (value : ℤ) : roundUp value % 2 = 0 := by
  rw [roundUp]
  split
  · omega
  · omega

/-- The odd number before. -/
def roundDown (value : ℤ) : ℤ := if value % 2 = 0 then value - 1 else value

/-- `config_rtprange` with the two numbers of the directive, or `none` where it ends the program. -/
def configRtprange (first last : ℤ) : Option PortRange :=
  if hwide : 8 ≤ roundDown last - roundUp first + 1 then
    some ⟨roundUp first, roundDown last, roundUp_even first, hwide⟩
  else none

/-- `htons`: the lower 16 bits. -/
def htons (value : ℤ) : ℕ := (value % 65536).toNat

/-- What a UDP endpoint records, with the port in `our_port`. -/
structure UdpTransport where
  rtpFd : ℕ
  rtcpFd : ℕ
  sdpAddr : Bytes
  sdpPort : ℕ
  ourPort : ℤ
deriving DecidableEq, Repr

/-- The end of a round of the search for ports. -/
inductive Try
  | again (rtpfd rtcpfd : Option ℕ)
  | found (rtpfd rtcpfd : ℕ)

/-- The socket in a variable, or a new one if there is none. -/
def needSocket (kernel : Kernel) : Option ℕ → Udp (Option ℕ)
  | some fd => pure (some fd)
  | none => sysSocket kernel

/-- Closes both sockets and returns -1. -/
def closeBoth {α : Type} (rtpfd rtcpfd : ℕ) (failure : UdpFailure) : Udp α := do
  sysClose rtpfd
  sysClose rtcpfd
  .fault failure

/-- Binds the two sockets to `port` and the next one. -/
def bindPorts (kernel : Kernel) (port : ℤ) (rtpfd rtcpfd : ℕ) : Udp Try := do
  match ← sysBind kernel rtpfd (htons port) with
  | .inUse => return .again (some rtpfd) (some rtcpfd)
  | .refused => closeBoth rtpfd rtcpfd .rtpBind
  | .bound => do
    match ← sysBind kernel rtcpfd (htons (port + 1)) with
    | .inUse => do
      -- a bound socket cannot be bound again
      sysClose rtpfd
      return .again none (some rtcpfd)
    | .refused => closeBoth rtpfd rtcpfd .rtcpBind
    | .bound => return .found rtpfd rtcpfd

/-- One round of the search, at `port`. -/
def tryPort (kernel : Kernel) (port : ℤ) (rtpfd rtcpfd : Option ℕ) : Udp Try := do
  match ← needSocket kernel rtpfd with
  | none => .fault .rtpSocket
  | some rtpfd => do
    match ← needSocket kernel rtcpfd with
    | none => do
      sysClose rtpfd
      .fault .rtcpSocket
    | some rtcpfd => bindPorts kernel port rtpfd rtcpfd

/-- The port of a round: back to the start of the range if the pair would not end in it. -/
def PortRange.wrap (range : PortRange) (port : ℤ) : ℤ :=
  if port + 1 > range.stop then range.start else port

/-- The loop over the ports. -/
def searchPorts (kernel : Kernel) (range : PortRange) :
    ℕ → ℤ → Option ℕ → Option ℕ → Udp (ℤ × ℕ × ℕ)
  | 0, _, _, _ => .fault .outOfPorts
  | tries + 1, port, rtpfd, rtcpfd => do
    match ← tryPort kernel (range.wrap port) rtpfd rtcpfd with
    | .again rtpfd rtcpfd => searchPorts kernel range tries (range.wrap port + 2) rtpfd rtcpfd
    | .found rtpfd rtcpfd => return (range.wrap port, rtpfd, rtcpfd)

/-- The port at which the search starts, for a value of `random`. -/
def PortRange.first (range : PortRange) (random : ℕ) : ℤ :=
  roundUp (range.start + random % (range.stop - range.start))

/-- `max_tries`. -/
def PortRange.maxTries (range : PortRange) : ℕ := ((range.stop - range.start + 1) / 2).toNat

/-- Connects the two sockets to the client and records them. -/
def connectSockets (kernel : Kernel) (destPort port : ℤ) (rtpfd rtcpfd : ℕ) : Udp UdpTransport := do
  if ← sysConnect kernel rtpfd (htons destPort) then
    if ← sysConnect kernel rtcpfd (htons (wrapInt (destPort + 1))) then
      match ← sysGetsockname kernel rtpfd with
      | none => closeBoth rtpfd rtcpfd .sockName
      | some (addr, sdpPort) => return ⟨rtpfd, rtcpfd, ascii "IP4 " ++ addr, sdpPort, port⟩
    else closeBoth rtpfd rtcpfd .rtcpConnect
  else closeBoth rtpfd rtcpfd .rtpConnect

def connectUdp (kernel : Kernel) (range : PortRange) (random : ℕ) (destPort : ℤ) :
    Udp UdpTransport := do
  let (port, rtpfd, rtcpfd) ← searchPorts kernel range range.maxTries (range.first random) none none
  connectSockets kernel destPort port rtpfd rtcpfd

/-! ### Answers that let the search end well -/

/-- A socket is there, or the system opens one at this position. -/
def Kernel.Opens (kernel : Kernel) (position : ℕ) (there : Bool) : Prop :=
  there = true ∨ kernel.socket position = true

instance (kernel : Kernel) (position : ℕ) (there : Bool) : Decidable (kernel.Opens position there) :=
  instDecidableOr

/-- The position behind a call that opens a socket, if one is made. -/
def afterSocket (position : ℕ) (there : Bool) : ℕ := if there then position else position + 1

/-- What the answers to `bind` mean for a round: it is the last one, or the next one begins at this
position, with or without the socket for RTP. -/
def Kernel.bindAnswers (kernel : Kernel) (port : ℤ) (position : ℕ) : Option (ℕ × Bool) :=
  match kernel.bind position (htons port) with
  | .inUse => some (position + 1, true)
  | .refused => none
  | .bound =>
    match kernel.bind (position + 1) (htons (port + 1)) with
    | .inUse => some (position + 3, false)
    | .refused | .bound => none

/-- From a round at this position on, with or without the sockets for RTP and RTCP: a port is found
or refused before all have been tried, and the system opens a socket for RTP wherever one is needed
while that for RTCP is there. -/
def EndsWell (kernel : Kernel) (range : PortRange) : ℕ → ℤ → ℕ → Bool → Bool → Prop
  | 0, _, _, _, hasRtcp => hasRtcp = false
  | tries + 1, port, position, hasRtp, hasRtcp =>
    if kernel.Opens position hasRtp then
      if kernel.Opens (afterSocket position hasRtp) hasRtcp then
        match kernel.bindAnswers (range.wrap port)
          (afterSocket (afterSocket position hasRtp) hasRtcp) with
        | none => True
        | some (position, hasRtp) =>
          EndsWell kernel range tries (range.wrap port + 2) position hasRtp true
      else True
    else hasRtcp = false

/-! ### Open sockets -/

/-- The sockets that were opened. -/
def opened (log : List SysCall) : List ℕ :=
  log.filterMap fun
    | .socket fd => fd
    | _ => none

/-- The sockets that were closed, once for each time. -/
def closed (log : List SysCall) : List ℕ :=
  log.filterMap fun
    | .close fd => some fd
    | _ => none

/-- Exactly the sockets in `live` are open, and the others were closed once. -/
structure Holds (log : List SysCall) (live : List ℕ) : Prop where
  perm : (opened log).Perm (closed log ++ live)
  nodup : (opened log).Nodup
  below : ∀ fd ∈ opened log, fd < log.length

/-- A call that neither opens nor closes a socket. -/
def SysCall.Neutral (call : SysCall) : Prop := opened [call] = [] ∧ closed [call] = []

theorem neutral_connect (fd port : ℕ) (ok : Bool) : (SysCall.connect fd port ok).Neutral := ⟨rfl, rfl⟩

theorem neutral_getsockname (fd : ℕ) (ok : Bool) : (SysCall.getsockname fd ok).Neutral := ⟨rfl, rfl⟩

theorem opened_append (log later : List SysCall) :
    opened (log ++ later) = opened log ++ opened later :=
  filterMap_append

theorem closed_append (log later : List SysCall) :
    closed (log ++ later) = closed log ++ closed later :=
  filterMap_append

variable {kernel : Kernel} {range : PortRange} {log : List SysCall} {live : List ℕ} {fd : ℕ}

theorem holds_nil : Holds [] [] := by
  constructor
  · exact List.Perm.refl []
  · exact nodup_nil
  · intro fd hfd
    cases hfd

theorem Holds.neutral (hholds : Holds log live) {call : SysCall} (hcall : call.Neutral) :
    Holds (log ++ [call]) live := by
  obtain ⟨hopened, hclosed⟩ := hcall
  constructor
  · rw [opened_append, closed_append, hopened, hclosed, append_nil, append_nil]
    exact hholds.perm
  · rw [opened_append, hopened, append_nil]
    exact hholds.nodup
  · intro fd hfd
    rw [opened_append, hopened, append_nil] at hfd
    rw [length_append]
    exact Nat.lt_add_right _ (hholds.below fd hfd)

theorem Holds.socket (hholds : Holds log live) :
    Holds (log ++ [.socket (some log.length)]) (live ++ [log.length]) := by
  have hopened : opened (log ++ [.socket (some log.length)]) = opened log ++ [log.length] :=
    opened_append log _
  have hclosed : closed (log ++ [.socket (some log.length)]) = closed log := by
    rw [closed_append]
    exact append_nil _
  constructor
  · rw [hopened, hclosed, ← append_assoc]
    exact hholds.perm.append_right _
  · rw [hopened]
    apply List.Nodup.append hholds.nodup (nodup_singleton _)
    intro fd hfd hlast
    rw [mem_singleton] at hlast
    exact absurd (hholds.below fd hfd) (by omega)
  · intro fd hfd
    rw [hopened, mem_append, mem_singleton] at hfd
    rw [length_append, length_singleton]
    rcases hfd with hfd | rfl
    · exact Nat.lt_succ_of_lt (hholds.below fd hfd)
    · exact Nat.lt_succ_self _

theorem Holds.close (hholds : Holds log (fd :: live)) : Holds (log ++ [.close fd]) live := by
  have hopened : opened (log ++ [.close fd]) = opened log := by
    rw [opened_append]
    exact append_nil _
  have hclosed : closed (log ++ [.close fd]) = closed log ++ [fd] := closed_append log _
  constructor
  · rw [hopened, hclosed, append_assoc]
    exact hholds.perm
  · rw [hopened]
    exact hholds.nodup
  · intro fd' hfd'
    rw [hopened] at hfd'
    rw [length_append]
    exact Nat.lt_add_right _ (hholds.below fd' hfd')

theorem Holds.mem_opened (hholds : Holds log live) :
    fd ∈ opened log ↔ fd ∈ closed log ∨ fd ∈ live := by
  rw [hholds.perm.mem_iff, mem_append]

theorem Holds.disjoint (hholds : Holds log live) (hfd : fd ∈ live) : fd ∉ closed log := by
  have hnodup := hholds.perm.nodup_iff.mp hholds.nodup
  exact fun hclosed ↦ (nodup_append.mp hnodup).2.2 fd hclosed fd hfd rfl

theorem Holds.count_closed (hholds : Holds log live) (hfd : fd ∈ opened log) (hlive : fd ∉ live) :
    (closed log).count fd = 1 := by
  have hcount := hholds.perm.count_eq fd
  rw [count_append, count_eq_zero_of_not_mem hlive, count_eq_one_of_mem hholds.nodup hfd] at hcount
  omega

theorem Holds.reorder {live' : List ℕ} (hholds : Holds log live) (hperm : live.Perm live') :
    Holds log live' :=
  ⟨hholds.perm.trans (hperm.append_left _), hholds.nodup, hholds.below⟩

/-! ### The outcomes of the parts -/

/-- A socket was bound to a port. -/
def BoundTo (log : List SysCall) (fd port : ℕ) : Prop := SysCall.bind fd port .bound ∈ log

/-- A socket was connected to a port of the client. -/
def ConnectedTo (log : List SysCall) (fd port : ℕ) : Prop := SysCall.connect fd port true ∈ log

variable {rtcpfd : ℕ} {failure : UdpFailure}

section Outcomes

variable {α : Type} {Q : α → List SysCall → Prop} {E : UdpFailure → List SysCall → Prop}

theorem yields_call {answer : ℕ → α} {record : α → SysCall}
    (hpost : Q (answer log.length) (log ++ [record (answer log.length)])) :
    Program.Yields (call answer record) log Q E := hpost

theorem yields_needSocket {socket : Option ℕ} (hholds : Holds log (socket.toList ++ live)) :
    Program.Yields (needSocket kernel socket) log
      (fun answer log' ↦ match answer with
        | some fd => kernel.Opens log.length socket.isSome ∧
            log'.length = afterSocket log.length socket.isSome ∧ Holds log' (fd :: live)
        | none => ¬kernel.Opens log.length socket.isSome ∧ socket = none ∧ Holds log' live) E := by
  cases socket with
  | some fd => exact ⟨.inl rfl, rfl, hholds⟩
  | none =>
    rw [needSocket, sysSocket]
    apply yields_call
    by_cases hanswer : kernel.socket log.length = true
    · rw [if_pos hanswer]
      exact ⟨.inr hanswer, length_append, hholds.socket.reorder perm_append_comm⟩
    · rw [if_neg hanswer]
      refine ⟨?_, rfl, hholds.neutral ⟨rfl, rfl⟩⟩
      rintro (h | h)
      · cases h
      · exact hanswer h

theorem yields_closeBoth {rtpfd : ℕ} (hholds : Holds log [rtpfd, rtcpfd])
    (hfault : ∀ {log'}, Holds log' [] → E failure log') :
    Program.Yields (closeBoth rtpfd rtcpfd failure) log Q E := by
  apply Program.yields_bind
  apply yields_call
  apply Program.yields_bind
  apply yields_call
  apply Program.yields_fault
  exact hfault hholds.close.close

end Outcomes

/-- What an exit with -1 leaves behind: nothing where the search ends well, and a socket
otherwise. -/
def Leaves (ends : Prop) (_ : UdpFailure) (log : List SysCall) : Prop :=
  ends ∧ Holds log [] ∨ ¬ends ∧ ∃ fd live, Holds log (fd :: live)

variable {port : ℤ}

/-- What holds after the calls of `bind` in a round that does not return. -/
def AfterBind (kernel : Kernel) (port : ℤ) (position rtcpfd : ℕ) (outcome : Try)
    (log : List SysCall) : Prop :=
  match outcome with
  | .again rtp rtcp => rtcp = some rtcpfd ∧ Holds log (rtp.toList ++ [rtcpfd]) ∧
      kernel.bindAnswers port position = some (log.length, rtp.isSome)
  | .found rtp rtcp => kernel.bindAnswers port position = none ∧ Holds log [rtp, rtcp] ∧
      BoundTo log rtp (htons port) ∧ BoundTo log rtcp (htons (port + 1))

theorem yields_bindPorts {rtpfd : ℕ} (hholds : Holds log [rtpfd, rtcpfd]) :
    Program.Yields (bindPorts kernel port rtpfd rtcpfd) log
      (AfterBind kernel port log.length rtcpfd)
      fun _ log' ↦ kernel.bindAnswers port log.length = none ∧ Holds log' [] := by
  unfold AfterBind Kernel.bindAnswers
  apply Program.yields_bind
  apply yields_call
  generalize kernel.bind log.length (htons port) = rtpResult
  have hfirst : Holds (log ++ [.bind rtpfd (htons port) rtpResult]) [rtpfd, rtcpfd] :=
    hholds.neutral ⟨rfl, rfl⟩
  cases rtpResult with
  | inUse =>
    refine Program.yields_pure ⟨rfl, hfirst, ?_⟩
    rw [length_append]
    rfl
  | refused => exact yields_closeBoth hfirst fun h ↦ ⟨rfl, h⟩
  | bound =>
    apply Program.yields_bind
    apply yields_call
    rw [show (log ++ [SysCall.bind rtpfd (htons port) .bound]).length = log.length + 1 from
      length_append]
    generalize kernel.bind (log.length + 1) (htons (port + 1)) = rtcpResult
    have hsecond : Holds (log ++ [.bind rtpfd (htons port) .bound] ++
        [.bind rtcpfd (htons (port + 1)) rtcpResult]) [rtpfd, rtcpfd] := hfirst.neutral ⟨rfl, rfl⟩
    cases rtcpResult with
    | inUse =>
      apply Program.yields_bind
      apply yields_call
      refine Program.yields_pure ⟨rfl, hsecond.close, ?_⟩
      simp only [length_append, length_singleton, Option.isSome_none]
    | refused => exact yields_closeBoth hsecond fun h ↦ ⟨rfl, h⟩
    | bound =>
      refine Program.yields_pure ⟨rfl, hsecond, ?_, ?_⟩
      · simp [BoundTo]
      · simp [BoundTo]

/-- What holds when the search has found a pair of ports: the two sockets are bound to them, and
they lie in the range. -/
structure Found (range : PortRange) (found : ℤ × ℕ × ℕ) (log : List SysCall) : Prop where
  holds : Holds log [found.2.1, found.2.2]
  rtp : BoundTo log found.2.1 (htons found.1)
  rtcp : BoundTo log found.2.2 (htons (found.1 + 1))
  low : range.start ≤ found.1
  high : found.1 + 1 ≤ range.stop

theorem PortRange.wrap_bounds (hport : range.start ≤ port) :
    range.start ≤ range.wrap port ∧ range.wrap port + 1 ≤ range.stop := by
  have hwide := range.wide
  rw [PortRange.wrap]
  split
  · omega
  · omega

theorem yields_searchPorts {tries : ℕ} {rtpfd rtcpfd : Option ℕ}
    (hholds : Holds log (rtpfd.toList ++ rtcpfd.toList)) (hfirst : rtcpfd = none → rtpfd = none)
    (hport : range.start ≤ port) :
    Program.Yields (searchPorts kernel range tries port rtpfd rtcpfd) log
      (fun found log' ↦ EndsWell kernel range tries port log.length rtpfd.isSome rtcpfd.isSome ∧
        Found range found log')
      (Leaves (EndsWell kernel range tries port log.length rtpfd.isSome rtcpfd.isSome)) := by
  induction tries generalizing log port rtpfd rtcpfd with
  | zero =>
    apply Program.yields_fault
    cases rtcpfd with
    | none =>
      rw [hfirst rfl] at hholds
      exact .inl ⟨rfl, hholds⟩
    | some rtcp =>
      -- the ports have run out, and the socket for RTCP is still open
      refine .inr ⟨nofun, rtcp, rtpfd.toList, ?_⟩
      exact hholds.reorder (perm_append_singleton rtcp rtpfd.toList)
  | succ tries ih =>
    obtain ⟨hlow, hhigh⟩ := PortRange.wrap_bounds hport
    rw [EndsWell]
    apply Program.yields_bind
    apply Program.yields_bind
    refine (yields_needSocket hholds (E := Leaves _)).imp ?_ id
    intro answer log₁ hrtp
    cases answer with
    | none =>
      obtain ⟨hfails, rfl, hrtp⟩ := hrtp
      rw [if_neg hfails]
      apply Program.yields_fault
      cases rtcpfd with
      | none => exact .inl ⟨rfl, hrtp⟩
      | some rtcp => exact .inr ⟨nofun, rtcp, [], hrtp⟩
    | some rtp =>
      obtain ⟨hopens, hlength, hrtp⟩ := hrtp
      rw [if_pos hopens, ← hlength]
      apply Program.yields_bind
      have hboth : Holds log₁ (rtcpfd.toList ++ [rtp]) :=
        hrtp.reorder (perm_append_singleton rtp rtcpfd.toList).symm
      refine (yields_needSocket hboth (E := Leaves _)).imp ?_ id
      intro answer log₂ hrtcp
      cases answer with
      | none =>
        obtain ⟨hfails, -, hrtcp⟩ := hrtcp
        rw [if_neg hfails]
        apply Program.yields_bind
        apply yields_call
        exact Program.yields_fault (.inl ⟨trivial, hrtcp.close⟩)
      | some rtcp =>
        obtain ⟨hopens, hlength, hrtcp⟩ := hrtcp
        rw [if_pos hopens, ← hlength]
        refine (yields_bindPorts (hrtcp.reorder (List.Perm.swap rtp rtcp []))).imp ?_ ?_
        · intro outcome log' hafter
          cases outcome with
          | again rtpfd' rtcpfd' =>
            obtain ⟨rfl, hholds, hanswers⟩ := hafter
            rw [hanswers]
            exact ih hholds nofun (by omega)
          | found rtp rtcp =>
            obtain ⟨hanswers, hholds, hrtp, hrtcp⟩ := hafter
            rw [hanswers]
            exact Program.yields_pure ⟨trivial, hholds, hrtp, hrtcp, hlow, hhigh⟩
        · rintro failure log' ⟨hanswers, hholds⟩
          rw [hanswers]
          exact .inl ⟨trivial, hholds⟩

theorem PortRange.le_first (range : PortRange) (random : ℕ) : range.start ≤ range.first random := by
  have hwide := range.wide
  have hstep := Int.emod_nonneg (random : ℤ) (b := range.stop - range.start) (by omega)
  rw [PortRange.first, roundUp]
  split
  · omega
  · omega

/-- What holds of an endpoint whose sockets are connected to `destPort` and the next port. -/
structure Connected (range : PortRange) (destPort : ℤ) (udp : UdpTransport) (log : List SysCall) :
    Prop where
  found : Found range (udp.ourPort, udp.rtpFd, udp.rtcpFd) log
  rtp : ConnectedTo log udp.rtpFd (htons destPort)
  rtcp : ConnectedTo log udp.rtcpFd (htons (wrapInt (destPort + 1)))

theorem Found.neutral {found : ℤ × ℕ × ℕ} {call : SysCall} (hfound : Found range found log)
    (hcall : call.Neutral) : Found range found (log ++ [call]) where
  holds := hfound.holds.neutral hcall
  rtp := mem_append_left _ hfound.rtp
  rtcp := mem_append_left _ hfound.rtcp
  low := hfound.low
  high := hfound.high

theorem yields_connectSockets {destPort : ℤ} {rtpfd : ℕ}
    (hfound : Found range (port, rtpfd, rtcpfd) log) :
    Program.Yields (connectSockets kernel destPort port rtpfd rtcpfd) log
      (Connected range destPort) fun _ log' ↦ Holds log' [] := by
  apply Program.yields_bind
  apply yields_call
  generalize hrtp : kernel.connect log.length (htons destPort) = rtpOk
  have hfirst := hfound.neutral (neutral_connect rtpfd (htons destPort) rtpOk)
  cases rtpOk with
  | false => exact yields_closeBoth hfirst.holds id
  | true =>
    apply Program.yields_bind
    apply yields_call
    generalize hrtcp : kernel.connect _ (htons (wrapInt (destPort + 1))) = rtcpOk
    have hsecond := hfirst.neutral (neutral_connect rtcpfd (htons (wrapInt (destPort + 1))) rtcpOk)
    cases rtcpOk with
    | false => exact yields_closeBoth hsecond.holds id
    | true =>
      apply Program.yields_bind
      apply yields_call
      generalize kernel.getsockname _ = name
      have hthird := hsecond.neutral (neutral_getsockname rtpfd name.isSome)
      cases name with
      | none => exact yields_closeBoth hthird.holds id
      | some name =>
        refine Program.yields_pure ⟨hthird, ?_, ?_⟩
        · simp [ConnectedTo]
        · simp [ConnectedTo]

theorem yields_connectUdp (kernel : Kernel) (range : PortRange) (random : ℕ) (destPort : ℤ) :
    Program.Yields (connectUdp kernel range random destPort) []
      (fun udp log ↦ EndsWell kernel range range.maxTries (range.first random) 0 false false ∧
        Connected range destPort udp log)
      (Leaves (EndsWell kernel range range.maxTries (range.first random) 0 false false)) := by
  have hnone : Holds [] ((none : Option ℕ).toList ++ (none : Option ℕ).toList) := holds_nil
  apply Program.yields_bind
  refine (yields_searchPorts hnone (fun _ ↦ rfl) (range.le_first random)).imp ?_ id
  rintro ⟨port, rtpfd, rtcpfd⟩ log ⟨hends, hfound⟩
  exact (yields_connectSockets hfound).imp (fun h ↦ ⟨hends, h⟩) fun h ↦ .inl ⟨hends, h⟩

/-! ### Descriptors that are left behind -/

/-- The sockets after `connect_udp_endpoint`: at an exit with -1 every socket was closed exactly
once, otherwise exactly the two that the endpoint records are open. -/
def Tidy (result : Except UdpFailure UdpTransport) (log : List SysCall) : Prop :=
  match result with
  | .error _ => ∀ fd ∈ opened log, (closed log).count fd = 1
  | .ok udp => udp.rtpFd ≠ udp.rtcpFd ∧
      (∀ fd, fd ∈ opened log ∧ fd ∉ closed log ↔ fd = udp.rtpFd ∨ fd = udp.rtcpFd) ∧
      ∀ fd ∈ closed log, (closed log).count fd = 1

theorem tidy_ok {udp : UdpTransport} (hholds : Holds log [udp.rtpFd, udp.rtcpFd]) :
    Tidy (.ok udp) log := by
  have hnodup := hholds.perm.nodup_iff.mp hholds.nodup
  have hlive (fd : ℕ) : fd ∈ [udp.rtpFd, udp.rtcpFd] ↔ fd = udp.rtpFd ∨ fd = udp.rtcpFd := by simp
  refine ⟨?_, ?_, ?_⟩
  · intro hsame
    rw [hsame] at hnodup
    exact absurd (nodup_append.mp hnodup).2.1 (by simp)
  · intro fd
    rw [hholds.mem_opened, ← hlive]
    constructor
    · rintro ⟨hclosed | hfd, hopen⟩
      · exact absurd hclosed hopen
      · exact hfd
    · intro hfd
      exact ⟨Or.inr hfd, hholds.disjoint hfd⟩
  · intro fd hfd
    apply hholds.count_closed (hholds.mem_opened.mpr (Or.inl hfd))
    intro hlive
    exact hholds.disjoint hlive hfd

theorem not_tidy (hholds : Holds log (fd :: live)) : ¬Tidy (.error failure) log := by
  intro htidy
  have hopen : fd ∈ fd :: live := mem_cons_self
  have hcount := htidy fd (hholds.mem_opened.mpr (Or.inr hopen))
  rw [count_eq_zero_of_not_mem (hholds.disjoint hopen)] at hcount
  omega

theorem tidy_error (hholds : Holds log []) : Tidy (.error failure) log := by
  intro fd hfd
  exact hholds.count_closed hfd not_mem_nil

/-- No descriptor is left behind if and only if the answers of the system let the search for ports
end well. -/
theorem descriptors_iff (kernel : Kernel) (range : PortRange) (random : ℕ) (destPort : ℤ) :
    Tidy (connectUdp kernel range random destPort []).1
        (connectUdp kernel range random destPort []).2 ↔
      EndsWell kernel range range.maxTries (range.first random) 0 false false := by
  have hyields := yields_connectUdp kernel range random destPort
  rcases hrun : connectUdp kernel range random destPort [] with ⟨result, log⟩
  cases result with
  | ok udp =>
    obtain ⟨hends, hconnected⟩ := hyields.of_ok hrun
    exact iff_of_true (tidy_ok hconnected.found.holds) hends
  | error failure =>
    rcases hyields.of_error hrun with ⟨hends, hholds⟩ | ⟨hends, fd, live, hholds⟩
    · exact iff_of_true (tidy_error hholds) hends
    · exact iff_of_false (not_tidy hholds) hends

theorem eight_wide : (8 : ℤ) ≤ 9 - 2 + 1 := by decide

/-- The range of the directive `rtprange 2 9`. -/
def eightPorts : PortRange := ⟨2, 9, rfl, eight_wide⟩

/-- A system in which every port is in use. -/
def busyKernel : Kernel := ⟨fun _ ↦ true, fun _ _ ↦ .inUse, fun _ _ ↦ true, fun _ ↦ none⟩

/-- A system in which the port 3 is in use, and which opens two sockets only. -/
def tightKernel : Kernel :=
  ⟨fun position ↦ position < 4, fun _ port ↦ if port = 3 then .inUse else .bound, fun _ _ ↦ true,
    fun _ ↦ none⟩

/-- The calls of `connect_udp_endpoint` when every port is in use. -/
def busyLog : List SysCall :=
  [.socket (some 0), .socket (some 1), .bind 0 2 .inUse, .bind 0 4 .inUse, .bind 0 6 .inUse,
    .bind 0 8 .inUse]

/-- The calls of `connect_udp_endpoint` when no other socket can be opened for RTP. -/
def tightLog : List SysCall :=
  [.socket (some 0), .socket (some 1), .bind 0 2 .bound, .bind 1 3 .inUse, .close 0, .socket none]

/-- When the ports have run out, both sockets stay open. When the first RTCP port is in use and no
other socket can be opened for RTP, the socket for RTCP stays open. -/
theorem sockets_left_behind :
    (connectUdp busyKernel eightPorts 0 4588 [] = (.error .outOfPorts, busyLog) ∧
        ¬Tidy (.error .outOfPorts) busyLog) ∧
      connectUdp tightKernel eightPorts 0 4588 [] = (.error .rtpSocket, tightLog) ∧
        ¬Tidy (.error .rtpSocket) tightLog := by
  refine ⟨⟨by decide +kernel, ?_⟩, by decide +kernel, ?_⟩
  · intro htidy
    exact absurd (htidy 0 (by decide)) (by decide)
  · intro htidy
    exact absurd (htidy 1 (by decide)) (by decide)

end WisCam.Rtp
