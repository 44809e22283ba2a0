import Mathlib.Data.Fintype.EquivFin
import Mathlib.Data.Nat.ModEq
import WisCam.Rtp.UdpEndpoint

/-!
# The search for a pair of ports

The search of `connect_udp_endpoint` starts at a random even port, goes up in steps of two and wraps
around at the end of the range. `visit` says where it is in each round: the pairs of the range are
numbered, and the round `j` looks at the pair whose number is `j` after the first one, modulo the
number of pairs. Since there are as many rounds as pairs, every pair is looked at exactly once.

`udp_ports_iff` is the result for a fixed set of occupied ports: the search succeeds if and only if
a pair of the range is free, uses such a pair, and tries no port twice.
-/

set_option autoImplicit false

namespace WisCam.Rtp

open Foundations Server List

/-! ### The order of the rounds -/

/-- The number of the pair at which the search starts. The number of all pairs stands for the port
that is no longer the first of a pair in the range. -/
def PortRange.offset (range : PortRange) (random : ℕ) : ℕ :=
  ((range.first random - range.start) / 2).toNat

/-- The port of a round. -/
def PortRange.visit (range : PortRange) (random round : ℕ) : ℤ :=
  range.start + 2 * ((range.offset random + round) % range.maxTries : ℕ)

variable {round : ℕ} {port : ℤ}

section Order

variable (range : PortRange) (random : ℕ)

theorem PortRange.pairs_bounds :
    2 * (range.maxTries : ℤ) ≤ range.stop - range.start + 1 ∧
      range.stop - range.start ≤ 2 * (range.maxTries : ℤ) := by
  have hwide := range.wide
  rw [PortRange.maxTries]
  omega

theorem PortRange.first_eq :
    range.first random = range.start + 2 * (range.offset random : ℤ) ∧
      range.offset random ≤ range.maxTries := by
  have hwide := range.wide
  have heven := range.start_even
  have hpairs := range.pairs_bounds
  have hpos : 0 < range.stop - range.start := by omega
  have hlow := Int.emod_nonneg (random : ℤ) (ne_of_gt hpos)
  have hhigh := Int.emod_lt_of_pos (random : ℤ) hpos
  rw [PortRange.offset, PortRange.first, roundUp]
  generalize (random : ℤ) % (range.stop - range.start) = step at hlow hhigh
  split
  · omega
  · omega

theorem PortRange.wrap_pair {number : ℕ} (hnumber : number < range.maxTries) :
    range.wrap (range.start + 2 * (number : ℤ)) = range.start + 2 * (number : ℤ) := by
  have hpairs := range.pairs_bounds
  rw [PortRange.wrap, if_neg (by omega)]

theorem PortRange.wrap_end : range.wrap (range.start + 2 * (range.maxTries : ℤ)) = range.start := by
  have hpairs := range.pairs_bounds
  rw [PortRange.wrap, if_pos (by omega)]

/-- A pair number that may be the number of all pairs is taken modulo that number. -/
theorem PortRange.wrap_eq {number : ℕ} (hnumber : number ≤ range.maxTries) :
    range.wrap (range.start + 2 * (number : ℤ)) =
      range.start + 2 * ((number % range.maxTries : ℕ) : ℤ) := by
  rcases Nat.lt_or_eq_of_le hnumber with hlt | rfl
  · rw [range.wrap_pair hlt, Nat.mod_eq_of_lt hlt]
  · rw [range.wrap_end, Nat.mod_self]
    simp

theorem PortRange.wrap_first : range.wrap (range.first random) = range.visit random 0 := by
  obtain ⟨hfirst, hoffset⟩ := range.first_eq random
  rw [hfirst, range.wrap_eq hoffset]
  rfl

theorem PortRange.maxTries_pos (range : PortRange) : 0 < range.maxTries := by
  have hwide := range.wide
  rw [PortRange.maxTries]
  omega

theorem PortRange.wrap_next (round : ℕ) :
    range.wrap (range.visit random round + 2) = range.visit random (round + 1) := by
  have hlt := Nat.mod_lt (range.offset random + round) range.maxTries_pos
  have hnext : range.visit random round + 2 =
      range.start + 2 * (((range.offset random + round) % range.maxTries + 1 : ℕ) : ℤ) := by
    rw [PortRange.visit]
    push_cast
    omega
  rw [hnext, range.wrap_eq (Nat.succ_le_of_lt hlt), Nat.succ_eq_add_one, Nat.mod_add_mod]
  rfl

theorem PortRange.visit_bounds (round : ℕ) :
    range.start ≤ range.visit random round ∧ range.visit random round + 1 ≤ range.stop ∧
      range.visit random round % 2 = 0 := by
  have hpairs := range.pairs_bounds
  have heven := range.start_even
  have hlt := Nat.mod_lt (range.offset random + round) range.maxTries_pos
  rw [PortRange.visit]
  omega

variable {range}

theorem PortRange.visit_injective (random : ℕ) {round' : ℕ} (hround : round < range.maxTries)
    (hround' : round' < range.maxTries)
    (hsame : range.visit random round = range.visit random round') : round = round' := by
  rw [PortRange.visit, PortRange.visit] at hsame
  have hmod : range.offset random + round ≡ range.offset random + round' [MOD range.maxTries] := by
    rw [Nat.ModEq]
    omega
  exact (hmod.add_left_cancel' _).eq_of_lt_of_lt hround hround'

/-- Every pair of the range has its round. -/
theorem PortRange.exists_visit (random : ℕ) (hlow : range.start ≤ port)
    (hhigh : port + 1 ≤ range.stop) (heven : port % 2 = 0) :
    ∃ round < range.maxTries, range.visit random round = port := by
  have hpairs := range.pairs_bounds
  have hstart := range.start_even
  let pairOf (round : Fin range.maxTries) : Fin range.maxTries :=
    ⟨(range.offset random + round) % range.maxTries, Nat.mod_lt _ range.maxTries_pos⟩
  have hinjective : Function.Injective pairOf := by
    intro round round' hsame
    apply Fin.ext
    apply PortRange.visit_injective random round.isLt round'.isLt
    rw [PortRange.visit, PortRange.visit, Fin.mk.inj hsame]
  obtain ⟨round, hround⟩ := Finite.surjective_of_injective hinjective
    ⟨((port - range.start) / 2).toNat, by omega⟩
  refine ⟨round, round.isLt, ?_⟩
  rw [PortRange.visit, Fin.mk.inj hround]
  omega

end Order

/-! ### A fixed set of occupied ports -/

/-- `bind` fails with `EADDRINUSE` exactly on the occupied ports, and the other calls succeed. -/
structure Kernel.Steady (kernel : Kernel) (occupied : Set ℕ) : Prop where
  socket : ∀ position, kernel.socket position = true
  inUse : ∀ position, ∀ port ∈ occupied, kernel.bind position port = .inUse
  bound : ∀ position, ∀ port ∉ occupied, kernel.bind position port = .bound
  connect : ∀ position port, kernel.connect position port = true
  named : ∀ position, kernel.getsockname position ≠ none

/-- A port and the next one are free. -/
def FreePair (occupied : Set ℕ) (port : ℤ) : Prop :=
  htons port ∉ occupied ∧ htons (port + 1) ∉ occupied

/-- The ports to which a socket was to be bound. -/
def triedPorts (log : List SysCall) : List ℕ :=
  log.filterMap fun
    | .bind _ port _ => some port
    | _ => none

theorem triedPorts_append (log later : List SysCall) :
    triedPorts (log ++ later) = triedPorts log ++ triedPorts later :=
  filterMap_append

variable {kernel : Kernel} {occupied : Set ℕ} {range : PortRange} {random : ℕ}
variable {log : List SysCall}

/-- What a round at `port` has added to the ports that were tried. -/
def Added (port : ℤ) (log log' : List SysCall) : Prop :=
  triedPorts log' = triedPorts log ++ [htons port] ∨
    triedPorts log' = triedPorts log ++ [htons port, htons (port + 1)]

/-- A round at `port` has gone on exactly if the pair is not free. -/
def Judges (occupied : Set ℕ) (port : ℤ) (outcome : Try) : Prop :=
  match outcome with
  | .again _ _ => ¬FreePair occupied port
  | .found _ _ => FreePair occupied port

theorem yields_bindPorts_steady (hsteady : kernel.Steady occupied) {rtpfd rtcpfd : ℕ} :
    Program.Yields (bindPorts kernel port rtpfd rtcpfd) log
      (fun outcome log' ↦ Added port log log' ∧ Judges occupied port outcome)
      (fun _ _ ↦ False) := by
  apply Program.yields_bind
  apply yields_call
  by_cases hrtp : htons port ∈ occupied
  · rw [hsteady.inUse _ _ hrtp]
    refine Program.yields_pure ⟨Or.inl (triedPorts_append log _), ?_⟩
    exact fun hfree ↦ hfree.1 hrtp
  · rw [hsteady.bound _ _ hrtp]
    apply Program.yields_bind
    apply yields_call
    have hboth (result : BindResult) :
        triedPorts (log ++ [.bind rtpfd (htons port) .bound] ++
            [.bind rtcpfd (htons (port + 1)) result]) =
          triedPorts log ++ [htons port, htons (port + 1)] := by
      rw [triedPorts_append, triedPorts_append, append_assoc]
      rfl
    by_cases hrtcp : htons (port + 1) ∈ occupied
    · rw [hsteady.inUse _ _ hrtcp]
      apply Program.yields_bind
      apply yields_call
      refine Program.yields_pure ⟨Or.inr ?_, fun hfree ↦ hfree.2 hrtcp⟩
      rw [triedPorts_append, hboth .inUse]
      exact append_nil _
    · rw [hsteady.bound _ _ hrtcp]
      exact Program.yields_pure ⟨Or.inr (hboth .bound), hrtp, hrtcp⟩

theorem yields_needSocket_steady (hsteady : kernel.Steady occupied) {socket : Option ℕ}
    {E : UdpFailure → List SysCall → Prop} :
    Program.Yields (needSocket kernel socket) log
      (fun answer log' ↦ (∃ fd, answer = some fd) ∧ triedPorts log' = triedPorts log) E := by
  cases socket with
  | some fd => exact ⟨⟨fd, rfl⟩, rfl⟩
  | none =>
    rw [needSocket, sysSocket]
    apply yields_call
    rw [if_pos (hsteady.socket _)]
    refine ⟨⟨_, rfl⟩, ?_⟩
    rw [triedPorts_append]
    exact append_nil _

theorem yields_tryPort_steady (hsteady : kernel.Steady occupied) {rtpfd rtcpfd : Option ℕ} :
    Program.Yields (tryPort kernel port rtpfd rtcpfd) log
      (fun outcome log' ↦ Added port log log' ∧ Judges occupied port outcome)
      (fun _ _ ↦ False) := by
  apply Program.yields_bind
  refine (yields_needSocket_steady hsteady).imp ?_ id
  rintro _ log₁ ⟨⟨rtp, rfl⟩, hrtp⟩
  apply Program.yields_bind
  refine (yields_needSocket_steady hsteady).imp ?_ id
  rintro _ log₂ ⟨⟨rtcp, rfl⟩, hrtcp⟩
  refine (yields_bindPorts_steady hsteady).imp ?_ id
  intro outcome log' houtcome
  rw [Added, hrtcp, hrtp] at houtcome
  exact houtcome

/-! ### No port twice -/

/-- The ports that were tried in the rounds before `round`. -/
structure Rounds (range : PortRange) (random round : ℕ) (log : List SysCall) : Prop where
  nodup : (triedPorts log).Nodup
  earlier : ∀ port ∈ triedPorts log, ∃ j < round,
    port = htons (range.visit random j) ∨ port = htons (range.visit random j + 1)

theorem htons_eq {value : ℤ} (hlow : 0 ≤ value) (hhigh : value ≤ 65535) : (htons value : ℤ) = value := by
  rw [htons]
  omega

section Range

variable (hlow : 1 ≤ range.start) (hhigh : range.stop ≤ 65535)
include hlow hhigh

theorem htons_visit (random round : ℕ) :
    (htons (range.visit random round) : ℤ) = range.visit random round ∧
      (htons (range.visit random round + 1) : ℤ) = range.visit random round + 1 := by
  obtain ⟨hstart, hstop, -⟩ := range.visit_bounds random round
  exact ⟨htons_eq (by omega) (by omega), htons_eq (by omega) (by omega)⟩

/-- The two ports of a round were not tried before. -/
theorem Rounds.fresh (hrounds : Rounds range random round log) (hround : round < range.maxTries) :
    htons (range.visit random round) ∉ triedPorts log ∧
      htons (range.visit random round + 1) ∉ triedPorts log := by
  have hother {j : ℕ} (hj : j < round) : range.visit random j ≠ range.visit random round := by
    intro hsame
    exact absurd (PortRange.visit_injective random (by omega) hround hsame) (by omega)
  obtain ⟨hrtp, hrtcp⟩ := htons_visit hlow hhigh random round
  have heven := (range.visit_bounds random round).2.2
  -- The ports of a round are an even one and the next, so two rounds have none in common.
  have hfresh {port : ℕ} (hport : port = htons (range.visit random round) ∨
      port = htons (range.visit random round + 1)) : port ∉ triedPorts log := by
    intro htried
    obtain ⟨j, hj, hport'⟩ := hrounds.earlier port htried
    obtain ⟨hrtp', hrtcp'⟩ := htons_visit hlow hhigh random j
    have heven' := (range.visit_bounds random j).2.2
    have hne := hother hj
    omega
  exact ⟨hfresh (Or.inl rfl), hfresh (Or.inr rfl)⟩

theorem Rounds.added {log' : List SysCall} (hrounds : Rounds range random round log)
    (hround : round < range.maxTries) (hadded : Added (range.visit random round) log log') :
    Rounds range random (round + 1) log' := by
  obtain ⟨hrtp, hrtcp⟩ := hrounds.fresh hlow hhigh hround
  obtain ⟨hports, hports'⟩ := htons_visit hlow hhigh random round
  have hne : htons (range.visit random round) ≠ htons (range.visit random round + 1) := by omega
  have hearlier : ∀ port ∈ triedPorts log, ∃ j < round + 1,
      port = htons (range.visit random j) ∨ port = htons (range.visit random j + 1) := by
    intro port hport
    obtain ⟨j, hj, hsame⟩ := hrounds.earlier port hport
    exact ⟨j, Nat.lt_succ_of_lt hj, hsame⟩
  rcases hadded with hadded | hadded
  · constructor
    · rw [hadded]
      exact List.Nodup.append hrounds.nodup (nodup_singleton _) (by simpa using hrtp)
    · intro port hport
      rw [hadded, mem_append, mem_singleton] at hport
      rcases hport with hport | rfl
      · exact hearlier port hport
      · exact ⟨round, Nat.lt_succ_self round, Or.inl rfl⟩
  · constructor
    · rw [hadded]
      apply List.Nodup.append hrounds.nodup
      · simpa using hne
      · simp [hrtp, hrtcp]
    · intro port hport
      rw [hadded, mem_append, mem_pair] at hport
      rcases hport with hport | hport
      · exact hearlier port hport
      · exact ⟨round, Nat.lt_succ_self round, hport⟩

theorem yields_searchPorts_steady (hsteady : kernel.Steady occupied) {tries : ℕ}
    {rtpfd rtcpfd : Option ℕ} (hport : range.wrap port = range.visit random round)
    (htries : round + tries = range.maxTries) (hrounds : Rounds range random round log) :
    Program.Yields (searchPorts kernel range tries port rtpfd rtcpfd) log
      (fun found log' ↦ (∃ j, found.1 = range.visit random j) ∧ FreePair occupied found.1 ∧
        (triedPorts log').Nodup)
      (fun _ log' ↦ (∀ j, round ≤ j → j < range.maxTries →
        ¬FreePair occupied (range.visit random j)) ∧ (triedPorts log').Nodup) := by
  induction tries generalizing log round port rtpfd rtcpfd with
  | zero =>
    refine Program.yields_fault ⟨?_, hrounds.nodup⟩
    intro j hj hlast
    omega
  | succ tries ih =>
    apply Program.yields_bind
    refine (yields_tryPort_steady hsteady).imp ?_ False.elim
    rintro outcome log' ⟨hadded, hjudges⟩
    rw [hport] at hadded hjudges
    have hnext := hrounds.added hlow hhigh (by omega) hadded
    cases outcome with
    | found rtp rtcp =>
      refine Program.yields_pure ⟨⟨round, hport⟩, ?_, hnext.nodup⟩
      rw [hport]
      exact hjudges
    | again rtpfd' rtcpfd' =>
      have hwrap : range.wrap (range.wrap port + 2) = range.visit random (round + 1) := by
        rw [hport, range.wrap_next]
      refine (ih hwrap (by omega) hnext).imp id ?_
      rintro failure log'' ⟨hnone, hnodup⟩
      refine ⟨?_, hnodup⟩
      intro j hj hlast
      rcases Nat.eq_or_lt_of_le hj with rfl | hlater
      · exact hjudges
      · exact hnone j hlater hlast

theorem yields_connectUdp_steady (hsteady : kernel.Steady occupied) (random : ℕ) (destPort : ℤ) :
    Program.Yields (connectUdp kernel range random destPort) []
      (fun udp log ↦ (∃ j, udp.ourPort = range.visit random j) ∧ FreePair occupied udp.ourPort ∧
        (triedPorts log).Nodup)
      (fun _ log ↦ (∀ j < range.maxTries, ¬FreePair occupied (range.visit random j)) ∧
        (triedPorts log).Nodup) := by
  have hrounds : Rounds range random 0 [] := by
    constructor
    · exact nodup_nil
    · intro port hport
      cases hport
  apply Program.yields_bind
  refine (yields_searchPorts_steady hlow hhigh hsteady (range.wrap_first random)
    (Nat.zero_add _) hrounds).imp ?_ ?_
  · rintro ⟨port, rtpfd, rtcpfd⟩ log hfound
    -- the remaining calls succeed and bind nothing
    apply Program.yields_bind
    apply yields_call
    rw [hsteady.connect]
    apply Program.yields_bind
    apply yields_call
    rw [hsteady.connect]
    apply Program.yields_bind
    apply yields_call
    rcases hname : kernel.getsockname _ with _ | ⟨addr, sdpPort⟩
    · exact absurd hname (hsteady.named _)
    · refine Program.yields_pure ⟨hfound.1, hfound.2.1, ?_⟩
      rw [triedPorts_append, triedPorts_append, triedPorts_append]
      simpa [triedPorts] using hfound.2.2
  · rintro failure log ⟨hnone, hnodup⟩
    exact ⟨fun j hj ↦ hnone j (Nat.zero_le j) hj, hnodup⟩

end Range

/-! ### Free pairs are found -/

/-- An even port of the range such that it and the next one are free and in the range. -/
structure Usable (range : PortRange) (occupied : Set ℕ) (port : ℤ) : Prop where
  even : port % 2 = 0
  low : range.start ≤ port
  high : port + 1 ≤ range.stop
  free : FreePair occupied port

/-- For a range within 1..65535 and a fixed set of occupied ports, `connect_udp_endpoint` succeeds
if and only if the range has a usable pair of ports. It uses such a pair, and it tries no port
twice. -/
theorem udp_ports_iff (range : PortRange) (hlow : 1 ≤ range.start) (hhigh : range.stop ≤ 65535)
    (kernel : Kernel) (occupied : Set ℕ) (hsteady : kernel.Steady occupied) (random : ℕ)
    (destPort : ℤ) :
    ((∃ udp, (connectUdp kernel range random destPort []).1 = .ok udp) ↔
        ∃ port, Usable range occupied port) ∧
      (∀ udp, (connectUdp kernel range random destPort []).1 = .ok udp →
        Usable range occupied udp.ourPort ∧
        BoundTo (connectUdp kernel range random destPort []).2 udp.rtpFd (htons udp.ourPort) ∧
        BoundTo (connectUdp kernel range random destPort []).2 udp.rtcpFd
          (htons (udp.ourPort + 1))) ∧
      (triedPorts (connectUdp kernel range random destPort []).2).Nodup := by
  have hsteady := yields_connectUdp_steady hlow hhigh hsteady random destPort
  have hyields := yields_connectUdp kernel range random destPort
  rcases hrun : connectUdp kernel range random destPort [] with ⟨result, log⟩
  cases result with
  | ok udp =>
    obtain ⟨⟨j, hj⟩, hfree, hnodup⟩ := hsteady.of_ok hrun
    obtain ⟨-, hrtp, hrtcp, hstart, hstop⟩ := (hyields.of_ok hrun).2.found
    have heven : udp.ourPort % 2 = 0 := by
      rw [hj]
      exact (range.visit_bounds random j).2.2
    have husable : Usable range occupied udp.ourPort := ⟨heven, hstart, hstop, hfree⟩
    refine ⟨⟨fun _ ↦ ⟨udp.ourPort, husable⟩, fun _ ↦ ⟨udp, rfl⟩⟩, ?_, hnodup⟩
    intro udp' hsame
    cases hsame
    exact ⟨husable, hrtp, hrtcp⟩
  | error failure =>
    obtain ⟨hnone, hnodup⟩ := hsteady.of_error hrun
    refine ⟨⟨?_, ?_⟩, ?_, hnodup⟩
    · rintro ⟨udp, h⟩
      cases h
    · rintro ⟨port, heven, hstart, hstop, hfree⟩
      obtain ⟨j, hj, rfl⟩ := range.exists_visit random hstart hstop heven
      exact absurd hfree (hnone j hj)
    · intro udp h
      cases h

/-- A system in which only the first port of the range that is compiled in is occupied. -/
def quietKernel : Kernel :=
  ⟨fun _ ↦ true, fun _ port ↦ if port = 50000 then .inUse else .bound, fun _ _ ↦ true,
    fun _ ↦ some (ascii "10.0.0.1", 50002)⟩

theorem quietKernel_steady : quietKernel.Steady {50000} := by
  constructor
  · intro position
    rfl
  · rintro position port rfl
    rfl
  · intro position port hport
    exact if_neg hport
  · intro position port
    rfl
  · intro position h
    cases h

theorem udp_ports_default :
    (1 ≤ defaultRange.start ∧ defaultRange.stop ≤ 65535 ∧ quietKernel.Steady {50000}) ∧
      ∃ udp, (connectUdp quietKernel defaultRange 10000 4588 []).1 = .ok udp := by
  refine ⟨⟨by decide, by decide, quietKernel_steady⟩, ?_⟩
  apply (udp_ports_iff defaultRange (by decide) (by decide) quietKernel {50000} quietKernel_steady
    10000 4588).1.mpr
  refine ⟨50002, by decide, by decide, by decide, ?_, ?_⟩
  · show 50002 ≠ 50000
    decide
  · show 50003 ≠ 50000
    decide

end WisCam.Rtp
