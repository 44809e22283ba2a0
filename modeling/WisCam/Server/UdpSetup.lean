import WisCam.Foundations.Scan
import WisCam.Rtp.UdpPorts
import WisCam.Server.SendUnits
import WisCam.Server.Tcp

/-!
# The ports that a SETUP reply announces

`rtsp_udp_setup` (`rtsp.c`) reads the port of the client with `strtol` and announces it, and the
next one, in the Transport header of its reply. `connect_udp_endpoint` connects the sockets to the
lower 16 bits of the two numbers. The outcome that the server model leaves open, `Env.udp`, is here
that of the system calls.

`announced_ports_iff` says that the header names the real ports if and only if the port of the
client and the next one are ports. The ports of the server are real if the configured range lies
within 1..65535.
-/

set_option autoImplicit false

namespace WisCam.Server

open Foundations Rtp List

/-! ### Text and numbers -/

/-- A number ends where the digits end. -/
theorem decimal_append_inj {x y : ℕ} {rest rest' : Bytes}
    (hrest : ∀ b, rest.head? = some b → isDigit b = false)
    (hrest' : ∀ b, rest'.head? = some b → isDigit b = false)
    (hsame : decimal x ++ rest = decimal y ++ rest') : x = y ∧ rest = rest' := by
  have hx : (decimal x ++ rest).takeWhile isDigit = decimal x :=
    takeWhile_append_stop (fun _ ↦ isDigit_of_mem_decimal) hrest
  have hy : (decimal y ++ rest').takeWhile isDigit = decimal y :=
    takeWhile_append_stop (fun _ ↦ isDigit_of_mem_decimal) hrest'
  have hdigits : decimal x = decimal y := by
    rw [← hx, hsame, hy]
  constructor
  · rw [← digitsValue_decimal x, hdigits, digitsValue_decimal]
  · rw [hdigits] at hsame
    exact append_cancel_left hsame

theorem signedDecimal_natCast (value : ℕ) : signedDecimal (value : ℤ) = decimal value := by
  rw [signedDecimal, if_neg (by omega), Int.toNat_natCast]

/-- A minus sign is no digit. -/
theorem signedDecimal_append_inj {value : ℤ} {y : ℕ} {rest rest' : Bytes}
    (hrest : ∀ b, rest.head? = some b → isDigit b = false)
    (hrest' : ∀ b, rest'.head? = some b → isDigit b = false)
    (hsame : signedDecimal value ++ rest = decimal y ++ rest') : value = y ∧ rest = rest' := by
  by_cases hneg : value < 0
  · rw [signedDecimal, if_pos hneg] at hsame
    cases hdigits : decimal y with
    | nil => exact absurd hdigits (decimal_ne_nil y)
    | cons digit digits =>
      rw [hdigits] at hsame
      have hmem : digit ∈ decimal y := by
        rw [hdigits]
        exact mem_cons_self
      have hminus : isDigit 45 = true := by
        rw [(List.cons.inj hsame).1]
        exact isDigit_of_mem_decimal hmem
      exact absurd hminus (by decide)
  · obtain ⟨x, rfl⟩ := Int.eq_ofNat_of_zero_le (Int.not_lt.mp hneg)
    rw [signedDecimal_natCast] at hsame
    obtain ⟨rfl, hrests⟩ := decimal_append_inj hrest hrest' hsame
    exact ⟨rfl, hrests⟩

/-- The Transport header of a reply with the ports of the client and of the server. -/
def transportText (clientRtp clientRtcp serverRtp serverRtcp : ℤ) : Bytes :=
  ascii "RTP/AVP;unicast;client_port=" ++ (signedDecimal clientRtp ++ (45 ::
    (signedDecimal clientRtcp ++ (ascii ";server_port=" ++ (signedDecimal serverRtp ++
      (45 :: signedDecimal serverRtcp))))))

theorem transportText_inj {a b c d : ℤ} {a' b' c' d' : ℕ}
    (hsame : transportText a b c d = transportText a' b' c' d') : a = a' ∧ c = c' := by
  have hminus (text : Bytes) : ∀ x, (45 :: text : Bytes).head? = some x → isDigit x = false := by
    intro x hx
    cases hx
    decide
  have hserver (text : Bytes) :
      ∀ x, (ascii ";server_port=" ++ text).head? = some x → isDigit x = false := by
    intro x hx
    cases hx
    decide
  have hclient := append_cancel_left hsame
  rw [signedDecimal_natCast] at hclient
  obtain ⟨ha, hrest⟩ := signedDecimal_append_inj (hminus _) (hminus _) hclient
  have hrtcp := (List.cons.inj hrest).2
  rw [signedDecimal_natCast b'] at hrtcp
  obtain ⟨-, hrest⟩ := signedDecimal_append_inj (hserver _) (hserver _) hrtcp
  have hport := append_cancel_left hrest
  rw [signedDecimal_natCast c'] at hport
  exact ⟨ha, (signedDecimal_append_inj (hminus _) (hminus _) hport).1⟩

/-! ### The setup -/

/-- The port of the client in a Transport header. -/
def requestedPort (t : Bytes) : Option ℤ :=
  match strstr (ascii "client_port") t with
  | none => none
  | some p =>
    if t[p + 11]? = some 61 then
      if (strtol (t.drop (p + 12))).2 = 0 then none else some (strtol (t.drop (p + 12))).1
    else none

/-- The outcomes of `connect_udp_endpoint`, one call after another. -/
def udpOutcome (range : PortRange) (random : ℕ → ℕ) (kernel : ℕ → Kernel) (position : ℕ)
    (destPort : ℤ) : Option (ℕ × Bytes × ℕ) :=
  match (connectUdp (kernel position) range (random position) destPort []).1 with
  | .ok udp => some (udp.ourPort.toNat, udp.sdpAddr, udp.sdpPort)
  | .error _ => none

/-- The header names the ports that the two sockets of the endpoint are connected and bound to, in
pairs of consecutive ports. -/
def NamesPorts (header : Bytes) (udp : UdpTransport) (log : List SysCall) : Prop :=
  ∃ a b c d : ℕ, header = transportText a b c d ∧ b = a + 1 ∧ d = c + 1 ∧
    (1 ≤ a ∧ b ≤ 65535) ∧ (1 ≤ c ∧ d ≤ 65535) ∧
    ConnectedTo log udp.rtpFd a ∧ ConnectedTo log udp.rtcpFd b ∧
    BoundTo log udp.rtpFd c ∧ BoundTo log udp.rtcpFd d

variable {env : Env} {range : PortRange} {random : ℕ → ℕ} {kernel : ℕ → Kernel}
variable {ep : ℕ} {t header : Bytes} {s : State}

theorem connectUdpEndpoint_apply (env : Env) (ep : ℕ) (destPort : ℤ) (s : State) :
    ∃ s', connectUdpEndpoint env ep destPort s =
      (.ok ((env.udp s.udpPos destPort).map Prod.fst), s') := by
  rw [connectUdpEndpoint, Program.get_bind_apply, Program.bind_apply, Program.modify]
  cases henv : env.udp s.udpPos destPort with
  | none => exact ⟨_, rfl⟩
  | some outcome => exact ⟨_, rfl⟩

/-- A successful setup comes from a successful `connect_udp_endpoint` for the port that was read. -/
theorem exists_connectUdp (henv : env.udp = udpOutcome range random kernel)
    (hsetup : (rtspUdpSetup env ep t s).1 = .ok (some header)) :
    ∃ cport udp log, requestedPort t = some cport ∧
      connectUdp (kernel s.udpPos) range (random s.udpPos) cport [] = (.ok udp, log) ∧
      header = transportText cport (wrapInt (cport + 1)) (udp.ourPort.toNat : ℕ)
        (udp.ourPort.toNat + 1 : ℕ) := by
  rw [rtspUdpSetup] at hsetup
  rw [requestedPort]
  cases hfind : strstr (ascii "client_port") t with
  | none =>
    rw [hfind] at hsetup
    cases hsetup
  | some p =>
    simp only [hfind] at hsetup ⊢
    by_cases hequals : t[p + 11]? = some 61
    · simp only [if_pos hequals] at hsetup ⊢
      by_cases hread : (strtol (t.drop (p + 12))).2 = 0
      · simp only [if_pos hread] at hsetup
        cases hsetup
      · simp only [if_neg hread] at hsetup ⊢
        generalize (strtol (t.drop (p + 12))).1 = cport at hsetup ⊢
        obtain ⟨s', hconnect⟩ := connectUdpEndpoint_apply env ep cport s
        rw [Program.bind_apply, hconnect, henv, udpOutcome] at hsetup
        cases hrun : connectUdp (kernel s.udpPos) range (random s.udpPos) cport [] with
        | mk result log =>
          rw [hrun] at hsetup
          cases result with
          | error failure => cases hsetup
          | ok udp =>
            refine ⟨cport, udp, log, rfl, hrun, ?_⟩
            rw [transportText, signedDecimal_natCast, signedDecimal_natCast]
            have hheader := Option.some.inj (Except.ok.inj hsetup)
            rw [← hheader]
            simp only [append_assoc, cons_append, nil_append]
    · simp only [if_neg hequals] at hsetup
      cases hsetup

/-! ### Real ports -/

/-- The header of a successful setup names the real ports if and only if the port that the client
asks for and the next one are ports, and so are the two of the server. In a range within 1..65535
this is so for the server, and the port of the client decides. -/
theorem announced_ports_iff (env : Env) (range : PortRange) (random : ℕ → ℕ) (kernel : ℕ → Kernel)
    (henv : env.udp = udpOutcome range random kernel) (ep : ℕ) (t : Bytes) (s : State)
    (header : Bytes) (hsetup : (rtspUdpSetup env ep t s).1 = .ok (some header)) :
    ∃ cport udp log, requestedPort t = some cport ∧
      connectUdp (kernel s.udpPos) range (random s.udpPos) cport [] = (.ok udp, log) ∧
      (NamesPorts header udp log ↔
        (1 ≤ cport ∧ cport ≤ 65534) ∧ 1 ≤ udp.ourPort ∧ udp.ourPort ≤ 65534) ∧
      (1 ≤ range.start → range.stop ≤ 65535 → (1 ≤ udp.ourPort ∧ udp.ourPort ≤ 65534) ∧
        (NamesPorts header udp log ↔ 1 ≤ cport ∧ cport ≤ 65534)) := by
  obtain ⟨cport, udp, log, hrequested, hrun, hheader⟩ := exists_connectUdp henv hsetup
  obtain ⟨-, ⟨-, hrtpBound, hrtcpBound, hstart, hstop⟩, hrtp, hrtcp⟩ :=
    (yields_connectUdp _ _ _ _).of_ok hrun
  have hnames : NamesPorts header udp log ↔
      (1 ≤ cport ∧ cport ≤ 65534) ∧ 1 ≤ udp.ourPort ∧ udp.ourPort ≤ 65534 := by
    constructor
    · rintro ⟨a, b, c, d, hsame, rfl, rfl, hclient, hserver, -⟩
      obtain ⟨hcport, hport⟩ := transportText_inj (hheader.symm.trans hsame)
      omega
    · rintro ⟨hclient, hserver⟩
      have hnext : wrapInt (cport + 1) = cport + 1 := wrapInt_eq (by omega) (by omega)
      rw [hnext] at hrtcp
      have hclientPort : (htons cport : ℤ) = cport := htons_eq (by omega) (by omega)
      have hclientNext : (htons (cport + 1) : ℤ) = cport + 1 := htons_eq (by omega) (by omega)
      have hserverPort : (htons udp.ourPort : ℤ) = udp.ourPort := htons_eq (by omega) (by omega)
      have hserverNext : (htons (udp.ourPort + 1) : ℤ) = udp.ourPort + 1 :=
        htons_eq (by omega) (by omega)
      refine ⟨htons cport, htons (cport + 1), htons udp.ourPort, htons (udp.ourPort + 1), ?_, ?_, ?_,
        ?_, ?_, hrtp, hrtcp, hrtpBound, hrtcpBound⟩
      · rw [hheader, hnext, hclientPort, hclientNext, hserverPort, hserverNext]
        congr 1
        · omega
        · push_cast
          omega
      · omega
      · omega
      · omega
      · omega
  refine ⟨cport, udp, log, hrequested, hrun, hnames, fun hlow hhigh ↦ ?_⟩
  simp only at hstart hstop
  have hserver : 1 ≤ udp.ourPort ∧ udp.ourPort ≤ 65534 := by omega
  exact ⟨hserver, hnames.trans (and_iff_left hserver)⟩

/-- A system that binds and connects everything. -/
def openKernel : Kernel :=
  ⟨fun _ ↦ true, fun _ _ ↦ .bound, fun _ _ ↦ true, fun _ ↦ some (ascii "10.0.0.1", 2)⟩

/-- The sample server on that system, with eight ports. -/
def udpEnv : Env :=
  ⟨sampleEnv.md5, sampleEnv.random, udpOutcome eightPorts (fun _ ↦ 0) fun _ ↦ openKernel,
    sampleEnv.cells⟩

theorem announced_ports_4588 :
    (rtspUdpSetup udpEnv 0 (ascii "RTP/AVP;unicast;client_port=4588-4589") (initial sampleConfig)).1 =
        .ok (some (ascii "RTP/AVP;unicast;client_port=4588-4589;server_port=2-3")) ∧
      ∃ udp log,
        NamesPorts (ascii "RTP/AVP;unicast;client_port=4588-4589;server_port=2-3") udp log := by
  have hsetup : (rtspUdpSetup udpEnv 0 (ascii "RTP/AVP;unicast;client_port=4588-4589")
      (initial sampleConfig)).1 =
        .ok (some (ascii "RTP/AVP;unicast;client_port=4588-4589;server_port=2-3")) := by
    decide +kernel
  have hcport : requestedPort (ascii "RTP/AVP;unicast;client_port=4588-4589") = some 4588 := by
    decide +kernel
  refine ⟨hsetup, ?_⟩
  obtain ⟨cport, udp, log, hrequested, -, -, hnames⟩ :=
    announced_ports_iff udpEnv eightPorts (fun _ ↦ 0) (fun _ ↦ openKernel) rfl 0 _ _ _ hsetup
  obtain rfl := Option.some.inj (hcport.symm.trans hrequested)
  exact ⟨udp, log, (hnames (by decide) (by decide)).2.mpr (by decide)⟩

/-- For the port 70000 the reply announces 70000 and 70001, and the sockets are connected to the
ports 4464 and 4465. -/
theorem announced_port_70000 :
    (rtspUdpSetup udpEnv 0 (ascii "RTP/AVP;unicast;client_port=70000-70001")
        (initial sampleConfig)).1 =
        .ok (some (ascii "RTP/AVP;unicast;client_port=70000-70001;server_port=2-3")) ∧
      connectUdp openKernel eightPorts 0 70000 [] =
        (.ok ⟨0, 1, ascii "IP4 10.0.0.1", 2, 2⟩,
          [.socket (some 0), .socket (some 1), .bind 0 2 .bound, .bind 1 3 .bound,
            .connect 0 4464 true, .connect 1 4465 true, .getsockname 0 true]) := by
  decide +kernel

end WisCam.Server
