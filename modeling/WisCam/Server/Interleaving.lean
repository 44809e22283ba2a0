import WisCam.Server.Steps

/-!
# Interleaved channels

A connection has a table that says which endpoint uses a channel, and an endpoint says which
channels of which connection it uses. In every state of every run the two agree (`Wired`). The code
keeps them in step at the three places where a transport is chosen, an endpoint is freed and a
connection is accepted.

`interleave_recv` looks a channel up without a check that the connection has a table. On a
connection with a table it does with every frame what it should, on one without it does so only for
channels that no table has.
-/

set_option autoImplicit false

namespace WisCam.Server

open Foundations Message Connection Auth

variable {env : Env} {s s' : State}

/-! ### Agreement of tables and endpoints -/

/-- What a connection's channel table says about a channel. -/
def Conn.entry (conn : Conn) (chan : Channel) : Option IChan :=
  match conn.protoState with
  | .rtsp table => table chan
  | _ => none

/-- The endpoint is there and uses the channel of the connection, for RTCP or for RTP. -/
def Connected (s : State) (c ep : ℕ) (chan : Channel) (isRtcp : Bool) : Prop :=
  ∃ endpoint rtp rtcp, s.endpoints.get? ep = some endpoint ∧ endpoint.trans = .inter c rtp rtcp ∧
    chan = if isRtcp then rtcp else rtp

/-- Channel tables and endpoints agree, only connections that speak RTSP have a table, and endpoints
refer to no address that is still to be used. -/
structure Wired (s : State) : Prop where
  entry_iff : ∀ c conn, s.conns.get? c = some conn → ∀ chan ep isRtcp,
    conn.entry chan = some ⟨ep, isRtcp⟩ ↔ Connected s c ep chan isRtcp
  proto : ∀ c conn table, s.conns.get? c = some conn → conn.protoState = .rtsp table →
    conn.reader.proto = .rtsp
  used : ∀ c ep chan isRtcp, Connected s c ep chan isRtcp → c < s.conns.next

theorem entry_congr {conn conn' : Conn} (hstate : conn'.protoState = conn.protoState) :
    conn'.entry = conn.entry := by
  funext chan
  rw [Conn.entry, Conn.entry, hstate]

theorem entry_of_table {conn : Conn} {table : ChannelTable}
    (htable : conn.protoState = .null ∧ table = (fun _ ↦ none) ∨ conn.protoState = .rtsp table) :
    conn.entry = table := by
  funext chan
  rw [Conn.entry]
  rcases htable with ⟨hnull, rfl⟩ | htable
  · rw [hnull]
  · rw [htable]

theorem table_of_entry {conn : Conn} {chan : Channel} {entry : IChan}
    (hentry : conn.entry chan = some entry) : ∃ table, conn.protoState = .rtsp table := by
  unfold Conn.entry at hentry
  split at hentry
  · exact ⟨_, ‹_›⟩
  · exact absurd hentry nofun

variable {isRtcp : Bool}

/-- An endpoint without interleaved transport uses no channel. -/
theorem not_connected {c ep : ℕ} {chan : Channel} {endpoint : Endpoint}
    (hep : s.endpoints.get? ep = some endpoint)
    (htrans : ∀ c rtp rtcp, endpoint.trans ≠ .inter c rtp rtcp) :
    ¬ Connected s c ep chan isRtcp := by
  rintro ⟨endpoint', rtp, rtcp, hep', hinter, -⟩
  obtain rfl := Option.some.inj (hep.symm.trans hep')
  exact htrans c rtp rtcp hinter

/-- The channels of an endpoint with interleaved transport. -/
theorem connected_iff {c c' ep : ℕ} {chan rtp rtcp : Channel} {endpoint : Endpoint}
    (hep : s.endpoints.get? ep = some endpoint) (htrans : endpoint.trans = .inter c rtp rtcp) :
    Connected s c' ep chan isRtcp ↔ c' = c ∧ chan = if isRtcp then rtcp else rtp := by
  constructor
  · rintro ⟨endpoint', rtp', rtcp', hep', hinter, hchan⟩
    obtain rfl := Option.some.inj (hep.symm.trans hep')
    obtain ⟨rfl, rfl, rfl⟩ := Trans.inter.inj (htrans.symm.trans hinter)
    exact ⟨rfl, hchan⟩
  · rintro ⟨rfl, hchan⟩
    exact ⟨endpoint, rtp, rtcp, hep, htrans, hchan⟩

/-- The uses of channels depend on the other endpoints alone, if one endpoint changes. -/
theorem connected_of_ne {c ep ep' : ℕ} {chan : Channel}
    (hsame : s'.endpoints.get? ep' = s.endpoints.get? ep') (hother : ep' ≠ ep) :
    Connected s' c ep' chan isRtcp ↔ ep' ≠ ep ∧ Connected s c ep' chan isRtcp := by
  rw [Connected, Connected, hsame, and_iff_right hother]

/-! ### Effects that leave the uses of channels alone -/

/-- The invariant is kept if the connections keep their entries and the endpoints their channels. -/
theorem Wired.of_same (hbefore : Wired s)
    (hconns : ∀ c conn', s'.conns.get? c = some conn' → ∃ conn, s.conns.get? c = some conn ∧
      conn'.entry = conn.entry ∧
      ∀ table, conn'.protoState = .rtsp table → conn'.reader.proto = .rtsp)
    (hconnected : ∀ c ep chan isRtcp, Connected s' c ep chan isRtcp ↔ Connected s c ep chan isRtcp)
    (hnext : s.conns.next ≤ s'.conns.next) : Wired s' where
  entry_iff c conn' hget chan ep isRtcp := by
    obtain ⟨conn, hconn, hentry, -⟩ := hconns c conn' hget
    rw [hentry, hconnected]
    exact hbefore.entry_iff c conn hconn chan ep isRtcp
  proto c conn' table hget htable := by
    obtain ⟨conn, -, -, hproto⟩ := hconns c conn' hget
    exact hproto table htable
  used c ep chan isRtcp hconnected' :=
    Nat.lt_of_lt_of_le (hbefore.used c ep chan isRtcp ((hconnected ..).mp hconnected')) hnext

/-- The connections of a state keep their entries. -/
theorem Wired.same_conns (hbefore : Wired s) (c : ℕ) (conn : Conn)
    (hget : s.conns.get? c = some conn) : ∃ conn', s.conns.get? c = some conn' ∧
      conn.entry = conn'.entry ∧
      ∀ table, conn.protoState = .rtsp table → conn.reader.proto = .rtsp :=
  ⟨conn, hget, rfl, fun table htable ↦ hbefore.proto c conn table hget htable⟩

/-- The invariant is about connections and endpoints alone. -/
theorem Wired.congr (hbefore : Wired s) (hconns : s'.conns = s.conns)
    (hendpoints : s'.endpoints = s.endpoints) : Wired s' := by
  refine hbefore.of_same ?_ (fun _ _ _ _ ↦ by rw [Connected, Connected, hendpoints])
    (Nat.le_of_eq (by rw [hconns]))
  rw [hconns]
  exact hbefore.same_conns

/-- Stores into a connection that keep its entries keep the invariant. -/
theorem Wired.of_modify (hbefore : Wired s) {c : ℕ} {f : Conn → Conn}
    (hconns : s'.conns = s.conns.modify c f) (hendpoints : s'.endpoints = s.endpoints)
    (hentry : ∀ conn, s.conns.get? c = some conn → (f conn).entry = conn.entry)
    (hproto : ∀ conn table, s.conns.get? c = some conn → (f conn).protoState = .rtsp table →
      (f conn).reader.proto = .rtsp) : Wired s' := by
  refine hbefore.of_same (fun c' conn' hget ↦ ?_) (fun _ _ _ _ ↦ ?_) ?_
  · rw [hconns] at hget
    obtain ⟨old, hold, ⟨rfl, rfl⟩ | ⟨-, rfl⟩⟩ := get?_conns_modify hget
    · exact ⟨old, hold, hentry old hold, fun table ↦ hproto old table hold⟩
    · exact hbefore.same_conns c' conn' hold
  · rw [Connected, Connected, hendpoints]
  · rw [hconns, NodeTable.next_modify]

/-- A change of an endpoint that has no interleaved transport before or after it keeps the
invariant. -/
theorem Wired.of_endpoint (hbefore : Wired s) (ep : ℕ) (hconns : s'.conns = s.conns)
    (hothers : ∀ ep', ep' ≠ ep → s'.endpoints.get? ep' = s.endpoints.get? ep')
    (hold : ∀ c chan isRtcp, ¬ Connected s c ep chan isRtcp)
    (hnew : ∀ c chan isRtcp, ¬ Connected s' c ep chan isRtcp) : Wired s' := by
  refine hbefore.of_same (fun c conn' hget ↦ ?_) (fun c ep' chan isRtcp ↦ ?_) ?_
  · rw [hconns] at hget
    exact hbefore.same_conns c conn' hget
  · by_cases hsame : ep' = ep
    · rw [hsame]
      exact iff_of_false (hnew c chan isRtcp) (hold c chan isRtcp)
    · rw [connected_of_ne (hothers ep' hsame) hsame, and_iff_right hsame]
  · rw [hconns]

/-- Freeing an endpoint without interleaved transport keeps the invariant. -/
theorem Wired.of_freed (hbefore : Wired s) {ep : ℕ} {endpoint : Endpoint}
    (hep : s.endpoints.get? ep = some endpoint)
    (htrans : ∀ c rtp rtcp, endpoint.trans ≠ .inter c rtp rtcp) :
    Wired { s with endpoints := s.endpoints.erase ep } := by
  refine hbefore.of_endpoint ep rfl (fun ep' hother ↦ ?_)
    (fun c chan isRtcp ↦ not_connected hep htrans) fun c chan isRtcp ↦ ?_
  · rw [NodeTable.get?_erase, if_neg hother]
  · rintro ⟨endpoint', rtp, rtcp, hget, -, -⟩
    rw [NodeTable.get?_erase, if_pos rfl] at hget
    exact absurd hget nofun

theorem Wired.of_dropped (hbefore : Wired s) (c : ℕ) :
    Wired { s with conns := s.conns.erase c } := by
  refine hbefore.of_same (fun c' conn' hget ↦ ?_) (fun _ _ _ _ ↦ Iff.rfl) (Nat.le_refl _)
  rw [NodeTable.get?_erase] at hget
  split_ifs at hget
  exact hbefore.same_conns c' conn' hget

theorem Wired.of_tunnelPost (hbefore : Wired s) {c target : ℕ} {fd : Option ℕ}
    (hconns : s'.conns = (s.conns.modify target fun cg ↦
      { cg with secondFd := fd, secondReadEvent := true }).modify c fun conn ↦
        { conn with fd := none })
    (hendpoints : s'.endpoints = s.endpoints) : Wired s' := by
  refine hbefore.of_same (fun c' conn' hget ↦ ?_) (fun _ _ _ _ ↦ ?_) ?_
  · rw [hconns] at hget
    obtain ⟨mid, hmid, hsecond⟩ := get?_conns_modify hget
    obtain ⟨old, hold, hfirst⟩ := get?_conns_modify hmid
    have hkept : conn'.protoState = old.protoState ∧ conn'.reader = old.reader := by
      rcases hsecond with ⟨-, rfl⟩ | ⟨-, rfl⟩ <;> rcases hfirst with ⟨-, rfl⟩ | ⟨-, rfl⟩ <;>
        exact ⟨rfl, rfl⟩
    refine ⟨old, hold, entry_congr hkept.1, fun table htable ↦ ?_⟩
    rw [hkept.2]
    exact hbefore.proto c' old table hold (hkept.1.symm.trans htable)
  · rw [Connected, Connected, hendpoints]
  · rw [hconns, NodeTable.next_modify, NodeTable.next_modify]

/-! ### Effects that change the uses of channels -/

/-- A new connection has no table, and no endpoint refers to it yet. -/
theorem Wired.of_accepted (hbefore : Wired s) {conn : Conn} (hnull : conn.protoState = .null) :
    Wired { s with conns := s.conns.push conn } where
  entry_iff c conn' hget chan ep isRtcp := by
    rw [NodeTable.get?_push] at hget
    by_cases hnew : c = s.conns.next
    · rw [if_pos hnew] at hget
      obtain rfl := Option.some.inj hget
      rw [entry_of_table (.inl ⟨hnull, rfl⟩)]
      refine iff_of_false nofun fun hconnected ↦ ?_
      exact absurd hnew (Nat.ne_of_lt (hbefore.used c ep chan isRtcp hconnected))
    · rw [if_neg hnew] at hget
      exact hbefore.entry_iff c conn' hget chan ep isRtcp
  proto c conn' table hget htable := by
    rw [NodeTable.get?_push] at hget
    split_ifs at hget
    · obtain rfl := Option.some.inj hget
      exact absurd (hnull.symm.trans htable) nofun
    · exact hbefore.proto c conn' table hget htable
  used c ep chan isRtcp hconnected :=
    Nat.lt_succ_of_lt (hbefore.used c ep chan isRtcp hconnected)

section Wiring

variable {c ep : ℕ} {conn : Conn} {endpoint : Endpoint} {table : ChannelTable} {rtp rtcp : Channel}

/-- The table with two more entries has exactly the entries of the new endpoint besides the old
ones. -/
theorem update_entries_iff {chan : Channel} {ep' : ℕ} (hrtp : table rtp = none)
    (hrtcp : table rtcp = none) (hne : rtp ≠ rtcp) :
    Function.update (Function.update table rtp (some ⟨ep, false⟩)) rtcp (some ⟨ep, true⟩) chan =
        some ⟨ep', isRtcp⟩ ↔
      ep' = ep ∧ chan = (if isRtcp then rtcp else rtp) ∨ table chan = some ⟨ep', isRtcp⟩ := by
  by_cases hcontrol : chan = rtcp
  · subst hcontrol
    rw [Function.update_self, hrtcp]
    cases isRtcp with
    | true => simp [eq_comm]
    | false => simp [hne.symm]
  · rw [Function.update_of_ne hcontrol]
    by_cases hdata : chan = rtp
    · subst hdata
      rw [Function.update_self, hrtp]
      cases isRtcp with
      | true => simp [hcontrol]
      | false => simp [eq_comm]
    · rw [Function.update_of_ne hdata]
      cases isRtcp with
      | true => simp [hcontrol]
      | false => simp [hdata]

/-- Choosing an interleaved transport keeps the invariant. -/
theorem Wired.of_wired (hbefore : Wired s) (hconn : s.conns.get? c = some conn)
    (hproto : conn.reader.proto = .rtsp)
    (htable : conn.protoState = .null ∧ table = (fun _ ↦ none) ∨ conn.protoState = .rtsp table)
    (hep : s.endpoints.get? ep = some endpoint) (hunset : endpoint.trans = .unset)
    (hrtp : table rtp = none) (hrtcp : table rtcp = none) (hne : rtp ≠ rtcp)
    (hconns : s'.conns = s.conns.modify c fun conn ↦ { conn with
      protoState := .rtsp (Function.update (Function.update table rtp (some ⟨ep, false⟩))
        rtcp (some ⟨ep, true⟩)) })
    (hendpoints : s'.endpoints = s.endpoints.modify ep fun endpoint ↦
      { endpoint with trans := .inter c rtp rtcp }) : Wired s' := by
  have hget : s'.endpoints.get? ep = some { endpoint with trans := .inter c rtp rtcp } := by
    rw [hendpoints, NodeTable.get?_modify, if_pos rfl, hep]
    rfl
  have hothers (ep' : ℕ) (hother : ep' ≠ ep) :
      s'.endpoints.get? ep' = s.endpoints.get? ep' := by
    rw [hendpoints, NodeTable.get?_modify, if_neg hother]
  have hfree (c : ℕ) (chan : Channel) (isRtcp : Bool) : ¬ Connected s c ep chan isRtcp :=
    not_connected hep (by rw [hunset]; nofun)
  have hconnected (c' ep' : ℕ) (chan : Channel) (isRtcp : Bool) :
      Connected s' c' ep' chan isRtcp ↔
        ep' = ep ∧ c' = c ∧ chan = (if isRtcp then rtcp else rtp) ∨
          Connected s c' ep' chan isRtcp := by
    by_cases hsame : ep' = ep
    · subst hsame
      rw [connected_iff hget rfl, or_iff_left (hfree c' chan isRtcp), and_iff_right rfl]
    · rw [connected_of_ne (hothers ep' hsame) hsame, and_iff_right hsame,
        or_iff_right fun h ↦ hsame h.1]
  refine ⟨fun c' conn' hconn' chan ep' isRtcp ↦ ?_, fun c' conn' table' hconn' htable' ↦ ?_,
    fun c' ep' chan isRtcp hconnected' ↦ ?_⟩
  · rw [hconns] at hconn'
    rw [hconnected]
    obtain ⟨old, hold, ⟨rfl, rfl⟩ | ⟨hother, rfl⟩⟩ := get?_conns_modify hconn'
    · obtain rfl := Option.some.inj (hconn.symm.trans hold)
      rw [entry_of_table (.inr rfl), update_entries_iff hrtp hrtcp hne,
        ← hbefore.entry_iff c' conn hconn, entry_of_table htable, and_iff_right rfl]
    · rw [or_iff_right fun h ↦ hother h.2.1]
      exact hbefore.entry_iff c' conn' hold chan ep' isRtcp
  · rw [hconns] at hconn'
    obtain ⟨old, hold, ⟨rfl, rfl⟩ | ⟨hother, rfl⟩⟩ := get?_conns_modify hconn'
    · obtain rfl := Option.some.inj (hconn.symm.trans hold)
      exact hproto
    · exact hbefore.proto c' conn' table' hold htable'
  · rw [hconns, NodeTable.next_modify]
    rcases (hconnected ..).mp hconnected' with ⟨-, rfl, -⟩ | hconnected'
    · exact NodeTable.lt_next_of_get? hconn
    · exact hbefore.used c' ep' chan isRtcp hconnected'

/-- The table without the two entries of an endpoint has exactly the entries of the others. -/
theorem erase_entries_iff {chan : Channel} {ep' : ℕ}
    (hown : ∀ chan isRtcp, table chan = some ⟨ep, isRtcp⟩ ↔ chan = if isRtcp then rtcp else rtp) :
    Function.update (Function.update table rtp none) rtcp none chan = some ⟨ep', isRtcp⟩ ↔
      ep' ≠ ep ∧ table chan = some ⟨ep', isRtcp⟩ := by
  have hremoved (kind : Bool) :
      ¬ (ep' ≠ ep ∧ table (if kind then rtcp else rtp) = some ⟨ep', isRtcp⟩) := by
    rintro ⟨hother, hentry⟩
    have hsame := ((hown _ kind).mpr rfl).symm.trans hentry
    exact hother (IChan.mk.inj (Option.some.inj hsame)).1.symm
  by_cases hcontrol : chan = rtcp
  · rw [hcontrol, Function.update_self]
    exact iff_of_false nofun (hremoved true)
  · rw [Function.update_of_ne hcontrol]
    by_cases hdata : chan = rtp
    · rw [hdata, Function.update_self]
      exact iff_of_false nofun (hremoved false)
    · rw [Function.update_of_ne hdata]
      refine ⟨fun hentry ↦ ⟨?_, hentry⟩, And.right⟩
      rintro rfl
      have hchan := (hown chan isRtcp).mp hentry
      cases isRtcp with
      | true => exact hcontrol hchan
      | false => exact hdata hchan

/-- Freeing an endpoint with an interleaved transport keeps the invariant. -/
theorem Wired.of_unwired (hbefore : Wired s) (hconn : s.conns.get? c = some conn)
    (htable : conn.protoState = .rtsp table) (hep : s.endpoints.get? ep = some endpoint)
    (htrans : endpoint.trans = .inter c rtp rtcp)
    (hconns : s'.conns = s.conns.modify c fun _ ↦ { conn with
      protoState := .rtsp (Function.update (Function.update table rtp none) rtcp none) })
    (hendpoints : s'.endpoints = s.endpoints.erase ep) : Wired s' := by
  have hgone (c : ℕ) (chan : Channel) (isRtcp : Bool) : ¬ Connected s' c ep chan isRtcp := by
    rintro ⟨endpoint', rtp', rtcp', hep', -, -⟩
    rw [hendpoints, NodeTable.get?_erase, if_pos rfl] at hep'
    exact absurd hep' nofun
  have hconnected (c' ep' : ℕ) (chan : Channel) (isRtcp : Bool) :
      Connected s' c' ep' chan isRtcp ↔ ep' ≠ ep ∧ Connected s c' ep' chan isRtcp := by
    by_cases hsame : ep' = ep
    · rw [hsame]
      exact iff_of_false (hgone c' chan isRtcp) fun h ↦ h.1 rfl
    · refine connected_of_ne ?_ hsame
      rw [hendpoints, NodeTable.get?_erase, if_neg hsame]
  have hold (chan : Channel) (ep' : ℕ) (isRtcp : Bool) :
      table chan = some ⟨ep', isRtcp⟩ ↔ Connected s c ep' chan isRtcp := by
    rw [← hbefore.entry_iff c conn hconn, entry_of_table (.inr htable)]
  -- The entries of the endpoint are exactly the two that are removed.
  have hown (chan : Channel) (isRtcp : Bool) :
      table chan = some ⟨ep, isRtcp⟩ ↔ chan = if isRtcp then rtcp else rtp := by
    rw [hold, connected_iff hep htrans, and_iff_right rfl]
  refine ⟨fun c' conn' hconn' chan ep' isRtcp ↦ ?_, fun c' conn' table' hconn' htable' ↦ ?_,
    fun c' ep' chan isRtcp hconnected' ↦ ?_⟩
  · rw [hconns] at hconn'
    rw [hconnected]
    obtain ⟨old, hold, ⟨rfl, rfl⟩ | ⟨hother, rfl⟩⟩ := get?_conns_modify hconn'
    · rw [entry_of_table (.inr rfl), erase_entries_iff hown, hold]
    · rw [hbefore.entry_iff c' conn' hold]
      refine ⟨fun hconnected' ↦ ⟨?_, hconnected'⟩, And.right⟩
      rintro rfl
      exact hother ((connected_iff hep htrans).mp hconnected').1
  · rw [hconns] at hconn'
    obtain ⟨old, hold, ⟨rfl, rfl⟩ | ⟨hother, rfl⟩⟩ := get?_conns_modify hconn'
    · exact hbefore.proto c' conn table hconn htable
    · exact hbefore.proto c' conn' table' hold htable'
  · rw [hconns, NodeTable.next_modify]
    exact hbefore.used c' ep' chan isRtcp ((hconnected ..).mp hconnected').2

end Wiring

/-! ### The invariant -/

theorem wired_of_effect (heffect : Effect env s s') (hbefore : Wired s) : Wired s' := by
  cases heffect with
  | conn c f hkeeps =>
    refine hbefore.of_modify rfl rfl (fun conn _ ↦ entry_congr (hkeeps.protoState conn))
      fun conn table hconn htable ↦ ?_
    have hrtsp := hbefore.proto c conn table hconn ((hkeeps.protoState conn).symm.trans htable)
    rcases hkeeps.proto conn hconn with hsame | hnow | hstart
    · exact hsame.trans hrtsp
    · exact hnow
    · exact absurd (hrtsp.symm.trans hstart) nofun
  | accepted fd => exact hbefore.of_accepted rfl
  | dropped c => exact hbefore.of_dropped c
  | tunnelGet c buf msg cookie =>
    refine hbefore.of_modify (f := fun conn ↦ { conn with httpTunnelCookie := cookie }) rfl rfl
      ?_ ?_
    · exact fun _ _ ↦ entry_congr rfl
    · exact fun conn table hconn htable ↦ hbefore.proto c conn table hconn htable
  | tunnelPost => exact hbefore.of_tunnelPost rfl rfl
  | streamAdded loc c hproto =>
    refine hbefore.of_modify (f := fun conn ↦ { conn with protoState := .http _ }) rfl rfl ?_ ?_
    · intro conn hconn
      funext chan
      -- A connection that speaks HTTP has no table to lose.
      cases hstate : conn.protoState with
      | rtsp table =>
        exact absurd ((hproto conn hconn).symm.trans (hbefore.proto c conn table hconn hstate))
          nofun
      | null => rw [Conn.entry, Conn.entry, hstate]
      | http session => rw [Conn.entry, Conn.entry, hstate]
    · exact fun _ _ _ htable ↦ absurd htable nofun
  | endpointAdded endpoint hunset hallowed =>
    refine hbefore.of_endpoint s.endpoints.next rfl (fun ep' hother ↦ ?_)
      (fun c chan isRtcp ↦ ?_) fun c chan isRtcp ↦ ?_
    · rw [NodeTable.get?_push, if_neg hother]
    · rintro ⟨endpoint', rtp, rtcp, hget, -, -⟩
      exact Nat.lt_irrefl _ (NodeTable.lt_next_of_get? hget)
    · exact not_connected (by rw [NodeTable.get?_push, if_pos rfl]) (by rw [hunset]; nofun)
  | udpConnected ep endpoint addr port hep hunset =>
    refine hbefore.of_endpoint ep rfl (fun ep' hother ↦ ?_)
      (fun c chan isRtcp ↦ not_connected hep (by rw [hunset]; nofun)) fun c chan isRtcp ↦ ?_
    · rw [NodeTable.get?_modify, if_neg hother]
    · have hget : (s.endpoints.modify ep fun endpoint ↦
          { endpoint with trans := .udp addr port }).get? ep =
            some { endpoint with trans := .udp addr port } := by
        rw [NodeTable.get?_modify, if_pos rfl, hep]
        rfl
      exact not_connected hget nofun
  | wired c ep conn endpoint table rtp rtcp hconn hproto htable hep hunset hrtp hrtcp hne =>
    exact hbefore.of_wired hconn hproto htable hep hunset hrtp hrtcp hne rfl rfl
  | unwired c ep conn endpoint table rtp rtcp hconn htable hep htrans =>
    exact hbefore.of_unwired hconn htable hep htrans rfl rfl
  | endpointFreed ep endpoint hep htrans => exact hbefore.of_freed hep htrans
  | _ => exact hbefore.congr rfl rfl

theorem wired_initial (config : Config) : Wired (initial config) := by
  refine ⟨fun c conn hget ↦ absurd hget nofun, fun c conn table hget ↦ absurd hget nofun, ?_⟩
  rintro c ep chan isRtcp ⟨endpoint, rtp, rtcp, hget, -, -⟩
  exact absurd hget nofun

/-- In every state that a run leads to, tables and endpoints agree. -/
theorem wired_of_reachable {config : Config} (hreachable : Reachable env config s) : Wired s :=
  holds_of_steps (I := Wired) wired_of_effect hreachable.effects (wired_initial config)

/-! ### Frames -/

/-- `interleave_recv` does with a frame what it should: it returns, it ignores a frame on a channel
that no endpoint uses, it hands the payload to the RTCP processing of an endpoint exactly if the
channel is that endpoint's RTCP channel, and it does nothing else. -/
structure FrameHandled (s : State) (c : ℕ) (chan : UInt8) (payload : Bytes) : Prop where
  returns : ∃ ret s', interleaveRecv c chan payload s = (.ok ret, s')
  ignored : (∀ ep (k : Channel) isRtcp, k.val = chan.toNat → ¬ Connected s c ep k isRtcp) →
    interleaveRecv c chan payload s = (.ok (-1), s)
  rtcp_iff : ∀ ep, (interleaveRecv c chan payload s).2 =
      { s with trace := s.trace ++ [.rtcp ep payload] } ↔
    ∃ k : Channel, k.val = chan.toNat ∧ Connected s c ep k true
  otherwise : (∀ ep (k : Channel), k.val = chan.toNat → ¬ Connected s c ep k true) →
    (interleaveRecv c chan payload s).2 = s

theorem recorded_ne (obs : Obs) : s ≠ { s with trace := s.trace ++ [obs] } := by
  intro hsame
  have hlength := congrArg (fun s ↦ s.trace.length) hsame
  simp at hlength

section Frame

variable {c : ℕ} {conn : Conn} {chan : UInt8} (payload : Bytes)

theorem interleaveRecv_of_le (hconn : s.conns.get? c = some conn) (hchan : 8 ≤ chan.toNat) :
    interleaveRecv c chan payload s = (.ok (-1), s) := by
  rw [interleaveRecv, derefConn_apply hconn, dif_neg (Nat.not_lt.mpr hchan)]
  rfl

theorem interleaveRecv_no_table (hconn : s.conns.get? c = some conn) (hchan : chan.toNat < 8)
    (hnone : ∀ table, conn.protoState ≠ .rtsp table) :
    ∃ fault, interleaveRecv c chan payload s = (.error fault, s) := by
  rw [interleaveRecv, derefConn_apply hconn, dif_pos hchan]
  cases hstate : conn.protoState with
  | null => exact ⟨.nullTable, rfl⟩
  | http session => exact ⟨.wrongTable, rfl⟩
  | rtsp table => exact absurd hstate (hnone table)

variable {table : ChannelTable}

theorem interleaveRecv_unused (hconn : s.conns.get? c = some conn)
    (htable : conn.protoState = .rtsp table) (hchan : chan.toNat < 8)
    (hentry : table ⟨chan.toNat, hchan⟩ = none) :
    interleaveRecv c chan payload s = (.ok (-1), s) := by
  rw [interleaveRecv, derefConn_apply hconn, dif_pos hchan, htable]
  dsimp only
  rw [hentry]
  rfl

theorem interleaveRecv_rtp {ep : ℕ} (hconn : s.conns.get? c = some conn)
    (htable : conn.protoState = .rtsp table) (hchan : chan.toNat < 8)
    (hentry : table ⟨chan.toNat, hchan⟩ = some ⟨ep, false⟩) :
    interleaveRecv c chan payload s = (.ok 0, s) := by
  rw [interleaveRecv, derefConn_apply hconn, dif_pos hchan, htable]
  dsimp only
  rw [hentry]
  rfl

theorem interleaveRecv_rtcp {ep : ℕ} {endpoint : Endpoint} (hconn : s.conns.get? c = some conn)
    (htable : conn.protoState = .rtsp table) (hchan : chan.toNat < 8)
    (hentry : table ⟨chan.toNat, hchan⟩ = some ⟨ep, true⟩)
    (hep : s.endpoints.get? ep = some endpoint) :
    interleaveRecv c chan payload s =
      (.ok 0, { s with trace := s.trace ++ [.rtcp ep payload] }) := by
  rw [interleaveRecv, derefConn_apply hconn, dif_pos hchan, htable]
  dsimp only
  rw [hentry]
  change (Program.ofOption _ (s.endpoints.get? ep) >>= _) s = _
  rw [hep]
  rfl

/-- A frame that is ignored was handled as it should if no endpoint uses its channel. -/
theorem FrameHandled.of_unused
    (hignored : interleaveRecv c chan payload s = (.ok (-1), s))
    (hunused : ∀ ep (k : Channel) isRtcp, k.val = chan.toNat → ¬ Connected s c ep k isRtcp) :
    FrameHandled s c chan payload where
  returns := ⟨-1, s, hignored⟩
  ignored _ := hignored
  rtcp_iff ep := by
    rw [hignored]
    refine iff_of_false (recorded_ne _) ?_
    rintro ⟨k, hk, hconnected⟩
    exact hunused ep k true hk hconnected
  otherwise _ := by rw [hignored]

/-- Frames on a connection with a table are handled as they should. -/
theorem FrameHandled.of_table (hwired : Wired s) (hconn : s.conns.get? c = some conn)
    (htable : conn.protoState = .rtsp table) (hchan : chan.toNat < 8) :
    FrameHandled s c chan payload := by
  have hentry (ep : ℕ) (k : Channel) (isRtcp : Bool) (hk : k.val = chan.toNat) :
      Connected s c ep k isRtcp ↔ table ⟨chan.toNat, hchan⟩ = some ⟨ep, isRtcp⟩ := by
    obtain rfl : k = ⟨chan.toNat, hchan⟩ := Fin.ext hk
    rw [← hwired.entry_iff c conn hconn, entry_of_table (.inr htable)]
  cases hget : table ⟨chan.toNat, hchan⟩ with
  | none =>
    refine .of_unused payload (interleaveRecv_unused payload hconn htable hchan hget) ?_
    intro ep k isRtcp hk
    rw [hentry ep k isRtcp hk, hget]
    nofun
  | some entry =>
    obtain ⟨ep, isRtcp⟩ := entry
    have hused : Connected s c ep ⟨chan.toNat, hchan⟩ isRtcp := (hentry ep _ isRtcp rfl).mpr hget
    cases isRtcp with
    | false =>
      have hrecv := interleaveRecv_rtp payload hconn htable hchan hget
      refine ⟨⟨0, s, hrecv⟩, fun hnone ↦ absurd hused (hnone _ _ _ rfl), fun ep' ↦ ?_,
        fun _ ↦ by rw [hrecv]⟩
      rw [hrecv]
      refine iff_of_false (recorded_ne _) ?_
      rintro ⟨k, hk, hconnected⟩
      rw [hentry ep' k true hk, hget] at hconnected
      exact absurd hconnected nofun
    | true =>
      have ⟨endpoint, rtp, rtcp, hep, _⟩ := hused
      have hrecv := interleaveRecv_rtcp payload hconn htable hchan hget hep
      refine ⟨⟨0, _, hrecv⟩, fun hnone ↦ absurd hused (hnone _ _ _ rfl), fun ep' ↦ ?_,
        fun hnone ↦ absurd hused (hnone _ _ rfl)⟩
      rw [hrecv]
      constructor
      · intro hsame
        have htrace := List.append_cancel_left (congrArg State.trace hsame)
        obtain ⟨rfl, -⟩ := Obs.rtcp.inj (List.cons.inj htrace).1
        exact ⟨_, rfl, hused⟩
      · rintro ⟨k, hk, hconnected⟩
        rw [hentry ep' k true hk, hget] at hconnected
        obtain ⟨rfl, -⟩ := IChan.mk.inj (Option.some.inj hconnected)
        rfl

end Frame

/-- In every state that a run leads to, every frame on a connection is handled as it should exactly
when the connection has a channel table or the channel is one that no table has.

Assumes: the server has come to the state without a fault, and the connection is there. -/
theorem frameHandled_iff (env : Env) (config : Config) (s : State) (c : ℕ) (conn : Conn)
    (chan : UInt8) (payload : Bytes) (hreachable : Reachable env config s)
    (hconn : s.conns.get? c = some conn) :
    FrameHandled s c chan payload ↔
      8 ≤ chan.toNat ∨ ∃ table, conn.protoState = .rtsp table := by
  have hwired := wired_of_reachable hreachable
  constructor
  · intro hhandled
    by_contra hneither
    obtain ⟨hchan, hnone⟩ := not_or.mp hneither
    obtain ⟨ret, s', hreturns⟩ := hhandled.returns
    obtain ⟨fault, hfault⟩ := interleaveRecv_no_table payload hconn (Nat.not_le.mp hchan)
      fun table htable ↦ hnone ⟨table, htable⟩
    exact absurd (congrArg Prod.fst (hreturns.symm.trans hfault)) nofun
  · intro hcase
    by_cases hchan : chan.toNat < 8
    · obtain ⟨table, htable⟩ := hcase.resolve_left (Nat.not_le.mpr hchan)
      exact .of_table payload hwired hconn htable hchan
    · refine .of_unused payload (interleaveRecv_of_le payload hconn (Nat.not_lt.mp hchan)) ?_
      intro ep k isRtcp hk _
      exact absurd (hk ▸ k.isLt) hchan

/-- A client that has set up a track on the channels 0 and 1. -/
def interleavedEvents : List Event :=
  [.accept 3, .read 0 false 0 (ascii "SETUP rtsp://h/open/track0 RTSP/1.0\r\n" ++
    ascii "Transport: RTP/AVP/TCP;interleaved=0-1\r\n\r\n")]

/-- The server has set up the track, and handles a frame on its RTCP channel. -/
theorem frameHandled_after_setup :
    (sampleRun interleavedEvents).1 = .ok () ∧
      FrameHandled (sampleRun interleavedEvents).2 0 1 [] := by
  have hrun : (sampleRun interleavedEvents).1 = .ok () := by decide +kernel
  have hentry : ((sampleRun interleavedEvents).2.conns.get? 0).bind (·.entry 1) =
      some ⟨0, true⟩ := by decide +kernel
  obtain ⟨conn, hconn, hentry⟩ := Option.bind_eq_some_iff.mp hentry
  exact ⟨hrun, (frameHandled_iff sampleEnv sampleConfig _ 0 conn 1 [] (reachable_sampleRun hrun)
    hconn).mpr (.inr (table_of_entry hentry))⟩

/-- A client that has sent one OPTIONS request. -/
def optionsEvents : List Event :=
  [.accept 3, .read 0 false 0 (ascii "OPTIONS * RTSP/1.0\r\n\r\n")]

/-- After an OPTIONS request the connection speaks RTSP and has no channel table, and the server
uses the missing table when an empty frame on channel 0 arrives. -/
theorem frame_without_table :
    Reachable sampleEnv sampleConfig (sampleRun optionsEvents).2 ∧
      ((sampleRun optionsEvents).2.conns.get? 0).map (·.reader.proto) = some .rtsp ∧
      ¬ FrameHandled (sampleRun optionsEvents).2 0 0 [] ∧
      (sampleRun (optionsEvents ++ [.read 0 false 0 [36, 0, 0, 0]])).1 = .error .nullTable := by
  have hrun : (sampleRun optionsEvents).1 = .ok () := by decide +kernel
  refine ⟨reachable_sampleRun hrun, by decide +kernel, fun hhandled ↦ ?_,
    by decide +kernel⟩
  obtain ⟨ret, s', hreturns⟩ := hhandled.returns
  have hfault : (interleaveRecv 0 0 [] (sampleRun optionsEvents).2).1 = .error .nullTable := by
    decide +kernel
  exact absurd ((congrArg Prod.fst hreturns).symm.trans hfault) nofun

end WisCam.Server
