import Mathlib.Algebra.Ring.Nat
import Mathlib.Data.List.Nodup
import Mathlib.Logic.Function.Basic
import TinyMuduo.Base.Text
import TinyMuduo.Lib.Machine

/-!
# Server.Names

The names of connections. `TcpServer::newConnection` prints `":%s#%d"` of the listen address and
`nextConnId_` into a buffer of 32 bytes, and the result is the key of the connection in
`connections_`. `snprintf` cuts what does not fit: with a long address the last digits of the id
are lost.
-/

namespace TinyMuduo

/-- `struct sockaddr_in`: the address `a.b.c.d` and the port. -/
structure InetAddress where
  a : UInt8
  b : UInt8
  c : UInt8
  d : UInt8
  port : UInt16

namespace InetAddress

/-- `inet_ntop(AF_INET, ..)`. -/
def toIp (addr : InetAddress) : List Char :=
  decimal addr.a.toNat ++ '.' :: decimal addr.b.toNat ++ '.' :: decimal addr.c.toNat ++
    '.' :: decimal addr.d.toNat

def toIpPort (addr : InetAddress) : List Char :=
  snprintf 32 (addr.toIp ++ ':' :: decimal addr.port.toNat)

end InetAddress

/-- The part of `TcpServer` that knows its connections. -/
structure ConnectionMap where
  name : List Char
  hostport : List Char
  nextConnId : Nat
  /-- `connections_`: the id of the connection under each name. -/
  connections : List Char → Option Nat
  /-- The connections that were accepted and not removed. -/
  live : List Nat

inductive MapOp where
  /-- `newConnection`, up to `connections_[connName] = conn`. -/
  | newConnection
  /-- `connections_.erase(conn->name())` in `removeConnectionInLoop`. -/
  | erase (conn : Nat)

namespace ConnectionMap

/-- `TcpServer::TcpServer`. -/
def new (listenAddr : InetAddress) (nameArg : List Char) : ConnectionMap :=
  ⟨nameArg, listenAddr.toIpPort, 1, fun _ => none, []⟩

/-- What is printed into the buffer. -/
def connSuffix (s : ConnectionMap) (id : Nat) : List Char := ':' :: s.hostport ++ '#' :: decimal id

def connName (s : ConnectionMap) (id : Nat) : List Char :=
  s.name ++ snprintf 32 (s.connSuffix id)

def exec (s : ConnectionMap) : MapOp → ConnectionMap
  | .newConnection =>
    { s with
      nextConnId := s.nextConnId + 1
      connections := Function.update s.connections (s.connName s.nextConnId) (some s.nextConnId)
      live := s.live ++ [s.nextConnId] }
  | .erase conn =>
    { s with
      connections := Function.update s.connections (s.connName conn) none
      live := s.live.erase conn }

/-- `nextConnId_` is an `int`; a connection is removed once. -/
def Enabled (s : ConnectionMap) : MapOp → Prop
  | .newConnection => s.nextConnId < 2 ^ 31
  | .erase conn => conn ∈ s.live

instance (s : ConnectionMap) : (op : MapOp) → Decidable (s.Enabled op)
  | .newConnection => inferInstanceAs (Decidable (_ < _))
  | .erase _ => inferInstanceAs (Decidable (_ ∈ _))

/-- The name of the next connection fits into the buffer. -/
def Fits (s : ConnectionMap) : MapOp → Prop
  | .newConnection => (s.connSuffix s.nextConnId).length < 32
  | .erase _ => True

instance (s : ConnectionMap) : (op : MapOp) → Decidable (s.Fits op)
  | .newConnection => inferInstanceAs (Decidable (_ < _))
  | .erase _ => isTrue trivial

variable {s : ConnectionMap}

theorem connName_inj {i j : Nat} (hi : (s.connSuffix i).length < 32)
    (hj : (s.connSuffix j).length < 32) (h : s.connName i = s.connName j) : i = j := by
  have hsuffix := List.append_cancel_left h
  rw [snprintf, snprintf, List.take_of_length_le (by omega), List.take_of_length_le (by omega)]
    at hsuffix
  have hdigits := List.append_cancel_left hsuffix
  exact decimal_inj (List.cons.inj hdigits).2

/-- The map has the live connections, each under its own name. -/
structure Inv (s : ConnectionMap) : Prop where
  fits : ∀ i, 1 ≤ i → i < s.nextConnId → (s.connSuffix i).length < 32
  live : ∀ i ∈ s.live, 1 ≤ i ∧ i < s.nextConnId
  nodup : s.live.Nodup
  entry : ∀ key i, s.connections key = some i ↔ i ∈ s.live ∧ key = s.connName i

theorem Inv.distinct (h : s.Inv) {i j : Nat} (hi : 1 ≤ i) (hi' : i < s.nextConnId) (hj : 1 ≤ j)
    (hj' : j < s.nextConnId) (hn : s.connName i = s.connName j) : i = j :=
  connName_inj (h.fits i hi hi') (h.fits j hj hj') hn

theorem new_inv (listenAddr : InetAddress) (nameArg : List Char) :
    (new listenAddr nameArg).Inv where
  fits i h h' := by
    have : i < 1 := h'
    omega
  live := nofun
  nodup := List.nodup_nil
  entry key i := ⟨nofun, fun h => nomatch h.1⟩

/-- The name of the next connection is not in use. -/
theorem Inv.next_free (h : s.Inv) (hf : s.Fits .newConnection) :
    s.connections (s.connName s.nextConnId) = none := by
  cases hc : s.connections (s.connName s.nextConnId) with
  | none => rfl
  | some i =>
    obtain ⟨hm, hkey⟩ := (h.entry _ i).1 hc
    obtain ⟨hi, hlt⟩ := h.live i hm
    have := connName_inj hf (h.fits i hi hlt) hkey
    omega

theorem newConnection_inv (h : s.Inv) (hf : s.Fits .newConnection)
    (hpos : 1 ≤ s.nextConnId) : (s.exec .newConnection).Inv := by
  have hfits : ∀ i, 1 ≤ i → i < s.nextConnId + 1 → (s.connSuffix i).length < 32 := by
    intro i hi hlt
    by_cases heq : i = s.nextConnId
    · rw [heq]
      exact hf
    · exact h.fits i hi (by omega)
  refine ⟨hfits, fun i hm => ?_, ?_, fun key i => ?_⟩
  · rcases List.mem_append.1 hm with hm | hm
    · obtain ⟨hi, hlt⟩ := h.live i hm
      exact ⟨hi, Nat.lt_succ_of_lt hlt⟩
    · rw [List.mem_singleton.1 hm]
      exact ⟨hpos, Nat.lt_succ_self _⟩
  · refine List.nodup_append.2 ⟨h.nodup, List.nodup_singleton _, fun i hi j hj hij => ?_⟩
    have := (h.live i hi).2
    rw [hij, List.mem_singleton.1 hj] at this
    exact Nat.lt_irrefl _ this
  · have hnext := h.next_free hf
    simp only [exec]
    by_cases hk : key = s.connName s.nextConnId
    · subst hk
      rw [Function.update_self]
      constructor
      · rintro heq
        cases heq
        exact ⟨List.mem_append_right _ List.mem_cons_self, rfl⟩
      · rintro ⟨hm, hkey⟩
        rcases List.mem_append.1 hm with hm | hm
        · have := (h.entry _ i).2 ⟨hm, hkey⟩
          rw [hnext] at this
          cases this
        · rw [List.mem_singleton.1 hm]
    · rw [Function.update_of_ne hk, h.entry]
      constructor
      · rintro ⟨hm, hkey⟩
        exact ⟨List.mem_append_left _ hm, hkey⟩
      · rintro ⟨hm, hkey⟩
        rcases List.mem_append.1 hm with hm | hm
        · exact ⟨hm, hkey⟩
        · rw [List.mem_singleton.1 hm] at hkey
          exact absurd hkey hk

theorem erase_inv (h : s.Inv) {conn : Nat} (hm : conn ∈ s.live) : (s.exec (.erase conn)).Inv := by
  refine ⟨h.fits, fun i hi => h.live i (List.mem_of_mem_erase hi), h.nodup.erase _, fun key i => ?_⟩
  simp only [exec]
  rw [h.nodup.mem_erase_iff]
  by_cases hk : key = s.connName conn
  · subst hk
    rw [Function.update_self]
    refine ⟨nofun, ?_⟩
    rintro ⟨⟨hne, hi⟩, hkey⟩
    obtain ⟨hc, hc'⟩ := h.live conn hm
    obtain ⟨hl, hl'⟩ := h.live i hi
    exact absurd (h.distinct hl hl' hc hc' hkey.symm) hne
  · rw [Function.update_of_ne hk, h.entry]
    constructor
    · rintro ⟨hi, rfl⟩
      exact ⟨⟨fun heq => hk (by rw [heq]), hi⟩, rfl⟩
    · rintro ⟨⟨-, hi⟩, hkey⟩
      exact ⟨hi, hkey⟩

end ConnectionMap

def connectionMap : Machine ConnectionMap MapOp Empty where
  enabled := ConnectionMap.Enabled
  exec s op := .ok (s.exec op)

instance (s : ConnectionMap) (op : MapOp) : Decidable (connectionMap.enabled s op) :=
  inferInstanceAs (Decidable (s.Enabled op))

namespace ConnectionMap

/-- **Names identify connections.** As long as the names fit into the buffer, no two connections of
a server get the same name, `connections_` has exactly the live connections, each under its own
name, and the next connection that fits does not overwrite one. -/
theorem names_identify (listenAddr : InetAddress) (nameArg : List Char) {ops : List MapOp}
    {s : ConnectionMap} (h : (connectionMap.under Fits).Run (.new listenAddr nameArg) ops s) :
    (∀ i j, 1 ≤ i → i < s.nextConnId → 1 ≤ j → j < s.nextConnId →
      s.connName i = s.connName j → i = j) ∧
    (∀ key i, s.connections key = some i ↔ i ∈ s.live ∧ key = s.connName i) ∧
    (s.Fits .newConnection → s.connections (s.connName s.nextConnId) = none) := by
  obtain ⟨hi, hpos⟩ : s.Inv ∧ 1 ≤ s.nextConnId := by
    refine h.keeps (I := fun s : ConnectionMap => s.Inv ∧ 1 ≤ s.nextConnId) ?_
      ⟨new_inv listenAddr nameArg, Nat.le_refl 1⟩
    rintro s op s' ⟨hi, hpos⟩ ⟨he, hf⟩ hx
    cases hx
    cases op with
    | newConnection => exact ⟨newConnection_inv hi hf hpos, Nat.le_succ_of_le hpos⟩
    | erase conn => exact ⟨erase_inv hi he, hpos⟩
  exact ⟨fun i j hi₁ hi₂ hj₁ hj₂ => hi.distinct hi₁ hi₂ hj₁ hj₂, hi.entry, hi.next_free⟩

/-- A server that listens on `192.168.100.100:12345`, the longest kind of address. -/
def sampleAddr : InetAddress := ⟨192, 168, 100, 100, 12345⟩

theorem names_identify_sample :
    ∃ s, (connectionMap.under Fits).Run (.new sampleAddr "echo".toList)
      [.newConnection, .newConnection, .erase 1, .newConnection] s ∧ s.live = [2, 3] ∧
      s.connections (s.connName 3) = some 3 := by
  refine (Machine.Run.of_replay (connectionMap.under Fits) (.new sampleAddr "echo".toList) _
    ConnectionMap.live [2, 3] (by decide +kernel)).imp fun s ⟨hrun, hs⟩ => ⟨hrun, hs, ?_⟩
  exact ((names_identify _ _ hrun).2.1 _ 3).2 ⟨by simp [hs], rfl⟩

/-- `n` connections are accepted, and none is closed. -/
theorem run_newConnections (listenAddr : InetAddress) (nameArg : List Char) {n : Nat}
    (hn : n < 2 ^ 31) :
    ∃ s, connectionMap.Run (.new listenAddr nameArg) (List.replicate n .newConnection) s ∧
      s.name = nameArg ∧ s.hostport = listenAddr.toIpPort ∧ s.nextConnId = n + 1 ∧
      ∀ i, 1 ≤ i → i ≤ n → i ∈ s.live := by
  induction n with
  | zero => exact ⟨_, .nil, rfl, rfl, rfl, fun i hi hle => by omega⟩
  | succ n ih =>
    obtain ⟨s, hrun, hname, hhost, hnext, hlive⟩ := ih (by omega)
    have hen : s.Enabled .newConnection := by
      rw [Enabled, hnext]
      exact hn
    refine ⟨s.exec .newConnection, ?_, hname, hhost, congrArg (· + 1) hnext, fun i hi hle => ?_⟩
    · rw [List.replicate_succ']
      exact hrun.snoc hen rfl
    · by_cases heq : i = n + 1
      · rw [heq, ← hnext]
        exact List.mem_append_right _ List.mem_cons_self
      · exact List.mem_append_left _ (hlive i hi (by omega))

/-- Connection 100000000 of this server has the name of connection 10000000, which is still live,
and replaces it in `connections_`. -/
theorem names_collide :
    ∃ s, connectionMap.Run (.new sampleAddr "echo".toList)
        (List.replicate 99999999 .newConnection) s ∧
      s.Enabled .newConnection ∧ s.nextConnId = 100000000 ∧ 10000000 ∈ s.live ∧
      s.connName 10000000 = s.connName 100000000 ∧
      (s.exec .newConnection).connections (s.connName 10000000) = some 100000000 := by
  obtain ⟨s, hrun, hname, hhost, hnext, hlive⟩ :=
    run_newConnections sampleAddr "echo".toList (n := 99999999) (by omega)
  have hcollide : s.connName 10000000 = s.connName 100000000 := by
    rw [connName, connName, connSuffix, connSuffix, hname, hhost]
    decide +kernel
  refine ⟨s, hrun, ?_, hnext, hlive _ (by omega) (by omega), hcollide, ?_⟩
  · rw [Enabled, hnext]
    omega
  · simp only [exec]
    rw [hnext, hcollide, Function.update_self]

end ConnectionMap
end TinyMuduo
