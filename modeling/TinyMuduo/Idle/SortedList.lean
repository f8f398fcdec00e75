import Mathlib.Data.List.Nodup
import Mathlib.Logic.Function.Basic
import TinyMuduo.Lib.Machine
import TinyMuduo.Lib.Result

/-!
# Idle.SortedList

The other `EchoServer` of `idleconnection`: a list of the connections, the one that was heard of
last at its end, and the time when something was heard of each. `onTimer` goes through the list from
the front and stops at the first connection that is not idle.

The list is not always sorted. `onConnection` takes the time itself, while `onMessage` gets the time
at which `poll` has returned, which is earlier; and the clock may be set back. `lag` bounds by how
much a time may be behind one that was used before. Times are in microseconds.

`lastReceiveTime` is not always when something was heard of a connection (`heard`): `onTimer` sets
it back when it lies in the future. So a connection may be shut down up to `lag` too early, and, as
the loop stops at the first that is not idle, up to `lag` too late.
-/

namespace TinyMuduo
namespace Idle

open Function

namespace SortedList

structure Conn where
  /-- Between the two calls of `onConnection`. -/
  up : Bool
  /-- `it->lock()` -/
  alive : Bool
  connected : Bool
  /-- `shutdown()` and `forceCloseWithDelay()` were called. -/
  shut : Bool
  lastReceiveTime : Int
  deriving DecidableEq, Repr

end SortedList

structure SortedList where
  idleSeconds : Int
  connectionList : List Nat
  conns : Nat → SortedList.Conn
  /-- How many connections there were. -/
  count : Nat
  /-- The latest of the times so far. -/
  latest : Int

namespace SortedList

inductive Op where
  | connect (now : Int)
  | disconnect (c : Nat)
  | message (c : Nat) (time : Int)
  | timer (now : Int)
  | destroy (c : Nat)
  deriving DecidableEq, Repr

inductive Fault where
  /-- `node.position` is not in the list. -/
  | position (c : Nat)
  deriving DecidableEq, Repr

def init (idleSeconds : Int) : SortedList where
  idleSeconds := idleSeconds
  connectionList := []
  conns := fun _ => ⟨false, false, false, false, 0⟩
  count := 0
  latest := 0

def idle (s : SortedList) : Int := s.idleSeconds * 1000000

def set (s : SortedList) (c : Nat) (conn : Conn) : SortedList :=
  { s with conns := update s.conns c conn }

/-- `shutdown()` and `forceCloseWithDelay(3.5)`, if the connection is connected. -/
def Conn.shutdown (conn : Conn) : Conn :=
  if conn.connected then { conn with connected := false, shut := true } else conn

/-- The loop stops at this connection. -/
def Conn.Young (idle : Int) (now : Int) (conn : Conn) : Prop :=
  0 ≤ now - conn.lastReceiveTime ∧ now - conn.lastReceiveTime ≤ idle

instance (idle : Int) (now : Int) (conn : Conn) : Decidable (conn.Young idle now) :=
  inferInstanceAs (Decidable (_ ∧ _))

/-- One turn of the loop, if it does not stop. -/
def Conn.check (idle : Int) (now : Int) (conn : Conn) : Conn :=
  if idle < now - conn.lastReceiveTime then conn.shutdown
  else { conn with lastReceiveTime := now }

/-- The loop of `onTimer`, over what is left of the list. -/
def sweep (idle : Int) (now : Int) : List Nat → (Nat → Conn) → List Nat × (Nat → Conn)
  | [], conns => ([], conns)
  | c :: rest, conns =>
    if (conns c).alive then
      if (conns c).Young idle now then (c :: rest, conns)
      else
        let (rest, conns) :=
          sweep idle now rest (update conns c ((conns c).check idle now))
        (c :: rest, conns)
    -- an expired pointer is erased
    else sweep idle now rest conns

def exec (s : SortedList) : Op → Except Fault SortedList
  | .connect now =>
    .ok { s.set s.count ⟨true, true, true, false, now⟩ with
      connectionList := s.connectionList ++ [s.count]
      count := s.count + 1
      latest := max s.latest now }
  | .disconnect c => do
    Result.ensure (c ∈ s.connectionList) (.position c)
    .ok { s.set c { s.conns c with up := false, connected := false } with
      connectionList := s.connectionList.erase c }
  | .message c time => do
    Result.ensure (c ∈ s.connectionList) (.position c)
    .ok { s.set c { s.conns c with lastReceiveTime := time } with
      connectionList := s.connectionList.erase c ++ [c]
      latest := max s.latest time }
  | .timer now =>
    let (connectionList, conns) := sweep s.idle now s.connectionList s.conns
    .ok { s with connectionList, conns, latest := max s.latest now }
  | .destroy c => .ok (s.set c { s.conns c with alive := false })

/-- `TcpConnection` calls `onConnection` before it is destroyed, and `onMessage` only in between. -/
def Enabled (s : SortedList) : Op → Prop
  | .connect _ | .timer _ => True
  | .disconnect c | .message c _ => c < s.count ∧ (s.conns c).up = true
  | .destroy c => c < s.count ∧ (s.conns c).up = false

instance (s : SortedList) : (op : Op) → Decidable (s.Enabled op)
  | .connect _ | .timer _ => isTrue trivial
  | .disconnect c | .message c _ =>
    inferInstanceAs (Decidable (c < s.count ∧ (s.conns c).up = true))
  | .destroy c => inferInstanceAs (Decidable (c < s.count ∧ (s.conns c).up = false))

def machine : Machine SortedList Op Fault where
  enabled := Enabled
  exec := exec

/-- No time is more than `lag` behind one that was used before. -/
def Lags (lag : Int) (s : SortedList) : Op → Prop
  | .connect time | .message _ time | .timer time => s.latest ≤ time + lag
  | .disconnect _ | .destroy _ => True

instance (lag : Int) (s : SortedList) : (op : Op) → Decidable (Lags lag s op)
  | .connect time | .message _ time | .timer time =>
    inferInstanceAs (Decidable (s.latest ≤ time + lag))
  | .disconnect _ | .destroy _ => isTrue trivial

instance (lag : Int) (s : SortedList) (op : Op) :
    Decidable ((machine.under (Lags lag)).enabled s op) :=
  inferInstanceAs (Decidable (s.Enabled op ∧ Lags lag s op))

/-- What was heard: how many connections there were, and the last time for each. -/
def hear : Nat × (Nat → Int) → Op → Nat × (Nat → Int)
  | (n, times), .connect now => (n + 1, update times n now)
  | (n, times), .message c time => (n, update times c time)
  | h, .disconnect _ | h, .timer _ | h, .destroy _ => h

/-- When a connection was made, or the last message came from it. -/
def heard (ops : List Op) : Nat → Int := (ops.foldl hear (0, fun _ => 0)).2

/-! ## One sweep -/

section Sweep

variable {idle : Int} {now : Int}

@[simp] theorem Conn.shutdown_last (conn : Conn) :
    conn.shutdown.lastReceiveTime = conn.lastReceiveTime := by
  unfold shutdown
  split <;> rfl

@[simp] theorem Conn.shutdown_up (conn : Conn) : conn.shutdown.up = conn.up := by
  unfold shutdown
  split <;> rfl

@[simp] theorem Conn.shutdown_alive (conn : Conn) : conn.shutdown.alive = conn.alive := by
  unfold shutdown
  split <;> rfl

@[simp] theorem Conn.check_up (conn : Conn) : (conn.check idle now).up = conn.up := by
  unfold check
  split <;> simp

@[simp] theorem Conn.check_alive (conn : Conn) : (conn.check idle now).alive = conn.alive := by
  unfold check
  split <;> simp

theorem Conn.check_connected {conn : Conn} (h : (conn.check idle now).connected = true) :
    conn.connected = true := by
  unfold check shutdown at h
  split at h
  · split at h
    · cases h
    · exact h
  · exact h

/-- The time stays, or it was in the future and is set to the present. -/
theorem Conn.check_last {conn : Conn} (h : ¬ conn.Young idle now) :
    (conn.check idle now).lastReceiveTime = conn.lastReceiveTime ∨
      (conn.check idle now).lastReceiveTime = now ∧ now < conn.lastReceiveTime := by
  unfold check
  split
  · exact .inl conn.shutdown_last
  next hidle =>
    refine .inr ⟨rfl, ?_⟩
    refine Int.not_le.1 fun hle => h ⟨?_, Int.not_lt.1 hidle⟩
    exact Int.sub_nonneg_of_le hle

theorem Conn.check_shut (conn : Conn) :
    (conn.check idle now).shut =
      (conn.shut || (conn.connected && decide (idle < now - conn.lastReceiveTime))) := by
  unfold check shutdown
  split
  next hidle => cases hc : conn.connected <;> simp [hidle]
  next hidle => simp [hidle]

/-- The connections up to the first that is not idle are checked, and no others. -/
theorem sweep_spec (idle : Int) (now : Int) {l : List Nat} {conns : Nat → Conn} (hnodup : l.Nodup)
    (halive : ∀ c ∈ l, (conns c).alive = true) :
    ∃ done rest, l = done ++ rest ∧
      sweep idle now l conns =
        (l, fun c => if c ∈ done then (conns c).check idle now else conns c) ∧
      (∀ c ∈ done, ¬ (conns c).Young idle now) ∧
      ∀ c rest', rest = c :: rest' → (conns c).Young idle now := by
  induction l generalizing conns with
  | nil =>
    refine ⟨[], [], rfl, ?_, fun c hc => ?_, fun c rest' h => ?_⟩
    · simp [sweep]
    · cases hc
    · cases h
  | cons c l ih =>
    obtain ⟨hc, hl⟩ := List.nodup_cons.1 hnodup
    by_cases hyoung : (conns c).Young idle now
    · refine ⟨[], c :: l, rfl, ?_, fun d hd => ?_, fun d rest' h => ?_⟩
      · simp [sweep, halive c List.mem_cons_self, hyoung]
      · cases hd
      · cases h
        exact hyoung
    · have hupdate : ∀ d ∈ l, update conns c ((conns c).check idle now) d = conns d :=
        fun d hd => update_of_ne (fun h : d = c => hc (h ▸ hd)) _ _
      have halive' : ∀ d ∈ l,
          (update conns c ((conns c).check idle now) d).alive = true := by
        intro d hd
        rw [hupdate d hd]
        exact halive d (List.mem_cons_of_mem _ hd)
      obtain ⟨done, rest, rfl, hsweep, hdone, hrest⟩ := ih hl halive'
      refine ⟨c :: done, rest, rfl, ?_, fun d hd => ?_, fun d rest' h => ?_⟩
      · rw [sweep, if_pos (halive c List.mem_cons_self), if_neg hyoung, hsweep]
        simp only [Prod.mk.injEq, true_and]
        funext d
        by_cases hd : d = c
        · subst hd
          have hnot : d ∉ done := fun h => hc (List.mem_append_left _ h)
          simp [hnot]
        · by_cases hmem : d ∈ done <;> simp [hd, hmem]
      · rcases List.mem_cons.1 hd with rfl | hd
        · exact hyoung
        · have := hdone d hd
          rwa [hupdate d (List.mem_append_left _ hd)] at this
      · have := hrest d rest' h
        rwa [hupdate d (List.mem_append_right _ (h ▸ List.mem_cons_self))] at this

end Sweep

/-! ## The order of the list -/

structure Inv (lag : Int) (s : SortedList) : Prop where
  nodup : s.connectionList.Nodup
  bound : ∀ c ∈ s.connectionList, c < s.count
  up : ∀ c < s.count, ((s.conns c).up = true ↔ c ∈ s.connectionList)
  alive : ∀ c ∈ s.connectionList, (s.conns c).alive = true
  connected : ∀ c, (s.conns c).connected = true → c < s.count ∧ (s.conns c).up = true
  latest : ∀ c ∈ s.connectionList, (s.conns c).lastReceiveTime ≤ s.latest
  sorted : s.connectionList.Pairwise fun c d =>
    (s.conns c).lastReceiveTime ≤ (s.conns d).lastReceiveTime + lag

theorem init_inv (idleSeconds lag : Int) : (init idleSeconds).Inv lag where
  nodup := .nil
  bound c hc := by cases hc
  up c hc := by cases hc
  alive c hc := by cases hc
  connected c hc := by cases hc
  latest c hc := by cases hc
  sorted := .nil

variable {lag : Int} {s s' : SortedList}

/-- A connection goes to the end of the list, with a time that is not far behind. -/
theorem Inv.sorted_append (h : s.Inv lag) {l : List Nat} (hl : l.Sublist s.connectionList) {c : Nat}
    (hc : c ∉ l) {conn : Conn} (htime : s.latest ≤ conn.lastReceiveTime + lag) :
    (l ++ [c]).Pairwise fun d e => (update s.conns c conn d).lastReceiveTime ≤
      (update s.conns c conn e).lastReceiveTime + lag := by
  have hold : ∀ d ∈ l, update s.conns c conn d = s.conns d := fun d hd =>
    update_of_ne (fun heq : d = c => hc (heq ▸ hd)) _ _
  refine List.pairwise_append.2 ⟨?_, List.pairwise_singleton _ _, fun d hd e he => ?_⟩
  · refine (h.sorted.sublist hl).imp_of_mem fun {d e} hd he hle => ?_
    rw [hold d hd, hold e he]
    exact hle
  · rw [List.mem_singleton.1 he, hold d hd, update_self]
    exact Int.le_trans (h.latest d (hl.subset hd)) htime

/-- What is known of a connection after a sweep. -/
theorem Inv.sweep (h : s.Inv lag) {now : Int} (hlag : s.latest ≤ now + lag)
    (hx : s.exec (.timer now) = .ok s') :
    s'.connectionList = s.connectionList ∧ s'.Inv lag ∧
    ∃ done rest, s.connectionList = done ++ rest ∧
      (∀ c, s'.conns c = if c ∈ done then (s.conns c).check s.idle now else s.conns c) ∧
      (∀ c, (s'.conns c).lastReceiveTime = (s.conns c).lastReceiveTime ∨
        (s'.conns c).lastReceiveTime = now ∧ now < (s.conns c).lastReceiveTime) ∧
      ∀ c rest', rest = c :: rest' → (s.conns c).Young s.idle now := by
  obtain ⟨done, rest, hl, hsweep, hdone, hrest⟩ := sweep_spec s.idle now h.nodup h.alive
  simp only [exec, hsweep] at hx
  cases hx
  have hlast : ∀ c, (if c ∈ done then (s.conns c).check s.idle now else s.conns c).lastReceiveTime =
        (s.conns c).lastReceiveTime ∨
      (if c ∈ done then (s.conns c).check s.idle now else s.conns c).lastReceiveTime = now ∧
        now < (s.conns c).lastReceiveTime := by
    intro c
    split
    next hc => exact Conn.check_last (hdone c hc)
    next => exact .inl rfl
  refine ⟨rfl,
    ⟨h.nodup, h.bound, fun c hc => ?_, fun c hc => ?_, fun c hc => ?_, fun c hc => ?_, ?_⟩,
    done, rest, hl, fun c => rfl, hlast, hrest⟩
  · dsimp only
    split
    · rw [Conn.check_up]
      exact h.up c hc
    · exact h.up c hc
  · dsimp only
    split
    · rw [Conn.check_alive]
      exact h.alive c hc
    · exact h.alive c hc
  · dsimp only at hc ⊢
    split
    next hmem =>
      rw [if_pos hmem] at hc
      rw [Conn.check_up]
      exact h.connected c (Conn.check_connected hc)
    next hmem =>
      rw [if_neg hmem] at hc
      exact h.connected c hc
  · have hle := h.latest c hc
    rcases hlast c with heq | ⟨heq, -⟩
    · dsimp only
      rw [heq]
      exact Int.le_trans hle (Int.le_max_left ..)
    · dsimp only
      rw [heq]
      exact Int.le_max_right ..
  · refine h.sorted.imp_of_mem fun {c d} hc hd hle => ?_
    have hc' := h.latest c hc
    rcases hlast c with heq | ⟨heq, hlt⟩ <;> rcases hlast d with heq' | ⟨heq', -⟩
    · rw [heq, heq']
      exact hle
    · rw [heq, heq']
      exact Int.le_trans hc' hlag
    · rw [heq, heq']
      exact Int.le_trans (Int.le_of_lt hlt) hle
    · rw [heq, heq']
      exact Int.le_trans (Int.le_of_lt hlt) (Int.le_trans hc' hlag)

theorem nodup_snoc {l : List Nat} {c : Nat} (h : l.Nodup) (hc : c ∉ l) : (l ++ [c]).Nodup := by
  refine List.nodup_append.2 ⟨h, List.nodup_singleton c, fun d hd e he heq => hc ?_⟩
  rw [← List.mem_singleton.1 he, ← heq]
  exact hd

theorem Inv.connect (h : s.Inv lag) {now : Int} (hlag : s.latest ≤ now + lag)
    (hx : s.exec (.connect now) = .ok s') : s'.Inv lag := by
  cases hx
  have hnew : s.count ∉ s.connectionList := fun hmem => Nat.lt_irrefl _ (h.bound _ hmem)
  have hold : ∀ c, c ≠ s.count →
      update s.conns s.count ⟨true, true, true, false, now⟩ c = s.conns c :=
    fun c hc => update_of_ne hc _ _
  refine ⟨nodup_snoc h.nodup hnew, fun c hc => ?_, fun c hc => ?_, fun c hc => ?_, fun c hc => ?_,
    fun c hc => ?_, h.sorted_append (List.Sublist.refl _) hnew hlag⟩
  · rcases List.mem_append.1 hc with hc | hc
    · exact Nat.lt_succ_of_lt (h.bound c hc)
    · rw [List.mem_singleton.1 hc]
      exact Nat.lt_succ_self _
  · simp only [set]
    by_cases hcc : c = s.count
    · subst hcc
      simp
    · rw [hold c hcc, h.up c (Nat.lt_of_le_of_ne (Nat.le_of_lt_succ hc) hcc)]
      simp [hcc]
  · simp only [set]
    by_cases hcc : c = s.count
    · subst hcc
      simp
    · rw [hold c hcc]
      exact h.alive c (by simpa [hcc] using hc)
  · simp only [set] at hc ⊢
    by_cases hcc : c = s.count
    · subst hcc
      simp
    · rw [hold c hcc] at hc ⊢
      obtain ⟨hlt, hup⟩ := h.connected c hc
      exact ⟨Nat.lt_succ_of_lt hlt, hup⟩
  · simp only [set]
    by_cases hcc : c = s.count
    · subst hcc
      rw [update_self]
      exact Int.le_max_right ..
    · rw [hold c hcc]
      exact Int.le_trans (h.latest c (by simpa [hcc] using hc)) (Int.le_max_left ..)

theorem Inv.disconnect (h : s.Inv lag) {c : Nat} (hx : s.exec (.disconnect c) = .ok s') :
    s'.Inv lag := by
  obtain ⟨-, -, hx⟩ := Result.bind_eq_ok hx
  cases hx
  have hmem : ∀ d, d ∈ s.connectionList.erase c ↔ d ≠ c ∧ d ∈ s.connectionList := fun d =>
    h.nodup.mem_erase_iff
  have hold : ∀ d, d ≠ c →
      update s.conns c { s.conns c with up := false, connected := false } d = s.conns d :=
    fun d hd => update_of_ne hd _ _
  refine ⟨h.nodup.erase c, fun d hd => h.bound d ((hmem d).1 hd).2, fun d hd => ?_, fun d hd => ?_,
    fun d hd => ?_, fun d hd => ?_, ?_⟩
  · simp only [set]
    rw [hmem]
    by_cases hdc : d = c
    · subst hdc
      simp
    · rw [hold d hdc, h.up d hd]
      simp [hdc]
  · obtain ⟨hdc, hd⟩ := (hmem d).1 hd
    simp only [set]
    rw [hold d hdc]
    exact h.alive d hd
  · simp only [set] at hd ⊢
    by_cases hdc : d = c
    · subst hdc
      simp at hd
    · rw [hold d hdc] at hd ⊢
      exact h.connected d hd
  · obtain ⟨hdc, hd⟩ := (hmem d).1 hd
    simp only [set]
    rw [hold d hdc]
    exact h.latest d hd
  · refine (h.sorted.sublist List.erase_sublist).imp_of_mem fun {d e} hd he hle => ?_
    simp only [set]
    rw [hold d ((hmem d).1 hd).1, hold e ((hmem e).1 he).1]
    exact hle

theorem Inv.message (h : s.Inv lag) {c : Nat} {time : Int} (hlag : s.latest ≤ time + lag)
    (hup : c < s.count ∧ (s.conns c).up = true) (hx : s.exec (.message c time) = .ok s') :
    s'.Inv lag := by
  obtain ⟨-, -, hx⟩ := Result.bind_eq_ok hx
  cases hx
  have hin : c ∈ s.connectionList := (h.up c hup.1).1 hup.2
  have hnot : c ∉ s.connectionList.erase c := fun hmem => (h.nodup.mem_erase_iff.1 hmem).1 rfl
  have hmem : ∀ d, d ∈ s.connectionList.erase c ++ [c] ↔ d ∈ s.connectionList := by
    intro d
    rw [List.mem_append, h.nodup.mem_erase_iff, List.mem_singleton]
    by_cases hdc : d = c
    · subst hdc
      simp [hin]
    · simp [hdc]
  have hold : ∀ d, d ≠ c →
      update s.conns c { s.conns c with lastReceiveTime := time } d = s.conns d :=
    fun d hd => update_of_ne hd _ _
  have hsame : ∀ d,
      (update s.conns c { s.conns c with lastReceiveTime := time } d).up = (s.conns d).up ∧
      (update s.conns c { s.conns c with lastReceiveTime := time } d).alive =
        (s.conns d).alive ∧
      (update s.conns c { s.conns c with lastReceiveTime := time } d).connected =
        (s.conns d).connected := by
    intro d
    by_cases hdc : d = c
    · subst hdc
      simp
    · rw [hold d hdc]
      exact ⟨rfl, rfl, rfl⟩
  refine ⟨nodup_snoc (h.nodup.erase c) hnot, fun d hd => h.bound d ((hmem d).1 hd), fun d hd => ?_,
    fun d hd => ?_, fun d hd => ?_, fun d hd => ?_,
    h.sorted_append List.erase_sublist hnot hlag⟩
  · simp only [set]
    rw [hmem, (hsame d).1]
    exact h.up d hd
  · simp only [set]
    rw [(hsame d).2.1]
    exact h.alive d ((hmem d).1 hd)
  · simp only [set] at hd ⊢
    rw [(hsame d).2.2] at hd
    rw [(hsame d).1]
    exact h.connected d hd
  · simp only [set]
    by_cases hdc : d = c
    · subst hdc
      rw [update_self]
      exact Int.le_max_right ..
    · rw [hold d hdc]
      exact Int.le_trans (h.latest d ((hmem d).1 hd)) (Int.le_max_left ..)

theorem Inv.destroy (h : s.Inv lag) {c : Nat} (hdown : c < s.count ∧ (s.conns c).up = false)
    (hx : s.exec (.destroy c) = .ok s') : s'.Inv lag := by
  cases hx
  have hout : c ∉ s.connectionList := by
    intro hmem
    rw [(h.up c hdown.1).2 hmem] at hdown
    cases hdown.2
  have hold : ∀ d, d ≠ c →
      update s.conns c { s.conns c with alive := false } d = s.conns d :=
    fun d hd => update_of_ne hd _ _
  have hne : ∀ d ∈ s.connectionList, d ≠ c := fun d hd heq => hout (heq ▸ hd)
  have hsame : ∀ d,
      (update s.conns c { s.conns c with alive := false } d).up = (s.conns d).up ∧
      (update s.conns c { s.conns c with alive := false } d).connected =
        (s.conns d).connected := by
    intro d
    by_cases hdc : d = c
    · subst hdc
      simp
    · rw [hold d hdc]
      exact ⟨rfl, rfl⟩
  refine ⟨h.nodup, h.bound, fun d hd => ?_, fun d hd => ?_, fun d hd => ?_, fun d hd => ?_, ?_⟩
  · simp only [set]
    rw [(hsame d).1]
    exact h.up d hd
  · simp only [set]
    rw [hold d (hne d hd)]
    exact h.alive d hd
  · simp only [set] at hd ⊢
    rw [(hsame d).2] at hd
    rw [(hsame d).1]
    exact h.connected d hd
  · simp only [set]
    rw [hold d (hne d hd)]
    exact h.latest d hd
  · refine h.sorted.imp_of_mem fun {d e} hd he hle => ?_
    simp only [set]
    rw [hold d (hne d hd), hold e (hne e he)]
    exact hle

theorem keeps_inv (lag : Int) : (machine.under (Lags lag)).Keeps (Inv lag) := by
  rintro s op s' h ⟨he, hlag⟩ hx
  cases op with
  | connect now => exact h.connect hlag hx
  | disconnect c => exact h.disconnect hx
  | message c time => exact h.message hlag he hx
  | timer now => exact (h.sweep hlag hx).2.1
  | destroy c => exact h.destroy he hx

/-! ## What was heard -/

/-- `lastReceiveTime` is when something was heard, or up to `lag` before. -/
structure Tracks (lag : Int) (h : Nat × (Nat → Int)) (s : SortedList) : Prop where
  count : h.1 = s.count
  within : ∀ c ∈ s.connectionList, (s.conns c).lastReceiveTime ≤ h.2 c ∧
    h.2 c ≤ (s.conns c).lastReceiveTime + lag ∧ h.2 c ≤ s.latest

/-- Something is heard of `c`, and of no other connection. -/
theorem Tracks.update {h : Nat × (Nat → Int)} (ht : Tracks lag h s) (hpos : 0 ≤ lag) {c n : Nat}
    {time : Int} (hcount : n = s'.count)
    (hmem : ∀ d ∈ s'.connectionList, d ≠ c → d ∈ s.connectionList)
    (hconns : ∀ d, d ≠ c → s'.conns d = s.conns d) (hlast : (s'.conns c).lastReceiveTime = time)
    (hlatest : s'.latest = max s.latest time) :
    Tracks lag (n, update h.2 c time) s' := by
  refine ⟨hcount, fun d hd => ?_⟩
  dsimp only
  by_cases hdc : d = c
  · subst hdc
    rw [update_self]
    omega
  · have hold := ht.within d (hmem d hd hdc)
    rw [update_of_ne hdc, hconns d hdc]
    omega

/-- Nothing is heard, and the times of the connections stay. -/
theorem Tracks.same {h : Nat × (Nat → Int)} (ht : Tracks lag h s) (hcount : s'.count = s.count)
    (hmem : ∀ d ∈ s'.connectionList, d ∈ s.connectionList ∧
      (s'.conns d).lastReceiveTime = (s.conns d).lastReceiveTime)
    (hlatest : s'.latest = s.latest) : Tracks lag h s' := by
  refine ⟨ht.count.trans hcount.symm, fun d hd => ?_⟩
  obtain ⟨hd', hlast⟩ := hmem d hd
  rw [hlast, hlatest]
  exact ht.within d hd'

theorem Tracks.timer {h : Nat × (Nat → Int)} (ht : Tracks lag h s) (hi : s.Inv lag) {now : Int}
    (hlag : s.latest ≤ now + lag) (hx : s.exec (.timer now) = .ok s') : Tracks lag h s' := by
  obtain ⟨hlist, -, _, _, -, -, hlast, -⟩ := hi.sweep hlag hx
  have hcount : s'.count = s.count := by cases hx; rfl
  have hlatest : s'.latest = max s.latest now := by cases hx; rfl
  refine ⟨ht.count.trans hcount.symm, fun c hc => ?_⟩
  have hold := ht.within c (hlist ▸ hc)
  have hset := hlast c
  omega

theorem Tracks.exec {h : Nat × (Nat → Int)} (ht : Tracks lag h s) (hi : s.Inv lag) (hpos : 0 ≤ lag)
    {op : Op} (hlag : Lags lag s op) (hx : s.exec op = .ok s') : Tracks lag (hear h op) s' := by
  cases op with
  | connect now =>
    cases hx
    have hcount := ht.count
    rw [hear, hcount]
    refine ht.update hpos rfl (fun d hd hdc => ?_) (fun d hdc => update_of_ne hdc _ _) ?_
      rfl
    · simpa [hdc] using hd
    · simp [set]
  | disconnect c =>
    obtain ⟨-, -, hx⟩ := Result.bind_eq_ok hx
    cases hx
    refine ht.same rfl (fun d hd => ?_) rfl
    obtain ⟨hdc, hd⟩ := hi.nodup.mem_erase_iff.1 hd
    exact ⟨hd, by simp [set, hdc]⟩
  | message c time =>
    obtain ⟨-, -, hx⟩ := Result.bind_eq_ok hx
    cases hx
    refine ht.update hpos ht.count (fun d hd hdc => ?_) (fun d hdc => update_of_ne hdc _ _)
      ?_ rfl
    · have hd' : d ∈ s.connectionList.erase c := by simpa [hdc] using hd
      exact (hi.nodup.mem_erase_iff.1 hd').2
    · simp [set]
  | timer now => exact ht.timer hi hlag hx
  | destroy c =>
    cases hx
    refine ht.same rfl (fun d hd => ⟨hd, ?_⟩) rfl
    by_cases hdc : d = c
    · subst hdc
      simp [set]
    · simp [set, hdc]

theorem run_tracks {idleSeconds lag : Int} (hpos : 0 ≤ lag) {ops : List Op} {s : SortedList}
    (hr : (machine.under (Lags lag)).Run (init idleSeconds) ops s) :
    s.Inv lag ∧ Tracks lag (ops.foldl hear (0, fun _ => 0)) s := by
  have hinit : (init idleSeconds).Inv lag ∧
      Tracks lag (([] : List Op).foldl hear (0, fun _ => 0)) (init idleSeconds) := by
    exact ⟨init_inv idleSeconds lag, rfl, fun c hc => by cases hc⟩
  have hrun := hr.keeps_trace
    (I := fun as t => t.Inv lag ∧ Tracks lag (as.foldl hear (0, fun _ => 0)) t)
    (fun as t op t' ht he hx => by
      rw [List.foldl_append]
      exact ⟨keeps_inv lag t op t' ht.1 he hx, ht.2.exec ht.1 hpos he.2 hx⟩) hinit
  rwa [List.nil_append] at hrun

/-! ## The run -/

/-- The loop does not stop before a connection that is idle by more than `lag`: one where it stops
has a later time, and those behind it are not more than `lag` before that. -/
theorem Inv.mem_done (h : s.Inv lag) (hpos : 0 ≤ lag) {now : Int} {done rest : List Nat}
    (hl : s.connectionList = done ++ rest)
    (hrest : ∀ c rest', rest = c :: rest' → (s.conns c).Young s.idle now) {c : Nat}
    (hc : c ∈ s.connectionList) (hage : s.idle + lag < now - (s.conns c).lastReceiveTime) :
    c ∈ done := by
  have hsorted := h.sorted
  rw [hl] at hc hsorted
  rcases List.mem_append.1 hc with hc | hc
  · exact hc
  cases rest with
  | nil => cases hc
  | cons d rest =>
    obtain ⟨-, hyoung⟩ := hrest d rest rfl
    rcases List.mem_cons.1 hc with rfl | hc
    · omega
    · have hle := (List.pairwise_cons.1 (List.pairwise_append.1 hsorted).2.1).1 c hc
      omega

/-- **Idle connections are shut down, and no others, up to the lag.** In every run in which no time
is more than `lag` behind an earlier one, the iterators in the contexts are valid and no pointer in
the list expires; the list has the connections between the two calls of `onConnection`. `onTimer`
shuts down no connection of which something was heard within the allowed time less `lag`, and,
although it stops at the first connection that is not idle, none that has been silent longer than
the allowed time plus `lag` stays connected. -/
theorem sorted_list_run {idleSeconds lag : Int} (hpos : 0 ≤ lag) {ops : List Op} {s : SortedList}
    (hr : (machine.under (Lags lag)).Run (init idleSeconds) ops s) :
    (∀ op, s.Enabled op → ∃ s', s.exec op = .ok s') ∧
    s.connectionList.Nodup ∧
    (∀ c < s.count, ((s.conns c).up = true ↔ c ∈ s.connectionList)) ∧
    ∀ now s', s.latest ≤ now + lag → s.exec (.timer now) = .ok s' →
      s'.connectionList = s.connectionList ∧
      ∀ c, ((s'.conns c).shut = true → (s.conns c).shut = true ∨
          s.idle - lag < now - heard ops c) ∧
        ((s.conns c).connected = true → s.idle + lag < now - heard ops c →
          (s'.conns c).shut = true) := by
  obtain ⟨h, ht⟩ := run_tracks hpos hr
  refine ⟨fun op he => ?_, h.nodup, h.up, fun now s' hlag hx => ?_⟩
  · cases op with
    | connect now => exact ⟨_, rfl⟩
    | disconnect c =>
      exact ⟨_, by rw [exec, Result.ensure_pos ((h.up c he.1).1 he.2), Result.ok_bind]⟩
    | message c time =>
      exact ⟨_, by rw [exec, Result.ensure_pos ((h.up c he.1).1 he.2), Result.ok_bind]⟩
    | timer now | destroy c => exact ⟨_, rfl⟩
  · obtain ⟨hlist, -, done, rest, hl, hconns, -, hyoung⟩ := h.sweep hlag hx
    refine ⟨hlist, fun c => ⟨fun hshut => ?_, fun hc hage => ?_⟩⟩
    · rw [hconns c] at hshut
      split at hshut
      next hmem =>
        have hwithin := ht.within c (hl ▸ List.mem_append_left rest hmem)
        rw [Conn.check_shut] at hshut
        simp only [Bool.or_eq_true, Bool.and_eq_true, decide_eq_true_eq] at hshut
        refine hshut.imp_right fun hidle => ?_
        have hlt := hidle.2
        rw [heard]
        omega
      next => exact .inl hshut
    · obtain ⟨hlt, hup⟩ := h.connected c hc
      have hmem := (h.up c hlt).1 hup
      have hwithin := ht.within c hmem
      rw [heard] at hage
      have hlast : s.idle + lag < now - (s.conns c).lastReceiveTime := by omega
      have hdone : c ∈ done := h.mem_done hpos hl hyoung hmem hlast
      have hold : s.idle < now - (s.conns c).lastReceiveTime := by omega
      rw [hconns c, if_pos hdone, Conn.check_shut]
      simp [hc, hold]

/-- The second connection has the earlier time, and is shut down when it is idle by more than `lag`;
from the first one a message has come meanwhile. -/
theorem sorted_list_run_behind :
    ∃ s s', (machine.under (Lags 2000000)).Run (init 10)
        [.connect 20000000, .connect 19000000, .message 0 25000000] s ∧
      s.exec (.timer 31500000) = .ok s' ∧ (s'.conns 0).shut = false ∧ (s'.conns 1).shut = true := by
  obtain ⟨s, hr, hs⟩ := Machine.Run.of_replay (machine.under (Lags 2000000)) (init 10)
    [.connect 20000000, .connect 19000000, .message 0 25000000]
    (fun s => (s.idle, s.latest, (s.conns 0).shut, (s.conns 1).connected))
    (10000000, 25000000, false, true) rfl
  simp only [Prod.mk.injEq] at hs
  obtain ⟨hidle, hlatest, hshut, hc⟩ := hs
  obtain ⟨hsafe, -, -, htimer⟩ := sorted_list_run (by decide) hr
  obtain ⟨s', hx⟩ := hsafe (.timer 31500000) trivial
  obtain ⟨-, hconns⟩ := htimer 31500000 s' (by rw [hlatest]; decide) hx
  refine ⟨s, s', hr, hx, ?_, (hconns 1).2 hc ?_⟩
  · rw [Bool.eq_false_iff]
    intro hshut'
    rcases (hconns 0).1 hshut' with h | h
    · cases hshut.symm.trans h
    · rw [hidle] at h
      exact absurd h (by decide)
  · rw [hidle]
    decide

-- The clock is set back to 16 s by the first timer: the message of 20 s counts as of 16 s, and the
-- connection is shut down 7 s after it.
example : ((machine.under (Lags 5000000)).replay (init 10)
    [.connect 1000000, .message 0 20000000, .timer 16000000, .timer 27000000]).map
      (fun s => (s.conns 0).shut) = some true := rfl

end SortedList
end Idle
end TinyMuduo
