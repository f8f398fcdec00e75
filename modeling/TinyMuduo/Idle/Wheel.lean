import TinyMuduo.Lib.Refine
import TinyMuduo.Lib.Result

/-!
# Idle.Wheel

`EchoServer` of `idleconnection`, which shuts down connections that have been silent too long.

* `Countdown` — what it is for: each connection has a number of ticks left. Activity sets it to the
  maximum, a tick takes one away, and at zero the connection is shut down. From then on activity
  does not count.
* `Wheel` — how it is done: a ring of buckets of shared pointers. A connection has one `Entry`. It
  lives as long as it is in some bucket, and its destructor shuts the connection down. Activity puts
  it into the last bucket, and a tick pushes an empty bucket, over the first one.
* `ticksLeft` — the last bucket in which an entry is says how much is left. With it the ring refines
  the countdown.
-/

namespace TinyMuduo
namespace Idle

abbrev ConnId := Nat

inductive Op where
  /-- `onConnection`, up: a new connection -/
  | connect
  /-- `onMessage` -/
  | message (c : ConnId)
  /-- `onTimer` -/
  | tick
  /-- The last reference to a `TcpConnection` is gone. -/
  | destroy (c : ConnId)
  deriving DecidableEq, Repr

inductive Fault where
  /-- `back()` of an empty ring -/
  | noBucket
  deriving DecidableEq, Repr

/-! ## Counting down -/

namespace Countdown

structure Conn where
  alive : Bool
  /-- `shutdown()` was called. -/
  shut : Bool
  left : Nat
  deriving DecidableEq, Repr

def Conn.tick (c : Conn) : Conn :=
  { c with left := c.left - 1, shut := c.shut || (c.alive && decide (c.left = 1)) }

def Conn.touch (n : Nat) (c : Conn) : Conn := if 0 < c.left then { c with left := n } else c

def exec (n : Nat) (s : List Conn) : Op → Except Fault (List Conn)
  | .connect => .ok (s ++ [⟨true, false, n⟩])
  | .message c => .ok (s.modify c (.touch n))
  | .tick => .ok (s.map .tick)
  | .destroy c => .ok (s.modify c fun conn => { conn with alive := false })

def Enabled (s : List Conn) : Op → Prop
  | .connect | .tick => True
  | .message c | .destroy c => ∃ conn ∈ s[c]?, conn.alive = true

/-- `n` ticks of silence are allowed. -/
def machine (n : Nat) : Machine (List Conn) Op Fault where
  enabled := Enabled
  exec := exec n

/-- What `k` ticks do to a connection. -/
def Conn.ticks (c : Conn) (k : Nat) : Conn :=
  { c with left := c.left - k, shut := c.shut || (c.alive && decide (0 < c.left ∧ c.left ≤ k)) }

theorem Conn.ticks_zero (c : Conn) : c.ticks 0 = c := by
  have hnot : ¬ (0 < c.left ∧ c.left ≤ 0) := fun h => Nat.not_lt.2 h.2 h.1
  rw [ticks, decide_eq_false hnot, Bool.and_false, Bool.or_false, Nat.sub_zero]

theorem Conn.ticks_succ (c : Conn) (k : Nat) : c.tick.ticks k = c.ticks (k + 1) := by
  obtain ⟨alive, shut, left⟩ := c
  have hnow : left = 1 ∨ (0 < left - 1 ∧ left - 1 ≤ k) ↔ 0 < left ∧ left ≤ k + 1 := by omega
  have hshut : (decide (left = 1) || decide (0 < left - 1 ∧ left - 1 ≤ k)) =
      decide (0 < left ∧ left ≤ k + 1) := by
    rw [← Bool.decide_or]
    exact decide_eq_decide.2 hnow
  simp only [ticks, tick, mk.injEq, true_and]
  refine ⟨?_, by omega⟩
  rw [Bool.or_assoc, ← Bool.and_or_distrib_left]
  exact congrArg (fun b => shut || (alive && b)) hshut

/-- Nothing is heard of `c`, and its object stays. -/
def Silent (c : ConnId) (op : Op) : Prop := op ≠ .message c ∧ op ≠ .destroy c

instance (c : ConnId) (op : Op) : Decidable (Silent c op) := inferInstanceAs (Decidable (_ ∧ _))

/-- While nothing is heard of a connection, the ticks count. -/
theorem run_silent {n : Nat} {s s' : List Conn} {ops : List Op} {c : ConnId} {conn : Conn}
    (hr : ((machine n).under fun _ op => Silent c op).Run s ops s') (hc : s[c]? = some conn) :
    s'[c]? = some (conn.ticks (ops.count .tick)) := by
  induction hr generalizing conn with
  | nil => rw [List.count_nil, conn.ticks_zero, hc]
  | @cons s s₁ s₂ op ops he hx _ ih =>
    obtain ⟨-, hmessage, hdestroy⟩ := he
    cases op with
    | connect =>
      cases hx
      have hlt := (List.getElem?_eq_some_iff.1 hc).1
      rw [List.count_cons_of_ne (by decide)]
      exact ih ((List.getElem?_append_left hlt).trans hc)
    | message d =>
      cases hx
      have hne : d ≠ c := fun h => hmessage (h ▸ rfl)
      rw [List.count_cons_of_ne (fun h => by cases h)]
      refine ih ?_
      rw [List.getElem?_modify, hc]
      simp [hne]
    | tick =>
      cases hx
      rw [List.count_cons_self, ← conn.ticks_succ]
      refine ih ?_
      rw [List.getElem?_map, hc, Option.map_some]
    | destroy d =>
      cases hx
      have hne : d ≠ c := fun h => hdestroy (h ▸ rfl)
      rw [List.count_cons_of_ne (fun h => by cases h)]
      refine ih ?_
      rw [List.getElem?_modify, hc]
      simp [hne]

end Countdown

/-! ## The ring -/

structure Conn where
  /-- `weakConn_.lock()` -/
  alive : Bool
  shut : Bool
  deriving DecidableEq, Repr

/-- `~Entry` -/
def Conn.release (conn : Conn) : Conn := { conn with shut := conn.shut || conn.alive }

structure Wheel where
  /-- `connectionBuckets_` -/
  buckets : List (List ConnId)
  conns : List Conn
  deriving DecidableEq, Repr

namespace Wheel

/-- After `connectionBuckets_.resize(idleSeconds)`. -/
def init (idleSeconds : Nat) : Wheel := ⟨List.replicate idleSeconds [], []⟩

/-- `weakEntry.lock()`: some bucket has the entry. -/
def locks (buckets : List (List ConnId)) (c : ConnId) : Bool := buckets.any (c ∈ ·)

/-- `connectionBuckets_.back().insert(entry)` -/
def insertBack (buckets : List (List ConnId)) (c : ConnId) : Except Fault (List (List ConnId)) :=
  if buckets = [] then .error .noBucket
  else .ok (buckets.modify (buckets.length - 1) (List.insert c))

/-- `connectionBuckets_.push_back(Bucket())`. The first bucket is overwritten, and the entries that
were nowhere else are destroyed. -/
def pushBack (s : Wheel) : Wheel :=
  match s.buckets with
  | [] => s
  | first :: rest =>
    { buckets := rest ++ [[]]
      conns := s.conns.mapIdx fun c conn =>
        if c ∈ first ∧ locks rest c = false then conn.release else conn }

def exec (s : Wheel) : Op → Except Fault Wheel
  | .connect => do
    let buckets ← insertBack s.buckets s.conns.length
    .ok { buckets, conns := s.conns ++ [⟨true, false⟩] }
  | .message c =>
    if locks s.buckets c then do
      let buckets ← insertBack s.buckets c
      .ok { s with buckets }
    else .ok s
  | .tick => .ok s.pushBack
  | .destroy c => .ok { s with conns := s.conns.modify c fun conn => { conn with alive := false } }

def Enabled (s : Wheel) : Op → Prop
  | .connect | .tick => True
  | .message c | .destroy c => ∃ conn ∈ s.conns[c]?, conn.alive = true

instance (s : Wheel) : (op : Op) → Decidable (s.Enabled op)
  | .connect | .tick => isTrue trivial
  | .message c | .destroy c =>
    inferInstanceAs (Decidable (∃ conn ∈ s.conns[c]?, conn.alive = true))

def machine : Machine Wheel Op Fault where
  enabled := Enabled
  exec := exec

instance (s : Wheel) (op : Op) : Decidable (machine.enabled s op) :=
  inferInstanceAs (Decidable (s.Enabled op))

/-! ## Refinement -/

/-- The number of the last bucket with the entry; `0` if there is none. -/
def ticksLeft : List (List ConnId) → ConnId → Nat
  | [], _ => 0
  | bucket :: buckets, c =>
    if 0 < ticksLeft buckets c then ticksLeft buckets c + 1 else if c ∈ bucket then 1 else 0

theorem ticksLeft_pos_iff {buckets : List (List ConnId)} {c : ConnId} :
    0 < ticksLeft buckets c ↔ locks buckets c = true := by
  induction buckets with
  | nil => simp [ticksLeft, locks]
  | cons bucket buckets ih =>
    have hlocks : locks (bucket :: buckets) c = (decide (c ∈ bucket) || locks buckets c) := rfl
    rw [hlocks, ticksLeft]
    by_cases hrest : 0 < ticksLeft buckets c
    · simp [hrest, ih.1 hrest]
    · have hnot : locks buckets c = false := Bool.eq_false_iff.2 fun hl => hrest (ih.2 hl)
      by_cases hc : c ∈ bucket <;> simp [hrest, hnot, hc]

/-- A tick takes one away. -/
theorem ticksLeft_push (first : List ConnId) (rest : List (List ConnId)) (c : ConnId) :
    ticksLeft (rest ++ [[]]) c = ticksLeft (first :: rest) c - 1 := by
  have hpush : ticksLeft (rest ++ [[]]) c = ticksLeft rest c := by
    induction rest with
    | nil => simp [ticksLeft]
    | cons bucket rest ih => simp only [List.cons_append, ticksLeft, ih]
  rw [hpush, ticksLeft]
  split
  · omega
  · split <;> omega

theorem ticksLeft_insertBack {buckets buckets' : List (List ConnId)} {c : ConnId}
    (h : insertBack buckets c = .ok buckets') :
    buckets'.length = buckets.length ∧
      ∀ d, ticksLeft buckets' d = if d = c then buckets.length else ticksLeft buckets d := by
  unfold insertBack at h
  split at h
  · cases h
  next hne =>
    cases h
    refine ⟨List.length_modify .., fun d => ?_⟩
    induction buckets with
    | nil => exact absurd rfl hne
    | cons bucket buckets ih =>
      cases buckets with
      | nil => by_cases hd : d = c <;> simp [ticksLeft, hd]
      | cons bucket' buckets =>
        have hrest := ih (by simp)
        simp only [List.length_cons, Nat.add_sub_cancel, List.modify_succ_cons] at hrest ⊢
        by_cases hd : d = c
        · rw [ticksLeft, hrest]
          simp [hd]
        · rw [if_neg hd] at hrest ⊢
          rw [ticksLeft, hrest]
          rfl

/-- The entries that a tick destroys. -/
theorem ticksLeft_eq_one {first : List ConnId} {rest : List (List ConnId)} {c : ConnId} :
    ticksLeft (first :: rest) c = 1 ↔ c ∈ first ∧ locks rest c = false := by
  rw [ticksLeft]
  by_cases hrest : 0 < ticksLeft rest c
  · simp [hrest, ticksLeft_pos_iff.1 hrest, Nat.ne_of_gt hrest]
  · have hnot : locks rest c = false :=
      Bool.eq_false_iff.2 fun hl => hrest (ticksLeft_pos_iff.2 hl)
    by_cases hc : c ∈ first <;> simp [hrest, hnot, hc]

/-- The countdown that the ring stands for. -/
def countdown (s : Wheel) : List Countdown.Conn :=
  s.conns.mapIdx fun c conn => ⟨conn.alive, conn.shut, ticksLeft s.buckets c⟩

theorem getElem?_countdown (s : Wheel) (c : ConnId) : s.countdown[c]? =
    (s.conns[c]?).map fun conn => ⟨conn.alive, conn.shut, ticksLeft s.buckets c⟩ :=
  List.getElem?_mapIdx

theorem countdown_pushBack {s : Wheel} : s.pushBack.countdown = s.countdown.map .tick := by
  refine List.ext_getElem? fun c => ?_
  rw [List.getElem?_map, getElem?_countdown, getElem?_countdown]
  unfold pushBack
  cases hb : s.buckets with
  | nil =>
    simp only [hb]
    cases s.conns[c]? with
    | none => rfl
    | some conn => simp [Countdown.Conn.tick, ticksLeft]
  | cons first rest =>
    simp only [List.getElem?_mapIdx, ticksLeft_push first rest]
    cases s.conns[c]? with
    | none => rfl
    | some conn =>
      by_cases hlast : c ∈ first ∧ locks rest c = false
      · simp [Countdown.Conn.tick, hlast, ticksLeft_eq_one.2 hlast, Conn.release]
      · have hne : ticksLeft (first :: rest) c ≠ 1 := fun h => hlast (ticksLeft_eq_one.1 h)
        simp [Countdown.Conn.tick, hlast, hne]

/-- Activity sets the countdown of one connection, and nothing else. -/
theorem countdown_touch {s : Wheel} {buckets : List (List ConnId)} {c : ConnId}
    (hb : insertBack s.buckets c = .ok buckets) (hc : 0 < ticksLeft s.buckets c) :
    countdown { s with buckets } = s.countdown.modify c (.touch s.buckets.length) := by
  refine List.ext_getElem? fun d => ?_
  rw [List.getElem?_modify, getElem?_countdown, getElem?_countdown, (ticksLeft_insertBack hb).2 d]
  by_cases hd : d = c
  · subst hd
    cases s.conns[d]? with
    | none => simp
    | some conn => simp [Countdown.Conn.touch, hc]
  · rw [if_neg hd]
    simp [Ne.symm hd]

theorem countdown_connect {s : Wheel} {buckets : List (List ConnId)}
    (hb : insertBack s.buckets s.conns.length = .ok buckets) :
    countdown ⟨buckets, s.conns ++ [⟨true, false⟩]⟩ =
      s.countdown ++ [⟨true, false, s.buckets.length⟩] := by
  have hleft := (ticksLeft_insertBack hb).2
  rw [countdown, List.mapIdx_append, List.mapIdx_singleton, Nat.zero_add]
  congr 1
  · refine List.mapIdx_eq_mapIdx_iff.2 fun d hd => ?_
    rw [hleft, if_neg (Nat.ne_of_lt hd)]
  · rw [hleft, if_pos rfl]

/-- The ring has `n` buckets. -/
theorem refines (n : Nat) : machine.Refines (Countdown.machine n) (fun s => s.buckets.length = n)
    countdown where
  keeps s op s' h he hx := by
    cases op with
    | connect =>
      obtain ⟨buckets, hb, hx⟩ := Result.bind_eq_ok hx
      cases hx
      exact (ticksLeft_insertBack hb).1.trans h
    | message c =>
      simp only [machine, exec] at hx
      split at hx
      · obtain ⟨buckets, hb, hx⟩ := Result.bind_eq_ok hx
        cases hx
        exact (ticksLeft_insertBack hb).1.trans h
      · cases hx
        exact h
    | tick =>
      cases hx
      unfold pushBack
      cases hb : s.buckets with
      | nil => simpa [hb] using h
      | cons first rest => simpa [hb] using h
    | destroy c =>
      cases hx
      exact h
  enabled s op h he := by
    cases op with
    | connect | tick => trivial
    | message c | destroy c =>
      obtain ⟨conn, hc, halive⟩ := he
      refine ⟨⟨conn.alive, conn.shut, ticksLeft s.buckets c⟩, ?_, halive⟩
      rw [getElem?_countdown, Option.mem_def.1 hc]
      rfl
  exec s op s' h he hx := by
    cases op with
    | connect =>
      obtain ⟨buckets, hb, hx⟩ := Result.bind_eq_ok hx
      cases hx
      rw [countdown_connect hb, h]
      rfl
    | message c =>
      simp only [machine, exec] at hx
      split at hx
      next hlocks =>
        obtain ⟨buckets, hb, hx⟩ := Result.bind_eq_ok hx
        cases hx
        rw [countdown_touch hb (ticksLeft_pos_iff.2 hlocks), h]
        rfl
      next hlocks =>
        cases hx
        have hleft : ticksLeft s.buckets c = 0 :=
          Nat.eq_zero_of_not_pos fun hpos => hlocks (ticksLeft_pos_iff.1 hpos)
        refine congrArg Except.ok (List.ext_getElem? fun d => ?_)
        rw [List.getElem?_modify, getElem?_countdown]
        split
        next hd =>
          subst hd
          cases s.conns[c]? with
          | none => rfl
          | some conn => simp [Countdown.Conn.touch, hleft]
        next => simp
    | tick =>
      cases hx
      exact congrArg Except.ok countdown_pushBack.symm
    | destroy c =>
      cases hx
      refine congrArg Except.ok (List.ext_getElem? fun d => ?_)
      rw [List.getElem?_modify, getElem?_countdown, getElem?_countdown, List.getElem?_modify]
      split
      next hd => cases s.conns[d]? <;> rfl
      next => simp

/-- **Silent connections are shut down, and no others.** The ring of buckets is the countdown, in
every run. Whatever happens to the others, a connection of which nothing is heard is shut down
exactly when as many ticks have passed as it had left, and it has `idleSeconds` left whenever
something was heard of it. There is always a last bucket. -/
theorem wheel_run {idleSeconds : Nat} (hpos : 0 < idleSeconds) {ops : List Op} {s : Wheel}
    (hr : machine.Run (init idleSeconds) ops s) :
    (Countdown.machine idleSeconds).Run [] ops s.countdown ∧
    (∀ op, s.Enabled op → ∃ s', s.exec op = .ok s') ∧
    (∀ c s', 0 < ticksLeft s.buckets c → s.exec (.message c) = .ok s' →
      ticksLeft s'.buckets c = idleSeconds) ∧
    (∀ s', s.exec .connect = .ok s' → ticksLeft s'.buckets s.conns.length = idleSeconds) ∧
    ∀ c conn ops' s', s.conns[c]? = some conn →
      (machine.under fun _ op => Countdown.Silent c op).Run s ops' s' →
      s'.conns[c]? = some { conn with
        shut := conn.shut || (conn.alive && decide (0 < ticksLeft s.buckets c ∧
          ticksLeft s.buckets c ≤ ops'.count .tick)) } := by
  have hlen : s.buckets.length = idleSeconds :=
    hr.keeps (refines idleSeconds).keeps List.length_replicate
  have hne : s.buckets ≠ [] := by
    intro hnil
    rw [hnil] at hlen
    exact Nat.ne_of_lt hpos hlen
  have hinsert : ∀ c, ∃ buckets, insertBack s.buckets c = .ok buckets := fun c =>
    ⟨_, if_neg hne⟩
  refine ⟨(refines idleSeconds).run hr List.length_replicate, fun op _ => ?_, fun c s' hc hx => ?_,
    fun s' hx => ?_, fun c conn ops' s' hc hr' => ?_⟩
  · cases op with
    | connect =>
      obtain ⟨buckets, hb⟩ := hinsert s.conns.length
      exact ⟨⟨buckets, s.conns ++ [⟨true, false⟩]⟩, by rw [exec, hb, Result.ok_bind]⟩
    | message c =>
      obtain ⟨buckets, hb⟩ := hinsert c
      rw [exec]
      split
      · exact ⟨{ s with buckets }, by rw [hb, Result.ok_bind]⟩
      · exact ⟨s, rfl⟩
    | tick => exact ⟨s.pushBack, rfl⟩
    | destroy c => exact ⟨_, rfl⟩
  · rw [exec, if_pos (ticksLeft_pos_iff.1 hc)] at hx
    obtain ⟨buckets, hb, hx⟩ := Result.bind_eq_ok hx
    cases hx
    rw [(ticksLeft_insertBack hb).2, if_pos rfl, hlen]
  · obtain ⟨buckets, hb, hx⟩ := Result.bind_eq_ok hx
    cases hx
    rw [(ticksLeft_insertBack hb).2, if_pos rfl, hlen]
  · have hstart : s.countdown[c]? = some ⟨conn.alive, conn.shut, ticksLeft s.buckets c⟩ := by
      rw [getElem?_countdown, hc, Option.map_some]
    have hend := Countdown.run_silent (((refines idleSeconds).under _).run hr' hlen) hstart
    rw [getElem?_countdown] at hend
    obtain ⟨⟨alive, shut⟩, hconn', heq⟩ := Option.map_eq_some_iff.1 hend
    obtain ⟨rfl, rfl, -⟩ := Countdown.Conn.mk.inj heq
    exact hconn'

def twoConnected : Wheel := ⟨[[], [1, 0]], [⟨true, false⟩, ⟨true, false⟩]⟩

/-- Two connections, of which one goes on to talk; two ticks of silence are allowed. -/
theorem wheel_run_two : ∃ s, machine.Run (init 2) [.connect, .connect] twoConnected ∧
    (machine.under fun _ op => Countdown.Silent 0 op).Run twoConnected
      [.tick, .message 1, .tick] s ∧
    s.conns[0]? = some ⟨true, true⟩ ∧ s.conns[1]? = some ⟨true, false⟩ := by
  have hr : machine.Run (init 2) [.connect, .connect] twoConnected := .of_replay_eq rfl
  obtain ⟨s, hr', hs⟩ := Machine.Run.of_replay
    (machine.under fun _ op => Countdown.Silent 0 op) twoConnected [.tick, .message 1, .tick]
    (fun s => s.conns[1]?) (some ⟨true, false⟩) rfl
  obtain ⟨-, -, -, -, hsilent⟩ := wheel_run (Nat.zero_lt_succ 1) hr
  exact ⟨s, hr, hr', hsilent 0 ⟨true, false⟩ _ s rfl hr', hs⟩

end Wheel

end Idle
end TinyMuduo
