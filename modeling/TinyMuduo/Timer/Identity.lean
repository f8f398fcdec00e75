import TinyMuduo.Timer.Ownership

/-!
# Timer.Identity

`TimerQueue::addTimer` called in any number of threads. Outside of the loop thread it allocates the
`Timer`, hands it to the loop through the functor queue and then reads `timer->sequence()` for the
id it returns. By then the loop may have run the timer and deleted it, and the address may be in
use again.

A thread between its first two steps holds a pointer that the loop does not know of. `view` puts
these pointers behind the queued functors, which makes a state of `Timer.Ownership`, so that its
invariant applies. The sequences come from a 64-bit counter and are different only as long as it has
not come round (`Fewer`).
-/

namespace TinyMuduo

/-- Where a thread is inside of `addTimer`; with it the address, the sequence and the number of the
timer it created. -/
inductive AddTimer where
  | idle
  | allocated (own : TimerId × Nat)
  | handed (own : TimerId × Nat)
  deriving DecidableEq

def AddTimer.own? : AddTimer → Option (TimerId × Nat)
  | .idle => none
  | .allocated own | .handed own => some own

structure TimerClients where
  loop : TimerLoop
  pc : Nat → AddTimer
  /-- The timers of the threads that are `allocated`. -/
  allocated : List Addr
  /-- What the calls of `addTimer` have returned, each with the address, the sequence and the number
  of the timer that the call created. -/
  returned : List (TimerId × TimerId × Nat)

inductive ClientOp where
  | allocate (t : Nat) (p : Addr) (when_ : Timestamp) (repeat_ : Bool) (delta : Int)
  | hand (t : Nat)
  | readSequence (t : Nat)
  /-- A step of the loop thread. -/
  | loop (op : TimerOp)

/-- How many timers an operation creates. -/
def TimerOp.creates : TimerOp → Nat
  | .otherQueue | .create _ _ _ _ | .addTimer _ _ _ _ _ => 1
  | .runFunctor _ | .cancel _ | .handleRead _ _ | .startCallback | .endCallbacks | .resetEntry
  | .endReset _ => 0

def ClientOp.creates : ClientOp → Nat
  | .allocate _ _ _ _ _ => 1
  | .hand _ | .readSequence _ => 0
  | .loop op => op.creates

namespace TimerClients

open TimerQueue Result

def init : TimerClients := ⟨.init, fun _ => .idle, [], []⟩

/-- The id that `addTimer` returns for `p`. -/
def readId (s : TimerLoop) (p : Addr) : Except Fault TimerId := do
  let timer ← s.queue.deref p
  .ok (p, timer.sequence)

/-- The id and the number of the timer that is created next. -/
def nextOwn (s : TimerLoop) (p : Addr) : TimerId × Nat :=
  ((p, TimerLoop.incrementAndGet s.numCreated), s.count + 1)

def exec (s : TimerClients) : ClientOp → Except Fault TimerClients
  | .allocate t p when_ repeat_ delta =>
    .ok { s with
      loop := s.loop.newTimer p when_ repeat_ delta
      pc := Function.update s.pc t (.allocated (nextOwn s.loop p))
      allocated := s.allocated ++ [p] }
  | .hand t =>
    match s.pc t with
    | .allocated own =>
      .ok { s with
        loop := { s.loop with pending := s.loop.pending ++ [own.1.1] }
        pc := Function.update s.pc t (.handed own)
        allocated := s.allocated.erase own.1.1 }
    | _ => .ok s
  | .readSequence t =>
    match s.pc t with
    | .handed own => do
      let id ← readId s.loop own.1.1
      .ok { s with
        pc := Function.update s.pc t .idle
        returned := s.returned ++ [(id, own)] }
    | _ => .ok s
  | .loop (.addTimer p when_ repeat_ delta clock) => do
    let loop ← s.loop.exec (.addTimer p when_ repeat_ delta clock)
    let id ← readId loop p
    .ok { s with
      loop := loop
      returned := s.returned ++ [(id, nextOwn s.loop p)] }
  | .loop op => do
    let loop ← s.loop.exec op
    .ok { s with loop := loop }

def Enabled (s : TimerClients) : ClientOp → Prop
  | .allocate t p _ repeat_ delta => s.pc t = .idle ∧ s.loop.Allocates p repeat_ delta
  | .hand t => ∃ own, s.pc t = .allocated own
  | .readSequence t => ∃ own, s.pc t = .handed own
  -- the timers of other threads come from `allocate`
  | .loop (.create _ _ _ _) => False
  | .loop op => s.loop.Enabled op

/-- `addTimer` reads the sequence while its timer is alive. -/
def Alive (s : TimerClients) : ClientOp → Prop
  | .readSequence t => ∀ own, s.pc t = .handed own → s.loop.queue.Holds own.1.1 own.2
  | _ => True

/-- At most `2 ^ 64` timers are created. -/
def Fewer (s : TimerClients) (op : ClientOp) : Prop := s.loop.count + op.creates ≤ 2 ^ 64

def Sound (s : TimerClients) (op : ClientOp) : Prop := s.Alive op ∧ s.Fewer op

instance (s : TimerClients) : (op : ClientOp) → Decidable (s.Enabled op)
  | .allocate _ _ _ _ _ => inferInstanceAs (Decidable (_ ∧ _))
  | .hand t =>
    match h : s.pc t with
    | .allocated _ => isTrue ⟨_, h⟩
    | .idle | .handed _ => isFalse (by simp [Enabled, h])
  | .readSequence t =>
    match h : s.pc t with
    | .handed _ => isTrue ⟨_, h⟩
    | .idle | .allocated _ => isFalse (by simp [Enabled, h])
  | .loop (.create _ _ _ _) => isFalse id
  | .loop .otherQueue => isTrue trivial
  | .loop (.runFunctor clock) => inferInstanceAs (Decidable (s.loop.Enabled (.runFunctor clock)))
  | .loop (.addTimer p w r d clock) =>
    inferInstanceAs (Decidable (s.loop.Enabled (.addTimer p w r d clock)))
  | .loop (.cancel id) => inferInstanceAs (Decidable (s.loop.Enabled (.cancel id)))
  | .loop (.handleRead now readAt) =>
    inferInstanceAs (Decidable (s.loop.Enabled (.handleRead now readAt)))
  | .loop .startCallback => inferInstanceAs (Decidable (s.loop.Enabled .startCallback))
  | .loop .endCallbacks => inferInstanceAs (Decidable (s.loop.Enabled .endCallbacks))
  | .loop .resetEntry => inferInstanceAs (Decidable (s.loop.Enabled .resetEntry))
  | .loop (.endReset clock) => inferInstanceAs (Decidable (s.loop.Enabled (.endReset clock)))

instance (s : TimerClients) : (op : ClientOp) → Decidable (s.Alive op)
  | .readSequence t =>
    match h : s.pc t with
    | .handed own => decidable_of_iff (s.loop.queue.Holds own.1.1 own.2) (by simp [Alive, h])
    | .idle | .allocated _ => isTrue (by simp [Alive, h])
  | .allocate _ _ _ _ _ | .hand _ | .loop _ => isTrue trivial

instance (s : TimerClients) (op : ClientOp) : Decidable (s.Fewer op) :=
  inferInstanceAs (Decidable (_ ≤ _))

instance (s : TimerClients) (op : ClientOp) : Decidable (s.Sound op) :=
  inferInstanceAs (Decidable (_ ∧ _))

/-! ## The invariant -/

/-- The loop, with the timers that are not handed over yet behind the queued ones. -/
def view (s : TimerClients) : TimerLoop :=
  { s.loop with pending := s.loop.pending ++ s.allocated }

/-- The threads that are `allocated` hold the pointers in `allocated`, each its own. -/
structure Holding (pc : Nat → AddTimer) (allocated : List Addr) : Prop where
  mem : ∀ t own, pc t = .allocated own → own.1.1 ∈ allocated
  distinct : ∀ t u own own', pc t = .allocated own → pc u = .allocated own' →
    own.1.1 = own'.1.1 → t = u

namespace Holding

variable {pc : Nat → AddTimer} {allocated : List Addr} {t : Nat} {own : TimerId × Nat}

theorem allocate (h : Holding pc allocated) (hp : own.1.1 ∉ allocated) :
    Holding (Function.update pc t (.allocated own)) (allocated ++ [own.1.1]) := by
  have hnew : ∀ u o, Function.update pc t (.allocated own) u = .allocated o →
      u = t ∧ o = own ∨ o.1.1 ≠ own.1.1 ∧ pc u = .allocated o := by
    intro u o hu
    by_cases hut : u = t
    · subst hut
      rw [Function.update_self] at hu
      exact Or.inl ⟨rfl, (AddTimer.allocated.inj hu).symm⟩
    · rw [Function.update_of_ne hut] at hu
      exact Or.inr ⟨fun hx => hp (hx ▸ h.mem u o hu), hu⟩
  constructor
  · intro u o hu
    rcases hnew u o hu with ⟨-, rfl⟩ | ⟨-, hu⟩
    · exact List.mem_append_right _ List.mem_cons_self
    · exact List.mem_append_left _ (h.mem u o hu)
  · intro u v o o' hu hv heq
    rcases hnew u o hu with ⟨rfl, rfl⟩ | ⟨hx, hu⟩ <;>
      rcases hnew v o' hv with ⟨rfl, rfl⟩ | ⟨hx', hv⟩
    · rfl
    · exact absurd heq.symm hx'
    · exact absurd heq hx
    · exact h.distinct u v o o' hu hv heq

/-- A thread goes on, and does not hold a pointer any more. -/
theorem leave {v : AddTimer} {u : Nat} {o : TimerId × Nat}
    (hu : Function.update pc t v u = .allocated o) (hv : ∀ o, v ≠ .allocated o) :
    u ≠ t ∧ pc u = .allocated o := by
  by_cases hut : u = t
  · subst hut
    rw [Function.update_self] at hu
    exact absurd hu (hv o)
  · rw [Function.update_of_ne hut] at hu
    exact ⟨hut, hu⟩

theorem hand (h : Holding pc allocated) (hp : pc t = .allocated own) :
    Holding (Function.update pc t (.handed own)) (allocated.erase own.1.1) := by
  constructor
  · intro u o hu
    obtain ⟨hut, hold⟩ := leave hu nofun
    have hne : o.1.1 ≠ own.1.1 := fun heq => hut (h.distinct u t o own hold hp heq)
    exact (List.mem_erase_of_ne hne).2 (h.mem u o hold)
  · intro u v o o' hu hv
    exact h.distinct u v o o' (leave hu nofun).2 (leave hv nofun).2

theorem idle (h : Holding pc allocated) : Holding (Function.update pc t .idle) allocated := by
  constructor
  · intro u o hu
    exact h.mem u o (leave hu nofun).2
  · intro u v o o' hu hv
    exact h.distinct u v o o' (leave hu nofun).2 (leave hv nofun).2

end Holding

/-- The timers of the threads, and those the returned ids are for, are among those created. -/
structure Known (pc : Nat → AddTimer) (returned : List (TimerId × TimerId × Nat))
    (created : List (TimerId × Nat)) : Prop where
  own : ∀ t, ∀ own ∈ (pc t).own?, own ∈ created
  returned : ∀ own ∈ returned.map Prod.snd, own ∈ created

namespace Known

variable {pc : Nat → AddTimer} {returned : List (TimerId × TimerId × Nat)}
  {created created' : List (TimerId × Nat)}

theorem mono (h : Known pc returned created) (hsub : created ⊆ created') :
    Known pc returned created' :=
  ⟨fun t own ho => hsub (h.own t own ho), fun own ho => hsub (h.returned own ho)⟩

theorem update (h : Known pc returned created) {v : AddTimer} (hv : ∀ own ∈ v.own?, own ∈ created)
    (t : Nat) : Known (Function.update pc t v) returned created where
  own u own ho := by
    by_cases hut : u = t
    · subst hut
      rw [Function.update_self] at ho
      exact hv own ho
    · rw [Function.update_of_ne hut] at ho
      exact h.own u own ho
  returned := h.returned

theorem snoc (h : Known pc returned created) {own : TimerId × Nat} (ho : own ∈ created)
    (id : TimerId) : Known pc (returned ++ [(id, own)]) created where
  own := h.own
  returned o hm := by
    rw [List.map_append, List.mem_append] at hm
    rcases hm with hm | hm
    · exact h.returned o hm
    · rw [List.mem_singleton.1 hm]
      exact ho

end Known

structure Inv (s : TimerClients) : Prop where
  view : s.view.Inv
  holding : Holding s.pc s.allocated
  known : Known s.pc s.returned s.loop.created

theorem Inv.init : TimerClients.init.Inv :=
  ⟨TimerLoop.Inv.init, ⟨nofun, nofun⟩, ⟨nofun, nofun⟩⟩

variable {s s' : TimerClients}

/-- Ownership does not depend on the order of the functors. -/
theorem inv_perm {l : TimerLoop} (h : l.Inv) {pending : List Addr}
    (hp : pending.Perm l.pending) : { l with pending := pending }.Inv where
  owns := h.owns.perm (hp.append_left _)
  numbered := h.numbered
  delivered n hn := (h.delivered n hn).imp_right fun ⟨x, hx, hm⟩ =>
    ⟨x, hx, fun hm' => hm (hp.mem_iff.1 hm')⟩

theorem add_pending (l : TimerLoop) (pending : List Addr) (p : Addr) (clock : Clock) :
    { l with pending := pending }.add p clock =
      (l.add p clock).map fun l' => { l' with pending := pending } := by
  unfold TimerLoop.add
  cases l.queue.deref p with
  | error e => rfl
  | ok timer =>
    cases l.queue.addTimerInLoop p clock with
    | error e => rfl
    | ok q => rfl

/-- Pointers behind the queued functors do not disturb the loop thread. -/
theorem exec_pending {l l' : TimerLoop} {op : TimerOp} (extra : List Addr)
    (he : l.Enabled op) (hop : ∀ p w r d, op ≠ .create p w r d) (hx : l.exec op = .ok l') :
    { l with pending := l.pending ++ extra }.Enabled op ∧
      { l with pending := l.pending ++ extra }.exec op =
        .ok { l' with pending := l'.pending ++ extra } := by
  cases op with
  | otherQueue =>
    cases hx
    exact ⟨he, rfl⟩
  | create p w r d => exact absurd rfl (hop p w r d)
  | runFunctor clock =>
    obtain ⟨hidle, hne⟩ := he
    refine ⟨⟨hidle, by simp [hne]⟩, ?_⟩
    cases hp : l.pending with
    | nil => exact absurd hp hne
    | cons p pending =>
      simp only [TimerLoop.exec, hp, List.cons_append] at hx ⊢
      rw [add_pending l pending] at hx
      obtain ⟨l₁, hl₁, rfl⟩ := map_eq_ok hx
      rw [add_pending l (pending ++ extra), hl₁]
      rfl
  | addTimer p w r d clock =>
    refine ⟨he, ?_⟩
    rw [TimerLoop.exec] at hx ⊢
    have hpend : l'.pending = l.pending := by
      obtain ⟨timer, -, hx⟩ := bind_eq_ok hx
      obtain ⟨q, -, hx⟩ := bind_eq_ok hx
      cases hx
      rfl
    have := add_pending (l.newTimer p w r d) (l.pending ++ extra) p clock
    rw [hx] at this
    rw [hpend]
    exact this
  | cancel id =>
    refine ⟨he, ?_⟩
    obtain ⟨q, hq, hx⟩ := bind_eq_ok hx
    cases hx
    rw [TimerLoop.exec, hq]
    rfl
  | handleRead now readAt =>
    refine ⟨he, ?_⟩
    obtain ⟨r, hr, hx⟩ := bind_eq_ok hx
    cases hx
    rw [TimerLoop.exec, hr]
    rfl
  | startCallback =>
    obtain ⟨now, done, e, todo, hp⟩ := id he
    refine ⟨he, ?_⟩
    simp only [TimerLoop.exec, hp] at hx ⊢
    obtain ⟨timer, ht, hx⟩ := bind_eq_ok hx
    cases hx
    rw [ht]
    rfl
  | endCallbacks =>
    obtain ⟨now, done, hp⟩ := id he
    refine ⟨he, ?_⟩
    simp only [TimerLoop.exec, hp] at hx ⊢
    cases hx
    rfl
  | resetEntry =>
    obtain ⟨now, e, todo, hp⟩ := id he
    refine ⟨he, ?_⟩
    simp only [TimerLoop.exec, hp] at hx ⊢
    obtain ⟨q, hq, hx⟩ := bind_eq_ok hx
    cases hx
    rw [hq]
    rfl
  | endReset clock =>
    refine ⟨he, ?_⟩
    obtain ⟨q, hq, hx⟩ := bind_eq_ok hx
    cases hx
    rw [TimerLoop.exec, hq]
    rfl

/-- The timer that a step of the loop thread creates. -/
def made (l : TimerLoop) : TimerOp → List (TimerId × Nat)
  | .addTimer p _ _ _ _ => [nextOwn l p]
  | _ => []

theorem step_created {l l' : TimerLoop} {op : TimerOp} (hop : ∀ p w r d, op ≠ .create p w r d)
    (hs : l.Step op l') : l'.created = l.created ++ made l op := by
  cases hs with
  | @create p w r d => exact absurd rfl (hop p w r d)
  | addTimer => rfl
  | otherQueue | runFunctor | cancel | handleRead | startCallback | endCallbacks | restart | delete
  | endReset => exact (List.append_nil _).symm

theorem step_count {l l' : TimerLoop} {op : TimerOp} (hs : l.Step op l') :
    l'.count = l.count + op.creates := by
  cases hs <;> rfl

/-- What a step of the loop thread does to the state around the loop. -/
theorem exec_loop {op : TimerOp} (he : s.Enabled (.loop op)) (hx : s.exec (.loop op) = .ok s') :
    s.loop.Enabled op ∧ (∀ p w r d, op ≠ .create p w r d) ∧ s.loop.exec op = .ok s'.loop ∧
      s'.pc = s.pc ∧ s'.allocated = s.allocated ∧
      s'.returned.map Prod.snd = s.returned.map Prod.snd ++ made s.loop op := by
  cases op with
  | create p w r d => exact he.elim
  | addTimer p w r d clock =>
    obtain ⟨loop, hl, hx⟩ := bind_eq_ok hx
    obtain ⟨id, -, hx⟩ := bind_eq_ok hx
    cases hx
    exact ⟨he, nofun, hl, rfl, rfl, List.map_append⟩
  | _ =>
    obtain ⟨loop, hl, hx⟩ := bind_eq_ok hx
    cases hx
    exact ⟨he, nofun, hl, rfl, rfl, (List.append_nil _).symm⟩

/-- A step of the loop thread, as one of the loop with all pointers in its queue. -/
theorem loop_step (h : s.Inv) {op : TimerOp} (he : s.Enabled (.loop op))
    (hx : s.exec (.loop op) = .ok s') : s.view.Step op s'.view := by
  obtain ⟨he, hop, hl, -, hal, -⟩ := exec_loop he hx
  obtain ⟨hve, hvx⟩ := exec_pending s.allocated he hop hl
  obtain ⟨v, hv, hstep⟩ := TimerLoop.exec_step h.view hve
  obtain rfl := Except.ok.inj (hv.symm.trans hvx)
  rw [view, view, hal]
  exact hstep

theorem loop_inv (h : s.Inv) {op : TimerOp} (he : s.Enabled (.loop op))
    (hx : s.exec (.loop op) = .ok s') : s'.Inv := by
  have hstep := loop_step h he hx
  obtain ⟨-, hop, -, hpc, hal, hret⟩ := exec_loop he hx
  have hview := step_created hop hstep
  have hcreated : s'.loop.created = s.loop.created ++ made s.loop op := hview
  have hsub : s.loop.created ⊆ s'.loop.created := by
    rw [hcreated]
    exact List.subset_append_left _ _
  refine ⟨TimerLoop.step_inv h.view hstep, by rw [hpc, hal]; exact h.holding, ?_, fun own hm => ?_⟩
  · rw [hpc]
    exact (h.known.mono hsub).own
  · rw [hret] at hm
    rcases List.mem_append.1 hm with hm | hm
    · exact hsub (h.known.returned own hm)
    · rw [hcreated]
      exact List.mem_append_right _ hm

theorem allocate_inv (h : s.Inv) {t : Nat} {p : Addr} {w : Timestamp} {r : Bool} {d : Int}
    (ha : s.loop.Allocates p r d) (hx : s.exec (.allocate t p w r d) = .ok s') : s'.Inv := by
  cases hx
  have hfresh : (nextOwn s.loop p).1.1 ∉ s.allocated := by
    intro hm
    obtain ⟨timer, ht⟩ := h.view.owns.get (List.mem_append_right _ (List.mem_append_right _ hm))
    cases ht.symm.trans ha.1
  refine ⟨?_, h.holding.allocate hfresh, ?_⟩
  · have := TimerLoop.step_inv h.view (TimerLoop.Step.create ha : s.view.Step (.create p w r d) _)
    simpa only [view, TimerLoop.newTimer, TimerLoop.fresh, List.append_assoc] using this
  · refine (h.known.mono (List.subset_append_left _ _)).update (fun own ho => ?_) t
    cases ho
    exact List.mem_append_right _ List.mem_cons_self

theorem hand_inv (h : s.Inv) {t : Nat} {own : TimerId × Nat} (hp : s.pc t = .allocated own)
    (hx : s.exec (.hand t) = .ok s') : s'.Inv := by
  simp only [exec, hp] at hx
  cases hx
  refine ⟨?_, h.holding.hand hp, h.known.update (fun o ho => ?_) t⟩
  · refine inv_perm (l := s.view) h.view ?_
    rw [view, List.append_assoc, List.singleton_append]
    exact (List.perm_cons_erase (h.holding.mem t own hp)).symm.append_left _
  · exact h.known.own t o (by rw [hp]; exact ho)

theorem readSequence_inv (h : s.Inv) {t : Nat} {own : TimerId × Nat} (hp : s.pc t = .handed own)
    (hx : s.exec (.readSequence t) = .ok s') : s'.Inv := by
  simp only [exec, hp] at hx
  obtain ⟨id, -, hx⟩ := bind_eq_ok hx
  cases hx
  have hown := h.known.own t own (by rw [hp]; rfl)
  exact ⟨h.view, h.holding.idle, (h.known.update (fun _ ho => by cases ho) t).snoc hown id⟩

theorem exec_inv (h : s.Inv) {op : ClientOp} (he : s.Enabled op) (hx : s.exec op = .ok s') :
    s'.Inv := by
  cases op with
  | allocate t p w r d => exact allocate_inv h he.2 hx
  | hand t =>
    obtain ⟨own, hp⟩ := he
    exact hand_inv h hp hx
  | readSequence t =>
    obtain ⟨own, hp⟩ := he
    exact readSequence_inv h hp hx
  | loop op => exact loop_inv h he hx

/-! ## Ids -/

theorem exec_count (h : s.Inv) {op : ClientOp} (he : s.Enabled op) (hx : s.exec op = .ok s') :
    s'.loop.count = s.loop.count + op.creates := by
  cases op with
  | allocate t p w r d =>
    cases hx
    rfl
  | hand t =>
    obtain ⟨own, hp⟩ := he
    simp only [exec, hp] at hx
    cases hx
    rfl
  | readSequence t =>
    obtain ⟨own, hp⟩ := he
    simp only [exec, hp] at hx
    obtain ⟨id, -, hx⟩ := bind_eq_ok hx
    cases hx
    rfl
  | loop op =>
    have hcount := step_count (loop_step h he hx)
    exact hcount

/-- As long as the counter has not come round, a sequence says which timer it is. -/
theorem Inv.sequence_inj (h : s.Inv) (hf : s.loop.count ≤ 2 ^ 64) {own own' : TimerId × Nat}
    (hm : own ∈ s.loop.created) (hm' : own' ∈ s.loop.created) (heq : own.1.2 = own'.1.2) :
    own.2 = own'.2 := by
  have hb : 0 < own.2 ∧ own.2 ≤ s.loop.count := h.view.numbered.bound own hm
  have hb' : 0 < own'.2 ∧ own'.2 ≤ s.loop.count := h.view.numbered.bound own' hm'
  rw [h.view.numbered.sequence own hm, h.view.numbered.sequence own' hm'] at heq
  have hmod := congrArg (· % ((2 ^ 64 : Nat) : Int)) heq
  simp only [wrap64, Int.bmod_emod] at hmod
  omega

/-- Every id that was returned is the address and the sequence of the timer its call created. -/
def Right (s : TimerClients) : Prop := ∀ r ∈ s.returned, r.1 = r.2.1

theorem readId_eq {l : TimerLoop} {p : Addr} {timer : Timer} (h : l.queue.heap p = some timer) :
    readId l p = .ok (p, timer.sequence) := by
  rw [readId, Owns.deref h]
  rfl

theorem readId_ok {l : TimerLoop} {p : Addr} {id : TimerId} (h : readId l p = .ok id) :
    ∃ timer, l.queue.heap p = some timer ∧ id = (p, timer.sequence) := by
  cases hp : l.queue.heap p with
  | none =>
    rw [readId, deref, hp] at h
    cases h
  | some timer =>
    rw [readId_eq hp] at h
    exact ⟨timer, rfl, (Except.ok.inj h).symm⟩

theorem Right.snoc (h : s.Right) {l : TimerLoop} {pc : Nat → AddTimer} {al : List Addr}
    {id : TimerId} {own : TimerId × Nat} :
    Right ⟨l, pc, al, s.returned ++ [(id, own)]⟩ ↔ id = own.1 := by
  constructor
  · intro hr
    exact hr (id, own) (List.mem_append_right _ List.mem_cons_self)
  · rintro rfl r hr
    rcases List.mem_append.1 hr with hr | hr
    · exact h r hr
    · rw [List.mem_singleton.1 hr]

/-- The read of the sequence is right exactly when the timer is alive. -/
theorem readSequence_right (hi : s.Inv) (hf : s.loop.count ≤ 2 ^ 64) (h : s.Right) {t : Nat}
    {own : TimerId × Nat} (hp : s.pc t = .handed own) :
    s.Alive (.readSequence t) ↔ ∃ s', s.exec (.readSequence t) = .ok s' ∧ s'.Right := by
  have hown := hi.known.own t own (by rw [hp]; rfl)
  simp only [exec, hp]
  constructor
  · intro ha
    obtain ⟨timer, ht, hn⟩ := ha own hp
    have hid := hi.view.numbered.unique (hi.view.numbered.live _ timer ht) hown hn
    rw [readId_eq ht]
    exact ⟨_, rfl, h.snoc.2 (congrArg Prod.fst hid)⟩
  · rintro ⟨s', hx, hr⟩ own' hp'
    obtain rfl := AddTimer.handed.inj (hp'.symm.trans hp)
    obtain ⟨id, hid, hx⟩ := bind_eq_ok hx
    cases hx
    obtain ⟨timer, ht, heq⟩ := readId_ok hid
    refine ⟨timer, ht, ?_⟩
    rw [h.snoc.1 hr] at heq
    exact hi.sequence_inj hf (hi.view.numbered.live _ timer ht) hown (congrArg Prod.snd heq).symm

theorem addTimer_heap (h : s.Inv) {p : Addr} {w : Timestamp} {r : Bool} {d : Int} {clock : Clock}
    (he : s.loop.Enabled (.addTimer p w r d clock)) {loop : TimerLoop}
    (hx : s.loop.exec (.addTimer p w r d clock) = .ok loop) :
    loop.queue.heap p = some (s.loop.fresh w r d) := by
  have hown : (s.loop.newTimer p w r d).queue.Owns (p :: s.view.held) :=
    TimerLoop.newTimer_owns h.view he.2.1 w r d
  have hadd := TimerLoop.add_eq hown (Function.update_self ..) clock
  obtain rfl := Except.ok.inj (hadd.symm.trans hx)
  obtain ⟨fd, hfd⟩ := added_eq (s.loop.newTimer p w r d).queue p (s.loop.fresh w r d) clock
  simp only [TimerLoop.fresh] at hfd ⊢
  rw [hfd]
  exact Function.update_self ..

theorem exec_right (h : s.Inv) (hr : s.Right) {op : ClientOp} (he : s.Enabled op)
    (hs : s.Sound op) (hx : s.exec op = .ok s') : s'.Right := by
  obtain ⟨ha, hf⟩ := hs
  cases op with
  | allocate t p w r d =>
    cases hx
    exact hr
  | hand t =>
    obtain ⟨own, hp⟩ := he
    simp only [exec, hp] at hx
    cases hx
    exact hr
  | readSequence t =>
    obtain ⟨own, hp⟩ := he
    obtain ⟨s₁, hx₁, hr₁⟩ := (readSequence_right h hf hr hp).1 ha
    obtain rfl := Except.ok.inj (hx₁.symm.trans hx)
    exact hr₁
  | loop op =>
    cases op with
    | create p w r d => exact he.elim
    | addTimer p w r d clock =>
      obtain ⟨loop, hl, hx⟩ := bind_eq_ok hx
      rw [readId_eq (addTimer_heap h he hl)] at hx
      cases hx
      exact hr.snoc.2 rfl
    | _ =>
      obtain ⟨loop, hl, hx⟩ := bind_eq_ok hx
      cases hx
      exact hr

/-! ## Cancelling -/

/-- Timer `n` is as it was: where it lives, its fields, its entries, and whether `reset` will start
it again. -/
def Untouched (l l' : TimerLoop) (n : Nat) : Prop :=
  l'.phase = l.phase ∧ ∀ p timer, l.queue.heap p = some timer → timer.number = n →
    l'.queue.heap p = some timer ∧
    (∀ t, toLex (t, p) ∈ l'.queue.timers ↔ toLex (t, p) ∈ l.queue.timers) ∧
    (toLex (p, timer.sequence) ∈ l'.queue.activeTimers ↔
      toLex (p, timer.sequence) ∈ l.queue.activeTimers) ∧
    (toLex (p, timer.sequence) ∈ l'.queue.cancelingTimers ↔
      toLex (p, timer.sequence) ∈ l.queue.cancelingTimers)

theorem cancelled_untouched {q q' : TimerQueue} {id : TimerId} (hc : q.Cancelled id q') {p : Addr}
    {timer : Timer} (hp : q.heap p = some timer) (hid : (p, timer.sequence) ≠ id) :
    q'.heap p = some timer ∧ (∀ t, toLex (t, p) ∈ q'.timers ↔ toLex (t, p) ∈ q.timers) ∧
    (toLex (p, timer.sequence) ∈ q'.activeTimers ↔ toLex (p, timer.sequence) ∈ q.activeTimers) ∧
    (toLex (p, timer.sequence) ∈ q'.cancelingTimers ↔
      toLex (p, timer.sequence) ∈ q.cancelingTimers) := by
  cases hc with
  | @erased timer' ht hseq hm =>
    have hne : p ≠ id.1 := by
      rintro rfl
      obtain rfl := Option.some.inj (ht.symm.trans hp)
      exact hid (Prod.ext rfl hseq)
    refine ⟨Heap.free_eq_some.2 ⟨hne, hp⟩, fun t => ?_, ?_, Iff.rfl⟩
    · refine OrdSet.mem_erase.trans (and_iff_right fun heq => ?_)
      exact hne (Prod.mk.inj (toLex.injective heq)).2
    · refine OrdSet.mem_erase.trans (and_iff_right fun heq => ?_)
      exact hne (Prod.mk.inj (toLex.injective heq)).1
  | marked =>
    refine ⟨hp, fun _ => Iff.rfl, Iff.rfl, OrdSet.mem_insert.trans (or_iff_right fun heq => ?_)⟩
    exact hid (toLex.injective heq)
  | ignored => exact ⟨hp, fun _ => Iff.rfl, Iff.rfl, Iff.rfl⟩

/-- A cancellation with the id of a timer touches no other timer. -/
theorem cancel_untouched (h : s.Inv) (hf : s.loop.count ≤ 2 ^ 64) {own : TimerId × Nat}
    (hown : own ∈ s.loop.created) (hx : s.exec (.loop (.cancel own.1)) = .ok s') {n : Nat}
    (hn : n ≠ own.2) : Untouched s.loop s'.loop n := by
  obtain ⟨loop, hl, hx⟩ := bind_eq_ok hx
  cases hx
  obtain ⟨q, hq, hl⟩ := bind_eq_ok hl
  cases hl
  obtain ⟨q', hq', hc⟩ := cancelInLoop_eq h.view.owns own.1
  obtain rfl := Except.ok.inj (hq'.symm.trans hq)
  refine ⟨rfl, fun p timer hp hnum => cancelled_untouched hc hp fun heq => hn ?_⟩
  rw [← hnum]
  exact h.sequence_inj hf (h.view.numbered.live p timer hp) hown (congrArg Prod.snd heq)

end TimerClients

def timerClients : Machine TimerClients ClientOp TimerQueue.Fault where
  enabled := TimerClients.Enabled
  exec := TimerClients.exec

instance (s : TimerClients) (op : ClientOp) : Decidable (timerClients.enabled s op) :=
  inferInstanceAs (Decidable (s.Enabled op))

namespace TimerClients

open TimerQueue

/-- **Identity of timers.** In a run in which `addTimer` always reads the sequence while its timer
is alive, and in which at most `2 ^ 64` timers are created, every id returned is the address and
sequence of the timer its call created, and a cancellation with it leaves every other timer alone.
The condition on reads is exact: a next read gives the right id just when it meets it. -/
theorem timerId_denotes_own_timer {ops : List ClientOp} {s : TimerClients}
    (h : (timerClients.under Sound).Run .init ops s) :
    s.Right ∧
    (∀ r ∈ s.returned, ∀ s', s.exec (.loop (.cancel r.1)) = .ok s' →
      ∀ n, n ≠ r.2.2 → Untouched s.loop s'.loop n) ∧
    ∀ t, s.Enabled (.readSequence t) →
      (s.Alive (.readSequence t) ↔ ∃ s', s.exec (.readSequence t) = .ok s' ∧ s'.Right) := by
  obtain ⟨hi, hf, hr⟩ : s.Inv ∧ s.loop.count ≤ 2 ^ 64 ∧ s.Right := by
    refine h.keeps (I := fun s : TimerClients => s.Inv ∧ s.loop.count ≤ 2 ^ 64 ∧ s.Right) ?_
      ⟨Inv.init, Nat.zero_le _, nofun⟩
    rintro s op s' ⟨hi, -, hr⟩ ⟨he, hs⟩ hx
    refine ⟨exec_inv hi he hx, ?_, exec_right hi hr he hs hx⟩
    rw [exec_count hi he hx]
    exact hs.2
  refine ⟨hr, fun r hm s' hx n hn => ?_, fun t ⟨own, hp⟩ => readSequence_right hi hf hr hp⟩
  rw [hr r hm] at hx
  exact cancel_untouched hi hf (hi.known.returned _ (List.mem_map_of_mem hm)) hx hn

/-- Thread 1 returns its id before the timer fires; the address is used again afterwards. -/
theorem timerId_denotes_own_timer_sample :
    ∃ s, (timerClients.under Sound).Run .init
      [.allocate 1 16 5 false 0, .hand 1, .loop (.runFunctor ⟨1, 1⟩), .readSequence 1,
        .loop (.handleRead 6 6), .loop .startCallback, .loop .endCallbacks, .loop .resetEntry,
        .loop (.endReset ⟨7, 7⟩), .allocate 2 16 90 true 10, .hand 2,
        .loop (.runFunctor ⟨8, 8⟩), .readSequence 2] s ∧
      s.returned = [((16, 1), (16, 1), 1), ((16, 2), (16, 2), 2)] ∧ s.Right := by
  refine (Machine.Run.of_replay (timerClients.under Sound) .init _ TimerClients.returned
    [((16, 1), (16, 1), 1), ((16, 2), (16, 2), 2)] (by decide +kernel)).imp
    fun s ⟨hrun, hs⟩ => ⟨hrun, hs, ?_⟩
  exact (timerId_denotes_own_timer hrun).1

/-- The timer of thread 1 fires and is deleted before `addTimer` reads its sequence, and the loop
thread creates a repeating timer at the same address: thread 1 gets the id of that timer, and a
cancellation with it removes the timer. -/
theorem timerId_denotes_other_timer :
    ∃ s, timerClients.Run .init
      [.allocate 1 16 5 false 0, .hand 1, .loop (.runFunctor ⟨1, 1⟩), .loop (.handleRead 6 6),
        .loop .startCallback, .loop .endCallbacks, .loop .resetEntry, .loop (.endReset ⟨7, 7⟩),
        .loop (.addTimer 16 90 true 10 ⟨8, 8⟩), .readSequence 1, .loop (.cancel (16, 2))] s ∧
      s.returned = [((16, 2), (16, 2), 2), ((16, 2), (16, 1), 1)] ∧
      s.loop.queue.deleted = [1, 2] := by
  refine (Machine.Run.of_replay timerClients .init _
    (fun s => (s.returned, s.loop.queue.deleted))
    ([((16, 2), (16, 2), 2), ((16, 2), (16, 1), 1)], [1, 2]) (by decide +kernel)).imp
    fun s ⟨hrun, hs⟩ => ⟨hrun, ?_⟩
  exact Prod.mk.inj hs

end TimerClients
end TinyMuduo
