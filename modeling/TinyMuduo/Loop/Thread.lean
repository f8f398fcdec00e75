import TinyMuduo.Loop.Functors

/-!
# Loop.Thread

`muduo::net::EventLoopThread` around its loop. `threadFunc` constructs the loop, runs the init
callback, sets `loop_` and calls `loop()`; `startLoop` waits for `loop_` and returns it, and from
then on other threads use the loop. `loop()` begins with `quit_ = false`: a `quit()` that comes
between the publication of `loop_` and that assignment is forgotten.
-/

namespace TinyMuduo
namespace EventLoop

/-- Where `threadFunc` is. -/
inductive Stage where
  | notStarted
  /-- In the constructor of the loop, or in the init callback. -/
  | starting
  /-- `loop_` is set, `loop()` is not entered. -/
  | published
  | looping
  | exited
  deriving DecidableEq

structure LoopThread (F : Type) where
  stage : Stage
  loop : Loop F
  /-- `startLoop()` has returned the loop. -/
  returned : Bool
  /-- A `quit()` of another thread has returned. -/
  quitReturned : Bool
  /-- How often `poll` has returned since then. -/
  polls : Nat

inductive ThreadOp (F : Type) where
  /-- `startLoop` calls `thread_.start()`. -/
  | startLoop
  /-- The init callback queues a functor. -/
  | initCallback (cb : F)
  | publish
  /-- `startLoop` sees `loop_` and returns. -/
  | returnLoop
  | enterLoop
  /-- A step of the loop thread inside of `loop()`, or of another thread that has the loop. -/
  | run (op : Op F)
  | exit

namespace LoopThread

variable {F : Type}

def init : LoopThread F := ⟨.notStarted, .init, false, false, 0⟩

/-- `quit()` of another thread returns with this step. -/
def endsQuit (s : LoopThread F) : Op F → Bool
  | .wakeup t => s.loop.caller t = .quitting
  | _ => false

def isPoll : Op F → Bool
  | .poll _ => true
  | _ => false

def exec (s : LoopThread F) : ThreadOp F → LoopThread F
  | .startLoop => { s with stage := .starting }
  | .initCallback cb => { s with loop := s.loop.exec (.queueInLoop cb) }
  | .publish => { s with stage := .published }
  | .returnLoop => { s with returned := true }
  | .enterLoop => { s with stage := .looping, loop := s.loop.exec .start }
  | .run op =>
    { s with
      loop := s.loop.exec op
      quitReturned := s.quitReturned || s.endsQuit op
      polls := if s.quitReturned && isPoll op then s.polls + 1 else s.polls }
  | .exit => { s with stage := .exited }

/-- Who may take a step of the loop. -/
def Allowed (s : LoopThread F) : Op F → Prop
  | .start => False
  | .push _ _ | .wakeup _ | .quit _ => s.returned = true
  | .test | .poll _ | .readWakeup | .returnHandler | .queueInLoop _ | .wakeupSelf | .quitSelf
  | .doPendingFunctors | .swap | .call | .returnFunctor | .finish => s.stage = .looping

def Enabled (s : LoopThread F) : ThreadOp F → Prop
  | .startLoop => s.stage = .notStarted
  | .initCallback _ | .publish => s.stage = .starting
  | .returnLoop => s.stage ≠ .notStarted ∧ s.stage ≠ .starting
  | .enterLoop => s.stage = .published
  | .run op => s.loop.Enabled op ∧ s.Allowed op
  | .exit => s.stage = .looping ∧ s.loop.phase = .stopped

/-- Another thread sets `quit_` only when `loop()` has been entered. -/
def Entered (s : LoopThread F) : ThreadOp F → Prop
  | .run (.quit _) => s.stage = .looping ∨ s.stage = .exited
  | _ => True

/-- Some thread is inside of `quit()` or has returned from it. -/
def Requested (s : LoopThread F) : Prop :=
  s.quitReturned = true ∨ ∃ t, s.loop.caller t = .quitting

structure Inv (s : LoopThread F) : Prop where
  requested : s.Requested → s.loop.quit = true ∧ (s.stage = .looping ∨ s.stage = .exited)
  polling : s.quitReturned = true → s.loop.phase = .polling → 0 < s.loop.counter ∧ s.polls = 0
  polls : s.polls ≤ 1
  fresh : s.quitReturned = false → s.polls = 0

theorem Inv.init : (init : LoopThread F).Inv where
  requested h := by
    rcases h with h | ⟨t, h⟩
    · cases h
    · cases h
  polling := nofun
  polls := Nat.zero_le 1
  fresh _ := rfl

variable {s : LoopThread F}

theorem Inv.not_requested (h : s.Inv) (hl : s.stage ≠ .looping) (he : s.stage ≠ .exited) :
    ¬ s.Requested := by
  intro hr
  rcases (h.requested hr).2 with hs | hs
  · exact hl hs
  · exact he hs

/-- A step that leaves `quit_`, the callers and the stage alone, and is not a `poll`. -/
theorem Inv.keep (h : s.Inv) {op : Op F} (hq : (s.loop.exec op).quit = s.loop.quit)
    (ht : (s.loop.exec op).caller = s.loop.caller) (he : s.endsQuit op = false)
    (hp : isPoll op = false)
    (hw : s.quitReturned = true → (s.loop.exec op).phase = .polling →
      s.loop.phase = .polling ∧ s.loop.counter ≤ (s.loop.exec op).counter) :
    (s.exec (.run op)).Inv := by
  have hret : (s.exec (.run op)).quitReturned = s.quitReturned := by simp [exec, he]
  have hpolls : (s.exec (.run op)).polls = s.polls := by simp [exec, hp]
  refine ⟨fun hr => ?_, fun hr hph => ?_, by rw [hpolls]; exact h.polls, fun hr => ?_⟩
  · rw [Requested, hret] at hr
    simp only [exec, ht] at hr
    simp only [exec, hq]
    exact h.requested hr
  · rw [hret] at hr
    obtain ⟨hphase, hcounter⟩ := hw hr hph
    obtain ⟨hpos, hzero⟩ := h.polling hr hphase
    exact ⟨Nat.lt_of_lt_of_le hpos hcounter, hpolls.trans hzero⟩
  · rw [hret] at hr
    exact hpolls.trans (h.fresh hr)

/-- A step of the loop thread to a phase in which it does not wait. -/
theorem Inv.busy (h : s.Inv) {op : Op F} (hq : (s.loop.exec op).quit = s.loop.quit)
    (ht : (s.loop.exec op).caller = s.loop.caller) (he : s.endsQuit op = false)
    (hp : isPoll op = false) (hw : (s.loop.exec op).phase ≠ .polling) :
    (s.exec (.run op)).Inv :=
  h.keep hq ht he hp fun _ hph => absurd hph hw

theorem wakeup_inv (h : s.Inv) (t : Nat) : (s.exec (.run (.wakeup t))).Inv := by
  have hpolls : (s.exec (.run (.wakeup t))).polls = s.polls := by simp [exec, isPoll]
  have hreq : (s.exec (.run (.wakeup t))).Requested → s.Requested := by
    rintro (hr | ⟨u, hu⟩)
    · simp only [exec, endsQuit, Bool.or_eq_true, decide_eq_true_eq] at hr
      rcases hr with hr | hr
      · exact Or.inl hr
      · exact Or.inr ⟨t, hr⟩
    · refine Or.inr ⟨u, ?_⟩
      by_cases hut : u = t
      · subst hut
        simp [exec, Loop.exec] at hu
      · simpa [exec, Loop.exec, hut] using hu
  refine ⟨fun hr => h.requested (hreq hr), fun hr hph => ?_, by rw [hpolls]; exact h.polls,
    fun hr => ?_⟩
  · refine ⟨Loop.written_pos _, hpolls.trans ?_⟩
    cases hret : s.quitReturned with
    | true => exact (h.polling hret hph).2
    | false => exact h.fresh hret
  · simp only [exec, Bool.or_eq_false_iff] at hr
    exact hpolls.trans (h.fresh hr.1)

theorem poll_inv (h : s.Inv) (hp : s.loop.phase = .polling) (active : List Source) :
    (s.exec (.run (.poll active))).Inv := by
  have hret : (s.exec (.run (.poll active))).quitReturned = s.quitReturned := by
    simp [exec, endsQuit]
  refine ⟨fun hr => ?_, fun _ hph => ?_, ?_, fun hr => ?_⟩
  · rw [Requested, hret] at hr
    exact h.requested hr
  · cases hph
  · cases hq : s.quitReturned with
    | true => simp [exec, hq, isPoll, (h.polling hq hp).2]
    | false => simp [exec, hq, h.fresh hq]
  · rw [hret] at hr
    simp [exec, hr, h.fresh hr]

/-- While the loop tests `quit_`, a request is seen. -/
theorem test_inv (h : s.Inv) : (s.exec (.run .test)).Inv := by
  refine h.keep rfl rfl rfl rfl fun hr hph => ?_
  have hq := (h.requested (Or.inl hr)).1
  simp [Loop.exec, hq] at hph

/-- A step that sets `quit_`, once `loop()` was entered. -/
theorem Inv.request (h : s.Inv) {op : Op F} (hs : s.stage = .looping ∨ s.stage = .exited)
    (hq : (s.loop.exec op).quit = true) (he : s.endsQuit op = false) (hp : isPoll op = false)
    (hph : (s.loop.exec op).phase = s.loop.phase)
    (hc : (s.loop.exec op).counter = s.loop.counter) : (s.exec (.run op)).Inv := by
  have hret : (s.exec (.run op)).quitReturned = s.quitReturned := by simp [exec, he]
  have hpolls : (s.exec (.run op)).polls = s.polls := by simp [exec, hp]
  refine ⟨fun _ => ⟨hq, hs⟩, fun hr hpoll => ?_, by rw [hpolls]; exact h.polls, fun hr => ?_⟩
  · rw [hret] at hr
    obtain ⟨hpos, hzero⟩ := h.polling hr (hph.symm.trans hpoll)
    exact ⟨hc.symm ▸ hpos, hpolls.trans hzero⟩
  · rw [hret] at hr
    exact hpolls.trans (h.fresh hr)

theorem push_inv (h : s.Inv) {t : Nat} (hidle : s.loop.caller t = .idle) (cb : F) :
    (s.exec (.run (.push t cb))).Inv := by
  have hret : (s.exec (.run (.push t cb))).quitReturned = s.quitReturned := by
    simp [exec, endsQuit]
  have hpolls : (s.exec (.run (.push t cb))).polls = s.polls := by simp [exec, isPoll]
  refine ⟨fun hr => h.requested ?_, fun hr hph => ?_, by rw [hpolls]; exact h.polls, fun hr => ?_⟩
  · rcases hr with hr | ⟨u, hu⟩
    · exact Or.inl (hret ▸ hr)
    · refine Or.inr ⟨u, ?_⟩
      by_cases hut : u = t
      · subst hut
        simp [exec, Loop.exec] at hu
      · simpa [exec, Loop.exec, hut] using hu
  · rw [hret] at hr
    rw [hpolls]
    exact h.polling hr hph
  · rw [hret] at hr
    exact hpolls.trans (h.fresh hr)

theorem run_inv (h : s.Inv) {op : Op F} (he : s.Enabled (.run op)) (ht : s.Entered (.run op)) :
    (s.exec (.run op)).Inv := by
  obtain ⟨hop, hall⟩ := he
  cases op with
  | push t cb => exact push_inv h hop cb
  | wakeup t => exact wakeup_inv h t
  | quit t => exact h.request ht rfl rfl rfl rfl rfl
  | start => exact hall.elim
  | test => exact test_inv h
  | poll active => exact poll_inv h hop.1 active
  | readWakeup | returnHandler =>
    obtain ⟨active, hp⟩ := hop
    exact h.busy (by simp [Loop.exec, hp]) (by simp [Loop.exec, hp]) rfl rfl
      (by simp [Loop.exec, hp])
  | queueInLoop cb => exact h.keep rfl rfl rfl rfl fun _ hph => ⟨hph, Nat.le_refl _⟩
  | wakeupSelf =>
    refine h.keep rfl rfl rfl rfl fun _ hph => ⟨hph, ?_⟩
    simp only [Loop.exec, Loop.written]
    split <;> omega
  | quitSelf => exact h.request (Or.inl hall) rfl rfl rfl rfl rfl
  | doPendingFunctors | swap => exact h.busy rfl rfl rfl rfl fun hph => by cases hph
  | call =>
    obtain ⟨e, rest, hp⟩ := hop
    exact h.busy (by simp [Loop.exec, hp]) (by simp [Loop.exec, hp]) rfl rfl
      (by simp [Loop.exec, hp])
  | returnFunctor =>
    obtain ⟨_, rest, hp⟩ := hop
    exact h.busy (by simp [Loop.exec, hp]) (by simp [Loop.exec, hp]) rfl rfl
      (by simp [Loop.exec, hp])
  | finish => exact h.busy rfl rfl rfl rfl fun hph => by cases hph

/-- Before `loop()` is entered nobody has asked for the end of it. -/
theorem Inv.early (h : s.Inv) {s' : LoopThread F} (hl : s.stage ≠ .looping)
    (he : s.stage ≠ .exited) (hc : s'.loop.caller = s.loop.caller)
    (hr : s'.quitReturned = s.quitReturned) (hp : s'.polls = s.polls) : s'.Inv := by
  have hno := h.not_requested hl he
  have hret : s.quitReturned = false := by
    cases hq : s.quitReturned with
    | true => exact absurd (Or.inl hq) hno
    | false => rfl
  refine ⟨fun hreq => ?_, fun hq => ?_, by rw [hp]; exact h.polls, fun _ => ?_⟩
  · rw [Requested, hc, hr] at hreq
    exact absurd hreq hno
  · rw [hr, hret] at hq
    cases hq
  · exact hp.trans (h.fresh hret)

theorem exec_inv (h : s.Inv) {op : ThreadOp F} (he : s.Enabled op) (ht : s.Entered op) :
    (s.exec op).Inv := by
  cases op with
  | startLoop | initCallback cb | publish =>
    rw [Enabled] at he
    exact h.early (by rw [he]; nofun) (by rw [he]; nofun) rfl rfl rfl
  | returnLoop => exact ⟨h.requested, h.polling, h.polls, h.fresh⟩
  | enterLoop =>
    rw [Enabled] at he
    exact h.early (by rw [he]; nofun) (by rw [he]; nofun) rfl rfl rfl
  | run op => exact run_inv h he ht
  | exit => exact ⟨fun hr => ⟨(h.requested hr).1, Or.inr rfl⟩, h.polling, h.polls, h.fresh⟩

end LoopThread

variable {F : Type}

def loopThread : Machine (LoopThread F) (ThreadOp F) Empty where
  enabled := LoopThread.Enabled
  exec s op := .ok (s.exec op)

/-- **Quit requests.** When `quit_` is set only after `loop()` was entered, then once `quit()` has
returned the loop thread is never inside of `loop()` with `quit_` false, `loop()` is not still to be
entered, `poll` has returned at most once more, and the loop does not block in it. -/
theorem quit_not_forgotten {ops : List (ThreadOp F)} {s : LoopThread F}
    (h : (loopThread.under LoopThread.Entered).Run .init ops s) (hq : s.quitReturned = true) :
    (s.loop.phase ≠ .stopped → s.loop.quit = true) ∧ (s.stage = .looping ∨ s.stage = .exited) ∧
    s.polls ≤ 1 ∧ (s.loop.phase = .polling → 0 < s.loop.counter) := by
  have hi : s.Inv := by
    refine h.keeps ?_ LoopThread.Inv.init
    rintro s op s' hi ⟨he, ht⟩ hx
    cases hx
    exact LoopThread.exec_inv hi he ht
  obtain ⟨hquit, hstage⟩ := hi.requested (Or.inl hq)
  exact ⟨fun _ => hquit, hstage, hi.polls, fun hp => (hi.polling hq hp).1⟩

/-- The loop waits in `poll` when `quit()` is called; it leaves the loop after one more `poll`. -/
theorem quit_not_forgotten_sample :
    ∃ s : LoopThread Unit, (loopThread.under LoopThread.Entered).Run .init
      [.startLoop, .publish, .returnLoop, .enterLoop, .run .test, .run (.quit 1), .run (.wakeup 1),
        .run (.poll [.wakeup]), .run .readWakeup, .run .doPendingFunctors, .run .swap,
        .run .finish, .run .test, .exit] s ∧
      s.quitReturned = true ∧ s.stage = .exited ∧ s.polls ≤ 1 := by
  obtain ⟨s, hrun, hq, hs⟩ : ∃ s : LoopThread Unit,
      (loopThread.under LoopThread.Entered).Run .init
      [.startLoop, .publish, .returnLoop, .enterLoop, .run .test, .run (.quit 1), .run (.wakeup 1),
        .run (.poll [.wakeup]), .run .readWakeup, .run .doPendingFunctors, .run .swap,
        .run .finish, .run .test, .exit] s ∧ s.quitReturned = true ∧ s.stage = .exited :=
    ⟨_, .cons ⟨rfl, trivial⟩ rfl (.cons ⟨rfl, trivial⟩ rfl (.cons ⟨⟨nofun, nofun⟩, trivial⟩ rfl
      (.cons ⟨rfl, trivial⟩ rfl (.cons ⟨⟨rfl, rfl⟩, trivial⟩ rfl
      (.cons ⟨⟨rfl, rfl⟩, .inl rfl⟩ rfl (.cons ⟨⟨nofun, rfl⟩, trivial⟩ rfl
      (.cons ⟨⟨⟨rfl, by decide⟩, rfl⟩, trivial⟩ rfl (.cons ⟨⟨⟨_, rfl⟩, rfl⟩, trivial⟩ rfl
      (.cons ⟨⟨rfl, rfl⟩, trivial⟩ rfl (.cons ⟨⟨rfl, rfl⟩, trivial⟩ rfl
      (.cons ⟨⟨rfl, rfl⟩, trivial⟩ rfl (.cons ⟨⟨rfl, rfl⟩, trivial⟩ rfl
      (.cons ⟨⟨rfl, rfl⟩, trivial⟩ rfl .nil))))))))))))), rfl, rfl⟩
  exact ⟨s, hrun, hq, hs, (quit_not_forgotten hrun hq).2.2.1⟩

/-- `quit()` comes between the publication of `loop_` and `loop()`: it has returned, and the loop
waits in `poll` with `quit_` false and nothing to wake it. -/
theorem quit_before_loop_forgotten :
    ∃ s : LoopThread Unit, loopThread.Run .init
      [.startLoop, .publish, .returnLoop, .run (.quit 1), .run (.wakeup 1), .enterLoop, .run .test,
        .run (.poll [.wakeup]), .run .readWakeup, .run .doPendingFunctors, .run .swap,
        .run .finish, .run .test] s ∧
      s.quitReturned = true ∧ s.loop.phase = .polling ∧ s.loop.quit = false ∧
      s.loop.counter = 0 :=
  ⟨_, .cons rfl rfl (.cons rfl rfl (.cons ⟨nofun, nofun⟩ rfl (.cons ⟨rfl, rfl⟩ rfl
    (.cons ⟨nofun, rfl⟩ rfl (.cons rfl rfl (.cons ⟨rfl, rfl⟩ rfl
    (.cons ⟨⟨rfl, by decide⟩, rfl⟩ rfl (.cons ⟨⟨_, rfl⟩, rfl⟩ rfl (.cons ⟨rfl, rfl⟩ rfl
    (.cons ⟨rfl, rfl⟩ rfl (.cons ⟨rfl, rfl⟩ rfl (.cons ⟨rfl, rfl⟩ rfl .nil)))))))))))),
    rfl, rfl, rfl, rfl⟩

end EventLoop
end TinyMuduo
