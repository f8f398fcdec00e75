import TinyMuduo.Lib.Machine
import TinyMuduo.Poller.Registry

/-!
# Poller.Agree

The same channel operations on a `PollPoller` and on an `EPollPoller`. As long as every operation
is `Proper` — the first one enables the channel, an empty interest set is only followed by
`remove`, and nothing follows that — both pollers run without an assertion failure and watch the
same descriptors for the same events. Every other operation breaks this at once:

* enabling a channel again after `disableAll` leaves the descriptor in `pollfds_` negated, while
  `EPollPoller` adds it back;
* any other interest operation on an empty interest set makes `EPollPoller` watch for no events;
* a first operation that does not enable makes both watch for no events;
* after `remove`, `index_` still names a slot of `pollfds_`, and `updateChannel` does not find the
  channel.
-/

namespace TinyMuduo

open Channel Result

inductive ChannelOp where
  | interest (c : ChannelId) (i : Interest)
  | remove (c : ChannelId)

/-- `Channel::update` and `Channel::remove` with a `PollPoller` behind the loop. -/
def PollPoller.exec (s : Polled PollPoller) : ChannelOp → Except PollerFault (Polled PollPoller)
  | .interest c i => updateChannel (s.interest c i) c
  | .remove c => do
    require ((s.chans c).isNoneEvent = true) .noneEvent
    removeChannel s c

/-- `Channel::update` and `Channel::remove` with an `EPollPoller` behind the loop. -/
def EPollPoller.exec (s : Polled EPollPoller) : ChannelOp → Except PollerFault (Polled EPollPoller)
  | .interest c i => do
    let r ← s.poller.updateChannel c ((s.interest c i).chans c)
    .ok ({ s.interest c i with poller := r.1 }.setIndex c r.2)
  | .remove c => do
    require ((s.chans c).isNoneEvent = true) .noneEvent
    let r ← s.poller.removeChannel c (s.chans c)
    .ok ({ s with poller := r.1 }.setIndex c r.2)

/-- Both pollers, the lives of the channels, and which channel was last disabled altogether. -/
structure Pair where
  poll : Polled PollPoller
  epoll : Polled EPollPoller
  life : ChannelId → Life
  disabled : ChannelId → Bool

namespace Pair

def init (fd : ChannelId → Int) : Pair where
  poll := ⟨.init, fun c => .new (fd c)⟩
  epoll := ⟨.init, fun c => .new (fd c)⟩
  life := fun _ => .fresh
  disabled := fun _ => false

def nextLife (s : Pair) : ChannelOp → ChannelId → Life
  | .interest c i => Function.update s.life c ((s.life c).interest i)
  | .remove c => Function.update s.life c .removed

def nextDisabled (s : Pair) : ChannelOp → ChannelId → Bool
  | .interest c i => Function.update s.disabled c (i = .disableAll)
  | .remove c => Function.update s.disabled c false

def exec (s : Pair) (op : ChannelOp) : Except PollerFault Pair := do
  let poll ← PollPoller.exec s.poll op
  let epoll ← EPollPoller.exec s.epoll op
  .ok ⟨poll, epoll, s.nextLife op, s.nextDisabled op⟩

/-- `remove` comes right after `disableAll`. -/
def Enabled (s : Pair) : ChannelOp → Prop
  | .interest _ _ => True
  | .remove c => s.disabled c = true

instance (s : Pair) : (op : ChannelOp) → Decidable (s.Enabled op)
  | .interest _ _ => inferInstanceAs (Decidable True)
  | .remove c => inferInstanceAs (Decidable (s.disabled c = true))

/-- The operations both pollers support. -/
def Proper (s : Pair) : ChannelOp → Prop
  | .interest c i => match s.life c with
    | .fresh => i.apply kNoneEvent ≠ kNoneEvent
    | .registered e => e ≠ kNoneEvent
    | .removed => False
  | .remove c => s.life c = .registered kNoneEvent

instance (s : Pair) : (op : ChannelOp) → Decidable (s.Proper op)
  | .interest c i =>
    match h : s.life c with
    | .fresh => decidable_of_iff (i.apply kNoneEvent ≠ kNoneEvent) (by simp [Proper, h])
    | .registered e => decidable_of_iff (e ≠ kNoneEvent) (by simp [Proper, h])
    | .removed => isFalse (by simp [Proper, h])
  | .remove c => inferInstanceAs (Decidable (s.life c = .registered kNoneEvent))

/-- A registered channel with a non-empty interest set, and that set. -/
def Interested {P : Type} (channels : Int → Option ChannelId) (s : Polled P) (f : Int)
    (e : Events) : Prop :=
  e ≠ kNoneEvent ∧ ∃ c, channels f = some c ∧ (s.chans c).events = e

/-- Both pollers watch the same descriptors for the same events, namely for what their registered
channels are interested in. -/
structure Agree (s : Pair) : Prop where
  poll : ∀ f e, s.poll.poller.Watches f e ↔ Interested s.poll.poller.channels s.poll f e
  epoll : ∀ f e, s.epoll.poller.Watches f e ↔ Interested s.epoll.poller.channels s.epoll f e
  same : ∀ f e, s.poll.poller.Watches f e ↔ s.epoll.poller.Watches f e

/-- The masks survive `static_cast<short>`. -/
theorem setWidth_interests {e : Events} (h : Interests e) : (e.setWidth 16).setWidth 32 = e := by
  rcases h with rfl | rfl | rfl | rfl <;> decide

section Watches

variable {fd : ChannelId → Int} {life : ChannelId → Life}

theorem poll_watches_iff {s : Polled PollPoller} (h : PollPoller.Represents fd life s)
    (hpos : ∀ c, 0 ≤ fd c) (hint : ∀ c, Interests (life c).events) (f : Int) (e : Events) :
    s.poller.Watches f e ↔ Watched fd life f e := by
  constructor
  · rintro ⟨hf, pfd, hmem, hpfd, he⟩
    obtain ⟨k, hk⟩ := List.getElem?_of_mem hmem
    obtain ⟨c, e', hc, hi⟩ := h.owner k pfd hk
    obtain ⟨_, k', hk', hslot⟩ := h.registered hc
    have hkk : k' = k := by omega
    rw [hkk, hk] at hslot
    cases hslot
    have hwidth : (e'.setWidth 16).setWidth 32 = e' := by
      have := hint c
      rw [hc] at this
      exact setWidth_interests this
    have hee : e' = e := hwidth.symm.trans he
    have hne : e' ≠ kNoneEvent := by
      intro hz
      have hcpos := hpos c
      simp only [PollPoller.slot, if_pos hz] at hpfd
      omega
    simp only [PollPoller.slot, if_neg hne] at hpfd
    exact ⟨hee ▸ hne, c, hee ▸ hc, hpfd⟩
  · rintro ⟨hne, c, hc, rfl⟩
    obtain ⟨_, k, _, hslot⟩ := h.registered hc
    refine ⟨hpos c, _, List.mem_of_getElem? hslot, if_neg hne, ?_⟩
    have := hint c
    rw [hc] at this
    exact setWidth_interests this

/-- A poller whose `channels_` are the registered channels. -/
theorem interested_iff {P : Type} {channels : Int → Option ChannelId} {s : Polled P}
    (hevents : ∀ c, (s.chans c).events = (life c).events)
    (hknown : ∀ f c, channels f = some c → f = fd c ∧ ∃ e, life c = .registered e)
    (hheld : ∀ c e, life c = .registered e → channels (fd c) = some c) (f : Int) (e : Events) :
    Interested channels s f e ↔ Watched fd life f e := by
  constructor
  · rintro ⟨hne, c, hc, he⟩
    obtain ⟨hf, e', hl⟩ := hknown f c hc
    have hee : e' = e := by
      rw [← he, hevents, hl]; rfl
    exact ⟨hne, c, hee ▸ hl, hf.symm⟩
  · rintro ⟨hne, c, hc, rfl⟩
    exact ⟨hne, c, hheld c e hc, by rw [hevents, hc]; rfl⟩

theorem poll_interested_iff {s : Polled PollPoller} (h : PollPoller.Represents fd life s) (f : Int)
    (e : Events) : Interested s.poller.channels s f e ↔ Watched fd life f e :=
  interested_iff h.events_eq h.known (fun _ _ hc => (h.registered hc).1) f e

theorem epoll_watches_iff {s : Polled EPollPoller} (h : EPollPoller.Represents fd life s) (f : Int)
    (e : Events) : s.poller.Watches f e ↔ Watched fd life f e := by
  constructor
  · intro hw
    obtain ⟨⟨e', c⟩, hk, rfl⟩ := Option.map_eq_some_iff.1 hw
    obtain ⟨hf, hl⟩ := h.listed f e' c hk
    refine ⟨fun hz => ?_, c, hl, hf.symm⟩
    have hold := h.holds c
    rw [hl] at hold
    rw [hf, hold.2.2, EPollPoller.entry, if_pos hz] at hk
    cases hk
  · rintro ⟨hne, c, hc, rfl⟩
    have hold := h.holds c
    rw [hc] at hold
    rw [EPollPoller.Watches, hold.2.2, EPollPoller.entry, if_neg hne]
    rfl

theorem epoll_interested_iff {s : Polled EPollPoller} (h : EPollPoller.Represents fd life s)
    (f : Int) (e : Events) : Interested s.poller.channels s f e ↔ Watched fd life f e := by
  refine interested_iff h.events_eq h.known (fun c e hc => ?_) f e
  have hold := h.holds c
  rw [hc] at hold
  exact hold.2.1

end Watches

structure Inv (fd : ChannelId → Int) (s : Pair) : Prop where
  interests : ∀ c, Interests (s.life c).events
  poll : PollPoller.Represents fd s.life s.poll
  epoll : EPollPoller.Represents fd s.life s.epoll
  disabled : ∀ c, s.disabled c = true → s.life c = .registered kNoneEvent

variable {fd : ChannelId → Int}

theorem Inv.agree {s : Pair} (h : s.Inv fd) (hpos : ∀ c, 0 ≤ fd c) : s.Agree := by
  refine ⟨fun f e => ?_, fun f e => ?_, fun f e => ?_⟩
  · rw [poll_watches_iff h.poll hpos h.interests, poll_interested_iff h.poll]
  · rw [epoll_watches_iff h.epoll, epoll_interested_iff h.epoll]
  · rw [poll_watches_iff h.poll hpos h.interests, epoll_watches_iff h.epoll]

theorem init_inv (fd : ChannelId → Int) : (init fd).Inv fd where
  interests := fun _ => Or.inl rfl
  poll := ⟨fun _ => rfl, fun _ => rfl, fun _ => ⟨by show (-1 : Int) < 0; decide, rfl⟩, nofun, nofun⟩
  epoll := ⟨fun _ => rfl, fun _ => rfl, fun _ => ⟨rfl, rfl, rfl⟩, nofun, nofun⟩
  disabled := nofun

end Pair

/-! ## One operation -/

section Exec

variable {fd : ChannelId → Int} {life : ChannelId → Life} {c : ChannelId}

theorem PollPoller.refresh_slot {s : Polled PollPoller} (h : PollPoller.Represents fd life s)
    {e : Events} (hc : life c = .registered e) (he : e ≠ kNoneEvent) (i : Interest) :
    refresh (slot (fd c) e) ((s.chans c).interest i) = slot (fd c) (i.apply e) := by
  have hev : (s.chans c).events = e := by rw [h.events_eq, hc]; rfl
  simp [refresh, slot, isNoneEvent, h.fd_eq c, hev, he]

theorem PollPoller.exec_interest {s : Polled PollPoller} (h : PollPoller.Represents fd life s)
    (hinj : Function.Injective fd) (hpos : ∀ c, 0 ≤ fd c) (i : Interest)
    (hp : life c = .fresh ∧ i.apply kNoneEvent ≠ kNoneEvent ∨
      ∃ e, life c = .registered e ∧ e ≠ kNoneEvent) :
    ∃ s', exec s (.interest c i) = .ok s' ∧
      Represents fd (Function.update life c ((life c).interest i)) s' := by
  rcases hp with ⟨hc, he⟩ | ⟨e, hc, he⟩
  · exact ⟨_, updateChannel_fresh h hc i, pushSlot_represents h hinj hpos hc i he⟩
  · obtain ⟨_, k, hk, _⟩ := h.registered hc
    refine ⟨_, updateChannel_registered h hc i hk, ?_⟩
    rw [refresh_slot h hc he]
    exact setSlot_represents h hinj hpos hc i hk

theorem PollPoller.exec_remove {s : Polled PollPoller} (h : PollPoller.Represents fd life s)
    (hinj : Function.Injective fd) (hpos : ∀ c, 0 ≤ fd c)
    (hc : life c = .registered kNoneEvent) :
    ∃ s', exec s (.remove c) = .ok s' ∧ Represents fd (Function.update life c .removed) s' := by
  have hev : (s.chans c).events = kNoneEvent := by rw [h.events_eq, hc]; rfl
  rw [exec, require_ok (by simp [isNoneEvent, hev]), ok_bind]
  exact removeChannel_spec h hinj hpos hc

theorem EPollPoller.exec_interest {s : Polled EPollPoller} (h : EPollPoller.Represents fd life s)
    (hinj : Function.Injective fd) (i : Interest)
    (hp : life c = .fresh ∧ i.apply kNoneEvent ≠ kNoneEvent ∨
      ∃ e, life c = .registered e ∧ e ≠ kNoneEvent) :
    ∃ s', exec s (.interest c i) = .ok s' ∧
      Represents fd (Function.update life c ((life c).interest i)) s' := by
  have hfd : ((s.interest c i).chans c).fd = fd c := by simpa using h.fd_eq c
  have hev : ((s.interest c i).chans c).events = i.apply (life c).events := by simp [h.events_eq]
  have hold : s.poller.Holds c ((s.interest c i).chans c).fd ((s.interest c i).chans c).index
      (life c) := by
    rw [hfd]
    simpa using h.holds c
  have hnext : (life c).interest i = .registered ((s.interest c i).chans c).events := by
    rcases hp with ⟨hc, -⟩ | ⟨e, hc, -⟩ <;> rw [hev, hc] <;> rfl
  obtain ⟨p, k, hx, hnew, hoff⟩ := updateChannel_holds hold
    (hp.imp_left fun ⟨hc, he⟩ => ⟨hc, by rw [hev, hc]; exact he⟩)
  rw [hfd] at hnew hoff
  rw [exec, hnext, hx, ok_bind]
  refine ⟨_, rfl, h.update hinj ?_ ?_ ?_ (fun d hd => ?_) (fun f hf => (hoff f hf).1)
    fun f hf => (hoff f hf).2⟩
  · rw [Polled.setIndex_self]; exact hfd
  · rw [Polled.setIndex_self]; rfl
  · rw [Polled.setIndex_self]; exact hnew
  · simp [hd]

theorem EPollPoller.exec_remove {s : Polled EPollPoller} (h : EPollPoller.Represents fd life s)
    (hinj : Function.Injective fd) (hc : life c = .registered kNoneEvent) :
    ∃ s', exec s (.remove c) = .ok s' ∧ Represents fd (Function.update life c .removed) s' := by
  have hev : (s.chans c).events = kNoneEvent := by rw [h.events_eq, hc]; rfl
  have hold : s.poller.Holds c (s.chans c).fd (s.chans c).index (.registered kNoneEvent) := by
    rw [h.fd_eq, ← hc]
    exact h.holds c
  obtain ⟨p, hx, hnew, hoff⟩ := removeChannel_holds hold hev
  rw [h.fd_eq] at hnew hoff
  rw [exec, require_ok (by simp [isNoneEvent, hev]), ok_bind, hx, ok_bind]
  refine ⟨_, rfl, h.update hinj ?_ ?_ ?_ (fun d hd => ?_) (fun f hf => (hoff f hf).1)
    fun f hf => (hoff f hf).2⟩
  · rw [Polled.setIndex_self]; exact h.fd_eq c
  · rw [Polled.setIndex_self]; exact hev
  · rw [Polled.setIndex_self]; exact hnew
  · simp [hd]

end Exec

namespace Pair

variable {fd : ChannelId → Int}

theorem nextLife_interests {s : Pair} (h : ∀ c, Interests (s.life c).events) (op : ChannelOp) :
    ∀ c, Interests (s.nextLife op c).events := by
  intro d
  cases op with
  | interest c i =>
    by_cases hd : d = c
    · rw [hd, nextLife, Function.update_self]
      exact apply_interests i (h c)
    · rw [nextLife, Function.update_of_ne hd]; exact h d
  | remove c =>
    by_cases hd : d = c
    · rw [hd, nextLife, Function.update_self]
      exact Or.inl rfl
    · rw [nextLife, Function.update_of_ne hd]; exact h d

theorem nextDisabled_idle {s : Pair} (h : s.Inv fd) (op : ChannelOp) :
    ∀ c, s.nextDisabled op c = true → s.nextLife op c = .registered kNoneEvent := by
  intro d hd
  cases op with
  | interest c i =>
    by_cases hdc : d = c
    · rw [hdc, nextDisabled, Function.update_self, decide_eq_true_iff] at hd
      rw [hdc, nextLife, Function.update_self, hd]
      rfl
    · rw [nextDisabled, Function.update_of_ne hdc] at hd
      rw [nextLife, Function.update_of_ne hdc]; exact h.disabled d hd
  | remove c =>
    by_cases hdc : d = c
    · rw [hdc, nextDisabled, Function.update_self] at hd
      cases hd
    · rw [nextDisabled, Function.update_of_ne hdc] at hd
      rw [nextLife, Function.update_of_ne hdc]; exact h.disabled d hd

/-- A proper operation runs on both pollers and keeps the invariant. -/
theorem exec_inv {s : Pair} (h : s.Inv fd) (hinj : Function.Injective fd) (hpos : ∀ c, 0 ≤ fd c)
    {op : ChannelOp} (hp : s.Proper op) : ∃ s', s.exec op = .ok s' ∧ s'.Inv fd := by
  have hboth : ∃ poll epoll, PollPoller.exec s.poll op = .ok poll ∧
      EPollPoller.exec s.epoll op = .ok epoll ∧
      PollPoller.Represents fd (s.nextLife op) poll ∧
      EPollPoller.Represents fd (s.nextLife op) epoll := by
    cases op with
    | interest c i =>
      have hcase : s.life c = .fresh ∧ i.apply kNoneEvent ≠ kNoneEvent ∨
          ∃ e, s.life c = .registered e ∧ e ≠ kNoneEvent := by
        rw [Proper] at hp
        cases hl : s.life c with
        | fresh => rw [hl] at hp; exact Or.inl ⟨rfl, hp⟩
        | registered e => rw [hl] at hp; exact Or.inr ⟨e, rfl, hp⟩
        | removed => rw [hl] at hp; exact hp.elim
      obtain ⟨poll, hx, hr⟩ := PollPoller.exec_interest h.poll hinj hpos i hcase
      obtain ⟨epoll, hx', hr'⟩ := EPollPoller.exec_interest h.epoll hinj i hcase
      exact ⟨poll, epoll, hx, hx', hr, hr'⟩
    | remove c =>
      obtain ⟨poll, hx, hr⟩ := PollPoller.exec_remove h.poll hinj hpos hp
      obtain ⟨epoll, hx', hr'⟩ := EPollPoller.exec_remove h.epoll hinj hp
      exact ⟨poll, epoll, hx, hx', hr, hr'⟩
  obtain ⟨poll, epoll, hx, hx', hr, hr'⟩ := hboth
  refine ⟨_, by rw [exec, hx, ok_bind, hx', ok_bind], ?_⟩
  exact ⟨nextLife_interests h.interests op, hr, hr', nextDisabled_idle h op⟩

/-- An operation on an empty interest set makes `EPollPoller` watch the descriptor. -/
theorem epoll_exec_idle {s : Polled EPollPoller} {life : ChannelId → Life} {c : ChannelId}
    (h : EPollPoller.Represents fd life s) (hc : life c = .registered kNoneEvent) (i : Interest) :
    ∃ s', EPollPoller.exec s (.interest c i) = .ok s' ∧
      s'.poller.Watches (fd c) (i.apply kNoneEvent) := by
  have hold := h.holds c
  rw [hc] at hold
  have hfd : ((s.interest c i).chans c).fd = fd c := by simpa using h.fd_eq c
  have hev : ((s.interest c i).chans c).events = i.apply kNoneEvent := by
    simp [h.events_eq, hc, Life.events]
  have hidle : ((s.interest c i).chans c).index = EPollPoller.mark kNoneEvent := by
    simpa using hold.1
  rw [EPollPoller.exec, EPollPoller.updateChannel_idle hidle (by rw [hfd]; exact hold.2.1)
    (by rw [hfd]; exact hold.2.2), ok_bind]
  refine ⟨_, rfl, ?_⟩
  simp only [EPollPoller.Watches, EPollPoller.setEntry, Polled.setIndex, hfd, hev,
    Function.update_self, Option.map_some]

/-- Enabling a channel with an empty interest set does not make `PollPoller` watch it. -/
theorem poll_exec_idle {s : Polled PollPoller} {life : ChannelId → Life} {c : ChannelId}
    (h : PollPoller.Represents fd life s) (hinj : Function.Injective fd) (hpos : ∀ c, 0 ≤ fd c)
    (hint : ∀ c, Interests (life c).events) (hc : life c = .registered kNoneEvent) (i : Interest) :
    ∃ s', PollPoller.exec s (.interest c i) = .ok s' ∧ ∀ e, ¬ s'.poller.Watches (fd c) e := by
  obtain ⟨_, k, hk, _⟩ := h.registered hc
  refine ⟨_, PollPoller.updateChannel_registered h hc i hk, ?_⟩
  rintro e ⟨_, pfd, hmem, hpfd, he⟩
  have hcpos := hpos c
  rcases List.mem_or_eq_of_mem_set hmem with hold | rfl
  · have hw : s.poller.Watches (fd c) e := ⟨hcpos, pfd, hold, hpfd, he⟩
    obtain ⟨hne, d, hd, hfd⟩ := (poll_watches_iff h hpos hint _ _).1 hw
    rw [hinj hfd, hc] at hd
    cases hd
    exact hne rfl
  · simp only [PollPoller.refresh, PollPoller.slot, interest_fd, h.fd_eq c] at hpfd
    split at hpfd
    · omega
    · rw [if_pos trivial] at hpfd
      omega

theorem exec_ok {s s' : Pair} {op : ChannelOp} (h : s.exec op = .ok s') :
    PollPoller.exec s.poll op = .ok s'.poll ∧ EPollPoller.exec s.epoll op = .ok s'.epoll := by
  rw [exec] at h
  cases hp : PollPoller.exec s.poll op with
  | error e => rw [hp] at h; cases h
  | ok poll =>
    rw [hp, ok_bind] at h
    cases he : EPollPoller.exec s.epoll op with
    | error e => rw [he] at h; cases h
    | ok epoll =>
      rw [he, ok_bind] at h
      cases h
      exact ⟨rfl, rfl⟩

/-- Any other operation fails an assertion or leaves the pollers in disagreement. -/
theorem improper_breaks {s s' : Pair} (h : s.Inv fd) (hinj : Function.Injective fd)
    (hpos : ∀ c, 0 ≤ fd c) {op : ChannelOp} (he : s.Enabled op) (hp : ¬ s.Proper op)
    (hx : s.exec op = .ok s') : ¬ s'.Agree := by
  obtain ⟨hpoll, hepoll⟩ := exec_ok hx
  intro hag
  cases op with
  | remove c => exact hp (h.disabled c he)
  | interest c i =>
    rw [Proper] at hp
    cases hl : s.life c with
    | removed => cases (PollPoller.updateChannel_removed h.poll hl i).symm.trans hpoll
    | fresh =>
      -- the new slot is watched for no events
      rw [hl] at hp
      have hz : i.apply kNoneEvent = kNoneEvent := not_not.1 hp
      have hs' := (PollPoller.updateChannel_fresh h.poll hl i).symm.trans hpoll
      have hev : (s.poll.chans c).events = kNoneEvent := by rw [h.poll.events_eq, hl]; rfl
      have hw : s'.poll.poller.Watches (fd c) kNoneEvent := by
        rw [← Except.ok.inj hs']
        refine ⟨hpos c, _, List.mem_append_right _ (List.mem_singleton.2 rfl), ?_, ?_⟩
        · simpa using h.poll.fd_eq c
        · simp only [Polled.interest_self, interest_events, hev, hz]
          decide
      exact ((hag.poll _ _).1 hw).1 rfl
    | registered e =>
      rw [hl] at hp
      have hz : e = kNoneEvent := not_not.1 hp
      rw [hz] at hl
      obtain ⟨s₁, h₁, hw⟩ := epoll_exec_idle h.epoll hl i
      cases h₁.symm.trans hepoll
      by_cases hi : i.apply kNoneEvent = kNoneEvent
      · exact ((hag.epoll _ _).1 hw).1 hi
      · obtain ⟨s₂, h₂, hnw⟩ := poll_exec_idle h.poll hinj hpos h.interests hl i
        cases h₂.symm.trans hpoll
        exact hnw _ ((hag.same _ _).2 hw)

end Pair

def pollers : Machine Pair ChannelOp PollerFault where
  enabled := Pair.Enabled
  exec := Pair.exec

instance (s : Pair) (op : ChannelOp) : Decidable (pollers.enabled s op) :=
  inferInstanceAs (Decidable (s.Enabled op))

/-- **The pollers agree.** In a run of proper operations on channels with distinct descriptors,
both pollers run without a fault and watch exactly what their registered channels are interested
in; and the next operation keeps this exactly when it is proper. -/
theorem pollers_agree {fd : ChannelId → Int} (hinj : Function.Injective fd) (hpos : ∀ c, 0 ≤ fd c)
    {ops : List ChannelOp} {s : Pair}
    (h : Machine.Run (pollers.under Pair.Proper) (.init fd) ops s) :
    s.Agree ∧ ∀ op, s.Enabled op → (s.Proper op ↔ ∃ s', s.exec op = .ok s' ∧ s'.Agree) := by
  have hsafe : (pollers.under Pair.Proper).Safe (Pair.Inv fd) :=
    fun _ _ hs he => Pair.exec_inv hs hinj hpos he.2
  have hinv : s.Inv fd := h.keeps hsafe.keeps (Pair.init_inv fd)
  refine ⟨hinv.agree hpos, fun op he => ⟨fun hp => ?_, ?_⟩⟩
  · obtain ⟨s', hx, hinv'⟩ := Pair.exec_inv hinv hinj hpos hp
    exact ⟨s', hx, hinv'.agree hpos⟩
  · rintro ⟨s', hx, hag⟩
    by_contra hp
    exact Pair.improper_breaks hinv hinj hpos he hp hx hag

/-- Two channels are enabled, and the first is removed: the slot of the second moves. -/
theorem pollers_agree_sample :
    ∃ s, Machine.Run (pollers.under Pair.Proper) (.init Int.ofNat)
      [.interest 3 .enableReading, .interest 4 .enableWriting, .interest 3 .disableAll, .remove 3]
      s ∧ s.poll.poller.pollfds = [⟨4, 4, 0⟩] ∧ s.Agree := by
  obtain ⟨s, hrun, hobs⟩ := Machine.Run.of_replay (pollers.under Pair.Proper) (.init Int.ofNat)
    [.interest 3 .enableReading, .interest 4 .enableWriting, .interest 3 .disableAll, .remove 3]
    (fun s => s.poll.poller.pollfds) [⟨4, 4, 0⟩] (by decide +kernel)
  exact ⟨s, hrun, hobs, (pollers_agree Int.ofNat_injective Int.natCast_nonneg hrun).1⟩

/-- `enableReading`, `disableAll` and `enableReading` again on descriptor 3: `EPollPoller` watches
it, `PollPoller` has it negated. -/
theorem pollers_disagree_after_reenable :
    ∃ s, Machine.Run pollers (.init Int.ofNat)
      [.interest 3 .enableReading, .interest 3 .disableAll, .interest 3 .enableReading] s ∧
      ¬ s.Agree := by
  obtain ⟨s, hrun, hobs⟩ := Machine.Run.of_replay pollers (.init Int.ofNat)
    [.interest 3 .enableReading, .interest 3 .disableAll, .interest 3 .enableReading]
    (fun s => (s.poll.poller.pollfds, s.epoll.poller.kernel 3)) ([⟨-4, 3, 0⟩], some (3, 3))
    (by decide +kernel)
  obtain ⟨hslots, hkernel⟩ := Prod.mk.inj hobs
  refine ⟨s, hrun, fun hag => ?_⟩
  have hw : s.epoll.poller.Watches 3 3 := by rw [EPollPoller.Watches, hkernel]; rfl
  obtain ⟨_, pfd, hmem, hfd, _⟩ := (hag.same 3 3).2 hw
  rw [hslots, List.mem_singleton] at hmem
  rw [hmem] at hfd
  cases hfd

end TinyMuduo
