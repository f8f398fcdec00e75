import TinyMuduo.Poller.Index

/-!
# Poller.Registry

What a poller is for: every channel has a `Life`, and a registered channel with a non-empty
interest set is watched with it. `PollPoller.Represents` and `EPollPoller.Represents` say how each
poller encodes the lives of its channels. The lemmas follow one channel operation at a time, for
the operations both encodings support (`Proper`).
-/

namespace TinyMuduo

open Channel Result

/-- What a poller knows of a channel. -/
inductive Life where
  | fresh
  | registered (e : Events)
  | removed
  deriving DecidableEq, Repr

def Life.events : Life → Events
  | .registered e => e
  | .fresh | .removed => kNoneEvent

/-- The life of a channel after one of its interest operations. -/
def Life.interest (l : Life) (i : Interest) : Life := .registered (i.apply l.events)

/-- The descriptors watched, and the events they are watched for. -/
def Watched (fd : ChannelId → Int) (life : ChannelId → Life) (f : Int) (e : Events) : Prop :=
  e ≠ kNoneEvent ∧ ∃ c, life c = .registered e ∧ fd c = f

section Step

variable {fd : ChannelId → Int} {life : ChannelId → Life} {c : ChannelId}

/-! ## `PollPoller` -/

namespace PollPoller

/-- The slot of a registered channel. -/
def slot (f : Int) (e : Events) : PollFd :=
  ⟨if e = kNoneEvent then -f - 1 else f, e.setWidth 16, 0⟩

theorem slotFd_slot {f : Int} (hf : 0 ≤ f) (e : Events) : slotFd (slot f e) = f := by
  rw [slotFd_eq_iff hf]
  unfold slot
  split
  · exact Or.inr rfl
  · exact Or.inl rfl

/-- How the life `l` of a channel shows in the poller. -/
def Holds (fd : ChannelId → Int) (s : Polled PollPoller) (c : ChannelId) : Life → Prop
  | .fresh => (s.chans c).index < 0 ∧ s.poller.channels (fd c) = none
  | .registered e => s.poller.channels (fd c) = some c ∧
    ∃ k : Nat, (s.chans c).index = k ∧ s.poller.pollfds[k]? = some (slot (fd c) e)
  | .removed => 0 ≤ (s.chans c).index ∧ s.poller.channels (fd c) = none

structure Represents (fd : ChannelId → Int) (life : ChannelId → Life) (s : Polled PollPoller) :
    Prop where
  fd_eq : ∀ c, (s.chans c).fd = fd c
  events_eq : ∀ c, (s.chans c).events = (life c).events
  holds : ∀ c, Holds fd s c (life c)
  owner : ∀ (k : Nat) pfd, s.poller.pollfds[k]? = some pfd →
    ∃ c e, life c = .registered e ∧ (s.chans c).index = k
  known : ∀ f c, s.poller.channels f = some c → f = fd c ∧ ∃ e, life c = .registered e

namespace Represents

variable {s : Polled PollPoller}

theorem registered (h : Represents fd life s) {e : Events} (hc : life c = .registered e) :
    s.poller.channels (fd c) = some c ∧
      ∃ k : Nat, (s.chans c).index = k ∧ s.poller.pollfds[k]? = some (slot (fd c) e) := by
  have := h.holds c
  rwa [hc] at this

/-- Different channels have different slots. -/
theorem index_inj (h : Represents fd life s) (hinj : Function.Injective fd) (hpos : ∀ c, 0 ≤ fd c)
    {d : ChannelId} {e e' : Events} (hc : life c = .registered e) (hd : life d = .registered e')
    (hi : (s.chans c).index = (s.chans d).index) : c = d := by
  obtain ⟨_, k, hk, hs⟩ := h.registered hc
  obtain ⟨_, k', hk', hs'⟩ := h.registered hd
  have hkk : k = k' := by omega
  rw [hkk, hs'] at hs
  have := congrArg slotFd (Option.some.inj hs)
  rw [slotFd_slot (hpos d), slotFd_slot (hpos c)] at this
  exact hinj this.symm

theorem item_eq (h : Represents fd life s) {e : Events} (hc : life c = .registered e) :
    item s c = some (slot (fd c) e) := by
  obtain ⟨hmap, k, hk, hslot⟩ := h.registered hc
  rw [item, Slots.item_eq (slotOf_eq (h.fd_eq c) hmap), hk, Int.toNat_natCast, hslot]

/-- The registered channels are the owners of the slots. -/
theorem slotOf_eq_some (h : Represents fd life s) {k : Nat} (hc : slotOf s c = some k) :
    ∃ e, life c = .registered e ∧ (s.chans c).index = k ∧
      s.poller.pollfds[k]? = some (slot (fd c) e) := by
  have hmap : s.poller.channels (fd c) = some c := by
    by_contra hmap
    rw [slotOf_none (h.fd_eq c) hmap] at hc
    cases hc
  obtain ⟨-, e, hl⟩ := h.known _ _ hmap
  obtain ⟨-, j, hj, hget⟩ := h.registered hl
  rw [slotOf_eq (h.fd_eq c) hmap, hj, Int.toNat_natCast] at hc
  cases hc
  exact ⟨e, hl, hj, hget⟩

theorem indexed (h : Represents fd life s) (hinj : Function.Injective fd) (hpos : ∀ c, 0 ≤ fd c) :
    Indexed fd s where
  fd_eq := h.fd_eq
  known := fun f c hf => (h.known f c hf).1
  index_nonneg := by
    intro c hc
    obtain ⟨-, e, hl⟩ := h.known _ _ hc
    obtain ⟨-, k, hk, -⟩ := h.registered hl
    omega
  slots := by
    refine ⟨fun c k hc => ?_, fun c d k hc hd => ?_, fun k hk => ?_⟩
    · obtain ⟨e, -, -, hget⟩ := h.slotOf_eq_some hc
      exact (List.getElem?_eq_some_iff.1 hget).1
    · obtain ⟨e, hl, hi, -⟩ := h.slotOf_eq_some hc
      obtain ⟨e', hl', hi', -⟩ := h.slotOf_eq_some hd
      exact h.index_inj hinj hpos hl hl' (hi.trans hi'.symm)
    · obtain ⟨c, e, hl, hi⟩ := h.owner k _ (List.getElem?_eq_getElem hk)
      exact ⟨c, by rw [slotOf_eq (h.fd_eq c) (h.registered hl).1, hi, Int.toNat_natCast]⟩
  slotFd := by
    intro c pfd hc
    cases hpos' : slotOf s c with
    | none => rw [item, Slots.item_none hpos'] at hc; cases hc
    | some k =>
      obtain ⟨e, hl, -, -⟩ := h.slotOf_eq_some hpos'
      rw [h.item_eq hl] at hc
      cases hc
      exact slotFd_slot (hpos c) e

theorem holds_of_item (h : Indexed fd s) (hmap : s.poller.channels (fd c) = some c) {e : Events}
    (hitem : item s c = some (slot (fd c) e)) : Holds fd s c (.registered e) := by
  obtain ⟨k, pfd, hk, -, hget, hpfd⟩ := h.slot hmap
  cases hpfd.symm.trans hitem
  exact ⟨hmap, k, hk, hget⟩

/-- The poller after a step that changes the life of `c` alone. -/
theorem update {s' : Polled PollPoller} {l : Life} (h : Represents fd life s)
    (hinj : Function.Injective fd) (hi : Indexed fd s')
    (hev : (s'.chans c).events = l.events) (hc : Holds fd s' c l)
    (hev' : ∀ d, d ≠ c → (s'.chans d).events = (s.chans d).events)
    (hmap : ∀ f, f ≠ fd c → s'.poller.channels f = s.poller.channels f)
    (hidx : ∀ d, d ≠ c → s.poller.channels (fd d) ≠ some d →
      (s'.chans d).index = (s.chans d).index)
    (hitem : ∀ d, d ≠ c → item s' d = item s d) :
    Represents fd (Function.update life c l) s' := by
  have hmap' : ∀ d, d ≠ c → s'.poller.channels (fd d) = s.poller.channels (fd d) :=
    fun d hd => hmap _ fun hf => hd (hinj hf)
  have hknown : ∀ f d, s'.poller.channels f = some d →
      f = fd d ∧ ∃ e, Function.update life c l d = .registered e := by
    intro f d hf
    have hfd := hi.known f d hf
    refine ⟨hfd, ?_⟩
    by_cases hdc : d = c
    · rw [hdc, Function.update_self]
      rw [hfd, hdc] at hf
      cases l with
      | fresh | removed => cases hc.2.symm.trans hf
      | registered e => exact ⟨e, rfl⟩
    · rw [hfd, hmap' d hdc] at hf
      rw [Function.update_of_ne hdc]
      exact (h.known _ d hf).2
  refine ⟨hi.fd_eq, fun d => ?_, fun d => ?_, fun k pfd hk => ?_, hknown⟩
  · by_cases hdc : d = c
    · rw [hdc, Function.update_self]; exact hev
    · rw [hev' d hdc, Function.update_of_ne hdc]; exact h.events_eq d
  · by_cases hdc : d = c
    · rw [hdc, Function.update_self]; exact hc
    · rw [Function.update_of_ne hdc]
      have hold := h.holds d
      cases hl : life d with
      | registered e =>
        exact holds_of_item hi (by rw [hmap' d hdc]; exact (h.registered hl).1)
          (by rw [hitem d hdc]; exact h.item_eq hl)
      | fresh | removed =>
        rw [hl] at hold
        exact ⟨by rw [hidx d hdc (by rw [hold.2]; nofun)]; exact hold.1,
          by rw [hmap' d hdc]; exact hold.2⟩
  · obtain ⟨d, hd, hidx', -⟩ := hi.owner (List.getElem?_eq_some_iff.1 hk).1
    obtain ⟨-, e, he⟩ := hknown _ d hd
    exact ⟨d, e, he, hidx'⟩

end Represents

theorem pushSlot_represents {s : Polled PollPoller} (h : Represents fd life s)
    (hinj : Function.Injective fd) (hpos : ∀ c, 0 ≤ fd c) (hc : life c = .fresh) (i : Interest)
    (he : i.apply kNoneEvent ≠ kNoneEvent) :
    Represents fd (Function.update life c ((life c).interest i)) (pushSlot (s.interest c i) c) := by
  have hfd := h.fd_eq c
  have hev : (s.chans c).events = kNoneEvent := by rw [h.events_eq, hc]; rfl
  have hlife : (life c).interest i = .registered (i.apply kNoneEvent) := by rw [hc]; rfl
  have hold := h.holds c
  rw [hc] at hold
  obtain ⟨hi, hself, hother⟩ := pushSlot_indexed ((h.indexed hinj hpos).interest c i) hinj
    (hpos c) hold.2
  have hslot : item (pushSlot (s.interest c i) c) c = some (slot (fd c) (i.apply kNoneEvent)) := by
    rw [hself, Polled.interest_self, interest_events, hev, slot, if_neg he]
  have hchans : ∀ d, d ≠ c → (pushSlot (s.interest c i) c).chans d = s.chans d := by
    intro d hd
    simp [pushSlot, hd]
  rw [hlife]
  refine h.update hinj hi ?_ (Represents.holds_of_item hi ?_ hslot)
    (fun d hd => by rw [hchans d hd]) (fun f hf => ?_) (fun d hd _ => by rw [hchans d hd])
    fun d hd => by rw [hother d hd, item_interest]
  · simp [pushSlot, hev, Life.events]
  · simp [pushSlot, hfd]
  · simp [pushSlot, hfd, hf]

theorem updateChannel_fresh {s : Polled PollPoller} (h : Represents fd life s)
    (hc : life c = .fresh) (i : Interest) :
    updateChannel (s.interest c i) c = .ok (pushSlot (s.interest c i) c) := by
  have hold := h.holds c
  rw [hc] at hold
  have hnone : (s.interest c i).poller.channels ((s.interest c i).chans c).fd = none := by
    simpa [h.fd_eq c] using hold.2
  rw [updateChannel, if_pos (by simpa using hold.1), addChannel, require_ok hnone, ok_bind]

/-- A removed channel keeps its old mark, and `updateChannel` does not find it. -/
theorem updateChannel_removed {s : Polled PollPoller} (h : Represents fd life s)
    (hc : life c = .removed) (i : Interest) :
    updateChannel (s.interest c i) c = .error (.assertion .knownFd) := by
  have hold := h.holds c
  rw [hc] at hold
  have hidx : ¬ ((s.interest c i).chans c).index < 0 := by
    simpa using hold.1
  have hnone : ¬ (s.interest c i).poller.channels ((s.interest c i).chans c).fd ≠ none := by
    simpa [h.fd_eq c] using hold.2
  rw [updateChannel, if_neg hidx, modifyChannel]
  simp only [require, ensure_neg hnone, error_bind]

theorem updateChannel_registered {s : Polled PollPoller} (h : Represents fd life s) {e : Events}
    (hc : life c = .registered e) (i : Interest) {k : Nat} (hk : (s.chans c).index = k) :
    updateChannel (s.interest c i) c =
      .ok (setSlot (s.interest c i) k (refresh (slot (fd c) e) ((s.chans c).interest i))) := by
  obtain ⟨hmap, k', hk', hslot⟩ := h.registered hc
  have hkk : k' = k := by omega
  subst hkk
  have hfd := h.fd_eq c
  have hsome : (s.interest c i).poller.channels ((s.interest c i).chans c).fd = some c := by
    simpa [hfd] using hmap
  have hidx : ((s.interest c i).chans c).index = k' := by simpa using hk'
  have hget : (s.interest c i).poller.pollfds[((s.interest c i).chans c).index.toNat]? =
      some (slot (fd c) e) := by
    rw [hidx, Int.toNat_natCast]; exact hslot
  have hof : (slot (fd c) e).fd = ((s.interest c i).chans c).fd ∨
      (slot (fd c) e).fd = -((s.interest c i).chans c).fd - 1 := by
    simp only [Polled.interest_self, interest_fd, hfd, slot]
    split
    · exact Or.inr rfl
    · exact Or.inl rfl
  rw [updateChannel, if_neg (by omega), modifyChannel, require_ok (by rw [hsome]; nofun), ok_bind,
    require_ok hsome, ok_bind, require_ok (by omega), ok_bind, hget]
  dsimp only
  rw [require_ok hof, ok_bind, hidx, Int.toNat_natCast, Polled.interest_self]

theorem setSlot_represents {s : Polled PollPoller} (h : Represents fd life s)
    (hinj : Function.Injective fd) (hpos : ∀ c, 0 ≤ fd c) {e : Events}
    (hc : life c = .registered e) (i : Interest) {k : Nat} (hk : (s.chans c).index = k) :
    Represents fd (Function.update life c ((life c).interest i))
      (setSlot (s.interest c i) k (slot (fd c) (i.apply e))) := by
  have hev : (s.chans c).events = e := by rw [h.events_eq, hc]; rfl
  have hlife : (life c).interest i = .registered (i.apply e) := by rw [hc]; rfl
  have hmap := (h.registered hc).1
  have hpos' : slotOf (s.interest c i) c = some k := by
    rw [slotOf_interest, slotOf_eq (h.fd_eq c) hmap, hk, Int.toNat_natCast]
  obtain ⟨hi, hself, hother⟩ := setSlot_indexed ((h.indexed hinj hpos).interest c i) hpos'
    (slotFd_slot (hpos c) (i.apply e))
  rw [hlife]
  refine h.update hinj hi ?_ (Represents.holds_of_item hi hmap hself) (fun d hd => ?_)
    (fun _ _ => rfl) (fun d hd _ => ?_) fun d hd => by rw [hother d hd, item_interest]
  · simp [setSlot, hev, Life.events]
  · simp [setSlot, hd]
  · simp [setSlot, hd]

theorem removeChannel_eq {s : Polled PollPoller} (h : Represents fd life s)
    (hc : life c = .registered kNoneEvent) {k : Nat} (hk : (s.chans c).index = k) :
    removeChannel s c = dropSlot (eraseFd s (fd c)) k := by
  obtain ⟨hmap, k', hk', hslot⟩ := h.registered hc
  have hkk : k' = k := by omega
  subst hkk
  have hfd := h.fd_eq c
  have hev : (s.chans c).events = kNoneEvent := by rw [h.events_eq, hc]; rfl
  have hof : (slot (fd c) kNoneEvent).fd = -fd c - 1 ∧
      (slot (fd c) kNoneEvent).events.signExtend 32 = kNoneEvent := by
    refine ⟨by simp [slot], ?_⟩
    simp only [slot]
    decide
  rw [removeChannel, hfd, require_ok (by rw [hmap]; nofun), ok_bind, require_ok hmap, ok_bind,
    require_ok (by simp [isNoneEvent, hev]), ok_bind, require_ok (by omega), ok_bind, hk,
    Int.toNat_natCast, hslot]
  dsimp only
  rw [hev, require_ok hof, ok_bind]

theorem removeChannel_spec {s : Polled PollPoller} (h : Represents fd life s)
    (hinj : Function.Injective fd) (hpos : ∀ c, 0 ≤ fd c)
    (hc : life c = .registered kNoneEvent) :
    ∃ s', removeChannel s c = .ok s' ∧ Represents fd (Function.update life c .removed) s' := by
  obtain ⟨hmap, k, hk, _⟩ := h.registered hc
  obtain ⟨s', hx, hr⟩ := dropSlot_removed (h.indexed hinj hpos) hinj hmap hk
  refine ⟨s', (removeChannel_eq h hc hk).trans hx, h.update hinj hr.indexed ?_ ⟨?_, ?_⟩
    (fun d _ => hr.events d) (fun f hf => ?_) (fun d _ hd => hr.index d (Or.inl hd)) hr.item⟩
  · rw [hr.events, h.events_eq, hc]; rfl
  · rw [hr.index c (Or.inr rfl), hk]
    exact Int.natCast_nonneg k
  · rw [hr.channels, Function.update_self]
  · rw [hr.channels, Function.update_of_ne hf]

end PollPoller

/-! ## `EPollPoller` -/

namespace EPollPoller

/-- The `index_` of a registered channel. -/
def mark (e : Events) : Int := if e = kNoneEvent then kDeleted else kAdded

/-- The entry of a registered channel in the interest list. -/
def entry (e : Events) (c : ChannelId) : Option (Events × ChannelId) :=
  if e = kNoneEvent then none else some (e, c)

/-- How the life of channel `c`, whose mark is `index`, shows in the poller. -/
def Holds (p : EPollPoller) (c : ChannelId) (f index : Int) : Life → Prop
  | .fresh | .removed => index = kNew ∧ p.channels f = none ∧ p.kernel f = none
  | .registered e => index = mark e ∧ p.channels f = some c ∧ p.kernel f = entry e c

theorem Holds.congr {p p' : EPollPoller} {f i : Int} {l : Life} (h : p.Holds c f i l)
    (hm : p'.channels f = p.channels f) (hk : p'.kernel f = p.kernel f) : p'.Holds c f i l := by
  cases l with
  | fresh | removed | registered e => exact ⟨h.1, hm.trans h.2.1, hk.trans h.2.2⟩

def register (p : EPollPoller) (f : Int) (c : ChannelId) (e : Events) : EPollPoller where
  channels := Function.update p.channels f (some c)
  kernel := Function.update p.kernel f (some (e, c))

def setEntry (p : EPollPoller) (f : Int) (ev : Option (Events × ChannelId)) : EPollPoller :=
  { p with kernel := Function.update p.kernel f ev }

def eraseFd (p : EPollPoller) (f : Int) : EPollPoller :=
  { p with channels := Function.update p.channels f none }

variable {p : EPollPoller} {ch : Channel}

theorem update_add (h : p.kernel ch.fd = none) (c : ChannelId) :
    p.update .add c ch = .ok (p.setEntry ch.fd (some (ch.events, c))) := by
  simp [EPollPoller.update, epollCtl, h, setEntry]

theorem update_mod {ev : Events × ChannelId} (h : p.kernel ch.fd = some ev) (c : ChannelId) :
    p.update .mod c ch = .ok (p.setEntry ch.fd (some (ch.events, c))) := by
  simp [EPollPoller.update, epollCtl, h, setEntry]

theorem update_del {ev : Events × ChannelId} (h : p.kernel ch.fd = some ev) (c : ChannelId) :
    p.update .del c ch = .ok (p.setEntry ch.fd none) := by
  simp [EPollPoller.update, epollCtl, h, setEntry]

/-- A channel that is not registered is added. -/
theorem updateChannel_new (hi : ch.index = kNew) (hm : p.channels ch.fd = none)
    (hk : p.kernel ch.fd = none) :
    p.updateChannel c ch = .ok (p.register ch.fd c ch.events, kAdded) := by
  rw [updateChannel, if_pos (Or.inl hi), if_pos hi, require_ok hm, ok_bind,
    update_add (p := ⟨Function.update p.channels ch.fd (some c), p.kernel⟩) hk, ok_bind]
  rfl

/-- A channel in the interest list is changed there, or taken out. -/
theorem updateChannel_added {ev : Events × ChannelId} (hi : ch.index = kAdded)
    (hm : p.channels ch.fd = some c) (hk : p.kernel ch.fd = some ev) :
    p.updateChannel c ch = .ok (p.setEntry ch.fd (entry ch.events c), mark ch.events) := by
  have hnew : ¬ (ch.index = kNew ∨ ch.index = kDeleted) := by
    rw [hi]
    decide
  rw [updateChannel, if_neg hnew, require_ok (by rw [hm]; nofun), ok_bind, require_ok hm, ok_bind,
    require_ok hi, ok_bind]
  by_cases hz : ch.events = kNoneEvent
  · rw [if_pos (by simpa [isNoneEvent] using hz), update_del hk, ok_bind]
    simp [entry, mark, hz]
  · rw [if_neg (by simpa [isNoneEvent] using hz), update_mod hk, ok_bind]
    simp [entry, mark, hz, hi]

/-- A channel that was taken out is added again, whatever its interest set is now. -/
theorem updateChannel_idle (hi : ch.index = mark kNoneEvent) (hm : p.channels ch.fd = some c)
    (hk : p.kernel ch.fd = entry kNoneEvent c) :
    p.updateChannel c ch = .ok (p.setEntry ch.fd (some (ch.events, c)), kAdded) := by
  have hi' : ch.index = kDeleted := hi
  have hne : ¬ ch.index = kNew := by
    rw [hi']
    decide
  rw [updateChannel, if_pos (Or.inr hi'), if_neg hne, require_ok (by rw [hm]; nofun), ok_bind,
    require_ok hm, ok_bind, update_add (by rw [hk]; rfl), ok_bind]

theorem removeChannel_added {ev : Events × ChannelId} (hi : ch.index = kAdded)
    (he : ch.events = kNoneEvent) (hm : p.channels ch.fd = some c)
    (hk : p.kernel ch.fd = some ev) :
    p.removeChannel c ch = .ok ((p.eraseFd ch.fd).setEntry ch.fd none, kNew) := by
  rw [removeChannel, require_ok (by rw [hm]; nofun), ok_bind, require_ok hm, ok_bind,
    require_ok (by simp [isNoneEvent, he]), ok_bind, require_ok (Or.inl hi), ok_bind, if_pos hi,
    update_del (p := ⟨Function.update p.channels ch.fd none, p.kernel⟩) hk, ok_bind]
  rfl

theorem removeChannel_idle (hi : ch.index = mark kNoneEvent) (he : ch.events = kNoneEvent)
    (hm : p.channels ch.fd = some c) :
    p.removeChannel c ch = .ok (p.eraseFd ch.fd, kNew) := by
  have hi' : ch.index = kDeleted := hi
  have hne : ¬ ch.index = kAdded := by
    rw [hi']
    decide
  rw [removeChannel, require_ok (by rw [hm]; nofun), ok_bind, require_ok hm, ok_bind,
    require_ok (by simp [isNoneEvent, he]), ok_bind, require_ok (Or.inr hi'), ok_bind, if_neg hne,
    ok_bind]
  rfl

/-- `updateChannel` of a fresh channel with some interest, or of one in the interest list. -/
theorem updateChannel_holds {l : Life} (h : p.Holds c ch.fd ch.index l)
    (hl : l = .fresh ∧ ch.events ≠ kNoneEvent ∨ ∃ e, l = .registered e ∧ e ≠ kNoneEvent) :
    ∃ p' i, p.updateChannel c ch = .ok (p', i) ∧ p'.Holds c ch.fd i (.registered ch.events) ∧
      ∀ f, f ≠ ch.fd → p'.channels f = p.channels f ∧ p'.kernel f = p.kernel f := by
  rcases hl with ⟨rfl, he⟩ | ⟨e, rfl, he⟩
  · obtain ⟨hi, hm, hk⟩ := h
    refine ⟨_, _, updateChannel_new hi hm hk, ⟨?_, ?_, ?_⟩, fun f hf => ?_⟩
    · rw [mark, if_neg he]
    · simp [register]
    · simp [register, entry, he]
    · simp [register, hf]
  · obtain ⟨hi, hm, hk⟩ := h
    rw [mark, if_neg he] at hi
    rw [entry, if_neg he] at hk
    refine ⟨_, _, updateChannel_added hi hm hk, ⟨rfl, hm, ?_⟩, fun f hf => ⟨rfl, ?_⟩⟩
    · simp [setEntry]
    · simp [setEntry, hf]

theorem removeChannel_holds (h : p.Holds c ch.fd ch.index (.registered kNoneEvent))
    (he : ch.events = kNoneEvent) :
    ∃ p', p.removeChannel c ch = .ok (p', kNew) ∧ p'.Holds c ch.fd kNew .removed ∧
      ∀ f, f ≠ ch.fd → p'.channels f = p.channels f ∧ p'.kernel f = p.kernel f := by
  obtain ⟨hi, hm, hk⟩ := h
  refine ⟨_, removeChannel_idle hi he hm, ⟨rfl, ?_, hk⟩, fun f hf => ⟨?_, rfl⟩⟩
  · simp [eraseFd]
  · simp [eraseFd, hf]

structure Represents (fd : ChannelId → Int) (life : ChannelId → Life) (s : Polled EPollPoller) :
    Prop where
  fd_eq : ∀ c, (s.chans c).fd = fd c
  events_eq : ∀ c, (s.chans c).events = (life c).events
  holds : ∀ c, s.poller.Holds c (fd c) (s.chans c).index (life c)
  known : ∀ f c, s.poller.channels f = some c → f = fd c ∧ ∃ e, life c = .registered e
  listed : ∀ f e c, s.poller.kernel f = some (e, c) → f = fd c ∧ life c = .registered e

/-- The poller after a step that changes channel `c` and what the poller has for it. -/
theorem Represents.update {s s' : Polled EPollPoller} {l : Life} (h : Represents fd life s)
    (hinj : Function.Injective fd) (hfd : (s'.chans c).fd = fd c)
    (hev : (s'.chans c).events = l.events) (hc : s'.poller.Holds c (fd c) (s'.chans c).index l)
    (hd : ∀ d, d ≠ c → s'.chans d = s.chans d)
    (hm : ∀ f, f ≠ fd c → s'.poller.channels f = s.poller.channels f)
    (hk : ∀ f, f ≠ fd c → s'.poller.kernel f = s.poller.kernel f) :
    Represents fd (Function.update life c l) s' := by
  refine ⟨fun d => ?_, fun d => ?_, fun d => ?_, fun f d hf => ?_, fun f e d hf => ?_⟩
  · by_cases hdc : d = c
    · rw [hdc]; exact hfd
    · rw [hd d hdc]; exact h.fd_eq d
  · by_cases hdc : d = c
    · rw [hdc, Function.update_self]; exact hev
    · rw [hd d hdc, Function.update_of_ne hdc]; exact h.events_eq d
  · by_cases hdc : d = c
    · rw [hdc, Function.update_self]; exact hc
    · have hne : fd d ≠ fd c := fun hf => hdc (hinj hf)
      rw [hd d hdc, Function.update_of_ne hdc]
      exact (h.holds d).congr (hm _ hne) (hk _ hne)
  · by_cases hfc : f = fd c
    · subst hfc
      cases l with
      | fresh | removed => cases hc.2.1.symm.trans hf
      | registered e =>
        cases hc.2.1.symm.trans hf
        exact ⟨rfl, e, Function.update_self ..⟩
    · rw [hm f hfc] at hf
      obtain ⟨hfd', e, hl⟩ := h.known f d hf
      have hdc : d ≠ c := fun hdc => hfc (hdc ▸ hfd')
      exact ⟨hfd', e, by rw [Function.update_of_ne hdc]; exact hl⟩
  · by_cases hfc : f = fd c
    · subst hfc
      cases l with
      | fresh | removed => cases hc.2.2.symm.trans hf
      | registered e' =>
        have hent := hc.2.2.symm.trans hf
        unfold entry at hent
        split at hent
        · cases hent
        · cases hent
          exact ⟨rfl, Function.update_self ..⟩
    · rw [hk f hfc] at hf
      obtain ⟨hfd', hl⟩ := h.listed f e d hf
      have hdc : d ≠ c := fun hdc => hfc (hdc ▸ hfd')
      exact ⟨hfd', by rw [Function.update_of_ne hdc]; exact hl⟩

end EPollPoller
end Step
end TinyMuduo
