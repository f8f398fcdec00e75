import TinyMuduo.Poller.Agree

/-!
# Poller.Mirror

`EPollPoller` and the interest list that the kernel keeps for it. Unlike in `Poller.Agree`, the
channel operations come in any order: a channel may be disabled twice, which adds it back with an
empty mask, or be removed and enabled again. What stays true of a channel is `Marked`: its
`index_`, its entry in `channels_` and its entry in the interest list go together.

The environment opens and closes descriptors, but not that of a registered channel, and reports
events of entries of the interest list.
-/

namespace TinyMuduo

open Channel Result

/-- `channel->set_revents(revents)`. -/
def Polled.setRevents {P : Type} (s : Polled P) (c : ChannelId) (revents : Events) : Polled P :=
  { s with chans := Function.update s.chans c { s.chans c with revents := revents } }

namespace EPollPoller

/-! ## The calls of `epoll_ctl` -/

structure Ctl where
  op : CtlOp
  fd : Int
  /-- `event.events` and `event.data.ptr` -/
  event : Events × ChannelId
  deriving DecidableEq, Repr

/-- `EPOLL_CTL_ADD` of an absent descriptor, `EPOLL_CTL_MOD` and `EPOLL_CTL_DEL` of a present
one: the calls that do not fail with `EEXIST` or `ENOENT`. -/
def Ctl.Valid (kernel : Int → Option (Events × ChannelId)) (x : Ctl) : Prop :=
  match x.op with
  | .add => kernel x.fd = none
  | .mod | .del => kernel x.fd ≠ none

/-- The call `updateChannel` makes. -/
def updateCtl (c : ChannelId) (ch : Channel) : Ctl where
  op := if ch.index = kNew ∨ ch.index = kDeleted then .add
    else if ch.isNoneEvent then .del else .mod
  fd := ch.fd
  event := (ch.events, c)

/-- The call `removeChannel` makes, if any. -/
def removeCtl (c : ChannelId) (ch : Channel) : Option Ctl :=
  if ch.index = kAdded then some ⟨.del, ch.fd, (ch.events, c)⟩ else none

/-- The call, if any, was valid, and took the interest list from `kernel` to `kernel'`. -/
def Issued (kernel kernel' : Int → Option (Events × ChannelId)) : Option Ctl → Prop
  | none => kernel' = kernel
  | some x => x.Valid kernel ∧ epollCtl kernel x.op x.fd x.event = some kernel'

/-! ## `poll` -/

def kInitEventListSize : Nat := 16

inductive PollFault where
  | poller (f : PollerFault)
  /-- `numEvents <= events_.size()` -/
  | numEvents
  deriving DecidableEq, Repr

/-- The loop of `fillActiveChannels`, over the entries `epoll_wait` wrote to `events_`. -/
def fillActive (s : Polled EPollPoller) :
    List (Events × ChannelId) → Except PollerFault (Polled EPollPoller × List ChannelId)
  | [] => .ok (s, [])
  | (revents, c) :: rest => do
    require (s.poller.channels (s.chans c).fd ≠ none) .knownFd
    require (s.poller.channels (s.chans c).fd = some c) .sameChannel
    let r ← fillActive (s.setRevents c revents) rest
    .ok (r.1, c :: r.2)

/-- `size` is `events_.size()`. -/
def fillActiveChannels (s : Polled EPollPoller) (size : Nat) (events : List (Events × ChannelId)) :
    Except PollFault (Polled EPollPoller × List ChannelId) := do
  Result.ensure (events.length ≤ size) .numEvents
  (fillActive s events).mapError .poller

/-- What `epoll_wait` writes when the descriptors of `ready` have events. -/
def epollWait (kernel : Int → Option (Events × ChannelId)) (ready : List (Int × Events)) :
    List (Events × ChannelId) :=
  ready.filterMap fun x => (kernel x.1).map fun entry => (x.2, entry.2)

end EPollPoller

/-! ## The poller in its environment -/

structure EPollSystem where
  epoll : Polled EPollPoller
  /-- `events_.size()` -/
  size : Nat
  activeChannels : List ChannelId
  /-- The channel was used since it was created or last removed. -/
  registered : ChannelId → Bool
  /-- The descriptor of the channel is open. -/
  isOpen : ChannelId → Bool

namespace EPollSystem

open EPollPoller (kNew kAdded kDeleted Ctl updateCtl removeCtl Issued PollFault)

inductive Event where
  | channel (op : ChannelOp)
  /-- `epoll_wait` returns, with an error or with the descriptors that have events. -/
  | poll (ready : Option (List (Int × Events)))
  | openFd (c : ChannelId)
  | closeFd (c : ChannelId)

def init (fd : ChannelId → Int) : EPollSystem where
  epoll := ⟨.init, fun c => .new (fd c)⟩
  size := EPollPoller.kInitEventListSize
  activeChannels := []
  registered := fun _ => false
  isOpen := fun _ => false

def Enabled (s : EPollSystem) : Event → Prop
  | .channel (.interest c _) => s.isOpen c = true
  | .channel (.remove c) => s.registered c = true ∧ (s.epoll.chans c).events = kNoneEvent
  | .poll none => True
  | .poll (some ready) => ready.length ≤ s.size ∧ ∀ x ∈ ready, s.epoll.poller.kernel x.1 ≠ none
  | .openFd c => s.isOpen c = false
  | .closeFd c => s.isOpen c = true ∧ s.registered c = false

instance (s : EPollSystem) : (ev : Event) → Decidable (s.Enabled ev)
  | .channel (.interest c _) => inferInstanceAs (Decidable (s.isOpen c = true))
  | .channel (.remove c) => inferInstanceAs
      (Decidable (s.registered c = true ∧ (s.epoll.chans c).events = kNoneEvent))
  | .poll none => inferInstanceAs (Decidable True)
  | .poll (some ready) => inferInstanceAs
      (Decidable (ready.length ≤ s.size ∧ ∀ x ∈ ready, s.epoll.poller.kernel x.1 ≠ none))
  | .openFd c => inferInstanceAs (Decidable (s.isOpen c = false))
  | .closeFd c => inferInstanceAs (Decidable (s.isOpen c = true ∧ s.registered c = false))

def nextRegistered (s : EPollSystem) : ChannelOp → ChannelId → Bool
  | .interest c _ => Function.update s.registered c true
  | .remove c => Function.update s.registered c false

/-- `EPollPoller::poll` with `events` written to `events_`. -/
def poll (s : EPollSystem) (events : List (Events × ChannelId)) :
    Except PollFault EPollSystem :=
  if 0 < events.length then do
    let r ← EPollPoller.fillActiveChannels s.epoll s.size events
    .ok { s with
      epoll := r.1
      activeChannels := r.2
      size := if events.length = s.size then s.size * 2 else s.size }
  else .ok { s with activeChannels := [] }

/-- The kernel drops a closed descriptor from the interest list. -/
def closeFd (s : EPollSystem) (c : ChannelId) : EPollSystem where
  epoll := { s.epoll with poller := s.epoll.poller.setEntry (s.epoll.chans c).fd none }
  size := s.size
  activeChannels := s.activeChannels
  registered := s.registered
  isOpen := Function.update s.isOpen c false

def exec (s : EPollSystem) : Event → Except PollFault EPollSystem
  | .channel op => do
    let epoll ← (EPollPoller.exec s.epoll op).mapError .poller
    .ok { s with epoll := epoll, registered := s.nextRegistered op }
  | .poll none => .ok { s with activeChannels := [] }
  | .poll (some ready) => s.poll (EPollPoller.epollWait s.epoll.poller.kernel ready)
  | .openFd c => .ok { s with isOpen := Function.update s.isOpen c true }
  | .closeFd c => .ok (s.closeFd c)

/-- The `epoll_ctl` call an operation makes. -/
def ctl (s : EPollSystem) : ChannelOp → Option Ctl
  | .interest c i => some (updateCtl c ((s.epoll.chans c).interest i))
  | .remove c => removeCtl c (s.epoll.chans c)

end EPollSystem

/-! ## One channel -/

namespace EPollPoller

/-- The mark of channel `ch`, and what `channels_` and the kernel have for its descriptor. -/
inductive Marked (p : EPollPoller) (c : ChannelId) (ch : Channel) : Bool → Prop where
  | new : ch.index = kNew → p.channels ch.fd = none → p.kernel ch.fd = none → Marked p c ch false
  | added : ch.index = kAdded → p.channels ch.fd = some c →
      p.kernel ch.fd = some (ch.events, c) → Marked p c ch true
  | deleted : ch.index = kDeleted → p.channels ch.fd = some c → p.kernel ch.fd = none →
      Marked p c ch true

theorem Marked.congr {p p' : EPollPoller} {c : ChannelId} {ch ch' : Channel} {r : Bool}
    (h : Marked p c ch r) (hfd : ch'.fd = ch.fd) (hev : ch'.events = ch.events)
    (hi : ch'.index = ch.index) (hm : p'.channels ch.fd = p.channels ch.fd)
    (hk : p'.kernel ch.fd = p.kernel ch.fd) : Marked p' c ch' r := by
  rw [← hfd] at hm hk
  cases h with
  | new h₁ h₂ h₃ => exact .new (hi.trans h₁) (hm.trans (hfd ▸ h₂)) (hk.trans (hfd ▸ h₃))
  | added h₁ h₂ h₃ =>
    exact .added (hi.trans h₁) (hm.trans (hfd ▸ h₂)) (by rw [hk, hfd, hev]; exact h₃)
  | deleted h₁ h₂ h₃ => exact .deleted (hi.trans h₁) (hm.trans (hfd ▸ h₂)) (hk.trans (hfd ▸ h₃))

theorem Marked.of_channels {p : EPollPoller} {c d : ChannelId} {ch : Channel} {r : Bool}
    (h : Marked p c ch r) (hd : p.channels ch.fd = some d) :
    d = c ∧ (ch.index = kAdded ∨ ch.index = kDeleted) := by
  cases h with
  | new _ hm _ => cases hm.symm.trans hd
  | added hi hm _ => cases hm.symm.trans hd; exact ⟨rfl, Or.inl hi⟩
  | deleted hi hm _ => cases hm.symm.trans hd; exact ⟨rfl, Or.inr hi⟩

theorem Marked.of_kernel {p : EPollPoller} {c d : ChannelId} {ch : Channel} {r : Bool} {e : Events}
    (h : Marked p c ch r) (hd : p.kernel ch.fd = some (e, d)) :
    d = c ∧ ch.index = kAdded ∧ ch.events = e := by
  cases h with
  | new _ _ hk | deleted _ _ hk => cases hk.symm.trans hd
  | added hi _ hk => cases hk.symm.trans hd; exact ⟨rfl, hi, rfl⟩

theorem Marked.channels_eq {p : EPollPoller} {c : ChannelId} {ch : Channel} {r : Bool}
    (h : Marked p c ch r) (hi : ch.index = kAdded ∨ ch.index = kDeleted) :
    p.channels ch.fd = some c := by
  cases h with
  | new hi' _ _ =>
    rw [hi'] at hi
    exact absurd hi (by decide)
  | added _ hm _ | deleted _ hm _ => exact hm

theorem Marked.kernel_eq {p : EPollPoller} {c : ChannelId} {ch : Channel} {r : Bool}
    (h : Marked p c ch r) (hi : ch.index = kAdded) : p.kernel ch.fd = some (ch.events, c) := by
  cases h with
  | new hi' _ _ | deleted hi' _ _ =>
    rw [hi'] at hi
    exact absurd hi (by decide)
  | added _ _ hk => exact hk

/-- Two pollers that differ only in what they have for `f`. -/
structure SameBut (f : Int) (p p' : EPollPoller) : Prop where
  channels : ∀ g, g ≠ f → p'.channels g = p.channels g
  kernel : ∀ g, g ≠ f → p'.kernel g = p.kernel g

theorem sameBut_setEntry (p : EPollPoller) (f : Int) (ev : Option (Events × ChannelId)) :
    SameBut f p (p.setEntry f ev) :=
  ⟨fun _ _ => rfl, fun _ hg => Function.update_of_ne hg ..⟩

theorem sameBut_register (p : EPollPoller) (f : Int) (c : ChannelId) (e : Events) :
    SameBut f p (p.register f c e) :=
  ⟨fun _ hg => Function.update_of_ne hg .., fun _ hg => Function.update_of_ne hg ..⟩

theorem sameBut_eraseFd (p : EPollPoller) (f : Int) : SameBut f p (p.eraseFd f) :=
  ⟨fun _ hg => Function.update_of_ne hg .., fun _ _ => rfl⟩

theorem SameBut.trans {f : Int} {p p' p'' : EPollPoller} (h : SameBut f p p')
    (h' : SameBut f p' p'') : SameBut f p p'' :=
  ⟨fun g hg => (h'.channels g hg).trans (h.channels g hg),
    fun g hg => (h'.kernel g hg).trans (h.kernel g hg)⟩

section Channel

variable {p : EPollPoller} {c : ChannelId} {ch : Channel}

/-- An interest operation of a channel, whatever its mark is. -/
theorem updateChannel_marked {r : Bool} (h : Marked p c ch r) (i : Interest) :
    ∃ p' k, p.updateChannel c (ch.interest i) = .ok (p', k) ∧
      Marked p' c { ch.interest i with index := k } true ∧ SameBut ch.fd p p' ∧
      Issued p.kernel p'.kernel (some (updateCtl c (ch.interest i))) := by
  cases h with
  | new hi hm hk =>
    refine ⟨_, _, updateChannel_new hi hm hk, .added rfl ?_ ?_, sameBut_register .., ?_⟩
    · exact Function.update_self ..
    · exact Function.update_self ..
    · have hop : (updateCtl c (ch.interest i)).op = .add := if_pos (Or.inl hi)
      refine ⟨by rw [Ctl.Valid, hop]; exact hk, ?_⟩
      rw [hop]
      simp [epollCtl, updateCtl, hk, register]
  | deleted hi hm hk =>
    refine ⟨_, _, updateChannel_idle hi hm hk, .added rfl hm ?_, sameBut_setEntry .., ?_⟩
    · exact Function.update_self ..
    · have hop : (updateCtl c (ch.interest i)).op = .add := if_pos (Or.inr hi)
      refine ⟨by rw [Ctl.Valid, hop]; exact hk, ?_⟩
      rw [hop]
      simp [epollCtl, updateCtl, hk, setEntry]
  | added hi hm hk =>
    have hne : ¬ ((ch.interest i).index = kNew ∨ (ch.interest i).index = kDeleted) := by
      rw [interest_index, hi]
      decide
    refine ⟨_, _, updateChannel_added hi hm hk, ?_, sameBut_setEntry .., ?_⟩
    · by_cases hz : i.apply ch.events = kNoneEvent
      · refine .deleted ?_ hm ?_
        · simp [mark, hz]
        · simp [setEntry, entry, hz]
      · refine .added ?_ hm ?_
        · simp [mark, hz]
        · simp [setEntry, entry, hz]
    · by_cases hz : i.apply ch.events = kNoneEvent
      · have hop : (updateCtl c (ch.interest i)).op = .del := by
          rw [updateCtl, if_neg hne, if_pos (by simpa [isNoneEvent] using hz)]
        refine ⟨by rw [Ctl.Valid, hop]; show p.kernel ch.fd ≠ none; simp [hk], ?_⟩
        rw [hop]
        simp [epollCtl, updateCtl, hk, setEntry, entry, hz]
      · have hop : (updateCtl c (ch.interest i)).op = .mod := by
          rw [updateCtl, if_neg hne, if_neg (by simpa [isNoneEvent] using hz)]
        refine ⟨by rw [Ctl.Valid, hop]; show p.kernel ch.fd ≠ none; simp [hk], ?_⟩
        rw [hop]
        simp [epollCtl, updateCtl, hk, setEntry, entry, hz]

theorem removeChannel_marked (h : Marked p c ch true) (he : ch.events = kNoneEvent) :
    ∃ p', p.removeChannel c ch = .ok (p', kNew) ∧
      Marked p' c { ch with index := kNew } false ∧ SameBut ch.fd p p' ∧
      Issued p.kernel p'.kernel (removeCtl c ch) := by
  cases h with
  | added hi hm hk =>
    refine ⟨_, removeChannel_added hi he hm hk, .new rfl ?_ ?_,
      (sameBut_eraseFd ..).trans (sameBut_setEntry ..), ?_⟩
    · exact Function.update_self ..
    · exact Function.update_self ..
    · rw [removeCtl, if_pos hi]
      refine ⟨by show p.kernel ch.fd ≠ none; simp [hk], ?_⟩
      simp [epollCtl, hk, setEntry, eraseFd]
  | deleted hi hm hk =>
    refine ⟨_, removeChannel_idle hi he hm, .new rfl ?_ hk, sameBut_eraseFd .., ?_⟩
    · exact Function.update_self ..
    · have hne : ¬ ch.index = kAdded := by
        rw [hi]
        decide
      rw [removeCtl, if_neg hne]
      rfl

end Channel

/-! ## `fillActiveChannels` -/

/-- The channels but for `revents_`. -/
def SameMarks (s s' : Polled EPollPoller) : Prop :=
  s'.poller = s.poller ∧ ∀ c, (s'.chans c).fd = (s.chans c).fd ∧
    (s'.chans c).events = (s.chans c).events ∧ (s'.chans c).index = (s.chans c).index

theorem sameMarks_setRevents (s : Polled EPollPoller) (c : ChannelId) (e : Events) :
    SameMarks s (s.setRevents c e) := by
  refine ⟨rfl, fun d => ?_⟩
  by_cases hd : d = c
  · simp [Polled.setRevents, hd]
  · simp [Polled.setRevents, hd]

theorem SameMarks.trans {s s' s'' : Polled EPollPoller} (h : SameMarks s s')
    (h' : SameMarks s' s'') : SameMarks s s'' := by
  refine ⟨h'.1.trans h.1, fun c => ?_⟩
  obtain ⟨hf, he, hi⟩ := h.2 c
  obtain ⟨hf', he', hi'⟩ := h'.2 c
  exact ⟨hf'.trans hf, he'.trans he, hi'.trans hi⟩

/-- Events of channels in `channels_` become the active channels, in the order of `events_`. -/
theorem fillActive_ok {s : Polled EPollPoller} {events : List (Events × ChannelId)}
    (h : ∀ x ∈ events, s.poller.channels (s.chans x.2).fd = some x.2) :
    ∃ s', fillActive s events = .ok (s', events.map Prod.snd) ∧ SameMarks s s' := by
  induction events generalizing s with
  | nil => exact ⟨s, rfl, rfl, fun _ => ⟨rfl, rfl, rfl⟩⟩
  | cons x events ih =>
    obtain ⟨e, c⟩ := x
    have hc := h (e, c) List.mem_cons_self
    have hset := sameMarks_setRevents s c e
    obtain ⟨s', hx, hsame⟩ := ih (s := s.setRevents c e) (by
      intro y hy
      rw [(hset.2 y.2).1]
      exact h y (List.mem_cons_of_mem _ hy))
    refine ⟨s', ?_, hset.trans hsame⟩
    rw [fillActive, require_ok (by rw [hc]; nofun), ok_bind, require_ok hc, ok_bind, hx, ok_bind]
    rfl

theorem mem_epollWait {kernel : Int → Option (Events × ChannelId)} {ready : List (Int × Events)}
    {x : Events × ChannelId} (h : x ∈ epollWait kernel ready) :
    ∃ f e, kernel f = some (e, x.2) := by
  obtain ⟨⟨f, e⟩, -, hx⟩ := List.mem_filterMap.1 h
  obtain ⟨⟨e', c⟩, hk, rfl⟩ := Option.map_eq_some_iff.1 hx
  exact ⟨f, e', hk⟩

theorem length_epollWait_le (kernel : Int → Option (Events × ChannelId))
    (ready : List (Int × Events)) : (epollWait kernel ready).length ≤ ready.length :=
  List.length_filterMap_le ..

end EPollPoller

/-! ## Runs -/

namespace EPollSystem

open EPollPoller (kNew kAdded kDeleted Marked SameBut SameMarks Issued PollFault)

structure Inv (fd : ChannelId → Int) (s : EPollSystem) : Prop where
  fd_eq : ∀ c, (s.epoll.chans c).fd = fd c
  marked : ∀ c, Marked s.epoll.poller c (s.epoll.chans c) (s.registered c)
  known : ∀ f c, s.epoll.poller.channels f = some c → f = fd c
  listed : ∀ f e c, s.epoll.poller.kernel f = some (e, c) → f = fd c

variable {fd : ChannelId → Int} {s : EPollSystem}

theorem init_inv (fd : ChannelId → Int) : (init fd).Inv fd :=
  ⟨fun _ => rfl, fun _ => .new rfl rfl rfl, nofun, nofun⟩

/-- A step that changes one channel and what the poller has for its descriptor. -/
theorem Inv.update (h : s.Inv fd) (hinj : Function.Injective fd) {s' : EPollSystem} {c : ChannelId}
    (hfd : (s'.epoll.chans c).fd = fd c)
    (hc : Marked s'.epoll.poller c (s'.epoll.chans c) (s'.registered c))
    (hsame : SameBut (fd c) s.epoll.poller s'.epoll.poller)
    (hchans : ∀ d, d ≠ c → s'.epoll.chans d = s.epoll.chans d)
    (hreg : ∀ d, d ≠ c → s'.registered d = s.registered d) : s'.Inv fd := by
  refine ⟨fun d => ?_, fun d => ?_, fun f d hf => ?_, fun f e d hf => ?_⟩
  · by_cases hd : d = c
    · rw [hd]; exact hfd
    · rw [hchans d hd]; exact h.fd_eq d
  · by_cases hd : d = c
    · rw [hd]; exact hc
    · have hne : (s.epoll.chans d).fd ≠ fd c := fun hf => hd (hinj ((h.fd_eq d).symm.trans hf))
      rw [hchans d hd, hreg d hd]
      exact (h.marked d).congr rfl rfl rfl (hsame.channels _ hne) (hsame.kernel _ hne)
  · by_cases hfc : f = fd c
    · rw [← hfd] at hfc
      rw [hfc] at hf ⊢
      rw [(hc.of_channels hf).1, hfd]
    · rw [hsame.channels f hfc] at hf
      exact h.known f d hf
  · by_cases hfc : f = fd c
    · rw [← hfd] at hfc
      rw [hfc] at hf ⊢
      rw [(hc.of_kernel hf).1, hfd]
    · rw [hsame.kernel f hfc] at hf
      exact h.listed f e d hf

/-- A step that leaves the poller and its channels, but for what was reported. -/
theorem Inv.same (h : s.Inv fd) {s' : EPollSystem} (hsame : SameMarks s.epoll s'.epoll)
    (hreg : s'.registered = s.registered) : s'.Inv fd := by
  obtain ⟨hp, hch⟩ := hsame
  refine ⟨fun c => (hch c).1.trans (h.fd_eq c), fun c => ?_, ?_, ?_⟩
  · obtain ⟨hf, he, hi⟩ := hch c
    rw [hreg]
    exact (h.marked c).congr hf he hi (by rw [hp]) (by rw [hp])
  · rw [hp]; exact h.known
  · rw [hp]; exact h.listed

theorem exec_channel (h : s.Inv fd) (hinj : Function.Injective fd) {op : ChannelOp}
    (he : s.Enabled (.channel op)) :
    ∃ s', s.exec (.channel op) = .ok s' ∧ s'.Inv fd ∧
      Issued s.epoll.poller.kernel s'.epoll.poller.kernel (s.ctl op) := by
  cases op with
  | interest c i =>
    obtain ⟨p, k, hx, hm, hsame, hctl⟩ := EPollPoller.updateChannel_marked (h.marked c) i
    have hexec : EPollPoller.exec s.epoll (.interest c i) =
        .ok ({ s.epoll.interest c i with poller := p }.setIndex c k) := by
      rw [EPollPoller.exec, Polled.interest_self, hx, ok_bind]
    refine ⟨_, by rw [exec, hexec]; rfl, h.update hinj ?_ ?_ (h.fd_eq c ▸ hsame) (fun d hd => ?_)
      (fun d hd => ?_), hctl⟩
    · rw [Polled.setIndex_self]
      simpa using h.fd_eq c
    · rw [Polled.setIndex_self]
      simpa [nextRegistered] using hm
    · simp [hd]
    · simp [nextRegistered, hd]
  | remove c =>
    obtain ⟨hreg, hnone⟩ := he
    obtain ⟨p, hx, hm, hsame, hctl⟩ :=
      EPollPoller.removeChannel_marked (hreg ▸ h.marked c) hnone
    have hexec : EPollPoller.exec s.epoll (.remove c) =
        .ok ({ s.epoll with poller := p }.setIndex c kNew) := by
      rw [EPollPoller.exec, require_ok (by simp [isNoneEvent, hnone]), ok_bind, hx, ok_bind]
    refine ⟨_, by rw [exec, hexec]; rfl, h.update hinj ?_ ?_ (h.fd_eq c ▸ hsame) (fun d hd => ?_)
      (fun d hd => ?_), hctl⟩
    · rw [Polled.setIndex_self]
      exact h.fd_eq c
    · rw [Polled.setIndex_self]
      simpa [nextRegistered] using hm
    · simp [hd]
    · simp [nextRegistered, hd]

/-- An entry of the interest list belongs to a channel in `channels_`. -/
theorem Inv.channels_of_kernel (h : s.Inv fd) {f : Int} {e : Events} {c : ChannelId}
    (hk : s.epoll.poller.kernel f = some (e, c)) :
    s.epoll.poller.channels (s.epoll.chans c).fd = some c := by
  rw [h.listed f e c hk, ← h.fd_eq c] at hk
  exact (h.marked c).channels_eq (Or.inl ((h.marked c).of_kernel hk).2.1)

theorem exec_poll (h : s.Inv fd) {ready : List (Int × Events)} (hlen : ready.length ≤ s.size) :
    ∃ s', s.exec (.poll (some ready)) = .ok s' ∧ s'.Inv fd := by
  have hwait := EPollPoller.length_epollWait_le s.epoll.poller.kernel ready
  have hfound : ∀ x ∈ EPollPoller.epollWait s.epoll.poller.kernel ready,
      s.epoll.poller.channels (s.epoll.chans x.2).fd = some x.2 := by
    intro x hx
    obtain ⟨f, e, hk⟩ := EPollPoller.mem_epollWait hx
    exact h.channels_of_kernel hk
  obtain ⟨e, hx, hsame⟩ := EPollPoller.fillActive_ok hfound
  rw [exec, poll]
  split
  · rw [EPollPoller.fillActiveChannels, ensure_pos (hwait.trans hlen), ok_bind, hx]
    exact ⟨_, rfl, h.same hsame rfl⟩
  · exact ⟨_, rfl, h.same ⟨rfl, fun _ => ⟨rfl, rfl, rfl⟩⟩ rfl⟩

/-- Every event of the environment is handled without a fault. -/
theorem exec_inv (h : s.Inv fd) (hinj : Function.Injective fd) {ev : Event} (he : s.Enabled ev) :
    ∃ s', s.exec ev = .ok s' ∧ s'.Inv fd := by
  cases ev with
  | channel op =>
    obtain ⟨s', hx, hi, -⟩ := exec_channel h hinj he
    exact ⟨s', hx, hi⟩
  | poll ready =>
    cases ready with
    | none => exact ⟨_, rfl, h.same ⟨rfl, fun _ => ⟨rfl, rfl, rfl⟩⟩ rfl⟩
    | some ready => exact exec_poll h he.1
  | openFd c => exact ⟨_, rfl, h.same ⟨rfl, fun _ => ⟨rfl, rfl, rfl⟩⟩ rfl⟩
  | closeFd c =>
    refine ⟨_, rfl, h.update hinj (h.fd_eq c) ?_ ?_ (fun _ _ => rfl) fun _ _ => rfl⟩
    · -- the channel is not registered, so the kernel had nothing to drop
      have hnew := h.marked c
      rw [he.2] at hnew
      show Marked _ c (s.epoll.chans c) (s.registered c)
      rw [he.2]
      cases hnew with
      | new hi hm hk => exact .new hi hm (Function.update_self ..)
    · show SameBut (fd c) s.epoll.poller (s.epoll.poller.setEntry (s.epoll.chans c).fd none)
      rw [h.fd_eq c]
      exact EPollPoller.sameBut_setEntry ..

/-- `channels_` holds the channels marked `kAdded` or `kDeleted`, and the interest list those
marked `kAdded`, with their interest set and their address. -/
structure Mirrors (s : EPollSystem) : Prop where
  channels : ∀ f c, s.epoll.poller.channels f = some c ↔ (s.epoll.chans c).fd = f ∧
    ((s.epoll.chans c).index = kAdded ∨ (s.epoll.chans c).index = kDeleted)
  kernel : ∀ f e c, s.epoll.poller.kernel f = some (e, c) ↔ (s.epoll.chans c).fd = f ∧
    (s.epoll.chans c).index = kAdded ∧ (s.epoll.chans c).events = e

theorem Inv.mirrors (h : s.Inv fd) : s.Mirrors := by
  refine ⟨fun f c => ⟨fun hf => ?_, ?_⟩, fun f e c => ⟨fun hf => ?_, ?_⟩⟩
  · have hfd := (h.known f c hf).trans (h.fd_eq c).symm
    rw [hfd] at hf
    exact ⟨hfd.symm, ((h.marked c).of_channels hf).2⟩
  · rintro ⟨rfl, hi⟩
    exact (h.marked c).channels_eq hi
  · have hfd := (h.listed f e c hf).trans (h.fd_eq c).symm
    rw [hfd] at hf
    exact ⟨hfd.symm, ((h.marked c).of_kernel hf).2⟩
  · rintro ⟨rfl, hi, rfl⟩
    exact (h.marked c).kernel_eq hi

def machine : Machine EPollSystem Event PollFault where
  enabled := Enabled
  exec := exec

instance (s : EPollSystem) (ev : Event) : Decidable (machine.enabled s ev) :=
  inferInstanceAs (Decidable (s.Enabled ev))

/-- **`EPollPoller` mirrors the kernel's interest list.** In every run on channels with distinct
descriptors, the mark of a channel says where it is. Whatever comes next runs without a failed
assertion, and an operation's `epoll_ctl` call adds an absent descriptor, or changes or deletes a
present one. -/
theorem epoll_mirrors {fd : ChannelId → Int} (hinj : Function.Injective fd) {evs : List Event}
    {s : EPollSystem} (h : Machine.Run machine (init fd) evs s) :
    s.Mirrors ∧ (∀ ev, s.Enabled ev → ∃ s', s.exec ev = .ok s') ∧
    ∀ op s', s.Enabled (.channel op) → s.exec (.channel op) = .ok s' →
      Issued s.epoll.poller.kernel s'.epoll.poller.kernel (s.ctl op) := by
  have hsafe : machine.Safe (Inv fd) := fun _ _ hs he => exec_inv hs hinj he
  have hinv : s.Inv fd := h.keeps hsafe.keeps (init_inv fd)
  refine ⟨hinv.mirrors, (hsafe.run h (init_inv fd)).2, fun op s' he hx => ?_⟩
  obtain ⟨s₁, hx₁, -, hctl⟩ := exec_channel hinv hinj he
  cases hx₁.symm.trans hx
  exact hctl

/-- Channel 5 is disabled twice, which adds it back with an empty mask, removed, and enabled
again; then an event is reported for it. -/
theorem epoll_mirrors_sample :
    ∃ s, Machine.Run machine (init Int.ofNat)
      [.openFd 5, .channel (.interest 5 .enableReading), .channel (.interest 5 .disableAll),
        .channel (.interest 5 .disableAll), .channel (.remove 5),
        .channel (.interest 5 .enableWriting), .poll (some [(5, POLLOUT)])] s ∧
      s.activeChannels = [5] ∧ s.epoll.poller.kernel 5 = some (4, 5) ∧ s.Mirrors := by
  obtain ⟨s, hrun, hobs⟩ := Machine.Run.of_replay machine (init Int.ofNat)
    [.openFd 5, .channel (.interest 5 .enableReading), .channel (.interest 5 .disableAll),
      .channel (.interest 5 .disableAll), .channel (.remove 5),
      .channel (.interest 5 .enableWriting), .poll (some [(5, POLLOUT)])]
    (fun s => (s.activeChannels, s.epoll.poller.kernel 5)) ([5], some (4, 5)) (by decide +kernel)
  obtain ⟨hactive, hkernel⟩ := Prod.mk.inj hobs
  exact ⟨s, hrun, hactive, hkernel, (epoll_mirrors Int.ofNat_injective hrun).1⟩

end EPollSystem
end TinyMuduo
