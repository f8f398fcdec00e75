import Mathlib.Data.Int.ConditionallyCompleteOrder
import Mathlib.Data.Int.Interval
import Mathlib.Data.Set.Card
import TinyMuduo.Lib.Machine
import TinyMuduo.Lib.Slots
import TinyMuduo.Poller.Model

/-!
# Poller.Index

`PollPoller` keeps `pollfds_`, and in each channel the index of its slot there. `Indexed` says that
these indices are `Slots` of the array: `updateChannel` pushes or rewrites one slot, and
`removeChannel` moves the last slot, whose owner it finds through a descriptor that may be negated.
It holds as long as the assertions do, whatever the channels are interested in; in particular a
channel that is enabled again after `disableAll` keeps its negated slot.
-/

namespace TinyMuduo

open Channel Result

namespace PollPoller

/-- The slot of a channel in `channels_`. -/
def slotOf (s : Polled PollPoller) (c : ChannelId) : Option Nat :=
  if s.poller.channels (s.chans c).fd = some c then some (s.chans c).index.toNat else none

def item (s : Polled PollPoller) (c : ChannelId) : Option PollFd :=
  Slots.item s.poller.pollfds (slotOf s) c

structure Indexed (fd : ChannelId → Int) (s : Polled PollPoller) : Prop where
  fd_eq : ∀ c, (s.chans c).fd = fd c
  known : ∀ f c, s.poller.channels f = some c → f = fd c
  index_nonneg : ∀ c, s.poller.channels (fd c) = some c → 0 ≤ (s.chans c).index
  slots : Slots s.poller.pollfds (slotOf s)
  slotFd : ∀ c pfd, item s c = some pfd → slotFd pfd = fd c

theorem slotFd_eq_iff {pfd : PollFd} {f : Int} (hf : 0 ≤ f) :
    slotFd pfd = f ↔ pfd.fd = f ∨ pfd.fd = -f - 1 := by
  unfold slotFd
  split <;> omega

variable {fd : ChannelId → Int} {s : Polled PollPoller} {c : ChannelId}

theorem slotOf_eq (hfd : (s.chans c).fd = fd c) (hc : s.poller.channels (fd c) = some c) :
    slotOf s c = some (s.chans c).index.toNat := by
  rw [slotOf, hfd, if_pos hc]

theorem slotOf_none (hfd : (s.chans c).fd = fd c) (hc : s.poller.channels (fd c) ≠ some c) :
    slotOf s c = none := by
  rw [slotOf, hfd, if_neg hc]

@[simp] theorem slotOf_interest (s : Polled PollPoller) (c : ChannelId) (i : Interest) :
    slotOf (s.interest c i) = slotOf s := by
  funext d
  by_cases hd : d = c
  · simp [slotOf, hd]
  · simp [slotOf, hd]

theorem item_interest (s : Polled PollPoller) (c : ChannelId) (i : Interest) :
    item (s.interest c i) = item s := by
  funext d
  rw [item, slotOf_interest, item, Polled.interest_poller]

theorem Indexed.interest (h : Indexed fd s) (c : ChannelId) (i : Interest) :
    Indexed fd (s.interest c i) := by
  refine ⟨fun d => ?_, h.known, fun d hd => ?_, ?_, ?_⟩
  · by_cases hd : d = c
    · rw [hd]; simpa using h.fd_eq c
    · simpa [hd] using h.fd_eq d
  · by_cases hdc : d = c
    · subst hdc; simpa using h.index_nonneg d hd
    · simpa [hdc] using h.index_nonneg d hd
  · rw [slotOf_interest]; exact h.slots
  · rw [item_interest]; exact h.slotFd

/-- A channel in `channels_` has a slot, the one its index names. -/
theorem Indexed.slot (h : Indexed fd s) (hc : s.poller.channels (fd c) = some c) :
    ∃ (k : Nat) (pfd : PollFd), (s.chans c).index = k ∧ slotOf s c = some k ∧
      s.poller.pollfds[k]? = some pfd ∧ item s c = some pfd := by
  have hpos := slotOf_eq (h.fd_eq c) hc
  obtain ⟨pfd, hpfd⟩ := h.slots.exists_item hpos
  refine ⟨(s.chans c).index.toNat, pfd, ?_, hpos, ?_, hpfd⟩
  · have := h.index_nonneg c hc
    omega
  · rw [← Slots.item_eq hpos]; exact hpfd

theorem Indexed.owner (h : Indexed fd s) {k : Nat} (hk : k < s.poller.pollfds.length) :
    ∃ c, s.poller.channels (fd c) = some c ∧ (s.chans c).index = k ∧ slotOf s c = some k := by
  obtain ⟨c, hc⟩ := h.slots.cover k hk
  have hmap : s.poller.channels (fd c) = some c := by
    by_contra hmap
    rw [slotOf_none (h.fd_eq c) hmap] at hc
    cases hc
  have hidx := slotOf_eq (h.fd_eq c) hmap
  rw [hc] at hidx
  have hnn := h.index_nonneg c hmap
  refine ⟨c, hmap, ?_, hc⟩
  have := Option.some.inj hidx
  omega

theorem Indexed.index_inj (h : Indexed fd s) {d : ChannelId}
    (hc : s.poller.channels (fd c) = some c) (hd : s.poller.channels (fd d) = some d)
    (hi : (s.chans c).index = (s.chans d).index) : c = d := by
  refine h.slots.inj c d _ (slotOf_eq (h.fd_eq c) hc) ?_
  rw [hi]
  exact slotOf_eq (h.fd_eq d) hd

/-! ## `updateChannel` -/

theorem slotOf_pushSlot (h : Indexed fd s) (hinj : Function.Injective fd) :
    slotOf (pushSlot s c) = Function.update (slotOf s) c (some s.poller.pollfds.length) := by
  funext d
  by_cases hd : d = c
  · simp [slotOf, pushSlot, hd]
  · have hne : fd d ≠ fd c := fun hf => hd (hinj hf)
    simp [slotOf, pushSlot, hd, h.fd_eq, hne]

theorem pushSlot_indexed (h : Indexed fd s) (hinj : Function.Injective fd) (hpos : 0 ≤ fd c)
    (hc : s.poller.channels (fd c) = none) :
    Indexed fd (pushSlot s c) ∧
      item (pushSlot s c) c = some ⟨fd c, (s.chans c).events.setWidth 16, 0⟩ ∧
      ∀ d, d ≠ c → item (pushSlot s c) d = item s d := by
  have hnone : slotOf s c = none := slotOf_none (h.fd_eq c) (by rw [hc]; nofun)
  have hself : item (pushSlot s c) c =
      some ⟨fd c, (s.chans c).events.setWidth 16, 0⟩ := by
    rw [item, slotOf_pushSlot h hinj, ← h.fd_eq c]
    exact Slots.item_push_self _
  have hother : ∀ d, d ≠ c → item (pushSlot s c) d = item s d := by
    intro d hd
    rw [item, slotOf_pushSlot h hinj]
    exact h.slots.item_push_ne hd _
  refine ⟨⟨fun d => ?_, fun f d hf => ?_, fun d hd => ?_, ?_, fun d pfd hd => ?_⟩, hself, hother⟩
  · by_cases hd : d = c
    · rw [hd]; simpa [pushSlot] using h.fd_eq c
    · simpa [pushSlot, hd] using h.fd_eq d
  · by_cases hfc : f = fd c
    · have hmap : (pushSlot s c).poller.channels f = some c := by
        simp [pushSlot, h.fd_eq c, hfc]
      rw [hmap] at hf
      cases hf
      exact hfc
    · refine h.known f d ?_
      simpa [pushSlot, h.fd_eq c, hfc] using hf
  · by_cases hdc : d = c
    · rw [hdc]; simp [pushSlot]
    · have hne : fd d ≠ fd c := fun hf => hdc (hinj hf)
      have hd' : s.poller.channels (fd d) = some d := by
        simpa [pushSlot, h.fd_eq c, hne] using hd
      simpa [pushSlot, hdc] using h.index_nonneg d hd'
  · rw [slotOf_pushSlot h hinj]
    exact h.slots.push hnone _
  · by_cases hdc : d = c
    · rw [hdc, hself] at hd
      cases hd
      rw [hdc]
      exact (slotFd_eq_iff hpos).2 (Or.inl rfl)
    · rw [hother d hdc] at hd
      exact h.slotFd d pfd hd

theorem setSlot_indexed (h : Indexed fd s) {k : Nat} (hk : slotOf s c = some k) {pfd : PollFd}
    (hpfd : slotFd pfd = fd c) :
    Indexed fd (setSlot s k pfd) ∧ item (setSlot s k pfd) c = some pfd ∧
      ∀ d, d ≠ c → item (setSlot s k pfd) d = item s d := by
  have hself : item (setSlot s k pfd) c = some pfd := h.slots.item_set_self hk pfd
  have hother : ∀ d, d ≠ c → item (setSlot s k pfd) d = item s d :=
    fun d hd => h.slots.item_set_ne hk hd pfd
  refine ⟨⟨h.fd_eq, h.known, h.index_nonneg, h.slots.set k pfd, fun d pfd' hd => ?_⟩, hself,
    hother⟩
  by_cases hdc : d = c
  · rw [hdc, hself] at hd
    cases hd
    rw [hdc]
    exact hpfd
  · rw [hother d hdc] at hd
    exact h.slotFd d pfd' hd

/-- Rewriting a slot leaves the descriptor it stands for. -/
theorem slotFd_refresh {pfd : PollFd} {ch : Channel} (hch : 0 ≤ ch.fd)
    (h : slotFd pfd = ch.fd) : slotFd (refresh pfd ch) = ch.fd := by
  rw [slotFd_eq_iff hch] at h ⊢
  unfold refresh
  split
  · exact Or.inr rfl
  · exact h

/-- `updateChannel` fails an assertion, adds a slot at the end, or rewrites the slot the channel
has. -/
theorem updateChannel_cases (s : Polled PollPoller) (c : ChannelId) :
    (∃ a, updateChannel s c = .error (.assertion a)) ∨
    (s.poller.channels (s.chans c).fd = none ∧ updateChannel s c = .ok (pushSlot s c)) ∨
    ∃ (k : Nat) (pfd : PollFd), s.poller.channels (s.chans c).fd = some c ∧
      (s.chans c).index = k ∧ s.poller.pollfds[k]? = some pfd ∧
      updateChannel s c = .ok (setSlot s k (refresh pfd (s.chans c))) := by
  unfold updateChannel
  split
  · unfold addChannel
    by_cases hc : s.poller.channels (s.chans c).fd = none
    · rw [require_ok hc, ok_bind]
      exact Or.inr (Or.inl ⟨hc, rfl⟩)
    · rw [require, ensure_neg hc, error_bind]
      exact Or.inl ⟨_, rfl⟩
  · unfold modifyChannel
    dsimp only
    by_cases hsome : s.poller.channels (s.chans c).fd ≠ none
    swap
    · rw [require, ensure_neg hsome, error_bind]
      exact Or.inl ⟨_, rfl⟩
    rw [require_ok hsome, ok_bind]
    by_cases hc : s.poller.channels (s.chans c).fd = some c
    swap
    · rw [require, ensure_neg hc, error_bind]
      exact Or.inl ⟨_, rfl⟩
    rw [require_ok hc, ok_bind]
    by_cases hi : 0 ≤ (s.chans c).index
    swap
    · rw [require, ensure_neg hi, error_bind]
      exact Or.inl ⟨_, rfl⟩
    rw [require_ok hi, ok_bind]
    cases hget : s.poller.pollfds[(s.chans c).index.toNat]? with
    | none => exact Or.inl ⟨_, rfl⟩
    | some pfd =>
      dsimp only
      by_cases hof : pfd.fd = (s.chans c).fd ∨ pfd.fd = -(s.chans c).fd - 1
      · rw [require_ok hof, ok_bind]
        exact Or.inr (Or.inr ⟨_, pfd, hc, by omega, hget, rfl⟩)
      · rw [require, ensure_neg hof, error_bind]
        exact Or.inl ⟨_, rfl⟩

/-! ## `removeChannel` -/

/-- What `removeChannel(c)` does to the other channels: they stay in `channels_`, and keep the
slot's content. -/
structure Removed (fd : ChannelId → Int) (s : Polled PollPoller) (c : ChannelId)
    (s' : Polled PollPoller) : Prop where
  indexed : Indexed fd s'
  channels : s'.poller.channels = Function.update s.poller.channels (fd c) none
  events : ∀ d, (s'.chans d).events = (s.chans d).events
  index : ∀ d, s.poller.channels (fd d) ≠ some d ∨ d = c → (s'.chans d).index = (s.chans d).index
  item : ∀ d, d ≠ c → item s' d = item s d

theorem slotOf_eraseFd (h : Indexed fd s) (hinj : Function.Injective fd) :
    slotOf (eraseFd s (fd c)) = Function.update (slotOf s) c none := by
  funext d
  by_cases hd : d = c
  · simp [slotOf, eraseFd, hd, h.fd_eq]
  · have hne : fd d ≠ fd c := fun hf => hd (hinj hf)
    simp [slotOf, eraseFd, hd, h.fd_eq, hne]

/-- The last slot went to `k`, and its owner `d` was told; `d` is `c` itself when `k` is last. -/
theorem removed_of_moved {s' : Polled PollPoller} {d : ChannelId} {k : Nat} {last : PollFd}
    (h : Indexed fd s) (hk : slotOf s c = some k)
    (hd : slotOf s d = some (s.poller.pollfds.length - 1))
    (hlast : s.poller.pollfds.getLast? = some last)
    (hpollfds : s'.poller.pollfds = (s.poller.pollfds.set k last).dropLast)
    (hpos : slotOf s' = Slots.moved (slotOf s) c d k)
    (hchannels : s'.poller.channels = Function.update s.poller.channels (fd c) none)
    (hfd : ∀ e, (s'.chans e).fd = (s.chans e).fd)
    (hevents : ∀ e, (s'.chans e).events = (s.chans e).events)
    (hindex : ∀ e, (s'.chans e).index = (s.chans e).index ∨
      (e = d ∧ d ≠ c ∧ (s'.chans e).index = k)) : Removed fd s c s' := by
  have hitem : ∀ e, e ≠ c → item s' e = item s e := by
    intro e he
    rw [item, hpollfds, hpos]
    exact h.slots.item_swapRemove hk hd hlast he
  have hchannels' : ∀ f e, s'.poller.channels f = some e → s.poller.channels f = some e := by
    intro f e hf
    by_cases hfc : f = fd c
    · rw [hchannels, hfc, Function.update_self] at hf
      cases hf
    · rwa [hchannels, Function.update_of_ne hfc] at hf
  refine ⟨⟨fun e => ?_, fun f e hf => h.known f e (hchannels' f e hf), fun e he => ?_, ?_,
    fun e pfd he => ?_⟩, hchannels, hevents, fun e he => ?_, hitem⟩
  · rw [hfd]; exact h.fd_eq e
  · rcases hindex e with hi | ⟨-, -, hi⟩
    · rw [hi]; exact h.index_nonneg e (hchannels' _ _ he)
    · rw [hi]; exact Int.natCast_nonneg k
  · rw [hpollfds, hpos]
    exact h.slots.swapRemove hk hd last
  · have hec : e ≠ c := fun hec => by
      rw [hec, item, hpos, Slots.item_none (Slots.moved_self ..)] at he
      cases he
    rw [hitem e hec] at he
    exact h.slotFd e pfd he
  · rcases hindex e with hi | ⟨hed, hdc, -⟩
    · exact hi
    · rcases he with he | he
      · -- `d` has a slot, so it is in `channels_`
        rw [hed] at he
        rw [slotOf_none (h.fd_eq d) he] at hd
        cases hd
      · exact absurd (hed.symm.trans he) hdc

theorem dropSlot_removed (h : Indexed fd s) (hinj : Function.Injective fd)
    (hc : s.poller.channels (fd c) = some c) {k : Nat} (hk : (s.chans c).index = k) :
    ∃ s', dropSlot (eraseFd s (fd c)) k = .ok s' ∧ Removed fd s c s' := by
  have hslot : slotOf s c = some k := by rw [slotOf_eq (h.fd_eq c) hc, hk, Int.toNat_natCast]
  have hlen := h.slots.bound c k hslot
  obtain ⟨d, hdmap, hdi, hd⟩ := h.owner (show s.poller.pollfds.length - 1 < _ by omega)
  obtain ⟨_, last, _, hd', hget, hitem⟩ := h.slot hdmap
  have hlast : s.poller.pollfds.getLast? = some last := by
    rw [List.getLast?_eq_getElem?, ← Slots.item_eq hd]
    exact hitem
  unfold dropSlot
  by_cases hkl : k = (eraseFd s (fd c)).poller.pollfds.length - 1
  · have hkl' : k = s.poller.pollfds.length - 1 := hkl
    have hcd : c = d := h.slots.inj c d k hslot (hkl' ▸ hd)
    subst hcd
    rw [if_pos hkl]
    refine ⟨_, rfl, removed_of_moved h hslot hd hlast ?_ ?_ rfl (fun _ => rfl) (fun _ => rfl)
      fun _ => Or.inl rfl⟩
    · rw [hkl', Slots.dropLast_set_last]
      rfl
    · rw [Slots.moved_of_eq]
      exact slotOf_eraseFd h hinj
  · have hdc : d ≠ c := fun hdc => by
      rw [hdc, hslot] at hd
      exact hkl (Option.some.inj hd)
    have hlast' : (eraseFd s (fd c)).poller.pollfds.getLast? = some last := hlast
    have hdmap' : (eraseFd s (fd c)).poller.channels (slotFd last) = some d := by
      rw [h.slotFd d last hitem, ← hdmap]
      exact Function.update_of_ne (fun hf => hdc (hinj hf)) ..
    rw [if_neg hkl, hlast']
    dsimp only
    rw [hdmap']
    refine ⟨_, rfl, removed_of_moved h hslot hd hlast rfl ?_ rfl (fun e => ?_) (fun e => ?_)
      fun e => ?_⟩
    · have hupd : slotOf (moveLast (eraseFd s (fd c)) k last d) =
          Function.update (slotOf (eraseFd s (fd c))) d (some k) := by
        funext e
        by_cases hed : e = d
        · have hne : fd d ≠ fd c := fun hf => hdc (hinj hf)
          simp [slotOf, moveLast, eraseFd, hed, h.fd_eq, hne, hdmap]
        · simp [slotOf, moveLast, hed, eraseFd]
      rw [hupd, slotOf_eraseFd h hinj, Slots.moved]
      exact Function.update_comm hdc.symm ..
    · by_cases hed : e = d
      · simp [moveLast, eraseFd, hed]
      · simp [moveLast, eraseFd, hed]
    · by_cases hed : e = d
      · simp [moveLast, eraseFd, hed]
      · simp [moveLast, eraseFd, hed]
    · by_cases hed : e = d
      · exact Or.inr ⟨hed, hdc, by simp [moveLast, hed]⟩
      · exact Or.inl (by simp [moveLast, eraseFd, hed])

/-- `removeChannel` fails an assertion or takes the channel's slot away. In particular it does
find the channel of the last slot. -/
theorem removeChannel_cases (h : Indexed fd s) (hinj : Function.Injective fd) (c : ChannelId) :
    (∃ a, removeChannel s c = .error (.assertion a)) ∨
    ∃ s', s.poller.channels (fd c) = some c ∧ (s.chans c).events = kNoneEvent ∧
      removeChannel s c = .ok s' ∧ Removed fd s c s' := by
  unfold removeChannel
  dsimp only
  rw [h.fd_eq c]
  by_cases hsome : s.poller.channels (fd c) ≠ none
  swap
  · rw [require, ensure_neg hsome, error_bind]
    exact Or.inl ⟨_, rfl⟩
  rw [require_ok hsome, ok_bind]
  by_cases hc : s.poller.channels (fd c) = some c
  swap
  · rw [require, ensure_neg hc, error_bind]
    exact Or.inl ⟨_, rfl⟩
  rw [require_ok hc, ok_bind]
  by_cases hnone : (s.chans c).isNoneEvent = true
  swap
  · rw [require, ensure_neg hnone, error_bind]
    exact Or.inl ⟨_, rfl⟩
  rw [require_ok hnone, ok_bind, require_ok (h.index_nonneg c hc), ok_bind]
  obtain ⟨k, pfd, hk, _, hget, _⟩ := h.slot hc
  rw [hk, Int.toNat_natCast, hget]
  dsimp only
  by_cases hof : pfd.fd = -fd c - 1 ∧ pfd.events.signExtend 32 = (s.chans c).events
  · rw [require_ok hof, ok_bind]
    obtain ⟨s', hx, hr⟩ := dropSlot_removed h hinj hc hk
    exact Or.inr ⟨s', hc, by simpa [isNoneEvent] using hnone, hx, hr⟩
  · rw [require, ensure_neg hof, error_bind]
    exact Or.inl ⟨_, rfl⟩

/-! ## Runs -/

/-- The calls made to the poller. `Channel` changes `events_` only together with `update()`. -/
inductive Call where
  | interest (c : ChannelId) (i : Interest)
  | updateChannel (c : ChannelId)
  | removeChannel (c : ChannelId)

def call (s : Polled PollPoller) : Call → Except PollerFault (Polled PollPoller)
  | .interest c i => updateChannel (s.interest c i) c
  | .updateChannel c => updateChannel s c
  | .removeChannel c => removeChannel s c

def calls : Machine (Polled PollPoller) Call PollerFault where
  enabled _ _ := True
  exec := call

instance (s : Polled PollPoller) (a : Call) : Decidable (calls.enabled s a) :=
  inferInstanceAs (Decidable True)

def start (fd : ChannelId → Int) : Polled PollPoller := ⟨.init, fun c => .new (fd c)⟩

structure Inv (fd : ChannelId → Int) (s : Polled PollPoller) : Prop where
  indexed : Indexed fd s
  interests : ∀ c, Interests (s.chans c).events
  events : ∀ c pfd, item s c = some pfd → pfd.events = (s.chans c).events.setWidth 16

theorem start_inv (fd : ChannelId → Int) : Inv fd (start fd) where
  indexed :=
    { fd_eq := fun _ => rfl
      known := nofun
      index_nonneg := nofun
      slots := Slots.nil
      slotFd := nofun }
  interests := fun _ => Or.inl rfl
  events := nofun

/-- `updateChannel(c)` writes the interest of `c` into its slot; the other slots agreed before. -/
theorem updateChannel_inv (hinj : Function.Injective fd) (hpos : ∀ c, 0 ≤ fd c)
    (h : Indexed fd s) (hint : ∀ c, Interests (s.chans c).events)
    (hev : ∀ d pfd, d ≠ c → item s d = some pfd → pfd.events = (s.chans d).events.setWidth 16) :
    (∃ a, updateChannel s c = .error (.assertion a)) ∨
    ∃ s', updateChannel s c = .ok s' ∧ Inv fd s' := by
  rcases updateChannel_cases s c with hx | ⟨hc, hx⟩ | ⟨k, pfd, hc, hk, hget, hx⟩
  · exact Or.inl hx
  · rw [h.fd_eq c] at hc
    obtain ⟨hi, hself, hother⟩ := pushSlot_indexed h hinj (hpos c) hc
    have hch : ∀ d, ((pushSlot s c).chans d).events = (s.chans d).events := by
      intro d
      by_cases hd : d = c
      · simp [pushSlot, hd]
      · simp [pushSlot, hd]
    refine Or.inr ⟨_, hx, hi, fun d => by rw [hch]; exact hint d, fun d pfd hd => ?_⟩
    rw [hch]
    by_cases hdc : d = c
    · rw [hdc, hself] at hd
      cases hd
      rw [hdc]
    · rw [hother d hdc] at hd
      exact hev d pfd hdc hd
  · rw [h.fd_eq c] at hc
    have hslot : slotOf s c = some k := by rw [slotOf_eq (h.fd_eq c) hc, hk, Int.toNat_natCast]
    have hfd : slotFd (refresh pfd (s.chans c)) = fd c := by
      rw [← h.fd_eq c]
      refine slotFd_refresh (by rw [h.fd_eq]; exact hpos c) ?_
      rw [h.fd_eq]
      exact h.slotFd c pfd (by rw [item, Slots.item_eq hslot]; exact hget)
    obtain ⟨hi, hself, hother⟩ := setSlot_indexed h hslot hfd
    refine Or.inr ⟨_, hx, hi, hint, fun d pfd' hd => ?_⟩
    by_cases hdc : d = c
    · rw [hdc, hself] at hd
      cases hd
      rw [hdc]
      rfl
    · rw [hother d hdc] at hd
      exact hev d pfd' hdc hd

/-- A call fails an assertion or keeps the invariant. -/
theorem call_inv (hinj : Function.Injective fd) (hpos : ∀ c, 0 ≤ fd c) (h : Inv fd s) (a : Call) :
    (∃ e, call s a = .error (.assertion e)) ∨ ∃ s', call s a = .ok s' ∧ Inv fd s' := by
  cases a with
  | interest c i =>
    refine updateChannel_inv hinj hpos (h.indexed.interest c i) (fun d => ?_) fun d pfd hd hi => ?_
    · by_cases hd : d = c
      · rw [hd, Polled.interest_self, interest_events]
        exact apply_interests i (h.interests c)
      · rw [Polled.interest_ne _ _ hd]; exact h.interests d
    · rw [item_interest] at hi
      rw [Polled.interest_ne _ _ hd]
      exact h.events d pfd hi
  | updateChannel c =>
    exact updateChannel_inv hinj hpos h.indexed h.interests fun d pfd _ hd => h.events d pfd hd
  | removeChannel c =>
    rcases removeChannel_cases h.indexed hinj c with hx | ⟨s', -, -, hx, hr⟩
    · exact Or.inl hx
    · refine Or.inr ⟨s', hx, hr.indexed, fun d => by rw [hr.events]; exact h.interests d,
        fun d pfd hd => ?_⟩
      have hdc : d ≠ c := fun hdc => by
        have hnone : slotOf s' c = none :=
          slotOf_none (hr.indexed.fd_eq c) (by rw [hr.channels, Function.update_self]; nofun)
        rw [hdc, item, Slots.item_none hnone] at hd
        cases hd
      rw [hr.item d hdc] at hd
      rw [hr.events]
      exact h.events d pfd hd

/-- `channels_` and `pollfds_` list the same channels, and `index_` is where. -/
structure Bijective (s : Polled PollPoller) : Prop where
  size : {f | s.poller.channels f ≠ none}.encard = s.poller.pollfds.length
  index : Set.BijOn (fun c => (s.chans c).index) {c | ∃ f, s.poller.channels f = some c}
    (Set.Ico 0 s.poller.pollfds.length)
  slot : ∀ f c, s.poller.channels f = some c → (s.chans c).fd = f ∧
    ∃ pfd, s.poller.pollfds[(s.chans c).index.toNat]? = some pfd ∧
      (pfd.fd = f ∨ pfd.fd = -f - 1) ∧ pfd.events.signExtend 32 = (s.chans c).events

theorem Indexed.bijOn (h : Indexed fd s) :
    Set.BijOn (fun c => (s.chans c).index) {c | ∃ f, s.poller.channels f = some c}
      (Set.Ico 0 s.poller.pollfds.length) := by
  have hkey : ∀ c, (∃ f, s.poller.channels f = some c) → s.poller.channels (fd c) = some c := by
    rintro c ⟨f, hf⟩
    rw [← h.known f c hf]
    exact hf
  refine ⟨fun c hc => ?_, fun c hc d hd hi => h.index_inj (hkey c hc) (hkey d hd) hi,
    fun k hk => ?_⟩
  · obtain ⟨k, pfd, hk, hpos, -, -⟩ := h.slot (hkey c hc)
    have := h.slots.bound c k hpos
    show (s.chans c).index ∈ _
    rw [hk]
    exact ⟨Int.natCast_nonneg k, by omega⟩
  · obtain ⟨hk0, hk1⟩ := hk
    obtain ⟨c, hc, hi, -⟩ := h.owner (show k.toNat < s.poller.pollfds.length by omega)
    exact ⟨c, ⟨fd c, hc⟩, hi.trans (by omega)⟩

theorem Indexed.size (h : Indexed fd s) (hinj : Function.Injective fd) :
    {f | s.poller.channels f ≠ none}.encard = s.poller.pollfds.length := by
  have hkeys : {f | s.poller.channels f ≠ none} =
      Set.image fd {c | ∃ f, s.poller.channels f = some c} := by
    ext f
    constructor
    · intro hf
      obtain ⟨c, hc⟩ := Option.ne_none_iff_exists'.1 hf
      exact ⟨c, ⟨f, hc⟩, (h.known f c hc).symm⟩
    · rintro ⟨c, ⟨f', hf'⟩, rfl⟩
      rw [h.known f' c hf'] at hf'
      show s.poller.channels (fd c) ≠ none
      rw [hf']
      nofun
  calc {f | s.poller.channels f ≠ none}.encard
      = {c | ∃ f, s.poller.channels f = some c}.encard := by
        rw [hkeys, hinj.injOn.encard_image]
    _ = (Set.Ico (0 : Int) s.poller.pollfds.length).encard := by
        rw [← h.bijOn.image_eq, h.bijOn.injOn.encard_image]
    _ = s.poller.pollfds.length := by
        rw [← Finset.coe_Ico, Set.encard_coe_eq_coe_finsetCard, Int.card_Ico]
        simp

theorem Inv.bijective (h : Inv fd s) (hinj : Function.Injective fd) (hpos : ∀ c, 0 ≤ fd c) :
    Bijective s := by
  refine ⟨h.indexed.size hinj, h.indexed.bijOn, fun f c hf => ?_⟩
  have hfc := h.indexed.known f c hf
  subst hfc
  obtain ⟨k, pfd, hk, -, hget, hitem⟩ := h.indexed.slot hf
  refine ⟨h.indexed.fd_eq c, pfd, by rw [hk, Int.toNat_natCast]; exact hget,
    (slotFd_eq_iff (hpos c)).1 (h.indexed.slotFd c pfd hitem), ?_⟩
  rw [h.events c pfd hitem]
  exact (h.interests c).short

/-- **The index is a bijection.** After any calls that fail no assertion, `index_` numbers the
channels of `channels_` with the slots of `pollfds_`, and each slot shows its channel's interest.
`removeChannel` keeps this for the channels that remain, which keep what their slots hold. No call
has another fault than a failed assertion. -/
theorem index_bijective {fd : ChannelId → Int} (hinj : Function.Injective fd)
    (hpos : ∀ c, 0 ≤ fd c) {as : List Call} {s : Polled PollPoller}
    (h : Machine.Run calls (start fd) as s) :
    Bijective s ∧
    (∀ c s', removeChannel s c = .ok s' → Bijective s' ∧
      s'.poller.channels = Function.update s.poller.channels (fd c) none ∧
      ∀ d f, d ≠ c → s.poller.channels f = some d →
        s'.poller.pollfds[(s'.chans d).index.toNat]? = s.poller.pollfds[(s.chans d).index.toNat]?) ∧
    ∀ a e, call s a = .error e → ∃ x, e = .assertion x := by
  have hkeeps : calls.Keeps (Inv fd) := by
    intro s a s' hs _ hx
    rcases call_inv hinj hpos hs a with ⟨e, he⟩ | ⟨s₁, hx₁, hi⟩
    · cases he.symm.trans hx
    · cases hx₁.symm.trans hx
      exact hi
  have hinv : Inv fd s := h.keeps hkeeps (start_inv fd)
  refine ⟨hinv.bijective hinj hpos, fun c s' hx => ?_, fun a e hx => ?_⟩
  · have hinv' : Inv fd s' := hkeeps s (.removeChannel c) s' hinv trivial hx
    rcases removeChannel_cases hinv.indexed hinj c with ⟨e, he⟩ | ⟨s₁, -, -, hx₁, hr⟩
    · cases he.symm.trans hx
    cases hx₁.symm.trans hx
    refine ⟨hinv'.bijective hinj hpos, hr.channels, fun d f hd hf => ?_⟩
    have hfd := hinv.indexed.known f d hf
    subst hfd
    have hf' : s'.poller.channels (fd d) = some d := by
      rw [hr.channels, Function.update_of_ne fun hf => hd (hinj hf)]
      exact hf
    rw [← Slots.item_eq (slotOf_eq (hinv'.indexed.fd_eq d) hf'),
      ← Slots.item_eq (slotOf_eq (hinv.indexed.fd_eq d) hf)]
    exact hr.item d hd
  · rcases call_inv hinj hpos hinv a with ⟨x, hx'⟩ | ⟨s', hx', -⟩
    · cases hx'.symm.trans hx
      exact ⟨x, rfl⟩
    · cases hx'.symm.trans hx

/-- Descriptors 0, 1 and 2. Slot 0 is taken away while the last slot is ignored, so the negated
descriptor 2 moves there. -/
theorem index_bijective_sample :
    ∃ s, Machine.Run calls (start Int.ofNat)
      [.interest 0 .enableReading, .interest 1 .enableWriting, .interest 2 .enableReading,
        .interest 2 .disableAll, .interest 0 .disableAll, .removeChannel 0] s ∧
      s.poller.pollfds = [⟨-3, 0, 0⟩, ⟨1, 4, 0⟩] ∧ Bijective s := by
  obtain ⟨s, hrun, hobs⟩ := Machine.Run.of_replay calls (start Int.ofNat)
    [.interest 0 .enableReading, .interest 1 .enableWriting, .interest 2 .enableReading,
      .interest 2 .disableAll, .interest 0 .disableAll, .removeChannel 0]
    (fun s => s.poller.pollfds) [⟨-3, 0, 0⟩, ⟨1, 4, 0⟩] (by decide +kernel)
  exact ⟨s, hrun, hobs, (index_bijective Int.ofNat_injective Int.natCast_nonneg hrun).1⟩

end PollPoller
end TinyMuduo
