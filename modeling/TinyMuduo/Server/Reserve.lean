import Mathlib.Data.List.Nodup
import TinyMuduo.Server.Acceptor

/-!
# Server.Reserve

The descriptors of an `Acceptor`, with other threads at work on the same table.

`Owns t r` says that `r` is what the acceptor has in the table besides its socket. During
`handleRead` `idleFd_` is not always that: between a `close` and the next assignment it is the
number of a descriptor that may belong to somebody else by now (`reserve`).

As long as the others leave the table alone while `handleRead` is at work, `idleFd_` comes back with
the number it had (`Alone`). If it is `-1` it stays `-1`.
-/

namespace TinyMuduo
namespace Acceptor

open Result Table

/-- Besides its socket, `r` is the only slot that the acceptor has. -/
def Owns (t : Table Owner) (r : Option Nat) : Prop :=
  ∀ i, (∃ o ∈ t.owner i, o.ofAcceptor = true) ↔ r = some i

namespace Owns

variable {t : Table Owner} {r : Option Nat} {fd : Nat} {o : Owner}

/-- Somebody gets a free slot. -/
theorem put_foreign (h : Owns t r) (hfd : t.lowest = some fd) (ho : o.ofAcceptor = false) :
    Owns (t.put fd o) r := by
  obtain ⟨hlt, hfree, -⟩ := lowest_eq_some hfd
  intro i
  rw [← h i, owner_put hlt]
  split
  next hi =>
    subst hi
    simp [hfree, ho]
  next => rfl

theorem put_own (h : Owns t none) (hfd : t.lowest = some fd) (ho : o.ofAcceptor = true) :
    Owns (t.put fd o) (some fd) := by
  obtain ⟨hlt, -, -⟩ := lowest_eq_some hfd
  intro i
  rw [owner_put hlt]
  split
  next hi =>
    subst hi
    simp [ho]
  next hi =>
    rw [h i]
    simp [hi]

theorem release_foreign (h : Owns t r) (hfd : t.owner fd = some o) (ho : o.ofAcceptor = false) :
    Owns (t.release fd) r := by
  intro i
  rw [← h i, owner_release]
  split
  next hi =>
    subst hi
    simp [hfd, ho]
  next => rfl

theorem release_own (h : Owns t (some fd)) : Owns (t.release fd) none := by
  intro i
  rw [owner_release]
  split
  next => simp
  next hi =>
    rw [h i]
    simp [hi]

theorem owner (h : Owns t (some fd)) : ∃ o ∈ t.owner fd, o.ofAcceptor = true := (h fd).2 rfl

theorem not_own (h : Owns t none) {i : Nat} (hi : t.owner i = some o) : o.ofAcceptor = false := by
  cases ho : o.ofAcceptor with
  | false => rfl
  | true => cases (h i).1 ⟨o, hi, ho⟩

end Owns

/-- What the acceptor has in the table besides its socket. -/
def reserve (s : Acceptor) : Option Nat :=
  match s.step with
  | .done | .closeIdle => if s.destroyed then none else s.idleFd
  | .closeRefused => s.idleFd
  | .accept | .reopen => none

/-- The entries of the table: `r` is what the acceptor has besides its socket. -/
structure Fds (t : Table Owner) (acceptSocket : Nat) (destroyed : Bool) (step : Step)
    (r : Option Nat) (taken : List (Nat × Option Nat)) : Prop where
  listen : destroyed = false → t.owner acceptSocket = some .listen
  owns : Owns t r
  idle : ∀ i, t.owner i = some .idle → step = .done ∨ step = .closeIdle
  refused : ∀ i k, t.owner i = some (.refused k) → step = .closeRefused
  conns : ∀ i k, t.owner i = some (.conn k) → (k, some i) ∈ taken

/-- The peers, in the order in which they came. -/
structure InOrder (taken : List (Nat × Option Nat)) (backlog : List Nat) (arrived aborted : Nat) :
    Prop where
  order : (taken.map Prod.fst ++ backlog).Pairwise (· < ·)
  bound : ∀ k ∈ taken.map Prod.fst ++ backlog, k < arrived
  count : taken.length + backlog.length + aborted = arrived

structure Inv (s : Acceptor) : Prop where
  fds : Fds s.table s.acceptSocket s.destroyed s.step s.reserve s.taken
  stopped : s.destroyed = true → s.step = .done
  peers : InOrder s.taken s.backlog s.arrived s.aborted

/-! ## The peers -/

namespace InOrder

variable {taken : List (Nat × Option Nat)} {backlog : List Nat} {arrived aborted : Nat}

theorem arrive (h : InOrder taken backlog arrived aborted) :
    InOrder taken (backlog ++ [arrived]) (arrived + 1) aborted where
  order := by
    rw [← List.append_assoc]
    refine List.pairwise_append.2 ⟨h.order, List.pairwise_singleton .., fun a ha b hb => ?_⟩
    rw [List.mem_singleton.1 hb]
    exact h.bound a ha
  bound := fun k hk => by
    rw [← List.append_assoc, List.mem_append, List.mem_singleton] at hk
    rcases hk with hk | rfl
    · exact Nat.lt_succ_of_lt (h.bound k hk)
    · exact Nat.lt_succ_self _
  count := by
    have := h.count
    simp only [List.length_append, List.length_singleton]
    omega

theorem abort (h : InOrder taken backlog arrived aborted) {i : Nat} (hi : i < backlog.length) :
    InOrder taken (backlog.eraseIdx i) arrived (aborted + 1) := by
  have hsub : (taken.map Prod.fst ++ backlog.eraseIdx i).Sublist (taken.map Prod.fst ++ backlog) :=
    (List.Sublist.refl _).append (List.eraseIdx_sublist ..)
  refine ⟨h.order.sublist hsub, fun k hk => h.bound k (hsub.subset hk), ?_⟩
  have := h.count
  simp only [List.length_eraseIdx, hi, if_true]
  omega

/-- The first peer is taken from the backlog. -/
theorem take {peer : Nat} (h : InOrder taken (peer :: backlog) arrived aborted) (fd : Option Nat) :
    InOrder (taken ++ [(peer, fd)]) backlog arrived aborted := by
  have heq : (taken ++ [(peer, fd)]).map Prod.fst ++ backlog =
      taken.map Prod.fst ++ peer :: backlog := by
    rw [List.map_append, List.append_assoc]
    rfl
  refine ⟨heq ▸ h.order, fun k hk => h.bound k (heq ▸ hk), ?_⟩
  have := h.count
  simp only [List.length_append, List.length_cons, List.length_nil] at this ⊢
  omega

end InOrder

/-! ## The entries of the table -/

namespace Fds

variable {t : Table Owner} {acceptSocket : Nat} {destroyed : Bool} {step : Step} {r : Option Nat}
  {taken : List (Nat × Option Nat)} {fd : Nat} {o : Owner}

theorem ne_acceptSocket (h : Fds t acceptSocket destroyed step r taken) (hd : destroyed = false)
    (hfd : t.owner fd ≠ some .listen) : fd ≠ acceptSocket := by
  rintro rfl
  exact hfd (h.listen hd)

theorem take (h : Fds t acceptSocket destroyed step r taken) (p : Nat × Option Nat) :
    Fds t acceptSocket destroyed step r (taken ++ [p]) :=
  ⟨h.listen, h.owns, h.idle, h.refused, fun i k hi => List.mem_append_left _ (h.conns i k hi)⟩

/-- Somebody gets a free slot. -/
theorem put (h : Fds t acceptSocket destroyed step r taken) (hfd : t.lowest = some fd)
    {step' : Step} {r' : Option Nat} (howns : Owns (t.put fd o) r')
    (hidle : o = .idle → step' = .done ∨ step' = .closeIdle)
    (hrefused : ∀ k, o = .refused k → step' = .closeRefused)
    (hconn : ∀ k, o = .conn k → (k, some fd) ∈ taken)
    (hstep : (∀ i o', t.owner i = some o' → o'.ofAcceptor = false) ∨ step' = step) :
    Fds (t.put fd o) acceptSocket destroyed step' r' taken := by
  obtain ⟨hlt, hfree, -⟩ := lowest_eq_some hfd
  refine ⟨fun hd => ?_, howns, fun i hi => ?_, fun i k hi => ?_, fun i k hi => ?_⟩
  · have hlisten : t.owner fd ≠ some .listen := by
      rw [hfree]
      exact fun he => by cases he
    have hne := h.ne_acceptSocket hd hlisten
    rw [owner_put hlt, if_neg hne]
    exact h.listen hd
  · rw [owner_put hlt] at hi
    split at hi
    · cases hi
      exact hidle rfl
    · rcases hstep with hnone | rfl
      · cases hnone i _ hi
      · exact h.idle i hi
  · rw [owner_put hlt] at hi
    split at hi
    · cases hi
      exact hrefused k rfl
    · rcases hstep with hnone | rfl
      · cases hnone i _ hi
      · exact h.refused i k hi
  · rw [owner_put hlt] at hi
    split at hi
    next heq =>
      cases hi
      subst heq
      exact hconn k rfl
    next => exact h.conns i k hi

/-- Somebody else gets a free slot. -/
theorem put_foreign (h : Fds t acceptSocket destroyed step r taken) (hfd : t.lowest = some fd)
    (ho : o.ofAcceptor = false) (hconn : ∀ k, o = .conn k → (k, some fd) ∈ taken) :
    Fds (t.put fd o) acceptSocket destroyed step r taken := by
  refine h.put hfd (h.owns.put_foreign hfd ho) (fun he => ?_) (fun k he => ?_) hconn (.inr rfl)
  · subst he
    cases ho
  · subst he
    cases ho

/-- A slot is released that is not the one of `acceptSocket_`. -/
theorem release (h : Fds t acceptSocket destroyed step r taken) {r' : Option Nat}
    (howns : Owns (t.release fd) r') (hne : destroyed = false → fd ≠ acceptSocket) :
    Fds (t.release fd) acceptSocket destroyed step r' taken := by
  have hold : ∀ i o, (t.release fd).owner i = some o → t.owner i = some o := by
    intro i o hi
    rw [owner_release] at hi
    split at hi
    · cases hi
    · exact hi
  refine ⟨fun hd => ?_, howns, fun i hi => h.idle i (hold i _ hi),
    fun i k hi => h.refused i k (hold i _ hi), fun i k hi => h.conns i k (hold i _ hi)⟩
  rw [owner_release, if_neg (hne hd)]
  exact h.listen hd

/-- Between two system calls nothing but its socket belongs to the acceptor. -/
theorem restep (h : Fds t acceptSocket destroyed step none taken) (step' : Step) :
    Fds t acceptSocket destroyed step' none taken :=
  ⟨h.listen, h.owns, fun i hi => (by cases h.owns.not_own hi),
    fun i k hi => (by cases h.owns.not_own hi), h.conns⟩

end Fds

/-- `idleFd_` is closed when it is what the acceptor has. -/
theorem closeIdle_eq {s : Acceptor}
    (h : Fds s.table s.acceptSocket s.destroyed s.step s.idleFd s.taken) :
    ∃ t, s.closeIdle = .ok { s with table := t } ∧
      Fds t s.acceptSocket s.destroyed s.step none s.taken := by
  unfold Acceptor.closeIdle
  split
  next hi =>
    rw [hi] at h
    exact ⟨s.table, rfl, h⟩
  next fd hi =>
    rw [hi] at h
    obtain ⟨o, ho, hof⟩ := h.owns.owner
    rw [ensure_pos ⟨o, ho, hof⟩]
    refine ⟨s.table.release fd, rfl, h.release h.owns.release_own fun hd => ?_⟩
    refine h.ne_acceptSocket hd fun hl => ?_
    cases hl.symm.trans ho
    cases hof

/-! ## Steps of the acceptor -/

theorem accept_eq_some {s s' : Acceptor} {o : Nat → Owner} {peer fd : Nat}
    (h : s.accept o = some (peer, fd, s')) :
    ∃ backlog, s.backlog = peer :: backlog ∧ s.table.lowest = some fd ∧
      s' = { s with backlog := backlog, table := s.table.put fd (o peer) } := by
  unfold accept at h
  split at h
  next hb hl =>
    cases h
    exact ⟨_, hb, hl, rfl⟩
  next => cases h

namespace Inv

variable {s : Acceptor}

theorem handleRead_connection (h : s.Inv) : ∃ s', s.handleRead .connection = .ok s' ∧ s'.Inv := by
  unfold handleRead
  cases ha : s.accept .conn with
  | none => exact ⟨s, rfl, h⟩
  | some r =>
    obtain ⟨peer, fd, s₁⟩ := r
    obtain ⟨backlog, hb, hl, rfl⟩ := accept_eq_some ha
    have hpeers := h.peers
    rw [hb] at hpeers
    dsimp only
    split
    · have hfds := (h.fds.take (peer, some fd)).put_foreign (o := .conn peer) hl rfl fun k hk => by
        cases hk
        simp
      exact ⟨_, rfl, hfds, h.stopped, hpeers.take (some fd)⟩
    · -- without a callback the connection is closed at once
      obtain ⟨hlt, hfree, -⟩ := lowest_eq_some hl
      rw [release_put hlt hfree]
      exact ⟨_, rfl, h.fds.take _, h.stopped, hpeers.take none⟩

theorem next (h : s.Inv) (a : Answer) : ∃ s', s.next a = .ok s' ∧ s'.Inv := by
  have hfds := h.fds
  have hlive : s.step ≠ .done → s.destroyed = false := by
    intro hne
    cases hd : s.destroyed with
    | false => rfl
    | true => exact absurd (h.stopped hd) hne
  unfold Acceptor.next
  cases hst : s.step with
  | done => exact ⟨s, rfl, h⟩
  | closeIdle =>
    have hd := hlive (by rw [hst]; decide)
    have hr : s.reserve = s.idleFd := by simp [reserve, hst, hd]
    rw [hr] at hfds
    obtain ⟨t, hx, hfds⟩ := closeIdle_eq hfds
    rw [hx]
    refine ⟨_, rfl, hfds.restep .accept, fun hd' => ?_, h.peers⟩
    cases hd.symm.trans hd'
  | accept =>
    have hd := hlive (by rw [hst]; decide)
    have hgone : s.destroyed = true → Step.closeRefused = .done := fun hd' => by
      cases hd.symm.trans hd'
    rw [hst] at hfds
    rw [show s.reserve = none by simp [reserve, hst]] at hfds
    dsimp only
    split
    next ha =>
      obtain ⟨backlog, hb, hl, rfl⟩ := accept_eq_some ha
      have hpeers := h.peers
      rw [hb] at hpeers
      refine ⟨_, rfl, ?_, hgone, hpeers.take none⟩
      exact (hfds.take _).put hl (hfds.owns.put_own hl rfl) (fun he => by cases he) (fun _ _ => rfl)
        (fun k hk => by cases hk) (.inl fun i o ho => hfds.owns.not_own ho)
    next => exact ⟨_, rfl, hfds.restep _, hgone, h.peers⟩
  | closeRefused =>
    have hd := hlive (by rw [hst]; decide)
    rw [show s.reserve = s.idleFd by simp [reserve, hst]] at hfds
    obtain ⟨t, hx, hfds⟩ := closeIdle_eq hfds
    dsimp only
    rw [hx]
    refine ⟨_, rfl, hfds.restep .reopen, fun hd' => ?_, h.peers⟩
    cases hd.symm.trans hd'
  | reopen =>
    have hd := hlive (by rw [hst]; decide)
    rw [hst] at hfds
    rw [show s.reserve = none by simp [reserve, hst]] at hfds
    dsimp only
    cases hl : s.table.lowest with
    | none =>
      refine ⟨_, rfl, ?_, fun _ => rfl, h.peers⟩
      simpa [reserve] using hfds.restep .done
    | some fd =>
      refine ⟨_, rfl, ?_, fun _ => rfl, h.peers⟩
      have hput : Fds (s.table.put fd .idle) s.acceptSocket s.destroyed .done (some fd) s.taken :=
        hfds.put hl (hfds.owns.put_own hl rfl) (fun _ => .inl rfl) (fun k hk => by cases hk)
          (fun k hk => by cases hk) (.inl fun i o ho => hfds.owns.not_own ho)
      simpa [reserve, hd] using hput

/-- The destructor closes what is left: `idleFd_` and `acceptSocket_`. -/
theorem destroy (h : s.Inv) (hd : s.destroyed = false) (hst : s.step = .done) :
    ∃ s', s.destroy = .ok s' ∧ s'.Inv := by
  have hfds := h.fds
  rw [show s.reserve = s.idleFd by simp [reserve, hst, hd]] at hfds
  obtain ⟨t, hx, hfds⟩ := closeIdle_eq hfds
  have hl := hfds.listen hd
  have hgone : Fds t s.acceptSocket true s.step none s.taken :=
    ⟨fun hd' => (by cases hd'), hfds.owns, hfds.idle, hfds.refused, hfds.conns⟩
  have hclosed := hgone.release (hfds.owns.release_foreign hl rfl) fun hd' => by cases hd'
  refine ⟨{ s with table := t.release s.acceptSocket, destroyed := true }, ?_, ?_, fun _ => hst,
    h.peers⟩
  · rw [Acceptor.destroy, hx, ok_bind]
    dsimp only
    rw [ensure_pos hl]
    rfl
  · simpa [reserve, hst] using hclosed

theorem closeOther (h : s.Inv) {fd : Nat}
    (hfd : ∃ o ∈ s.table.owner fd, o.ofOthers = true) :
    Inv { s with table := s.table.release fd } := by
  obtain ⟨o, ho, hkind⟩ := hfd
  have hof : o.ofAcceptor = false ∧ o ≠ .listen := by
    cases o with
    | other | conn peer => exact ⟨rfl, fun he => by cases he⟩
    | listen | idle | refused peer => cases hkind
  refine ⟨h.fds.release (h.fds.owns.release_foreign ho hof.1) fun hd => ?_, h.stopped, h.peers⟩
  refine h.fds.ne_acceptSocket hd fun hl => hof.2 ?_
  exact Option.some.inj (ho.symm.trans hl)

end Inv

theorem safe_inv : Machine.Safe (machine.under Sound) Inv := by
  rintro s op h ⟨he, hs⟩
  cases op with
  | arrive => exact ⟨_, rfl, h.fds, h.stopped, h.peers.arrive⟩
  | abort i => exact ⟨_, rfl, h.fds, h.stopped, h.peers.abort he⟩
  | listen => exact ⟨_, rfl, h.fds, h.stopped, h.peers⟩
  | handleRead a =>
    cases a with
    | connection => exact h.handleRead_connection
    | error e =>
      obtain ⟨hd, -, hst, -⟩ := he
      have hexp : expected e = true := hs
      have hx : exec s (.handleRead (.error e)) =
          .ok (if e = EMFILE then { s with step := .closeIdle } else s) := by
        rw [exec, handleRead, ensure_pos hexp]
        rfl
      refine ⟨_, hx, ?_⟩
      split
      · refine ⟨⟨h.fds.listen, ?_, fun _ _ => .inr rfl, fun i k hi => ?_, h.fds.conns⟩,
          fun hd' => ?_, h.peers⟩
        · simpa [reserve, hst] using h.fds.owns
        · cases hst.symm.trans (h.fds.refused i k hi)
        · cases hd.symm.trans hd'
      · exact h
  | next a => exact h.next a
  | openOther =>
    simp only [machine, Machine.under, exec]
    cases hl : s.table.lowest with
    | none => exact ⟨s, rfl, h⟩
    | some fd =>
      exact ⟨_, rfl, h.fds.put_foreign hl rfl fun k hk => (by cases hk), h.stopped, h.peers⟩
  | closeOther fd => exact ⟨_, rfl, h.closeOther he⟩
  | destroy => exact h.destroy he.1 he.2

theorem new_inv {t : Table Owner} (ht : ∀ o ∈ t, o = none ∨ o = some .other) {callback : Bool}
    {s : Acceptor} (hnew : new t callback = .ok s) : s.Inv ∧ s.idleFd ≠ none := by
  unfold new at hnew
  cases hl : t.lowest with
  | none =>
    rw [hl] at hnew
    cases hnew
  | some fd =>
    rw [hl] at hnew
    dsimp only at hnew
    cases hl' : (t.put fd .listen).lowest with
    | none =>
      rw [hl'] at hnew
      cases hnew
    | some idle =>
      rw [hl'] at hnew
      cases hnew
      refine ⟨⟨?_, fun hd => (by cases hd), ⟨.nil, fun k hk => (by cases hk), rfl⟩⟩,
        fun hn => by cases hn⟩
      obtain ⟨hlt, -, -⟩ := lowest_eq_some hl
      have hother : ∀ i o, t.owner i = some o → o = .other := fun i o ho => by
        rcases ht _ (mem_of_owner ho) with hn | hn
        · cases hn
        · exact Option.some.inj hn
      have hnone : Owns t none := fun i => by
        refine ⟨fun ⟨o, ho, hof⟩ => ?_, fun hn => by cases hn⟩
        rw [hother i o ho] at hof
        cases hof
      have hlisten : Fds (t.put fd .listen) fd false .done none [] := by
        refine ⟨fun _ => by rw [owner_put hlt, if_pos rfl], hnone.put_foreign hl rfl,
          fun _ _ => .inl rfl, fun i k hi => ?_, fun i k hi => ?_⟩
        · rw [owner_put hlt] at hi
          split at hi
          · cases hi
          · cases hother i _ hi
        · rw [owner_put hlt] at hi
          split at hi
          · cases hi
          · cases hother i _ hi
      exact hlisten.put hl' (hlisten.owns.put_own hl' rfl) (fun _ => .inl rfl)
        (fun k hk => by cases hk) (fun k hk => by cases hk) (.inr rfl)

/-- When `handleRead` is done the acceptor has `idleFd_`. -/
theorem Inv.idle_iff {s : Acceptor} (h : s.Inv) (hst : s.step = .done) (hd : s.destroyed = false)
    (i : Nat) : s.table.owner i = some .idle ↔ s.idleFd = some i := by
  have hr : s.reserve = s.idleFd := by simp [reserve, hst, hd]
  have howns := h.fds.owns i
  rw [hr] at howns
  refine ⟨fun hi => howns.1 ⟨_, hi, rfl⟩, fun hi => ?_⟩
  obtain ⟨o, ho, hof⟩ := howns.2 hi
  cases o with
  | idle => exact ho
  | refused k => cases hst.symm.trans (h.fds.refused i k ho)
  | listen | conn k | other => cases hof

/-- Six descriptors; the standard streams are open. -/
def standard : Table Owner := [some .other, some .other, some .other, none, none, none]

def listener : Acceptor where
  table := [some .other, some .other, some .other, some .listen, some .idle, none]
  acceptSocket := 3
  idleFd := some 4
  newConnectionCallback := true
  listenning := false
  destroyed := false
  step := .done
  backlog := []
  arrived := 0
  aborted := 0
  taken := []

theorem standard_other : ∀ o ∈ standard, o = none ∨ o = some .other := by decide

theorem new_standard : new standard true = .ok listener := rfl

/-- Three peers; one gets the last descriptor. While the second is turned away another thread takes
the slot of `idleFd_`. -/
def contended : List Op :=
  [.listen, .arrive, .arrive, .arrive, .handleRead .connection, .handleRead (.error EMFILE),
    .next (.error EMFILE), .openOther, .next (.error EMFILE), .next (.error EMFILE),
    .next (.error EMFILE)]

/-- While `handleRead` is at work nobody else opens or closes a descriptor. -/
def Undisturbed (s : Acceptor) : Op → Prop
  | .openOther | .closeOther _ => s.step = .done
  | _ => True

/-- `r` is the only free slot, or there is none. -/
def Gap (t : Table Owner) : Option Nat → Prop
  | none => t.lowest = none
  | some i => Hole t i

theorem Gap.lowest {t : Table Owner} {r : Option Nat} (h : Gap t r) : t.lowest = r := by
  cases r with
  | none => exact h
  | some i => exact Hole.lowest h

/-- `idleFd_` has been `r`, and will be again. -/
def Alone (r : Option Nat) (s : Acceptor) : Prop :=
  match s.step with
  | .done => s.destroyed = false → s.idleFd = r
  | .closeIdle => s.idleFd = r ∧ s.table.lowest = none
  | .accept | .reopen => Gap s.table r
  | .closeRefused =>
    s.idleFd = none ∧ Gap s.table r ∨ s.idleFd = r ∧ r ≠ none ∧ s.table.lowest = none

/-- What happened since `s₀`: with `idleFd_` at `-1` nobody was turned away. -/
structure Since (s₀ s : Acceptor) : Prop where
  alone : Alone s₀.idleFd s
  callback : s.newConnectionCallback = s₀.newConnectionCallback
  taken : ∃ new, s.taken = s₀.taken ++ new ∧
    (s₀.idleFd = none → s₀.newConnectionCallback = true → ∀ p ∈ new, p.2 ≠ none)

theorem closeIdle_frame {s s' : Acceptor} (hx : s.closeIdle = .ok s') :
    s' = { s with table := s'.table } := by
  unfold closeIdle at hx
  split at hx
  · cases hx
    rfl
  · obtain ⟨-, -, hx⟩ := bind_eq_ok hx
    cases hx
    rfl

/-- In a full table the slot of `idleFd_` is then the only free one. -/
theorem closeIdle_gap {s s' : Acceptor} (hfull : s.table.lowest = none) (hi : s.Inv)
    (hr : s.reserve = s.idleFd) (hx : s.closeIdle = .ok s') : Gap s'.table s.idleFd := by
  unfold closeIdle at hx
  split at hx
  next hn =>
    cases hx
    rw [hn]
    exact hfull
  next fd hfd =>
    obtain ⟨-, -, hx⟩ := bind_eq_ok hx
    cases hx
    have howns := hi.fds.owns
    rw [hr, hfd] at howns
    obtain ⟨o, ho, -⟩ := howns.owner
    rw [hfd]
    exact .of_release hfull (lt_of_owner ho)

namespace Since

variable {s₀ s s' : Acceptor}

theorem refl (hst : s.step = .done) : Since s s :=
  ⟨by rw [Alone, hst]; exact fun _ => rfl, rfl, [], by simp, fun _ _ p hp => by cases hp⟩

/-- A step that changes neither `idleFd_` nor what `handleRead` does next. -/
theorem same (h : Since s₀ s) (hst : s.step = .done) (hst' : s'.step = .done)
    (hd : s'.destroyed = false → s.destroyed = false) (hidle : s'.idleFd = s.idleFd)
    (hcb : s'.newConnectionCallback = s.newConnectionCallback) (htaken : s'.taken = s.taken) :
    Since s₀ s' := by
  refine ⟨?_, hcb.trans h.callback, htaken ▸ h.taken⟩
  have halone := h.alone
  rw [Alone, hst] at halone
  rw [Alone, hst', hidle]
  exact fun hd' => halone (hd hd')

theorem take (h : Since s₀ s) {p : Nat × Option Nat}
    (hp : s₀.idleFd = none → s₀.newConnectionCallback = true → p.2 ≠ none) :
    ∃ new, s.taken ++ [p] = s₀.taken ++ new ∧
      (s₀.idleFd = none → s₀.newConnectionCallback = true → ∀ q ∈ new, q.2 ≠ none) := by
  obtain ⟨new, heq, hnew⟩ := h.taken
  refine ⟨new ++ [p], by rw [heq, List.append_assoc], fun hn hc q hq => ?_⟩
  rcases List.mem_append.1 hq with hq | hq
  · exact hnew hn hc q hq
  · rw [List.mem_singleton.1 hq]
    exact hp hn hc

theorem handleRead_connection (h : Since s₀ s) (hst : s.step = .done)
    (hx : s.handleRead .connection = .ok s') : Since s₀ s' := by
  unfold handleRead at hx
  cases ha : s.accept .conn with
  | none =>
    rw [ha] at hx
    cases hx
    exact h
  | some r =>
    obtain ⟨peer, fd, s₁⟩ := r
    obtain ⟨backlog, hb, hl, rfl⟩ := accept_eq_some ha
    rw [ha] at hx
    have halone := h.alone
    rw [Alone, hst] at halone
    dsimp only at hx
    split at hx
    next hcb =>
      cases hx
      refine ⟨?_, h.callback, h.take fun _ _ hn => by cases hn⟩
      rw [Alone, show Acceptor.step _ = .done from hst]
      exact halone
    next hcb =>
      cases hx
      refine ⟨?_, h.callback, h.take fun _ hc => absurd (h.callback.trans hc) hcb⟩
      rw [Alone, show Acceptor.step _ = .done from hst]
      exact halone

/-- The system calls of `handleRead` when the table is full. -/
theorem next (h : Since s₀ s) (hi : s.Inv) {a : Answer} (hx : s.next a = .ok s') : Since s₀ s' := by
  have halone := h.alone
  have hlive : s.step ≠ .done → s.destroyed = false := by
    intro hne
    cases hd : s.destroyed with
    | false => rfl
    | true => exact absurd (hi.stopped hd) hne
  unfold Acceptor.next at hx
  cases hst : s.step with
  | done =>
    rw [hst] at hx
    cases hx
    exact h
  | closeIdle =>
    rw [hst] at hx
    rw [Alone, hst] at halone
    obtain ⟨s₁, hc, hx⟩ := bind_eq_ok hx
    have hd := hlive (by rw [hst]; decide)
    have hgap := closeIdle_gap halone.2 hi (by simp [reserve, hst, hd]) hc
    cases hx
    rw [closeIdle_frame hc]
    rw [halone.1] at hgap
    exact ⟨hgap, h.callback, h.taken⟩
  | accept =>
    rw [hst] at hx
    rw [Alone, hst] at halone
    dsimp only at hx
    split at hx
    next peer fd s₁ ha =>
      obtain ⟨backlog, hb, hl, rfl⟩ := accept_eq_some ha
      have hr := halone.lowest.symm.trans hl
      rw [hr] at halone
      cases hx
      refine ⟨.inr ⟨hr.symm, ?_, Hole.put halone _⟩, h.callback, h.take fun hn => ?_⟩
      · rw [hr]
        exact fun hn => by cases hn
      · cases hr.symm.trans hn
    next =>
      cases hx
      exact ⟨.inl ⟨rfl, halone⟩, h.callback, h.taken⟩
  | closeRefused =>
    rw [hst] at hx
    rw [Alone, hst] at halone
    obtain ⟨s₁, hc, hx⟩ := bind_eq_ok hx
    cases hx
    rcases halone with ⟨hn, hgap⟩ | ⟨hr, -, hfull⟩
    · rw [closeIdle, hn] at hc
      cases hc
      exact ⟨hgap, h.callback, h.taken⟩
    · have hgap := closeIdle_gap hfull hi (by simp [reserve, hst]) hc
      rw [closeIdle_frame hc]
      rw [hr] at hgap
      exact ⟨hgap, h.callback, h.taken⟩
  | reopen =>
    rw [hst] at hx
    rw [Alone, hst] at halone
    have hlow := halone.lowest
    dsimp only at hx
    cases hl : s.table.lowest with
    | none =>
      rw [hl] at hx
      cases hx
      exact ⟨fun _ => hl.symm.trans hlow, h.callback, h.taken⟩
    | some fd =>
      rw [hl] at hx
      cases hx
      exact ⟨fun _ => hl.symm.trans hlow, h.callback, h.taken⟩

theorem exec (h : Since s₀ s) (hi : s.Inv) {op : Op} (he : s.Enabled op) (hu : s.Undisturbed op)
    (hx : s.exec op = .ok s') : Since s₀ s' := by
  cases op with
  | arrive | abort i | listen =>
    cases hx
    exact ⟨h.alone, h.callback, h.taken⟩
  | handleRead a =>
    obtain ⟨hd, -, hst, hp⟩ := he
    cases a with
    | connection => exact h.handleRead_connection hst hx
    | error e =>
      have halone := h.alone
      rw [Alone, hst] at halone
      obtain ⟨-, -, hx⟩ := bind_eq_ok hx
      split at hx
      next hm =>
        cases hx
        exact ⟨⟨halone hd, hp hm⟩, h.callback, h.taken⟩
      next =>
        cases hx
        exact h
  | next a => exact h.next hi hx
  | openOther =>
    simp only [Acceptor.exec] at hx
    split at hx
    · cases hx
      exact h
    · cases hx
      exact h.same hu hu id rfl rfl rfl
  | closeOther fd =>
    cases hx
    exact h.same hu hu id rfl rfl rfl
  | destroy =>
    obtain ⟨s₁, hc, hx⟩ := bind_eq_ok hx
    obtain ⟨-, -, hx⟩ := bind_eq_ok hx
    cases hx
    rw [closeIdle_frame hc]
    exact h.same he.2 he.2 (fun hd => by cases hd) rfl rfl rfl

end Since

theorem closeIdle_some {s : Acceptor} {i : Nat} {o : Owner} (hi : s.idleFd = some i)
    (ho : s.table.owner i = some o) (hof : o.ofAcceptor = true) :
    s.closeIdle = .ok { s with table := s.table.release i } := by
  simp only [closeIdle, hi]
  rw [ensure_pos ⟨o, ho, hof⟩]
  rfl

/-- `handleRead` with a full table and a reserve. -/
theorem Inv.turnAway {s : Acceptor} (h : s.Inv) (hst : s.step = .done) (hd : s.destroyed = false)
    (hl : s.listenning = true) {i peer : Nat} {backlog : List Nat} (hi : s.idleFd = some i)
    (hfull : s.table.lowest = none) (hb : s.backlog = peer :: backlog) (e : Errno) :
    (machine.under Sound).Run s
      [.handleRead (.error EMFILE), .next (.error e), .next .connection, .next (.error e),
        .next (.error e)]
      { s with backlog := backlog, taken := s.taken ++ [(peer, none)] } := by
  have hidle := (h.idle_iff hst hd i).2 hi
  have hhole : Hole (s.table.release i) i := .of_release hfull (lt_of_owner hidle)
  have hput : ((s.table.release i).put i (.refused peer)).owner i = some (.refused peer) := by
    rw [owner_put hhole.lt, if_pos rfl]
  let s₁ : Acceptor := { s with step := .closeIdle }
  let s₂ : Acceptor := { s with table := s.table.release i, step := .accept }
  let s₃ : Acceptor := { s with
    table := (s.table.release i).put i (.refused peer)
    idleFd := some i
    backlog := backlog
    taken := s.taken ++ [(peer, none)]
    step := .closeRefused }
  let s₄ : Acceptor := { s₃ with table := s.table.release i, step := .reopen }
  have h₁ : s.handleRead (.error EMFILE) = .ok s₁ := rfl
  have h₂ : s₁.next (.error e) = .ok s₂ := by
    have hclose : s₁.closeIdle = .ok { s₁ with table := s.table.release i } :=
      closeIdle_some hi hidle rfl
    simp only [Acceptor.next, s₁]
    rw [hclose]
    rfl
  have h₃ : s₂.next .connection = .ok s₃ := by
    have haccept : s₂.accept .refused = some (peer, i, { s₂ with
        backlog := backlog, table := (s.table.release i).put i (.refused peer) }) := by
      simp only [accept, s₂, hb, hhole.lowest]
    simp only [Acceptor.next, s₂]
    rw [haccept]
  have h₄ : s₃.next (.error e) = .ok s₄ := by
    have hclose : s₃.closeIdle = .ok { s₃ with
        table := ((s.table.release i).put i (.refused peer)).release i } :=
      closeIdle_some rfl hput rfl
    rw [release_put hhole.lt hhole.free] at hclose
    simp only [Acceptor.next, s₃]
    rw [hclose]
    rfl
  have h₅ : s₄.next (.error e) =
      .ok { s with backlog := backlog, taken := s.taken ++ [(peer, none)] } := by
    simp only [Acceptor.next, s₄, s₃, hhole.lowest, put_release hidle]
    rw [← hi, ← hst]
  refine .cons ⟨⟨hd, hl, hst, fun _ => hfull⟩, (rfl : expected EMFILE = true)⟩ h₁ ?_
  refine .cons ⟨⟨fun hs => (by cases hs), fun hs => by cases hs⟩, trivial⟩ h₂ ?_
  refine .cons ⟨⟨fun hs => (by cases hs), fun _ => ⟨?_, ?_⟩⟩, trivial⟩ h₃ ?_
  · rw [show s₂.backlog = _ from hb]
    exact fun hn => by cases hn
  · rw [show s₂.table.lowest = _ from hhole.lowest]
    exact fun hn => by cases hn
  refine .cons ⟨⟨fun hs => (by cases hs), fun hs => by cases hs⟩, trivial⟩ h₄ ?_
  exact .single ⟨⟨fun hs => (by cases hs), fun hs => by cases hs⟩, trivial⟩ h₅

/-- **The reserve comes back.** As long as nobody else opens or closes a descriptor while
`handleRead` is at work, `idleFd_` keeps its number from one `handleRead` to the next. A full table
costs one waiting peer and nothing else, when there is a reserve. But a reserve that was lost to
another thread does not come back under this condition: `idleFd_` stays `-1`, and if there is a
callback nobody is turned away, so that with a full table the backlog is not read any more. (A
descriptor that somebody closes just between the two calls of `accept` would bring the reserve
back.) -/
theorem acceptor_undisturbed {t : Table Owner} (ht : ∀ o ∈ t, o = none ∨ o = some .other)
    {callback : Bool} {s₀ s s' : Acceptor} (hnew : new t callback = .ok s₀) {ops ops' : List Op}
    (hr : (machine.under Sound).Run s₀ ops s) (hst : s.step = .done)
    (hr' : (machine.under fun s op => s.Sound op ∧ s.Undisturbed op).Run s ops' s') :
    (s'.step = .done → s'.destroyed = false → s'.idleFd = s.idleFd) ∧
    (s.idleFd = none → s.newConnectionCallback = true →
      ∃ new, s'.taken = s.taken ++ new ∧ ∀ p ∈ new, p.2 ≠ none) ∧
    ∀ i peer backlog e, s.idleFd = some i → s.destroyed = false → s.listenning = true →
      s.table.lowest = none → s.backlog = peer :: backlog →
      (machine.under Sound).Run s
        [.handleRead (.error EMFILE), .next (.error e), .next .connection, .next (.error e),
          .next (.error e)]
        { s with backlog := backlog, taken := s.taken ++ [(peer, none)] } := by
  have hinv := hr.keeps safe_inv.keeps (new_inv ht hnew).1
  have hkeep : (machine.under fun s op => s.Sound op ∧ s.Undisturbed op).Keeps fun u =>
      u.Inv ∧ Since s u := by
    rintro u op u' ⟨hu, hsince⟩ ⟨he, hs, hun⟩ hx
    exact ⟨safe_inv.keeps u op u' hu ⟨he, hs⟩ hx, hsince.exec hu he hun hx⟩
  obtain ⟨-, hsince⟩ := hr'.keeps hkeep ⟨hinv, .refl hst⟩
  refine ⟨fun hst' => ?_, fun hn hc => ?_, ?_⟩
  · have halone := hsince.alone
    rw [Alone, hst'] at halone
    exact halone
  · obtain ⟨new, heq, hnew⟩ := hsince.taken
    exact ⟨new, heq, hnew hn hc⟩
  · intro i peer backlog e hi hd hl hfull hb
    exact hinv.turnAway hst hd hl hi hfull hb e

instance (s : Acceptor) : (op : Op) → Decidable (s.Undisturbed op)
  | .openOther | .closeOther _ => inferInstanceAs (Decidable (_ = _))
  | .arrive | .abort _ | .listen | .handleRead _ | .next _ | .destroy => isTrue trivial

/-- The table stays full. -/
def stuck : List Op :=
  [.handleRead (.error EMFILE), .next (.error EMFILE), .next (.error EMFILE), .next (.error EMFILE),
    .next (.error EMFILE)]

theorem acceptor_undisturbed_contended :
    ∃ s s', (machine.under Sound).Run listener contended s ∧
      (machine.under fun s op => s.Sound op ∧ s.Undisturbed op).Run s stuck s' ∧
      s'.idleFd = none ∧ s'.backlog = [1, 2] := by
  obtain ⟨s, hr, hobs⟩ := Machine.Run.of_replay (machine.under Sound) listener contended
    (fun s => (s.step, decide (s.idleFd = none),
      decide (((machine.under fun s op => s.Sound op ∧ s.Undisturbed op).replay s stuck).map
        (fun s' => (s'.step, s'.destroyed, s'.backlog)) = some (.done, false, [1, 2]))))
    (.done, true, true) (by decide +kernel)
  simp only [Prod.mk.injEq, decide_eq_true_eq] at hobs
  obtain ⟨hst, hidle, hobs⟩ := hobs
  obtain ⟨s', hrun, hobs⟩ := Option.map_eq_some_iff.1 hobs
  simp only [Prod.mk.injEq] at hobs
  obtain ⟨hst', hd, hb⟩ := hobs
  have hr' := Machine.Run.of_replay_eq hrun
  obtain ⟨hkept, -, -⟩ := acceptor_undisturbed standard_other new_standard hr hst hr'
  exact ⟨s, s', hr, hr', (hkept hst' hd).trans hidle, hb⟩

end Acceptor
end TinyMuduo
