import TinyMuduo.Server.Stage

/-!
# Server.Invariant

The invariant of a `TcpServer` in all its loops. `Inv name st s` says that every connection `c` is
in stage `st c`: its fields, its functors and its pending work are those of the stage (`Own`), the
pollers know exactly the registered channels (`Registered`), and what the loops are about to
dispatch is open (`Iterating`).

Nearly every step concerns one connection only. `Touches name s s' c` says what such a step leaves
alone, and `Ground.step` carries the invariant over it once the new stage of `c` is given.
-/

namespace TinyMuduo
namespace TcpServer

open Channel Result EPollPoller Function

variable {name : ConnId → String} {st : ConnId → Stage} {s s' s'' : TcpServer} {c d : ConnId}
  {l t : LoopId}

/-! ## The pieces of a state -/

@[simp] theorem setLoop_loops (s : TcpServer) (l m : LoopId) (r : Loop) :
    (s.setLoop l r).loops m = if m = l then r else s.loops m := update_apply ..

@[simp] theorem setLoop_conns (s : TcpServer) (l : LoopId) (r : Loop) :
    (s.setLoop l r).conns = s.conns := rfl

@[simp] theorem setLoop_connections (s : TcpServer) (l : LoopId) (r : Loop) :
    (s.setLoop l r).connections = s.connections := rfl

@[simp] theorem setLoop_accepted (s : TcpServer) (l : LoopId) (r : Loop) :
    (s.setLoop l r).accepted = s.accepted := rfl

@[simp] theorem setLoop_destroyed (s : TcpServer) (l : LoopId) (r : Loop) :
    (s.setLoop l r).destroyed = s.destroyed := rfl

@[simp] theorem setConn_conns (s : TcpServer) (c d : ConnId) (k : Conn) :
    (s.setConn c k).conns d = if d = c then k else s.conns d := update_apply ..

@[simp] theorem setConn_loops (s : TcpServer) (c : ConnId) (k : Conn) :
    (s.setConn c k).loops = s.loops := rfl

@[simp] theorem setConn_connections (s : TcpServer) (c : ConnId) (k : Conn) :
    (s.setConn c k).connections = s.connections := rfl

@[simp] theorem setConn_accepted (s : TcpServer) (c : ConnId) (k : Conn) :
    (s.setConn c k).accepted = s.accepted := rfl

@[simp] theorem setConn_destroyed (s : TcpServer) (c : ConnId) (k : Conn) :
    (s.setConn c k).destroyed = s.destroyed := rfl

theorem Work.conn_of_mem {es : List TcpConnection.Effect} {w : Work}
    (h : w ∈ es.filterMap (Work.ofEffect c)) : w.conn = c := by
  obtain ⟨e, _, he⟩ := List.mem_filterMap.1 h
  cases e <;> cases he <;> rfl

/-- The callbacks a connection queues are the user's. -/
theorem Functor.ofEffect_idle {es : List TcpConnection.Effect} {f : Functor}
    (h : f ∈ es.filterMap (Functor.ofEffect c)) : f.subject = none ∧ f.client = none := by
  obtain ⟨e, _, he⟩ := List.mem_filterMap.1 h
  cases e <;> cases he
  exact ⟨rfl, rfl⟩

theorem mem_queue_append {r : Loop} {es : List TcpConnection.Effect} {f : Functor}
    (h : f ∈ r.functors ++ (r.pendingFunctors ++ es.filterMap (Functor.ofEffect c)))
    (hd : f.client = some d) : f ∈ r.queue := by
  rw [← List.append_assoc, List.mem_append] at h
  rcases h with h | h
  · exact h
  · simp [(Functor.ofEffect_idle h).2] at hd

/-! ## The invariant -/

/-- What is known of a connection in stage `x`. -/
structure Own (name : ConnId → String) (s : TcpServer) (c : ConnId) (x : Stage) : Prop where
  data : x.Data (s.conns c)
  works : ∀ l, s.worksOf l c = x.works c (s.conns c).loop l
  functors : ∀ l, s.functorsOf l c = x.functors c (s.conns c).loop l
  mapped : s.connections (name c) = if x.mapped then some c else none
  fits : x.Fits (s.conns c).loop s.destroyed

/-- The pollers know the registered channels of their loop, and no others. -/
structure Registered (st : ConnId → Stage) (s : TcpServer) : Prop where
  fds : ∀ c d, (st c).live = true → (st d).live = true → (s.conns c).fd = (s.conns d).fd → c = d
  holds : ∀ c, (st c).live = true → (s.loops (s.conns c).loop).poller.Holds c (s.conns c).fd
    (s.conns c).tcp.channel.index ((st c).life (s.conns c).tcp.channel.events)
  known : ∀ l f c, (s.loops l).poller.channels f = some c →
    (st c).live = true ∧ (st c).started = true ∧ (s.conns c).loop = l ∧ (s.conns c).fd = f
  listed : ∀ l f e c, (s.loops l).poller.kernel f = some (e, c) →
    (s.loops l).poller.channels f = some c

/-- The dispatch under way may still call `handleClose`. -/
def Iteration.MayClose (it : Iteration) : Prop :=
  .close ∈ it.callbacks ∨ .read ∈ it.callbacks ∧ it.closes = false

/-- The connections the iteration has to do with: the current one, and those after it. -/
def Iteration.upcoming (it : Iteration) : List ConnId :=
  it.currentActiveChannel.toList ++ it.waiting.map Prod.fst

/-- `EventLoop::removeChannel` lets connection `c` go. -/
def Iteration.Releases (it : Iteration) (c : ConnId) : Prop :=
  it.phase = .handling → c ∈ it.activeChannels → it.currentActiveChannel = some c

/-- Where loop `l` is in its iteration, and the stages of the connections it has to do with. -/
structure Iterating (st : ConnId → Stage) (s : TcpServer) (l : LoopId) (it : Iteration) :
    Prop where
  nodup : it.upcoming.Nodup
  mine : ∀ c ∈ it.upcoming, (s.conns c).loop = l ∧ (st c).started = true
  order : it.callbacks.Sublist [.close, .error, .read, .write]
  closes : .close ∈ it.callbacks → it.closes = true
  waiting : s.destroyed = false → ∀ c ∈ it.waiting.map Prod.fst, st c = .opened .spared
  current : s.destroyed = false → ∀ c, it.currentActiveChannel = some c → it.MayClose →
    st c = .opened .spared

structure Ground (st : ConnId → Stage) (s : TcpServer) : Prop where
  born : ∀ c, st c = .unborn ↔ s.accepted ≤ c
  reg : Registered st s
  swapped : ∀ l, (s.loops l).it.phase ≠ .functors → (s.loops l).functors = []
  clients : ∀ l, ∀ f ∈ (s.loops l).queue, ∀ c, f.client = some c →
    (st c).started = true ∧ (s.conns c).loop = l
  iter : ∀ l, Iterating st s l (s.loops l).it
  releases : ∀ c, (st c).leaving (s.conns c).loop = true →
    (s.loops (s.conns c).loop).it.Releases c

structure Inv (name : ConnId → String) (st : ConnId → Stage) (s : TcpServer) : Prop where
  ground : Ground st s
  own : ∀ c, Own name s c (st c)

/-! ## Steps that concern one connection -/

/-- What a step that concerns connection `c` leaves alone. -/
structure Touches (name : ConnId → String) (s s' : TcpServer) (c : ConnId) : Prop where
  accepted : s'.accepted = s.accepted
  destroyed : s'.destroyed = s.destroyed
  conns : ∀ d, d ≠ c → s'.conns d = s.conns d
  loop : (s'.conns c).loop = (s.conns c).loop
  fd : (s'.conns c).fd = (s.conns c).fd
  connections : ∀ d, name d ≠ name c → s'.connections (name d) = s.connections (name d)
  it : ∀ l, (s'.loops l).it = (s.loops l).it
  functors : ∀ l, (s.loops l).functors = [] → (s'.loops l).functors = []
  works : ∀ l d, d ≠ c → s'.worksOf l d = s.worksOf l d
  functorsOf : ∀ l d, d ≠ c → s'.functorsOf l d = s.functorsOf l d
  clients : ∀ l, ∀ f ∈ (s'.loops l).queue, ∀ d, f.client = some d →
    f ∈ (s.loops l).queue ∨ d = c ∧ (s.conns c).loop = l
  poller : ∀ l, l ≠ (s.conns c).loop → (s'.loops l).poller = (s.loops l).poller
  entry : ∀ f, f ≠ (s.conns c).fd →
    (s'.loops (s.conns c).loop).poller.channels f = (s.loops (s.conns c).loop).poller.channels f ∧
    (s'.loops (s.conns c).loop).poller.kernel f = (s.loops (s.conns c).loop).poller.kernel f

namespace Touches

theorem trans (h : Touches name s s' c) (h' : Touches name s' s'' c) : Touches name s s'' c where
  accepted := h'.accepted.trans h.accepted
  destroyed := h'.destroyed.trans h.destroyed
  conns d hd := (h'.conns d hd).trans (h.conns d hd)
  loop := h'.loop.trans h.loop
  fd := h'.fd.trans h.fd
  connections d hd := (h'.connections d hd).trans (h.connections d hd)
  it l := (h'.it l).trans (h.it l)
  functors l hl := h'.functors l (h.functors l hl)
  works l d hd := (h'.works l d hd).trans (h.works l d hd)
  functorsOf l d hd := (h'.functorsOf l d hd).trans (h.functorsOf l d hd)
  clients l f hf d hd := by
    rcases h'.clients l f hf d hd with hm | ⟨hdc, hl⟩
    · exact h.clients l f hm d hd
    · exact Or.inr ⟨hdc, h.loop ▸ hl⟩
  poller l hl := (h'.poller l (h.loop ▸ hl)).trans (h.poller l hl)
  entry f hf := by
    obtain ⟨hc, hk⟩ := h'.entry f (by rwa [h.fd])
    obtain ⟨hc', hk'⟩ := h.entry f hf
    rw [h.loop] at hc hk
    exact ⟨hc.trans hc', hk.trans hk'⟩

/-- A step on the fields of `c` alone. -/
theorem setConn {k : Conn} (hl : k.loop = (s.conns c).loop) (hf : k.fd = (s.conns c).fd) :
    Touches name s (s.setConn c k) c where
  accepted := rfl
  destroyed := rfl
  conns d hd := by simp [hd]
  loop := by simp [hl]
  fd := by simp [hf]
  connections _ _ := rfl
  it _ := rfl
  functors _ h := h
  works _ _ _ := rfl
  functorsOf _ _ _ := rfl
  clients _ _ h _ _ := Or.inl h
  poller _ _ := rfl
  entry _ _ := ⟨rfl, rfl⟩

theorem note (es : List Event) : Touches name s (s.note c es) c := setConn rfl rfl

/-- `connections_.erase(name)`. -/
theorem erase :
    Touches name s { s with connections := update s.connections (name c) none } c where
  accepted := rfl
  destroyed := rfl
  conns _ _ := rfl
  loop := rfl
  fd := rfl
  connections _ hd := update_of_ne hd ..
  it _ := rfl
  functors _ h := h
  works _ _ _ := rfl
  functorsOf _ _ _ := rfl
  clients _ _ h _ _ := Or.inl h
  poller _ _ := rfl
  entry _ _ := ⟨rfl, rfl⟩

/-- A step on one loop. -/
theorem setLoop {r : Loop} (hit : r.it = (s.loops l).it)
    (hfs : (s.loops l).functors = [] → r.functors = [])
    (hw : ∀ d, d ≠ c → r.work.filter (fun w => w.conn = d) = s.worksOf l d)
    (hq : ∀ d, d ≠ c → r.queue.filter (fun f => f.subject = some d) = s.functorsOf l d)
    (hcl : ∀ f ∈ r.queue, ∀ d, f.client = some d →
      f ∈ (s.loops l).queue ∨ d = c ∧ (s.conns c).loop = l)
    (hp : l ≠ (s.conns c).loop → r.poller = (s.loops l).poller)
    (he : ∀ f, f ≠ (s.conns c).fd → r.poller.channels f = (s.loops l).poller.channels f ∧
      r.poller.kernel f = (s.loops l).poller.kernel f) :
    Touches name s (s.setLoop l r) c where
  accepted := rfl
  destroyed := rfl
  conns _ _ := rfl
  loop := rfl
  fd := rfl
  connections _ _ := rfl
  it m := by by_cases hm : m = l <;> simp [hm, hit]
  functors m h := by
    by_cases hm : m = l
    · subst hm; simpa using hfs h
    · simpa [hm] using h
  works m d hd := by
    by_cases hm : m = l
    · subst hm; simpa [worksOf] using hw d hd
    · simp [worksOf, hm]
  functorsOf m d hd := by
    by_cases hm : m = l
    · subst hm; simpa [TcpServer.functorsOf] using hq d hd
    · simp [TcpServer.functorsOf, hm]
  clients m f hf d hd := by
    by_cases hm : m = l
    · subst hm; exact hcl f (by simpa using hf) d hd
    · exact Or.inl (by simpa [hm] using hf)
  poller m hm := by
    by_cases hml : m = l
    · subst hml; simpa using hp hm
    · simp [hml]
  entry f hf := by
    by_cases hm : (s.conns c).loop = l
    · simpa [hm] using he f hf
    · simp [hm]

theorem popWork {w : Work} {ws : List Work} (hw : (s.loops l).work = w :: ws) (hc : w.conn = c) :
    Touches name s (s.popWork l) c := by
  refine setLoop rfl id (fun d hd => ?_) (fun _ _ => rfl) (fun f hf _ _ => Or.inl hf)
    (fun _ => rfl) fun _ _ => ⟨rfl, rfl⟩
  simp [worksOf, hw, hc, Ne.symm hd]

theorem popFunctor {f : Functor} {fs : List Functor} (hf : (s.loops l).functors = f :: fs)
    (hc : ∀ d, f.subject = some d → d = c) : Touches name s (s.popFunctor l) c := by
  refine setLoop rfl (fun h => by simp [h]) (fun _ _ => rfl) (fun d hd => ?_)
    (fun g hg _ _ => Or.inl ?_) (fun _ => rfl) fun _ _ => ⟨rfl, rfl⟩
  · have hne : f.subject ≠ some d := fun h => hd (hc d h)
    simp [TcpServer.functorsOf, Loop.queue, hf, hne]
  · simp only [Loop.queue, hf, List.tail_cons] at hg ⊢
    exact List.mem_cons_of_mem _ hg

theorem queueInLoop {f : Functor} (hc : ∀ d, f.subject = some d → d = c)
    (hl : ∀ d, f.client = some d → d = c ∧ (s.conns c).loop = l) :
    Touches name s (s.queueInLoop l f) c := by
  refine setLoop rfl id (fun _ _ => rfl) (fun d hd => ?_) (fun g hg d hd => ?_)
    (fun _ => rfl) fun _ _ => ⟨rfl, rfl⟩
  · have hne : f.subject ≠ some d := fun h => hd (hc d h)
    simp [TcpServer.functorsOf, Loop.queue, hne]
  · rw [Loop.queue, ← List.append_assoc, List.mem_append, List.mem_singleton] at hg
    rcases hg with hg | rfl
    · exact Or.inl hg
    · exact Or.inr (hl d hd)

theorem settle {tcp : TcpConnection} {p : EPollPoller} {es : List TcpConnection.Effect}
    (hfd : tcp.channel.fd = (s.conns c).fd)
    (hp : ∀ f, f ≠ (s.conns c).fd →
      p.channels f = (s.loops (s.conns c).loop).poller.channels f ∧
      p.kernel f = (s.loops (s.conns c).loop).poller.kernel f) :
    Touches name s (s.settle c tcp p es) c := by
  refine (setConn (k := { s.conns c with tcp := tcp }) rfl hfd).trans ?_
  refine setLoop rfl id (fun d hd => ?_) (fun d _ => ?_) (fun g hg d hd => Or.inl ?_) (fun h => ?_)
    fun f hf => hp f ?_
  · have hnone : (es.filterMap (Work.ofEffect c)).filter (fun w => w.conn = d) = [] :=
      List.filter_eq_nil_iff.2 fun w hw => by simp [Work.conn_of_mem hw, Ne.symm hd]
    rw [List.filter_append, hnone]
    rfl
  · have hnone : (es.filterMap (Functor.ofEffect c)).filter (fun f => f.subject = some d) = [] :=
      List.filter_eq_nil_iff.2 fun f hf => by simp [(Functor.ofEffect_idle hf).1]
    rw [Loop.queue, ← List.append_assoc, List.filter_append, hnone, List.append_nil]
    rfl
  · exact mem_queue_append hg hd
  · simp at h
  · simpa [Conn.fd, hfd] using hf

end Touches

theorem Own.congr {x : Stage} (h : Own name s c x) (hk : s'.conns c = s.conns c)
    (hw : ∀ l, s'.worksOf l c = s.worksOf l c) (hf : ∀ l, s'.functorsOf l c = s.functorsOf l c)
    (hm : s'.connections (name c) = s.connections (name c)) (hd : s'.destroyed = s.destroyed) :
    Own name s' c x where
  data := by rw [hk]; exact h.data
  works l := by rw [hw, hk]; exact h.works l
  functors l := by rw [hf, hk]; exact h.functors l
  mapped := by rw [hm]; exact h.mapped
  fits := by rw [hk, hd]; exact h.fits

/-- What the poller of its loop says about a connection in stage `x`. -/
def PolledAs (s : TcpServer) (c : ConnId) (x : Stage) : Prop :=
  (s.loops (s.conns c).loop).poller.Holds c (s.conns c).fd (s.conns c).tcp.channel.index
    (x.life (s.conns c).tcp.channel.events)

/-- A channel that is in `channels_` is registered. -/
theorem PolledAs.of_channels {x : Stage} (h : PolledAs s c x)
    (hd : (s.loops (s.conns c).loop).poller.channels (s.conns c).fd = some d) :
    d = c ∧ x.live = true ∧ x.started = true := by
  unfold PolledAs at h
  cases x with
  | unborn | accepted | destroyed | parted => cases h.2.1.symm.trans hd
  | established | opened | closing | down | removing | removed | unregistering | farewell
  | parting => exact ⟨(Option.some.inj (h.2.1.symm.trans hd)).symm, rfl, rfl⟩

theorem PolledAs.of_kernel {x : Stage} {e : Events} (h : PolledAs s c x)
    (hd : (s.loops (s.conns c).loop).poller.kernel (s.conns c).fd = some (e, d)) :
    (s.loops (s.conns c).loop).poller.channels (s.conns c).fd = some d := by
  have hreg : ∀ e', entry e' c = some (e, d) → c = d := by
    intro e' he
    unfold entry at he
    split at he
    · cases he
    · exact (Prod.mk.inj (Option.some.inj he)).2
  unfold PolledAs at h
  cases x with
  | unborn | accepted | destroyed | parted => cases h.2.2.symm.trans hd
  | established | opened | closing | down | removing | removed | unregistering | farewell
  | parting => exact hreg _ (h.2.2.symm.trans hd) ▸ h.2.1

/-- Nothing changes in the pollers but the entry of `c`. -/
theorem Touches.poller_eq (ht : Touches name s s' c) {f : Int}
    (h : l = (s.conns c).loop → f ≠ (s.conns c).fd) :
    (s'.loops l).poller.channels f = (s.loops l).poller.channels f ∧
    (s'.loops l).poller.kernel f = (s.loops l).poller.kernel f := by
  by_cases hl : l = (s.conns c).loop
  · subst hl
    exact ht.entry f (h rfl)
  · rw [ht.poller l hl]
    exact ⟨rfl, rfl⟩

theorem Registered.step (h : Registered st s) (ht : Touches name s s' c) {x : Stage}
    (hlive : (st c).live = true) (hp : PolledAs s' c x) :
    Registered (update st c x) s' where
  fds a b ha hb hf := by
    by_cases hac : a = c <;> by_cases hbc : b = c
    · exact hac.trans hbc.symm
    · subst hac
      rw [update_of_ne hbc] at hb
      rw [ht.fd, ht.conns b hbc] at hf
      exact h.fds a b hlive hb hf
    · subst hbc
      rw [update_of_ne hac] at ha
      rw [ht.fd, ht.conns a hac] at hf
      exact h.fds a b ha hlive hf
    · rw [update_of_ne hac] at ha
      rw [update_of_ne hbc] at hb
      rw [ht.conns a hac, ht.conns b hbc] at hf
      exact h.fds a b ha hb hf
  holds d hd := by
    by_cases hdc : d = c
    · subst hdc
      rw [update_self]
      exact hp
    · rw [update_of_ne hdc] at hd ⊢
      rw [ht.conns d hdc]
      obtain ⟨hc, hk⟩ := ht.poller_eq (l := (s.conns d).loop) (f := (s.conns d).fd)
        fun _ hf => hdc (h.fds d c hd hlive hf)
      exact (h.holds d hd).congr hc hk
  known l f d hd := by
    by_cases hat : l = (s.conns c).loop ∧ f = (s.conns c).fd
    · obtain ⟨rfl, rfl⟩ := hat
      rw [← ht.loop, ← ht.fd] at hd ⊢
      obtain ⟨rfl, hx, hs⟩ := hp.of_channels hd
      rw [update_self]
      exact ⟨hx, hs, rfl, rfl⟩
    · rw [(ht.poller_eq fun hl hf => hat ⟨hl, hf⟩).1] at hd
      obtain ⟨hx, hs, rfl, rfl⟩ := h.known l f d hd
      have hdc : d ≠ c := fun e => hat (by rw [e]; exact ⟨rfl, rfl⟩)
      rw [update_of_ne hdc, ht.conns d hdc]
      exact ⟨hx, hs, rfl, rfl⟩
  listed l f e d hd := by
    by_cases hat : l = (s.conns c).loop ∧ f = (s.conns c).fd
    · obtain ⟨rfl, rfl⟩ := hat
      rw [← ht.loop, ← ht.fd] at hd ⊢
      exact hp.of_kernel hd
    · obtain ⟨hc, hk⟩ := ht.poller_eq (l := l) (f := f) fun hl hf => hat ⟨hl, hf⟩
      rw [hk] at hd
      rw [hc]
      exact h.listed l f e d hd

/-- A step that leaves the pollers and the channel alone. -/
theorem Registered.same (h : Registered st s) (ht : Touches name s s' c) {x : Stage}
    (hp : ∀ l, (s'.loops l).poller = (s.loops l).poller)
    (hch : (s'.conns c).tcp.channel = (s.conns c).tcp.channel) (hx : Stage.Alike (st c) x) :
    Registered (update st c x) s' := by
  have hst : ∀ d, Stage.Alike (st d) (update st c x d) := by
    intro d
    by_cases hdc : d = c
    · subst hdc
      rw [update_self]
      exact hx
    · rw [update_of_ne hdc]
      exact .refl _
  have hk : ∀ d, (s'.conns d).loop = (s.conns d).loop ∧
      (s'.conns d).tcp.channel = (s.conns d).tcp.channel := by
    intro d
    by_cases hdc : d = c
    · subst hdc; exact ⟨ht.loop, hch⟩
    · rw [ht.conns d hdc]; exact ⟨rfl, rfl⟩
  refine ⟨fun a b ha hb hf => ?_, fun d hd => ?_, fun l f d hd => ?_, fun l f e d hd => ?_⟩
  · rw [(hst a).live] at ha
    rw [(hst b).live] at hb
    simp only [Conn.fd, (hk a).2, (hk b).2] at hf
    exact h.fds a b ha hb hf
  · rw [(hst d).live] at hd
    have := h.holds d hd
    simpa only [Conn.fd, hp, (hk d).1, (hk d).2, (hst d).life] using this
  · rw [hp] at hd
    obtain ⟨hl, hs, hloop, hf⟩ := h.known l f d hd
    refine ⟨(hst d).live.trans hl, (hst d).started.trans hs, (hk d).1.trans hloop, ?_⟩
    rw [← hf, Conn.fd, (hk d).2]
    rfl
  · rw [hp] at hd ⊢
    exact h.listed l f e d hd

/-- The iterations have no dispatch of `c` ahead that may close it. -/
def Undispatched (s : TcpServer) (c : ConnId) : Prop :=
  ∀ l, c ∉ (s.loops l).it.waiting.map Prod.fst ∧
    ((s.loops l).it.currentActiveChannel = some c → ¬ (s.loops l).it.MayClose)

/-- The new stage `x` of `c` is one the iterations of the loops allow. -/
structure Moves (st : ConnId → Stage) (s : TcpServer) (c : ConnId) (x : Stage) : Prop where
  started : (st c).started = true → x.started = true
  opened : s.destroyed = false → st c = .opened .spared → x = .opened .spared ∨ Undispatched s c
  releases : x.leaving (s.conns c).loop = true → (s.loops (s.conns c).loop).it.Releases c

theorem Iterating.step (h : Iterating st s l (s.loops l).it) (ht : Touches name s s' c) {x : Stage}
    (hm : Moves st s c x) : Iterating (update st c x) s' l (s'.loops l).it := by
  rw [ht.it]
  -- the stage of a connection that was open and may still be closed
  have hopen : ∀ d, s'.destroyed = false → st d = .opened .spared →
      (Undispatched s d → False) → update st c x d = .opened .spared := by
    intro d hd hst hu
    by_cases hdc : d = c
    · subst hdc
      rw [update_self]
      exact (hm.opened (ht.destroyed ▸ hd) hst).resolve_right hu
    · rwa [update_of_ne hdc]
  refine ⟨h.nodup, fun d hd => ?_, h.order, h.closes, fun hnd d hd => ?_, fun hnd d hd hc => ?_⟩
  · obtain ⟨hl, hs⟩ := h.mine d hd
    by_cases hdc : d = c
    · subst hdc
      rw [update_self, ht.loop]
      exact ⟨hl, hm.started hs⟩
    · rw [update_of_ne hdc, ht.conns d hdc]
      exact ⟨hl, hs⟩
  · exact hopen d hnd (h.waiting (ht.destroyed ▸ hnd) d hd) fun hu => (hu l).1 hd
  · exact hopen d hnd (h.current (ht.destroyed ▸ hnd) d hd hc) fun hu => (hu l).2 hd hc

/-- A step that concerns `c` alone and takes it to stage `x`. -/
theorem Ground.step (hg : Ground st s) (ht : Touches name s s' c) {x : Stage}
    (hr : Registered (update st c x) s') (hborn : st c = .unborn ↔ x = .unborn)
    (hm : Moves st s c x)
    (hcl : ∀ l, ∀ f ∈ (s'.loops l).queue, f.client = some c →
      f ∈ (s.loops l).queue ∨ x.started = true) :
    Ground (update st c x) s' where
  born d := by
    by_cases hdc : d = c
    · subst hdc
      rw [update_self, ht.accepted, ← hborn]
      exact hg.born d
    · rw [update_of_ne hdc, ht.accepted]
      exact hg.born d
  reg := hr
  swapped l hl := by
    rw [ht.it] at hl
    exact ht.functors l (hg.swapped l hl)
  clients l f hf d hd := by
    by_cases hdc : d = c
    · subst hdc
      rw [update_self, ht.loop]
      have hold : f ∈ (s.loops l).queue → x.started = true ∧ (s.conns d).loop = l := fun h =>
        ⟨hm.started (hg.clients l f h d hd).1, (hg.clients l f h d hd).2⟩
      rcases ht.clients l f hf d hd with hf' | ⟨_, hl⟩
      · exact hold hf'
      · rcases hcl l f hf hd with hf' | hs
        · exact hold hf'
        · exact ⟨hs, hl⟩
    · rw [update_of_ne hdc, ht.conns d hdc]
      exact hg.clients l f ((ht.clients l f hf d hd).resolve_right fun h => hdc h.1) d hd
  iter l := (hg.iter l).step ht hm
  releases d hd := by
    by_cases hdc : d = c
    · subst hdc
      rw [update_self, ht.loop] at hd
      rw [ht.loop, ht.it]
      exact hm.releases hd
    · rw [update_of_ne hdc, ht.conns d hdc] at hd
      rw [ht.conns d hdc, ht.it]
      exact hg.releases d hd

/-- All but `c` are as the invariant says. -/
structure Around (name : ConnId → String) (st : ConnId → Stage) (s : TcpServer) (c : ConnId) :
    Prop where
  inj : Injective name
  ground : Ground st s
  others : ∀ d, d ≠ c → Own name s d (st d)

theorem Inv.around (h : Inv name st s) (hinj : Injective name) (c : ConnId) :
    Around name st s c := ⟨hinj, h.ground, fun d _ => h.own d⟩

theorem Ground.stays (h : Ground st s) (c : ConnId) : Moves st s c (st c) :=
  ⟨id, fun _ => Or.inl, h.releases c⟩

namespace Around

theorem inv (h : Around name st s c) (hc : Own name s c (st c)) : Inv name st s where
  ground := h.ground
  own d := by
    by_cases hdc : d = c
    · rw [hdc]; exact hc
    · exact h.others d hdc

theorem others_congr (h : Around name st s c) (ht : Touches name s s' c) (hdc : d ≠ c) :
    Own name s' d (st d) :=
  (h.others d hdc).congr (ht.conns d hdc) (fun l => ht.works l d hdc)
    (fun l => ht.functorsOf l d hdc) (ht.connections d fun e => hdc (h.inj e)) ht.destroyed

theorem step (h : Around name st s c) (ht : Touches name s s' c) {x : Stage}
    (hr : Registered (update st c x) s') (hborn : st c = .unborn ↔ x = .unborn)
    (hm : Moves st s c x)
    (hcl : ∀ l, ∀ f ∈ (s'.loops l).queue, f.client = some c →
      f ∈ (s.loops l).queue ∨ x.started = true)
    (hx : Own name s' c x) : Inv name (update st c x) s' where
  ground := h.ground.step ht hr hborn hm hcl
  own d := by
    by_cases hdc : d = c
    · subst hdc
      rw [update_self]
      exact hx
    · rw [update_of_ne hdc]
      exact h.others_congr ht hdc

/-- A step that leaves the pollers and the channel of `c` alone. -/
theorem move (h : Around name st s c) (ht : Touches name s s' c) {x : Stage}
    (hp : ∀ l, (s'.loops l).poller = (s.loops l).poller)
    (hch : (s'.conns c).tcp.channel = (s.conns c).tcp.channel) (ha : Stage.Alike (st c) x)
    (hm : Moves st s c x)
    (hcl : ∀ l, ∀ f ∈ (s'.loops l).queue, f.client = some c →
      f ∈ (s.loops l).queue ∨ x.started = true)
    (hx : Own name s' c x) : Inv name (update st c x) s' :=
  h.step ht (h.ground.reg.same ht hp hch ha) ha.born hm hcl hx

/-- The first part of a step: `c` is still in its stage, but not as the stage says. -/
theorem touch (h : Around name st s c) (ht : Touches name s s' c)
    (hp : ∀ l, (s'.loops l).poller = (s.loops l).poller)
    (hch : (s'.conns c).tcp.channel = (s.conns c).tcp.channel)
    (hcl : ∀ l, ∀ f ∈ (s'.loops l).queue, f.client = some c → f ∈ (s.loops l).queue) :
    Around name st s' c := by
  have hg := h.ground.step ht (h.ground.reg.same ht hp hch (.refl _)) Iff.rfl
    (h.ground.stays c) fun l f hf hc => Or.inl (hcl l f hf hc)
  rw [update_eq_self] at hg
  exact ⟨h.inj, hg, fun d hdc => h.others_congr ht hdc⟩

end Around

/-! ## Steps of an iteration -/

theorem Own.not_leaving {x : Stage} (h : Own name s c x)
    (hw : (s.loops (s.conns c).loop).work = []) : x.leaving (s.conns c).loop = false := by
  have hnil : x.works c (s.conns c).loop (s.conns c).loop = [] := by
    rw [← h.works, worksOf, hw]; rfl
  cases x with
  | opened d =>
    cases d with
    | listed => simpa [Stage.works, Doom.works, Stage.leaving] using hnil
    | spared | condemned => rfl
  | unregistering | farewell | parting => simp [Stage.works] at hnil
  | unborn | accepted | established | closing | down | removing | removed | destroyed
  | parted => rfl

theorem Iterating.congr {it : Iteration} (h : Iterating st s l it)
    (hl : ∀ c, (s'.conns c).loop = (s.conns c).loop) (hd : s'.destroyed = s.destroyed) :
    Iterating st s' l it where
  nodup := h.nodup
  mine c hc := by rw [hl]; exact h.mine c hc
  order := h.order
  closes := h.closes
  waiting := by rw [hd]; exact h.waiting
  current := by rw [hd]; exact h.current

/-- Loop `l` goes on in its iteration, with nothing left to do on its call stack. -/
theorem Inv.iterate (h : Inv name st s) (hw : (s.loops l).work = []) {r : Loop}
    (hrw : r.work = []) (hp : r.poller = (s.loops l).poller) (hq : r.queue = (s.loops l).queue)
    (hsw : r.it.phase ≠ .functors → r.functors = []) (hit : Iterating st s l r.it) :
    Inv name st (s.setLoop l r) := by
  have hpoll : ∀ m, ((s.setLoop l r).loops m).poller = (s.loops m).poller := by
    intro m
    by_cases hm : m = l
    · subst hm; simpa using hp
    · simp [hm]
  have hqueue : ∀ m, ((s.setLoop l r).loops m).queue = (s.loops m).queue := by
    intro m
    by_cases hm : m = l
    · subst hm; simpa using hq
    · simp [hm]
  refine ⟨⟨h.ground.born, ⟨h.ground.reg.fds, fun c hc => ?_, fun m f c hc => ?_,
    fun m f e c hc => ?_⟩, fun m hm => ?_, fun m f hf => ?_, fun m => ?_, fun c hc => ?_⟩,
    fun c => ?_⟩
  · rw [hpoll]; exact h.ground.reg.holds c hc
  · rw [hpoll] at hc; exact h.ground.reg.known m f c hc
  · rw [hpoll] at hc ⊢; exact h.ground.reg.listed m f e c hc
  · by_cases hml : m = l
    · subst hml; simpa using hsw (by simpa using hm)
    · simpa [hml] using h.ground.swapped m (by simpa [hml] using hm)
  · rw [hqueue] at hf; exact h.ground.clients m f hf
  · by_cases hml : m = l
    · subst hml
      rw [setLoop_loops, if_pos rfl]
      exact hit.congr (fun _ => rfl) rfl
    · rw [setLoop_loops, if_neg hml]
      exact (h.ground.iter m).congr (fun _ => rfl) rfl
  · by_cases hcl : (s.conns c).loop = l
    · have hno := (h.own c).not_leaving (hcl ▸ hw)
      rw [setLoop_conns, hno] at hc
      cases hc
    · simpa [hcl] using h.ground.releases c hc
  · refine (h.own c).congr rfl (fun m => ?_) (fun m => ?_) rfl rfl
    · by_cases hml : m = l
      · subst hml; simp [worksOf, hrw, hw]
      · simp [worksOf, hml]
    · rw [functorsOf, hqueue]; rfl

end TcpServer
end TinyMuduo
