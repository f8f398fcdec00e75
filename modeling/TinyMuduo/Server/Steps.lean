import TinyMuduo.Server.Invariant

/-!
# Server.Steps

What the functions of a connection and of the server do to the stages: one lemma for each of them,
for the state in which it is called. `Inv.functor` and the lemmas after it put them together for
the functors and the work of a loop.
-/

namespace TinyMuduo
namespace TcpServer

open Channel Result EPollPoller Function

variable {name : ConnId → String} {st : ConnId → Stage} {s s' : TcpServer} {c : ConnId}
  {l : LoopId} {tcp : TcpConnection} {es : List TcpConnection.Effect} {evs : List Event}

/-! ## What the steps do to the functors and the work of a connection -/

section Pieces

variable (s c l) (m : LoopId)

theorem worksOf_note (es : List Event) (d : ConnId) :
    (s.note c es).worksOf m d = s.worksOf m d := rfl

theorem functorsOf_note (es : List Event) (d : ConnId) :
    (s.note c es).functorsOf m d = s.functorsOf m d := rfl

theorem functorsOf_popWork : (s.popWork l).functorsOf m c = s.functorsOf m c := by
  by_cases hm : m = l <;> simp [popWork, functorsOf, Loop.queue, hm]

theorem worksOf_popFunctor : (s.popFunctor l).worksOf m c = s.worksOf m c := by
  by_cases hm : m = l <;> simp [popFunctor, worksOf, hm]

theorem worksOf_queueInLoop (f : Functor) : (s.queueInLoop l f).worksOf m c = s.worksOf m c := by
  by_cases hm : m = l <;> simp [queueInLoop, worksOf, hm]

variable {s c l}

theorem worksOf_popWork {w : Work} {ws : List Work} (hw : (s.loops l).work = w :: ws)
    (hc : w.conn = c) :
    s.worksOf m c = (if m = l then [w] else []) ++ (s.popWork l).worksOf m c := by
  by_cases hm : m = l
  · subst hm; simp [popWork, worksOf, hw, hc]
  · simp [popWork, worksOf, hm]

theorem functorsOf_popFunctor {f : Functor} {fs : List Functor}
    (hf : (s.loops l).functors = f :: fs) (hc : f.subject = some c) :
    s.functorsOf m c = (if m = l then [f] else []) ++ (s.popFunctor l).functorsOf m c := by
  by_cases hm : m = l
  · subst hm; simp [popFunctor, functorsOf, Loop.queue, hf, hc]
  · simp [popFunctor, functorsOf, hm]

theorem functorsOf_queueInLoop {f : Functor} (hc : f.subject = some c) :
    (s.queueInLoop l f).functorsOf m c = s.functorsOf m c ++ if m = l then [f] else [] := by
  by_cases hm : m = l
  · subst hm; simp [queueInLoop, functorsOf, Loop.queue, hc]
  · simp [queueInLoop, functorsOf, hm]

theorem functorsOf_queueInLoop_idle {f : Functor} (hc : f.subject = none) (d : ConnId) :
    (s.queueInLoop l f).functorsOf m d = s.functorsOf m d := by
  by_cases hm : m = l
  · subst hm; simp [queueInLoop, functorsOf, Loop.queue, hc]
  · simp [queueInLoop, functorsOf, hm]

variable {p : EPollPoller}

theorem settle_conns_self : (s.settle c tcp p es).conns c = { s.conns c with tcp := tcp } := by
  simp [settle]

theorem settle_poller (tcp : TcpConnection) (p : EPollPoller) (es : List TcpConnection.Effect) :
    ((s.settle c tcp p es).loops (s.conns c).loop).poller = p := by
  simp [settle]

theorem worksOf_settle : (s.settle c tcp p es).worksOf m c =
    (if m = (s.conns c).loop then es.filterMap (Work.ofEffect c) else []) ++ s.worksOf m c := by
  by_cases hm : m = (s.conns c).loop
  · subst hm
    have hall : (es.filterMap (Work.ofEffect c)).filter (fun w => w.conn = c) =
        es.filterMap (Work.ofEffect c) :=
      List.filter_eq_self.2 fun w hw => by simp [Work.conn_of_mem hw]
    simp [settle, worksOf, List.filter_append, hall]
  · simp [settle, worksOf, hm]

theorem functorsOf_settle : (s.settle c tcp p es).functorsOf m c = s.functorsOf m c := by
  by_cases hm : m = (s.conns c).loop
  · subst hm
    have hnone : (es.filterMap (Functor.ofEffect c)).filter (fun f => f.subject = some c) = [] :=
      List.filter_eq_nil_iff.2 fun f hf => by simp [(Functor.ofEffect_idle hf).1]
    simp only [settle, functorsOf, Loop.queue, setLoop_loops, if_pos, ← List.append_assoc,
      List.filter_append, hnone, List.append_nil]
  · simp [settle, functorsOf, hm]

theorem client_settle {f : Functor} (hf : f ∈ ((s.settle c tcp p es).loops m).queue) {d : ConnId}
    (hd : f.client = some d) : f ∈ (s.loops m).queue := by
  by_cases hm : m = (s.conns c).loop
  · subst hm
    simp only [settle, setLoop_loops, if_pos, Loop.queue] at hf
    exact mem_queue_append hf hd
  · simpa [settle, hm] using hf

end Pieces

/-- What runs on a connection moves its history on. -/
theorem Stage.Data.advance {x y : Stage} {k : Conn} (h : y.Data k)
    (hs : x.script k.loop = y.script k.loop ++ evs.filter fun e => !e.isHandler)
    (hf : if y.started then x.started = true
      else evs.head? = if x.started then some .connectEstablished else none)
    (hstate : tcp.state ∈ x.states) (hev : if x.watched then
        tcp.channel.events = kReadEvent ∨ tcp.channel.events = kReadEvent ||| kWriteEvent
      else tcp.channel.events = kNoneEvent) :
    x.Data { k with tcp := tcp, history := k.history ++ evs } where
  script := by simp only [List.filter_append, h.script, hs]
  first := by
    have hfirst := h.first
    rw [List.head?_append, hfirst]
    cases hy : y.started with
    | true => simp only [hy, if_true] at hf; simp [hf]
    | false => simpa [hy] using hf
  state := hstate
  events := hev

theorem Stage.Data.reindex {x : Stage} {own : LoopId} {es : List Event}
    (h : x.Data ⟨own, tcp, es⟩) (i : Int) :
    x.Data ⟨own, { tcp with channel := { tcp.channel with index := i } }, es⟩ :=
  ⟨h.script, h.first, h.state, h.events⟩

theorem Stage.Data.events_ne {x : Stage} {k : Conn} (h : x.Data k) (hx : x.watched = true) :
    k.tcp.channel.events ≠ kNoneEvent := by
  have hev := h.events
  rw [hx, if_pos rfl] at hev
  rcases hev with hev | hev <;> rw [hev] <;> decide

/-! ## Running a function of a connection -/

def Fault.ofBytes : Fault → Bool
  | .conn e => e.ofBytes
  | .poller _ | .notInLoopThread | .eraseCount | .noneEvent | .activeChannel | .serverGone => false

/-- A step that ends in the invariant, unless it stops because of the bytes it handles. -/
def Sound (name : ConnId → String) : Except Fault TcpServer → Prop
  | .ok s => ∃ st, Inv name st s
  | .error e => e.ofBytes = true

/-- What `c` has still to do in stage `x`, apart from what the step under way leaves for it. -/
structure Pending (name : ConnId → String) (s : TcpServer) (c : ConnId) (x : Stage)
    (ws : List Work) : Prop where
  works : ∀ m, (if m = (s.conns c).loop then ws else []) ++ s.worksOf m c =
    x.works c (s.conns c).loop m
  functors : ∀ m, s.functorsOf m c = x.functors c (s.conns c).loop m
  mapped : s.connections (name c) = if x.mapped then some c else none
  fits : x.Fits (s.conns c).loop s.destroyed

/-- The end of a function of `c` that takes it to stage `x`. -/
theorem Around.settle (h : Around name st s c) {x : Stage} {p : EPollPoller}
    (hfd : tcp.channel.fd = (s.conns c).fd) (hoff : ∀ f, f ≠ (s.conns c).fd →
      p.channels f = (s.loops (s.conns c).loop).poller.channels f ∧
      p.kernel f = (s.loops (s.conns c).loop).poller.kernel f) (hreg : ∀ s', Touches name s s' c →
      s'.conns c = ⟨(s.conns c).loop, tcp, (s.conns c).history ++ evs⟩ →
      (s'.loops (s.conns c).loop).poller = p → Registered (update st c x) s')
    (hdata : x.Data ⟨(s.conns c).loop, tcp, (s.conns c).history ++ evs⟩)
    (hpend : Pending name s c x (es.filterMap (Work.ofEffect c)))
    (hborn : st c = .unborn ↔ x = .unborn) (hm : Moves st s c x) :
    Inv name (update st c x) ((s.note c evs).settle c tcp p es) := by
  have hself : (s.note c evs).conns c =
      { s.conns c with history := (s.conns c).history ++ evs } := by simp [note]
  have ht : Touches name s ((s.note c evs).settle c tcp p es) c := by
    refine (Touches.note evs).trans (Touches.settle ?_ ?_)
    · rw [hself]; exact hfd
    · rw [hself]; exact hoff
  have hconn : ((s.note c evs).settle c tcp p es).conns c =
      ⟨(s.conns c).loop, tcp, (s.conns c).history ++ evs⟩ := by
    rw [settle_conns_self, hself]
  have hpoll : (((s.note c evs).settle c tcp p es).loops (s.conns c).loop).poller = p := by
    have := settle_poller (s := s.note c evs) (c := c) tcp p es
    rwa [hself] at this
  refine h.step ht (hreg _ ht hconn hpoll) hborn hm
    (fun m f hf hc => Or.inl (client_settle (s := s.note c evs) m hf hc)) ?_
  refine ⟨?_, fun m => ?_, fun m => ?_, hpend.mapped, ?_⟩
  · rw [hconn]
    exact hdata
  · rw [hconn, worksOf_settle, hself]
    exact hpend.works m
  · rw [hconn, functorsOf_settle]
    exact hpend.functors m
  · rw [hconn]
    exact hpend.fits

theorem call_eq {p : EPollPoller} {i : Int} (hl : l = (s.conns c).loop)
    (hp : s.pollerAfter c (tcp, es) = .ok (p, i)) :
    s.call l c evs (.ok (tcp, es)) =
      .ok ((s.note c evs).settle c
        { tcp with channel := { tcp.channel with index := i } } p es) := by
  rw [TcpServer.call, ensure_pos hl, ok_bind]
  simp only [Except.mapError, ok_bind, hp]

/-- A function of `c` that changes its interest set. -/
theorem Around.call_update (h : Around name st s c) {x : Stage} (hl : l = (s.conns c).loop)
    (hup : .updateChannel ∈ es) (hlive : (st c).live = true) (hfd : tcp.channel.fd = (s.conns c).fd)
    (hi : tcp.channel.index = (s.conns c).tcp.channel.index)
    (hlife : (st c).life (s.conns c).tcp.channel.events = .fresh ∧
        tcp.channel.events ≠ kNoneEvent ∨
      ∃ e, (st c).life (s.conns c).tcp.channel.events = .registered e ∧ e ≠ kNoneEvent)
    (hx : ∀ e, x.life e = .registered e)
    (hdata : x.Data ⟨(s.conns c).loop, tcp, (s.conns c).history ++ evs⟩)
    (hpend : Pending name s c x (es.filterMap (Work.ofEffect c)))
    (hborn : st c = .unborn ↔ x = .unborn) (hm : Moves st s c x) :
    Sound name (s.call l c evs (.ok (tcp, es))) := by
  have hold := h.ground.reg.holds c hlive
  rw [← hfd, ← hi] at hold
  obtain ⟨p, i, hp, hnew, hoff⟩ := updateChannel_holds hold hlife
  have hp' : s.pollerAfter c (tcp, es) = .ok (p, i) := by rw [pollerAfter, if_pos hup, hp]
  rw [call_eq hl hp']
  refine ⟨_, h.settle hfd (hfd ▸ hoff) (fun s' ht hc hpoll => ?_) (hdata.reindex i) hpend hborn hm⟩
  refine h.ground.reg.step ht hlive ?_
  unfold PolledAs
  rw [hc, hpoll, hx]
  exact hnew

/-- A function of `c` that has nothing to tell the poller. -/
theorem Around.call_same (h : Around name st s c) {x : Stage} (hl : l = (s.conns c).loop)
    (hup : .updateChannel ∉ es) (hch : tcp.channel = (s.conns c).tcp.channel)
    (ha : Stage.Alike (st c) x) (hdata : x.Data ⟨(s.conns c).loop, tcp, (s.conns c).history ++ evs⟩)
    (hpend : Pending name s c x (es.filterMap (Work.ofEffect c))) (hm : Moves st s c x) :
    Sound name (s.call l c evs (.ok (tcp, es))) := by
  have hp : s.pollerAfter c (tcp, es) =
      .ok ((s.loops (s.conns c).loop).poller, tcp.channel.index) := by
    rw [pollerAfter, if_neg hup]
  rw [call_eq hl hp]
  refine ⟨_, h.settle (by simp [hch, Conn.fd]) (fun _ _ => ⟨rfl, rfl⟩) (fun s' ht hc hpoll => ?_)
    (hdata.reindex _) hpend ha.born hm⟩
  refine h.ground.reg.same ht (fun m => ?_) ?_ ha
  · by_cases hml : m = (s.conns c).loop
    · rw [hml, hpoll]
    · exact ht.poller m hml
  · rw [hc, hch]

/-! ## `connectEstablished` -/

theorem Around.connectEstablished (h : Around name st s c) {d : Doom} (hst : st c = .accepted d)
    (hl : l = (s.conns c).loop) (hdata : (Stage.accepted d).Data (s.conns c))
    (hw : ∀ m, s.worksOf m c = d.works c m)
    (hf : ∀ m, s.functorsOf m c = d.functors c (s.conns c).loop m)
    (hmap : s.connections (name c) = some c)
    (hfits : (Stage.established d).Fits (s.conns c).loop s.destroyed) :
    Sound name (s.connectEstablished l c) := by
  have hstate : (s.conns c).tcp.state = .kConnecting := List.mem_singleton.1 hdata.state
  have hev : (s.conns c).tcp.channel.events = kNoneEvent := hdata.events
  have hread : (s.conns c).tcp.channel.enableReading.events = kReadEvent := by
    simp [enableReading, interest, Interest.apply, hev, kNoneEvent]
  have hpend : Pending name s c (.established d) [.connectionCallback c] := by
    refine ⟨fun m => ?_, hf, hmap, hfits⟩
    rw [hw]
    by_cases hm : m = (s.conns c).loop
    · simp [Stage.works, hm, Doom.works_own hfits.1]
    · simp [Stage.works, hm]
  rw [TcpServer.connectEstablished, TcpConnection.connectEstablished, if_pos hstate]
  refine h.call_update hl (by simp) (by rw [hst]; rfl) rfl rfl (Or.inl ⟨by rw [hst]; rfl, ?_⟩)
    (fun _ => rfl) ?_ hpend (by simp [hst])
    ⟨by simp [Stage.started], by simp [hst], by simp [Stage.leaving]⟩
  · rw [hread]; decide
  · exact hdata.advance rfl rfl (List.mem_singleton_self _) (Or.inl hread)

/-! ## Closing -/

/-- An open connection whose dispatch is under way is closed. `tcp` is what `handleRead` has made
of its fields. -/
theorem Around.close (h : Around name st s c) (hst : st c = .opened .spared)
    (hl : l = (s.conns c).loop) (ho : Own name s c (.opened .spared)) (hu : Undispatched s c)
    (hstate : tcp.state = (s.conns c).tcp.state) (hch : tcp.channel = (s.conns c).tcp.channel)
    (hevs : evs.filter (fun e => !e.isHandler) = [.handleClose]) :
    Sound name (s.call l c evs tcp.handleClose) := by
  have hopen : tcp.state = .kConnected ∨ tcp.state = .kDisconnecting := by
    simpa [Stage.states, hstate] using ho.data.state
  have hnd : s.destroyed = false := by simpa [Stage.Fits] using ho.fits
  have hpend : Pending name s c .closing [.connectionCallback c, .closeCallback c] :=
    ⟨fun m => by rw [ho.works]; simp [Stage.works, Doom.works], ho.functors, ho.mapped,
      hnd⟩
  rw [TcpConnection.handleClose, if_pos hopen]
  refine h.call_update hl (by simp) (by rw [hst]; rfl) (by rw [hch]; rfl) (by rw [hch]; rfl)
    (Or.inr ⟨_, by rw [hst]; rfl, ho.data.events_ne rfl⟩) (fun _ => rfl) ?_ hpend (by simp [hst])
    ⟨fun _ => rfl, fun _ _ => Or.inr hu, fun hx => by cases hx⟩
  refine ho.data.advance ?_ rfl (List.mem_singleton_self _) rfl
  rw [hevs]; rfl

/-! ## Steps that leave the connection up -/

theorem works_settled (h : ∀ e ∈ es, e.settled = true) :
    es.filterMap (Work.ofEffect c) = [] := by
  rw [List.filterMap_eq_nil_iff]
  intro e he
  have := h e he
  cases e <;> first | rfl | cases this

/-- The interest set of an open connection, with writing turned on or off. -/
theorem watched_interest {e : Events} (h : e = kReadEvent ∨ e = kReadEvent ||| kWriteEvent)
    {i : Interest} (hi : i = .enableWriting ∨ i = .disableWriting) :
    i.apply e = kReadEvent ∨ i.apply e = kReadEvent ||| kWriteEvent := by
  rcases h with rfl | rfl <;> rcases hi with rfl | rfl <;> decide

/-- A connection that may write is watched. -/
theorem Stage.Data.watched_of_writing {x : Stage} {k : Conn} (h : x.Data k) (hs : x.started = true)
    (hw : k.tcp.state ≠ .kDisconnected ∨ k.tcp.channel.isWriting = true) : x.watched = true := by
  cases hx : x.watched with
  | true => rfl
  | false =>
    have hev := h.events
    rw [hx] at hev
    rcases hw with hw | hw
    · cases x with
      | unborn | accepted => cases hs
      | established | opened => cases hx
      | closing | down | removing | removed | unregistering | destroyed | farewell | parting
      | parted => exact absurd (List.mem_singleton.1 h.state) hw
    · rw [isWriting, show k.tcp.channel.events = kNoneEvent from hev] at hw
      cases hw

theorem Inv.steady (h : Inv name st s) (hinj : Injective name)
    (hl : l = (s.conns c).loop) (hs : (st c).started = true)
    (hstd : TcpConnection.Steady (s.conns c).tcp tcp es)
    (hevs : evs.filter (fun e => !e.isHandler) = []) :
    Sound name (s.call l c evs (.ok (tcp, es))) := by
  have ho := h.own c
  have hpend : Pending name s c (st c) (es.filterMap (Work.ofEffect c)) := by
    rw [works_settled hstd.settled]
    exact ⟨fun m => by rw [ho.works]; simp, ho.functors, ho.mapped, ho.fits⟩
  have hstate : tcp.state ∈ (st c).states := by rw [hstd.state]; exact ho.data.state
  have hscript : (st c).script (s.conns c).loop =
      (st c).script (s.conns c).loop ++ evs.filter fun e => !e.isHandler := by
    rw [hevs, List.append_nil]
  rcases hstd.channel with ⟨hch, hup⟩ | ⟨hup, hch⟩
  · refine (h.around hinj c).call_same hl hup hch (.refl _) ?_ hpend (h.ground.stays c)
    exact ho.data.advance hscript (by rw [if_pos hs]; exact hs) hstate
      (by rw [hch]; exact ho.data.events)
  · obtain ⟨i, hi, hwr, hch⟩ : ∃ i, (i = .enableWriting ∨ i = .disableWriting) ∧
        ((s.conns c).tcp.state ≠ .kDisconnected ∨
          (s.conns c).tcp.channel.isWriting = true) ∧
        tcp.channel = (s.conns c).tcp.channel.interest i := by
      rcases hch with ⟨hd, hch⟩ | ⟨hw, hch⟩
      · exact ⟨_, Or.inl rfl, Or.inl hd, hch⟩
      · exact ⟨_, Or.inr rfl, Or.inr hw, hch⟩
    have hw := ho.data.watched_of_writing hs hwr
    have hev := ho.data.events
    rw [hw, if_pos rfl] at hev
    have hlife := Stage.registered_of_watched hw
    refine (h.around hinj c).call_update hl hup (Stage.registered_inv hlife).2.1 (by rw [hch]; rfl)
      (by rw [hch]; rfl)
      (Or.inr ⟨_, hlife _, ho.data.events_ne hw⟩) hlife ?_ hpend Iff.rfl (h.ground.stays c)
    refine ho.data.advance hscript (by rw [if_pos hs]; exact hs) hstate ?_
    rw [hw, if_pos rfl, hch]
    exact watched_interest hev hi

/-! ## `connectDestroyed` -/

/-- Nothing else is under way for `c`. -/
structure Bare (s : TcpServer) (c : ConnId) : Prop where
  works : ∀ m, s.worksOf m c = []
  functors : ∀ m, s.functorsOf m c = []

theorem Around.connectDestroyed_removed (h : Around name st s c) (hst : st c = .removed)
    (hl : l = (s.conns c).loop) (hphase : (s.loops l).it.phase = .functors)
    (hdata : Stage.removed.Data (s.conns c)) (hmap : s.connections (name c) = none)
    (hb : Bare s c) : Sound name (s.connectDestroyed l c) := by
  subst hl
  have hev : (s.conns c).tcp.channel.events = kNoneEvent := hdata.events
  have hstate : (s.conns c).tcp.state = .kDisconnected := List.mem_singleton.1 hdata.state
  have hpend : Pending name s c .unregistering [.removeChannel c] :=
    ⟨fun m => by simp [hb.works, Stage.works], hb.functors, hmap, trivial⟩
  rw [TcpServer.connectDestroyed, TcpConnection.connectDestroyed, if_neg (by simp [hstate])]
  refine h.call_same rfl (by simp) rfl (hst ▸ .registered (fun _ => rfl) fun _ => rfl) ?_ hpend
    ⟨fun _ => rfl, by simp [hst], fun _ hp => ?_⟩
  · refine hdata.advance ?_ rfl hdata.state hdata.events
    simp [isNoneEvent, hev, hphase, Stage.script, usual, Event.isHandler]
  · rw [hphase] at hp
    cases hp

theorem Around.connectDestroyed_opened (h : Around name st s c) {d : Doom}
    (hst : st c = .opened d) (hd : d ≠ .spared) (hl : l = (s.conns c).loop)
    (hrel : (s.loops (s.conns c).loop).it.Releases c)
    (hdata : (Stage.opened d).Data (s.conns c)) (hmap : s.connections (name c) = some c)
    (hdes : s.destroyed = true) (hb : Bare s c) : Sound name (s.connectDestroyed l c) := by
  have hstate : (s.conns c).tcp.state = .kConnected := by
    cases d with
    | spared => exact absurd rfl hd
    | listed | condemned => exact List.mem_singleton.1 hdata.state
  have hne := hdata.events_ne rfl
  set b := decide ((s.loops l).it.phase = .handling) with hb'
  have hpend : Pending name s c (.farewell b) [.connectionCallback c, .removeChannel c] :=
    ⟨fun m => by simp [hb.works, Stage.works], hb.functors, hmap, hdes⟩
  rw [TcpServer.connectDestroyed, TcpConnection.connectDestroyed, if_pos hstate]
  refine h.call_update hl (by simp) (by rw [hst]; rfl) rfl rfl (Or.inr ⟨_, by rw [hst]; rfl, hne⟩)
    (fun _ => rfl) ?_ hpend (by simp [hst]) ⟨fun _ => rfl, by simp [hdes], fun _ => hrel⟩
  refine hdata.advance ?_ rfl (List.mem_singleton_self _) rfl
  simp [isNoneEvent, hne, hl, hb', Stage.script, usual, cutShort, Event.isHandler]

/-- `Channel::remove` takes a connection of loop `own` from stage `x` to stage `y`. -/
structure Stage.Ends (c : ConnId) (own : LoopId) (x y : Stage) : Prop where
  live : x.live = true
  life : ∀ e, x.life e = .registered e
  leaving : x.leaving own = true
  started : x.started = true
  unwatched : x.watched = false
  works : ∀ m, y.works c own m = []
  functors : ∀ m, y.functors c own m = []
  mapped : y.mapped = x.mapped
  stays : y.leaving own = false
  started' : y.started = true
  unwatched' : y.watched = false
  removed : ∀ e, y.life e = .removed
  script : y.script own = x.script own ++ [.channelRemoved]
  states : y.states = x.states

theorem Stage.ends_unregistering (c : ConnId) (own : LoopId) :
    Stage.Ends c own .unregistering .destroyed := by
  constructor <;> intros <;> rfl

theorem Stage.ends_parting (c : ConnId) (own : LoopId) (b : Bool) :
    Stage.Ends c own (.parting b) (.parted b) := by
  constructor <;> intros <;> rfl

theorem Around.removeChannel (h : Around name st s c) {y : Stage}
    (hx : Stage.Ends c (s.conns c).loop (st c) y) (hl : l = (s.conns c).loop)
    (hdata : (st c).Data (s.conns c))
    (hmap : s.connections (name c) = if (st c).mapped then some c else none)
    (hfits : y.Fits (s.conns c).loop s.destroyed) (hb : Bare s c) :
    Sound name (s.removeChannel l c) := by
  subst hl
  have hev : (s.conns c).tcp.channel.events = kNoneEvent := by
    simpa [hx.unwatched] using hdata.events
  have hold := h.ground.reg.holds c hx.live
  rw [hx.life, hev] at hold
  obtain ⟨p, hp, hnew, hoff⟩ := removeChannel_holds hold hev
  have hrel : (s.loops (s.conns c).loop).it.phase = .handling →
      (s.loops (s.conns c).loop).it.currentActiveChannel = some c ∨
        c ∉ (s.loops (s.conns c).loop).it.activeChannels := fun hph =>
    or_iff_not_imp_right.2 fun hc => h.ground.releases c hx.leaving hph (not_not.1 hc)
  have heq : s.removeChannel (s.conns c).loop c = .ok ((s.note c [.channelRemoved]).settle c
      { (s.conns c).tcp with channel := { (s.conns c).tcp.channel with index := kNew } } p []) := by
    have hnone : (s.conns c).tcp.channel.isNoneEvent = true := by simp [isNoneEvent, hev]
    dsimp only [TcpServer.removeChannel]
    rw [ensure_pos hnone, ok_bind, ensure_pos rfl, ok_bind, ensure_pos hrel, ok_bind, hp]
    rfl
  have hborn : st c = .unborn ↔ y = .unborn := by
    constructor <;> intro hu
    · have := hx.started; rw [hu] at this; cases this
    · have := hx.started'; rw [hu] at this; cases this
  have hpend : Pending name s c y [] :=
    ⟨fun m => by simp [hb.works, hx.works], fun m => by rw [hb.functors, hx.functors],
      by rw [hx.mapped]; exact hmap, hfits⟩
  rw [heq]
  refine ⟨_, h.settle rfl hoff (fun s' ht hc hpoll => h.ground.reg.step ht hx.live ?_) ?_ hpend
    hborn ⟨fun _ => hx.started', fun _ hopen => ?_, by simp [hx.stays]⟩⟩
  · unfold PolledAs
    rw [hc, hpoll, hx.removed]
    exact hnew
  · have hadv : y.Data ⟨(s.conns c).loop, (s.conns c).tcp,
        (s.conns c).history ++ [.channelRemoved]⟩ := by
      refine hdata.advance hx.script ?_ ?_ ?_
      · simp [hx.started, hx.started']
      · rw [hx.states]; exact hdata.state
      · simpa [hx.unwatched'] using hev
    exact hadv.reindex _
  · have := hx.unwatched; rw [hopen] at this; cases this

/-! ## `removeConnection` -/

theorem queueInLoop_poller (s : TcpServer) (l m : LoopId) (f : Functor) :
    ((s.queueInLoop l f).loops m).poller = (s.loops m).poller := by
  by_cases hm : m = l <;> simp [queueInLoop, hm]

theorem popWork_poller (s : TcpServer) (l m : LoopId) :
    ((s.popWork l).loops m).poller = (s.loops m).poller := by
  by_cases hm : m = l <;> simp [popWork, hm]

theorem popFunctor_poller (s : TcpServer) (l m : LoopId) :
    ((s.popFunctor l).loops m).poller = (s.loops m).poller := by
  by_cases hm : m = l <;> simp [popFunctor, hm]

/-- Only the functors of `send` and `shutdown` have a client. -/
theorem client_queueInLoop {f g : Functor} {m : LoopId}
    (hg : g ∈ ((s.queueInLoop l f).loops m).queue) (hc : g.client = some c)
    (hf : f.client = none) : g ∈ (s.loops m).queue := by
  by_cases hm : m = l
  · subst hm
    simp only [queueInLoop, setLoop_loops, if_pos, Loop.queue, ← List.append_assoc,
      List.mem_append, List.mem_singleton] at hg
    rcases hg with hg | rfl
    · exact List.mem_append.2 hg
    · rw [hf] at hc; cases hc
  · simpa [queueInLoop, hm] using hg

theorem Around.removeConnectionInLoop (h : Around name st s c)
    (hst : st c = .removing ∨ st c = .down) (hdes : s.destroyed = false)
    (hmap : s.connections (name c) = some c) (hdata : Stage.removing.Data (s.conns c))
    (hb : Bare s c) : Sound name (removeConnectionInLoop name s 0 c) := by
  have hn : eraseCount name s c = 1 := by simp [eraseCount, hmap]
  have heq : TcpServer.removeConnectionInLoop name s 0 c = .ok (erased name s c) := by
    rw [TcpServer.removeConnectionInLoop, ensure_pos hdes, ok_bind, ensure_pos rfl, ok_bind,
      ensure_pos hn, ok_bind]
  have ht : Touches name s (erased name s c) c := by
    refine Touches.erase.trans ((Touches.note _).trans (Touches.queueInLoop ?_ ?_))
    · exact fun d hd => (Option.some.inj hd).symm
    · nofun
  have hconn : (erased name s c).conns c =
      { s.conns c with history := (s.conns c).history ++ [.removeConnectionInLoop 1] } := by
    simp [erased, queueInLoop, note, hn]
  rw [heq]
  refine ⟨_, h.move (x := .removed) ht (fun m => queueInLoop_poller ..) (by rw [hconn]) ?_
    ⟨fun _ => rfl, ?_, nofun⟩ (fun m f hf hc => Or.inl (client_queueInLoop hf hc rfl)) ?_⟩
  · rcases hst with hst | hst <;> rw [hst] <;> exact .registered (fun _ => rfl) fun _ => rfl
  · rcases hst with hst | hst <;> simp [hst]
  · refine ⟨?_, fun m => ?_, fun m => ?_, update_self .., trivial⟩
    · rw [hconn]
      exact hdata.advance rfl rfl hdata.state hdata.events
    · rw [erased, worksOf_queueInLoop, worksOf_note]
      exact hb.works m
    · rw [hconn, erased, functorsOf_queueInLoop m rfl, functorsOf_note]
      exact (congrArg (· ++ _) (hb.functors m)).trans (List.nil_append _)

/-- A functor that moves `c` on to stage `x` is queued in loop `l`. -/
theorem Around.queue (h : Around name st s c) {x : Stage} {f : Functor} (hf : f.subject = some c)
    (hfc : f.client = none) (hdata : x.Data (s.conns c))
    (hw : ∀ m, s.worksOf m c = x.works c (s.conns c).loop m)
    (hfs : ∀ m, s.functorsOf m c ++ (if m = l then [f] else []) =
      x.functors c (s.conns c).loop m)
    (hmap : s.connections (name c) = if x.mapped then some c else none)
    (hfits : x.Fits (s.conns c).loop s.destroyed) (ha : Stage.Alike (st c) x)
    (hm : Moves st s c x) : Sound name (.ok (s.queueInLoop l f)) := by
  have ht : Touches name s (s.queueInLoop l f) c :=
    Touches.queueInLoop (fun d hd => Option.some.inj (hd.symm.trans hf)) (by simp [hfc])
  refine ⟨_, h.move ht (fun m => queueInLoop_poller ..) rfl ha hm
    (fun m g hg hc => Or.inl (client_queueInLoop hg hc hfc))
    ⟨hdata, fun m => ?_, fun m => ?_, hmap, hfits⟩⟩
  · rw [worksOf_queueInLoop]; exact hw m
  · rw [functorsOf_queueInLoop m hf]; exact hfs m

/-! ## Functors -/

/-- `c` has handled the first functor of loop `l`. -/
theorem Inv.popFunctor (h : Inv name st s) (hinj : Injective name) {f : Functor}
    {fs : List Functor} (hf : (s.loops l).functors = f :: fs)
    (hc : ∀ d, f.subject = some d → d = c) : Around name st (s.popFunctor l) c := by
  refine (h.around hinj c).touch (Touches.popFunctor hf hc) (fun m => popFunctor_poller ..) rfl
    fun m g hg _ => ?_
  by_cases hm : m = l
  · subst hm
    simp only [TcpServer.popFunctor, setLoop_loops, if_pos, Loop.queue, hf, List.tail_cons]
      at hg ⊢
    exact List.mem_cons_of_mem _ hg
  · simpa [TcpServer.popFunctor, hm] using hg

/-- A functor of the user leaves the stages alone. -/
theorem Inv.popFunctor_idle (h : Inv name st s) (hinj : Injective name) {f : Functor}
    {fs : List Functor} (hf : (s.loops l).functors = f :: fs) (hc : f.subject = none) :
    Inv name st (s.popFunctor l) := by
  refine (h.popFunctor hinj (c := 0) hf (by simp [hc])).inv ?_
  refine (h.own 0).congr rfl (fun m => worksOf_popFunctor ..) (fun m => ?_) rfl rfl
  by_cases hm : m = l
  · subst hm; simp [TcpServer.popFunctor, functorsOf, Loop.queue, hf, hc]
  · simp [TcpServer.popFunctor, functorsOf, hm]

theorem Inv.call_steady (h : Inv name st s) (hinj : Injective name)
    (hl : l = (s.conns c).loop) (hs : (st c).started = true) {r : TcpConnection.Result}
    (hok : ∀ tcp es, r = .ok (tcp, es) → TcpConnection.Steady (s.conns c).tcp tcp es)
    (herr : ∀ e, r = .error e → e.ofBytes = true)
    (hevs : evs.filter (fun e => !e.isHandler) = []) : Sound name (s.call l c evs r) := by
  cases r with
  | ok r => exact h.steady hinj hl hs (hok _ _ rfl) hevs
  | error e =>
    rw [TcpServer.call, ensure_pos hl, ok_bind]
    exact herr e rfl

theorem Inv.sendInLoop (h : Inv name st s) (hinj : Injective name)
    (hl : l = (s.conns c).loop) (hs : (st c).started = true) (data : List Byte)
    (w : TcpConnection.Write) : Sound name (s.sendInLoop l c data w) :=
  h.call_steady hinj hl hs (fun _ _ => TcpConnection.sendInLoop_steady)
    (fun _ => TcpConnection.sendInLoop_error) rfl

theorem Inv.shutdownInLoop (h : Inv name st s) (hinj : Injective name)
    (hl : l = (s.conns c).loop) (hs : (st c).started = true) :
    Sound name (s.shutdownInLoop l c) := by
  refine h.call_steady hinj hl hs (fun tcp es heq => ?_) (fun _ he => by cases he) rfl
  cases heq
  exact TcpConnection.shutdownInLoop_steady _

theorem Inv.functor (h : Inv name st s) (hinj : Injective name)
    (hphase : (s.loops l).it.phase = .functors) (hwork : (s.loops l).work = []) {f : Functor}
    {fs : List Functor} (hf : (s.loops l).functors = f :: fs) (w : TcpConnection.Write) :
    Sound name (runFunctor name (s.popFunctor l) l w f) := by
  have hmem : f ∈ (s.loops l).queue := by simp [Loop.queue, hf]
  -- what is left for the connection whose functor it was
  have hpop : ∀ c m, f.subject = some c → (if m = l then [f] else []) ++
      (s.popFunctor l).functorsOf m c = (st c).functors c (s.conns c).loop m := by
    intro c m hc
    rw [← (h.own c).functors, functorsOf_popFunctor m hf hc]
  have hhead : ∀ c, f.subject = some c → (st c).functors c (s.conns c).loop l =
      f :: (s.popFunctor l).functorsOf l c := by
    intro c hc
    rw [← hpop c l hc, if_pos rfl]
    rfl
  have hworks : ∀ c m, (s.popFunctor l).worksOf m c = (st c).works c (s.conns c).loop m :=
    fun c m => by rw [worksOf_popFunctor, (h.own c).works]
  have hbare : ∀ c, f.subject = some c → (∀ m, (st c).works c (s.conns c).loop m = []) →
      (∀ m, (st c).functors c (s.conns c).loop m = if m = l then [f] else []) →
      Bare (s.popFunctor l) c := by
    intro c hc hws hfs
    refine ⟨fun m => (hworks c m).trans (hws m), fun m => ?_⟩
    exact List.append_cancel_left (((hpop c m hc).trans (hfs m)).trans (List.append_nil _).symm)
  have haround : ∀ c, f.subject = some c → Around name st (s.popFunctor l) c := fun c hc =>
    h.popFunctor hinj hf fun d hd => Option.some.inj (hd.symm.trans hc)
  cases f with
  | connectEstablished c =>
    have ho := h.own c
    obtain ⟨d, hst, rfl, -⟩ | ⟨-, -, ⟨⟩⟩ | ⟨-, -, ⟨⟩⟩ := Stage.functors_cons (hhead c rfl)
    rw [hst] at ho
    refine (haround c rfl).connectEstablished hst rfl ho.data (fun m => ?_) (fun m => ?_)
      ho.mapped ⟨fun _ => ho.fits.1, ho.fits.2⟩
    · rw [hworks, hst]; rfl
    · have := hpop c m rfl
      rw [hst] at this
      exact List.append_cancel_left this
  | removeConnectionInLoop c =>
    have ho := h.own c
    obtain ⟨d, -, -, ⟨⟩⟩ | ⟨hst, rfl, -⟩ | ⟨-, -, ⟨⟩⟩ := Stage.functors_cons (hhead c rfl)
    rw [hst] at ho
    exact (haround c rfl).removeConnectionInLoop (Or.inl hst) ho.fits ho.mapped ho.data
      (hbare c rfl (fun _ => by rw [hst]; rfl) fun _ => by rw [hst]; rfl)
  | connectDestroyed c =>
    have ho := h.own c
    obtain ⟨d, -, -, ⟨⟩⟩ | ⟨-, -, ⟨⟩⟩ | ⟨hx, hl, -⟩ := Stage.functors_cons (hhead c rfl)
    have hphase' : ((s.popFunctor l).loops l).it.phase = .functors := by
      simpa [TcpServer.popFunctor] using hphase
    rcases hx with hst | hst | hst
    · rw [hst] at ho
      exact (haround c rfl).connectDestroyed_removed hst hl hphase' ho.data ho.mapped
        (hbare c rfl (fun _ => by rw [hst]; rfl) fun _ => by rw [hst, hl]; rfl)
    · -- the connection callback comes before the next functor
      have hnil := (h.own c).works l
      rw [worksOf, hwork, hst] at hnil
      simp [Stage.works, Doom.works, hl] at hnil
    · rw [hst] at ho
      refine (haround c rfl).connectDestroyed_opened hst (fun hx => by cases hx) hl (fun hp => ?_)
        ho.data ho.mapped (ho.fits.2.2 fun hx => by cases hx)
        (hbare c rfl (fun _ => by rw [hst]; rfl) fun _ => by rw [hst, hl]; rfl)
      rw [show ((s.popFunctor l).conns c).loop = l from hl.symm, hphase'] at hp
      cases hp
  | sendInLoop c data =>
    obtain ⟨hs, hl⟩ := h.ground.clients l _ hmem c rfl
    exact (h.popFunctor_idle hinj hf rfl).sendInLoop hinj hl.symm hs data w
  | shutdownInLoop c =>
    obtain ⟨hs, hl⟩ := h.ground.clients l _ hmem c rfl
    exact (h.popFunctor_idle hinj hf rfl).shutdownInLoop hinj hl.symm hs
  | callback c f => exact ⟨_, h.popFunctor_idle hinj hf rfl⟩

/-! ## Work -/

/-- What is left for the connection whose work thread `l` takes up. -/
structure PoppedWork (st : ConnId → Stage) (s : TcpServer) (l : LoopId) (c : ConnId) (w : Work) :
    Prop where
  works : ∀ m, (if m = l then [w] else []) ++ (s.popWork l).worksOf m c =
    (st c).works c (s.conns c).loop m
  head : (st c).works c (s.conns c).loop l = w :: (s.popWork l).worksOf l c
  functors : ∀ m, (s.popWork l).functorsOf m c = (st c).functors c (s.conns c).loop m

theorem Inv.popWork (h : Inv name st s) (hinj : Injective name) {w : Work}
    {ws : List Work} (hw : (s.loops l).work = w :: ws) (hc : w.conn = c) :
    Around name st (s.popWork l) c ∧ PoppedWork st s l c w := by
  have hworks : ∀ m, (if m = l then [w] else []) ++ (s.popWork l).worksOf m c =
      (st c).works c (s.conns c).loop m := fun m => by
    rw [← (h.own c).works, worksOf_popWork m hw hc]
  refine ⟨(h.around hinj c).touch (Touches.popWork hw hc) (fun m => popWork_poller ..) rfl
    fun m g hg _ => ?_, hworks, ?_, fun m => ?_⟩
  · by_cases hm : m = l <;> simpa [TcpServer.popWork, Loop.queue, hm] using hg
  · rw [← hworks, if_pos rfl]
    rfl
  · rw [functorsOf_popWork, (h.own c).functors]

namespace PoppedWork

variable {w : Work}

theorem pending (h : PoppedWork st s l c w) {x : Stage}
    (hw : ∀ m, (st c).works c (s.conns c).loop m =
      (if m = l then [w] else []) ++ x.works c (s.conns c).loop m)
    (hf : ∀ m, x.functors c (s.conns c).loop m = (st c).functors c (s.conns c).loop m)
    (hmap : s.connections (name c) = if x.mapped then some c else none)
    (hfits : x.Fits (s.conns c).loop s.destroyed) : Pending name (s.popWork l) c x [] where
  works m := by
    rw [ite_self, List.nil_append]
    exact List.append_cancel_left ((h.works m).trans (hw m))
  functors m := (h.functors m).trans (hf m).symm
  mapped := hmap
  fits := hfits

theorem bare (h : PoppedWork st s l c w)
    (hw : ∀ m, (st c).works c (s.conns c).loop m = if m = l then [w] else [])
    (hf : ∀ m, (st c).functors c (s.conns c).loop m = []) : Bare (s.popWork l) c where
  works m := List.append_cancel_left (((h.works m).trans (hw m)).trans (List.append_nil _).symm)
  functors m := (h.functors m).trans (hf m)

end PoppedWork

/-- The connection callback takes a connection of loop `own` from stage `x` to stage `y`; `up` is
what it reports. -/
structure Stage.Calls (c : ConnId) (own : LoopId) (x y : Stage) (up : Bool) : Prop where
  alike : Stage.Alike x y
  started : x.started = true
  watched : y.watched = x.watched
  closed : x ≠ .opened .spared
  leaving : y.leaving own = true → x.leaving own = true
  mapped : y.mapped = x.mapped
  works : ∀ m, x.works c own m =
    (if m = own then [.connectionCallback c] else []) ++ y.works c own m
  functors : ∀ m, y.functors c own m = x.functors c own m
  fits : ∀ b, x.Fits own b → y.Fits own b
  script : y.script own = x.script own ++ [.connectionCallback up]
  states : ∀ q ∈ x.states, q ∈ y.states ∧ decide (q = .kConnected) = up

theorem Stage.calls_established (c : ConnId) {own : LoopId} {d : Doom}
    (h : d ≠ .spared → own ≠ 0) : Stage.Calls c own (.established d) (.opened d) true where
  alike := .registered (fun _ => rfl) fun _ => rfl
  started := rfl
  watched := rfl
  closed := nofun
  leaving hle := by
    cases d with
    | spared | condemned => cases hle
    | listed => exact absurd (by simpa [Stage.leaving] using hle) (h nofun)
  mapped := rfl
  works m := by
    by_cases hm : m = own
    · simp [Stage.works, hm, Doom.works_own h]
    · simp [Stage.works, hm]
  functors _ := rfl
  fits _ hf := ⟨fun hd => hf.1 (by simp [hd]), hf.2⟩
  script := rfl
  states q hq := by
    obtain rfl := List.mem_singleton.1 hq
    cases d <;> simp [Stage.states]

theorem Stage.calls_closing (c : ConnId) (own : LoopId) :
    Stage.Calls c own .closing .down false where
  alike := .registered (fun _ => rfl) fun _ => rfl
  started := rfl
  watched := rfl
  closed := nofun
  leaving := nofun
  mapped := rfl
  works m := by by_cases hm : m = own <;> simp [Stage.works, hm]
  functors _ := rfl
  fits _ := id
  script := rfl
  states q hq := ⟨hq, by rw [List.mem_singleton.1 hq]; rfl⟩

theorem Stage.calls_farewell (c : ConnId) (own : LoopId) (b : Bool) :
    Stage.Calls c own (.farewell b) (.parting b) false where
  alike := .registered (fun _ => rfl) fun _ => rfl
  started := rfl
  watched := rfl
  closed := nofun
  leaving := id
  mapped := rfl
  works m := by by_cases hm : m = own <;> simp [Stage.works, hm]
  functors _ := rfl
  fits _ := id
  script := rfl
  states q hq := ⟨hq, by rw [List.mem_singleton.1 hq]; rfl⟩

theorem Inv.connectionCallback (h : Inv name st s) (hinj : Injective name)
    {ws : List Work} (hw : (s.loops l).work = .connectionCallback c :: ws) :
    Sound name (runWork name (s.popWork l) l (.connectionCallback c)) := by
  obtain ⟨ha, hpop⟩ := h.popWork hinj (c := c) hw rfl
  have ho := h.own c
  obtain ⟨hx, rfl, -⟩ | ⟨-, -, ⟨⟩⟩ | ⟨-, -, ⟨⟩⟩ | ⟨-, -, ⟨⟩⟩ := Stage.works_cons hpop.head
  obtain ⟨y, up, hy⟩ : ∃ y up, Stage.Calls c (s.conns c).loop (st c) y up := by
    have hfits := ho.fits
    rcases hx with ⟨d, hst⟩ | hst | ⟨b, hst⟩ <;> rw [hst] at hfits ⊢
    · exact ⟨_, _, Stage.calls_established c hfits.1⟩
    · exact ⟨_, _, Stage.calls_closing c _⟩
    · exact ⟨_, _, Stage.calls_farewell c _ b⟩
  obtain ⟨hstate, rfl⟩ := hy.states _ ho.data.state
  have hpend : Pending name (s.popWork (s.conns c).loop) c y [] :=
    hpop.pending hy.works hy.functors (by rw [hy.mapped]; exact ho.mapped) (hy.fits _ ho.fits)
  set s₁ := s.popWork (s.conns c).loop
  set e := Event.connectionCallback ((s₁.conns c).tcp.state = .kConnected)
  have hconn : (s₁.note c [e]).conns c =
      { s₁.conns c with history := (s₁.conns c).history ++ [e] } := by simp [note]
  have hm : Moves st s₁ c y :=
    ⟨fun _ => hy.alike.started.trans hy.started, fun _ hopen => absurd hopen hy.closed,
      fun hle => ha.ground.releases c (hy.leaving hle)⟩
  refine ⟨_, ha.move (Touches.note _) (fun _ => rfl) (by rw [hconn]) hy.alike hm
    (fun m f hf _ => Or.inl hf) ⟨?_, fun m => ?_, fun m => ?_, hpend.mapped, ?_⟩⟩ <;> rw [hconn]
  · refine ho.data.advance hy.script ?_ hstate (by rw [hy.watched]; exact ho.data.events)
    rw [if_pos hy.started]
    exact hm.started hy.started
  · rw [worksOf_note]
    simpa using hpend.works m
  · rw [functorsOf_note]
    exact hpend.functors m
  · exact hpend.fits

theorem Inv.closeCallback (h : Inv name st s) (hinj : Injective name)
    {ws : List Work} (hw : (s.loops l).work = .closeCallback c :: ws) :
    Sound name (runWork name (s.popWork l) l (.closeCallback c)) := by
  obtain ⟨ha, hpop⟩ := h.popWork hinj (c := c) hw rfl
  have ho := h.own c
  obtain ⟨-, -, ⟨⟩⟩ | ⟨hst, rfl, -⟩ | ⟨-, -, ⟨⟩⟩ | ⟨-, -, ⟨⟩⟩ := Stage.works_cons hpop.head
  have hb := hpop.bare (fun _ => by rw [hst]; rfl) fun _ => by rw [hst]; rfl
  rw [hst] at ho
  have hdata : Stage.removing.Data (s.conns c) :=
    ⟨ho.data.script, ho.data.first, ho.data.state, ho.data.events⟩
  have hdes : (s.popWork (s.conns c).loop).destroyed = false := ho.fits
  rw [runWork, removeConnection, ensure_pos hdes, ok_bind, runInLoop]
  by_cases hl : (s.conns c).loop = 0
  · rw [if_pos hl, show removeConnectionInLoop name _ (s.conns c).loop c =
      removeConnectionInLoop name (s.popWork (s.conns c).loop) 0 c by rw [hl]]
    exact ha.removeConnectionInLoop (Or.inr hst) ho.fits ho.mapped hdata hb
  · rw [if_neg hl]
    refine ha.queue (x := .removing) rfl rfl hdata hb.works (fun m => ?_) ho.mapped ho.fits
      (hst ▸ .registered (fun _ => rfl) fun _ => rfl) ⟨fun _ => rfl, by simp [hst], nofun⟩
    rw [hb.functors]
    rfl

theorem Inv.removeChannel (h : Inv name st s) (hinj : Injective name)
    {ws : List Work} (hw : (s.loops l).work = .removeChannel c :: ws) :
    Sound name (runWork name (s.popWork l) l (.removeChannel c)) := by
  obtain ⟨ha, hpop⟩ := h.popWork hinj (c := c) hw rfl
  have ho := h.own c
  obtain ⟨-, -, ⟨⟩⟩ | ⟨-, -, ⟨⟩⟩ | ⟨hx, rfl, -⟩ | ⟨-, -, ⟨⟩⟩ := Stage.works_cons hpop.head
  have hb : Bare (s.popWork (s.conns c).loop) c := by
    rcases hx with hst | ⟨b, hst⟩ <;>
      exact hpop.bare (fun _ => by rw [hst]; rfl) fun _ => by rw [hst]; rfl
  rcases hx with hst | ⟨b, hst⟩
  · exact ha.removeChannel (y := .destroyed) (by rw [hst]; exact Stage.ends_unregistering c _) rfl
      ho.data ho.mapped trivial hb
  · have hfits := ho.fits
    rw [hst] at hfits
    exact ha.removeChannel (y := .parted b) (by rw [hst]; exact Stage.ends_parting c _ b) rfl
      ho.data ho.mapped hfits hb

/-- `~TcpServer` queues `connectDestroyed` for a connection of loop `own` in stage `x`, which takes
it to stage `y`. -/
structure Stage.Condemns (c : ConnId) (own : LoopId) (x y : Stage) : Prop where
  alike : Stage.Alike x y
  closed : x ≠ .opened .spared
  stays : y.leaving own = false
  mapped : y.mapped = x.mapped
  data : ∀ k, x.Data k → y.Data k
  works : ∀ m, x.works c own m = (if m = 0 then [.destroyConn c] else []) ++ y.works c own m
  functors : ∀ m, y.functors c own m =
    x.functors c own m ++ if m = own then [.connectDestroyed c] else []
  fits : own ≠ 0 → y.Fits own true

theorem Stage.condemns {x : Stage} (c : ConnId) (own : LoopId)
    (h : x = .accepted .listed ∨ x = .established .listed ∨ x = .opened .listed) :
    ∃ y, Stage.Condemns c own x y := by
  rcases h with rfl | rfl | rfl
  · refine ⟨.accepted .condemned, ⟨by simp, rfl, rfl, fun _ => rfl⟩, (fun hx => by cases hx), rfl,
      rfl, fun k hk => ⟨hk.script, hk.first, hk.state, hk.events⟩, fun m => ?_, fun m => ?_,
      fun hne => ⟨hne, by simp⟩⟩
    · simp [Stage.works, Doom.works]
    · simp [Stage.functors, Doom.functors]
  · refine ⟨.established .condemned, .registered (fun _ => rfl) fun _ => rfl,
      (fun hx => by cases hx), rfl, rfl, fun k hk => ⟨hk.script, hk.first, hk.state, hk.events⟩,
      fun m => ?_, fun m => ?_,
      fun hne => ⟨fun _ => hne, by simp⟩⟩
    · simp [Stage.works, Doom.works]
    · simp [Stage.functors, Doom.functors]
  · refine ⟨.opened .condemned, .registered (fun _ => rfl) fun _ => rfl, (fun hx => by cases hx),
      rfl, rfl, fun k hk => ⟨hk.script, hk.first, hk.state, hk.events⟩, fun m => ?_, fun m => ?_,
      fun hne => ⟨fun _ => hne, by simp⟩⟩
    · simp [Stage.works, Doom.works]
    · simp [Stage.functors, Doom.functors]

theorem Inv.destroyConn (h : Inv name st s) (hinj : Injective name)
    {ws : List Work} (hw : (s.loops l).work = .destroyConn c :: ws) :
    Sound name (runWork name (s.popWork l) l (.destroyConn c)) := by
  obtain ⟨ha, hpop⟩ := h.popWork hinj (c := c) hw rfl
  have ho := h.own c
  obtain ⟨-, -, ⟨⟩⟩ | ⟨-, -, ⟨⟩⟩ | ⟨-, -, ⟨⟩⟩ | ⟨hx, rfl, -⟩ := Stage.works_cons hpop.head
  have hdes : s.destroyed = true := by
    have hfits := ho.fits
    rcases hx with hst | hst | hst <;> rw [hst] at hfits <;> exact hfits.2.2 nofun
  rw [runWork, runInLoop]
  by_cases hl : 0 = (s.conns c).loop
  · -- the connection is one of the base loop: `connectDestroyed` is called here
    rw [if_pos (show 0 = ((s.popWork 0).conns c).loop from hl)]
    have hst : st c = .opened .listed := by
      rcases hx with hst | hst | hst <;> rw [hst] at ho
      · exact absurd hl.symm ho.fits.1
      · exact absurd hl.symm (ho.fits.1 nofun)
      · exact hst
    have hb := hpop.bare (fun _ => by rw [hst]; rfl) fun _ => by rw [hst]; rfl
    rw [hst] at ho
    refine ha.connectDestroyed_opened hst nofun hl (ha.ground.releases c ?_) ho.data ho.mapped
      hdes hb
    rw [hst]
    simp [Stage.leaving, TcpServer.popWork, ← hl]
  · rw [if_neg (show 0 ≠ ((s.popWork 0).conns c).loop from hl)]
    obtain ⟨y, hy⟩ := Stage.condemns c (s.conns c).loop hx
    refine ha.queue (x := y) rfl rfl (hy.data _ ho.data) (fun m => ?_) (fun m => ?_) ?_ ?_ hy.alike
      ⟨fun hs => hy.alike.started.trans hs, fun _ hopen => absurd hopen hy.closed, fun hle => ?_⟩
    · exact List.append_cancel_left ((hpop.works m).trans (hy.works m))
    · rw [hpop.functors]
      exact (hy.functors m).symm
    · rw [hy.mapped]
      exact ho.mapped
    · rw [show (s.popWork 0).destroyed = true from hdes]
      exact hy.fits (Ne.symm hl)
    · cases hy.stays.symm.trans hle

end TcpServer
end TinyMuduo
