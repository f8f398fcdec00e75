import TinyMuduo.Server.Names
import TinyMuduo.Server.Steps

/-!
# Server.Lifecycle

Every step of a `TcpServer` keeps the invariant, and so every connection goes through its life in
order: `connection_lifecycle`. The steps after `~TcpServer` has begun keep it when they are
`Gentle`.
-/

namespace TinyMuduo
namespace TcpServer

open Channel Result EPollPoller Function

variable {name : ConnId → String} {st : ConnId → Stage} {s s' s'' : TcpServer} {c : ConnId}
  {l t : LoopId}

/-! ## Iterations -/

/-- What `epoll_wait` may report is an open connection of the loop. -/
theorem Inv.reported (h : Inv name st s) (hw : (s.loops l).work = [])
    (hk : ((s.loops l).poller.kernel (s.conns c).fd).map Prod.snd = some c) :
    (s.conns c).loop = l ∧ ∃ d, st c = .opened d := by
  obtain ⟨⟨e, c'⟩, hk, rfl⟩ := Option.map_eq_some_iff.1 hk
  obtain ⟨hlive, hs, rfl, -⟩ := h.ground.reg.known _ _ _ (h.ground.reg.listed _ _ _ _ hk)
  refine ⟨rfl, ?_⟩
  have ho := h.own c'
  have hold := h.ground.reg.holds c' hlive
  cases hst : st c' with
  | opened d => exact ⟨d, rfl⟩
  | unborn | accepted => rw [hst] at hs; cases hs
  | destroyed | parted => rw [hst] at hlive; cases hlive
  | established d =>
    have hnil := ho.works (s.conns c').loop
    rw [worksOf, hw, hst] at hnil
    simp [Stage.works] at hnil
  | closing | down | removing | removed | unregistering | farewell | parting =>
    rw [hst] at ho hold
    have hev : (s.conns c').tcp.channel.events = kNoneEvent := ho.data.events
    rw [hev] at hold
    cases hold.2.2.symm.trans hk

theorem Doom.eq_spared {d : Doom} (h : s.destroyed = true ↔ d ≠ .spared)
    (hdes : s.destroyed = false) : d = .spared := by
  by_contra hd
  cases hdes.symm.trans (h.2 hd)

theorem Inv.poll (h : Inv name st s) {active : List (ConnId × Events)}
    (he : Enabled name s (.poll l active)) : Sound name (exec name s (.poll l active)) := by
  obtain ⟨hph, hw, hnd, hk⟩ := he
  have hopen : ∀ c ∈ active.map Prod.fst, (s.conns c).loop = l ∧ ∃ d, st c = .opened d :=
    fun c hc => h.reported hw (hk c hc)
  refine ⟨st, h.iterate hw hw rfl rfl (fun _ => ?_) ⟨?_, ?_, List.nil_sublist _, nofun, ?_, nofun⟩⟩
  · exact h.ground.swapped l (by rw [hph]; nofun)
  · simpa [Iteration.upcoming] using hnd
  · intro c hc
    obtain ⟨hl, d, hst⟩ := hopen c (by simpa [Iteration.upcoming] using hc)
    exact ⟨hl, by rw [hst]; rfl⟩
  · intro hdes c hc
    obtain ⟨-, d, hst⟩ := hopen c hc
    have ho := h.own c
    rw [hst] at ho
    rw [hst, Doom.eq_spared ho.fits.2 hdes]

theorem Inv.dispatch (h : Inv name st s) (he : Enabled name s (.dispatch l)) :
    Sound name (exec name s (.dispatch l)) := by
  obtain ⟨hph, hw, -, hne⟩ := he
  have hit := h.ground.iter l
  obtain ⟨⟨c, revents⟩, rest, hwait⟩ := List.exists_cons_of_ne_nil hne
  have hsub : (c :: rest.map Prod.fst).Sublist (s.loops l).it.upcoming := by
    rw [Iteration.upcoming, hwait]
    exact List.sublist_append_right _ _
  refine ⟨st, h.iterate hw hw rfl rfl (fun _ => ?_) ?_⟩
  · exact h.ground.swapped l (by rw [hph]; nofun)
  · rw [dispatched, hwait]
    refine ⟨hit.nodup.sublist hsub, fun d hd => hit.mine d (hsub.subset hd), callbacks_sublist _,
      fun hc => decide_eq_true hc, fun hdes d hd => ?_, fun hdes d hd _ => ?_⟩
    · exact hit.waiting hdes d (by rw [hwait]; exact List.mem_cons_of_mem _ hd)
    · cases hd
      exact hit.waiting hdes c (by rw [hwait]; exact List.mem_cons_self)

/-- An iteration that turns away from its current channel. -/
theorem Iterating.leave {it it' : Iteration} (h : Iterating st s l it)
    (hcur : it'.currentActiveChannel = none) (hwait : it'.waiting = it.waiting)
    (hcb : it'.callbacks = it.callbacks) (hcl : it'.closes = it.closes) :
    Iterating st s l it' := by
  have hsub : it'.upcoming.Sublist it.upcoming := by
    rw [Iteration.upcoming, hcur, hwait]
    exact List.sublist_append_right _ _
  refine ⟨h.nodup.sublist hsub, fun c hc => h.mine c (hsub.subset hc), hcb ▸ h.order, ?_, ?_, ?_⟩
  · rw [hcb, hcl]; exact h.closes
  · rw [hwait]; exact h.waiting
  · intro _ c hc
    rw [hcur] at hc
    cases hc

theorem Inv.leaveChannel (h : Inv name st s) (hw : (s.loops l).work = []) :
    Inv name st (s.leaveChannel l) :=
  h.iterate hw hw rfl rfl (h.ground.swapped l) ((h.ground.iter l).leave rfl rfl rfl rfl)

theorem Inv.swap (h : Inv name st s) (he : Enabled name s (.swap l)) :
    Sound name (exec name s (.swap l)) := by
  obtain ⟨hph, hw, -⟩ := he
  refine ⟨st, h.iterate hw hw rfl ?_ (fun hne => absurd rfl hne)
    ((h.ground.iter l).leave rfl rfl rfl rfl)⟩
  have hnil := h.ground.swapped l (by rw [hph]; nofun)
  simp [Loop.queue, hnil]

theorem Inv.endFunctors (h : Inv name st s) (he : Enabled name s (.endFunctors l)) :
    Sound name (exec name s (.endFunctors l)) := by
  obtain ⟨-, hw, hnil⟩ := he
  have hit := h.ground.iter l
  exact ⟨st, h.iterate hw hw rfl rfl (fun _ => hnil)
    ⟨hit.nodup, hit.mine, hit.order, hit.closes, hit.waiting, hit.current⟩⟩

/-! ## Callbacks -/

/-- The current channel of a loop, once its dispatch can no longer close it. -/
theorem Inv.undispatched (h : Inv name st s)
    (hc : (s.loops l).it.currentActiveChannel = some c) (hno : ¬ (s.loops l).it.MayClose) :
    Undispatched s c := by
  have hup : c ∈ (s.loops l).it.upcoming := by simp [Iteration.upcoming, hc]
  have hl := ((h.ground.iter l).mine c hup).1
  intro m
  by_cases hm : m = l
  · subst hm
    have hnd := (h.ground.iter m).nodup
    rw [Iteration.upcoming, hc] at hnd
    exact ⟨(List.nodup_cons.1 hnd).1, fun _ => hno⟩
  · have hother : c ∉ (s.loops m).it.upcoming := fun hc' =>
      hm (((h.ground.iter m).mine c hc').1.symm.trans hl)
    refine ⟨fun hw => hother (List.mem_append_right _ hw), fun hcur => absurd ?_ hother⟩
    simp [Iteration.upcoming, hcur]

/-- What is asked of the steps of a run in which the server is destroyed: `~TcpServer` begins when
every connection is being set up or is up, and none that it will destroy on the spot is waiting to
be dispatched; after that no `shutdown()` takes effect and no connection is closed. -/
def Gentle (s : TcpServer) : Op → Prop
  | .destroy order => ∀ c ∈ order,
    ((s.conns c).tcp.state = .kConnecting ∨ (s.conns c).tcp.state = .kConnected) ∧
      ((s.conns c).loop = 0 → (s.loops 0).it.Releases c)
  | .shutdown _ c => s.destroyed = true → (s.conns c).tcp.state ≠ .kConnected
  | .callback l a => s.destroyed = true → (s.loops l).it.callbacks.head? ≠ some .close ∧
    ((s.loops l).it.callbacks.head? = some .read → a.read ≠ .bytes [])
  | _ => True

theorem Inv.handleRead (h : Inv name st s) (hinj : Injective name)
    (hl : l = (s.conns c).loop) (hs : (st c).started = true) {a : Answer}
    (hclose : a.read = .bytes [] → st c = .opened .spared ∧ Undispatched s c) :
    Sound name (s.handle l c a .read) := by
  by_cases hr : a.read = .bytes []
  · obtain ⟨hst, hu⟩ := hclose hr
    have ho := h.own c
    rw [hst] at ho
    have hstate :
        (s.conns c).tcp.state = .kConnected ∨ (s.conns c).tcp.state = .kDisconnecting := by
      simpa [Stage.states] using ho.data.state
    rw [handle, hr, if_pos rfl]
    cases hres : (s.conns c).tcp.inputBuffer.readFd (.bytes []) with
    | next b =>
      have heq : (s.conns c).tcp.handleRead (.bytes []) =
          TcpConnection.handleClose { (s.conns c).tcp with inputBuffer := b } := by
        rw [TcpConnection.handleRead, hres]
        rfl
      rw [heq]
      exact (h.around hinj c).close hst hl ho hu rfl rfl rfl
    | threw b | fault e =>
      have heq : ∃ e, (s.conns c).tcp.handleRead (.bytes []) = .error e := by
        rw [TcpConnection.handleRead, hres]
        exact ⟨_, rfl⟩
      obtain ⟨e, heq⟩ := heq
      rw [heq, TcpServer.call, ensure_pos hl, ok_bind]
      exact TcpConnection.handleRead_error (fun _ => hstate) heq
  · rw [handle, if_neg hr]
    exact h.call_steady hinj hl hs (fun _ _ => TcpConnection.handleRead_steady hr)
      (fun _ => TcpConnection.handleRead_error fun hr' => absurd hr' hr) rfl

theorem exec_callback {a : Answer} {cb : Callback} {rest : List Callback}
    (hcur : (s.loops l).it.currentActiveChannel = some c)
    (hcbs : (s.loops l).it.callbacks = cb :: rest) :
    exec name s (.callback l a) =
      (s.iterate l { (s.loops l).it with callbacks := rest }).handle l c a cb := by
  simp only [exec, hcur, hcbs]

/-- The read callback is the last one but the write callback. -/
theorem after_read {rest : List Callback}
    (h : (Callback.read :: rest).Sublist [.close, .error, .read, .write]) :
    rest.Sublist [.write] := by
  cases h with
  | cons _ h =>
    cases h with
    | cons _ h =>
      cases h with
      | cons_cons _ h => exact h
      | cons _ h =>
        cases h with
        | cons _ h => cases h

theorem Inv.callback (h : Inv name st s) (hinj : Injective name) {a : Answer}
    (he : Enabled name s (.callback l a)) (hg : Gentle s (.callback l a)) :
    Sound name (exec name s (.callback l a)) := by
  obtain ⟨hph, hw, hne, hread⟩ := he
  have hit := h.ground.iter l
  obtain ⟨cb, rest, hcbs⟩ := List.exists_cons_of_ne_nil hne
  cases hcur : (s.loops l).it.currentActiveChannel with
  | none =>
    simp only [exec, hcur]
    exact ⟨st, h⟩
  | some c =>
    rw [exec_callback hcur hcbs]
    obtain ⟨hl, hs⟩ := hit.mine c (by simp [Iteration.upcoming, hcur])
    set it' : Iteration := { (s.loops l).it with callbacks := rest }
    have horder : (cb :: rest).Sublist [.close, .error, .read, .write] := hcbs ▸ hit.order
    have hsub : ∀ {x}, x ∈ it'.callbacks → x ∈ (s.loops l).it.callbacks := fun hx => by
      rw [hcbs]; exact List.mem_cons_of_mem _ hx
    -- the callback is taken off the dispatch first
    have h₁ : Inv name st (s.iterate l it') := by
      refine h.iterate hw hw rfl rfl (fun _ => h.ground.swapped l (by rw [hph]; nofun))
        ⟨hit.nodup, hit.mine, (List.sublist_cons_self cb rest).trans horder,
          fun hm => hit.closes (hsub hm), hit.waiting, fun hdes d hd hm => hit.current hdes d hd ?_⟩
      exact hm.imp hsub fun hm => ⟨hsub hm.1, hm.2⟩
    have hopen : (s.loops l).it.MayClose → s.destroyed = false → ¬ it'.MayClose →
        st c = .opened .spared ∧ Undispatched (s.iterate l it') c := by
      intro hm hdes hno
      have hit₁ : ((s.iterate l it').loops l).it = it' := by simp [TcpServer.iterate]
      exact ⟨hit.current hdes c hcur hm,
        h₁.undispatched (by rw [hit₁]; exact hcur) (by rwa [hit₁])⟩
    rw [Gentle, hcbs] at hg
    cases cb with
    | close =>
      have hclose : Callback.close ∈ (s.loops l).it.callbacks := by
        rw [hcbs]; exact List.mem_cons_self
      obtain ⟨hst, hu⟩ := hopen (Or.inl hclose) (by simpa using hg) (by
        rintro (hm | ⟨-, hcl⟩)
        · exact absurd ((List.cons_sublist_cons.1 horder).subset hm) (by decide)
        · cases (hit.closes hclose).symm.trans hcl)
      have ho := h₁.own c
      rw [hst] at ho
      rw [handle]
      exact (h₁.around hinj c).close hst hl.symm ho hu rfl rfl rfl
    | error =>
      rw [handle]
      refine h₁.call_steady hinj hl.symm hs (fun tcp es heq => ?_) (fun _ he => by cases he) rfl
      cases heq
      exact ⟨rfl, nofun, Or.inl ⟨rfl, nofun⟩⟩
    | read =>
      refine h₁.handleRead hinj hl.symm hs fun hr => ?_
      refine hopen (Or.inr ⟨by rw [hcbs]; exact List.mem_cons_self, hread hr⟩)
        (by simpa [hr] using hg) ?_
      rintro (hm | ⟨hm, -⟩) <;> exact absurd ((after_read horder).subset hm) (by decide)
    | write =>
      rw [handle]
      exact h₁.call_steady hinj hl.symm hs (fun _ _ => TcpConnection.handleWrite_steady)
        (fun _ => TcpConnection.handleWrite_error) rfl

/-! ## User code -/

theorem Stage.Data.known {x : Stage} {k : Conn} (h : x.Data k) (hk : k.known = true) :
    x.started = true ∧ ∀ d, x ≠ .established d := by
  obtain ⟨e, he, hcb⟩ := List.any_eq_true.1 hk
  have hmem : e ∈ x.script k.loop := by
    rw [← h.script]
    refine List.mem_filter.2 ⟨he, ?_⟩
    cases e <;> first | rfl | cases hcb
  cases x with
  | unborn | accepted => cases hmem
  | established =>
    rw [List.mem_singleton.1 hmem] at hcb
    cases hcb
  | opened | closing | down | removing | removed | unregistering | destroyed | farewell | parting
  | parted => exact ⟨rfl, nofun⟩

/-- A call from another thread is queued. -/
theorem Inv.queueClient (h : Inv name st s) (hinj : Injective name)
    (hs : (st c).started = true) {f : Functor} (hf : f.subject = none)
    (hc : f.client = some c) : Sound name (.ok (s.queueInLoop (s.conns c).loop f)) := by
  have ht : Touches name s (s.queueInLoop (s.conns c).loop f) c :=
    Touches.queueInLoop (by simp [hf]) fun d hd => ⟨Option.some.inj (hd.symm.trans hc), rfl⟩
  refine ⟨_, (h.around hinj c).move ht (fun m => queueInLoop_poller ..) rfl (.refl _)
    (h.ground.stays c) (fun _ _ _ _ => Or.inr hs) ?_⟩
  exact (h.own c).congr rfl (fun m => worksOf_queueInLoop ..)
    (fun m => functorsOf_queueInLoop_idle m hf c) rfl rfl

theorem Inv.send (h : Inv name st s) (hinj : Injective name) {data : List Byte}
    {w : TcpConnection.Write} (he : Enabled name s (.send t c data w)) :
    Sound name (exec name s (.send t c data w)) := by
  have hs := ((h.own c).data.known he).1
  simp only [exec]
  split
  · rw [runInLoop]
    split
    next ht => exact h.sendInLoop hinj ht hs data w
    next => exact h.queueClient hinj hs rfl rfl
  · exact ⟨st, h⟩

theorem Inv.shutdown (h : Inv name st s) (hinj : Injective name)
    (he : Enabled name s (.shutdown t c)) (hg : Gentle s (.shutdown t c)) :
    Sound name (exec name s (.shutdown t c)) := by
  obtain ⟨hs, hne⟩ := (h.own c).data.known he
  by_cases hstate : (s.conns c).tcp.state = .kConnected
  · have hdes : s.destroyed = false := by
      by_contra hd
      exact hg (by simpa using hd) hstate
    have ho := h.own c
    have hst : st c = .opened .spared := by
      cases hx : st c with
      | opened d =>
        rw [hx] at ho
        rw [Doom.eq_spared ho.fits.2 hdes]
      | established d => exact absurd hx (hne d)
      | unborn | accepted | closing | down | removing | removed | unregistering | destroyed
      | farewell | parting | parted =>
        rw [hx] at ho
        cases hstate.symm.trans (List.mem_singleton.1 ho.data.state)
    have heq : (s.conns c).tcp.shutdown =
        (true, { (s.conns c).tcp with state := .kDisconnecting }) := if_pos hstate
    simp only [exec, heq, if_true]
    set k : Conn := { s.conns c with tcp := { (s.conns c).tcp with state := .kDisconnecting } }
    have hk : (s.setConn c k).conns c = k := by simp
    have h₁ : Inv name st (s.setConn c k) := by
      have ht : Touches name s (s.setConn c k) c := Touches.setConn rfl rfl
      have hm := (h.around hinj c).move (x := st c) ht (fun _ => rfl) (by rw [hk]) (.refl _)
        (h.ground.stays c) (fun _ _ hf _ => Or.inl hf) ?_
      · rwa [update_eq_self] at hm
      · refine ⟨?_, fun m => ?_, fun m => ?_, ho.mapped, ?_⟩ <;> rw [hk]
        · refine ⟨ho.data.script, ho.data.first, ?_, ho.data.events⟩
          rw [hst]
          exact List.mem_cons_of_mem _ (List.mem_singleton_self _)
        · exact ho.works m
        · exact ho.functors m
        · exact ho.fits
    rw [runInLoop]
    split
    next ht => exact h₁.shutdownInLoop hinj (by rw [hk]; exact ht) hs
    next =>
      have := h₁.queueClient hinj (c := c) hs (f := .shutdownInLoop c) rfl rfl
      rwa [hk] at this
  · have heq : (s.conns c).tcp.shutdown = (false, (s.conns c).tcp) := if_neg hstate
    simp only [exec, heq]
    exact ⟨st, h⟩

/-! ## New connections -/

theorem Inv.not_gone (h : Inv name st s) (hl : (st c).live = true) :
    (s.conns c).gone = false := by
  by_contra hg
  simp only [Conn.gone, Bool.not_eq_false, Bool.and_eq_true, beq_iff_eq] at hg
  obtain ⟨hstate, hi⟩ := hg
  have ho := h.own c
  have hold := h.ground.reg.holds c hl
  cases hst : st c with
  | unborn | destroyed | parted => rw [hst] at hl; cases hl
  | accepted d =>
    rw [hst] at ho
    cases hstate.symm.trans (List.mem_singleton.1 ho.data.state)
  | established | opened | closing | down | removing | removed | unregistering | farewell
  | parting =>
    rw [hst] at hold
    have hmark := hi.symm.trans hold.1
    unfold mark at hmark
    split at hmark <;> cases hmark

section Added

variable {fd : Int} {wc : Bool}

theorem addConnection_self : (addConnection name s fd wc).conns s.accepted =
    ⟨s.getNextLoop.1, .new fd wc, []⟩ := update_self ..

theorem addConnection_other (hc : c ≠ s.accepted) :
    (addConnection name s fd wc).conns c = s.conns c := update_of_ne hc ..

theorem Ground.lt_accepted (h : Ground st s) (hc : st c ≠ .unborn) : c < s.accepted :=
  not_le.1 fun hle => hc ((h.born c).2 hle)

theorem Ground.ne_of_live (h : Ground st s) (hc : (st c).live = true) : c ≠ s.accepted :=
  Nat.ne_of_lt (h.lt_accepted fun hu => by rw [hu] at hc; cases hc)

theorem Ground.ne_of_started (h : Ground st s) (hc : (st c).started = true) : c ≠ s.accepted :=
  Nat.ne_of_lt (h.lt_accepted fun hu => by rw [hu] at hc; cases hc)

/-- The descriptor of a new connection is none of an open one. -/
theorem Inv.fd_fresh (h : Inv name st s)
    (hfd : ∀ c < s.accepted, (s.conns c).gone = true ∨ (s.conns c).fd ≠ fd)
    (hc : (st c).live = true) : (s.conns c).fd ≠ fd := by
  have hlt : c < s.accepted := h.ground.lt_accepted fun hu => by rw [hu] at hc; cases hc
  refine (hfd c hlt).resolve_left ?_
  rw [h.not_gone hc]
  nofun

theorem Inv.unpolled (h : Inv name st s) (hfd : ∀ c, (st c).live = true → (s.conns c).fd ≠ fd) :
    (s.loops l).poller.channels fd = none ∧ (s.loops l).poller.kernel fd = none := by
  have hnone : (s.loops l).poller.channels fd = none := by
    cases hc : (s.loops l).poller.channels fd with
    | none => rfl
    | some d =>
      obtain ⟨hd, -, -, hf⟩ := h.ground.reg.known l fd d hc
      exact absurd hf (hfd d hd)
  refine ⟨hnone, ?_⟩
  cases hk : (s.loops l).poller.kernel fd with
  | none => rfl
  | some ev => cases hnone.symm.trans (h.ground.reg.listed l fd ev.1 ev.2 hk)

theorem Inv.added_registered (h : Inv name st s)
    (hfd : ∀ c, (st c).live = true → (s.conns c).fd ≠ fd) :
    Registered (update st s.accepted (.accepted .spared))
      (addConnection name s fd wc) where
  fds a b ha hb hf := by
    by_cases ha₀ : a = s.accepted <;> by_cases hb₀ : b = s.accepted
    · exact ha₀.trans hb₀.symm
    · rw [update_of_ne hb₀] at hb
      rw [ha₀, addConnection_self, addConnection_other hb₀] at hf
      exact absurd hf.symm (hfd b hb)
    · rw [update_of_ne ha₀] at ha
      rw [hb₀, addConnection_self, addConnection_other ha₀] at hf
      exact absurd hf (hfd a ha)
    · rw [update_of_ne ha₀] at ha
      rw [update_of_ne hb₀] at hb
      rw [addConnection_other ha₀, addConnection_other hb₀] at hf
      exact h.ground.reg.fds a b ha hb hf
  holds c hc := by
    by_cases hc₀ : c = s.accepted
    · subst hc₀
      rw [update_self, addConnection_self]
      exact ⟨rfl, h.unpolled hfd⟩
    · rw [update_of_ne hc₀] at hc ⊢
      rw [addConnection_other hc₀]
      exact h.ground.reg.holds c hc
  known l f c hc := by
    obtain ⟨hl, hs, hloop, hf⟩ := h.ground.reg.known l f c hc
    have hne := h.ground.ne_of_live hl
    rw [update_of_ne hne, addConnection_other hne]
    exact ⟨hl, hs, hloop, hf⟩
  listed := h.ground.reg.listed

theorem Inv.added_iterating (h : Inv name st s) (l : LoopId) :
    Iterating (update st s.accepted (.accepted .spared)) (addConnection name s fd wc) l
      (s.loops l).it := by
  have hit := h.ground.iter l
  have hopen : ∀ c, st c = .opened .spared →
      update st s.accepted (.accepted .spared) c = .opened .spared := fun c hc => by
    rw [update_of_ne (h.ground.ne_of_live (by rw [hc]; rfl)), hc]
  refine ⟨hit.nodup, fun c hc => ?_, hit.order, hit.closes,
    fun hdes c hc => hopen c (hit.waiting hdes c hc),
    fun hdes c hc hm => hopen c (hit.current hdes c hc hm)⟩
  obtain ⟨hl, hs⟩ := hit.mine c hc
  have hne := h.ground.ne_of_started hs
  rw [update_of_ne hne, addConnection_other hne]
  exact ⟨hl, hs⟩

/-- The new connection is there; only `connectEstablished` is not queued yet. -/
theorem Inv.added (h : Inv name st s) (hinj : Injective name)
    (hfd : ∀ c < s.accepted, (s.conns c).gone = true ∨ (s.conns c).fd ≠ fd) :
    Around name (update st s.accepted (.accepted .spared))
      (addConnection name s fd wc) s.accepted := by
  refine ⟨hinj, ⟨fun c => ?_, h.added_registered fun c => h.fd_fresh hfd, h.ground.swapped,
    fun m f hf c hc => ?_, h.added_iterating, fun c hc => ?_⟩, fun c hc => ?_⟩
  · by_cases hc₀ : c = s.accepted
    · subst hc₀
      rw [update_self]
      exact ⟨nofun, fun hle => absurd hle (Nat.not_succ_le_self _)⟩
    · rw [update_of_ne hc₀, h.ground.born]
      exact ⟨fun hle => Nat.lt_of_le_of_ne hle (Ne.symm hc₀), Nat.le_of_succ_le⟩
  · obtain ⟨hs, hl⟩ := h.ground.clients m f hf c hc
    have hne := h.ground.ne_of_started hs
    rw [update_of_ne hne, addConnection_other hne]
    exact ⟨hs, hl⟩
  · by_cases hc₀ : c = s.accepted
    · rw [hc₀, update_self] at hc
      cases hc
    · rw [update_of_ne hc₀, addConnection_other hc₀] at hc
      rw [addConnection_other hc₀]
      exact h.ground.releases c hc
  · rw [update_of_ne hc]
    refine (h.own c).congr (addConnection_other hc) (fun _ => rfl) (fun _ => rfl) ?_ rfl
    exact update_of_ne (fun heq => hc (hinj heq)) ..

end Added

theorem Inv.accept (h : Inv name st s) (hinj : Injective name) {fd : Int} {wc : Bool}
    (he : Enabled name s (.accept fd wc)) : Sound name (exec name s (.accept fd wc)) := by
  obtain ⟨hdes, -, hw, -, hfd⟩ := he
  have h₀ : Inv name st (s.leaveChannel 0) := h.leaveChannel hw
  set s₀ := s.leaveChannel 0
  have ha : Around name (update st s₀.accepted (.accepted .spared))
      (addConnection name s₀ fd wc) s₀.accepted := h₀.added hinj hfd
  have ho := h₀.own s₀.accepted
  rw [(h₀.ground.born _).2 le_rfl] at ho
  set s₁ := addConnection name s₀ fd wc
  have hconn : s₁.conns s₀.accepted = ⟨s₀.getNextLoop.1, .new fd wc, []⟩ := addConnection_self
  have hmap : s₁.connections (name s₀.accepted) = some s₀.accepted := update_self ..
  have hdata : (Stage.accepted .spared).Data (s₁.conns s₀.accepted) := by
    rw [hconn]
    exact ⟨rfl, rfl, List.mem_singleton_self _, rfl⟩
  have hdes₁ : s₁.destroyed = true ↔ Doom.spared ≠ .spared := by
    rw [show s₁.destroyed = false from hdes]
    simp
  have hst : update st s₀.accepted (.accepted .spared) s₀.accepted =
      .accepted .spared := update_self ..
  rw [exec, newConnection, runInLoop]
  split
  next hl =>
    exact ha.connectEstablished hst (by rw [hconn]; exact hl) hdata ho.works ho.functors hmap
      ⟨fun h => absurd rfl h, hdes₁⟩
  next hl =>
    have hstays := ha.ground.stays s₀.accepted
    rw [hst] at hstays
    have hfs : ∀ m, s₁.functorsOf m s₀.accepted = [] := ho.functors
    refine ha.queue (x := .accepted .spared) rfl rfl hdata ho.works (fun m => ?_) hmap
      ⟨by rw [hconn]; exact Ne.symm hl, hdes₁⟩ (by rw [hst]; exact .refl _) hstays
    rw [hfs, hconn]
    exact (List.append_nil _).symm

/-! ## `~TcpServer` -/

/-- The stage of a connection that `~TcpServer` finds in `connections_`. -/
def Stage.doomed : Stage → Stage
  | .accepted _ => .accepted .listed
  | .established _ => .established .listed
  | .opened _ => .opened .listed
  | x => x

theorem Stage.doomed_alike (x : Stage) : Stage.Alike x x.doomed := by
  cases x <;> exact ⟨by simp [Stage.doomed], rfl, rfl, fun _ => rfl⟩

theorem filter_destroyConn {order : List ConnId} (hnd : order.Nodup) (c : ConnId) :
    (order.map Work.destroyConn).filter (fun w => w.conn = c) =
      if c ∈ order then [.destroyConn c] else [] := by
  induction order with
  | nil => rfl
  | cons d order ih =>
    obtain ⟨hd, hnd⟩ := List.nodup_cons.1 hnd
    rw [List.map_cons, List.filter_cons, ih hnd]
    by_cases hdc : d = c
    · subst hdc
      simp [Work.conn, hd]
    · simp [Work.conn, hdc, Ne.symm hdc]

/-- The connections that `~TcpServer` finds in `connections_` are being set up or are up. -/
theorem Inv.found_open (h : Inv name st s) {order : List ConnId}
    (he : Enabled name s (.destroy order)) (hg : Gentle s (.destroy order)) (hc : c ∈ order) :
    st c = .accepted .spared ∨ st c = .established .spared ∧ (s.conns c).loop ≠ 0 ∨
      st c = .opened .spared ∧ (s.conns c).tcp.state = .kConnected := by
  obtain ⟨hdes, hwork, -, hborn, -⟩ := he
  have ho := h.own c
  have hstate := (hg c hc).1
  cases hst : st c with
  | unborn => exact absurd (hborn c hc) (not_lt.2 ((h.ground.born c).1 hst))
  | accepted d =>
    rw [hst] at ho
    rw [Doom.eq_spared ho.fits.2 hdes]
    exact Or.inl rfl
  | established d =>
    rw [hst] at ho
    obtain rfl := Doom.eq_spared ho.fits.2 hdes
    refine Or.inr (Or.inl ⟨rfl, fun hl => ?_⟩)
    -- its first callback would be under way in the base loop
    have hmem : Work.connectionCallback c ∈ s.worksOf 0 c := by
      rw [ho.works, hl]
      exact List.mem_singleton_self _
    exact hwork _ (List.mem_of_mem_filter hmem) rfl
  | opened d =>
    rw [hst] at ho
    obtain rfl := Doom.eq_spared ho.fits.2 hdes
    refine Or.inr (Or.inr ⟨rfl, hstate.resolve_left fun hs => ?_⟩)
    have := ho.data.state
    rw [hs] at this
    simp [Stage.states] at this
  | closing | down | removing | removed | unregistering | destroyed | farewell | parting
  | parted =>
    rw [hst] at ho
    have := List.mem_singleton.1 ho.data.state
    rcases hstate with hs | hs <;> cases this.symm.trans hs

/-- The connections that it does not find are on their way out. -/
theorem Inv.unfound (h : Inv name st s) {order : List ConnId}
    (he : Enabled name s (.destroy order)) (hc : c ∉ order) :
    st c = .unborn ∨ st c = .removed ∨ st c = .unregistering ∨ st c = .destroyed := by
  obtain ⟨-, -, -, -, hiff⟩ := he
  have ho := h.own c
  have hunmapped : (st c).mapped = false := by
    by_contra hm
    have hm : (st c).mapped = true := by simpa using hm
    have hlt : c < s.accepted := by
      by_contra hge
      rw [(h.ground.born c).2 (not_lt.1 hge)] at hm
      cases hm
    refine hc ((hiff c hlt).2 ?_)
    rw [ho.mapped, if_pos hm]
  cases hst : st c with
  | unborn | removed | unregistering | destroyed => simp
  | accepted | established | opened | closing | down | removing | farewell | parting | parted =>
    rw [hst] at hunmapped
    cases hunmapped

/-- The server when `~TcpServer` has read `connections_`. -/
def destroying (s : TcpServer) (order : List ConnId) : TcpServer :=
  { s with destroyed := true }.setLoop 0 { s.loops 0 with
    work := order.map Work.destroyConn ++ (s.loops 0).work }

/-- The stages after that. -/
def doom (st : ConnId → Stage) (order : List ConnId) (c : ConnId) : Stage :=
  if c ∈ order then (st c).doomed else st c

theorem doom_alike (st : ConnId → Stage) (order : List ConnId) (c : ConnId) :
    Stage.Alike (st c) (doom st order c) := by
  by_cases hc : c ∈ order
  · rw [doom, if_pos hc]; exact Stage.doomed_alike _
  · rw [doom, if_neg hc]; exact .refl _

section Destroying

variable {order : List ConnId}

theorem destroying_loops (s : TcpServer) (order : List ConnId) (m : LoopId) :
    ((s.destroying order).loops m).it = (s.loops m).it ∧
    ((s.destroying order).loops m).functors = (s.loops m).functors ∧
    ((s.destroying order).loops m).queue = (s.loops m).queue ∧
    ((s.destroying order).loops m).poller = (s.loops m).poller := by
  by_cases hm : m = 0 <;> simp [destroying, hm, Loop.queue]

theorem destroying_work (s : TcpServer) (order : List ConnId) (m : LoopId) :
    ((s.destroying order).loops m).work =
      (if m = 0 then order.map Work.destroyConn else []) ++ (s.loops m).work := by
  by_cases hm : m = 0 <;> simp [destroying, hm]

theorem destroying_works (s : TcpServer) (hnd : order.Nodup) (m : LoopId) (c : ConnId) :
    (s.destroying order).worksOf m c =
      (if m = 0 ∧ c ∈ order then [Work.destroyConn c] else []) ++ s.worksOf m c := by
  rw [worksOf, worksOf, destroying_work, List.filter_append]
  by_cases hm : m = 0
  · rw [if_pos hm, filter_destroyConn hnd]
    simp only [hm, true_and]
  · rw [if_neg hm, if_neg fun hboth => hm hboth.1, List.filter_nil]

theorem destroying_functors (s : TcpServer) (m : LoopId) (c : ConnId) :
    (s.destroying order).functorsOf m c = s.functorsOf m c := by
  rw [functorsOf, (destroying_loops s order m).2.2.1]
  rfl

theorem Registered.destroying (h : Registered st s) :
    Registered (doom st order) (s.destroying order) := by
  have hst := doom_alike st order
  refine ⟨fun a b ha hb hf => ?_, fun c hc => ?_, fun m f c hc => ?_, fun m f e c hc => ?_⟩
  · rw [(hst a).live] at ha
    rw [(hst b).live] at hb
    exact h.fds a b ha hb hf
  · rw [(hst c).live] at hc
    rw [(hst c).life, (destroying_loops ..).2.2.2]
    exact h.holds c hc
  · rw [(destroying_loops ..).2.2.2] at hc
    rw [(hst c).live, (hst c).started]
    exact h.known m f c hc
  · rw [(destroying_loops ..).2.2.2] at hc ⊢
    exact h.listed m f e c hc

theorem Inv.destroying_ground (h : Inv name st s) (he : Enabled name s (.destroy order))
    (hg : Gentle s (.destroy order)) : Ground (doom st order) (s.destroying order) := by
  have hst := doom_alike st order
  refine ⟨fun c => ?_, h.ground.reg.destroying, fun m hm => ?_, fun m f hf c hc => ?_, fun m => ?_,
    fun c hc => ?_⟩
  · rw [← (hst c).born]; exact h.ground.born c
  · rw [(destroying_loops ..).1] at hm
    rw [(destroying_loops ..).2.1]
    exact h.ground.swapped m hm
  · rw [(destroying_loops ..).2.2.1] at hf
    rw [(hst c).started]
    exact h.ground.clients m f hf c hc
  · have hit := h.ground.iter m
    rw [(destroying_loops ..).1]
    refine ⟨hit.nodup, fun c hc => ?_, hit.order, hit.closes, nofun, nofun⟩
    rw [(hst c).started]
    exact hit.mine c hc
  · rw [(destroying_loops ..).1]
    by_cases hm : c ∈ order
    · rw [doom, if_pos hm] at hc
      rcases h.found_open he hg hm with hx | ⟨hx, -⟩ | ⟨hx, -⟩ <;> rw [hx] at hc
      · cases hc
      · cases hc
      · have hl : ((s.destroying order).conns c).loop = 0 := by
          simpa [Stage.doomed, Stage.leaving] using hc
        rw [hl]
        exact (hg c hm).2 hl
    · rw [doom, if_neg hm] at hc
      exact h.ground.releases c hc

/-- A connection that `~TcpServer` finds in `connections_`. -/
theorem Inv.destroying_found (h : Inv name st s) (he : Enabled name s (.destroy order))
    (hg : Gentle s (.destroy order)) (hc : c ∈ order) :
    Own name (s.destroying order) c (st c).doomed := by
  have ho := h.own c
  have hlisted : true = true ↔ Doom.listed ≠ .spared := by simp
  have hworks : ∀ m, (s.destroying order).worksOf m c =
      (if m = 0 then [.destroyConn c] else []) ++ (st c).works c (s.conns c).loop m := fun m => by
    rw [destroying_works s he.2.2.1, ho.works]
    simp [hc]
  have hfs : ∀ m, (s.destroying order).functorsOf m c = (st c).functors c (s.conns c).loop m :=
    fun m => by rw [destroying_functors, ho.functors]
  rcases h.found_open he hg hc with hx | ⟨hx, hl⟩ | ⟨hx, hstate⟩ <;>
    simp only [hx] at ho hworks hfs ⊢
  · exact ⟨⟨ho.data.script, ho.data.first, ho.data.state, ho.data.events⟩,
      fun m => (hworks m).trans (List.append_nil _), hfs, ho.mapped, ho.fits.1, hlisted⟩
  · exact ⟨⟨ho.data.script, ho.data.first, ho.data.state, ho.data.events⟩, hworks, hfs, ho.mapped,
      fun _ => hl, hlisted⟩
  · exact ⟨⟨ho.data.script, ho.data.first, List.mem_singleton.2 hstate, ho.data.events⟩,
      fun m => (hworks m).trans (List.append_nil _), hfs, ho.mapped, nofun, hlisted⟩

theorem Inv.destroy (h : Inv name st s) (he : Enabled name s (.destroy order))
    (hg : Gentle s (.destroy order)) : Sound name (exec name s (.destroy order)) := by
  refine ⟨doom st order, h.destroying_ground he hg, fun c => ?_⟩
  by_cases hm : c ∈ order
  · rw [doom, if_pos hm]
    exact h.destroying_found he hg hm
  · rw [doom, if_neg hm]
    have ho := h.own c
    refine ⟨ho.data, fun m => ?_, fun m => ?_, ho.mapped, ?_⟩
    · refine (destroying_works s he.2.2.1 m c).trans ?_
      simp [ho.works, hm]
    · exact (destroying_functors s m c).trans (ho.functors m)
    · rcases h.unfound he hm with hx | hx | hx | hx <;> rw [hx] <;> trivial

end Destroying

/-! ## Every step -/

theorem Inv.exec (h : Inv name st s) (hinj : Injective name) {op : Op}
    (he : Enabled name s op) (hg : Gentle s op) : Sound name (exec name s op) := by
  cases op with
  | poll l active => exact h.poll he
  | dispatch l => exact h.dispatch he
  | dispatchOther l => exact ⟨st, h.leaveChannel he.2.1⟩
  | accept fd wc => exact h.accept hinj he
  | callback l a => exact h.callback hinj he hg
  | swap l => exact h.swap he
  | functor l w =>
    obtain ⟨hph, hw, hne⟩ := he
    obtain ⟨f, fs, hf⟩ := List.exists_cons_of_ne_nil hne
    simp only [TcpServer.exec, hf]
    exact h.functor hinj hph hw hf w
  | endFunctors l => exact h.endFunctors he
  | work l =>
    obtain ⟨w, ws, hw⟩ := List.exists_cons_of_ne_nil he
    simp only [TcpServer.exec, hw]
    cases w with
    | connectionCallback c => exact h.connectionCallback hinj hw
    | closeCallback c => exact h.closeCallback hinj hw
    | removeChannel c => exact h.removeChannel hinj hw
    | destroyConn c => exact h.destroyConn hinj hw
  | send t c data w => exact h.send hinj he
  | shutdown t c => exact h.shutdown hinj he hg
  | destroy order => exact h.destroy he hg

/-! ## The server itself -/

/-- Only `destroy` destroys the server, and after that `connections_` stays as it is. -/
structure Keeps (s s' : TcpServer) : Prop where
  destroyed : s'.destroyed = s.destroyed
  accepted : s.destroyed = true → s'.accepted = s.accepted
  connections : s.destroyed = true → s'.connections = s.connections

theorem Keeps.trans (h : Keeps s s') (h' : Keeps s' s'') : Keeps s s'' where
  destroyed := h'.destroyed.trans h.destroyed
  accepted hd := (h'.accepted (h.destroyed.trans hd)).trans (h.accepted hd)
  connections hd := (h'.connections (h.destroyed.trans hd)).trans (h.connections hd)

theorem setLoop_keeps (s : TcpServer) (l : LoopId) (r : Loop) : Keeps s (s.setLoop l r) :=
  ⟨rfl, fun _ => rfl, fun _ => rfl⟩

theorem setConn_keeps (s : TcpServer) (c : ConnId) (k : Conn) : Keeps s (s.setConn c k) :=
  ⟨rfl, fun _ => rfl, fun _ => rfl⟩

theorem call_keeps {evs : List Event} {r : TcpConnection.Result}
    (h : s.call l c evs r = .ok s') : Keeps s s' := by
  obtain ⟨_, _, h⟩ := bind_eq_ok h
  obtain ⟨_, _, h⟩ := bind_eq_ok h
  obtain ⟨_, _, h⟩ := bind_eq_ok h
  cases h
  exact ⟨rfl, fun _ => rfl, fun _ => rfl⟩

theorem removeChannel_keeps (h : s.removeChannel l c = .ok s') : Keeps s s' := by
  obtain ⟨_, _, h⟩ := bind_eq_ok h
  obtain ⟨_, _, h⟩ := bind_eq_ok h
  obtain ⟨_, _, h⟩ := bind_eq_ok h
  obtain ⟨_, _, h⟩ := bind_eq_ok h
  cases h
  exact ⟨rfl, fun _ => rfl, fun _ => rfl⟩

theorem removeConnectionInLoop_keeps (h : removeConnectionInLoop name s l c = .ok s') :
    Keeps s s' := by
  obtain ⟨_, hdes, h⟩ := bind_eq_ok h
  obtain ⟨_, _, h⟩ := bind_eq_ok h
  obtain ⟨_, _, h⟩ := bind_eq_ok h
  cases h
  have hdes : s.destroyed = false := by
    by_contra hd
    rw [ensure_neg hd] at hdes
    cases hdes
  exact ⟨rfl, fun hd => (by rw [hdes] at hd; cases hd), fun hd => (by rw [hdes] at hd; cases hd)⟩

theorem runInLoop_keeps {f : Functor} {now : TcpServer → Except Fault TcpServer}
    (hnow : now s = .ok s' → Keeps s s') (h : s.runInLoop t l f now = .ok s') : Keeps s s' := by
  rw [runInLoop] at h
  split at h
  · exact hnow h
  · cases h
    exact setLoop_keeps ..

theorem removeConnection_keeps (h : removeConnection name s l c = .ok s') : Keeps s s' := by
  obtain ⟨_, _, h⟩ := bind_eq_ok h
  exact runInLoop_keeps removeConnectionInLoop_keeps h

theorem handle_keeps {a : Answer} {cb : Callback} (h : s.handle l c a cb = .ok s') :
    Keeps s s' := by
  cases cb with
  | close | error | read | write => exact call_keeps h

theorem runFunctor_keeps {f : Functor} {w : TcpConnection.Write}
    (h : runFunctor name s l w f = .ok s') : Keeps s s' := by
  cases f with
  | connectEstablished | connectDestroyed | sendInLoop | shutdownInLoop => exact call_keeps h
  | removeConnectionInLoop => exact removeConnectionInLoop_keeps h
  | callback => cases h; exact ⟨rfl, fun _ => rfl, fun _ => rfl⟩

theorem runWork_keeps {w : Work} (h : runWork name s l w = .ok s') : Keeps s s' := by
  cases w with
  | connectionCallback => cases h; exact setConn_keeps ..
  | closeCallback => exact removeConnection_keeps h
  | removeChannel => exact removeChannel_keeps h
  | destroyConn =>
    rw [runWork] at h
    exact runInLoop_keeps (fun hc => call_keeps hc) h

theorem newConnection_destroyed {fd : Int} {wc : Bool} (h : newConnection name s fd wc = .ok s') :
    s'.destroyed = s.destroyed := by
  rw [newConnection] at h
  have hk : Keeps (addConnection name s fd wc) s' := runInLoop_keeps (fun hc => call_keeps hc) h
  exact hk.destroyed

theorem exec_keeps {op : Op} (he : Enabled name s op) (hx : exec name s op = .ok s')
    (hop : ∀ order, op ≠ .destroy order) : Keeps s s' := by
  have hsame : Keeps s s := ⟨rfl, fun _ => rfl, fun _ => rfl⟩
  cases op with
  | poll | dispatch | dispatchOther | swap | endFunctors => cases hx; exact setLoop_keeps ..
  | accept fd wc =>
    have hno : s.destroyed = true → False := fun hd => by cases he.1.symm.trans hd
    exact ⟨newConnection_destroyed (s := s.leaveChannel 0) hx, fun hd => (hno hd).elim,
      fun hd => (hno hd).elim⟩
  | callback l a =>
    rw [exec] at hx
    split at hx
    · exact (setLoop_keeps ..).trans (handle_keeps hx)
    · cases hx; exact hsame
  | functor l w =>
    rw [exec] at hx
    split at hx
    · exact (setLoop_keeps ..).trans (runFunctor_keeps hx)
    · cases hx; exact hsame
  | work l =>
    rw [exec] at hx
    split at hx
    · exact (setLoop_keeps ..).trans (runWork_keeps hx)
    · cases hx; exact hsame
  | send t c data w =>
    rw [exec] at hx
    split at hx
    · exact runInLoop_keeps call_keeps hx
    · cases hx; exact hsame
  | shutdown t c =>
    rw [exec] at hx
    split at hx
    · exact (setConn_keeps ..).trans (runInLoop_keeps call_keeps hx)
    · cases hx; exact hsame
  | destroy order => exact absurd rfl (hop order)

/-! ## Whole runs -/

theorem Inv.init (name : ConnId → String) (n : Nat) :
    Inv name (fun _ => .unborn) (init n) where
  ground :=
    { born := fun c => ⟨fun _ => Nat.zero_le c, fun _ => rfl⟩
      reg := ⟨nofun, nofun, nofun, nofun⟩
      swapped := fun _ _ => rfl
      clients := nofun
      iter := fun _ => ⟨List.nodup_nil, nofun, List.nil_sublist _, nofun, nofun, nofun⟩
      releases := nofun }
  own _ :=
    { data := ⟨rfl, rfl, List.mem_singleton_self _, rfl⟩
      works := fun _ => rfl
      functors := fun _ => rfl
      mapped := rfl
      fits := trivial }

/-- What is left of the faults. -/
theorem Sound.error {e : Fault} {r : Except Fault TcpServer} (h : Sound name r)
    (hr : r = .error e) : e.ofBytes = true := by
  subst hr
  exact h

theorem Sound.ok {r : Except Fault TcpServer} (h : Sound name r) (hr : r = .ok s) :
    ∃ st, Inv name st s := by
  subst hr
  exact h

/-- The server is not destroyed. -/
def Alive (_ : TcpServer) : Op → Prop
  | .destroy _ => False
  | _ => True

instance (s : TcpServer) : (op : Op) → Decidable (Alive s op)
  | .destroy _ => isFalse id
  | .poll _ _ | .dispatch _ | .dispatchOther _ | .accept _ _ | .callback _ _ | .swap _
  | .functor _ _ | .endFunctors _ | .work _ | .send _ _ _ _ | .shutdown _ _ => isTrue trivial

theorem Alive.gentle {op : Op} (h : Alive s op) (hdes : s.destroyed = false) : Gentle s op := by
  cases op with
  | shutdown | callback => exact fun hd => by cases hdes.symm.trans hd
  | destroy => exact h.elim
  | poll | dispatch | dispatchOther | accept | swap | functor | endFunctors | work | send =>
    trivial

/-- What has run on a connection of loop `own` so far has run in order, and nothing before
`connectEstablished`. -/
structure InOrder (own : LoopId) (history : List Event) : Prop where
  events : history.filter (fun e => !e.isHandler) <+: usual own
  first : history ≠ [] → history.head? = some .connectEstablished

theorem Own.inOrder {x : Stage} (h : Own name s c x) (hdes : s.destroyed = false) :
    InOrder (s.conns c).loop (s.conns c).history := by
  refine ⟨?_, fun hne => ?_⟩
  · rw [h.data.script]
    cases x with
    | farewell | parting | parted => cases hdes.symm.trans h.fits
    | unborn | accepted => exact List.nil_prefix
    | destroyed => exact List.prefix_refl _
    | established | opened | closing | down | removing | removed | unregistering =>
      exact List.take_prefix _ _
  · have hfirst := h.data.first
    rw [hfirst]
    split
    · rfl
    next hs =>
      rw [if_neg hs, List.head?_eq_none_iff] at hfirst
      exact absurd hfirst hne

/-- **The life of a connection.** Whatever the loops and the users of a server do while it is not
destroyed: on every connection there run, each at most once and in this order,
`connectEstablished`, the connection callback UP, `handleClose`, the connection callback DOWN,
`removeConnectionInLoop`, which erases one entry, and `connectDestroyed`, in the loop of the
connection, with an empty interest set and not while the loop iterates over `activeChannels_`; no
handler runs before. No assertion of these functions fails: a step can only stop because of the
bytes it reads or writes. -/
theorem connection_lifecycle (hinj : Injective name) (n : Nat) {ops : List Op}
    {s : TcpServer} (h : ((tcpServer name).under Alive).Run (init n) ops s) :
    (∀ c, InOrder (s.conns c).loop (s.conns c).history) ∧
    ∀ op e, Enabled name s op → Alive s op → exec name s op = .error e → e.ofBytes = true := by
  obtain ⟨⟨st, hi⟩, hdes⟩ : (∃ st, Inv name st s) ∧ s.destroyed = false := by
    refine h.keeps (I := fun s : TcpServer => (∃ st, Inv name st s) ∧ s.destroyed = false) ?_
      ⟨⟨_, Inv.init name n⟩, rfl⟩
    rintro s op s' ⟨⟨st, hi⟩, hdes⟩ ⟨he, ha⟩ hx
    refine ⟨(hi.exec hinj he (ha.gentle hdes)).ok hx, ?_⟩
    rw [(exec_keeps he hx fun order hop => by rw [hop] at ha; exact ha).destroyed, hdes]
  exact ⟨fun c => (hi.own c).inOrder hdes,
    fun op e he ha hx => (hi.exec hinj he (ha.gentle hdes)).error hx⟩

/-- Names for a server with few connections. -/
def numbered (c : ConnId) : String := String.ofList ('#' :: decimal c)

theorem numbered_injective : Injective numbered := fun _ _ h =>
  decimal_inj (List.cons.inj (String.ofList_injective h)).2

/-- Two io loops. The first connection answers and is closed by its peer, the second one is shut
down by another thread and goes away when its peer has read everything. -/
theorem connection_lifecycle_sample :
    ∃ s, ((tcpServer numbered).under Alive).Run (init 2)
      [.poll 0 [], .accept 7 false, .dispatchOther 0, .accept 8 false, .poll 1 [], .swap 1,
        .functor 1 (.count 0), .work 1, .send 1 0 [104, 105] (.count 2), .endFunctors 1, .poll 2 [],
        .swap 2, .functor 2 (.count 0), .work 2, .shutdown 1 1, .endFunctors 2,
        .poll 1 [(0, POLLHUP)], .dispatch 1, .callback 1 ⟨.error 11, .count 0⟩, .work 1, .work 1,
        .swap 1, .endFunctors 1, .poll 2 [(1, POLLIN)], .dispatch 2,
        .callback 2 ⟨.bytes [], .count 0⟩, .work 2, .work 2, .swap 2, .functor 2 (.count 0),
        .endFunctors 2, .swap 0, .functor 0 (.count 0), .functor 0 (.count 0), .endFunctors 0,
        .poll 1 [], .swap 1, .functor 1 (.count 0), .work 1, .poll 2 [], .swap 2,
        .functor 2 (.count 0), .work 2] s ∧
      (s.conns 1).history =
        [.connectEstablished, .connectionCallback true, .handler .handleRead, .handleClose,
          .connectionCallback false, .handler .shutdownInLoop, .removeConnectionInLoop 1,
          .connectDestroyed 2 true false, .channelRemoved] ∧
      InOrder (s.conns 0).loop (s.conns 0).history := by
  refine (Machine.Run.of_replay ((tcpServer numbered).under Alive) (init 2) _
    (fun s => (s.conns 1).history) _ (by decide +kernel)).imp fun s ⟨hrun, hs⟩ => ⟨hrun, hs, ?_⟩
  exact (connection_lifecycle numbered_injective 2 hrun).1 0

end TcpServer
end TinyMuduo
