import TinyMuduo.Http.Grammar
import Mathlib.Data.List.Forall2

/-!
# Http.Server

One connection of `HttpServer`, over whole sequences of segments.

`onMessage` parses at most one request per call. Nothing calls it again for what is left in the
buffer, so a second request in the same segment waits for a third one (`pipelined_unanswered`). When
each segment completes at most one request, every request is answered (`answers_every_request`).

A request line that is rejected after its method was recognised leaves the method in the context and
itself in the buffer, and the next segment runs into the assertion of `setMethod`
(`segment_after_bad_line_aborts`). Segments that come while this is not so are processed without a
fault (`no_abort_no_spin`).
-/

namespace TinyMuduo

open Result Incremental HttpContext

namespace HttpSession

variable (callback : HttpCallback)

/-! ## What is sent -/

/-- The elements up to the first of which `p` holds, and that one. -/
def upTo {α : Type} (p : α → Bool) : List α → List α
  | [] => []
  | a :: l => a :: if p a then [] else upTo p l

theorem upTo_append {α : Type} (p : α → Bool) (l : List α) (a : α) :
    upTo p (l ++ [a]) = if l.any p then upTo p l else upTo p l ++ [a] := by
  induction l with
  | nil => simp [upTo]
  | cons b l ih =>
    rw [List.cons_append, upTo, upTo, List.any_cons, ih]
    cases p b <;> simp [apply_ite]

/-- The text of the response to a request. -/
def reply (q : HttpRequest) : Str := (callback q (wantsClose q)).1

/-- The response to a request closes the connection. -/
def closes (q : HttpRequest) : Bool := (callback q (wantsClose q)).2

/-! ## One segment -/

/-- What a call makes of a segment: `ok` and `ctx` are what parsing ended with. -/
structure Received (s : HttpSession) (seg : Segment) (ok : Bool) (ctx : HttpContext)
    (s' : HttpSession) : Prop where
  wf : s'.buf.WF
  left : ctx.Left ok
  reading : Reads readLine (s.context.timeless, true) (s.buf.readable ++ seg.bytes)
    (ctx.timeless, ok) s'.buf.readable
  context : s'.context = if ctx.gotAll then .fresh else ctx
  requests : s'.requests = if ctx.gotAll then s.requests ++ [ctx.request] else s.requests
  unanswered : s'.unanswered = if ctx.gotAll then s'.buf.readable else s.unanswered ++ seg.bytes
  sent : ok = true → s'.sent =
    if ctx.gotAll then
      if s.shutdown then s.sent else s.sent ++ [reply callback ctx.request]
    else s.sent
  shutdown : ok = true → s'.shutdown =
    if ctx.gotAll then s.shutdown || closes callback ctx.request else s.shutdown

theorem receive_spec {s : HttpSession} (hwf : s.buf.WF) (hparsing : s.context.Parsing)
    (seg : Segment) :
    (∃ ok ctx s', s.receive callback seg = .ok s' ∧ Received callback s seg ok ctx s') ∨
    (s.receive callback seg = .error .lengthError ∧
      maxSize < s.buf.readable.length + 2 * seg.bytes.val.length + Buffer.kCheapPrepend) := by
  unfold receive onMessage
  rcases Buffer.append_spec hwf seg.bytes.property with ⟨b₁, hb₁, hwf₁, hr₁⟩ | ⟨ht, hfull⟩
  · obtain ⟨ok, ctx, b₂, hparse, hwf₂, hleft, hreads⟩ :=
      parseRequest_spec seg.receiveTime hparsing hwf₁
    rw [hr₁] at hreads
    rw [hb₁, returned_next, ok_bind]
    simp only [hparse, ok_bind]
    refine Or.inl ⟨ok, ctx, ?_⟩
    by_cases hgot : ctx.gotAll
    · rw [if_pos hgot]
      refine ⟨_, rfl, ?_⟩
      cases ok <;> refine ⟨hwf₂, hleft, hreads, ?_, ?_, ?_, fun hok => ?_, fun hok => ?_⟩ <;>
        first | (rw [if_pos hgot]; rfl) | cases hok
    · rw [if_neg hgot]
      refine ⟨_, rfl, ?_⟩
      cases ok <;> refine ⟨hwf₂, hleft, hreads, ?_, ?_, ?_, fun hok => ?_, fun hok => ?_⟩ <;>
        first | (rw [if_neg hgot]; rfl) | cases hok
  · rw [ht]
    exact Or.inr ⟨rfl, hfull⟩

/-! ## Any segments -/

/-- Between two calls the context expects a request line or headers. -/
structure Inv (s : HttpSession) : Prop where
  wf : s.buf.WF
  state : s.context.state = .kExpectRequestLine ∨ s.context.state = .kExpectHeaders

theorem init_inv : init.Inv := ⟨Buffer.fresh_wf, Or.inl rfl⟩

theorem Inv.receive {s s' : HttpSession} {seg : Segment} (h : s.Inv)
    (hparsing : s.context.Parsing) (hx : s.receive callback seg = .ok s') : s'.Inv := by
  rcases receive_spec callback h.wf hparsing seg with ⟨ok, ctx, s₁, hx₁, hrec⟩ | ⟨hx₁, _⟩
  · cases hx.symm.trans hx₁
    refine ⟨hrec.wf, ?_⟩
    rw [hrec.context]
    split
    · exact Or.inl rfl
    next hgot =>
      have hleft := hrec.left
      cases ok with
      | false => exact Or.inl hleft
      | true => exact (hleft.resolve_left hgot).imp_left And.left
  · cases hx.symm.trans hx₁

/-- A rejected request line has not left its method in the context. -/
def Unspoilt (s : HttpSession) (_ : Segment) : Prop :=
  ¬ (s.context.state = .kExpectRequestLine ∧ s.context.request.method ≠ .kInvalid)

instance (s : HttpSession) (seg : Segment) : Decidable (s.Unspoilt seg) :=
  inferInstanceAs (Decidable (¬ _))

/-- `onMessage` has reset the context of a whole request, so that one which is not spoilt can be
parsed. -/
theorem Inv.parsing {s : HttpSession} {seg : Segment} (h : s.Inv) (hu : s.Unspoilt seg) :
    s.context.Parsing := by
  refine h.state.imp_left fun hstate => ⟨hstate, ?_⟩
  exact Decidable.of_not_not fun hmethod => hu ⟨hstate, hmethod⟩

/-- No segment makes the server abort or spin as long as none is delivered to a context that a
rejected request line has left with a method. -/
theorem no_abort_no_spin {segs : List Segment} {s : HttpSession}
    (hrun : ((httpSession callback).under Unspoilt).Run init segs s) (seg : Segment)
    (hunspoilt : s.Unspoilt seg) :
    (∃ s', (httpSession callback).exec s seg = .ok s') ∨
    ((httpSession callback).exec s seg = .error .lengthError ∧
      maxSize < s.buf.readable.length + 2 * seg.bytes.val.length + Buffer.kCheapPrepend) := by
  have hinv : s.Inv := by
    refine hrun.keeps (I := fun s : HttpSession => s.Inv) ?_ init_inv
    intro s seg s' h he hx
    exact h.receive callback (h.parsing he.2) hx
  rcases receive_spec callback hinv.wf (hinv.parsing hunspoilt) seg with ⟨_, _, s', hx, _⟩ | hfull
  · exact Or.inl ⟨s', hx⟩
  · exact Or.inr hfull

instance (s : HttpSession) (seg : Segment) : Decidable ((httpSession callback).enabled s seg) :=
  inferInstanceAs (Decidable True)

/-- Answers with an empty text, and closes when the request asks for it. -/
def plainCallback : HttpCallback := fun _ close => ([], close)

/-- A bad request line without a known method, and more behind it. -/
theorem no_abort_no_spin_sample :
    ∃ s, ((httpSession plainCallback).under Unspoilt).Run init
        [⟨⟨ascii ['X', ' ', '/', '\r', '\n'], by decide⟩, 1⟩] s ∧
      s.Unspoilt ⟨⟨ascii ['Y'], by decide⟩, 2⟩ ∧ s.sent = [badRequest] ∧
      ((∃ s', (httpSession plainCallback).exec s ⟨⟨ascii ['Y'], by decide⟩, 2⟩ = .ok s') ∨
        ((httpSession plainCallback).exec s ⟨⟨ascii ['Y'], by decide⟩, 2⟩ = .error .lengthError ∧
          maxSize < s.buf.readable.length + 2 * 1 + Buffer.kCheapPrepend)) := by
  obtain ⟨s, hrun, hs⟩ := Machine.Run.of_replay
    ((httpSession plainCallback).under Unspoilt) init
    [⟨⟨ascii ['X', ' ', '/', '\r', '\n'], by decide⟩, 1⟩]
    (fun s => (decide (s.Unspoilt ⟨⟨ascii ['Y'], by decide⟩, 2⟩), s.sent)) (true, [badRequest])
    (by decide +kernel)
  obtain ⟨hunspoilt, hsent⟩ := Prod.mk.inj hs
  have hu : s.Unspoilt ⟨⟨ascii ['Y'], by decide⟩, 2⟩ := of_decide_eq_true hunspoilt
  exact ⟨s, hrun, hu, hsent, no_abort_no_spin plainCallback hrun _ hu⟩

/-- `GET /` is answered with 400 and left in the buffer; the next byte aborts the server. -/
theorem segment_after_bad_line_aborts :
    ∃ s, (httpSession plainCallback).Run init
        [⟨⟨ascii ['G', 'E', 'T', ' ', '/', '\r', '\n'], by decide⟩, 1⟩] s ∧
      s.sent = [badRequest] ∧ s.shutdown = true ∧
      (httpSession plainCallback).exec s ⟨⟨ascii ['x'], by decide⟩, 2⟩ =
        .error .methodAssigned := by
  obtain ⟨s, hrun, hs⟩ := Machine.Run.of_replay (httpSession plainCallback) init
    [⟨⟨ascii ['G', 'E', 'T', ' ', '/', '\r', '\n'], by decide⟩, 1⟩]
    (fun s => (s.sent, s.shutdown,
      match (httpSession plainCallback).exec s ⟨⟨ascii ['x'], by decide⟩, 2⟩ with
      | .ok _ => none
      | .error f => some f))
    ([badRequest], true, some .methodAssigned) (by decide +kernel)
  obtain ⟨hsent, hs⟩ := Prod.mk.inj hs
  obtain ⟨hshut, hfault⟩ := Prod.mk.inj hs
  refine ⟨s, hrun, hsent, hshut, ?_⟩
  split at hfault
  · cases hfault
  next f hf => rw [hf, Option.some.inj hfault]

/-! ## Streams of requests -/

/-- The bytes not answered yet and the segment hold at most one whole request. -/
def OneRequest (s : HttpSession) (seg : Segment) : Prop :=
  ∀ r r' : RequestText, ¬ r.render ++ r'.render <+: s.unanswered ++ seg.bytes

/-- The context and the buffer are where reading the unanswered bytes has come to. -/
def Reached (s : HttpSession) : Prop :=
  ∀ more s' rest, Reads readLine (s.context.timeless, true) (s.buf.readable ++ more) s' rest →
    Reads readLine (HttpContext.fresh, true) (s.unanswered ++ more) s' rest

/-- `answered` are the requests answered so far. -/
structure Serving (s : HttpSession) (answered : List RequestText) : Prop where
  wf : s.buf.WF
  parsing : s.context.Parsing
  reached : s.Reached
  requests : List.Forall₂ (fun q r => q.timeless = RequestText.request r) s.requests answered
  sent : s.sent = (upTo (closes callback) s.requests).map (reply callback)
  shutdown : s.shutdown = s.requests.any (closes callback)
  no_request : ∀ r : RequestText, ¬ r.render <+: s.unanswered
  buffered : s.buf.readable <:+ s.unanswered

/-- What some segments carry. -/
def bytesOf (segs : List Segment) : List Byte := (segs.map fun seg => seg.bytes.val).flatten

/-- The stream of some requests. -/
def streamOf (reqs : List RequestText) : List Byte := (reqs.map RequestText.render).flatten

/-- Reading the beginning of a stream of requests finds the first request as a whole, or nothing
yet. -/
theorem reads_stream {todo : List RequestText} {bs rest : List Byte} {ctx : HttpContext} {ok : Bool}
    (h : Reads readLine (HttpContext.fresh, true) bs (ctx, ok) rest)
    (hpre : bs <+: streamOf todo) :
    ok = true ∧ ((¬ ctx.gotAll ∧ ∀ r : RequestText, ¬ r.render <+: bs) ∨
      ∃ r todo', todo = r :: todo' ∧ ctx = { state := .kGotAll, request := r.request } ∧
        bs = r.render ++ rest) := by
  have hnone : ¬ ctx.gotAll → ∀ r : RequestText, ¬ r.render <+: bs := by
    rintro hgot r ⟨more, rfl⟩
    obtain ⟨hctx, _⟩ := h.deterministic (r.reads_render more)
    cases hctx
    exact hgot rfl
  cases todo with
  | nil =>
    obtain rfl : bs = [] := List.prefix_nil.1 hpre
    obtain ⟨hctx, _⟩ := h.deterministic (.stop (readLine_none rfl))
    cases hctx
    exact ⟨rfl, Or.inl ⟨nofun, hnone nofun⟩⟩
  | cons r todo =>
    have hr : r.render <+: streamOf (r :: todo) := List.prefix_append _ _
    rcases Nat.lt_or_ge bs.length r.render.length with hlt | hge
    · -- a part of the request is missing, so the reader has not stopped for good
      obtain ⟨missing, hmissing⟩ := List.prefix_of_prefix_length_le hpre hr (Nat.le_of_lt hlt)
      have hall := r.reads_render []
      rw [List.append_nil, ← hmissing] at hall
      have hgo : ¬ (ok = false ∨ ctx.gotAll) := by
        intro hstop
        have hstay : readLine (ctx, ok) (rest ++ missing) = none := by
          cases ok with
          | false => rfl
          | true => exact readLine_gotAll (hstop.resolve_left nofun)
        obtain ⟨_, hnil⟩ := (h.resume readLine_stable (.stop hstay)).deterministic hall
        rw [(List.append_eq_nil_iff.1 hnil).2, List.append_nil] at hmissing
        rw [hmissing] at hlt
        exact Nat.lt_irrefl _ hlt
      obtain ⟨hok, hgot⟩ := not_or.1 hgo
      exact ⟨by simpa using hok, Or.inl ⟨hgot, hnone hgot⟩⟩
    · obtain ⟨more, rfl⟩ := List.prefix_of_prefix_length_le hr hpre hge
      obtain ⟨hctx, rfl⟩ := h.deterministic (r.reads_render more)
      cases hctx
      exact ⟨rfl, Or.inr ⟨r, todo, rfl, rfl, rfl⟩⟩

theorem streamOf_append (reqs reqs' : List RequestText) :
    streamOf (reqs ++ reqs') = streamOf reqs ++ streamOf reqs' := by
  simp [streamOf]

theorem init_serving : Serving callback init [] where
  wf := Buffer.fresh_wf
  parsing := Or.inl ⟨rfl, rfl⟩
  reached := by
    intro more s' rest h
    have hempty : init.buf.readable = [] := Buffer.fresh_readable
    rw [hempty] at h
    exact h
  requests := .nil
  sent := rfl
  shutdown := rfl
  no_request := fun r h => r.render_ne_nil (List.prefix_nil.1 h)
  buffered := by
    have hempty : init.buf.readable = [] := Buffer.fresh_readable
    rw [hempty]
    exact List.nil_suffix

/-- A segment completes the next request, or none. -/
theorem Serving.receive {s s' : HttpSession} {seg : Segment} {answered todo : List RequestText}
    (h : Serving callback s answered) (hone : s.OneRequest seg)
    (hpre : s.unanswered ++ seg.bytes.val <+: streamOf todo)
    (hx : s.receive callback seg = .ok s') :
    ∃ answered' todo', answered' ++ todo' = answered ++ todo ∧ Serving callback s' answered' ∧
      streamOf answered' ++ s'.unanswered =
        streamOf answered ++ (s.unanswered ++ seg.bytes) := by
  rcases receive_spec callback h.wf h.parsing seg with ⟨ok, ctx, s₁, hx₁, hrec⟩ | ⟨hx₁, _⟩
  swap
  · cases hx.symm.trans hx₁
  cases hx.symm.trans hx₁
  have hleft := hrec.left
  obtain ⟨rfl, ⟨hgot, hnone⟩ | ⟨r, todo', rfl, hctx, hbs⟩⟩ :=
    reads_stream (h.reached _ _ _ hrec.reading) hpre
  · have hgot : ¬ ctx.gotAll := hgot
    have hcontext := hrec.context
    have hrequests := hrec.requests
    have hunanswered := hrec.unanswered
    have hsent := hrec.sent rfl
    have hshut := hrec.shutdown rfl
    rw [if_neg hgot] at hcontext hrequests hunanswered hsent hshut
    refine ⟨answered, todo, rfl, ?_, by rw [hunanswered]⟩
    refine ⟨hrec.wf, ?_, ?_, hrequests ▸ h.requests, ?_, ?_, hunanswered ▸ hnone, ?_⟩
    · rw [hcontext]
      exact hleft.resolve_left hgot
    · intro more s'' rest hreads
      rw [hcontext] at hreads
      have hlater := hrec.reading.resume readLine_stable hreads
      rw [List.append_assoc] at hlater
      rw [hunanswered, List.append_assoc]
      exact h.reached _ _ _ hlater
    · rw [hsent, hrequests, h.sent]
    · rw [hshut, hrequests, h.shutdown]
    · rw [hunanswered]
      refine (hrec.reading.suffix readLine_suffix).trans ?_
      obtain ⟨front, hfront⟩ := h.buffered
      exact ⟨front, by rw [← List.append_assoc, hfront]⟩
  · have hgot : ctx.gotAll := by rw [← timeless_gotAll, hctx]; rfl
    have hcontext := hrec.context
    have hrequests := hrec.requests
    have hunanswered := hrec.unanswered
    have hsent := hrec.sent rfl
    have hshut := hrec.shutdown rfl
    rw [if_pos hgot] at hcontext hrequests hunanswered hsent hshut
    refine ⟨answered ++ [r], todo', by simp, ?_, ?_⟩
    · refine ⟨hrec.wf, hcontext ▸ Or.inl ⟨rfl, rfl⟩, ?_, ?_, ?_, ?_, ?_, ?_⟩
      · intro more s'' rest hreads
        rw [hcontext] at hreads
        rw [hunanswered]
        exact hreads
      · rw [hrequests]
        exact List.rel_append h.requests (.cons (congrArg HttpContext.request hctx) .nil)
      · rw [hsent, hrequests, upTo_append, h.shutdown, h.sent,
          apply_ite (List.map (reply callback)), List.map_append, List.map_singleton]
      · rw [hshut, hrequests, h.shutdown, List.any_append, List.any_cons, List.any_nil,
          Bool.or_false]
      · -- a second whole request would stand behind the first one
        rintro r' ⟨more, hmore⟩
        rw [hunanswered] at hmore
        exact hone r r' ⟨more, by rw [hbs, ← hmore, List.append_assoc]⟩
      · exact ⟨[], hunanswered.symm⟩
    · rw [streamOf_append, hunanswered, hbs, List.append_assoc]
      simp [streamOf]

theorem run_serving (reqs : List RequestText) {segs : List Segment} {s : HttpSession}
    (hrun : ((httpSession callback).under OneRequest).Run init segs s)
    (hstream : bytesOf segs <+: streamOf reqs) :
    ∃ answered todo, reqs = answered ++ todo ∧ Serving callback s answered ∧
      bytesOf segs = streamOf answered ++ s.unanswered := by
  have hinit : bytesOf [] <+: streamOf reqs → ∃ answered todo, reqs = answered ++ todo ∧
      Serving callback init answered ∧ bytesOf [] = streamOf answered ++ init.unanswered :=
    fun _ => ⟨[], reqs, rfl, init_serving callback, rfl⟩
  refine hrun.keeps_trace
    (I := fun segs (s : HttpSession) => bytesOf segs <+: streamOf reqs →
      ∃ answered todo, reqs = answered ++ todo ∧ Serving callback s answered ∧
        bytesOf segs = streamOf answered ++ s.unanswered) ?_ hinit hstream
  intro segs s seg s' ih he hx hpre
  have hcat : bytesOf (segs ++ [seg]) = bytesOf segs ++ seg.bytes := by simp [bytesOf]
  rw [hcat] at hpre ⊢
  obtain ⟨answered, todo, rfl, hserving, hbytes⟩ := ih ((List.prefix_append _ _).trans hpre)
  rw [hbytes, List.append_assoc] at hpre ⊢
  rw [streamOf_append, List.prefix_append_right_inj] at hpre
  obtain ⟨answered', todo', hsame, hserving', hbytes'⟩ := hserving.receive callback he.2 hpre hx
  exact ⟨answered', todo', hsame.symm, hserving', hbytes'.symm⟩

/-- On a stream of requests of which each segment completes at most one: the requests passed to
`onRequest` are those of the stream that have arrived as a whole, in order; their responses are
sent, in order, up to the first that closes the connection, and it is shut down if and only if there
is one; what is in the buffer completes no further request. -/
theorem answers_every_request (reqs : List RequestText) {segs : List Segment} {s : HttpSession}
    (hrun : ((httpSession callback).under OneRequest).Run init segs s)
    (hstream : bytesOf segs <+: streamOf reqs) :
    (∃ answered todo, reqs = answered ++ todo ∧
      List.Forall₂ (fun q r => q.timeless = RequestText.request r) s.requests answered ∧
      s.sent = (upTo (closes callback) s.requests).map (reply callback) ∧
      s.shutdown = s.requests.any (closes callback) ∧
      bytesOf segs = streamOf answered ++ s.unanswered ∧
      (∀ r : RequestText, ¬ r.render <+: s.unanswered) ∧ s.buf.readable <:+ s.unanswered ∧
      (bytesOf segs = streamOf reqs → answered = reqs)) ∧
    ∀ seg, (∃ s', (httpSession callback).exec s seg = .ok s') ∨
      ((httpSession callback).exec s seg = .error .lengthError ∧
        maxSize < s.buf.readable.length + 2 * seg.bytes.val.length + Buffer.kCheapPrepend) := by
  obtain ⟨answered, todo, hreqs, hserving, hbytes⟩ := run_serving callback reqs hrun hstream
  refine ⟨⟨answered, todo, hreqs, hserving.requests, hserving.sent, hserving.shutdown, hbytes,
    hserving.no_request, hserving.buffered, fun hall => ?_⟩, fun seg => ?_⟩
  · -- what is left of the stream would begin with a whole request
    cases todo with
    | nil => rw [hreqs, List.append_nil]
    | cons r todo =>
      rw [hbytes, hreqs, streamOf_append, List.append_cancel_left_eq] at hall
      exact absurd (hall ▸ List.prefix_append _ _ : r.render <+: s.unanswered)
        (hserving.no_request r)
  · rcases receive_spec callback hserving.wf hserving.parsing seg with ⟨_, _, s', hx, _⟩ | hfull
    · exact Or.inl ⟨s', hx⟩
    · exact Or.inr hfull

/-- `GET / HTTP/1.1` without headers. -/
def getRoot : RequestText where
  method := ascii ['G', 'E', 'T']
  target := ascii ['/']
  digit := chr '1'
  headers := []
  method_known := by decide
  target_no_space := by decide
  digit_known := by decide
  line_ends := by decide
  headers_colon := nofun
  headers_end := nofun

theorem oneRequest_of_short (s : HttpSession) (seg : Segment)
    (h : (s.unanswered ++ seg.bytes).length < 30) : s.OneRequest seg := by
  intro r r' hpre
  have hlen := hpre.length_le
  have := r.render_length
  have := r'.render_length
  rw [List.length_append] at hlen
  omega

/-- The request in two segments, and half of the next one. -/
theorem answers_every_request_sample :
    ∃ s, ((httpSession plainCallback).under OneRequest).Run init
        [⟨⟨getRoot.render.take 5, by decide⟩, 1⟩, ⟨⟨getRoot.render.drop 5, by decide⟩, 2⟩,
          ⟨⟨getRoot.render.take 5, by decide⟩, 3⟩] s ∧
      s.requests.length = 1 ∧
      ∃ answered todo, [getRoot, getRoot] = answered ++ todo ∧
        List.Forall₂ (fun q r => q.timeless = RequestText.request r) s.requests answered := by
  obtain ⟨s, hrun, hs⟩ := Machine.Run.of_replay
    ((httpSession plainCallback).under fun s seg => (s.unanswered ++ seg.bytes).length < 30) init
    [⟨⟨getRoot.render.take 5, by decide⟩, 1⟩, ⟨⟨getRoot.render.drop 5, by decide⟩, 2⟩,
      ⟨⟨getRoot.render.take 5, by decide⟩, 3⟩]
    (fun s => s.requests.length) 1 (by decide +kernel)
  have hrun' := hrun.under_mono oneRequest_of_short
  obtain ⟨⟨answered, todo, hreqs, hall, _⟩, _⟩ := answers_every_request plainCallback
    [getRoot, getRoot] hrun' (by decide)
  exact ⟨s, hrun', hs, answered, todo, hreqs, hall⟩

/-- Two requests in one segment: the second one stays in the buffer, whole and unanswered, and the
connection is not shut down. -/
theorem pipelined_unanswered :
    ∃ s, (httpSession plainCallback).Run init
        [⟨⟨streamOf [getRoot, getRoot], by decide⟩, 1⟩] s ∧
      s.requests.length = 1 ∧ s.shutdown = false ∧ s.buf.readable = getRoot.render := by
  obtain ⟨s, hrun, hs⟩ := Machine.Run.of_replay (httpSession plainCallback) init
    [⟨⟨streamOf [getRoot, getRoot], by decide⟩, 1⟩]
    (fun s => (s.requests.length, s.shutdown, s.buf.readable)) (1, false, getRoot.render)
    (by decide +kernel)
  obtain ⟨hlen, hs⟩ := Prod.mk.inj hs
  obtain ⟨hshut, hbuf⟩ := Prod.mk.inj hs
  exact ⟨s, hrun, hlen, hshut, hbuf⟩

end HttpSession
end TinyMuduo
