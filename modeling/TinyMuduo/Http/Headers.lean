import TinyMuduo.Http.Grammar

/-!
# Http.Headers

Where the header section ends, for every input of a fresh context.

The parser takes a line without a colon for the empty line. So a request is complete when its text
is a `RequestText`, or when a line that is neither empty nor a header line follows its header lines
(`Stray`): `gotAll_iff`. Without such a line the parser accepts exactly the requests of the grammar,
and what it leaves in the buffer is what follows the empty line.
-/

namespace TinyMuduo

open Incremental HttpContext RequestText

/-! ## Lines -/

/-- The line before the first CRLF, and what follows it. -/
theorem line_inj {line line' : Str} {more more' : List Byte} (h : ¬ crlf <:+: line)
    (h' : ¬ crlf <:+: line') (heq : line ++ crlf ++ more = line' ++ crlf ++ more') :
    line = line' ∧ more = more' := by
  have hlen : line.length = line'.length := by
    have := searchCRLF_line h more
    rw [heq, searchCRLF_line h' more'] at this
    exact (Option.some.inj this).symm
  rw [List.append_assoc, List.append_assoc] at heq
  obtain ⟨hl, hr⟩ := List.append_inj heq hlen
  exact ⟨hl, List.append_cancel_left hr⟩

/-- What a line of the header section did. -/
theorem readLine_header_some {q : HttpRequest} {bs rest : List Byte} {s : HttpContext × Bool}
    (h : readLine ({ state := .kExpectHeaders, request := q }, true) bs = some (s, rest)) :
    ∃ line, bs = line ++ crlf ++ rest ∧ ¬ crlf <:+: line ∧
      (chr ':' ∈ line ∧ s = ({ state := .kExpectHeaders, request := { q with
          headers := Function.update q.headers (fieldOf line) (some (valueOf line)) } }, true) ∨
        chr ':' ∉ line ∧ s = ({ state := .kGotAll, request := q }, true)) := by
  cases hk : searchCRLF bs with
  | none => rw [readLine_none hk] at h; cases h
  | some k =>
    obtain ⟨hcut, hfirst⟩ := searchCRLF_cut hk
    by_cases hcolon : chr ':' ∈ bs.take k
    · rw [readLine_taken hk (takeLine_header q hcolon)] at h
      cases h
      exact ⟨bs.take k, hcut, hfirst, Or.inl ⟨hcolon, rfl⟩⟩
    · rw [readLine_taken hk (takeLine_no_colon q hcolon)] at h
      cases h
      exact ⟨bs.take k, hcut, hfirst, Or.inr ⟨hcolon, rfl⟩⟩

/-- What the first line did: it is a line of the grammar, or it was rejected. -/
theorem readLine_fresh_some {bs rest : List Byte} {s : HttpContext × Bool}
    (h : readLine (HttpContext.fresh, true) bs = some (s, rest)) :
    (∃ l : RequestLine, l.Valid ∧ ¬ crlf <:+: l.text ∧ bs = l.text ++ crlf ++ rest ∧
      s = ({ state := .kExpectHeaders, request := l.request }, true)) ∨
    s.1.state = .kExpectRequestLine ∧ s.2 = false := by
  cases hk : searchCRLF bs with
  | none => rw [readLine_none hk] at h; cases h
  | some k =>
    obtain ⟨hcut, hfirst⟩ := searchCRLF_cut hk
    obtain ⟨⟨ok, r⟩, hres⟩ := processRequestLine_ok (r := .fresh) (bs.take k) rfl
    have htake : takeLine .fresh (bs.take k) = if ok then
        some ({ state := .kExpectHeaders, request := r }, true)
        else some ({ HttpContext.fresh with request := r }, false) := by
      simp only [takeLine, HttpContext.fresh, hres]
      cases ok <;> rfl
    cases ok with
    | false =>
      rw [readLine_rejected hk htake] at h
      cases h
      exact Or.inr ⟨rfl, rfl⟩
    | true =>
      rw [readLine_taken hk htake] at h
      cases h
      obtain ⟨l, hl, htext⟩ := RequestLine.processRequestLine_true hres
      rw [← htext, l.processRequestLine_text hl] at hres
      cases hres
      exact Or.inl ⟨l, hl, by rw [htext]; exact hfirst, by rw [htext]; exact hcut, rfl⟩

/-! ## The header section -/

/-- Reading from the header section on, when it comes to its end: header lines, and a line without
a colon. -/
theorem reads_headers_gotAll {s s' : HttpContext × Bool} {bs rest : List Byte}
    (h : Reads readLine s bs s' rest) {q : HttpRequest}
    (hs : s = ({ state := .kExpectHeaders, request := q }, true)) (hgot : s'.1.gotAll = true) :
    ∃ lines last, (∀ line ∈ lines, chr ':' ∈ line) ∧ (∀ line ∈ lines, ¬ crlf <:+: line) ∧
      chr ':' ∉ last ∧ ¬ crlf <:+: last ∧ bs = headerLines lines ++ (last ++ crlf ++ rest) := by
  induction h generalizing q with
  | stop _ =>
    rw [hs] at hgot
    cases hgot
  | step hstep hreads ih =>
    rw [hs] at hstep
    obtain ⟨line, hbs, hend, ⟨hcolon, hnext⟩ | ⟨hcolon, hnext⟩⟩ := readLine_header_some hstep
    · obtain ⟨lines, last, hcolons, hends, hlast, hlastEnd, hrest⟩ := ih hnext hgot
      refine ⟨line :: lines, last, ?_, ?_, hlast, hlastEnd, ?_⟩
      · exact List.forall_mem_cons.2 ⟨hcolon, hcolons⟩
      · exact List.forall_mem_cons.2 ⟨hend, hends⟩
      · rw [hbs, hrest, headerLines_cons, List.append_assoc (line ++ crlf)]
    · -- nothing is read after that line
      rw [hnext] at hreads
      cases hreads with
      | stop _ => exact ⟨[], line, nofun, nofun, hcolon, hend, hbs⟩
      | step hstep' _ =>
        rw [readLine_gotAll rfl] at hstep'
        cases hstep'

/-- A line that is neither empty nor a header line follows the request line and header lines. -/
def Stray (bs : List Byte) : Prop :=
  ∃ (r : RequestText) (last : Str) (more : List Byte), last ≠ [] ∧ chr ':' ∉ last ∧
    ¬ crlf <:+: last ∧
      bs = r.requestLine ++ crlf ++ (headerLines r.headers ++ (last ++ crlf ++ more))

/-- Reading a fresh context to the end of the header section. -/
theorem reads_fresh_gotAll {s' : HttpContext × Bool} {bs rest : List Byte}
    (h : Reads readLine (HttpContext.fresh, true) bs s' rest) (hgot : s'.1.gotAll = true) :
    (∃ r : RequestText, r.render <+: bs) ∨ Stray bs := by
  cases h with
  | stop _ => cases hgot
  | step hstep hreads =>
    rcases readLine_fresh_some hstep with ⟨l, hl, hfirst, hbs, hs⟩ | ⟨hstate, hok⟩
    · obtain ⟨lines, last, hcolon, hend, hlast, hlastEnd, hrest⟩ :=
        reads_headers_gotAll hreads hs hgot
      obtain ⟨m, hm⟩ := hl.method
      obtain ⟨hmethod, hne, -⟩ := methodOf_eq hm
      let r : RequestText :=
        ⟨l.method, l.target, l.digit, lines, hmethod.trans_ne hne, hl.target, hl.digit, hfirst,
          hcolon, hend⟩
      by_cases hempty : last = []
      · refine Or.inl ⟨r, rest, ?_⟩
        rw [r.render_append, hbs, hrest, hempty]
        rfl
      · refine Or.inr ⟨r, last, rest, hempty, hlast, hlastEnd, ?_⟩
        rw [hbs, hrest]
        rfl
    · -- a rejected line ends the reading
      rename_i s₁ bs₁
      obtain ⟨ctx, ok⟩ := s₁
      cases hok
      cases hreads with
      | stop _ => rw [gotAll, hstate] at hgot; cases hgot
      | step hstep' _ => cases hstep'

/-- Header lines and the line behind them can be read off a text. -/
theorem headerLines_inj {lines lines' : List Str} {last last' : Str} {more more' : List Byte}
    (hcolon : ∀ line ∈ lines, chr ':' ∈ line ∧ ¬ crlf <:+: line) (hlast : chr ':' ∉ last)
    (hlastEnd : ¬ crlf <:+: last)
    (hcolon' : ∀ line ∈ lines', chr ':' ∈ line ∧ ¬ crlf <:+: line) (hlast' : chr ':' ∉ last')
    (hlastEnd' : ¬ crlf <:+: last')
    (h : headerLines lines ++ (last ++ crlf ++ more) =
      headerLines lines' ++ (last' ++ crlf ++ more')) : last = last' := by
  induction lines generalizing lines' with
  | nil =>
    cases lines' with
    | nil => exact (line_inj hlastEnd hlastEnd' h).1
    | cons line' lines' =>
      obtain ⟨hc, he⟩ := hcolon' line' List.mem_cons_self
      rw [headerLines_cons, List.append_assoc (line' ++ crlf)] at h
      exact absurd ((line_inj hlastEnd he h).1 ▸ hc) hlast
  | cons line lines ih =>
    obtain ⟨hc, he⟩ := hcolon line List.mem_cons_self
    rw [headerLines_cons, List.append_assoc (line ++ crlf)] at h
    cases lines' with
    | nil => exact absurd ((line_inj he hlastEnd' h).1 ▸ hc) hlast'
    | cons line' lines' =>
      rw [headerLines_cons, List.append_assoc (line' ++ crlf)] at h
      exact ih (fun l hl => hcolon l (List.mem_cons_of_mem _ hl))
        (fun l hl => hcolon' l (List.mem_cons_of_mem _ hl))
        (line_inj he (hcolon' line' List.mem_cons_self).2 h).2

/-- A text with a stray line is no request. -/
theorem render_not_stray (r : RequestText) (more : List Byte) : ¬ Stray (r.render ++ more) := by
  rintro ⟨r', last, more', hne, hlast, hlastEnd, heq⟩
  rw [r.render_append] at heq
  obtain ⟨-, hrest⟩ := line_inj r.line_ends r'.line_ends heq
  exact hne (headerLines_inj (fun l hl => ⟨r'.headers_colon l hl, r'.headers_end l hl⟩) hlast
    hlastEnd (fun l hl => ⟨r.headers_colon l hl, r.headers_end l hl⟩) List.not_mem_nil
    not_crlf_infix_nil hrest.symm)

section Fed

variable {receiveTime : Int} {pieces : List Data} {p : HttpParser}

/-- After a text that the reader reads to its end. -/
theorem context_of_reads (h : p.Inv) {bs more : List Byte} {q : HttpRequest} (heq : p.fed = bs)
    (hreads : Reads readLine (HttpContext.fresh, true) bs
      ({ state := .kGotAll, request := q }, true) more) :
    p.context.gotAll = true ∧ p.context.request.timeless = q ∧ p.buf.readable = more := by
  have hreading := h.reading
  rw [heq] at hreading
  obtain ⟨hsame, hrest⟩ := hreading.deterministic hreads
  obtain ⟨hctx, -⟩ := Prod.mk.inj hsame
  refine ⟨?_, congrArg HttpContext.request hctx, hrest⟩
  rw [← timeless_gotAll, hctx]
  rfl

/-- The header section ends at the empty line of a request, or at a stray line. -/
theorem gotAll_iff (h : p.Inv) :
    p.context.gotAll = true ↔ (∃ r : RequestText, r.render <+: p.fed) ∨ Stray p.fed := by
  constructor
  · intro hgot
    exact reads_fresh_gotAll h.reading (by rw [timeless_gotAll]; exact hgot)
  · rintro (⟨r, more, heq⟩ | ⟨r, last, more, -, hlast, hlastEnd, heq⟩)
    · exact (context_of_reads h heq.symm (r.reads_render more)).1
    · exact (context_of_reads h heq (r.reads_text hlast hlastEnd more)).1

/-- **Where the header section ends.** Whatever is fed to a fresh context, and however it is cut:
that the request is complete exactly when the input starts with a request line, header lines and an
empty line is so if and only if no stray line is in it. Behind such a text, what is left is what
follows the empty line, and the request is the one of the text: each header is split at its first
colon and its value is trimmed, and a later header of the same name wins. -/
theorem header_section_ends (hrun : (httpParser receiveTime).Run .init pieces p) :
    p.fed = (pieces.map Subtype.val).flatten ∧
    ((p.context.gotAll = true ↔ ∃ r : RequestText, r.render <+: p.fed) ↔ ¬ Stray p.fed) ∧
    (∀ (r : RequestText) more, p.fed = r.render ++ more →
      p.buf.readable = more ∧ p.context.request.timeless = r.request) ∧
    ∀ piece, ¬ p.Stopped → (∃ p', (httpParser receiveTime).exec p piece = .ok p') ∨
      ((httpParser receiveTime).exec p piece = .error .lengthError ∧
        maxSize < p.buf.readable.length + 2 * piece.val.length + Buffer.kCheapPrepend) := by
  obtain ⟨hinv, hfed⟩ := HttpParser.run_inv hrun
  refine ⟨hfed, ?_, fun r more heq => ?_, fun piece hgo => ?_⟩
  · rw [gotAll_iff hinv]
    refine ⟨fun h hstray => ?_, or_iff_left⟩
    obtain ⟨r, more, heq⟩ := h.1 (.inr hstray)
    exact render_not_stray r more (heq ▸ hstray)
  · obtain ⟨-, hrequest, hread⟩ := context_of_reads hinv heq (r.reads_render more)
    exact ⟨hread, hrequest⟩
  · rcases HttpParser.feed_spec receiveTime hinv hgo piece with ⟨p', hx, _, _⟩ | hfull
    · exact Or.inl ⟨p', hx⟩
    · exact Or.inr hfull

end Fed

theorem methodOf_get : HttpRequest.methodOf (ascii ['G', 'E', 'T']) ≠ .kInvalid := by decide

theorem space_not_mem_root : chr ' ' ∉ ascii ['/'] := by decide

/-- `GET / HTTP/1.0` with the same header twice. -/
def twoHeaders : RequestText where
  method := ascii ['G', 'E', 'T']
  target := ascii ['/']
  digit := chr '0'
  headers := [ascii ['k', ':', 'v'], ascii ['k', ':', ' ', 'w', ' ']]
  method_known := methodOf_get
  target_no_space := space_not_mem_root
  digit_known := by decide
  line_ends := by decide
  headers_colon := by decide
  headers_end := by decide

/-- The second value wins, and the byte after the empty line is left. -/
theorem header_section_ends_sample :
    ∃ p, (httpParser 5).Run .init [⟨twoHeaders.render ++ [chr 'x'], by decide⟩] p ∧
      p.context.gotAll = true ∧ p.buf.readable = [chr 'x'] ∧
      p.context.request.headers (ascii ['k']) = some (ascii ['w']) := by
  obtain ⟨p, hrun, hobs⟩ := Machine.Run.of_replay (httpParser 5) .init
    [⟨twoHeaders.render ++ [chr 'x'], by decide⟩] (fun p => p.fed)
    (twoHeaders.render ++ [chr 'x']) (by decide +kernel)
  have hclean : ¬ Stray p.fed := by
    rw [hobs]
    exact render_not_stray twoHeaders [chr 'x']
  obtain ⟨-, hgot, hleft, -⟩ := header_section_ends hrun
  obtain ⟨hread, hrequest⟩ := hleft twoHeaders [chr 'x'] hobs
  refine ⟨p, hrun, (hgot.2 hclean).2 ⟨twoHeaders, [chr 'x'], hobs.symm⟩, hread, ?_⟩
  show p.context.request.timeless.headers _ = _
  rw [hrequest]
  decide

/-- `GET / HTTP/1.0` and a line `foo`: the request is complete, although no empty line has come. -/
theorem header_section_ends_at_foo :
    ∃ p, (httpParser 5).Run .init
        [⟨ascii ['G', 'E', 'T', ' ', '/', ' ', 'H', 'T', 'T', 'P', '/', '1', '.', '0', '\r', '\n',
          'f', 'o', 'o', '\r', '\n'], by decide⟩] p ∧
      p.context.gotAll = true ∧ p.buf.readable = [] ∧ ¬ ∃ r : RequestText, r.render <+: p.fed := by
  obtain ⟨p, hrun, hobs⟩ := Machine.Run.of_replay (httpParser 5) .init
    [⟨ascii ['G', 'E', 'T', ' ', '/', ' ', 'H', 'T', 'T', 'P', '/', '1', '.', '0', '\r', '\n',
      'f', 'o', 'o', '\r', '\n'], by decide⟩]
    (fun p => (p.context.gotAll, p.buf.readable, p.fed))
    (true, [], twoHeaders.requestLine ++ crlf ++ ascii ['f', 'o', 'o'] ++ crlf) (by decide +kernel)
  obtain ⟨hgot, hobs⟩ := Prod.mk.inj hobs
  obtain ⟨hread, hfed⟩ := Prod.mk.inj hobs
  have hstray : Stray p.fed :=
    ⟨{ twoHeaders with headers := [], headers_colon := nofun, headers_end := nofun },
      ascii ['f', 'o', 'o'], [], by decide, by decide, by decide, hfed⟩
  refine ⟨p, hrun, hgot, hread, ?_⟩
  rintro ⟨r, more, heq⟩
  exact render_not_stray r more (heq ▸ hstray)

end TinyMuduo
