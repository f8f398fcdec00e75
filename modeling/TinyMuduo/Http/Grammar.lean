import TinyMuduo.Http.RequestLine

/-!
# Http.Grammar

Requests as they stand on the wire (`RequestText`): a request line, header lines and an empty line,
each ended by CRLF. `request` says what such a text means, and `reads_render` that this is what the
parser gets from it, up to the last byte of the text and no further.
-/

namespace TinyMuduo

open Incremental HttpContext

/-- The request without a body: the parser has none. -/
structure RequestText where
  method : Str
  target : Str
  digit : Byte
  headers : List Str
  method_known : HttpRequest.methodOf method ≠ .kInvalid
  target_no_space : chr ' ' ∉ target
  digit_known : digit = chr '0' ∨ digit = chr '1'
  line_ends : ¬ crlf <:+: method ++ chr ' ' :: (target ++ chr ' ' ::
    (ascii ['H', 'T', 'T', 'P', '/', '1', '.'] ++ [digit]))
  headers_colon : ∀ line ∈ headers, chr ':' ∈ line
  headers_end : ∀ line ∈ headers, ¬ crlf <:+: line

namespace RequestText

variable (r : RequestText)

def versionText : Str := ascii ['H', 'T', 'T', 'P', '/', '1', '.'] ++ [r.digit]

def requestLine : Str := r.method ++ chr ' ' :: (r.target ++ chr ' ' :: r.versionText)

/-- The header lines and the empty line. -/
def headerSection : List Str → Str
  | [] => crlf
  | line :: lines => line ++ crlf ++ headerSection lines

def render : Str := r.requestLine ++ crlf ++ headerSection r.headers

/-! ## What it means -/

def path : Str := r.target.takeWhile (· ≠ chr '?')

/-- With the question mark. -/
def query : Str := r.target.dropWhile (· ≠ chr '?')

def trim (s : Str) : Str := (s.dropWhile HttpRequest.isspace).rdropWhile HttpRequest.isspace

def fieldOf (line : Str) : Str := line.takeWhile (· ≠ chr ':')

def valueOf (line : Str) : Str := trim ((line.dropWhile (· ≠ chr ':')).drop 1)

/-- A later header of the same name wins. -/
def headerMap (lines : List Str) : Str → Option Str :=
  lines.foldl (fun map line => Function.update map (fieldOf line) (some (valueOf line)))
    fun _ => none

/-- The request, without its time of receipt. -/
def request : HttpRequest where
  method := HttpRequest.methodOf r.method
  version := if r.digit = chr '1' then .kHttp11 else .kHttp10
  path := r.path
  query := r.query
  receiveTime := 0
  headers := headerMap r.headers

/-! ## The request line is accepted -/

def line : RequestLine := ⟨r.method, r.target, r.digit⟩

theorem line_valid : r.line.Valid :=
  ⟨⟨_, mem_methodNames r.method_known⟩, r.target_no_space, r.digit_known⟩

theorem versionText_length : r.versionText.length = 8 := r.line.versionText_length

theorem processRequestLine_requestLine :
    processRequestLine .fresh r.requestLine =
      .ok (true, { r.request with headers := fun _ => none }) :=
  r.line.processRequestLine_text r.line_valid

/-! ## The header section -/

theorem addHeader_colon (q : HttpRequest) (line : Str) :
    q.addHeader line (line.findIdx (· = chr ':')) =
      { q with headers := Function.update q.headers (fieldOf line) (some (valueOf line)) } := by
  rw [HttpRequest.addHeader, Cut.take_findIdx, ← List.drop_drop, Cut.drop_findIdx]
  rfl

theorem takeLine_header (q : HttpRequest) {line : Str} (h : chr ':' ∈ line) :
    takeLine { state := .kExpectHeaders, request := q } line =
      some ({ state := .kExpectHeaders, request := { q with
        headers := Function.update q.headers (fieldOf line) (some (valueOf line)) } }, true) := by
  have hcolon : line.findIdx (· = chr ':') ≠ line.length :=
    Nat.ne_of_lt (List.findIdx_lt_length_of_exists ⟨_, h, by simp⟩)
  simp only [takeLine]
  rw [if_pos hcolon, addHeader_colon]

theorem takeLine_no_colon (q : HttpRequest) {line : Str} (h : chr ':' ∉ line) :
    takeLine { state := .kExpectHeaders, request := q } line =
      some ({ state := .kGotAll, request := q }, true) := by
  have hnone : line.findIdx (· = chr ':') = line.length :=
    List.findIdx_eq_length_of_false fun x hx => by
      simpa using fun heq : x = chr ':' => h (heq ▸ hx)
  simp only [takeLine]
  rw [if_neg (not_not.2 hnone)]

/-- Header lines, each with its CRLF. -/
def headerLines (lines : List Str) : Str := (lines.map (· ++ crlf)).flatten

theorem headerLines_cons (line : Str) (lines : List Str) :
    headerLines (line :: lines) = line ++ crlf ++ headerLines lines := rfl

theorem headerSection_eq (lines : List Str) : headerSection lines = headerLines lines ++ crlf := by
  induction lines with
  | nil => rfl
  | cons line lines ih => rw [headerSection, ih, headerLines_cons, ← List.append_assoc]

/-- A line without a CRLF in it, at the front of the input, is taken. -/
theorem readLine_front {ctx ctx' : HttpContext} {line : Str} (h : ¬ crlf <:+: line)
    (ht : takeLine ctx line = some (ctx', true)) (more : List Byte) :
    readLine (ctx, true) (line ++ crlf ++ more) = some ((ctx', true), more) := by
  obtain ⟨hline, hrest⟩ := line_parts line more
  rw [readLine_taken (searchCRLF_line h more) (by rw [hline]; exact ht), hrest]

/-- Any line without a colon ends the header section, the empty one among them. -/
theorem reads_headerLines {lines : List Str} {last : Str} (q : HttpRequest) (more : List Byte)
    (hcolon : ∀ line ∈ lines, chr ':' ∈ line) (hend : ∀ line ∈ lines, ¬ crlf <:+: line)
    (hlast : chr ':' ∉ last) (hlastEnd : ¬ crlf <:+: last) :
    Reads readLine ({ state := .kExpectHeaders, request := q }, true)
      (headerLines lines ++ (last ++ crlf ++ more))
      ({ state := .kGotAll, request := { q with
        headers := lines.foldl (fun map line =>
          Function.update map (fieldOf line) (some (valueOf line))) q.headers } }, true) more := by
  induction lines generalizing q with
  | nil =>
    exact .step (readLine_front hlastEnd (takeLine_no_colon q hlast) more)
      (.stop (readLine_gotAll rfl))
  | cons line lines ih =>
    have htext : headerLines (line :: lines) ++ (last ++ crlf ++ more) =
        line ++ crlf ++ (headerLines lines ++ (last ++ crlf ++ more)) := by
      rw [headerLines_cons, List.append_assoc]
    have htake := takeLine_header q (hcolon line List.mem_cons_self)
    rw [htext]
    refine .step (readLine_front (hend line List.mem_cons_self) htake _) ?_
    exact ih _ (fun l hl => hcolon l (List.mem_cons_of_mem _ hl))
      (fun l hl => hend l (List.mem_cons_of_mem _ hl))

theorem takeLine_requestLine : takeLine .fresh r.requestLine =
    some (⟨.kExpectHeaders, { r.request with headers := fun _ => none }⟩, true) := by
  simp only [takeLine, HttpContext.fresh, processRequestLine_requestLine]

/-- A request is read up to its last byte, also when a line that is not empty ends it. -/
theorem reads_text {last : Str} (hlast : chr ':' ∉ last) (hlastEnd : ¬ crlf <:+: last)
    (more : List Byte) :
    Reads readLine (HttpContext.fresh, true)
      (r.requestLine ++ crlf ++ (headerLines r.headers ++ (last ++ crlf ++ more)))
      ({ state := .kGotAll, request := r.request }, true) more := by
  refine .step (readLine_front r.line_ends r.takeLine_requestLine _) ?_
  exact reads_headerLines _ more r.headers_colon r.headers_end hlast hlastEnd

theorem render_append (more : List Byte) :
    r.render ++ more = r.requestLine ++ crlf ++
      (headerLines r.headers ++ ([] ++ crlf ++ more)) := by
  simp only [render, headerSection_eq, List.append_assoc, List.nil_append]

/-- A request is read up to its last byte, whatever follows it. -/
theorem reads_render (more : List Byte) :
    Reads readLine (HttpContext.fresh, true) (r.render ++ more)
      ({ state := .kGotAll, request := r.request }, true) more := by
  rw [render_append]
  exact r.reads_text List.not_mem_nil not_crlf_infix_nil more

theorem render_length : 15 ≤ r.render.length := by
  have hmethod : 0 < r.method.length := by
    refine List.length_pos_iff.2 fun hnil => r.method_known ?_
    rw [hnil]; rfl
  have hcrlf : crlf.length = 2 := rfl
  have hsection : 2 ≤ (headerSection r.headers).length := by
    cases r.headers with
    | nil => exact Nat.le_refl _
    | cons line lines => rw [headerSection, List.length_append, List.length_append]; omega
  simp only [render, requestLine, List.length_append, List.length_cons, versionText_length]
  omega

theorem render_ne_nil : r.render ≠ [] := by
  intro h
  have hlen := r.render_length
  rw [h, List.length_nil] at hlen
  omega

end RequestText
end TinyMuduo
