import TinyMuduo.Buffer.Correct
import TinyMuduo.Http.Grammar

/-!
# Http.Response

`HttpResponse`, and what stands on the wire.

* `HttpResponse.appendToBuffer` — the appends of the source, in order; `text` is what they leave
  behind the readable bytes (`appendToBuffer_spec`).
* `Reader` — a reader of such texts, as HTTP/1.1 asks for one: a status line, header lines up to an
  empty one, and a body of the length that the headers give. Without a length the body goes up to
  the end of the connection. The answer to `HEAD` has no body, so the reader knows what was asked.
* `Clean` — what the callback must not do. `reads_text` is the round trip of one response.
-/

namespace TinyMuduo

open Incremental

inductive HttpStatusCode where
  | kUnknown
  | k200Ok
  | k301MovedPermanently
  | k400BadRequest
  | k404NotFound
  deriving DecidableEq, Repr

def HttpStatusCode.value : HttpStatusCode → Nat
  | .kUnknown => 0
  | .k200Ok => 200
  | .k301MovedPermanently => 301
  | .k400BadRequest => 400
  | .k404NotFound => 404

structure HttpResponse where
  /-- In the order in which `std::map` iterates. -/
  headers : List (Str × Str)
  statusCode : HttpStatusCode
  statusMessage : Str
  closeConnection : Bool
  body : Str
  deriving DecidableEq

namespace HttpResponse

def new (close : Bool) : HttpResponse where
  headers := []
  statusCode := .kUnknown
  statusMessage := []
  closeConnection := close
  body := []

def setStatusMessage (r : HttpResponse) (message : Str) : HttpResponse :=
  { r with statusMessage := message }

def setCloseConnection (r : HttpResponse) (on : Bool) : HttpResponse :=
  { r with closeConnection := on }

/-- `map[key] = value` -/
def assign (key value : Str) : List (Str × Str) → List (Str × Str)
  | [] => [(key, value)]
  | p :: rest =>
    if key = p.1 then (key, value) :: rest
    else if key < p.1 then (key, value) :: p :: rest
    else p :: assign key value rest

def addHeader (r : HttpResponse) (key value : Str) : HttpResponse :=
  { r with headers := assign key value r.headers }

def httpVersion : List Char := ['H', 'T', 'T', 'P', '/', '1', '.', '1']

def connectionName : List Char := ['C', 'o', 'n', 'n', 'e', 'c', 't', 'i', 'o', 'n']

def contentLengthName : List Char :=
  ['C', 'o', 'n', 't', 'e', 'n', 't', '-', 'L', 'e', 'n', 'g', 't', 'h']

def closeValue : List Char := ['c', 'l', 'o', 's', 'e']

def keepAliveValue : List Char := ['K', 'e', 'e', 'p', '-', 'A', 'l', 'i', 'v', 'e']

def statusText (r : HttpResponse) : Str :=
  ascii (snprintf 32 (httpVersion ++ ' ' :: decimal r.statusCode.value ++ [' ']))

def contentLengthText (r : HttpResponse) : Str :=
  ascii (snprintf 32 (contentLengthName ++ [':', ' '] ++ decimal r.body.length ++ ['\r', '\n']))

def closeText : Str := ascii (connectionName ++ [':', ' '] ++ closeValue) ++ crlf

def keepAliveText : Str := ascii (connectionName ++ [':', ' '] ++ keepAliveValue) ++ crlf

/-- What is appended, one `append` after the other. -/
def pieces (r : HttpResponse) : List Str :=
  [r.statusText, r.statusMessage, crlf] ++
  (if r.closeConnection then [closeText] else [r.contentLengthText, keepAliveText]) ++
  (r.headers.map fun p => [p.1, ascii [':', ' '], p.2, crlf]).flatten ++ [crlf, r.body]

def appendAll (output : Buffer) : List Str → Buffer.Outcome Buffer
  | [] => .next output
  | piece :: pieces => (output.append piece).andThen fun output => appendAll output pieces

def appendToBuffer (r : HttpResponse) (output : Buffer) : Buffer.Outcome Buffer :=
  appendAll output r.pieces

/-- The whole text. -/
def text (r : HttpResponse) : Str := r.pieces.flatten

end HttpResponse

/-! ## A reader -/

def toChar (b : Byte) : Char := Char.ofNat b.toNat

def lower (b : Byte) : Byte := if chr 'A' ≤ b ∧ b ≤ chr 'Z' then b + 32 else b

/-- Names of header fields are compared without regard to case. -/
def isContentLength (name : Str) : Bool :=
  name.map lower = (ascii HttpResponse.contentLengthName).map lower

def number (s : Str) : Option Nat :=
  let cs := s.map toChar
  if cs ≠ [] ∧ cs.all Char.isDigit then some (Nat.ofDigitChars 10 cs 0) else none

structure Head where
  code : Nat
  message : Str
  fields : List (Str × Str)
  deriving DecidableEq

/-- A response, as its reader sees it. -/
structure Answer where
  head : Head
  body : Str
  deriving DecidableEq

inductive Reader.Phase where
  | statusLine
  | headers (head : Head)
  | body (head : Head) (length : Nat)
  /-- The body goes up to the end of the connection. -/
  | untilClose (head : Head)
  | malformed
  deriving DecidableEq

/-- `asked` are the methods of the requests that are not answered yet. -/
structure Reader where
  phase : Reader.Phase
  asked : List HttpRequest.Method
  answers : List Answer
  deriving DecidableEq

namespace Reader

def start (asked : List HttpRequest.Method) : Reader := ⟨.statusLine, asked, []⟩

/-- The code and the message. -/
def splitStatus (line : Str) : Option (Nat × Str) :=
  if line.take 9 = ascii HttpResponse.httpVersion ++ [chr ' '] then
    let rest := line.drop 9
    (number (rest.takeWhile (· ≠ chr ' '))).map fun code =>
      (code, (rest.dropWhile (· ≠ chr ' ')).drop 1)
  else none

def contentLength (fields : List (Str × Str)) : Option Nat :=
  (fields.find? fun p => isContentLength p.1).bind fun p => number p.2

/-- What follows the empty line. -/
def bodyPhase (asked : List HttpRequest.Method) (head : Head) : Phase :=
  if asked.head? = some .kHead then .body head 0
  else
    match contentLength head.fields with
    | some n => .body head n
    | none => .untilClose head

def linePhase (asked : List HttpRequest.Method) (line : Str) : Phase → Phase
  | .statusLine =>
    match splitStatus line with
    | some (code, message) => .headers ⟨code, message, []⟩
    | none => .malformed
  | .headers head =>
    if line = [] then bodyPhase asked head
    else if line.contains (chr ':') then
      .headers { head with
        fields := head.fields ++ [(RequestText.fieldOf line, RequestText.valueOf line)] }
    else .malformed
  | phase => phase

def takeLine (r : Reader) (line : Str) : Reader :=
  { r with phase := linePhase r.asked line r.phase }

def Phase.inHead : Phase → Bool
  | .statusLine | .headers _ => true
  | .body _ _ | .untilClose _ | .malformed => false

def readResponse (r : Reader) (bs : List Byte) : Option (Reader × List Byte) :=
  match r.phase with
  | .statusLine | .headers _ =>
    (searchCRLF bs).map fun k => (r.takeLine (bs.take k), bs.drop (k + 2))
  | .body head n =>
    if n ≤ bs.length then
      some (⟨.statusLine, r.asked.tail, r.answers ++ [⟨head, bs.take n⟩]⟩, bs.drop n)
    else none
  | .untilClose _ | .malformed => none

/-- What the reader has when the connection ends and `rest` is not read. -/
def heard (r : Reader) (rest : List Byte) : List Answer :=
  match r.phase with
  | .untilClose head => r.answers ++ [⟨head, rest⟩]
  | _ => r.answers

theorem readResponse_head {r : Reader} (h : r.phase.inHead = true) (bs : List Byte) :
    r.readResponse bs =
      (searchCRLF bs).map fun k => (r.takeLine (bs.take k), bs.drop (k + 2)) := by
  unfold readResponse
  cases hp : r.phase with
  | statusLine | headers head => rfl
  | body head n | untilClose head | malformed => simp [hp, Phase.inHead] at h

/-- A line at the front of the input. -/
theorem reads_line {r r' : Reader} {line : Str} {more rest : List Byte}
    (hphase : r.phase.inHead = true) (hend : ¬ crlf <:+: line)
    (h : Reads readResponse (r.takeLine line) more r' rest) :
    Reads readResponse r (line ++ crlf ++ more) r' rest := by
  refine .step ?_ h
  obtain ⟨hline, hrest⟩ := line_parts line more
  rw [readResponse_head hphase, searchCRLF_line hend, Option.map_some, hline, hrest]

/-- Header lines at the front of the input. -/
theorem reads_fields {r r' : Reader} {head : Head} {lines : List Str} {more rest : List Byte}
    (hphase : r.phase = .headers head) (hcolon : ∀ line ∈ lines, chr ':' ∈ line)
    (hend : ∀ line ∈ lines, ¬ crlf <:+: line)
    (h : Reads readResponse { r with phase := .headers { head with
      fields := head.fields ++ lines.map fun l => (RequestText.fieldOf l, RequestText.valueOf l) } }
      more r' rest) :
    Reads readResponse r (RequestText.headerLines lines ++ more) r' rest := by
  induction lines generalizing r head with
  | nil =>
    obtain ⟨phase, asked, answers⟩ := r
    cases hphase
    simpa [RequestText.headerLines] using h
  | cons line lines ih =>
    have hne : line ≠ [] := by
      rintro rfl
      exact List.not_mem_nil (hcolon [] List.mem_cons_self)
    rw [RequestText.headerLines_cons, List.append_assoc]
    refine reads_line (by rw [hphase]; rfl) (hend line List.mem_cons_self) ?_
    have hnext : (r.takeLine line).phase = .headers { head with
        fields := head.fields ++ [(RequestText.fieldOf line, RequestText.valueOf line)] } := by
      simp only [takeLine, hphase, linePhase]
      rw [if_neg hne, if_pos (List.contains_iff_mem.2 (hcolon line List.mem_cons_self))]
    refine ih hnext (fun l hl => hcolon l (List.mem_cons_of_mem _ hl))
      (fun l hl => hend l (List.mem_cons_of_mem _ hl)) ?_
    simpa [takeLine] using h

end Reader

/-! ## Texts that can be read -/

theorem toChar_chr {c : Char} (h : c.isDigit = true) : toChar (chr c) = c := by
  have hlt : c.toNat < 256 := by
    simp only [Char.isDigit, Bool.and_eq_true, decide_eq_true_eq] at h
    have := UInt32.le_iff_toNat_le.1 h.2
    exact Nat.lt_of_le_of_lt this (by decide)
  rw [toChar, chr, BitVec.toNat_ofNat, Nat.mod_eq_of_lt hlt, Char.ofNat_toNat]

theorem number_decimal (n : Nat) : number (ascii (decimal n)) = some n := by
  have hdigits : (ascii (decimal n)).map toChar = decimal n := by
    rw [ascii, List.map_map]
    exact (List.map_congr_left fun c hc => toChar_chr (isDigit_of_mem_decimal hc)).trans
      (List.map_id _)
  have hne : decimal n ≠ [] := by
    rw [decimal, ne_eq, ← List.length_eq_zero_iff]
    exact Nat.ne_of_gt Nat.length_toDigits_pos
  have hall : (decimal n).all Char.isDigit = true :=
    List.all_eq_true.2 fun c hc => isDigit_of_mem_decimal hc
  simp only [number, hdigits]
  rw [if_pos ⟨hne, hall⟩, decimal, Nat.ofDigitChars_ten_toDigits]

/-- Only digits are in a number. -/
theorem not_mem_decimal {b : Byte} (hb : (toChar b).isDigit = false) (n : Nat) :
    b ∉ ascii (decimal n) := by
  intro hmem
  obtain ⟨c, hc, rfl⟩ := List.mem_map.1 hmem
  have hdigit := isDigit_of_mem_decimal hc
  rw [toChar_chr hdigit, hdigit] at hb
  cases hb

theorem trim_of_not_space {s : Str} (h : ∀ c ∈ s, HttpRequest.isspace c = false) :
    RequestText.trim s = s := by
  have hfront : s.dropWhile HttpRequest.isspace = s := by
    cases s with
    | nil => rfl
    | cons c s => exact List.dropWhile_cons_of_neg (by simp [h c List.mem_cons_self])
  rw [RequestText.trim, hfront, List.rdropWhile_eq_self_iff]
  intro hne
  simp [h _ (List.getLast_mem hne)]

theorem trim_decimal (n : Nat) : RequestText.trim (ascii (decimal n)) = ascii (decimal n) := by
  refine trim_of_not_space fun c hc => ?_
  by_contra hspace
  have hmem : c ∈ ascii [' ', '\t', '\n', '\x0b', '\x0c', '\r'] := by
    simpa [HttpRequest.isspace] using hspace
  have hnot : ∀ b ∈ ascii [' ', '\t', '\n', '\x0b', '\x0c', '\r'], (toChar b).isDigit = false := by
    decide
  exact not_mem_decimal (hnot c hmem) n hc

/-- A field as `appendToBuffer` writes it. -/
def fieldLine (p : Str × Str) : Str := p.1 ++ ascii [':', ' '] ++ p.2

theorem fieldOf_fieldLine {p : Str × Str} (h : chr ':' ∉ p.1) :
    RequestText.fieldOf (fieldLine p) = p.1 := by
  have hne : ∀ c ∈ p.1, decide (c ≠ chr ':') = true := by
    intro c hc
    exact decide_eq_true fun heq => h (heq ▸ hc)
  rw [RequestText.fieldOf, fieldLine, List.append_assoc, List.takeWhile_append_of_pos hne]
  simp [ascii]

theorem valueOf_fieldLine {p : Str × Str} (h : chr ':' ∉ p.1) :
    RequestText.valueOf (fieldLine p) = RequestText.trim p.2 := by
  have hne : ∀ c ∈ p.1, decide (c ≠ chr ':') = true := by
    intro c hc
    exact decide_eq_true fun heq => h (heq ▸ hc)
  have hrest : (fieldLine p).dropWhile (· ≠ chr ':') = chr ':' :: chr ' ' :: p.2 := by
    rw [fieldLine, List.append_assoc, List.dropWhile_append_of_pos hne]
    simp [ascii]
  rw [RequestText.valueOf, hrest]
  rfl

theorem no_crlf_inside {line : Str} (h : chr '\r' ∉ line) : ¬ crlf <:+: line :=
  fun hin => h (hin.subset List.mem_cons_self)

namespace HttpResponse

/-- What a callback must leave alone for its response to be read as it was meant. `10 ^ 13` is where
`snprintf` would cut the `Content-Length`. -/
structure Clean (r : HttpResponse) : Prop where
  message : chr '\r' ∉ r.statusMessage
  names : ∀ p ∈ r.headers, chr '\r' ∉ p.1 ∧ chr ':' ∉ p.1 ∧ isContentLength p.1 = false
  values : ∀ p ∈ r.headers, chr '\r' ∉ p.2 ∧ RequestText.trim p.2 = p.2
  body : r.body.length < 10 ^ 13
  fits : 2 * r.text.length + Buffer.kCheapPrepend ≤ maxSize

/-- All fields of the response, with those that `appendToBuffer` adds. -/
def fields (r : HttpResponse) : List (Str × Str) :=
  (if r.closeConnection then [(ascii connectionName, ascii closeValue)]
    else [(ascii contentLengthName, ascii (decimal r.body.length)),
      (ascii connectionName, ascii keepAliveValue)]) ++ r.headers

def head (r : HttpResponse) : Head := ⟨r.statusCode.value, r.statusMessage, r.fields⟩

def answer (r : HttpResponse) : Answer := ⟨r.head, r.body⟩

theorem contentLengthText_eq {r : HttpResponse} (h : r.body.length < 10 ^ 13) :
    r.contentLengthText =
      fieldLine (ascii contentLengthName, ascii (decimal r.body.length)) ++ crlf := by
  have hlen : (decimal r.body.length).length ≤ 13 :=
    (Nat.length_toDigits_le_iff (by decide) (by decide)).2 h
  rw [contentLengthText, snprintf, List.take_of_length_le]
  · simp [fieldLine, ascii, crlf]
  · simp only [List.length_append, contentLengthName, List.length_cons, List.length_nil]
    omega

theorem closeText_eq : closeText = fieldLine (ascii connectionName, ascii closeValue) ++ crlf := by
  simp [closeText, fieldLine, ascii]

theorem keepAliveText_eq :
    keepAliveText = fieldLine (ascii connectionName, ascii keepAliveValue) ++ crlf := by
  simp [keepAliveText, fieldLine, ascii]

theorem headers_text (l : List (Str × Str)) :
    (l.map fun p => [p.1, ascii [':', ' '], p.2, crlf]).flatten.flatten =
      RequestText.headerLines (l.map fieldLine) := by
  induction l with
  | nil => rfl
  | cons p l ih =>
    rw [List.map_cons, List.flatten_cons, List.flatten_append, ih, List.map_cons,
      RequestText.headerLines_cons]
    simp [fieldLine]

/-- The text, line by line. -/
theorem text_append {r : HttpResponse} (h : r.body.length < 10 ^ 13) (more : List Byte) :
    r.text ++ more = (r.statusText ++ r.statusMessage) ++ crlf ++
      (RequestText.headerLines (r.fields.map fieldLine) ++ ([] ++ crlf ++ (r.body ++ more))) := by
  cases hc : r.closeConnection with
  | true =>
    simp [text, pieces, fields, hc, headers_text, closeText_eq, RequestText.headerLines_cons]
  | false =>
    simp [text, pieces, fields, hc, headers_text, keepAliveText_eq, contentLengthText_eq h,
      RequestText.headerLines_cons]

theorem Clean.field {r : HttpResponse} (h : r.Clean) {p : Str × Str} (hp : p ∈ r.fields) :
    (chr '\r' ∉ p.1 ∧ chr ':' ∉ p.1) ∧ chr '\r' ∉ p.2 ∧ RequestText.trim p.2 = p.2 := by
  rcases List.mem_append.1 hp with hown | hheader
  · split at hown
    · rw [List.mem_singleton.1 hown]
      decide
    · rcases List.mem_cons.1 hown with rfl | hown
      · have hname : chr '\r' ∉ ascii contentLengthName ∧ chr ':' ∉ ascii contentLengthName := by
          decide
        exact ⟨hname, not_mem_decimal (by decide) _, trim_decimal _⟩
      · rw [List.mem_singleton.1 hown]
        decide
  · obtain ⟨hname, hcolon, -⟩ := h.names p hheader
    exact ⟨⟨hname, hcolon⟩, h.values p hheader⟩

theorem Clean.contentLength {r : HttpResponse} (h : r.Clean) :
    Reader.contentLength r.fields = if r.closeConnection then none else some r.body.length := by
  have hnone : r.headers.find? (fun p => isContentLength p.1) = none :=
    List.find?_eq_none.2 fun p hp => by simp [(h.names p hp).2.2]
  cases hc : r.closeConnection with
  | true =>
    have hconnection : isContentLength (ascii connectionName) = false := by decide
    simp [Reader.contentLength, fields, hc, hconnection, hnone]
  | false =>
    have hlength : isContentLength (ascii contentLengthName) = true := by decide
    simp [Reader.contentLength, fields, hc, hlength, number_decimal]

theorem splitStatus_text (r : HttpResponse) :
    Reader.splitStatus (r.statusText ++ r.statusMessage) =
      some (r.statusCode.value, r.statusMessage) := by
  have hstatus : r.statusText = ascii httpVersion ++ [chr ' '] ++
      (ascii (decimal r.statusCode.value) ++ [chr ' ']) := by
    cases hcode : r.statusCode <;> simp only [statusText, hcode] <;> decide
  have hdigits : ∀ c ∈ ascii (decimal r.statusCode.value), decide (c ≠ chr ' ') = true := by
    intro c hc
    refine decide_eq_true fun heq => ?_
    exact not_mem_decimal (by decide) _ (heq ▸ hc)
  have hlen : (ascii httpVersion ++ [chr ' ']).length = 9 := rfl
  rw [hstatus, Reader.splitStatus, List.append_assoc]
  rw [if_pos (List.take_left' hlen), List.drop_left' hlen, List.append_assoc]
  dsimp only
  rw [List.takeWhile_append_of_pos hdigits, List.dropWhile_append_of_pos hdigits]
  simp [number_decimal]

/-! ## The round trip -/

section RoundTrip

variable {r : HttpResponse} {asked : List HttpRequest.Method} {answers : List Answer} {r' : Reader}
  {rest : List Byte}

theorem Clean.map_fields (h : r.Clean) :
    (r.fields.map fieldLine).map (fun l => (RequestText.fieldOf l, RequestText.valueOf l)) =
      r.fields := by
  rw [List.map_map]
  refine (List.map_congr_left fun p hp => ?_).trans (List.map_id _)
  obtain ⟨⟨-, hcolon⟩, -, htrim⟩ := h.field hp
  rw [Function.comp_apply, fieldOf_fieldLine hcolon, valueOf_fieldLine hcolon, htrim]
  rfl

theorem Clean.reads_head (h : r.Clean) (more : List Byte)
    (hr : Reads Reader.readResponse ⟨Reader.bodyPhase asked r.head, asked, answers⟩ (r.body ++ more)
      r' rest) :
    Reads Reader.readResponse ⟨.statusLine, asked, answers⟩ (r.text ++ more) r' rest := by
  have hstatus : chr '\r' ∉ r.statusText ++ r.statusMessage := by
    rw [List.mem_append]
    refine fun hmem => hmem.elim ?_ h.message
    cases hcode : r.statusCode <;> simp only [statusText, hcode] <;> decide
  have hlines : ∀ line ∈ r.fields.map fieldLine, chr ':' ∈ line ∧ ¬ crlf <:+: line := by
    intro line hline
    obtain ⟨p, hp, rfl⟩ := List.mem_map.1 hline
    obtain ⟨⟨hname, -⟩, hvalue, -⟩ := h.field hp
    refine ⟨by simp [fieldLine, ascii], no_crlf_inside ?_⟩
    simp only [fieldLine, List.mem_append, not_or]
    exact ⟨⟨hname, by decide⟩, hvalue⟩
  rw [text_append h.body]
  refine Reader.reads_line rfl (no_crlf_inside hstatus) ?_
  simp only [Reader.takeLine, Reader.linePhase, splitStatus_text]
  refine Reader.reads_fields rfl (fun l hl => (hlines l hl).1) (fun l hl => (hlines l hl).2) ?_
  refine Reader.reads_line rfl not_crlf_infix_nil ?_
  simpa only [Reader.takeLine, Reader.linePhase, if_true, List.nil_append, h.map_fields, head]
    using hr

/-- A response is read up to its last byte, whatever follows it. -/
theorem Clean.reads_text (h : r.Clean) (hkeep : r.closeConnection = false)
    (hasked : asked.head? = some .kHead → r.body = []) (more : List Byte)
    (hr : Reads Reader.readResponse ⟨.statusLine, asked.tail, answers ++ [r.answer]⟩ more r' rest) :
    Reads Reader.readResponse ⟨.statusLine, asked, answers⟩ (r.text ++ more) r' rest := by
  have hphase : Reader.bodyPhase asked r.head = .body r.head r.body.length := by
    rw [Reader.bodyPhase]
    split
    next hhead => rw [hasked hhead, List.length_nil]
    next =>
      have hlen : Reader.contentLength r.head.fields = some r.body.length := by
        rw [head, h.contentLength, hkeep]
        rfl
      rw [hlen]
  refine h.reads_head more ?_
  rw [hphase]
  refine .step ?_ hr
  simp [Reader.readResponse, answer]

end RoundTrip

end HttpResponse

end TinyMuduo
