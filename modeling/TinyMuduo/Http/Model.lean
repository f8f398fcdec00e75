import TinyMuduo.Base.Text
import TinyMuduo.Buffer.Correct
import TinyMuduo.Lib.Machine
import TinyMuduo.Lib.Result
import Mathlib.Data.List.DropRight
import Mathlib.Logic.Function.Basic

/-!
# Http.Model

`HttpRequest`, `HttpContext` and `HttpServer`: a request is parsed line by line out of the input
buffer of a connection, and handed to the server when its header section is over.

* A line is the bytes between `peek()` and the next CRLF. `processRequestLine` gets pointers into it
  and reads through `charAt`, `find` and `substr`, which fault on an access outside the line.
* The request of a context is changed while the line is examined, so a rejected line leaves its
  traces there.
* The loop of `parseRequest` has an iteration bound; running out of it is a fault. In the states
  `kExpectBody` and `kGotAll` no branch of the loop is taken.
* `headers_` is a partial function. The user's callback, with the text of the response it fills in,
  is a parameter of the server.
-/

namespace TinyMuduo

open Result

abbrev Str := List Byte

def crlf : Str := ascii ['\r', '\n']

/-- `std::search` for CRLF. -/
def searchCRLF : List Byte → Option Nat
  | x :: y :: rest => if [x, y] = crlf then some 0 else (searchCRLF (y :: rest)).map (· + 1)
  | _ => none

/-- `findCRLF()`, as an index of the vector. -/
def Buffer.findCRLF (b : Buffer) : Option Nat := (searchCRLF b.readable).map (b.readerIndex + ·)

inductive HttpFault where
  /-- `std::length_error` from the buffer's vector -/
  | lengthError
  | buffer (f : Buffer.Fault)
  /-- `method_ == kInvalid` in `setMethod` -/
  | methodAssigned
  | outOfLine
  | outOfFuel
  deriving DecidableEq, Repr

/-! ## Requests -/

namespace HttpRequest

inductive Method where
  | kInvalid
  | kGet
  | kPost
  | kHead
  | kPut
  | kDelete
  deriving DecidableEq, Repr

inductive Version where
  | kUnknown
  | kHttp10
  | kHttp11
  deriving DecidableEq, Repr

end HttpRequest

structure HttpRequest where
  method : HttpRequest.Method
  version : HttpRequest.Version
  path : Str
  query : Str
  receiveTime : Int
  headers : Str → Option Str

namespace HttpRequest

def fresh : HttpRequest where
  method := .kInvalid
  version := .kUnknown
  path := []
  query := []
  receiveTime := 0
  headers := fun _ => none

def methodOf (m : Str) : Method :=
  if m = ascii ['G', 'E', 'T'] then .kGet
  else if m = ascii ['P', 'O', 'S', 'T'] then .kPost
  else if m = ascii ['H', 'E', 'A', 'D'] then .kHead
  else if m = ascii ['P', 'U', 'T'] then .kPut
  else if m = ascii ['D', 'E', 'L', 'E', 'T', 'E'] then .kDelete
  else .kInvalid

def setMethod (r : HttpRequest) (m : Str) : Except HttpFault (Bool × HttpRequest) := do
  ensure (r.method = .kInvalid) .methodAssigned
  .ok (methodOf m ≠ .kInvalid, { r with method := methodOf m })

/-- `isspace` in the C locale. -/
def isspace (c : Byte) : Bool := c ∈ ascii [' ', '\t', '\n', '\x0b', '\x0c', '\r']

/-- `addHeader(line, line + colon, line + line.length)`. -/
def addHeader (r : HttpRequest) (line : Str) (colon : Nat) : HttpRequest :=
  let field := line.take colon
  let value := ((line.drop (colon + 1)).dropWhile isspace).rdropWhile isspace
  { r with headers := Function.update r.headers field (some value) }

def getHeader (r : HttpRequest) (field : Str) : Str := (r.headers field).getD []

end HttpRequest

/-! ## The request line -/

def charAt (s : Str) (i : Nat) : Except HttpFault Byte :=
  match s[i]? with
  | some c => .ok c
  | none => .error .outOfLine

def findFrom (line : Str) (c : Byte) : Nat → Nat → Except HttpFault Nat
  | 0, i => .ok i
  | n + 1, i => do
    let x ← charAt line i
    if x = c then .ok i else findFrom line c n (i + 1)

/-- `std::find(line + first, line + last, c)`. -/
def find (line : Str) (c : Byte) (first last : Nat) : Except HttpFault Nat :=
  findFrom line c (last - first) first

/-- `string(line + first, line + last)`. -/
def substr (line : Str) (first last : Nat) : Except HttpFault Str :=
  if first ≤ last ∧ last ≤ line.length then .ok (Block.slice line first last)
  else .error .outOfLine

namespace HttpContext

open HttpRequest

/-- The end of the request line, from `line + start` on. -/
def processVersion (r : HttpRequest) (line : Str) (start : Nat) :
    Except HttpFault (Bool × HttpRequest) :=
  if line.length - start = 8 then do
    let name ← substr line start (line.length - 1)
    if name = ascii ['H', 'T', 'T', 'P', '/', '1', '.'] then
      let digit ← charAt line (line.length - 1)
      if digit = chr '1' then .ok (true, { r with version := .kHttp11 })
      else if digit = chr '0' then .ok (true, { r with version := .kHttp10 })
      else .ok (false, r)
    else .ok (false, r)
  else .ok (false, r)

/-- What follows the method. -/
def processTarget (r : HttpRequest) (line : Str) (start : Nat) :
    Except HttpFault (Bool × HttpRequest) := do
  let space ← find line (chr ' ') start line.length
  if space ≠ line.length then
    let question ← find line (chr '?') start space
    let path ← substr line start question
    if question ≠ space then
      let query ← substr line question space
      processVersion { r with path := path, query := query } line (space + 1)
    else processVersion { r with path := path } line (space + 1)
  else .ok (false, r)

def processRequestLine (r : HttpRequest) (line : Str) : Except HttpFault (Bool × HttpRequest) := do
  let space ← find line (chr ' ') 0 line.length
  if space ≠ line.length then
    let m ← substr line 0 space
    let (valid, r) ← r.setMethod m
    if valid then processTarget r line (space + 1) else .ok (false, r)
  else .ok (false, r)

end HttpContext

/-! ## `parseRequest` -/

namespace HttpContext

inductive ParseState where
  | kExpectRequestLine
  | kExpectHeaders
  | kExpectBody
  | kGotAll
  deriving DecidableEq, Repr

end HttpContext

structure HttpContext where
  state : HttpContext.ParseState
  request : HttpRequest

namespace HttpContext

def fresh : HttpContext where
  state := .kExpectRequestLine
  request := .fresh

def gotAll (ctx : HttpContext) : Bool := ctx.state = .kGotAll

/-- `reset()` puts back everything the constructor sets. -/
def reset (_ : HttpContext) : HttpContext := fresh

def returned {α : Type} (o : Buffer.Outcome α) : Except HttpFault α :=
  o.orThrow .lengthError .buffer

/-- How an iteration of the loop ends: `hasMore` is false and `ok` is returned, or it goes on. -/
inductive Turn where
  | stop (ok : Bool) (ctx : HttpContext) (b : Buffer)
  | next (ctx : HttpContext) (b : Buffer)

def lineTo (b : Buffer) (stop : Nat) : Str := Block.slice b.buf b.readerIndex stop

def requestLineTurn (receiveTime : Int) (ctx : HttpContext) (b : Buffer) :
    Except HttpFault Turn :=
  match b.findCRLF with
  | none => .ok (.stop true ctx b)
  | some stop => do
    let (ok, r) ← processRequestLine ctx.request (lineTo b stop)
    if ok then
      let b ← returned (b.retrieveUntil (stop + 2))
      .ok (.next { state := .kExpectHeaders, request := { r with receiveTime := receiveTime } } b)
    else .ok (.stop false { ctx with request := r } b)

def headerTurn (ctx : HttpContext) (b : Buffer) : Except HttpFault Turn :=
  match b.findCRLF with
  | none => .ok (.stop true ctx b)
  | some stop => do
    let line := lineTo b stop
    let colon ← find line (chr ':') 0 line.length
    let b ← returned (b.retrieveUntil (stop + 2))
    if colon ≠ line.length then
      .ok (.next { ctx with request := ctx.request.addHeader line colon } b)
    else .ok (.stop true { ctx with state := .kGotAll } b)

def turn (receiveTime : Int) (ctx : HttpContext) (b : Buffer) : Except HttpFault Turn :=
  match ctx.state with
  | .kExpectRequestLine => requestLineTurn receiveTime ctx b
  | .kExpectHeaders => headerTurn ctx b
  | .kExpectBody => .ok (.next ctx b)
  | .kGotAll => .ok (.next ctx b)

/-- The loop of `parseRequest`, with at most `n` iterations. -/
def loop (receiveTime : Int) : Nat → HttpContext → Buffer →
    Except HttpFault (Bool × HttpContext × Buffer)
  | 0, _, _ => .error .outOfFuel
  | n + 1, ctx, b => do
    let t ← turn receiveTime ctx b
    match t with
    | .stop ok ctx b => .ok (ok, ctx, b)
    | .next ctx b => loop receiveTime n ctx b

def parseRequest (receiveTime : Int) (ctx : HttpContext) (b : Buffer) :
    Except HttpFault (Bool × HttpContext × Buffer) :=
  loop receiveTime (b.readableBytes + 1) ctx b

/-- In these two states the loop does not end, whatever the bound. -/
theorem loop_spins (receiveTime : Int) (n : Nat) {ctx : HttpContext} (b : Buffer)
    (h : ctx.state = .kExpectBody ∨ ctx.state = .kGotAll) :
    loop receiveTime n ctx b = .error .outOfFuel := by
  have hturn : turn receiveTime ctx b = .ok (.next ctx b) := by
    rcases h with h | h <;> rw [turn, h]
  induction n with
  | zero => rfl
  | succ n ih => rw [loop, hturn, ok_bind]; exact ih

end HttpContext

/-! ## The server -/

/-- `httpCallback_` and `appendToBuffer`: from the request and the `close` the response is made
with, the text that is sent and `closeConnection()`. -/
abbrev HttpCallback := HttpRequest → Bool → Str × Bool

/-- A connection of `HttpServer`: its input buffer and its context, the requests passed to
`onRequest`, the messages the connection has taken, and whether `shutdown()` was called.
`unanswered` is what was received behind the requests answered so far. -/
structure HttpSession where
  buf : Buffer
  context : HttpContext
  requests : List HttpRequest
  sent : List Str
  shutdown : Bool
  unanswered : List Byte

namespace HttpSession

/-- After `onConnection`. -/
def init : HttpSession where
  buf := .fresh
  context := .fresh
  requests := []
  sent := []
  shutdown := false
  unanswered := []

def badRequest : Str :=
  ascii ['H', 'T', 'T', 'P', '/', '1', '.', '1', ' ', '4', '0', '0', ' ', 'B', 'a', 'd', ' ',
    'R', 'e', 'q', 'u', 'e', 's', 't'] ++ crlf ++ crlf

/-- `close` in `onRequest`. -/
def wantsClose (r : HttpRequest) : Bool :=
  let connection := r.getHeader (ascii ['C', 'o', 'n', 'n', 'e', 'c', 't', 'i', 'o', 'n'])
  connection = ascii ['c', 'l', 'o', 's', 'e'] ∨
    (r.version = .kHttp10 ∧
      connection ≠ ascii ['K', 'e', 'e', 'p', '-', 'A', 'l', 'i', 'v', 'e'])

/-- `TcpConnection::send`; after `shutdown()` the state is not `kConnected`, and nothing is sent. -/
def send (s : HttpSession) (message : Str) : HttpSession :=
  { s with sent := if s.shutdown then s.sent else s.sent ++ [message] }

def onRequest (callback : HttpCallback) (s : HttpSession) (r : HttpRequest) : HttpSession :=
  let (text, close) := callback r (wantsClose r)
  let s := { s with requests := s.requests ++ [r] }.send text
  { s with shutdown := s.shutdown || close }

/-- The 400 for a request line that is not understood. -/
def reject (s : HttpSession) : HttpSession := { s.send badRequest with shutdown := true }

def onMessage (callback : HttpCallback) (receiveTime : Int) (s : HttpSession) :
    Except HttpFault HttpSession := do
  let (ok, ctx, b) ← s.context.parseRequest receiveTime s.buf
  let s := { s with buf := b, context := ctx }
  let s := if ok then s else s.reject
  if ctx.gotAll then
    let s := s.onRequest callback ctx.request
    .ok { s with context := ctx.reset, unanswered := b.readable }
  else .ok s

structure Segment where
  bytes : Data
  receiveTime : Int

/-- A segment arrives: it is appended, and `onMessage` is called. -/
def receive (callback : HttpCallback) (s : HttpSession) (seg : Segment) :
    Except HttpFault HttpSession := do
  let b ← HttpContext.returned (s.buf.append seg.bytes)
  onMessage callback seg.receiveTime
    { s with buf := b, unanswered := s.unanswered ++ seg.bytes }

end HttpSession

/-- Segments arrive, also after a `shutdown()`, which closes the other direction only. -/
def httpSession (callback : HttpCallback) : Machine HttpSession HttpSession.Segment HttpFault where
  enabled _ _ := True
  exec := HttpSession.receive callback

end TinyMuduo
