import Mathlib.Logic.Function.Basic
import TinyMuduo.Lib.ByteOrder
import TinyMuduo.Lib.Machine
import TinyMuduo.Lib.Result

/-!
# Rpc.Channel

`RpcChannel`, with the threads that call `CallMethod` and the loop thread that hands it the
messages of its connection.

A call takes three steps: `incrementAndGet` gives it its id, the critical section enters it in
`outstandings_`, and `codec_.send` sends the request; steps of other threads may come between.
The loop thread handles one message at a time: the critical section that takes the call out of
`outstandings_`, then the parsing, then the closure. A message is any message; nothing says that
the peer answers what was asked, or only once.

`step_cases` says what a step can do; the log is what `Rpc.Match` speaks of.
-/

namespace TinyMuduo

namespace Rpc

open Result

inductive MessageType where
  | REQUEST
  | RESPONSE
  | ERROR
  deriving Repr, DecidableEq

inductive ErrorCode where
  | NO_ERROR
  | WRONG_PROTO
  | NO_SERVICE
  | NO_METHOD
  | INVALID_REQUEST
  | INVALID_RESPONSE
  | TIMEOUT
  deriving Repr, DecidableEq

/-- `RpcMessage` of rpc.proto. `none` is an optional field that is not set. -/
structure RpcMessage where
  type : MessageType
  id : BitVec 64
  service : Option String := none
  method : Option String := none
  request : Option (List Byte) := none
  response : Option (List Byte) := none
  error : Option ErrorCode := none
  deriving Repr, DecidableEq

/-- `google::protobuf::Service`: the methods it has and, for each, the requests that can be
parsed. -/
structure Service where
  findMethodByName : String → Option (List Byte → Bool)

/-- An `OutstandingCall`: the response object and the closure of one call. -/
structure OutstandingCall where
  /-- The call both belong to. -/
  call : Nat
  /-- The pointers are not `NULL`. -/
  response : Bool
  done : Bool
  deriving Repr, DecidableEq

inductive CallStage where
  | numbered
  | registered
  | sent
  deriving Repr, DecidableEq

/-- One execution of `CallMethod`. -/
structure Call where
  message : RpcMessage
  response : Bool
  done : Bool
  stage : CallStage
  deriving Repr, DecidableEq

/-- The id that `CallMethod` sends. -/
def Call.id (c : Call) : BitVec 64 := c.message.id

/-- What `onRpcMessage` has in hand after its critical section. -/
structure Hand where
  /-- How many `RESPONSE` messages came before. -/
  number : Nat
  message : RpcMessage
  out : OutstandingCall
  parsed : Bool
  deriving Repr, DecidableEq

/-- What is observed of the calls; `n` is the number of a `RESPONSE`, `k` that of a call. -/
inductive RpcEvent where
  | registered (k : Nat)
  /-- The critical section of `onRpcMessage`, and the call it took out of `outstandings_`. -/
  | received (n : Nat) (id : BitVec 64) (taken : Option Nat)
  /-- The response object of call `k` was parsed from message `n`. -/
  | parsed (n k : Nat)
  /-- The closure of call `k` was run for message `n`. -/
  | ran (n k : Nat)
  deriving Repr, DecidableEq

end Rpc

open Rpc in
structure RpcChannel where
  /-- The value of `id_`. -/
  id : BitVec 64
  outstandings : BitVec 64 → Option OutstandingCall
  /-- The calls made so far. -/
  calls : List Call
  inHand : Option Hand
  /-- The ids of the requests whose service has not run `doneCallback` yet. -/
  serving : List (BitVec 64)
  /-- What went to `codec_.send`. -/
  sent : List RpcMessage
  /-- The `RESPONSE` messages handled so far. -/
  responses : List RpcMessage
  log : List RpcEvent

namespace Rpc

open Result

inductive RpcOp where
  | callMethod (service method : String) (request : List Byte) (response done : Bool)
  /-- The critical section of call `k`. -/
  | register (k : Nat)
  | send (k : Nat)
  | onRpcMessage (message : RpcMessage)
  | parse
  | run
  | doneCallback (id : BitVec 64) (response : List Byte)

inductive Fault where
  /-- `message.has_response() || message.has_error()` -/
  | assertHasResponseOrError
  deriving DecidableEq

def init : RpcChannel where
  id := 0
  outstandings := fun _ => none
  calls := []
  inHand := none
  serving := []
  sent := []
  responses := []
  log := []

/-- `CallMethod` up to the critical section. -/
def callMethod (s : RpcChannel) (service method : String) (request : List Byte)
    (response done : Bool) : RpcChannel :=
  let id := s.id + 1
  let message : RpcMessage :=
    { type := .REQUEST, id := id, service := some service, method := some method,
      request := some request }
  { s with id := id, calls := s.calls ++ [⟨message, response, done, .numbered⟩] }

/-- `outstandings_[id] = out`. -/
def register (s : RpcChannel) (k : Nat) (c : Call) : RpcChannel :=
  { s with
    outstandings := Function.update s.outstandings c.id (some ⟨k, c.response, c.done⟩)
    calls := s.calls.set k { c with stage := .registered }
    log := s.log ++ [.registered k] }

/-- `codec_.send(conn_, message)` of a call. -/
def send (s : RpcChannel) (k : Nat) (c : Call) : RpcChannel :=
  { s with
    calls := s.calls.set k { c with stage := .sent }
    sent := s.sent ++ [c.message] }

/-- `onRpcMessage` for a `RESPONSE`, to the end of the critical section. -/
def onResponse (s : RpcChannel) (m : RpcMessage) : RpcChannel :=
  let out := s.outstandings m.id
  { s with
    outstandings := Function.update s.outstandings m.id none
    -- without a response object there is nothing left to do
    inHand := (out.filter (·.response)).map fun o => ⟨s.responses.length, m, o, false⟩
    responses := s.responses ++ [m]
    log := s.log ++ [.received s.responses.length m.id (out.map (·.call))] }

/-- `ParseFromString`, when there is something to parse. -/
def parse (s : RpcChannel) (h : Hand) : RpcChannel :=
  { s with
    inHand := some { h with parsed := true }
    log := s.log ++ if h.message.response.isSome then [.parsed h.number h.out.call] else [] }

/-- `out.done->Run()`; with it the handling of the message ends. -/
def runDone (s : RpcChannel) (h : Hand) : RpcChannel :=
  { s with
    inHand := none
    log := s.log ++ if h.out.done then [.ran h.number h.out.call] else [] }

/-- The `error` that the `REQUEST` branch of `onRpcMessage` comes to; `NO_ERROR` when the service
was called. -/
def requestError (services : Option (String → Option Service)) (m : RpcMessage) : ErrorCode :=
  match services with
  | none => .NO_SERVICE
  | some find =>
    match find (m.service.getD "") with
    | none => .NO_SERVICE
    | some service =>
      match service.findMethodByName (m.method.getD "") with
      | none => .NO_METHOD
      | some parses => if parses (m.request.getD []) then .NO_ERROR else .INVALID_REQUEST

/-- `onRpcMessage` for a `REQUEST`. -/
def onRequest (services : Option (String → Option Service)) (s : RpcChannel) (m : RpcMessage) :
    RpcChannel :=
  let error := requestError services m
  if error = .NO_ERROR then
    { s with serving := s.serving ++ [m.id] }
  else
    { s with sent := s.sent ++ [{ type := .RESPONSE, id := m.id, error := some error }] }

def doneCallback (s : RpcChannel) (id : BitVec 64) (response : List Byte) : RpcChannel :=
  { s with
    serving := s.serving.erase id
    sent := s.sent ++ [{ type := .RESPONSE, id := id, response := some response }] }

def exec (services : Option (String → Option Service)) (s : RpcChannel) :
    RpcOp → Except Fault RpcChannel
  | .callMethod service method request response done =>
    .ok (callMethod s service method request response done)
  | .register k =>
    match s.calls[k]? with
    | some c => .ok (register s k c)
    | none => .ok s
  | .send k =>
    match s.calls[k]? with
    | some c => .ok (send s k c)
    | none => .ok s
  | .onRpcMessage m =>
    match m.type with
    | .RESPONSE => do
      ensure (m.response.isSome ∨ m.error.isSome) .assertHasResponseOrError
      .ok (onResponse s m)
    | .REQUEST => .ok (onRequest services s m)
    | .ERROR => .ok s
  | .parse =>
    match s.inHand with
    | some h => .ok (parse s h)
    | none => .ok s
  | .run =>
    match s.inHand with
    | some h => .ok (runDone s h)
    | none => .ok s
  | .doneCallback id response => .ok (doneCallback s id response)

/-- The loop thread is in one message at a time, and a thread in one place of `CallMethod`. -/
def Enabled (s : RpcChannel) : RpcOp → Prop
  | .callMethod .. => True
  | .register k => (s.calls[k]?).map (·.stage) = some .numbered
  | .send k => (s.calls[k]?).map (·.stage) = some .registered
  | .onRpcMessage _ => s.inHand = none
  | .parse => s.inHand.map (·.parsed) = some false
  | .run => s.inHand.map (·.parsed) = some true
  | .doneCallback id _ => id ∈ s.serving

instance (s : RpcChannel) : (op : RpcOp) → Decidable (Enabled s op)
  | .callMethod .. => isTrue trivial
  | .register _ | .send _ => inferInstanceAs (Decidable (_ = some _))
  | .onRpcMessage _ => inferInstanceAs (Decidable (_ = none))
  | .parse | .run => inferInstanceAs (Decidable (_ = some _))
  | .doneCallback _ _ => inferInstanceAs (Decidable (_ ∈ _))

def machine (services : Option (String → Option Service)) : Machine RpcChannel RpcOp Fault where
  enabled := Enabled
  exec := exec services

instance (services : Option (String → Option Service)) (s : RpcChannel) (op : RpcOp) :
    Decidable ((machine services).enabled s op) :=
  inferInstanceAs (Decidable (Enabled s op))

theorem onRequest_eq (services : Option (String → Option Service)) (s : RpcChannel)
    (m : RpcMessage) :
    ∃ serving sent, onRequest services s m = { s with serving := serving, sent := sent } := by
  simp only [onRequest]
  split
  · exact ⟨_, s.sent, rfl⟩
  · exact ⟨s.serving, _, rfl⟩

/-- Everything a step can do, with what the thread knows before it. -/
theorem step_cases {services : Option (String → Option Service)} {s s' : RpcChannel} {op : RpcOp}
    (he : (machine services).enabled s op) (hx : (machine services).exec s op = .ok s') :
    (∃ service method request response done,
      s' = callMethod s service method request response done) ∨
    (∃ k c, s.calls[k]? = some c ∧ c.stage = .numbered ∧ s' = register s k c) ∨
    (∃ k c, s.calls[k]? = some c ∧ c.stage = .registered ∧ s' = send s k c) ∨
    (∃ m, s.inHand = none ∧ m.type = .RESPONSE ∧ s' = onResponse s m) ∨
    (∃ h, s.inHand = some h ∧ h.parsed = false ∧ s' = parse s h) ∨
    (∃ h, s.inHand = some h ∧ h.parsed = true ∧ s' = runDone s h) ∨
    (∃ serving sent, s' = { s with serving := serving, sent := sent }) := by
  cases op with
  | callMethod service method request response done =>
    cases hx
    exact .inl ⟨service, method, request, response, done, rfl⟩
  | register k =>
    obtain ⟨c, hc, hstage⟩ := Option.map_eq_some_iff.1 he
    simp only [machine, exec, hc] at hx
    cases hx
    exact .inr (.inl ⟨k, c, hc, hstage, rfl⟩)
  | send k =>
    obtain ⟨c, hc, hstage⟩ := Option.map_eq_some_iff.1 he
    simp only [machine, exec, hc] at hx
    cases hx
    exact .inr (.inr (.inl ⟨k, c, hc, hstage, rfl⟩))
  | onRpcMessage m =>
    simp only [machine, exec] at hx
    split at hx
    next htype =>
      obtain ⟨_, -, hx⟩ := bind_eq_ok hx
      cases hx
      exact .inr (.inr (.inr (.inl ⟨m, he, htype, rfl⟩)))
    next =>
      cases hx
      exact .inr (.inr (.inr (.inr (.inr (.inr (onRequest_eq services s m))))))
    next =>
      cases hx
      exact .inr (.inr (.inr (.inr (.inr (.inr ⟨s.serving, s.sent, rfl⟩)))))
  | parse =>
    obtain ⟨h, hh, hparsed⟩ := Option.map_eq_some_iff.1 he
    simp only [machine, exec, hh] at hx
    cases hx
    exact .inr (.inr (.inr (.inr (.inl ⟨h, hh, hparsed, rfl⟩))))
  | run =>
    obtain ⟨h, hh, hparsed⟩ := Option.map_eq_some_iff.1 he
    simp only [machine, exec, hh] at hx
    cases hx
    exact .inr (.inr (.inr (.inr (.inr (.inl ⟨h, hh, hparsed, rfl⟩)))))
  | doneCallback id response =>
    cases hx
    exact .inr (.inr (.inr (.inr (.inr (.inr ⟨_, _, rfl⟩)))))

end Rpc

end TinyMuduo
