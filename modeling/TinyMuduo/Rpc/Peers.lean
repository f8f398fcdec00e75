import Mathlib.Data.List.Perm.Basic
import TinyMuduo.Rpc.Match

/-!
# Rpc.Peers

The two ends of a connection, each with its `RpcChannel`. Both may call and both may serve.

What `codec_.send` is given at one end is what the loop thread of the other end is handed, one
message after the other and in that order. A service that was called keeps the closure
`NewCallback(this, &RpcChannel::doneCallback, response, id)` of its request and runs it when it
likes, from any thread.

* `RpcPeer` — a channel, how far it has read what the other end sent, and the requests its services
  were called with, `pending` until they are `answered`.
* `PeerStep` — everything one step of an end can do.
* `Kept` — what a channel keeps of its calls from `outstandings_` to the closure.
-/

namespace TinyMuduo

namespace Rpc

open Result

structure RpcPeer where
  channel : RpcChannel
  /-- How many of the messages that the other end sent were handed to `onRpcMessage`. -/
  handed : Nat
  /-- The requests whose service has not run `doneCallback` yet. -/
  pending : List RpcMessage
  /-- The requests whose service has, with the response it gave. -/
  answered : List (RpcMessage × List Byte)

inductive PeerOp where
  /-- A step of a calling thread, or of the loop thread with the message it has in hand. -/
  | own (op : RpcOp)
  /-- The loop thread is handed the next message. -/
  | hand
  /-- A service runs the closure of its `j`-th pending request. -/
  | answer (j : Nat) (response : List Byte)

/-- Messages come from the other end and closures are those of pending requests only. -/
def RpcOp.isOwn : RpcOp → Bool
  | .onRpcMessage _ | .doneCallback _ _ => false
  | _ => true

variable (services : Option (String → Option Service))

def accepts (m : RpcMessage) : Bool := requestError services m = .NO_ERROR

/-- What `doneCallback` sends for the request `m`. -/
def reply (m : RpcMessage) (response : List Byte) : RpcMessage :=
  { type := .RESPONSE, id := m.id, response := some response }

/-- What `onRpcMessage` sends for a request that no service is called with. -/
def refusal (m : RpcMessage) : RpcMessage :=
  { type := .RESPONSE, id := m.id, error := some (requestError services m) }

def RpcPeer.init : RpcPeer where
  channel := Rpc.init
  handed := 0
  pending := []
  answered := []

/-- `incoming` is what the other end has sent so far. -/
def RpcPeer.exec (incoming : List RpcMessage) (p : RpcPeer) : PeerOp → Except Fault RpcPeer
  | .own op => do
    let channel ← Rpc.exec services p.channel op
    .ok { p with channel := channel }
  | .hand =>
    match incoming[p.handed]? with
    | none => .ok p
    | some m => do
      let channel ← Rpc.exec services p.channel (.onRpcMessage m)
      .ok { p with
        channel := channel
        handed := p.handed + 1
        pending := p.pending ++ if m.type = .REQUEST ∧ accepts services m then [m] else [] }
  | .answer j response =>
    match p.pending[j]? with
    | none => .ok p
    | some m => do
      let channel ← Rpc.exec services p.channel (.doneCallback m.id response)
      .ok { p with
        channel := channel
        pending := p.pending.eraseIdx j
        answered := p.answered ++ [(m, response)] }

def RpcPeer.Enabled (incoming : List RpcMessage) (p : RpcPeer) : PeerOp → Prop
  | .own op => op.isOwn ∧ Rpc.Enabled p.channel op
  | .hand => p.handed < incoming.length ∧ p.channel.inHand = none
  | .answer j _ => j < p.pending.length

instance (incoming : List RpcMessage) (p : RpcPeer) : (op : PeerOp) →
    Decidable (RpcPeer.Enabled incoming p op)
  | .own _ => inferInstanceAs (Decidable (_ ∧ _))
  | .hand => inferInstanceAs (Decidable (_ ∧ _))
  | .answer _ _ => inferInstanceAs (Decidable (_ < _))

/-- Everything one step of an end can do. -/
inductive PeerStep (incoming : List RpcMessage) (p : RpcPeer) : RpcPeer → Prop where
  | call (service method : String) (request : List Byte) (response done : Bool) :
      PeerStep incoming p
        { p with channel := callMethod p.channel service method request response done }
  | register (k : Nat) (c : Call) : p.channel.calls[k]? = some c → c.stage = .numbered →
      PeerStep incoming p { p with channel := Rpc.register p.channel k c }
  | send (k : Nat) (c : Call) : p.channel.calls[k]? = some c → c.stage = .registered →
      PeerStep incoming p { p with channel := Rpc.send p.channel k c }
  | parse (h : Hand) : p.channel.inHand = some h → h.parsed = false →
      PeerStep incoming p { p with channel := Rpc.parse p.channel h }
  | run (h : Hand) : p.channel.inHand = some h → h.parsed = true →
      PeerStep incoming p { p with channel := runDone p.channel h }
  | response (m : RpcMessage) : incoming[p.handed]? = some m → p.channel.inHand = none →
      m.type = .RESPONSE → (m.response.isSome ∨ m.error.isSome) →
      PeerStep incoming p
        { p with channel := onResponse p.channel m, handed := p.handed + 1 }
  | accepted (m : RpcMessage) : incoming[p.handed]? = some m → p.channel.inHand = none →
      m.type = .REQUEST → accepts services m = true →
      PeerStep incoming p
        { p with
          channel := { p.channel with serving := p.channel.serving ++ [m.id] }
          handed := p.handed + 1
          pending := p.pending ++ [m] }
  | refused (m : RpcMessage) : incoming[p.handed]? = some m → p.channel.inHand = none →
      m.type = .REQUEST → accepts services m = false →
      PeerStep incoming p
        { p with
          channel := { p.channel with sent := p.channel.sent ++ [refusal services m] }
          handed := p.handed + 1 }
  | ignored (m : RpcMessage) : incoming[p.handed]? = some m → p.channel.inHand = none →
      m.type = .ERROR → PeerStep incoming p { p with handed := p.handed + 1 }
  | answer (j : Nat) (m : RpcMessage) (response : List Byte) : p.pending[j]? = some m →
      PeerStep incoming p
        { p with
          channel := doneCallback p.channel m.id response
          pending := p.pending.eraseIdx j
          answered := p.answered ++ [(m, response)] }

theorem peerStep_own {incoming : List RpcMessage} {p p' : RpcPeer} {op : RpcOp}
    (hown : op.isOwn = true) (he : Rpc.Enabled p.channel op)
    (hx : RpcPeer.exec services incoming p (.own op) = .ok p') :
    PeerStep services incoming p p' := by
  obtain ⟨channel, hc, hx⟩ := bind_eq_ok hx
  cases hx
  cases op with
  | callMethod service method request response done =>
    cases hc
    exact .call service method request response done
  | register k =>
    obtain ⟨c, hk, hstage⟩ := Option.map_eq_some_iff.1 he
    simp only [Rpc.exec, hk] at hc
    cases hc
    exact .register k c hk hstage
  | send k =>
    obtain ⟨c, hk, hstage⟩ := Option.map_eq_some_iff.1 he
    simp only [Rpc.exec, hk] at hc
    cases hc
    exact .send k c hk hstage
  | parse =>
    obtain ⟨h, hh, hparsed⟩ := Option.map_eq_some_iff.1 he
    simp only [Rpc.exec, hh] at hc
    cases hc
    exact .parse h hh hparsed
  | run =>
    obtain ⟨h, hh, hparsed⟩ := Option.map_eq_some_iff.1 he
    simp only [Rpc.exec, hh] at hc
    cases hc
    exact .run h hh hparsed
  | onRpcMessage m | doneCallback id response => cases hown

theorem peerStep_hand {incoming : List RpcMessage} {p p' : RpcPeer}
    (hlt : p.handed < incoming.length) (hfree : p.channel.inHand = none)
    (hx : RpcPeer.exec services incoming p .hand = .ok p') :
    PeerStep services incoming p p' := by
  have hm := List.getElem?_eq_getElem hlt
  simp only [RpcPeer.exec, hm] at hx
  obtain ⟨channel, hc, hx⟩ := bind_eq_ok hx
  cases hx
  generalize incoming[p.handed] = m at hm hc ⊢
  simp only [Rpc.exec] at hc
  split at hc
  next htype =>
    obtain ⟨_, hs, hc⟩ := bind_eq_ok hc
    cases hc
    have hsome : m.response.isSome ∨ m.error.isSome := by
      by_contra hn
      rw [ensure_neg hn] at hs
      cases hs
    have hstep : PeerStep services incoming p _ := .response m hm hfree htype hsome
    simpa [htype] using hstep
  next htype =>
    cases hc
    cases ha : accepts services m with
    | true =>
      have herr : requestError services m = .NO_ERROR := of_decide_eq_true ha
      simpa [onRequest, herr, htype, ha] using PeerStep.accepted m hm hfree htype ha
    | false =>
      have herr : requestError services m ≠ .NO_ERROR := of_decide_eq_false ha
      simpa [onRequest, herr, htype, ha, refusal] using PeerStep.refused m hm hfree htype ha
  next htype =>
    cases hc
    have hstep : PeerStep services incoming p _ := .ignored m hm hfree htype
    simpa [htype] using hstep

theorem peerStep_of_exec {incoming : List RpcMessage} {p p' : RpcPeer} {op : PeerOp}
    (he : RpcPeer.Enabled incoming p op) (hx : RpcPeer.exec services incoming p op = .ok p') :
    PeerStep services incoming p p' := by
  cases op with
  | own op => exact peerStep_own services he.1 he.2 hx
  | hand => exact peerStep_hand services he.1 he.2 hx
  | answer j response =>
    have hm := List.getElem?_eq_getElem he
    simp only [RpcPeer.exec, hm] at hx
    cases hx
    exact .answer j _ response hm

/-- A step of an end is a step of its channel, when the closures are those of the requests that are
being served. -/
theorem PeerStep.channel_step {incoming : List RpcMessage} {p p' : RpcPeer}
    (h : PeerStep services incoming p p')
    (hserving : p.channel.serving.Perm (p.pending.map RpcMessage.id)) :
    ∃ op, (machine services).enabled p.channel op ∧
      (machine services).exec p.channel op = .ok p'.channel := by
  cases h with
  | call service method request response done =>
    exact ⟨.callMethod service method request response done, trivial, rfl⟩
  | register k c hk hstage =>
    exact ⟨.register k, by simp [machine, Enabled, hk, hstage], by simp [machine, exec, hk]⟩
  | send k c hk hstage =>
    exact ⟨.send k, by simp [machine, Enabled, hk, hstage], by simp [machine, exec, hk]⟩
  | parse h hh hparsed =>
    exact ⟨.parse, by simp [machine, Enabled, hh, hparsed], by simp [machine, exec, hh]⟩
  | run h hh hparsed =>
    exact ⟨.run, by simp [machine, Enabled, hh, hparsed], by simp [machine, exec, hh]⟩
  | response m _ hfree htype hsome =>
    refine ⟨.onRpcMessage m, hfree, ?_⟩
    simp only [machine, exec, htype, ensure_pos hsome]
    rfl
  | accepted m _ hfree htype ha =>
    have herr : requestError services m = .NO_ERROR := of_decide_eq_true ha
    exact ⟨.onRpcMessage m, hfree, by simp [machine, exec, htype, onRequest, herr]⟩
  | refused m _ hfree htype ha =>
    have herr : requestError services m ≠ .NO_ERROR := of_decide_eq_false ha
    exact ⟨.onRpcMessage m, hfree, by simp [machine, exec, htype, onRequest, herr, refusal]⟩
  | ignored m _ hfree htype => exact ⟨.onRpcMessage m, hfree, by simp [machine, exec, htype]⟩
  | answer j m response hj =>
    refine ⟨.doneCallback m.id response, ?_, rfl⟩
    exact hserving.mem_iff.2 (List.mem_map_of_mem (List.mem_of_getElem? hj))

/-! ## A call, from `outstandings_` to its closure -/

/-- Whether `CallMethod` was given a response object and a closure. -/
def Call.given (c : Call) : Bool × Bool := (c.response, c.done)

/-- What a channel keeps of its calls. -/
structure Kept (s : RpcChannel) : Prop where
  /-- What was entered for a call is what `CallMethod` was given. -/
  entry : ∀ i out, s.outstandings i = some out →
    (s.calls[out.call]?).map Call.given = some (out.response, out.done)
  /-- A call that was entered is still there, or was taken out by a message. -/
  waiting : ∀ k c, s.calls[k]? = some c → c.stage ≠ .numbered →
    (s.outstandings c.id).map (·.call) = some k ∨ ∃ n, (n, k) ∈ taken s.log
  /-- A call that was taken out has had its closure run, or is in hand. -/
  settled : ∀ n k, (n, k) ∈ taken s.log → (s.calls[k]?).map Call.given = some (true, true) →
    .ran n k ∈ s.log ∨
      ∃ h, s.inHand = some h ∧ h.number = n ∧ h.out.call = k ∧ h.out.done = true
  form : ∀ c ∈ s.calls, c.message.type = .REQUEST

/-- Steps that leave everything a call goes through alone. -/
theorem Kept.of_eq {s s' : RpcChannel} (h : Kept s) (ho : s'.outstandings = s.outstandings)
    (hl : s'.log = s.log) (hi : s'.inHand = s.inHand) (hc : s'.calls = s.calls) : Kept s' := by
  constructor
  · rw [ho, hc]; exact h.entry
  · rw [ho, hc, hl]; exact h.waiting
  · rw [hc, hl, hi]; exact h.settled
  · rw [hc]; exact h.form

theorem Kept.callMethod {s : RpcChannel} (h : Kept s) (hm : Matched s) (service method : String)
    (request : List Byte) (response done : Bool) :
    Kept (Rpc.callMethod s service method request response done) := by
  constructor
  · intro i out ho
    obtain ⟨c, hc, hgiven⟩ := Option.map_eq_some_iff.1 (h.entry i out ho)
    rw [Rpc.callMethod, List.getElem?_append_left (List.getElem?_eq_some_iff.1 hc).1, hc]
    exact congrArg some hgiven
  · intro k c hc hstage
    rw [Rpc.callMethod, List.getElem?_append] at hc
    split at hc
    next => exact h.waiting k c hc hstage
    next =>
      rw [List.getElem?_singleton] at hc
      split at hc
      next => cases hc; exact absurd rfl hstage
      next => cases hc
  · intro n k hnk hgiven
    obtain ⟨m, -, -, d, hd, -⟩ := hm.matched (n, k) hnk
    rw [Rpc.callMethod, List.getElem?_append_left (List.getElem?_eq_some_iff.1 hd).1] at hgiven
    exact h.settled n k hnk hgiven
  · intro c hc
    rw [Rpc.callMethod, List.mem_append, List.mem_singleton] at hc
    rcases hc with hc | rfl
    · exact h.form c hc
    · rfl

/-- Call `k` goes to its next stage; `hown` and `hstay` say where the calls are then. -/
theorem Kept.set {s s' : RpcChannel} (h : Kept s) {k : Nat} {c d : Call}
    (hc : s.calls[k]? = some c) (hcalls : s'.calls = s.calls.set k d)
    (hmsg : d.message = c.message) (hgiven : d.given = c.given)
    (htaken : taken s'.log = taken s.log) (hran : ∀ n j, .ran n j ∈ s.log → .ran n j ∈ s'.log)
    (hi : s'.inHand = s.inHand)
    (hentry : ∀ i out, s'.outstandings i = some out → s.outstandings i = some out ∨
      (out.call = k ∧ c.given = (out.response, out.done)))
    (hstay : ∀ (j : Nat) e, j ≠ k → s.calls[j]? = some e →
      (s.outstandings e.id).map (·.call) = some j → (s'.outstandings e.id).map (·.call) = some j)
    (hown : (s'.outstandings d.id).map (·.call) = some k ∨ ∃ n, (n, k) ∈ taken s.log) :
    Kept s' := by
  have hk := (List.getElem?_eq_some_iff.1 hc).1
  have hsame : ∀ j : Nat, (s'.calls[j]?).map Call.given = (s.calls[j]?).map Call.given := by
    intro j
    rw [hcalls]
    by_cases hj : k = j
    · subst hj
      rw [List.getElem?_set_self hk, hc]
      exact congrArg some hgiven
    · rw [List.getElem?_set_ne hj]
  constructor
  · intro i out ho
    rw [hsame]
    rcases hentry i out ho with ho | ⟨hcall, hc'⟩
    · exact h.entry i out ho
    · rw [hcall, hc]
      exact congrArg some hc'
  · intro j e he hstage
    rw [htaken]
    by_cases hj : j = k
    · subst hj
      rw [hcalls, List.getElem?_set_self hk] at he
      cases he
      exact hown
    · rw [hcalls, List.getElem?_set_ne (Ne.symm hj)] at he
      rcases h.waiting j e he hstage with ho | ht
      · exact .inl (hstay j e hj he ho)
      · exact .inr ht
  · intro n j hnj hg
    rw [htaken] at hnj
    rw [hsame] at hg
    rw [hi]
    exact (h.settled n j hnj hg).imp_left (hran n j)
  · intro e he
    rw [hcalls] at he
    rcases List.mem_or_eq_of_mem_set he with he | rfl
    · exact h.form e he
    · rw [hmsg]
      exact h.form c (List.mem_of_getElem? hc)

theorem Kept.register {s : RpcChannel} (h : Kept s) (hn : Numbered s)
    (hlen : s.calls.length ≤ 2 ^ 64) {k : Nat} {c : Call} (hc : s.calls[k]? = some c) :
    Kept (Rpc.register s k c) := by
  refine h.set (d := { c with stage := .registered }) hc rfl rfl rfl ?_ ?_ rfl ?_ ?_ ?_
  · simp [Rpc.register, taken]
  · intro n j hr
    exact List.mem_append_left _ hr
  · intro i out ho
    simp only [Rpc.register, Function.update_apply] at ho
    split at ho
    next => cases ho; exact .inr ⟨rfl, rfl⟩
    next => exact .inl ho
  · intro j e hj he ho
    have hne : e.id ≠ c.id := fun hid => hj (hn.ids_inj hlen he hc hid)
    simp only [Rpc.register, Function.update_of_ne hne]
    exact ho
  · have hid : Call.id { c with stage := .registered } = c.id := rfl
    simp [Rpc.register, hid]

theorem Kept.send {s : RpcChannel} (h : Kept s) {k : Nat} {c : Call} (hc : s.calls[k]? = some c)
    (hstage : c.stage = .registered) : Kept (Rpc.send s k c) := by
  refine h.set (d := { c with stage := .sent }) hc rfl rfl rfl rfl (fun _ _ hr => hr) rfl
    (fun _ _ ho => .inl ho) (fun _ _ _ _ ho => ho) ?_
  exact h.waiting k c hc (by rw [hstage]; decide)

/-- A message that is for a call takes it out and has it in hand. -/
theorem Kept.onResponse {s : RpcChannel} (h : Kept s) (hfree : s.inHand = none)
    (m : RpcMessage) : Kept (Rpc.onResponse s m) := by
  constructor
  · intro i out ho
    exact h.entry i out (outstandings_onResponse ho).2
  · intro k c hc hstage
    rw [taken_onResponse]
    rcases h.waiting k c hc hstage with ho | ⟨n, hn⟩
    · obtain ⟨out, hout, hcall⟩ := Option.map_eq_some_iff.1 ho
      by_cases hid : c.id = m.id
      · refine .inr ⟨s.responses.length, ?_⟩
        rw [← hid, hout]
        simp [hcall]
      · refine .inl ?_
        simp only [Rpc.onResponse, Function.update_of_ne hid]
        exact ho
    · exact .inr ⟨n, List.mem_append_left _ hn⟩
  · intro n k hnk hgiven
    rw [taken_onResponse, List.mem_append] at hnk
    rcases hnk with hnk | hnk
    · rcases h.settled n k hnk hgiven with hrun | ⟨hd', hhand, -⟩
      · exact .inl (List.mem_append_left _ hrun)
      · rw [hfree] at hhand
        cases hhand
    · cases hout : s.outstandings m.id with
      | none => simp [hout] at hnk
      | some out =>
        simp only [hout, Option.map_some, Option.toList_some, List.mem_singleton] at hnk
        cases hnk
        obtain ⟨hresp, hdone⟩ :=
          Prod.mk.inj (Option.some.inj ((h.entry m.id out hout).symm.trans hgiven))
        refine .inr ⟨⟨s.responses.length, m, out, false⟩, ?_, rfl, rfl, hdone⟩
        simp [Rpc.onResponse, hout, Option.filter, hresp]
  · exact h.form

theorem Kept.parse {s : RpcChannel} (h : Kept s) {hd : Hand} (hhand : s.inHand = some hd) :
    Kept (Rpc.parse s hd) := by
  have htaken : taken (Rpc.parse s hd).log = taken s.log := by
    rw [Rpc.parse, taken_append]
    split <;> exact List.append_nil _
  constructor
  · exact h.entry
  · rw [htaken]; exact h.waiting
  · intro n k hnk hgiven
    rw [htaken] at hnk
    rcases h.settled n k hnk hgiven with hrun | ⟨h', hh', hn, hk, hd'⟩
    · exact .inl (List.mem_append_left _ hrun)
    · rw [hhand] at hh'
      cases hh'
      exact .inr ⟨_, rfl, hn, hk, hd'⟩
  · exact h.form

theorem Kept.runDone {s : RpcChannel} (h : Kept s) {hd : Hand} (hhand : s.inHand = some hd) :
    Kept (Rpc.runDone s hd) := by
  have htaken : taken (Rpc.runDone s hd).log = taken s.log := by
    rw [Rpc.runDone, taken_append]
    split <;> exact List.append_nil _
  constructor
  · exact h.entry
  · rw [htaken]; exact h.waiting
  · intro n k hnk hgiven
    rw [htaken] at hnk
    rcases h.settled n k hnk hgiven with hrun | ⟨h', hh', hn, hk, hd'⟩
    · exact .inl (List.mem_append_left _ hrun)
    · rw [hhand] at hh'
      cases hh'
      refine .inl ?_
      simp only [Rpc.runDone, hd', hn, hk, if_true]
      exact List.mem_append_right _ List.mem_cons_self
  · exact h.form

theorem kept_init : Kept init := by
  constructor
  · intro i out ho; cases ho
  · intro k c hc; cases hc
  · intro n k hnk; cases hnk
  · intro c hc; cases hc

/-- Every step of an end keeps what its channel keeps. -/
theorem PeerStep.kept {incoming : List RpcMessage} {p p' : RpcPeer}
    (h : PeerStep services incoming p p') (hk : Kept p.channel) (hi : Inv p.channel)
    (hlen : p.channel.calls.length ≤ 2 ^ 64) : Kept p'.channel := by
  cases h with
  | call service method request response done => exact hk.callMethod hi.matched _ _ _ _ _
  | register k c hc _ => exact hk.register hi.numbered hlen hc
  | send k c hc hstage => exact hk.send hc hstage
  | parse h hh _ => exact hk.parse hh
  | run h hh _ => exact hk.runDone hh
  | response m _ hfree _ _ => exact hk.onResponse hfree m
  | accepted m _ _ _ _ | refused m _ _ _ _ => exact hk.of_eq rfl rfl rfl rfl
  | ignored m _ _ _ => exact hk
  | answer j m response _ => exact hk.of_eq rfl rfl rfl rfl

/-- Calls are only ever added. -/
theorem PeerStep.calls_le {incoming : List RpcMessage} {p p' : RpcPeer}
    (h : PeerStep services incoming p p') :
    p.channel.calls.length ≤ p'.channel.calls.length := by
  cases h <;> simp [Rpc.callMethod, Rpc.register, Rpc.send, Rpc.parse, Rpc.runDone,
    Rpc.onResponse, Rpc.doneCallback]

end Rpc

end TinyMuduo
