import TinyMuduo.Rpc.Peers

/-!
# Rpc.EndToEnd

What a call gets from the other end of the connection.

* `Exchange` — the requests of one end, those handed to the other end, and what became of them
  there: pending, answered by the service, or refused.
* `Link` — one direction of the connection: its exchange, and the responses that came back; every
  one of them found its call in `outstandings_`.
* `AtRest` — nothing is in flight, in hand or pending.
-/

namespace TinyMuduo

namespace Rpc

open Result

/-! ## The messages of one kind -/

def ofType (t : MessageType) (ms : List RpcMessage) : List RpcMessage :=
  ms.filter (·.type = t)

theorem mem_ofType {t : MessageType} {ms : List RpcMessage} {m : RpcMessage} :
    m ∈ ofType t ms ↔ m ∈ ms ∧ m.type = t := by
  simp [ofType]

theorem ofType_concat {t : MessageType} {m : RpcMessage} (h : m.type = t) (ms : List RpcMessage) :
    ofType t (ms ++ [m]) = ofType t ms ++ [m] := by
  simp [ofType, h]

theorem ofType_concat_ne {t : MessageType} {m : RpcMessage} (h : m.type ≠ t)
    (ms : List RpcMessage) : ofType t (ms ++ [m]) = ofType t ms := by
  simp [ofType, h]

theorem take_succ_eq {ms : List RpcMessage} {n : Nat} {m : RpcMessage} (h : ms[n]? = some m) :
    ms.take (n + 1) = ms.take n ++ [m] := by
  rw [List.take_add_one, h]
  rfl

/-- What was handed over does not change when more is sent. -/
theorem take_concat {ms : List RpcMessage} {n : Nat} (h : n ≤ ms.length) (m : RpcMessage) :
    (ms ++ [m]).take n = ms.take n := List.take_append_of_le_length h

theorem ofType_take_sublist (t : MessageType) (ms : List RpcMessage) (n : Nat) :
    (ofType t (ms.take n)).Sublist (ofType t ms) := (List.take_sublist n ms).filter _

theorem doneCallback_sent (s : RpcChannel) (m : RpcMessage) (response : List Byte) :
    (doneCallback s m.id response).sent = s.sent ++ [reply m response] := rfl

/-! ## The requests of one end -/

section

variable (services : Option (String → Option Service))

/-- `m` is the answer to the request `q`: what a service that was called with `q` gave for it, or
the reason why none was called. -/
def Answers (answered : List (RpcMessage × List Byte)) (q m : RpcMessage) : Prop :=
  (accepts services q = true ∧ ∃ response, (q, response) ∈ answered ∧ m = reply q response) ∨
  (accepts services q = false ∧ m = refusal services q)

/-- `asked` is what one end sent of its `calls`, `handed` what of it reached the other end, and
`replies` what that end sent back. -/
structure Exchange (calls : List Call) (asked handed pending : List RpcMessage)
    (answered : List (RpcMessage × List Byte)) (replies : List RpcMessage) : Prop where
  asked_call : ∀ m ∈ asked, ∃ (k : Nat) (c : Call), calls[k]? = some c ∧ c.stage = .sent ∧
    c.message = m
  call_asked : ∀ c ∈ calls, c.stage = .sent → c.message ∈ asked
  distinct : (asked.map RpcMessage.id).Nodup
  handed_asked : handed.Sublist asked
  served : (pending ++ answered.map Prod.fst).Perm (handed.filter (accepts services))
  replied : replies.Perm (answered.map (fun a => reply a.1 a.2) ++
    (handed.filter (fun m => !accepts services m)).map (refusal services))

namespace Exchange

variable {services} {calls : List Call} {asked handed pending : List RpcMessage}
  {answered : List (RpcMessage × List Byte)} {replies : List RpcMessage}

theorem reply_answers (h : Exchange services calls asked handed pending answered replies)
    {m : RpcMessage} (hm : m ∈ replies) :
    ∃ q ∈ handed, q.id = m.id ∧ Answers services answered q m := by
  have hm' := h.replied.mem_iff.1 hm
  rw [List.mem_append, List.mem_map, List.mem_map] at hm'
  rcases hm' with ⟨⟨q, r⟩, ha, rfl⟩ | ⟨q, hq, rfl⟩
  · have hq : q ∈ handed.filter (accepts services) :=
      h.served.mem_iff.1 (List.mem_append_right _ (List.mem_map_of_mem ha))
    obtain ⟨hq, hacc⟩ := List.mem_filter.1 hq
    exact ⟨q, hq, rfl, .inl ⟨hacc, r, ha, rfl⟩⟩
  · obtain ⟨hq, hacc⟩ := List.mem_filter.1 hq
    exact ⟨q, hq, rfl, .inr ⟨by simpa using hacc, rfl⟩⟩

/-- Each request that was handed over is pending or has one reply. -/
theorem ids_balance (h : Exchange services calls asked handed pending answered replies) :
    (pending.map RpcMessage.id ++ replies.map RpcMessage.id).Perm (handed.map RpcMessage.id) := by
  have hreplies : (replies.map RpcMessage.id).Perm
      ((answered.map Prod.fst).map RpcMessage.id ++
        (handed.filter (fun m => !accepts services m)).map RpcMessage.id) := by
    refine (h.replied.map _).trans (List.Perm.of_eq ?_)
    simp [reply, refusal, Function.comp_def]
  calc (pending.map RpcMessage.id ++ replies.map RpcMessage.id).Perm
        (pending.map RpcMessage.id ++ ((answered.map Prod.fst).map RpcMessage.id ++
          (handed.filter (fun m => !accepts services m)).map RpcMessage.id)) :=
        hreplies.append_left _
    _ = (pending ++ answered.map Prod.fst).map RpcMessage.id ++
          (handed.filter (fun m => !accepts services m)).map RpcMessage.id := by
        simp [List.append_assoc]
    List.Perm _ ((handed.filter (accepts services)).map RpcMessage.id ++
          (handed.filter (fun m => !accepts services m)).map RpcMessage.id) :=
        (h.served.map _).append_right _
    _ = (handed.filter (accepts services) ++
          handed.filter (fun m => !accepts services m)).map RpcMessage.id :=
        List.map_append.symm
    List.Perm _ (handed.map RpcMessage.id) := (List.filter_append_perm _ _).map _

theorem handed_distinct (h : Exchange services calls asked handed pending answered replies) :
    (handed.map RpcMessage.id).Nodup := h.distinct.sublist (h.handed_asked.map _)

/-- No request is replied to twice. -/
theorem replies_distinct (h : Exchange services calls asked handed pending answered replies) :
    (replies.map RpcMessage.id).Nodup :=
  ((h.ids_balance.nodup_iff).2 h.handed_distinct).sublist (List.sublist_append_right _ _)

/-- A reply is for a call that was sent. -/
theorem reply_call (h : Exchange services calls asked handed pending answered replies)
    {m : RpcMessage} (hm : m ∈ replies) :
    ∃ (k : Nat) (c : Call), calls[k]? = some c ∧ c.stage = .sent ∧ c.id = m.id ∧
      Answers services answered c.message m := by
  obtain ⟨q, hq, hid, hans⟩ := h.reply_answers hm
  obtain ⟨k, c, hc, hstage, rfl⟩ := h.asked_call q (h.handed_asked.subset hq)
  exact ⟨k, c, hc, hstage, hid, hans⟩

/-- The other end is handed a request and calls the service. -/
theorem accepted (h : Exchange services calls asked handed pending answered replies)
    {m : RpcMessage} (hsub : (handed ++ [m]).Sublist asked) (hacc : accepts services m = true) :
    Exchange services calls asked (handed ++ [m]) (pending ++ [m]) answered replies := by
  refine ⟨h.asked_call, h.call_asked, h.distinct, hsub, ?_, ?_⟩
  · simp only [List.filter_append, List.filter_singleton, hacc, cond_true]
    refine List.Perm.trans ?_ (h.served.append_right _)
    simp only [List.append_assoc]
    exact (List.perm_append_comm).append_left _
  · simpa [List.filter_append, hacc] using h.replied

/-- The other end is handed a request and refuses it. -/
theorem refused (h : Exchange services calls asked handed pending answered replies)
    {m : RpcMessage} (hsub : (handed ++ [m]).Sublist asked) (hacc : accepts services m = false) :
    Exchange services calls asked (handed ++ [m]) pending answered
      (replies ++ [refusal services m]) := by
  refine ⟨h.asked_call, h.call_asked, h.distinct, hsub, ?_, ?_⟩
  · simpa [List.filter_append, hacc] using h.served
  · simpa [List.filter_append, hacc, List.append_assoc] using h.replied.append_right _

/-- The service answers a pending request. -/
theorem answer (h : Exchange services calls asked handed pending answered replies) {j : Nat}
    {m : RpcMessage} (hj : pending[j]? = some m) (response : List Byte) :
    Exchange services calls asked handed (pending.eraseIdx j) (answered ++ [(m, response)])
      (replies ++ [reply m response]) := by
  obtain ⟨hlt, rfl⟩ := List.getElem?_eq_some_iff.1 hj
  refine ⟨h.asked_call, h.call_asked, h.distinct, h.handed_asked, ?_, ?_⟩
  · refine List.Perm.trans ?_ h.served
    rw [List.map_append, ← List.append_assoc]
    refine List.perm_append_comm.trans ?_
    simpa using (List.getElem_cons_eraseIdx_perm hlt).append_right (answered.map Prod.fst)
  · rw [List.map_append, List.append_assoc]
    refine (h.replied.append_right _).trans ?_
    rw [List.append_assoc]
    exact List.perm_append_comm.append_left _

/-- A call that changes its stage and is not sent by it. -/
theorem unsent (h : Exchange services calls asked handed pending answered replies) {k : Nat}
    {c d : Call} (hk : calls[k]? = some c) (hc : c.stage ≠ .sent) (hd : d.stage ≠ .sent) :
    Exchange services (calls.set k d) asked handed pending answered replies := by
  refine ⟨fun m hm => ?_, fun e he hstage => ?_, h.distinct, h.handed_asked, h.served, h.replied⟩
  · obtain ⟨j, e, hj, hstage, hmsg⟩ := h.asked_call m hm
    have hne : k ≠ j := by
      rintro rfl
      rw [hk] at hj
      cases hj
      exact hc hstage
    exact ⟨j, e, by rw [List.getElem?_set_ne hne]; exact hj, hstage, hmsg⟩
  · rcases List.mem_or_eq_of_mem_set he with he | rfl
    · exact h.call_asked e he hstage
    · exact absurd hstage hd

theorem called (h : Exchange services calls asked handed pending answered replies) {c : Call}
    (hc : c.stage ≠ .sent) :
    Exchange services (calls ++ [c]) asked handed pending answered replies := by
  refine ⟨fun m hm => ?_, fun e he hstage => ?_, h.distinct, h.handed_asked, h.served, h.replied⟩
  · obtain ⟨j, e, hj, hstage, hmsg⟩ := h.asked_call m hm
    refine ⟨j, e, ?_, hstage, hmsg⟩
    rw [List.getElem?_append_left (List.getElem?_eq_some_iff.1 hj).1]
    exact hj
  · rw [List.mem_append, List.mem_singleton] at he
    rcases he with he | rfl
    · exact h.call_asked e he hstage
    · exact absurd hstage hc

/-- A call is sent; its id is a new one. -/
theorem send (h : Exchange services calls asked handed pending answered replies) {k : Nat}
    {c : Call} (hk : calls[k]? = some c) (hstage : c.stage ≠ .sent)
    (hids : ∀ (j : Nat) e, calls[j]? = some e → e.id = c.id → j = k) :
    Exchange services (calls.set k { c with stage := .sent }) (asked ++ [c.message]) handed
      pending answered replies := by
  have hlt := (List.getElem?_eq_some_iff.1 hk).1
  have hother : ∀ m ∈ asked, ∃ (j : Nat) (e : Call), j ≠ k ∧ calls[j]? = some e ∧
      e.stage = .sent ∧ e.message = m := by
    intro m hm
    obtain ⟨j, e, hj, he, hmsg⟩ := h.asked_call m hm
    refine ⟨j, e, ?_, hj, he, hmsg⟩
    rintro rfl
    rw [hk] at hj
    cases hj
    exact hstage he
  refine ⟨fun m hm => ?_, fun e he hsent => ?_, ?_,
    h.handed_asked.trans (List.sublist_append_left _ _), h.served, h.replied⟩
  · rw [List.mem_append, List.mem_singleton] at hm
    rcases hm with hm | rfl
    · obtain ⟨j, e, hne, hj, he, hmsg⟩ := hother m hm
      exact ⟨j, e, by rw [List.getElem?_set_ne (Ne.symm hne)]; exact hj, he, hmsg⟩
    · exact ⟨k, _, List.getElem?_set_self hlt, rfl, rfl⟩
  · rcases List.mem_or_eq_of_mem_set he with he | rfl
    · exact List.mem_append_left _ (h.call_asked e he hsent)
    · exact List.mem_append_right _ (List.mem_singleton.2 rfl)
  · refine nodup_map_concat h.distinct fun m hm hid => ?_
    obtain ⟨j, e, hne, hj, -, rfl⟩ := hother m hm
    exact hne (hids j e hj hid)

end Exchange

/-! ## One direction of the connection -/

/-- `p` calls and `q` serves. -/
structure Link (p q : RpcPeer) : Prop where
  exchange : Exchange services p.channel.calls (ofType .REQUEST p.channel.sent)
    (ofType .REQUEST (p.channel.sent.take q.handed)) q.pending q.answered
    (ofType .RESPONSE q.channel.sent)
  bound : q.handed ≤ p.channel.sent.length
  came : p.channel.responses = ofType .RESPONSE (q.channel.sent.take p.handed)
  took : ∀ n m, p.channel.responses[n]? = some m → ∃ k, (n, k) ∈ taken p.channel.log

/-- What one end knows by itself. -/
structure Whole (p : RpcPeer) : Prop where
  inv : Inv p.channel
  kept : Kept p.channel
  serving : p.channel.serving.Perm (p.pending.map RpcMessage.id)

end

variable {services : Option (String → Option Service)}

/-- A response that comes finds its call. -/
theorem Link.outstanding {p q : RpcPeer} (h : Link services p q) (hw : Whole p)
    {m : RpcMessage} (hm : q.channel.sent[p.handed]? = some m) (htype : m.type = .RESPONSE) :
    ∃ out, p.channel.outstandings m.id = some out := by
  have hmem : m ∈ ofType .RESPONSE q.channel.sent :=
    mem_ofType.2 ⟨List.mem_of_getElem? hm, htype⟩
  obtain ⟨k, c, hc, hstage, hid, -⟩ := h.exchange.reply_call hmem
  rcases hw.kept.waiting k c hc (by rw [hstage]; decide) with ho | ⟨n, hn⟩
  · obtain ⟨out, hout, -⟩ := Option.map_eq_some_iff.1 ho
    exact ⟨out, hid ▸ hout⟩
  · -- an earlier response has the same id
    obtain ⟨m', hm', -, d, hd, hdid, -⟩ := hw.inv.matched.matched (n, k) hn
    obtain rfl : c = d := Option.some.inj (hc.symm.trans hd)
    have hdistinct := h.exchange.replies_distinct
    have hsub := ((ofType_take_sublist .RESPONSE q.channel.sent (p.handed + 1)).map
      RpcMessage.id)
    rw [take_succ_eq hm, ofType_concat htype, ← h.came, List.map_append] at hsub
    have hnd := hdistinct.sublist hsub
    rw [List.nodup_append] at hnd
    exact absurd (hdid.symm.trans hid)
      (hnd.2.2 m'.id (List.mem_map_of_mem (List.mem_of_getElem? hm')) m.id (by simp))

/-- The calling end makes a step. -/
theorem Link.caller {p p' q : RpcPeer} {own : Option (String → Option Service)}
    (h : Link services p q) (hw : Whole p) (hlen : p.channel.calls.length ≤ 2 ^ 64)
    (hstep : PeerStep own q.channel.sent p p') : Link services p' q := by
  obtain ⟨hex, hbound, hcame, htook⟩ := h
  cases hstep with
  | call service method request response done =>
    exact ⟨hex.called (fun h => by cases h), hbound, hcame, htook⟩
  | register k c hk hstage =>
    refine ⟨hex.unsent hk (by rw [hstage]; decide) (fun h => by cases h), hbound, hcame,
      fun n m hm => ?_⟩
    obtain ⟨j, hj⟩ := htook n m hm
    exact ⟨j, by simpa [register, taken] using hj⟩
  | send k c hk hstage =>
    have htype : c.message.type = .REQUEST := hw.kept.form c (List.mem_of_getElem? hk)
    refine ⟨?_, ?_, hcame, htook⟩
    · simp only [send, ofType_concat htype, take_concat hbound]
      exact hex.send hk (by rw [hstage]; decide) fun j e hj hid =>
        hw.inv.numbered.ids_inj hlen hj hk hid
    · simp only [send, List.length_append]
      omega
  | parse hd hh _ =>
    refine ⟨hex, hbound, hcame, fun n m hm => ?_⟩
    obtain ⟨j, hj⟩ := htook n m hm
    exact ⟨j, by rw [parse, taken_append]; exact List.mem_append_left _ hj⟩
  | run hd hh _ =>
    refine ⟨hex, hbound, hcame, fun n m hm => ?_⟩
    obtain ⟨j, hj⟩ := htook n m hm
    exact ⟨j, by rw [runDone, taken_append]; exact List.mem_append_left _ hj⟩
  | response m hm _ htype _ =>
    obtain ⟨out, hout⟩ := Link.outstanding ⟨hex, hbound, hcame, htook⟩ hw hm htype
    refine ⟨hex, hbound, ?_, fun n m' hm' => ?_⟩
    · simp only [onResponse, take_succ_eq hm, ofType_concat htype, hcame]
    · simp only [taken_onResponse, hout]
      simp only [onResponse, List.getElem?_append] at hm'
      split at hm'
      next =>
        obtain ⟨k, hk⟩ := htook n m' hm'
        exact ⟨k, List.mem_append_left _ hk⟩
      next hge =>
        rw [List.getElem?_singleton] at hm'
        split at hm'
        next h0 =>
          obtain rfl : n = p.channel.responses.length := by omega
          exact ⟨out.call, by simp⟩
        next => cases hm'
  | accepted m hm _ htype _ =>
    refine ⟨hex, hbound, ?_, htook⟩
    simp only [take_succ_eq hm, ofType_concat_ne (show m.type ≠ .RESPONSE by rw [htype]; decide),
      hcame]
  | refused m hm _ htype _ =>
    refine ⟨?_, ?_, ?_, htook⟩
    · have hne : (refusal own m).type ≠ .REQUEST := fun h => by cases h
      simp only [ofType_concat_ne hne, take_concat hbound]
      exact hex
    · simp only [List.length_append]
      omega
    · simp only [take_succ_eq hm, ofType_concat_ne (show m.type ≠ .RESPONSE by rw [htype]; decide),
        hcame]
  | ignored m hm _ htype =>
    refine ⟨hex, hbound, ?_, htook⟩
    simp only [take_succ_eq hm, ofType_concat_ne (show m.type ≠ .RESPONSE by rw [htype]; decide),
      hcame]
  | answer j m response _ =>
    refine ⟨?_, ?_, hcame, htook⟩
    · have hne : (reply m response).type ≠ .REQUEST := fun h => by cases h
      simp only [doneCallback_sent, ofType_concat_ne hne, take_concat hbound]
      exact hex
    · simp only [doneCallback, List.length_append]
      omega

/-- The serving end makes a step. -/
theorem Link.callee {p q q' : RpcPeer} (h : Link services p q)
    (hp : p.handed ≤ q.channel.sent.length) (hw : Whole q)
    (hstep : PeerStep services p.channel.sent q q') : Link services p q' := by
  obtain ⟨hex, hbound, hcame, htook⟩ := h
  -- what the step is handed comes from the messages sent
  have hnext : ∀ m, p.channel.sent[q.handed]? = some m → q.handed + 1 ≤ p.channel.sent.length :=
    fun m hm => (List.getElem?_eq_some_iff.1 hm).1
  cases hstep with
  | call service method request response done => exact ⟨hex, hbound, hcame, htook⟩
  | register k c hk _ => exact ⟨hex, hbound, hcame, htook⟩
  | send k c hk _ =>
    have htype : c.message.type ≠ .RESPONSE := by
      rw [hw.kept.form c (List.mem_of_getElem? hk)]
      decide
    refine ⟨?_, hbound, ?_, htook⟩
    · simp only [send, ofType_concat_ne htype]
      exact hex
    · simp only [send, take_concat hp]
      exact hcame
  | parse hd _ _ | run hd _ _ => exact ⟨hex, hbound, hcame, htook⟩
  | response m hm _ htype _ =>
    refine ⟨?_, hnext m hm, hcame, htook⟩
    simp only [take_succ_eq hm, ofType_concat_ne (show m.type ≠ .REQUEST by rw [htype]; decide)]
    exact hex
  | accepted m hm _ htype hacc =>
    have hsub := ofType_take_sublist .REQUEST p.channel.sent (q.handed + 1)
    refine ⟨?_, hnext m hm, hcame, htook⟩
    rw [take_succ_eq hm, ofType_concat htype] at hsub ⊢
    exact hex.accepted hsub hacc
  | refused m hm _ htype hacc =>
    have hsub := ofType_take_sublist .REQUEST p.channel.sent (q.handed + 1)
    refine ⟨?_, hnext m hm, ?_, htook⟩
    · rw [take_succ_eq hm, ofType_concat htype] at hsub ⊢
      simp only [ofType_concat (t := .RESPONSE) (m := refusal services m) rfl]
      exact hex.refused hsub hacc
    · simp only [take_concat hp]
      exact hcame
  | ignored m hm _ htype =>
    refine ⟨?_, hnext m hm, hcame, htook⟩
    simp only [take_succ_eq hm, ofType_concat_ne (show m.type ≠ .REQUEST by rw [htype]; decide)]
    exact hex
  | answer j m response hj =>
    refine ⟨?_, hbound, ?_, htook⟩
    · have heq : (reply m response).type = .RESPONSE := rfl
      simp only [doneCallback_sent, ofType_concat heq]
      exact hex.answer hj response
    · simp only [doneCallback_sent, take_concat hp]
      exact hcame

theorem Whole.step {incoming : List RpcMessage} {p p' : RpcPeer} (h : Whole p)
    (hlen : p.channel.calls.length ≤ 2 ^ 64) (hstep : PeerStep services incoming p p') :
    Whole p' := by
  obtain ⟨op, he, hx⟩ := hstep.channel_step services h.serving
  refine ⟨machine_keeps_inv services _ _ _ h.inv he hx, hstep.kept services h.kept h.inv hlen, ?_⟩
  cases hstep with
  | accepted m _ _ _ _ =>
    simpa using h.serving.append_right [m.id]
  | answer j m response hj =>
    obtain ⟨hlt, rfl⟩ := List.getElem?_eq_some_iff.1 hj
    have hperm := (List.getElem_cons_eraseIdx_perm hlt).map RpcMessage.id
    exact ((h.serving.trans hperm.symm).erase _).trans (List.Perm.of_eq (by simp))
  | _ => exact h.serving

/-! ## Both ends -/

variable (services : Bool → Option (String → Option Service))

/-- The two ends, `services i` being what end `i` was given by `setServices`. -/
def peers : Machine (Bool → RpcPeer) (Bool × PeerOp) Fault where
  enabled s a := RpcPeer.Enabled (s !a.1).channel.sent (s a.1) a.2
  exec s a := do
    let p ← RpcPeer.exec (services a.1) (s !a.1).channel.sent (s a.1) a.2
    .ok (Function.update s a.1 p)

instance (s : Bool → RpcPeer) (a : Bool × PeerOp) : Decidable ((peers services).enabled s a) :=
  inferInstanceAs (Decidable (RpcPeer.Enabled _ _ _))

/-- The ids of neither end have come round. -/
def Fresh (s : Bool → RpcPeer) : Prop := ∀ i, (s i).channel.calls.length ≤ 2 ^ 64

structure PeersInv (s : Bool → RpcPeer) : Prop where
  whole : ∀ i, Whole (s i)
  link : ∀ i, Link (services !i) (s i) (s !i)

theorem peers_keeps_inv :
    (peers services).Keeps fun s => Fresh s → PeersInv services s := by
  rintro s ⟨i, op⟩ s' hs he hx hfresh'
  obtain ⟨p', hp', hx⟩ := bind_eq_ok hx
  cases hx
  have hstep := peerStep_of_exec (services i) he hp'
  have hfresh : Fresh s := by
    intro j
    have hj := hfresh' j
    by_cases hij : j = i
    · subst hij
      rw [Function.update_self] at hj
      exact (hstep.calls_le).trans hj
    · rwa [Function.update_of_ne hij] at hj
  obtain ⟨hwhole, hlink⟩ := hs hfresh
  have hne : (!i) ≠ i := Bool.not_ne_self i
  have hcaller := (hlink i).caller (hwhole i) (hfresh i) hstep
  have hback : Link (services i) (s !i) (s i) := by simpa using hlink !i
  have hcallee := hback.callee (hlink i).bound (hwhole i) hstep
  constructor
  · intro j
    by_cases hij : j = i
    · subst hij
      rw [Function.update_self]
      exact (hwhole j).step (hfresh j) hstep
    · rw [Function.update_of_ne hij]
      exact hwhole j
  · intro j
    by_cases hij : j = i
    · subst hij
      rw [Function.update_self, Function.update_of_ne hne]
      exact hcaller
    · obtain rfl : j = !i := by cases i <;> cases j <;> simp_all
      rw [Function.update_of_ne hne, Bool.not_not, Function.update_self]
      exact hcallee

theorem peersInv_init : PeersInv services fun _ => RpcPeer.init := by
  refine ⟨fun _ => ⟨inv_init, kept_init, List.Perm.refl _⟩, fun _ => ⟨?_, Nat.le_refl _, rfl, ?_⟩⟩
  · refine ⟨fun m hm => ?_, fun c hc => ?_, List.nodup_nil, List.Sublist.refl _, List.Perm.refl _,
      List.Perm.refl _⟩
    · cases hm
    · cases hc
  · intro n m hm
    cases hm

variable {services}

theorem run_peersInv {ops : List (Bool × PeerOp)} {s : Bool → RpcPeer}
    (hr : (peers services).Run (fun _ => RpcPeer.init) ops s) (hfresh : Fresh s) :
    PeersInv services s :=
  hr.keeps (peers_keeps_inv services) (fun _ => peersInv_init services) hfresh

/-- Nothing is under way: all calls are sent, all messages handed over and handled, and no request
is pending. -/
def AtRest (s : Bool → RpcPeer) : Prop :=
  ∀ i, (s i).handed = (s !i).channel.sent.length ∧ (s i).pending = [] ∧
    (s i).channel.inHand = none ∧ ∀ c ∈ (s i).channel.calls, c.stage = .sent

namespace PeersInv

variable {s : Bool → RpcPeer}

/-- A closure is run for the answer to the call's own request. -/
theorem ran_answers (h : PeersInv services s) (hfresh : Fresh s) {i : Bool} {n k : Nat}
    (hran : .ran n k ∈ (s i).channel.log) :
    ∃ c m, (s i).channel.calls[k]? = some c ∧ (s i).channel.responses[n]? = some m ∧
      Answers (services !i) (s !i).answered c.message m := by
  have hm := (h.whole i).inv.matched
  obtain ⟨m, hresp, -, c, hc, hid, -⟩ :=
    hm.matched (n, k) (hm.completed_sublist.subset (mem_completed.2 hran))
  have hmem := List.mem_of_getElem? hresp
  rw [(h.link i).came] at hmem
  obtain ⟨j, d, hd, -, hdid, hans⟩ :=
    (h.link i).exchange.reply_call ((ofType_take_sublist _ _ _).subset hmem)
  obtain rfl : k = j := (h.whole i).inv.numbered.ids_inj (hfresh i) hc hd (hid.trans hdid.symm)
  rw [hc] at hd
  cases hd
  exact ⟨c, m, hc, hresp, hans⟩

/-- At rest every call has been taken out by a response. -/
theorem taken_of_atRest (h : PeersInv services s) (hfresh : Fresh s) (hrest : AtRest s) {i : Bool}
    {k : Nat} {c : Call} (hc : (s i).channel.calls[k]? = some c) :
    ∃ n, (n, k) ∈ taken (s i).channel.log := by
  have hex := (h.link i).exchange
  have hmem := List.mem_of_getElem? hc
  have hasked := hex.call_asked c hmem ((hrest i).2.2.2 c hmem)
  -- the request was handed over, so it has a reply, and the reply was handed over too
  have hhanded : (s i).channel.sent.take (s !i).handed = (s i).channel.sent := by
    rw [(hrest !i).1, Bool.not_not, List.take_length]
  have hreplied := hex.ids_balance.mem_iff.2 (List.mem_map_of_mem (hhanded.symm ▸ hasked))
  rw [(hrest !i).2.1, List.map_nil, List.nil_append] at hreplied
  obtain ⟨m, hm, hid⟩ := List.mem_map.1 hreplied
  have hback : (s !i).channel.sent.take (s i).handed = (s !i).channel.sent := by
    rw [(hrest i).1, List.take_length]
  obtain ⟨n, hn⟩ := List.getElem?_of_mem (hback.symm ▸ hm)
  rw [← (h.link i).came] at hn
  -- it found a call with its id in `outstandings_`
  obtain ⟨j, hj⟩ := (h.link i).took n m hn
  obtain ⟨m', hm', -, d, hd, hdid, -⟩ := (h.whole i).inv.matched.matched (n, j) hj
  obtain rfl : m = m' := Option.some.inj (hn.symm.trans hm')
  obtain rfl : k = j :=
    (h.whole i).inv.numbered.ids_inj (hfresh i) hc hd (hid.symm.trans hdid.symm)
  exact ⟨n, hj⟩

theorem ran_of_atRest (h : PeersInv services s) (hfresh : Fresh s) (hrest : AtRest s) {i : Bool}
    {k : Nat} {c : Call} (hc : (s i).channel.calls[k]? = some c) (hgiven : c.given = (true, true)) :
    ∃ n, .ran n k ∈ (s i).channel.log := by
  obtain ⟨n, hn⟩ := h.taken_of_atRest hfresh hrest hc
  have hgiven' : ((s i).channel.calls[k]?).map Call.given = some (true, true) := by
    rw [hc]
    exact congrArg some hgiven
  rcases (h.whole i).kept.settled n k hn hgiven' with hran | ⟨hd, hhand, -⟩
  · exact ⟨n, hran⟩
  · rw [(hrest i).2.2.1] at hhand
    cases hhand

theorem outstandings_of_atRest (h : PeersInv services s) (hfresh : Fresh s) (hrest : AtRest s)
    (i : Bool) (x : BitVec 64) : (s i).channel.outstandings x = none := by
  cases hout : (s i).channel.outstandings x with
  | none => rfl
  | some out =>
    obtain ⟨⟨c, hc, -⟩, hfree⟩ := (h.whole i).inv.matched.held x out hout
    obtain ⟨n, hn⟩ := h.taken_of_atRest hfresh hrest hc
    exact absurd rfl (hfree _ hn)

/-- Requests that services were called with are those of the other end, each one once. -/
theorem served_once (h : PeersInv services s) (i : Bool) :
    (((s !i).pending ++ (s !i).answered.map Prod.fst).map RpcMessage.id).Nodup ∧
    ∀ m ∈ (s !i).pending ++ (s !i).answered.map Prod.fst,
      ∃ c ∈ (s i).channel.calls, c.message = m := by
  have hex := (h.link i).exchange
  constructor
  · exact ((hex.served.map RpcMessage.id).nodup_iff).2
      (hex.handed_distinct.sublist (List.filter_sublist.map _))
  · intro m hm
    have hhanded := (List.mem_filter.1 (hex.served.mem_iff.1 hm)).1
    obtain ⟨k, c, hc, -, hmsg⟩ := hex.asked_call m (hex.handed_asked.subset hhanded)
    exact ⟨c, List.mem_of_getElem? hc, hmsg⟩

theorem exec_own (own : Option (String → Option Service)) (c : RpcChannel) {op : RpcOp}
    (hown : op.isOwn = true) : ∃ c', exec own c op = .ok c' := by
  cases op with
  | onRpcMessage m | doneCallback id response => cases hown
  | callMethod service method request response done => exact ⟨_, rfl⟩
  | register k | send k | parse | run => simp only [exec]; split <;> exact ⟨_, rfl⟩

/-- The assertion on incoming responses holds between two channels. -/
theorem no_fault (h : PeersInv services s) (a : Bool × PeerOp)
    (he : (peers services).enabled s a) : ∃ s', (peers services).exec s a = .ok s' := by
  obtain ⟨i, op⟩ := a
  suffices ∃ p', RpcPeer.exec (services i) (s !i).channel.sent (s i) op = .ok p' by
    obtain ⟨p', hp'⟩ := this
    exact ⟨Function.update s i p', by simp only [peers, hp', ok_bind]⟩
  cases op with
  | own op =>
    obtain ⟨channel, hc⟩ := exec_own (services i) (s i).channel he.1
    exact ⟨{ s i with channel := channel }, by simp only [RpcPeer.exec, hc, ok_bind]⟩
  | hand =>
    have hlt : (s i).handed < (s !i).channel.sent.length := he.1
    have hm := List.getElem?_eq_getElem hlt
    generalize (s !i).channel.sent[(s i).handed] = m at hm
    simp only [RpcPeer.exec, hm, exec]
    cases htype : m.type with
    | REQUEST => exact ⟨_, rfl⟩
    | ERROR => exact ⟨_, rfl⟩
    | RESPONSE =>
      obtain ⟨q, -, -, hans⟩ := (h.link i).exchange.reply_answers
        (mem_ofType.2 ⟨List.mem_of_getElem? hm, htype⟩)
      have hsome : m.response.isSome ∨ m.error.isSome := by
        rcases hans with ⟨-, r, -, rfl⟩ | ⟨-, rfl⟩
        · exact .inl rfl
        · exact .inr rfl
      rw [ensure_pos hsome]
      exact ⟨_, rfl⟩
  | answer j response =>
    simp only [RpcPeer.exec]
    split
    next => exact ⟨s i, rfl⟩
    next m _ => exact ⟨_, rfl⟩

end PeersInv

/-- As long as something is under way, a step other than a new call can be made. -/
theorem progress {s : Bool → RpcPeer} (h : PeersInv services s) (hrest : ¬ AtRest s) :
    ∃ i op, (peers services).enabled s (i, op) ∧
      ∀ service method request response done,
        op ≠ .own (.callMethod service method request response done) := by
  simp only [AtRest, not_forall] at hrest
  obtain ⟨i, hi⟩ := hrest
  cases hhand : (s i).channel.inHand with
  | some hd =>
    cases hparsed : hd.parsed with
    | false =>
      refine ⟨i, .own .parse, ⟨rfl, ?_⟩, fun _ _ _ _ _ h => by cases h⟩
      simp [Enabled, hhand, hparsed]
    | true =>
      refine ⟨i, .own .run, ⟨rfl, ?_⟩, fun _ _ _ _ _ h => by cases h⟩
      simp [Enabled, hhand, hparsed]
  | none =>
    by_cases hlt : (s i).handed < (s !i).channel.sent.length
    · exact ⟨i, .hand, ⟨hlt, hhand⟩, fun _ _ _ _ _ h => by cases h⟩
    by_cases hpending : (s i).pending = []
    · have hbound : (s i).handed ≤ (s !i).channel.sent.length := by
        have := (h.link !i).bound
        rwa [Bool.not_not] at this
      have hstage : ∃ c ∈ (s i).channel.calls, c.stage ≠ .sent := by
        by_contra hall
        refine hi ⟨by omega, hpending, hhand, fun c hc => ?_⟩
        by_contra hn
        exact hall ⟨c, hc, hn⟩
      obtain ⟨c, hc, hstage⟩ := hstage
      obtain ⟨k, hk⟩ := List.getElem?_of_mem hc
      cases hst : c.stage with
      | numbered =>
        exact ⟨i, .own (.register k), ⟨rfl, by simp [Enabled, hk, hst]⟩,
          fun _ _ _ _ _ h => by cases h⟩
      | registered =>
        exact ⟨i, .own (.send k), ⟨rfl, by simp [Enabled, hk, hst]⟩,
          fun _ _ _ _ _ h => by cases h⟩
      | sent => exact absurd hst hstage
    · exact ⟨i, .answer 0 [], List.length_pos_iff.2 hpending, fun _ _ _ _ _ h => by cases h⟩

/-- Calls between two ends. A closure is run at most once, and for the answer to its call's own
request: the response that a service of the other end gave for that request, or the error if no
service was called. Services are called only with requests that were made, and once with each,
whether they have answered yet or not. While something is under way a step can be made, and once
nothing is, the closure of every call with a response object has been run and nothing is left in
`outstandings_`. The assertion on incoming messages never fails. -/
theorem rpc_end_to_end {ops : List (Bool × PeerOp)} {s : Bool → RpcPeer}
    (hr : (peers services).Run (fun _ => RpcPeer.init) ops s) (hfresh : Fresh s) (i : Bool) :
    (∀ n k, .ran n k ∈ (s i).channel.log → ∃ c m, (s i).channel.calls[k]? = some c ∧
      (s i).channel.responses[n]? = some m ∧
      Answers (services !i) (s !i).answered c.message m) ∧
    ((completed (s i).channel.log).map Prod.snd).Nodup ∧
    (((s !i).pending ++ (s !i).answered.map Prod.fst).map RpcMessage.id).Nodup ∧
    (∀ m ∈ (s !i).pending ++ (s !i).answered.map Prod.fst,
      ∃ c ∈ (s i).channel.calls, c.message = m) ∧
    (AtRest s → (∀ x, (s i).channel.outstandings x = none) ∧
      ∀ k c, (s i).channel.calls[k]? = some c → c.given = (true, true) →
        ∃ n, .ran n k ∈ (s i).channel.log) ∧
    (¬ AtRest s → ∃ i op, (peers services).enabled s (i, op) ∧
      ∀ service method request response done,
        op ≠ .own (.callMethod service method request response done)) ∧
    ∀ a, (peers services).enabled s a → ∃ s', (peers services).exec s a = .ok s' := by
  have hinv := run_peersInv hr hfresh
  have hm := (hinv.whole i).inv.matched
  refine ⟨fun n k => hinv.ran_answers hfresh, hm.calls.sublist (hm.completed_sublist.map _),
    (hinv.served_once i).1, (hinv.served_once i).2, fun hrest => ⟨?_, ?_⟩, progress hinv,
    hinv.no_fault⟩
  · exact hinv.outstandings_of_atRest hfresh hrest i
  · intro k c
    exact hinv.ran_of_atRest hfresh hrest

/-- One end has a service with one method, the other has none. -/
def echoServices : Bool → Option (String → Option Service)
  | false => none
  | true => some fun name =>
    if name = "EchoService" then
      some ⟨fun method => if method = "Echo" then some fun _ => true else none⟩
    else none

/-- Three calls are sent; the third has no method, and the second is answered before the first. -/
def echoCalls : List (Bool × PeerOp) :=
  [(false, .own (.callMethod "EchoService" "Echo" [1] true true)), (false, .own (.register 0)),
    (false, .own (.callMethod "EchoService" "Echo" [2] true true)), (false, .own (.register 1)),
    (false, .own (.send 1)), (false, .own (.send 0)),
    (false, .own (.callMethod "EchoService" "Missing" [3] true true)),
    (false, .own (.register 2)), (false, .own (.send 2)), (true, .hand), (true, .hand),
    (true, .answer 0 [2]), (true, .hand), (true, .answer 0 [1])]

/-- The responses reach the calling end. -/
def echoReturns : List (Bool × PeerOp) :=
  [(false, .hand), (false, .own .parse), (false, .own .run), (false, .hand), (false, .own .parse),
    (false, .own .run), (false, .hand), (false, .own .parse), (false, .own .run)]

theorem rpc_end_to_end_echo :
    ∃ s, (peers echoServices).Run (fun _ => RpcPeer.init) (echoCalls ++ echoReturns) s ∧
      completed (s false).channel.log = [(0, 1), (1, 2), (2, 0)] ∧
      ∀ n k, .ran n k ∈ (s false).channel.log → ∃ c m, (s false).channel.calls[k]? = some c ∧
        (s false).channel.responses[n]? = some m ∧
        Answers (echoServices true) (s true).answered c.message m := by
  obtain ⟨s, hr, hobs⟩ := Machine.Run.of_replay (peers echoServices) (fun _ => RpcPeer.init)
    (echoCalls ++ echoReturns)
    (fun s => ((s false).channel.calls.length, (s true).channel.calls.length,
      completed (s false).channel.log))
    (3, 0, [(0, 1), (1, 2), (2, 0)]) (by decide +kernel)
  simp only [Prod.mk.injEq] at hobs
  obtain ⟨hfalse, htrue, hlog⟩ := hobs
  have hfresh : Fresh s := by
    intro i
    cases i with
    | false => rw [hfalse]; decide
    | true => rw [htrue]; decide
  exact ⟨s, hr, hlog, (rpc_end_to_end hr hfresh false).1⟩

end Rpc

end TinyMuduo
