import TinyMuduo.Lib.Total
import TinyMuduo.Rpc.EndToEnd

/-!
# Rpc.Completion

Calls come to an end. `work` counts the steps that the calls made so far still need; every step
other than a new call lowers it. So the two ends come to rest, and then every closure has been run.
-/

namespace TinyMuduo

namespace Rpc

open Result

/-! ## The work that is left -/

/-- The steps a call needs until its request is sent, and those its request needs then. -/
def CallStage.work : CallStage → Nat
  | .numbered => 9
  | .registered => 8
  | .sent => 0

/-- A request is handed over, answered, and its response handed over, parsed and run. -/
def RpcMessage.work (m : RpcMessage) : Nat :=
  match m.type with
  | .REQUEST => 7
  | .RESPONSE => 4
  | .ERROR => 1

def Hand.work (h : Hand) : Nat := if h.parsed then 1 else 2

/-- What an end has to do itself. -/
def RpcPeer.work (p : RpcPeer) : Nat :=
  (p.channel.calls.map (·.stage.work)).sum + 6 * p.pending.length +
    (p.channel.inHand.map Hand.work).getD 0

/-- What is left to do with the messages that are on their way. -/
def inFlight (sent : List RpcMessage) (handed : Nat) : Nat :=
  ((sent.drop handed).map RpcMessage.work).sum

def work (s : Bool → RpcPeer) : Nat :=
  RpcPeer.work (s false) + RpcPeer.work (s true) +
    inFlight (s false).channel.sent (s true).handed +
    inFlight (s true).channel.sent (s false).handed

theorem inFlight_concat {sent : List RpcMessage} {handed : Nat} (h : handed ≤ sent.length)
    (m : RpcMessage) : inFlight (sent ++ [m]) handed = inFlight sent handed + m.work := by
  simp [inFlight, List.drop_append_of_le_length h]

theorem inFlight_hand {sent : List RpcMessage} {handed : Nat} {m : RpcMessage}
    (h : sent[handed]? = some m) :
    inFlight sent handed = m.work + inFlight sent (handed + 1) := by
  obtain ⟨hlt, rfl⟩ := List.getElem?_eq_some_iff.1 h
  rw [inFlight, inFlight, List.drop_eq_getElem_cons hlt, List.map_cons, List.sum_cons]

/-- A new call is the only step that brings work. -/
def PeerOp.isCall : PeerOp → Bool
  | .own (.callMethod ..) => true
  | _ => false

variable {services : Option (String → Option Service)}

/-- Steps of one end other than new calls lower the work; `theirs` is what it was sent, and
`reached` how much of what it sent has reached the other end. -/
theorem PeerStep.work_lt {theirs : List RpcMessage} {reached : Nat} {p p' : RpcPeer}
    (h : PeerStep services theirs p p') (hw : Whole p)
    (hcalls : p'.channel.calls.length = p.channel.calls.length)
    (hreached : reached ≤ p.channel.sent.length) :
    RpcPeer.work p' + inFlight p'.channel.sent reached + inFlight theirs p'.handed <
      RpcPeer.work p + inFlight p.channel.sent reached + inFlight theirs p.handed := by
  cases h with
  | call service method request response done => simp [callMethod] at hcalls
  | register k c hk hstage =>
    have hsum := List.sum_map_set (f := fun c : Call => c.stage.work) (x := 9) (y := 8)
      (b := { c with stage := .registered }) hk (by rw [hstage]; rfl) rfl
    simp only [RpcPeer.work, Rpc.register]
    omega
  | send k c hk hstage =>
    have hsum := List.sum_map_set (f := fun c : Call => c.stage.work) (x := 8) (y := 0)
      (b := { c with stage := .sent }) hk (by rw [hstage]; rfl) rfl
    have htype : c.message.type = .REQUEST := hw.kept.form c (List.mem_of_getElem? hk)
    simp only [RpcPeer.work, Rpc.send, inFlight_concat hreached, RpcMessage.work, htype]
    omega
  | parse hd hhand hparsed =>
    simp only [RpcPeer.work, Rpc.parse, hhand, Option.map_some, Option.getD_some, Hand.work,
      hparsed]
    simp
  | run hd hhand hparsed =>
    simp only [RpcPeer.work, runDone, hhand, Option.map_some, Option.getD_some, Hand.work, hparsed]
    simp
  | response m hm hfree htype _ =>
    have hhand : ((onResponse p.channel m).inHand.map Hand.work).getD 0 ≤ 2 := by
      simp only [onResponse, Option.map_map]
      cases (p.channel.outstandings m.id).filter (·.response) with
      | none => simp
      | some out => simp [Hand.work]
    have hflight := inFlight_hand hm
    simp only [RpcMessage.work, htype] at hflight
    simp only [RpcPeer.work] at hhand ⊢
    simp only [onResponse, hfree, Option.map_none, Option.getD_none] at hhand ⊢
    omega
  | accepted m hm _ htype _ =>
    have hflight := inFlight_hand hm
    simp only [RpcMessage.work, htype] at hflight
    simp only [RpcPeer.work, List.length_append, List.length_singleton]
    omega
  | refused m hm _ htype _ =>
    have hflight := inFlight_hand hm
    simp only [RpcMessage.work, htype] at hflight
    simp only [RpcPeer.work, inFlight_concat hreached, RpcMessage.work, refusal]
    omega
  | ignored m hm _ htype =>
    have hflight := inFlight_hand hm
    simp only [RpcMessage.work, htype] at hflight
    simp only [RpcPeer.work]
    omega
  | answer j m response hj =>
    have hlen := List.length_eraseIdx_add_one (List.getElem?_eq_some_iff.1 hj).1
    simp only [RpcPeer.work, doneCallback, inFlight_concat hreached, RpcMessage.work]
    omega

theorem exec_calls_length {s s' : RpcChannel} {op : RpcOp} (hx : exec services s op = .ok s')
    (hcall : PeerOp.isCall (.own op) = false) : s'.calls.length = s.calls.length := by
  cases op with
  | callMethod service method request response done => cases hcall
  | register k | send k =>
    simp only [exec] at hx
    split at hx <;> cases hx
    · exact List.length_set
    · rfl
  | onRpcMessage m =>
    simp only [exec] at hx
    split at hx
    · obtain ⟨_, -, hx⟩ := bind_eq_ok hx
      cases hx
      rfl
    · cases hx
      obtain ⟨serving, sent, heq⟩ := onRequest_eq services s m
      rw [heq]
    · cases hx
      rfl
  | parse | run =>
    simp only [exec] at hx
    split at hx <;> cases hx <;> rfl
  | doneCallback id response =>
    cases hx
    rfl

theorem peer_calls_length {incoming : List RpcMessage} {p p' : RpcPeer} {op : PeerOp}
    (hx : RpcPeer.exec services incoming p op = .ok p') (hcall : op.isCall = false) :
    p'.channel.calls.length = p.channel.calls.length := by
  cases op with
  | own op =>
    obtain ⟨channel, hc, hx⟩ := bind_eq_ok hx
    cases hx
    exact exec_calls_length hc hcall
  | hand | answer j response =>
    simp only [RpcPeer.exec] at hx
    split at hx
    · cases hx
      rfl
    · obtain ⟨channel, hc, hx⟩ := bind_eq_ok hx
      cases hx
      exact exec_calls_length hc rfl

/-! ## Runs without new calls -/

variable {services : Bool → Option (String → Option Service)}

/-- The two ends, making no new calls. -/
def draining (services : Bool → Option (String → Option Service)) :
    Machine (Bool → RpcPeer) (Bool × PeerOp) Fault :=
  (peers services).under fun _ a => a.2.isCall = false

theorem draining_calls_length {s s' : Bool → RpcPeer} {a : Bool × PeerOp}
    (he : (draining services).enabled s a) (hx : (draining services).exec s a = .ok s')
    (i : Bool) : (s' i).channel.calls.length = (s i).channel.calls.length := by
  obtain ⟨p', hp', hx⟩ := bind_eq_ok hx
  cases hx
  by_cases hi : i = a.1
  · rw [hi, Function.update_self]
    exact peer_calls_length hp' he.2
  · rw [Function.update_of_ne hi]

theorem draining_work_lt {s s' : Bool → RpcPeer} {a : Bool × PeerOp} (h : PeersInv services s)
    (he : (draining services).enabled s a) (hx : (draining services).exec s a = .ok s') :
    work s' < work s := by
  obtain ⟨p', hp', hx⟩ := bind_eq_ok hx
  cases hx
  have hstep := peerStep_of_exec (services a.1) he.1 hp'
  have hlt := hstep.work_lt (h.whole a.1) (peer_calls_length hp' he.2) (h.link a.1).bound
  cases hi : a.1 with
  | false =>
    simp only [hi, Bool.not_false] at hlt
    simp only [work, Function.update_self, Function.update_of_ne (show true ≠ false by decide)]
    omega
  | true =>
    simp only [hi, Bool.not_true] at hlt
    simp only [work, Function.update_self, Function.update_of_ne (show false ≠ true by decide)]
    omega

theorem draining_keeps : (draining services).Keeps fun s => Fresh s ∧ PeersInv services s := by
  rintro s a s' ⟨hfresh, hinv⟩ he hx
  have hfresh' : Fresh s' := fun i => by
    rw [draining_calls_length he hx i]
    exact hfresh i
  exact ⟨hfresh', peers_keeps_inv services s a s' (fun _ => hinv) he.1 hx hfresh'⟩

/-- The calls made in a run complete. From any state it reaches, however the threads of the two ends
and their services take turns, at most `work s` steps can be made before one of them makes a new
call; and when no step is left, the closure of every call that was given a response object and a
closure has been run once. -/
theorem rpc_calls_complete {ops : List (Bool × PeerOp)} {s : Bool → RpcPeer}
    (hr : (peers services).Run (fun _ => RpcPeer.init) ops s) (hfresh : Fresh s)
    {more : List (Bool × PeerOp)} {s' : Bool → RpcPeer}
    (hmore : (draining services).Run s more s') :
    more.length ≤ work s ∧
    ((∀ a, ¬ (draining services).enabled s' a) →
      ∀ i k c, (s' i).channel.calls[k]? = some c → c.given = (true, true) →
        ((completed (s' i).channel.log).map Prod.snd).count k = 1) := by
  have hstart : Fresh s ∧ PeersInv services s := ⟨hfresh, run_peersInv hr hfresh⟩
  obtain ⟨hfresh', hinv⟩ := hmore.keeps draining_keeps hstart
  refine ⟨?_, fun hstuck i k c hc hgiven => ?_⟩
  · have := hmore.length_add_rank_le draining_keeps
      (fun s a s' hs => draining_work_lt hs.2) hstart
    omega
  · have hrest : AtRest s' := by
      by_contra hn
      obtain ⟨j, op, he, hop⟩ := progress hinv hn
      refine hstuck (j, op) ⟨he, ?_⟩
      cases op with
      | own op =>
        cases op with
        | callMethod service method request response done => exact absurd rfl (hop _ _ _ _ _)
        | _ => rfl
      | hand | answer => rfl
    obtain ⟨n, hran⟩ := hinv.ran_of_atRest hfresh' hrest hc hgiven
    have hm := (hinv.whole i).inv.matched
    exact List.count_eq_one_of_mem (hm.calls.sublist (hm.completed_sublist.map _))
      (List.mem_map_of_mem (mem_completed.2 hran))

instance (s : Bool → RpcPeer) (a : Bool × PeerOp) :
    Decidable ((draining echoServices).enabled s a) :=
  inferInstanceAs (Decidable (_ ∧ _))

theorem rpc_calls_complete_echo :
    ∃ s s', (peers echoServices).Run (fun _ => RpcPeer.init) echoCalls s ∧
      (draining echoServices).Run s echoReturns s' ∧ echoReturns.length ≤ work s ∧
      work s = 12 ∧ completed (s' false).channel.log = [(0, 1), (1, 2), (2, 0)] := by
  obtain ⟨s, hr, hobs⟩ := Machine.Run.of_replay (peers echoServices) (fun _ => RpcPeer.init)
    echoCalls
    (fun s => ((s false).channel.calls.length, (s true).channel.calls.length, work s,
      decide ((((draining echoServices).replay s echoReturns).map fun s' =>
        completed (s' false).channel.log) = some [(0, 1), (1, 2), (2, 0)])))
    (3, 0, 12, true) (by decide +kernel)
  simp only [Prod.mk.injEq] at hobs
  obtain ⟨hfalse, htrue, hwork, hlog⟩ := hobs
  have hfresh : Fresh s := by
    intro i
    cases i with
    | false => rw [hfalse]; decide
    | true => rw [htrue]; decide
  obtain ⟨s', hr', hlog'⟩ := Machine.Run.of_replay (draining echoServices) s echoReturns
    (fun s' => completed (s' false).channel.log) _ (of_decide_eq_true hlog)
  exact ⟨s, s', hr, hr', (rpc_calls_complete hr hfresh hr').1, hwork, hlog'⟩

end Rpc

end TinyMuduo
