import Mathlib.Algebra.Ring.Nat
import Mathlib.Data.List.Nodup
import TinyMuduo.Rpc.Channel

/-!
# Rpc.Match

Which message completes which call.

* `Numbered` — the ids count the calls, in 64 bits.
* `Matched` — a message takes at most one call out of `outstandings_`, one that was entered under
  the message's id; a call is taken at most once; closures run for what was taken only.
* `Exact` — `outstandings_` holds the calls that still wait for a message, as long as no id was
  given twice.
-/

namespace TinyMuduo

namespace Rpc

variable {s : RpcChannel}

/-! ## The ids -/

/-- The `k`-th call has the id `k + 1`, in 64 bits. -/
structure Numbered (s : RpcChannel) : Prop where
  counter : s.id = BitVec.ofNat 64 s.calls.length
  ids : ∀ k c, s.calls[k]? = some c → c.id = BitVec.ofNat 64 (k + 1)

theorem Numbered.set {s s' : RpcChannel} (h : Numbered s) {k : Nat} {c d : Call}
    (hc : s.calls[k]? = some c) (hid : d.id = c.id) (hcalls : s'.calls = s.calls.set k d)
    (hs' : s'.id = s.id) : Numbered s' := by
  refine ⟨by rw [hs', hcalls, List.length_set]; exact h.counter, fun j e he => ?_⟩
  rw [hcalls, List.getElem?_set] at he
  split at he
  next hkj =>
    subst hkj
    split at he
    next =>
      cases he
      rw [hid]
      exact h.ids k c hc
    next => cases he
  next => exact h.ids j e he

theorem machine_keeps_numbered (services : Option (String → Option Service)) :
    (machine services).Keeps Numbered := by
  intro s op s' hn he hx
  obtain ⟨service, method, request, response, done, rfl⟩ | ⟨k, c, hc, -, rfl⟩ |
    ⟨k, c, hc, -, rfl⟩ | ⟨m, -, -, rfl⟩ | ⟨h, -, -, rfl⟩ | ⟨h, -, -, rfl⟩ |
    ⟨serving, sent, rfl⟩ := step_cases he hx
  · have hid : s.id + 1 = BitVec.ofNat 64 (s.calls.length + 1) := by
      rw [hn.counter, BitVec.ofNat_add]
      rfl
    refine ⟨?_, fun k c hc => ?_⟩
    · simp only [callMethod, List.length_append, List.length_singleton]
      exact hid
    · simp only [callMethod, List.getElem?_append] at hc
      split at hc
      next => exact hn.ids k c hc
      next hk =>
        rw [List.getElem?_singleton] at hc
        split at hc
        next hk' =>
          cases hc
          have : k = s.calls.length := by omega
          subst this
          exact hid
        next => cases hc
  · exact hn.set (d := { c with stage := .registered }) hc rfl rfl rfl
  · exact hn.set (d := { c with stage := .sent }) hc rfl rfl rfl
  all_goals exact ⟨hn.counter, hn.ids⟩

/-- Ids repeat only after 2^64 calls. -/
theorem Numbered.ids_inj (hn : Numbered s) (hlen : s.calls.length ≤ 2 ^ 64)
    {j k : Nat} {c d : Call} (hj : s.calls[j]? = some c) (hk : s.calls[k]? = some d)
    (hid : c.id = d.id) : j = k := by
  have hjlt := (List.getElem?_eq_some_iff.1 hj).1
  have hklt := (List.getElem?_eq_some_iff.1 hk).1
  have h : BitVec.ofNat 64 (j + 1) = BitVec.ofNat 64 (k + 1) := by
    rw [← hn.ids j c hj, ← hn.ids k d hk, hid]
  have h' := congrArg BitVec.toNat h
  simp only [BitVec.toNat_ofNat] at h'
  omega

/-! ## Messages and the calls they take -/

/-- The pairs of a `RESPONSE` and the call it took out of `outstandings_`. -/
def taken (log : List RpcEvent) : List (Nat × Nat) :=
  log.filterMap fun
    | .received n _ (some k) => some (n, k)
    | _ => none

/-- The pairs of a `RESPONSE` and the call whose closure was run for it. -/
def completed (log : List RpcEvent) : List (Nat × Nat) :=
  log.filterMap fun
    | .ran n k => some (n, k)
    | _ => none

theorem mem_completed {log : List RpcEvent} {n k : Nat} :
    (n, k) ∈ completed log ↔ .ran n k ∈ log := by
  simp only [completed, List.mem_filterMap]
  refine ⟨?_, fun h => ⟨_, h, rfl⟩⟩
  rintro ⟨e, he, hnk⟩
  split at hnk <;> cases hnk
  exact he

/-- Call `k` was entered in `outstandings_` under the id `i`. -/
def Registered (s : RpcChannel) (k : Nat) (i : BitVec 64) : Prop :=
  ∃ c, s.calls[k]? = some c ∧ c.id = i ∧ c.stage ≠ .numbered

theorem Registered.set {s s' : RpcChannel} {k : Nat} {c d : Call} (hc : s.calls[k]? = some c)
    (hid : d.id = c.id) (hstage : d.stage ≠ .numbered) (hcalls : s'.calls = s.calls.set k d)
    {j : Nat} {i : BitVec 64} (h : Registered s j i) : Registered s' j i := by
  obtain ⟨e, he, hi, hestage⟩ := h
  by_cases hkj : k = j
  · subst hkj
    rw [hc] at he
    cases he
    refine ⟨d, ?_, hid.trans hi, hstage⟩
    rw [hcalls, List.getElem?_set_self (List.getElem?_eq_some_iff.1 hc).1]
  · refine ⟨e, ?_, hi, hestage⟩
    rw [hcalls, List.getElem?_set_ne hkj]
    exact he

/-- The message in hand is the last one received; nothing has run for it yet. -/
def Handling (s : RpcChannel) : Option Hand → Prop
  | none => (completed s.log).Sublist (taken s.log)
  | some h => ∃ earlier, taken s.log = earlier ++ [(h.number, h.out.call)] ∧
      (completed s.log).Sublist earlier ∧ s.responses[h.number]? = some h.message ∧
      (h.parsed = true → h.message.response.isSome → .parsed h.number h.out.call ∈ s.log)

structure Matched (s : RpcChannel) : Prop where
  held : ∀ i out, s.outstandings i = some out →
    Registered s out.call i ∧ ∀ p ∈ taken s.log, p.2 ≠ out.call
  matched : ∀ p ∈ taken s.log, ∃ m, s.responses[p.1]? = some m ∧ m.type = .RESPONSE ∧
    Registered s p.2 m.id
  messages : ((taken s.log).map Prod.fst).Nodup
  calls : ((taken s.log).map Prod.snd).Nodup
  parsed : ∀ n k, .parsed n k ∈ s.log → (n, k) ∈ taken s.log
  first : ∀ n k m, .ran n k ∈ s.log → s.responses[n]? = some m → m.response.isSome →
    [.parsed n k, .ran n k].Sublist s.log
  handling : Handling s s.inHand

theorem Matched.completed_sublist (h : Matched s) :
    (completed s.log).Sublist (taken s.log) := by
  have hh := h.handling
  cases hhand : s.inHand with
  | none =>
    rw [hhand] at hh
    exact hh
  | some hd =>
    rw [hhand] at hh
    obtain ⟨earlier, hearlier, hsub, -⟩ := hh
    rw [hearlier]
    exact hsub.trans (List.sublist_append_left _ _)

/-- Steps that leave the table, the log and the message in hand alone. -/
theorem Matched.of_eq {s s' : RpcChannel} (h : Matched s) (ho : s'.outstandings = s.outstandings)
    (hl : s'.log = s.log) (hr : s'.responses = s.responses) (hi : s'.inHand = s.inHand)
    (hreg : ∀ k i, Registered s k i → Registered s' k i) : Matched s' := by
  constructor
  · intro i out hout
    rw [ho] at hout
    rw [hl]
    obtain ⟨h1, h2⟩ := h.held i out hout
    exact ⟨hreg _ _ h1, h2⟩
  · intro p hp
    rw [hl] at hp
    rw [hr]
    obtain ⟨m, hm, htype, h1⟩ := h.matched p hp
    exact ⟨m, hm, htype, hreg _ _ h1⟩
  · rw [hl]; exact h.messages
  · rw [hl]; exact h.calls
  · rw [hl]; exact h.parsed
  · rw [hl, hr]; exact h.first
  · have hh := h.handling
    rw [hi]
    cases hhand : s.inHand with
    | none =>
      rw [hhand] at hh
      simp only [Handling, hl] at hh ⊢
      exact hh
    | some hd =>
      rw [hhand] at hh
      simp only [Handling, hl, hr] at hh ⊢
      exact hh

theorem Registered.callMethod {k : Nat} {i : BitVec 64} (h : Registered s k i)
    (service method : String) (request : List Byte) (response done : Bool) :
    Registered (Rpc.callMethod s service method request response done) k i := by
  obtain ⟨c, hc, hi, hstage⟩ := h
  refine ⟨c, ?_, hi, hstage⟩
  rw [Rpc.callMethod, List.getElem?_append_left (List.getElem?_eq_some_iff.1 hc).1]
  exact hc

theorem taken_append (l l' : List RpcEvent) : taken (l ++ l') = taken l ++ taken l' :=
  List.filterMap_append

theorem completed_append (l l' : List RpcEvent) :
    completed (l ++ l') = completed l ++ completed l' := List.filterMap_append

theorem Matched.register (h : Matched s) {k : Nat} {c : Call}
    (hc : s.calls[k]? = some c) (hstage : c.stage = .numbered) :
    Matched (Rpc.register s k c) := by
  have hreg : ∀ j i, Registered s j i → Registered (Rpc.register s k c) j i := fun j i =>
    Registered.set (d := { c with stage := .registered }) hc rfl nofun rfl
  have hown : Registered (Rpc.register s k c) k c.id :=
    ⟨{ c with stage := .registered },
      List.getElem?_set_self (List.getElem?_eq_some_iff.1 hc).1, rfl, nofun⟩
  have htaken : taken (Rpc.register s k c).log = taken s.log := by
    simp [Rpc.register, taken]
  have hcompleted : completed (Rpc.register s k c).log = completed s.log := by
    simp [Rpc.register, completed]
  -- a call that was taken had been registered, and `k` is only registered now
  have hnew : ∀ p ∈ taken s.log, p.2 ≠ k := by
    rintro p hp rfl
    obtain ⟨m, -, -, d, hd, -, hdstage⟩ := h.matched p hp
    rw [hc] at hd
    cases hd
    exact hdstage hstage
  constructor
  · intro i out hout
    rw [htaken]
    simp only [Rpc.register, Function.update_apply] at hout
    split at hout
    next hi =>
      cases hout
      exact ⟨hi ▸ hown, hnew⟩
    next => exact ⟨hreg _ _ (h.held i out hout).1, (h.held i out hout).2⟩
  · intro p hp
    rw [htaken] at hp
    obtain ⟨m, hm, htype, h1⟩ := h.matched p hp
    exact ⟨m, hm, htype, hreg _ _ h1⟩
  · rw [htaken]; exact h.messages
  · rw [htaken]; exact h.calls
  · intro n j hp
    rw [htaken]
    simp only [Rpc.register, List.mem_append, List.mem_singleton, reduceCtorEq, or_false] at hp
    exact h.parsed n j hp
  · intro n j m hr hm hsome
    simp only [Rpc.register, List.mem_append, List.mem_singleton, reduceCtorEq, or_false] at hr
    exact (h.first n j m hr hm hsome).trans (List.sublist_append_left _ _)
  · have hh := h.handling
    change Handling _ s.inHand
    cases hhand : s.inHand with
    | none =>
      rw [hhand] at hh
      simp only [Handling, htaken, hcompleted] at hh ⊢
      exact hh
    | some hd =>
      rw [hhand] at hh
      obtain ⟨earlier, h1, h2, h3, h4⟩ := hh
      refine ⟨earlier, htaken.trans h1, hcompleted ▸ h2, h3, fun hp hsome => ?_⟩
      exact List.mem_append_left _ (h4 hp hsome)

theorem completed_onResponse (s : RpcChannel) (m : RpcMessage) :
    completed (onResponse s m).log = completed s.log := by
  simp [onResponse, completed]

theorem taken_onResponse (s : RpcChannel) (m : RpcMessage) :
    taken (onResponse s m).log = taken s.log ++
      ((s.outstandings m.id).map fun out => (s.responses.length, out.call)).toList := by
  rw [onResponse, taken_append]
  cases s.outstandings m.id <;> rfl

/-- What is left in `outstandings_` was there before, under another id. -/
theorem outstandings_onResponse {m : RpcMessage} {i : BitVec 64}
    {out : OutstandingCall} (h : (onResponse s m).outstandings i = some out) :
    i ≠ m.id ∧ s.outstandings i = some out := by
  simp only [onResponse, Function.update_apply] at h
  split at h
  next => cases h
  next hi => exact ⟨hi, h⟩

theorem responses_onResponse (m : RpcMessage) {n : Nat} {m' : RpcMessage}
    (h : s.responses[n]? = some m') : (onResponse s m).responses[n]? = some m' := by
  rw [onResponse, List.getElem?_append_left (List.getElem?_eq_some_iff.1 h).1]
  exact h

theorem parsed_onResponse {m : RpcMessage} {n k : Nat}
    (h : .parsed n k ∈ (onResponse s m).log) : .parsed n k ∈ s.log := by
  simpa [onResponse] using h

theorem nodup_map_concat {α β : Type} {f : α → β} {l : List α} {x : α} (h : (l.map f).Nodup)
    (hx : ∀ p ∈ l, f p ≠ f x) : ((l ++ [x]).map f).Nodup := by
  rw [List.map_append, List.nodup_append]
  refine ⟨h, List.nodup_singleton _, fun y hy z hz => ?_⟩
  obtain ⟨p, hp, rfl⟩ := List.mem_map.1 hy
  rw [List.map_singleton, List.mem_singleton] at hz
  rw [hz]
  exact hx p hp

namespace Matched

/-- The messages that took a call came before the next one. -/
theorem number_lt (h : Matched s) {p : Nat × Nat} (hp : p ∈ taken s.log) :
    p.1 < s.responses.length := by
  obtain ⟨m, hm, -⟩ := h.matched p hp
  exact (List.getElem?_eq_some_iff.1 hm).1

theorem first_onResponse (h : Matched s) (m : RpcMessage) (n k : Nat)
    (m' : RpcMessage) (hr : .ran n k ∈ (Rpc.onResponse s m).log)
    (hm' : (Rpc.onResponse s m).responses[n]? = some m') (hsome : m'.response.isSome) :
    [.parsed n k, .ran n k].Sublist (Rpc.onResponse s m).log := by
  have hr' : .ran n k ∈ s.log := by simpa [Rpc.onResponse] using hr
  have hlt := h.number_lt (h.completed_sublist.subset (mem_completed.2 hr'))
  rw [Rpc.onResponse, List.getElem?_append_left hlt] at hm'
  exact (h.first n k m' hr' hm' hsome).trans (List.sublist_append_left _ _)

/-- A `RESPONSE` whose id is not in `outstandings_`. -/
theorem onResponse_unknown (h : Matched s) {m : RpcMessage}
    (hout : s.outstandings m.id = none) : Matched (Rpc.onResponse s m) := by
  have htaken : taken (Rpc.onResponse s m).log = taken s.log := by
    rw [taken_onResponse, hout]
    exact List.append_nil _
  constructor
  · intro i out ho
    rw [htaken]
    exact h.held i out (outstandings_onResponse ho).2
  · intro p hp
    rw [htaken] at hp
    obtain ⟨m', hm', h1⟩ := h.matched p hp
    exact ⟨m', responses_onResponse m hm', h1⟩
  · rw [htaken]; exact h.messages
  · rw [htaken]; exact h.calls
  · intro n k hp
    rw [htaken]
    exact h.parsed n k (parsed_onResponse hp)
  · exact h.first_onResponse m
  · have hhand : (Rpc.onResponse s m).inHand = none := by simp [Rpc.onResponse, hout]
    rw [hhand, Handling, completed_onResponse, htaken]
    exact h.completed_sublist

/-- The message that took `out` is the one in hand, if there is a response object. -/
theorem handling_onResponse (h : Matched s) {m : RpcMessage}
    {out : OutstandingCall} (hout : s.outstandings m.id = some out)
    (htaken : taken (Rpc.onResponse s m).log = taken s.log ++ [(s.responses.length, out.call)]) :
    Handling (Rpc.onResponse s m) (Rpc.onResponse s m).inHand := by
  have hsub : (completed (Rpc.onResponse s m).log).Sublist (taken s.log) := by
    rw [completed_onResponse]
    exact h.completed_sublist
  cases hresp : out.response with
  | false =>
    have hhand : (Rpc.onResponse s m).inHand = none := by
      simp [Rpc.onResponse, hout, Option.filter, hresp]
    rw [hhand, Handling, htaken]
    exact hsub.trans (List.sublist_append_left _ _)
  | true =>
    have hhand : (Rpc.onResponse s m).inHand = some ⟨s.responses.length, m, out, false⟩ := by
      simp [Rpc.onResponse, hout, Option.filter, hresp]
    rw [hhand]
    exact ⟨taken s.log, htaken, hsub, List.getElem?_concat_length, nofun⟩

/-- A `RESPONSE` takes the call `out` from `outstandings_`. -/
theorem onResponse_taken (h : Matched s) {m : RpcMessage}
    (htype : m.type = .RESPONSE) {out : OutstandingCall}
    (hout : s.outstandings m.id = some out) : Matched (Rpc.onResponse s m) := by
  obtain ⟨hreg, hfresh⟩ := h.held m.id out hout
  have htaken : taken (Rpc.onResponse s m).log =
      taken s.log ++ [(s.responses.length, out.call)] := by
    rw [taken_onResponse, hout]
    rfl
  constructor
  · intro i o ho
    obtain ⟨hne, ho⟩ := outstandings_onResponse ho
    obtain ⟨horeg, hofresh⟩ := h.held i o ho
    refine ⟨horeg, fun p hp => ?_⟩
    rw [htaken, List.mem_append, List.mem_singleton] at hp
    rcases hp with hp | rfl
    · exact hofresh p hp
    · -- one call has one id
      intro heq
      obtain ⟨c, hc, hci, -⟩ := hreg
      obtain ⟨d, hd, hdi, -⟩ := horeg
      rw [← heq, hc] at hd
      cases hd
      exact hne (hdi.symm.trans hci)
  · intro p hp
    rw [htaken, List.mem_append, List.mem_singleton] at hp
    rcases hp with hp | rfl
    · obtain ⟨m', hm', h1⟩ := h.matched p hp
      exact ⟨m', responses_onResponse m hm', h1⟩
    · exact ⟨m, List.getElem?_concat_length, htype, hreg⟩
  · rw [htaken]
    exact nodup_map_concat h.messages fun p hp => Nat.ne_of_lt (h.number_lt hp)
  · rw [htaken]
    exact nodup_map_concat h.calls hfresh
  · intro n k hp
    rw [htaken]
    exact List.mem_append_left _ (h.parsed n k (parsed_onResponse hp))
  · exact h.first_onResponse m
  · exact h.handling_onResponse hout htaken

theorem onResponse (h : Matched s) {m : RpcMessage}
    (htype : m.type = .RESPONSE) : Matched (Rpc.onResponse s m) := by
  cases hout : s.outstandings m.id with
  | none => exact h.onResponse_unknown hout
  | some out => exact h.onResponse_taken htype hout

end Matched

theorem Matched.parse (h : Matched s) {hd : Hand} (hhand : s.inHand = some hd) :
    Matched (Rpc.parse s hd) := by
  obtain ⟨earlier, hearlier, hsub, hmsg, -⟩ : Handling s (some hd) := hhand ▸ h.handling
  have htaken : taken (Rpc.parse s hd).log = taken s.log := by
    rw [Rpc.parse, taken_append]
    split <;> exact List.append_nil _
  have hcompleted : completed (Rpc.parse s hd).log = completed s.log := by
    rw [Rpc.parse, completed_append]
    split <;> exact List.append_nil _
  constructor
  · rw [htaken]; exact h.held
  · rw [htaken]; exact h.matched
  · rw [htaken]; exact h.messages
  · rw [htaken]; exact h.calls
  · intro n k hp
    rw [htaken]
    simp only [Rpc.parse, List.mem_append] at hp
    rcases hp with hp | hp
    · exact h.parsed n k hp
    · split at hp
      next =>
        cases List.mem_singleton.1 hp
        rw [hearlier]
        exact List.mem_concat_self
      next => cases hp
  · intro n k m hr hm hsome
    rw [← mem_completed, hcompleted, mem_completed] at hr
    exact (h.first n k m hr hm hsome).trans (List.sublist_append_left _ _)
  · refine ⟨earlier, htaken.trans hearlier, hcompleted ▸ hsub, hmsg, fun _ hsome => ?_⟩
    have hsome' : hd.message.response.isSome := hsome
    simp [Rpc.parse, hsome']

theorem Matched.runDone (h : Matched s) {hd : Hand} (hhand : s.inHand = some hd)
    (hparsed : hd.parsed = true) : Matched (Rpc.runDone s hd) := by
  obtain ⟨earlier, hearlier, hsub, hmsg, hlog⟩ : Handling s (some hd) := hhand ▸ h.handling
  have htaken : taken (Rpc.runDone s hd).log = taken s.log := by
    rw [Rpc.runDone, taken_append]
    split <;> exact List.append_nil _
  constructor
  · rw [htaken]; exact h.held
  · rw [htaken]; exact h.matched
  · rw [htaken]; exact h.messages
  · rw [htaken]; exact h.calls
  · intro n k hp
    rw [htaken]
    refine h.parsed n k ?_
    simp only [Rpc.runDone, List.mem_append] at hp
    rcases hp with hp | hp
    · exact hp
    · split at hp
      · cases List.mem_singleton.1 hp
      · cases hp
  · intro n k m hr hm hsome
    simp only [Rpc.runDone, List.mem_append] at hr
    rcases hr with hr | hr
    · exact (h.first n k m hr hm hsome).trans (List.sublist_append_left _ _)
    · split at hr
      next hdone =>
        cases List.mem_singleton.1 hr
        obtain rfl : hd.message = m := Option.some.inj (hmsg.symm.trans hm)
        have hmem := List.singleton_sublist.2 (hlog hparsed hsome)
        simp only [Rpc.runDone, hdone, if_true]
        exact hmem.append (List.Sublist.refl _)
      next => cases hr
  · simp only [Rpc.runDone, Handling, taken_append, completed_append] at htaken ⊢
    rw [htaken, hearlier]
    refine hsub.append ?_
    split
    · exact List.Sublist.refl _
    · exact List.nil_sublist _

theorem machine_keeps_matched (services : Option (String → Option Service)) :
    (machine services).Keeps Matched := by
  intro s op s' hm he hx
  obtain ⟨service, method, request, response, done, rfl⟩ | ⟨k, c, hc, hstage, rfl⟩ |
    ⟨k, c, hc, -, rfl⟩ | ⟨m, -, htype, rfl⟩ | ⟨h, hh, -, rfl⟩ | ⟨h, hh, hparsed, rfl⟩ |
    ⟨serving, sent, rfl⟩ := step_cases he hx
  · exact hm.of_eq rfl rfl rfl rfl fun k i hr => hr.callMethod service method request response done
  · exact hm.register hc hstage
  · exact hm.of_eq rfl rfl rfl rfl fun j i =>
      Registered.set (d := { c with stage := .sent }) hc rfl nofun rfl
  · exact hm.onResponse htype
  · exact hm.parse hh
  · exact hm.runDone hh hparsed
  · exact hm.of_eq rfl rfl rfl rfl fun _ _ hr => hr

/-! ## What `outstandings_` holds -/

/-- `call k waits for a message with id i`, before and after one event. -/
def RpcEvent.turn (k : Nat) (i : BitVec 64) (waits : Bool) : RpcEvent → Bool
  | .registered j => if j = k then true else waits
  | .received _ id _ => if id = i then false else waits
  | .parsed .. | .ran .. => waits

/-- Call `k` was registered, and no `RESPONSE` with id `i` was received since. -/
def waits (k : Nat) (i : BitVec 64) (log : List RpcEvent) : Bool :=
  log.foldl (RpcEvent.turn k i) false

theorem waits_append (k : Nat) (i : BitVec 64) (l l' : List RpcEvent) :
    waits k i (l ++ l') = l'.foldl (RpcEvent.turn k i) (waits k i l) := List.foldl_append

/-- `outstandings_` holds the calls that wait for a message with their id. -/
structure Exact (s : RpcChannel) : Prop where
  holds : ∀ i k, (s.outstandings i).map (·.call) = some k ↔
    (s.calls[k]?).map Call.id = some i ∧ waits k i s.log = true
  known : ∀ k i, waits k i s.log = true → k < s.calls.length

/-- Steps that leave the table, the ids and who waits alone. -/
theorem Exact.of_eq {s s' : RpcChannel} (h : Exact s) (ho : s'.outstandings = s.outstandings)
    (hids : ∀ k : Nat, (s'.calls[k]?).map Call.id = (s.calls[k]?).map Call.id)
    (hlen : s'.calls.length = s.calls.length)
    (hw : ∀ k i, waits k i s'.log = waits k i s.log) : Exact s' := by
  refine ⟨fun i k => ?_, fun k i hk => ?_⟩
  · rw [ho, hw, hids, h.holds]
  · rw [hw] at hk
    rw [hlen]
    exact h.known k i hk

theorem ids_set {calls : List Call} {k : Nat} {c d : Call} (hc : calls[k]? = some c)
    (hid : d.id = c.id) (j : Nat) :
    ((calls.set k d)[j]?).map Call.id = (calls[j]?).map Call.id := by
  by_cases hkj : k = j
  · subst hkj
    rw [List.getElem?_set_self (List.getElem?_eq_some_iff.1 hc).1, hc]
    exact congrArg some hid
  · rw [List.getElem?_set_ne hkj]

theorem Exact.callMethod (h : Exact s) (service method : String)
    (request : List Byte) (response done : Bool) :
    Exact (Rpc.callMethod s service method request response done) := by
  refine ⟨fun i k => ?_, fun k i hk => ?_⟩
  · change (s.outstandings i).map (·.call) = some k ↔
      ((s.calls ++ [_])[k]?).map Call.id = some i ∧ waits k i s.log = true
    rw [h.holds]
    refine and_congr_left fun hw => ?_
    rw [List.getElem?_append_left (h.known k i hw)]
  · have := h.known k i hk
    simp only [Rpc.callMethod, List.length_append, List.length_singleton]
    omega

theorem Exact.register (h : Exact s) (hn : Numbered s)
    (hlen : s.calls.length ≤ 2 ^ 64) {k : Nat} {c : Call} (hc : s.calls[k]? = some c) :
    Exact (Rpc.register s k c) := by
  have hids := ids_set (d := { c with stage := .registered }) hc rfl
  refine ⟨fun i j => ?_, fun j i hj => ?_⟩
  · simp only [Rpc.register, waits_append, List.foldl_cons, List.foldl_nil, RpcEvent.turn]
    rw [hids, Function.update_apply]
    by_cases hi : i = c.id
    · subst hi
      rw [if_pos rfl]
      constructor
      · intro hkj
        cases hkj
        exact ⟨congrArg (Option.map Call.id) hc, if_pos rfl⟩
      · rintro ⟨hj, -⟩
        obtain ⟨d, hd, hid⟩ := Option.map_eq_some_iff.1 hj
        exact congrArg some (hn.ids_inj hlen hc hd hid.symm)
    · rw [if_neg hi, h.holds]
      refine and_congr_right fun hj => ?_
      have hkj : k ≠ j := by
        rintro rfl
        rw [hc] at hj
        exact hi (Option.some.inj hj).symm
      rw [if_neg hkj]
  · simp only [Rpc.register, List.length_set, waits_append, List.foldl_cons, List.foldl_nil,
      RpcEvent.turn] at hj ⊢
    split at hj
    next hkj => exact hkj ▸ (List.getElem?_eq_some_iff.1 hc).1
    next => exact h.known j i hj

theorem Exact.onResponse (h : Exact s) (m : RpcMessage) :
    Exact (Rpc.onResponse s m) := by
  refine ⟨fun i k => ?_, fun k i hk => ?_⟩
  · simp only [Rpc.onResponse, waits_append, List.foldl_cons, List.foldl_nil, RpcEvent.turn,
      Function.update_apply]
    by_cases hi : i = m.id
    · simp [hi]
    · rw [if_neg hi, if_neg (Ne.symm hi)]
      exact h.holds i k
  · simp only [Rpc.onResponse, waits_append, List.foldl_cons, List.foldl_nil,
      RpcEvent.turn] at hk ⊢
    split at hk
    next => cases hk
    next => exact h.known k i hk

/-- `Exact` holds as long as the ids have not come round. -/
structure Inv (s : RpcChannel) : Prop where
  numbered : Numbered s
  matched : Matched s
  exact_of_le : s.calls.length ≤ 2 ^ 64 → Exact s

theorem machine_keeps_inv (services : Option (String → Option Service)) :
    (machine services).Keeps Inv := by
  intro s op s' hi he hx
  refine ⟨machine_keeps_numbered services s op s' hi.numbered he hx,
    machine_keeps_matched services s op s' hi.matched he hx, fun hlen => ?_⟩
  obtain ⟨service, method, request, response, done, rfl⟩ | ⟨k, c, hc, -, rfl⟩ |
    ⟨k, c, hc, -, rfl⟩ | ⟨m, -, -, rfl⟩ | ⟨h, -, -, rfl⟩ | ⟨h, -, -, rfl⟩ |
    ⟨serving, sent, rfl⟩ := step_cases he hx
  · simp only [callMethod, List.length_append, List.length_singleton] at hlen
    exact (hi.exact_of_le (by omega)).callMethod service method request response done
  · have hlen' : s.calls.length ≤ 2 ^ 64 := by simpa [register] using hlen
    exact (hi.exact_of_le hlen').register hi.numbered hlen' hc
  · have hlen' : s.calls.length ≤ 2 ^ 64 := by simpa [send] using hlen
    exact (hi.exact_of_le hlen').of_eq rfl (ids_set (d := { c with stage := .sent }) hc rfl)
      List.length_set fun _ _ => rfl
  · exact (hi.exact_of_le hlen).onResponse m
  · refine (hi.exact_of_le hlen).of_eq rfl (fun _ => rfl) rfl fun k i => ?_
    rw [parse, waits_append]
    split <;> rfl
  · refine (hi.exact_of_le hlen).of_eq rfl (fun _ => rfl) rfl fun k i => ?_
    rw [runDone, waits_append]
    split <;> rfl
  · exact (hi.exact_of_le hlen).of_eq rfl (fun _ => rfl) rfl fun _ _ => rfl

theorem inv_init : Inv init := by
  refine ⟨⟨rfl, fun k c hc => ?_⟩, ⟨fun i out ho => ?_, fun p hp => ?_, List.nodup_nil,
    List.nodup_nil, fun n k hp => ?_, fun n k m hr => ?_, List.Sublist.refl _⟩,
    fun _ => ⟨fun i k => ?_, fun k i hw => ?_⟩⟩
  · cases hc
  · cases ho
  · cases hp
  · cases hp
  · cases hr
  · simp [init]
  · cases hw

/-! ## The histories and the steps -/

/-- The arguments of a call. -/
def RpcOp.call : RpcOp → Option (String × String × List Byte × Bool × Bool)
  | .callMethod service method request response done =>
    some (service, method, request, response, done)
  | _ => none

/-- The `RESPONSE` that a step handles. -/
def RpcOp.response : RpcOp → Option RpcMessage
  | .onRpcMessage m => if m.type = .RESPONSE then some m else none
  | _ => none

/-- The critical section of a step: of a call, or of a `RESPONSE` with an id. -/
def RpcOp.critical : RpcOp → Option (Nat ⊕ BitVec 64)
  | .register k => some (.inl k)
  | op => op.response.map fun m => .inr m.id

def RpcEvent.critical : RpcEvent → Option (Nat ⊕ BitVec 64)
  | .registered k => some (.inl k)
  | .received _ id _ => some (.inr id)
  | .parsed .. | .ran .. => none

def Call.asks (c : Call) : Option String × Option String × Option (List Byte) × Bool × Bool :=
  (c.message.service, c.message.method, c.message.request, c.response, c.done)

/-- The histories are those of the steps taken. -/
structure Recorded (ops : List RpcOp) (s : RpcChannel) : Prop where
  calls : s.calls.map Call.asks =
    (ops.filterMap RpcOp.call).map fun a => (some a.1, some a.2.1, some a.2.2.1, a.2.2.2)
  responses : s.responses = ops.filterMap RpcOp.response
  log : s.log.filterMap RpcEvent.critical = ops.filterMap RpcOp.critical

theorem map_asks_set {calls : List Call} {k : Nat} {c d : Call} (hc : calls[k]? = some c)
    (hd : d.asks = c.asks) : (calls.set k d).map Call.asks = calls.map Call.asks := by
  obtain ⟨hlt, rfl⟩ := List.getElem?_eq_some_iff.1 hc
  rw [List.map_set, hd, ← List.getElem_map Call.asks (h := by simpa using hlt),
    List.set_getElem_self]

/-- One step, with what it adds to each history. -/
theorem Recorded.snoc {ops : List RpcOp} {s s' : RpcChannel} {op : RpcOp} (h : Recorded ops s)
    (hcalls : s'.calls.map Call.asks = s.calls.map Call.asks ++
      (op.call.map fun a => (some a.1, some a.2.1, some a.2.2.1, a.2.2.2)).toList)
    (hresponses : s'.responses = s.responses ++ op.response.toList)
    (hlog : s'.log.filterMap RpcEvent.critical =
      s.log.filterMap RpcEvent.critical ++ op.critical.toList) : Recorded (ops ++ [op]) s' := by
  have hsingle : ∀ {β : Type} (f : RpcOp → Option β), [op].filterMap f = (f op).toList := by
    intro β f
    cases hf : f op <;> simp [hf]
  refine ⟨?_, ?_, ?_⟩
  · rw [hcalls, h.calls, List.filterMap_append, List.map_append, hsingle]
    cases op.call <;> rfl
  · rw [hresponses, h.responses, List.filterMap_append, hsingle]
  · rw [hlog, h.log, List.filterMap_append, hsingle]

theorem Recorded.exec {services : Option (String → Option Service)} {ops : List RpcOp}
    {s s' : RpcChannel} {op : RpcOp} (h : Recorded ops s) (he : (machine services).enabled s op)
    (hx : (machine services).exec s op = .ok s') : Recorded (ops ++ [op]) s' := by
  cases op with
  | callMethod service method request response done =>
    cases hx
    exact h.snoc List.map_append (List.append_nil _).symm (List.append_nil _).symm
  | register k =>
    obtain ⟨c, hc, -⟩ := Option.map_eq_some_iff.1 he
    simp only [machine, Rpc.exec, hc] at hx
    cases hx
    have hasks := map_asks_set (d := { c with stage := .registered }) hc rfl
    exact h.snoc (hasks.trans (List.append_nil _).symm) (List.append_nil _).symm
      List.filterMap_append
  | send k =>
    obtain ⟨c, hc, -⟩ := Option.map_eq_some_iff.1 he
    simp only [machine, Rpc.exec, hc] at hx
    cases hx
    have hasks := map_asks_set (d := { c with stage := .sent }) hc rfl
    exact h.snoc (hasks.trans (List.append_nil _).symm) (List.append_nil _).symm
      (List.append_nil _).symm
  | onRpcMessage m =>
    simp only [machine, Rpc.exec] at hx
    split at hx
    next htype =>
      obtain ⟨-, -, hx⟩ := Result.bind_eq_ok hx
      cases hx
      refine h.snoc (List.append_nil _).symm ?_ ?_
      · simp [onResponse, RpcOp.response, htype]
      · simp [onResponse, RpcOp.critical, RpcOp.response, RpcEvent.critical, htype]
    next htype =>
      cases hx
      obtain ⟨serving, sent, heq⟩ := onRequest_eq services s m
      rw [heq]
      refine h.snoc (List.append_nil _).symm ?_ ?_
      · simp [RpcOp.response, htype]
      · simp [RpcOp.critical, RpcOp.response, htype]
    next htype =>
      cases hx
      refine h.snoc (List.append_nil _).symm ?_ ?_
      · simp [RpcOp.response, htype]
      · simp [RpcOp.critical, RpcOp.response, htype]
  | parse =>
    obtain ⟨hand, hh, -⟩ := Option.map_eq_some_iff.1 he
    simp only [machine, Rpc.exec, hh] at hx
    cases hx
    refine h.snoc (List.append_nil _).symm (List.append_nil _).symm ?_
    rw [parse, List.filterMap_append]
    split <;> rfl
  | run =>
    obtain ⟨hand, hh, -⟩ := Option.map_eq_some_iff.1 he
    simp only [machine, Rpc.exec, hh] at hx
    cases hx
    refine h.snoc (List.append_nil _).symm (List.append_nil _).symm ?_
    rw [runDone, List.filterMap_append]
    split <;> rfl
  | doneCallback id response =>
    cases hx
    exact h.snoc (List.append_nil _).symm (List.append_nil _).symm (List.append_nil _).symm

theorem run_recorded {services : Option (String → Option Service)} {ops : List RpcOp}
    (hr : (machine services).Run init ops s) : Recorded ops s := by
  have hinit : Recorded [] init := ⟨rfl, rfl, rfl⟩
  exact hr.keeps_trace (I := Recorded) (fun ops s op s' hs he hx => hs.exec he hx) hinit

/-- In every run, the calls, the `RESPONSE` messages and the order of their critical sections are
those of the steps. A call's closure is run at most once and a message runs at most one closure,
that of the call whose id it carries, after parsing that call's response object if it carries a
response. While the ids have not come round they are distinct, and `outstandings_` holds the calls
that were registered with no `RESPONSE` for their id since. -/
theorem rpcChannel_run (services : Option (String → Option Service)) {ops : List RpcOp}
    {s : RpcChannel} (hr : (machine services).Run init ops s) (hlen : s.calls.length ≤ 2 ^ 64) :
    Recorded ops s ∧
    ((completed s.log).map Prod.snd).Nodup ∧
    ((completed s.log).map Prod.fst).Nodup ∧
    (∀ n k, .ran n k ∈ s.log → ∃ m c, s.responses[n]? = some m ∧ m.type = .RESPONSE ∧
      s.calls[k]? = some c ∧ m.id = c.id ∧
      (m.response.isSome → [.parsed n k, .ran n k].Sublist s.log) ∧
      ∀ j, .parsed n j ∈ s.log → j = k) ∧
    (∀ (j k : Nat) c d, s.calls[j]? = some c → s.calls[k]? = some d → c.id = d.id → j = k) ∧
    ∀ i k, (s.outstandings i).map (·.call) = some k ↔
      (s.calls[k]?).map Call.id = some i ∧ waits k i s.log = true := by
  have hinv := hr.keeps (machine_keeps_inv services) inv_init
  have hm := hinv.matched
  have hsub : (completed s.log).Sublist (taken s.log) := hm.completed_sublist
  refine ⟨run_recorded hr, hm.calls.sublist (hsub.map _), hm.messages.sublist (hsub.map _), ?_, ?_,
    (hinv.exact_of_le hlen).holds⟩
  · intro n k hran
    have htaken := hsub.subset (mem_completed.2 hran)
    obtain ⟨m, hmsg, htype, c, hc, hid, -⟩ := hm.matched (n, k) htaken
    refine ⟨m, c, hmsg, htype, hc, hid.symm, hm.first n k m hran hmsg, fun j hj => ?_⟩
    have heq := List.inj_on_of_nodup_map hm.messages (hm.parsed n j hj) htaken rfl
    exact congrArg Prod.snd heq
  · intro j k c d hj hk hid
    exact hinv.numbered.ids_inj hlen hj hk hid

/-- Two calls, answered in the other order, the second one twice; then a message for no call. -/
theorem rpcChannel_run_reordered : ∃ ops s, (machine none).Run init ops s ∧
    s.log = [.registered 0, .registered 1, .received 0 2 (some 1), .parsed 0 1, .ran 0 1,
      .received 1 2 none, .received 2 1 (some 0), .parsed 2 0, .ran 2 0, .received 3 7 none] ∧
    ((completed s.log).map Prod.snd).Nodup ∧ ((completed s.log).map Prod.fst).Nodup := by
  let call := RpcOp.callMethod "EchoService" "Echo" [] true true
  let reply (id : BitVec 64) :=
    RpcOp.onRpcMessage { type := .RESPONSE, id := id, response := some [] }
  obtain ⟨s, hr, hobs⟩ := Machine.Run.of_replay (machine none) init
    [call, call, .register 0, .send 0, .register 1, .send 1, reply 2, .parse, .run, reply 2,
      reply 1, .parse, .run, reply 7]
    (fun s => (s.calls.length, s.log))
    (2, [.registered 0, .registered 1, .received 0 2 (some 1), .parsed 0 1, .ran 0 1,
      .received 1 2 none, .received 2 1 (some 0), .parsed 2 0, .ran 2 0, .received 3 7 none])
    (by decide +kernel)
  obtain ⟨hcalls, hlog⟩ := Prod.mk.inj hobs
  obtain ⟨-, h1, h2, -⟩ := rpcChannel_run none hr (by rw [hcalls]; decide)
  exact ⟨_, s, hr, hlog, h1, h2⟩

/-- A `RESPONSE` that carries an error and no response completes its call too, with a response
object that nothing was parsed into. -/
theorem error_completes_unparsed : ∃ ops s, (machine none).Run init ops s ∧
    s.log = [.registered 0, .received 0 1 (some 0), .ran 0 0] := by
  obtain ⟨s, hr, hlog⟩ := Machine.Run.of_replay (machine none) init
    [.callMethod "EchoService" "Echo" [] true true, .register 0, .send 0,
      .onRpcMessage { type := .RESPONSE, id := 1, error := some .NO_SERVICE }, .parse, .run]
    RpcChannel.log [.registered 0, .received 0 1 (some 0), .ran 0 0] (by decide +kernel)
  exact ⟨_, s, hr, hlog⟩

/-- Any number of calls can be made. -/
theorem exists_run_calls (n : Nat) :
    ∃ ops s, (machine none).Run init ops s ∧ s.calls.length = n := by
  induction n with
  | zero => exact ⟨[], init, .nil, rfl⟩
  | succ n ih =>
    obtain ⟨ops, s, hr, hn⟩ := ih
    have he : (machine none).enabled s (.callMethod "" "" [] true true) := trivial
    refine ⟨_, _, hr.snoc he rfl, ?_⟩
    simp [callMethod, hn]

/-- `id_` comes round: the bound on the number of calls is needed. -/
theorem ids_come_round : ∃ ops s c d N, (machine none).Run init ops s ∧
    N = 2 ^ 64 ∧ s.calls[0]? = some c ∧ s.calls[N]? = some d ∧ c.id = d.id := by
  obtain ⟨N, hN⟩ : ∃ N, N = 2 ^ 64 := ⟨_, rfl⟩
  obtain ⟨ops, s, hr, hn⟩ := exists_run_calls (N + 1)
  have hnum := (hr.keeps (machine_keeps_inv none) inv_init).numbered
  have h0 := List.getElem?_eq_getElem (l := s.calls) (i := 0) (by omega)
  have hlast := List.getElem?_eq_getElem (l := s.calls) (i := N) (by omega)
  refine ⟨ops, s, _, _, N, hr, hN, h0, hlast, ?_⟩
  rw [hnum.ids 0 _ h0, hnum.ids N _ hlast, hN]
  rfl

end Rpc

end TinyMuduo
