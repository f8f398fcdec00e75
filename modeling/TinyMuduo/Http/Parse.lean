import TinyMuduo.Http.Model
import TinyMuduo.Lib.Incremental

/-!
# Http.Parse

`parseRequest` reads a stream line by line (`readLine`). A line is taken when its CRLF is there, and
what it does depends on the line and the context alone (`takeLine`); so the reader is stable, and
how a request was cut into pieces does not matter.

The time of receipt is the one thing a context takes from the call it is parsed in; the lemmas speak
of contexts without it (`timeless`).
-/

namespace TinyMuduo

open Result Incremental

/-! ## Lines -/

theorem not_crlf_infix_nil : ¬ crlf <:+: [] := by
  intro h
  cases List.infix_nil.1 h

theorem line_parts (line : Str) (more : List Byte) :
    (line ++ crlf ++ more).take line.length = line ∧
      (line ++ crlf ++ more).drop (line.length + 2) = more := by
  refine ⟨by rw [List.append_assoc, List.take_left], ?_⟩
  rw [show line.length + 2 = (line ++ crlf).length by rw [List.length_append]; rfl,
    List.drop_left]

/-- The input is cut at its first CRLF. -/
theorem searchCRLF_cut {bs : List Byte} {k : Nat} (h : searchCRLF bs = some k) :
    bs = bs.take k ++ crlf ++ bs.drop (k + 2) ∧ ¬ crlf <:+: bs.take k := by
  induction bs using searchCRLF.induct generalizing k with
  | case1 x y rest hxy =>
    rw [searchCRLF, if_pos hxy] at h
    cases h
    exact ⟨by rw [← hxy]; rfl, not_crlf_infix_nil⟩
  | case2 x y rest hxy ih =>
    rw [searchCRLF, if_neg hxy, Option.map_eq_some_iff] at h
    obtain ⟨j, hj, rfl⟩ := h
    obtain ⟨hcut, hfirst⟩ := ih hj
    refine ⟨?_, fun hin => ?_⟩
    · rw [List.take_succ_cons, List.drop_succ_cons, List.cons_append, List.cons_append, ← hcut]
    · rw [List.take_succ_cons] at hin
      rcases List.infix_cons_iff.1 hin with hpre | hin
      · -- the CRLF would be the first two bytes
        cases j with
        | zero => exact absurd hpre.length_le (show ¬ 2 ≤ 1 by decide)
        | succ j =>
          rw [List.take_succ_cons] at hpre
          obtain ⟨t, ht⟩ := hpre
          simp only [crlf, ascii, List.map_cons, List.map_nil, List.cons_append, List.nil_append,
            List.cons.injEq] at ht
          exact hxy (by rw [← ht.1, ← ht.2.1]; rfl)
      · exact hfirst hin
  | case3 bs hbs =>
    rw [searchCRLF] at h
    · cases h
    · exact hbs

theorem searchCRLF_some {bs : List Byte} {k : Nat} (h : searchCRLF bs = some k) :
    k + 2 ≤ bs.length := by
  have hlen := congrArg List.length (searchCRLF_cut h).1
  simp only [List.length_append, List.length_take, List.length_drop] at hlen
  have hcrlf : crlf.length = 2 := rfl
  omega

theorem searchCRLF_append {bs : List Byte} {k : Nat} (h : searchCRLF bs = some k)
    (more : List Byte) : searchCRLF (bs ++ more) = some k := by
  induction bs using searchCRLF.induct generalizing k with
  | case1 x y rest hxy =>
    rw [searchCRLF, if_pos hxy] at h
    rw [List.cons_append, List.cons_append, searchCRLF, if_pos hxy]
    exact h
  | case2 x y rest hxy ih =>
    rw [searchCRLF, if_neg hxy, Option.map_eq_some_iff] at h
    obtain ⟨j, hj, rfl⟩ := h
    rw [List.cons_append, List.cons_append, searchCRLF, if_neg hxy, ← List.cons_append, ih hj]
    rfl
  | case3 bs hbs =>
    rw [searchCRLF] at h
    · cases h
    · exact hbs

/-- The first CRLF ends a line that has none in it. -/
theorem searchCRLF_line {line : Str} (h : ¬ crlf <:+: line) (more : List Byte) :
    searchCRLF (line ++ crlf ++ more) = some line.length := by
  induction line with
  | nil => rfl
  | cons x line ih =>
    have hline : ¬ crlf <:+: line := fun hin => h (hin.trans (List.suffix_cons _ _).isInfix)
    have htail := ih hline
    cases line with
    | nil =>
      rw [List.cons_append, List.cons_append, List.nil_append]
      show searchCRLF (x :: chr '\r' :: chr '\n' :: more) = _
      rw [searchCRLF, if_neg (by simp [crlf, ascii, chr])]
      show (searchCRLF ([] ++ crlf ++ more)).map _ = _
      rw [htail]
      rfl
    | cons y line =>
      rw [List.cons_append, List.cons_append, List.cons_append, List.cons_append, searchCRLF,
        if_neg]
      · rw [List.cons_append, List.cons_append] at htail
        rw [htail]
        rfl
      · rintro hxy
        exact h ⟨[], line, by rw [← hxy]; rfl⟩

theorem slice_cons {l : Str} {i n : Nat} {x : Byte} (h : l[i]? = some x) :
    Block.slice l i (i + (n + 1)) = x :: Block.slice l (i + 1) (i + 1 + n) := by
  apply List.ext_getElem?
  intro k
  rw [Block.slice_getElem?]
  cases k with
  | zero => rw [if_pos (by omega), Nat.add_zero, h]; rfl
  | succ k =>
    rw [List.getElem?_cons_succ, Block.slice_getElem?, show i + (k + 1) = i + 1 + k by omega,
      show i + (n + 1) = i + 1 + n by omega]

theorem charAt_ok {l : Str} {i : Nat} (h : i < l.length) : ∃ c, charAt l i = .ok c := by
  rw [charAt, List.getElem?_eq_getElem h]
  exact ⟨_, rfl⟩

theorem findFrom_spec (l : Str) (c : Byte) (n i : Nat) (h : i + n ≤ l.length) :
    findFrom l c n i = .ok (i + (Block.slice l i (i + n)).findIdx (· = c)) := by
  induction n generalizing i with
  | zero => simp [findFrom]
  | succ n ih =>
    have hx : l[i]? = some l[i] := List.getElem?_eq_getElem (by omega)
    rw [findFrom, charAt, hx, slice_cons hx]
    simp only [ok_bind, List.findIdx_cons]
    by_cases heq : l[i] = c
    · simp [heq]
    · rw [if_neg heq, ih (i + 1) (by omega), decide_eq_false heq, cond_false]
      congr 1
      omega

theorem find_spec (line : Str) (c : Byte) {i j : Nat} (hij : i ≤ j) (hj : j ≤ line.length) :
    find line c i j = .ok (i + (Block.slice line i j).findIdx (· = c)) := by
  rw [find, findFrom_spec line c _ i (by omega), show i + (j - i) = j by omega]

theorem find_whole (line : Str) (c : Byte) :
    find line c 0 line.length = .ok (line.findIdx (· = c)) := by
  have hslice : Block.slice line 0 line.length = line := by
    rw [Block.slice, List.take_length, List.drop_zero]
  rw [find_spec line c (Nat.zero_le _) (Nat.le_refl _), hslice, Nat.zero_add]

theorem find_ok (line : Str) (c : Byte) {i j : Nat} (hij : i ≤ j) (hj : j ≤ line.length) :
    ∃ k, find line c i j = .ok k ∧ i ≤ k ∧ k ≤ j := by
  refine ⟨_, find_spec line c hij hj, Nat.le_add_right _ _, ?_⟩
  have hle : (Block.slice line i j).findIdx (· = c) ≤ (Block.slice line i j).length :=
    List.findIdx_le_length
  rw [Block.slice_length hj] at hle
  omega

theorem substr_ok (line : Str) {i j : Nat} (hij : i ≤ j) (hj : j ≤ line.length) :
    substr line i j = .ok (Block.slice line i j) := if_pos ⟨hij, hj⟩

/-! ## Without the time of receipt -/

def HttpRequest.timeless (r : HttpRequest) : HttpRequest := { r with receiveTime := 0 }

def HttpContext.timeless (ctx : HttpContext) : HttpContext :=
  { ctx with request := ctx.request.timeless }

namespace HttpContext

open HttpRequest

@[simp] theorem timeless_state (ctx : HttpContext) : ctx.timeless.state = ctx.state := rfl

@[simp] theorem timeless_gotAll (ctx : HttpContext) : ctx.timeless.gotAll = ctx.gotAll := rfl

/-- The time is not read while a request line is examined. -/
theorem processVersion_timeless (r : HttpRequest) (line : Str) (start : Nat) :
    processVersion r.timeless line start =
      (processVersion r line start).map (Prod.map id HttpRequest.timeless) := by
  unfold processVersion
  split
  · cases substr line start (line.length - 1) with
    | error e => rfl
    | ok name =>
      simp only [ok_bind]
      split
      · cases charAt line (line.length - 1) with
        | error e => rfl
        | ok digit =>
          simp only [ok_bind]
          split
          · rfl
          · split <;> rfl
      · rfl
  · rfl

theorem processTarget_timeless (r : HttpRequest) (line : Str) (start : Nat) :
    processTarget r.timeless line start =
      (processTarget r line start).map (Prod.map id HttpRequest.timeless) := by
  unfold processTarget
  cases find line (chr ' ') start line.length with
  | error e => rfl
  | ok space =>
    simp only [ok_bind]
    split
    · cases find line (chr '?') start space with
      | error e => rfl
      | ok question =>
        simp only [ok_bind]
        cases substr line start question with
        | error e => rfl
        | ok path =>
          simp only [ok_bind]
          split
          · cases substr line question space with
            | error e => rfl
            | ok query =>
              exact processVersion_timeless { r with path := path, query := query } line _
          · exact processVersion_timeless { r with path := path } line _
    · rfl

theorem processRequestLine_timeless (r : HttpRequest) (line : Str) :
    processRequestLine r.timeless line =
      (processRequestLine r line).map (Prod.map id HttpRequest.timeless) := by
  unfold processRequestLine
  cases find line (chr ' ') 0 line.length with
  | error e => rfl
  | ok space =>
    simp only [ok_bind]
    split
    · cases substr line 0 space with
      | error e => rfl
      | ok m =>
        simp only [ok_bind, setMethod]
        by_cases hm : r.method = .kInvalid
        · rw [ensure_pos hm, ensure_pos (show r.timeless.method = .kInvalid from hm)]
          simp only [ok_bind]
          split
          · exact processTarget_timeless { r with method := methodOf m } line _
          · rfl
        · rw [ensure_neg hm, ensure_neg (show ¬ r.timeless.method = .kInvalid from hm)]
          rfl
    · rfl

/-! ## A request line is examined without a fault -/

theorem processVersion_ok (r : HttpRequest) (line : Str) (start : Nat) :
    ∃ res, processVersion r line start = .ok res := by
  unfold processVersion
  split
  next h8 =>
    rw [substr_ok line (by omega) (by omega), ok_bind]
    split
    · obtain ⟨c, hlast⟩ := charAt_ok (show line.length - 1 < line.length by omega)
      rw [hlast]
      simp only [ok_bind]
      split
      · exact ⟨_, rfl⟩
      · split <;> exact ⟨_, rfl⟩
    · exact ⟨_, rfl⟩
  · exact ⟨_, rfl⟩

theorem processTarget_ok (r : HttpRequest) (line : Str) {start : Nat}
    (h : start ≤ line.length) : ∃ res, processTarget r line start = .ok res := by
  obtain ⟨space, hspace, hle, hlen⟩ := find_ok line (chr ' ') h (Nat.le_refl _)
  obtain ⟨question, hquestion, hqle, hqlen⟩ := find_ok line (chr '?') hle hlen
  rw [processTarget, hspace, ok_bind]
  split
  · rw [hquestion, ok_bind, substr_ok line hqle (by omega), ok_bind]
    split
    · rw [substr_ok line hqlen hlen, ok_bind]
      exact processVersion_ok _ line _
    · exact processVersion_ok _ line _
  · exact ⟨_, rfl⟩

theorem processRequestLine_ok {r : HttpRequest} (line : Str) (h : r.method = .kInvalid) :
    ∃ res, processRequestLine r line = .ok res := by
  obtain ⟨space, hspace, _, hlen⟩ := find_ok line (chr ' ') (Nat.zero_le _) (Nat.le_refl _)
  rw [processRequestLine, hspace, ok_bind]
  split
  · rw [substr_ok line (Nat.zero_le _) hlen, ok_bind, setMethod, ensure_pos h, ok_bind]
    simp only [ok_bind]
    split
    · exact processTarget_ok _ line (by omega)
    · exact ⟨_, rfl⟩
  · exact ⟨_, rfl⟩

/-! ## The reader -/

/-- What a line does: the next context, and whether it was understood. -/
def takeLine (ctx : HttpContext) (line : Str) : Option (HttpContext × Bool) :=
  match ctx.state with
  | .kExpectRequestLine =>
    match processRequestLine ctx.request line with
    | .ok (true, r) => some ({ state := .kExpectHeaders, request := r }, true)
    | .ok (false, r) => some ({ ctx with request := r }, false)
    | .error _ => none
  | .kExpectHeaders =>
    let colon := line.findIdx (· = chr ':')
    if colon ≠ line.length then
      some ({ ctx with request := ctx.request.addHeader line colon }, true)
    else some ({ ctx with state := .kGotAll }, true)
  | .kExpectBody => none
  | .kGotAll => none

/-- A line that is not understood stays where it is, and ends the reading. -/
def readLine : HttpContext × Bool → List Byte → Option ((HttpContext × Bool) × List Byte)
  | (_, false), _ => none
  | (ctx, true), bs =>
    match searchCRLF bs with
    | none => none
    | some k =>
      match takeLine ctx (bs.take k) with
      | none => none
      | some (ctx', true) => some ((ctx', true), bs.drop (k + 2))
      | some (ctx', false) => some ((ctx', false), bs)

section

variable {ctx ctx' : HttpContext} {bs : List Byte} {k : Nat}

theorem readLine_none (h : searchCRLF bs = none) : readLine (ctx, true) bs = none := by
  rw [readLine, h]

theorem readLine_taken (h : searchCRLF bs = some k)
    (ht : takeLine ctx (bs.take k) = some (ctx', true)) :
    readLine (ctx, true) bs = some ((ctx', true), bs.drop (k + 2)) := by
  simp only [readLine, h, ht]

theorem readLine_rejected (h : searchCRLF bs = some k)
    (ht : takeLine ctx (bs.take k) = some (ctx', false)) :
    readLine (ctx, true) bs = some ((ctx', false), bs) := by
  simp only [readLine, h, ht]

theorem readLine_gotAll (h : ctx.gotAll) : readLine (ctx, true) bs = none := by
  have hstate : ctx.state = .kGotAll := by simpa [gotAll] using h
  have ht : ∀ line, takeLine ctx line = none := fun line => by rw [takeLine, hstate]
  rw [readLine]
  split
  · rfl
  · rw [ht]

end

theorem readLine_stable : Stable readLine := by
  rintro ⟨ctx, _ | _⟩ bs s' rest more h
  · cases h
  · cases hk : searchCRLF bs with
    | none => rw [readLine_none hk] at h; cases h
    | some k =>
      have hlen := searchCRLF_some hk
      have hk' := searchCRLF_append hk more
      have htake : (bs ++ more).take k = bs.take k := List.take_append_of_le_length (by omega)
      have hdrop : (bs ++ more).drop (k + 2) = bs.drop (k + 2) ++ more :=
        List.drop_append_of_le_length hlen
      cases ht : takeLine ctx (bs.take k) with
      | none => simp only [readLine, hk, ht] at h; cases h
      | some res =>
        obtain ⟨ctx', _ | _⟩ := res
        · rw [readLine_rejected hk ht] at h
          cases h
          exact readLine_rejected hk' (by rw [htake, ht])
        · rw [readLine_taken hk ht] at h
          cases h
          rw [readLine_taken hk' (by rw [htake, ht]), hdrop]

theorem readLine_suffix (s : HttpContext × Bool) (bs : List Byte) (s' : HttpContext × Bool)
    (rest : List Byte) (h : readLine s bs = some (s', rest)) : rest <:+ bs := by
  obtain ⟨ctx, _ | _⟩ := s
  · cases h
  · rw [readLine] at h
    split at h
    · cases h
    · split at h
      · cases h
      · cases h; exact List.drop_suffix _ _
      · cases h; exact List.suffix_refl _

/-! ## `parseRequest` is the reader -/

/-- A call of `parseRequest` finds a context it can go on with. -/
def Parsing (ctx : HttpContext) : Prop :=
  ctx.state = .kExpectRequestLine ∧ ctx.request.method = .kInvalid ∨ ctx.state = .kExpectHeaders

instance (ctx : HttpContext) : Decidable ctx.Parsing := inferInstanceAs (Decidable (_ ∨ _))

@[simp] theorem returned_next {α : Type} (a : α) : returned (.next a) = .ok a := rfl

theorem findCRLF_spec {b : Buffer} {k : Nat} (h : b.WF) (hk : searchCRLF b.readable = some k) :
    ∃ stop b', b.findCRLF = some stop ∧ lineTo b stop = b.readable.take k ∧
      b.retrieveUntil (stop + 2) = .next b' ∧ b'.WF ∧ b'.readable = b.readable.drop (k + 2) := by
  have hlen := searchCRLF_some hk
  have hr := h.readable_length
  obtain ⟨b', hb', hwf, hread⟩ := Buffer.retrieveUntil_spec h
    (show b.readerIndex ≤ b.readerIndex + k + 2 by omega) (by omega)
  refine ⟨b.readerIndex + k, b', by rw [Buffer.findCRLF, hk]; rfl, ?_, hb', hwf, ?_⟩
  · exact Block.slice_take _ _ _ _ (by omega)
  · rw [hread, show b.readerIndex + k + 2 - b.readerIndex = k + 2 by omega]

section Turn

variable {ctx : HttpContext} {b : Buffer} (receiveTime : Int)

theorem turn_none (hp : ctx.Parsing) (hk : searchCRLF b.readable = none) :
    turn receiveTime ctx b = .ok (.stop true ctx b) := by
  have hfind : b.findCRLF = none := by rw [Buffer.findCRLF, hk]; rfl
  rcases hp with ⟨hstate, _⟩ | hstate
  · simp only [turn, hstate, requestLineTurn, hfind]
  · simp only [turn, hstate, headerTurn, hfind]

/-- An iteration that finds a line takes it, and rejects it, ends the header section or goes on. -/
theorem turn_some {k : Nat} (hp : ctx.Parsing) (h : b.WF) (hk : searchCRLF b.readable = some k) :
    ∃ ctx' b', b'.WF ∧ b'.readable = b.readable.drop (k + 2) ∧
      (takeLine ctx.timeless (b.readable.take k) = some (ctx'.timeless, false) ∧
          turn receiveTime ctx b = .ok (.stop false ctx' b) ∧
          ctx'.state = .kExpectRequestLine ∨
        takeLine ctx.timeless (b.readable.take k) = some (ctx'.timeless, true) ∧
          (turn receiveTime ctx b = .ok (.stop true ctx' b') ∧ ctx'.state = .kGotAll ∨
            turn receiveTime ctx b = .ok (.next ctx' b') ∧ ctx'.state = .kExpectHeaders)) := by
  obtain ⟨stop, b', hfind, hline, hb', hwf, hread⟩ := findCRLF_spec h hk
  generalize b.readable.take k = line at hline ⊢
  rcases hp with ⟨hstate, hmethod⟩ | hstate
  · -- the request line
    obtain ⟨⟨ok, r⟩, hres⟩ := processRequestLine_ok line hmethod
    have htime : processRequestLine ctx.timeless.request line = .ok (ok, r.timeless) := by
      rw [show ctx.timeless.request = ctx.request.timeless from rfl, processRequestLine_timeless,
        hres]
      rfl
    have hturn : turn receiveTime ctx b =
        if ok then .ok (.next ⟨.kExpectHeaders, { r with receiveTime := receiveTime }⟩ b')
        else .ok (.stop false { ctx with request := r } b) := by
      simp only [turn, hstate, requestLineTurn, hfind, hline, hres, ok_bind, hb', returned_next]
    cases ok with
    | false =>
      refine ⟨{ ctx with request := r }, b', hwf, hread, .inl ⟨?_, hturn, hstate⟩⟩
      simp only [takeLine, timeless_state, hstate, htime]
      rfl
    | true =>
      refine ⟨⟨.kExpectHeaders, { r with receiveTime := receiveTime }⟩, b', hwf, hread,
        .inr ⟨?_, .inr ⟨hturn, rfl⟩⟩⟩
      simp only [takeLine, timeless_state, hstate, htime]
      rfl
  · -- a line of the header section
    have hcolon := find_whole line (chr ':')
    generalize hidx : line.findIdx (· = chr ':') = colon at hcolon
    have hturn : turn receiveTime ctx b =
        if colon ≠ line.length then
          .ok (.next { ctx with request := ctx.request.addHeader line colon } b')
        else .ok (.stop true { ctx with state := .kGotAll } b') := by
      simp only [turn, hstate, headerTurn, hfind, hline, hcolon, ok_bind, hb', returned_next]
    by_cases hend : colon ≠ line.length
    · rw [if_pos hend] at hturn
      refine ⟨_, b', hwf, hread, .inr ⟨?_, .inr ⟨hturn, hstate⟩⟩⟩
      simp only [takeLine, timeless_state, hstate, hidx]
      rw [if_pos hend]
      rfl
    · rw [if_neg hend] at hturn
      refine ⟨_, b', hwf, hread, .inr ⟨?_, .inl ⟨hturn, rfl⟩⟩⟩
      simp only [takeLine, timeless_state, hstate, hidx]
      rw [if_neg hend]
      rfl

end Turn

/-- What is known of the context a call leaves behind. -/
def Left (ok : Bool) (ctx : HttpContext) : Prop :=
  if ok then ctx.gotAll ∨ ctx.Parsing else ctx.state = .kExpectRequestLine

theorem loop_spec (receiveTime : Int) (n : Nat) {ctx : HttpContext} {b : Buffer}
    (hp : ctx.Parsing) (h : b.WF) (hn : b.readable.length < n) :
    ∃ ok ctx' b', loop receiveTime n ctx b = .ok (ok, ctx', b') ∧ b'.WF ∧ ctx'.Left ok ∧
      Reads readLine (ctx.timeless, true) b.readable (ctx'.timeless, ok) b'.readable := by
  induction n generalizing ctx b with
  | zero => omega
  | succ n ih =>
    rw [loop]
    cases hk : searchCRLF b.readable with
    | none =>
      rw [turn_none receiveTime hp hk, ok_bind]
      exact ⟨true, ctx, b, rfl, h, Or.inr hp, .stop (readLine_none hk)⟩
    | some k =>
      have hlen := searchCRLF_some hk
      obtain ⟨ctx', b', hwf, hread, ⟨htake, hturn, hstate⟩ | ⟨htake, hturn⟩⟩ :=
        turn_some receiveTime hp h hk
      · rw [hturn, ok_bind]
        exact ⟨false, ctx', b, rfl, h, hstate, .step (readLine_rejected hk htake) (.stop rfl)⟩
      · have hstep := readLine_taken hk htake
        rcases hturn with ⟨hturn, hstate⟩ | ⟨hturn, hstate⟩
        · rw [hturn, ok_bind]
          have hgot : ctx'.gotAll := by simp [gotAll, hstate]
          refine ⟨true, ctx', b', rfl, hwf, Or.inl hgot, .step hstep ?_⟩
          rw [hread]
          exact .stop (readLine_gotAll hgot)
        · rw [hturn, ok_bind]
          obtain ⟨ok, ctx'', b'', hloop, hwf', hleft, hreads⟩ :=
            ih (Or.inr hstate : ctx'.Parsing) hwf (by rw [hread, List.length_drop]; omega)
          refine ⟨ok, ctx'', b'', hloop, hwf', hleft, .step hstep ?_⟩
          rw [← hread]
          exact hreads

theorem parseRequest_spec (receiveTime : Int) {ctx : HttpContext} {b : Buffer}
    (hp : ctx.Parsing) (h : b.WF) :
    ∃ ok ctx' b', ctx.parseRequest receiveTime b = .ok (ok, ctx', b') ∧ b'.WF ∧ ctx'.Left ok ∧
      Reads readLine (ctx.timeless, true) b.readable (ctx'.timeless, ok) b'.readable := by
  rw [parseRequest, h.readableBytes_length]
  exact loop_spec receiveTime _ hp h (Nat.lt_succ_self _)

end HttpContext

/-! ## Pieces of a request -/

/-- A context fed with pieces: the result of the last call, and all that was appended. -/
structure HttpParser where
  context : HttpContext
  ok : Bool
  buf : Buffer
  fed : List Byte

namespace HttpParser

open HttpContext

def init : HttpParser where
  context := .fresh
  ok := true
  buf := .fresh
  fed := []

/-- The last call returned false, or it has found the whole request. -/
def Stopped (p : HttpParser) : Prop := p.ok = false ∨ p.context.gotAll

instance (p : HttpParser) : Decidable p.Stopped := inferInstanceAs (Decidable (_ ∨ _))

def feed (receiveTime : Int) (p : HttpParser) (piece : Data) : Except HttpFault HttpParser := do
  let b ← returned (p.buf.append piece)
  let (ok, ctx, b) ← p.context.parseRequest receiveTime b
  .ok { context := ctx, ok := ok, buf := b, fed := p.fed ++ piece }

end HttpParser

/-- Pieces are fed until the parser stops. -/
def httpParser (receiveTime : Int) : Machine HttpParser Data HttpFault where
  enabled p _ := ¬ p.Stopped
  exec := HttpParser.feed receiveTime

namespace HttpParser

open HttpContext

structure Inv (p : HttpParser) : Prop where
  wf : p.buf.WF
  left : p.context.Left p.ok
  reading : Reads readLine (HttpContext.fresh, true) p.fed (p.context.timeless, p.ok) p.buf.readable

theorem init_inv : init.Inv where
  wf := Buffer.fresh_wf
  left := Or.inr (Or.inl ⟨rfl, rfl⟩)
  reading := by
    show Reads readLine (HttpContext.fresh, true) [] (HttpContext.fresh, true) Buffer.fresh.readable
    rw [Buffer.fresh_readable]
    exact .stop (readLine_none rfl)

theorem Inv.parsing {p : HttpParser} (h : p.Inv) (hgo : ¬ p.Stopped) :
    p.ok = true ∧ p.context.Parsing := by
  obtain ⟨hok, hgot⟩ := not_or.1 hgo
  have hok : p.ok = true := by simpa using hok
  have hleft := h.left
  rw [hok] at hleft
  exact ⟨hok, hleft.resolve_left hgot⟩

theorem feed_spec (receiveTime : Int) {p : HttpParser} (h : p.Inv) (hgo : ¬ p.Stopped)
    (piece : Data) :
    (∃ p', p.feed receiveTime piece = .ok p' ∧ p'.Inv ∧ p'.fed = p.fed ++ piece) ∨
    (p.feed receiveTime piece = .error .lengthError ∧
      maxSize < p.buf.readable.length + 2 * piece.val.length + Buffer.kCheapPrepend) := by
  obtain ⟨hok, hparsing⟩ := h.parsing hgo
  unfold feed
  rcases Buffer.append_spec h.wf piece.property with ⟨b₁, hb₁, hwf₁, hr₁⟩ | ⟨ht, hfull⟩
  · obtain ⟨ok, ctx, b₂, hparse, hwf₂, hleft, hreads⟩ :=
      parseRequest_spec receiveTime hparsing hwf₁
    rw [hb₁, returned_next, ok_bind, hparse, ok_bind]
    refine Or.inl ⟨_, rfl, ⟨hwf₂, hleft, ?_⟩, rfl⟩
    have hbefore := h.reading
    rw [hok] at hbefore
    rw [hr₁] at hreads
    exact hbefore.resume readLine_stable hreads
  · rw [ht]
    exact Or.inr ⟨rfl, hfull⟩

theorem run_inv {receiveTime : Int} {pieces : List Data} {p : HttpParser}
    (hrun : (httpParser receiveTime).Run init pieces p) :
    p.Inv ∧ p.fed = (pieces.map Subtype.val).flatten := by
  have hinit : init.Inv ∧ init.fed = (([] : List Data).map Subtype.val).flatten := ⟨init_inv, rfl⟩
  refine hrun.keeps_trace
    (I := fun pieces (p : HttpParser) => p.Inv ∧ p.fed = (pieces.map Subtype.val).flatten) ?_ hinit
  · rintro before p piece p' ⟨hinv, hfed⟩ hgo hx
    rcases feed_spec receiveTime hinv hgo piece with ⟨p₁, hx₁, hinv₁, hfed₁⟩ | ⟨hx₁, _⟩
    · cases hx.symm.trans hx₁
      exact ⟨hinv₁, by rw [hfed₁, hfed]; simp⟩
    · cases hx.symm.trans hx₁

/-- However a request is cut, the parser ends with the result, the context and the bytes consumed
that one call on the whole would give. No piece that is fed makes the call fault. -/
theorem parse_any_pieces (receiveTime : Int) {pieces rest : List Data} {whole : Data}
    {p q : HttpParser} (hcut : ((pieces ++ rest).map Subtype.val).flatten = whole.val)
    (hrun : (httpParser receiveTime).Run init pieces p) (hend : rest = [] ∨ p.Stopped)
    (hwhole : (httpParser receiveTime).Run init [whole] q) :
    p.ok = q.ok ∧ p.context.timeless = q.context.timeless ∧
    (∃ consumed, p.fed = consumed ++ p.buf.readable ∧ whole.val = consumed ++ q.buf.readable) ∧
    ∀ piece, ¬ p.Stopped → (∃ p', (httpParser receiveTime).exec p piece = .ok p') ∨
      ((httpParser receiveTime).exec p piece = .error .lengthError ∧
        maxSize < p.buf.readable.length + 2 * piece.val.length + Buffer.kCheapPrepend) := by
  obtain ⟨hinv, hfed⟩ := run_inv hrun
  obtain ⟨hinv', hfed'⟩ := run_inv hwhole
  have hreads' := hinv'.reading
  rw [hfed', List.map_singleton, List.flatten_singleton] at hreads'
  -- the pieces that were not fed any more would not have been read
  have hreads : Reads readLine (HttpContext.fresh, true) whole.val (p.context.timeless, p.ok)
      (p.buf.readable ++ (rest.map Subtype.val).flatten) := by
    rw [← hcut, List.map_append, List.flatten_append, ← hfed]
    refine hinv.reading.resume readLine_stable ?_
    rcases hend with rfl | hok | hgot
    · rw [List.map_nil, List.flatten_nil, List.append_nil]
      exact .stop hinv.reading.stopped
    · rw [hok]
      exact .stop rfl
    · cases hok : p.ok with
      | false => exact .stop rfl
      | true => exact .stop (readLine_gotAll hgot)
  obtain ⟨hsame, hleft⟩ := hreads.deterministic hreads'
  obtain ⟨consumed, hconsumed⟩ := hinv.reading.suffix readLine_suffix
  refine ⟨congrArg Prod.snd hsame, congrArg Prod.fst hsame, ⟨consumed, hconsumed.symm, ?_⟩, ?_⟩
  · rw [← hleft, ← List.append_assoc, hconsumed, hfed, ← hcut, List.map_append,
      List.flatten_append]
  · intro piece hgo
    rcases feed_spec receiveTime hinv hgo piece with ⟨p', hx, _, _⟩ | hfull
    · exact Or.inl ⟨p', hx⟩
    · exact Or.inr hfull

instance (receiveTime : Int) (p : HttpParser) (piece : Data) :
    Decidable ((httpParser receiveTime).enabled p piece) := inferInstanceAs (Decidable (¬ _))

/-- A request with a header, cut inside the version and between CR and LF. -/
theorem parse_any_pieces_sample :
    ∃ p q, (httpParser 5).Run init
        [⟨ascii ['G', 'E', 'T', ' ', '/', 'a', '?', 'b', ' ', 'H', 'T'], by decide⟩,
          ⟨ascii ['T', 'P', '/', '1', '.', '1', '\r', '\n', 'k', ':', ' ', 'v', '\r'], by decide⟩,
          ⟨ascii ['\n', '\r', '\n', 'G'], by decide⟩] p ∧
      (httpParser 5).Run init
        [⟨ascii ['G', 'E', 'T', ' ', '/', 'a', '?', 'b', ' ', 'H', 'T', 'T', 'P', '/', '1', '.',
          '1', '\r', '\n', 'k', ':', ' ', 'v', '\r', '\n', '\r', '\n', 'G'], by decide⟩] q ∧
      p.ok = q.ok ∧ p.context.timeless = q.context.timeless ∧
      (p.context.gotAll, p.context.request.method, p.context.request.path,
        p.context.request.headers (ascii ['k'])) =
        (true, .kGet, ascii ['/', 'a'], some (ascii ['v'])) := by
  obtain ⟨p, hrun, hp⟩ := Machine.Run.of_replay (httpParser 5) init
    [⟨ascii ['G', 'E', 'T', ' ', '/', 'a', '?', 'b', ' ', 'H', 'T'], by decide⟩,
      ⟨ascii ['T', 'P', '/', '1', '.', '1', '\r', '\n', 'k', ':', ' ', 'v', '\r'], by decide⟩,
      ⟨ascii ['\n', '\r', '\n', 'G'], by decide⟩]
    (fun p => (p.context.gotAll, p.context.request.method, p.context.request.path,
      p.context.request.headers (ascii ['k'])))
    (true, .kGet, ascii ['/', 'a'], some (ascii ['v'])) (by decide +kernel)
  obtain ⟨q, hwhole, _⟩ := Machine.Run.of_replay (httpParser 5) init
    [⟨ascii ['G', 'E', 'T', ' ', '/', 'a', '?', 'b', ' ', 'H', 'T', 'T', 'P', '/', '1', '.',
      '1', '\r', '\n', 'k', ':', ' ', 'v', '\r', '\n', '\r', '\n', 'G'], by decide⟩]
    HttpParser.ok true (by decide +kernel)
  obtain ⟨hok, hctx, _⟩ := parse_any_pieces 5 rfl hrun (Or.inl rfl) hwhole
  exact ⟨p, q, hrun, hwhole, hok, hctx, hp⟩

end HttpParser
end TinyMuduo
