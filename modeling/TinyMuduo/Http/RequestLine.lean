import TinyMuduo.Http.Parse
import TinyMuduo.Lib.Cut

/-!
# Http.RequestLine

The grammar of a request line: `M ' ' T ' ' "HTTP/1." d`, where `M` is a method the parser knows,
`T` has no space in it, and `d` is `'0'` or `'1'`. `processRequestLine` finds the parts by searching
for the two spaces and comparing the last eight characters; it accepts exactly the lines of this
form, and `T` may be empty, or hold more than one `'?'`.
-/

namespace TinyMuduo

open Result HttpContext HttpRequest Cut

def methodNames : List (Str × Method) :=
  [(ascii ['G', 'E', 'T'], .kGet), (ascii ['P', 'O', 'S', 'T'], .kPost),
    (ascii ['H', 'E', 'A', 'D'], .kHead), (ascii ['P', 'U', 'T'], .kPut),
    (ascii ['D', 'E', 'L', 'E', 'T', 'E'], .kDelete)]

theorem methodOf_eq {m : Str} {k : Method} (h : (m, k) ∈ methodNames) :
    methodOf m = k ∧ k ≠ .kInvalid ∧ chr ' ' ∉ m := by
  simp only [methodNames, List.mem_cons, List.not_mem_nil, or_false, Prod.mk.injEq] at h
  rcases h with ⟨rfl, rfl⟩ | ⟨rfl, rfl⟩ | ⟨rfl, rfl⟩ | ⟨rfl, rfl⟩ | ⟨rfl, rfl⟩ <;> decide

theorem mem_methodNames {m : Str} (h : methodOf m ≠ .kInvalid) : (m, methodOf m) ∈ methodNames := by
  unfold methodOf at h ⊢
  simp only [methodNames, List.mem_cons, List.not_mem_nil, or_false, Prod.mk.injEq]
  split
  next hm => exact .inl ⟨hm, rfl⟩
  next =>
    split
    next hm => exact .inr (.inl ⟨hm, rfl⟩)
    next =>
      split
      next hm => exact .inr (.inr (.inl ⟨hm, rfl⟩))
      next =>
        split
        next hm => exact .inr (.inr (.inr (.inl ⟨hm, rfl⟩)))
        next =>
          split
          next hm => exact .inr (.inr (.inr (.inr ⟨hm, rfl⟩)))
          next h₁ h₂ h₃ h₄ h₅ =>
            rw [if_neg h₁, if_neg h₂, if_neg h₃, if_neg h₄, if_neg h₅] at h
            exact absurd rfl h

structure RequestLine where
  method : Str
  target : Str
  digit : Byte
  deriving DecidableEq, Repr

namespace RequestLine

def versionText (l : RequestLine) : Str := ascii ['H', 'T', 'T', 'P', '/', '1', '.'] ++ [l.digit]

def text (l : RequestLine) : Str := l.method ++ chr ' ' :: (l.target ++ chr ' ' :: l.versionText)

structure Valid (l : RequestLine) : Prop where
  method : ∃ m, (l.method, m) ∈ methodNames
  target : chr ' ' ∉ l.target
  digit : l.digit = chr '0' ∨ l.digit = chr '1'

/-! ## What it means -/

/-- The target up to its first question mark. -/
def path (l : RequestLine) : Str := l.target.takeWhile (· ≠ chr '?')

/-- The rest of the target, with the question mark. -/
def query (l : RequestLine) : Str := l.target.dropWhile (· ≠ chr '?')

def version (l : RequestLine) : Version := if l.digit = chr '1' then .kHttp11 else .kHttp10

/-- The request once the line is taken. -/
def request (l : RequestLine) : HttpRequest :=
  { HttpRequest.fresh with
    method := methodOf l.method
    version := l.version
    path := l.path
    query := l.query }

/-! ## Lines of the grammar are accepted -/

section Sound

variable (l : RequestLine)

theorem versionText_length : l.versionText.length = 8 := by simp [versionText, ascii]

/-- The end of a line that ends in a version. -/
theorem processVersion_versionText (hd : l.digit = chr '0' ∨ l.digit = chr '1') (q : HttpRequest)
    (front : Str) :
    processVersion q (front ++ l.versionText) front.length =
      .ok (true, { q with version := l.version }) := by
  have hlen : (front ++ l.versionText).length = front.length + 8 := by
    rw [List.length_append, versionText_length]
  have hname : Block.slice (front ++ l.versionText) front.length (front.length + 7) =
      ascii ['H', 'T', 'T', 'P', '/', '1', '.'] := Block.slice_middle front _ [l.digit]
  have hdigit : (front ++ l.versionText)[front.length + 7]? = some l.digit := by
    rw [List.getElem?_append_right (by omega), Nat.add_sub_cancel_left]
    rfl
  rw [processVersion, hlen, if_pos (by omega),
    show front.length + 8 - 1 = front.length + 7 by omega,
    substr_ok _ (by omega) (by omega), ok_bind, hname, if_pos rfl, charAt, hdigit, version]
  rcases hd with h | h
  · rw [h]; rfl
  · rw [h]; rfl

/-- What follows the method and its space, in a line that starts with `front`. -/
theorem processTarget_targetText (h : l.Valid) (q : HttpRequest) (front : Str)
    (hquery : q.query = []) :
    processTarget q (front ++ (l.target ++ chr ' ' :: l.versionText)) front.length =
      .ok (true, { q with version := l.version, path := l.path, query := l.query }) := by
  generalize hline : front ++ (l.target ++ chr ' ' :: l.versionText) = line
  have hlen : line.length = front.length + l.target.length + 1 + 8 := by
    rw [← hline, List.length_append, List.length_append, List.length_cons, versionText_length]
    omega
  have hspace : find line (chr ' ') front.length line.length =
      .ok (front.length + l.target.length) := by
    have hrest : Block.slice line front.length line.length =
        l.target ++ chr ' ' :: l.versionText := by
      rw [Block.slice, List.take_length, ← hline, List.drop_left]
    rw [find_spec _ _ (by omega) (Nat.le_refl _), hrest, findIdx_append_cons h.target]
  have htarget : Block.slice line front.length (front.length + l.target.length) = l.target := by
    rw [← hline]; exact Block.slice_middle front l.target _
  have hle : l.target.findIdx (· = chr '?') ≤ l.target.length := List.findIdx_le_length
  have hquestion : find line (chr '?') front.length (front.length + l.target.length) =
      .ok (front.length + l.target.findIdx (· = chr '?')) := by
    rw [find_spec _ _ (by omega) (by omega), htarget]
  have hpath : Block.slice line front.length (front.length + l.target.findIdx (· = chr '?')) =
      l.path := by
    rw [Block.slice_take line front.length (front.length + l.target.length) _ (by omega), htarget]
    exact take_findIdx _ _
  have hquery' : Block.slice line (front.length + l.target.findIdx (· = chr '?'))
      (front.length + l.target.length) = l.query := by
    rw [Block.slice_drop, htarget]
    exact drop_findIdx _ _
  have hversion : ∀ q : HttpRequest,
      processVersion q line (front.length + l.target.length + 1) =
        .ok (true, { q with version := l.version }) := by
    intro q
    have := l.processVersion_versionText h.digit q (front ++ l.target ++ [chr ' '])
    simp only [List.append_assoc, List.singleton_append, List.length_append,
      List.length_singleton] at this
    rw [← hline, Nat.add_assoc]
    exact this
  rw [processTarget, hspace, ok_bind, if_pos (by omega), hquestion, ok_bind,
    substr_ok _ (by omega) (by omega), ok_bind, hpath]
  by_cases hq : l.target.findIdx (· = chr '?') = l.target.length
  · -- no question mark: the query stays empty
    have hempty : l.query = [] := by
      rw [query, ← drop_findIdx, hq, List.drop_length]
    rw [if_neg (by omega), hversion, hempty, ← hquery]
  · rw [if_pos (by omega), substr_ok _ (by omega) (by omega), ok_bind, hquery', hversion]

theorem processRequestLine_text (h : l.Valid) :
    processRequestLine .fresh l.text = .ok (true, l.request) := by
  obtain ⟨m, hm⟩ := h.method
  obtain ⟨hmethodOf, hne, hnospace⟩ := methodOf_eq hm
  have hknown : methodOf l.method ≠ .kInvalid := hmethodOf.trans_ne hne
  have hspace : find l.text (chr ' ') 0 l.text.length = .ok l.method.length := by
    rw [find_whole, text, findIdx_append_cons hnospace]
  have hlen : l.method.length < l.text.length := by
    rw [text, List.length_append, List.length_cons]; omega
  have hmethod : Block.slice l.text 0 l.method.length = l.method := by
    rw [Block.slice, List.drop_zero, text, List.take_left]
  have htarget := l.processTarget_targetText h
    { HttpRequest.fresh with method := methodOf l.method } (l.method ++ [chr ' ']) rfl
  rw [List.append_assoc, List.singleton_append, List.length_append,
    List.length_singleton] at htarget
  rw [processRequestLine, hspace, ok_bind, if_pos (by omega),
    substr_ok _ (Nat.zero_le _) (by omega), ok_bind, hmethod, setMethod,
    ensure_pos (show HttpRequest.fresh.method = .kInvalid from rfl), ok_bind, ok_bind]
  simp only [decide_eq_true hknown, if_true]
  exact htarget

end Sound

/-! ## Nothing else is accepted -/

theorem processVersion_true {r r' : HttpRequest} {line : Str} {start : Nat}
    (h : processVersion r line start = .ok (true, r')) :
    ∃ d, (d = chr '0' ∨ d = chr '1') ∧
      line.drop start = ascii ['H', 'T', 'T', 'P', '/', '1', '.'] ++ [d] := by
  unfold processVersion at h
  split at h
  case isFalse => cases h
  case isTrue h8 =>
    obtain ⟨front, d, rfl⟩ : ∃ front d, line = front ++ [d] :=
      ⟨_, _, (List.dropLast_append_getLast (List.ne_nil_of_length_pos (by omega))).symm⟩
    have hlast : (front ++ [d]).length - 1 = front.length := by
      rw [List.length_append, List.length_singleton, Nat.add_sub_cancel]
    rw [substr_ok _ (by omega) (by omega), ok_bind] at h
    split at h
    case isFalse => cases h
    case isTrue hname =>
      have hdrop : (front ++ [d]).drop start =
          ascii ['H', 'T', 'T', 'P', '/', '1', '.'] ++ [d] := by
        rw [← hname, Block.slice, hlast, List.take_left, List.drop_append_of_le_length (by omega)]
      rw [charAt, hlast, List.getElem?_concat_length] at h
      simp only [ok_bind] at h
      split at h
      next hd => exact ⟨_, Or.inr hd, hdrop⟩
      next =>
        split at h
        next hd => exact ⟨_, Or.inl hd, hdrop⟩
        next => cases h

theorem processTarget_true {r r' : HttpRequest} {line : Str} {start : Nat}
    (hstart : start ≤ line.length) (h : processTarget r line start = .ok (true, r')) :
    ∃ target d, chr ' ' ∉ target ∧ (d = chr '0' ∨ d = chr '1') ∧
      line.drop start =
        target ++ chr ' ' :: (ascii ['H', 'T', 'T', 'P', '/', '1', '.'] ++ [d]) := by
  have hrest : Block.slice line start line.length = line.drop start := by
    rw [Block.slice, List.take_length]
  have hfind := find_spec line (chr ' ') hstart (Nat.le_refl _)
  rw [hrest] at hfind
  generalize hk : (line.drop start).findIdx (· = chr ' ') = k at hfind
  have hkle : k ≤ line.length - start := by
    rw [← hk, ← List.length_drop]
    exact List.findIdx_le_length
  obtain ⟨question, hquestion, hqle, hqlen⟩ :=
    find_ok line (chr '?') (show start ≤ start + k by omega) (by omega)
  rw [processTarget, hfind, ok_bind] at h
  split at h
  case isFalse => cases h
  case isTrue hspace =>
    have hversion : ∃ q, processVersion q line (start + k + 1) = .ok (true, r') := by
      rw [hquestion, ok_bind, substr_ok line hqle (by omega), ok_bind] at h
      split at h
      · rw [substr_ok line hqlen (by omega), ok_bind] at h
        exact ⟨_, h⟩
      · exact ⟨_, h⟩
    obtain ⟨q, hq⟩ := hversion
    obtain ⟨d, hd, hdrop⟩ := processVersion_true hq
    refine ⟨(line.drop start).take k, d, ?_, hd, ?_⟩
    · rw [← hk]
      exact not_mem_take_findIdx _ _
    · have hcut := eq_append_cons_of_findIdx hk (by rw [List.length_drop]; omega)
      rw [List.drop_drop, ← Nat.add_assoc, hdrop] at hcut
      exact hcut

theorem processRequestLine_true {line : Str} {r' : HttpRequest}
    (h : processRequestLine .fresh line = .ok (true, r')) :
    ∃ l : RequestLine, l.Valid ∧ l.text = line := by
  have hfind := find_whole line (chr ' ')
  generalize hk : line.findIdx (· = chr ' ') = k at hfind
  have hkle : k ≤ line.length := by
    rw [← hk]
    exact List.findIdx_le_length
  rw [processRequestLine, hfind, ok_bind] at h
  split at h
  case isFalse => cases h
  case isTrue hspace =>
    rw [substr_ok line (Nat.zero_le _) hkle, ok_bind, setMethod,
      ensure_pos (show HttpRequest.fresh.method = .kInvalid from rfl), ok_bind, ok_bind] at h
    dsimp only at h
    split at h
    case isFalse => cases h
    case isTrue hknown =>
      obtain ⟨target, d, htarget, hd, hdrop⟩ := processTarget_true (by omega) h
      have hmethod : Block.slice line 0 k = line.take k := by rw [Block.slice, List.drop_zero]
      rw [hmethod] at hknown
      refine ⟨⟨line.take k, target, d⟩, ⟨⟨_, mem_methodNames (of_decide_eq_true hknown)⟩, htarget,
        hd⟩, ?_⟩
      have hcut := eq_append_cons_of_findIdx hk (by omega)
      rw [hdrop] at hcut
      exact hcut.symm

/-- A line has one reading. -/
theorem text_inj {l l' : RequestLine} (h : l.Valid) (h' : l'.Valid) (heq : l.text = l'.text) :
    l = l' := by
  obtain ⟨m, hm⟩ := h.method
  obtain ⟨m', hm'⟩ := h'.method
  obtain ⟨hmethod, hrest⟩ := append_cons_inj (methodOf_eq hm).2.2 (methodOf_eq hm').2.2 heq
  obtain ⟨htarget, hversion⟩ := append_cons_inj h.target h'.target hrest
  have hdigit : [l.digit] = [l'.digit] := List.append_cancel_left hversion
  obtain ⟨method, target, digit⟩ := l
  obtain ⟨method', target', digit'⟩ := l'
  simp only at hmethod htarget hdigit
  rw [hmethod, htarget, (List.cons.inj hdigit).1]

/-- **The parser accepts exactly the grammar.** Any sequence of characters is examined without
reading outside of it. It is accepted when it is a line of the grammar, in one way only, and then
the request has the method, the version, the path and the query of its parts. -/
theorem request_line_grammar (line : Str) :
    ∃ ok r, processRequestLine .fresh line = .ok (ok, r) ∧
      (ok = true ↔ ∃ l : RequestLine, l.Valid ∧ l.text = line) ∧
      (∀ l l' : RequestLine, l.Valid → l'.Valid → l.text = line → l'.text = line → l = l') ∧
      ∀ l : RequestLine, l.Valid → l.text = line →
        (l.method, r.method) ∈ methodNames ∧ r.version = l.version ∧ r.path = l.path ∧
          r.query = l.query ∧ l.path ++ l.query = l.target := by
  obtain ⟨⟨ok, r⟩, hres⟩ := processRequestLine_ok line (show HttpRequest.fresh.method = _ from rfl)
  refine ⟨ok, r, hres, ⟨fun hok => ?_, ?_⟩, fun l l' h h' ht ht' => ?_, fun l h ht => ?_⟩
  · subst hok
    exact processRequestLine_true hres
  · rintro ⟨l, h, rfl⟩
    cases hres.symm.trans (l.processRequestLine_text h)
    rfl
  · exact text_inj h h' (ht.trans ht'.symm)
  · subst ht
    cases hres.symm.trans (l.processRequestLine_text h)
    obtain ⟨m, hm⟩ := h.method
    refine ⟨?_, rfl, rfl, rfl, List.takeWhile_append_dropWhile⟩
    show (l.method, methodOf l.method) ∈ methodNames
    rw [(methodOf_eq hm).1]
    exact hm

end RequestLine
end TinyMuduo
