import TinyMuduo.Log.Stream

/-!
# Log.Logger

`Logger`: a line of the log is put together in a `LogStream`, and handed to `g_output` by the
destructor, which adds the source file, the line number and a newline in `finish()`.

Each of the five insertions of `finish()` is left out when there is no room for it. The newline
needs two free bytes, and those in front of it may leave just one: `newline_fits_iff` says for which
lengths of the message and of the file name it is written.

What the clock, the thread id and `strerror` say is a parameter, as are the bytes that the array
holds before anything is written to it.
-/

namespace TinyMuduo

open Result LogStream

inductive LogLevel where
  | TRACE
  | DEBUG
  | INFO
  | WARN
  | ERROR
  | FATAL
  deriving DecidableEq, Repr

/-- `LogLevelName`. -/
def LogLevel.name : LogLevel → List Byte
  | .TRACE => ascii ['T', 'R', 'A', 'C', 'E', ' ']
  | .DEBUG => ascii ['D', 'E', 'B', 'U', 'G', ' ']
  | .INFO => ascii ['I', 'N', 'F', 'O', ' ', ' ']
  | .WARN => ascii ['W', 'A', 'R', 'N', ' ', ' ']
  | .ERROR => ascii ['E', 'R', 'R', 'O', 'R', ' ']
  | .FATAL => ascii ['F', 'A', 'T', 'A', 'L', ' ']

/-- `Logger::SourceFile`: the path behind its last slash. -/
def sourceFile (path : List Byte) : List Byte :=
  (path.reverse.takeWhile (· ≠ chr '/')).reverse

namespace Logger

structure Env where
  /-- The array before anything is written. -/
  data : List Byte
  data_length : data.length = kSmallBuffer
  t_time : List Byte
  /-- What `Fmt us(".%06dZ ", microseconds)` prints. -/
  us : List Byte
  tidString : List Byte
  strerror : Int → List Byte

/-- `stream << T(str, len)`. -/
def insertT (s : LogStream) (str : List Byte) (len : Nat) : Except Fault LogStream := do
  ensure (str.length = len) .strlen
  s.append str

def formatTime (env : Env) (s : LogStream) : Except Fault LogStream := do
  ensure (env.us.length < 32) .fmtLength
  ensure (env.us.length = 9) .usLength
  let s ← insertT s env.t_time 17
  insertT s env.us 9

def insertErrno (env : Env) (s : LogStream) (savedErrno : IntValue) : Except Fault LogStream :=
  if savedErrno.value ≠ 0 then
    s.insertAll [.text (env.strerror savedErrno.value),
      .text (ascii [' ', '(', 'e', 'r', 'r', 'n', 'o', '=']), .integer savedErrno,
      .text (ascii [')', ' '])]
  else .ok s

end Logger

open Logger in
/-- `Logger::Impl`. -/
structure Logger where
  stream : LogStream
  level : LogLevel
  line : IntValue
  basename : List Byte

namespace Logger

/-- `Logger::Impl::Impl`. -/
def impl (env : Env) (level : LogLevel) (savedErrno : IntValue) (file : List Byte)
    (line : IntValue) : Except Fault Logger := do
  let s ← formatTime env ⟨env.data, 0⟩
  let s ← insertT s env.tidString 6
  let s ← insertT s level.name 6
  let s ← insertErrno env s savedErrno
  .ok ⟨s, level, line, sourceFile file⟩

/-- The constructors, behind the file and the line. -/
inductive Ctor where
  | plain
  | level (level : LogLevel)
  | func (level : LogLevel) (func : List Byte)
  | toAbort (toAbort : Bool) (errno : IntValue)
  deriving DecidableEq, Repr

def zero : IntValue := ⟨.int, 0, by decide, by decide⟩

def create (env : Env) (file : List Byte) (line : IntValue) : Ctor → Except Fault Logger
  | .plain => impl env .INFO zero file line
  | .level level => impl env level zero file line
  | .func level func => do
    let l ← impl env level zero file line
    let s ← l.stream.insertAll [.text func, .text (ascii [' '])]
    .ok { l with stream := s }
  | .toAbort toAbort errno => impl env (if toAbort then .FATAL else .ERROR) errno file line

/-- What `finish()` inserts before the newline. -/
def trailer (l : Logger) : List Insertion :=
  [.text (ascii [' ', '-', ' ']), .text l.basename, .text (ascii [':']), .integer l.line]

def newline : Insertion := .text (ascii ['\n'])

def finish (l : Logger) : Except Fault LogStream := l.stream.insertAll (l.trailer ++ [newline])

/-- What `~Logger` hands to `g_output`, and whether it aborts then. -/
structure Destroyed where
  output : List Byte
  aborts : Bool
  deriving DecidableEq, Repr

def destroy (l : Logger) : Except Fault Destroyed := do
  let s ← l.finish
  .ok ⟨s.contents, decide (l.level = .FATAL)⟩

/-- `stream() << …`. -/
def insertAll (l : Logger) (is : List Insertion) : Except Fault Logger := do
  let s ← l.stream.insertAll is
  .ok { l with stream := s }

/-! ## The stream of a logger -/

theorem insertT_wf {s s' : LogStream} (h : s.WF) {str : List Byte} {len : Nat}
    (hx : insertT s str len = .ok s') : s'.WF := by
  obtain ⟨_, -, hx⟩ := bind_eq_ok hx
  obtain ⟨s₁, hx₁, hwf, -⟩ := FixedBuffer.append_spec h str
  cases hx₁.symm.trans hx
  exact hwf

theorem impl_wf {env : Env} {level : LogLevel} {savedErrno line : IntValue} {file : List Byte}
    {l : Logger} (hx : impl env level savedErrno file line = .ok l) : l.stream.WF := by
  obtain ⟨s₁, hx₁, hx⟩ := bind_eq_ok hx
  obtain ⟨s₂, hx₂, hx⟩ := bind_eq_ok hx
  obtain ⟨s₃, hx₃, hx⟩ := bind_eq_ok hx
  obtain ⟨s₄, hx₄, hx⟩ := bind_eq_ok hx
  cases hx
  obtain ⟨_, -, hx₁⟩ := bind_eq_ok hx₁
  obtain ⟨_, -, hx₁⟩ := bind_eq_ok hx₁
  obtain ⟨s₀, hx₀, hx₁⟩ := bind_eq_ok hx₁
  have hnew := wf_new env.data_length
  have hwf : s₃.WF := insertT_wf (insertT_wf (insertT_wf (insertT_wf hnew hx₀) hx₁) hx₂) hx₃
  rw [insertErrno] at hx₄
  split at hx₄
  · exact (insertAll_spec hwf hx₄).1
  · cases hx₄
    exact hwf

theorem create_wf {env : Env} {file : List Byte} {line : IntValue} {c : Ctor} {l : Logger}
    (hx : create env file line c = .ok l) : l.stream.WF := by
  cases c with
  | plain | level level => exact impl_wf hx
  | func level func =>
    obtain ⟨l₁, hx₁, hx⟩ := bind_eq_ok hx
    obtain ⟨s, hs, hx⟩ := bind_eq_ok hx
    cases hx
    exact (insertAll_spec (impl_wf hx₁) hs).1
  | toAbort toAbort errno => exact impl_wf hx

/-! ## The newline -/

/-- A message of this length, in a file whose name has `n` characters, gets its newline. -/
def NewlineFits (length n : Nat) : Prop :=
  (length ≤ 3994 ∧ length + n ≠ 3995 ∧ length + n ≠ 3996) ∨ (length = 3997 ∧ n ≠ 1 ∧ n ≠ 2)

instance (length n : Nat) : Decidable (NewlineFits length n) :=
  inferInstanceAs (Decidable (_ ∨ _))

theorem absorb_text (contents bytes : List Byte) :
    absorb contents (.text bytes) =
      if bytes.length < kSmallBuffer - contents.length then contents ++ bytes else contents := rfl

theorem length_absorb_text (contents bytes : List Byte) :
    (absorb contents (.text bytes)).length =
      if bytes.length < 4000 - contents.length then contents.length + bytes.length
      else contents.length := by
  rw [absorb_text, apply_ite List.length, List.length_append, kSmallBuffer]

theorem length_absorb_integer (contents : List Byte) (v : IntValue) :
    (absorb contents (.integer v)).length = contents.length ∨
    (32 ≤ 4000 - contents.length ∧
      (absorb contents (.integer v)).length ≤ contents.length + 21) := by
  have hlen := length_intText_le v.natAbs_lt
  rw [absorb]
  split
  next hroom =>
    refine Or.inr ⟨hroom, ?_⟩
    rw [List.length_append]
    exact Nat.add_le_add_left hlen _
  next => exact Or.inl rfl

/-- The newline fits behind the rest of `finish()`. -/
theorem newline_fits_iff (l : Logger) (contents : List Byte) (h : contents.length < 4000) :
    newline.Room (kSmallBuffer - (l.trailer.foldl absorb contents).length) ↔
      NewlineFits contents.length l.basename.length := by
  obtain ⟨c₁, hc₁⟩ : ∃ c, c = absorb contents (.text (ascii [' ', '-', ' '])) := ⟨_, rfl⟩
  obtain ⟨c₂, hc₂⟩ : ∃ c, c = absorb c₁ (.text l.basename) := ⟨_, rfl⟩
  obtain ⟨c₃, hc₃⟩ : ∃ c, c = absorb c₂ (.text (ascii [':'])) := ⟨_, rfl⟩
  have hbody : l.trailer.foldl absorb contents = absorb c₃ (.integer l.line) := by
    rw [trailer, List.foldl_cons, List.foldl_cons, List.foldl_cons, List.foldl_cons, List.foldl_nil,
      hc₃, hc₂, hc₁]
  have h₁ := length_absorb_text contents (ascii [' ', '-', ' '])
  have h₂ := length_absorb_text c₁ l.basename
  have h₃ := length_absorb_text c₂ (ascii [':'])
  have h₄ := length_absorb_integer c₃ l.line
  rw [← hc₁, show (ascii [' ', '-', ' ']).length = 3 from rfl] at h₁
  rw [← hc₂] at h₂
  rw [← hc₃, show (ascii [':']).length = 1 from rfl] at h₃
  clear hc₁ hc₂ hc₃
  rw [hbody]
  calc 1 < 4000 - (absorb c₃ (.integer l.line)).length
    -- a number ends far from the end of the array
    _ ↔ c₃.length ≤ 3998 := by
      clear h₁ h₂ h₃
      omega
    _ ↔ c₂.length ≤ 3997 := by
      clear h₁ h₂ h₄
      split_ifs at h₃ <;> omega
    _ ↔ NewlineFits contents.length l.basename.length := by
      clear h₃ h₄
      rw [NewlineFits]
      split_ifs at h₁ h₂ <;> omega

/-- The destructor hands over the message, the rest of `finish()`, and the newline if it fits. -/
theorem destroy_spec (l : Logger) (h : l.stream.WF) :
    ∃ body, l.stream.insertAll l.trailer = .ok body ∧
      body.contents = l.trailer.foldl absorb l.stream.contents ∧
      l.destroy = .ok ⟨absorb body.contents newline, decide (l.level = .FATAL)⟩ := by
  obtain ⟨body, hbody, hwf, hcontents⟩ :=
    insertAll_ok h (show ∀ bytes, .fmt bytes ∉ l.trailer by simp [trailer])
  obtain ⟨s, hs, -, hlast⟩ :=
    insertAll_ok hwf (show ∀ bytes, .fmt bytes ∉ [newline] by simp [newline])
  refine ⟨body, hbody, hcontents, ?_⟩
  rw [destroy, finish, insertAll_append, hbody, ok_bind, hs, ok_bind, hlast, List.foldl_cons,
    List.foldl_nil]

theorem insertAll_eq {l₀ l : Logger} {is : List Insertion} (h : l₀.insertAll is = .ok l) :
    ∃ s, l₀.stream.insertAll is = .ok s ∧ l = { l₀ with stream := s } := by
  obtain ⟨s, hs, hl⟩ := bind_eq_ok h
  cases hl
  exact ⟨s, hs, rfl⟩

/-- **A log line is terminated if and only if the newline fits.** Whatever constructor made the
logger and whatever was inserted, `~Logger` hands over the message with the rest of `finish()`, and
the newline behind it exactly for these lengths of the message and of the file name. -/
theorem log_line_terminated {env : Env} {file : List Byte} {line : IntValue} {c : Ctor}
    {is : List Insertion} {l₀ l : Logger} (hcreate : create env file line c = .ok l₀)
    (hinsert : l₀.insertAll is = .ok l) :
    ∃ body, l.stream.insertAll l.trailer = .ok body ∧
      (l.destroy = .ok ⟨body.contents ++ ascii ['\n'], decide (l.level = .FATAL)⟩ ↔
        NewlineFits l.stream.length l.basename.length) := by
  obtain ⟨s, hs, hl⟩ := insertAll_eq hinsert
  have hwf : l.stream.WF := by
    rw [hl]
    exact (insertAll_spec (create_wf hcreate) hs).1
  obtain ⟨body, hbody, hcontents, hdestroy⟩ := destroy_spec l hwf
  refine ⟨body, hbody, ?_⟩
  have hlen : l.stream.contents.length = l.stream.length := hwf.length_contents
  have hroom : newline.Room (kSmallBuffer - body.contents.length) ↔
      NewlineFits l.stream.length l.basename.length := by
    rw [hcontents, newline_fits_iff l _ (hlen ▸ hwf.cur_lt), hlen]
  rw [hdestroy, ← hroom, absorb]
  split
  next hyes => exact iff_of_true rfl hyes
  next hno =>
    refine iff_of_false (fun heq => ?_) hno
    have hout : body.contents = body.contents ++ ascii ['\n'] :=
      congrArg Destroyed.output (Except.ok.inj heq)
    have hlen := congrArg List.length hout
    rw [List.length_append] at hlen
    exact absurd hlen (Nat.ne_of_lt (Nat.lt_add_of_pos_right (by decide)))

theorem absorb_text_full {contents : List Byte} (h : contents.length = 3999) (bytes : List Byte) :
    absorb contents (.text bytes) = contents := by
  rw [absorb_text, h]
  split_ifs with hroom
  · obtain rfl : bytes = [] := List.length_eq_zero_iff.1 (by rw [kSmallBuffer] at hroom; omega)
    rw [List.append_nil]
  · rfl

/-- Nothing of `finish()` is written behind a message that leaves one byte. -/
theorem destroy_full (l : Logger) (h : l.stream.WF) (hfull : l.stream.length = 3999) :
    l.destroy = .ok ⟨l.stream.contents, decide (l.level = .FATAL)⟩ := by
  have hlen : l.stream.contents.length = 3999 := h.length_contents.trans hfull
  have hline : absorb l.stream.contents (.integer l.line) = l.stream.contents :=
    if_neg (by rw [hlen]; exact (by decide : ¬ 32 ≤ 4000 - 3999))
  obtain ⟨body, -, hbody, hdestroy⟩ := destroy_spec l h
  rw [trailer, List.foldl_cons, List.foldl_cons, List.foldl_cons, List.foldl_cons, List.foldl_nil,
    absorb_text_full hlen, absorb_text_full hlen, absorb_text_full hlen, hline] at hbody
  rw [hdestroy, hbody, newline, absorb_text_full hlen]

/-! The lines of a log that prints 38 characters in front of the message. -/

def sampleEnv : Env where
  data := List.replicate kSmallBuffer 0
  data_length := List.length_replicate
  t_time := ascii ['2', '0', '2', '4', '0', '1', '0', '2', ' ',
    '0', '3', ':', '0', '4', ':', '0', '5']
  us := ascii ['.', '0', '0', '0', '0', '0', '6', 'Z', ' ']
  tidString := ascii [' ', '1', '2', '3', '4', ' ']
  strerror _ := []

def sampleFile : List Byte := ascii ['s', '/', 'a', '.', 'c', 'c']

def sampleLine : IntValue := ⟨.int, 7, by decide, by decide⟩

/-- How far a line has come before the message, and after a short one. -/
theorem sample_lengths : ∃ l₀ l, create sampleEnv sampleFile sampleLine .plain = .ok l₀ ∧
    l₀.insertAll [.text (ascii ['h', 'i']), .integer sampleLine] = .ok l ∧
    l₀.stream.cur = 38 ∧ l₀.level = .INFO ∧
    l.stream.cur = 41 ∧ l.level = .INFO ∧ l.basename.length = 4 := by
  have hobs : (create sampleEnv sampleFile sampleLine .plain >>= fun l₀ =>
      (l₀.insertAll [.text (ascii ['h', 'i']), .integer sampleLine]).map fun l =>
        (l₀.stream.cur, l₀.level, l.stream.cur, l.level, l.basename.length)) =
      .ok (38, .INFO, 41, .INFO, 4) := by
    decide +kernel
  obtain ⟨l₀, hcreate, hobs⟩ := bind_eq_ok hobs
  obtain ⟨l, hinsert, hobs⟩ := map_eq_ok hobs
  simp only [Prod.mk.injEq] at hobs
  exact ⟨l₀, l, hcreate, hinsert, hobs⟩

theorem log_line_terminated_sample :
    ∃ l₀ l, create sampleEnv sampleFile sampleLine .plain = .ok l₀ ∧
      l₀.insertAll [.text (ascii ['h', 'i']), .integer sampleLine] = .ok l ∧
      ∃ message, l.destroy = .ok ⟨message ++ ascii ['\n'], false⟩ := by
  obtain ⟨l₀, l, hcreate, hinsert, -, -, hcur, hlevel, hname⟩ := sample_lengths
  obtain ⟨body, -, hiff⟩ := log_line_terminated hcreate hinsert
  have hdestroy := hiff.2 (by
    rw [FixedBuffer.length, hcur, hname]
    decide)
  rw [hlevel] at hdestroy
  exact ⟨l₀, l, hcreate, hinsert, body.contents, hdestroy⟩

/-- A message that leaves one byte: what is handed over ends with its last character, and the next
line of the log follows at once. -/
theorem long_line_unterminated :
    ∃ l₀ l, create sampleEnv sampleFile sampleLine .plain = .ok l₀ ∧
      l₀.insertAll [.text (List.replicate 3961 (chr 'x'))] = .ok l ∧
      ∃ output, l.destroy = .ok ⟨output, false⟩ ∧ output.length = 3999 ∧
        output.getLast? = some (chr 'x') := by
  obtain ⟨l₀, -, hcreate, -, hcur, hlevel, -⟩ := sample_lengths
  obtain ⟨xs, hxs⟩ : ∃ xs, xs = List.replicate 3961 (chr 'x') := ⟨_, rfl⟩
  have hlen : xs.length = 3961 := by rw [hxs, List.length_replicate]
  have hlast : xs.getLast? = some (chr 'x') := by
    rw [hxs, List.getLast?_replicate, if_neg (by decide)]
  rw [← hxs]
  have hwf := create_wf hcreate
  obtain ⟨s, hs, hwf', hcontents⟩ :=
    insertAll_ok hwf (show ∀ bytes, .fmt bytes ∉ [Insertion.text xs] by simp)
  rw [List.foldl_cons, List.foldl_nil, absorb_text, hlen, hwf.length_contents, hcur,
    if_pos (by decide)] at hcontents
  have hfull : s.contents.length = 3999 := by
    rw [hcontents, List.length_append, hlen, hwf.length_contents, hcur]
  have hdestroy := destroy_full { l₀ with stream := s } hwf' (hwf'.length_contents.symm.trans hfull)
  refine ⟨l₀, _, hcreate, by rw [insertAll, hs, ok_bind], s.contents,
    hdestroy.trans (by simp [hlevel]), hfull, ?_⟩
  rw [hcontents, List.getLast?_append, hlast, Option.some_or]

end Logger
end TinyMuduo
