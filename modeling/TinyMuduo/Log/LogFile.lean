import TinyMuduo.Base.Text
import TinyMuduo.Lib.Cut
import TinyMuduo.Lib.Machine
import TinyMuduo.Zone.Utc

/-!
# Log.LogFile

`LogFile`: records are appended to a file, and a new file is opened when the current one is larger
than `rollSize_` or a day is over, but not twice in one second nor when the clock has gone back.

* `time(2)`, `gmtime_r`, the host name and the process id belong to the system. A `Reading` is what
  they say when a name is made; the host name and the id may change between two of them. A `Gmtime`
  tells the instants after 1970 apart by the fields it gives them, up to the last one whose year
  fits into `tm_year`, for which alone `gmtime_r` gives any.
* `fwrite` may take several calls for a record (`counts`). It does not fail: after the first call
  every one takes something, and a file stays within `off_t`.
* `timestamp`, `content`, `closed` and `taken` record the clock in the name of a file, what was
  written to it, the files that were closed, and the readings of the clock in the last call.
-/

namespace TinyMuduo

open Cut

/-- Fields that `strftime` prints with two digits, and a year that is not negative. -/
structure TimeZone.Civil.Proper (tm : TimeZone.Civil) : Prop where
  year : 0 ≤ tm.tm_year + 1900
  mon : 0 ≤ tm.tm_mon ∧ tm.tm_mon ≤ 11
  mday : 1 ≤ tm.tm_mday ∧ tm.tm_mday ≤ 31
  hour : 0 ≤ tm.tm_hour ∧ tm.tm_hour ≤ 23
  min : 0 ≤ tm.tm_min ∧ tm.tm_min ≤ 59
  sec : 0 ≤ tm.tm_sec ∧ tm.tm_sec ≤ 59

/-- The end of the year `2 ^ 31 - 1 + 1900`. -/
def lastInstant : Int := 67768036191676799

/-- An instant for which `gmtime_r` does not fail. `time(2)` gives no later ones: the clock of the
system counts nanoseconds in 64 bits. -/
def InTime (t : Int) : Prop := 0 < t ∧ t ≤ lastInstant

instance (t : Int) : Decidable (InTime t) := inferInstanceAs (Decidable (_ ∧ _))

structure Gmtime where
  gmtime_r : Int → TimeZone.Civil
  proper : ∀ t, InTime t → (gmtime_r t).Proper
  injective : ∀ t t', InTime t → InTime t' → gmtime_r t = gmtime_r t' → t = t'

namespace LogFile

structure Config where
  basename : List Char
  rollSize : Nat
  flushInterval : Int
  gmtime : Gmtime

structure Reading where
  now : Int
  hostname : List Char
  pid : Nat
  /-- whether `fopen` succeeds -/
  opens : Bool

structure File where
  filename : List Char
  timestamp : Int
  content : List Byte
  writtenBytes : Nat

inductive Fault where
  /-- `assert(fp_)` -/
  | fopen
  /-- `file_` is null. -/
  | nullFile
  deriving DecidableEq, Repr

def kCheckTimeRoll : Nat := 1024

def kRollPerSeconds : Int := 60 * 60 * 24

/-- `strftime(timebuf, sizeof timebuf, ".%Y%m%d-%H%M%S.", &tm)`. The text fits into 32 bytes, as an
`int` has ten digits at most. -/
def strftime (tm : TimeZone.Civil) : List Char :=
  '.' :: decimal (tm.tm_year + 1900).toNat ++ twoDigits (tm.tm_mon + 1).toNat ++
    twoDigits tm.tm_mday.toNat ++ '-' :: (twoDigits tm.tm_hour.toNat ++ twoDigits tm.tm_min.toNat ++
    twoDigits tm.tm_sec.toNat ++ ['.'])

def getLogFileName (cfg : Config) (r : Reading) : List Char :=
  cfg.basename ++ (strftime (cfg.gmtime.gmtime_r r.now) ++
    (r.hostname ++ ('.' :: decimal r.pid ++ ['.', 'l', 'o', 'g'])))

namespace File

/-- `fwrite` of `bytes` that takes `x` of them. -/
def write (f : File) (bytes : List Byte) (x : Nat) : File :=
  { f with content := f.content ++ bytes.take x }

/-- The loop of `append`; `remain` is what was not taken yet. -/
def writeLoop (f : File) : List Nat → List Byte → File
  | [], _ => f
  | x :: xs, remain =>
    if remain = [] then f
    else if x = 0 then f
    else writeLoop (f.write remain x) xs (remain.drop x)

def append (f : File) (logline : List Byte) (counts : List Nat) : File :=
  let n := counts.headD 0
  let f := (f.write logline n).writeLoop counts.tail (logline.drop n)
  { f with writtenBytes := (f.writtenBytes + logline.length) % 2 ^ 64 }

end File

end LogFile

open LogFile in
structure LogFile where
  count : Nat
  startOfPeriod : Int
  lastRoll : Int
  lastFlush : Int
  file : Option File
  closed : List File
  taken : List Int

namespace LogFile

/-- All files, in the order in which they were opened. -/
def files (s : LogFile) : List File := s.closed ++ s.file.toList

def rollFile (cfg : Config) (s : LogFile) (r : Reading) : Except Fault LogFile :=
  let filename := getLogFileName cfg r
  let start := r.now.tdiv kRollPerSeconds * kRollPerSeconds
  let s := { s with taken := s.taken ++ [r.now] }
  if r.now > s.lastRoll then
    if r.opens then
      .ok { s with
        lastRoll := r.now, lastFlush := r.now, startOfPeriod := start,
        closed := s.files, file := some ⟨filename, r.now, [], 0⟩ }
    else
      .error .fopen
  else
    .ok s

/-- The constructor. -/
def create (cfg : Config) (r : Reading) : Except Fault LogFile :=
  rollFile cfg ⟨0, 0, 0, 0, none, [], []⟩ r

/-- A call of `append`, with what `fwrite` and the clock return: `now` when the day is checked, and
`roll` when `rollFile` is called. -/
structure Call where
  logline : List Byte
  counts : List Nat
  now : Int
  roll : Reading

def append_unlocked (cfg : Config) (s : LogFile) (c : Call) : Except Fault LogFile :=
  match s.file with
  | none => .error .nullFile
  | some f =>
    let f := f.append c.logline c.counts
    let s := { s with file := some f, taken := [] }
    if f.writtenBytes > cfg.rollSize then
      s.rollFile cfg c.roll
    else if s.count > kCheckTimeRoll then
      let s := { s with count := 0, taken := [c.now] }
      let thisPeriod := c.now.tdiv kRollPerSeconds * kRollPerSeconds
      if thisPeriod ≠ s.startOfPeriod then
        s.rollFile cfg c.roll
      else if c.now - s.lastFlush > cfg.flushInterval then
        .ok { s with lastFlush := c.now }
      else
        .ok s
    else
      .ok { s with count := s.count + 1 }

/-- The system does its part: the clock is positive, and neither `gmtime_r` nor `fwrite` fails. -/
structure Enabled (s : LogFile) (c : Call) : Prop where
  now : 0 < c.now
  roll : InTime c.roll.now
  counts : c.counts.sum = c.logline.length ∧ ∀ x ∈ c.counts.tail, 0 < x
  fits : ∀ f ∈ s.file, f.content.length + c.logline.length < 2 ^ 63

instance (s : LogFile) (c : Call) : Decidable (s.Enabled c) :=
  decidable_of_iff (0 < c.now ∧ InTime c.roll.now ∧
      (c.counts.sum = c.logline.length ∧ ∀ x ∈ c.counts.tail, 0 < x) ∧
      ∀ f ∈ s.file, f.content.length + c.logline.length < 2 ^ 63)
    ⟨fun ⟨h₁, h₂, h₃, h₄⟩ => ⟨h₁, h₂, h₃, h₄⟩, fun h => ⟨h.now, h.roll, h.counts, h.fits⟩⟩

end LogFile

open LogFile in
def logFile (cfg : Config) : Machine LogFile Call Fault where
  enabled := Enabled
  exec := append_unlocked cfg

instance (cfg : LogFile.Config) (s : LogFile) (c : LogFile.Call) :
    Decidable ((logFile cfg).enabled s c) := inferInstanceAs (Decidable (s.Enabled c))

namespace LogFile

/-! ## Names -/

theorem not_mem_date {tm : TimeZone.Civil} (h : tm.Proper) :
    '-' ∉ decimal (tm.tm_year + 1900).toNat ++ twoDigits (tm.tm_mon + 1).toNat ++
      twoDigits tm.tm_mday.toNat := by
  obtain ⟨-, hmon, hmday, -, -, -⟩ := h
  have hdash : ¬ Char.isDigit '-' = true := by decide
  simp only [List.mem_append, not_or]
  exact ⟨⟨fun h => hdash (isDigit_of_mem_decimal h),
    fun h => hdash (isDigit_of_mem_twoDigits (by omega) h)⟩,
    fun h => hdash (isDigit_of_mem_twoDigits (by omega) h)⟩

theorem eq_of_toNat_eq {a b : Int} (ha : 0 ≤ a) (hb : 0 ≤ b) (h : a.toNat = b.toNat) : a = b := by
  rw [← Int.toNat_of_nonneg ha, h, Int.toNat_of_nonneg hb]

/-- The fields can be read off a text that begins with them. -/
theorem strftime_inj {tm tm' : TimeZone.Civil} (h : tm.Proper) (h' : tm'.Proper)
    {rest rest' : List Char} (heq : strftime tm ++ rest = strftime tm' ++ rest') : tm = tm' := by
  simp only [strftime, List.cons_append, List.append_assoc, List.cons.injEq, true_and] at heq
  simp only [← List.append_assoc (decimal _), ← List.append_assoc (_ ++ _)] at heq
  obtain ⟨hdate, htime⟩ := append_cons_inj (not_mem_date h) (not_mem_date h') heq
  obtain ⟨hy, hmon, hmday, hhour, hmin, hsec⟩ := h
  obtain ⟨hy', hmon', hmday', hhour', hmin', hsec'⟩ := h'
  -- the date ends with four digits
  rw [List.append_assoc, List.append_assoc] at hdate
  obtain ⟨hyears, hdate⟩ := List.append_inj' hdate rfl
  obtain ⟨hmons, hdate⟩ := twoDigits_append_inj (by omega) (by omega) hdate
  have hmdays := twoDigits_inj (by omega) (by omega) hdate
  obtain ⟨hhours, htime⟩ := twoDigits_append_inj (by omega) (by omega) htime
  obtain ⟨hmins, htime⟩ := twoDigits_append_inj (by omega) (by omega) htime
  obtain ⟨hsecs, -⟩ := twoDigits_append_inj (by omega) (by omega) htime
  have hyear := eq_of_toNat_eq hy hy' (decimal_inj hyears)
  have hmonth := eq_of_toNat_eq (Int.le_add_one hmon.1) (Int.le_add_one hmon'.1) hmons
  have hday := eq_of_toNat_eq (Int.le_of_lt hmday.1) (Int.le_of_lt hmday'.1) hmdays
  cases tm
  cases tm'
  rw [TimeZone.Civil.mk.injEq]
  exact ⟨eq_of_toNat_eq hsec.1 hsec'.1 hsecs, eq_of_toNat_eq hmin.1 hmin'.1 hmins,
    eq_of_toNat_eq hhour.1 hhour'.1 hhours, hday, (Int.add_left_inj 1).1 hmonth,
    (Int.add_left_inj 1900).1 hyear⟩

theorem getLogFileName_inj {cfg : Config} {r r' : Reading} (h : InTime r.now) (h' : InTime r'.now)
    (heq : getLogFileName cfg r = getLogFileName cfg r') : r.now = r'.now := by
  have hstamp := List.append_cancel_left heq
  exact cfg.gmtime.injective _ _ h h'
    (strftime_inj (cfg.gmtime.proper _ h) (cfg.gmtime.proper _ h') hstamp)

/-! ## Writing a record -/

theorem File.writeLoop_eq {f : File} {xs : List Nat} {remain : List Byte}
    (hsum : xs.sum = remain.length) (hpos : ∀ x ∈ xs, 0 < x) :
    f.writeLoop xs remain = { f with content := f.content ++ remain } := by
  induction xs generalizing f remain with
  | nil =>
    obtain rfl := List.length_eq_zero_iff.1 hsum.symm
    rw [writeLoop, List.append_nil]
  | cons x xs ih =>
    have hx : 0 < x := hpos x List.mem_cons_self
    rw [List.sum_cons] at hsum
    have hne : remain ≠ [] := by
      rintro rfl
      rw [List.length_nil] at hsum
      omega
    rw [writeLoop, if_neg hne, if_neg hx.ne', ih (by rw [List.length_drop]; omega)
      fun y hy => hpos y (List.mem_cons_of_mem _ hy), write, List.append_assoc,
      List.take_append_drop]

theorem File.append_eq {f : File} {logline : List Byte} {counts : List Nat}
    (hsum : counts.sum = logline.length) (hpos : ∀ x ∈ counts.tail, 0 < x) :
    f.append logline counts = { f with
      content := f.content ++ logline
      writtenBytes := (f.writtenBytes + logline.length) % 2 ^ 64 } := by
  have htail : counts.tail.sum = (logline.drop (counts.headD 0)).length := by
    rw [List.length_drop, ← hsum]
    cases counts with
    | nil => rfl
    | cons x xs => simp
  rw [append, writeLoop_eq htail hpos, write]
  simp only [List.append_assoc, List.take_append_drop]

/-! ## Runs -/

/-- The current file is the last one, and knows its size. The files have the records in order. -/
structure Inv (cfg : Config) (calls : List Call) (s : LogFile) : Prop where
  current : ∃ f, s.file = some f ∧ f.timestamp = s.lastRoll ∧ f.content.length < 2 ^ 63 ∧
    f.writtenBytes = f.content.length
  ordered : s.files.Pairwise fun f g => f.timestamp < g.timestamp
  named : ∀ f ∈ s.files, ∃ r : Reading, InTime r.now ∧ r.now = f.timestamp ∧
    f.filename = getLogFileName cfg r
  content : s.files.flatMap File.content = calls.flatMap Call.logline

/-- What `append` does: the record stands at the end of the file that was current, and a file that
was opened after it is empty. -/
structure Appended (cfg : Config) (s : LogFile) (c : Call) (s' : LogFile) : Prop where
  written : ∃ f g tail, s.file = some f ∧ s'.files = s.closed ++ g :: tail ∧
    g.filename = f.filename ∧ g.content = f.content ++ c.logline ∧ ∀ h ∈ tail, h.content = []
  rolled : ∃ f, s'.file = some f ∧
    (f.content.length ≤ cfg.rollSize ∨ ∃ t ∈ s'.taken, t ≤ f.timestamp)

variable {cfg : Config} {calls : List Call} {s : LogFile} {r : Reading}

theorem Inv.of_eq {s' : LogFile} (h : Inv cfg calls s) (hfile : s'.file = s.file)
    (hclosed : s'.closed = s.closed) (hlast : s'.lastRoll = s.lastRoll) : Inv cfg calls s' := by
  have hfiles : s'.files = s.files := by rw [files, files, hfile, hclosed]
  exact ⟨by rw [hfile, hlast]; exact h.current, hfiles ▸ h.ordered, hfiles ▸ h.named,
    hfiles ▸ h.content⟩

theorem files_eq {f : File} (h : s.file = some f) : s.files = s.closed ++ [f] := by
  rw [files, h, Option.toList_some]

/-- No file is newer than the current one. -/
theorem Inv.timestamp_le (h : Inv cfg calls s) : ∀ f ∈ s.files, f.timestamp ≤ s.lastRoll := by
  obtain ⟨f, hf, hlast, -⟩ := h.current
  have hord := h.ordered
  rw [files_eq hf, List.pairwise_append] at hord
  intro g hg
  rw [files_eq hf, List.mem_append, List.mem_singleton] at hg
  rcases hg with hg | rfl
  · exact (hlast ▸ hord.2.2 g hg f List.mem_cons_self).le
  · exact hlast.le

theorem Inv.opened (h : Inv cfg calls s) (hr : InTime r.now) (hnow : s.lastRoll < r.now)
    {s' : LogFile} (hfile : s'.file = some ⟨getLogFileName cfg r, r.now, [], 0⟩)
    (hclosed : s'.closed = s.files) (hlast : s'.lastRoll = r.now) : Inv cfg calls s' := by
  have hfiles := files_eq hfile
  rw [hclosed] at hfiles
  refine ⟨⟨_, hfile, hlast.symm, Nat.two_pow_pos 63, rfl⟩, ?_, ?_, ?_⟩
  · rw [hfiles, List.pairwise_append]
    refine ⟨h.ordered, List.pairwise_singleton _ _, fun f hf g hg => ?_⟩
    rw [List.mem_singleton.1 hg]
    exact (h.timestamp_le f hf).trans_lt hnow
  · intro f hf
    rw [hfiles, List.mem_append, List.mem_singleton] at hf
    rcases hf with hf | rfl
    · exact h.named f hf
    · exact ⟨r, hr, rfl, rfl⟩
  · rw [hfiles, List.flatMap_append, List.flatMap_singleton, List.append_nil, h.content]

/-- `rollFile` opens a file, or keeps the current one when the clock is not past it. -/
theorem Inv.rollFile (h : Inv cfg calls s) (hr : InTime r.now) :
    (r.opens = false ∧ s.rollFile cfg r = .error .fopen) ∨
    ∃ s' f tail, s.rollFile cfg r = .ok s' ∧ Inv cfg calls s' ∧ s'.file = some f ∧
      s'.files = s.files ++ tail ∧ (∀ g ∈ tail, g.content = []) ∧
      (f.content = [] ∨ ∃ t ∈ s'.taken, t ≤ f.timestamp) := by
  obtain ⟨f, hf, hlast, -⟩ := h.current
  rw [LogFile.rollFile]
  by_cases hnow : r.now > s.lastRoll
  · rw [if_pos hnow]
    cases hopens : r.opens with
    | false => exact Or.inl ⟨rfl, rfl⟩
    | true =>
      refine Or.inr ⟨_, _, _, rfl, h.opened hr hnow rfl rfl rfl, rfl, files_eq rfl, ?_, Or.inl rfl⟩
      intro g hg
      rw [List.mem_singleton.1 hg]
  · rw [if_neg hnow]
    refine Or.inr ⟨_, f, [], rfl, h.of_eq rfl rfl rfl, hf, (List.append_nil _).symm, ?_, Or.inr ?_⟩
    · intro g hg
      cases hg
    · exact ⟨r.now, List.mem_append_right _ List.mem_cons_self, hlast ▸ not_lt.1 hnow⟩

/-- The record is written to the current file. -/
theorem Inv.written (h : Inv cfg calls s) {c : Call} (he : s.Enabled c) {f : File}
    (hf : s.file = some f) {s' : LogFile} (hfile : s'.file = some (f.append c.logline c.counts))
    (hclosed : s'.closed = s.closed) (hlast : s'.lastRoll = s.lastRoll) :
    Inv cfg (calls ++ [c]) s' := by
  obtain ⟨f₀, hf₀, hstamp, hlen, hbytes⟩ := h.current
  cases hf.symm.trans hf₀
  have hfits := he.fits f hf
  rw [File.append_eq he.counts.1 he.counts.2] at hfile
  have hfiles := files_eq hfile
  have hold := files_eq hf
  rw [hclosed] at hfiles
  refine ⟨⟨_, hfile, hlast ▸ hstamp, ?_, ?_⟩, ?_, ?_, ?_⟩
  · show (f.content ++ c.logline).length < 2 ^ 63
    rw [List.length_append]
    exact hfits
  · show (f.writtenBytes + c.logline.length) % 2 ^ 64 = (f.content ++ c.logline).length
    rw [List.length_append, hbytes, Nat.mod_eq_of_lt (hfits.trans (by decide))]
  · have hord := h.ordered
    rw [hold, List.pairwise_append] at hord
    rw [hfiles, List.pairwise_append]
    refine ⟨hord.1, List.pairwise_singleton _ _, fun g hg g' hg' => ?_⟩
    rw [List.mem_singleton.1 hg']
    exact hord.2.2 g hg f List.mem_cons_self
  · intro g hg
    rw [hfiles, List.mem_append, List.mem_singleton] at hg
    rcases hg with hg | rfl
    · exact h.named g (by rw [hold]; exact List.mem_append_left _ hg)
    · exact h.named f (by rw [hold]; exact List.mem_append_right _ List.mem_cons_self)
  · have hcontent := h.content
    rw [hold, List.flatMap_append, List.flatMap_singleton] at hcontent
    rw [hfiles, List.flatMap_append, List.flatMap_singleton, List.flatMap_append,
      List.flatMap_singleton, ← hcontent, List.append_assoc]

section Append

variable {c : Call} {f f' : File} {s' : LogFile} {tail : List File}

theorem appended_of (he : s.Enabled c) (hf : s.file = some f) (hfile : s'.file = some f')
    (hfiles : s'.files = s.closed ++ [f.append c.logline c.counts] ++ tail)
    (htail : ∀ g ∈ tail, g.content = [])
    (hrolled : f'.content.length ≤ cfg.rollSize ∨ ∃ t ∈ s'.taken, t ≤ f'.timestamp) :
    Appended cfg s c s' := by
  rw [List.append_assoc, List.singleton_append, File.append_eq he.counts.1 he.counts.2] at hfiles
  exact ⟨⟨f, _, tail, hf, hfiles, rfl, rfl, htail⟩, f', hfile, hrolled⟩

/-- The file that has the record is small enough, or the day is not over. -/
theorem appended_of_kept (he : s.Enabled c) (hf : s.file = some f) (h : Inv cfg calls s')
    (hfile : s'.file = some (f.append c.logline c.counts)) (hclosed : s'.closed = s.closed)
    (hle : ¬ (f.append c.logline c.counts).writtenBytes > cfg.rollSize) : Appended cfg s c s' := by
  obtain ⟨f', hf', -, -, hbytes⟩ := h.current
  cases hfile.symm.trans hf'
  have hfiles : s'.files = s.closed ++ [f.append c.logline c.counts] ++ [] := by
    rw [files_eq hfile, hclosed, List.append_nil]
  exact appended_of he hf hfile hfiles (fun g hg => by cases hg) (Or.inl (hbytes ▸ not_lt.1 hle))

theorem appended_of_rollFile (he : s.Enabled c) (hf : s.file = some f) (h : Inv cfg calls s')
    (hfiles : s'.files = s.closed ++ [f.append c.logline c.counts]) :
    (c.roll.opens = false ∧ s'.rollFile cfg c.roll = .error .fopen) ∨
    ∃ s'', s'.rollFile cfg c.roll = .ok s'' ∧ Inv cfg calls s'' ∧ Appended cfg s c s'' := by
  rcases h.rollFile he.roll with herr | ⟨s'', f', tail, hx, hinv, hf', htail, hempty, ht⟩
  · exact Or.inl herr
  · refine Or.inr ⟨s'', hx, hinv, appended_of he hf hf' (hfiles ▸ htail) hempty (ht.imp_left ?_)⟩
    intro hnil
    rw [hnil]
    exact Nat.zero_le _

theorem append_unlocked_spec (h : Inv cfg calls s) (he : s.Enabled c) :
    (c.roll.opens = false ∧ append_unlocked cfg s c = .error .fopen) ∨
    ∃ s', append_unlocked cfg s c = .ok s' ∧ Inv cfg (calls ++ [c]) s' ∧ Appended cfg s c s' := by
  obtain ⟨f, hf, -⟩ := h.current
  -- whichever counters change, the record is in the file
  have hinv : ∀ count lastFlush taken, Inv cfg (calls ++ [c])
      { s with count, lastFlush, taken, file := some (f.append c.logline c.counts) } :=
    fun _ _ _ => h.written he hf rfl rfl rfl
  rw [append_unlocked, hf]
  dsimp only
  split
  next => exact appended_of_rollFile he hf (hinv _ _ _) (files_eq rfl)
  next hle =>
    split
    next =>
      split
      next => exact appended_of_rollFile he hf (hinv _ _ _) (files_eq rfl)
      next =>
        split
        next => exact Or.inr ⟨_, rfl, hinv _ _ _, appended_of_kept he hf (hinv _ _ _) rfl rfl hle⟩
        next => exact Or.inr ⟨_, rfl, hinv _ _ _, appended_of_kept he hf (hinv _ _ _) rfl rfl hle⟩
    next => exact Or.inr ⟨_, rfl, hinv _ _ _, appended_of_kept he hf (hinv _ _ _) rfl rfl hle⟩

end Append

theorem create_inv (hr : InTime r.now) (h : create cfg r = .ok s) : Inv cfg [] s := by
  rw [create, LogFile.rollFile, if_pos hr.1] at h
  split at h
  · cases h
    refine ⟨⟨_, rfl, rfl, Nat.two_pow_pos 63, rfl⟩, List.pairwise_singleton _ _, ?_, rfl⟩
    intro f hf
    cases List.mem_singleton.1 hf
    exact ⟨r, hr, rfl, rfl⟩
  · cases h

theorem Inv.distinct (h : Inv cfg calls s) :
    s.files.Pairwise fun f g => f.timestamp < g.timestamp ∧ f.filename ≠ g.filename := by
  refine h.ordered.imp_of_mem fun {f g} hf hg hlt => ⟨hlt, fun heq => ?_⟩
  obtain ⟨r, hr, hrf, hname⟩ := h.named f hf
  obtain ⟨r', hr', hrg, hname'⟩ := h.named g hg
  have hnow := getLogFileName_inj hr hr' (hname.symm.trans (heq.trans hname'))
  omega

/-- **Rolling loses and mixes nothing.** Whatever the clock says, over any calls of `append`: the
files have increasing timestamps and different names, and together they have the records in order.
The next record goes to the current file as a whole. After it the current file is at most
`rollSize_` bytes long, or the clock was not past the file's timestamp. -/
theorem rolling_keeps_records (cfg : Config) {r : Reading} (hr : InTime r.now) {s₀ s : LogFile}
    (hcreate : create cfg r = .ok s₀) {calls : List Call} (hrun : (logFile cfg).Run s₀ calls s) :
    (s.files.Pairwise fun f g => f.timestamp < g.timestamp ∧ f.filename ≠ g.filename) ∧
    s.files.flatMap File.content = calls.flatMap Call.logline ∧
    ∀ c, s.Enabled c →
      (c.roll.opens = false ∧ append_unlocked cfg s c = .error .fopen) ∨
      ∃ s', append_unlocked cfg s c = .ok s' ∧ Appended cfg s c s' := by
  have hstep : ∀ calls s c s', Inv cfg calls s → (logFile cfg).enabled s c →
      (logFile cfg).exec s c = .ok s' → Inv cfg (calls ++ [c]) s' := by
    intro calls s c s' h he hx
    rcases append_unlocked_spec h he with ⟨-, herr⟩ | ⟨s₁, hx₁, h₁, -⟩
    · cases herr.symm.trans hx
    · cases hx₁.symm.trans hx
      exact h₁
  have h : Inv cfg calls s := hrun.keeps_trace hstep (create_inv hr hcreate)
  exact ⟨h.distinct, h.content, fun c he => (append_unlocked_spec h he).imp_right
    fun ⟨s', hx, _, happ⟩ => ⟨s', hx, happ⟩⟩

/-- The date of an instant after 1970. -/
noncomputable def dateOf {t : Int} (h : 0 < t) : CivilDate := (TimeZone.exists_date h).choose

theorem dateOf_spec {t : Int} (h : 0 < t) :
    CivilDate.newYear 1970 ≤ dateOf h ∧ julianDay (dateOf h) = TimeZone.dayOf t :=
  (TimeZone.exists_date h).choose_spec

theorem proper_broken {t : Int} (h : 0 < t) : (TimeZone.broken t (dateOf h) false).Proper := by
  have hyear : 1970 ≤ (dateOf h).year := by
    by_contra hlt
    exact not_lt.2 (dateOf_spec h).1 (CivilDate.lt_iff.2 (Or.inl (not_le.1 hlt)))
  have hpos := (dateOf h).month_pos
  have hle := (dateOf h).month_le
  have hday := (dateOf h).day_pos
  have hday' := (dateOf h).day_le.trans (Calendar.daysInMonth_le _ _)
  constructor <;> dsimp only [TimeZone.broken] <;> omega

/-- `gmtime_r` in the Gregorian calendar. -/
noncomputable def gregorian : Gmtime where
  gmtime_r t :=
    if h : 0 < t then (TimeZone.broken t (dateOf h) false).toCivil else TimeZone.zeroed.toCivil
  proper t h := by
    rw [dif_pos h.1]
    exact proper_broken h.1
  injective t t' ht ht' heq := by
    have h := ht.1
    have h' := ht'.1
    rw [dif_pos h, dif_pos h'] at heq
    have hfields : (TimeZone.broken t (dateOf h) false).fields =
        (TimeZone.broken t' (dateOf h') false).fields := by
      simp only [TimeZone.UtcTm.fields, heq]
    rcases lt_trichotomy t t' with hlt | heq | hgt
    · exact absurd hfields (TimeZone.fields_lt (dateOf_spec h).2 (dateOf_spec h').2 hlt).ne
    · exact heq
    · exact absurd hfields (TimeZone.fields_lt (dateOf_spec h').2 (dateOf_spec h).2 hgt).ne'

/-- Files of three bytes. The second record makes the file too large in the second of its opening,
so that the third one goes there too. -/
def small (gmtime : Gmtime) : Config := ⟨['l', 'o', 'g'], 3, 3, gmtime⟩

def at5 : Reading := ⟨5, ['h'], 1, true⟩

theorem rolling_keeps_records_sample :
    ∃ s₀ s, create (small gregorian) at5 = .ok s₀ ∧
      (logFile (small gregorian)).Run s₀
        [⟨[1, 2], [2], 5, at5⟩, ⟨[3, 4], [1, 1], 5, at5⟩, ⟨[5], [1], 5, ⟨6, ['h'], 1, true⟩⟩,
          ⟨[6], [1], 6, at5⟩] s ∧
      s.files.map File.content = [[1, 2, 3, 4, 5], [6]] ∧
      s.files.Pairwise fun f g => f.timestamp < g.timestamp ∧ f.filename ≠ g.filename := by
  obtain ⟨s, hrun, hobs⟩ := Machine.Run.of_replay (logFile (small gregorian))
    ⟨0, 0, 5, 5, some ⟨getLogFileName (small gregorian) at5, 5, [], 0⟩, [], [5]⟩
    [⟨[1, 2], [2], 5, at5⟩, ⟨[3, 4], [1, 1], 5, at5⟩, ⟨[5], [1], 5, ⟨6, ['h'], 1, true⟩⟩,
      ⟨[6], [1], 6, at5⟩]
    (fun s => s.files.map File.content) [[1, 2, 3, 4, 5], [6]] (by decide +kernel)
  have hpos : InTime at5.now := by decide
  exact ⟨_, s, rfl, hrun, hobs, (rolling_keeps_records (small gregorian) hpos rfl hrun).1⟩

end LogFile
end TinyMuduo
