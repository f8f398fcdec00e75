import Mathlib.Data.List.TakeWhile
import TinyMuduo.Log.Model

/-!
# Log.Async

No line is lost on its way from `append` to the `LogFile`, and none overtakes another.

`Inv` ties the buffers together. What was appended is, in order, what was swapped out, what is in
`buffers_` and what is in `currentBuffer_`; what is written and what is still to be written is what
was kept of the batches. `nextBuffer_` is null only while `buffers_` is not empty; so a batch from
which `newBuffer2` is to be refilled holds two buffers.

`stop` clears `running_`, and the thread looks at it at the head of its loop only. What is appended
after the last swap is never written (`stop_loses_lines`); `stop_flushes` says when nothing is lost.
-/

namespace TinyMuduo.AsyncLogging

open Result

/-- The data written, without the notices. -/
def written (s : AsyncLogging) : List Byte :=
  s.output.flatMap fun
    | .notice _ => []
    | .data bytes => bytes

def notices (s : AsyncLogging) : List Nat :=
  s.output.filterMap fun
    | .notice n => some n
    | .data _ => none

/-- The part of `buffersToWrite` that is not written yet. -/
def pending (s : AsyncLogging) : List LogBuffer :=
  match s.pc with
  | .swapped => s.buffersToWrite
  | .writing i => s.buffersToWrite.drop i
  | _ => []

/-- The batch that was swapped out, before the rule of more than 25 buffers is applied to it. -/
def unjudged (s : AsyncLogging) : List LogBuffer :=
  match s.pc with
  | .swapped => s.buffersToWrite
  | _ => []

/-- The buffers a batch gives back are enough for what is to be refilled. -/
def Refillable (newBuffer1 newBuffer2 : Option LogBuffer) (batch : List LogBuffer) : Prop :=
  newBuffer1 = none ∧ batch ≠ [] ∧
    (newBuffer2 = some [] ∨ newBuffer2 = none ∧ 2 ≤ batch.length)

/-- The variables of the logging thread. -/
def Local (s : AsyncLogging) : Prop :=
  match s.pc with
  | .created => s.buffersToWrite = []
  | .begun => s.buffersToWrite = [] ∧ s.running = true
  | .swapped => Refillable s.newBuffer1 s.newBuffer2 s.buffersToWrite
  | .writing i => Refillable s.newBuffer1 s.newBuffer2 s.buffersToWrite ∧
      i ≤ s.buffersToWrite.length
  | .refill => Refillable s.newBuffer1 s.newBuffer2 s.buffersToWrite
  | _ => s.newBuffer1 = some [] ∧ s.newBuffer2 = some [] ∧ s.buffersToWrite = []

structure Inv (s : AsyncLogging) : Prop where
  current : ∃ current, s.currentBuffer = some current ∧
    s.lines.flatten = (s.batches.flatten ++ s.unjudged ++ s.buffers).flatten ++ current
  next : s.nextBuffer = some [] ∨ s.nextBuffer = none ∧ s.buffers ≠ []
  kept : s.written ++ s.pending.flatten = (s.batches.flatMap keep ++ s.unjudged).flatten
  announced : s.notices =
    (s.batches.filter fun batch => 25 < batch.length).map fun batch => batch.length - 2
  thread : s.Local

theorem init_inv : init.Inv where
  current := ⟨[], rfl, rfl⟩
  next := Or.inl rfl
  kept := rfl
  announced := rfl
  thread := rfl

/-! ## `append` -/

theorem appendTo_fits {b : LogBuffer} {line : List Byte} (h : line.length < avail b) :
    appendTo b line = b ++ line := if_pos h

theorem Inv.append {s : AsyncLogging} {line : List Byte} (h : s.Inv)
    (hline : line.length < kLargeBuffer) : ∃ s', s.append line = .ok s' ∧ s'.Inv := by
  obtain ⟨current, hcurrent, hlines⟩ := h.current
  unfold AsyncLogging.append
  rw [hcurrent]
  by_cases hfits : line.length < avail current
  · simp only [if_pos hfits, appendTo_fits hfits]
    refine ⟨_, rfl, ⟨current ++ line, rfl, ?_⟩, h.next, h.kept, h.announced, h.thread⟩
    show (s.lines ++ [line]).flatten =
      (s.batches.flatten ++ s.unjudged ++ s.buffers).flatten ++ (current ++ line)
    rw [List.flatten_append, hlines, List.flatten_singleton, List.append_assoc]
  · simp only [if_neg hfits]
    -- the buffer moved in is empty, so the line fits
    have hnext : s.nextBuffer.getD [] = [] := by
      rcases h.next with hn | ⟨hn, _⟩ <;> rw [hn] <;> rfl
    have hempty : appendTo [] line = line := appendTo_fits (by simpa [avail] using hline)
    refine ⟨_, rfl, ⟨line, by rw [hnext, hempty], ?_⟩, Or.inr ⟨rfl, by simp⟩, h.kept, h.announced,
      h.thread⟩
    show (s.lines ++ [line]).flatten =
      (s.batches.flatten ++ s.unjudged ++ (s.buffers ++ [current])).flatten ++ line
    rw [List.flatten_append, hlines]
    simp

/-! ## The logging thread -/

section Steps

variable {s : AsyncLogging}

theorem swap_spec {current : LogBuffer} (h : s.currentBuffer = some current) :
    s.swap = .ok { s with
      currentBuffer := s.newBuffer1
      newBuffer1 := none
      buffersToWrite := s.buffers ++ [current]
      buffers := s.buffersToWrite
      nextBuffer := if s.nextBuffer = none then s.newBuffer2 else s.nextBuffer
      newBuffer2 := if s.nextBuffer = none then none else s.newBuffer2
      pc := .swapped } := by
  rw [swap, h]

theorem Inv.swap (h : s.Inv) (hnew : s.newBuffer1 = some [] ∧ s.newBuffer2 = some [] ∧
      s.buffersToWrite = []) (hunjudged : s.unjudged = []) (hpending : s.pending = []) :
    ∃ s', s.swap = .ok s' ∧ s'.Inv := by
  obtain ⟨current, hcurrent, hlines⟩ := h.current
  obtain ⟨hnew1, hnew2, hempty⟩ := hnew
  have hkept := h.kept
  rw [hunjudged, List.append_nil] at hlines hkept
  rw [hpending, List.flatten_nil, List.append_nil] at hkept
  refine ⟨_, swap_spec hcurrent, ⟨[], hnew1, ?_⟩, ?_, ?_, h.announced, ?_⟩
  · show s.lines.flatten =
      (s.batches.flatten ++ (s.buffers ++ [current]) ++ s.buffersToWrite).flatten ++ []
    rw [hempty, hlines]
    simp
  · rcases h.next with hn | ⟨hn, _⟩
    · exact Or.inl (by rw [if_neg (by rw [hn]; nofun), hn])
    · exact Or.inl (by rw [if_pos hn, hnew2])
  · show s.written ++ (s.buffers ++ [current]).flatten =
      (s.batches.flatMap keep ++ (s.buffers ++ [current])).flatten
    rw [hkept, ← List.flatten_append]
  · -- the batch holds a second buffer when `nextBuffer_` had to be replaced
    refine ⟨rfl, by simp, ?_⟩
    rcases h.next with hn | ⟨hn, hfull⟩
    · exact Or.inl ((if_neg (by rw [hn]; nofun)).trans hnew2)
    · refine Or.inr ⟨if_pos hn, ?_⟩
      have := List.length_pos_iff.2 hfull
      simp only [List.length_append, List.length_singleton]
      omega

theorem Refillable.keep {new1 new2 : Option LogBuffer} {batch : List LogBuffer}
    (h : Refillable new1 new2 batch) : Refillable new1 new2 (keep batch) := by
  unfold AsyncLogging.keep
  split
  next hmany =>
    have hlen : (batch.take 2).length = 2 := by simp; omega
    refine ⟨h.1, List.length_pos_iff.1 (by omega), h.2.2.imp_right ?_⟩
    exact fun ⟨hnull, _⟩ => ⟨hnull, Nat.le_of_eq hlen.symm⟩
  · exact h

theorem Refillable.take {new1 new2 : Option LogBuffer} {batch : List LogBuffer}
    (h : Refillable new1 new2 batch) : Refillable new1 new2 (batch.take 2) := by
  obtain ⟨hnull, hne, h2⟩ := h
  have hpos := List.length_pos_iff.2 hne
  refine ⟨hnull, List.length_pos_iff.1 (by simp; omega), h2.imp_right ?_⟩
  rintro ⟨hnull2, hlen⟩
  exact ⟨hnull2, by simp; omega⟩

theorem refillOne_some (b : LogBuffer) (toWrite : List LogBuffer) :
    refillOne (some b) toWrite = .ok (some b, toWrite) := rfl

theorem refillOne_none {toWrite : List LogBuffer} (h : toWrite ≠ []) :
    refillOne none toWrite = .ok (some [], toWrite.dropLast) := by
  rw [refillOne, ensure_pos h, ok_bind]

theorem refill_spec (h : Refillable s.newBuffer1 s.newBuffer2 s.buffersToWrite) :
    s.refill = .ok { s with
      newBuffer1 := some []
      newBuffer2 := some []
      buffersToWrite := []
      pc := .head } := by
  obtain ⟨hnull, hne, h2⟩ := h
  rw [refill, hnull, refillOne_none hne, ok_bind]
  rcases h2 with hnew | ⟨hnull2, hlen⟩
  · simp only [hnew, refillOne_some, ok_bind]
  · have hmore : s.buffersToWrite.dropLast ≠ [] := by
      refine List.length_pos_iff.1 ?_
      rw [List.length_dropLast]
      omega
    simp only [hnull2, refillOne_none hmore, ok_bind]

theorem announce_written (batch : List LogBuffer) :
    ((announce batch).flatMap fun
      | .notice _ => []
      | .data bytes => bytes) = ([] : List Byte) := by
  unfold announce
  split <;> rfl

theorem announce_notices (batch : List LogBuffer) :
    ((announce batch).filterMap fun
      | .notice n => some n
      | .data _ => none) =
      (([batch].filter fun batch => 25 < batch.length).map fun batch => batch.length - 2) := by
  unfold announce
  by_cases h : 25 < batch.length <;> simp [h]

/-! What a step does, by where the thread is. -/

theorem step_begun (hpc : s.pc = .begun) (hrun : s.running = true) :
    s.step = .ok { s with newBuffer1 := some [], newBuffer2 := some [], pc := .head } := by
  rw [step, hpc]
  simp only [ensure_pos hrun, ok_bind]

theorem step_head (hpc : s.pc = .head) (hnew : s.newBuffer1 = some [] ∧ s.newBuffer2 = some [] ∧
      s.buffersToWrite = []) :
    s.step = .ok { s with pc := if s.running then .lock else .exited } := by
  obtain ⟨hnew1, hnew2, hempty⟩ := hnew
  rw [step, hpc]
  by_cases hrun : s.running = true
  · simp only [if_pos hrun, enterLoop, ensure_pos hnew1, ensure_pos hnew2, ensure_pos hempty,
      ok_bind]
  · simp only [if_neg hrun]

theorem step_swapped (hpc : s.pc = .swapped) (hne : s.buffersToWrite ≠ []) :
    s.step = .ok { s with
      output := s.output ++ announce s.buffersToWrite
      batches := s.batches ++ [s.buffersToWrite]
      buffersToWrite := keep s.buffersToWrite
      pc := .writing 0 } := by
  rw [step, hpc]
  simp only [ensure_pos hne, ok_bind]

theorem step_writing_some {i : Nat} {b : LogBuffer} (hpc : s.pc = .writing i)
    (hb : s.buffersToWrite[i]? = some b) :
    s.step = .ok { s with output := s.output ++ [.data b], pc := .writing (i + 1) } := by
  simp only [step, hpc, hb]

theorem step_writing_none {i : Nat} (hpc : s.pc = .writing i)
    (hb : s.buffersToWrite[i]? = none) :
    s.step = .ok { s with buffersToWrite := s.buffersToWrite.take 2, pc := .refill } := by
  simp only [step, hpc, hb]

theorem step_lock (hpc : s.pc = .lock) :
    s.step = if s.buffers = [] then .ok { s with pc := .waiting } else s.swap := by
  rw [step, hpc]

theorem step_waiting (hpc : s.pc = .waiting) : s.step = s.swap := by rw [step, hpc]

theorem step_refill (hpc : s.pc = .refill) : s.step = s.refill := by rw [step, hpc]

/-- The rule of more than 25 buffers is applied to the batch. -/
theorem Inv.judge (h : s.Inv) (hpc : s.pc = .swapped) : ∃ s', s.step = .ok s' ∧ s'.Inv := by
  obtain ⟨current, hcurrent, hlines⟩ := h.current
  have hkept := h.kept
  have hlocal := h.thread
  simp only [unjudged, pending, Local, hpc] at hlines hkept hlocal
  refine ⟨_, step_swapped hpc hlocal.2.1, ⟨current, hcurrent, ?_⟩, h.next, ?_, ?_, ?_⟩
  · show s.lines.flatten =
      ((s.batches ++ [s.buffersToWrite]).flatten ++ [] ++ s.buffers).flatten ++ current
    rw [hlines]
    simp
  · show (s.output ++ announce s.buffersToWrite).flatMap _ ++
        ((keep s.buffersToWrite).drop 0).flatten =
      ((s.batches ++ [s.buffersToWrite]).flatMap keep ++ []).flatten
    rw [List.flatMap_append, announce_written, List.append_nil, List.drop_zero, List.append_nil,
      List.flatMap_append, List.flatMap_singleton, List.flatten_append]
    rw [List.flatten_append, List.append_cancel_right_eq] at hkept
    exact congrArg (· ++ _) hkept
  · show (s.output ++ announce s.buffersToWrite).filterMap _ = _
    rw [List.filterMap_append, announce_notices, List.filter_append, List.map_append]
    exact congrArg (· ++ _) h.announced
  · exact ⟨hlocal.keep, Nat.zero_le _⟩

/-- The next buffer is written, or all are and the thread goes on. -/
theorem Inv.write {i : Nat} (h : s.Inv) (hpc : s.pc = .writing i) :
    ∃ s', s.step = .ok s' ∧ s'.Inv := by
  obtain ⟨current, hcurrent, hlines⟩ := h.current
  have hkept := h.kept
  have hlocal := h.thread
  simp only [unjudged, pending, Local, hpc] at hlines hkept hlocal
  cases hb : s.buffersToWrite[i]? with
  | some b =>
    obtain ⟨hi, hbi⟩ := List.getElem?_eq_some_iff.1 hb
    refine ⟨_, step_writing_some hpc hb, ⟨current, hcurrent, hlines⟩, h.next, ?_, ?_, hlocal.1, hi⟩
    · rw [List.drop_eq_getElem_cons hi, hbi, List.flatten_cons, ← List.append_assoc] at hkept
      show (s.output ++ [Record.data b]).flatMap _ ++ (s.buffersToWrite.drop (i + 1)).flatten = _
      rw [List.flatMap_append, List.flatMap_singleton]
      exact hkept
    · show (s.output ++ [Record.data b]).filterMap _ = _
      rw [List.filterMap_append, ← h.announced]
      exact List.append_nil _
  | none =>
    refine ⟨_, step_writing_none hpc hb, ⟨current, hcurrent, hlines⟩, h.next, ?_, h.announced,
      hlocal.1.take⟩
    rw [List.drop_eq_nil_of_le (List.getElem?_eq_none_iff.1 hb)] at hkept
    exact hkept

/-- A step of the logging thread has no fault. -/
theorem Inv.step (h : s.Inv) (hlog : s.Enabled .log) : ∃ s', s.step = .ok s' ∧ s'.Inv := by
  obtain ⟨current, hcurrent, hlines⟩ := h.current
  have hkept := h.kept
  have hlocal := h.thread
  cases hpc : s.pc with
  | created => exact absurd hpc hlog.1
  | exited => exact absurd hpc hlog.2
  | begun =>
    simp only [unjudged, pending, Local, hpc] at hlines hkept hlocal
    exact ⟨_, step_begun hpc hlocal.2, ⟨current, hcurrent, hlines⟩, h.next, hkept, h.announced,
      rfl, rfl, hlocal.1⟩
  | head =>
    simp only [unjudged, pending, Local, hpc] at hlines hkept hlocal
    refine ⟨_, step_head hpc hlocal, ?_⟩
    cases s.running with
    | true => exact ⟨⟨current, hcurrent, hlines⟩, h.next, hkept, h.announced, hlocal⟩
    | false => exact ⟨⟨current, hcurrent, hlines⟩, h.next, hkept, h.announced, hlocal⟩
  | lock =>
    have hunjudged : s.unjudged = [] := by simp [unjudged, hpc]
    have hpending : s.pending = [] := by simp [pending, hpc]
    simp only [Local, hpc] at hlocal
    rw [step_lock hpc]
    by_cases hempty : s.buffers = []
    · rw [if_pos hempty]
      rw [hunjudged] at hlines hkept
      rw [hpending] at hkept
      exact ⟨_, rfl, ⟨current, hcurrent, hlines⟩, h.next, hkept, h.announced, hlocal⟩
    · rw [if_neg hempty]
      exact h.swap hlocal hunjudged hpending
  | waiting =>
    simp only [Local, hpc] at hlocal
    rw [step_waiting hpc]
    exact h.swap hlocal (by simp [unjudged, hpc]) (by simp [pending, hpc])
  | swapped => exact h.judge hpc
  | writing i => exact h.write hpc
  | refill =>
    simp only [unjudged, pending, Local, hpc] at hlines hkept hlocal
    rw [step_refill hpc]
    exact ⟨_, refill_spec hlocal, ⟨current, hcurrent, hlines⟩, h.next, hkept, h.announced,
      rfl, rfl, rfl⟩

end Steps

/-! ## Whole runs -/

theorem Inv.exec {s : AsyncLogging} {op : Op} (h : s.Inv) (he : s.Enabled op) :
    ∃ s', s.exec op = .ok s' ∧ s'.Inv := by
  cases op with
  | append line => exact h.append he
  | start =>
    obtain ⟨current, hcurrent, hlines⟩ := h.current
    have hkept := h.kept
    have hlocal := h.thread
    have hpc : s.pc = .created := he
    simp only [unjudged, pending, Local, hpc] at hlines hkept hlocal
    exact ⟨_, rfl, ⟨current, hcurrent, hlines⟩, h.next, hkept, h.announced, hlocal, rfl⟩
  | stop =>
    have hlocal := h.thread
    refine ⟨_, rfl, h.current, h.next, h.kept, h.announced, ?_⟩
    cases hpc : s.pc with
    | begun => exact absurd hpc he.2.1
    | _ => simpa only [Local, hpc] using hlocal
  | stopReturn => exact ⟨_, rfl, h.current, h.next, h.kept, h.announced, h.thread⟩
  | log => exact h.step he

theorem asyncLogging_safe : asyncLogging.Safe Inv := fun _ _ h he => h.exec he

/-- All that was swapped out so far. -/
def swappedOut (s : AsyncLogging) : List Byte := (s.batches.flatten ++ s.unjudged).flatten

theorem swap_swappedOut {s s' : AsyncLogging} (h : s.Inv) (hunjudged : s.unjudged = [])
    (hx : s.swap = .ok s') :
    s'.lines = s.lines ∧ s'.atStop = s.atStop ∧ s'.swappedOut = s.lines.flatten := by
  obtain ⟨current, hcurrent, hlines⟩ := h.current
  rw [swap_spec hcurrent] at hx
  cases hx
  refine ⟨rfl, rfl, ?_⟩
  show (s.batches.flatten ++ (s.buffers ++ [current])).flatten = _
  rw [hlines, hunjudged]
  simp

/-- Between the test of `running_` and the swap a step keeps that distance or swaps out all lines;
elsewhere it keeps what was swapped out. -/
theorem step_swappedOut {s s' : AsyncLogging} (h : s.Inv) (hlog : s.Enabled .log)
    (hx : s.step = .ok s') :
    s'.lines = s.lines ∧ s'.atStop = s.atStop ∧
      (s'.swappedOut = s.lines.flatten ∨
        s'.swappedOut = s.swappedOut ∧ (s.pc = .lock ∨ s.pc = .waiting → s'.pc = .waiting)) := by
  have hlocal := h.thread
  cases hpc : s.pc with
  | created => exact absurd hpc hlog.1
  | exited => exact absurd hpc hlog.2
  | begun =>
    simp only [Local, hpc] at hlocal
    rw [step_begun hpc hlocal.2] at hx
    cases hx
    exact ⟨rfl, rfl, Or.inr ⟨by simp [swappedOut, unjudged, hpc], nofun⟩⟩
  | head =>
    simp only [Local, hpc] at hlocal
    rw [step_head hpc hlocal] at hx
    cases hx
    refine ⟨rfl, rfl, Or.inr ⟨?_, nofun⟩⟩
    cases s.running <;> simp [swappedOut, unjudged, hpc]
  | lock =>
    rw [step_lock hpc] at hx
    by_cases hempty : s.buffers = []
    · rw [if_pos hempty] at hx
      cases hx
      exact ⟨rfl, rfl, Or.inr ⟨by simp [swappedOut, unjudged, hpc], fun _ => rfl⟩⟩
    · rw [if_neg hempty] at hx
      obtain ⟨hlines, hat, hout⟩ := swap_swappedOut h (by simp [unjudged, hpc]) hx
      exact ⟨hlines, hat, Or.inl hout⟩
  | waiting =>
    rw [step_waiting hpc] at hx
    obtain ⟨hlines, hat, hout⟩ := swap_swappedOut h (by simp [unjudged, hpc]) hx
    exact ⟨hlines, hat, Or.inl hout⟩
  | swapped =>
    simp only [Local, hpc] at hlocal
    rw [step_swapped hpc hlocal.2.1] at hx
    cases hx
    exact ⟨rfl, rfl, Or.inr ⟨by simp [swappedOut, unjudged, hpc], nofun⟩⟩
  | writing i =>
    cases hb : s.buffersToWrite[i]? with
    | some b =>
      rw [step_writing_some hpc hb] at hx
      cases hx
      exact ⟨rfl, rfl, Or.inr ⟨by simp [swappedOut, unjudged, hpc], nofun⟩⟩
    | none =>
      rw [step_writing_none hpc hb] at hx
      cases hx
      exact ⟨rfl, rfl, Or.inr ⟨by simp [swappedOut, unjudged, hpc], nofun⟩⟩
  | refill =>
    simp only [Local, hpc] at hlocal
    rw [step_refill hpc, refill_spec hlocal] at hx
    cases hx
    exact ⟨rfl, rfl, Or.inr ⟨by simp [swappedOut, unjudged, hpc], nofun⟩⟩

/-! ### The lines of a run -/

/-- The lines given to `append`, in the order of the lock. -/
def appended (ops : List Op) : List (List Byte) :=
  ops.filterMap fun
    | .append line => some line
    | _ => none

/-- The lines whose `append` came before `stop`. -/
def appendedBeforeStop (ops : List Op) : List (List Byte) :=
  appended (ops.takeWhile (· ≠ .stop))

theorem exec_lines {s s' : AsyncLogging} {op : Op} (h : s.Inv) (he : s.Enabled op)
    (hx : s.exec op = .ok s') :
    s'.lines = s.lines ++ appended [op] ∧
      s'.atStop = if op = .stop then some s.lines else s.atStop := by
  cases op with
  | append line =>
    rw [AsyncLogging.exec, append] at hx
    split at hx
    · cases hx
    · split at hx <;> cases hx <;> exact ⟨rfl, rfl⟩
  | start | stop | stopReturn =>
    cases hx
    exact ⟨(List.append_nil _).symm, rfl⟩
  | log =>
    obtain ⟨hlines, hat, -⟩ := step_swappedOut h he hx
    exact ⟨hlines.trans (List.append_nil _).symm, hat⟩

/-- The records of the state are those of the calls. -/
structure Recorded (ops : List Op) (s : AsyncLogging) : Prop where
  lines : s.lines = appended ops
  atStop : s.atStop = if .stop ∈ ops then some (appendedBeforeStop ops) else none

theorem run_recorded {ops : List Op} {s : AsyncLogging} (hrun : asyncLogging.Run init ops s) :
    Recorded ops s := by
  have hinit : init.Inv ∧ Recorded [] init := ⟨init_inv, rfl, rfl⟩
  refine (hrun.keeps_trace (I := fun ops (s : AsyncLogging) => s.Inv ∧ Recorded ops s) ?_ hinit).2
  rintro ops s op s' ⟨hinv, hlines, hat⟩ he hx
  obtain ⟨s₁, hx₁, hinv₁⟩ := hinv.exec he
  cases hx.symm.trans hx₁
  obtain ⟨hlines', hat'⟩ := exec_lines hinv he hx
  refine ⟨hinv₁, ?_, ?_⟩
  · rw [hlines', hlines, appended, appended, appended, List.filterMap_append]
  · rw [hat', hat]
    by_cases hmem : .stop ∈ ops
    · -- there is one `stop()` at most
      have hop : op ≠ .stop := by
        rintro rfl
        rw [if_pos hmem] at hat
        cases hat.symm.trans he.2.2
      have hcut : (ops ++ [op]).takeWhile (· ≠ .stop) = ops.takeWhile (· ≠ .stop) := by
        rw [List.takeWhile_append, if_neg]
        intro hlen
        rw [← (List.takeWhile_prefix _).eq_of_length hlen] at hmem
        have hne := List.mem_takeWhile_imp hmem
        simp at hne
      rw [if_neg hop, if_pos hmem, if_pos (List.mem_append_left _ hmem), appendedBeforeStop,
        appendedBeforeStop, hcut]
    · by_cases hop : op = .stop
      · subst hop
        have hall : ∀ o ∈ ops, decide (o ≠ .stop) = true := fun o ho =>
          decide_eq_true fun heq => hmem (heq ▸ ho)
        rw [if_pos rfl, if_pos (List.mem_append_right _ List.mem_cons_self), hlines,
          appendedBeforeStop, List.takeWhile_append_of_pos hall]
        simp
      · have hnone : .stop ∉ ops ++ [op] := by simp [hmem, Ne.symm hop]
        rw [if_neg hop, if_neg hmem, if_neg hnone]

/-! ### What is kept -/

/-- At every moment the lines given to `append` are, in the order of the lock, what was swapped out,
what is in `buffers_` and what is in `currentBuffer_`; what is written and what is still to be
written is all of that but for the batches of more than 25 buffers, of which the first two are left
and how many are dropped is announced; and the assertions at the head of the loop hold, like all
others. -/
theorem keeps_every_line {ops : List Op} {s : AsyncLogging} (hrun : asyncLogging.Run init ops s) :
    (∃ current, s.currentBuffer = some current ∧
      (appended ops).flatten = (s.batches.flatten ++ s.unjudged ++ s.buffers).flatten ++ current ∧
      s.written ++ s.pending.flatten ++ s.buffers.flatten ++ current =
        ((s.batches.flatMap fun batch => if 25 < batch.length then batch.take 2 else batch) ++
          s.unjudged ++ s.buffers).flatten ++ current) ∧
    s.notices =
      (s.batches.filter fun batch => 25 < batch.length).map (fun batch => batch.length - 2) ∧
    (s.pc = .head →
      s.newBuffer1 = some [] ∧ s.newBuffer2 = some [] ∧ s.buffersToWrite = []) ∧
    ∀ op, s.Enabled op → ∃ s', s.exec op = .ok s' := by
  obtain ⟨hinv, hsafe⟩ := asyncLogging_safe.run hrun init_inv
  obtain ⟨current, hcurrent, hlines⟩ := hinv.current
  rw [(run_recorded hrun).lines] at hlines
  refine ⟨⟨current, hcurrent, hlines, ?_⟩, hinv.announced, fun hpc => ?_, hsafe⟩
  · rw [hinv.kept, ← List.flatten_append]
    rfl
  · have hlocal := hinv.thread
    simp only [Local, hpc] at hlocal
    exact hlocal

instance (s : AsyncLogging) (op : Op) : Decidable (asyncLogging.enabled s op) :=
  inferInstanceAs (Decidable (s.Enabled op))

/-- Two lines, of which one is written and one is still in `currentBuffer_`. -/
theorem keeps_every_line_sample :
    ∃ s, asyncLogging.Run init [.start, .log, .append [1, 2], .log, .log, .log, .log, .log,
        .append [3]] s ∧
      s.output = [.data [1, 2]] ∧ s.currentBuffer = some [3] ∧
      ∃ current, s.currentBuffer = some current ∧
        [1, 2, 3] = (s.batches.flatten ++ s.unjudged ++ s.buffers).flatten ++ current := by
  obtain ⟨s, hrun, hs⟩ := Machine.Run.of_replay asyncLogging init
    [.start, .log, .append [1, 2], .log, .log, .log, .log, .log, .append [3]]
    (fun s => (s.output, s.currentBuffer)) ([.data [1, 2]], some [3]) (by decide +kernel)
  obtain ⟨hout, hcur⟩ := Prod.mk.inj hs
  obtain ⟨⟨current, hcurrent, hlines, _⟩, _⟩ := keeps_every_line hrun
  exact ⟨s, hrun, hout, hcur, current, hcurrent, hlines⟩

/-! ## `stop` -/

/-- When `running_` is cleared, the thread is on its way from the test of `running_` to the swap, or
nothing is left to be swapped out. -/
def StopInTime (s : AsyncLogging) : Op → Prop
  | .stop => s.pc = .lock ∨ s.pc = .waiting ∨ s.buffers = [] ∧ s.currentBuffer = some []
  | _ => True

/-- The lines appended before `stop` are swapped out, or will be. -/
def Flushing (s : AsyncLogging) : Prop :=
  ∀ before, s.atStop = some before → before.flatten <+: s.lines.flatten ∧
    (s.pc = .lock ∨ s.pc = .waiting ∨ before.flatten <+: s.swappedOut)

theorem Flushing.append {s s' : AsyncLogging} {line : List Byte} (h : s.Flushing)
    (hx : s.append line = .ok s') : s'.Flushing := by
  obtain ⟨hlines, hpc, hat, hout⟩ : s'.lines = s.lines ++ [line] ∧ s'.pc = s.pc ∧
      s'.atStop = s.atStop ∧ s'.swappedOut = s.swappedOut := by
    unfold AsyncLogging.append at hx
    split at hx
    · cases hx
    · split at hx <;> cases hx <;> exact ⟨rfl, rfl, rfl, rfl⟩
  intro before hbefore
  obtain ⟨hpre, hwhere⟩ := h before (hat ▸ hbefore)
  refine ⟨?_, by rw [hpc, hout]; exact hwhere⟩
  rw [hlines, List.flatten_append]
  exact hpre.trans (List.prefix_append _ _)

theorem Flushing.step {s s' : AsyncLogging} (h : s.Flushing) (hinv : s.Inv)
    (hlog : s.Enabled .log) (hx : s.step = .ok s') : s'.Flushing := by
  obtain ⟨hlines, hat, hout⟩ := step_swappedOut hinv hlog hx
  intro before hbefore
  obtain ⟨hpre, hwhere⟩ := h before (hat ▸ hbefore)
  refine ⟨hlines ▸ hpre, ?_⟩
  rcases hout with hall | ⟨hsame, hwait⟩
  · exact Or.inr (Or.inr (hall ▸ hpre))
  · rcases hwhere with hpc | hpc | hdone
    · exact Or.inr (Or.inl (hwait (Or.inl hpc)))
    · exact Or.inr (Or.inl (hwait (Or.inr hpc)))
    · exact Or.inr (Or.inr (hsame ▸ hdone))

/-- Nothing is in the buffers, so all lines are swapped out. -/
theorem Inv.swappedOut_eq {s : AsyncLogging} (h : s.Inv) (hbuffers : s.buffers = [])
    (hcurrent : s.currentBuffer = some []) : s.swappedOut = s.lines.flatten := by
  obtain ⟨current, hcur, hlines⟩ := h.current
  cases hcurrent.symm.trans hcur
  rw [hlines, hbuffers, swappedOut, List.append_nil, List.append_nil]

/-- When `stop` comes in time, the lines whose `append` came before it are swapped out and written
when the thread has exited, but for the batches of more than 25 buffers, of which the first two are
written and how many are dropped is announced. -/
theorem stop_flushes {ops : List Op} {s : AsyncLogging}
    (hrun : (asyncLogging.under StopInTime).Run init ops s) (hstop : .stop ∈ ops)
    (hexited : s.pc = .exited) :
    (appendedBeforeStop ops).flatten <+: s.batches.flatten.flatten ∧
    s.written =
      (s.batches.flatMap fun batch => if 25 < batch.length then batch.take 2 else batch).flatten ∧
    s.notices =
      (s.batches.filter fun batch => 25 < batch.length).map (fun batch => batch.length - 2) := by
  obtain ⟨hinv, hflush⟩ : s.Inv ∧ s.Flushing := by
    refine hrun.keeps (I := fun s : AsyncLogging => s.Inv ∧ s.Flushing) ?_ ⟨init_inv, nofun⟩
    rintro s op s' ⟨hinv, hflush⟩ ⟨he, hintime⟩ hx
    obtain ⟨s₁, hx₁, hinv₁⟩ := hinv.exec he
    cases hx.symm.trans hx₁
    refine ⟨hinv₁, ?_⟩
    cases op with
    | append line => exact hflush.append hx
    | log => exact hflush.step hinv he hx
    | start =>
      cases hx
      intro before hbefore
      obtain ⟨hpre, hpc | hpc | hdone⟩ := hflush before hbefore
      · cases hpc.symm.trans he
      · cases hpc.symm.trans he
      · refine ⟨hpre, Or.inr (Or.inr ?_)⟩
        have hpc : s.pc = .created := he
        simpa [swappedOut, unjudged, hpc] using hdone
    | stopReturn => cases hx; exact hflush
    | stop =>
      cases hx
      rintro before ⟨rfl⟩
      refine ⟨List.prefix_refl _, hintime.imp_right (Or.imp_right ?_)⟩
      rintro ⟨hbuffers, hcurrent⟩
      show s.lines.flatten <+: s.swappedOut
      exact ⟨[], by rw [List.append_nil, hinv.swappedOut_eq hbuffers hcurrent]⟩
  have hkept := hinv.kept
  have hat := (run_recorded hrun.of_under).atStop
  rw [if_pos hstop] at hat
  obtain ⟨_, hpc | hpc | hdone⟩ := hflush _ hat
  · cases hexited.symm.trans hpc
  · cases hexited.symm.trans hpc
  · simp only [swappedOut, unjudged, pending, hexited, List.append_nil, List.flatten_nil]
      at hdone hkept
    exact ⟨hdone, hkept, hinv.announced⟩

instance (s : AsyncLogging) : (op : Op) → Decidable (s.StopInTime op)
  | .stop => inferInstanceAs (Decidable
      (s.pc = .lock ∨ s.pc = .waiting ∨ s.buffers = [] ∧ s.currentBuffer = some []))
  | .append _ => isTrue trivial
  | .start => isTrue trivial
  | .stopReturn => isTrue trivial
  | .log => isTrue trivial

/-- `stop` while the thread waits: the line is written. -/
theorem stop_flushes_sample :
    ∃ s, (asyncLogging.under StopInTime).Run init [.start, .log, .log, .log, .append [7], .stop,
        .log, .log, .log, .log, .log, .log, .stopReturn] s ∧
      s.atStop = some [[7]] ∧ s.pc = .exited ∧ s.output = [.data [7]] ∧
      [[7]].flatten <+: s.batches.flatten.flatten := by
  obtain ⟨s, hrun, hs⟩ := Machine.Run.of_replay (asyncLogging.under StopInTime) init
    [.start, .log, .log, .log, .append [7], .stop, .log, .log, .log, .log, .log, .log, .stopReturn]
    (fun s => (s.atStop, s.pc, s.output)) (some [[7]], .exited, [.data [7]]) (by decide +kernel)
  obtain ⟨hat, hs⟩ := Prod.mk.inj hs
  obtain ⟨hpc, hout⟩ := Prod.mk.inj hs
  exact ⟨s, hrun, hat, hpc, hout, (stop_flushes hrun (by decide) hpc).1⟩

/-- `stop` before the thread tests `running_`: it exits and `stop` returns, and the line appended
before is not written. -/
theorem stop_loses_lines :
    ∃ s, asyncLogging.Run init [.start, .log, .append [7], .stop, .log, .stopReturn] s ∧
      s.atStop = some [[7]] ∧ s.stopReturned = true ∧ s.output = [] := by
  obtain ⟨s, hrun, hs⟩ := Machine.Run.of_replay asyncLogging init
    [.start, .log, .append [7], .stop, .log, .stopReturn]
    (fun s => (s.atStop, s.stopReturned, s.output)) (some [[7]], true, []) (by decide +kernel)
  obtain ⟨hat, hs⟩ := Prod.mk.inj hs
  obtain ⟨hreturned, hout⟩ := Prod.mk.inj hs
  exact ⟨s, hrun, hat, hreturned, hout⟩

end TinyMuduo.AsyncLogging
