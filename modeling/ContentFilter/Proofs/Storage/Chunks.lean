import ContentFilter.Storage.Loader
import Mathlib.Data.List.Basic

/-!
# Loading in chunks

A loader carries two things that have nothing to do with each other: what it has loaded, and its
plan, which is the lines that are left and how many of them a chunk has. Reading a line looks at
the former and leaves the latter alone (`readLine_withPlan`). So a chunk after a chunk is a
chunk of both (`advance_advance`), any number of steps comes to one advance (`fst_steps`), and
what has been loaded by then is what one pass over the same lines loads, whatever the size of a
chunk.

`Loader.run` goes on for as long as lines are left, and that it ends is part of its definition.
Here it is said after how many chunks (`run_eq_steps`): as many as it takes for the lines, the
last of which may be short, but one chunk even where there is no line.
-/

set_option autoImplicit false

namespace ContentFilter

namespace Loader

/-! ## One line -/

/-- What the next line reads as. A line whose number is no key is not read. -/
def reading? (l : Loader) (line : Text) : Option (Reading (Option Rule)) :=
  if l.next < keyLimit then some (Rule.read l.duplicates ⟨l.list.id, l.next⟩ line) else none

/-- Go past the next line, and keep what it reads as: a rule, an error, or nothing. -/
def note (l : Loader) : Option (Reading (Option Rule)) → Loader
  | some (.ok (some rule)) => { l with list := l.list.insert rule, next := l.next + 1 }
  | some (.error e) =>
    { l with errors := l.errors.push ⟨l.next, e.span, e.message⟩, next := l.next + 1 }
  | some (.ok none) | none => { l with next := l.next + 1 }

/-- To read a line is to find out what it reads as, and then to keep that. -/
theorem readLine_eq_note (l : Loader) (line : Text) : l.readLine line = l.note (l.reading? line) := by
  rw [reading?]
  by_cases hlimit : l.next < keyLimit
  · rw [if_pos hlimit]
    simp only [readLine, if_pos hlimit]
    cases Rule.read l.duplicates ⟨l.list.id, l.next⟩ line with
    | error e => rfl
    | ok held => cases held <;> rfl
  · rw [if_neg hlimit]
    exact if_neg hlimit

theorem next_note (l : Loader) (reading : Option (Reading (Option Rule))) :
    (l.note reading).next = l.next + 1 := by
  rcases reading with _ | _ | _ | rule <;> rfl

/-! ## What reading lines leaves alone -/

/-- The loader with other lines left and another size of chunks. -/
def withPlan (l : Loader) (pending : List Text) (size : Nat) (hsize : 0 < size) : Loader :=
  { l with pending := pending, chunkSize := size, chunkSize_pos := hsize }

/-- What is noted does not depend on which lines are left and how they are grouped. -/
theorem note_withPlan (l : Loader) (pending : List Text) (size : Nat) (hsize : 0 < size)
    (reading : Option (Reading (Option Rule))) :
    (l.withPlan pending size hsize).note reading =
      (l.note reading).withPlan pending size hsize := by
  rcases reading with _ | _ | _ | rule <;> rfl

/-- Nor does reading a line. -/
theorem readLine_withPlan (l : Loader) (pending : List Text) (size : Nat) (hsize : 0 < size)
    (line : Text) :
    (l.withPlan pending size hsize).readLine line =
      (l.readLine line).withPlan pending size hsize := by
  have hreading : (l.withPlan pending size hsize).reading? line = l.reading? line := rfl
  rw [readLine_eq_note, hreading, note_withPlan, readLine_eq_note]

/-- Nor does reading several lines. -/
theorem foldl_readLine_withPlan (lines : List Text) (l : Loader) (pending : List Text)
    (size : Nat) (hsize : 0 < size) :
    lines.foldl readLine (l.withPlan pending size hsize) =
      (lines.foldl readLine l).withPlan pending size hsize := by
  induction lines generalizing l with
  | nil => rfl
  | cons line lines ih => rw [List.foldl_cons, List.foldl_cons, readLine_withPlan, ih]

@[simp] theorem finish_withPlan (l : Loader) (pending : List Text) (size : Nat)
    (hsize : 0 < size) : (l.withPlan pending size hsize).finish = l.finish := rfl

/-- Reading lines keeps the plan, since it could be replaced by itself. -/
theorem foldl_readLine_eq_withPlan (lines : List Text) (l : Loader) :
    lines.foldl readLine l =
      (lines.foldl readLine l).withPlan l.pending l.chunkSize l.chunkSize_pos :=
  foldl_readLine_withPlan lines l l.pending l.chunkSize l.chunkSize_pos

theorem next_readLine (l : Loader) (line : Text) : (l.readLine line).next = l.next + 1 := by
  rw [readLine_eq_note, next_note]

/-- Reading lines goes on by their number. -/
theorem next_foldl_readLine (lines : List Text) (l : Loader) :
    (lines.foldl readLine l).next = l.next + lines.length := by
  induction lines generalizing l with
  | nil => rfl
  | cons line lines ih =>
    rw [List.foldl_cons, ih, next_readLine, List.length_cons]
    omega

/-! ## Chunks after chunks -/

/-- Going on by some lines reads them and leaves the rest. -/
theorem advance_eq_withPlan (l : Loader) (n : Nat) :
    l.advance n = ((l.pending.take n).foldl readLine l).withPlan (l.pending.drop n) l.chunkSize
      l.chunkSize_pos := by
  rw [advance, foldl_readLine_eq_withPlan]
  rfl

@[simp] theorem pending_advance (l : Loader) (n : Nat) :
    (l.advance n).pending = l.pending.drop n := rfl

@[simp] theorem chunkSize_advance (l : Loader) (n : Nat) :
    (l.advance n).chunkSize = l.chunkSize := by
  rw [advance_eq_withPlan]
  rfl

/-- Going on by some lines goes as far as there are lines. -/
theorem next_advance (l : Loader) (n : Nat) :
    (l.advance n).next = l.next + min n l.pending.length := by
  rw [advance_eq_withPlan, ← List.length_take, ← next_foldl_readLine]
  rfl

/-- What has been loaded after some lines is what these lines hold. -/
theorem finish_advance (l : Loader) (n : Nat) :
    (l.advance n).finish = ((l.pending.take n).foldl readLine l).finish := rfl

/-- Lines are left if there are more than were gone past. -/
theorem hasMore_advance (l : Loader) (n : Nat) :
    (l.advance n).hasMore = decide (n < l.pending.length) := by
  rw [hasMore, pending_advance, Bool.eq_iff_iff]
  simp

theorem advance_zero (l : Loader) : l.advance 0 = l := rfl

/-- A chunk and a chunk are one chunk. -/
theorem advance_advance (l : Loader) (m n : Nat) :
    (l.advance m).advance n = l.advance (m + n) := by
  have hlines : l.pending.take (m + n) = l.pending.take m ++ (l.pending.drop m).take n :=
    List.take_add
  rw [advance_eq_withPlan (l.advance m), pending_advance, List.drop_drop, advance_eq_withPlan l m,
    foldl_readLine_withPlan, ← List.foldl_append, ← hlines, advance_eq_withPlan l (m + n)]
  rfl

/-- Going past the end goes to the end. -/
theorem advance_of_length_le {l : Loader} {n : Nat} (h : l.pending.length ≤ n) :
    l.advance n = l.advance l.pending.length := by
  rw [advance_eq_withPlan, advance_eq_withPlan, List.take_of_length_le h, List.take_length,
    List.drop_of_length_le h, List.drop_length]

/-! ## Steps -/

/-- Steps go on by as many chunks. -/
theorem fst_steps (l : Loader) (n : Nat) : (l.steps n).1 = l.advance (n * l.chunkSize) := by
  induction n generalizing l with
  | zero => rw [Nat.zero_mul, advance_zero, steps]
  | succ n ih =>
    rw [steps]
    show (l.step.steps n).1 = _
    rw [ih, step, chunkSize_advance, advance_advance]
    congr 1
    rw [Nat.succ_mul, Nat.add_comm]

/-- After every chunk the answer is whether the chunks so far do not reach the last line. -/
theorem snd_steps (l : Loader) (n : Nat) :
    (l.steps n).2 =
      (List.range n).map fun k => decide ((k + 1) * l.chunkSize < l.pending.length) := by
  induction n generalizing l with
  | zero => rfl
  | succ n ih =>
    rw [steps]
    show l.step.hasMore :: (l.step.steps n).2 = _
    rw [ih, step, hasMore_advance, pending_advance, chunkSize_advance, List.length_drop,
      List.range_succ_eq_map, List.map_cons, List.map_map, Nat.zero_add, Nat.one_mul]
    congr 1
    refine List.map_congr_left fun k _ => decide_eq_decide.mpr ?_
    rw [Nat.succ_eq_add_one, Nat.add_mul (k + 1) 1, Nat.one_mul]
    omega

/-- The last answer is about the lines that all chunks together have left. -/
theorem length_le_of_getLast?_snd_steps {l : Loader} {n : Nat}
    (h : (l.steps n).2.getLast? = some false) : l.pending.length ≤ n * l.chunkSize := by
  rw [snd_steps] at h
  cases n with
  | zero => exact nomatch h
  | succ n =>
    rw [List.range_succ, List.map_append, List.map_singleton, List.getLast?_concat,
      Option.some.injEq, decide_eq_false_iff_not, Nat.not_lt] at h
    exact h

/-- After the last line, steps change nothing. -/
theorem fst_steps_of_length_le {l : Loader} {n : Nat} (h : l.pending.length ≤ n * l.chunkSize)
    (m : Nat) : (l.steps (n + m)).1 = (l.steps n).1 := by
  have hlonger : l.pending.length ≤ (n + m) * l.chunkSize := by
    rw [Nat.add_mul]
    omega
  rw [fst_steps, fst_steps, advance_of_length_le h, advance_of_length_le hlonger]

/-! ## The whole run -/

/-- How many chunks a run reads. -/
def chunkCount (l : Loader) : Nat := (l.pending.length - 1) / l.chunkSize + 1

theorem chunkCount_of_hasMore {l : Loader} (h : l.step.hasMore = true) :
    l.chunkCount = l.step.chunkCount + 1 := by
  rw [step, hasMore_advance, decide_eq_true_eq] at h
  have hle : l.chunkSize ≤ l.pending.length - 1 := by omega
  rw [chunkCount, chunkCount, step, pending_advance, chunkSize_advance, List.length_drop,
    Nat.div_eq_sub_div l.chunkSize_pos hle, Nat.sub_right_comm]

theorem chunkCount_of_not_hasMore {l : Loader} (h : ¬ l.step.hasMore = true) :
    l.chunkCount = 1 := by
  rw [step, hasMore_advance, decide_eq_true_eq] at h
  have hpos := l.chunkSize_pos
  rw [chunkCount, Nat.div_eq_of_lt (by omega)]

/-- A run is that many steps. -/
theorem run_eq_steps (l : Loader) : l.run = (l.steps l.chunkCount).1 := by
  fun_induction run l with
  | case1 l hmore ih => rw [ih, chunkCount_of_hasMore hmore, steps]
  | case2 l hmore => rw [chunkCount_of_not_hasMore hmore, steps, steps]

/-- After each of its steps but the last, lines are left. -/
theorem runAnswers_eq_replicate (l : Loader) :
    l.runAnswers = List.replicate (l.chunkCount - 1) true ++ [false] := by
  fun_induction runAnswers l with
  | case1 l hmore ih =>
    have hpos : 0 < l.step.chunkCount := Nat.succ_pos _
    obtain ⟨k, hk⟩ : ∃ k, l.step.chunkCount = k + 1 := ⟨_, (Nat.succ_pred_eq_of_pos hpos).symm⟩
    rw [ih, chunkCount_of_hasMore hmore, hk]
    rfl
  | case2 l hmore => rw [chunkCount_of_not_hasMore hmore]; rfl

/-- The answers of a run are those of its steps. -/
theorem runAnswers_eq_steps (l : Loader) : l.runAnswers = (l.steps l.chunkCount).2 := by
  fun_induction runAnswers l with
  | case1 l hmore ih => rw [ih, chunkCount_of_hasMore hmore, steps, hmore]
  | case2 l hmore =>
    rw [chunkCount_of_not_hasMore hmore, steps, steps, Bool.eq_false_iff.mpr hmore]

/-- A run reads every line that is left. -/
theorem run_eq_advance (l : Loader) : l.run = l.advance l.pending.length := by
  rw [run_eq_steps, fst_steps]
  refine advance_of_length_le ?_
  have hdiv := Nat.lt_div_mul_add l.chunkSize_pos (a := l.pending.length - 1)
  rw [chunkCount, Nat.add_mul, Nat.one_mul]
  omega

end Loader

/-! ## One pass -/

/-- Load given lines, whatever text they are from. -/
def loadLines (config : Config) (id : Nat) (lines : List Text) : FilterList × List LineError :=
  ({ Loader.start config id [] with pending := lines } : Loader).run.finish

theorem loadList_eq_loadLines (config : Config) (id : Nat) (text : Text) :
    loadList config id text = loadLines config id (Text.lines text) := rfl

namespace Loader

/-- The lines are gone through once, one after the other. -/
theorem loadLines_eq_foldl (config : Config) (id : Nat) (text : Text) (lines : List Text) :
    loadLines config id lines = (lines.foldl readLine (start config id text)).finish := by
  have hplan : ({ start config id [] with pending := lines } : Loader) =
      (start config id text).withPlan lines _ (start config id text).chunkSize_pos := rfl
  rw [loadLines, run_eq_advance, finish_advance, List.take_length, hplan, foldl_readLine_withPlan,
    finish_withPlan]
  rfl

/-- The size of a chunk has no bearing on what is loaded. -/
theorem loadLines_chunkSize (config : Config) (size id : Nat) (lines : List Text) :
    loadLines { config with loader := ⟨size⟩ } id lines = loadLines config id lines := by
  have hplan : start { config with loader := ⟨size⟩ } id [] =
      (start config id []).withPlan [] (max size 1) (by omega) := rfl
  rw [loadLines_eq_foldl _ id [], loadLines_eq_foldl _ id [], hplan, foldl_readLine_withPlan,
    finish_withPlan]

/-- What some steps have loaded is what one pass loads from the lines that they have read. -/
theorem finish_steps_start (config : Config) (id : Nat) (text : Text) (n : Nat) :
    ((start config id text).steps n).1.finish =
      loadLines config id ((Text.lines text).take (n * max config.loader.chunkSize 1)) := by
  rw [fst_steps, finish_advance, loadLines_eq_foldl config id text]
  rfl

/-- **Chunks.** However a text is loaded in chunks, `n` of them read its first lines up to their
common length, in order, and the answer after each tells whether lines are left. What is loaded by
then is what one pass loads from those lines, with chunks of any size, and once no line is left
nothing changes. A run ends with the chunk that reads the last line, so that what it loads does not
depend on the size of the chunks. -/
theorem steps_start_eq_one_pass (config : Config) (id : Nat) (text : Text) :
    let lines := Text.lines text
    let size := max config.loader.chunkSize 1
    let begun := start config id text
    let count := (lines.length - 1) / size + 1
    (∀ n,
      (begun.steps n).1.next = min (n * size) lines.length ∧
      (begun.steps n).1.pending = lines.drop (n * size) ∧
      (begun.steps n).2 = (List.range n).map (fun k => decide ((k + 1) * size < lines.length)) ∧
      (∀ other, (begun.steps n).1.finish =
        loadLines { config with loader := ⟨other⟩ } id (lines.take (n * size))) ∧
      ((begun.steps n).2.getLast? = some false →
        ∀ m, (begun.steps (n + m)).1 = (begun.steps n).1)) ∧
    (begun.run = (begun.steps count).1 ∧ begun.runAnswers = (begun.steps count).2 ∧
      begun.runAnswers = List.replicate (count - 1) true ++ [false]) ∧
    ∀ other, loadList { config with loader := ⟨other⟩ } id text = loadList config id text := by
  intro lines size begun count
  refine ⟨fun n => ⟨?_, ?_, snd_steps begun n, fun other => ?_, fun hlast m => ?_⟩,
    ⟨run_eq_steps begun, runAnswers_eq_steps begun, runAnswers_eq_replicate begun⟩,
    fun other => ?_⟩
  · rw [fst_steps, next_advance]
    exact Nat.zero_add _
  · rw [fst_steps, pending_advance]
    rfl
  · rw [loadLines_chunkSize]
    exact finish_steps_start config id text n
  · exact fst_steps_of_length_le (length_le_of_getLast?_snd_steps hlast) m
  · rw [loadList_eq_loadLines, loadList_eq_loadLines, loadLines_chunkSize]

end Loader

end ContentFilter
