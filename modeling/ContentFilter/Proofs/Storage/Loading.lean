import ContentFilter.Proofs.Rule.Identity
import ContentFilter.Proofs.Storage.Chunks
import ContentFilter.Proofs.Storage.FilterList

/-!
# Nothing lost, nothing invented

What a list holds is settled by its lines, each read by itself under its own number: a line
that reads as a rule is that rule under that number, a line that cannot be read is an error with
that number, and any other line is nothing.

`Loader.Loaded` says this of a loader that has read the first `k` of the lines, so it relates
the lines read so far to both sides of the filter list and to the errors. Reading the next line
keeps it (`Loaded.readLine`, from one lemma for each thing that the line can be), and so does a
pass over all of them (`Loaded.foldl`). `IsLoadOf` is what the end of the pass comes to, without
mention of a loader.
-/

set_option autoImplicit false

namespace ContentFilter

/-! ## Lines by number -/

section

variable (policy : DuplicatePolicy) (id : Nat) (lines : List Text) (i : Nat)

/-- What the line with a number reads as. Lines whose number is no key are not read. -/
def readAt? : Option (Reading (Option Rule)) :=
  if i < keyLimit then lines[i]?.map (Rule.read policy ⟨id, i⟩) else none

/-- The rule that the line with a number holds. -/
def ruleAt? : Option Rule :=
  match readAt? policy id lines i with
  | some (.ok rule) => rule
  | _ => none

/-- The error of the line with a number. -/
def errorAt? : Option LineError :=
  match readAt? policy id lines i with
  | some (.error e) => some ⟨i, e.span, e.message⟩
  | _ => none

end

section

variable {policy : DuplicatePolicy} {id : Nat} {lines : List Text} {i : Nat}

theorem readAt?_of_getElem? {line : Text} (hlimit : i < keyLimit) (hline : lines[i]? = some line) :
    readAt? policy id lines i = some (Rule.read policy ⟨id, i⟩ line) := by
  rw [readAt?, if_pos hlimit, hline, Option.map_some]

theorem readAt?_eq_none (h : lines.length ≤ i) : readAt? policy id lines i = none := by
  rw [readAt?, List.getElem?_eq_none h, Option.map_none, ite_self]

/-- What is read at a number is the line there, under that key. -/
theorem readAt?_eq_some_iff {reading : Reading (Option Rule)} :
    readAt? policy id lines i = some reading ↔
      i < keyLimit ∧ ∃ line, lines[i]? = some line ∧ Rule.read policy ⟨id, i⟩ line = reading := by
  rw [readAt?]
  by_cases hlimit : i < keyLimit
  · rw [if_pos hlimit, Option.map_eq_some_iff, and_iff_right hlimit]
  · rw [if_neg hlimit]
    exact ⟨fun h => (nomatch h), fun h => absurd h.1 hlimit⟩

/-- The rule at a number is what the line there holds. -/
theorem ruleAt?_eq_some_iff {rule : Rule} :
    ruleAt? policy id lines i = some rule ↔
      i < keyLimit ∧
        ∃ line, lines[i]? = some line ∧ Rule.read policy ⟨id, i⟩ line = .ok (some rule) := by
  rw [← readAt?_eq_some_iff, ruleAt?]
  cases readAt? policy id lines i with
  | none => exact ⟨fun h => (nomatch h), fun h => (nomatch h)⟩
  | some reading =>
    cases reading with
    | error e => exact ⟨fun h => (nomatch h), fun h => (nomatch h)⟩
    | ok held =>
      exact ⟨fun h => congrArg (some ∘ Except.ok) h, fun h => Except.ok.inj (Option.some.inj h)⟩

theorem line_of_errorAt? {e : LineError} (h : errorAt? policy id lines i = some e) :
    e.line = i := by
  rw [errorAt?] at h
  split at h
  · obtain rfl := Option.some.inj h
    rfl
  · exact nomatch h

theorem key_of_ruleAt? {rule : Rule} (h : ruleAt? policy id lines i = some rule) :
    rule.id = ⟨id, i⟩ := by
  obtain ⟨-, line, -, hread⟩ := ruleAt?_eq_some_iff.mp h
  exact Rule.id_of_read hread

end

namespace Loader

/-- What a loader has after the first `k` of the lines. -/
structure Loaded (policy : DuplicatePolicy) (id : Nat) (lines : List Text) (k : Nat)
    (l : Loader) : Prop where
  listId : l.list.id = id
  duplicates : l.duplicates = policy
  next : l.next = k
  wellFormed : l.list.WellFormed
  get? : ∀ i, l.list.get? i = if i < k then ruleAt? policy id lines i else none
  sorted : l.list.keys.Pairwise (· < ·)
  errors : l.errors.toList = (List.range k).filterMap (errorAt? policy id lines)

variable {policy : DuplicatePolicy} {id : Nat} {lines : List Text} {k : Nat} {l : Loader}

theorem loaded_start (config : Config) (id : Nat) (text : Text) (lines : List Text) :
    Loaded config.parser.duplicates id lines 0 (start config id text) where
  listId := rfl
  duplicates := rfl
  next := rfl
  wellFormed := FilterList.wellFormed_empty id
  get? i := FilterList.get?_empty id i
  sorted := .nil
  errors := rfl

/-! ## The step -/

theorem filterMap_range_succ {α : Type} (f : Nat → Option α) (k : Nat) :
    (List.range (k + 1)).filterMap f = (List.range k).filterMap f ++ (f k).toList := by
  rw [List.range_succ, List.filterMap_append]
  cases h : f k <;> simp [h]

/-- Keys in use are below the number of lines read. -/
theorem Loaded.lt_of_mem_keys (h : Loaded policy id lines k l) {i : Nat}
    (hi : i ∈ l.list.keys) : i < k := by
  rw [h.wellFormed.mem_keys, h.get?] at hi
  by_contra hge
  rw [if_neg hge] at hi
  exact nomatch hi

/-- A line that holds no rule leaves the rules as they are. -/
theorem Loaded.get?_of_ruleAt?_eq_none (h : Loaded policy id lines k l)
    (hrule : ruleAt? policy id lines k = none) (i : Nat) :
    l.list.get? i = if i < k + 1 then ruleAt? policy id lines i else none := by
  rw [h.get?]
  by_cases hi : i = k
  · rw [hi, if_neg (Nat.lt_irrefl k), if_pos (Nat.lt_succ_self k), hrule]
  · have hlt : i < k ↔ i < k + 1 := by omega
    simp only [hlt]

/-- **The step**, for a line that holds nothing. -/
theorem Loaded.skip (h : Loaded policy id lines k l) (hrule : ruleAt? policy id lines k = none)
    (herror : errorAt? policy id lines k = none) :
    Loaded policy id lines (k + 1) { l with next := l.next + 1 } where
  listId := h.listId
  duplicates := h.duplicates
  next := congrArg (· + 1) h.next
  wellFormed := h.wellFormed
  get? := h.get?_of_ruleAt?_eq_none hrule
  sorted := h.sorted
  errors := by rw [filterMap_range_succ, herror, h.errors, Option.toList_none, List.append_nil]

/-- **The step**, for a line that cannot be read. -/
theorem Loaded.report (h : Loaded policy id lines k l) {e : LineError}
    (hrule : ruleAt? policy id lines k = none) (herror : errorAt? policy id lines k = some e) :
    Loaded policy id lines (k + 1) { l with errors := l.errors.push e, next := l.next + 1 } where
  listId := h.listId
  duplicates := h.duplicates
  next := congrArg (· + 1) h.next
  wellFormed := h.wellFormed
  get? := h.get?_of_ruleAt?_eq_none hrule
  sorted := h.sorted
  errors := by rw [filterMap_range_succ, herror, Array.toList_push, h.errors, Option.toList_some]

/-- **The step**, for a line that holds a rule. Its number is higher than all keys so far. -/
theorem Loaded.store (h : Loaded policy id lines k l) {rule : Rule}
    (hrule : ruleAt? policy id lines k = some rule)
    (herror : errorAt? policy id lines k = none) :
    Loaded policy id lines (k + 1) { l with list := l.list.insert rule, next := l.next + 1 } := by
  have hkey : rule.key = k := congrArg RuleId.key (key_of_ruleAt? hrule)
  have hnew : l.list.get? rule.key = none := by
    rw [h.get?, hkey, if_neg (Nat.lt_irrefl k)]
  constructor
  case listId => exact h.listId
  case duplicates => exact h.duplicates
  case next => exact congrArg (· + 1) h.next
  case wellFormed => exact h.wellFormed.insert rule
  case get? =>
    -- The rule is put under its own key, which is the number of its line since it was read as such.
    intro i
    show (l.list.insert rule).get? i = _
    by_cases hi : i = k
    · rw [hi, ← hkey, FilterList.get?_insert_self, hkey, if_pos (Nat.lt_succ_self k), hrule]
    · have hlt : i < k ↔ i < k + 1 := by omega
      rw [FilterList.get?_insert_of_ne l.list (by omega), h.get?]
      simp only [hlt]
  case sorted =>
    show (l.list.insert rule).keys.Pairwise (· < ·)
    rw [FilterList.keys_insert_of_eq_none hnew, List.pairwise_append]
    refine ⟨h.sorted, List.pairwise_singleton _ _, fun i hi j hj => ?_⟩
    rw [List.mem_singleton.mp hj, hkey]
    exact h.lt_of_mem_keys hi
  case errors =>
    rw [filterMap_range_succ, herror, h.errors, Option.toList_none, List.append_nil]

/-- The loader reads the next line under its number. -/
theorem Loaded.reading?_eq (h : Loaded policy id lines k l) {line : Text}
    (hline : lines[k]? = some line) : l.reading? line = readAt? policy id lines k := by
  rw [reading?, readAt?, h.duplicates, h.listId, h.next, hline, Option.map_some]

/-- **The step.** -/
theorem Loaded.readLine (h : Loaded policy id lines k l) {line : Text}
    (hline : lines[k]? = some line) : Loaded policy id lines (k + 1) (l.readLine line) := by
  rw [readLine_eq_note, h.reading?_eq hline]
  rcases hat : readAt? policy id lines k with _ | e | _ | rule
  · exact h.skip (by rw [ruleAt?, hat]) (by rw [errorAt?, hat])
  · exact h.report (by rw [ruleAt?, hat]) (by rw [errorAt?, hat, h.next])
  · exact h.skip (by rw [ruleAt?, hat]) (by rw [errorAt?, hat])
  · exact h.store (by rw [ruleAt?, hat]) (by rw [errorAt?, hat])

/-- **The run.** -/
theorem Loaded.foldl (h : Loaded policy id lines k l) {rest : List Text}
    (hrest : lines.drop k = rest) :
    Loaded policy id lines (k + rest.length) (rest.foldl Loader.readLine l) := by
  induction rest generalizing k l with
  | nil => exact h
  | cons line rest ih =>
    -- What is left is a tail of all lines, so its first line has the number `k`.
    have hline : lines[k]? = some line := by
      rw [← Nat.add_zero k, ← List.getElem?_drop, hrest]
      rfl
    have hdrop : lines.drop (k + 1) = rest := by
      rw [← List.drop_drop, hrest]
      rfl
    rw [List.foldl_cons, List.length_cons, Nat.add_comm rest.length, ← Nat.add_assoc]
    exact ih (h.readLine hline) hdrop

/-- The loader after one pass over all lines. -/
theorem loaded_foldl (config : Config) (id : Nat) (text : Text) (lines : List Text) :
    Loaded config.parser.duplicates id lines lines.length
      (lines.foldl Loader.readLine (start config id text)) := by
  have hrun := (loaded_start config id text lines).foldl List.drop_zero
  rwa [Nat.zero_add] at hrun

end Loader

/-! ## What a list holds -/

/-- A filter list and errors are what loading some lines gives: every line accounts for the rule
under its number and for the errors with its number, and nothing else is there. -/
structure IsLoadOf (policy : DuplicatePolicy) (id : Nat) (lines : List Text) (list : FilterList)
    (errors : List LineError) : Prop where
  listId : list.id = id
  /-- The rules are those that the lines hold, each under the number of its line. -/
  get?_iff : ∀ i rule, list.get? i = some rule ↔
    ∃ line, lines[i]? = some line ∧ Rule.read policy ⟨id, i⟩ line = .ok (some rule)
  ruleId : ∀ i rule, list.get? i = some rule → rule.id = ⟨id, i⟩
  /-- A line that cannot be read is reported once. -/
  errors_of_error : ∀ i line e, lines[i]? = some line → Rule.read policy ⟨id, i⟩ line = .error e →
    errors.filter (·.line = i) = [⟨i, e.span, e.message⟩]
  /-- A line that can be read is not reported. -/
  errors_of_ok : ∀ i line held, lines[i]? = some line → Rule.read policy ⟨id, i⟩ line = .ok held →
    errors.filter (·.line = i) = []
  errors_lt : ∀ e ∈ errors, e.line < lines.length
  /-- Blank lines and comments leave nothing. -/
  blank_or_comment : ∀ i line, lines[i]? = some line →
    Text.trim Text.isWhite line = [] ∨ Rule.isComment (Text.trim Text.isWhite line) = true →
    list.get? i = none ∧ errors.filter (·.line = i) = []
  /-- The rules are enumerated in line order, each once. -/
  mem_rules : ∀ rule, rule ∈ list.rules ↔ ∃ i, list.get? i = some rule
  rules_sorted : list.rules.Pairwise (·.key < ·.key)
  length_rules : list.length = list.rules.length
  errors_sorted : errors.Pairwise (·.line < ·.line)

namespace Loader

variable {policy : DuplicatePolicy} {id : Nat} {lines : List Text} {k : Nat} {l : Loader}

/-- Of the errors at a number only that number tells. -/
theorem filter_line_errorAt? (policy : DuplicatePolicy) (id : Nat) (lines : List Text)
    (j i : Nat) :
    (errorAt? policy id lines j).toList.filter (·.line = i) =
      if j = i then (errorAt? policy id lines i).toList else [] := by
  cases herror : errorAt? policy id lines j with
  | none =>
    by_cases hj : j = i
    · rw [if_pos hj, ← hj, herror]
      rfl
    · rw [if_neg hj]
      rfl
  | some e =>
    have hline : e.line = j := line_of_errorAt? herror
    by_cases hj : j = i
    · rw [if_pos hj, ← hj, herror, Option.toList_some,
        List.filter_cons_of_pos (by simpa using hline), List.filter_nil]
    · rw [if_neg hj, Option.toList_some,
        List.filter_cons_of_neg (by simpa [hline] using hj), List.filter_nil]

/-- Of the errors of the lines below `k`, those with a number are the error of its line. -/
theorem filter_line_filterMap_errorAt? (policy : DuplicatePolicy) (id : Nat) (lines : List Text)
    (k i : Nat) :
    ((List.range k).filterMap (errorAt? policy id lines)).filter (·.line = i) =
      if i < k then (errorAt? policy id lines i).toList else [] := by
  induction k with
  | zero => rfl
  | succ k ih =>
    rw [filterMap_range_succ, List.filter_append, ih, filter_line_errorAt?]
    by_cases hi : i = k
    · rw [if_neg (by omega), if_pos hi.symm, if_pos (by omega), List.nil_append]
    · have hlt : i < k ↔ i < k + 1 := by omega
      rw [if_neg (Ne.symm hi), List.append_nil]
      simp only [hlt]

/-- The errors come in the order of their lines. -/
theorem Loaded.errors_sorted (h : Loaded policy id lines k l) :
    l.errors.toList.Pairwise (·.line < ·.line) := by
  rw [h.errors, List.pairwise_filterMap]
  refine List.pairwise_lt_range.imp fun {i j} hij e he e' he' => ?_
  rw [line_of_errorAt? he, line_of_errorAt? he']
  exact hij

/-- The rules come in the order of their lines. -/
theorem Loaded.rules_sorted (h : Loaded policy id lines k l) :
    l.list.rules.Pairwise (·.key < ·.key) := by
  rw [← List.pairwise_map (f := Rule.key) (R := (· < ·))]
  exact h.sorted

/-! What a loader has when all lines are read. -/

/-- When every line was read, what is under a key is what the line with that number holds. -/
theorem Loaded.get?_eq_ruleAt? (h : Loaded policy id lines lines.length l) (i : Nat) :
    l.list.get? i = ruleAt? policy id lines i := by
  rw [h.get?]
  by_cases hi : i < lines.length
  · rw [if_pos hi]
  · rw [if_neg hi, ruleAt?, readAt?_eq_none (Nat.le_of_not_lt hi)]

/-- When every line was read, the errors with a number are those of that line. -/
theorem Loaded.filter_errors_eq (h : Loaded policy id lines lines.length l) (i : Nat) :
    l.errors.toList.filter (·.line = i) = (errorAt? policy id lines i).toList := by
  rw [h.errors, filter_line_filterMap_errorAt?]
  by_cases hi : i < lines.length
  · rw [if_pos hi]
  · rw [if_neg hi, errorAt?, readAt?_eq_none (Nat.le_of_not_lt hi)]
    rfl

/-- If moreover no line has too high a number for a key, nothing is missing. -/
theorem Loaded.isLoadOf (h : Loaded policy id lines lines.length l)
    (hlimit : lines.length ≤ keyLimit) : IsLoadOf policy id lines l.list l.errors.toList := by
  have hlt : ∀ {i line}, lines[i]? = some line → i < keyLimit := by
    intro i line hline
    have hi := (List.getElem?_eq_some_iff.mp hline).1
    omega
  have hread : ∀ {i line}, lines[i]? = some line →
      readAt? policy id lines i = some (Rule.read policy ⟨id, i⟩ line) := fun hline =>
    readAt?_of_getElem? (hlt hline) hline
  have hquiet : ∀ i line held, lines[i]? = some line →
      Rule.read policy ⟨id, i⟩ line = .ok held → l.errors.toList.filter (·.line = i) = [] := by
    intro i line held hline hok
    rw [h.filter_errors_eq, errorAt?, hread hline, hok]
    rfl
  constructor
  case listId => exact h.listId
  case get?_iff =>
    -- A line there is has a number that is a key.
    intro i rule
    rw [h.get?_eq_ruleAt?, ruleAt?_eq_some_iff, and_iff_right_iff_imp]
    rintro ⟨line, hline, -⟩
    exact hlt hline
  case ruleId =>
    intro i rule hrule
    rw [h.get?_eq_ruleAt?] at hrule
    exact key_of_ruleAt? hrule
  case errors_of_error =>
    intro i line e hline herror
    rw [h.filter_errors_eq, errorAt?, hread hline, herror]
    rfl
  case errors_of_ok => exact hquiet
  case errors_lt =>
    intro e he
    rw [h.errors, List.mem_filterMap] at he
    obtain ⟨i, hi, he⟩ := he
    rw [line_of_errorAt? he]
    exact List.mem_range.mp hi
  case blank_or_comment =>
    intro i line hline hblank
    have hnone : Rule.read policy ⟨id, i⟩ line = .ok none := Rule.read_of_blank_or_comment hblank
    refine ⟨?_, hquiet i line none hline hnone⟩
    rw [h.get?_eq_ruleAt?, ruleAt?, hread hline, hnone]
  case mem_rules => exact fun rule => h.wellFormed.mem_rules
  case rules_sorted => exact h.rules_sorted
  case length_rules => exact h.wellFormed.length
  case errors_sorted => exact h.errors_sorted

end Loader

/-- **Nothing lost, nothing invented.** A text with no more lines than there are keys loads to the
rules of its lines under their numbers and to the errors of its lines with their numbers. -/
theorem isLoadOf_loadList (config : Config) (id : Nat) (text : Text)
    (h : (Text.lines text).length ≤ keyLimit) :
    IsLoadOf config.parser.duplicates id (Text.lines text) (loadList config id text).1
      (loadList config id text).2 := by
  rw [loadList_eq_loadLines, Loader.loadLines_eq_foldl config id text]
  exact (Loader.loaded_foldl config id text (Text.lines text)).isLoadOf h

/-- The comment on the first of these lines leaves nothing. -/
theorem isLoadOf_loadList_comment_first :
    let text := "! hosts\n||a.com^\n||b.com^$bogus".toList
    (Text.lines text).length ≤ keyLimit ∧
      IsLoadOf .lastWins 1 (Text.lines text) (loadList {} 1 text).1 (loadList {} 1 text).2 ∧
      (loadList {} 1 text).1.get? 0 = none := by
  intro text
  have hlimit : (Text.lines text).length ≤ keyLimit := by decide
  have hload := isLoadOf_loadList {} 1 text hlimit
  exact ⟨hlimit, hload, (hload.blank_or_comment 0 "! hosts".toList (by decide) (by decide)).1⟩

end ContentFilter
