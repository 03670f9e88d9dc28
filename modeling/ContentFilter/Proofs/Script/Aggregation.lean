import ContentFilter.Proofs.Script.Memo
import ContentFilter.Script.Collection
import Mathlib.Data.List.Induction

/-!
# What a history of appends comes to

A rule is passed over if one of its identity is collected, and then its script is not made. If its
script cannot be made, nothing changes at all. So what is collected are the rules whose scripts
could be made when they were appended, as far as no such rule of the same identity came before
(`holds_run`).

Nothing is said about the rules, which may be different and have one identity, nor about the scripts
that are kept. Other parties use them too, and may have kept or cleared any before each append.
-/

set_option autoImplicit false

namespace ContentFilter.ScriptCollection

/-! ## Histories -/

/-- One append, with what has become of the kept scripts since the one before. -/
structure Turn extends Materializer.Demand where
  meanwhile : ScriptCache → ScriptCache

/-- A collection as a turn finds it. -/
def foundBy (c : ScriptCollection) (t : Turn) : ScriptCollection :=
  { c with cache := t.meanwhile c.cache }

/-- The script that is made for the rule of a turn, if it is made. -/
def attempt (m : Materializer) (c : ScriptCollection) (t : Turn) : Reading Materialization :=
  m.materialize (c.foundBy t).cache t.rule t.page

/-- The collection after a turn. -/
def take (m : Materializer) (c : ScriptCollection) (t : Turn) : ScriptCollection :=
  (c.foundBy t).append m t.rule t.page

/-- The collection after several turns. -/
def run (m : Materializer) (c : ScriptCollection) (turns : List Turn) : ScriptCollection :=
  turns.foldl (take m) c

/-- What a turn would add to a collection if nothing of the same identity were in it. -/
def candidate? (m : Materializer) (c : ScriptCollection) (t : Turn) : Option ScriptEntry :=
  match c.attempt m t with
  | .ok made => some ⟨t.rule, made.script⟩
  | .error _ => none

/-- The rules whose scripts can be made, each with the one that is made in its turn. -/
def candidates (m : Materializer) (c : ScriptCollection) : List Turn → List ScriptEntry
  | [] => []
  | t :: turns => (c.candidate? m t).toList ++ candidates m (c.take m t) turns

/-- The first entry of each identity. -/
def firsts (entries : List ScriptEntry) : List ScriptEntry :=
  entries.eraseDupsBy (·.rule.id == ·.rule.id)

/-! ## Firsts -/

/-- The first entry of a list comes first, and others of its identity do not count. -/
theorem firsts_cons (e : ScriptEntry) (entries : List ScriptEntry) :
    firsts (e :: entries) = e :: firsts (entries.filter (·.rule.id != e.rule.id)) := by
  rw [firsts, List.eraseDupsBy_cons, firsts]
  simp only [Bool.decide_eq_false, bne]

/-- An entry behind others is a first one unless its identity occurs before. -/
theorem firsts_concat (entries : List ScriptEntry) (e : ScriptEntry) :
    firsts (entries ++ [e]) =
      firsts entries ++ if entries.any (·.rule.id == e.rule.id) then [] else [e] := by
  -- Of what follows the first entry, only the entries of other identities stay.
  cases entries with
  | nil => rfl
  | cons first rest =>
    rw [List.cons_append, firsts_cons, firsts_cons, List.filter_append, List.any_cons]
    by_cases hid : e.rule.id = first.rule.id
    · simp [hid]
    · have hany : (rest.filter (·.rule.id != first.rule.id)).any (·.rule.id == e.rule.id) =
          rest.any (·.rule.id == e.rule.id) := by
        rw [List.any_filter]
        congr 1
        funext e'
        by_cases he' : e'.rule.id = e.rule.id
        · simp [he', hid]
        · simp [he']
      have hkept : [e].filter (·.rule.id != first.rule.id) = [e] := by simp [hid]
      rw [hkept, firsts_concat, hany, beq_false_of_ne (Ne.symm hid), Bool.false_or,
        List.cons_append]
termination_by entries.length
decreasing_by
  exact Nat.lt_succ_of_le (List.length_filter_le _ _)

theorem firsts_concat_of_any {entries : List ScriptEntry} {e : ScriptEntry}
    (h : entries.any (·.rule.id == e.rule.id) = true) :
    firsts (entries ++ [e]) = firsts entries := by
  rw [firsts_concat, if_pos h, List.append_nil]

theorem firsts_concat_of_not_any {entries : List ScriptEntry} {e : ScriptEntry}
    (h : entries.any (·.rule.id == e.rule.id) = false) :
    firsts (entries ++ [e]) = firsts entries ++ [e] := by
  rw [firsts_concat, h, if_neg Bool.false_ne_true]

/-- An identity occurs among the first entries if it occurs at all. -/
theorem any_firsts (entries : List ScriptEntry) (id : RuleId) :
    (firsts entries).any (·.rule.id == id) = entries.any (·.rule.id == id) := by
  induction entries using List.reverseRecOn with
  | nil => rfl
  | append_singleton entries e ih =>
    rw [firsts_concat, List.any_append, List.any_append, ih]
    split
    case isTrue hseen =>
      by_cases hid : e.rule.id = id
      · rw [← hid, hseen, Bool.true_or, Bool.true_or]
      · simp [hid]
    case isFalse => rfl

/-! ## One turn -/

variable {m : Materializer} {c : ScriptCollection} {t : Turn} {made : Materialization}

/-- A rule whose identity was collected changes nothing. -/
theorem take_of_contains (h : c.contains t.rule.id = true) : c.take m t = c.foundBy t :=
  if_pos h

/-- A rule whose script cannot be made changes nothing. -/
theorem take_of_error {e : SyntaxError} (h : c.attempt m t = .error e) :
    c.take m t = c.foundBy t := by
  rw [attempt] at h
  rw [take, append, h]
  exact ite_self _

/-- A new rule whose script is made is collected. -/
theorem take_of_ok (hnew : c.contains t.rule.id = false) (h : c.attempt m t = .ok made) :
    c.take m t = ((c.foundBy t).record made).add ⟨t.rule, made.script⟩ := by
  rw [attempt] at h
  rw [take, append, h]
  exact if_neg (Bool.eq_false_iff.mp hnew)

theorem candidate?_of_ok (h : c.attempt m t = .ok made) :
    c.candidate? m t = some ⟨t.rule, made.script⟩ := by
  rw [candidate?, h]

theorem candidate?_of_error {e : SyntaxError} (h : c.attempt m t = .error e) :
    c.candidate? m t = none := by
  rw [candidate?, h]

/-- A collection holds some entries, and nothing else. -/
structure Holds (c : ScriptCollection) (S : List ScriptEntry) : Prop where
  generic : c.generic.toList = S.filter (·.rule.isGeneric)
  specific : c.specific.toList = S.filter (!·.rule.isGeneric)
  seen : ∀ id, c.contains id = S.any (·.rule.id == id)

/-- What a turn comes to, if `S` and `S'` are what is to be collected without it and with it. -/
structure Turn.Spec (m : Materializer) (c : ScriptCollection) (t : Turn)
    (S S' : List ScriptEntry) : Prop where
  /-- For an identity that is collected nothing is made. -/
  repeated : S.any (·.rule.id == t.rule.id) = true → c.take m t = c.foundBy t ∧ S' = S
  /-- After a failure everything is as before, so there can be another attempt. -/
  failed : ∀ e, c.attempt m t = .error e → c.take m t = c.foundBy t ∧ S' = S
  added : ∀ made, S.any (·.rule.id == t.rule.id) = false → c.attempt m t = .ok made →
    c.take m t = ((c.foundBy t).record made).add ⟨t.rule, made.script⟩ ∧
      S' = S ++ [⟨t.rule, made.script⟩]

section

variable {S S' entries : List ScriptEntry}

theorem holds_start (cache : ScriptCache) : (start cache).Holds (firsts []) where
  generic := rfl
  specific := rfl
  seen _ := Std.HashSet.contains_empty

/-- What becomes of the kept scripts between turns leaves the entries alone. -/
theorem Holds.foundBy (h : c.Holds S) (t : Turn) : (c.foundBy t).Holds S :=
  ⟨h.generic, h.specific, h.seen⟩

/-- An entry that is added is held in addition. -/
theorem Holds.add (h : c.Holds S) (made : Materialization) (entry : ScriptEntry) :
    ((c.record made).add entry).Holds (S ++ [entry]) where
  generic := by
    rw [generic_add, List.filter_append, ← h.generic, List.filter_singleton, Bool.cond_eq_ite]
    rfl
  specific := by
    rw [specific_add, List.filter_append, ← h.specific, List.filter_singleton]
    cases entry.rule.isGeneric <;> rfl
  seen id := by
    rw [contains_add, List.any_append, ← h.seen, List.any_cons, List.any_nil, Bool.or_false]
    rfl

/-- A turn collects the first entries of what came before and of what it adds. -/
theorem Holds.turn_spec (h : c.Holds (firsts entries)) (m : Materializer) (t : Turn) :
    t.Spec m c (firsts entries) (firsts (entries ++ (c.candidate? m t).toList)) := by
  have hseen := h.seen t.rule.id
  constructor
  case repeated =>
    intro hany
    refine ⟨take_of_contains (hseen.trans hany), ?_⟩
    cases hattempt : c.attempt m t with
    | error e => rw [candidate?_of_error hattempt, Option.toList_none, List.append_nil]
    | ok made =>
      rw [candidate?_of_ok hattempt, Option.toList_some]
      exact firsts_concat_of_any ((any_firsts _ _).symm.trans hany)
  case failed =>
    intro e hattempt
    rw [candidate?_of_error hattempt, Option.toList_none, List.append_nil]
    exact ⟨take_of_error hattempt, rfl⟩
  case added =>
    intro made hany hattempt
    rw [candidate?_of_ok hattempt, Option.toList_some]
    exact ⟨take_of_ok (hseen.trans hany) hattempt,
      firsts_concat_of_not_any ((any_firsts _ _).symm.trans hany)⟩

/-- **The step.** -/
theorem Holds.take (h : c.Holds S) (ht : t.Spec m c S S') : (c.take m t).Holds S' := by
  cases hany : S.any (·.rule.id == t.rule.id) with
  | true =>
    obtain ⟨htake, rfl⟩ := ht.repeated hany
    rw [htake]
    exact h.foundBy t
  | false =>
    cases hattempt : c.attempt m t with
    | error e =>
      obtain ⟨htake, rfl⟩ := ht.failed e hattempt
      rw [htake]
      exact h.foundBy t
    | ok made =>
      obtain ⟨htake, rfl⟩ := ht.added made hany hattempt
      rw [htake]
      exact (h.foundBy t).add made _

end

/-! ## A history -/

/-- **The run.** -/
theorem Holds.run {entries : List ScriptEntry} (h : c.Holds (firsts entries)) (m : Materializer)
    (turns : List Turn) : (c.run m turns).Holds (firsts (entries ++ c.candidates m turns)) := by
  induction turns generalizing entries c with
  | nil =>
    rw [candidates, List.append_nil]
    exact h
  | cons t turns ih =>
    rw [candidates, ← List.append_assoc]
    exact ih (h.take (h.turn_spec m t))

/-- A turn more has at most one candidate more. -/
theorem candidates_concat (m : Materializer) (c : ScriptCollection) (turns : List Turn) (t : Turn) :
    c.candidates m (turns ++ [t]) =
      c.candidates m turns ++ ((c.run m turns).candidate? m t).toList := by
  induction turns generalizing c with
  | nil => exact List.append_nil _
  | cons t' turns ih =>
    rw [List.cons_append, candidates, ih, candidates, List.append_assoc]
    rfl

/-- **Aggregation.** Whatever is appended to a new collection, and whatever becomes of the kept
scripts in between, the collection holds the first rule of each identity whose script could be made,
with the script that was made in its turn. Rules without permitted domains come before the others
and apart from that all are in the order in which they were appended. A turn that adds nothing
changes nothing. -/
theorem holds_run (m : Materializer) (cache : ScriptCache) (turns : List Turn) :
    let c := (start cache).run m turns
    let S := firsts ((start cache).candidates m turns)
    c.generic.toList = S.filter (·.rule.domains.permitted.isEmpty) ∧
      c.specific.toList = S.filter (!·.rule.domains.permitted.isEmpty) ∧
      c.rules = (c.generic.toList ++ c.specific.toList).map (·.rule) ∧
      (c.scripts false = (c.generic.toList ++ c.specific.toList).map (·.script.script) ∧
        c.scripts true = (c.generic.toList ++ c.specific.toList).map (·.script.verbose)) ∧
      c.length = S.length ∧
      ∀ t : Turn, t.Spec m c S (firsts ((start cache).candidates m (turns ++ [t]))) := by
  intro c S
  have h : c.Holds S := (holds_start cache).run m turns
  refine ⟨h.generic, h.specific, rfl, ⟨rfl, rfl⟩, ?_, fun t => ?_⟩
  · rw [length, ← Array.length_toList, ← Array.length_toList, h.generic, h.specific]
    exact (List.length_eq_length_filter_add _).symm
  · rw [candidates_concat]
    exact h.turn_spec m t

end ContentFilter.ScriptCollection
