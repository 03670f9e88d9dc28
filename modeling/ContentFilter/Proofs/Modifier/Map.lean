import ContentFilter.Modifier.Reader
import ContentFilter.Proofs.Reading
import Mathlib.Data.List.Basic
import Mathlib.Data.List.Induction

/-!
# The modifiers of a block

A block is read into a map by putting its modifiers into it one after the other. The map is kept
as a list, and both what it holds and in what order matter later: effects are added in that order.
`entries_ofModifiers` settles both. The entries stand in the order in which their kinds are first
named, and the entry of a kind is the last modifier of that kind.

So a modifier that is given twice keeps its first place and takes its last value. The policy on
duplicates has no part in this: it decides whether a block is accepted, and an accepted block holds
the same under either (`eq_foldl_put_of_readTokens`).
-/

set_option autoImplicit false

namespace ContentFilter.ModifierMap

/-! ## Kinds and last modifiers -/

/-- The map that results from modifiers put one after the other. -/
def ofModifiers (ms : List Modifier) : ModifierMap := ms.foldl put {}

/-- The kinds of modifiers, in the order in which they are first named. -/
def kinds (ms : List Modifier) : List ModifierKind := (ms.map (·.kind)).eraseDups

/-- The last modifier of a kind. -/
def last? (ms : List Modifier) (kind : ModifierKind) : Option Modifier :=
  ms.reverse.find? (·.kind == kind)

/-- A kind is named if some modifier is of it. -/
theorem mem_kinds {ms : List Modifier} {kind : ModifierKind} :
    kind ∈ kinds ms ↔ ∃ m ∈ ms, m.kind = kind := by
  rw [kinds, List.mem_eraseDups, List.mem_map]

/-- A modifier behind others adds its kind, unless it was named before. -/
theorem kinds_concat (ms : List Modifier) (m : Modifier) :
    kinds (ms ++ [m]) = if m.kind ∈ kinds ms then kinds ms else kinds ms ++ [m.kind] := by
  have hmem : m.kind ∈ kinds ms ↔ m.kind ∈ ms.map (·.kind) := List.mem_eraseDups
  simp only [hmem]
  rw [kinds, kinds, List.map_append, List.map_singleton, List.eraseDups_append]
  generalize ms.map (·.kind) = named
  by_cases h : m.kind ∈ named <;> simp [List.removeAll, h, List.eraseDups_cons]

/-- Further modifiers name further kinds behind those that are named already. -/
theorem exists_kinds_append (ms ms' : List Modifier) :
    ∃ later, kinds (ms ++ ms') = kinds ms ++ later := by
  refine ⟨((ms'.map (·.kind)).removeAll (ms.map (·.kind))).eraseDups, ?_⟩
  rw [kinds, List.map_append, List.eraseDups_append, ← kinds]

theorem nodup_kinds (ms : List Modifier) : (kinds ms).Nodup := by
  induction ms using List.reverseRecOn with
  | nil => exact .nil
  | append_singleton ms m ih =>
    rw [kinds_concat]
    by_cases h : m.kind ∈ kinds ms
    · rwa [if_pos h]
    · rw [if_neg h, List.nodup_append]
      refine ⟨ih, by simp, fun kind hkind kind' hkind' => ?_⟩
      rw [List.mem_singleton.mp hkind']
      exact fun heq => h (heq ▸ hkind)

/-- A modifier behind others is the last one of its kind. -/
theorem last?_concat (ms : List Modifier) (m : Modifier) (kind : ModifierKind) :
    last? (ms ++ [m]) kind = if m.kind = kind then some m else last? ms kind := by
  rw [last?, List.reverse_append, List.reverse_singleton, List.singleton_append, List.find?_cons]
  by_cases h : m.kind = kind
  · simp [h]
  · have hne : (m.kind == kind) = false := beq_eq_false_iff_ne.mpr h
    rw [hne, if_neg h]
    rfl

theorem kind_of_last? {ms : List Modifier} {kind : ModifierKind} {m : Modifier}
    (h : last? ms kind = some m) : m.kind = kind := by
  simpa using List.find?_some h

/-- A kind that is named has a last modifier. -/
theorem exists_last?_of_mem_kinds {ms : List Modifier} {kind : ModifierKind}
    (h : kind ∈ kinds ms) : ∃ m, last? ms kind = some m := by
  obtain ⟨m, hm, hkind⟩ := mem_kinds.mp h
  rw [← Option.isSome_iff_exists, last?, List.find?_isSome]
  exact ⟨m, List.mem_reverse.mpr hm, by simpa using hkind⟩

/-- The last modifier of a kind is one behind which no modifier of its kind stands. -/
theorem last?_eq_some_iff {ms : List Modifier} {kind : ModifierKind} {m : Modifier} :
    last? ms kind = some m ↔
      m.kind = kind ∧ ∃ before after, ms = before ++ m :: after ∧ ∀ m' ∈ after, m'.kind ≠ kind := by
  rw [last?, List.find?_eq_some_iff_append]
  simp only [beq_iff_eq, Bool.not_eq_true', beq_eq_false_iff_ne]
  refine and_congr_right fun _ => ?_
  constructor
  · rintro ⟨later, earlier, hsplit, hlater⟩
    refine ⟨earlier.reverse, later.reverse, ?_, fun m' hm' => hlater m' (List.mem_reverse.mp hm')⟩
    rw [← List.reverse_reverse ms, hsplit]
    simp
  · rintro ⟨before, after, hsplit, hafter⟩
    refine ⟨after.reverse, before.reverse, ?_, fun m' hm' => hafter m' (List.mem_reverse.mp hm')⟩
    rw [hsplit]
    simp

/-- A modifier of kind `k` stands in front of all those of kind `k'`. -/
def NamedBefore (ms : List Modifier) (k k' : ModifierKind) : Prop :=
  ∃ before m after, ms = before ++ m :: after ∧ m.kind = k ∧ ∀ m' ∈ before, m'.kind ≠ k'

/-- Behind the place where the later kind is first named, neither kind is named first. -/
theorem NamedBefore.kinds_eq {ms : List Modifier} {k k' : ModifierKind} (h : NamedBefore ms k k')
    (hne : k ≠ k') (hmem : k' ∈ kinds ms) :
    ∃ front back, kinds ms = front ++ k' :: back ∧ k ∉ back ∧ k' ∉ back := by
  obtain ⟨before, m, after, rfl, hm, hbefore⟩ := h
  obtain ⟨later, hlater⟩ := exists_kinds_append (before ++ [m]) after
  rw [List.append_assoc, List.singleton_append] at hlater
  have hk : k ∈ kinds (before ++ [m]) := mem_kinds.mpr ⟨m, by simp, hm⟩
  have hk' : k' ∉ kinds (before ++ [m]) := by
    intro hin
    obtain ⟨m', hm', hkind⟩ := mem_kinds.mp hin
    rcases List.mem_append.mp hm' with hm' | hm'
    · exact hbefore m' hm' hkind
    · rw [List.mem_singleton.mp hm'] at hkind
      exact hne (hm.symm.trans hkind)
  rw [hlater, List.mem_append] at hmem
  obtain ⟨front, back, hsplit⟩ := List.append_of_mem (hmem.resolve_left hk')
  have hnodup := nodup_kinds (before ++ m :: after)
  rw [hlater, hsplit, List.nodup_append, List.nodup_append, List.nodup_cons] at hnodup
  refine ⟨kinds (before ++ [m]) ++ front, back, ?_, ?_, hnodup.2.1.2.1.1⟩
  · rw [hlater, hsplit, List.append_assoc]
  · intro hin
    exact hnodup.2.2 k hk k (by simp [hin]) rfl

/-- Of two kinds that occur, one is named before the other. -/
theorem namedBefore_of_not {ms : List Modifier} {k k' : ModifierKind} (hmem : k ∈ kinds ms)
    (h : ¬ NamedBefore ms k k') : NamedBefore ms k' k := by
  obtain ⟨first, hfirst⟩ : ∃ m, ms.find? (·.kind == k) = some m := by
    obtain ⟨m, hm, hkind⟩ := mem_kinds.mp hmem
    rw [← Option.isSome_iff_exists, List.find?_isSome]
    exact ⟨m, hm, by simpa using hkind⟩
  obtain ⟨hkind, before, after, rfl, hbefore⟩ := List.find?_eq_some_iff_append.mp hfirst
  simp only [beq_iff_eq, Bool.not_eq_true', beq_eq_false_iff_ne] at hkind hbefore
  -- What precedes the first `k` holds a `k'`, since otherwise that `k` would come before it.
  obtain ⟨m', hm', hkind'⟩ : ∃ m' ∈ before, m'.kind = k' := by
    by_contra hnone
    exact h ⟨before, first, after, rfl, hkind, fun m' hm' hk' => hnone ⟨m', hm', hk'⟩⟩
  obtain ⟨front, back, rfl⟩ := List.append_of_mem hm'
  refine ⟨front, m', back ++ first :: after, by simp, hkind', fun m hm => ?_⟩
  exact hbefore m (by simp [hm])

/-! ## What a map holds -/

/-- A map contains a kind if one of its entries is of it. -/
theorem contains_iff {map : ModifierMap} {kind : ModifierKind} :
    map.contains kind = true ↔ kind ∈ map.entries.map (·.kind) := by
  rw [contains, get?, List.find?_isSome, List.mem_map]
  simp only [beq_iff_eq]

theorem contains_put {map : ModifierMap} {m : Modifier} {kind : ModifierKind} :
    (map.put m).contains kind = true ↔ map.contains kind = true ∨ kind = m.kind := by
  rw [contains_iff, contains_iff, put]
  split
  · rename_i hcontains
    -- The entry that gives way is of the kind of the one that comes in.
    have hkinds : (map.entries.map fun e => if e.kind = m.kind then m else e).map (·.kind) =
        map.entries.map (·.kind) := by
      rw [List.map_map]
      refine List.map_congr_left fun e _ => ?_
      show (if e.kind = m.kind then m else e).kind = e.kind
      split
      · rename_i heq
        exact heq.symm
      · rfl
    rw [hkinds, or_iff_left_of_imp]
    rintro rfl
    exact contains_iff.mp hcontains
  · rw [List.map_append, List.mem_append, List.map_singleton, List.mem_singleton]

/-- The last modifiers, in the order of the kinds, are of these kinds. -/
theorem map_kind_filterMap_last? (ms : List Modifier) :
    ((kinds ms).filterMap (last? ms)).map (·.kind) = kinds ms := by
  rw [List.map_filterMap]
  conv_rhs => rw [← List.filterMap_some (l := kinds ms)]
  refine List.filterMap_congr fun kind hkind => ?_
  obtain ⟨e, he⟩ := exists_last?_of_mem_kinds hkind
  rw [he, Option.map_some, kind_of_last? he]

/-- **The entries.** Their order is that in which the kinds are first named, and each is the last
modifier of its kind. -/
theorem entries_ofModifiers (ms : List Modifier) :
    (ofModifiers ms).entries = (kinds ms).filterMap (last? ms) := by
  -- From the right, so that the modifier in question is the one that is put last.
  induction ms using List.reverseRecOn with
  | nil => rfl
  | append_singleton ms m ih =>
    have hput : ofModifiers (ms ++ [m]) = (ofModifiers ms).put m := by
      rw [ofModifiers, List.foldl_append]
      rfl
    have hkinds : (ofModifiers ms).entries.map (·.kind) = kinds ms := by
      rw [ih, map_kind_filterMap_last?]
    rw [hput, put, kinds_concat]
    by_cases hmem : m.kind ∈ kinds ms
    · have hcontains : (ofModifiers ms).contains m.kind = true := by
        rw [contains_iff, hkinds]
        exact hmem
      rw [if_pos hcontains, if_pos hmem]
      show (ofModifiers ms).entries.map _ = _
      rw [ih, List.map_filterMap]
      refine List.filterMap_congr fun kind hkind => ?_
      obtain ⟨e, he⟩ := exists_last?_of_mem_kinds hkind
      have hkind' := kind_of_last? he
      rw [last?_concat, he, Option.map_some, hkind']
      by_cases h : m.kind = kind
      · rw [if_pos h, if_pos h.symm]
      · rw [if_neg h, if_neg (Ne.symm h)]
    · have hcontains : ¬ (ofModifiers ms).contains m.kind = true := by
        rw [contains_iff, hkinds]
        exact hmem
      rw [if_neg hcontains, if_neg hmem]
      show (ofModifiers ms).entries ++ [m] = _
      rw [ih, List.filterMap_append]
      congr 1
      · refine List.filterMap_congr fun kind hkind => ?_
        have hne : m.kind ≠ kind := fun h => hmem (h ▸ hkind)
        rw [last?_concat, if_neg hne]
      · rw [List.filterMap_cons, last?_concat, if_pos rfl]
        rfl

/-- No two entries are of one kind. -/
theorem nodup_kind_entries_ofModifiers (ms : List Modifier) :
    ((ofModifiers ms).entries.map (·.kind)).Nodup := by
  rw [entries_ofModifiers, map_kind_filterMap_last?]
  exact nodup_kinds ms

/-- The entries of a map are among the modifiers that were put in. -/
theorem mem_of_mem_entries_ofModifiers {ms : List Modifier} {m : Modifier}
    (h : m ∈ (ofModifiers ms).entries) : m ∈ ms := by
  rw [entries_ofModifiers, List.mem_filterMap] at h
  obtain ⟨kind, -, hlast⟩ := h
  obtain ⟨-, before, after, rfl, -⟩ := last?_eq_some_iff.mp hlast
  simp

/-- A modifier of a new kind is put behind the others, whatever the policy is. -/
theorem insert_of_not_contains {map : ModifierMap} {m : Modifier}
    (h : ¬ map.contains m.kind = true) (policy : DuplicatePolicy) :
    map.insert policy m = .ok ⟨map.entries ++ [m]⟩ := by
  rw [insert, if_neg fun hboth => h hboth.2, put, if_neg h]

/-! ## Reading the tokens -/

/-- What is read are the modifiers of the tokens, put one after the other. The policy only decides
whether there is a result. -/
theorem eq_foldl_put_of_readTokens {ruleKinds : RuleKinds} {policy : DuplicatePolicy}
    {tokens : List Fragment} {map map' : ModifierMap}
    (h : readTokens ruleKinds policy map tokens = .ok map') :
    ∃ ms, tokens.mapM (Modifier.read ruleKinds) = .ok ms ∧ map' = ms.foldl put map := by
  induction tokens generalizing map with
  | nil => exact ⟨[], rfl, (Except.ok.inj h).symm⟩
  | cons token tokens ih =>
    obtain ⟨m, hm, h⟩ := Reading.bind_eq_ok_iff.mp h
    obtain ⟨extended, hinsert, h⟩ := Reading.bind_eq_ok_iff.mp h
    have hextended : extended = map.put m := by
      rw [insert] at hinsert
      split at hinsert
      · exact nomatch hinsert
      · exact (Except.ok.inj hinsert).symm
    obtain ⟨ms, hms, hmap⟩ := ih h
    refine ⟨m :: ms, ?_, ?_⟩
    · rw [List.mapM_cons, hm, hms]
      rfl
    · rw [hmap, hextended]
      rfl

/-- A block that is read is the map of the modifiers that its tokens are read into, whatever the
policy. -/
theorem eq_ofModifiers_of_parse {ruleKinds : RuleKinds} {policy : DuplicatePolicy}
    {block : Fragment} {map : ModifierMap} {ms : List Modifier}
    (h : parse ruleKinds policy block = .ok map)
    (hms : (tokens block).mapM (Modifier.read ruleKinds) = .ok ms) : map = ofModifiers ms := by
  obtain ⟨ms', hms', hmap⟩ := eq_foldl_put_of_readTokens h
  obtain rfl := Except.ok.inj (hms'.symm.trans hms)
  exact hmap

/-! ## The last one wins -/

theorem insert_lastWins (map : ModifierMap) (m : Modifier) :
    map.insert .lastWins m = .ok (map.put m) := by
  rw [insert, if_neg]
  rintro ⟨hpolicy, -⟩
  cases hpolicy

/-- Under the lenient policy the tokens are read on their own, and their modifiers put in one after
the other. -/
theorem readTokens_lastWins (ruleKinds : RuleKinds) (map : ModifierMap) (tokens : List Fragment) :
    readTokens ruleKinds .lastWins map tokens =
      (tokens.mapM (Modifier.read ruleKinds)).map (·.foldl put map) := by
  induction tokens generalizing map with
  | nil => rfl
  | cons token tokens ih =>
    rw [readTokens, List.mapM_cons, Reading.map_bind]
    refine bind_congr fun m => ?_
    rw [insert_lastWins, Reading.map_bind]
    show readTokens ruleKinds .lastWins (map.put m) tokens = _
    rw [ih]
    cases tokens.mapM (Modifier.read ruleKinds) <;> rfl

/-- Where modifiers replace each other none is refused on the way into the map. -/
theorem parse_lastWins (ruleKinds : RuleKinds) (block : Fragment) :
    parse ruleKinds .lastWins block =
      ((tokens block).mapM (Modifier.read ruleKinds)).map ofModifiers :=
  readTokens_lastWins ruleKinds {} (tokens block)

end ContentFilter.ModifierMap
