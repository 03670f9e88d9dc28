import ContentFilter.Proofs.Fragment.Placement
import ContentFilter.Proofs.Modifier.Map
import ContentFilter.Proofs.Modifier.Validity
import Mathlib.Data.Option.Basic

/-!
# Writing a block of modifiers

A block can be written as assignments `name=value` between commas. Read again, it gives one modifier
for each of them, in order, with the kind that the name names and with this value, as long as the
names name different kinds and the values neither end nor hold what would end them.

What a modifier is read into says where it stands. Here this is left out (`Assignment.ReadAs`),
since the values are all that rules take from a block.
-/

set_option autoImplicit false

namespace ContentFilter

/-- The tokens of a block are its pieces without the white space around them, blank ones left out.
-/
theorem ModifierMap.map_text_tokens (block : Fragment) :
    (tokens block).map (·.text) =
      ((Text.cut (Text.unescaped ',') block.text).map (Text.trim Text.isWhite)).filter
        (!·.isEmpty) := by
  have hpieces : (block.cut ',').map (·.text) = Text.cut (Text.unescaped ',') block.text :=
    Fragment.map_text_locate _ _ _
  rw [← hpieces, List.map_map, tokens]
  show (List.filter ((fun t : Text => !t.isEmpty) ∘ Fragment.text) _).map Fragment.text = _
  rw [← List.filter_map, List.map_map]
  rfl

/-- A modifier with a value, before it is written. -/
structure Assignment where
  kind : ModifierKind
  name : Text
  value : Text

namespace Assignment

/-- The written form. -/
def text (a : Assignment) : Text := a.name ++ '=' :: a.value

/-- What is to be known of an assignment for a block to hold it. -/
structure Writable (ruleKinds : RuleKinds) (a : Assignment) : Prop where
  named : ModifierKind.named? a.name = some a.kind
  permitted : a.kind.spec.ruleKinds.meets ruleKinds = true
  valued : a.kind.spec.value = .required
  name : ∀ c ∈ a.name, c ≠ '=' ∧ c ≠ ',' ∧ c ≠ Modifier.negationMarker ∧ Text.isWhite c = false
  ne_nil : a.value ≠ []
  guarded : Text.Guarded ',' a.value
  last : ∀ c, a.value.getLast? = some c → Text.isWhite c = false ∧ c ≠ '\\'

/-- The modifier says what the assignment says. -/
def ReadAs (a : Assignment) (m : Modifier) : Prop :=
  m.kind = a.kind ∧ m.value.map (·.text) = some a.value

/-! ## One assignment -/

section Text

variable {ruleKinds : RuleKinds} {a : Assignment} (h : a.Writable ruleKinds)

include h

theorem Writable.getLast?_text : a.text.getLast? = a.value.getLast? := by
  rw [text, List.getLast?_append_of_ne_nil _ (List.cons_ne_nil _ _), List.getLast?_cons,
    List.getLast?_eq_some_getLast h.ne_nil, Option.getD_some]

/-- A written assignment begins with neither a marker nor white space. -/
theorem Writable.head_text {c : Char} (hc : a.text.head? = some c) :
    c ≠ Modifier.negationMarker ∧ Text.isWhite c = false := by
  rw [text, List.head?_append] at hc
  cases hname : a.name.head? with
  | none =>
    rw [hname] at hc
    obtain rfl := Option.some.inj hc
    decide
  | some d =>
    rw [hname] at hc
    obtain rfl := Option.some.inj hc
    exact (h.name d (List.mem_of_head? hname)).2.2

/-- A written assignment has no comma at which it would be cut. -/
theorem Writable.guarded_text : Text.Guarded ',' a.text := by
  rw [Text.guarded_iff_unbroken, text, Text.unbroken_append, Text.unbroken_cons]
  refine ⟨?_, rfl, (Text.unbroken_unescaped_iff (by decide)).mpr h.guarded⟩
  rw [← Text.guarded_iff_unbroken]
  exact Text.guarded_of_not_mem fun hmem => (h.name _ hmem).2.1 rfl

theorem Writable.trim_text : Text.trim Text.isWhite a.text = a.text := by
  refine Text.trim_of_ends (fun c hc => (h.head_text hc).2) fun c hc => ?_
  rw [h.getLast?_text] at hc
  exact (h.last c hc).1

/-- A written assignment spells a modifier with its name and value. -/
theorem Writable.spells : Modifier.Spells a.text false a.name (some a.value) := by
  refine ⟨⟨[], ?_, by simp [Text.AllWhite]⟩, fun _ hhead => ?_, fun hmem => ?_, fun c hc => ?_⟩
  · rw [List.append_nil]
    rfl
  · exact (h.head_text hhead).1 rfl
  · exact (h.name _ hmem).1 rfl
  · exact (h.name c (List.mem_of_getLast? hc)).2.2.2

/-- A written assignment is read back. -/
theorem Writable.read_text (offset : Nat) :
    ∃ m, Modifier.read ruleKinds ⟨offset, a.text⟩ = .ok m ∧ a.ReadAs m := by
  have hname := ModifierKind.named?_eq_some_iff.mp h.named
  have hfits : Modifier.Fits ruleKinds a.kind false (some a.value) :=
    ⟨h.permitted, by simp, fun _ => ⟨_, rfl, h.ne_nil⟩, by simp [h.valued]⟩
  have hvalid : Modifier.IsValid ruleKinds (⟨offset, a.text⟩ : Fragment).text :=
    ⟨_, _, _, _, h.spells, hname, hfits⟩
  obtain ⟨m, hm⟩ := Modifier.isValid_iff.mp hvalid
  have hread := Modifier.isRead_of_read hm
  obtain ⟨-, hsame, hvalue⟩ := hread.spells.unique h.spells
  refine ⟨m, hm, ModifierKind.eq_of_isNamed hread.isNamed ?_, hvalue⟩
  rw [hsame]
  exact hname

end Text

/-! ## A block of them -/

/-- The inside of the block that holds assignments. -/
def block (as : List Assignment) : Text := Text.join [','] (as.map text)

variable {ruleKinds : RuleKinds} {as : List Assignment}

/-- A block of assignments does not end in a backslash. -/
theorem exists_getLast?_block (hwritable : ∀ a ∈ as, a.Writable ruleKinds) (hne : as ≠ []) :
    ∃ c, (block as).getLast? = some c ∧ c ≠ '\\' := by
  obtain ⟨front, a, rfl⟩ := (List.eq_nil_or_concat' as).resolve_left hne
  have ha := hwritable a (by simp)
  obtain ⟨s, hs⟩ := Text.exists_join_concat [','] (front.map text) a.text
  have hlast := List.getLast?_eq_some_getLast ha.ne_nil
  refine ⟨_, ?_, (ha.last _ hlast).2⟩
  rw [block, List.map_append, List.map_singleton, hs, List.getLast?_append_of_ne_nil,
    ha.getLast?_text, hlast]
  simp [text]

/-- The tokens of a block of assignments are the written assignments. -/
theorem map_text_tokens (hwritable : ∀ a ∈ as, a.Writable ruleKinds) (hne : as ≠ [])
    (offset : Nat) :
    (ModifierMap.tokens ⟨offset, block as⟩).map (·.text) = as.map text := by
  have hcut : Text.cut (Text.unescaped ',') (block as) = as.map text := by
    refine Text.cut_join (by decide) (by simpa using hne) ?_ ?_
    · rw [List.forall_mem_map]
      exact fun a ha => (hwritable a ha).guarded_text
    · rw [← List.map_dropLast, List.forall_mem_map]
      intro a ha
      have ha := hwritable a (List.dropLast_subset _ ha)
      rw [Text.endsInBackslash, ha.getLast?_text, List.getLast?_eq_some_getLast ha.ne_nil]
      simpa using (ha.last _ (List.getLast?_eq_some_getLast ha.ne_nil)).2
  have htrim : (as.map text).map (Text.trim Text.isWhite) = as.map text := by
    rw [List.map_map]
    exact List.map_congr_left fun a ha => (hwritable a ha).trim_text
  rw [ModifierMap.map_text_tokens, hcut, htrim, List.filter_eq_self, List.forall_mem_map]
  intro a _
  simp [text]

/-- The tokens add a modifier each, since no kind among them is in the map already. -/
theorem readTokens_text (policy : DuplicatePolicy) (map : ModifierMap) {tokens : List Fragment}
    (hwritable : ∀ a ∈ as, a.Writable ruleKinds) (htokens : tokens.map (·.text) = as.map text)
    (hnodup : (map.entries.map (·.kind) ++ as.map (·.kind)).Nodup) :
    ∃ ms, ModifierMap.readTokens ruleKinds policy map tokens = .ok ⟨map.entries ++ ms⟩ ∧
      List.Forall₂ ReadAs as ms := by
  induction as generalizing tokens map with
  | nil =>
    obtain rfl := List.map_eq_nil_iff.mp htokens
    exact ⟨[], by rw [List.append_nil]; rfl, .nil⟩
  | cons a as ih =>
    obtain ⟨token, tokens, rfl, htoken, htokens⟩ := List.map_eq_cons_iff.mp htokens
    obtain ⟨m, hm, hread⟩ := (hwritable a List.mem_cons_self).read_text token.offset
    rw [← htoken] at hm
    have hnew : ¬ map.contains m.kind = true := by
      rw [ModifierMap.contains_iff, hread.1]
      rw [List.map_cons, List.nodup_append] at hnodup
      exact fun hmem => hnodup.2.2 _ hmem _ List.mem_cons_self rfl
    have hnodup' : ((map.entries ++ [m]).map (·.kind) ++ as.map (·.kind)).Nodup := by
      rwa [List.map_append, List.map_singleton, hread.1, List.append_assoc, List.singleton_append,
        ← List.map_cons]
    obtain ⟨ms, hms, hall⟩ := ih ⟨map.entries ++ [m]⟩
      (fun a' ha' => hwritable a' (List.mem_cons_of_mem _ ha')) htokens hnodup'
    refine ⟨m :: ms, ?_, .cons hread hall⟩
    rw [ModifierMap.readTokens, hm]
    show (map.insert policy m >>= fun extended => _) = _
    rw [ModifierMap.insert_of_not_contains hnew]
    show ModifierMap.readTokens ruleKinds policy ⟨map.entries ++ [m]⟩ tokens = _
    rw [hms, List.append_assoc, List.singleton_append]

/-- **Round trip.** -/
theorem parse_block (policy : DuplicatePolicy) (hwritable : ∀ a ∈ as, a.Writable ruleKinds)
    (hne : as ≠ []) (hnodup : (as.map (·.kind)).Nodup) (offset : Nat) :
    ∃ map, ModifierMap.parse ruleKinds policy ⟨offset, block as⟩ = .ok map ∧
      List.Forall₂ ReadAs as map.entries := by
  obtain ⟨ms, hms, hall⟩ := readTokens_text policy {} hwritable
    (map_text_tokens hwritable hne offset) hnodup
  exact ⟨⟨ms⟩, hms, hall⟩

/-- What a map holds of a kind is what is assigned to it. -/
theorem rel_get? {map : ModifierMap} (h : List.Forall₂ ReadAs as map.entries)
    (kind : ModifierKind) : Option.Rel ReadAs (as.find? (·.kind == kind)) (map.get? kind) := by
  rw [ModifierMap.get?]
  generalize map.entries = ms at h
  induction h with
  | nil => exact .none
  | @cons a m as ms hread _ ih =>
    rw [List.find?_cons, List.find?_cons, hread.1]
    cases a.kind == kind with
    | true => exact .some hread
    | false => exact ih

/-- The value that a block has for a kind is that of the first assignment of the kind. -/
theorem value?_eq {map : ModifierMap} (h : List.Forall₂ ReadAs as map.entries)
    (kind : ModifierKind) : map.value? kind = (as.find? (·.kind == kind)).map (·.value) := by
  have hget := rel_get? h kind
  rw [ModifierMap.value?]
  generalize as.find? (·.kind == kind) = a? at hget ⊢
  generalize map.get? kind = m? at hget ⊢
  cases hget with
  | none => rfl
  | some hread => exact hread.2

end Assignment

end ContentFilter
