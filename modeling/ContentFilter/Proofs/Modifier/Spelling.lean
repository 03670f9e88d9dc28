import ContentFilter.Modifier.Reader
import ContentFilter.Proofs.SyntaxError.Evidence

/-!
# How modifiers are spelled

A token spells a modifier: a sign if it is negated, a name, and behind an equals sign the value, if
there is one. `Spells` says this without taking the token apart. White space may stand behind the
name, and the name is what stands before it; a value is taken as it is.

A token spells one thing only (`Spells.unique`), since the first equals sign ends the name and a
token that begins with the sign is negated. So what a reader takes a token for is what it spells
(`spells_ofFragment`), however the reader finds it.
-/

set_option autoImplicit false

namespace ContentFilter.Modifier

/-- What stands in front of a name. -/
def sign (negated : Bool) : Text := if negated then [negationMarker] else []

/-- What stands behind a name. -/
def assigned : Option Text → Text
  | none => []
  | some value => '=' :: value

/-- A token spells a modifier with this name and this value, negated or not. -/
structure Spells (token : Text) (negated : Bool) (name : Text) (value : Option Text) : Prop where
  written : ∃ gap, token = sign negated ++ name ++ gap ++ assigned value ∧ Text.AllWhite gap
  unsigned : negated = false → token.head? ≠ some negationMarker
  plain : '=' ∉ name
  trimmed : ∀ c, name.getLast? = some c → Text.isWhite c = false

/-- What stands behind a name, from the equals sign on. -/
theorem dropWhile_eq_assigned {body rest : Text} {equals : Char}
    (h : body.dropWhile (· != '=') = equals :: rest) :
    body.dropWhile (· != '=') = assigned (some rest) := by
  have hhead := List.head?_dropWhile_not (· != '=') body
  rw [h, List.head?_cons] at hhead
  have hequals : equals = '=' := by simpa using hhead
  rw [h, hequals]
  rfl

/-- A token whose sign, name and value are told apart spells a modifier with these. -/
theorem Spells.of_body {token body : Text} {negated : Bool} {value : Option Text}
    (hsplit : token = sign negated ++ body)
    (hsign : negated = false → token.head? ≠ some negationMarker)
    (hrest : body.dropWhile (· != '=') = assigned value) :
    Spells token negated (Text.dropTailWhile Text.isWhite (body.takeWhile (· != '='))) value := by
  obtain ⟨gap, hgap, hwhite⟩ :=
    Text.exists_dropTailWhile_append (p := Text.isWhite) (body.takeWhile (· != '='))
  refine ⟨⟨gap, ?_, hwhite⟩, hsign, fun hmem => ?_, fun c => Text.not_of_getLast?_dropTailWhile⟩
  · rw [hsplit, List.append_assoc _ _ gap, ← hgap, List.append_assoc, ← hrest,
      List.takeWhile_append_dropWhile]
  · have hbefore : '=' ∈ body.takeWhile (· != '=') := by
      rw [hgap]
      exact List.mem_append_left _ hmem
    simpa using List.mem_takeWhile_imp hbefore

/-- **Taking apart.** The parts of a token are what the token spells. -/
theorem spells_ofFragment (token : Fragment) :
    Spells token.text (Token.ofFragment token).negated (Token.ofFragment token).name
      ((Token.ofFragment token).value.map (·.text)) := by
  rw [Token.ofFragment]
  cases hstrip : token.strip? [negationMarker] with
  | none =>
    -- A sign at the head would have been stripped.
    have hsign : token.text.head? ≠ some negationMarker := by
      intro hhead
      obtain ⟨rest, hrest⟩ := List.head?_eq_some_iff.mp hhead
      obtain ⟨offset, text⟩ := token
      obtain rfl : text = [negationMarker] ++ rest := hrest
      rw [Fragment.strip?_append] at hstrip
      exact nomatch hstrip
    cases hrest : token.text.dropWhile (· != '=') with
    | nil =>
      simp only [hrest]
      exact .of_body rfl (fun _ => hsign) hrest
    | cons equals rest =>
      simp only [hrest]
      exact .of_body rfl (fun _ => hsign) (dropWhile_eq_assigned hrest)
  | some body =>
    have hsplit := (Fragment.exists_of_strip? hstrip).1
    cases hrest : body.text.dropWhile (· != '=') with
    | nil =>
      simp only [hrest]
      exact .of_body hsplit (fun h => nomatch h) hrest
    | cons equals rest =>
      simp only [hrest]
      exact .of_body hsplit (fun h => nomatch h) (dropWhile_eq_assigned hrest)

/-- The value is what a token ends with, and it stands where the token does. -/
theorem Token.exists_lead_of_value {token value : Fragment}
    (h : (ofFragment token).value = some value) :
    ∃ lead, token.text = lead ++ value.text ∧ value = token.after lead value.text := by
  have hbody : ∀ (body : Fragment) (equals : Char) (rest : Text),
      body.text.dropWhile (· != '=') = equals :: rest →
        body.text = body.text.takeWhile (· != '=') ++ [equals] ++ rest := by
    intro body equals rest hrest
    rw [List.append_assoc, List.singleton_append, ← hrest, List.takeWhile_append_dropWhile]
  rw [ofFragment] at h
  cases hstrip : token.strip? [negationMarker] with
  | none =>
    cases hrest : token.text.dropWhile (· != '=') with
    | nil => simp [hstrip, hrest] at h
    | cons equals rest =>
      simp only [hstrip, hrest, Option.some.injEq] at h
      obtain rfl := h
      exact ⟨_, hbody token equals rest hrest, rfl⟩
  | some body =>
    obtain ⟨hmarked, hafter⟩ := Fragment.exists_of_strip? hstrip
    cases hrest : body.text.dropWhile (· != '=') with
    | nil => simp [hstrip, hrest] at h
    | cons equals rest =>
      simp only [hstrip, hrest, Option.some.injEq] at h
      obtain rfl := h
      refine ⟨[negationMarker] ++ (body.text.takeWhile (· != '=') ++ [equals]), ?_, ?_⟩
      · rw [List.append_assoc]
        exact hmarked.trans (congrArg ([negationMarker] ++ ·) (hbody body equals rest hrest))
      · rw [hafter, Fragment.after_after]
        rfl

section Unique

variable {token name name' : Text} {negated negated' : Bool} {value value' : Option Text}

/-- What stands behind a name tells the value. -/
theorem assigned_injective : Function.Injective assigned := by
  intro value value' h
  cases value <;> cases value' <;> simp_all [assigned]

/-- A modifier is negated exactly if its token begins with the marker. -/
theorem Spells.negated_iff (h : Spells token negated name value) :
    negated = true ↔ token.head? = some negationMarker := by
  constructor
  · rintro rfl
    obtain ⟨gap, rfl, -⟩ := h.written
    rfl
  · intro hhead
    by_contra hnegated
    exact h.unsigned (by simpa using hnegated) hhead

/-- What stands before the first equals sign is the name and white space. -/
theorem Spells.takeWhile_body (h : Spells token negated name value) :
    ∃ body gap, token = sign negated ++ body ∧ body.takeWhile (· != '=') = name ++ gap ∧
      body.dropWhile (· != '=') = assigned value ∧ Text.AllWhite gap := by
  obtain ⟨gap, rfl, hgap⟩ := h.written
  have hplain : ∀ c ∈ name ++ gap, (c != '=') = true := by
    intro c hc
    rw [bne_iff_ne]
    rintro rfl
    rcases List.mem_append.mp hc with hc | hc
    · exact h.plain hc
    · exact nomatch hgap _ hc
  refine ⟨name ++ gap ++ assigned value, gap, by simp, ?_, ?_, hgap⟩
  · rw [List.takeWhile_append_of_pos hplain]
    cases value <;> simp [assigned]
  · rw [List.dropWhile_append_of_pos hplain]
    cases value <;> simp [assigned]

/-- **One way only.** -/
theorem Spells.unique (h : Spells token negated name value)
    (h' : Spells token negated' name' value') :
    negated = negated' ∧ name = name' ∧ value = value' := by
  have hnegated : negated = negated' := by
    rw [Bool.eq_iff_iff, h.negated_iff, h'.negated_iff]
  subst hnegated
  obtain ⟨body, gap, hbody, htake, hdrop, hgap⟩ := h.takeWhile_body
  obtain ⟨body', gap', hbody', htake', hdrop', hgap'⟩ := h'.takeWhile_body
  obtain rfl : body = body' := List.append_cancel_left (hbody.symm.trans hbody')
  refine ⟨rfl, ?_, assigned_injective (hdrop.symm.trans hdrop')⟩
  -- The two names may be followed by white space; it is gone when both sides are trimmed.
  have hnames : name ++ gap = name' ++ gap' := htake.symm.trans htake'
  rw [← Text.dropTailWhile_of_getLast? h.trimmed, ← Text.dropTailWhile_append_of_pos name hgap,
    hnames, Text.dropTailWhile_append_of_pos name' hgap', Text.dropTailWhile_of_getLast? h'.trimmed]

end Unique

end ContentFilter.Modifier
