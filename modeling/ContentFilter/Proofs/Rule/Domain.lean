import ContentFilter.Proofs.Text.Bytes
import ContentFilter.Proofs.Text.Cut
import ContentFilter.Rule.Basic
import ContentFilter.Web.PublicSuffix

/-!
# Domains by their labels

Whether a domain stands below a name is told from bytes: a tail of the domain is compared with the
name, and one byte before the tail is looked at. A tail of the right length need not begin where a
character does, and names may begin or end with a dot. Still the answer is the one that the labels
give, those of the name being the last ones of the domain (`covers?_labels_suffix_throughParents`).

Two steps lead there. If the tail is no text, the domain does not end in the name, and if it is one,
the byte before it is the end of a character; so the bytes tell whether the domain is the name or
ends in a dot and the name (`exists_covers?`). And texts end in this way exactly if their labels do
(`splitOn_suffix_iff`). What is a suffix of a suffix is a suffix, so what stands below a name is not
changed by the names in between.
-/

set_option autoImplicit false

namespace ContentFilter

/-! ## Labels -/

namespace Text

/-- Two lists joined with a separator, with one more between them. -/
theorem intercalate_append_of_ne_nil {separator : Text} {front back : List Text}
    (hfront : front ≠ []) (hback : back ≠ []) :
    separator.intercalate (front ++ back) =
      separator.intercalate front ++ separator ++ separator.intercalate back := by
  induction front with
  | nil => exact absurd rfl hfront
  | cons t front ih =>
    cases front with
    | nil =>
      rw [List.singleton_append, List.intercalate_cons_of_ne_nil hback, List.intercalate_singleton]
    | cons u front =>
      rw [List.cons_append, List.cons_append, List.intercalate_cons_cons,
        List.intercalate_cons_cons, ← List.cons_append, ih (List.cons_ne_nil u front)]
      simp only [List.append_assoc]

/-- The last pieces of a text are those of another one if it is the other one, or if a separator and
the other one end it. -/
theorem splitOn_suffix_iff {c : Char} {s t : Text} :
    s.splitOn c <:+ t.splitOn c ↔ t = s ∨ c :: s <:+ t := by
  constructor
  · rintro ⟨front, hsplit⟩
    have ht : [c].intercalate (front ++ s.splitOn c) = t := by
      rw [hsplit, List.intercalate_splitOn]
    by_cases hfront : front = []
    · rw [hfront, List.nil_append, List.intercalate_splitOn] at ht
      exact .inl ht.symm
    · rw [intercalate_append_of_ne_nil hfront (List.splitOn_ne_nil c s), List.intercalate_splitOn,
        ← List.append_cons] at ht
      exact .inr ⟨_, ht⟩
  · rintro (rfl | ⟨front, rfl⟩)
    · exact List.suffix_refl _
    · rw [List.splitOn_append_cons_self]
      exact List.suffix_append _ _

end Text

namespace Domain

open Text (bytes byteLength foldCase IsBoundary)
open PublicSuffix (labels)

variable {parent domain tail : Text}

/-- The domain has this name or stands below it; the case of ASCII letters makes no difference. -/
def Covers (name domain : Text) : Prop :=
  foldCase domain = foldCase name ∨ '.' :: foldCase name <:+ foldCase domain

/-- A name covers a domain exactly if its labels are the last ones of the domain. -/
theorem covers_iff_labels_suffix {name : Text} :
    Covers name domain ↔ labels (foldCase name) <:+ labels (foldCase domain) := by
  rw [labels, labels, Text.cut_every, Text.cut_every, Text.splitOn_suffix_iff, Covers]

/-! ## What the bytes tell -/

/-- What stands before the name in a domain: nothing, or something that ends with a dot. -/
def EndsLabel (front : Text) : Prop := front = [] ∨ front.getLast? = some '.'

theorem toLower_eq_dot_iff {c : Char} : c.toLower = '.' ↔ c = '.' := by
  refine ⟨fun h => ?_, by rintro rfl; rfl⟩
  have hc : c.toNat < 128 := by
    by_contra hle
    rw [Text.toLower_of_le (Nat.le_of_not_lt hle)] at h
    exact hle (h ▸ by decide)
  exact Text.forall_of_ascii (P := fun c => c.toLower = '.' → c = '.') (by decide) hc h

/-- A domain stands below a name if it is some text that ends a label and then the name. -/
theorem covers_iff_exists_append :
    Covers parent domain ↔
      ∃ front tail, domain = front ++ tail ∧ foldCase tail = foldCase parent ∧ EndsLabel front := by
  constructor
  · rintro (heq | ⟨before, hsuffix⟩)
    · exact ⟨[], domain, rfl, heq, .inl rfl⟩
    · obtain ⟨front, rest, rfl, -, hrest⟩ := List.map_eq_append_iff.mp hsuffix.symm
      obtain ⟨c, tail, rfl, hc, htail⟩ := List.map_eq_cons_iff.mp hrest
      obtain rfl := toLower_eq_dot_iff.mp hc
      exact ⟨front ++ ['.'], tail, List.append_cons .., htail, .inr List.getLast?_concat⟩
  · rintro ⟨front, tail, rfl, htail, rfl | hlast⟩
    · exact .inl htail
    · obtain ⟨before, rfl⟩ := List.getLast?_eq_some_iff.mp hlast
      refine .inr ⟨foldCase before, ?_⟩
      rw [← htail, ← List.append_cons, foldCase, foldCase, foldCase, List.map_append, List.map_cons]
      rfl

/-- The tail that is as long as the name is a text if it begins where a character does, and it is
compared with the name. -/
theorem covers?_append (front : Text) (hne : parent ≠ [])
    (hlength : byteLength tail = byteLength parent) :
    covers? parent (front ++ tail) =
      if !Text.eqIgnoringCase tail parent then some false
      else if byteLength front = 0 then some true
      else (bytes (front ++ tail))[byteLength front - 1]?.map (· == '.'.toUInt8) := by
  have hearly : ¬ (parent.isEmpty || byteLength (front ++ tail) < byteLength parent) = true := by
    rw [Text.byteLength_append, Bool.or_eq_true, List.isEmpty_iff, decide_eq_true_eq, not_or]
    exact ⟨hne, by omega⟩
  have hsplit : byteLength (front ++ tail) - byteLength parent = byteLength front := by
    rw [Text.byteLength_append]
    omega
  have hboundary : Text.isBoundary (byteLength front) (bytes (front ++ tail)) = true :=
    Text.isBoundary_bytes_iff.mpr ⟨front, tail, rfl, rfl⟩
  have hslice : Text.slice? (byteLength front) (byteLength (front ++ tail)) (front ++ tail) =
      some tail := by
    have h := Text.slice?_append front tail []
    rwa [List.append_nil] at h
  unfold covers?
  rw [if_neg hearly]
  simp only [hsplit, hboundary, hslice, Bool.not_true, Bool.false_eq_true, if_false,
    Option.bind_some]

/-- The byte before the tail is there, and it tells whether a label ends. -/
theorem exists_covers?_append (front : Text) (hne : parent ≠ [])
    (hlength : byteLength tail = byteLength parent) :
    ∃ b, covers? parent (front ++ tail) = some b ∧
      (b = true ↔ foldCase tail = foldCase parent ∧ EndsLabel front) := by
  rw [covers?_append front hne hlength]
  cases hsame : Text.eqIgnoringCase tail parent with
  | false =>
    have htail : ¬ foldCase tail = foldCase parent := by
      rw [← Text.eqIgnoringCase_iff, hsame]
      exact Bool.false_ne_true
    exact ⟨false, rfl, iff_of_false Bool.false_ne_true fun h => htail h.1⟩
  | true =>
    have htail := Text.eqIgnoringCase_iff.mp hsame
    by_cases hfront : front = []
    · subst hfront
      exact ⟨true, rfl, iff_of_true rfl ⟨htail, .inl rfl⟩⟩
    · have hpos := Text.byteLength_pos hfront
      obtain ⟨b, hb, hdot⟩ := Text.exists_getElem?_bytes_pred (c := '.') (by decide) hfront tail
      refine ⟨b == '.'.toUInt8, ?_, ?_⟩
      · rw [Bool.not_true, if_neg Bool.false_ne_true, if_neg (Nat.ne_of_gt hpos), hb,
          Option.map_some]
      · rw [beq_iff_eq, hdot, and_iff_right htail, EndsLabel, or_iff_right hfront]

/-- If the name is too long, or the tail begins inside a character, nothing is compared. -/
theorem covers?_of_no_place
    (h : byteLength parent ≤ byteLength domain →
      ¬ IsBoundary domain (byteLength domain - byteLength parent)) :
    covers? parent domain = some false := by
  unfold covers?
  by_cases hearly : (parent.isEmpty || decide (byteLength domain < byteLength parent)) = true
  · rw [if_pos hearly]
  · rw [if_neg hearly]
    rw [Bool.or_eq_true, decide_eq_true_eq, not_or] at hearly
    have hinside := mt Text.isBoundary_bytes_iff.mp (h (Nat.le_of_not_lt hearly.2))
    exact if_pos (by simpa using hinside)

/-- There is an answer for any two texts, and it is the one that the texts give. -/
theorem exists_covers? (parent domain : Text) :
    ∃ b, covers? parent domain = some b ∧ (b = true ↔ parent ≠ [] ∧ Covers parent domain) := by
  by_cases hne : parent = []
  · subst hne
    exact ⟨false, rfl, iff_of_false Bool.false_ne_true fun h => h.1 rfl⟩
  rw [and_iff_right hne, covers_iff_exists_append]
  by_cases hplace : byteLength parent ≤ byteLength domain ∧
      IsBoundary domain (byteLength domain - byteLength parent)
  · obtain ⟨hle, front, tail, rfl, hfront⟩ := hplace
    rw [Text.byteLength_append] at hle hfront
    have hlength : byteLength tail = byteLength parent := by omega
    obtain ⟨b, hb, hiff⟩ := exists_covers?_append front hne hlength
    refine ⟨b, hb, hiff.trans ⟨fun h => ⟨front, tail, rfl, h⟩, ?_⟩⟩
    rintro ⟨front', tail', hdomain, htail', hlabel⟩
    have hsame := congrArg byteLength hdomain
    rw [Text.byteLength_append, Text.byteLength_append,
      Text.byteLength_eq_of_foldCase_eq htail'] at hsame
    obtain ⟨rfl, rfl⟩ := Text.append_inj_of_byteLength hdomain (by omega)
    exact ⟨htail', hlabel⟩
  · refine ⟨false, covers?_of_no_place fun hle hboundary => hplace ⟨hle, hboundary⟩,
      iff_of_false Bool.false_ne_true ?_⟩
    rintro ⟨front, tail, rfl, htail, -⟩
    rw [Text.byteLength_append, Text.byteLength_eq_of_foldCase_eq htail,
      Nat.add_sub_cancel] at hplace
    exact hplace ⟨Nat.le_add_left _ _, front, tail, rfl, rfl⟩

/-- There always is an answer: the bytes that are compared are a text whenever they are looked at.
-/
theorem covers?_eq_some_covers (parent domain : Text) :
    covers? parent domain = some (covers parent domain) := by
  obtain ⟨b, hb, -⟩ := exists_covers? parent domain
  rw [covers, hb, Option.getD_some]

/-- The byte comparison answers whether a name that is not empty covers a domain. -/
theorem covers_eq_true_iff : covers parent domain = true ↔ parent ≠ [] ∧ Covers parent domain := by
  obtain ⟨b, hb, hiff⟩ := exists_covers? parent domain
  rwa [covers, hb, Option.getD_some]

theorem covers_iff {name domain : Text} (hne : name ≠ []) :
    covers name domain = true ↔ Covers name domain :=
  covers_eq_true_iff.trans (and_iff_right hne)

/-- A domain is covered by some names if one of them covers it. -/
theorem coveredByAny_iff {names : List Text} {domain : Text} (hne : ∀ n ∈ names, n ≠ []) :
    coveredByAny names domain = true ↔ ∃ n ∈ names, Covers n domain := by
  rw [coveredByAny, List.any_eq_true]
  refine exists_congr fun n => and_congr_right fun hn => ?_
  exact covers_iff (hne n hn)

/-! ## Names above names -/

theorem covers_refl {name : Text} (hne : name ≠ []) : covers name name = true :=
  covers_eq_true_iff.mpr ⟨hne, .inl rfl⟩

/-- What a covered name covers is covered. -/
theorem covers_trans {top : Text} (hparent : covers top parent = true)
    (hdomain : covers parent domain = true) : covers top domain = true := by
  rw [covers_eq_true_iff, covers_iff_labels_suffix] at hparent hdomain ⊢
  exact ⟨hparent.1, hparent.2.trans hdomain.2⟩

/-- The case of ASCII letters has no bearing on what covers what. -/
theorem covers_congr {parent' domain' : Text} (hparent : foldCase parent = foldCase parent')
    (hdomain : foldCase domain = foldCase domain') :
    covers parent domain = covers parent' domain' := by
  have hempty : parent = [] ↔ parent' = [] := by
    rw [← Text.foldCase_eq_nil_iff, hparent, Text.foldCase_eq_nil_iff]
  rw [Bool.eq_iff_iff, covers_eq_true_iff, covers_eq_true_iff, Covers, Covers, hparent, hdomain,
    ne_eq, ne_eq, hempty]

/-- Going through the names above a domain changes nothing: a domain is in the scope exactly if it
has, or stands below, a name that is in the scope. -/
def ThroughParents (scope : Text → Bool) : Prop :=
  ∀ domain, scope domain = true ↔ ∃ parent, covers parent domain = true ∧ scope parent = true

/-- Whether some names cover a domain can be told from the names above it. -/
theorem throughParents_coveredByAny (names : List Text) : ThroughParents (coveredByAny names) := by
  intro domain
  simp only [coveredByAny, List.any_eq_true]
  constructor
  · rintro ⟨name, hmem, hname⟩
    exact ⟨name, hname, name, hmem, covers_refl (covers_eq_true_iff.mp hname).1⟩
  · rintro ⟨parent, hdomain, name, hmem, hparent⟩
    exact ⟨name, hmem, covers_trans hparent hdomain⟩

/-- Whether a rule permits a domain can be told from the names above it. -/
theorem throughParents_permits (r : Rule) : ThroughParents r.permits := by
  cases r with
  | network r => exact throughParents_coveredByAny r.domains.permitted
  | cosmetic r => exact throughParents_coveredByAny r.domains.permitted

/-- A cosmetic rule is kept from a domain by the names above it and permitted there by them. -/
theorem appliesTo_iff_throughParents (r : CosmeticRule) (domain : Text) :
    r.appliesTo domain = true ↔
      (∀ parent, covers parent domain = true →
        coveredByAny r.domains.restricted parent = false) ∧
      (r.isGeneric = true ∨ ∃ parent, covers parent domain = true ∧ r.permits parent = true) := by
  have hrestricted := throughParents_coveredByAny r.domains.restricted domain
  have hpermitted := throughParents_coveredByAny r.domains.permitted domain
  rw [CosmeticRule.appliesTo, Bool.and_eq_true, Bool.or_eq_true, Bool.not_eq_true',
    ← Bool.not_eq_true, hrestricted, CosmeticRule.permits, hpermitted, not_exists]
  simp only [not_and, Bool.not_eq_true, CosmeticRule.permits]

/-- **Subdomains by labels.** For any two texts there is an answer to whether the one stands below
the other. It does if the labels of the name, which is not empty, are the last ones of the domain,
the case of ASCII letters apart. So letter case makes no difference on either side, a name stands
below itself, and what stands below one that stands below a third stands below the third. A scope is
not changed by going through the names above a domain: not what a list of names covers, nor what
rules permit by name, nor where cosmetic rules apply. -/
theorem covers?_labels_suffix_throughParents :
    (∀ parent domain, covers? parent domain = some (covers parent domain) ∧
      (covers parent domain = true ↔
        parent ≠ [] ∧ labels (foldCase parent) <:+ labels (foldCase domain))) ∧
    (∀ parent parent' domain domain', foldCase parent = foldCase parent' →
      foldCase domain = foldCase domain' → covers parent domain = covers parent' domain') ∧
    (∀ name, name ≠ [] → covers name name = true) ∧
    (∀ top parent domain, covers top parent = true → covers parent domain = true →
      covers top domain = true) ∧
    (∀ names, ThroughParents (coveredByAny names)) ∧
    (∀ r : Rule, ThroughParents r.permits) ∧
    ∀ (r : CosmeticRule) domain, r.appliesTo domain = true ↔
      (∀ parent, covers parent domain = true →
        coveredByAny r.domains.restricted parent = false) ∧
      (r.isGeneric = true ∨ ∃ parent, covers parent domain = true ∧ r.permits parent = true) := by
  refine ⟨fun parent domain => ⟨covers?_eq_some_covers parent domain, ?_⟩,
    fun _ _ _ _ => covers_congr, fun _ => covers_refl, fun _ _ _ => covers_trans,
    throughParents_coveredByAny, throughParents_permits, appliesTo_iff_throughParents⟩
  rw [covers_eq_true_iff, covers_iff_labels_suffix]

/-- A name between two others, with a character of two bytes and letters of both cases. -/
theorem covers?_labels_suffix_throughParents_between :
    let top := "exämple.org".toList
    let parent := "Shop.eXämple.ORG".toList
    let domain := "a.shop.exämple.Org".toList
    (covers top parent = true ∧ covers parent domain = true ∧ covers top domain = true) ∧
      (foldCase parent = "shop.exämple.org".toList ∧
        covers parent domain = covers "shop.exämple.org".toList domain) ∧
      parent ≠ [] ∧ covers parent parent = true := by
  intro top parent domain
  obtain ⟨-, hcase, hrefl, htrans, -⟩ := covers?_labels_suffix_throughParents
  have hparent : covers top parent = true := by decide
  have hdomain : covers parent domain = true := by decide
  have hne : parent ≠ [] := by decide
  have hfold : foldCase parent = foldCase "shop.exämple.org".toList := by decide
  exact ⟨⟨hparent, hdomain, htrans top parent domain hparent hdomain⟩,
    ⟨hfold, hcase _ _ _ _ hfold rfl⟩, hne, hrefl parent hne⟩

/-- A tail of the right length that begins inside a character is not looked at. -/
example : covers? "a".toList "é".toList = some false := by decide

end Domain

end ContentFilter
