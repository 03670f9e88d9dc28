import ContentFilter.Fragment
import ContentFilter.Proofs.Text.Cut
import ContentFilter.Proofs.Text.Trim

/-!
# Where fragments stand

A fragment claims to be a piece of a larger text, and its offset is the only thing that says
which. `Fragment.StandsIn` makes the claim good: the text is what comes before the fragment, the
fragment, and what comes after it, and the offset counts the bytes of what comes before. Its span
then begins and ends between two characters of the text.

Every operation that narrows a fragment takes a fragment that stands in a text to one that stands
in the same text, and what it takes away from the fragment it adds to what comes before or after.
There is one lemma for each operation. The cut needs more, since what its pieces are depends on
where they were cut: a piece holds no separator that would have cut it, and it is either at the
end of the text or next to such a separator (`Text.IsPiece`).
-/

set_option autoImplicit false

namespace ContentFilter

/-! ## Pieces -/

/-- What stands between `front` and `back` is a piece of the text that is cut at unescaped `c`. -/
structure Text.IsPiece (c : Char) (front piece back : Text) : Prop where
  guarded : Text.Guarded c piece
  opened : front = [] ∨ ∃ s, front = s ++ [c] ∧ s.getLast? ≠ some '\\'
  closed : back = [] ∨ ∃ s, back = c :: s ∧ piece.getLast? ≠ some '\\'

/-- What a cut leaves to the right of its first separator keeps its pieces. -/
theorem Text.IsPiece.append_cons {c : Char} (hc : c ≠ '\\') {p front piece back : Text}
    (hp : p.getLast? ≠ some '\\') (h : IsPiece c front piece back) :
    IsPiece c (p ++ c :: front) piece back := by
  refine ⟨h.guarded, .inr ?_, h.closed⟩
  rcases h.opened with rfl | ⟨s, rfl, hs⟩
  · exact ⟨p, rfl, hp⟩
  · refine ⟨p ++ c :: s, by simp, ?_⟩
    rw [List.getLast?_append_of_ne_nil _ (List.cons_ne_nil c s), List.getLast?_cons]
    cases hlast : s.getLast? with
    | none => simpa using hc
    | some d => rwa [hlast] at hs

namespace Fragment

/-- A fragment stands in a text between `before` and `after`. -/
structure StandsIn (f : Fragment) (text before after : Text) : Prop where
  text_eq : text = before ++ f.text ++ after
  offset_eq : f.offset = Text.byteLength before

/-- A fragment stands somewhere in a text. -/
def Within (f : Fragment) (text : Text) : Prop := ∃ before after, f.StandsIn text before after

theorem standsIn_whole (text : Text) : (whole text).StandsIn text [] [] := by
  refine ⟨?_, rfl⟩
  rw [List.nil_append, List.append_nil]
  rfl

/-- What stands behind one head and then another stands behind both. -/
theorem after_after (f : Fragment) (u v s t : Text) :
    (f.after u s).after v t = f.after (u ++ v) t := by
  simp only [after, Text.byteLength_append, Nat.add_assoc]

theorem stop_after {f : Fragment} {head rest : Text} (hsplit : f.text = head ++ rest) :
    (f.after head rest).stop = f.stop := by
  rw [stop, stop, hsplit, Text.byteLength_append, after, Nat.add_assoc]

/-- A tail starts within the fragment. -/
theorem offset_after_le {f : Fragment} {head rest : Text} (hsplit : f.text = head ++ rest) :
    f.offset ≤ (f.after head rest).offset ∧ (f.after head rest).offset ≤ f.stop := by
  rw [← stop_after hsplit]
  exact ⟨Nat.le_add_right _ _, Nat.le_add_right _ _⟩

/-- A head that is there is taken off. -/
theorem strip?_append (offset : Nat) (head rest : Text) :
    strip? head ⟨offset, head ++ rest⟩ = some ⟨offset + Text.byteLength head, rest⟩ := by
  have hprefix : head.isPrefixOf (head ++ rest) = true :=
    List.isPrefixOf_iff_prefix.mpr (List.prefix_append head rest)
  simp [strip?, after, hprefix]

/-- A head that is not there cannot be taken off. -/
theorem strip?_eq_none {head : Text} {f : Fragment} (h : ¬ head <+: f.text) :
    f.strip? head = none := by
  have hprefix : ¬ head.isPrefixOf f.text = true := fun hp =>
    h (List.isPrefixOf_iff_prefix.mp hp)
  rw [strip?, if_neg hprefix]

/-- What stands behind a fragment is behind its first split too. -/
theorem splitFirst?_append_right {c : Char} {offset : Nat} {t : Text} {x y : Fragment}
    (h : splitFirst? c ⟨offset, t⟩ = some (x, y)) (rest : Text) :
    splitFirst? c ⟨offset, t ++ rest⟩ = some (x, ⟨y.offset, y.text ++ rest⟩) := by
  obtain ⟨⟨p, q⟩, hsplit, hxy⟩ := Option.map_eq_some_iff.mp h
  obtain ⟨rfl, rfl⟩ := Prod.mk.inj hxy
  rw [splitFirst?, Text.splitFirst?_append_right hsplit]
  rfl

/-- Nothing is trimmed if neither end is to be. -/
theorem trim_of_ends {p : Char → Bool} {f : Fragment}
    (hhead : ∀ c, f.text.head? = some c → p c = false)
    (hlast : ∀ c, f.text.getLast? = some c → p c = false) : f.trim p = f := by
  obtain ⟨offset, text⟩ := f
  cases text with
  | nil => rfl
  | cons c text =>
    rw [trim, trimStart, List.takeWhile_cons, List.dropWhile_cons, hhead c rfl]
    show (⟨offset, Text.dropTailWhile p (c :: text)⟩ : Fragment) = _
    rw [Text.dropTailWhile_of_getLast? hlast]

/-- What is left of a fragment without the characters at its ends that satisfy `p`. -/
structure Trims (p : Char → Bool) (f g : Fragment) : Prop where
  split : ∃ lead tail, f.text = lead ++ g.text ++ tail ∧ (∀ c ∈ lead, p c = true) ∧
    (∀ c ∈ tail, p c = true) ∧ g.offset = f.offset + Text.byteLength lead
  head : ∀ c, g.text.head? = some c → p c = false
  last : ∀ c, g.text.getLast? = some c → p c = false

/-- Trimming leaves what is left without the characters at the ends. -/
theorem trims_trim (p : Char → Bool) (f : Fragment) : Trims p f (f.trim p) := by
  obtain ⟨tail, hsplit, htail⟩ :=
    Text.exists_dropTailWhile_append (p := p) (f.text.dropWhile p)
  refine ⟨⟨f.text.takeWhile p, tail, ?_, fun c => List.mem_takeWhile_imp, htail, rfl⟩, ?_, ?_⟩
  · rw [List.append_assoc]
    show f.text = _ ++ (Text.dropTailWhile p (f.text.dropWhile p) ++ tail)
    rw [← hsplit, List.takeWhile_append_dropWhile]
  · intro c hc
    exact Text.not_of_head?_trim hc
  · intro c hc
    exact Text.not_of_getLast?_dropTailWhile hc

/-- Trimming at the start goes up to the first character that stays. -/
theorem trimStart_of_first {p : Char → Bool} (offset : Nat) {front rest : Text} {c : Char}
    (hfront : ∀ d ∈ front, p d = true) (hc : p c = false) :
    (⟨offset, front ++ c :: rest⟩ : Fragment).trimStart p =
      ⟨offset + Text.byteLength front, c :: rest⟩ := by
  have htake : (front ++ c :: rest).takeWhile p = front := by
    rw [List.takeWhile_append_of_pos hfront, List.takeWhile_cons, hc]
    simp
  have hdrop : (front ++ c :: rest).dropWhile p = c :: rest := by
    rw [List.dropWhile_append_of_pos hfront, List.dropWhile_cons, hc]
    rfl
  rw [trimStart, after, htake, hdrop]

/-- Trimmed characters in front of a text only move what is left of it. -/
theorem trim_append_of_pos {p : Char → Bool} (offset : Nat) {front : Text} (t : Text)
    (h : ∀ c ∈ front, p c = true) :
    (⟨offset, front ++ t⟩ : Fragment).trim p =
      (⟨offset + Text.byteLength front, t⟩ : Fragment).trim p := by
  rw [trim, trim, trimStart, trimStart]
  simp only [List.takeWhile_append_of_pos h, List.dropWhile_append_of_pos h, after,
    Text.byteLength_append, Nat.add_assoc]

/-- Only one thing can be left, if anything is. -/
theorem Trims.trim_eq {p : Char → Bool} {f g : Fragment} (h : Trims p f g) (hne : g.text ≠ []) :
    f.trim p = g := by
  obtain ⟨lead, tail, hsplit, hlead, htail, hoffset⟩ := h.split
  obtain ⟨offset, text⟩ := f
  obtain ⟨start, kept⟩ := g
  obtain ⟨c, rest, rfl⟩ := List.exists_cons_of_ne_nil hne
  obtain rfl : text = lead ++ c :: (rest ++ tail) := by simpa using hsplit
  obtain rfl : start = offset + Text.byteLength lead := hoffset
  rw [trim, trimStart_of_first offset hlead (h.head c rfl), trimEnd, ← List.cons_append,
    Text.dropTailWhile_append_of_pos _ htail, Text.dropTailWhile_of_getLast? h.last]

/-- Taking a head off gives what stands behind it. -/
theorem exists_of_strip? {f g : Fragment} {mark : Text} (h : f.strip? mark = some g) :
    f.text = mark ++ g.text ∧ g = f.after mark g.text := by
  rw [strip?] at h
  split at h
  · rename_i hmark
    obtain rfl := Option.some.inj h
    obtain ⟨rest, hrest⟩ := List.isPrefixOf_iff_prefix.mp hmark
    have hdrop : f.text.drop mark.length = rest := by rw [← hrest, List.drop_left]
    refine ⟨?_, rfl⟩
    show f.text = mark ++ f.text.drop mark.length
    rw [hdrop, hrest]
  · exact nomatch h

namespace StandsIn

variable {f : Fragment} {text before after : Text}

/-- Where nothing stands, whatever follows begins. -/
theorem of_nil {offset : Nat} {x : Text}
    (h : (⟨offset, []⟩ : Fragment).StandsIn text before (x ++ after)) :
    (⟨offset, x⟩ : Fragment).StandsIn text before after := by
  refine ⟨?_, h.offset_eq⟩
  rw [h.text_eq, List.append_nil, List.append_assoc]

variable (h : f.StandsIn text before after)

include h

theorem within : f.Within text := ⟨before, after, h⟩

/-- The span of a fragment that stands in a text cuts it out of that text. -/
theorem span_eq :
    f.span = ⟨Text.byteLength before, Text.byteLength (before ++ f.text)⟩ := by
  rw [span, stop, h.offset_eq, Text.byteLength_append]

/-- A part of a fragment stands in the text where it stands in the fragment. -/
theorem part {front part back : Text} (hsplit : f.text = front ++ part ++ back) :
    (⟨f.offset + Text.byteLength front, part⟩ : Fragment).StandsIn text (before ++ front)
      (back ++ after) := by
  refine ⟨?_, ?_⟩
  · rw [h.text_eq, hsplit]
    simp
  · rw [h.offset_eq, Text.byteLength_append]

theorem after_head {head rest : Text} (hsplit : f.text = head ++ rest) :
    (f.after head rest).StandsIn text (before ++ head) after := by
  have hparts : f.text = head ++ rest ++ [] := by rw [hsplit, List.append_nil]
  exact h.part hparts

theorem head {head rest : Text} (hsplit : f.text = head ++ rest) :
    (⟨f.offset, head⟩ : Fragment).StandsIn text before (rest ++ after) := by
  have hparts : f.text = [] ++ head ++ rest := by rw [hsplit, List.nil_append]
  have hpart := h.part hparts
  rwa [List.append_nil] at hpart

/-! ### Trimming -/

theorem trimStart (p : Char → Bool) :
    (f.trimStart p).StandsIn text (before ++ f.text.takeWhile p) after :=
  h.after_head List.takeWhile_append_dropWhile.symm

theorem trimEnd (p : Char → Bool) :
    ∃ tail, f.text = (f.trimEnd p).text ++ tail ∧ (∀ c ∈ tail, p c = true) ∧
      (f.trimEnd p).StandsIn text before (tail ++ after) := by
  obtain ⟨tail, hsplit, htail⟩ := Text.exists_dropTailWhile_append (p := p) f.text
  exact ⟨tail, hsplit, htail, h.head hsplit⟩

/-- Trimming keeps a fragment in its text. -/
theorem trim (p : Char → Bool) :
    ∃ lead tail, f.text = lead ++ (f.trim p).text ++ tail ∧ (∀ c ∈ lead, p c = true) ∧
      (∀ c ∈ tail, p c = true) ∧
      (f.trim p).StandsIn text (before ++ lead) (tail ++ after) := by
  obtain ⟨tail, hsplit, htail, hstands⟩ := (h.trimStart p).trimEnd p
  refine ⟨f.text.takeWhile p, tail, ?_, fun c => List.mem_takeWhile_imp, htail, hstands⟩
  rw [List.append_assoc, Fragment.trim, ← hsplit]
  exact List.takeWhile_append_dropWhile.symm

/-! ### Splitting -/

/-- What stands behind a mark stands in the text behind it. -/
theorem strip? {mark : Text} {g : Fragment} (hg : f.strip? mark = some g) :
    f.text = mark ++ g.text ∧ g.StandsIn text (before ++ mark) after := by
  obtain ⟨hsplit, hafter⟩ := exists_of_strip? hg
  refine ⟨hsplit, ?_⟩
  rw [hafter]
  exact h.after_head hsplit

/-- The two sides of a character at which a fragment is split stand around it. -/
theorem around {c d : Char} {p q : Text} {x y : Fragment} (hxy : f.around c (p, q) = (x, y))
    (hsplit : f.text = p ++ d :: q) (hd : Text.unescaped c p.getLast? d = true) :
    f.text = x.text ++ c :: y.text ∧ x.text.getLast? ≠ some '\\' ∧
      x.StandsIn text before (c :: y.text ++ after) ∧
      y.StandsIn text (before ++ x.text ++ [c]) after := by
  simp only [Text.unescaped, Bool.and_eq_true, beq_iff_eq, bne_iff_ne] at hd
  obtain ⟨rfl, hlast⟩ := hd
  obtain ⟨rfl, rfl⟩ := Prod.mk.inj hxy
  refine ⟨hsplit, hlast, h.head hsplit, ?_⟩
  rw [List.append_assoc]
  exact h.after_head (by rw [hsplit]; simp)

/-- The two sides of the first unescaped `c` stand around it. -/
theorem splitFirst? {c : Char} {x y : Fragment} (hxy : f.splitFirst? c = some (x, y)) :
    f.text = x.text ++ c :: y.text ∧ x.text.getLast? ≠ some '\\' ∧
      x.StandsIn text before (c :: y.text ++ after) ∧
      y.StandsIn text (before ++ x.text ++ [c]) after := by
  obtain ⟨⟨p, q⟩, hparts, haround⟩ := Option.map_eq_some_iff.mp hxy
  obtain ⟨d, hsplit, hd⟩ := Text.exists_of_splitFirst? hparts
  exact h.around haround hsplit hd

theorem splitLast? {c : Char} {x y : Fragment} (hxy : f.splitLast? c = some (x, y)) :
    f.text = x.text ++ c :: y.text ∧ x.text.getLast? ≠ some '\\' ∧
      x.StandsIn text before (c :: y.text ++ after) ∧
      y.StandsIn text (before ++ x.text ++ [c]) after := by
  obtain ⟨⟨p, q⟩, hparts, haround⟩ := Option.map_eq_some_iff.mp hxy
  obtain ⟨d, hsplit, hd⟩ := Text.exists_of_splitLast? hparts
  exact h.around haround hsplit hd

end StandsIn

/-! ### Cutting -/

/-- Locating pieces leaves their texts as they are. -/
theorem map_text_locate (c : Char) (offset : Nat) (pieces : List Text) :
    (locate c offset pieces).map (·.text) = pieces := by
  induction pieces generalizing offset with
  | nil => rfl
  | cons p pieces ih => rw [locate, List.map_cons, ih]

/-- A located piece starts as many bytes after the first one as the pieces and separators between
them take. -/
theorem exists_of_mem_locate {c : Char} (hc : c ≠ '\\') {offset : Nat} {t : Text} {g : Fragment}
    (hg : g ∈ locate c offset (Text.cut (Text.unescaped c) t)) :
    ∃ front back, t = front ++ g.text ++ back ∧ Text.IsPiece c front g.text back ∧
      g.offset = offset + Text.byteLength front := by
  induction t using Text.cut_unescaped_induction hc generalizing offset with
  | guarded t ht =>
    rw [Text.cut_unescaped_of_guarded ht, locate, locate, List.mem_singleton] at hg
    rw [hg]
    exact ⟨[], [], by simp, ⟨ht, .inl rfl, .inl rfl⟩, rfl⟩
  | append p t hp hlast ih =>
    rw [Text.cut_unescaped_append hc hp hlast, locate, List.mem_cons] at hg
    rcases hg with rfl | hg
    · exact ⟨[], c :: t, by simp, ⟨hp, .inl rfl, .inr ⟨t, rfl, hlast⟩⟩, rfl⟩
    · obtain ⟨front, back, rfl, hpiece, hoffset⟩ := ih hg
      refine ⟨p ++ c :: front, back, by simp, hpiece.append_cons hc hlast, ?_⟩
      rw [hoffset, Text.byteLength_append, Text.byteLength_cons]
      omega

/-- The pieces of a fragment stand in its text, one after the other. -/
theorem StandsIn.cut {f g : Fragment} {text before after : Text}
    (h : f.StandsIn text before after) {c : Char} (hc : c ≠ '\\') (hg : g ∈ f.cut c) :
    ∃ front back, f.text = front ++ g.text ++ back ∧ Text.IsPiece c front g.text back ∧
      g.StandsIn text (before ++ front) (back ++ after) := by
  obtain ⟨front, back, hsplit, hpiece, hoffset⟩ := exists_of_mem_locate hc hg
  have hpart := h.part hsplit
  rw [← hoffset] at hpart
  exact ⟨front, back, hsplit, hpiece, hpart⟩

end Fragment

end ContentFilter
