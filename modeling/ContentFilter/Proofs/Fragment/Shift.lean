import ContentFilter.SyntaxError

/-!
# Moving fragments

A reader that is handed a fragment does not know what stands in front of it, and must not find
out: if the fragment is moved, everything that is read from it moves by the same distance and
nothing else changes. Here this is shown of the operations that narrow fragments. Each of them
commutes with `Fragment.shift`, since each one looks at the text of a fragment only and adds to
its offset.

`Reading.shift` is the same for the answer of a reader: an error is moved, and so is whatever in a
result says where it stood. A reader made of readers commutes with it if each of them does
(`Reading.shift_bind`), and that is all the proofs about particular readers come down to.
-/

set_option autoImplicit false

namespace ContentFilter

theorem Span.point_add (offset base : Nat) :
    Span.point (offset + base) = (Span.point offset).shift base := by
  rw [point, point, shift, Nat.add_right_comm]

namespace Fragment

variable (base : Nat) (f : Fragment)

@[simp] theorem text_shift : (f.shift base).text = f.text := rfl

@[simp] theorem offset_shift : (f.shift base).offset = f.offset + base := rfl

/-- A fragment is a whole text, moved. -/
theorem mk_eq_shift_whole (text : Text) : (⟨base, text⟩ : Fragment) = (whole text).shift base := by
  rw [whole, shift, Nat.zero_add]

theorem stop_shift : (f.shift base).stop = f.stop + base := by
  rw [stop, stop, offset_shift, text_shift, Nat.add_right_comm]

theorem span_shift : (f.shift base).span = f.span.shift base := by
  rw [span, span, stop_shift]
  rfl

theorem after_shift (head rest : Text) :
    (f.shift base).after head rest = (f.after head rest).shift base := by
  rw [after, after, offset_shift, Nat.add_right_comm]
  rfl

/-! ## Trimming -/

theorem trimStart_shift (p : Char → Bool) :
    (f.shift base).trimStart p = (f.trimStart p).shift base :=
  after_shift base f _ _

theorem trimEnd_shift (p : Char → Bool) :
    (f.shift base).trimEnd p = (f.trimEnd p).shift base := rfl

theorem trim_shift (p : Char → Bool) : (f.shift base).trim p = (f.trim p).shift base := by
  rw [trim, trimStart_shift, trimEnd_shift]
  rfl

/-! ## Splitting -/

theorem strip?_shift (head : Text) :
    (f.shift base).strip? head = (f.strip? head).map (shift base) := by
  rw [strip?, strip?, text_shift, after_shift]
  split <;> rfl

theorem around_shift (c : Char) (parts : Text × Text) :
    (f.shift base).around c parts = (f.around c parts).map (shift base) (shift base) := by
  rw [around, after_shift]
  rfl

theorem splitFirst?_shift (c : Char) :
    (f.shift base).splitFirst? c =
      (f.splitFirst? c).map (Prod.map (shift base) (shift base)) := by
  rw [splitFirst?, splitFirst?, text_shift, Option.map_map]
  exact congrArg (Option.map · _) (funext (around_shift base f c))

theorem splitLast?_shift (c : Char) :
    (f.shift base).splitLast? c = (f.splitLast? c).map (Prod.map (shift base) (shift base)) := by
  rw [splitLast?, splitLast?, text_shift, Option.map_map]
  exact congrArg (Option.map · _) (funext (around_shift base f c))

/-! ## Cutting -/

/-- Pieces that start further to the right are the same pieces, moved. -/
theorem locate_add (separator : Char) (offset : Nat) (pieces : List Text) :
    locate separator (offset + base) pieces =
      (locate separator offset pieces).map (shift base) := by
  -- The offset of the next piece grows with that of the one before.
  induction pieces generalizing offset with
  | nil => rfl
  | cons piece pieces ih =>
    rw [locate, locate, List.map_cons, ← ih]
    congr 2
    omega

/-- Moving commutes with cutting. -/
theorem cut_shift (separator : Char) :
    (f.shift base).cut separator = (f.cut separator).map (shift base) :=
  locate_add base separator f.offset _

end Fragment

/-! ## Readers -/

namespace Reading

variable {α β : Type} (base : Nat)

/-- The answer of a reader, moved right by `base` bytes; `move` moves a result. -/
def shift (move : α → α) : Reading α → Reading α
  | .ok a => .ok (move a)
  | .error e => .error (e.shift base)

/-- The answer of a reader whose results do not say where they stood. -/
abbrev shiftErrors : Reading α → Reading α := shift base fun a => a

variable {move : α → α} {move' : β → β}

theorem shift_ite (p : Prop) [Decidable p] (x y : Reading α) :
    shift base move (if p then x else y) = if p then x.shift base move else y.shift base move :=
  apply_ite (shift base move) p x y

/-- A sequence moves if its first reader does and the second one does, whatever the first one
hands it. -/
theorem shift_bind {x : Reading α} {f g : α → Reading β}
    (h : ∀ a, g (move a) = (f a).shift base move') :
    x.shift base move >>= g = (x >>= f).shift base move' := by
  cases x with
  | error e => rfl
  | ok a => exact h a

/-- An answer that is computed on moves with what it is computed from. -/
theorem shift_map {x : Reading α} {f g : α → β} (h : ∀ a, g (move a) = move' (f a)) :
    (x.shift base move).map g = shift base move' (x.map f) := by
  cases x with
  | error e => rfl
  | ok a => exact congrArg Except.ok (h a)

end Reading

end ContentFilter
