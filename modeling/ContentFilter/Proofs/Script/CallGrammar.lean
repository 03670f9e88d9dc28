import ContentFilter.Proofs.Text.Cut
import ContentFilter.Script.Call

/-!
# The grammar of scriptlet calls

A call is quoted parts with fillers around them (`Lists`) and a closing bracket at the end
(`IsCall`). The bracket is a filler too, so only its place makes it the end. Of a quoted part it
matters where it ends: the body holds its own quote only behind a backslash, and does not end with
one (`Quotes`). This is what makes the parts of a text unambiguous.

The scan goes through a text once and knows the character before the one in hand. Inside a quoted
part that character belongs to the body, but for the first one, which stands behind the opening
quote; and a quote is no backslash. So the scan finds the end of the body where the grammar has it.
`Passes` extends the grammar to a scan that starts inside a part, and `scanned` says of every scan
how far it comes: to the end of a call, to a character that may not stand between parts, or, if
there is neither, to the end of the text.
-/

set_option autoImplicit false

namespace ContentFilter.ScriptletCall

/-! ## The grammar -/

/-- What may stand between quoted parts: spaces, commas and brackets. -/
def IsGap (t : Text) : Prop := ∀ c ∈ t, c ∈ [' ', '(', ',', ')']

/-- What a quoted part holds, between two of `quote`. -/
structure Quotes (quote : Char) (body : Text) : Prop where
  isQuote : quote ∈ ['\'', '"']
  guarded : Text.Guarded quote body
  last : body.getLast? ≠ some '\\'

/-- Quoted parts with gaps around them, and the bodies of the parts in their order. -/
inductive Lists : Text → List Text → Prop
  | gap {gap : Text} (hgap : IsGap gap) : Lists gap []
  | part {gap body rest : Text} {quote : Char} {bodies : List Text} (hgap : IsGap gap)
      (hbody : Quotes quote body) (hrest : Lists rest bodies) :
      Lists (gap ++ quote :: body ++ quote :: rest) (body :: bodies)

/-- A text has the form of a call with these quoted parts. -/
def IsCall (text : Text) (bodies : List Text) : Prop :=
  ∃ front, text = front ++ [')'] ∧ Lists front bodies

/-- A character that may not stand outside a quoted part. -/
def IsStray (c : Char) : Prop := c ∉ [' ', '(', ',', ')', '\'', '"']

/-- Behind `front`, outside the quoted parts, stands the first character of a text that may not. -/
def StraysAt (text front : Text) (c : Char) : Prop :=
  ∃ bodies back, text = front ++ c :: back ∧ Lists front bodies ∧ IsStray c

/-- What a text is read into as a call. -/
inductive Answers (text : Text) : Reading ScriptletCall → Prop
  /-- The call of no scriptlet in particular. -/
  | forAll (htext : text = ['(', ')']) : Answers text (.ok ⟨[], []⟩)
  /-- The first part is the name, the others are the arguments. -/
  | call {name : Text} {args : List Text} (hcall : IsCall text (name :: args))
      (hname : name ≠ []) : Answers text (.ok ⟨name, args⟩)
  /-- There are no parts, or the first one is empty. -/
  | nameless {bodies : List Text} (hcall : IsCall text bodies) (htext : text ≠ ['(', ')'])
      (hname : ∀ name args, bodies = name :: args → name = []) :
      Answers text (.error ⟨.missingScriptletName text, ⟨0, Text.byteLength text⟩⟩)
  | stray {front : Text} {c : Char} (hstray : StraysAt text front c) :
      Answers text (.error ⟨.invalidScriptlet text,
        ⟨Text.byteLength front, Text.byteLength (front ++ [c])⟩⟩)
  /-- The text is no call, and every character of it may stand where it stands. -/
  | unclosed (hcall : ∀ bodies, ¬ IsCall text bodies)
      (hstray : ∀ front c, ¬ StraysAt text front c) :
      Answers text (.error ⟨.invalidScriptlet text, ⟨0, Text.byteLength text⟩⟩)

/-! ## The characters

The scan asks for the kind of a character; the grammar names the characters. -/

/-- The fillers of the scan are what gaps are made of. -/
theorem isFiller_iff {c : Char} : isFiller c = true ↔ c ∈ [' ', '(', ',', ')'] := by
  simp [isFiller, or_assoc]

/-- The quotes of the scan are those of the grammar. -/
theorem isQuote_iff {c : Char} : isQuote c = true ↔ c ∈ ['\'', '"'] := by
  simp [isQuote]

/-- A stray character is neither a filler nor a quote. -/
theorem isStray_iff {c : Char} : IsStray c ↔ isFiller c = false ∧ isQuote c = false := by
  rw [← Bool.not_eq_true, ← Bool.not_eq_true, isFiller_iff, isQuote_iff, ← not_or,
    ← List.mem_append]
  rfl

theorem isFiller_of_isQuote {c : Char} (h : isQuote c = true) : isFiller c = false := by
  simp only [isQuote, Bool.or_eq_true, beq_iff_eq] at h
  rcases h with rfl | rfl <;> rfl

theorem ne_backslash_of_isQuote {c : Char} (h : isQuote c = true) : c ≠ '\\' := by
  rintro rfl
  exact nomatch h

/-- A filler in front of quoted parts belongs to the first gap. -/
theorem Lists.cons_filler {t : Text} {bodies : List Text} (h : Lists t bodies) {c : Char}
    (hc : isFiller c = true) : Lists (c :: t) bodies := by
  cases h with
  | gap hgap => exact .gap (List.forall_mem_cons.mpr ⟨isFiller_iff.mp hc, hgap⟩)
  | @part gap _ _ _ _ hgap hbody hrest =>
    have hlonger : IsGap (c :: gap) := List.forall_mem_cons.mpr ⟨isFiller_iff.mp hc, hgap⟩
    exact .part hlonger hbody hrest

/-! ## What the scan passes over -/

section Scan

variable {parts : List Text} {offset : Nat} {rest : Text}

/-- The scan passes over a gap unless the text ends with it. -/
theorem scan_gap {gap : Text} (hgap : IsGap gap) (hrest : rest ≠ []) :
    scan .between parts offset (gap ++ rest) =
      scan .between parts (offset + Text.byteLength gap) rest := by
  induction gap generalizing offset with
  | nil => rfl
  | cons c gap ih =>
    obtain ⟨hc, hgap⟩ := List.forall_mem_cons.mp hgap
    rw [← isFiller_iff] at hc
    have hquote : ¬ isQuote c = true := fun hquote => by
      rw [isFiller_of_isQuote hquote] at hc
      exact Bool.false_ne_true hc
    -- A bracket here is not the last character, and so it is a filler as any other.
    have hend : ¬ (c = ')' ∧ gap ++ rest = []) := fun hboth =>
      hrest (List.append_eq_nil_iff.mp hboth.2).2
    rw [List.cons_append, scan, if_neg hend, if_neg hquote, if_pos hc, ih hgap,
      Text.byteLength_cons, Nat.add_assoc]

/-- The scan leaves a body at the first quote that it takes for the end. -/
theorem scan_body {quote previous : Char} {seen body : Text}
    (hbody : Text.Unbroken (Text.unescaped quote) (some previous) body)
    (hlast : body.getLast?.or (some previous) ≠ some '\\') :
    scan (.inside quote previous seen) parts offset (body ++ quote :: rest) =
      scan .between ((seen.reverse ++ body) :: parts)
        (offset + Text.byteLength (body ++ [quote])) rest := by
  induction body generalizing previous seen offset with
  | nil =>
    have hclose : quote = quote ∧ previous ≠ '\\' := ⟨rfl, fun hprev => hlast (by rw [hprev]; rfl)⟩
    rw [List.nil_append, scan, if_pos hclose, List.append_nil]
    rfl
  | cons c body ih =>
    obtain ⟨hc, hbody⟩ := hbody
    have hopen : ¬ (c = quote ∧ previous ≠ '\\') := by
      simpa [Text.unescaped] using hc
    have hlast' : body.getLast?.or (some c) ≠ some '\\' := by
      rw [List.getLast?_cons] at hlast
      cases hbody' : body.getLast? <;> simpa [hbody'] using hlast
    rw [List.cons_append, scan, if_neg hopen, ih hbody hlast', List.reverse_cons, List.cons_append,
      Text.byteLength_cons, Nat.add_assoc, List.append_assoc, List.singleton_append]

/-- The quoted part does not end within its body. -/
theorem Quotes.unbroken {quote : Char} {body : Text} (h : Quotes quote body) :
    Text.Unbroken (Text.unescaped quote) (some quote) body :=
  have hquote := ne_backslash_of_isQuote (isQuote_iff.mpr h.isQuote)
  (Text.unbroken_unescaped_iff (by simpa using hquote)).mpr h.guarded

/-- The quote that ends a part has no backslash before it, whether it follows the body or, if that
is empty, the opening quote. -/
theorem Quotes.last_or {quote : Char} {body : Text} (h : Quotes quote body) :
    body.getLast?.or (some quote) ≠ some '\\' := by
  cases hlast : body.getLast? with
  | none => simpa using ne_backslash_of_isQuote (isQuote_iff.mpr h.isQuote)
  | some c => simpa [hlast] using h.last

/-- What the scan takes for the body of a quoted part is one. -/
theorem quotes_of_unbroken {quote : Char} {body : Text} (hquote : isQuote quote = true)
    (hbody : Text.Unbroken (Text.unescaped quote) (some quote) body)
    (hlast : body.getLast?.or (some quote) ≠ some '\\') : Quotes quote body := by
  refine ⟨isQuote_iff.mp hquote, ?_, fun hback => hlast (by rw [hback]; rfl)⟩
  exact (Text.unbroken_unescaped_iff (by simpa using ne_backslash_of_isQuote hquote)).mp hbody

/-- **Parts and gaps** are passed over, and the bodies kept. -/
theorem Lists.scan {front : Text} {bodies : List Text} (h : Lists front bodies)
    (hrest : rest ≠ []) :
    scan .between parts offset (front ++ rest) =
      scan .between (bodies.reverse ++ parts) (offset + Text.byteLength front) rest := by
  induction h generalizing parts offset with
  | gap hgap => exact scan_gap hgap hrest
  | @part gap body t quote bodies hgap hbody _ ih =>
    have hend : ¬ (quote = ')' ∧ body ++ quote :: (t ++ rest) = []) := fun hboth =>
      List.append_ne_nil_of_right_ne_nil _ (List.cons_ne_nil _ _) hboth.2
    have hsplit : gap ++ quote :: body ++ quote :: t ++ rest =
        gap ++ quote :: (body ++ quote :: (t ++ rest)) := by simp
    rw [hsplit, scan_gap hgap (List.cons_ne_nil _ _), scan, if_neg hend,
      if_pos (isQuote_iff.mpr hbody.isQuote),
      scan_body hbody.unbroken hbody.last_or, ih]
    congr 1
    · simp
    · simp only [Text.byteLength_append, Text.byteLength_cons, Text.byteLength_nil]
      omega

/-- The scan of a call answers its bodies. -/
theorem IsCall.scan {text : Text} {bodies : List Text} (h : IsCall text bodies) :
    scan .between [] offset text = .ok bodies := by
  obtain ⟨front, rfl, hfront⟩ := h
  rw [hfront.scan (List.cons_ne_nil _ _), List.append_nil, ScriptletCall.scan,
    if_pos ⟨rfl, rfl⟩, List.reverse_reverse]

/-- The scan stops at a stray character. -/
theorem StraysAt.scan {text front : Text} {c : Char} (h : StraysAt text front c) :
    scan .between [] offset text = .error (.unexpected (offset + Text.byteLength front) c) := by
  obtain ⟨bodies, back, rfl, hfront, hstray⟩ := h
  obtain ⟨hfiller, hquote⟩ := isStray_iff.mp hstray
  have hend : ¬ (c = ')' ∧ back = []) := by
    rintro ⟨rfl, -⟩
    exact nomatch hfiller
  rw [hfront.scan (List.cons_ne_nil _ _), ScriptletCall.scan, if_neg hend, hquote, hfiller,
    if_neg Bool.false_ne_true, if_neg Bool.false_ne_true]

end Scan

/-! ## How far the scan comes -/

/-- The scan comes from `state` through `front` to a place between parts, with these bodies. -/
def Passes : State → Text → List Text → Prop
  | .between, front, bodies => Lists front bodies
  | .inside quote previous seen, front, bodies =>
    ∃ body rest later, front = body ++ quote :: rest ∧
      Text.Unbroken (Text.unescaped quote) (some previous) body ∧
      body.getLast?.or (some previous) ≠ some '\\' ∧ Lists rest later ∧
      bodies = (seen.reverse ++ body) :: later

/-- What a scan answers shows how far it came. -/
inductive Scanned (state : State) (parts : List Text) (offset : Nat) (t : Text) :
    Except Failure (List Text) → Prop
  | closed {front : Text} {bodies : List Text} (ht : t = front ++ [')'])
      (hfront : Passes state front bodies) :
      Scanned state parts offset t (.ok (parts.reverse ++ bodies))
  | stray {front back : Text} {c : Char} {bodies : List Text} (ht : t = front ++ c :: back)
      (hfront : Passes state front bodies) (hc : IsStray c) :
      Scanned state parts offset t (.error (.unexpected (offset + Text.byteLength front) c))
  | unclosed : Scanned state parts offset t (.error .unclosed)

/-- **One character.** A scan that goes on in another state comes as far as that one does, with the
bodies that it has closed before. -/
theorem Scanned.step {state state' : State} {parts : List Text} (closed : List Text)
    {offset : Nat} {t : Text} {c : Char} {answer : Except Failure (List Text)}
    (h : Scanned state' (closed.reverse ++ parts) (offset + c.utf8Size) t answer)
    (hpasses : ∀ front bodies, Passes state' front bodies →
      Passes state (c :: front) (closed ++ bodies)) :
    Scanned state parts offset (c :: t) answer := by
  cases h with
  | @closed front bodies ht hfront =>
    have hparts : (closed.reverse ++ parts).reverse ++ bodies =
        parts.reverse ++ (closed ++ bodies) := by simp
    rw [hparts]
    exact .closed (by rw [ht]; rfl) (hpasses front bodies hfront)
  | @stray front back d bodies ht hfront hd =>
    have hplace : offset + c.utf8Size + Text.byteLength front =
        offset + Text.byteLength (c :: front) := by rw [Text.byteLength_cons, Nat.add_assoc]
    rw [hplace]
    exact .stray (by rw [ht]; rfl) (hpasses front bodies hfront) hd
  | unclosed => exact .unclosed

/-- A quote opens a part. -/
theorem Passes.opens {quote : Char} (hquote : isQuote quote = true) {front : Text}
    {bodies : List Text} (h : Passes (.inside quote quote []) front bodies) :
    Passes .between (quote :: front) bodies := by
  obtain ⟨body, rest, later, rfl, hbody, hlast, hrest, rfl⟩ := h
  have hgap : IsGap [] := fun c hc => nomatch hc
  exact .part hgap (quotes_of_unbroken hquote hbody hlast) hrest

/-- A quote that is not escaped closes the part that it has opened. -/
theorem Passes.closes {quote previous : Char} (hprevious : previous ≠ '\\') (seen : Text)
    {front : Text} {bodies : List Text} (h : Passes .between front bodies) :
    Passes (.inside quote previous seen) (quote :: front) ([seen.reverse] ++ bodies) :=
  ⟨[], front, bodies, rfl, trivial, by simpa using hprevious, h, by simp⟩

/-- Any other character belongs to the part. -/
theorem Passes.holds {quote previous c : Char} (hopen : ¬ (c = quote ∧ previous ≠ '\\'))
    {seen front : Text} {bodies : List Text}
    (h : Passes (.inside quote c (c :: seen)) front bodies) :
    Passes (.inside quote previous seen) (c :: front) bodies := by
  obtain ⟨body, rest, later, rfl, hbody, hlast, hrest, rfl⟩ := h
  have hc : Text.unescaped quote (some previous) c = false := by
    simpa [Text.unescaped] using hopen
  refine ⟨c :: body, rest, later, rfl, ⟨hc, hbody⟩, ?_, hrest, by simp⟩
  rw [List.getLast?_cons]
  cases hbody' : body.getLast? <;> simpa [hbody'] using hlast

/-- **A whole scan.** -/
theorem scanned (state : State) (parts : List Text) (offset : Nat) (t : Text) :
    Scanned state parts offset t (scan state parts offset t) := by
  fun_induction scan state parts offset t with
  | case1 => exact .unclosed
  | case2 parts offset c rest hend =>
    obtain ⟨rfl, rfl⟩ := hend
    have hnil : Lists [] [] := .gap fun c hc => nomatch hc
    have hclosed : Scanned .between parts offset [')'] (.ok (parts.reverse ++ [])) :=
      .closed rfl hnil
    rwa [List.append_nil] at hclosed
  | case3 parts offset c rest hend hquote ih =>
    exact ih.step [] fun front bodies => Passes.opens hquote
  | case4 parts offset c rest hend hquote hfiller ih =>
    exact ih.step [] fun front bodies h => h.cons_filler hfiller
  | case5 parts offset c rest hend hquote hfiller =>
    have hnil : Passes .between [] [] := .gap fun c hc => nomatch hc
    exact .stray rfl hnil (isStray_iff.mpr ⟨by simpa using hfiller, by simpa using hquote⟩)
  | case6 quote previous seen parts offset c rest hclose ih =>
    obtain ⟨rfl, hprevious⟩ := hclose
    exact ih.step [seen.reverse] fun front bodies => Passes.closes hprevious seen
  | case7 quote previous seen parts offset c rest hopen ih =>
    exact ih.step [] fun front bodies => Passes.holds hopen

/-! ## Reading a call -/

/-- Where the scan stops at a character, that one strays. -/
theorem straysAt_of_scan {parts : List Text} {offset place : Nat} {text : Text} {c : Char}
    (h : scan .between parts offset text = .error (.unexpected place c)) :
    ∃ front, StraysAt text front c ∧ place = offset + Text.byteLength front := by
  have hscanned := scanned .between parts offset text
  rw [h] at hscanned
  cases hscanned with
  | stray ht hfront hc => exact ⟨_, ⟨_, _, ht, hfront, hc⟩, rfl⟩

/-- The scan runs out of text exactly if this is no call and nothing strays. -/
theorem scan_eq_unclosed_iff {text : Text} {offset : Nat} :
    scan .between [] offset text = .error .unclosed ↔
      (∀ bodies, ¬ IsCall text bodies) ∧ ∀ front c, ¬ StraysAt text front c := by
  constructor
  · intro h
    refine ⟨fun bodies hcall => ?_, fun front c hstray => ?_⟩
    · exact nomatch hcall.scan.symm.trans h
    · exact nomatch hstray.scan.symm.trans h
  · rintro ⟨hcall, hstray⟩
    have hscanned := scanned .between [] offset text
    cases hanswer : scan .between [] offset text with
    | ok bodies =>
      rw [hanswer] at hscanned
      cases hscanned with
      | closed ht hfront => exact absurd ⟨_, ht, hfront⟩ (hcall _)
    | error failure =>
      rw [hanswer] at hscanned
      cases hscanned with
      | stray ht hfront hc => exact absurd ⟨_, _, ht, hfront, hc⟩ (hstray _ _)
      | unclosed => rfl

theorem scan_nil_call : scan .between [] 0 ['(', ')'] = .ok [] := rfl

/-- Any call but the empty pair of brackets is judged by the scan. -/
theorem parse_of_ne {text : Text} (htext : text ≠ ['(', ')']) :
    parse (.whole text) = match scan .between [] 0 text with
      | .error failure => refuse (.invalidScriptlet text) (failure.span (.whole text))
      | .ok [] => refuse (.missingScriptletName text) (Fragment.whole text).span
      | .ok (name :: args) =>
        if name.isEmpty then refuse (.missingScriptletName text) (Fragment.whole text).span
        else .ok ⟨name, args⟩ :=
  if_neg htext

theorem span_whole (text : Text) : (Fragment.whole text).span = ⟨0, Text.byteLength text⟩ := by
  rw [Fragment.span, Fragment.stop, Fragment.whole, Nat.zero_add]

/-- The reader gives the answer that the grammar has for the text. -/
theorem parse_of_answers {text : Text} {answer : Reading ScriptletCall}
    (h : Answers text answer) : parse (.whole text) = answer := by
  cases h with
  | forAll htext => exact if_pos htext
  | @call name args hcall hname =>
    have htext : text ≠ ['(', ')'] := by
      rintro rfl
      exact nomatch hcall.scan.symm.trans scan_nil_call
    rw [parse_of_ne htext, hcall.scan]
    exact if_neg (by simpa using hname)
  | @nameless bodies hcall htext hname =>
    rw [parse_of_ne htext, hcall.scan, ← span_whole]
    cases bodies with
    | nil => rfl
    | cons name args => exact if_pos (by rw [hname name args rfl]; rfl)
  | @stray front c hstray =>
    have htext : text ≠ ['(', ')'] := by
      rintro rfl
      exact nomatch hstray.scan.symm.trans scan_nil_call
    rw [parse_of_ne htext, hstray.scan, Nat.zero_add, Text.byteLength_append]
    rfl
  | unclosed hcall hstray =>
    have htext : text ≠ ['(', ')'] := by
      rintro rfl
      exact hcall [] ⟨['('], rfl, .gap (by simp [IsGap])⟩
    rw [parse_of_ne htext, scan_eq_unclosed_iff.mpr ⟨hcall, hstray⟩, ← span_whole]
    rfl

/-- The answers leave nothing out. -/
theorem exists_answers (text : Text) : ∃ answer, Answers text answer := by
  by_cases htext : text = ['(', ')']
  · exact ⟨_, .forAll htext⟩
  · by_cases hcall : ∃ bodies, IsCall text bodies
    · obtain ⟨bodies, hcall⟩ := hcall
      rcases bodies with - | ⟨name, args⟩
      · exact ⟨_, .nameless hcall htext fun name args h => nomatch h⟩
      · by_cases hname : name = []
        · refine ⟨_, .nameless hcall htext fun name' args' h => ?_⟩
          rw [← (List.cons.inj h).1, hname]
        · exact ⟨_, .call hcall hname⟩
    · by_cases hstray : ∃ front c, StraysAt text front c
      · obtain ⟨front, c, hstray⟩ := hstray
        exact ⟨_, .stray hstray⟩
      · exact ⟨_, .unclosed (fun bodies h => hcall ⟨bodies, h⟩)
          fun front c h => hstray ⟨front, c, h⟩⟩

/-- **The grammar of calls.** What a text is read into is what its form says, and nothing else: one
of the two calls, or one of the three refusals. -/
theorem parse_eq_iff (text : Text) (answer : Reading ScriptletCall) :
    parse (.whole text) = answer ↔ Answers text answer := by
  constructor
  · rintro rfl
    obtain ⟨answer, h⟩ := exists_answers text
    rwa [parse_of_answers h]
  · exact parse_of_answers

/-- A bracket, a comma and the other quote are part of a quoted body, as is the quote itself behind
a backslash. -/
example : parse (.whole "(\"a)'\", 'b\\',c' ,)".toList) =
    .ok ⟨"a)'".toList, ["b\\',c".toList]⟩ := by decide

end ContentFilter.ScriptletCall
