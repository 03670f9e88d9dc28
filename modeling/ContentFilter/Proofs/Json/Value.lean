import ContentFilter.Json.Source
import ContentFilter.Proofs.Json.Literal

/-!
# Values are read back

What is printed of a value is read as that value, in every layout that sets its parts apart by white
space. The reader goes through the text token by token, with the open arrays and objects on a stack
(`Progress`), so the statement is about a reader that has come to some point, with a stack of
its own and text behind the value that is none of it: it goes on behind the value, and has the value
(`readFrom_printAt`). The induction is on the value; an array and an object carry what has been read
of them.

A number is the one token that ends only where something else begins, so what follows a value must
not go on with it (`EndsNumber`). Of numbers that are not natural the reader keeps no more than that
they are numbers.
-/

set_option autoImplicit false

namespace ContentFilter.Json

/-! ## What is to be read -/

mutual

/-- A value as it is read. -/
def source : Json → Source
  | null => .null
  | bool b => .bool b
  | int (.ofNat n) => .number (some n)
  | int (.negSucc _) => .number none
  | str t => .string (some t)
  | arr items => .array (sources items)
  | obj members => .object (namedSources members)

/-- The items of an array as they are read. -/
def sources : List Json → List Source
  | [] => []
  | v :: rest => source v :: sources rest

/-- The members of an object as they are read. -/
def namedSources : List (Text × Json) → List (Option Text × Source)
  | [] => []
  | (name, v) :: rest => (some name, source v) :: namedSources rest

end

/-- An array of strings is read as one. -/
theorem sources_map_str (ts : List Text) :
    sources (ts.map .str) = ts.map fun t => .string (some t) := by
  induction ts with
  | nil => rfl
  | cons t ts ih => rw [List.map_cons, sources, source, ih, List.map_cons]

/-! ## Numbers -/

/-- A text does not go on with a number that stands before it. -/
def EndsNumber (t : Text) : Prop :=
  ∀ c, t.head? = some c → c.isDigit = false ∧ c ≠ '.' ∧ c ≠ 'e' ∧ c ≠ 'E'

theorem endsNumber_nil : EndsNumber [] := fun _ h => nomatch h

theorem endsNumber_cons {c : Char}
    (h : c.isDigit = false ∧ c ≠ '.' ∧ c ≠ 'e' ∧ c ≠ 'E') (t : Text) : EndsNumber (c :: t) := by
  intro d hd
  obtain rfl := Option.some.inj hd
  exact h

/-- Digits that are dropped are all dropped. -/
theorem dropDigits?_append {digits rest : Text} (hne : digits ≠ [])
    (hdigits : ∀ c ∈ digits, c.isDigit = true) (hrest : EndsNumber rest) :
    dropDigits? (digits ++ rest) = some rest := by
  obtain ⟨c, digits, rfl⟩ := List.exists_cons_of_ne_nil hne
  have hstop : rest.dropWhile Char.isDigit = rest := by
    cases rest with
    | nil => rfl
    | cons d rest => exact List.dropWhile_cons_of_neg (by simp [(hrest d rfl).1])
  rw [List.cons_append, dropDigits?, if_pos (hdigits c List.mem_cons_self),
    List.dropWhile_append_of_pos fun d hd => hdigits d (List.mem_cons_of_mem _ hd), hstop]

/-- The digits of a positive number do not begin with a zero. -/
theorem head?_toDigits_ne_zero {n : Nat} (hn : 0 < n) : (Nat.toDigits 10 n).head? ≠ some '0' := by
  induction n using Nat.strongRecOn with
  | ind n ih =>
    rcases Nat.lt_or_ge n 10 with hlt | hge
    · have hdigit : ∀ n < 10, 0 < n → Nat.digitChar n ≠ '0' := by decide
      rw [Nat.toDigits_of_lt_base hlt, List.head?_cons]
      exact fun h => hdigit n hlt hn (Option.some.inj h)
    · -- The digits of a number begin as those of its tenth do.
      have hfront := ih (n / 10) (by omega) (by omega)
      obtain ⟨c, cs, hcs⟩ :=
        List.exists_cons_of_ne_nil (Nat.toDigits_ne_nil (n := n / 10) (b := 10))
      rw [hcs, List.head?_cons] at hfront
      rwa [Nat.toDigits_of_base_le (by decide) hge, hcs, List.cons_append, List.head?_cons]

/-- The digits of a number: the first of them, which is a zero only if it is the only one. -/
theorem exists_toDigits (n : Nat) : ∃ c digits, Nat.toDigits 10 n = c :: digits ∧
    (∀ d ∈ c :: digits, d.isDigit = true) ∧ (c = '0' → digits = []) := by
  obtain ⟨c, digits, hdigits⟩ :=
    List.exists_cons_of_ne_nil (Nat.toDigits_ne_nil (n := n) (b := 10))
  refine ⟨c, digits, hdigits, fun d hd => ?_, ?_⟩
  · rw [← hdigits] at hd
    exact Nat.isDigit_of_mem_toDigits (by decide) (by decide) hd
  · rintro rfl
    rcases Nat.eq_zero_or_pos n with rfl | hn
    · rw [Nat.toDigits_zero] at hdigits
      exact (List.cons.inj hdigits).2.symm
    · have hhead := head?_toDigits_ne_zero hn
      rw [hdigits] at hhead
      exact absurd rfl hhead

/-- The digits of a number are passed over as a whole. -/
theorem dropWhole?_toDigits (n : Nat) {rest : Text} (hrest : EndsNumber rest) :
    dropWhole? (Nat.toDigits 10 n ++ rest) = some rest := by
  obtain ⟨c, digits, htext, hdigits, hzero⟩ := exists_toDigits n
  rw [htext, List.cons_append]
  by_cases hc : c = '0'
  · subst hc
    have hstop : (rest.head?.map Char.isDigit).getD false = false := by
      cases rest with
      | nil => rfl
      | cons d rest => exact (hrest d rfl).1
    rw [hzero rfl, List.nil_append, dropWhole?, hstop]
    rfl
  · rw [dropWhole?, ← List.cons_append]
    · exact dropDigits?_append (List.cons_ne_nil _ _) hdigits hrest
    · rintro t ht
      exact hc (List.cons.inj ht).1

/-- The digits of a number denote it. -/
theorem toNat?_toDigits (n : Nat) : Text.toNat? (Nat.toDigits 10 n) = some n := by
  have hdigits : (Nat.toDigits 10 n).any (fun c => !c.isDigit) = false := by
    rw [List.any_eq_false]
    intro c hc
    simp [Nat.isDigit_of_mem_toDigits (by decide) (by decide) hc]
  have hne : (Nat.toDigits 10 n).isEmpty = false := by simp [Nat.toDigits_ne_nil]
  rw [Text.toNat?, hne, hdigits]
  exact congrArg some Nat.ofDigitChars_ten_toDigits

/-- Behind the digits of a number there is no fraction and no exponent. -/
theorem readNumber_of_dropWhole? {front rest : Text} (hrest : EndsNumber rest)
    (h : dropWhole? (dropMinus (front ++ rest)) = some rest) :
    readNumber (front ++ rest) = some (Text.toNat? front, rest) := by
  have hfraction : dropFraction? rest = some rest := by
    cases rest with
    | nil => rfl
    | cons c rest =>
      rw [dropFraction?]
      rintro _ ht
      exact (hrest c rfl).2.1 (List.cons.inj ht).1
  have hexponent : dropExponent? rest = some rest := by
    cases rest with
    | nil => rfl
    | cons c rest =>
      obtain ⟨-, -, hlower, hupper⟩ := hrest c rfl
      exact if_neg (not_or.mpr ⟨hlower, hupper⟩)
  have hfront : (front ++ rest).take ((front ++ rest).length - rest.length) = front := by simp
  simp only [readNumber, h, hfraction, hexponent, Option.bind_eq_bind, Option.bind_some, hfront,
    if_true, Option.pure_def]

/-- A digit is neither punctuation nor a quote. -/
theorem punctuation?_of_isDigit {c : Char} (hc : c.isDigit = true) :
    punctuation? c = none ∧ c ≠ '"' := by
  have hne : ∀ d : Char, d.isDigit = false → c ≠ d := by
    rintro _ hd rfl
    exact Bool.false_ne_true (hd.symm.trans hc)
  refine ⟨?_, hne '"' (by decide)⟩
  rw [punctuation?]
  · exact hne '[' (by decide)
  · exact hne ']' (by decide)
  · exact hne '\x7b' (by decide)
  · exact hne '\x7d' (by decide)
  · exact hne ',' (by decide)
  · exact hne ':' (by decide)

/-- A natural number is read back. -/
theorem readToken_toDigits (n : Nat) {rest : Text} (hrest : EndsNumber rest) :
    readToken (Nat.toDigits 10 n ++ rest) = some (.number (some n), rest) := by
  have hwhole := dropWhole?_toDigits n hrest
  obtain ⟨c, digits, htext, hdigits, -⟩ := exists_toDigits n
  have hc := hdigits c List.mem_cons_self
  obtain ⟨hpunctuation, hquote⟩ := punctuation?_of_isDigit hc
  have hminus : dropMinus (Nat.toDigits 10 n ++ rest) = Nat.toDigits 10 n ++ rest := by
    rw [htext, List.cons_append, dropMinus]
    rintro _ ht
    obtain rfl := (List.cons.inj ht).1
    exact absurd hc (by decide)
  have hnumber := readNumber_of_dropWhole? hrest (hminus ▸ hwhole)
  rw [htext, List.cons_append, readToken]
  simp only [hpunctuation, if_neg hquote, hc, or_true, if_true]
  rw [← List.cons_append, ← htext, hnumber, toNat?_toDigits]
  rfl

/-- A negative number is read as a number that is not natural. -/
theorem readToken_minus_toDigits (n : Nat) {rest : Text} (hrest : EndsNumber rest) :
    readToken ('-' :: Nat.toDigits 10 n ++ rest) = some (.number none, rest) := by
  have hnone : Text.toNat? ('-' :: Nat.toDigits 10 n) = none := rfl
  have hnumber : readNumber ('-' :: Nat.toDigits 10 n ++ rest) =
      some (Text.toNat? ('-' :: Nat.toDigits 10 n), rest) :=
    readNumber_of_dropWhole? hrest (dropWhole?_toDigits n hrest)
  have htoken : readToken ('-' :: Nat.toDigits 10 n ++ rest) =
      (readNumber ('-' :: Nat.toDigits 10 n ++ rest)).map fun r => (.number r.1, r.2) := rfl
  rw [htoken, hnumber, hnone]
  rfl

theorem ofInt_ofNat (n : Nat) : Text.ofInt (.ofNat n) = Nat.toDigits 10 n := Nat.toList_repr

theorem ofInt_negSucc (n : Nat) :
    Text.ofInt (.negSucc n) = '-' :: Nat.toDigits 10 (n + 1) := by
  have hrepr : toString (Int.negSucc n) = "-" ++ (n + 1).repr := rfl
  rw [Text.ofInt, hrepr, String.toList_append, Nat.toList_repr]
  rfl

/-! ## Reading one value -/

/-- Read on, from what has been read so far to the end of the value: the value, and what follows
it. -/
def Source.readFrom (p : Progress) (t : Text) : Option (Source × Text) :=
  match p.result? with
  | some v => some (v, t)
  | none =>
    match t with
    | [] => none
    | c :: rest =>
      if isSpace c then readFrom p rest
      else match _h : readToken (c :: rest) with
        | some (token, after) =>
          match p.next token with
          | some p' => readFrom p' after
          | none => none
        | none => none
termination_by t.length
decreasing_by
  · simp
  · exact length_readToken _h

/-- Read the value that begins a text: the value, and what follows it. -/
def Source.read? (t : Text) : Option (Source × Text) := readFrom (.value []) t

/-- White space between tokens. -/
def IsGap (t : Text) : Prop := ∀ c ∈ t, isSpace c = true

/-- What the reader meets behind a value does not go on with a number in it. -/
theorem EndsNumber.of_gap_append {gap rest : Text} (hgap : IsGap gap) (hrest : EndsNumber rest) :
    EndsNumber (gap ++ rest) := by
  cases gap with
  | nil => exact hrest
  | cons c gap =>
    intro d hd
    obtain rfl := Option.some.inj hd
    have hc := hgap c List.mem_cons_self
    simp only [isSpace, Bool.or_eq_true, beq_iff_eq] at hc
    rcases hc with ((rfl | rfl) | rfl) | rfl <;> decide

/-- A token does not begin with white space. -/
theorem isSpace_of_readToken {c : Char} {t : Text} {found : Token × Text}
    (h : readToken (c :: t) = some found) : isSpace c = false := by
  cases hc : isSpace c with
  | false => rfl
  | true =>
    simp only [isSpace, Bool.or_eq_true, beq_iff_eq] at hc
    have hnone : readToken (c :: t) = none := by
      rcases hc with ((rfl | rfl) | rfl) | rfl <;> rfl
    exact nomatch hnone.symm.trans h

namespace Source

variable {p p' : Progress} {t rest : Text} {token : Token} {v : Source}

/-- A value that is complete is the answer, and the rest is left alone. -/
theorem readFrom_of_result (h : p.result? = some v) (t : Text) :
    readFrom p t = some (v, t) := by
  rw [readFrom.eq_def, h]

/-- White space before a token is passed over. -/
theorem readFrom_gap (hp : p.result? = none) {gap : Text} (hgap : IsGap gap) (t : Text) :
    readFrom p (gap ++ t) = readFrom p t := by
  induction gap with
  | nil => rfl
  | cons c gap ih =>
    obtain ⟨hc, hgap⟩ := List.forall_mem_cons.mp hgap
    rw [List.cons_append, readFrom.eq_def, hp, ← ih hgap]
    simp only [hc, if_true]

/-- One token is read. -/
theorem readFrom_token (hp : p.result? = none) (htoken : readToken t = some (token, rest))
    (hnext : p.next token = some p') : readFrom p t = readFrom p' rest := by
  cases t with
  | nil => exact nomatch htoken
  | cons c t =>
    rw [readFrom.eq_def, hp]
    simp only [isSpace_of_readToken htoken, Bool.false_eq_true, if_false]
    split
    case h_1 found after hfound =>
      rw [htoken] at hfound
      cases hfound
      simp only [hnext]
    case h_2 hnone => exact nomatch htoken.symm.trans hnone

end Source

/-! ## Printed values -/

/-- The reader waits for a value that will stand in `outer`. At the start of an array an end could
come as well. -/
structure Awaits (p : Progress) (outer : List Frame) : Prop where
  result : p.result? = none
  next : ∀ token, token ≠ .closeArray → p.next token = Progress.beginValue outer token

theorem awaits_value (outer : List Frame) : Awaits (.value outer) outer := ⟨rfl, fun _ _ => rfl⟩

theorem awaits_firstItem (outer : List Frame) :
    Awaits (.firstItem outer) (.array [] :: outer) := by
  refine ⟨rfl, fun token htoken => ?_⟩
  rw [Progress.next]
  exact htoken

/-- The reader waits for the name of a member. At the start of an object an end could come as
well. -/
structure AwaitsName (p : Progress) (members : List (Option Text × Source))
    (outer : List Frame) : Prop where
  result : p.result? = none
  next : ∀ name, p.next (.string name) = some (.colon members name outer)

theorem awaitsName_firstName (outer : List Frame) : AwaitsName (.firstName outer) [] outer :=
  ⟨rfl, fun _ => rfl⟩

theorem awaitsName_name (members : List (Option Text × Source)) (outer : List Frame) :
    AwaitsName (.name members outer) members outer := ⟨rfl, fun _ => rfl⟩

/-- A token that is a value by itself is read. -/
theorem readFrom_scalar {p : Progress} {outer : List Frame} (hp : Awaits p outer) {t rest : Text}
    {token : Token} {v : Source} (htoken : readToken t = some (token, rest))
    (hne : token ≠ .closeArray)
    (hbegin : Progress.beginValue outer token = some (.complete v outer)) :
    Source.readFrom p t = Source.readFrom (.complete v outer) rest :=
  Source.readFrom_token hp.result htoken ((hp.next token hne).trans hbegin)

/-- The parts of a layout are set apart by white space only. -/
structure Layout.IsBlank (l : Layout) : Prop where
  gap : ∀ depth, IsGap (l.gap depth)
  space : IsGap l.space

section Print

variable {l : Layout}

/-- A name is read up to its value. -/
theorem readFrom_name (hl : l.IsBlank) {depth : Nat} {p : Progress}
    {done : List (Option Text × Source)} {outer : List Frame} (hp : AwaitsName p done outer)
    (name t : Text) :
    Source.readFrom p (l.gap depth ++ (quote name ++ (':' :: (l.space ++ t)))) =
      Source.readFrom (.value (.object done (some name) :: outer)) t := by
  rw [Source.readFrom_gap hp.result (hl.gap depth),
    Source.readFrom_token hp.result (readToken_quote name _) (hp.next (some name)),
    Source.readFrom_token rfl rfl rfl, Source.readFrom_gap rfl hl.space]

mutual

/-- **A value is read**, whatever has been read before it and whatever follows. -/
theorem readFrom_printAt (hl : l.IsBlank) : ∀ (v : Json) (depth : Nat) {p : Progress}
    {outer : List Frame} {rest : Text}, Awaits p outer → EndsNumber rest →
      Source.readFrom p (printAt l depth v ++ rest) =
        Source.readFrom (.complete (source v) outer) rest
  | .null, _, _, _, _, hp, _ => readFrom_scalar hp rfl nofun rfl
  | .bool true, _, _, _, _, hp, _ => readFrom_scalar hp rfl nofun rfl
  | .bool false, _, _, _, _, hp, _ => readFrom_scalar hp rfl nofun rfl
  | .int (.ofNat n), _, _, _, _, hp, hrest => by
    rw [printAt, ofInt_ofNat]
    exact readFrom_scalar hp (readToken_toDigits n hrest) nofun rfl
  | .int (.negSucc n), _, _, _, _, hp, hrest => by
    rw [printAt, ofInt_negSucc]
    exact readFrom_scalar hp (readToken_minus_toDigits (n + 1) hrest) nofun rfl
  | .str t, _, _, _, rest, hp, _ => by
    rw [printAt]
    exact readFrom_scalar hp (readToken_quote t rest) nofun rfl
  | .arr [], _, _, _, _, hp, _ => by
    rw [printAt, source, sources, List.cons_append,
      Source.readFrom_token hp.result rfl (hp.next .openArray nofun)]
    exact Source.readFrom_token rfl rfl rfl
  | .arr (v :: items), depth, p, outer, rest, hp, _ => by
    rw [printAt, source, List.append_assoc, List.append_assoc, List.append_assoc,
      List.singleton_append, Source.readFrom_token hp.result rfl (hp.next .openArray nofun)]
    exact readFrom_printItems hl (v :: items) (depth + 1) (List.cons_ne_nil _ _)
      (awaits_firstItem outer) (hl.gap depth)
  | .obj [], _, _, _, _, hp, _ => by
    rw [printAt, source, namedSources, List.cons_append,
      Source.readFrom_token hp.result rfl (hp.next .openObject nofun)]
    exact Source.readFrom_token rfl rfl rfl
  | .obj (m :: members), depth, p, outer, rest, hp, _ => by
    rw [printAt, source, List.append_assoc, List.append_assoc, List.append_assoc,
      List.singleton_append, Source.readFrom_token hp.result rfl (hp.next .openObject nofun)]
    exact readFrom_printMembers hl (m :: members) (depth + 1) (List.cons_ne_nil _ _)
      (awaitsName_firstName outer) (hl.gap depth)

/-- The items of an array are read behind those that have been, up to its end. -/
theorem readFrom_printItems (hl : l.IsBlank) : ∀ (items : List Json) (depth : Nat) {p : Progress}
    {done : List Source} {outer : List Frame} {gap rest : Text}, items ≠ [] →
      Awaits p (.array done :: outer) → IsGap gap →
      Source.readFrom p (printItems l depth items ++ (gap ++ (']' :: rest))) =
        Source.readFrom (.complete (.array (done.reverse ++ sources items)) outer) rest
  | [], _, _, _, _, _, _, hne, _, _ => absurd rfl hne
  | [v], depth, p, done, outer, gap, rest, _, hp, hgap => by
    -- The last item is the one behind which the array closes.
    have hends : EndsNumber (gap ++ (']' :: rest)) :=
      .of_gap_append hgap (endsNumber_cons (by decide) rest)
    rw [printItems, List.append_assoc, Source.readFrom_gap hp.result (hl.gap depth),
      readFrom_printAt hl v depth hp hends, Source.readFrom_gap rfl hgap, sources, sources,
      ← List.reverse_cons]
    exact Source.readFrom_token rfl rfl rfl
  | v :: w :: items, depth, p, done, outer, gap, rest, _, hp, hgap => by
    have hends : EndsNumber (',' :: (printItems l depth (w :: items) ++ (gap ++ (']' :: rest)))) :=
      endsNumber_cons (by decide) _
    rw [printItems, List.append_assoc, List.append_assoc, List.append_assoc, List.singleton_append,
      Source.readFrom_gap hp.result (hl.gap depth), readFrom_printAt hl v depth hp hends,
      Source.readFrom_token rfl rfl rfl,
      readFrom_printItems hl (w :: items) depth (List.cons_ne_nil _ _) (awaits_value _) hgap,
      List.reverse_cons, List.append_assoc, List.singleton_append, ← sources]

/-- The members of an object are read behind those that have been, up to its end. -/
theorem readFrom_printMembers (hl : l.IsBlank) : ∀ (ms : List (Text × Json)) (depth : Nat)
    {p : Progress} {done : List (Option Text × Source)} {outer : List Frame} {gap rest : Text},
      ms ≠ [] → AwaitsName p done outer → IsGap gap →
      Source.readFrom p (printMembers l depth ms ++ (gap ++ ('\x7d' :: rest))) =
        Source.readFrom (.complete (.object (done.reverse ++ namedSources ms)) outer) rest
  | [], _, _, _, _, _, _, hne, _, _ => absurd rfl hne
  | [(name, v)], depth, p, done, outer, gap, rest, _, hp, hgap => by
    have hends : EndsNumber (gap ++ ('\x7d' :: rest)) :=
      .of_gap_append hgap (endsNumber_cons (by decide) rest)
    simp only [printMembers, List.append_assoc, List.cons_append, List.nil_append]
    rw [readFrom_name hl hp, readFrom_printAt hl v depth (awaits_value _) hends,
      Source.readFrom_gap rfl hgap, namedSources, namedSources, ← List.reverse_cons]
    exact Source.readFrom_token rfl rfl rfl
  | (name, v) :: m :: ms, depth, p, done, outer, gap, rest, _, hp, hgap => by
    have hends :
        EndsNumber (',' :: (printMembers l depth (m :: ms) ++ (gap ++ ('\x7d' :: rest)))) :=
      endsNumber_cons (by decide) _
    simp only [printMembers, List.append_assoc, List.cons_append, List.nil_append]
    rw [readFrom_name hl hp, readFrom_printAt hl v depth (awaits_value _) hends,
      Source.readFrom_token rfl rfl rfl,
      readFrom_printMembers hl (m :: ms) depth (List.cons_ne_nil _ _) (awaitsName_name _ _) hgap,
      List.reverse_cons, List.append_assoc, List.singleton_append, ← namedSources]

end

end Print

/-! ## Both layouts -/

theorem isBlank_compact : Layout.compact.IsBlank :=
  ⟨fun _ _ hc => (nomatch hc), fun _ hc => (nomatch hc)⟩

theorem isBlank_indented : Layout.indented.IsBlank := by
  refine ⟨fun depth c hc => ?_, fun c hc => ?_⟩
  · rcases List.mem_cons.mp hc with rfl | hc
    · rfl
    · rw [List.eq_of_mem_replicate hc]
      rfl
  · rw [List.mem_singleton.mp hc]
    rfl

/-- What a printer prints of a value is read back as this value, if no number goes on behind it. -/
def IsReadBack (print : Json → Text) : Prop :=
  ∀ (v : Json) {rest : Text}, EndsNumber rest →
    Source.read? (print v ++ rest) = some (source v, rest)

/-- Whatever is printed with white space between the parts is read back. -/
theorem isReadBack_printAt {l : Layout} (hl : l.IsBlank) (depth : Nat) :
    IsReadBack (printAt l depth) := by
  intro v rest hrest
  rw [Source.read?, readFrom_printAt hl v depth (awaits_value []) hrest]
  exact Source.readFrom_of_result rfl rest

/-- **Compact values are read back.** -/
theorem isReadBack_compact : IsReadBack compact := isReadBack_printAt isBlank_compact 0

/-- **Indented values are read back.** -/
theorem isReadBack_indented : IsReadBack indented := isReadBack_printAt isBlank_indented 0

/-! ## Whole texts -/

/-- White space has no tokens. -/
theorem tokenize_gap (done : List Token) {gap : Text} (hgap : IsGap gap) :
    tokenize done gap = some done.reverse := by
  induction gap with
  | nil => rw [tokenize]
  | cons c gap ih =>
    obtain ⟨hc, hgap⟩ := List.forall_mem_cons.mp hgap
    rw [tokenize, if_pos hc, ih hgap]

/-- One token is found. -/
theorem tokenize_token (done : List Token) {c : Char} {t after : Text} {token : Token}
    (h : readToken (c :: t) = some (token, after)) :
    tokenize done (c :: t) = tokenize (token :: done) after := by
  rw [tokenize, isSpace_of_readToken h, if_neg Bool.false_ne_true]
  split
  case h_1 token' after' h' =>
    rw [h] at h'
    cases h'
    rfl
  case h_2 hnone => exact absurd (h.symm.trans hnone) (Option.some_ne_none _)

/-- The tokens that are read one by one are those of the text. -/
theorem exists_tokens_of_readFrom {p : Progress} {t rest : Text} {v : Source}
    (h : Source.readFrom p t = some (v, rest)) (hrest : IsGap rest) :
    ∃ tokens, (∀ done, tokenize done t = some (done.reverse ++ tokens)) ∧
      (tokens.foldlM Progress.next p).bind Progress.result? = some v := by
  -- On the reader's recursion: white space adds no token, and a token is one step of the stack.
  fun_induction Source.readFrom p t with
  | case1 p t v' hresult =>
    obtain ⟨rfl, rfl⟩ := Prod.mk.inj (Option.some.inj h)
    exact ⟨[], fun done => by rw [tokenize_gap done hrest, List.append_nil], hresult⟩
  | case3 p hp c t hc ih =>
    obtain ⟨tokens, htokens, hresult⟩ := ih h
    exact ⟨tokens, fun done => by rw [tokenize, if_pos hc, htokens], hresult⟩
  | case4 p hp c t hc token after htoken p' hnext ih =>
    obtain ⟨tokens, htokens, hresult⟩ := ih h
    refine ⟨token :: tokens, fun done => ?_, ?_⟩
    · rw [tokenize_token done htoken, htokens, List.reverse_cons, List.append_assoc,
        List.singleton_append]
    · rw [List.foldlM_cons, hnext]
      exact hresult
  | case2 | case5 | case6 => cases h

/-- What is read of a text is what the text denotes, if nothing but white space is left. -/
theorem parse?_of_read? {t rest : Text} {v : Source} (h : Source.read? t = some (v, rest))
    (hrest : IsGap rest) : Source.parse? t = some v := by
  obtain ⟨tokens, htokens, hresult⟩ := exists_tokens_of_readFrom h hrest
  rw [Source.parse?, htokens [], List.reverse_nil, List.nil_append, Option.bind_eq_bind,
    Option.bind_some, Option.bind_eq_bind]
  exact hresult

/-- **A text that is an indented value denotes this value.** -/
theorem parse?_indented (v : Json) : Source.parse? (indented v) = some (source v) := by
  have hread := isReadBack_indented v endsNumber_nil
  rw [List.append_nil] at hread
  exact parse?_of_read? hread (fun _ hc => nomatch hc)

end ContentFilter.Json
