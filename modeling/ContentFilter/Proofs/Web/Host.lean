import ContentFilter.Proofs.Text.Bytes
import ContentFilter.Web.Host

/-!
# The host of an address

`Url.Parts` are the parts of an address, and `Parts.toText` puts them together. Two searches over
the bytes of an address take it apart again: one for the end of the user part, and one for the end
of the host from there on. They stop at different characters, so it depends on the whole address
what a colon or an `@` in it means. `Parts.Found` says which parts they find. Every address with a
scheme has such parts (`exists_found`), and the host that is found in it is theirs (`host?_toText`).

Well-formed parts are found again, so that an address that is composed of them has their host.
-/

set_option autoImplicit false

namespace ContentFilter.Url

open Text (bytes byteLength Stops Ascii IsBoundary)

/-! ## Parts -/

/-- An address in its parts. -/
structure Parts where
  scheme : Text
  user : Option Text := none
  host : Text
  port : Option Text := none
  /-- The path, the query and the anchor. -/
  tail : Text := []
deriving DecidableEq, Repr

namespace Parts

/-- What stands before the user part. -/
def schemeText (p : Parts) : Text := p.scheme ++ "://".toList

/-- The user part with its `@`, if there is one. -/
def userText (p : Parts) : Text := (p.user.map (· ++ ['@'])).getD []

/-- The port with its colon, if there is one. -/
def portText (p : Parts) : Text := (p.port.map (':' :: ·)).getD []

/-- What stands between the slashes after the scheme and the tail. -/
def authority (p : Parts) : Text := p.userText ++ p.host ++ p.portText

/-- What stands before the host. -/
def beforeHost (p : Parts) : Text := p.schemeText ++ p.userText

/-- The address. -/
def toText (p : Parts) : Text := p.beforeHost ++ p.host ++ (p.portText ++ p.tail)

/-- No part holds a character at which it would end, and none before the tail holds an `@`. -/
structure WellFormed (p : Parts) : Prop where
  scheme : ':' ∉ p.scheme
  user : ∀ u ∈ p.user, u.Disjoint ('@' :: authorityEnds)
  host : p.host.Disjoint ('@' :: ':' :: authorityEnds)
  port : ∀ t ∈ p.port, t.Disjoint ('@' :: authorityEnds)
  tail : Stops authorityEnds p.tail

/-- The parts that are found in an address. The user part ends at the first `@`; the host and the
port may hold others. -/
structure Found (p : Parts) : Prop where
  scheme : ':' ∉ p.scheme
  user : ∀ u ∈ p.user, u.Disjoint ('@' :: authorityEnds)
  not_mem_of_no_user : p.user = none → '@' ∉ p.host ++ p.portText
  host : p.host.Disjoint (':' :: authorityEnds)
  port : ∀ t ∈ p.port, t.Disjoint authorityEnds
  tail : Stops authorityEnds p.tail

variable {p : Parts}

/-- The parts of a well-formed address are the ones that are found in it. -/
theorem WellFormed.found (h : p.WellFormed) : p.Found where
  scheme := h.scheme
  user := h.user
  not_mem_of_no_user := by
    intro _ hmem
    rcases List.mem_append.mp hmem with hhost | hport
    · exact h.host hhost List.mem_cons_self
    · rw [portText] at hport
      cases hp : p.port with
      | none => simp [hp] at hport
      | some t =>
        rw [hp] at hport
        exact h.port t hp ((List.mem_cons.mp hport).resolve_left (by decide)) List.mem_cons_self
  host := (List.disjoint_cons_right.mp h.host).2
  port t ht := (List.disjoint_cons_right.mp (h.port t ht)).2
  tail := h.tail

theorem Found.disjoint_portText (h : p.Found) : p.portText.Disjoint authorityEnds := by
  rw [portText]
  cases hp : p.port with
  | none => exact List.disjoint_nil_left _
  | some t => exact List.disjoint_cons_left.mpr ⟨by decide, h.port t hp⟩

/-- The host ends at the port, or else at the tail. -/
theorem Found.stops_portText (h : p.Found) :
    Stops (':' :: authorityEnds) (p.portText ++ p.tail) := by
  rw [portText]
  cases p.port with
  | none => exact h.tail.cons ':'
  | some t => exact Text.stops_cons List.mem_cons_self _

/-! ## What is found in a composed address -/

theorem byteLength_schemeText (p : Parts) : byteLength p.schemeText = byteLength p.scheme + 3 :=
  Text.byteLength_append ..

/-- An address is its scheme, what stands before the tail, and the tail. -/
theorem toText_eq (p : Parts) :
    p.toText = p.schemeText ++ (p.userText ++ p.host ++ p.portText ++ p.tail) := by
  simp only [toText, beforeHost, List.append_assoc]

end Parts

/-- Whether there is a scheme is settled at the first colon. -/
theorem schemeEnd?_append {scheme : Text} (h : ':' ∉ scheme) (rest : Text) :
    schemeEnd? (bytes (scheme ++ ':' :: rest)) =
      if "//".toList <+: rest then some (byteLength scheme + 3) else none := by
  have hfirst : (bytes (scheme ++ ':' :: rest))[byteLength scheme + 1]? = some '/'.toUInt8 ↔
      rest.head? = some '/' := by
    rw [List.append_cons, ← Text.getElem?_bytes_append (by decide) (scheme ++ [':']) rest]
    simp [Char.utf8Size]
  have hsecond : ∀ tail, rest = '/' :: tail →
      ((bytes (scheme ++ ':' :: rest))[byteLength scheme + 2]? = some '/'.toUInt8 ↔
        tail.head? = some '/') := by
    rintro tail rfl
    rw [List.append_cons, List.append_cons,
      ← Text.getElem?_bytes_append (by decide) (scheme ++ [':'] ++ ['/']) tail]
    simp [Char.utf8Size]
  rw [schemeEnd?, Text.findIdx?_bytes_append (by decide) rest h]
  refine if_congr ?_ rfl rfl
  rw [hfirst]
  constructor
  · rintro ⟨h1, h2⟩
    obtain ⟨tail, rfl⟩ := List.head?_eq_some_iff.mp h1
    obtain ⟨tail, rfl⟩ := List.head?_eq_some_iff.mp ((hsecond _ rfl).mp h2)
    exact ⟨tail, rfl⟩
  · rintro ⟨tail, rfl⟩
    exact ⟨rfl, (hsecond _ rfl).mpr rfl⟩

/-- Without a colon there is no scheme. -/
theorem schemeEnd?_eq_none_of_notMem {url : Text} (h : ':' ∉ url) :
    schemeEnd? (bytes url) = none := by
  rw [schemeEnd?, Text.findIdx?_bytes_eq_none (by decide) h]
  rfl

/-- After a user part the host starts behind its `@`. -/
theorem hostStart_of_user (before : Text) {user : Text} (rest : Text)
    (h : user.Disjoint ('@' :: authorityEnds)) :
    hostStart (bytes (before ++ user ++ '@' :: rest)) (byteLength before) =
      byteLength (before ++ user) + 1 := by
  have hfound :=
    Text.findByte_append (by decide) before h (Text.stops_cons List.mem_cons_self rest)
  have hat := (Text.getElem?_bytes_append (c := '@') (by decide) (before ++ user)
    ('@' :: rest)).mpr rfl
  simp only [hostStart, hfound]
  rw [if_pos hat]

/-- If there is no `@` before the tail, there is no user part. -/
theorem hostStart_of_no_user (before : Text) {authority tail : Text}
    (h : authority.Disjoint ('@' :: authorityEnds)) (htail : Stops authorityEnds tail) :
    hostStart (bytes (before ++ authority ++ tail)) (byteLength before) = byteLength before := by
  have hfound := Text.findByte_append (by decide) before h (htail.cons '@')
  have hnot : ¬ tail.head? = some '@' := fun hat => absurd (htail '@' hat) (by decide)
  rw [← Text.getElem?_bytes_append (by decide) (before ++ authority)] at hnot
  simp only [hostStart, hfound]
  rw [if_neg hnot]

namespace Parts

variable {p : Parts}

/-- The search for the scheme ends behind its slashes. -/
theorem Found.schemeEnd?_toText (h : p.Found) :
    schemeEnd? (bytes p.toText) = some (byteLength p.schemeText) := by
  have hsplit : p.toText =
      p.scheme ++ ':' :: ("//".toList ++ (p.userText ++ p.host ++ p.portText ++ p.tail)) := by
    rw [toText_eq, schemeText, List.append_assoc]
    rfl
  rw [hsplit, schemeEnd?_append h.scheme, if_pos (List.prefix_append _ _), byteLength_schemeText]

/-- The search for the host begins behind the user part. -/
theorem Found.hostStart_toText (h : p.Found) :
    hostStart (bytes p.toText) (byteLength p.schemeText) = byteLength p.beforeHost := by
  cases huser : p.user with
  | none =>
    have hauthority : (p.host ++ p.portText).Disjoint ('@' :: authorityEnds) := by
      rw [List.disjoint_cons_right, List.disjoint_append_left]
      exact ⟨h.not_mem_of_no_user huser, (List.disjoint_cons_right.mp h.host).2,
        h.disjoint_portText⟩
    have hsplit : p.toText = p.schemeText ++ (p.host ++ p.portText) ++ p.tail := by
      simp [toText_eq, userText, huser]
    rw [hsplit, hostStart_of_no_user _ hauthority h.tail, beforeHost, userText, huser]
    exact congrArg byteLength (List.append_nil _).symm
  | some user =>
    have hsplit : p.toText =
        p.schemeText ++ user ++ '@' :: (p.host ++ (p.portText ++ p.tail)) := by
      simp [toText_eq, userText, huser]
    rw [hsplit, hostStart_of_user _ _ (h.user user huser), beforeHost, userText, huser]
    simp [Char.utf8Size, Nat.add_assoc]

/-- The bytes that are found are those of the host. -/
theorem Found.hostSpan?_toText (h : p.Found) :
    hostSpan? (bytes p.toText) =
      some ⟨byteLength p.beforeHost, byteLength (p.beforeHost ++ p.host)⟩ := by
  rw [hostSpan?, h.schemeEnd?_toText, Option.map_some, h.hostStart_toText]
  simp only
  rw [toText, Text.findByte_append (by decide) _ h.host h.stops_portText]

/-- The host that is found is the host, where it stands. -/
theorem Found.host?_toText (h : p.Found) :
    host? p.toText = some ⟨byteLength p.beforeHost, p.host⟩ := by
  rw [host?, h.hostSpan?_toText, Option.bind_some, part?, toText, Text.slice?_append]
  rfl

/-! ## What is found in any address -/

/-- A text without characters that end it is a host, or a host and a port. -/
theorem exists_host_port (t : Text) :
    ∃ (host : Text) (port : Option Text),
      t = host ++ (port.map (':' :: ·)).getD [] ∧ ':' ∉ host := by
  obtain ⟨host, rest, rfl, hhost, hrest⟩ := Text.exists_stops [':'] t
  rw [List.disjoint_singleton] at hhost
  cases rest with
  | nil => exact ⟨host, none, rfl, hhost⟩
  | cons c port =>
    obtain rfl := List.mem_singleton.mp (hrest c rfl)
    exact ⟨host, some port, rfl, hhost⟩

/-- Parts are found if none holds a character at which it would end. -/
theorem Found.of_disjoint (hscheme : ':' ∉ p.scheme)
    (huser : ∀ u ∈ p.user, u.Disjoint ('@' :: authorityEnds))
    (hno : p.user = none → '@' ∉ p.host ++ p.portText) (hhost : ':' ∉ p.host)
    (hends : (p.host ++ p.portText).Disjoint authorityEnds) (htail : Stops authorityEnds p.tail) :
    p.Found where
  scheme := hscheme
  user := huser
  not_mem_of_no_user := hno
  host := List.disjoint_cons_right.mpr ⟨hhost, (List.disjoint_append_left.mp hends).1⟩
  port := by
    intro t ht
    have hport := (List.disjoint_append_left.mp hends).2
    rw [portText, ht] at hport
    exact (List.disjoint_cons_left.mp hport).2
  tail := htail

/-- Every address with a scheme has parts. -/
theorem exists_found {scheme : Text} (hscheme : ':' ∉ scheme) (rest : Text) :
    ∃ p : Parts, p.Found ∧ p.toText = scheme ++ "://".toList ++ rest := by
  obtain ⟨first, rest, rfl, hfirst, hrest⟩ := Text.exists_stops ('@' :: authorityEnds) rest
  rcases hrest.eq_cons_or with ⟨rest, rfl⟩ | htail
  · -- What is passed over is a user part, and the host and the port come after it.
    obtain ⟨second, tail, rfl, hsecond, htail⟩ := Text.exists_stops authorityEnds rest
    obtain ⟨host, port, rfl, hhost⟩ := exists_host_port second
    refine ⟨⟨scheme, some first, host, port, tail⟩, .of_disjoint hscheme ?_ nofun hhost hsecond htail,
      ?_⟩
    · rintro u ⟨⟩
      exact hfirst
    · simp [toText_eq, schemeText, userText, portText]
  · -- There is no user part, so what is passed over is the host and the port.
    obtain ⟨host, port, rfl, hhost⟩ := exists_host_port first
    obtain ⟨hat, hends⟩ := List.disjoint_cons_right.mp hfirst
    refine ⟨⟨scheme, none, host, port, rest⟩, .of_disjoint hscheme nofun (fun _ => hat) hhost hends
      htail, ?_⟩
    simp [toText_eq, schemeText, userText, portText]

end Parts

/-- There is no scheme: no colon, or no two slashes after the first one. -/
def NoScheme (url : Text) : Prop :=
  ':' ∉ url ∨ ∃ scheme rest, url = scheme ++ ':' :: rest ∧ ':' ∉ scheme ∧ ¬ "//".toList <+: rest

/-- An address has no scheme, or parts that are found in it. -/
theorem noScheme_or_exists_found (url : Text) :
    NoScheme url ∨ ∃ p : Parts, p.Found ∧ p.toText = url := by
  obtain ⟨scheme, rest, rfl, hscheme, hrest⟩ := Text.exists_stops [':'] url
  rw [List.disjoint_singleton] at hscheme
  cases rest with
  | nil => exact .inl (.inl (by rwa [List.append_nil]))
  | cons c rest =>
    obtain rfl := List.mem_singleton.mp (hrest c rfl)
    by_cases hslashes : "//".toList <+: rest
    · obtain ⟨rest, rfl⟩ := hslashes
      obtain ⟨p, hp, htext⟩ := Parts.exists_found hscheme rest
      exact .inr ⟨p, hp, by simp [htext]⟩
    · exact .inl (.inr ⟨scheme, rest, rfl, hscheme, hslashes⟩)

/-- Where there is no scheme, the search for its end finds none. -/
theorem schemeEnd?_of_noScheme {url : Text} (h : NoScheme url) : schemeEnd? (bytes url) = none := by
  rcases h with hcolon | ⟨scheme, rest, rfl, hscheme, hslashes⟩
  · exact schemeEnd?_eq_none_of_notMem hcolon
  · rw [schemeEnd?_append hscheme, if_neg hslashes]

/-- Where there is no scheme, no bytes are those of a host. -/
theorem hostSpan?_of_noScheme {url : Text} (h : NoScheme url) : hostSpan? (bytes url) = none := by
  rw [hostSpan?, schemeEnd?_of_noScheme h, Option.map_none]

/-- Where there is no scheme, there is no host. -/
theorem host?_of_noScheme {url : Text} (h : NoScheme url) : host? url = none := by
  rw [host?, hostSpan?_of_noScheme h, Option.bind_none]

/-- A search that finds something in all found parts, and nothing without a scheme, fails exactly
where there is no scheme. -/
theorem eq_none_iff_noScheme {α : Type} {search : Text → Option α}
    (hnone : ∀ {url}, NoScheme url → search url = none)
    (hsome : ∀ {p : Parts}, p.Found → ∃ a, search p.toText = some a) {url : Text} :
    search url = none ↔ NoScheme url := by
  refine ⟨fun h => ?_, hnone⟩
  refine (noScheme_or_exists_found url).resolve_right ?_
  rintro ⟨p, hp, rfl⟩
  obtain ⟨a, ha⟩ := hsome hp
  exact Option.some_ne_none a (ha.symm.trans h)

/-- No bytes are those of a host exactly if there is no scheme. -/
theorem hostSpan?_eq_none_iff {url : Text} : hostSpan? (bytes url) = none ↔ NoScheme url :=
  eq_none_iff_noScheme hostSpan?_of_noScheme fun hp => ⟨_, hp.hostSpan?_toText⟩

/-- There is no host exactly if there is no scheme. -/
theorem host?_eq_none_iff {url : Text} : host? url = none ↔ NoScheme url :=
  eq_none_iff_noScheme host?_of_noScheme fun hp => ⟨_, hp.host?_toText⟩

/-- A host that is found is that of some parts of the address. -/
theorem exists_found_of_host? {url : Text} {f : Fragment} (h : host? url = some f) :
    ∃ p : Parts, p.Found ∧ p.toText = url ∧ f = ⟨byteLength p.beforeHost, p.host⟩ := by
  have hscheme : ¬ NoScheme url := by
    rw [← host?_eq_none_iff, h]
    exact Option.some_ne_none f
  obtain ⟨p, hp, rfl⟩ := (noScheme_or_exists_found url).resolve_left hscheme
  rw [hp.host?_toText] at h
  exact ⟨p, hp, rfl, (Option.some.inj h).symm⟩

/-- Where there is a host, the positions that were found are in order and each of them is between
characters, so that there is a text between them. -/
theorem Parts.Found.positions {p : Parts} (h : p.Found) {span : Span}
    (hspan : hostSpan? (bytes p.toText) = some span) :
    ∃ schemeEnd f, schemeEnd? (bytes p.toText) = some schemeEnd ∧
      (schemeEnd ≤ span.start ∧ span.start ≤ span.stop ∧ span.stop ≤ byteLength p.toText) ∧
      (IsBoundary p.toText schemeEnd ∧ IsBoundary p.toText span.start ∧
        IsBoundary p.toText span.stop) ∧
      host? p.toText = some f ∧ f.span = span := by
  rw [h.hostSpan?_toText] at hspan
  obtain rfl := Option.some.inj hspan
  refine ⟨_, _, h.schemeEnd?_toText, ⟨?_, ?_, ?_⟩, ⟨?_, ?_, ?_⟩, h.host?_toText, ?_⟩
  · rw [beforeHost, Text.byteLength_append]
    exact Nat.le_add_right _ _
  · rw [Text.byteLength_append]
    exact Nat.le_add_right _ _
  · rw [toText, Text.byteLength_append (p.beforeHost ++ p.host)]
    exact Nat.le_add_right _ _
  · exact ⟨p.schemeText, _, p.toText_eq, rfl⟩
  · exact ⟨p.beforeHost, p.host ++ (p.portText ++ p.tail), by simp [toText], rfl⟩
  · exact ⟨p.beforeHost ++ p.host, p.portText ++ p.tail, rfl, rfl⟩
  · rw [Fragment.span, Fragment.stop, Text.byteLength_append]

/-- **The host of an address.** An address that is composed of well-formed parts has their host. Any
text has a host unless it has no scheme, and then the positions that are found in its bytes are in
order and between characters. -/
theorem host?_toText_and_positions :
    (∀ p : Parts, p.WellFormed → (host? p.toText).map (·.text) = some p.host) ∧
      ∀ url : Text,
        (host? url = none ↔ NoScheme url) ∧
        (hostSpan? (bytes url) = none ↔ NoScheme url) ∧
        ∀ span, hostSpan? (bytes url) = some span →
          ∃ schemeEnd f, schemeEnd? (bytes url) = some schemeEnd ∧
            (schemeEnd ≤ span.start ∧ span.start ≤ span.stop ∧ span.stop ≤ byteLength url) ∧
            (IsBoundary url schemeEnd ∧ IsBoundary url span.start ∧ IsBoundary url span.stop) ∧
            host? url = some f ∧ f.span = span := by
  refine ⟨fun p h => ?_, fun url =>
    ⟨host?_eq_none_iff, hostSpan?_eq_none_iff, fun span hspan => ?_⟩⟩
  · rw [h.found.host?_toText, Option.map_some]
  · have hscheme : ¬ NoScheme url := by
      rw [← hostSpan?_eq_none_iff, hspan]
      exact Option.some_ne_none span
    obtain ⟨p, hp, rfl⟩ := (noScheme_or_exists_found url).resolve_left hscheme
    exact hp.positions hspan

/-- A user part with a colon, a host with a character of two bytes, and a tail with an `@`, a colon
and slashes. -/
theorem host?_toText_and_positions_user_port_tail :
    let p : Parts := ⟨"https".toList, some "u:p".toList, "exämple.org".toList, some "80:1".toList,
      "/a@b:c://d".toList⟩
    p.WellFormed ∧ (host? p.toText).map (·.text) = some "exämple.org".toList := by
  intro p
  have hp : p.WellFormed := by
    constructor
    case scheme => decide
    case user => rintro u ⟨⟩; decide
    case host => decide
    case port => rintro t ⟨⟩; decide
    case tail => rintro c ⟨⟩; decide
  exact ⟨hp, host?_toText_and_positions.1 p hp⟩

end ContentFilter.Url
