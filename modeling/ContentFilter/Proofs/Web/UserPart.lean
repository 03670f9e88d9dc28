import ContentFilter.Proofs.Web.Host
import ContentFilter.Script.Materializer

/-!
# What is left of the user part

The user part is meant to be skipped as a whole. It is taken to end at the first `@` of the
authority, although it may hold others, and then the rest of it counts as the host. So what is found
as the host never holds a character of the path, the query or the anchor and never a colon, but it
holds an `@` exactly if there is a second one after the first, with no colon between the two
(`disjoint_host?_iff`). If there is a colon between them, the host ends there, and the part of the
user part before it is the host.
-/

set_option autoImplicit false

namespace ContentFilter.Url

open Text (bytes byteLength Stops)

/-- What stands before and after the first occurrence of a character is determined. -/
theorem eq_of_append_cons_eq {c : Char} {s s' t t' : Text} (hs : c ∉ s) (hs' : c ∉ s')
    (h : s ++ c :: t = s' ++ c :: t') : s = s' ∧ t = t' := by
  rcases List.append_eq_append_iff.mp h with ⟨x, rfl, hx⟩ | ⟨x, rfl, hx⟩
  · cases x with
    | nil => exact ⟨(List.append_nil s).symm, (List.cons.inj hx).2⟩
    | cons d x =>
      obtain rfl := (List.cons.inj hx).1
      exact absurd (List.mem_append_right s List.mem_cons_self) hs'
  · cases x with
    | nil => exact ⟨List.append_nil s', (List.cons.inj hx).2.symm⟩
    | cons d x =>
      obtain rfl := (List.cons.inj hx).1
      exact absurd (List.mem_append_right s' List.mem_cons_self) hs

/-- A second `@` comes after the first one, with no colon between the two. -/
def SecondAt (authority : Text) : Prop :=
  ∃ user more rest, authority = user ++ '@' :: (more ++ '@' :: rest) ∧ '@' ∉ user ∧ ':' ∉ more

namespace Parts

variable {p : Parts}

theorem authority_of_no_user (h : p.user = none) : p.authority = p.host ++ p.portText := by
  rw [authority, userText, h]
  rfl

theorem authority_of_user {user : Text} (h : p.user = some user) :
    p.authority = user ++ '@' :: (p.host ++ p.portText) := by
  simp [authority, userText, h]

/-- The user part that is found holds no `@`. -/
theorem Found.notMem_user (h : p.Found) {user : Text} (huser : p.user = some user) : '@' ∉ user :=
  (List.disjoint_cons_right.mp (h.user user huser)).1

/-- An `@` belongs to the host if no colon comes before it. -/
theorem mem_host_of_append_cons {more rest : Text} (hmore : ':' ∉ more)
    (h : p.host ++ p.portText = more ++ '@' :: rest) : '@' ∈ p.host := by
  rw [portText] at h
  cases hport : p.port with
  | none =>
    rw [hport, Option.map_none, Option.getD_none, List.append_nil] at h
    rw [h]
    exact List.mem_append_right _ List.mem_cons_self
  | some port =>
    rw [hport, Option.map_some, Option.getD_some] at h
    have hcolon : p.host ++ [':'] <+: p.host ++ ':' :: port := ⟨port, (List.append_cons ..).symm⟩
    have hat : more ++ ['@'] <+: p.host ++ ':' :: port := ⟨rest, by rw [h, ← List.append_cons]⟩
    rcases List.prefix_or_prefix_of_prefix hat hcolon with hle | hle
    · have hmem : '@' ∈ p.host ++ [':'] := hle.mem (List.mem_append_right _ List.mem_cons_self)
      simpa using hmem
    · have hmem : ':' ∈ more ++ ['@'] := hle.mem (List.mem_append_right _ List.mem_cons_self)
      exact absurd (by simpa using hmem) hmore

/-- The host that is found holds an `@` exactly if a second one comes after the first, with no colon
between. -/
theorem Found.mem_host_iff (h : p.Found) : '@' ∈ p.host ↔ SecondAt p.authority := by
  constructor
  · intro hmem
    cases huser : p.user with
    | none => exact absurd (List.mem_append_left _ hmem) (h.not_mem_of_no_user huser)
    | some user =>
      obtain ⟨more, rest, hhost⟩ := List.append_of_mem hmem
      refine ⟨user, more, rest ++ p.portText, ?_, h.notMem_user huser, fun hcolon => ?_⟩
      · rw [authority_of_user huser, hhost, List.append_assoc, List.cons_append]
      · have hcolon' : ':' ∈ p.host := hhost ▸ List.mem_append_left _ hcolon
        exact h.host hcolon' List.mem_cons_self
  · rintro ⟨user', more, rest, hsplit, huser', hmore⟩
    cases huser : p.user with
    | none =>
      rw [authority_of_no_user huser] at hsplit
      exact absurd (hsplit ▸ List.mem_append_right _ List.mem_cons_self)
        (h.not_mem_of_no_user huser)
    | some user =>
      rw [authority_of_user huser] at hsplit
      obtain ⟨-, hrest⟩ := eq_of_append_cons_eq (h.notMem_user huser) huser' hsplit
      exact mem_host_of_append_cons hmore hrest

/-- No `@` is left after what is skipped if there is one at most. -/
theorem Found.notMem_iff_count (h : p.Found) :
    '@' ∉ p.host ++ p.portText ↔ p.authority.count '@' ≤ 1 := by
  cases huser : p.user with
  | none =>
    have hnot := h.not_mem_of_no_user huser
    rw [authority_of_no_user huser, List.count_eq_zero.mpr hnot]
    exact iff_of_true hnot (Nat.zero_le 1)
  | some user =>
    rw [authority_of_user huser, List.count_append, List.count_cons_self,
      List.count_eq_zero.mpr (h.notMem_user huser), ← List.count_eq_zero]
    omega

end Parts

/-- The domain of a page is the host of its address. -/
theorem domain_of_ofUrl? {url : Text} {f : Fragment} {page : Page} (h : host? url = some f)
    (hpage : Page.ofUrl? url = some page) : page.domain = f.text := by
  rw [Page.ofUrl?, h] at hpage
  simp only at hpage
  split at hpage
  · exact nomatch hpage
  · exact congrArg Page.domain (Option.some.inj hpage).symm

/-- **What is left of the user part.** A host, and so the domain of a page, holds none of the
characters `/`, `?`, `#` and `:`. It holds no `@` either, unless a second `@` comes after the first
one in the authority, with no colon between the two. All of the user part is skipped exactly if the
authority has one `@` at most. -/
theorem disjoint_host?_iff {url : Text} {f : Fragment} (h : host? url = some f) :
    ∃ p : Parts, p.toText = url ∧ p.Found ∧ f = ⟨byteLength p.beforeHost, p.host⟩ ∧
      (∀ page, Page.ofUrl? url = some page → page.domain = f.text) ∧
      f.text.Disjoint (':' :: authorityEnds) ∧
      (f.text.Disjoint ('@' :: ':' :: authorityEnds) ↔ ¬ SecondAt p.authority) ∧
      ('@' ∉ p.host ++ p.portText ↔ p.authority.count '@' ≤ 1) := by
  obtain ⟨p, hp, htext, hf⟩ := exists_found_of_host? h
  have hhost : f.text = p.host := congrArg Fragment.text hf
  refine ⟨p, htext, hp, hf, fun page => domain_of_ofUrl? h, ?_, ?_, hp.notMem_iff_count⟩
  · rw [hhost]
    exact hp.host
  · rw [hhost, List.disjoint_cons_right, and_iff_left hp.host, hp.mem_host_iff]

/-- In an address with one `@` before a port and one in its path, all of the user part is skipped.
-/
theorem disjoint_host?_one_at :
    host? "https://u:p@b.com:80/x@y".toList = some ⟨12, "b.com".toList⟩ ∧
      "b.com".toList.Disjoint ('@' :: ':' :: authorityEnds) := by
  have hhost : host? "https://u:p@b.com:80/x@y".toList = some ⟨12, "b.com".toList⟩ := by decide
  obtain ⟨p, -, -, -, -, hcolon, -, -⟩ := disjoint_host?_iff hhost
  exact ⟨hhost, List.disjoint_cons_right.mpr ⟨by decide, hcolon⟩⟩

/-- Not every host, and not every domain of a page, is free of what separates the parts of an
address: behind the first of two `@` the second one is left. -/
theorem host?_second_at :
    ¬ ∀ (url : Text) (f : Fragment) (page : Page), host? url = some f →
      Page.ofUrl? url = some page →
        f.text.Disjoint ('@' :: ':' :: authorityEnds) ∧
          page.domain.Disjoint ('@' :: ':' :: authorityEnds) := by
  intro h
  have hfree := h "https://a@b@c.com/".toList ⟨10, "b@c.com".toList⟩
    ⟨"https://a@b@c.com/".toList, "b@c.com".toList⟩ (by decide) (by decide)
  exact absurd hfree.1 (by decide)

end ContentFilter.Url
