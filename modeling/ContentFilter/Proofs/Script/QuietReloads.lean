import ContentFilter.Proofs.Script.Coherence

/-!
# Quiet reloads

Clearing the kept scripts is enough if reloads and collections keep out of each other's way: if
at no time a storage has been put in force without the kept scripts having been cleared while a
collection is under way. Then whatever is kept was made from rules of the storage in force,
unless it is about to be cleared (`Settled`).
-/

set_option autoImplicit false

namespace ContentFilter.Sharing

variable {m : Materializer}

/-- The identities of a storage tell its cosmetic rules apart. -/
def WellKeyed (storage : Storage) : Prop :=
  ∀ r ∈ storage.cosmeticRules, ∀ r' ∈ storage.cosmeticRules, r.id = r'.id → r = r'

/-- A reload is under way, and so is a collection. -/
def Overlap (s : State) : Prop :=
  ∃ reloading collecting, s.phase reloading = .reloading ∧
    (s.phase collecting).snapshot?.isSome = true

/-- What holds as long as reloads and collections do not overlap: collections are about the storage
in force, and so are the kept scripts, unless they are about to be cleared. -/
structure Settled (m : Materializer) (s : State) : Prop where
  wellKeyed : WellKeyed s.storage.current
  snapshots : ∀ party snapshot, (s.phase party).snapshot? = some snapshot →
    snapshot = s.storage.current
  making : ∀ party snapshot rule script, s.phase party = .making snapshot rule script →
    rule ∈ snapshot.cosmeticRules
  kept : (∀ party, s.phase party ≠ .reloading) → ∀ id writer script,
    lastMade id s.log = some (writer, script) → writer ∈ s.storage.current.cosmeticRules
  reused : ∀ rule script, .reused rule script ∈ s.log → m.Owns rule script

theorem settled_start {storage : Storage} (h : WellKeyed storage) :
    Settled m (.start storage) where
  wellKeyed := h
  snapshots _ _ h := nomatch h
  making _ _ _ _ h := nomatch h
  kept _ _ _ _ h := nomatch h
  reused _ _ h := nomatch h

/-- A party that goes on with the storage in force keeps a state settled. -/
theorem Settled.goTo {s : State} (h : Settled m s) {party : Nat} {next : Phase}
    (hsnapshot : ∀ snapshot, next.snapshot? = some snapshot → snapshot = s.storage.current)
    (hmaking : ∀ snapshot rule script, next = .making snapshot rule script →
      rule ∈ snapshot.cosmeticRules)
    (hkept : s.phase party = .reloading → ∀ id, lastMade id s.log = none) :
    Settled m (s.goTo party next) where
  wellKeyed := h.wellKeyed
  snapshots other snapshot hother := by
    rw [State.phase_goTo] at hother
    by_cases hparty : other = party
    · rw [if_pos hparty] at hother
      exact hsnapshot _ hother
    · rw [if_neg hparty] at hother
      exact h.snapshots _ _ hother
  making other snapshot rule script hother := by
    rw [State.phase_goTo] at hother
    by_cases hparty : other = party
    · rw [if_pos hparty] at hother
      exact hmaking _ _ _ hother
    · rw [if_neg hparty] at hother
      exact h.making _ _ _ _ hother
  kept hreloading id writer script hlast := by
    by_cases hparty : s.phase party = .reloading
    · -- The party ends its reload, and has cleared the kept scripts.
      rw [show (s.goTo party next).log = s.log from rfl, hkept hparty id] at hlast
      exact nomatch hlast
    · refine h.kept (fun other hother => ?_) id writer script hlast
      have hne : other ≠ party := by
        rintro rfl
        exact hparty hother
      have := hreloading other
      rw [State.phase_goTo, if_neg hne] at this
      exact this hother
  reused := h.reused

/-- The case that matters: a script that is reused is the rule's own, since the rule that it was
made from stands in the same storage under the same identity, and so is the same rule. -/
theorem Settled.reuse {s : State} (h : Settled m s) (hcoherent : Coherent m s)
    (hreloading : ∀ party, s.phase party ≠ .reloading) {rule : CosmeticRule}
    {script : MaterializedScript} (hrule : rule ∈ s.storage.current.cosmeticRules)
    (hget : s.cache.get? rule.id = some script) :
    Settled m { s with log := .reused rule script :: s.log } where
  wellKeyed := h.wellKeyed
  snapshots := h.snapshots
  making := h.making
  kept := h.kept
  reused rule' script' hreused := by
    rcases List.mem_cons.mp hreused with hreused | hreused
    · obtain ⟨rfl, rfl⟩ := Occurrence.reused.inj hreused
      rw [hcoherent.cache] at hget
      obtain ⟨⟨writer, kept⟩, hlast, rfl⟩ := Option.map_eq_some_iff.mp hget
      obtain ⟨hmade, hid⟩ := mem_of_lastMade hlast
      obtain rfl : writer = rule' :=
        h.wellKeyed _ (h.kept hreloading _ _ _ hlast) _ hrule hid
      exact hcoherent.made _ _ hmade
    · exact h.reused _ _ hreused

/-- Keeping a script of a rule of the storage in force keeps a state settled. -/
theorem Settled.keep {s : State} (h : Settled m s) {rule : CosmeticRule}
    {script : MaterializedScript} (hrule : rule ∈ s.storage.current.cosmeticRules) :
    Settled m { s with
      cache := s.cache.insert rule.id script
      log := .made rule script :: s.log } where
  wellKeyed := h.wellKeyed
  snapshots := h.snapshots
  making := h.making
  kept hreloading id writer script' hlast := by
    rw [lastMade] at hlast
    by_cases hid : rule.id = id
    · rw [if_pos hid, Option.some.injEq, Prod.mk.injEq] at hlast
      exact hlast.1 ▸ hrule
    · rw [if_neg hid] at hlast
      exact h.kept hreloading id writer script' hlast
  reused rule' script' hreused :=
    h.reused _ _ (List.mem_of_ne_of_mem (by simp) hreused)

/-- Clearing the kept scripts keeps a state settled. -/
theorem Settled.clear {s : State} (h : Settled m s) :
    Settled m { s with cache := s.cache.clear, log := .cleared :: s.log } where
  wellKeyed := h.wellKeyed
  snapshots := h.snapshots
  making := h.making
  kept _ _ _ _ hlast := nomatch hlast
  reused rule script hreused :=
    h.reused _ _ (List.mem_of_ne_of_mem (by simp) hreused)

/-- Beginning a reload leaves nothing to be said of collections, as there is none. -/
theorem Settled.replace {s : State} (h : Settled m s) {party : Nat} {new : Storage}
    (hnew : WellKeyed new)
    (hoverlap : ¬ Overlap ({ s with storage := ⟨new⟩ }.goTo party .reloading)) :
    Settled m ({ s with storage := ⟨new⟩ }.goTo party .reloading) := by
  have hreloading : ({ s with storage := ⟨new⟩ }.goTo party .reloading : State).phase party =
      .reloading := by
    rw [State.phase_goTo, if_pos rfl]
  have hnone : ∀ other snapshot,
      (({ s with storage := ⟨new⟩ }.goTo party .reloading : State).phase other).snapshot? ≠
        some snapshot := by
    intro other snapshot hother
    exact hoverlap ⟨party, other, hreloading, by rw [hother]; rfl⟩
  refine ⟨hnew, fun other snapshot hother => absurd hother (hnone _ _), ?_, ?_, h.reused⟩
  · intro other snapshot rule script hother
    exact absurd (by rw [hother]; rfl) (hnone other snapshot)
  · intro hnot
    exact absurd hreloading (hnot party)

/-- A step that begins no overlap keeps a state settled. -/
theorem Settled.step {s s' : State} {party : Nat} {action : Action} (h : Settled m s)
    (hcoherent : Coherent m s) (hnew : ∀ new, action = .replace new → WellKeyed new)
    (hbefore : ¬ Overlap s) (hafter : ¬ Overlap s') (hstep : Step m s party action s') :
    Settled m s' := by
  -- While the party collects, no other reloads, and what it collects for is in force.
  have hcollecting : ∀ snapshot, (s.phase party).snapshot? = some snapshot →
      (∀ other, s.phase other ≠ .reloading) ∧ snapshot = s.storage.current := by
    intro snapshot hphase
    refine ⟨fun other hother => ?_, h.snapshots _ _ hphase⟩
    exact hbefore ⟨other, party, hother, by rw [hphase]; rfl⟩
  cases hstep with
  | replace new hphase => exact h.replace (hnew _ rfl) hafter
  | clear hphase =>
    exact h.clear.goTo (fun _ h => nomatch h) (fun _ _ _ h => nomatch h) fun _ _ => rfl
  | snapshot hphase =>
    refine h.goTo (fun snapshot hnext => ?_) (fun _ _ _ h => nomatch h) fun hreloading => ?_
    · exact (Option.some.inj hnext).symm
    · rw [hphase] at hreloading
      exact nomatch hreloading
  | reuse snapshot rule page script hphase hmem hkept =>
    obtain ⟨hreloading, rfl⟩ := hcollecting snapshot (by rw [hphase]; rfl)
    exact h.reuse hcoherent hreloading hmem hkept
  | make snapshot rule page script hphase hmem howns =>
    obtain ⟨hreloading, rfl⟩ := hcollecting snapshot (by rw [hphase]; rfl)
    refine h.goTo (fun snapshot hnext => ?_) (fun snapshot rule' script' hnext => ?_)
      fun hparty => absurd hparty (hreloading party)
    · exact (Option.some.inj hnext).symm
    · obtain ⟨rfl, rfl, -⟩ := Phase.making.inj hnext
      exact hmem
  | keep snapshot rule script hphase =>
    have hrule := h.making _ _ _ _ hphase
    obtain ⟨hreloading, rfl⟩ := hcollecting snapshot (by rw [hphase]; rfl)
    refine (h.keep hrule).goTo (fun snapshot hnext => ?_) (fun _ _ _ h => nomatch h)
      fun hparty => absurd hparty (hreloading party)
    exact (Option.some.inj hnext).symm
  | finish snapshot hphase =>
    obtain ⟨hreloading, -⟩ := hcollecting snapshot (by rw [hphase]; rfl)
    exact h.goTo (fun _ h => nomatch h) (fun _ _ _ h => nomatch h)
      fun hparty => absurd hparty (hreloading party)
  | nothing => exact h

/-- A run without overlaps keeps a state settled. -/
theorem Settled.run {s : State} (h : Settled m s) (hcoherent : Coherent m s)
    {schedule : List (Nat × Action)}
    (hnew : ∀ party new, (party, .replace new) ∈ schedule → WellKeyed new)
    (hoverlap : ∀ done, done <+: schedule → ¬ Overlap (s.run m done)) :
    Settled m (s.run m schedule) := by
  induction schedule generalizing s with
  | nil => exact h
  | cons move schedule ih =>
    have hstep := s.step_spec (m := m) move.1 move.2
    have hbefore := hoverlap [] List.nil_prefix
    have hafter := hoverlap [move] (by simp)
    refine ih (h.step hcoherent ?_ hbefore hafter hstep) (hcoherent.step hstep) ?_ ?_
    · intro new haction
      exact hnew move.1 new (haction ▸ List.mem_cons_self)
    · exact fun party new hmem => hnew party new (List.mem_cons_of_mem _ hmem)
    · exact fun done hdone => hoverlap (move :: done) (List.cons_prefix_cons.mpr ⟨rfl, hdone⟩)

/-- **Quiet reloads.** If all storages have unique identities and at no time a reload and a
collection are both under way, every returned script is the rule's own. -/
theorem returned_owns_of_no_overlap {storage : Storage} {schedule : List (Nat × Action)}
    (hstorage : WellKeyed storage)
    (hnew : ∀ party new, (party, .replace new) ∈ schedule → WellKeyed new)
    (hoverlap : ∀ done, done <+: schedule → ¬ Overlap ((State.start storage).run m done))
    {rule : CosmeticRule} {script : MaterializedScript}
    (hreturned : Returned ((State.start storage).run m schedule).log rule script) :
    m.Owns rule script := by
  have hcoherent := coherent_start (m := m) storage
  rcases returned_iff.mp hreturned with hmade | hreused
  · exact (hcoherent.run schedule).made _ _ hmade
  · exact ((settled_start hstorage).run hcoherent hnew hoverlap).reused _ _ hreused

end ContentFilter.Sharing
