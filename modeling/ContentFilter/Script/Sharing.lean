import ContentFilter.Script.Collection

/-!
# Parties that share a storage and its scripts

Filter lists are reloaded while pages ask for scripts. A reload puts a new storage in the place
of the old one and then clears the kept scripts; a collection takes a snapshot of the storage
and then has the scripts of its rules made, one by one. All of them use one `SharedStorage` and
one `ScriptCache`, each of which does one thing at a time, but nothing holds both: between any
two of these steps any other party may go on.

So a party is a state machine. The two halves of a reload are separate steps, and so are the
two halves of having a script made: looking for it among the kept ones, and keeping what was
made. A step that is not the next one of its party does nothing, which makes every list of steps
a run.

In the engine: `SharedStorage` with `snapshot` and `replace`; the parties are `Engine::load_lists`
and `Engine::scripts`, the latter one `materialize_script` after the other.
-/

set_option autoImplicit false

namespace ContentFilter

/-- The storage in force. -/
structure SharedStorage where
  current : Storage := {}
deriving Inhabited

namespace SharedStorage

/-- The storage as of now (`SharedStorage::snapshot`). -/
def snapshot (s : SharedStorage) : Storage := s.current

/-- Put a storage in force; the one that was in force comes back (`SharedStorage::replace`). -/
def replace (s : SharedStorage) (new : Storage) : SharedStorage × Storage := (⟨new⟩, s.current)

end SharedStorage

namespace Sharing

/-- What a party is about. -/
inductive Phase where
  | idle
  /-- A storage was put in force, and the kept scripts are to be cleared. -/
  | reloading
  /-- Scripts are collected for the rules of a snapshot. -/
  | collecting (snapshot : Storage)
  /-- A script was not found and has been made, and is to be kept. -/
  | making (snapshot : Storage) (rule : CosmeticRule) (script : MaterializedScript)
deriving Inhabited

/-- The snapshot of a collection that is under way. -/
def Phase.snapshot? : Phase → Option Storage
  | idle | reloading => none
  | collecting snapshot | making snapshot .. => some snapshot

/-- What a party can do in one go. -/
inductive Action where
  /-- Begin a reload. -/
  | replace (new : Storage)
  | clear
  /-- Begin a collection. -/
  | snapshot
  /-- Look for the script of a rule, and make it if it is not kept. -/
  | look (rule : CosmeticRule) (page : Option Page)
  /-- Keep the script that was made. -/
  | keep
  | finish
deriving Inhabited

/-- What is worth remembering of a step. -/
inductive Occurrence where
  | cleared
  /-- A script was made from a rule, kept, and returned for the rule. -/
  | made (rule : CosmeticRule) (script : MaterializedScript)
  /-- A kept script was returned for a rule. -/
  | reused (rule : CosmeticRule) (script : MaterializedScript)
deriving DecidableEq

/-- The script that was returned, and the rule that it was returned for. -/
def Occurrence.returned? : Occurrence → Option (CosmeticRule × MaterializedScript)
  | cleared => none
  | made rule script | reused rule script => some (rule, script)

/-- Everything that the parties share, where each of them stands, and what occurred, the latest
first. -/
structure State where
  storage : SharedStorage := {}
  cache : ScriptCache := {}
  phase : Nat → Phase := fun _ => .idle
  log : List Occurrence := []
deriving Inhabited

namespace State

/-- A party gets on to its next phase. -/
def goTo (s : State) (party : Nat) (next : Phase) : State :=
  { s with phase := fun p => if p = party then next else s.phase p }

/-- Look for the script of a rule, and make it if it is not kept. -/
def look (m : Materializer) (s : State) (party : Nat) (snapshot : Storage)
    (rule : CosmeticRule) (page : Option Page) : State :=
  let domain := page.map (·.domain)
  match Materializer.kept? s.cache rule domain with
  | some script => { s with log := .reused rule script :: s.log }
  | none =>
    match m.build rule domain with
    | .ok (script, _) => s.goTo party (.making snapshot rule script)
    | .error _ => s

/-- One step of a party. -/
def step (m : Materializer) (s : State) (party : Nat) (action : Action) : State :=
  match s.phase party, action with
  | .idle, .replace new => { s with storage := (s.storage.replace new).1 }.goTo party .reloading
  | .reloading, .clear =>
    { s with cache := s.cache.clear, log := .cleared :: s.log }.goTo party .idle
  | .idle, .snapshot => s.goTo party (.collecting s.storage.snapshot)
  | .collecting snapshot, .look rule page =>
    if rule ∈ snapshot.cosmeticRules ∧ rule.marker.isScript = true then
      s.look m party snapshot rule page
    else s
  | .making snapshot rule script, .keep =>
    { s with
      cache := s.cache.insert rule.id script
      log := .made rule script :: s.log }.goTo party (.collecting snapshot)
  | .collecting _, .finish => s.goTo party .idle
  | _, _ => s

/-- The steps of the parties, one after the other. -/
def run (m : Materializer) (s : State) (schedule : List (Nat × Action)) : State :=
  schedule.foldl (fun s (party, action) => s.step m party action) s

/-- Nothing has happened yet. -/
def start (storage : Storage) : State := { storage := ⟨storage⟩ }

end State

end Sharing

end ContentFilter
