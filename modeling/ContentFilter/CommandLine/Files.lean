import ContentFilter.Text.Cut

/-!
# Files by path

A command reads files by path and knows nothing else about them, so it takes them as a function
`Files`. A `Directory` is such files held as a value: what a command does to given files can be
stated of it without a file system.

A path is followed part by part, and a part is only followed from a folder. So `d/../l.txt` is
`l.txt` where there is a folder `d`, and leads nowhere where there is none.
-/

set_option autoImplicit false

namespace ContentFilter.CommandLine

/-- Why a file cannot be read. -/
inductive ReadFailure where
  | notFound
  /-- The path leads on from a file. -/
  | notFolder
  | folder
  /-- The file is not UTF-8 text. -/
  | notText
  /-- Any other reason, in the words of the system. -/
  | other (reason : Text)
deriving DecidableEq, Repr, Inhabited

/-- The wording of a failure. -/
def ReadFailure.message : ReadFailure → Text
  | notFound => "No such file or directory (os error 2)".toList
  | notFolder => "Not a directory (os error 20)".toList
  | folder => "Is a directory (os error 21)".toList
  | notText => "stream did not contain valid UTF-8".toList
  | other reason => reason

/-- The files by path. -/
abbrev Files := Text → Except ReadFailure Text

/-! ## Paths -/

/-- The parts of a path, between its slashes. -/
def pathParts (path : Text) : List Text := Text.cut (Text.every '/') path

/-- Whether a part of a path leads nowhere else. -/
def stays (part : Text) : Bool := part.isEmpty || part == ['.']

/-- Whether a part of a path leads to the folder above. -/
def leadsUp (part : Text) : Bool := part == ['.', '.']

/-- The name of the file or folder that a path ends with, unless the path ends by leading up. -/
def fileName? (path : Text) : Option Text :=
  ((pathParts path).filter (!stays ·)).getLast?.filter (!leadsUp ·)

/-! ## Directories -/

/-- What there is at a place. -/
inductive Node where
  | folder
  /-- A file, with its text if it is one. -/
  | file (text : Option Text)
deriving DecidableEq, Repr, Inhabited

/-- What reading a node gives. -/
def Node.read : Node → Except ReadFailure Text
  | folder => .error .folder
  | file (some text) => .ok text
  | file none => .error .notText

/-- A directory: what there is below it, by the names that lead there from it. -/
structure Directory where
  /-- The files and folders; of several at one place the first counts. -/
  nodes : List (List Text × Node) := []
deriving Inhabited

namespace Directory

/-- What there is at a place. The directory itself is a folder. -/
def node? (d : Directory) (place : List Text) : Option Node :=
  if place.isEmpty then some .folder else (d.nodes.find? (·.1 == place)).map (·.2)

/-- The place to which a part of a path leads from a place. -/
def enter (place : List Text) (part : Text) : List Text :=
  if stays part then place else if leadsUp part then place.dropLast else place ++ [part]

/-- Follow parts of a path from a place; nothing above the directory is found. -/
def follow (d : Directory) (place : List Text) : List Text → Except ReadFailure Node
  | [] => match d.node? place with
    | some node => .ok node
    | none => .error .notFound
  | part :: rest =>
    match d.node? place with
    | none => .error .notFound
    -- Even a part that stays in place needs a folder to stay in, so `l.txt/` is not `l.txt`.
    | some (.file _) => .error .notFolder
    | some .folder =>
      if place.isEmpty && leadsUp part then .error .notFound
      else follow d (enter place part) rest

/-- The files of a directory, by relative path. -/
def read (d : Directory) : Files := fun path =>
  match pathParts path with
  -- The empty path leads nowhere, and a path that begins with a slash leads elsewhere.
  | [] :: _ => .error .notFound
  | parts => (d.follow [] parts).bind Node.read

/-- The directory with a file more, in the place of the one that is there, and with the folders
through which its path leads. -/
def add (d : Directory) (path : Text) (text : Option Text) : Directory :=
  let parts := pathParts path
  let folders := (List.range parts.length).map fun n => (parts.take n).foldl enter []
  ⟨(parts.foldl enter [], .file text) :: folders.map (·, .folder) ++ d.nodes⟩

end Directory

end ContentFilter.CommandLine
