import PageLog.Settings.Toml

/-!
# Where a command runs

A command looks at files by their paths, and finds the settings that nobody named at a fixed place.

## Main definitions

* `Site` — what a command finds where it runs.
* `Site.put`, `Site.follow` — where a file is put, and where a path leads.
* `Site.ofFiles` — a site that consists of given files.
-/

namespace PageLog

/-- What a command finds where it runs. -/
structure Site where
  /-- What is under a path. -/
  find : String → Option Stored
  /-- The file with settings named by the environment. -/
  ambient : Option String
  /-- The file with settings that counts if none is named. -/
  standardSettings : Option String

namespace Site

/-! ### Places

A place is given by the parts of the way to it.  The way starts at the directory of the site, or at
the root of all directories, which is a part of its own; directories around the site are two dots
each. -/

/-- The parts of a path. -/
def pathParts (path : String) : List String :=
  let parts := (path.splitOn "/").filter fun part => !part.isEmpty && part != "."
  if path.toList.head? = some '/' then "/" :: parts else parts

/-- Whether a path can only lead to a directory. -/
def endsInDirectory (path : String) : Bool :=
  match path.toList.reverse with
  | '/' :: _ | '.' :: '/' :: _ | '.' :: '.' :: '/' :: _ | ['.'] | ['.', '.'] => true
  | _ => false

/-- The directory around a place.  Around the root there is nothing but itself. -/
def around (here : List String) : List String :=
  if here = ["/"] then here
  else if here.all (· == "..") then here ++ [".."]
  else here.dropLast

/-- The place one part further on a path: two dots lead back to the directory around. -/
def onward (here : List String) (part : String) : List String :=
  if part = ".." then around here else here ++ [part]

/-- The places that a path leads through, the first of them `here`, up to the one before its end,
together with its end. -/
def places (here : List String) : List String → List (List String) × List String
  | [] => ([], here)
  | part :: rest =>
      let (before, last) := places (onward here part) rest
      (here :: before, last)

/-- What there is once a file was put under a path: the directories on the way, and the file. -/
def put (path : String) (content : Bytes) : List (List String × Stored) :=
  let (before, last) := places [] (pathParts path)
  (last, .file content) :: before.map (·, .directory)

/-- Whether a place is a directory whatever files there are: the site, those around it, and those
that every system has. -/
def isStanding (place : List String) : Bool :=
  place.all (· == "..") ||
    place ∈ [["/"], ["/", "bin"], ["/", "dev"], ["/", "etc"], ["/", "home"], ["/", "lib"],
      ["/", "proc"], ["/", "sys"], ["/", "tmp"], ["/", "usr"], ["/", "var"]]

/-- What is at a place. -/
def stored (things : List (List String × Stored)) (place : List String) : Option Stored :=
  if isStanding place then some .directory else things.lookup place

/-- Where a path leads that starts at the place `here`: only directories have something in
them. -/
def follow (things : List (List String × Stored)) (here : List String) :
    List String → Option (List String)
  | [] => some here
  | part :: rest =>
      if stored things here = some .directory then follow things (onward here part) rest else none

/-- The most bytes that a path may have. -/
def pathLimit : Nat := 4095

/-- What is under a path.  One that is too long leads nowhere. -/
def lookup (things : List (List String × Stored)) (path : String) : Option Stored := do
  if pathLimit < path.utf8ByteSize then none
  let found ← stored things (← follow things [] (pathParts path))
  if endsInDirectory path && found ≠ .directory then none else some found

/-- A site that consists of the given files, with the settings that nobody named in the directory
`xdg`.  A file takes the place of an earlier one under the same path. -/
def ofFiles (files : List (String × Bytes)) (ambient : Option String) : Site :=
  let things := files.reverse.flatMap fun (path, content) => put path content
  ⟨lookup things, ambient, some "xdg/kindle/kindle.toml"⟩

end Site

end PageLog
