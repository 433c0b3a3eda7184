/-!
# Files of a folder

Texts are read by paths from a folder, which holds files by the names that lead to them. What lies
outside the folder holds no files.
-/

namespace PredictiveParsing.CommandLine

inductive ReadError where
  | notFound
  | isFolder
  | notFolder
  | other (message : String)
deriving DecidableEq, Repr

namespace ReadError

def message : ReadError → String
  | .notFound => "No such file or directory (os error 2)"
  | .isFolder => "Is a directory (os error 21)"
  | .notFolder => "Not a directory (os error 20)"
  | .other message => message

end ReadError

/-- A text and the path under which it is spoken of. -/
structure Source where
  text : String
  path : String
deriving DecidableEq, Repr

abbrev Route := List String

structure Folder where
  files : List (Route × String)

namespace Folder

def isFile (f : Folder) (r : Route) : Bool := (f.files.lookup r).isSome

def isFolder (f : Folder) (r : Route) : Bool :=
  r.isEmpty || f.files.any fun (file, _) => r.isPrefixOf file && r ≠ file

/-- Where one part of a path leads to. Nothing is known of what lies outside. -/
def step (f : Folder) (place : Option Route) (part : String) : Except ReadError (Option Route) :=
  match place with
  | none => if part = "" || part = "." || part = ".." then .ok none else .error .notFound
  | some r =>
    if f.isFile r then .error .notFolder
    else if part = "" || part = "." then .ok (some r)
    else if part = ".." then .ok (if r.isEmpty then none else some r.dropLast)
    else
      let next := r ++ [part]
      if f.isFile next || f.isFolder next then .ok (some next) else .error .notFound

def parts (path : String) : List String := path.splitOn "/"

def locate (f : Folder) (path : String) : Except ReadError (Option Route) :=
  if path = "" then .error .notFound
  else
    let start : Option Route := if path.startsWith "/" then none else some []
    (parts path).foldlM f.step start

def read (f : Folder) (path : String) : Except ReadError Source :=
  match f.locate path with
  | .error e => .error e
  | .ok none => .error .isFolder
  | .ok (some r) =>
    match f.files.lookup r with
    | some text => .ok ⟨text, "/".intercalate r⟩
    | none => .error .isFolder

def ofPaths (files : List (String × String)) : Folder :=
  ⟨files.map fun (path, text) =>
    ((parts path).filter fun part => part ≠ "" && part ≠ ".", text)⟩

end Folder

end PredictiveParsing.CommandLine
