import CalcBasic.Groups

/-! Files by name, and why a file cannot be read or written. -/
namespace CalcBasic.Command

inductive FileError where
  | missing | notDirectory | directory
  | other (reason : String)
  deriving DecidableEq, Repr

def FileError.message : FileError → String
  | .missing => "No such file or directory (os error 2)"
  | .notDirectory => "Not a directory (os error 20)"
  | .directory => "Is a directory (os error 21)"
  | .other reason => reason

/-- The texts a command can read. -/
structure Sources where
  file : String → Except FileError String
  /-- Standard input. -/
  input : Except FileError String

/-- A file at the end of a path of names below the directory. -/
structure File where
  path : List String
  content : String

/-- A directory held in memory. -/
structure Directory where
  files : List File

namespace Directory

/-- The names on a path; an absolute path leads out of the directory. -/
def names? (path : String) : Option (List String) :=
  match path.toList with
  | [] | '/' :: _ => none
  | chars =>
    let names := (Groups.split (· == '/') chars).map String.ofList
    some (names.filter fun name => name != "" && name != ".")

def ofFiles (files : List (String × String)) : Directory :=
  ⟨files.filterMap fun (path, content) => (names? path).map (⟨·, content⟩)⟩

def content? (directory : Directory) (path : List String) : Option String :=
  (directory.files.find? (·.path == path)).map File.content

/-- Some file is below the path. -/
def holds (directory : Directory) (path : List String) : Bool :=
  path.isEmpty || directory.files.any fun file => path.isPrefixOf file.path && path != file.path

/-- Some file is passed on the way to the path. -/
def crossesFile (directory : Directory) (path : List String) : Bool :=
  directory.files.any fun file => file.path.isPrefixOf path && path != file.path

def endsInSlash (path : String) : Bool := path.toList.getLast? == some '/'

def read (directory : Directory) (path : String) : Except FileError String :=
  match names? path with
  | none => .error .missing
  | some names =>
    match directory.content? names with
    | some content => if endsInSlash path then .error .notDirectory else .ok content
    | none =>
      if directory.holds names then .error .directory
      else if directory.crossesFile names then .error .notDirectory
      else .error .missing

def write (directory : Directory) (path content : String) : Except FileError Directory :=
  match names? path with
  | none => .error .missing
  | some names =>
    if directory.crossesFile names then .error .notDirectory
    else if directory.holds names then .error .directory
    else if !directory.holds names.dropLast then .error .missing
    else if endsInSlash path then
      .error (if (directory.content? names).isSome then .notDirectory else .directory)
    else
      let others := directory.files.filter (·.path != names)
      .ok ⟨others ++ [⟨names, content⟩]⟩

end Directory
end CalcBasic.Command
