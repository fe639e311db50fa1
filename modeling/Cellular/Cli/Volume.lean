import Cellular.Cli.Host
import Cellular.Cli.Path

/-!
# Files in memory

A volume of text files, and a host that works on it.  Paths are followed as a
file system follows them, one component after the other: all but the last have
to be directories, and the first that is none is what is wrong with the path.
Work is done in a directory without subdirectories, which lies in the folder for
things that do not last.  Around it is what every file system holds: a root with
its folders, and devices that take what is written in ways of their own.
-/

namespace Cellular.Cli

inductive Location where
  | working
  /-- The folder that these names lead to from the root. -/
  | folder (names : List String)
  deriving DecidableEq, Repr

def Location.parent : Location → Location
  | .working => .folder ["tmp"]
  | .folder names => .folder names.dropLast

inductive Device where
  | null
  | full
  | output
  | complaints
  deriving DecidableEq, Repr

inductive Entry where
  | file (text : String)
  | device (device : Device)
  | directory (location : Location)
  deriving DecidableEq, Repr

def standardFolders : List String :=
  ["bin", "boot", "dev", "etc", "home", "lib", "media", "mnt", "opt", "proc",
    "root", "run", "sbin", "srv", "sys", "tmp", "usr", "var"]

def standardDevices : List (String × Device) :=
  [("null", .null), ("stdin", .null), ("full", .full), ("stdout", .output),
    ("stderr", .complaints)]

/-- Files of the folder `etc`.  What they say is not known, except that it is
nothing that a command could use; they are taken to be empty. -/
def standardFiles : List String := ["hostname", "hosts", "passwd"]

def standardEntry? (name : String) : Location → Option Entry
  | .folder [] =>
      if standardFolders.contains name then some (.directory (.folder [name]))
      else none
  | .folder ["dev"] => (standardDevices.lookup name).map .device
  | .folder ["etc"] =>
      if standardFiles.contains name then some (.file "") else none
  | _ => none

structure Volume where
  /-- The locations, names and texts of the files; of one location and name the
  first entry counts. -/
  files : List ((Location × List Char) × String)

namespace Volume

def ofFiles (files : List (List Char × String)) : Volume :=
  ⟨files.map fun (name, text) => ((.working, name), text)⟩

def entry? (volume : Volume) (location : Location) (name : List Char) :
    Option Entry :=
  match volume.files.lookup (location, name) with
  | some text => some (.file text)
  | none => standardEntry? (String.ofList name) location

def pathBytesMax : Nat := 4095

def nameBytesMax : Nat := 255

def byteCount (text : List Char) : Nat := (String.ofList text).utf8ByteSize

def lookup (volume : Volume) (location : Location) (name : List Char) :
    Except FileError (Option Entry) :=
  if name = here then .ok (some (.directory location))
  else if name = above then .ok (some (.directory location.parent))
  else if nameBytesMax < byteCount name then .error .nameTooLong
  else .ok (volume.entry? location name)

def enter (volume : Volume) (location : Location) (name : List Char) :
    Except FileError Location := do
  match ← volume.lookup location name with
  | some (.directory location) => .ok location
  | some (.file _) | some (.device _) => .error .notDirectory
  | none => .error .missing

/-- Follows components up to the last one, which is not looked up.  A path
without components stays where it is. -/
def walk (volume : Volume) :
    Location → List (List Char) → Except FileError (Location × List Char)
  | location, [] => .ok (location, here)
  | location, [name] => .ok (location, name)
  | location, name :: rest => do
      volume.walk (← volume.enter location name) rest

def follow (volume : Volume) (path : List Char) :
    Except FileError (Location × List Char) :=
  if path.isEmpty then .error .missing
  else if pathBytesMax < byteCount path then .error .nameTooLong
  else
    volume.walk (if isAbsolute path then .folder [] else .working)
      (components path)

def read (volume : Volume) (path : String) : Except FileError String := do
  let (location, name) ← volume.follow path.toList
  let found ← volume.lookup location name
  let text ← match found with
    | none => .error .missing
    | some (.directory _) => .error .isDirectory
    | some (.device _) => .ok ""
    | some (.file text) => .ok text
  if endsInSlash path.toList then .error .notDirectory else .ok text

inductive Target where
  | file (location : Location) (name : List Char)
  | device (device : Device)
  deriving DecidableEq, Repr

/-- Where a path takes a text.  A directory takes none, and the folder `proc` no
file. -/
def target (volume : Volume) (path : String) : Except FileError Target := do
  let (location, name) ← volume.follow path.toList
  if endsInSlash path.toList then .error .isDirectory
  else
    match ← volume.lookup location name with
    | some (.directory _) => .error .isDirectory
    | some (.device device) => .ok (.device device)
    | some (.file _) | none =>
        if location = .folder ["proc"] then .error .missing
        else .ok (.file location name)

def put (volume : Volume) (location : Location) (name : List Char)
    (text : String) : Volume :=
  ⟨((location, name), text) :: volume.files⟩

end Volume

structure Desk where
  volume : Volume
  output : String
  complaints : String

namespace Desk

def ofFiles (files : List (List Char × String)) : Desk :=
  ⟨.ofFiles files, "", ""⟩

def write (desk : Desk) (path text : String) : Except FileError Desk := do
  match ← desk.volume.target path with
  | .file location name =>
      .ok { desk with volume := desk.volume.put location name text }
  | .device .null => .ok desk
  | .device .full => .error .noRoom
  | .device .output => .ok { desk with output := desk.output ++ text }
  | .device .complaints =>
      .ok { desk with complaints := desk.complaints ++ text }

def host : Host (StateM Desk) where
  readFile path := do return (← get).volume.read path
  writeFile path text := do
    match (← get).write path text with
    | .error error => return .error error
    | .ok desk =>
        set desk
        return .ok ()
  print line :=
    modify fun desk => { desk with output := desk.output ++ line ++ "\n" }
  complain line :=
    modify fun desk => { desk with complaints := desk.complaints ++ line ++ "\n" }
  seconds := pure 0
  seed := pure 0

end Desk

end Cellular.Cli
