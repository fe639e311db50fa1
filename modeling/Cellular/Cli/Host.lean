/-!
# Hosts

What a command needs of its surroundings: files, two channels for lines of text,
a clock and a seed.  Commands are written against this interface, so that they
can be run on a machine as well as on values.
-/

namespace Cellular.Cli

inductive FileError where
  | system (text : String) (code : Nat)
  /-- The file's bytes are no text. -/
  | notText
  deriving DecidableEq, Repr

namespace FileError

def message : FileError → String
  | system text code => text ++ " (os error " ++ toString code ++ ")"
  | notText => "stream did not contain valid UTF-8"

def missing : FileError := .system "No such file or directory" 2

def notDirectory : FileError := .system "Not a directory" 20

def isDirectory : FileError := .system "Is a directory" 21

def noRoom : FileError := .system "No space left on device" 28

def nameTooLong : FileError := .system "File name too long" 36

end FileError

structure Host (m : Type → Type) where
  readFile : String → m (Except FileError String)
  writeFile : String → String → m (Except FileError Unit)
  print : String → m Unit
  complain : String → m Unit
  /-- The seconds on a clock that only goes forward. -/
  seconds : m Float
  /-- A number that is hard to foresee. -/
  seed : m UInt64

end Cellular.Cli
