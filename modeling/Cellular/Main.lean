import Cellular.Cli.Session

/-!
# The program on a machine

The host that reads and writes real files.
-/

namespace Cellular.Cli

def systemError (code : UInt32) (text : String) : FileError :=
  .system text.capitalize (min code.toNat (-code).toNat)

def fileError : IO.Error → FileError
  | .alreadyExists _ code text
  | .noFileOrDirectory _ code text
  | .interrupted _ code text
  | .invalidArgument _ code text
  | .permissionDenied _ code text
  | .resourceExhausted _ code text
  | .inappropriateType _ code text
  | .noSuchThing _ code text
  | .otherError code text
  | .resourceBusy code text
  | .resourceVanished code text
  | .unsupportedOperation code text
  | .hardwareFault code text
  | .unsatisfiedConstraints code text
  | .illegalOperation code text
  | .protocolError code text
  | .timeExpired code text => systemError code text
  | .unexpectedEof | .userError _ => .notText

def attempt {α : Type} (action : IO α) : IO (Except FileError α) := do
  return (← action.toBaseIO).mapError fileError

def machine : Host IO where
  readFile path := attempt (IO.FS.readFile path)
  writeFile path text := attempt (IO.FS.writeFile path text)
  print line := IO.println line
  complain line := IO.eprintln line
  seconds := do return (← IO.monoNanosNow).toFloat / 1000000000
  seed := do
    let bytes ← IO.getRandomBytes 8
    return bytes.foldl (fun seed byte => seed * 256 + byte.toUInt64) 0

end Cellular.Cli

def main (words : List String) : IO UInt32 :=
  Cellular.Cli.perform Cellular.Cli.machine words
