import Cellular.Config.Automaton

/-!
# Playback delays

The pauses between generations that can be chosen.
-/

namespace Cellular

inductive PlaybackDelay where
  | ms100
  | ms250
  | ms500
  | ms1000
  | ms2000
  deriving DecidableEq, Repr

namespace PlaybackDelay

def all : List PlaybackDelay := [ms100, ms250, ms500, ms1000, ms2000]

def millis : PlaybackDelay → Nat
  | ms100 => 100
  | ms250 => 250
  | ms500 => 500
  | ms1000 => 1000
  | ms2000 => 2000

def name (delay : PlaybackDelay) : String := "Ms" ++ toString delay.millis

def ofMillis (millis : Nat) : Except ConfigError PlaybackDelay :=
  match all.find? fun delay => delay.millis = millis with
  | some delay => .ok delay
  | none => .error (.invalidDelay millis)

end PlaybackDelay

end Cellular
