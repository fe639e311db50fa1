/-!
# Cancellation

A request to stop is a flag, and several tokens may share one.  A pool keeps the
flags and tells for every token which flag it watches.
-/

namespace Cellular

def cancelledMessage : String := "Operation cancelled"

structure TokenPool where
  /-- The flags; a raised one asks to stop. -/
  flags : List Bool
  tokens : List Nat
  deriving DecidableEq, Repr

namespace TokenPool

def single : TokenPool := ⟨[false], [0]⟩

def flagOf (pool : TokenPool) (token : Nat) : Nat := pool.tokens.getD token 0

def isCancelled (pool : TokenPool) (token : Nat) : Bool :=
  pool.flags.getD (pool.flagOf token) false

def cancel (pool : TokenPool) (token : Nat) : TokenPool :=
  { pool with flags := pool.flags.set (pool.flagOf token) true }

def reset (pool : TokenPool) (token : Nat) : TokenPool :=
  { pool with flags := pool.flags.set (pool.flagOf token) false }

def clone (pool : TokenPool) (token : Nat) : TokenPool :=
  { pool with tokens := pool.tokens ++ [pool.flagOf token] }

def add (pool : TokenPool) : TokenPool :=
  ⟨pool.flags ++ [false], pool.tokens ++ [pool.flags.length]⟩

def states (pool : TokenPool) : List Bool :=
  (List.range pool.tokens.length).map pool.isCancelled

end TokenPool

end Cellular
