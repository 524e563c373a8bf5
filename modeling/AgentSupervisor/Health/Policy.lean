/-!
# Retry policies

How often a PID file is looked at, and how long to wait between two looks.
-/

namespace AgentSupervisor

/-- How often to look, and the wait in milliseconds between two looks. -/
structure RetryPolicy where
  maxAttempts : UInt32
  delay : UInt64
  deriving Repr, DecidableEq

namespace RetryPolicy

/-- One look and no wait. -/
def single : RetryPolicy := ⟨1, 0⟩

/-- The number of looks: at least one, whatever the policy says. -/
def attempts (p : RetryPolicy) : Nat := max 1 p.maxAttempts.toNat

end RetryPolicy

end AgentSupervisor
