import BlockStack.Fault

/-!
# BlockStack.Retry

Asking again when a fault may pass.

* `RetryPolicy`: how often and how long a backend is asked; there is always one attempt
  (`RetryPolicy.attempts_pos`).
* `Pauses`: how long is waited between attempts. Pauses are drawn at random around an interval, so
  any may come up; `RetryPolicy.pauses` are the intervals themselves.
* `tryAgain`: an operation repeated until it succeeds, fails for good, or was tried often enough.
-/

namespace BlockStack

/-- The pauses in milliseconds of the reports of a batch, each after a number of failed attempts. -/
abbrev Pauses := (report failed : Nat) → Nat

/-- How often and how long a backend is asked. -/
structure RetryPolicy where
  maxAttempts : UInt32 := 3
  initialIntervalMs : UInt64 := 200
  maxIntervalMs : UInt64 := 2000
  callTimeoutMs : UInt64 := 30000
  deriving DecidableEq, Repr, Inhabited

namespace RetryPolicy

/-- How many attempts there are at most; there is always one. -/
def attempts (policy : RetryPolicy) : Nat := max 1 policy.maxAttempts.toNat

/-- The interval in milliseconds around which a pause is drawn after a number of failed attempts.
Each interval is half as long again as the one before, up to the longest. -/
def interval (policy : RetryPolicy) : (failed : Nat) → Nat
  | 0 => min policy.initialIntervalMs.toNat policy.maxIntervalMs.toNat
  | failed + 1 => min (policy.interval failed * 3 / 2) policy.maxIntervalMs.toNat

/-- Pauses of just the intervals, for any report. -/
def pauses (policy : RetryPolicy) : Pauses := fun _ failed => policy.interval failed

theorem attempts_pos (policy : RetryPolicy) : 0 < policy.attempts := by
  unfold attempts
  omega

end RetryPolicy

/-- Try an operation until it succeeds or fails for good, at most `more` times after the first. -/
def tryAgain {σ α : Type} (attempt : σ → Except Fault α × σ) : (more : Nat) → σ → Except Fault α × σ
  | 0, s => attempt s
  | more + 1, s =>
    match attempt s with
    | (.ok a, s) => (.ok a, s)
    | (.error fault, s) => if fault.isTransient then tryAgain attempt more s else (.error fault, s)

end BlockStack
