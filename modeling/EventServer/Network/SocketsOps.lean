import Mathlib.Tactic

/-!
# Results of the socket system calls

The wrappers of `SocketsOps.cc` pass the result of a system call through
unchanged.  The kernel is the environment of the model: each call of `readv`
or `write` is answered by one of the results below.
-/

namespace EventServer.Network

/-- The values of `errno` that the network code tells apart. -/
inductive Errno where
  | EWOULDBLOCK
  | EPIPE
  | ECONNRESET
  | EMFILE
  | other (code : ℕ)
  deriving DecidableEq, Repr

/-- A `readv` either stores bytes, in order, in the areas it was given (none
at end of file), or fails. -/
inductive ReadvResult where
  | stored (bytes : List UInt8)
  | failed (errno : Errno)
  deriving DecidableEq, Repr

/-- A `write` either accepts the first `n` bytes it was given, or fails. -/
inductive WriteResult where
  | wrote (n : ℕ)
  | failed (errno : Errno)
  deriving DecidableEq, Repr

/-- The bytes that a `readv` has taken from the socket. -/
def ReadvResult.bytes : ReadvResult → List UInt8
  | .stored bytes => bytes
  | .failed _ => []

namespace WriteResult

/-- How many bytes the `write` has accepted. -/
def acceptedLength : WriteResult → ℕ
  | .wrote n => n
  | .failed _ => 0

/-- The answers of `write(fd, data, len)` on a connection without a fault. -/
def NoFault : WriteResult → ℕ → Prop
  | .wrote n, len => n ≤ len
  | .failed errno, _ => errno = .EWOULDBLOCK

instance : ∀ (write : WriteResult) (len : ℕ), Decidable (write.NoFault len)
  | .wrote n, len => inferInstanceAs (Decidable (n ≤ len))
  | .failed errno, _ => inferInstanceAs (Decidable (errno = .EWOULDBLOCK))

end WriteResult

end EventServer.Network
