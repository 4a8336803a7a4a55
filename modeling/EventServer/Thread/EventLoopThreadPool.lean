import EventServer.Support.Machine

/-!
# The pool of io loops

A pool of `threadNum` loops hands them out in turn.  A loop is its position in
`loopThreadVector_`.
-/

namespace EventServer.Thread

open EventServer.Support

structure EventLoopThreadPool where
  threadNum : ℕ
  loopIndex_ : ℕ
  deriving DecidableEq, Repr

namespace EventLoopThreadPool

/-- `getNextLoop()`: the loop, or a null pointer, and the pool with its
counter advanced. -/
def getNextLoop (pool : EventLoopThreadPool) :
    Option ℕ × EventLoopThreadPool :=
  if 0 < pool.threadNum
  then
    (some (pool.loopIndex_ % pool.threadNum),
      { pool with loopIndex_ := sizeAdd pool.loopIndex_ 1 })
  else (none, pool)

end EventLoopThreadPool

end EventServer.Thread
