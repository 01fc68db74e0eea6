/-!
# Stopwatches

A stopwatch keeps the time at which it was started; the clock is read by the caller.
-/

namespace Sentential

structure Stopwatch where
  start : Int
deriving DecidableEq

namespace Stopwatch

/-- the time since the start -/
def read (w : Stopwatch) (now : Int) : Int := now - w.start

def reset (_ : Stopwatch) (now : Int) : Stopwatch := ⟨now⟩

theorem read_reset (w : Stopwatch) (now later : Int) :
    (w.reset now).read later = later - now := rfl

end Stopwatch

end Sentential
