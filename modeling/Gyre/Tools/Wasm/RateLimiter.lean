/- digest: Rate limiting for the calls of WASM tools, by a window of a minute and one of an hour. -/

set_option autoImplicit false
set_option relaxedAutoImplicit false

namespace Gyre.Tools.Wasm

structure RateLimitConfig where
  requestsPerMinute : Nat
  requestsPerHour : Nat
  deriving DecidableEq

inductive LimitType where
  | perMinute
  | perHour
  deriving DecidableEq, Repr

/-- Result of a rate limit check. -/
inductive RateLimitResult where
  | allowed (remainingMinute remainingHour : Nat)
  | limited (retryAfter : Nat) (limitType : LimitType)
  deriving DecidableEq, Repr

def RateLimitResult.isAllowed : RateLimitResult → Bool
  | .allowed _ _ => true
  | .limited _ _ => false

/-- `Duration::from_secs`; instants and durations are in nanoseconds. -/
def fromSecs (n : Nat) : Nat := n * 1000000000

structure WindowState where
  windowStart : Nat
  count : Nat
  deriving DecidableEq, Repr

namespace WindowState

def new (now : Nat) : WindowState := ⟨now, 0⟩

/-- `window_start.elapsed()`, which saturates. -/
def elapsed (w : WindowState) (now : Nat) : Nat := now - w.windowStart

def maybeReset (w : WindowState) (now windowDuration : Nat) : WindowState :=
  if windowDuration ≤ w.elapsed now then ⟨now, 0⟩ else w

def timeUntilReset (w : WindowState) (now windowDuration : Nat) : Nat :=
  if windowDuration ≤ w.elapsed now then 0 else windowDuration - w.elapsed now

end WindowState

structure ToolRateLimitState where
  minuteWindow : WindowState
  hourWindow : WindowState
  deriving DecidableEq, Repr

def ToolRateLimitState.new (now : Nat) : ToolRateLimitState := ⟨.new now, .new now⟩

/-- Both windows after those that have expired were reset. -/
def ToolRateLimitState.reset (s : ToolRateLimitState) (now : Nat) : ToolRateLimitState :=
  ⟨s.minuteWindow.maybeReset now (fromSecs 60), s.hourWindow.maybeReset now (fromSecs 3600)⟩

/-- The limits checked and the request recorded, once the windows are up to date. -/
def ToolRateLimitState.record (s : ToolRateLimitState) (now : Nat) (config : RateLimitConfig) :
    ToolRateLimitState × RateLimitResult :=
  if config.requestsPerMinute ≤ s.minuteWindow.count then
    (s, .limited (s.minuteWindow.timeUntilReset now (fromSecs 60)) .perMinute)
  else if config.requestsPerHour ≤ s.hourWindow.count then
    (s, .limited (s.hourWindow.timeUntilReset now (fromSecs 3600)) .perHour)
  else
    let minute := { s.minuteWindow with count := s.minuteWindow.count + 1 }
    let hour := { s.hourWindow with count := s.hourWindow.count + 1 }
    (⟨minute, hour⟩,
      .allowed (config.requestsPerMinute - minute.count) (config.requestsPerHour - hour.count))

/-- In-memory rate limiter for WASM tools, with a state for each user and tool. -/
structure RateLimiter where
  state : List Char × List Char → Option ToolRateLimitState

namespace RateLimiter

def new : RateLimiter := ⟨fun _ => none⟩

/-- The state of a tool that a call at this time finds. -/
def opened (l : RateLimiter) (key : List Char × List Char) (now : Nat) : ToolRateLimitState :=
  ((l.state key).getD (.new now)).reset now

/-- `check_and_record`, by one reading of the clock. -/
def checkAndRecord (l : RateLimiter) (now : Nat) (userId toolName : List Char)
    (config : RateLimitConfig) : RateLimiter × RateLimitResult :=
  let key := (userId, toolName)
  let recorded := (l.opened key now).record now config
  (⟨fun other => if other = key then some recorded.1 else l.state other⟩, recorded.2)

end RateLimiter

end Gyre.Tools.Wasm
