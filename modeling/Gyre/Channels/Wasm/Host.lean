/- digest: The limiter of the messages a WASM channel emits. -/

set_option autoImplicit false
set_option relaxedAutoImplicit false

namespace Gyre.Channels.Wasm

structure EmitRateLimitConfig where
  messagesPerMinute : Nat
  messagesPerHour : Nat
  deriving DecidableEq

structure RateWindow where
  count : Nat
  windowStart : Nat
  windowDurationMs : Nat
  deriving DecidableEq, Repr

namespace RateWindow

def new (durationMs : Nat) : RateWindow := ⟨0, 0, durationMs⟩

/-- The window after it was reset if it has expired; the subtraction saturates. -/
def reset (w : RateWindow) (nowMs : Nat) : RateWindow :=
  if w.windowDurationMs < nowMs - w.windowStart then { w with count := 0, windowStart := nowMs }
  else w

/-- `check_and_record`. -/
def checkAndRecord (w : RateWindow) (nowMs limit : Nat) : RateWindow × Bool :=
  let w := w.reset nowMs
  if limit ≤ w.count then (w, false) else ({ w with count := w.count + 1 }, true)

end RateWindow

/-- Rate limiter for channel message emission. -/
structure ChannelEmitRateLimiter where
  config : EmitRateLimitConfig
  minuteWindow : RateWindow
  hourWindow : RateWindow
  deriving DecidableEq

namespace ChannelEmitRateLimiter

def new (config : EmitRateLimitConfig) : ChannelEmitRateLimiter := ⟨config, .new 60000, .new 3600000⟩

/-- `check_and_record` at a time in milliseconds: each window is charged on its own. -/
def checkAndRecord (l : ChannelEmitRateLimiter) (now : Nat) : ChannelEmitRateLimiter × Bool :=
  let minute := l.minuteWindow.checkAndRecord now l.config.messagesPerMinute
  let hour := l.hourWindow.checkAndRecord now l.config.messagesPerHour
  ({ l with minuteWindow := minute.1, hourWindow := hour.1 }, minute.2 && hour.2)

end ChannelEmitRateLimiter

end Gyre.Channels.Wasm
