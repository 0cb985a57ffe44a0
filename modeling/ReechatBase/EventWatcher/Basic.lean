/-!
# EventWatcher

What the tasks see of their `TimerEventWatcher` members (`event_watcher.cpp`). `event_add` is taken
to succeed.
-/

namespace ReechatBase.EventWatcher

/-- A pointer to a `TimerEventWatcher` -/
inductive Timer where
  /-- It is null -/
  | absent
  | idle
  /-- It is registered in libevent -/
  | pending
  deriving DecidableEq

/-- `TimerEventWatcher::AsyncWait`, which registers the timer anew when it is registered already. -/
def Timer.asyncWait : Timer → Timer
  | absent => absent
  | _ => pending

end ReechatBase.EventWatcher
