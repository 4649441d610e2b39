import Hotload.Watch.Event
import Hotload.World

/-!
# The watcher

The set of files that are watched. A subscriber is asked once for every file; a file that it
refuses counts as watched all the same, and the log tells of it.

* `Watcher.watch`: adds a file.
-/

namespace Hotload

/-- The watched files, and the subscriber with the files that it was asked for. Both lists have the
latest first. -/
structure Watcher where
  /-- Whether a file can be subscribed to; nobody is asked when watching is off. -/
  subscriber : Option (Path → Bool)
  watched : List Path
  asked : List Path

namespace Watcher

/-- No files, and nobody to ask. -/
def disabled : Watcher := ⟨none, [], []⟩

/-- No files yet. -/
def ofSubscriber (accepts : Path → Bool) : Watcher := ⟨some accepts, [], []⟩

/-- The file is watched. -/
def isWatched (watcher : Watcher) (p : Path) : Bool := watcher.watched.any (·.same p)

/-- The number of files. -/
def size (watcher : Watcher) : Nat := watcher.watched.length

/-- The watcher with one more file. -/
def add (watcher : Watcher) (p : Path) : Watcher :=
  { watcher with
    watched := p :: watcher.watched
    asked := if watcher.subscriber.isSome then p :: watcher.asked else watcher.asked }

/-- What the log is told about a new file. -/
def announce (watcher : Watcher) (p : Path) (w : World) : World :=
  match watcher.subscriber with
  | none => w
  | some accepts =>
    if accepts p then w.debug "watch" ("watching " ++ p.text)
    else w.note "watch" (WatchError.refused p).message

/-- Watches a file, unless it is watched already. Says whether it was new. -/
def watch (watcher : Watcher) (p : Path) (w : World) : Bool × Watcher × World :=
  if watcher.isWatched p then (false, watcher, w)
  else (true, watcher.add p, watcher.announce p w)

end Watcher

end Hotload
