import Hotload.Error
import Hotload.Heap
import Hotload.Log

/-!
# The world outside

What programs and the loader see and change outside of themselves.

* `World`: files, the log, and those who wait for outcomes.
-/

namespace Hotload

/-- What the program handed to those who wait for its outcomes. -/
inductive Delivery where
  /-- A value, with the heap that it referred to at the time. -/
  | value (value : Value) (heap : Heap)
  | report (error : LoadError)

/-- What is outside of the program: files, the log, and those who wait for its outcomes. Deliveries
are kept with the latest first. -/
structure World where
  files : FileTree
  log : Log
  deliveries : List Delivery

namespace World

/-- The world with another log. -/
def mapLog (w : World) (f : Log → Log) : World := { w with log := f w.log }

/-- The world with a line in its log. -/
def note (w : World) (part message : String) : World := w.mapLog (·.note part message)

/-- The world with a line for debugging in its log. -/
def debug (w : World) (part message : String) : World := w.mapLog (·.debug part message)

/-- The world after a delivery. -/
def deliver (w : World) (d : Delivery) : World := { w with deliveries := d :: w.deliveries }

end World

end Hotload
