import Hotload.FileTree

/-!
# Events

What the loader is told while it waits: files that changed, troubles with watching, and the end.

* `Event`: the messages.
* `FileChange.paths`: the files whose content a notice of the file system is about.
-/

namespace Hotload

/-- A trouble with watching files. -/
inductive WatchError where
  | watcher (message : String)
  /-- The file cannot be watched. -/
  | refused (path : Path)
deriving DecidableEq, Repr

/-- The wording of a trouble. -/
def WatchError.message : WatchError → String
  | watcher message => "watcher error: " ++ message
  | refused path => "failed to watch `" ++ path.text ++ "`"

/-- A message to the loader. -/
inductive Event where
  | changed (path : Path)
  | trouble (error : WatchError)
  | shutdown
deriving DecidableEq, Repr

/-- What about a file was modified. -/
inductive Modification where
  | any | content | metadata | name | other
deriving DecidableEq, Repr

/-- What happened to files. -/
inductive FileChange where
  | created
  | modified (what : Modification)
  | removed
  | accessed
  | any
  | other
deriving DecidableEq, Repr

/-- The content of the files may be another one. -/
def FileChange.touchesContent : FileChange → Bool
  | created => true
  | modified what => what ≠ .metadata
  | _ => false

/-- The files that may have another content, by their absolute paths. -/
def FileChange.paths (change : FileChange) (files : FileTree) (ps : List Path) : List Path :=
  if change.touchesContent then ps.map files.normalize else []

end Hotload
