import Hotload.Cache.Record
import Hotload.Digest
import Hotload.World

/-!
# Stores of compiled modules

A store keeps compiled modules under the digests of their sources, for as long as it likes.

* `CacheStore`: what every store can do.
* `DirectoryStore`: one file an entry. A file is written under another name first, so nobody ever
  reads half of it; one that holds no JSON is code without a source map.
* `Process`: the process that writes. Its number is part of the other name, so no two write there.
* `MemoryStore`: entries in memory.
* `Shelf`: one of them or none.
-/

namespace Hotload

/-- What a store can do. Every answer may change the store and the world. -/
class CacheStore (σ : Type) where
  /-- The entry under a digest, if there is one. -/
  get : Digest → σ → World → Except FileError (Option Compiled) × σ × World
  /-- Keeps an entry under a digest. -/
  put : Digest → Compiled → σ → World → Except FileError Unit × σ × World

/-- The process that writes. -/
class Process where
  id : Nat

/-- The process of a program that names none. -/
instance : Process := ⟨1⟩

/-- The directory that a store keeps its files in. -/
structure DirectoryStore where
  dir : Path
deriving DecidableEq, Repr

namespace DirectoryStore

/-- The file of an entry. -/
def entryPath (store : DirectoryStore) (key : Digest) : Path :=
  store.dir.join ⟨key.hex ++ ".json"⟩

/-- Reads an entry. One that is JSON but no record counts as absent. -/
def get (key : Digest) (store : DirectoryStore) (w : World) :
    Except FileError (Option Compiled) × DirectoryStore × World :=
  match w.files.read (store.entryPath key) with
  | .error .notFound => (.ok none, store, w)
  | .error e => (.error e, store, w)
  | .ok text =>
    match Json.parse? text.toList with
    | none => (.ok (some ⟨text, none⟩), store, w)
    | some json =>
      match Compiled.ofJson? json with
      | some compiled => (.ok (some compiled), store, w)
      | none =>
        (.ok none, store,
          w.debug "cache" ("ignoring malformed entry " ++ (store.entryPath key).text ++
            ": no record of a compiled module"))

/-- The file that a process writes first in place of another one. -/
def draftPath [Process] (p : Path) : Path := p.addExtension (toString Process.id ++ ".tmp")

/-- Replaces a file by way of a draft beside it, which does not outlive a failure. -/
def replaceFile [Process] (p : Path) (content : ByteArray) (files : FileTree) :
    Except FileError Unit × FileTree :=
  let draft := draftPath p
  match files.write draft content with
  | .error e => (.error e, files)
  | .ok files =>
    match files.rename draft p with
    | .ok files => (.ok (), files)
    | .error e => (.error e, ((files.removeFile draft).toOption).getD files)

/-- Writes an entry, and makes the directory if it is missing. -/
def put [Process] (key : Digest) (compiled : Compiled) (store : DirectoryStore) (w : World) :
    Except FileError Unit × DirectoryStore × World :=
  match w.files.ensureDirs store.dir with
  | (.error e, files) => (.error e, store, { w with files })
  | (.ok (), files) =>
    match replaceFile (store.entryPath key) compiled.record.toUTF8 files with
    | (.error e, files) => (.error e, store, { w with files })
    | (.ok (), files) =>
      (.ok (), store, { w with files }.debug "cache" ("stored " ++ key.short))

instance [Process] : CacheStore DirectoryStore := ⟨get, put⟩

end DirectoryStore

/-- Entries in memory, the latest first. -/
structure MemoryStore where
  entries : List (Digest × Compiled)

namespace MemoryStore

/-- No entries. -/
def empty : MemoryStore := ⟨[]⟩

/-- The entry under a digest. -/
def find? (store : MemoryStore) (key : Digest) : Option Compiled := store.entries.lookup key

/-- The store with the entry under a digest set. -/
def insert (store : MemoryStore) (key : Digest) (compiled : Compiled) : MemoryStore :=
  ⟨(key, compiled) :: store.entries.filter (·.1 ≠ key)⟩

/-- The number of entries. -/
def size (store : MemoryStore) : Nat := store.entries.length

instance : CacheStore MemoryStore where
  get key store w := (.ok (store.find? key), store, w)
  put key compiled store w := (.ok (), store.insert key compiled, w)

end MemoryStore

/-- A store of either kind, or none. -/
inductive Shelf where
  | none
  | memory (store : MemoryStore)
  | directory (store : DirectoryStore)

instance : CacheStore Shelf where
  get key
    | .none, w => (.ok Option.none, .none, w)
    | .memory store, w =>
      let (answer, store, w) := CacheStore.get key store w
      (answer, .memory store, w)
    | .directory store, w =>
      let (answer, store, w) := CacheStore.get key store w
      (answer, .directory store, w)
  put key compiled
    | .none, w => (.ok (), .none, w)
    | .memory store, w =>
      let (answer, store, w) := CacheStore.put key compiled store w
      (answer, .memory store, w)
    | .directory store, w =>
      let (answer, store, w) := CacheStore.put key compiled store w
      (answer, .directory store, w)

end Hotload
