import Hotload.Cache.Store
import Hotload.Options

/-!
# The compile cache

Compiled modules by the digests of their sources: a text that was compiled before is not compiled
again, whatever file it stands in. Files of dependencies are code already.

* `CompileCache.load`: the code of a file, with its source map registered.
-/

namespace Hotload

/-- The compiler with all it has compiled, the store behind it, and the source maps of the files
that were loaded. -/
structure CompileCache (σ : Type) where
  compiler : Compiler
  store : σ
  memo : MemoryStore
  mode : SourceMapMode
  resolve : ResolveOptions
  /-- How many times the compiler has succeeded. -/
  transforms : Nat
  maps : SourceMaps

namespace CompileCache

variable {σ : Type} [CacheStore σ]

/-- A cache that has loaded nothing. -/
def new (compiler : Compiler) (store : σ) (options : Options) : CompileCache σ :=
  ⟨compiler, store, .empty, options.sourceMap, options.resolve, 0, .empty⟩

/-- Compiles a source and keeps the result in memory and, if it can, in the store. -/
def compile (cache : CompileCache σ) (key : Digest) (p : Path) (source : String) (w : World) :
    Except CompileError Compiled × CompileCache σ × World :=
  match cache.compiler p source true with
  | .error e => (.error e, cache, w)
  | .ok compiled =>
    let w := w.debug "cache" ("compiled " ++ p.text ++ " (" ++ key.short ++ ")")
    let (answer, store, w) := CacheStore.put key compiled cache.store w
    let w := match answer with
      | .ok () => w
      | .error e => w.note "cache" ("failed to write entry " ++ key.short ++ ": " ++ e.message)
    (.ok compiled,
      { cache with store, memo := cache.memo.insert key compiled, transforms := cache.transforms + 1 },
      w)

/-- The compiled form of a source: from memory, from the store, or from the compiler. -/
def obtain (cache : CompileCache σ) (p : Path) (source : String) (w : World) :
    Except CompileError Compiled × CompileCache σ × World :=
  let key := Digest.ofText source
  match cache.memo.find? key with
  | some compiled =>
    (.ok compiled, cache, w.debug "cache" ("memory hit " ++ key.short ++ " for " ++ p.text))
  | none =>
    let (answer, store, w) := CacheStore.get key cache.store w
    let cache := { cache with store }
    match answer with
    | .ok (some compiled) =>
      (.ok compiled, { cache with memo := cache.memo.insert key compiled },
        w.debug "cache" ("store hit " ++ key.short ++ " for " ++ p.text))
    | .ok none => cache.compile key p source w
    | .error e =>
      cache.compile key p source
        (w.note "cache" ("failed to read entry " ++ key.short ++ ": " ++ e.message))

/-- The code to run: in inline mode with the source map behind it. -/
def finish (mode : SourceMapMode) (compiled : Compiled) : String :=
  match mode, compiled.map with
  | .inline, some map => compiled.code ++ "\n" ++ map.inlineComment
  | _, _ => compiled.code

/-- The source maps after a file was loaded: with its own, or without one. -/
def register (mode : SourceMapMode) (p : Path) (compiled : Compiled) (maps : SourceMaps) :
    SourceMaps :=
  match compiled.map with
  | some map => if mode.isEnabled then maps.insert p map else maps.remove p
  | none => maps.remove p

/-- The code of a file. A file of a dependency is its own code and has no source map. -/
def load (cache : CompileCache σ) (p : Path) (w : World) :
    Except LoadError String × CompileCache σ × World :=
  match w.files.read p with
  | .error e => (.error (.read p (.file e)), cache, w)
  | .ok source =>
    if cache.resolve.isDependency p then (.ok source, cache, w)
    else
      match cache.obtain p source w with
      | (.error e, cache, w) => (.error (.compile e), cache, w)
      | (.ok compiled, cache, w) =>
        (.ok (finish cache.mode compiled),
          { cache with maps := register cache.mode p compiled cache.maps }, w)

end CompileCache

end Hotload
