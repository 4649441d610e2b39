import Mathlib
import Hotload.Proofs.Module.Invariants

/-!
# Module systems are silent

Programs and the module system write to the log and to the files, but they tell nobody how a load
has come out: they deliver nothing, and no failure is in the log because of them. Whatever is told
of a load comes from those who asked for it.

* `World.outcomes`: what has been told of the outcomes of loads.
* `ModuleSystem.outcomes_load`, `ModuleSystem.outcomes_release`: loads and releases tell nothing.
-/

namespace Hotload

/-- The entry is about a failure. -/
def LogEntry.isFailure : LogEntry → Bool
  | .failure .. => true
  | _ => false

namespace World

/-- What has been told of the outcomes of loads: the deliveries, and the failures in the log. The
latest stands first in both. -/
def outcomes (w : World) : List Delivery × List LogEntry :=
  (w.deliveries, w.log.entries.filter (·.isFailure))

@[simp] theorem outcomes_note (w : World) (part message : String) :
    (w.note part message).outcomes = w.outcomes := rfl

@[simp] theorem outcomes_debug (w : World) (part message : String) :
    (w.debug part message).outcomes = w.outcomes := by
  have hlog : (w.log.debug part message).entries.filter (·.isFailure) =
      w.log.entries.filter (·.isFailure) := by
    unfold Log.debug
    split
    · rfl
    · rfl
  exact Prod.ext rfl hlog

@[simp] theorem outcomes_success (w : World) (message : String) :
    (w.mapLog (·.success message)).outcomes = w.outcomes := rfl

@[simp] theorem outcomes_withFiles (w : World) (files : FileTree) :
    { w with files }.outcomes = w.outcomes := rfl

end World

/-! ## The cache -/

theorem DirectoryStore.outcomes_get (key : Digest) (store : DirectoryStore) (w : World) :
    (store.get key w).2.2.outcomes = w.outcomes := by
  unfold get
  split
  · rfl
  · rfl
  · split
    · rfl
    · split
      · rfl
      · exact w.outcomes_debug _ _

theorem DirectoryStore.outcomes_put (key : Digest) (compiled : Compiled) (store : DirectoryStore)
    (w : World) : (store.put key compiled w).2.2.outcomes = w.outcomes := by
  unfold put
  split
  · rfl
  · split
    · rfl
    · exact World.outcomes_debug _ _ _

theorem Shelf.outcomes_get (key : Digest) (store : Shelf) (w : World) :
    (CacheStore.get key store w).2.2.outcomes = w.outcomes := by
  cases store with
  | none => rfl
  | memory store => rfl
  | directory store => exact store.outcomes_get key w

theorem Shelf.outcomes_put (key : Digest) (compiled : Compiled) (store : Shelf) (w : World) :
    (CacheStore.put key compiled store w).2.2.outcomes = w.outcomes := by
  cases store with
  | none => rfl
  | memory store => rfl
  | directory store => exact store.outcomes_put key compiled w

namespace CompileCache

theorem outcomes_compile (cache : CompileCache Shelf) (key : Digest) (p : Path) (source : String)
    (w : World) : (cache.compile key p source w).2.2.outcomes = w.outcomes := by
  unfold compile
  split
  · rfl
  · rename_i compiled _
    have hput := Shelf.outcomes_put key compiled cache.store
      (w.debug "cache" ("compiled " ++ p.text ++ " (" ++ key.short ++ ")"))
    dsimp only
    split
    · exact hput.trans (w.outcomes_debug _ _)
    · exact hput.trans (w.outcomes_debug _ _)

theorem outcomes_obtain (cache : CompileCache Shelf) (p : Path) (source : String) (w : World) :
    (cache.obtain p source w).2.2.outcomes = w.outcomes := by
  unfold obtain
  dsimp only
  split
  · exact w.outcomes_debug _ _
  · have hget := Shelf.outcomes_get (Digest.ofText source) cache.store w
    split
    · exact (World.outcomes_debug _ _ _).trans hget
    · exact (outcomes_compile _ _ _ _ _).trans hget
    · exact (outcomes_compile _ _ _ _ _).trans hget

theorem outcomes_load (cache : CompileCache Shelf) (p : Path) (w : World) :
    (cache.load p w).2.2.outcomes = w.outcomes := by
  unfold load
  split
  · rfl
  · split
    · rfl
    · rename_i source _ _
      have hobtain := cache.outcomes_obtain p source w
      split
      · rename_i hw
        rwa [hw] at hobtain
      · rename_i hw
        rwa [hw] at hobtain

end CompileCache

/-! ## The module system -/

theorem Watcher.outcomes_announce (watcher : Watcher) (p : Path) (w : World) :
    (watcher.announce p w).outcomes = w.outcomes := by
  unfold announce
  split
  · rfl
  · split
    · exact w.outcomes_debug _ _
    · rfl

namespace ModuleSystem

variable {m : Machine ModuleSystem}

theorem outcomes_watched (p : Path) (e : Outside) :
    (watched p e).1.outcomes = e.1.outcomes := by
  by_cases hold : e.2.watcher.isWatched p = true
  · simp [watched, Watcher.watch, hold]
  · simpa [watched, Watcher.watch, hold] using e.2.watcher.outcomes_announce p e.1

theorem outcomes_release (m : Machine ModuleSystem) :
    (release.after m).world.outcomes = m.world.outcomes := by
  let count := m.host.registry.retired.length
  let tell : Run ModuleSystem Unit :=
    Run.modifyWorld (·.debug "module" ("released " ++ toString count ++ " retired module scopes"))
  have hafter : release.after m =
      (if count ≠ 0 then tell >>= fun _ => pure count else pure count : Run ModuleSystem Nat).after
        { m with
          heap := (m.host.registry.release m.heap).2
          host := { m.host with registry := (m.host.registry.release m.heap).1 } } := rfl
  rw [hafter]
  split
  · exact m.world.outcomes_debug _ _
  · rfl

/-- Just this has been told of the outcomes of loads, and the options are these. -/
structure Told (options : Options) (told : List Delivery × List LogEntry) (e : Outside) : Prop where
  options : e.2.options = options
  outcomes : e.1.outcomes = told

variable {options : Options} {told : List Delivery × List LogEntry} {e : Outside}

theorem Told.watched (h : Told options told e) (p : Path) : Told options told (watched p e) :=
  ⟨(sameModules_watched p e).options.trans h.options, (outcomes_watched p e).trans h.outcomes⟩

theorem Told.program (h : Told options told (m.world, m.host)) (p : Path) :
    Told options told (((program p).after m).world, ((program p).after m).host) := by
  cases hkept : m.host.registry.compiled? p with
  | some body =>
    rw [Run.after, run_program_kept hkept]
    exact h
  | none =>
    have hcode : Told options told (((code p).after m).world, ((code p).after m).host) := by
      rw [after_code]
      exact ⟨h.options, (m.host.cache.outcomes_load p m.world).trans h.outcomes⟩
    have hafter : (ModuleSystem.program p).after m = (code p >>= parsed p).after m :=
      congrArg Prod.snd (run_program_new hkept)
    rw [hafter]
    cases hout : (code p).outcome m with
    | error e => rwa [Run.after_bind_error hout]
    | ok text =>
      rw [Run.after_bind_ok hout, parsed]
      split
      · exact hcode
      · exact ⟨hcode.options, hcode.outcomes⟩

theorem Told.release (h : Told options told (m.world, m.host)) :
    Told options told ((release.after m).world, (release.after m).host) := by
  obtain ⟨world, -, hrelease⟩ := run_release m
  refine ⟨?_, (outcomes_release m).trans h.outcomes⟩
  rw [Run.after, hrelease]
  exact h.options

theorem steps_told (options : Options) (told : List Delivery × List LogEntry) :
    SystemSteps Set.univ options (Told options told) where
  sameFiles _ := trivial
  sameOptions h := h.options
  log h part message := ⟨h.options, (World.outcomes_debug _ part message).trans h.outcomes⟩
  watch h p := h.watched p
  setScope h _ _ := ⟨h.options, h.outcomes⟩
  setExports h _ _ := ⟨h.options, h.outcomes⟩
  removeExports h _ := ⟨h.options, h.outcomes⟩
  withCore h _ := ⟨h.options, h.outcomes⟩
  program h _ := h.program _
  release h := h.release

/-- A load tells nobody how it or anything else has come out. -/
theorem outcomes_load (p : Path) (m : Machine ModuleSystem) :
    ((load p).after m).world.outcomes = m.world.outcomes :=
  have hserved : (Request.load p).IsServed := trivial
  ((steps_told m.host.options m.world.outcomes).serve (m := m) ⟨rfl, rfl⟩ hserved).1.outcomes

end ModuleSystem

end Hotload
