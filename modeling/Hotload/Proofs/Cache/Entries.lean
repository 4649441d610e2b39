import Mathlib
import Hotload.Cache.CompileCache
import Hotload.Proofs.Module.Registry

/-!
# Entries of a compile cache

What is found in the places where a cache keeps things, after each operation on them.

* `SourceMaps.find?_insert`, `SourceMaps.find?_remove`: the source map of a file.
* `MemoryStore.find?_insert`: the entry under a digest.
* `Shelf.get_eq`, `Shelf.put_eq`: stores that keep their entries in memory, or nothing at all.
* `CompileCache.find?_register`: the source map of a file that was loaded.
* `CompileCache.load_inMemory`: what loads leave alone.
* `Compiler.PathBlind`: compilers that do not look at paths.
-/

namespace Hotload

/-! ## Source maps and stores -/

namespace SourceMaps

variable {p q : Path}

theorem find?_congr (maps : SourceMaps) (h : p.same q = true) : maps.find? p = maps.find? q := by
  simp only [find?, Path.same_right h]

theorem find?_remove (maps : SourceMaps) (p q : Path) :
    (maps.remove p).find? q = if p.same q then none else maps.find? q := by
  simp only [find?, remove, List.find?_filter]
  split
  next hpq =>
    rw [Option.map_eq_none_iff, List.find?_eq_none]
    intro entry _
    rw [Path.same_right hpq]
    cases entry.1.same q <;> simp
  next hpq =>
    congr 2
    funext entry
    cases hq : entry.1.same q with
    | false => simp
    | true =>
      have hp : entry.1.same p = false := by
        rw [Path.same_left hq, Path.same_comm]
        simpa using hpq
      simp [hp]

theorem find?_insert (maps : SourceMaps) (p : Path) (m : SourceMap) (q : Path) :
    (maps.insert p m).find? q = if p.same q then some m else maps.find? q := by
  have hcons : (maps.insert p m).find? q =
      if p.same q then some m else (maps.remove p).find? q := by
    simp only [find?, insert, List.find?_cons]
    cases p.same q <;> rfl
  rw [hcons, find?_remove]
  split <;> rfl

end SourceMaps

theorem MemoryStore.find?_insert (store : MemoryStore) (key : Digest) (c : Compiled) (k : Digest) :
    (store.insert key c).find? k = if k = key then some c else store.find? k := by
  simp only [find?, insert, List.lookup_cons]
  by_cases hk : k = key
  · simp [hk]
  · rw [if_neg hk, beq_false_of_ne hk]
    change List.lookup k (store.entries.filter (·.1 ≠ key)) = List.lookup k store.entries
    induction store.entries with
    | nil => rfl
    | cons entry entries ih =>
      obtain ⟨l, d⟩ := entry
      by_cases hl : l = key
      · rw [List.filter_cons_of_neg (by simpa using hl), ih, List.lookup_cons,
          beq_false_of_ne (hl ▸ hk)]
      · rw [List.filter_cons_of_pos (by simpa using hl), List.lookup_cons, List.lookup_cons, ih]

namespace Shelf

/-- The entry that is kept in memory under a digest. -/
def kept? : Shelf → Digest → Option Compiled
  | .memory store, key => store.find? key
  | .none, _ => Option.none
  | .directory _, _ => Option.none

/-- Entries are kept in memory or not at all. -/
def InMemory : Shelf → Prop
  | .directory _ => False
  | .none => True
  | .memory _ => True

/-- The store with another entry, if it keeps any. -/
def adding (key : Digest) (c : Compiled) : Shelf → Shelf
  | .memory store => .memory (store.insert key c)
  | shelf => shelf

variable {shelf : Shelf} {key k : Digest} {c d : Compiled}

theorem get_eq (h : shelf.InMemory) (key : Digest) (w : World) :
    CacheStore.get key shelf w = (.ok (shelf.kept? key), shelf, w) := by
  cases shelf with
  | none => rfl
  | memory store => rfl
  | directory store => exact h.elim

theorem put_eq (h : shelf.InMemory) (key : Digest) (c : Compiled) (w : World) :
    CacheStore.put key c shelf w = (.ok (), shelf.adding key c, w) := by
  cases shelf with
  | none => rfl
  | memory store => rfl
  | directory store => exact h.elim

theorem InMemory.adding (h : shelf.InMemory) : (shelf.adding key c).InMemory := by
  cases shelf with
  | none => trivial
  | memory store => trivial
  | directory store => exact h.elim

theorem kept?_adding_of_ne (h : k ≠ key) : (shelf.adding key c).kept? k = shelf.kept? k := by
  cases shelf with
  | none => rfl
  | memory store => exact (MemoryStore.find?_insert store key c k).trans (if_neg h)
  | directory store => rfl

/-- An entry is the one that was added, or one that was there before. -/
theorem of_kept?_adding (h : (shelf.adding key c).kept? k = some d) :
    k = key ∧ d = c ∨ k ≠ key ∧ shelf.kept? k = some d := by
  by_cases hk : k = key
  · cases shelf with
    | none => cases h
    | memory store =>
      have hsome : (store.insert key c).find? k = some d := h
      rw [MemoryStore.find?_insert, if_pos hk] at hsome
      cases hsome
      exact .inl ⟨hk, rfl⟩
    | directory store => cases h
  · rw [kept?_adding_of_ne hk] at h
    exact .inr ⟨hk, h⟩

end Shelf

/-! ## Loading -/

namespace CompileCache

theorem find?_register (mode : SourceMapMode) (p : Path) (c : Compiled) (maps : SourceMaps)
    (q : Path) : (register mode p c maps).find? q =
      if p.same q then (if mode.isEnabled then c.map else none) else maps.find? q := by
  unfold register
  cases c.map with
  | none =>
    rw [SourceMaps.find?_remove]
    simp
  | some map =>
    cases hmode : mode.isEnabled with
    | false => simpa [hmode] using SourceMaps.find?_remove maps p q
    | true => simpa [hmode] using SourceMaps.find?_insert maps p map q

section

variable {cache : CompileCache Shelf} (h : cache.store.InMemory)

include h

theorem obtain_inMemory (p : Path) (text : String) (w : World) :
    (cache.obtain p text w).2.1.store.InMemory ∧ (cache.obtain p text w).2.2.files = w.files := by
  unfold obtain
  dsimp only
  cases cache.memo.find? (Digest.ofText text) with
  | some c => exact ⟨h, rfl⟩
  | none =>
    simp only [Shelf.get_eq h]
    cases cache.store.kept? (Digest.ofText text) with
    | some c => exact ⟨h, rfl⟩
    | none =>
      dsimp only [compile]
      cases cache.compiler p text true with
      | error e => exact ⟨h, rfl⟩
      | ok c =>
        simp only [Shelf.put_eq h]
        exact ⟨h.adding, rfl⟩

/-- A cache whose store is in memory changes no files. -/
theorem load_inMemory (p : Path) (w : World) :
    (cache.load p w).2.1.store.InMemory ∧ (cache.load p w).2.2.files = w.files := by
  unfold load
  cases w.files.read p with
  | error e => exact ⟨h, rfl⟩
  | ok text =>
    dsimp only
    split
    · exact ⟨h, rfl⟩
    · have hobtain := obtain_inMemory h p text w
      generalize cache.obtain p text w = result at hobtain ⊢
      obtain ⟨e | c, cache', w'⟩ := result
      · exact hobtain
      · exact hobtain

end

end CompileCache

/-- What is made of a text does not depend on the file that it stands in. -/
def Compiler.PathBlind (compiler : Compiler) : Prop :=
  ∀ p q text c, compiler p text true = .ok c → compiler q text true = .ok c

end Hotload
