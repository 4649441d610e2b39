import Mathlib
import Hotload.Proofs.Cache.Entries
import Hotload.Proofs.Module.Generations
import Hotload.Proofs.Module.Places

/-!
# What files are compiled to

A module system keeps what it has compiled under digests of texts, the source maps of the files that
it has loaded, and the bodies that it has parsed. What it gives is what compiling the file anew gives,
if texts with one digest are one text and the compiler does not look at paths.

* `Setting.codeOf`, `Setting.bodyOf`: the code and the body of a file, compiled anew.
* `Setting.Remembers`: what a cache keeps is right.
* `Setting.Advances`: what loading modules does to bodies and source maps.
* `Setting.parses`: the step that finds and parses a body.
-/

namespace Hotload

open Syntax (Stmt)

/-! ## Compiling anew -/

namespace Setting

variable (x : Setting)

/-- The compiled form of a text: the one in the store, or else the one that the compiler makes. -/
def form (p : Path) (text : String) : Except CompileError Compiled :=
  match x.store.kept? (Digest.ofText text) with
  | some c => .ok c
  | none => x.compiler p text true

/-- The code of a file and its source map. -/
def codeOf (files : FileTree) (p : Path) : Except LoadError (String × Option SourceMap) :=
  match files.read p with
  | .error e => .error (.read p (.file e))
  | .ok text =>
    if x.options.resolve.isDependency p then .ok (text, none)
    else
      match x.form p text with
      | .error e => .error (.compile e)
      | .ok c => .ok (CompileCache.finish x.options.sourceMap c,
          if x.options.sourceMap.isEnabled then c.map else none)

/-- The body of a file and its source map. -/
def bodyOf (files : FileTree) (p : Path) : Except LoadError (List Stmt × Option SourceMap) :=
  match x.codeOf files p with
  | .error e => .error e
  | .ok (code, map) =>
    match Syntax.parseCore code.toList with
    | .error e => .error (.compile (syntaxFailure p code e))
    | .ok body => .ok (body, map)

variable {x} {files files' : FileTree} {p q : Path}

theorem form_of_blind (hblind : Compiler.PathBlind x.compiler) {text : String} {c : Compiled}
    (h : x.form p text = .ok c) (q : Path) : x.form q text = .ok c := by
  unfold form at h ⊢
  split at h
  · exact h
  · exact hblind p q text c h

theorem isDependency_of_same (options : ResolveOptions) (h : q.same p = true) :
    options.isDependency q = options.isDependency p := by
  rw [ResolveOptions.isDependency, ResolveOptions.isDependency, of_decide_eq_true h]

/-- The body of a file depends on its text only, and on whether it belongs to a dependency. -/
theorem bodyOf_of_same (hblind : Compiler.PathBlind x.compiler) (hqp : q.same p = true)
    (hread : ∀ text, files.read q = .ok text → files'.read p = .ok text)
    {r : List Stmt × Option SourceMap} (h : x.bodyOf files q = .ok r) :
    x.bodyOf files' p = .ok r := by
  have hcode : ∀ c, x.codeOf files q = .ok c → x.codeOf files' p = .ok c := by
    intro c hc
    unfold codeOf at hc ⊢
    split at hc
    · cases hc
    next text htext =>
      simp only [hread text htext]
      rw [isDependency_of_same _ hqp] at hc
      split at hc
      next hdependency => rw [if_pos hdependency, hc]
      next hdependency =>
        rw [if_neg hdependency]
        split at hc
        · cases hc
        next compiled hform =>
          rw [form_of_blind hblind hform p]
          exact hc
  unfold bodyOf at h ⊢
  split at h
  · cases h
  next code map hq =>
    rw [hcode _ hq]
    dsimp only
    split at h
    · cases h
    · exact h

/-! ## What a cache keeps -/

/-- A cache with the compiler, the options and the store of a setting holds for the given texts what
they are compiled to. -/
structure Remembers (x : Setting) (texts : Set String) (cache : CompileCache Shelf) : Prop where
  compiler : cache.compiler = x.compiler
  mode : cache.mode = x.options.sourceMap
  resolve : cache.resolve = x.options.resolve
  shelf : cache.store.InMemory
  kept : ∀ key c, x.store.kept? key = some c → cache.store.kept? key = some c
  right : ∀ key c, cache.memo.find? key = some c ∨ cache.store.kept? key = some c →
    ∀ text ∈ texts, Digest.ofText text = key → ∀ p, x.form p text = .ok c

/-- A new cache. -/
theorem remembers_new (hstore : x.store.InMemory) (texts : Set String) :
    x.Remembers texts (.new x.compiler x.store x.options) where
  compiler := rfl
  mode := rfl
  resolve := rfl
  shelf := hstore
  kept _ _ h := h
  right key c h text _ htext p := by
    rcases h with h | h
    · cases h
    · have hkept : x.store.kept? (Digest.ofText text) = some c := by rwa [htext]
      simp only [form, hkept]

variable {texts : Set String} {cache : CompileCache Shelf}

/-- Another compiled form is kept. -/
theorem Remembers.insert (h : x.Remembers texts cache) {key : Digest} {c : Compiled}
    (hright : ∀ text ∈ texts, Digest.ofText text = key → ∀ p, x.form p text = .ok c) :
    x.Remembers texts { cache with memo := cache.memo.insert key c } where
  compiler := h.compiler
  mode := h.mode
  resolve := h.resolve
  shelf := h.shelf
  kept := h.kept
  right k d hk text htext hdigest p := by
    rcases hk with hk | hk
    · rw [MemoryStore.find?_insert] at hk
      split at hk
      next hkey =>
        cases hk
        exact hright text htext (hdigest.trans hkey) p
      next => exact h.right k d (.inl hk) text htext hdigest p
    · exact h.right k d (.inr hk) text htext hdigest p

/-- Another compiled form goes to the store. -/
theorem Remembers.put (h : x.Remembers texts cache) {key : Digest} {c : Compiled}
    (hright : ∀ text ∈ texts, Digest.ofText text = key → ∀ p, x.form p text = .ok c)
    (hnew : cache.store.kept? key = none) :
    x.Remembers texts { cache with store := cache.store.adding key c } where
  compiler := h.compiler
  mode := h.mode
  resolve := h.resolve
  shelf := h.shelf.adding
  kept k d hk := by
    have hkept := h.kept k d hk
    refine (Shelf.kept?_adding_of_ne ?_).trans hkept
    rintro rfl
    rw [hnew] at hkept
    cases hkept
  right k d hk text htext hdigest p := by
    rcases hk with hk | hk
    · exact h.right k d (.inl hk) text htext hdigest p
    · rcases Shelf.of_kept?_adding hk with ⟨rfl, rfl⟩ | ⟨-, hk⟩
      · exact hright text htext hdigest p
      · exact h.right k d (.inr hk) text htext hdigest p

/-- What a cache does for a text. -/
structure Obtains (x : Setting) (texts : Set String) (p : Path) (text : String)
    (cache : CompileCache Shelf) (w : World)
    (result : Except CompileError Compiled × CompileCache Shelf × World) : Prop where
  outcome : result.1 = x.form p text
  remembers : x.Remembers texts result.2.1
  maps : result.2.1.maps = cache.maps
  files : result.2.2.files = w.files

/-- The compiled form of a text is what compiling it anew gives. -/
theorem Remembers.obtain (h : x.Remembers texts cache) (hblind : Compiler.PathBlind x.compiler)
    (hinj : Set.InjOn Digest.ofText texts) {text : String} (htext : text ∈ texts) (p : Path)
    (w : World) : x.Obtains texts p text cache w (cache.obtain p text w) := by
  unfold CompileCache.obtain
  dsimp only
  cases hmemo : cache.memo.find? (Digest.ofText text) with
  | some c => exact ⟨(h.right _ c (.inl hmemo) text htext rfl p).symm, h, rfl, rfl⟩
  | none =>
    simp only [Shelf.get_eq h.shelf]
    cases hstore : cache.store.kept? (Digest.ofText text) with
    | some c =>
      have hright := h.right _ c (.inr hstore)
      exact ⟨(hright text htext rfl p).symm, h.insert hright, rfl, rfl⟩
    | none =>
      have hform : ∀ q, x.form q text = x.compiler q text true := by
        intro q
        have hnone : x.store.kept? (Digest.ofText text) = none := by
          cases hkept : x.store.kept? (Digest.ofText text) with
          | none => rfl
          | some c =>
            rw [h.kept _ c hkept] at hstore
            cases hstore
        simp only [form, hnone]
      have hcompiler : cache.compiler p text true = x.compiler p text true := by rw [h.compiler]
      dsimp only [CompileCache.compile]
      rw [hcompiler]
      cases hcompiled : x.compiler p text true with
      | error e => exact ⟨((hform p).trans hcompiled).symm, h, rfl, rfl⟩
      | ok c =>
        simp only [Shelf.put_eq h.shelf]
        have hright : ∀ other ∈ texts, Digest.ofText other = Digest.ofText text →
            ∀ q, x.form q other = .ok c := by
          intro other hother hdigest q
          rw [hinj hother htext hdigest, hform q]
          exact hblind p q text c hcompiled
        have hkept := (h.put hright hstore).insert hright
        exact ⟨((hform p).trans hcompiled).symm,
          ⟨hkept.compiler, hkept.mode, hkept.resolve, hkept.shelf, hkept.kept, hkept.right⟩, rfl, rfl⟩

/-- What a cache does for a file. -/
structure Loads (x : Setting) (texts : Set String) (p : Path) (cache : CompileCache Shelf)
    (w : World) (result : Except LoadError String × CompileCache Shelf × World) : Prop where
  outcome : result.1 = (x.codeOf w.files p).map Prod.fst
  remembers : x.Remembers texts result.2.1
  files : result.2.2.files = w.files
  /-- The source maps of other files stay. -/
  others : ∀ q, ¬ p.same q = true → result.2.1.maps.find? q = cache.maps.find? q
  /-- The file has its own source map; one of a dependency has none. -/
  map : ∀ code map, x.codeOf w.files p = .ok (code, map) →
    (x.options.resolve.isDependency p = true → cache.maps.find? p = none) →
    result.2.1.maps.find? p = map
  dependencies : x.options.resolve.isDependency p = true → result.2.1.maps = cache.maps

/-- The code of a file is what compiling it anew gives. -/
theorem Remembers.load (h : x.Remembers texts cache) (hblind : Compiler.PathBlind x.compiler)
    (hinj : Set.InjOn Digest.ofText texts) {w : World} {p : Path}
    (htexts : ∀ text, w.files.read p = .ok text → text ∈ texts) :
    x.Loads texts p cache w (cache.load p w) := by
  unfold CompileCache.load
  cases hread : w.files.read p with
  | error e =>
    have hcode : x.codeOf w.files p = .error (.read p (.file e)) := by simp only [codeOf, hread]
    exact ⟨by rw [hcode]; rfl, h, rfl, fun _ _ => rfl, fun _ _ hc => (by rw [hcode] at hc; cases hc),
      fun _ => rfl⟩
  | ok text =>
    dsimp only
    rw [h.resolve]
    by_cases hdependency : x.options.resolve.isDependency p = true
    · have hcode : x.codeOf w.files p = .ok (text, none) := by
        simp only [codeOf, hread, if_pos hdependency]
      rw [if_pos hdependency]
      refine ⟨by rw [hcode]; rfl, h, rfl, fun _ _ => rfl, fun code map hc hnone => ?_, fun _ => rfl⟩
      rw [hcode] at hc
      cases hc
      exact hnone hdependency
    · rw [if_neg hdependency]
      obtain ⟨hout, hremembers, hmaps, hfiles⟩ := h.obtain hblind hinj (htexts text hread) p w
      generalize cache.obtain p text w = result at hout hremembers hmaps hfiles ⊢
      obtain ⟨outcome, cache', w'⟩ := result
      dsimp only at hout hmaps hfiles hremembers ⊢
      cases hform : x.form p text with
      | error e =>
        rw [hform] at hout
        subst hout
        have hcode : x.codeOf w.files p = .error (.compile e) := by
          simp only [codeOf, hread, if_neg hdependency, hform]
        exact ⟨by rw [hcode]; rfl, hremembers, hfiles, fun _ _ => by rw [← hmaps],
          fun _ _ hc => (by rw [hcode] at hc; cases hc), fun _ => hmaps⟩
      | ok c =>
        rw [hform] at hout
        subst hout
        have hcode : x.codeOf w.files p = .ok (CompileCache.finish x.options.sourceMap c,
            if x.options.sourceMap.isEnabled then c.map else none) := by
          simp only [codeOf, hread, if_neg hdependency, hform]
        refine ⟨?_, ⟨hremembers.compiler, hremembers.mode, hremembers.resolve, hremembers.shelf,
          hremembers.kept, hremembers.right⟩, hfiles, fun q hpq => ?_, fun code map hc _ => ?_,
          fun hd => absurd hd hdependency⟩
        · rw [hcode, ← hremembers.mode]
          rfl
        · exact (CompileCache.find?_register ..).trans (by rw [if_neg hpq, hmaps])
        · rw [hcode] at hc
          cases hc
          refine (CompileCache.find?_register ..).trans ?_
          rw [if_pos (Path.same_refl p), ← hremembers.mode]

end Setting

end Hotload
