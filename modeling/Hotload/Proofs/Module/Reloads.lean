import Mathlib
import Hotload.Proofs.Module.Cores
import Hotload.Proofs.Module.Origins

/-!
# Reloads

A module system that has served requests of all kinds loads a file after an invalidation. It is
compared with a new one over the same files, step by step: all that the first one has kept is what
the second one makes anew.

* `Heap.SameGraph`: values on two heaps are the same but for the references.
* `Setting.Faithful`: the bodies that are held are those of the files.
* `Setting.laws_reloading`: the steps of both module systems keep them alongside.
* `Setting.Sane.sameLoad`: both load a file alike.
-/

namespace Hotload

open Syntax (Stmt)
open ModuleSystem

/-! ## The same loads -/

/-- The values are the same but for references, and so is all that they lead to. -/
def Heap.SameGraph (h₁ : Heap) (v : Value) (h₂ : Heap) (w : Value) : Prop :=
  ∃ i : Renaming, v.Paired i.pairing w ∧ Heap.Matches i.pairing h₁ h₂

/-- From both states a file loads with the same exports but for references, or with the same error. -/
def SameLoad (p : Path) (m₁ m₂ : Machine ModuleSystem) : Prop :=
  SameOutcome (fun v w => ((load p).after m₁).heap.SameGraph v ((load p).after m₂).heap w)
    ((load p).outcome m₁) ((load p).outcome m₂)

namespace Setting

/-! ## Bodies that are up to date -/

/-- The bodies and source maps that a module system holds are those of the files. -/
def Faithful (x : Setting) (files : FileTree) (s : ModuleSystem) : Prop :=
  ∀ p body, s.registry.compiled? p = some body →
    ∃ q, q.same p = true ∧ x.bodyOf files q = .ok (body, s.cache.maps.find? p)

/-- A module system over some files is in order and holds bodies of these files. -/
structure Current (x : Setting) (texts : Set String) (files : FileTree) (e : Outside) : Prop where
  sameFiles : e.1.files = files
  orderly : x.Orderly texts e.2
  faithful : x.Faithful files e.2

variable {x : Setting} {texts : Set String} {files : FileTree} {s s' : ModuleSystem} {p : Path}

theorem Faithful.advance (h : x.Faithful files s) (ha : x.Advances files s s') :
    x.Faithful files s' := by
  intro p body hp
  cases hold : s.registry.compiled? p with
  | none => exact ha.made p body hold hp
  | some other =>
    obtain ⟨hkept, hmap⟩ := ha.kept p other hold
    rw [hp] at hkept
    cases hkept
    obtain ⟨q, hq, hbody⟩ := h p body hold
    exact ⟨q, hq, by rw [hmap, hbody]⟩

theorem Current.same {e e' : Outside} (h : x.Current texts files e) (he : SameModules e e') :
    x.Current texts files e' :=
  ⟨he.files.trans h.sameFiles, h.orderly.same he, h.faithful.advance (.same he)⟩

theorem locate_of_bodyOf {r : List Stmt × Option SourceMap} (h : x.bodyOf files p = .ok r) :
    ∃ names, files.locate p = .ok names := by
  cases hp : files.locate p with
  | ok names => exact ⟨names, rfl⟩
  | error e =>
    have hread : files.read p = .error e := by simp only [FileTree.read, FileTree.readBytes, hp]; rfl
    simp only [bodyOf, codeOf, hread] at h
    cases h

/-- A body is held that belongs to a file that is there. -/
theorem Faithful.bodyOf (h : x.Faithful files s) (hblind : Compiler.PathBlind x.compiler)
    {body : List Stmt} (hbody : s.registry.compiled? p = some body)
    (hp : ∃ names, files.locate p = .ok names) :
    x.bodyOf files p = .ok (body, s.cache.maps.find? p) := by
  obtain ⟨names, hp⟩ := hp
  obtain ⟨q, hq, hof⟩ := h p body hbody
  exact bodyOf_of_same hblind hq (fun text htext => FileTree.read_of_same hq hp htext) hof

/-- What finding or parsing the body of a file gives. -/
structure Gives (x : Setting) (texts : Set String) (files : FileTree) (p : Path)
    (m m' : Machine ModuleSystem) (outcome : Except LoadError (List Stmt)) : Prop where
  parses : x.Parses texts p m m' outcome
  current : x.Current texts files (m'.world, m'.host)
  body : outcome = (x.bodyOf files p).map Prod.fst
  map : ∀ body map, x.bodyOf files p = .ok (body, map) →
    m'.host.registry.compiled? p = some body ∧ m'.host.cache.maps.find? p = map

/-- The body of a file is the one that the file has now, if it is there or no body is held of it. -/
theorem gives {m : Machine ModuleSystem} (hcurrent : x.Current texts files (m.world, m.host))
    (hblind : Compiler.PathBlind x.compiler) (hinj : Set.InjOn Digest.ofText texts)
    (htexts : ∀ p text, files.read p = .ok text → text ∈ texts)
    (hscript : x.options.isScript p = true)
    (hp : (∃ names, files.locate p = .ok names) ∨ m.host.registry.compiled? p = none) :
    x.Gives texts files p m ((program p).after m) ((program p).outcome m) := by
  obtain ⟨rfl, ho, hfaithful⟩ := hcurrent
  have hparses := parses ho hblind hinj htexts hscript
  have hfaithful' := hfaithful.advance hparses.advances
  refine ⟨hparses, ⟨hparses.files, hparses.orderly, hfaithful'⟩, ?_, fun body map hbody => ?_⟩
  · cases hold : m.host.registry.compiled? p with
    | none => exact hparses.made hold
    | some body =>
      have hof := hfaithful.bodyOf hblind hold (hp.resolve_right (by rw [hold]; nofun))
      rw [hparses.kept body hold, hof]
      rfl
  · have hthere := locate_of_bodyOf hbody
    have hheld : ((program p).after m).host.registry.compiled? p = some body := by
      cases hold : m.host.registry.compiled? p with
      | none =>
        refine hparses.parsed body ?_
        rw [hparses.made hold, hbody]
        rfl
      | some other =>
        have hof := hfaithful.bodyOf hblind hold hthere
        rw [hbody] at hof
        cases hof
        exact hparses.parsed body (hparses.kept body hold)
    have hof := hfaithful'.bodyOf hblind hheld hthere
    rw [hbody] at hof
    cases hof
    exact ⟨hheld, rfl⟩

/-! ## A module system in use and a new one -/

/-- Both module systems hold a body of the file and have the same source map for it. -/
structure Mapped (p : Path) (s s' : ModuleSystem) : Prop where
  left : s.registry.compiled? p ≠ none
  right : s'.registry.compiled? p ≠ none
  map : s.cache.maps.find? p = s'.cache.maps.find? p

/-- How a module system in use compares with a new one over the same files. -/
structure Alongside (x : Setting) (texts : Set String) (files : FileTree) (i : Renaming) (h : Heap)
    (e₁ e₂ : Outside) : Prop where
  left : x.Current texts files e₁
  right : x.Current texts files e₂
  exports : ∀ p, Option.Rel (Value.Paired i.pairing) (e₁.2.registry.exports? p)
    (e₂.2.registry.exports? p)
  known : ∀ p, i.pairing.path p → p = ⟨""⟩ ∨ Mapped p e₁.2 e₂.2
  core : CoresMeet i h e₁.2.core e₂.2.core

section

variable {i j : Renaming} {h h' : Heap} {e₁ e₂ e₁' e₂' : Outside}

theorem Mapped.same (hp : Mapped p e₁.2 e₂.2) (he₁ : SameModules e₁ e₁')
    (he₂ : SameModules e₂ e₂') : Mapped p e₁'.2 e₂'.2 :=
  ⟨by rw [he₁.compiled]; exact hp.left, by rw [he₂.compiled]; exact hp.right,
    by rw [he₁.cache, he₂.cache, hp.map]⟩

theorem Mapped.advance {s₁ s₂ s₁' s₂' : ModuleSystem} {files₁ files₂ : FileTree}
    (hp : Mapped p s₁ s₂) (ha₁ : x.Advances files₁ s₁ s₁') (ha₂ : x.Advances files₂ s₂ s₂') :
    Mapped p s₁' s₂' := by
  obtain ⟨body₁, hbody₁⟩ := Option.ne_none_iff_exists'.1 hp.left
  obtain ⟨body₂, hbody₂⟩ := Option.ne_none_iff_exists'.1 hp.right
  obtain ⟨hkept₁, hmap₁⟩ := ha₁.kept p body₁ hbody₁
  obtain ⟨hkept₂, hmap₂⟩ := ha₂.kept p body₂ hbody₂
  exact ⟨by rw [hkept₁]; nofun, by rw [hkept₂]; nofun, by rw [hmap₁, hmap₂, hp.map]⟩

theorem Alongside.same (ha : x.Alongside texts files i h e₁ e₂) (he₁ : SameModules e₁ e₁')
    (he₂ : SameModules e₂ e₂') : x.Alongside texts files i h e₁' e₂' where
  left := ha.left.same he₁
  right := ha.right.same he₂
  exports p := by
    rw [he₁.exports, he₂.exports]
    exact ha.exports p
  known p hp := (ha.known p hp).imp_right fun hp => hp.same he₁ he₂
  core := by
    rw [he₁.core, he₂.core]
    exact ha.core

theorem Alongside.grow (ha : x.Alongside texts files i h e₁ e₂) (hij : i.Grown j h h') :
    x.Alongside texts files j h' e₁ e₂ where
  left := ha.left
  right := ha.right
  exports p := Heap.optionRel_mono (fun _ _ hv => hv.mono hij.le) (ha.exports p)
  known p hp := ha.known p (hij.paths p hp)
  core := ha.core.grow hij

/-- What the comparison says of all that programs cannot see. -/
def alongside (x : Setting) (texts : Set String) (files : FileTree) :
    Surroundings ModuleSystem ModuleSystem :=
  ⟨x.Alongside texts files, Alongside.grow⟩

/-- A module system in use and a new one run the same programs. -/
abbrev reloading (x : Setting) (texts : Set String) (files : FileTree) :
    Likeness ModuleSystem ModuleSystem :=
  .renamed (x.alongside texts files)

end

/-! ## Steps -/

section

variable {i : Renaming} {m₁ m₂ : Machine ModuleSystem}

theorem Alongside.withPath {h : Heap} {e₁ e₂ : Outside} (ha : x.Alongside texts files i h e₁ e₂)
    (hp : Mapped p e₁.2 e₂.2) : x.Alongside texts files (i.withPath p) h e₁ e₂ where
  left := ha.left
  right := ha.right
  exports q := Heap.optionRel_mono (fun _ _ hv => hv.mono (Renaming.le_withPath p)) (ha.exports q)
  known := by
    rintro q (hq | rfl)
    · exact ha.known q hq
    · exact .inr hp
  core := ha.core.withPath p

theorem meets_withPath (hm : (x.reloading texts files).Meets i m₁ m₂)
    (hp : Mapped p m₁.host m₂.host) : (x.reloading texts files).Meets (i.withPath p) m₁ m₂ :=
  ⟨⟨hm.alike.1.withPath p, hm.alike.2.withPath hp⟩, hm.running, hm.nesting,
    fun a ha => .inl (hm.paths a ha)⟩

/-- Both module systems find or parse the body of a file. -/
theorem meets_program (hm : (x.reloading texts files).Meets i m₁ m₂)
    {o₁ o₂ : Except LoadError (List Stmt)} {m₁' m₂' : Machine ModuleSystem}
    (h₁ : x.Gives texts files p m₁ m₁' o₁) (h₂ : x.Gives texts files p m₂ m₂' o₂) :
    (x.reloading texts files).Meets i m₁' m₂' := by
  obtain ⟨⟨hmatches, ha⟩, hrunning, hnesting, hpaths⟩ := hm
  have hp₁ := h₁.parses
  have hp₂ := h₂.parses
  refine ⟨⟨?_, h₁.current, h₂.current, fun q => ?_, fun q hq => ?_, ?_⟩, ?_, ?_, ?_⟩
  · rwa [hp₁.heap, hp₂.heap]
  · rw [hp₁.keeps.exports, hp₂.keeps.exports]
    exact ha.exports q
  · exact (ha.known q hq).imp_right fun hq => hq.advance hp₁.advances hp₂.advances
  · rw [hp₁.heap, hp₁.core, hp₂.core]
    exact ha.core
  · rw [hp₁.running, hp₂.running, hrunning]
  · rw [hp₁.keeps.calls.nesting, hp₂.keeps.calls.nesting, hnesting]
  · rw [hp₁.running]
    exact hpaths

/-- Both module systems give the body of a file that is there, or of which no body is held. -/
theorem agreeAt_program (hm : (x.reloading texts files).Meets i m₁ m₂)
    (hblind : Compiler.PathBlind x.compiler) (hinj : Set.InjOn Digest.ofText texts)
    (htexts : ∀ p text, files.read p = .ok text → text ∈ texts)
    (hscript : x.options.isScript p = true)
    (hp : (∃ names, files.locate p = .ok names) ∨
      m₁.host.registry.compiled? p = none ∧ m₂.host.registry.compiled? p = none) :
    (x.reloading texts files).AgreeAt i
      (fun j body other => body = other ∧ ((x.reloading texts files).pairing j).path p)
      (program p) (program p) m₁ m₂ := by
  have h₁ := gives hm.alike.2.left hblind hinj htexts hscript (hp.imp_right And.left)
  have h₂ := gives hm.alike.2.right hblind hinj htexts hscript (hp.imp_right And.right)
  have hmeets := meets_program hm h₁ h₂
  refine ⟨?_, h₁.parses.keeps.calls⟩
  cases hbody : x.bodyOf files p with
  | error e =>
    have ho₁ := h₁.body
    have ho₂ := h₂.body
    rw [hbody] at ho₁ ho₂
    refine ⟨i, le_rfl, ?_, hmeets⟩
    rw [ho₁, ho₂]
    exact .error e
  | ok r =>
    obtain ⟨body, map⟩ := r
    have ho₁ := h₁.body
    have ho₂ := h₂.body
    rw [hbody] at ho₁ ho₂
    obtain ⟨hheld₁, hmap₁⟩ := h₁.map body map hbody
    obtain ⟨hheld₂, hmap₂⟩ := h₂.map body map hbody
    have hmapped : Mapped p ((program p).after m₁).host ((program p).after m₂).host :=
      ⟨by rw [hheld₁]; nofun, by rw [hheld₂]; nofun, by rw [hmap₁, hmap₂]⟩
    refine ⟨i.withPath p, Renaming.le_withPath p, ?_, meets_withPath hmeets hmapped⟩
    rw [ho₁, ho₂]
    exact .ok ⟨rfl, .inr rfl⟩

theorem Current.withCore {world : World} (h : x.Current texts files (world, s))
    (core : List (String × Value)) : x.Current texts files (world, { s with core }) :=
  ⟨h.sameFiles, h.orderly.of_eq rfl rfl rfl, h.faithful⟩

theorem run_requireCore_kept {m : Machine ModuleSystem} {name : String} {v : Value}
    (h : m.host.core.lookup name = some v) : (requireCore name).run m = (.ok v, m) := by
  rw [run_requireCore, h]

theorem run_requireCore_built {m : Machine ModuleSystem} {name : String} {made : Value × Heap}
    (h : m.host.core.lookup name = none) (hmade : loadCoreModule m.heap name = some made) :
    (requireCore name).run m = (.ok made.1,
      { m with heap := made.2, host := { m.host with core := (name, made.1) :: m.host.core } }) := by
  rw [run_requireCore, h]
  simp only [hmade]

theorem run_requireCore_none {m : Machine ModuleSystem} {name : String}
    (h : m.host.core.lookup name = none) (hmade : loadCoreModule m.heap name = none) :
    (requireCore name).run m = (.error (.resolution name ⟨""⟩), m) := by
  rw [run_requireCore, h]
  simp only [hmade]

/-- Both module systems give a core module: one that both have, one that the new one builds while the
other one has had it all along, or one that both build. -/
theorem agreeAt_requireCore (hm : (x.reloading texts files).Meets i m₁ m₂) (name : String) :
    (x.reloading texts files).AgreeAt i (x.reloading texts files).Values (requireCore name)
      (requireCore name) m₁ m₂ := by
  refine ⟨?_, (keeps_requireCore name m₁).calls⟩
  have ha := hm.alike.2
  rw [Run.outcome, Run.outcome, Run.after, Run.after]
  cases hright : m₂.host.core.lookup name with
  | some w =>
    obtain ⟨v, hleft, hvw⟩ := ha.core.shared name w hright
    rw [run_requireCore_kept hleft, run_requireCore_kept hright]
    exact ⟨i, le_rfl, .ok hvw, hm⟩
  | none =>
    cases hleft : m₁.host.core.lookup name with
    | some v =>
      obtain ⟨hname, j, hij, hj, hvw, hmatches, hcore⟩ := ha.core.adopt hm.alike.1 hleft hright
      rw [run_requireCore_kept hleft, run_requireCore_built hright (loadCoreModule_eq hname _)]
      refine ⟨j, hij, .ok hvw, ⟨hmatches, ha.left, ha.right.withCore _, fun p => ?_,
        fun p hp => (ha.known p (hj p hp)).imp_right fun hp => ⟨hp.left, hp.right, hp.map⟩, hcore⟩,
        hm.running, hm.nesting, fun a h => hij.path (hm.paths a h)⟩
      exact Heap.optionRel_mono (fun _ _ hv => hv.mono hij) (ha.exports p)
    | none =>
      have hload := Likeness.loadCoreModule hm.alike name
      cases hmade₁ : loadCoreModule m₁.heap name with
      | none =>
        rw [hmade₁] at hload
        cases hmade₂ : loadCoreModule m₂.heap name with
        | none =>
          rw [run_requireCore_none hleft hmade₁, run_requireCore_none hright hmade₂]
          exact ⟨i, le_rfl, .error _, hm⟩
        | some made => rw [hmade₂] at hload; cases hload
      | some made₁ =>
        rw [hmade₁] at hload
        cases hmade₂ : loadCoreModule m₂.heap name with
        | none => rw [hmade₂] at hload; cases hload
        | some made₂ =>
          rw [hmade₂] at hload
          cases hload with
          | some hload =>
            obtain ⟨j, hij, hvw, hmatches, ha'⟩ := hload
            rw [run_requireCore_built hleft hmade₁, run_requireCore_built hright hmade₂]
            refine ⟨j, hij, .ok hvw, ⟨hmatches, ha'.left.withCore _, ha'.right.withCore _, ha'.exports,
              fun p hp => ?_, ha'.core.both hvw name⟩, hm.running, hm.nesting,
              fun a h => hij.path (hm.paths a h)⟩
            exact (ha'.known p hp).imp_right fun hp => ⟨hp.left, hp.right, hp.map⟩

/-- The exports of a file are set in both module systems. -/
theorem Alongside.setExports {h : Heap} {e₁ e₂ : Outside} (ha : x.Alongside texts files i h e₁ e₂)
    {v w : Value} (hv : v.Paired i.pairing w) (p : Path) :
    x.Alongside texts files i h (registered (·.setExports p v) e₁)
      (registered (·.setExports p w) e₂) where
  left := ⟨ha.left.sameFiles, ha.left.orderly.of_eq rfl rfl rfl,
    ha.left.faithful.advance (.of_eq (fun q => Registry.compiled?_setExports _ p v q) rfl)⟩
  right := ⟨ha.right.sameFiles, ha.right.orderly.of_eq rfl rfl rfl,
    ha.right.faithful.advance (.of_eq (fun q => Registry.compiled?_setExports _ p w q) rfl)⟩
  exports q := by
    simp only [registered, Registry.exports?_setExports]
    split
    · exact .some hv
    · exact ha.exports q
  known q hq := (ha.known q hq).imp_right fun hq =>
    ⟨(Registry.compiled?_setExports _ p v q).trans_ne hq.left,
      (Registry.compiled?_setExports _ p w q).trans_ne hq.right, hq.map⟩
  core := ha.core

/-- The exports of a file are dropped in both module systems. -/
theorem Alongside.removeExports {h : Heap} {e₁ e₂ : Outside}
    (ha : x.Alongside texts files i h e₁ e₂) (p : Path) :
    x.Alongside texts files i h (registered (·.removeExports p) e₁)
      (registered (·.removeExports p) e₂) where
  left := ⟨ha.left.sameFiles, ha.left.orderly.of_eq rfl rfl rfl,
    ha.left.faithful.advance (.of_eq (fun q => Registry.compiled?_removeExports _ p q) rfl)⟩
  right := ⟨ha.right.sameFiles, ha.right.orderly.of_eq rfl rfl rfl,
    ha.right.faithful.advance (.of_eq (fun q => Registry.compiled?_removeExports _ p q) rfl)⟩
  exports q := by
    simp only [registered, Registry.exports?_removeExports]
    split
    · exact .none
    · exact ha.exports q
  known q hq := (ha.known q hq).imp_right fun hq =>
    ⟨(Registry.compiled?_removeExports _ p q).trans_ne hq.left,
      (Registry.compiled?_removeExports _ p q).trans_ne hq.right, hq.map⟩
  core := ha.core

/-- Positions in code that may run come from the same places of the sources. -/
theorem Alongside.sourcePosition {h : Heap} {e₁ e₂ : Outside}
    (ha : x.Alongside texts files i h e₁ e₂) (hp : i.pairing.path p) (pos : Syntax.Pos) :
    e₁.2.cache.maps.sourcePosition p pos = e₂.2.cache.maps.sourcePosition p pos := by
  have hmap : e₁.2.cache.maps.find? p = e₂.2.cache.maps.find? p := by
    rcases ha.known p hp with rfl | hmapped
    · rw [ha.left.orderly.blank, ha.right.orderly.blank]
    · exact hmapped.map
  rw [SourceMaps.sourcePosition, hmap, ← SourceMaps.sourcePosition]

end

/-! ## Loads -/

/-- What is asked of a setting and of the files that loads are compared over. -/
structure Sane (x : Setting) (texts : Set String) (files : FileTree) : Prop where
  overrides : x.overrides = []
  blind : Compiler.PathBlind x.compiler
  /-- Texts of files are told apart by their digests. -/
  injective : Set.InjOn Digest.ofText texts
  texts : ∀ p text, files.read p = .ok text → text ∈ texts
  /-- The names on the way to the current directory are names. -/
  names : ∀ name ∈ files.cwd, FileTree.IsName name

/-- What was found is there. -/
theorem Sane.locate (hx : x.Sane texts files) (hp : Found {files} p) :
    ∃ names, files.locate p = .ok names := by
  obtain ⟨tree, rfl, other, hother, c, names, hc, hp⟩ := hp
  obtain rfl := hother
  have hnormal := FileTree.locate_normalize hx.names hc
  rcases hp with rfl | rfl
  · exact ⟨names, hnormal⟩
  · exact ⟨names, FileTree.locate_normalize hx.names hnormal⟩

/-- The steps of a module system in use and of a new one keep them alongside. -/
theorem laws_reloading (hx : x.Sane texts files) :
    SystemLaws (x.reloading texts files) {files} x.options where
  sameFiles ha := ⟨ha.2.left.sameFiles.trans ha.2.right.sameFiles.symm, ha.2.right.sameFiles⟩
  sameOptions ha := ⟨ha.2.left.orderly.options, ha.2.right.orderly.options⟩
  overrides ha name := by
    rw [ha.2.left.orderly.overrides, ha.2.right.orderly.overrides, hx.overrides]
    exact .none
  exports ha p := ha.2.exports p
  sourcePosition ha hp pos := ha.2.sourcePosition hp pos
  log ha part message :=
    ⟨ha.1, ha.2.same (sameModules_logged part message _) (sameModules_logged part message _)⟩
  watch ha p := ⟨ha.1, ha.2.same (sameModules_watched p _) (sameModules_watched p _)⟩
  setScope ha _ p := ⟨ha.1, ha.2.same (sameModules_setScope p _ _) (sameModules_setScope p _ _)⟩
  setExports ha hv p := ⟨ha.1, ha.2.setExports hv p⟩
  removeExports ha p := ⟨ha.1, ha.2.removeExports p⟩
  program hscript hfound _ _ _ _ hm :=
    agreeAt_program hm hx.blind hx.injective hx.texts hscript (.inl (hx.locate hfound))
  requireCore name _ _ _ _ hm := agreeAt_requireCore hm name

/-- A new module system in a world. -/
def startIn (x : Setting) (world : World) : Machine ModuleSystem := { x.start with world }

/-- A module system without live exports meets a new one, of which nothing stands for anything. -/
theorem meets_start (hstore : x.store.InMemory) {m : Machine ModuleSystem} {world : World}
    (hm : x.Current texts files (m.world, m.host)) (hworld : world.files = files)
    (hcalls : x.start.SameCalls m) (hlive : ∀ p, m.host.registry.exports? p = none)
    (hcore : Pristine m.heap (m.host.core.lookup ·)) :
    (x.reloading texts files).Meets .none m (x.startIn world) := by
  have hstack : m.running.stack = [] := List.map_eq_nil_iff.1 hcalls.stack
  refine ⟨⟨⟨nofun, nofun, nofun, nofun⟩, hm, ⟨hworld, orderly_start hstore, nofun⟩, fun p => ?_,
    fun p hp => .inl hp, .start hcore⟩, ?_, hcalls.nesting, ?_⟩
  · rw [hlive p]
    exact .none
  · obtain ⟨heap, world', ⟨base, stack⟩, nesting, host⟩ := m
    have hbase : base = 0 := hcalls.base
    dsimp only at hstack
    rw [hstack, hbase]
    rfl
  · rw [hstack]
    nofun

/-- A module system that is up to date and has no live exports loads a file as a new one does. -/
theorem Sane.sameLoad (hx : x.Sane texts files) (hstore : x.store.InMemory)
    {m : Machine ModuleSystem} {world : World} (hm : x.Current texts files (m.world, m.host))
    (hworld : world.files = files) (hcalls : x.start.SameCalls m)
    (hlive : ∀ p, m.host.registry.exports? p = none)
    (hcore : Pristine m.heap (m.host.core.lookup ·))
    (hp : x.options.isScript (files.normalize p) = true →
      m.host.registry.compiled? (files.normalize p) ≠ none →
        ∃ names, files.locate (files.normalize p) = .ok names) :
    SameLoad p m (x.startIn world) := by
  have hlaws := laws_reloading hx
  have hrunners := Likeness.runners_runModule (Likeness.hosts_of_laws hlaws)
  have hstart := meets_start hstore hm hworld hcalls hlive hcore
  have hagree : (x.reloading texts files).AgreeAt .none (x.reloading texts files).Values (load p)
      (load p) m (x.startIn world) := by
    refine Likeness.agreeAt_requireModule hlaws hstart fun hscript => ?_
    have hfiles : (x.startIn world).world.files = files := hworld
    rw [hfiles] at hscript ⊢
    refine Likeness.agreeAt_requireScript hlaws hrunners hstart fun i _ hmeets => ?_
    refine agreeAt_program hmeets hx.blind hx.injective hx.texts hscript ?_
    have hleft := (sameModules_watchSource (files.normalize p) m).compiled (files.normalize p)
    have hright := (sameModules_watchSource (files.normalize p) (x.startIn world)).compiled
      (files.normalize p)
    dsimp only at hleft hright
    rw [hleft, hright]
    by_cases hheld : m.host.registry.compiled? (files.normalize p) = none
    · exact .inr ⟨hheld, rfl⟩
    · exact .inl (hp hscript hheld)
  obtain ⟨i, -, hout, hmeets⟩ := hagree.ends
  unfold SameLoad
  generalize (load p).outcome m = o₁ at hout ⊢
  generalize (load p).outcome (x.startIn world) = o₂ at hout ⊢
  cases hout with
  | ok hvw => exact .ok ⟨i, hvw, hmeets.alike.1⟩
  | error e => exact .error e

end Setting

end Hotload
