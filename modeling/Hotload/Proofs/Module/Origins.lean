import Mathlib
import Hotload.Proofs.Module.Invariants
import Hotload.Proofs.Module.Sources

/-!
# Where bodies come from

Whatever happens to a module system, the body that it holds of a file was parsed in one of the
requests, from the text that the file had then, and the source map that it holds is the one of that
text. Only an invalidation of the file takes them away.

* `Setting.Advances`: what a request does to bodies and source maps.
* `Setting.parses`: the step that finds or parses a body.
* `Setting.origins`: where the bodies come from that a module system holds.
-/

namespace Hotload

open Syntax (Stmt)
open ModuleSystem

namespace Setting

/-- All but its modules is as in the setting, and what is kept of compiling is right. -/
structure Orderly (x : Setting) (texts : Set String) (s : ModuleSystem) : Prop where
  options : s.options = x.options
  overrides : s.overrides = x.overrides
  cache : x.Remembers texts s.cache
  dependencies : ∀ p, x.options.resolve.isDependency p = true → s.cache.maps.find? p = none
  blank : s.cache.maps.find? ⟨""⟩ = none

/-- Bodies and their source maps are kept, and new ones are those of the files. -/
structure Advances (x : Setting) (files : FileTree) (s s' : ModuleSystem) : Prop where
  kept : ∀ p body, s.registry.compiled? p = some body →
    s'.registry.compiled? p = some body ∧ s'.cache.maps.find? p = s.cache.maps.find? p
  made : ∀ p body, s.registry.compiled? p = none → s'.registry.compiled? p = some body →
    ∃ q, q.same p = true ∧ x.bodyOf files q = .ok (body, s'.cache.maps.find? p)

variable {x : Setting} {texts : Set String} {files : FileTree} {s s' s'' : ModuleSystem} {p : Path}

theorem compiled?_congr (s : ModuleSystem) {p q : Path} (h : q.same p = true) :
    s.registry.compiled? q = s.registry.compiled? p := by
  rw [Registry.compiled?, Registry.find?_congr _ h, ← Registry.compiled?]

/-- Neither bodies nor source maps change. -/
theorem Advances.of_eq (hcompiled : ∀ p, s'.registry.compiled? p = s.registry.compiled? p)
    (hmaps : s'.cache.maps = s.cache.maps) : x.Advances files s s' :=
  ⟨fun p body h => ⟨by rw [hcompiled, h], by rw [hmaps]⟩, fun p body h h' => by
    rw [hcompiled, h] at h'
    cases h'⟩

theorem Advances.refl (s : ModuleSystem) : x.Advances files s s := .of_eq (fun _ => rfl) rfl

theorem Advances.trans (h : x.Advances files s s') (h' : x.Advances files s' s'') :
    x.Advances files s s'' where
  kept p body hp := by
    obtain ⟨hp', hmap⟩ := h.kept p body hp
    obtain ⟨hp'', hmap'⟩ := h'.kept p body hp'
    exact ⟨hp'', hmap'.trans hmap⟩
  made p body hp hp'' := by
    cases hp' : s'.registry.compiled? p with
    | none => exact h'.made p body hp' hp''
    | some other =>
      obtain ⟨hsame, hmap⟩ := h'.kept p other hp'
      rw [hp''] at hsame
      cases hsame
      obtain ⟨q, hq, hbody⟩ := h.made p body hp hp'
      exact ⟨q, hq, by rw [hmap, hbody]⟩

theorem Orderly.of_eq (h : x.Orderly texts s) (hoptions : s'.options = s.options)
    (hoverrides : s'.overrides = s.overrides) (hcache : s'.cache = s.cache) : x.Orderly texts s' :=
  ⟨hoptions.trans h.options, hoverrides.trans h.overrides, hcache ▸ h.cache,
    fun p hp => by rw [hcache, h.dependencies p hp], by rw [hcache, h.blank]⟩

theorem Advances.same {e e' : Outside} (h : SameModules e e') : x.Advances files e.2 e'.2 :=
  .of_eq h.compiled (by rw [h.cache])

theorem Orderly.same {e e' : Outside} (h : x.Orderly texts e.2) (he : SameModules e e') :
    x.Orderly texts e'.2 :=
  h.of_eq he.options he.overrides he.cache

theorem orderly_start (hstore : x.store.InMemory) : x.Orderly texts x.start.host :=
  ⟨rfl, rfl, remembers_new hstore texts, fun _ _ => rfl, rfl⟩

/-! ## The body of a file -/

/-- A script has a name, so it is not the empty path. -/
theorem not_blank_of_isScript {options : Options} (h : options.isScript p = true) :
    ¬ p.same ⟨""⟩ = true := by
  intro hblank
  have hcomponents : p.components = [] := of_decide_eq_true hblank
  have hidle : ∀ segment : List Char, Path.component? segment = none → Path.isIdle segment = true := by
    intro segment hsegment
    unfold Path.component? at hsegment
    split at hsegment
    · assumption
    · split at hsegment <;> cases hsegment
  have hsegments : Path.dropIdle p.split.2 = [] := by
    have hnone : p.split.2.filterMap Path.component? = [] := by
      unfold Path.components at hcomponents
      exact (List.append_eq_nil_iff.1 hcomponents).2
    rw [Path.dropIdle, List.reverse_eq_nil_iff, List.dropWhile_eq_nil_iff]
    intro segment hsegment
    exact hidle segment (List.filterMap_eq_nil_iff.1 hnone segment (List.mem_reverse.1 hsegment))
  have hextension : p.extension? = none := by
    rw [Path.extension?, Path.fileName?, hsegments]
    rfl
  rw [Options.isScript, hextension] at h
  cases h

/-- What finding or parsing a body does. -/
structure Parses (x : Setting) (texts : Set String) (p : Path) (m m' : Machine ModuleSystem)
    (outcome : Except LoadError (List Stmt)) : Prop where
  heap : m'.heap = m.heap
  core : m'.host.core = m.host.core
  files : m'.world.files = m.world.files
  keeps : ModuleSystem.Keeps m m'
  running : m'.running = m.running
  orderly : x.Orderly texts m'.host
  advances : x.Advances m.world.files m.host m'.host
  kept : ∀ body, m.host.registry.compiled? p = some body → outcome = .ok body
  made : m.host.registry.compiled? p = none → outcome = (x.bodyOf m.world.files p).map Prod.fst
  parsed : ∀ body, outcome = .ok body → m'.host.registry.compiled? p = some body
  /-- Source maps of other files stay. -/
  maps : ∀ q, ¬ p.same q = true → m'.host.cache.maps.find? q = m.host.cache.maps.find? q

section

variable {m : Machine ModuleSystem}

/-- What loading the code of a file that has no body yet does. -/
structure Fetches (x : Setting) (texts : Set String) (p : Path) (m m' : Machine ModuleSystem) :
    Prop where
  heap : m'.heap = m.heap
  core : m'.host.core = m.host.core
  files : m'.world.files = m.world.files
  running : m'.running = m.running
  registry : m'.host.registry = m.host.registry
  orderly : x.Orderly texts m'.host
  /-- Source maps of other files stay. -/
  maps : ∀ q, ¬ p.same q = true → m'.host.cache.maps.find? q = m.host.cache.maps.find? q

theorem fetches (ho : x.Orderly texts m.host) (hscript : x.options.isScript p = true)
    (hloads : x.Loads texts p m.host.cache m.world (m.host.cache.load p m.world)) :
    x.Fetches texts p m ((ModuleSystem.code p).after m) := by
  rw [ModuleSystem.after_code]
  refine ⟨rfl, rfl, hloads.files, rfl, rfl,
    ⟨ho.options, ho.overrides, hloads.remembers, fun q hq => ?_, ?_⟩, hloads.others⟩
  · by_cases hpq : p.same q = true
    · have hp : x.options.resolve.isDependency p = true := by rwa [isDependency_of_same _ hpq]
      dsimp only
      rw [hloads.dependencies hp, ho.dependencies q hq]
    · exact (hloads.others q hpq).trans (ho.dependencies q hq)
  · exact (hloads.others _ (not_blank_of_isScript hscript)).trans ho.blank

/-- No body comes or goes; the source map of a body that is held is one of another file. -/
theorem Fetches.advances {m' : Machine ModuleSystem} (h : x.Fetches texts p m m')
    (hnone : m.host.registry.compiled? p = none) (files : FileTree) :
    x.Advances files m.host m'.host where
  kept q body hq := by
    refine ⟨by rw [h.registry, hq], h.maps q fun hpq => ?_⟩
    rw [← compiled?_congr _ hpq, hnone] at hq
    cases hq
  made q body hq hq' := by
    rw [h.registry, hq] at hq'
    cases hq'

/-- The body of a file is held that had none. -/
theorem advances_setCompiled {body : List Stmt} (hnone : s.registry.compiled? p = none)
    (hbody : x.bodyOf files p = .ok (body, s.cache.maps.find? p)) :
    x.Advances files s { s with registry := s.registry.setCompiled p body } where
  kept q other hq := by
    refine ⟨(Registry.compiled?_setCompiled _ p body q).trans ?_, rfl⟩
    rw [if_neg, hq]
    intro hpq
    rw [← compiled?_congr _ hpq, hnone] at hq
    cases hq
  made q other hq hq' := by
    rw [Registry.compiled?_setCompiled] at hq'
    split at hq'
    next hpq =>
      cases hq'
      exact ⟨p, hpq, by rw [hbody, SourceMaps.find?_congr _ hpq]⟩
    next =>
      rw [hq] at hq'
      cases hq'

theorem parses_kept (ho : x.Orderly texts m.host) {body : List Stmt}
    (hbody : m.host.registry.compiled? p = some body) : x.Parses texts p m m (.ok body) where
  heap := rfl
  core := rfl
  files := rfl
  keeps := .refl m
  running := rfl
  orderly := ho
  advances := .refl _
  kept other h := by
    rw [hbody] at h
    cases h
    rfl
  made h := by
    rw [hbody] at h
    cases h
  parsed other h := by
    cases h
    exact hbody
  maps _ _ := rfl

theorem Fetches.failed {m' : Machine ModuleSystem} (h : x.Fetches texts p m m')
    (hnone : m.host.registry.compiled? p = none) (hkeeps : ModuleSystem.Keeps m m') {e : LoadError}
    (hbody : x.bodyOf m.world.files p = .error e) : x.Parses texts p m m' (.error e) where
  heap := h.heap
  core := h.core
  files := h.files
  keeps := hkeeps
  running := h.running
  orderly := h.orderly
  advances := h.advances hnone _
  kept body hheld := by
    rw [hnone] at hheld
    cases hheld
  made _ := by
    rw [hbody]
    rfl
  parsed _ h := by cases h
  maps := h.maps

theorem Fetches.parsed {m' : Machine ModuleSystem} (h : x.Fetches texts p m m')
    (hnone : m.host.registry.compiled? p = none) {body : List Stmt}
    (hkeeps : ModuleSystem.Keeps m ((ModuleSystem.onRegistry (·.setCompiled p body)).after m'))
    (hbody : x.bodyOf m.world.files p = .ok (body, m'.host.cache.maps.find? p)) :
    x.Parses texts p m ((ModuleSystem.onRegistry (·.setCompiled p body)).after m') (.ok body) where
  heap := h.heap
  core := h.core
  files := h.files
  keeps := hkeeps
  running := h.running
  orderly := h.orderly.of_eq rfl rfl rfl
  advances := (h.advances hnone _).trans (advances_setCompiled (by rw [h.registry, hnone]) hbody)
  kept other hheld := by
    rw [hnone] at hheld
    cases hheld
  made _ := by
    rw [hbody]
    rfl
  parsed other hother := by
    cases hother
    exact (Registry.compiled?_setCompiled _ p body p).trans (if_pos (Path.same_refl p))
  maps := h.maps

/-- A body that is held is given, and any other one is the body of the file. -/
theorem parses (ho : x.Orderly texts m.host) (hblind : Compiler.PathBlind x.compiler)
    (hinj : Set.InjOn Digest.ofText texts)
    (htexts : ∀ p text, m.world.files.read p = .ok text → text ∈ texts)
    (hscript : x.options.isScript p = true) :
    x.Parses texts p m ((ModuleSystem.program p).after m) ((ModuleSystem.program p).outcome m) := by
  cases hcompiled : m.host.registry.compiled? p with
  | some body =>
    rw [Run.outcome, Run.after, ModuleSystem.run_program_kept hcompiled]
    exact parses_kept ho hcompiled
  | none =>
    have hkeeps := ModuleSystem.keeps_program p m
    have hloads := ho.cache.load hblind hinj (w := m.world) (htexts p)
    have hfetches := fetches ho hscript hloads
    have hcode : (ModuleSystem.code p).outcome m = (x.codeOf m.world.files p).map Prod.fst :=
      (Run.outcome_ofExcept _ _).trans hloads.outcome
    have hstep := ModuleSystem.run_program_new hcompiled
    rw [Run.after, hstep] at hkeeps ⊢
    rw [Run.outcome, hstep]
    cases hof : x.codeOf m.world.files p with
    | error e =>
      rw [hof] at hcode
      rw [← Run.after, Run.after_bind_error hcode] at hkeeps ⊢
      rw [← Run.outcome, Run.outcome_bind_error hcode]
      exact hfetches.failed hcompiled hkeeps (by simp only [bodyOf, hof])
    | ok c =>
      obtain ⟨code, map⟩ := c
      rw [hof] at hcode
      rw [← Run.after, Run.after_bind_ok hcode] at hkeeps ⊢
      rw [← Run.outcome, Run.outcome_bind_ok hcode]
      cases hparse : Syntax.parseCore code.toList with
      | error e =>
        simp only [ModuleSystem.parsed, hparse] at hkeeps ⊢
        exact hfetches.failed hcompiled hkeeps (by simp only [bodyOf, hof, hparse])
      | ok body =>
        simp only [ModuleSystem.parsed, hparse] at hkeeps ⊢
        refine hfetches.parsed hcompiled hkeeps ?_
        rw [ModuleSystem.after_code, hloads.map code map hof (ho.dependencies p)]
        simp only [bodyOf, hof, hparse]

end

/-! ## Requests -/

/-- What a run over some files keeps, and what it does to bodies and source maps. -/
structure Watched (x : Setting) (texts : Set String) (files : FileTree) (s : ModuleSystem)
    (e : Outside) : Prop where
  sameFiles : e.1.files = files
  orderly : x.Orderly texts e.2
  advances : x.Advances files s e.2

/-- The steps of a module system keep all in order. -/
theorem invariant_watched (hblind : Compiler.PathBlind x.compiler)
    (hinj : Set.InjOn Digest.ofText texts)
    (htexts : ∀ p text, files.read p = .ok text → text ∈ texts) (s : ModuleSystem) :
    SystemInvariant {files} x.options (x.Watched texts files s) where
  sameFiles h := h.sameFiles
  sameOptions h := h.orderly.options
  same h he := ⟨he.files.trans h.sameFiles, h.orderly.same he, h.advances.trans (.same he)⟩
  setExports h p v := ⟨h.sameFiles, h.orderly.of_eq rfl rfl rfl,
    h.advances.trans (.of_eq (fun q => Registry.compiled?_setExports _ p v q) rfl)⟩
  removeExports h p := ⟨h.sameFiles, h.orderly.of_eq rfl rfl rfl,
    h.advances.trans (.of_eq (fun q => Registry.compiled?_removeExports _ p q) rfl)⟩
  withCore h _ := ⟨h.sameFiles, h.orderly.of_eq rfl rfl rfl,
    h.advances.trans (.of_eq (fun _ => rfl) rfl)⟩
  program {m p} h hscript := by
    have hf : m.world.files = files := h.sameFiles
    have hparses := parses h.orderly hblind hinj (hf ▸ htexts) hscript
    exact ⟨hparses.files.trans hf, hparses.orderly, h.advances.trans (hf ▸ hparses.advances)⟩

section

variable {m : Machine ModuleSystem}

/-- What any request does. Only an invalidation takes bodies away. -/
structure Handles (x : Setting) (texts : Set String) (m : Machine ModuleSystem)
    (request : Request) : Prop where
  calls : m.SameCalls (ModuleSystem.serve m request)
  orderly : x.Orderly texts (ModuleSystem.serve m request).host
  advances : (∀ p, request ≠ .invalidate p) →
    x.Advances m.world.files m.host (ModuleSystem.serve m request).host

theorem Orderly.handles (ho : x.Orderly texts m.host) (hblind : Compiler.PathBlind x.compiler)
    (hinj : Set.InjOn Digest.ofText texts)
    (htexts : ∀ p text, m.world.files.read p = .ok text → text ∈ texts) (request : Request) :
    x.Handles texts m request := by
  have hserved : request.IsServed → x.Handles texts m request := by
    intro hrequest
    obtain ⟨hwatched, hcalls⟩ :=
      (invariant_watched hblind hinj htexts m.host).serve ⟨rfl, ho, .refl _⟩ hrequest
    exact ⟨hcalls, hwatched.orderly, fun _ => hwatched.advances⟩
  cases request with
  | load | require | call | release => exact hserved trivial
  | invalidate p => exact ⟨.of_eq rfl rfl, ho.of_eq rfl rfl rfl, fun h => absurd rfl (h p)⟩
  | outside f => exact ⟨.of_eq rfl rfl, ho, fun _ => .refl _⟩

end

/-! ## Histories -/

section

variable (x) (history : List Request)

/-- The texts that files have in the course of some requests. -/
def occurring : Set String :=
  {text | ∃ before, before <+: history ∧
    ∃ p, (x.reached before).world.files.read p = .ok text}

/-- The body of a file was parsed in a request, and the file has not been invalidated since. -/
structure ParsedIn (p : Path) (before : List Request) (request : Request) (after : List Request) :
    Prop where
  history : history = before ++ request :: after
  missing : (x.reached before).host.registry.compiled? p = none
  parsed : (x.reached (before ++ [request])).host.registry.compiled? p ≠ none
  since : ∀ q, .invalidate q ∈ after → ¬ q.same p = true

variable {x history}

theorem ParsedIn.congr {p q : Path} {before after : List Request} {request : Request}
    (h : x.ParsedIn history p before request after) (hq : q.same p = true) :
    x.ParsedIn history q before request after where
  history := h.history
  missing := (compiled?_congr _ hq).trans h.missing
  parsed := by
    rw [compiled?_congr _ hq]
    exact h.parsed
  since r hr hrq := h.since r hr (by rwa [← Path.same_right hq])

/-- Bodies are parsed in requests for values only. -/
theorem ParsedIn.isServed {p : Path} {before after : List Request} {request : Request}
    (h : x.ParsedIn history p before request after) : request.IsServed := by
  obtain ⟨-, hmissing, hparsed, -⟩ := h
  rw [reached_snoc] at hparsed
  cases request with
  | load | require | call | release => trivial
  | invalidate q =>
    refine absurd ((Registry.compiled?_invalidate _ q p).trans ?_) hparsed
    split
    · rfl
    · exact hmissing
  | outside f => exact absurd hmissing hparsed

theorem ParsedIn.snoc {p : Path} {before after : List Request} {request later : Request}
    (h : x.ParsedIn history p before request after)
    (hlater : ∀ q, later = .invalidate q → ¬ q.same p = true) :
    x.ParsedIn (history ++ [later]) p before request (after ++ [later]) where
  history := by rw [h.history, List.append_assoc, List.cons_append]
  missing := h.missing
  parsed := h.parsed
  since q hq := by
    rcases List.mem_append.1 hq with hq | hq
    · exact h.since q hq
    · exact hlater q (List.mem_singleton.1 hq).symm

variable {texts : Set String}

/-- After any requests all is in order, and no call is under way. -/
theorem orderly_reached (hstore : x.store.InMemory) (hblind : Compiler.PathBlind x.compiler)
    (hinj : Set.InjOn Digest.ofText texts)
    (htexts : ∀ before, before <+: history →
      ∀ p text, (x.reached before).world.files.read p = .ok text → text ∈ texts) :
    x.Orderly texts (x.reached history).host ∧ x.start.SameCalls (x.reached history) := by
  induction history using List.reverseRecOn with
  | nil => exact ⟨orderly_start hstore, .refl _⟩
  | append_singleton history request ih =>
    have hinit : history <+: history ++ [request] := List.prefix_append _ _
    obtain ⟨ho, hcalls⟩ := ih fun before h => htexts before (h.trans hinit)
    have hhandles := ho.handles hblind hinj (htexts history hinit) request
    rw [reached_snoc]
    exact ⟨hhandles.orderly, hcalls.trans hhandles.calls⟩

/-- A body that is held was parsed from the text that the file had then, and has its source map. -/
theorem origins (hstore : x.store.InMemory) (hblind : Compiler.PathBlind x.compiler)
    (hinj : Set.InjOn Digest.ofText texts)
    (htexts : ∀ before, before <+: history →
      ∀ p text, (x.reached before).world.files.read p = .ok text → text ∈ texts)
    {p : Path} {body : List Stmt}
    (hbody : (x.reached history).host.registry.compiled? p = some body) :
    ∃ before request after q, x.ParsedIn history p before request after ∧ q.same p = true ∧
      x.bodyOf (x.reached before).world.files q =
        .ok (body, (x.reached history).host.cache.maps.find? p) := by
  induction history using List.reverseRecOn generalizing body with
  | nil => cases hbody
  | append_singleton history request ih =>
    have hinit : history <+: history ++ [request] := List.prefix_append _ _
    have htexts' : ∀ before, before <+: history →
        ∀ p text, (x.reached before).world.files.read p = .ok text → text ∈ texts :=
      fun before h => htexts before (h.trans hinit)
    have ho := (orderly_reached hstore hblind hinj htexts').1
    have hheld : ∀ body, (x.reached history).host.registry.compiled? p = some body →
        (x.reached (history ++ [request])).host.cache.maps.find? p =
          (x.reached history).host.cache.maps.find? p →
        (∀ q, request = .invalidate q → ¬ q.same p = true) →
        ∃ before earlier after q, x.ParsedIn (history ++ [request]) p before earlier after ∧
          q.same p = true ∧ x.bodyOf (x.reached before).world.files q =
            .ok (body, (x.reached (history ++ [request])).host.cache.maps.find? p) := by
      intro body hbody hmap hcalm
      obtain ⟨before, earlier, after, q, hparsed, hq, hof⟩ := ih htexts' hbody
      exact ⟨before, earlier, after ++ [request], q, hparsed.snoc hcalm, hq, by rw [hof, hmap]⟩
    by_cases hcalm : ∀ q, request ≠ .invalidate q
    · have hadvances :=
        (ho.handles hblind hinj (htexts' history List.prefix_rfl) request).advances hcalm
      rw [← reached_snoc] at hadvances
      cases hold : (x.reached history).host.registry.compiled? p with
      | some other =>
        obtain ⟨hsame, hmap⟩ := hadvances.kept p other hold
        rw [hbody] at hsame
        cases hsame
        exact hheld body hold hmap fun q hq => absurd hq (hcalm q)
      | none =>
        obtain ⟨q, hq, hof⟩ := hadvances.made p body hold hbody
        exact ⟨history, request, [], q, ⟨rfl, hold, by rw [hbody]; nofun, by simp⟩, hq, hof⟩
    · obtain ⟨q, rfl⟩ : ∃ q, request = .invalidate q := by
        simpa using hcalm
      have hkept : (x.reached (history ++ [.invalidate q])).host.registry.compiled? p =
          if q.same p then none else (x.reached history).host.registry.compiled? p := by
        rw [reached_snoc]
        exact Registry.compiled?_invalidate _ q p
      rw [hbody] at hkept
      split at hkept
      · cases hkept
      next hqp =>
        refine hheld body hkept.symm (by rw [reached_snoc]; rfl) fun r hr => ?_
        cases hr
        exact hqp

end

end Setting

end Hotload
