import Mathlib
import Hotload.Proofs.Module.Invariants
import Hotload.Proofs.Module.Reach

/-!
# The watch set

A module system asks to watch a source as soon as the source is requested, before anything about it can
fail. So the watched files are those that were requested, the subscriber was asked for each of them
once, and their records say so.

* `Registry.marked`: what the record of a path says of its being watched.
* `WatchesRequested`: the watcher, the subscriber and the records are in step with the requests.
* `Chronicle.Unasked`: what a system does between two requests for scripts.
* `Chronicle.keeps_serve`: every request from outside keeps them in step.
* `watches_requested_sources`: so they are in step after all requests.
-/

namespace Hotload

/-! ## Marks in records -/

namespace Registry

/-- The record of a path says that the path is watched. -/
def marked (r : Registry) (p : Path) : Bool := (r.find? p).any (·.watched)

variable {f : ModuleRecord → ModuleRecord}

theorem marked_update_of_eq (hpath : ∀ record, (f record).path = record.path)
    (hwatched : ∀ record, (f record).watched = record.watched) (r : Registry) (p q : Path) :
    (r.update p f).marked q = r.marked q := by
  rw [marked, find?_update hpath]
  split
  next hpq =>
    rw [marked, ← find?_congr r hpq, Option.any_some, hwatched]
    cases r.find? p <;> rfl
  next => rfl

theorem marked_setExports (r : Registry) (p : Path) (v : Value) (q : Path) :
    (r.setExports p v).marked q = r.marked q :=
  marked_update_of_eq (fun _ => by rfl) (fun _ => by rfl) r p q

theorem marked_setCompiled (r : Registry) (p : Path) (program : List Syntax.Stmt) (q : Path) :
    (r.setCompiled p program).marked q = r.marked q :=
  marked_update_of_eq (fun _ => by rfl) (fun _ => by rfl) r p q

theorem marked_retire (r : Registry) (p q : Path) : (r.retire p).marked q = r.marked q := by
  rw [marked, find?_retire, marked]

theorem marked_setScope (r : Registry) (p : Path) (scope : ScopeRef) (q : Path) :
    (r.setScope p scope).marked q = r.marked q :=
  (marked_update_of_eq (fun _ => by rfl) (fun _ => by rfl) _ p q).trans (marked_retire r p q)

theorem marked_removeExports (r : Registry) (p q : Path) :
    (r.removeExports p).marked q = r.marked q := by
  unfold removeExports
  split
  · exact (marked_update_of_eq (fun _ => by rfl) (fun _ => by rfl) _ p q).trans (marked_retire r p q)
  · rfl

theorem marked_invalidate (r : Registry) (p q : Path) : (r.invalidate p).marked q = r.marked q := by
  simp only [marked, find?, invalidate, List.find?_map, Function.comp_def]
  cases r.records.find? (·.path.same q) <;> rfl

theorem marked_markWatched (r : Registry) (p q : Path) :
    (r.markWatched p).marked q = (p.same q || r.marked q) := by
  rw [marked, markWatched, find?_update fun _ => by rfl]
  cases p.same q <;> rfl

end Registry

namespace Watcher

variable {w : Watcher} {p q : Path}

theorem isWatched_iff : w.isWatched q = true ↔ ∃ p ∈ w.watched, p.same q = true := List.any_eq_true

theorem isWatched_congr (h : p.same q = true) : w.isWatched p = w.isWatched q := by
  simp only [isWatched, Path.same_right h]

theorem isWatched_add (w : Watcher) (p q : Path) :
    (w.add p).isWatched q = (p.same q || w.isWatched q) := rfl

/-- Nothing is watched yet. -/
def Fresh (w : Watcher) : Prop := w.watched = [] ∧ w.asked = []

end Watcher

/-! ## What is in step -/

/-- The two systems watch the same files, and their records say the same of it. -/
structure ModuleSystem.SameWatches (s s' : ModuleSystem) : Prop where
  options : s'.options = s.options
  watcher : s'.watcher = s.watcher
  marked : ∀ p, s'.registry.marked p = s.registry.marked p

/-- A source is requested: a script that belongs to no dependency. -/
def Requested (options : Options) (events : List ModuleEvent) (p : Path) : Prop :=
  ∃ asker q, .asked asker q ∈ events ∧ options.resolve.isDependency q = false ∧ q.same p = true

/-- A system with some options watches what is requested of it and what it watched before. -/
structure WatchesRequested (options : Options) (before : List Path) (c : Chronicle) : Prop where
  sameOptions : c.system.options = options
  /-- All that are asked for are scripts. -/
  scripts : ∀ {asker q}, .asked asker q ∈ c.events → options.isScript q = true
  watched : ∀ p, c.system.watcher.isWatched p = true ↔ Requested options c.events p
  grown : before <:+ c.system.watcher.watched
  once : c.system.watcher.watched.Pairwise fun p q => p.same q = false
  /-- The subscriber is asked for the watched files and for nothing else. -/
  asked : c.system.watcher.asked =
    if c.system.watcher.subscriber.isSome then c.system.watcher.watched else []
  marked : ∀ p, c.system.registry.marked p = c.system.watcher.isWatched p

namespace Chronicle

open Syntax (Stmt)
open ModuleSystem (SameWatches)

/-- Time passes in which no script is asked for and no file is watched. -/
structure Unasked (c c' : Chronicle) : Prop where
  system : SameWatches c.system c'.system
  events : ∃ new, c'.events = c.events ++ new ∧ ∀ asker p, .asked asker p ∉ new

variable {options : Options} {before : List Path} {c c' : Chronicle} {p : Path}

theorem Unasked.of_system {s : ModuleSystem} (h : SameWatches c.system s) :
    Unasked c ⟨s, c.events⟩ :=
  ⟨h, [], by simp, by simp⟩

theorem requested_append {events new : List ModuleEvent} (hnew : ∀ asker p, .asked asker p ∉ new)
    (p : Path) : Requested options (events ++ new) p ↔ Requested options events p := by
  simp [Requested, hnew]

theorem keeps_unasked (h : WatchesRequested options before c) (hc : Unasked c c') :
    WatchesRequested options before c' := by
  obtain ⟨⟨hoptions, hwatcher, hmarked⟩, new, hnew, hunasked⟩ := hc
  refine ⟨hoptions.trans h.sameOptions, fun {asker q} hq => ?_, fun p => ?_, hwatcher ▸ h.grown,
    hwatcher ▸ h.once, hwatcher ▸ h.asked, fun p => ?_⟩
  · rw [hnew] at hq
    exact h.scripts ((List.mem_append.1 hq).resolve_right (hunasked asker q))
  · rw [hwatcher, hnew, requested_append hunasked]
    exact h.watched p
  · rw [hwatcher, hmarked]
    exact h.marked p

/-! ## A request for a script -/

theorem requested_snoc {events : List ModuleEvent} (asker q p : Path) :
    Requested options (events ++ [.asked asker q]) p ↔
      Requested options events p ∨ options.resolve.isDependency q = false ∧ q.same p = true := by
  constructor
  · rintro ⟨a, r, hr, hdep, hsame⟩
    rcases List.mem_append.1 hr with hr | hr
    · exact .inl ⟨a, r, hr, hdep, hsame⟩
    · cases List.mem_singleton.1 hr
      exact .inr ⟨hdep, hsame⟩
  · rintro (⟨a, r, hr, hdep, hsame⟩ | ⟨hdep, hsame⟩)
    · exact ⟨a, r, List.mem_append_left _ hr, hdep, hsame⟩
    · exact ⟨asker, q, List.mem_append_right _ (List.mem_singleton_self _), hdep, hsame⟩

theorem host_after_watchSource (p : Path) (m : Machine ModuleSystem) :
    ((ModuleSystem.watchSource p).after m).host =
      if m.host.options.resolve.isDependency p = false then
        (ModuleSystem.watched p (m.world, m.host)).2
      else m.host := by
  change ((if !m.host.options.resolve.isDependency p then ModuleSystem.watch p else pure () :
    Run ModuleSystem Unit).after m).host = _
  cases m.host.options.resolve.isDependency p <;> rfl

/-- A script of a dependency is asked for, or a source that is watched already. -/
theorem keeps_asked_old (h : WatchesRequested options before c) (asker : Path)
    (hscript : options.isScript p = true)
    (hold : options.resolve.isDependency p = false → c.system.watcher.isWatched p = true) :
    WatchesRequested options before (c.snoc (.asked asker p)) where
  sameOptions := h.sameOptions
  scripts {_ _} hq := (List.mem_append.1 hq).elim h.scripts fun hq => by
    cases List.mem_singleton.1 hq
    exact hscript
  watched q := by
    refine (h.watched q).trans ((requested_snoc asker p q).trans (or_iff_left_of_imp ?_)).symm
    rintro ⟨hdep, hsame⟩
    rw [← h.watched, ← Watcher.isWatched_congr hsame]
    exact hold hdep
  grown := h.grown
  once := h.once
  asked := h.asked
  marked := h.marked

/-- A source is asked for that is not watched yet. -/
theorem keeps_asked_new (h : WatchesRequested options before c) (asker : Path)
    (hscript : options.isScript p = true) (hdep : options.resolve.isDependency p = false)
    (hnew : c.system.watcher.isWatched p = false) :
    WatchesRequested options before
      ⟨{ c.system with
          watcher := c.system.watcher.add p, registry := c.system.registry.markWatched p },
        c.events ++ [.asked asker p]⟩ where
  sameOptions := h.sameOptions
  scripts {_ _} hq := (List.mem_append.1 hq).elim h.scripts fun hq => by
    cases List.mem_singleton.1 hq
    exact hscript
  watched q := by
    rw [requested_snoc, ← h.watched, Watcher.isWatched_add, Bool.or_eq_true, or_comm,
      and_iff_right hdep]
  grown := h.grown.trans (List.suffix_cons p _)
  once := by
    refine List.pairwise_cons.2 ⟨fun q hq => ?_, h.once⟩
    rw [Watcher.isWatched, List.any_eq_false] at hnew
    rw [Path.same_comm]
    simpa using hnew q hq
  asked := by
    have hasked := h.asked
    by_cases hsome : c.system.watcher.subscriber.isSome = true
    · rw [if_pos hsome] at hasked
      simp only [Watcher.add, if_pos hsome, hasked]
    · rw [if_neg hsome] at hasked
      simp only [Watcher.add, if_neg hsome, hasked]
  marked q := by
    rw [Registry.marked_markWatched, h.marked, Watcher.isWatched_add]

/-- A script is asked for, and then watched. -/
def ask (asker p : Path) : Run Chronicle Unit := do
  note (.asked asker p)
  inSystem (ModuleSystem.watchSource p)

theorem host_after_ask (asker p : Path) (m : Machine Chronicle) :
    ((ask asker p).after m).host =
      ⟨if m.host.system.options.resolve.isDependency p = false then
          (ModuleSystem.watched p (m.world, m.host.system)).2
        else m.host.system, m.host.events ++ [.asked asker p]⟩ := by
  have hafter : ((ask asker p).after m).host =
      ⟨((ModuleSystem.watchSource p).after { m with host := m.host.system }).host,
        m.host.events ++ [.asked asker p]⟩ := rfl
  rw [hafter, host_after_watchSource]

theorem keeps_ask {m : Machine Chronicle} (h : WatchesRequested options before m.host) (asker : Path)
    (hscript : options.isScript p = true) :
    WatchesRequested options before ((ask asker p).after m).host := by
  rw [host_after_ask, h.sameOptions]
  by_cases hdep : options.resolve.isDependency p = false
  · rw [if_pos hdep]
    cases hold : m.host.system.watcher.isWatched p with
    | true =>
      have hsame : (ModuleSystem.watched p (m.world, m.host.system)).2 = m.host.system := by
        simp [ModuleSystem.watched, Watcher.watch, hold]
      rw [hsame]
      exact keeps_asked_old h asker hscript fun _ => hold
    | false =>
      have hadd : (ModuleSystem.watched p (m.world, m.host.system)).2 =
          { m.host.system with
            watcher := m.host.system.watcher.add p
            registry := m.host.system.registry.markWatched p } := by
        simp [ModuleSystem.watched, Watcher.watch, hold]
      rw [hadd]
      exact keeps_asked_new h asker hscript hdep hold
  · rw [if_neg hdep]
    exact keeps_asked_old h asker hscript fun hsource => absurd hsource hdep

/-! ## Steps of the system -/

/-- One run, and what holds of its chronicle all along. -/
def keeping (P : Chronicle → Prop) : Likeness Chronicle Chronicle :=
  .identical Unit fun _ e₁ e₂ => e₁ = e₂ ∧ P e₁.2

section

variable {α : Type} {P : Chronicle → Prop} {i : Unit} {m m₁ m₂ : Machine Chronicle}

theorem meets_keeping_iff : (keeping P).Meets i m₁ m₂ ↔ m₁ = m₂ ∧ P m₁.host := by
  constructor
  · rintro ⟨⟨hheap, he, hP⟩, hrunning, hnesting, -⟩
    obtain ⟨heap, world, running, nesting, host⟩ := m₂
    cases hheap
    cases he
    cases hrunning
    cases hnesting
    exact ⟨rfl, hP⟩
  · rintro ⟨rfl, hP⟩
    exact ⟨⟨rfl, rfl, hP⟩, rfl, rfl, fun _ _ => trivial⟩

theorem agree_keeping {x : Run Chronicle α}
    (hx : ∀ m, P m.host → m.SameCalls (x.after m) ∧ P (x.after m).host) :
    (keeping P).Agree i (fun _ => Eq) x x := by
  intro j _ m₁ m₂ hm
  obtain ⟨rfl, hP⟩ := meets_keeping_iff.1 hm
  refine ⟨⟨j, le_rfl, ?_, meets_keeping_iff.2 ⟨rfl, (hx m₁ hP).2⟩⟩, (hx m₁ hP).1⟩
  cases x.outcome m₁ with
  | ok a => exact .ok rfl
  | error e => exact .error e

/-- What agrees with itself keeps what is said of the chronicle. -/
theorem keeps_of_agree {Q : Unit → α → α → Prop} {x : Run Chronicle α}
    (hx : (keeping P).Agree () Q x x) (hP : P m.host) : P (x.after m).host := by
  obtain ⟨⟨_, -, -, hmeets⟩, -⟩ := hx.at (meets_keeping_iff.2 ⟨rfl, hP⟩)
  exact (meets_keeping_iff.1 hmeets).2

end

/-- One run of a system that watches what is requested of it. -/
abbrev watching (options : Options) (before : List Path) : Likeness Chronicle Chronicle :=
  keeping (WatchesRequested options before)

section

variable {α : Type} {i : Unit} {m : Machine Chronicle} {runner run₁ run₂ : Runner Chronicle}

theorem agree_unasked {x : Run Chronicle α}
    (hx : ∀ m, m.SameCalls (x.after m) ∧ Unasked m.host (x.after m).host) :
    (watching options before).Agree i (fun _ => Eq) x x :=
  agree_keeping fun m h => ⟨(hx m).1, keeps_unasked h (hx m).2⟩

theorem sameCalls_inSystem {x : Run ModuleSystem α}
    (hx : ∀ m : Machine ModuleSystem, m.SameCalls (x.after m)) (m : Machine Chronicle) :
    m.SameCalls ((inSystem x).after m) :=
  have h := hx { m with host := m.host.system }
  ⟨h.nesting, h.base, h.stack⟩

theorem agree_ofSystem {x : Run ModuleSystem α}
    (hx : ∀ m : Machine ModuleSystem, m.SameCalls (x.after m) ∧ SameWatches m.host (x.after m).host) :
    (watching options before).Agree i (fun _ => Eq) (inSystem x) (inSystem x) :=
  agree_unasked fun m =>
    ⟨sameCalls_inSystem (fun m => (hx m).1) m, .of_system (hx { m with host := m.host.system }).2⟩

theorem agree_onRegistry {f : Registry → Registry} (hf : ∀ r p, (f r).marked p = r.marked p) :
    (watching options before).Agree i (fun _ => Eq) (inSystem (ModuleSystem.onRegistry f))
      (inSystem (ModuleSystem.onRegistry f)) :=
  agree_ofSystem fun _ => ⟨.of_eq rfl rfl, rfl, rfl, hf _⟩

theorem agree_note {e : ModuleEvent} (he : ∀ asker p, e ≠ .asked asker p) :
    (watching options before).Agree i (fun _ => Eq) (note e) (note e) :=
  agree_unasked fun _ => ⟨.of_eq rfl rfl, ⟨rfl, rfl, fun _ => rfl⟩, [e], rfl, fun asker p h =>
    he asker p (List.mem_singleton.1 h).symm⟩

theorem agree_modifyWorld_same (f : World → World) :
    (watching options before).Agree i (fun _ => Eq) (Run.modifyWorld f) (Run.modifyWorld f) :=
  agree_keeping fun _ h => ⟨.of_eq rfl rfl, h⟩

theorem agree_heap_same (f : Heap → α × Heap) :
    (watching options before).Agree i (fun _ => Eq) (Run.onHeap f) (Run.onHeap f) :=
  agree_keeping fun _ h => ⟨.of_eq rfl rfl, h⟩

theorem sameWatches_program (p : Path) (m : Machine ModuleSystem) :
    SameWatches m.host ((ModuleSystem.program p).after m).host := by
  obtain ⟨world, cache, registry, hafter, -, hregistry⟩ := ModuleSystem.after_program p m
  rw [hafter]
  refine ⟨rfl, rfl, fun q => ?_⟩
  rcases hregistry with rfl | ⟨body, rfl⟩
  · rfl
  · exact Registry.marked_setCompiled _ p body q

theorem host_after_locate (specifier : String) (dir : Path) (m : Machine ModuleSystem) :
    ((ModuleSystem.locate specifier dir).after m).host = m.host := by
  change ((Run.ofExcept (m.host.options.resolve.locate specifier dir m.world).1).after _).host = _
  rw [Run.after_ofExcept]

theorem host_after_find (specifier : String) (dir : Path) (m : Machine ModuleSystem) :
    ((ModuleSystem.find specifier dir).after m).host = m.host := by
  unfold ModuleSystem.find
  split
  · rfl
  · exact host_after_locate specifier dir m

theorem host_after_resolve (specifier : String) (dir : Path) (m : Machine ModuleSystem) :
    ((ModuleSystem.resolve specifier dir).after m).host = m.host := by
  unfold ModuleSystem.resolve
  rw [Run.after_bind_ok (m := m) (a := m) rfl]
  cases m.host.overrides.lookup specifier with
  | some value => rfl
  | none =>
    dsimp only
    split
    · rfl
    · change ((ModuleSystem.locate specifier dir >>= fun p => pure (Resolution.file p)).after m).host = _
      have hlocate := host_after_locate specifier dir m
      cases hfound : (ModuleSystem.locate specifier dir).outcome m with
      | ok p =>
        rw [Run.after_bind_ok hfound]
        exact hlocate
      | error e =>
        rw [Run.after_bind_error hfound]
        exact hlocate

theorem host_after_requireData (p : Path) (m : Machine ModuleSystem) :
    ((ModuleSystem.requireData p).after m).host = m.host := by
  unfold ModuleSystem.requireData
  rw [Run.after_bind_ok (m := m) (a := m) rfl]
  change ((Run.ofExcept (loadFile m.world.files p m.heap) >>= _).after m).host = m.host
  generalize loadFile m.world.files p m.heap = loaded
  cases loaded <;> rfl

theorem agree_ofSystem_of_host {x : Run ModuleSystem α}
    (hx : ∀ m : Machine ModuleSystem, m.SameCalls (x.after m) ∧ (x.after m).host = m.host) :
    (watching options before).Agree i (fun _ => Eq) (inSystem x) (inSystem x) :=
  agree_ofSystem fun m => ⟨(hx m).1, by rw [(hx m).2]; exact ⟨rfl, rfl, fun _ => rfl⟩⟩

/-! ## Bodies -/

theorem agree_watching_runBody (hr : (watching options before).Runners run₁ run₂)
    (program : List Stmt) (p : Path) (exports : ObjectRef) :
    (watching options before).Agree i (fun _ => Eq) (runBody run₁ program p exports)
      (runBody run₂ program p exports) := by
  refine (agree_heap_same _).bind fun i₁ _ a b hab => ?_
  subst hab
  refine (agree_onRegistry fun r q => Registry.marked_setScope r p a.1 q).bind fun i₂ _ _ _ _ => ?_
  refine (agree_modifyWorld_same _).bind fun i₃ _ _ _ _ => ?_
  refine (hr i₃ program a.1 a.1 p rfl trivial).bind fun i₄ _ _ _ _ => ?_
  exact .heap_bind fun i₅ _ m₁ m₂ hm => .pure hm (by rw [hm.alike.1])

theorem agree_watching_conclude (p : Path) (outcome : Except LoadError Value) :
    (watching options before).Agree i (fun _ => Eq) (conclude p outcome) (conclude p outcome) := by
  cases outcome with
  | ok value =>
    refine (agree_onRegistry fun r q => Registry.marked_setExports r p value q).bind
      fun i₁ _ _ _ _ => ?_
    exact (agree_note (by simp)).bind fun _ _ _ _ _ => .pure fun _ _ => rfl
  | error e =>
    refine (agree_onRegistry fun r q => Registry.marked_removeExports r p q).bind
      fun i₁ _ _ _ _ => ?_
    exact (agree_note (by simp)).bind fun _ _ _ _ _ => .throw e

theorem agree_watching_evaluate (hr : (watching options before).Runners run₁ run₂)
    (program : List Stmt) (p : Path) :
    (watching options before).Agree i (fun _ => Eq) (evaluate run₁ program p)
      (evaluate run₂ program p) := by
  refine (agree_heap_same _).bind fun i₁ _ exports _ h => ?_
  subst h
  refine (agree_onRegistry fun r q => Registry.marked_setExports r p _ q).bind
    fun i₂ _ _ _ _ => ?_
  refine (agree_note (by simp)).bind fun i₃ _ _ _ _ => ?_
  refine Run.agree_observe_bind (agree_watching_runBody hr program p exports) fun i₄ _ o₁ o₂ ho => ?_
  have hsame : o₁ = o₂ := by
    cases ho with
    | ok h => rw [h]
    | error e => rfl
  subst hsame
  exact agree_watching_conclude p o₁

/-! ## Requests of programs -/

theorem agree_requireCore (name : String) :
    (watching options before).Agree i (fun _ => Eq) (inSystem (ModuleSystem.requireCore name))
      (inSystem (ModuleSystem.requireCore name)) :=
  agree_ofSystem fun m => by
    obtain ⟨core, hhost, -⟩ := host_after_requireCore name m
    refine ⟨(ModuleSystem.keeps_requireCore name m).calls, ?_⟩
    rw [hhost]
    exact ⟨rfl, rfl, fun _ => rfl⟩

/-- The exports of a script that has been asked for. -/
def exportsOf (runner : Runner Chronicle) (p : Path) : Run Chronicle Value := do
  match (← get).host.system.registry.exports? p with
  | some exports => return exports
  | none => evaluate runner (← inSystem (ModuleSystem.program p)) p

theorem agree_exportsOf (hr : (watching options before).Runners run₁ run₂) (p : Path) :
    (watching options before).Agree i (fun _ => Eq) (exportsOf run₁ p) (exportsOf run₂ p) := by
  refine .get_bind fun i₁ _ m₁ m₂ hm => ?_
  obtain ⟨rfl, -⟩ := meets_keeping_iff.1 hm
  cases m₁.host.system.registry.exports? p with
  | some exports => exact .pure hm rfl
  | none =>
    refine ((agree_ofSystem fun m => ⟨(ModuleSystem.keeps_program p m).calls,
      sameWatches_program p m⟩).at hm).bind fun i₂ _ program _ h => ?_
    subst h
    exact agree_watching_evaluate hr program p

/-- The answer to a request for a script is written down. -/
def answer (asker p : Path) (x : Run Chronicle Value) : Run Chronicle Value := do
  let outcome ← Run.observe x
  note (.answered asker p outcome)
  Run.ofExcept outcome

theorem agree_answer {x y : Run Chronicle Value} (asker p : Path)
    (hxy : (watching options before).Agree i (fun _ => Eq) x y) :
    (watching options before).Agree i (fun _ => Eq) (answer asker p x) (answer asker p y) := by
  refine Run.agree_observe_bind hxy fun i₁ _ o₁ o₂ ho => ?_
  have hsame : o₁ = o₂ := by
    cases ho with
    | ok h => rw [h]
    | error e => rfl
  subst hsame
  refine (agree_note (by simp)).bind fun i₂ _ _ _ _ => ?_
  cases o₁ with
  | ok value => exact .pure fun _ _ => rfl
  | error e => exact .throw e

theorem run_eq (x : Run Chronicle α) (m : Machine Chronicle) :
    x.run m = (x.outcome m, x.after m) := rfl

theorem run_answer (asker p : Path) (x : Run Chronicle Value) (m : Machine Chronicle) :
    (answer asker p x).run m =
      (x.outcome m, noted (x.after m) (.answered asker p (x.outcome m))) := by
  rw [answer, Run.run_observe_bind, run_note_bind]
  exact Prod.ext (Run.outcome_ofExcept _ _) (Run.after_ofExcept _ _)

theorem after_ask (asker p : Path) (m : Machine Chronicle) :
    (ask asker p).after m =
      (inSystem (ModuleSystem.watchSource p)).after (noted m (.asked asker p)) :=
  Run.after_bind_ok (x := note (.asked asker p)) (a := ()) rfl

theorem outcome_ask (asker p : Path) (m : Machine Chronicle) : (ask asker p).outcome m = .ok () :=
  (Run.outcome_bind_ok (x := note (.asked asker p)) (a := ()) rfl).trans
    (ModuleSystem.outcome_watchSource p { noted m (.asked asker p) with host := m.host.system })

theorem requireScript_eq (runner : Runner Chronicle) (p : Path) :
    requireScript runner p =
      (inSystem (ModuleSystem.watchSource p) >>= fun _ => exportsOf runner p) := rfl

theorem run_requireScript_asked (runner : Runner Chronicle) (asker p : Path)
    (m : Machine Chronicle) :
    (requireScript runner p).run (noted m (.asked asker p)) =
      ((exportsOf runner p).outcome ((ask asker p).after m),
        (exportsOf runner p).after ((ask asker p).after m)) := by
  rw [requireScript_eq, after_ask]
  have hwatch : (inSystem (ModuleSystem.watchSource p)).outcome (noted m (.asked asker p)) = .ok () :=
    ModuleSystem.outcome_watchSource p { noted m (.asked asker p) with host := m.host.system }
  refine (Run.run_bind_ok hwatch rfl).trans ?_
  exact run_eq _ _

/-- A request for a script comes down to asking for it and, once that is done, to an answer. -/
theorem run_requireModule_ask (h : m.host.system.options.isScript (meant m p) = true) :
    (requireModule runner p).run m =
      (ask (asker m) (meant m p) >>= fun _ =>
        answer (asker m) (meant m p) (exportsOf runner (meant m p))).run m := by
  rw [Run.run_bind_ok (outcome_ask (asker m) (meant m p) m) rfl, run_answer]
  exact run_requireModule h (run_requireScript_asked runner (asker m) (meant m p) m)

theorem agree_watching_requireModule (hr : (watching options before).Runners run₁ run₂)
    (p : Path) :
    (watching options before).Agree i (fun _ => Eq) (requireModule run₁ p)
      (requireModule run₂ p) := by
  intro j _ m₁ m₂ hm
  obtain ⟨rfl, hwatching⟩ := meets_keeping_iff.1 hm
  by_cases hscript : m₁.host.system.options.isScript (meant m₁ p) = true
  · have hask : (watching options before).Agree j (fun _ => Eq) (ask (asker m₁) (meant m₁ p))
        (ask (asker m₁) (meant m₁ p)) := by
      refine agree_keeping fun m h => ⟨?_, keeps_ask h _ (hwatching.sameOptions ▸ hscript)⟩
      have hnoted : m.SameCalls (noted m (.asked (asker m₁) (meant m₁ p))) := .of_eq rfl rfl
      rw [after_ask]
      exact hnoted.trans (sameCalls_inSystem
        (fun m => (ModuleSystem.keeps_watchSource (meant m₁ p) m).calls) _)
    have hrest := agree_answer (i := j) (asker m₁) (meant m₁ p) (agree_exportsOf hr (meant m₁ p))
    exact ((hask.bind fun _ _ _ _ _ => hrest).at hm).congr (run_requireModule_ask hscript)
      (run_requireModule_ask hscript)
  · have hrun (runner : Runner Chronicle) : (requireModule runner p).run m₁ =
        (inSystem (ModuleSystem.requireData (meant m₁ p))).run m₁ := by
      unfold requireModule
      refine (Run.run_bind_ok rfl rfl).trans ?_
      exact congrArg (fun x : Run Chronicle Value => x.run _) (if_neg hscript)
    refine ((agree_ofSystem_of_host fun m =>
      ⟨(ModuleSystem.keeps_requireData _ m).calls, host_after_requireData _ m⟩).at hm).congr (hrun run₁)
      (hrun run₂)

theorem hosts_watching : (watching options before).Hosts host host where
  require := by
    intro run₁ run₂ hr i specifier dir
    refine (agree_ofSystem_of_host fun m => ⟨(ModuleSystem.keeps_resolve specifier dir m).calls,
      host_after_resolve specifier dir m⟩).bind fun i₁ _ found _ h => ?_
    subst h
    cases found with
    | override value => exact .pure fun _ _ => Value.paired_same value
    | core name =>
      exact (agree_requireCore name).mono fun _ _ _ _ h => Value.paired_same_iff.2 h
    | file p =>
      exact (agree_watching_requireModule hr p).mono fun _ _ _ _ h => Value.paired_same_iff.2 h
  find i specifier dir :=
    agree_ofSystem_of_host fun m =>
      ⟨(ModuleSystem.keeps_find specifier dir m).calls, host_after_find specifier dir m⟩
  sourcePosition := by
    rintro i h₁ h₂ e₁ e₂ p ⟨-, rfl, -⟩ - pos
    rfl

/-! ## Requests from outside -/

/-- Requests for scripts, nested or not, and all that happens around them keep the watcher, the
subscriber and the records in step. -/
theorem keeps_serve (h : WatchesRequested options before m.host) (request : Request) :
    WatchesRequested options before (serve m request).host := by
  have hhosts : (watching options before).Hosts host host := hosts_watching
  have hrunners := Likeness.runners_runModule hhosts
  cases request with
  | load p => exact keeps_of_agree (agree_watching_requireModule hrunners p) h
  | require specifier dir =>
    exact keeps_of_agree (hhosts.require hrunners () specifier dir) h
  | call callee args =>
    exact keeps_of_agree (Likeness.agree_callFromOutside hhosts (Value.paired_same callee)
      (Value.listPaired_same_iff.2 rfl)) h
  | invalidate p =>
    refine keeps_unasked h ⟨⟨rfl, rfl, fun q => Registry.marked_invalidate _ p q⟩, [.invalidated p],
      rfl, by simp⟩
  | release =>
    refine keeps_of_agree (agree_ofSystem fun m => ?_) h
    obtain ⟨world, -, hrelease⟩ := ModuleSystem.run_release m
    rw [Run.after, hrelease]
    exact ⟨.of_eq rfl rfl, rfl, rfl, fun _ => rfl⟩
  | outside f => exact h

theorem keeps_served (h : WatchesRequested options before m.host) (history : List Request) :
    WatchesRequested options before (history.foldl serve m).host := by
  induction history generalizing m with
  | nil => exact h
  | cons request history ih => exact ih (keeps_serve h request)

end

end Chronicle

/-- A new system watches nothing, and nothing is requested. -/
theorem watchesRequested_start (x : Setting) (hfresh : x.watcher.Fresh) :
    WatchesRequested x.options [] ⟨x.start.host, []⟩ where
  sameOptions := rfl
  scripts h := absurd h List.not_mem_nil
  watched p := by
    refine iff_of_false ?_ ?_
    · rw [Watcher.isWatched_iff]
      rintro ⟨q, hq, -⟩
      exact List.not_mem_nil (hfresh.1 ▸ hq)
    · rintro ⟨_, _, h, -⟩
      exact List.not_mem_nil h
  grown := List.nil_suffix
  once := by
    change x.watcher.watched.Pairwise _
    rw [hfresh.1]
    exact .nil
  asked := by
    change x.watcher.asked = if x.watcher.subscriber.isSome then x.watcher.watched else []
    rw [hfresh.1, hfresh.2, ite_self]
  marked p := by
    change false = x.watcher.watched.any (·.same p)
    rw [hfresh.1]
    rfl

/-- After any requests a module system watches exactly the sources that were requested, whatever came
of the requests. Its watcher grows only, its subscriber was asked for each watched file once and for
nothing else, and exactly the records of watched files are marked. -/
theorem watches_requested_sources (x : Setting) (hfresh : x.watcher.Fresh)
    (history later : List Request) :
    x.recorded (history ++ later) =
        Chronicle.chronicled (x.reached (history ++ later)) (x.chronicle (history ++ later)) ∧
      WatchesRequested x.options (x.reached history).host.watcher.watched
        (x.chronicle (history ++ later)) := by
  refine ⟨x.recorded_eq _, ?_⟩
  have hsystem (requests : List Request) : (x.recorded requests).host = x.chronicle requests := by
    rw [x.recorded_eq]
    rfl
  have hnow : WatchesRequested x.options [] (x.recorded history).host :=
    Chronicle.keeps_served (m := Chronicle.chronicled x.start ⟨x.start.host, []⟩)
      (watchesRequested_start x hfresh) history
  have hsince : WatchesRequested x.options (x.reached history).host.watcher.watched
      (x.recorded history).host := by
    rw [hsystem] at hnow ⊢
    exact { hnow with grown := List.suffix_rfl }
  have hserved := Chronicle.keeps_served hsince later
  rwa [Setting.recorded, ← List.foldl_append, ← Setting.recorded, hsystem] at hserved

/-- A system without any files. -/
def noFiles : Setting where
  heap := .empty
  world := ⟨.empty, .empty false, []⟩
  overrides := []
  options := { Options.default with sourceMap := .off }
  compiler := transpile
  store := .none
  watcher := .ofSubscriber fun _ => true

/-- A source that cannot be read is watched, and asked for once however often it is requested. -/
theorem missing_source_is_watched :
    let a : Path := ⟨"/a.rl"⟩
    let history : List Request := [.load a, .invalidate a, .load a]
    noFiles.watcher.Fresh ∧
      ((ModuleSystem.load a).outcome (noFiles.reached history)).toOption.isNone = true ∧
      Requested noFiles.options (noFiles.events history) a ∧
      (noFiles.reached history).host.watcher.asked = [a] ∧
      (noFiles.reached history).host.registry.marked a = true := by
  intro a history
  have hfresh : noFiles.watcher.Fresh := ⟨rfl, rfl⟩
  have hrun : ((ModuleSystem.load a).outcome (noFiles.reached history)).toOption.isNone = true ∧
      (noFiles.reached history).host.watcher.asked = [a] ∧
      (noFiles.reached history).host.watcher.isWatched a = true := by
    decide +kernel
  obtain ⟨hfails, hasked, hwatched⟩ := hrun
  have hstep := (watches_requested_sources noFiles hfresh [] history).2
  generalize history = requests at *
  exact ⟨hfresh, hfails, (hstep.watched a).1 hwatched, hasked, (hstep.marked a).trans hwatched⟩

end Hotload
