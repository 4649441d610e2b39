import Mathlib
import Hotload.Proofs.Evaluation.Identical
import Hotload.Proofs.Module.Chronicle
import Hotload.Proofs.Module.Hosting

/-!
# Invariants of a module system

Programs change what is outside of them by the steps of the module system only. What each of these
steps keeps, every request keeps that runs programs.

* `SystemSteps`: each step of a module system keeps what is said.
* `SystemSteps.laws`: a module system agrees with itself then, and what is kept holds all along.
* `SystemSteps.serve`: so every request keeps it.
* `SystemInvariant`: what is said of the files and the modules alone.
-/

namespace Hotload

open ModuleSystem

/-- The request is neither an invalidation nor a change of the world. -/
def Request.IsServed : Request → Prop
  | .load _ | .require .. | .call .. | .release => True
  | .invalidate _ | .outside _ => False

/-- The steps of a module system over some file trees keep what is said of it and of the world. -/
structure SystemSteps (trees : Set FileTree) (options : Options) (P : Outside → Prop) : Prop where
  sameFiles : ∀ {e}, P e → e.1.files ∈ trees
  sameOptions : ∀ {e}, P e → e.2.options = options
  log : ∀ {e}, P e → ∀ part message, P (logged part message e)
  watch : ∀ {e}, P e → ∀ p, P (watched p e)
  setScope : ∀ {e}, P e → ∀ p r, P (registered (·.setScope p r) e)
  setExports : ∀ {e}, P e → ∀ p v, P (registered (·.setExports p v) e)
  removeExports : ∀ {e}, P e → ∀ p, P (registered (·.removeExports p) e)
  withCore : ∀ {world s}, P (world, s) → ∀ core, P (world, { s with core })
  program : ∀ {m p}, P (m.world, m.host) → options.isScript p = true →
    P (((program p).after m).world, ((program p).after m).host)
  release : ∀ {m}, P (m.world, m.host) → P ((release.after m).world, (release.after m).host)

/-- The steps of a module system over some file trees keep what is said of the files and of its
modules, of all that scopes and the watcher leave as it is. -/
structure SystemInvariant (trees : Set FileTree) (options : Options) (P : Outside → Prop) :
    Prop where
  sameFiles : ∀ {e}, P e → e.1.files ∈ trees
  sameOptions : ∀ {e}, P e → e.2.options = options
  same : ∀ {e e'}, P e → SameModules e e' → P e'
  setExports : ∀ {e}, P e → ∀ p v, P (registered (·.setExports p v) e)
  removeExports : ∀ {e}, P e → ∀ p, P (registered (·.removeExports p) e)
  withCore : ∀ {world s}, P (world, s) → ∀ core, P (world, { s with core })
  program : ∀ {m p}, P (m.world, m.host) → options.isScript p = true →
    P (((program p).after m).world, ((program p).after m).host)

/-- One run, and what holds all along of what is outside of the programs. -/
def keeping (P : Outside → Prop) : Likeness ModuleSystem ModuleSystem :=
  .identical Unit fun _ e₁ e₂ => e₁ = e₂ ∧ P e₁

variable {trees : Set FileTree} {options : Options} {P : Outside → Prop} {i : Unit}
  {m m₁ m₂ : Machine ModuleSystem} {p : Path}

theorem meets_keeping_iff :
    (keeping P).Meets i m₁ m₂ ↔ m₁ = m₂ ∧ P (m₁.world, m₁.host) := by
  constructor
  · rintro ⟨⟨hheap, he, hP⟩, hrunning, hnesting, -⟩
    obtain ⟨heap, world, running, nesting, host⟩ := m₂
    cases hheap
    cases he
    cases hrunning
    cases hnesting
    exact ⟨rfl, hP⟩
  · rintro ⟨rfl, hP⟩
    exact ⟨⟨rfl, rfl, hP⟩, rfl, rfl, fun _ _ => trivial⟩

theorem agreeAt_keeping {α : Type} {Q : Unit → α → α → Prop} {y : Run ModuleSystem α}
    (hm : (keeping P).Meets i m₁ m₂) (hQ : ∀ a, Q () a a) (hcalls : m₁.SameCalls (y.after m₁))
    (hP : P ((y.after m₁).world, (y.after m₁).host)) :
    (keeping P).AgreeAt i Q y y m₁ m₂ := by
  obtain ⟨rfl, -⟩ := meets_keeping_iff.1 hm
  refine ⟨⟨(), le_rfl, ?_, meets_keeping_iff.2 ⟨rfl, hP⟩⟩, hcalls⟩
  cases y.outcome m₁ with
  | ok a => exact .ok (hQ a)
  | error e => exact .error e

theorem host_after_requireCore (name : String) (m : Machine ModuleSystem) :
    ∃ core, ((requireCore name).after m).host = { m.host with core } ∧
      ((requireCore name).after m).world = m.world := by
  rw [Run.after, run_requireCore]
  split
  · exact ⟨m.host.core, rfl, rfl⟩
  · split
    · exact ⟨_, rfl, rfl⟩
    · exact ⟨m.host.core, rfl, rfl⟩

namespace SystemSteps

variable (h : SystemSteps trees options P)

include h

theorem sameBody (hscript : options.isScript p = true) : (keeping P).SameBody i p := by
  intro j _ m₁ m₂ hm
  exact agreeAt_keeping hm (fun _ => ⟨rfl, trivial⟩) (keeps_program p m₁).calls
    (h.program (meets_keeping_iff.1 hm).2 hscript)

theorem laws : SystemLaws (keeping P) trees options where
  sameFiles := by
    rintro i h₁ h₂ e₁ e₂ ⟨-, rfl, hP⟩
    exact ⟨rfl, h.sameFiles hP⟩
  sameOptions := by
    rintro i h₁ h₂ e₁ e₂ ⟨-, rfl, hP⟩
    exact ⟨h.sameOptions hP, h.sameOptions hP⟩
  overrides := by
    rintro i h₁ h₂ e₁ e₂ ⟨-, rfl, -⟩ name
    exact optionRel_of_eq Value.paired_same rfl
  exports := by
    rintro i h₁ h₂ e₁ e₂ ⟨-, rfl, -⟩ p
    exact optionRel_of_eq Value.paired_same rfl
  sourcePosition := by
    rintro i h₁ h₂ e₁ e₂ p ⟨-, rfl, -⟩ - pos
    rfl
  log := by
    rintro i h₁ h₂ e₁ e₂ ⟨hh, rfl, hP⟩ part message
    exact ⟨hh, rfl, h.log hP part message⟩
  watch := by
    rintro i h₁ h₂ e₁ e₂ ⟨hh, rfl, hP⟩ p
    exact ⟨hh, rfl, h.watch hP p⟩
  setScope := by
    rintro i h₁ h₂ e₁ e₂ r s ⟨hh, rfl, hP⟩ rfl p
    exact ⟨hh, rfl, h.setScope hP p r⟩
  setExports := by
    rintro i h₁ h₂ e₁ e₂ v w ⟨hh, rfl, hP⟩ hv p
    obtain rfl := Value.paired_same_iff.1 hv
    exact ⟨hh, rfl, h.setExports hP p v⟩
  removeExports := by
    rintro i h₁ h₂ e₁ e₂ ⟨hh, rfl, hP⟩ p
    exact ⟨hh, rfl, h.removeExports hP p⟩
  program hscript _ := h.sameBody hscript
  requireCore := by
    intro i name j _ m₁ m₂ hm
    obtain ⟨core, hhost, hworld⟩ := host_after_requireCore name m₁
    refine agreeAt_keeping hm Value.paired_same (keeps_requireCore name m₁).calls ?_
    rw [hhost, hworld]
    exact h.withCore (meets_keeping_iff.1 hm).2 core

/-- What is kept holds after every request that is neither an invalidation nor a change of the
world. -/
theorem serve (hP : P (m.world, m.host)) {request : Request} (hrequest : request.IsServed) :
    P ((ModuleSystem.serve m request).world, (ModuleSystem.serve m request).host) ∧
      m.SameCalls (ModuleSystem.serve m request) := by
  have hlaws := h.laws
  have hhosts := Likeness.hosts_of_laws hlaws
  have hrunners := Likeness.runners_runModule hhosts
  have hrun : ∀ {α : Type} {Q : Unit → α → α → Prop} {y : Run ModuleSystem α},
      (keeping P).Agree () Q y y →
      P ((y.after m).world, (y.after m).host) ∧ m.SameCalls (y.after m) := by
    intro α Q y hagree
    obtain ⟨⟨_, -, -, hmeets⟩, hcalls⟩ := hagree.at (meets_keeping_iff.2 ⟨rfl, hP⟩)
    exact ⟨(meets_keeping_iff.1 hmeets).2, hcalls⟩
  cases request with
  | load p =>
    exact hrun (Likeness.agree_requireModule hlaws hrunners fun _ _ hscript => h.sameBody hscript)
  | require specifier dir => exact hrun (hhosts.require hrunners () specifier dir)
  | call callee args =>
    exact hrun (Likeness.agree_callFromOutside hhosts (Value.paired_same callee)
      (Value.listPaired_same_iff.2 rfl))
  | release => exact ⟨h.release hP, (keeps_release m).calls⟩
  | invalidate p => exact hrequest.elim
  | outside f => exact hrequest.elim

end SystemSteps

namespace SystemInvariant

variable (h : SystemInvariant trees options P)

include h

/-- Steps that change scopes, the watcher or the log keep what is said of the rest. -/
theorem steps : SystemSteps trees options P where
  sameFiles := h.sameFiles
  sameOptions := h.sameOptions
  log hP part message := h.same hP (sameModules_logged part message _)
  watch hP p := h.same hP (sameModules_watched p _)
  setScope hP p r := h.same hP (sameModules_setScope p r _)
  setExports := h.setExports
  removeExports := h.removeExports
  withCore := h.withCore
  program := h.program
  release := by
    intro m hP
    obtain ⟨world, hfiles, hrelease⟩ := run_release m
    rw [Run.after, hrelease]
    exact h.same hP ⟨hfiles, rfl, rfl, rfl, rfl, fun _ => rfl, fun _ => rfl⟩

theorem serve (hP : P (m.world, m.host)) {request : Request} (hrequest : request.IsServed) :
    P ((ModuleSystem.serve m request).world, (ModuleSystem.serve m request).host) ∧
      m.SameCalls (ModuleSystem.serve m request) :=
  h.steps.serve hP hrequest

end SystemInvariant

end Hotload
