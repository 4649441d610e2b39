import Mathlib
import Hotload.Proofs.Evaluation.Identical
import Hotload.Proofs.Module.Generations
import Hotload.Proofs.Module.Hosting

/-!
# Ledgers of a module system

A module system with a list of the bodies that it has run: what program, for which path, and in which
scope. The list is only written, so the system does the same with it and without it.

* `Ledger.host`: the module system as a host that keeps a ledger.
* `Ledger.forget_serve`: the ledger changes nothing.
* `Setting.runs`: the bodies that are run in the course of some requests.
-/

namespace Hotload

open Syntax (Stmt)

/-- A run of a module body. -/
structure BodyRun where
  scope : ScopeRef
  path : Path
  program : List Stmt

/-- A module system and the bodies that it has run, the earliest first. -/
structure Ledger where
  system : ModuleSystem
  runs : List BodyRun

namespace Ledger

/-- The machine without the ledger. -/
def forget (m : Machine Ledger) : Machine ModuleSystem :=
  ⟨m.heap, m.world, m.running, m.nesting, m.host.system⟩

/-- A step of the module system. -/
def inSystem {α : Type} (x : Run ModuleSystem α) : Run Ledger α := fun m =>
  let (outcome, after) := x.run (forget m)
  (outcome, { after with host := { m.host with system := after.host } })

/-- Writes down a run. -/
def note (run : BodyRun) : Run Ledger Unit :=
  Run.modifyHost fun l => { l with runs := l.runs ++ [run] }

/-- The machine with another run written down. -/
def noted (m : Machine Ledger) (run : BodyRun) : Machine Ledger :=
  { m with host := { m.host with runs := m.host.runs ++ [run] } }

/-- Runs a module body, which is written down, and gives its final exports. -/
def runBody (runner : Runner Ledger) (program : List Stmt) (p : Path) (exports : ObjectRef) :
    Run Ledger Value := do
  let (scope, record) ← Run.onHeap (ModuleSystem.newModuleScope p exports)
  inSystem (ModuleSystem.onRegistry (·.setScope p scope))
  Run.modifyWorld (·.debug "module" ("evaluating " ++ p.text))
  note ⟨scope, p, program⟩
  runner program scope p
  return ((← Run.heap).field? record "exports").getD .nil

/-- Runs a module body with its exports registered. -/
def evaluate (runner : Runner Ledger) (program : List Stmt) (p : Path) : Run Ledger Value := do
  let exports ← Run.onHeap (·.newObject [])
  inSystem (ModuleSystem.onRegistry (·.setExports p (.object exports)))
  let outcome ← Run.observe (runBody runner program p exports)
  inSystem (ModuleSystem.conclude p outcome)

/-- The exports of a script file: those that are live, or else those that its body makes. -/
def requireScript (runner : Runner Ledger) (p : Path) : Run Ledger Value := do
  inSystem (ModuleSystem.watchSource p)
  match (← get).host.system.registry.exports? p with
  | some exports => return exports
  | none => evaluate runner (← inSystem (ModuleSystem.program p)) p

/-- The exports of a file. -/
def requireModule (runner : Runner Ledger) (p : Path) : Run Ledger Value := do
  let m ← get
  let p := m.world.files.normalize p
  if m.host.system.options.isScript p then requireScript runner p
  else inSystem (ModuleSystem.requireData p)

/-- The value that a specifier names. -/
def require (runner : Runner Ledger) (specifier : String) (dir : Path) : Run Ledger Value := do
  match ← inSystem (ModuleSystem.resolve specifier dir) with
  | .override value => return value
  | .core name => inSystem (ModuleSystem.requireCore name)
  | .file p => requireModule runner p

/-- The module system as a host that keeps a ledger. -/
def host : Host Ledger where
  require := require
  find specifier dir := inSystem (ModuleSystem.find specifier dir)
  sourcePosition l p pos := ModuleSystem.host.sourcePosition l.system p pos

/-- The state that a request leaves behind, and the ledger of it. -/
def serve (m : Machine Ledger) : Request → Machine Ledger
  | .load p => (requireModule (runModule host) p).after m
  | .require specifier dir => (require (runModule host) specifier dir).after m
  | .call callee args => (callFromOutside host callee args).after m
  | .invalidate p => (inSystem (ModuleSystem.invalidate p)).after m
  | .release => (inSystem ModuleSystem.release).after m
  | .outside f => { m with world := f m.world }

/-! ## The ledger changes nothing -/

/-- A run of the module system, and the same run with a ledger. -/
def likeness : Likeness ModuleSystem Ledger :=
  .identical Unit fun _ e₁ e₂ => e₁ = (e₂.1, e₂.2.system)

section

variable {α β : Type} {Q : α → α → Prop} {m₁ : Machine ModuleSystem} {m₂ m : Machine Ledger} {i : Unit}

theorem meets_iff : likeness.Meets i m₁ m₂ ↔ m₁ = forget m₂ := by
  constructor
  · rintro ⟨⟨hheap, houtside⟩, hrunning, hnesting, -⟩
    obtain ⟨heap, world, running, nesting, host⟩ := m₁
    cases hheap
    cases houtside
    cases hrunning
    cases hnesting
    rfl
  · rintro rfl
    exact ⟨⟨rfl, rfl⟩, rfl, rfl, fun _ _ => trivial⟩

theorem agree_inSystem {x : Run ModuleSystem α}
    (hk : ∀ m : Machine ModuleSystem, m.SameCalls (x.after m)) :
    likeness.Agree i (fun _ => Eq) x (inSystem x) := by
  intro j _ m₁ m₂ hm
  cases meets_iff.1 hm
  refine ⟨⟨j, le_rfl, ?_, meets_iff.2 rfl⟩, hk _⟩
  change SameOutcome Eq (x.outcome (forget m₂)) (x.outcome (forget m₂))
  cases x.outcome (forget m₂) with
  | ok a => exact .ok rfl
  | error e => exact .error e

theorem agree_onHeap_same (f : Heap → α × Heap) :
    likeness.Agree i (fun _ => Eq) (Run.onHeap f) (Run.onHeap f) := by
  refine Likeness.agree_onHeap fun j _ h₁ h₂ e₁ e₂ ha => ?_
  obtain ⟨rfl, hk⟩ := ha
  exact ⟨j, le_rfl, rfl, rfl, hk⟩

/-- What follows a line in the log, written down or not. -/
theorem agree_noted {f : World → World} {run : BodyRun} {x : Run ModuleSystem α} {y : Run Ledger α}
    (h : likeness.Agree i (fun _ => Q) x y) :
    likeness.Agree i (fun _ => Q) (Run.modifyWorld f >>= fun _ => x)
      (Run.modifyWorld f >>= fun _ => note run >>= fun _ => y) := by
  intro j hij m₁ m₂ hm
  cases meets_iff.1 hm
  obtain ⟨hends, hcalls⟩ := h j hij _ (noted { m₂ with world := f m₂.world } run) (meets_iff.2 rfl)
  exact ⟨hends, hcalls.nesting, hcalls.base, hcalls.stack⟩

variable {run₁ : Runner ModuleSystem} {run₂ : Runner Ledger}

theorem agree_runBody (hr : likeness.Runners run₁ run₂) (program : List Stmt) (p : Path)
    (exports : ObjectRef) :
    likeness.Agree i (fun _ => Eq) (ModuleSystem.runBody run₁ program p exports)
      (runBody run₂ program p exports) := by
  refine (agree_onHeap_same _).bind fun i₁ _ a b hab => ?_
  subst hab
  refine (agree_inSystem fun m => .of_eq rfl rfl).bind fun i₂ _ _ _ _ => ?_
  refine agree_noted ?_
  refine (hr i₂ program a.1 a.1 p rfl trivial).bind fun i₃ _ _ _ _ => ?_
  exact .heap_bind fun i₄ _ m₁ m₂ hm => .pure hm (by rw [hm.alike.1])

theorem sameCalls_conclude (p : Path) (outcome : Except LoadError Value) (m : Machine ModuleSystem) :
    m.SameCalls ((ModuleSystem.conclude p outcome).after m) := by
  cases outcome <;> exact .of_eq rfl rfl

theorem agree_evaluate (hr : likeness.Runners run₁ run₂) (program : List Stmt) (p : Path) :
    likeness.Agree i (fun _ => Eq) (ModuleSystem.evaluate run₁ program p)
      (evaluate run₂ program p) := by
  rw [ModuleSystem.evaluate_eq]
  refine (agree_onHeap_same _).bind fun i₁ _ exports _ h => ?_
  subst h
  refine (agree_inSystem fun m => .of_eq rfl rfl).bind fun i₂ _ _ _ _ => ?_
  refine Run.agree_observe_bind (agree_runBody hr program p exports) fun i₃ _ o₁ o₂ ho => ?_
  have hsame : o₁ = o₂ := by
    cases ho with
    | ok h => rw [h]
    | error e => rfl
  subst hsame
  exact agree_inSystem (sameCalls_conclude p o₁)

theorem agree_requireScript (hr : likeness.Runners run₁ run₂) (p : Path) :
    likeness.Agree i (fun _ => Eq) (ModuleSystem.requireScript run₁ p) (requireScript run₂ p) := by
  refine (agree_inSystem fun m => (ModuleSystem.keeps_watchSource p m).calls).bind
    fun i₁ _ _ _ _ => .get_bind fun i₂ _ m₁ m₂ hm => ?_
  cases meets_iff.1 hm
  change likeness.AgreeAt i₂ _ (match m₂.host.system.registry.exports? p with
    | some exports => pure exports
    | none => ModuleSystem.program p >>= fun program => ModuleSystem.evaluate run₁ program p) _ _ _
  cases m₂.host.system.registry.exports? p with
  | some exports => exact .pure hm rfl
  | none =>
    refine ((agree_inSystem fun m => (ModuleSystem.keeps_program p m).calls).at hm).bind
      fun i₃ _ program _ h => ?_
    subst h
    exact agree_evaluate hr program p

theorem agree_requireModule (hr : likeness.Runners run₁ run₂) (p : Path) :
    likeness.Agree i (fun _ => Eq) (ModuleSystem.requireModule run₁ p) (requireModule run₂ p) := by
  intro j _ m₁ m₂ hm
  cases meets_iff.1 hm
  have hrun : (requireModule run₂ p).run m₂ =
      (if m₂.host.system.options.isScript (m₂.world.files.normalize p) then
        requireScript run₂ (m₂.world.files.normalize p)
      else inSystem (ModuleSystem.requireData (m₂.world.files.normalize p))).run m₂ := rfl
  by_cases hscript : m₂.host.system.options.isScript (m₂.world.files.normalize p) = true
  · rw [if_pos hscript] at hrun
    exact ((agree_requireScript hr _).at hm).congr
      (ModuleSystem.run_requireModule_script hscript) hrun
  · rw [if_neg hscript] at hrun
    exact ((agree_inSystem fun m => (ModuleSystem.keeps_requireData _ m).calls).at hm).congr
      (ModuleSystem.run_requireModule_data hscript) hrun

theorem agree_require (hr : likeness.Runners run₁ run₂) (specifier : String) (dir : Path) :
    likeness.Agree i (fun _ => Eq) (ModuleSystem.require run₁ specifier dir)
      (require run₂ specifier dir) := by
  refine (agree_inSystem fun m => (ModuleSystem.keeps_resolve specifier dir m).calls).bind
    fun i₁ _ found _ h => ?_
  subst h
  cases found with
  | override value => exact .pure fun _ _ => rfl
  | core name => exact agree_inSystem fun m => (ModuleSystem.keeps_requireCore name m).calls
  | file p => exact agree_requireModule hr p

/-- The module system and its ledger agree. -/
theorem hosts : likeness.Hosts ModuleSystem.host host where
  require hr _ specifier dir :=
    (agree_require hr specifier dir).mono fun _ _ _ _ h => Value.paired_same_iff.2 h
  find _ specifier dir := agree_inSystem fun m => (ModuleSystem.keeps_find specifier dir m).calls
  sourcePosition := by
    rintro _ h₁ h₂ e₁ e₂ p ⟨-, rfl⟩ - pos
    rfl

/-- The answer is the same as without the ledger, and so is the state. -/
theorem forget_of_agree {x : Run ModuleSystem α} {y : Run Ledger α}
    (h : likeness.Agree () (fun _ => Eq) x y) (m : Machine Ledger) :
    y.outcome m = x.outcome (forget m) ∧ forget (y.after m) = x.after (forget m) := by
  have hmeets : likeness.Meets () (forget m) m := meets_iff.2 rfl
  obtain ⟨⟨_, -, hout, hafter⟩, -⟩ := h.at hmeets
  refine ⟨?_, (meets_iff.1 hafter).symm⟩
  generalize x.outcome (forget m) = o₁ at hout
  generalize y.outcome m = o₂ at hout
  cases hout with
  | ok h => rw [h]
  | error e => rfl

end

end Ledger

/-! ## Requests -/

/-- What a request is answered with, if it asks for a value. -/
def ModuleSystem.answer (m : Machine ModuleSystem) : Request → Option (Except LoadError Value)
  | .load p => some ((ModuleSystem.load p).outcome m)
  | .require specifier dir =>
    some ((ModuleSystem.require (runModule ModuleSystem.host) specifier dir).outcome m)
  | .call callee args => some ((ModuleSystem.call callee args).outcome m)
  | .invalidate _ | .release | .outside _ => none

namespace Ledger

/-- What a request is answered with, if it asks for a value. -/
def answer (m : Machine Ledger) : Request → Option (Except LoadError Value)
  | .load p => some ((requireModule (runModule host) p).outcome m)
  | .require specifier dir => some ((require (runModule host) specifier dir).outcome m)
  | .call callee args => some ((callFromOutside host callee args).outcome m)
  | .invalidate _ | .release | .outside _ => none

/-- A request is answered alike with a ledger and without it, and leaves the same state behind. -/
theorem forget_serve (m : Machine Ledger) (request : Request) :
    answer m request = ModuleSystem.answer (forget m) request ∧
      forget (serve m request) = ModuleSystem.serve (forget m) request := by
  have hrunners := Likeness.runners_runModule hosts
  cases request with
  | load p => exact (forget_of_agree (agree_requireModule hrunners p) m).imp_left (congrArg some)
  | require specifier dir =>
    exact (forget_of_agree (agree_require hrunners specifier dir) m).imp_left (congrArg some)
  | call callee args =>
    have hagree := (Likeness.agree_callFromOutside hosts (i := ()) (Value.paired_same callee)
      (Value.listPaired_same_iff.2 (rfl : args = args))).mono
        fun _ _ _ _ h => Value.paired_same_iff.1 h
    exact (forget_of_agree hagree m).imp_left (congrArg some)
  | invalidate | release | outside => exact ⟨rfl, rfl⟩

end Ledger

namespace Setting

variable (x : Setting) (history : List Request)

/-- The state after some requests, with a ledger. -/
def ledgered : Machine Ledger :=
  history.foldl Ledger.serve ⟨x.heap, x.world, ⟨0, []⟩, .none, ⟨x.start.host, []⟩⟩

/-- The bodies that are run in the course of some requests. -/
def runs : List BodyRun := (x.ledgered history).host.runs

theorem ledgered_snoc (request : Request) :
    x.ledgered (history ++ [request]) = Ledger.serve (x.ledgered history) request := by
  simp [ledgered]

/-- To keep a ledger changes nothing. -/
theorem forget_ledgered : Ledger.forget (x.ledgered history) = x.reached history := by
  induction history using List.reverseRecOn with
  | nil => rfl
  | append_singleton history request ih =>
    rw [ledgered_snoc, reached_snoc, (Ledger.forget_serve _ request).2, ih]

end Setting

end Hotload
