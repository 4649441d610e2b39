import Mathlib
import Hotload.Proofs.Module.Frames
import Hotload.Proofs.Module.Keeping

/-!
# Where runtime errors come from

A fault of a running program is raised with the calls under way as its frames, and below all of them
is the module body that was started first. The one exception is a module body that is not started
because too many calls are under way: it has no frame of its own yet, and the frames of the program
that waits for it are not its own.

* `RuntimeError.Rooted`: an error whose outermost frame is a module body.
* `Promise.rooted`: all faults are rooted but those of bodies that are not started.
* `Setting.errors_are_rooted`: the result, for all that can be asked of a module system.
-/

namespace Hotload

open Syntax (Pos)

/-- The outermost frame is that of a module body. -/
def RuntimeError.Rooted (e : RuntimeError) : Prop :=
  ∃ frame, e.frames.getLast? = some frame ∧ frame.function = none

/-- The error of a module body that is not started. -/
def RuntimeError.refusal : RuntimeError := ⟨.tooManyCalls, []⟩

/-- An error is about a file, or it is rooted, or it is the error of a body that was not started. -/
def LoadError.Placed (e : LoadError) : Prop :=
  e.OfFile ∨ ∃ report, e = .runtime report ∧ (report.Rooted ∨ report = .refusal)

/-- Below all calls under way is a module body. -/
def Based (s : List Activation) : Prop := ∃ a, s.getLast? = some a ∧ a.function = none

/-- The last element of a list decides on that of one with the same images. -/
theorem getLast?_of_map_eq {α β γ : Type} {f : α → γ} {g : β → γ} {xs : List α} {ys : List β}
    (h : xs.map f = ys.map g) {y : β} (hy : ys.getLast? = some y) :
    ∃ x, xs.getLast? = some x ∧ f x = g y := by
  have hlast : (xs.map f).getLast? = some (g y) := by
    rw [h, List.getLast?_map, hy, Option.map_some]
  rw [List.getLast?_map] at hlast
  exact Option.map_eq_some_iff.1 hlast

theorem Based.fault {s : List Activation} (h : Based s) (fault : RuntimeFault) {frames : List Frame}
    (hframes : frames.map (fun f => (f.function, f.path)) = s.map (fun a => (a.function, a.path))) :
    RuntimeError.Rooted ⟨fault, frames⟩ := by
  obtain ⟨a, hlast, hnone⟩ := h
  obtain ⟨frame, hframe, heq⟩ := getLast?_of_map_eq hframes hlast
  exact ⟨frame, hframe, (congrArg Prod.fst heq).trans hnone⟩

namespace Promise

/-- Programs run in module bodies, and their errors tell in which. -/
def rooted : Promise where
  kept _ := False
  heap _ := True
  stack := Based
  error := LoadError.Placed
  ended _ := False
  made _ h := h.elim
  of_scopes _ _ := trivial
  newScope _ _ := trivial
  hoist _ _ _ _ _ := trivial
  define _ _ _ _ := trivial
  stack_congr := by
    rintro s s' hs ⟨a, hlast, hnone⟩
    obtain ⟨b, hb, heq⟩ := getLast?_of_map_eq hs hlast
    exact ⟨b, hb, (congrArg Prod.fst heq).trans hnone⟩
  call := by
    rintro (_ | ⟨b, s⟩) name path pos ⟨a, hlast, hnone⟩
    · cases hlast
    · exact ⟨a, by rwa [List.getLast?_cons_cons], hnone⟩
  body path pos := ⟨⟨none, path, pos⟩, rfl, rfl⟩
  fault fault _ hs hframes := .inr ⟨_, rfl, .inl (hs.fault fault hframes)⟩
  refused := .inr ⟨_, rfl, .inr rfl⟩

theorem allows_rooted : rooted.Allows .silent .silent where
  stop _ _ := .inl rfl
  stopped := nofun
  define _ _ _ := trivial
  assign _ _ _ _ := trivial
  ownValue _ _ _ := rfl

theorem rooted_of_file (e : LoadError) (h : e.OfFile) : rooted.error e := .inl h

theorem hosts_rooted : rooted.Hosts ModuleSystem.host := ModuleSystem.keeps_promise rooted_of_file

end Promise

namespace ModuleSystem

/-- A request for a file ends in a rooted error, if it ends in a runtime error and no body was refused
for it. -/
theorem placed_of_request {run : Runner ModuleSystem} (hrun : Promise.rooted.Runners run run)
    {m : Machine ModuleSystem} {p : Path} {report : RuntimeError}
    (h : (requireModule run p).outcome m = .error (.runtime report)) :
    report.Rooted ∨ report = .refusal := by
  have hsame := sameAnywhere_requireModule Promise.rooted_of_file hrun p m trivial
  rcases hsame.error _ h with hfile | ⟨_, heq, hreport⟩
  · exact hfile.elim
  · cases heq
    exact hreport

theorem runners_program (budget used : Nat) :
    Promise.rooted.Runners (runProgram host (.withBudget host budget used))
      (runProgram host (.withBudget host budget used)) := by
  have h : Promise.rooted.Runners
      (Monitor.silent.runProgram host (Monitor.silent.evaluator host budget used))
      (Monitor.silent.runProgram host (Monitor.silent.evaluator host budget used)) :=
    Promise.allows_rooted.runners_runProgram
      (Promise.allows_rooted.same_evaluator Promise.hosts_rooted budget used)
  simpa only [Monitor.runProgram_silent, Monitor.evaluator_silent] using h

theorem runners_module : Promise.rooted.Runners (runModule host) (runModule host) := by
  have h := Promise.allows_rooted.runners_runModule Promise.hosts_rooted
  simpa only [Monitor.runModule_silent] using h

/-- A module body that is asked for when as many calls are under way as there may be is not started,
and its error has no frame. -/
theorem refusal_of_depth {m : Machine ModuleSystem} (h : maxCalls ≤ m.nesting.calls)
    (program : List Syntax.Stmt) (scope : ScopeRef) (path : Path) :
    (runModule host program scope path).outcome m = .error (.runtime .refusal) := by
  rw [Run.outcome, run_runModule, runProgram, Promise.run_runBody_refused _ _ _ h, Run.run_within]
  rfl

end ModuleSystem

namespace Setting

variable {x : Setting} {history : List Request}

/-- A runtime error that leaves a request for a file, in whatever state and at whatever depth, is that
of a body that was not started for there being too many calls, or its outermost frame is that of a
module body; and then, if no script function was there at the start, its innermost and its outermost
frame name modules at positions of programs that have been run for them. The bodies that are not
started are those asked for when as many calls are under way as there may be, and their error has no
frames. -/
theorem errors_are_rooted (hx : x.FunctionFree) (hvalues : x.Returns history) :
    (∀ m p report, (ModuleSystem.load p).outcome m = .error (.runtime report) →
      report.Rooted ∨ report = .refusal) ∧
    (∀ budget used m p report,
      (ModuleSystem.requireModule
        (runProgram ModuleSystem.host (.withBudget ModuleSystem.host budget used)) p).outcome m =
          .error (.runtime report) → report.Rooted ∨ report = .refusal) ∧
    (∀ before p report, before ++ [.load p] <+: history →
      ModuleSystem.answer (x.reached before) (.load p) = some (.error (.runtime report)) →
      report = .refusal ∨ ∃ innermost outermost,
        report.frames.head? = some innermost ∧ report.frames.getLast? = some outermost ∧
        outermost.function = none ∧
        ∀ frame ∈ report.frames,
          Ledger.Tells (x.reached (before ++ [.load p])).host.cache.maps (x.runs (before ++ [.load p]))
            frame) ∧
    ∀ m : Machine ModuleSystem, maxCalls ≤ m.nesting.calls → ∀ program scope path,
      (runModule ModuleSystem.host program scope path).outcome m = .error (.runtime .refusal) := by
  have hload {m p report} (h : (ModuleSystem.load p).outcome m = .error (.runtime report)) :
      report.Rooted ∨ report = .refusal :=
    ModuleSystem.placed_of_request ModuleSystem.runners_module h
  refine ⟨fun m p report => hload, fun budget used m p report =>
    ModuleSystem.placed_of_request (ModuleSystem.runners_program budget used),
    fun before p report hinit hanswer => ?_, fun m hm => ModuleSystem.refusal_of_depth hm⟩
  rcases hload (Option.some.inj hanswer) with ⟨outermost, hlast, hnone⟩ | hrefusal
  · have hne : report.frames ≠ [] := by
      rintro hnil
      rw [hnil] at hlast
      cases hlast
    have htells := tells_of_answer hx
      (fun earlier callee args h => hvalues earlier callee args (h.trans hinit)) hanswer
    exact .inr ⟨report.frames.head hne, outermost, List.head?_eq_some_head hne, hlast, hnone, htells⟩
  · exact .inl hrefusal

/-- A module that throws in a function, and one that asks for another module at the greatest depth. -/
def deepModules : Setting where
  heap := .empty
  world := ⟨⟨.dir [("app", .dir [
      ("thrower.rl", .file "fn raise()\x7bthrow 'no';\x7draise();".toUTF8),
      ("entry.rl", .file
        ("fn f(s)\x7bif(s=='aaaaaaaaaaaaaaaaaaaaaaaaaaaaa')\x7brequire('./b');\x7df(s+'a');\x7d" ++
          "f('');").toUTF8),
      ("b.rl", .file "".toUTF8)])], []⟩,
    .empty false, []⟩
  overrides := []
  options := { Options.default with sourceMap := .separate }
  compiler := transpile
  store := .none
  watcher := .disabled

theorem frames_of_entry :
    frames? ((ModuleSystem.load ⟨"/app/entry.rl"⟩).outcome deepModules.start) = some [] := by
  decide +kernel

theorem frames_of_thrower :
    frames? ((ModuleSystem.load ⟨"/app/thrower.rl"⟩).outcome deepModules.start) =
      some [(some "raise", ⟨"/app/thrower.rl"⟩, ⟨1, 12⟩), (none, ⟨"/app/thrower.rl"⟩, ⟨1, 29⟩)] := by
  decide +kernel

/-- The error of the second one has no frames. -/
theorem frameless_at_depth :
    ∃ report, (ModuleSystem.load ⟨"/app/entry.rl"⟩).outcome deepModules.start =
      .error (.runtime report) ∧ report.frames = [] := by
  obtain ⟨report, hreport, hframes⟩ := exists_of_frames? frames_of_entry
  exact ⟨report, hreport, List.map_eq_nil_iff.1 hframes⟩

/-- The error of the first one is rooted. -/
theorem errors_are_rooted_in_function :
    let p : Path := ⟨"/app/thrower.rl"⟩
    deepModules.FunctionFree ∧ deepModules.Returns [.load p] ∧
      ∃ report, (ModuleSystem.load p).outcome deepModules.start = .error (.runtime report) ∧
        report.frames.map (fun f => (f.function, f.path, f.pos)) =
          [(some "raise", p, ⟨1, 12⟩), (none, p, ⟨1, 29⟩)] ∧
        ∃ innermost outermost,
          report.frames.head? = some innermost ∧ report.frames.getLast? = some outermost ∧
          outermost.function = none ∧
          ∀ frame ∈ report.frames,
            Ledger.Tells (deepModules.reached [.load p]).host.cache.maps (deepModules.runs [.load p])
              frame := by
  intro p
  obtain ⟨report, hreport, hframes⟩ := exists_of_frames? frames_of_thrower
  have hfree : deepModules.FunctionFree := by
    refine ⟨?_, nofun⟩
    rintro g (⟨r, hg⟩ | ⟨name, hg⟩)
    · cases r <;> cases hg
    · cases hg
  have hreturns : deepModules.Returns [.load p] := returns_nil.snoc fun _ _ h => by cases h
  have hanswer : ModuleSystem.answer (deepModules.reached []) (.load p) =
      some (.error (.runtime report)) := congrArg some hreport
  obtain ⟨-, -, hframed, -⟩ := errors_are_rooted hfree hreturns
  rcases hframed [] p report List.prefix_rfl hanswer with hrefusal | hfound
  · rw [hrefusal] at hframes
    cases hframes
  · exact ⟨hfree, hreturns, report, hreport, hframes, hfound⟩

end Setting

end Hotload
