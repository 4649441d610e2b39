import Mathlib
import Hotload.Proofs.Module.Bodies

/-!
# What stack frames name

Every function of a module system has the path of the module that it was made in: the scopes around
the scope that it was made in end with the scope of a body that was run for its path, and the program
of that body holds its code. So every frame of a runtime error pairs a path with a position of a
program that was run for that path.

* `Heap.EndsIn`: the outermost of the scopes around a scope.
* `Ledger.homes`: the discipline of code in the scopes of its module.
* `Setting.frames_name_their_modules`: the result, for all that can be asked of a module system.
-/

namespace Hotload

open Syntax (Stmt)
open ModuleSystem (survivors)

/-! ## Outermost scopes -/

namespace Heap

/-- The scopes around a scope end with one that no scope is around. -/
inductive EndsIn (h : Heap) : ScopeRef → ScopeRef → Prop
  | root {r : ScopeRef} (hr : r.index < h.scopes.size) (hparent : (h.scope r).parent = none) :
    EndsIn h r r
  | inner {q r s : ScopeRef} (hq : q.index < h.scopes.size) (hparent : (h.scope q).parent = some r)
    (hr : EndsIn h r s) : EndsIn h q s

variable {h h' : Heap} {q r s : ScopeRef}

/-- A scope has only one outermost scope. -/
theorem EndsIn.unique (hr : h.EndsIn q r) (hs : h.EndsIn q s) : r = s := by
  induction hr with
  | root _ hparent =>
    cases hs with
    | root => rfl
    | inner _ hparent' => rw [hparent] at hparent'; cases hparent'
  | inner _ hparent _ ih =>
    cases hs with
    | root _ hparent' => rw [hparent] at hparent'; cases hparent'
    | inner _ hparent' hs =>
      rw [hparent] at hparent'
      cases hparent'
      exact ih hs

theorem EndsIn.mono (hr : h.EndsIn q r) (hs : h.Shelters h') : h'.EndsIn q r := by
  induction hr with
  | root hr hparent => exact .root (hs _ hr).1 ((hs _ hr).2.trans hparent)
  | inner hq hparent _ ih => exact .inner (hs _ hq).1 ((hs _ hq).2.trans hparent) ih

/-- The functions on a heap: those that are values, and those that scopes declare. -/
def functions (h : Heap) : Set Closure :=
  { f | (∃ r, .fn f ∈ h.contents r) ∨ ∃ name, (name, f.function, f.path) ∈ (h.scope f.scope).fns }

theorem placed_iff {K : Placement} :
    h.Placed K ↔ ∀ f ∈ h.functions, K f.scope f.path (.function f.function) := by
  constructor
  · rintro hh f (⟨r, hf⟩ | ⟨name, hf⟩)
    · exact hh.values r _ hf
    · exact hh.declared _ _ hf
  · refine fun hh => ⟨fun r v hv => ?_, fun r f hf => hh ⟨f.2.1, r, f.2.2⟩ (.inr ⟨f.1, hf⟩)⟩
    cases v with
    | fn f => exact hh f (.inl ⟨r, hv⟩)
    | nil | bool | num | str | list | object | native | require => trivial

end Heap

/-! ## Code in the scopes of its module -/

namespace Ledger

/-- The code is part of a body that was run for the path, in the outermost scope around this one. -/
def Home (h : Heap) (runs : List BodyRun) (r : ScopeRef) (p : Path) (x : Fragment) : Prop :=
  ∃ run ∈ runs, h.EndsIn r run.scope ∧ run.path = p ∧ x ∈ Stmt.fragmentsList run.program

/-- The frame names the path that a body was run for, and the source of a position in its code. -/
def Tells (maps : SourceMaps) (runs : List BodyRun) (frame : Frame) : Prop :=
  ∃ run ∈ runs, run.path = frame.path ∧
    ∃ pos, .position pos ∈ Stmt.fragmentsList run.program ∧
      frame.pos = maps.sourcePosition frame.path pos

/-- Every body was run in a scope of its own, and all functions that the system holds are those of
modules. -/
structure Settled (h : Heap) (l : Ledger) : Prop where
  survivors : ∀ v ∈ survivors l.system, v.Placed (Home h l.runs)
  nodup : (l.runs.map (·.scope)).Nodup
  made : ∀ run ∈ l.runs, run.scope.index < h.scopes.size

variable {h h' : Heap} {w w' : World} {s s' : ModuleSystem} {runs runs' : List BodyRun}
  {r : ScopeRef} {p : Path} {x : Fragment} {run : BodyRun}

theorem Home.mono (hs : h.Shelters h') (hruns : runs <+: runs') : Home h runs ≤ Home h' runs' :=
  fun _ _ _ ⟨run, hrun, hends, hp, hx⟩ => ⟨run, hruns.mem hrun, hends.mono hs, hp, hx⟩

theorem Settled.step (hl : Settled h ⟨s, runs⟩) (hs : h.Shelters h')
    (hvalues : ∀ v ∈ ModuleSystem.survivors s', v.Placed (Home h runs)) : Settled h' ⟨s', runs⟩ where
  survivors v hv := (hvalues v hv).mono (Home.mono hs List.prefix_rfl)
  nodup := hl.nodup
  made run hrun := (hs _ (hl.made run hrun)).1

theorem Settled.noted (hl : Settled h ⟨s, runs⟩) (hs : h.Shelters h')
    (hvalues : ∀ v ∈ ModuleSystem.survivors s', v.Placed (Home h runs))
    (hindex : run.scope.index = h.scopes.size) (hsize : h.scopes.size < h'.scopes.size) :
    Settled h' ⟨s', runs ++ [run]⟩ where
  survivors v hv := (hvalues v hv).mono (Home.mono hs (List.prefix_append _ _))
  nodup := by
    -- all earlier scopes are older than the new one
    have hnew : run.scope ∉ runs.map (·.scope) := by
      rintro hmem
      obtain ⟨other, hother, hscope⟩ := List.mem_map.1 hmem
      have hlt := hl.made other hother
      rw [hscope, hindex] at hlt
      exact lt_irrefl _ hlt
    rw [List.map_append, List.map_singleton]
    exact List.nodup_append.2 ⟨hl.nodup, List.nodup_singleton _, fun a ha b hb hab => hnew (by
      rw [List.mem_singleton] at hb
      rwa [← hb, ← hab])⟩
  made other hother := by
    rcases List.mem_append.1 hother with hother | hother
    · exact (hs _ (hl.made other hother)).1
    · rw [List.mem_singleton.1 hother, hindex]
      exact hsize

/-- Code belongs to the scopes of its module. -/
def homes : Discipline Ledger where
  place s := Home s.1 s.2.2.runs
  inv s := Settled s.1 s.2.2
  later s t := s.1.Shelters t.1 ∧ s.2.2.runs <+: t.2.2.runs
  fault s e := ∀ report, e = .runtime report → ∀ frame ∈ report.frames,
    Tells s.2.2.system.cache.maps s.2.2.runs frame
  refl _ := ⟨.refl _, List.prefix_rfl⟩
  trans h h' := ⟨h.1.trans h'.1, h.2.trans h'.2⟩
  mono h := Home.mono h.1 h.2
  closed := fun ⟨run, hrun, hends, hp, hf⟩ _ hx =>
    ⟨run, hrun, hends, hp, Syntax.Stmt.saturated_list run.program _ hf hx⟩
  grow hl hs := ⟨⟨hs, List.prefix_rfl⟩, hl.step hs hl.survivors⟩
  inner := fun ⟨run, hrun, hends, hp, hx⟩ hs hq hparent =>
    ⟨run, hrun, .inner hq hparent (hends.mono hs), hp, hx⟩

theorem laws_homes : Laws homes where
  survivors hl := hl.survivors
  step hl hs hvalues := ⟨⟨hs, List.prefix_rfl⟩, hl.step hs hvalues⟩
  noted {_ _ _ _ _ _ _ run} hl hs hvalues hindex hsize hparent :=
    ⟨⟨hs, List.prefix_append _ _⟩, hl.noted hs hvalues hindex hsize, fun x hx =>
      ⟨run, List.mem_append_right _ List.mem_cons_self, .root (hindex ▸ hsize) hparent, rfl, hx⟩⟩
  runtime := by
    rintro m - hstands fault _ ⟨⟩ frame hframe
    obtain ⟨a, ha, rfl⟩ := List.mem_map.1 hframe
    obtain ⟨r, run, hrun, -, hp, hpos⟩ := hstands a ha
    exact ⟨run, hrun, hp, a.pos, hpos, rfl⟩
  ofFile := by
    rintro s e he report rfl
    exact he.elim
  dropped h _ := h

end Ledger

/-! ## Histories -/

namespace Setting

variable (x : Setting) (history : List Request)

/-- The function is on the heap, or the module system holds it. -/
def Has (f : Closure) : Prop :=
  f ∈ (x.reached history).heap.functions ∨ .fn f ∈ survivors (x.reached history).host

/-- The function has been on the heap or has been held by the module system in the course of some
requests, or one of them was answered with it. -/
def Gave (f : Closure) : Prop :=
  (∃ before, before <+: history ∧ x.Has before f) ∨
    ∃ before request, before ++ [request] <+: history ∧
      ModuleSystem.answer (x.reached before) request = some (.ok (.fn f))

/-- The functions among the values of calls were given by the module system. -/
def Returns : Prop :=
  ∀ before callee args, before ++ [.call callee args] <+: history →
    ∀ f, .fn f ∈ callee :: args → x.Gave before f

/-- The function has the path of the module that it was made in: the scopes around its own end with
the scope of a body that was run for this path, and its code is part of the program that was run. -/
def AtHome (f : Closure) : Prop :=
  ∃ run ∈ x.runs history, (x.reached history).heap.EndsIn f.scope run.scope ∧ run.path = f.path ∧
    .function f.function ∈ Stmt.fragmentsList run.program

/-- There are no script functions yet. -/
structure FunctionFree : Prop where
  heap : ∀ f, f ∉ x.heap.functions
  overrides : ∀ name f, x.overrides.lookup name ≠ some (.fn f)

variable {x history}

variable (x history) in
theorem held_ledgered : (x.ledgered history).held.1 = (x.reached history).heap ∧
    (x.ledgered history).host.system = (x.reached history).host := by
  rw [← x.forget_ledgered history]
  exact ⟨rfl, rfl⟩

theorem atHome_iff {f : Closure} : x.AtHome history f ↔
    Value.Placed (Ledger.homes.place (x.ledgered history).held) (.fn f) := by
  rw [AtHome, ← (held_ledgered x history).1]
  rfl

theorem gave_snoc {request : Request} {f : Closure} (h : x.Gave (history ++ [request]) f) :
    x.Gave history f ∨ x.Has (history ++ [request]) f ∨
      ModuleSystem.answer (x.reached history) request = some (.ok (.fn f)) := by
  rcases h with ⟨before, hinit, hf⟩ | ⟨before, other, hinit, hf⟩
  · rcases List.prefix_concat_iff.1 hinit with rfl | hinit
    · exact .inr (.inl hf)
    · exact .inl (.inl ⟨before, hinit, hf⟩)
  · rcases List.prefix_concat_iff.1 hinit with heq | hinit
    · obtain ⟨rfl, rfl⟩ : before = history ∧ other = request := by simpa using heq
      exact .inr (.inr hf)
    · exact .inl (.inr ⟨before, other, hinit, hf⟩)

theorem returns_nil : x.Returns [] := fun before callee args hinit => by simp at hinit

theorem Returns.snoc (h : x.Returns history) {request : Request}
    (hrequest : ∀ callee args, request = .call callee args →
      ∀ f, .fn f ∈ callee :: args → x.Gave history f) : x.Returns (history ++ [request]) := by
  intro before callee args hinit
  rcases List.prefix_concat_iff.1 hinit with heq | hinit
  · obtain ⟨rfl, rfl⟩ : before = history ∧ .call callee args = request := by simpa using heq
    exact hrequest callee args rfl
  · exact h before callee args hinit

theorem Gave.later {request : Request} {f : Closure} (h : x.Gave history f)
    {whole : List Request} (hinit : history ++ [request] <+: whole) : x.Gave whole f := by
  have hbefore : history <+: whole := (List.prefix_append _ _).trans hinit
  exact h.imp (fun ⟨before, h, hf⟩ => ⟨before, h.trans hbefore, hf⟩)
    fun ⟨before, other, h, hf⟩ => ⟨before, other, h.trans hbefore, hf⟩

/-- What the system holds is where it belongs. -/
theorem atHome_of_has (h : Ledger.homes.Holds (x.ledgered history).held) {f : Closure}
    (hf : x.Has history f) : x.AtHome history f := by
  obtain ⟨hheap, hhost⟩ := held_ledgered x history
  rw [atHome_iff]
  rcases hf with hf | hf
  · exact Heap.placed_iff.1 h.heap f (hheap ▸ hf)
  · exact h.inv.survivors _ (hhost ▸ hf)

/-- A request finds all where it belongs and leaves it there. -/
theorem serves (h : Ledger.homes.Holds (x.ledgered history).held)
    (hgave : ∀ f, x.Gave history f → x.AtHome history f) {request : Request}
    (hvalues : x.Returns (history ++ [request])) :
    Ledger.Serves Ledger.homes (x.ledgered history) request := by
  refine Ledger.laws_homes.serve h ?_
  cases request with
  | call callee args =>
    intro v hv
    cases v with
    | fn f => exact atHome_iff.1 (hgave f (hvalues history callee args List.prefix_rfl f hv))
    | nil | bool | num | str | list | object | native | require => trivial
  | load | require | invalidate | release | outside => trivial

theorem FunctionFree.holds (hx : x.FunctionFree) : Ledger.homes.Holds (x.ledgered []).held where
  inv := by
    refine ⟨?_, List.nodup_nil, nofun⟩
    rintro v (⟨name, hv⟩ | ⟨name, hv⟩ | ⟨p, hv⟩)
    · cases v with
      | fn f => exact absurd hv (hx.overrides name f)
      | nil | bool | num | str | list | object | native | require => trivial
    · cases hv
    · cases hv
  heap := Heap.placed_iff.2 fun f hf => absurd hf (hx.heap f)

theorem settled_reached (hx : x.FunctionFree) (hvalues : x.Returns history) :
    Ledger.homes.Holds (x.ledgered history).held ∧ ∀ f, x.Gave history f → x.AtHome history f := by
  induction history using List.reverseRecOn with
  | nil =>
    refine ⟨hx.holds, fun f hf => ?_⟩
    rcases hf with ⟨before, hinit, hf⟩ | ⟨before, request, hinit, -⟩
    · rw [List.prefix_nil.1 hinit] at hf
      exact atHome_of_has hx.holds hf
    · simp at hinit
  | append_singleton history request ih =>
    obtain ⟨hholds, hgave⟩ := ih fun before callee args hinit =>
      hvalues before callee args (hinit.trans (List.prefix_append _ _))
    obtain ⟨hfollows, hok, -⟩ := serves hholds hgave hvalues
    rw [← ledgered_snoc] at hfollows hok
    refine ⟨hfollows.holds, fun f hf => ?_⟩
    rcases gave_snoc hf with hf | hf | hf
    · exact atHome_iff.2 (hfollows.value (atHome_iff.1 (hgave f hf)))
    · exact atHome_of_has hfollows.holds hf
    · refine atHome_iff.2 (hok _ ?_)
      rw [(Ledger.forget_serve _ request).1, forget_ledgered, hf]

/-- A request that fails tells of programs that have been run. -/
theorem tells_of_answer (hx : x.FunctionFree) {request : Request} {report : RuntimeError}
    (hvalues : x.Returns (history ++ [request]))
    (hreport : ModuleSystem.answer (x.reached history) request = some (.error (.runtime report))) :
    ∀ frame ∈ report.frames,
      Ledger.Tells (x.reached (history ++ [request])).host.cache.maps (x.runs (history ++ [request]))
        frame := by
  have hreturns : x.Returns history := fun earlier callee args h =>
    hvalues earlier callee args (h.trans (List.prefix_append _ _))
  obtain ⟨hholds, hgave⟩ := settled_reached hx hreturns
  have hserves := serves hholds hgave hvalues
  have herror := hserves.error (.runtime report)
    (by rw [(Ledger.forget_serve _ request).1, forget_ledgered, hreport]) report rfl
  rw [← ledgered_snoc] at herror
  obtain ⟨-, hhost⟩ := held_ledgered x (history ++ [request])
  rw [← hhost]
  exact herror

/-- In every state that a module system reaches, if no script function was there when it started: every
body has been run in a scope of its own, every function belongs to the module that it has the path of,
and every frame of every runtime error names a path and the source of a position in a program that was
run for it. -/
theorem frames_name_their_modules (hx : x.FunctionFree) (hvalues : x.Returns history) :
    ((x.runs history).map (·.scope)).Nodup ∧
      (∀ f, x.Gave history f → x.AtHome history f) ∧
      ∀ before request report, before ++ [request] <+: history →
        ModuleSystem.answer (x.reached before) request = some (.error (.runtime report)) →
        ∀ frame ∈ report.frames,
          Ledger.Tells (x.reached (before ++ [request])).host.cache.maps (x.runs (before ++ [request]))
            frame := by
  obtain ⟨hholds, hgave⟩ := settled_reached hx hvalues
  refine ⟨hholds.inv.nodup, hgave, fun before request report hinit hreport => ?_⟩
  exact tells_of_answer hx (fun earlier callee args h => hvalues earlier callee args (h.trans hinit))
    hreport

/-- A module whose function calls one that another module makes, which throws. -/
def throwingModules : Setting where
  heap := .empty
  world := ⟨⟨.dir [("app", .dir [
      ("main.rl", .file
        "let raise = require('./lib').raise;\nexports.go = fn() \x7b return raise('no'); \x7d;".toUTF8),
      ("lib.rl", .file "exports.raise = fn(text: Text) \x7b throw text; \x7d;".toUTF8)])], []⟩,
    .empty false, []⟩
  overrides := []
  options := { Options.default with sourceMap := .separate }
  compiler := transpile
  store := .none
  watcher := .disabled

/-- The frames of a runtime error: functions, paths and positions. -/
def frames? : Except LoadError Value → Option (List (Option String × Path × Syntax.Pos))
  | .error (.runtime report) => some (report.frames.map fun f => (f.function, f.path, f.pos))
  | _ => none

theorem exists_of_frames? {outcome : Except LoadError Value}
    {frames : List (Option String × Path × Syntax.Pos)} (h : frames? outcome = some frames) :
    ∃ report, outcome = .error (.runtime report) ∧
      report.frames.map (fun f => (f.function, f.path, f.pos)) = frames := by
  unfold frames? at h
  split at h
  · exact ⟨_, rfl, Option.some.inj h⟩
  · cases h

/-- The function that a module exports under a name. -/
def exportedFunction? (m : Machine ModuleSystem) (p : Path) (name : String) : Option Closure :=
  match m.host.registry.exports? p with
  | some (.object r) =>
    match m.heap.field? r name with
    | some (.fn f) => some f
    | _ => none
  | _ => none

theorem has_of_exportedFunction? {p : Path} {name : String} {f : Closure}
    (h : exportedFunction? (x.reached history) p name = some f) : x.Has history f := by
  unfold exportedFunction? at h
  split at h
  next r _ =>
    split at h
    next hfield =>
      cases h
      exact .inl (.inl ⟨.object r, List.mem_map_of_mem (Heap.mem_of_lookup hfield)⟩)
    next => cases h
  next => cases h

theorem frames_of_throwingModules :
    let main : Path := ⟨"/app/main.rl"⟩
    (exportedFunction? (throwingModules.reached [.load main]) main "go").any
      (fun f => frames? ((ModuleSystem.call (.fn f) []).outcome
        (throwingModules.reached [.load main])) =
          some [(some "<anonymous>", ⟨"/app/lib.rl"⟩, ⟨1, 34⟩),
            (some "<anonymous>", main, ⟨2, 33⟩)]) = true := by
  decide +kernel

/-- A call from outside ends in the other module, and both frames name the right files. -/
theorem frames_name_their_modules_call :
    let main : Path := ⟨"/app/main.rl"⟩
    let lib : Path := ⟨"/app/lib.rl"⟩
    ∃ f report,
      let history : List Request := [.load main, .call (.fn f) []]
      throwingModules.FunctionFree ∧ throwingModules.Returns history ∧
        ModuleSystem.answer (throwingModules.reached [.load main]) (.call (.fn f) []) =
          some (.error (.runtime report)) ∧
        report.frames.map (fun f => (f.function, f.path, f.pos)) =
          [(some "<anonymous>", lib, ⟨1, 34⟩), (some "<anonymous>", main, ⟨2, 33⟩)] ∧
        throwingModules.AtHome history f ∧
        ∀ frame ∈ report.frames,
          Ledger.Tells (throwingModules.reached history).host.cache.maps
            (throwingModules.runs history) frame := by
  intro main lib
  obtain ⟨f, hf, hrun⟩ := (Option.any_eq_true _ _).1 frames_of_throwingModules
  obtain ⟨report, hreport, hframes⟩ := exists_of_frames? (of_decide_eq_true hrun)
  have hgave : throwingModules.Gave [.load main] f :=
    .inl ⟨[.load main], List.prefix_rfl, has_of_exportedFunction? hf⟩
  have hfree : throwingModules.FunctionFree := by
    refine ⟨?_, nofun⟩
    rintro g (⟨r, hg⟩ | ⟨name, hg⟩)
    · cases r <;> cases hg
    · cases hg
  have hreturns : throwingModules.Returns [.load main, .call (.fn f) []] :=
    (returns_nil.snoc fun _ _ h => by cases h).snoc fun callee args hcall g hg => by
      cases hcall
      rwa [show g = f by simpa using hg]
  have hanswer : ModuleSystem.answer (throwingModules.reached [.load main]) (.call (.fn f) []) =
      some (.error (.runtime report)) := by
    rw [ModuleSystem.answer, hreport]
  obtain ⟨-, hhome, htells⟩ := frames_name_their_modules hfree hreturns
  have hcall := htells [.load main] (.call (.fn f) []) report List.prefix_rfl hanswer
  rw [List.singleton_append] at hcall
  exact ⟨f, report, hfree, hreturns, hanswer, hframes, hhome f (hgave.later List.prefix_rfl), hcall⟩

end Setting

end Hotload
