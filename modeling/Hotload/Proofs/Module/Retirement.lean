import Mathlib
import Hotload.Proofs.Module.Reach
import Hotload.Proofs.Module.Steadiness
import Hotload.Session

/-!
# Scopes that are emptied

A session empties the retired scopes once it has delivered something new. A delivered value leads to
one of them only if that scope was within reach when the load of the delivered module started: of an
override, of a core module, or of a module that was live at that time.

* `ModuleSystem.RetiresOld`: what a load that succeeds does to the retired scopes.
* `Session.deliverEntry`: a load of the entry up to the delivery.
* `Session.Releases`: what emptying the retired scopes does to what was delivered.
* `Session.served_loadEntry`: what a session does can be asked for by requests.
* `Setting.released_scopes_are_out_of_reach`: it does so after any requests.
* `fallback_loses_its_scope`: a fallback can be given a function of the entry that failed.
-/

namespace Hotload

open Run
open Syntax (Stmt)

namespace ModuleSystem

/-! ## Loads that succeed -/

/-- No exports are dropped; the modules without exports have the scopes that they had; and only scopes
are retired that modules without exports had. -/
structure RetiresOld (s s' : ModuleSystem) : Prop where
  live : ∀ p, s'.registry.exports? p = none → s.registry.exports? p = none
  scope : ∀ p, s'.registry.exports? p = none → s'.registry.scope? p = s.registry.scope? p
  retired : ∀ r ∈ s'.registry.retired, r ∈ s.registry.retired ∨
    ∃ p, s.registry.exports? p = none ∧ s.registry.scope? p = some r

instance : IsPreorder ModuleSystem RetiresOld where
  refl _ := ⟨fun _ => id, fun _ _ => rfl, fun _ => .inl⟩
  trans s s' s'' h h' := by
    refine ⟨fun p hp => h.live p (h'.live p hp), fun p hp => ?_, fun r hr => ?_⟩
    · rw [h'.scope p hp, h.scope p (h'.live p hp)]
    · rcases h'.retired r hr with hr | ⟨p, hp, hr⟩
      · exact h.retired r hr
      · exact .inr ⟨p, h.live p hp, (h.scope p hp).symm.trans hr⟩

section

variable {s s' : ModuleSystem} {m : Machine ModuleSystem} {p : Path} {v : Value} {r : ScopeRef}

/-- A step that retires nothing and leaves the scopes alone. -/
theorem RetiresOld.of_eq
    (hlive : ∀ p, s'.registry.exports? p = none → s.registry.exports? p = none)
    (hscope : ∀ p, s'.registry.scope? p = s.registry.scope? p)
    (hretired : s'.registry.retired = s.registry.retired) : RetiresOld s s' :=
  ⟨hlive, fun p _ => hscope p, fun _ hr => .inl (hretired ▸ hr)⟩

theorem exports?_setExports_none {q : Path} (h : (s.registry.setExports p v).exports? q = none) :
    ¬ p.same q = true ∧ s.registry.exports? q = none := by
  rw [Registry.exports?_setExports] at h
  split at h
  · cases h
  next hpq => exact ⟨hpq, h⟩

theorem admits_retiresOld : Admits RetiresOld where
  outside h := .of_eq (fun _ hp => by rwa [← h]) (fun _ => by rw [h]) (by rw [h])
  watched s _ p := .of_eq (fun q hq => (Registry.exports?_markWatched s.registry p q).symm.trans hq)
    (Registry.scope?_markWatched s.registry p) (Registry.retired_update ..)
  compiled s p body := .of_eq
    (fun q hq => (Registry.exports?_setCompiled s.registry p body q).symm.trans hq)
    (Registry.scope?_setCompiled s.registry p body) (Registry.retired_update ..)
  started {s p} hlive v r := by
    refine ⟨fun q hq => ?_, fun q hq => ?_, fun t ht => ?_⟩
    · exact (exports?_setExports_none ((Registry.exports?_setScope _ p r q).symm.trans hq)).2
    · have hpq := (exports?_setExports_none ((Registry.exports?_setScope _ p r q).symm.trans hq)).1
      exact (Registry.scope?_setScope _ p r q).trans
        ((if_neg hpq).trans (Registry.scope?_setExports s.registry p v q))
    · rw [Registry.retired_setScope, Registry.scope?_setExports] at ht
      rcases List.mem_append.1 ht with ht | ht
      · exact .inr ⟨p, hlive, Option.mem_toList.1 ht⟩
      · exact .inl ((Registry.retired_update s.registry p _) ▸ ht)
  finished s p v := .of_eq (fun _ hq => (exports?_setExports_none hq).2)
    (Registry.scope?_setExports s.registry p v) (Registry.retired_update ..)

/-- A load that succeeds retires no scope that it has made. -/
theorem retired_of_load (hload : (load p).outcome m = .ok v)
    (hr : r ∈ ((load p).after m).host.registry.retired) : r ∈ m.host.registry.scopes := by
  have hsettles : Settles RetiresOld ⊤ (fun _ : Unit => load p) (load p) m :=
    settles_requireModule admits_retiresOld p fun program scope path m' _ =>
      settles_runModule (steady admits_retiresOld) program scope path m'
  rcases (hsettles.host v hload).retired r hr with hr | ⟨q, -, hr⟩
  · exact Registry.mem_scopes.2 (.inr hr)
  · exact Registry.mem_scopes_of_scope? hr

end

end ModuleSystem

/-! ## Deliveries -/

namespace Session

open ModuleSystem

/-- What follows the end of a load of the entry, up to the delivery. -/
def answer (session : Session) : Except LoadError Value → Run ModuleSystem (Option Value)
  | .ok value => do
    modifyWorld (·.mapLog (·.success ("loaded " ++ session.entry.text)))
    Handler.deliver value
    return some value
  | .error e => session.handler.handle e load

/-- A load of the entry, with a fallback after a failure, up to the delivery. -/
def deliverEntry (session : Session) : Run ModuleSystem (Option Value) := do
  let outcome ← observe (load session.entry)
  session.answer outcome

theorem run_deliverEntry (session : Session) (m : Machine ModuleSystem) :
    session.deliverEntry.run m =
      (session.answer ((load session.entry).outcome m)).run ((load session.entry).after m) :=
  run_observe_bind _ _ m

theorem run_answer_ok (session : Session) (v : Value) (m : Machine ModuleSystem) :
    ∃ world, (session.answer (.ok v)).run m = (.ok (some v), { m with world }) := ⟨_, rfl⟩

/-- What follows the delivery. -/
def finish (delivered : Option Value) : Run ModuleSystem (Option Value) := do
  if delivered.isSome then
    let _ ← release
  return delivered

theorem loadEntry_eq (session : Session) : session.loadEntry = session.deliverEntry >>= finish := by
  unfold loadEntry deliverEntry
  rw [bind_assoc]
  refine bind_congr fun outcome => ?_
  cases outcome with
  | ok value => rfl
  | error e => rfl

theorem finish_some (v : Value) : finish (some v) = release >>= fun _ => pure (some v) := rfl

theorem run_finish_some (v : Value) (m : Machine ModuleSystem) :
    (finish (some v)).run m = (.ok (some v), release.after m) := by
  obtain ⟨world, -, hrun⟩ := run_release m
  rw [finish_some, run_bind_ok (congrArg Prod.fst hrun) rfl]
  rfl

/-- The state in which the load starts whose value is delivered, but for the world. -/
def origin (session : Session) (m : Machine ModuleSystem) : Machine ModuleSystem :=
  match (load session.entry).outcome m with
  | .ok _ => m
  | .error _ => (load session.entry).after m

section

variable {session : Session} {m : Machine ModuleSystem} {v : Value}

/-- Hands out a value that stands in for a failure. -/
def handOver (v : Value) : Run ModuleSystem (Option Value) := do
  Handler.deliver v
  return some v

theorem run_handOver (v : Value) (m : Machine ModuleSystem) :
    ∃ world, (handOver v).run m = (.ok (some v), { m with world }) := ⟨_, rfl⟩

theorem run_handle (fallback : Path) (hasListener : Bool) (e : LoadError)
    (load : Path → Run ModuleSystem Value) (m : Machine ModuleSystem) :
    ∃ world, (Handler.handle ⟨some fallback, hasListener⟩ e load).run m =
      (load fallback >>= handOver).run { m with world } := ⟨_, rfl⟩

/-- A value that stands in for a failure is that of a fallback, loaded in a state that differs by its
world only. -/
theorem load_of_handle {handler : Handler} {e : LoadError}
    (h : (handler.handle e load).outcome m = .ok (some v)) :
    ∃ fallback world, (load fallback).outcome { m with world } = .ok v ∧
      ((handler.handle e load).after m).heap = ((load fallback).after { m with world }).heap ∧
      ((handler.handle e load).after m).host = ((load fallback).after { m with world }).host := by
  obtain ⟨fallback, hasListener⟩ := handler
  cases fallback with
  | none => cases hasListener <;> cases h
  | some fallback =>
    obtain ⟨world, hrun⟩ := run_handle fallback hasListener e load m
    rw [outcome, hrun] at h
    refine ⟨fallback, world, ?_⟩
    rw [after, hrun]
    generalize { m with world } = b at h ⊢
    cases hload : (load fallback).outcome b with
    | error e =>
      rw [← outcome, outcome_bind_error hload] at h
      cases h
    | ok value =>
      obtain ⟨world', hdeliver⟩ := run_handOver value ((load fallback).after b)
      rw [run_bind_ok hload rfl, hdeliver] at h ⊢
      cases h
      exact ⟨rfl, rfl, rfl⟩

/-- How a delivered value came about: a load has given it that started in a state with the heap and
the modules of the origin, and the delivery has changed neither. -/
structure Delivers (session : Session) (m b : Machine ModuleSystem) (p : Path) (v : Value) : Prop where
  heap : b.heap = (session.origin m).heap
  host : b.host = (session.origin m).host
  load : (ModuleSystem.load p).outcome b = .ok v
  heapAfter : (session.deliverEntry.after m).heap = ((ModuleSystem.load p).after b).heap
  hostAfter : (session.deliverEntry.after m).host = ((ModuleSystem.load p).after b).host

theorem delivers_of_deliverEntry (h : session.deliverEntry.outcome m = .ok (some v)) :
    ∃ b p, session.Delivers m b p v := by
  have hrun := session.run_deliverEntry m
  cases hentry : (load session.entry).outcome m with
  | ok value =>
    have horigin : session.origin m = m := by simp only [origin, hentry]
    obtain ⟨world, hanswer⟩ := session.run_answer_ok value ((load session.entry).after m)
    rw [hentry, hanswer] at hrun
    rw [outcome, hrun] at h
    cases h
    exact ⟨m, session.entry, by rw [horigin], by rw [horigin], hentry, by rw [after, hrun],
      by rw [after, hrun]⟩
  | error e =>
    have horigin : session.origin m = (load session.entry).after m := by simp only [origin, hentry]
    rw [hentry, ← horigin] at hrun
    rw [outcome, hrun] at h
    obtain ⟨fallback, world, hload, hheap, hhost⟩ := load_of_handle h
    exact ⟨{ session.origin m with world }, fallback, rfl, rfl, hload,
      by rw [after, hrun]; exact hheap, by rw [after, hrun]; exact hhost⟩

theorem Grounded.origin (hm : Grounded m) (session : Session) : Grounded (session.origin m) := by
  unfold Session.origin
  split
  · exact hm
  · exact hm.serve (.load session.entry) trivial

/-! ## Releases -/

/-- What emptying the retired scopes does to a value that was delivered. -/
structure Releases (session : Session) (m : Machine ModuleSystem) (v : Value) : Prop where
  /-- An emptied scope that the value leads to was within reach when the load started. -/
  reached : ∀ r ∈ (session.deliverEntry.after m).host.registry.retired,
    (session.deliverEntry.after m).heap.Reaches {v} (.scope r) →
      (session.origin m).heap.Reaches (survivors (session.origin m).host) (.scope r)
  /-- If none was, the functions that the value leads to find all that they found before. -/
  kept : (∀ r ∈ (session.deliverEntry.after m).host.registry.retired,
      ¬ (session.origin m).heap.Reaches (survivors (session.origin m).host) (.scope r)) →
    ∀ q name, (session.deliverEntry.after m).heap.Reaches {v} (.scope q) →
      (session.loadEntry.after m).heap.lookup q name =
        (session.deliverEntry.after m).heap.lookup q name

theorem after_loadEntry (h : session.deliverEntry.outcome m = .ok (some v)) :
    (session.loadEntry.after m).heap =
      (session.deliverEntry.after m).host.registry.retired.foldl Heap.clearScope
        (session.deliverEntry.after m).heap := by
  obtain ⟨world, -, hrelease⟩ := run_release (session.deliverEntry.after m)
  rw [loadEntry_eq, after_bind_ok h, after, run_finish_some, after, hrelease]

theorem deliverEntry_of_loadEntry (h : session.loadEntry.outcome m = .ok (some v)) :
    session.deliverEntry.outcome m = .ok (some v) := by
  rw [loadEntry_eq] at h
  cases hdeliver : session.deliverEntry.outcome m with
  | error e =>
    rw [outcome_bind_error hdeliver] at h
    cases h
  | ok delivered =>
    rw [outcome_bind_ok hdeliver, outcome] at h
    cases delivered with
    | none => cases h
    | some value =>
      rw [run_finish_some] at h
      exact h

theorem releases (hm : Grounded m) (h : session.deliverEntry.outcome m = .ok (some v)) :
    session.Releases m v := by
  obtain ⟨b, p, hheap, hhost, hload, hheap', hhost'⟩ := delivers_of_deliverEntry h
  have horigin := Grounded.origin hm session
  have hb : Grounded b :=
    ⟨by rw [hheap]; exact horigin.heap, by rw [hheap, hhost]; exact horigin.survivors,
      by rw [hheap, hhost]; exact horigin.scopes⟩
  have hreached : ∀ r ∈ (session.deliverEntry.after m).host.registry.retired,
      (session.deliverEntry.after m).heap.Reaches {v} (.scope r) →
        (session.origin m).heap.Reaches (survivors (session.origin m).host) (.scope r) := by
    intro r hr hreach
    rw [hhost'] at hr
    rw [hheap'] at hreach
    rw [← hheap, ← hhost]
    exact reaches_of_load hb hload hreach (hb.scopes r (retired_of_load hload hr))
  obtain ⟨hinside, -, hvalue⟩ := (inside_all_iff.2 hb).run (agree_load _ p)
  have hafter := inside_all_iff.1 hinside
  refine ⟨hreached, fun hfar q name hq => ?_⟩
  rw [after_loadEntry h, hheap', hhost']
  rw [hheap'] at hq
  rw [hheap', hhost'] at hreached
  rw [hhost'] at hfar
  refine Horizon.lookup_clearScopes hafter.heap (fun w hw => ?_) (fun r hr hreach => ?_) hq name
  · rw [hw]
    exact Horizon.paired_all_iff.1 (hvalue v hload)
  · exact hfar r hr (hreached r hr hreach)

/-! ## Sessions as requests -/

/-- The state is one that some requests leave behind, none of which is a call. -/
def Served (m m' : Machine ModuleSystem) : Prop :=
  ∃ requests : List Request, (∀ h, ∀ request ∈ requests, request.FromHeap h) ∧
    requests.foldl serve m = m'

theorem Served.then {m' : Machine ModuleSystem} (h : Served m m') (request : Request)
    (hrequest : ∀ h, request.FromHeap h) : Served m (serve m' request) := by
  obtain ⟨requests, hrequests, rfl⟩ := h
  refine ⟨requests ++ [request], fun h r hr => ?_, by simp⟩
  rcases List.mem_append.1 hr with hr | hr
  · exact hrequests h r hr
  · rw [List.mem_singleton.1 hr]
    exact hrequest h

theorem Served.withWorld {m' : Machine ModuleSystem} (h : Served m m') (world : World) :
    Served m { m' with world } := h.then (.outside fun _ => world) fun _ => trivial

theorem Served.bind {α β : Type} {x : Run ModuleSystem α} {f : α → Run ModuleSystem β}
    {b : Machine ModuleSystem} (h : Served m (x.after b))
    (hf : ∀ a, Served m ((f a).after (x.after b))) : Served m ((x >>= f).after b) := by
  cases hx : x.outcome b with
  | ok a => rw [after_bind_ok hx]; exact hf a
  | error e => rw [after_bind_error hx]; exact h

theorem served_answer {m' : Machine ModuleSystem} (h : Served m m') (session : Session)
    (outcome : Except LoadError Value) : Served m ((session.answer outcome).after m') := by
  cases outcome with
  | ok value =>
    obtain ⟨world, hrun⟩ := session.run_answer_ok value m'
    rw [after, hrun]
    exact h.withWorld world
  | error e =>
    obtain ⟨entry, fallback, hasListener⟩ := session
    cases fallback with
    | none =>
      cases hasListener with
      | false => exact h
      | true => exact h.withWorld _
    | some fallback =>
      obtain ⟨world, hrun⟩ := run_handle fallback hasListener e load m'
      rw [answer, after, hrun]
      have hloaded : Served m ((load fallback).after { m' with world }) :=
        (h.withWorld world).then (.load fallback) fun _ => trivial
      refine Served.bind hloaded fun v => ?_
      generalize (load fallback).after { m' with world } = b at hloaded
      obtain ⟨world', hdeliver⟩ := run_handOver v b
      rw [after, hdeliver]
      exact hloaded.withWorld world'

/-- What a session does is asked for by requests: loads, deliveries, and the emptying of scopes. -/
theorem served_loadEntry (session : Session) (m : Machine ModuleSystem) :
    Served m (session.loadEntry.after m) := by
  have hstart : Served m m := ⟨[], fun _ _ hr => absurd hr List.not_mem_nil, rfl⟩
  have hdeliver : Served m (session.deliverEntry.after m) := by
    rw [after, run_deliverEntry]
    exact served_answer (hstart.then (.load session.entry) fun _ => trivial) session _
  rw [loadEntry_eq]
  refine hdeliver.bind fun delivered => ?_
  generalize session.deliverEntry.after m = b at hdeliver
  have hrelease : Served m (release.after b) := hdeliver.then .release fun _ => trivial
  cases delivered with
  | none => exact hdeliver
  | some v =>
    rw [after, run_finish_some]
    exact hrelease

end

end Session

theorem Setting.FromHeap.append {x : Setting} {history requests : List Request}
    (h : x.FromHeap history) (hrequests : ∀ heap, ∀ request ∈ requests, request.FromHeap heap) :
    x.FromHeap (history ++ requests) := by
  intro before request after hsplit
  rcases List.append_eq_append_iff.1 hsplit with ⟨front, rfl, hfront⟩ | ⟨back, hback, hafter⟩
  · exact hrequests _ request (by rw [hfront]; simp)
  · rcases back with _ | ⟨first, back⟩
    · exact hrequests _ request (by rw [← List.nil_append requests, ← hafter]; simp)
    · obtain ⟨rfl, -⟩ := List.cons.inj hafter
      exact h before _ back hback

/-- A value that a session delivers leads to a scope that it empties only if that scope was within
reach of an override, a core module or a live module when the load of the value started. The session
leaves a state that requests lead to, so the same holds of what it delivers next. -/
theorem Setting.released_scopes_are_out_of_reach {x : Setting} (hx : ModuleSystem.Grounded x.start)
    {history : List Request} (hvalues : x.FromHeap history) (session : Session) {v : Value}
    (h : session.loadEntry.outcome (x.reached history) = .ok (some v)) :
    session.Releases (x.reached history) v ∧
      ∃ requests, x.FromHeap (history ++ requests) ∧
        session.loadEntry.after (x.reached history) = x.reached (history ++ requests) := by
  refine ⟨Session.releases (Setting.grounded_reached hx hvalues)
    (Session.deliverEntry_of_loadEntry h), ?_⟩
  obtain ⟨requests, hrequests, hafter⟩ := Session.served_loadEntry session (x.reached history)
  refine ⟨requests, hvalues.append hrequests, ?_⟩
  rw [← hafter, Setting.reached, Setting.reached, List.foldl_append]

/-- The object that a session delivers. -/
def deliveredObject? : Except LoadError (Option Value) → Option ObjectRef
  | .ok (some (.object r)) => some r
  | _ => none

theorem eq_of_deliveredObject? {outcome : Except LoadError (Option Value)} {r : ObjectRef}
    (h : deliveredObject? outcome = some r) : outcome = .ok (some (.object r)) := by
  unfold deliveredObject? at h
  split at h
  · cases h
    rfl
  · cases h

/-- The function that a session delivers. -/
def deliveredFunction? : Except LoadError (Option Value) → Option Closure
  | .ok (some (.fn f)) => some f
  | _ => none

theorem eq_of_deliveredFunction? {outcome : Except LoadError (Option Value)} {f : Closure}
    (h : deliveredFunction? outcome = some f) : outcome = .ok (some (.fn f)) := by
  unfold deliveredFunction? at h
  split at h
  · cases h
    rfl
  · cases h

/-- The text that a call gives. -/
def calledText? : Except LoadError Value → Option String
  | .ok (.str s) => some s
  | _ => none

theorem eq_of_calledText? {outcome : Except LoadError Value} {s : String}
    (h : calledText? outcome = some s) : outcome = .ok (.str s) := by
  unfold calledText? at h
  split at h
  · cases h
    rfl
  · cases h

/-- An entry that leaves a function with a helper before it fails, a fallback that delivers what the
helper was left with, and a module that does not fail. -/
def helpedModules : Setting where
  heap := .empty
  world := ⟨⟨.dir [("app", .dir [
      ("entry.rl", .file
        "let n = 'kept'; require('./helper').get = fn() \x7b return n; \x7d; throw 'no';".toUTF8),
      ("helper.rl", .file "".toUTF8),
      ("fallback.rl", .file "module.exports = require('./helper').get;".toUTF8),
      ("stable.rl", .file "let n = 'kept'; exports.get = fn() \x7b return n; \x7d;".toUTF8)])], []⟩,
    .empty false, []⟩
  overrides := []
  options := { Options.default with sourceMap := .off }
  compiler := transpile
  store := .none
  watcher := .disabled

theorem grounded_helpedModules : ModuleSystem.Grounded helpedModules.start where
  heap := by
    refine ⟨fun p hp => absurd hp ?_, fun r p hr => absurd hr (Nat.not_lt_zero _)⟩
    cases p <;> exact Nat.not_lt_zero _
  survivors v hv := by
    rcases hv with ⟨name, hv⟩ | ⟨name, hv⟩ | ⟨p, hv⟩ <;> cases hv
  scopes := nofun

/-- The module that does not fail is loaded again after an invalidation. -/
theorem released_scopes_are_out_of_reach_stable :
    let stable : Path := ⟨"/app/stable.rl"⟩
    let history := [.load stable, .invalidate stable]
    let session : Session := ⟨stable, ⟨none, false⟩⟩
    ModuleSystem.Grounded helpedModules.start ∧ helpedModules.FromHeap history ∧
      ∃ r : ObjectRef,
        session.loadEntry.outcome (helpedModules.reached history) = .ok (some (.object r)) ∧
          session.Releases (helpedModules.reached history) (.object r) := by
  intro stable history session
  have hvalues : helpedModules.FromHeap history := by
    rintro before request after hsplit
    have hmem : request ∈ history := by rw [hsplit]; simp
    rcases List.mem_cons.1 hmem with rfl | hmem
    · trivial
    · rw [List.mem_singleton.1 hmem]
      trivial
  have hrun : deliveredObject? (session.loadEntry.outcome (helpedModules.reached history)) =
      some ⟨2⟩ := by decide +kernel
  have hdelivered := eq_of_deliveredObject? hrun
  exact ⟨grounded_helpedModules, hvalues, ⟨2⟩, hdelivered,
    (Setting.released_scopes_are_out_of_reach grounded_helpedModules hvalues session hdelivered).1⟩

/-- A fallback delivers a function of the entry that has failed. It works until the scope of the entry
is emptied, which it leads to, and finds nothing from then on. -/
theorem fallback_loses_its_scope :
    let session : Session := ⟨⟨"/app/entry.rl"⟩, ⟨some ⟨"/app/fallback.rl"⟩, true⟩⟩
    let delivered := session.deliverEntry.after helpedModules.start
    ∃ f : Closure, session.loadEntry.outcome helpedModules.start = .ok (some (.fn f)) ∧
      f.scope ∈ delivered.host.registry.retired ∧
      delivered.heap.Reaches {.fn f} (.scope f.scope) ∧
      (ModuleSystem.call (.fn f) []).outcome delivered = .ok (.str "kept") ∧
      ∃ e, (ModuleSystem.call (.fn f) []).outcome (session.loadEntry.after helpedModules.start) =
        .error e := by
  intro session delivered
  have hrun : (deliveredFunction? (session.loadEntry.outcome helpedModules.start)).any
      (fun f => f.scope ∈ delivered.host.registry.retired &&
        calledText? ((ModuleSystem.call (.fn f) []).outcome delivered) = some "kept" &&
        ((ModuleSystem.call (.fn f) []).outcome
          (session.loadEntry.after helpedModules.start)).toOption.isNone) = true := by
    decide +kernel
  obtain ⟨f, hf, hrun⟩ := (Option.any_eq_true _ _).1 hrun
  simp only [Bool.and_eq_true, decide_eq_true_eq] at hrun
  obtain ⟨⟨hretired, htext⟩, herror⟩ := hrun
  refine ⟨f, eq_of_deliveredFunction? hf, hretired, ⟨.fn f, rfl, .scope f.scope, rfl, .refl⟩,
    eq_of_calledText? htext, ?_⟩
  cases hcall : (ModuleSystem.call (.fn f) []).outcome
      (session.loadEntry.after helpedModules.start) with
  | error e => exact ⟨e, rfl⟩
  | ok v =>
    rw [hcall] at herror
    cases herror

end Hotload
