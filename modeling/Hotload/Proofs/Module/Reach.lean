import Mathlib
import Hotload.Proofs.Evaluation.Horizon
import Hotload.Proofs.Module.Generations
import Hotload.Proofs.Module.Hosting

/-!
# What modules can reach

The references that a module system and its programs hold refer to something, whatever is asked of it.
A load gets at what was there before only by way of what the module system holds itself: overrides,
core modules and live exports.

* `ModuleSystem.Grounded`: every reference refers to something.
* `Setting.grounded_reached`: it stays so.
* `ModuleSystem.survivors`: the values that the modules of a load can begin with.
* `ModuleSystem.reaches_of_load`: what a loaded value leads to is new or within reach of those.
-/

namespace Hotload

open Heap (Sizes)
open Syntax (Stmt)

namespace ModuleSystem

/-! ## What a module system holds -/

/-- The values that a module system holds are within a horizon, and its scopes are there. -/
structure Holds (K : Pairing) (count : Nat) (s : ModuleSystem) : Prop where
  overrides : ∀ name v, s.overrides.lookup name = some v → v.Paired K v
  core : ∀ name v, s.core.lookup name = some v → v.Paired K v
  exports : ∀ p v, s.registry.exports? p = some v → v.Paired K v
  scopes : ∀ r ∈ s.registry.scopes, r.index < count

/-- The values that a module system holds. -/
def survivors (s : ModuleSystem) : Set Value :=
  { v | (∃ name, s.overrides.lookup name = some v) ∨ (∃ name, s.core.lookup name = some v) ∨
    ∃ p, s.registry.exports? p = some v }

section

variable {K K' : Pairing} {n n' : Nat} {s s' : ModuleSystem} {p : Path} {v : Value} {r : ScopeRef}

theorem Holds.mono (h : Holds K n s) (hK : K ≤ K') (hn : n ≤ n') : Holds K' n' s :=
  ⟨fun name v hv => (h.overrides name v hv).mono hK, fun name v hv => (h.core name v hv).mono hK,
    fun p v hv => (h.exports p v hv).mono hK, fun r hr => (h.scopes r hr).trans_le hn⟩

theorem Holds.survivor (h : Holds K n s) (hv : v ∈ survivors s) : v.Paired K v := by
  rcases hv with ⟨name, hv⟩ | ⟨name, hv⟩ | ⟨p, hv⟩
  · exact h.overrides name v hv
  · exact h.core name v hv
  · exact h.exports p v hv

/-- A change of the registry alone. -/
theorem Holds.registered (h : Holds K n s) (hoverrides : s'.overrides = s.overrides)
    (hcore : s'.core = s.core)
    (hexports : ∀ p v, s'.registry.exports? p = some v → s.registry.exports? p = some v ∨ v.Paired K v)
    (hscopes : ∀ r ∈ s'.registry.scopes, r ∈ s.registry.scopes ∨ r.index < n) : Holds K n s' where
  overrides := by rw [hoverrides]; exact h.overrides
  core := by rw [hcore]; exact h.core
  exports p v hv := (hexports p v hv).elim (h.exports p v) id
  scopes r hr := (hscopes r hr).elim (h.scopes r) id

theorem Holds.same (h : Holds K n s) (hoverrides : s'.overrides = s.overrides)
    (hcore : s'.core = s.core) (hexports : ∀ p, s'.registry.exports? p = s.registry.exports? p)
    (hscopes : ∀ r ∈ s'.registry.scopes, r ∈ s.registry.scopes) : Holds K n s' :=
  h.registered hoverrides hcore (fun p _ hv => .inl (hexports p ▸ hv)) fun r hr => .inl (hscopes r hr)

theorem Holds.setScope (h : Holds K n s) (hr : r.index < n) (p : Path) :
    Holds K n { s with registry := s.registry.setScope p r } :=
  h.registered rfl rfl (fun q _ hv => .inl (Registry.exports?_setScope s.registry p r q ▸ hv))
    fun t ht => (Registry.mem_scopes_setScope ht).imp_right fun htr : t = r => by rwa [htr]

theorem Holds.setExports (h : Holds K n s) (hv : v.Paired K v) (p : Path) :
    Holds K n { s with registry := s.registry.setExports p v } := by
  refine h.registered rfl rfl (fun q w hw => ?_) fun _ hr => .inl (Registry.mem_scopes_setExports hr)
  rw [Registry.exports?_setExports] at hw
  split at hw
  · exact .inr (Option.some.inj hw ▸ hv)
  · exact .inl hw

theorem Holds.removeExports (h : Holds K n s) (p : Path) :
    Holds K n { s with registry := s.registry.removeExports p } := by
  refine h.registered rfl rfl (fun q w hw => ?_) fun _ hr => .inl (Registry.mem_scopes_removeExports hr)
  rw [Registry.exports?_removeExports] at hw
  split at hw
  · cases hw
  · exact .inl hw

theorem Holds.setCompiled (h : Holds K n s) (p : Path) (body : List Stmt) :
    Holds K n { s with registry := s.registry.setCompiled p body } :=
  h.same rfl rfl (Registry.exports?_setCompiled _ p body) fun _ => Registry.mem_scopes_setCompiled

theorem Holds.addCore (h : Holds K n s) (hv : v.Paired K v) (name : String) :
    Holds K n { s with core := (name, v) :: s.core } where
  overrides := h.overrides
  core name' w hw := by
    simp only [List.lookup_cons] at hw
    split at hw
    · exact Option.some.inj hw ▸ hv
    · exact h.core name' w hw
  exports := h.exports
  scopes := h.scopes

theorem Holds.watched {e : Outside} (h : Holds K n e.2) (p : Path) : Holds K n (watched p e).2 := by
  obtain ⟨world, s⟩ := e
  change Holds K n
    { s with
      watcher := (s.watcher.watch p world).2.1
      registry := if (s.watcher.watch p world).1 then s.registry.markWatched p else s.registry }
  cases (s.watcher.watch p world).1 with
  | true =>
    exact h.same rfl rfl (Registry.exports?_markWatched _ p) fun _ => Registry.mem_scopes_markWatched
  | false => exact h.same rfl rfl (fun _ => rfl) fun _ => id

end

/-! ## Machines within a horizon -/

/-- What is known of a module system within a horizon. -/
def Known (H : Horizon) (options : Options) (s : Sizes) (e : Outside) : Prop :=
  e.2.options = options ∧ Holds (H.pairing s) s.scopes e.2

theorem Known.mono {H : Horizon} {options : Options} {s t : Sizes} {e : Outside} (hst : s ≤ t)
    (h : Known H options s e) : Known H options t e :=
  ⟨h.1, h.2.mono (H.pairing_mono hst) hst.scopes⟩

/-- A module system and itself, within a horizon. -/
abbrev within (H : Horizon) (options : Options) : Likeness ModuleSystem ModuleSystem :=
  .confined H (Known H options) Known.mono

section

variable {H : Horizon} {options : Options} {s : Sizes} {m m₁ m₂ : Machine ModuleSystem} {p : Path}

theorem meets_within_iff : (within H options).Meets s m₁ m₂ ↔
    m₁ = m₂ ∧ H.Confines s m₁.heap ∧ Known H options s (m₁.world, m₁.host) := by
  constructor
  · rintro ⟨⟨hheap, he, hc, hk⟩, hrunning, hnesting, -⟩
    obtain ⟨heap, world, running, nesting, host⟩ := m₂
    cases hheap
    cases he
    cases hrunning
    cases hnesting
    exact ⟨rfl, hc, hk⟩
  · rintro ⟨rfl, hc, hk⟩
    exact ⟨⟨rfl, rfl, hc, hk⟩, rfl, rfl, fun _ _ => trivial⟩

/-- What finding and parsing a body changes. -/
theorem after_program (p : Path) (m : Machine ModuleSystem) : ∃ world cache registry,
    (program p).after m = { m with world, host := { m.host with cache, registry } } ∧
      (cache = m.host.cache ∨ cache = (m.host.cache.load p m.world).2.1) ∧
      (registry = m.host.registry ∨ ∃ body, registry = m.host.registry.setCompiled p body) := by
  cases hcompiled : m.host.registry.compiled? p with
  | some body =>
    rw [Run.after, run_program_kept hcompiled]
    exact ⟨m.world, m.host.cache, m.host.registry, rfl, .inl rfl, .inl rfl⟩
  | none =>
    rw [Run.after, run_program_new hcompiled, ← Run.after]
    have hcode := after_code p m
    cases hout : (code p).outcome m with
    | error e =>
      rw [Run.after_bind_error hout, hcode]
      exact ⟨_, _, _, rfl, .inr rfl, .inl rfl⟩
    | ok text =>
      rw [Run.after_bind_ok hout, hcode]
      unfold parsed
      cases Syntax.parseCore text.toList with
      | error e => exact ⟨_, _, _, rfl, .inr rfl, .inl rfl⟩
      | ok body => exact ⟨_, _, _, rfl, .inr rfl, .inr ⟨body, rfl⟩⟩

theorem sameBody_within : (within H options).SameBody s p := by
  intro t _ m₁ m₂ hm
  obtain ⟨rfl, hc, hoptions, hholds⟩ := meets_within_iff.1 hm
  refine ⟨⟨t, le_rfl, ?_, meets_within_iff.2 ⟨rfl, ?_⟩⟩, (keeps_program p m₁).calls⟩
  · cases (program p).outcome m₁ with
    | ok body => exact .ok ⟨rfl, trivial⟩
    | error e => exact .error e
  · obtain ⟨world, cache, registry, hafter, -, hregistry⟩ := after_program p m₁
    rw [hafter]
    refine ⟨hc, hoptions, ?_⟩
    rcases hregistry with rfl | ⟨body, rfl⟩
    · exact hholds.same rfl rfl (fun _ => rfl) fun _ => id
    · exact (hholds.setCompiled p body).same rfl rfl (fun _ => rfl) fun _ => id

theorem agree_requireCore_within (name : String) :
    (within H options).Agree s (within H options).Values (requireCore name) (requireCore name) := by
  intro t _ m₁ m₂ hm
  obtain ⟨rfl, hc, hoptions, hholds⟩ := meets_within_iff.1 hm
  refine ⟨?_, (keeps_requireCore name m₁).calls⟩
  rw [Run.outcome, Run.after, run_requireCore]
  cases hcore : m₁.host.core.lookup name with
  | some v => exact ⟨t, le_rfl, .ok (hholds.core name v hcore), hm⟩
  | none =>
    have hload := Likeness.loadCoreModule hm.alike name
    dsimp only
    cases hmade : loadCoreModule m₁.heap name with
    | none => exact ⟨t, le_rfl, .error _, hm⟩
    | some made =>
      rw [hmade] at hload
      cases hload with
      | some hload =>
        obtain ⟨u, htu, hv, -, -, hc', hoptions', hholds'⟩ := hload
        exact ⟨u, htu, .ok hv, meets_within_iff.2 ⟨rfl, hc', hoptions', hholds'.addCore hv name⟩⟩

theorem optionRel_self {α : Type} {R : α → α → Prop} {a : Option α} (h : ∀ x, a = some x → R x x) :
    Option.Rel R a a := by
  cases a with
  | none => exact .none
  | some x => exact .some (h x rfl)

theorem laws_within (H : Horizon) (options : Options) :
    SystemLaws (within H options) Set.univ options where
  sameFiles := by
    rintro s h₁ h₂ e₁ e₂ ⟨-, rfl, -⟩
    exact ⟨rfl, trivial⟩
  sameOptions := by
    rintro s h₁ h₂ e₁ e₂ ⟨-, rfl, -, hoptions, -⟩
    exact ⟨hoptions, hoptions⟩
  overrides := by
    rintro s h₁ h₂ e₁ e₂ ⟨-, rfl, -, -, hholds⟩ name
    exact optionRel_self (hholds.overrides name)
  exports := by
    rintro s h₁ h₂ e₁ e₂ ⟨-, rfl, -, -, hholds⟩ p
    exact optionRel_self (hholds.exports p)
  sourcePosition := by
    rintro s h₁ h₂ e₁ e₂ p ⟨-, rfl, -⟩ - pos
    rfl
  log := by
    rintro s h₁ h₂ e₁ e₂ ⟨hh, rfl, hc, hk⟩ part message
    exact ⟨hh, rfl, hc, hk⟩
  watch := by
    rintro s h₁ h₂ e₁ e₂ ⟨hh, rfl, hc, hoptions, hholds⟩ p
    exact ⟨hh, rfl, hc, hoptions, hholds.watched p⟩
  setScope := by
    rintro s h₁ h₂ e₁ e₂ r r' ⟨hh, rfl, hc, hoptions, hholds⟩ ⟨rfl, hr⟩ p
    exact ⟨hh, rfl, hc, hoptions, hholds.setScope hr.exists_ p⟩
  setExports := by
    rintro s h₁ h₂ e₁ e₂ v w ⟨hh, rfl, hc, hoptions, hholds⟩ hv p
    obtain rfl := Horizon.eq_of_paired hv
    exact ⟨hh, rfl, hc, hoptions, hholds.setExports hv p⟩
  removeExports := by
    rintro s h₁ h₂ e₁ e₂ ⟨hh, rfl, hc, hoptions, hholds⟩ p
    exact ⟨hh, rfl, hc, hoptions, hholds.removeExports p⟩
  program _ _ := sameBody_within
  requireCore := agree_requireCore_within

end

/-! ## Requests within a horizon -/

section

variable {H : Horizon} {m : Machine ModuleSystem}

/-- What a state holds is within a horizon. -/
structure Inside (H : Horizon) (m : Machine ModuleSystem) : Prop where
  later : H.start ≤ m.heap.sizes
  heap : Heap.Matches (H.pairing m.heap.sizes) m.heap m.heap
  host : Holds (H.pairing m.heap.sizes) m.heap.sizes.scopes m.host

theorem Inside.meets (h : Inside H m) : (within H m.host.options).Meets m.heap.sizes m m :=
  meets_within_iff.2 ⟨rfl, ⟨rfl, h.later, h.heap⟩, rfl, h.host⟩

/-- A computation within a horizon stays there, and its results are within it. -/
theorem Inside.run (h : Inside H m) {α : Type} {Q : Sizes → α → α → Prop} {y : Run ModuleSystem α}
    (hagree : (within H m.host.options).Agree m.heap.sizes Q y y) :
    Inside H (y.after m) ∧ m.heap.sizes ≤ (y.after m).heap.sizes ∧
      ∀ a, y.outcome m = .ok a → Q (y.after m).heap.sizes a a := by
  obtain ⟨⟨s, hs, hout, hmeets⟩, -⟩ := hagree.at h.meets
  obtain ⟨-, ⟨rfl, hlater, hheap⟩, -, hholds⟩ := meets_within_iff.1 hmeets
  refine ⟨⟨hlater, hheap, hholds⟩, hs, fun a ha => ?_⟩
  rw [ha] at hout
  cases hout with
  | ok hQ => exact hQ

theorem agree_load (s : Sizes) (p : Path) :
    (within H m.host.options).Agree s (within H m.host.options).Values (load p) (load p) :=
  Likeness.agree_requireModule (laws_within H _)
    (Likeness.runners_runModule (Likeness.hosts_of_laws (laws_within H _)))
    fun _ _ _ => sameBody_within

end

/-! ## Every reference refers to something -/

/-- All that a state refers to is there. -/
structure Grounded (m : Machine ModuleSystem) : Prop where
  heap : m.heap.Sound
  survivors : ∀ v ∈ survivors m.host, m.heap.Has v
  scopes : ∀ r ∈ m.host.registry.scopes, r.index < m.heap.scopes.size

section

variable {H : Horizon} {m : Machine ModuleSystem} {v : Value}

theorem Inside.of_survivors (later : H.start ≤ m.heap.sizes)
    (heap : Heap.Matches (H.pairing m.heap.sizes) m.heap m.heap)
    (hvalues : ∀ v ∈ survivors m.host, v.Paired (H.pairing m.heap.sizes) v)
    (scopes : ∀ r ∈ m.host.registry.scopes, r.index < m.heap.scopes.size) : Inside H m :=
  ⟨later, heap, ⟨fun name v hv => hvalues v (.inl ⟨name, hv⟩),
    fun name v hv => hvalues v (.inr (.inl ⟨name, hv⟩)),
    fun p v hv => hvalues v (.inr (.inr ⟨p, hv⟩)), scopes⟩⟩

theorem inside_all_iff : Inside .all m ↔ Grounded m := by
  constructor
  · rintro ⟨-, hheap, hholds⟩
    exact ⟨Horizon.matches_all_iff.1 hheap,
      fun v hv => Horizon.paired_all_iff.1 (hholds.survivor hv), hholds.scopes⟩
  · rintro ⟨hheap, hsurvivors, hscopes⟩
    exact .of_survivors ⟨Nat.zero_le _, Nat.zero_le _, Nat.zero_le _, Nat.zero_le _⟩
      (Horizon.matches_all_iff.2 hheap) (fun v hv => Horizon.paired_all_iff.2 (hsurvivors v hv)) hscopes

/-- A state is inside of what the values reach that it holds. -/
theorem Grounded.inside (h : Grounded m) : Inside (.of m.heap (ModuleSystem.survivors m.host)) m :=
  .of_survivors le_rfl (Horizon.matches_of h.heap _)
    (fun v hv => Horizon.paired_of_mem hv (h.survivors v hv)) h.scopes

/-- What a loaded value leads to is new or within reach of what the system held when the load
started. -/
theorem reaches_of_load (h : Grounded m) {p : Path} (hload : (load p).outcome m = .ok v) {r : Ref}
    (hr : ((load p).after m).heap.Reaches {v} r) (hold : r.index < m.heap.sizes.of r) :
    m.heap.Reaches (survivors m.host) r := by
  obtain ⟨hinside, -, hvalue⟩ := h.inside.run (agree_load _ p)
  have hv := hvalue v hload
  have hwithin := Horizon.within_of_reaches hinside.heap (fun w hw => by rwa [hw]) hr
  exact hwithin.known.resolve_right (not_le.2 hold)

end

/-! ## Requests -/

end ModuleSystem

/-- The values of a call are values of the heap. -/
def Request.FromHeap (h : Heap) : Request → Prop
  | .call callee args => ∀ v ∈ callee :: args, h.Has v
  | .load _ | .require .. | .invalidate _ | .release | .outside _ => True

namespace ModuleSystem

section

variable {m m' : Machine ModuleSystem}

/-- A step that makes nothing, and drops no more than it likes. -/
theorem Grounded.step (h : Grounded m) (hheap : m'.heap.Sound) (hsizes : m.heap.sizes = m'.heap.sizes)
    (hsurvivors : ModuleSystem.survivors m'.host ⊆ ModuleSystem.survivors m.host)
    (hscopes : ∀ r ∈ m'.host.registry.scopes, r ∈ m.host.registry.scopes) : Grounded m' where
  heap := hheap
  survivors v hv := (h.survivors v (hsurvivors hv)).of_sizes hsizes
  scopes r hr := (h.scopes r (hscopes r hr)).trans_eq (congrArg Sizes.scopes hsizes)

theorem Grounded.release (h : Grounded m) : Grounded (release.after m) := by
  obtain ⟨world, -, hrun⟩ := run_release m
  obtain ⟨hsound, hsizes⟩ := Heap.sound_clearScopes h.heap m.host.registry.retired
  rw [Run.after, hrun]
  refine h.step hsound hsizes.symm (fun v hv => hv) fun r hr => ?_
  refine Registry.mem_scopes.2 ((Registry.mem_scopes.1 hr).imp_right fun hr => ?_)
  exact absurd hr List.not_mem_nil

theorem Grounded.invalidate (h : Grounded m) (p : Path) : Grounded ((ModuleSystem.invalidate p).after m) := by
  refine h.step h.heap rfl ?_ fun r hr => Registry.mem_scopes_invalidate hr
  rintro v (hv | hv | ⟨q, hv⟩)
  · exact .inl hv
  · exact .inr (.inl hv)
  · rw [show ((ModuleSystem.invalidate p).after m).host.registry.exports? q = none from
      Registry.exports?_invalidate m.host.registry p q] at hv
    cases hv

theorem Grounded.run (h : Grounded m) {α : Type} {Q : Sizes → α → α → Prop}
    {y : Run ModuleSystem α} (hagree : (within .all m.host.options).Agree m.heap.sizes Q y y) :
    Grounded (y.after m) :=
  inside_all_iff.1 ((inside_all_iff.2 h).run hagree).1

/-- All that a state refers to is still there after a request. -/
theorem Grounded.serve (h : Grounded m) (request : Request) (hvalues : request.FromHeap m.heap) :
    Grounded (serve m request) := by
  have hhosts := Likeness.hosts_of_laws (laws_within .all m.host.options)
  have hrunners := Likeness.runners_runModule hhosts
  cases request with
  | load p => exact h.run (agree_load _ p)
  | require specifier dir => exact h.run (hhosts.require hrunners _ specifier dir)
  | call callee args =>
    have hpaired : ∀ v ∈ callee :: args, v.Paired (Horizon.all.pairing m.heap.sizes) v :=
      fun v hv => Horizon.paired_all_iff.2 (hvalues v hv)
    exact h.run (Likeness.agree_callFromOutside hhosts (hpaired callee List.mem_cons_self)
      (Horizon.listPaired_self_iff.2 fun v hv => hpaired v (List.mem_cons_of_mem _ hv)))
  | invalidate p => exact h.invalidate p
  | release => exact h.release
  | outside f => exact h.step h.heap rfl (fun v hv => hv) fun r hr => hr

end

end ModuleSystem

namespace Setting

/-- The values of all calls are values of the heap when they are made. -/
def FromHeap (x : Setting) (history : List Request) : Prop :=
  ∀ before request after, history = before ++ request :: after →
    request.FromHeap (x.reached before).heap

/-- All that is referred to is there, after any requests. -/
theorem grounded_reached {x : Setting} (hx : ModuleSystem.Grounded x.start) {history : List Request}
    (hvalues : x.FromHeap history) : ModuleSystem.Grounded (x.reached history) := by
  induction history using List.reverseRecOn with
  | nil => exact hx
  | append_singleton history request ih =>
    rw [x.reached_snoc]
    refine (ih fun before other after hsplit => ?_).serve request (hvalues history request [] rfl)
    exact hvalues before other (after ++ [request]) (by simp [hsplit])

end Setting

end Hotload
