import Mathlib
import Hotload.Evaluation

/-!
# Two runs that are alike

Two machines run one program on heaps of their own. A likeness says when their states correspond; its
laws say that every operation on heaps keeps the states alike. Then all of evaluation does, so that
what a host adds has to be looked at alone.

* `Pairing`: which references stand for each other; `Value.Paired`: which values do.
* `Likeness`: when two states are alike. A likeness has stages, so that it can grow with the heaps
  and can record how far a run has come.
* `Likeness.Agree`: two computations end alike and leave alike states, and both are back in the
  calls that they started in.
-/

namespace Hotload

open Syntax (Pos Expr Stmt Function)

/-! ## Values -/

/-- The references of two heaps that stand for each other, and the modules whose code may run. -/
structure Pairing where
  list : ListRef → ListRef → Prop
  object : ObjectRef → ObjectRef → Prop
  scope : ScopeRef → ScopeRef → Prop
  identity : Identity → Identity → Prop
  path : Path → Prop

/-- The second pairing has all pairs of the first one. -/
structure Pairing.Le (K K' : Pairing) : Prop where
  list : ∀ ⦃r s⦄, K.list r s → K'.list r s
  object : ∀ ⦃r s⦄, K.object r s → K'.object r s
  scope : ∀ ⦃r s⦄, K.scope r s → K'.scope r s
  identity : ∀ ⦃i j⦄, K.identity i j → K'.identity i j
  path : ∀ ⦃p⦄, K.path p → K'.path p

instance : Preorder Pairing where
  le := Pairing.Le
  le_refl _ := ⟨fun _ _ h => h, fun _ _ h => h, fun _ _ h => h, fun _ _ h => h, fun _ h => h⟩
  le_trans _ _ _ h h' :=
    ⟨fun _ _ hr => h'.list (h.list hr), fun _ _ hr => h'.object (h.object hr),
      fun _ _ hr => h'.scope (h.scope hr), fun _ _ hr => h'.identity (h.identity hr),
      fun _ hr => h'.path (h.path hr)⟩

/-- The values are the same but for references, which stand for each other. -/
inductive Value.Paired (K : Pairing) : Value → Value → Prop where
  | nil : Paired K .nil .nil
  | bool (b : Bool) : Paired K (.bool b) (.bool b)
  | num (x : Float) : Paired K (.num x) (.num x)
  | str (s : String) : Paired K (.str s) (.str s)
  | list {r s : ListRef} (h : K.list r s) : Paired K (.list r) (.list s)
  | object {r s : ObjectRef} (h : K.object r s) : Paired K (.object r) (.object s)
  | fn {function : Function} {r s : ScopeRef} {path : Path} (hscope : K.scope r s)
      (hpath : K.path path) : Paired K (.fn ⟨function, r, path⟩) (.fn ⟨function, s, path⟩)
  | native (f : Native) {i j : Identity} (h : K.identity i j) : Paired K (.native f i) (.native f j)
  | require (dir : Path) (resolveOnly : Bool) {i j : Identity} (h : K.identity i j) :
      Paired K (.require ⟨dir, resolveOnly, i⟩) (.require ⟨dir, resolveOnly, j⟩)

/-- The fields have the same keys in the same order, with paired values. -/
def Fields.Paired (K : Pairing) : Fields → Fields → Prop :=
  List.Forall₂ fun p q => p.1 = q.1 ∧ p.2.Paired K q.2

/-- The lists hold paired values in the same order. -/
def Value.ListPaired (K : Pairing) : List Value → List Value → Prop := List.Forall₂ (Value.Paired K)

section

variable {K K' : Pairing} {v w : Value}

theorem Value.Paired.mono (hK : K ≤ K') (h : v.Paired K w) : v.Paired K' w := by
  cases h with
  | nil => exact .nil
  | bool b => exact .bool b
  | num x => exact .num x
  | str s => exact .str s
  | list h => exact .list (hK.list h)
  | object h => exact .object (hK.object h)
  | fn hscope hpath => exact .fn (hK.scope hscope) (hK.path hpath)
  | native f h => exact .native f (hK.identity h)
  | require dir resolveOnly h => exact .require dir resolveOnly (hK.identity h)

theorem Value.ListPaired.mono (hK : K ≤ K') {vs ws : List Value} (h : Value.ListPaired K vs ws) :
    Value.ListPaired K' vs ws :=
  List.Forall₂.imp (fun _ _ h => h.mono hK) h

theorem Value.Paired.typeName_eq (h : v.Paired K w) : v.typeName = w.typeName := by
  cases h <;> rfl

theorem Value.Paired.isTruthy_eq (h : v.Paired K w) : v.isTruthy = w.isTruthy := by
  cases h <;> rfl

/-- What a list holds at an index. -/
theorem Value.ListPaired.getD {vs ws : List Value} (h : Value.ListPaired K vs ws) (n : Nat) :
    (vs.getD n .nil).Paired K (ws.getD n .nil) := by
  induction h generalizing n with
  | nil => exact .nil
  | cons hv _ ih =>
    cases n with
    | zero => exact hv
    | succ n => exact ih n

/-- What fields hold under a key. -/
theorem Fields.Paired.lookup {fs gs : Fields} (h : Fields.Paired K fs gs) (key : String) :
    Option.Rel (Value.Paired K) (fs.lookup key) (gs.lookup key) := by
  induction h with
  | nil => exact .none
  | @cons p q fs gs hp _ ih =>
    obtain ⟨k, v⟩ := p
    obtain ⟨l, w⟩ := q
    obtain ⟨rfl, hv⟩ := hp
    simp only [List.lookup_cons]
    cases key == k with
    | true => exact .some hv
    | false => exact ih

end

/-! ## Outcomes -/

/-- Both computations have failed in the same way, or they have given results that are related. -/
inductive SameOutcome {α β : Type} (Q : α → β → Prop) :
    Except LoadError α → Except LoadError β → Prop where
  | ok {a : α} {b : β} (h : Q a b) : SameOutcome Q (.ok a) (.ok b)
  | error (e : LoadError) : SameOutcome Q (.error e) (.error e)

namespace Run

variable {σ α β : Type}

/-- How a computation ends. -/
def outcome (x : Run σ α) (m : Machine σ) : Except LoadError α := (x.run m).1

/-- The state that a computation leaves behind. -/
def after (x : Run σ α) (m : Machine σ) : Machine σ := (x.run m).2

theorem after_congr {x y : Run σ α} {m : Machine σ} (h : x.run m = y.run m) :
    x.after m = y.after m :=
  congrArg Prod.snd h

theorem outcome_bind_ok {x : Run σ α} {f : α → Run σ β} {m : Machine σ} {a : α}
    (h : x.outcome m = .ok a) : (x >>= f).outcome m = (f a).outcome (x.after m) := by
  change ((ExceptT.bindCont f (x.run m).1) (x.run m).2).1 = _
  rw [show (x.run m).1 = .ok a from h]
  rfl

theorem after_bind_ok {x : Run σ α} {f : α → Run σ β} {m : Machine σ} {a : α}
    (h : x.outcome m = .ok a) : (x >>= f).after m = (f a).after (x.after m) := by
  change ((ExceptT.bindCont f (x.run m).1) (x.run m).2).2 = _
  rw [show (x.run m).1 = .ok a from h]
  rfl

theorem outcome_bind_error {x : Run σ α} {f : α → Run σ β} {m : Machine σ} {e : LoadError}
    (h : x.outcome m = .error e) : (x >>= f).outcome m = .error e := by
  change ((ExceptT.bindCont f (x.run m).1) (x.run m).2).1 = _
  rw [show (x.run m).1 = .error e from h]
  rfl

theorem after_bind_error {x : Run σ α} {f : α → Run σ β} {m : Machine σ} {e : LoadError}
    (h : x.outcome m = .error e) : (x >>= f).after m = x.after m := by
  change ((ExceptT.bindCont f (x.run m).1) (x.run m).2).2 = _
  rw [show (x.run m).1 = .error e from h]
  rfl

theorem run_bind_ok {x : Run σ α} {f : α → Run σ β} {m m' : Machine σ} {a : α}
    (h : x.outcome m = .ok a) (h' : x.after m = m') : (x >>= f).run m = (f a).run m' := by
  subst h'
  exact Prod.ext (outcome_bind_ok h) (after_bind_ok h)

/-- The outcome of the first of two steps is the second one's argument. -/
theorem run_observe_bind (x : Run σ α) (f : Except LoadError α → Run σ β) (m : Machine σ) :
    (observe x >>= f).run m = (f (x.outcome m)).run (x.after m) := rfl

theorem outcome_ofExcept (o : Except LoadError α) (m : Machine σ) : (ofExcept o).outcome m = o := by
  cases o <;> rfl

theorem after_ofExcept (o : Except LoadError α) (m : Machine σ) : (ofExcept o).after m = m := by
  cases o <;> rfl

end Run

/-! ## Calls -/

/-- The second state is in the same calls as the first one; positions in them may differ. -/
structure Machine.SameCalls {σ : Type} (m m' : Machine σ) : Prop where
  nesting : m'.nesting = m.nesting
  base : m'.running.base = m.running.base
  stack : m'.running.stack.map (fun a => (a.function, a.path)) =
    m.running.stack.map (fun a => (a.function, a.path))

namespace Machine.SameCalls

variable {σ : Type} {m m' m'' : Machine σ}

theorem refl (m : Machine σ) : m.SameCalls m := ⟨rfl, rfl, rfl⟩

theorem trans (h : m.SameCalls m') (h' : m'.SameCalls m'') : m.SameCalls m'' :=
  ⟨h'.nesting.trans h.nesting, h'.base.trans h.base, h'.stack.trans h.stack⟩

theorem of_eq (hnesting : m'.nesting = m.nesting) (hrunning : m'.running = m.running) :
    m.SameCalls m' :=
  ⟨hnesting, by rw [hrunning], by rw [hrunning]⟩

end Machine.SameCalls

/-! ## Likenesses -/

/-- When two states are alike, in stages that may only go on. The laws say that the operations on
heaps keep states alike. -/
structure Likeness (σ₁ σ₂ : Type) where
  Stage : Type
  [order : Preorder Stage]
  pairing : Stage → Pairing
  pairing_mono : Monotone pairing
  /-- Code that runs outside of all calls belongs to no module. -/
  blank : ∀ i, (pairing i).path ⟨""⟩
  /-- The heaps correspond, and so does what is outside of the programs. -/
  alike : Stage → Heap → Heap → World × σ₁ → World × σ₂ → Prop
  lookup : ∀ {i h₁ h₂ e₁ e₂ r s}, alike i h₁ h₂ e₁ e₂ → (pairing i).scope r s → ∀ name,
    Option.Rel (Value.Paired (pairing i)) (h₁.lookup r name) (h₂.lookup s name)
  define : ∀ {i h₁ h₂ e₁ e₂ r s v w}, alike i h₁ h₂ e₁ e₂ → (pairing i).scope r s →
    Value.Paired (pairing i) v w → ∀ name, alike i (h₁.define r name v) (h₂.define s name w) e₁ e₂
  hoist : ∀ {i h₁ h₂ e₁ e₂ r s p}, alike i h₁ h₂ e₁ e₂ → (pairing i).scope r s →
    (pairing i).path p → ∀ name function,
    alike i (h₁.hoist r name function p) (h₂.hoist s name function p) e₁ e₂
  assign : ∀ {i h₁ h₂ e₁ e₂ r s v w}, alike i h₁ h₂ e₁ e₂ → (pairing i).scope r s →
    Value.Paired (pairing i) v w → ∀ name,
    Option.Rel (alike i · · e₁ e₂) (h₁.assign r name v) (h₂.assign s name w)
  newScope : ∀ {i h₁ h₂ e₁ e₂ r s}, alike i h₁ h₂ e₁ e₂ → Option.Rel (pairing i).scope r s →
    ∃ j, i ≤ j ∧ (pairing j).scope (h₁.newScope r).1 (h₂.newScope s).1 ∧
      alike j (h₁.newScope r).2 (h₂.newScope s).2 e₁ e₂
  newObject : ∀ {i h₁ h₂ e₁ e₂ fs gs}, alike i h₁ h₂ e₁ e₂ → Fields.Paired (pairing i) fs gs →
    ∃ j, i ≤ j ∧ (pairing j).object (h₁.newObject fs).1 (h₂.newObject gs).1 ∧
      alike j (h₁.newObject fs).2 (h₂.newObject gs).2 e₁ e₂
  newList : ∀ {i h₁ h₂ e₁ e₂ vs ws}, alike i h₁ h₂ e₁ e₂ → Value.ListPaired (pairing i) vs ws →
    ∃ j, i ≤ j ∧ (pairing j).list (h₁.newList vs.toArray).1 (h₂.newList ws.toArray).1 ∧
      alike j (h₁.newList vs.toArray).2 (h₂.newList ws.toArray).2 e₁ e₂
  freshIdentity : ∀ {i h₁ h₂ e₁ e₂}, alike i h₁ h₂ e₁ e₂ →
    ∃ j, i ≤ j ∧ (pairing j).identity h₁.freshIdentity.1 h₂.freshIdentity.1 ∧
      alike j h₁.freshIdentity.2 h₂.freshIdentity.2 e₁ e₂
  fields : ∀ {i h₁ h₂ e₁ e₂ r s}, alike i h₁ h₂ e₁ e₂ → (pairing i).object r s →
    Fields.Paired (pairing i) (h₁.fields r) (h₂.fields s)
  setField : ∀ {i h₁ h₂ e₁ e₂ r s v w}, alike i h₁ h₂ e₁ e₂ → (pairing i).object r s →
    Value.Paired (pairing i) v w → ∀ key, alike i (h₁.setField r key v) (h₂.setField s key w) e₁ e₂
  items : ∀ {i h₁ h₂ e₁ e₂ r s}, alike i h₁ h₂ e₁ e₂ → (pairing i).list r s →
    Value.ListPaired (pairing i) (h₁.items r).toList (h₂.items s).toList
  setItem : ∀ {i h₁ h₂ e₁ e₂ r s v w}, alike i h₁ h₂ e₁ e₂ → (pairing i).list r s →
    Value.Paired (pairing i) v w → ∀ n,
    Option.Rel (alike i · · e₁ e₂) (h₁.setItem? r n v) (h₂.setItem? s n w)
  strictEq : ∀ {i h₁ h₂ e₁ e₂ v w v' w'}, alike i h₁ h₂ e₁ e₂ → Value.Paired (pairing i) v w →
    Value.Paired (pairing i) v' w' → v.strictEq v' = w.strictEq w'

namespace Likeness

variable {σ₁ σ₂ α β γ δ : Type} {L : Likeness σ₁ σ₂}

instance (L : Likeness σ₁ σ₂) : Preorder L.Stage := L.order

/-- The values stand for each other at a stage. -/
abbrev Values (L : Likeness σ₁ σ₂) (i : L.Stage) : Value → Value → Prop :=
  Value.Paired (L.pairing i)

/-- The states correspond at a stage: they are in the same calls, which are calls of modules whose
code may run. -/
structure Meets (L : Likeness σ₁ σ₂) (i : L.Stage) (m₁ : Machine σ₁) (m₂ : Machine σ₂) : Prop where
  alike : L.alike i m₁.heap m₂.heap (m₁.world, m₁.host) (m₂.world, m₂.host)
  running : m₁.running = m₂.running
  nesting : m₁.nesting = m₂.nesting
  paths : ∀ a ∈ m₁.running.stack, (L.pairing i).path a.path

/-- From two states on, the computations end alike at a later stage, in the calls that they were
in. -/
structure AgreeAt (L : Likeness σ₁ σ₂) (i : L.Stage) (Q : L.Stage → α → β → Prop)
    (x : Run σ₁ α) (y : Run σ₂ β) (m₁ : Machine σ₁) (m₂ : Machine σ₂) : Prop where
  ends : ∃ j, i ≤ j ∧ SameOutcome (Q j) (x.outcome m₁) (y.outcome m₂) ∧
    L.Meets j (x.after m₁) (y.after m₂)
  calls : m₁.SameCalls (x.after m₁)

/-- The computations agree from a stage on. -/
def Agree (L : Likeness σ₁ σ₂) (i : L.Stage) (Q : L.Stage → α → β → Prop)
    (x : Run σ₁ α) (y : Run σ₂ β) : Prop :=
  ∀ j, i ≤ j → ∀ m₁ m₂, L.Meets j m₁ m₂ → L.AgreeAt j Q x y m₁ m₂

variable {i j : L.Stage} {Q : L.Stage → α → β → Prop} {Q' : L.Stage → γ → δ → Prop}
  {x : Run σ₁ α} {y : Run σ₂ β} {f : α → Run σ₁ γ} {g : β → Run σ₂ δ}
  {m₁ : Machine σ₁} {m₂ : Machine σ₂}

theorem Values.mono {v w : Value} (hij : i ≤ j) (h : L.Values i v w) : L.Values j v w :=
  Value.Paired.mono (L.pairing_mono hij) h

theorem scope_mono {r s : ScopeRef} (hij : i ≤ j) (h : (L.pairing i).scope r s) :
    (L.pairing j).scope r s :=
  (L.pairing_mono hij).scope h

theorem path_mono {p : Path} (hij : i ≤ j) (h : (L.pairing i).path p) : (L.pairing j).path p :=
  (L.pairing_mono hij).path h

/-! ## Computations that agree -/

theorem AgreeAt.pure {a : α} {b : β} (hm : L.Meets i m₁ m₂) (h : Q i a b) :
    L.AgreeAt i Q (Pure.pure a) (Pure.pure b) m₁ m₂ :=
  ⟨⟨i, le_rfl, .ok h, hm⟩, .refl m₁⟩

theorem AgreeAt.throw (hm : L.Meets i m₁ m₂) (e : LoadError) :
    L.AgreeAt i Q (MonadExcept.throw e) (MonadExcept.throw e) m₁ m₂ :=
  ⟨⟨i, le_rfl, .error e, hm⟩, .refl m₁⟩

/-- What follows a computation has only to agree where it starts. -/
theorem AgreeAt.bind_at (h : L.AgreeAt i Q x y m₁ m₂)
    (hfg : ∀ j, i ≤ j → ∀ a b, x.outcome m₁ = .ok a → Q j a b →
      L.Meets j (x.after m₁) (y.after m₂) →
      L.AgreeAt j Q' (f a) (g b) (x.after m₁) (y.after m₂)) :
    L.AgreeAt i Q' (x >>= f) (y >>= g) m₁ m₂ := by
  obtain ⟨⟨j, hij, hout, hmeets⟩, hcalls⟩ := h
  generalize hx : x.outcome m₁ = o₁ at hout hfg
  generalize hy : y.outcome m₂ = o₂ at hout
  cases hout with
  | ok hab =>
    obtain ⟨⟨k, hjk, hout', hmeets'⟩, hcalls'⟩ := hfg j hij _ _ rfl hab hmeets
    refine ⟨⟨k, hij.trans hjk, ?_, ?_⟩, ?_⟩
    · rwa [Run.outcome_bind_ok hx, Run.outcome_bind_ok hy]
    · rwa [Run.after_bind_ok hx, Run.after_bind_ok hy]
    · rw [Run.after_bind_ok hx]
      exact hcalls.trans hcalls'
  | error e =>
    refine ⟨⟨j, hij, ?_, ?_⟩, ?_⟩
    · rw [Run.outcome_bind_error hx, Run.outcome_bind_error hy]
      exact .error e
    · rwa [Run.after_bind_error hx, Run.after_bind_error hy]
    · rwa [Run.after_bind_error hx]

theorem AgreeAt.bind (h : L.AgreeAt i Q x y m₁ m₂)
    (hfg : ∀ j, i ≤ j → ∀ a b, Q j a b → L.Agree j Q' (f a) (g b)) :
    L.AgreeAt i Q' (x >>= f) (y >>= g) m₁ m₂ :=
  h.bind_at fun j hij a b _ hab hm => hfg j hij a b hab j le_rfl _ _ hm

/-- A step that gives the same result on both sides and changes no more than the heap, what is
outside, and the positions in the calls. -/
theorem AgreeAt.of_ok {a : α} {b : β} (hx : x.outcome m₁ = .ok a) (hy : y.outcome m₂ = .ok b)
    (hij : i ≤ j) (hab : Q j a b) (hmeets : L.Meets j (x.after m₁) (y.after m₂))
    (hcalls : m₁.SameCalls (x.after m₁)) : L.AgreeAt i Q x y m₁ m₂ :=
  ⟨⟨j, hij, by rw [hx, hy]; exact .ok hab, hmeets⟩, hcalls⟩

theorem AgreeAt.mono {R : L.Stage → α → β → Prop} (h : L.AgreeAt i Q x y m₁ m₂)
    (hQ : ∀ j, i ≤ j → ∀ a b, Q j a b → R j a b) : L.AgreeAt i R x y m₁ m₂ := by
  obtain ⟨⟨j, hij, hout, hmeets⟩, hcalls⟩ := h
  refine ⟨⟨j, hij, ?_, hmeets⟩, hcalls⟩
  generalize x.outcome m₁ = o₁ at hout ⊢
  generalize y.outcome m₂ = o₂ at hout ⊢
  cases hout with
  | ok hab => exact .ok (hQ j hij _ _ hab)
  | error e => exact .error e

/-- Computations that do the same here. -/
theorem AgreeAt.congr {x' : Run σ₁ α} {y' : Run σ₂ β} (h : L.AgreeAt i Q x' y' m₁ m₂)
    (hx : x.run m₁ = x'.run m₁) (hy : y.run m₂ = y'.run m₂) : L.AgreeAt i Q x y m₁ m₂ := by
  refine ⟨?_, ?_⟩
  · rw [Run.outcome, Run.after, Run.outcome, Run.after, hx, hy]
    exact h.ends
  · rw [Run.after, hx]
    exact h.calls

theorem Agree.later (h : L.Agree i Q x y) (hij : i ≤ j) : L.Agree j Q x y :=
  fun k hjk => h k (hij.trans hjk)

theorem Agree.at (h : L.Agree i Q x y) (hm : L.Meets i m₁ m₂) : L.AgreeAt i Q x y m₁ m₂ :=
  h i le_rfl m₁ m₂ hm

theorem Agree.pure {a : α} {b : β} (h : ∀ j, i ≤ j → Q j a b) :
    L.Agree i Q (Pure.pure a) (Pure.pure b) :=
  fun j hij _ _ hm => .pure hm (h j hij)

theorem Agree.throw (e : LoadError) :
    L.Agree i Q (MonadExcept.throw e) (MonadExcept.throw e) :=
  fun _ _ _ _ hm => .throw hm e

theorem Agree.bind (h : L.Agree i Q x y)
    (hfg : ∀ j, i ≤ j → ∀ a b, Q j a b → L.Agree j Q' (f a) (g b)) :
    L.Agree i Q' (x >>= f) (y >>= g) :=
  fun j hij m₁ m₂ hm =>
    (h j hij m₁ m₂ hm).bind fun k hjk a b hab => hfg k (hij.trans hjk) a b hab

theorem Agree.mono {R : L.Stage → α → β → Prop} (h : L.Agree i Q x y)
    (hQ : ∀ j, i ≤ j → ∀ a b, Q j a b → R j a b) : L.Agree i R x y :=
  fun j hij m₁ m₂ hm => (h j hij m₁ m₂ hm).mono fun k hjk => hQ k (hij.trans hjk)

/-- A branch on both sides by the same test. -/
theorem Agree.ite {p q : Prop} [Decidable p] [Decidable q] {x' : Run σ₁ α} {y' : Run σ₂ β}
    (hpq : p ↔ q) (h : p → L.Agree i Q x y) (h' : ¬ p → L.Agree i Q x' y') :
    L.Agree i Q (if p then x else x') (if q then y else y') := by
  by_cases hp : p
  · rw [if_pos hp, if_pos (hpq.1 hp)]
    exact h hp
  · rw [if_neg hp, if_neg (mt hpq.2 hp)]
    exact h' hp

/-- The first of two steps reads the state. -/
theorem AgreeAt.get_bind {f : Machine σ₁ → Run σ₁ γ} {g : Machine σ₂ → Run σ₂ δ}
    (h : L.AgreeAt i Q' (f m₁) (g m₂) m₁ m₂) :
    L.AgreeAt i Q' (MonadState.get >>= f) (MonadState.get >>= g) m₁ m₂ :=
  ⟨h.ends, h.calls⟩

theorem Agree.get_bind {f : Machine σ₁ → Run σ₁ γ} {g : Machine σ₂ → Run σ₂ δ}
    (h : ∀ j, i ≤ j → ∀ m₁ m₂, L.Meets j m₁ m₂ → L.AgreeAt j Q' (f m₁) (g m₂) m₁ m₂) :
    L.Agree i Q' (MonadState.get >>= f) (MonadState.get >>= g) :=
  fun j hij m₁ m₂ hm => (h j hij m₁ m₂ hm).get_bind

/-- The first of two steps reads the heap. -/
theorem Agree.heap_bind {f : Heap → Run σ₁ γ} {g : Heap → Run σ₂ δ}
    (h : ∀ j, i ≤ j → ∀ m₁ m₂, L.Meets j m₁ m₂ → L.AgreeAt j Q' (f m₁.heap) (g m₂.heap) m₁ m₂) :
    L.Agree i Q' (Run.heap >>= f) (Run.heap >>= g) :=
  fun j hij m₁ m₂ hm => ⟨(h j hij m₁ m₂ hm).ends, (h j hij m₁ m₂ hm).calls⟩

end Likeness

end Hotload
