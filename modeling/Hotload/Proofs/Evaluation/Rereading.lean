import Mathlib
import Hotload.Proofs.Evaluation.Horizon
import Hotload.Proofs.Evaluation.PropertyNames

/-!
# Reading twice

A variable, a property or an element is read twice, and nothing is written in between. The second value
is the first one, unless the access asks a loading function for `resolve`: that makes a function each
time, and no two of them are equal.

* `Value.strictEq_self`: a value is equal to itself unless it is NaN.
* `Access`, `Access.value?`, `evalExpr_access`: an access whose parts have values, and what it reads.
* `Heap.Spent`: identities have been given out and nothing else has happened.
* `Access.value?_again`: an access reads again.
* `OnlyReads`, `reads_again`: so does an expression that only reads.
* `accesses_read_the_same`: for values and for programs.
-/

namespace Hotload

open Syntax (Pos Expr)

/-! ## Values compared with themselves -/

namespace Number

open Float.Model (Format UnpackedFloat)
open Float.Model.UnpackedFloat (unpackExponent unpackMantissa)

/-- The format's own test for NaN looks at the same bits. -/
theorem unpack_eq_notANumber_iff (x : Float) : x.toModel.unpack = .notANumber ↔ isNaN x = true := by
  have hexponent : @unpackExponent Format.binary64 x.toBits.toBitVec = -1#_ ↔
      x.toBits.toNat / 2 ^ 52 % 2 ^ 11 = 2047 := by
    rw [← BitVec.toNat_inj]
    simp [unpackExponent, BitVec.extractLsb_toNat, Nat.shiftRight_eq_div_pow]
  have hmantissa : @unpackMantissa Format.binary64 x.toBits.toBitVec = 0#_ ↔
      x.toBits.toNat % 2 ^ 52 = 0 := by
    rw [← BitVec.toNat_inj]
    simp [unpackMantissa, BitVec.extractLsb_toNat, Nat.shiftRight_eq_div_pow]
  change UnpackedFloat.unpack Format.binary64 x.toBits.toBitVec = _ ↔ _
  unfold UnpackedFloat.unpack isNaN Binary64.ofFloat
  simp only [hexponent, hmantissa, Nat.pow_eq]
  split_ifs <;> simp

theorem beq_self (x : Float) : (x == x) = !isNaN x := by
  have hcompare (u : UnpackedFloat) : u.beq u = true ↔ u ≠ .notANumber := by
    cases u with
    | notANumber => simp [UnpackedFloat.beq, UnpackedFloat.compare]
    | infinity s => cases s <;> simp [UnpackedFloat.beq, UnpackedFloat.compare] <;> rfl
    | zero s => simp [UnpackedFloat.beq, UnpackedFloat.compare]
    | finite s m e hm => cases s <;> simp [UnpackedFloat.beq, UnpackedFloat.compare]
  rw [Bool.eq_iff_iff, Bool.not_eq_true', ← Bool.not_eq_true, ← unpack_eq_notANumber_iff]
  exact hcompare _

end Number

namespace Value

/-- The value is the number NaN, which is equal to nothing. -/
def isNaN : Value → Bool
  | num x => Number.isNaN x
  | _ => false

theorem strictEq_self (v : Value) : v.strictEq v = !v.isNaN := by
  cases v with
  | num x => exact Number.beq_self x
  | nil => rfl
  | bool b => exact beq_self_eq_true b
  | str s => exact beq_self_eq_true s
  | list r => exact decide_eq_true rfl
  | object r => exact decide_eq_true rfl
  | fn f => simp [strictEq, Closure.same, isNaN]
  | native f i => exact decide_eq_true rfl
  | require r => exact decide_eq_true rfl

/-- The values are the same but for the identities of loading functions that look in one directory. -/
def Alike (v w : Value) : Prop :=
  w = v ∨ ∃ r s : Require, v = .require r ∧ w = .require s ∧ s.dir = r.dir

end Value

/-! ## Accesses -/

/-- An access whose parts have been evaluated. -/
inductive Access where
  | ident (scope : ScopeRef) (name : String)
  | member (object : Value) (name : String)
  | index (object key : Value)

namespace Access

/-- What an access reads from a heap, and the heap afterwards. -/
def value? (h : Heap) : Access → Option (Value × Heap)
  | ident scope name => (h.lookup scope name).map (·, h)
  | member object name => h.property? object name
  | index (.list r) (.num x) => (indexOf? x).map fun n => ((h.items r).getD n .nil, h)
  | index (.str s) (.num x) => (indexOf? x).map fun n => ((s.toList[n]?).elim .nil (.str ·.toString), h)
  | index object (.str key) => h.property? object key
  | index _ _ => none

/-- Why an access cannot be read. -/
def fault : Access → RuntimeFault
  | ident _ name => .undefined name
  | member object name => .unreadable name object.typeName
  | index object key => .notIndexable object.typeName key.typeName

/-- The access asks a loading function for the function that only finds modules. -/
def AsksForResolve : Access → Prop
  | ident _ _ => False
  | member object name => (∃ r, object = .require r) ∧ name = "resolve"
  | index object key => (∃ r, object = .require r) ∧ key = .str "resolve"

/-- What the access reads from is there. -/
def There (h : Heap) : Access → Prop
  | ident scope _ => scope.index < h.scopes.size
  | member object _ => h.Has object
  | index object _ => h.Has object

/-- The accesses are the same but for the identities of loading functions. -/
inductive Alike : Access → Access → Prop where
  | ident (scope : ScopeRef) (name : String) : Alike (.ident scope name) (.ident scope name)
  | member {v w : Value} (h : v.Alike w) (name : String) : Alike (.member v name) (.member w name)
  | index {v w i j : Value} (h : v.Alike w) (hi : i.Alike j) : Alike (.index v i) (.index w j)

end Access

section

variable {σ : Type} (host : Host σ) (ev : Evaluator σ)

/-- Reads what an access reads, or fails at a position. -/
def Access.read (pos : Pos) (a : Access) : Run σ Value := do
  match a.value? (← Run.heap) with
  | some (value, h) =>
    Run.modifyHeap fun _ => h
    return value
  | none => Run.failAt host pos a.fault

/-- Evaluates the parts of an expression, if it is an access. -/
def accessOf (scope : ScopeRef) : Expr → Option (Run σ Access)
  | .ident _ name => some (return .ident scope name)
  | .member _ object name => some do return .member (← ev.eval object scope) name
  | .index _ object index => some do return .index (← ev.eval object scope) (← ev.eval index scope)
  | _ => none

theorem heap_bind {α : Type} (f : Heap → Run σ α) (m : Machine σ) : (Run.heap >>= f) m = f m.heap m := rfl

theorem readIndex_eq (object index : Value) (pos : Pos) :
    readIndex host object index pos = Access.read host pos (.index object index) := by
  refine funext fun m => ?_
  cases index with
  | num x =>
    cases object with
    | list r =>
      dsimp only [readIndex, Access.read, Access.value?]
      cases indexOf? x <;> rfl
    | str s =>
      dsimp only [readIndex, Access.read, Access.value?]
      cases indexOf? x with
      | none => rfl
      | some n =>
        dsimp only [Option.map_some]
        cases s.toList[n]? <;> rfl
    | _ => rfl
  | str key => cases object <;> rfl
  | _ => cases object <;> rfl

/-- An access is evaluated by evaluating its parts and reading. -/
theorem evalExpr_access {e : Expr} {scope : ScopeRef} {x : Run σ Access}
    (h : accessOf ev scope e = some x) : evalExpr host ev e scope = x >>= Access.read host e.pos := by
  unfold accessOf at h
  split at h
  next pos name =>
    cases h
    rw [pure_bind]
    refine funext fun m => ?_
    dsimp only [evalExpr, Access.read, Access.value?]
    rw [heap_bind, heap_bind]
    cases m.heap.lookup scope name <;> rfl
  next pos object name =>
    cases h
    rw [bind_assoc]
    refine bind_congr fun v => ?_
    rw [pure_bind]
    rfl
  next pos object index =>
    cases h
    simp only [bind_assoc, pure_bind, ← readIndex_eq]
    rfl
  next => cases h

/-- An access that has a value changes nothing but the heap. -/
theorem run_read_of_value? {a : Access} {m : Machine σ} {v : Value} {h : Heap}
    (hv : a.value? m.heap = some (v, h)) (pos : Pos) :
    (a.read host pos).run m = (.ok v, { m with heap := h }) := by
  change (Run.heap >>= _) m = _
  rw [heap_bind, hv]
  rfl

theorem value?_of_outcome {a : Access} {m : Machine σ} {v : Value} {pos : Pos}
    (hv : (a.read host pos).outcome m = .ok v) :
    a.value? m.heap = some (v, ((a.read host pos).after m).heap) := by
  cases hvalue : a.value? m.heap with
  | none =>
    have hrun : (a.read host pos).run m = (Run.failAt host pos a.fault : Run σ Value).run m := by
      change (Run.heap >>= _) m = _
      rw [heap_bind, hvalue]
      rfl
    rw [Run.outcome, hrun] at hv
    cases hv
  | some r =>
    have hrun := run_read_of_value? host hvalue pos
    rw [Run.outcome, hrun] at hv
    cases hv
    rw [Run.after, hrun]

end

/-! ## Heaps on which nothing is written -/

namespace Heap

open Horizon (all within_all_iff paired_all_iff matches_all_iff eq_of_paired)

variable {h h' h'' : Heap} {v : Value}

/-- Identities have been given out, and nothing else has happened. -/
structure Spent (h h' : Heap) : Prop where
  lists : h'.lists = h.lists
  objects : h'.objects = h.objects
  scopes : h'.scopes = h.scopes
  identities : h.identities ≤ h'.identities

theorem Spent.refl (h : Heap) : h.Spent h := ⟨rfl, rfl, rfl, le_rfl⟩

theorem Spent.trans (h₁ : h.Spent h') (h₂ : h'.Spent h'') : h.Spent h'' :=
  ⟨h₂.lists.trans h₁.lists, h₂.objects.trans h₁.objects, h₂.scopes.trans h₁.scopes,
    h₁.identities.trans h₂.identities⟩

theorem spent_freshIdentity (h : Heap) : h.Spent h.freshIdentity.2 := ⟨rfl, rfl, rfl, Nat.le_succ _⟩

theorem Spent.extends (hs : h.Spent h') : h.Extends h' where
  lists r hr := ⟨by rwa [hs.lists], by rw [items, hs.lists, items]⟩
  objects r hr := ⟨by rwa [hs.objects], by rw [fields, hs.objects, fields]⟩
  scopes r hr := ⟨by rwa [hs.scopes], by rw [scope, hs.scopes, scope]⟩
  identities := hs.identities

theorem Extends.trans (h₁ : h.Extends h') (h₂ : h'.Extends h'') : h.Extends h'' where
  lists r hr := (h₁.lists r hr).elim fun hr' heq => ⟨(h₂.lists r hr').1, (h₂.lists r hr').2.trans heq⟩
  objects r hr := (h₁.objects r hr).elim fun hr' heq => ⟨(h₂.objects r hr').1, (h₂.objects r hr').2.trans heq⟩
  scopes r hr := (h₁.scopes r hr).elim fun hr' heq => ⟨(h₂.scopes r hr').1, (h₂.scopes r hr').2.trans heq⟩
  identities := h₁.identities.trans h₂.identities

/-- A value that refers to nothing is there. -/
theorem has_plain (href : v.ref? = none) (hidentity : v.identity? = none) : h.Has v :=
  ⟨by simp [href], by simp [hidentity]⟩

theorem Has.mono (hv : h.Has v) (he : h.Extends h') : h'.Has v :=
  ⟨fun p hp => (hv.ref p hp).trans_le (Sizes.of_mono he.sizes_le p),
    fun i hi => (hv.identity i hi).trans_le he.identities⟩

theorem Spent.sound (hs : h.Spent h') (hsound : h.Sound) : h'.Sound where
  contents p hp v hv := by
    have hcontents : h'.contents p = h.contents p := by
      cases p with
      | list r => rw [contents, contents, items, hs.lists, items]
      | object r => rw [contents, contents, fields, hs.objects, fields]
      | scope r => rw [contents, contents, scope, hs.scopes, scope]
    have hsizes : h'.sizes.of p = h.sizes.of p := by
      cases p with
      | list r => exact congrArg Array.size hs.lists
      | object r => exact congrArg Array.size hs.objects
      | scope r => exact congrArg Array.size hs.scopes
    rw [hcontents] at hv
    rw [hsizes] at hp
    exact (hsound.contents p hp v hv).mono hs.extends
  older r p hr hp := by
    rw [scope, hs.scopes] at hp
    exact hsound.older r p (hs.scopes ▸ hr) hp

/-- All that is there stands for itself on a heap that holds more. -/
theorem Sound.matches (hs : h.Sound) (he : h.Extends h') : Matches (all.pairing h.sizes) h h' :=
  (matches_all_iff.2 hs).grow le_rfl (.refl h) he (fun _ _ => .inl) (fun _ _ => .inl) (fun _ _ => .inl)
    fun _ _ => .inl

/-- A value that stands for itself is the same on both heaps, and is there. -/
theorem eq_of_matched {w : Value} (hvw : v.Paired (all.pairing h.sizes) w) : w = v ∧ h.Has v := by
  obtain rfl := eq_of_paired hvw
  exact ⟨rfl, paired_all_iff.1 hvw⟩

/-- A variable is found again, and its value is there. -/
theorem Sound.lookup (hs : h.Sound) (he : h.Extends h') {scope : ScopeRef}
    (hscope : scope.index < h.scopes.size) {name : String} (hv : h.lookup scope name = some v) :
    h'.lookup scope name = some v ∧ h.Has v := by
  have hrel := (hs.matches he).lookup ⟨rfl, within_all_iff.2 hscope⟩ name
  rw [hv] at hrel
  generalize h'.lookup scope name = found at hrel ⊢
  cases hrel with
  | some hpaired =>
    obtain ⟨rfl, hhas⟩ := eq_of_matched hpaired
    exact ⟨rfl, hhas⟩

/-- So is what an object has under a key. -/
theorem Sound.field (hs : h.Sound) (he : h.Extends h') {r : ObjectRef} (hr : h.Has (.object r))
    (key : String) :
    (h'.field? r key).getD .nil = (h.field? r key).getD .nil ∧ h.Has ((h.field? r key).getD .nil) := by
  have hwithin := within_all_iff.2 (hr.ref (.object r) rfl)
  have hrel := ((hs.matches he).objects ⟨rfl, hwithin⟩).fields.lookup key
  unfold field?
  generalize (h.fields r).lookup key = first at hrel ⊢
  generalize (h'.fields r).lookup key = second at hrel ⊢
  cases hrel with
  | none => exact ⟨rfl, has_plain rfl rfl⟩
  | some hpaired => exact eq_of_matched hpaired

/-- So is what a list has at an index. -/
theorem Sound.item (hs : h.Sound) (he : h.Extends h') {r : ListRef} (hr : h.Has (.list r)) (n : Nat) :
    (h'.items r).getD n .nil = (h.items r).getD n .nil ∧ h.Has ((h.items r).getD n .nil) := by
  have hwithin := within_all_iff.2 (hr.ref (.list r) rfl)
  have hpaired := ((hs.matches he).lists ⟨rfl, hwithin⟩).items.getD n
  simp only [List.getD_eq_getElem?_getD, Array.getElem?_toList] at hpaired
  simp only [Array.getD_eq_getD_getElem?]
  exact eq_of_matched hpaired

end Heap

/-! ## Reading again -/

/-- A value is read, and on a heap on which nothing has been written since a second one: the same value,
or else a new function that loads modules. -/
def ReadAgain (h h₁ h₂ : Heap) (v : Value) (new : Prop) (second : Option (Value × Heap)) : Prop :=
  h.Spent h₁ ∧ h₁.Has v ∧ ∃ w h₃, second = some (w, h₃) ∧ h₂.Spent h₃ ∧ v.Alike w ∧
    (v.strictEq w = true ↔ v.isNaN = false ∧ ¬ new)

theorem readAgain_same {h h₁ h₂ : Heap} {v : Value} {new : Prop} {second : Option (Value × Heap)}
    (hspent : h.Spent h₁) (hv : h₁.Has v) (hnew : ¬ new) (hsecond : second = some (v, h₂)) :
    ReadAgain h h₁ h₂ v new second :=
  ⟨hspent, hv, v, h₂, hsecond, .refl h₂, .inl rfl, by simp [Value.strictEq_self, hnew]⟩

section

variable {h h₁ h₂ : Heap} {v w u : Value}

theorem Value.Alike.eq_of_ne_require (hvw : v.Alike w) (hv : ∀ r, v ≠ .require r) : w = v :=
  hvw.resolve_right fun ⟨r, _, hr, _⟩ => hv r hr

theorem Value.Alike.exists_require {r : Require} (hvw : (Value.require r).Alike w) :
    ∃ s : Require, w = .require s ∧ s.dir = r.dir := by
  rcases hvw with rfl | ⟨_, s, hr, hs, hdir⟩
  · exact ⟨r, rfl, rfl⟩
  · cases hr
    exact ⟨s, hs, hdir⟩

theorem property?_again (hs : h.Sound) (hvw : v.Alike w) (hv : h.Has v) {name : String}
    (hu : h.property? v name = some (u, h₁)) (he : h₁.Extends h₂) :
    ReadAgain h h₁ h₂ u ((∃ r, v = .require r) ∧ name = "resolve") (h₂.property? w name) := by
  have hnil : h.Has .nil := Heap.has_plain rfl rfl
  have hnum (x : Float) : h.Has (.num x) := Heap.has_plain rfl rfl
  cases v with
  | nil => cases hu
  | bool b => cases hu
  | num x => cases hu
  | object r =>
    obtain rfl := hvw.eq_of_ne_require (by simp)
    cases hu
    obtain ⟨hsame, hhas⟩ := hs.field he hv name
    exact readAgain_same (.refl h) hhas (by simp) (by rw [Heap.property?, hsame])
  | list r =>
    obtain rfl := hvw.eq_of_ne_require (by simp)
    cases hu
    have hitems := (he.lists r (hv.ref (.list r) rfl)).2
    refine readAgain_same (.refl h) ?_ (by simp) (by rw [Heap.property?, hitems])
    split
    · exact hnum _
    · exact hnil
  | str s =>
    obtain rfl := hvw.eq_of_ne_require (by simp)
    cases hu
    refine readAgain_same (.refl h) ?_ (by simp) rfl
    split
    · exact hnum _
    · exact hnil
  | fn f =>
    obtain rfl := hvw.eq_of_ne_require (by simp)
    cases hu
    exact readAgain_same (.refl h) hnil (by simp) rfl
  | native f i =>
    obtain rfl := hvw.eq_of_ne_require (by simp)
    cases hu
    exact readAgain_same (.refl h) hnil (by simp) rfl
  | require r =>
    obtain ⟨s, rfl, hdir⟩ := hvw.exists_require
    by_cases hname : name = "resolve"
    · subst hname
      cases hu
      have hlater : h.identities + 1 ≤ h₂.identities := he.identities
      refine ⟨h.spent_freshIdentity, ⟨fun p hp => ?_, fun i hi => ?_⟩, _, _, rfl, h₂.spent_freshIdentity,
        .inr ⟨_, _, rfl, rfl, hdir⟩, ?_⟩
      · cases hp
      · cases hi
        exact Nat.lt_succ_self _
      · have hne : h.identities ≠ h₂.identities := by omega
        simp [Value.strictEq, hne]
    · have hother (h : Heap) (r : Require) : h.property? (.require r) name = some (.nil, h) := by
        simp [Heap.property?, hname]
      rw [hother] at hu
      cases hu
      exact readAgain_same (.refl h) hnil (by simp [hname]) (hother h₂ s)

theorem Access.Alike.refl (a : Access) : a.Alike a := by
  cases a with
  | ident scope name => exact .ident scope name
  | member object name => exact .member (.inl rfl) name
  | index object key => exact .index (.inl rfl) (.inl rfl)

/-- Accesses that are the same read the same. -/
theorem Access.value?_again {a b : Access} (hs : h.Sound) (hab : a.Alike b) (ha : a.There h)
    (hv : a.value? h = some (v, h₁)) (he : h₁.Extends h₂) :
    ReadAgain h h₁ h₂ v a.AsksForResolve (b.value? h₂) := by
  cases hab with
  | ident scope name =>
    obtain ⟨_, hlookup, heq⟩ := Option.map_eq_some_iff.1 hv
    cases heq
    obtain ⟨hagain, hhas⟩ := hs.lookup he ha hlookup
    exact readAgain_same (.refl h) hhas id (by rw [value?, hagain]; rfl)
  | member hvw name => exact property?_again hs hvw ha hv he
  | @index v w i j hvw hij =>
    cases i with
    | str key =>
      obtain rfl := hij.eq_of_ne_require (by simp)
      have hread : (Access.index v (.str key)).value? h = h.property? v key := by cases v <;> rfl
      have hagain : (Access.index w (.str key)).value? h₂ = h₂.property? w key := by cases w <;> rfl
      rw [hread] at hv
      rw [hagain]
      simpa [AsksForResolve] using property?_again hs hvw ha hv he
    | num x =>
      obtain rfl := hij.eq_of_ne_require (by simp)
      cases v with
      | list r =>
        obtain rfl := hvw.eq_of_ne_require (by simp)
        obtain ⟨n, hn, heq⟩ := Option.map_eq_some_iff.1 hv
        cases heq
        obtain ⟨hsame, hhas⟩ := hs.item he ha n
        exact readAgain_same (.refl h) hhas (by simp [AsksForResolve])
          (by rw [value?, hn, Option.map_some, hsame])
      | str s =>
        obtain rfl := hvw.eq_of_ne_require (by simp)
        obtain ⟨n, hn, heq⟩ := Option.map_eq_some_iff.1 hv
        cases heq
        refine readAgain_same (.refl h) ?_ (by simp [AsksForResolve]) (by rw [value?, hn]; rfl)
        cases s.toList[n]? <;> exact Heap.has_plain rfl rfl
      | _ => cases hv
    | _ => cases v <;> cases hv

end

/-! ## Expressions that only read -/

/-- The expression reads variables, properties and elements, and does nothing else. -/
inductive OnlyReads : Expr → Prop where
  | nil (pos : Pos) : OnlyReads (.nil pos)
  | bool (pos : Pos) (b : Bool) : OnlyReads (.bool pos b)
  | num (pos : Pos) (x : Float) : OnlyReads (.num pos x)
  | str (pos : Pos) (s : String) : OnlyReads (.str pos s)
  | ident (pos : Pos) (name : String) : OnlyReads (.ident pos name)
  | member {object : Expr} (pos : Pos) (h : OnlyReads object) (name : String) :
    OnlyReads (.member pos object name)
  | index {object key : Expr} (pos : Pos) (h : OnlyReads object) (hkey : OnlyReads key) :
    OnlyReads (.index pos object key)

section

variable {σ α : Type} {host : Host σ} {scope : ScopeRef}

/-- What the second computation gives on a heap on which nothing has been written since the first one is
like what that one gave. Both do no more than to give out identities. -/
def Again (there : Heap → α → Prop) (alike : α → α → Prop) (scope : ScopeRef) (x y : Run σ α) : Prop :=
  ∀ (m : Machine σ) (a : α), m.heap.Sound → scope.index < m.heap.scopes.size → x.outcome m = .ok a →
    m.heap.Spent (x.after m).heap ∧ there (x.after m).heap a ∧
      ∀ m' : Machine σ, (x.after m).heap.Extends m'.heap →
        ∃ b, y.outcome m' = .ok b ∧ m'.heap.Spent (y.after m').heap ∧ alike a b

theorem again_pure {there : Heap → α → Prop} {alike : α → α → Prop} {a : α}
    (hthere : ∀ h : Heap, scope.index < h.scopes.size → there h a) (halike : alike a a) :
    Again there alike scope (pure a : Run σ α) (pure a) := by
  intro m a' _ hscope ha
  cases ha
  exact ⟨.refl _, hthere _ hscope, fun m' _ => ⟨a, rfl, .refl _, halike⟩⟩

/-- A value that refers to nothing. -/
theorem again_plain (v : Value) (href : v.ref? = none) (hidentity : v.identity? = none) :
    Again Heap.Has Value.Alike scope (pure v : Run σ Value) (pure v) :=
  again_pure (fun _ _ => Heap.has_plain href hidentity) (.inl rfl)

theorem exists_of_bind {β : Type} {x : Run σ α} {f : α → Run σ β} {m : Machine σ} {b : β}
    (h : (x >>= f).outcome m = .ok b) :
    ∃ a, x.outcome m = .ok a ∧ (f a).outcome (x.after m) = .ok b ∧
      (x >>= f).after m = (f a).after (x.after m) := by
  cases hx : x.outcome m with
  | error e =>
    rw [Run.outcome_bind_error hx] at h
    cases h
  | ok a =>
    rw [Run.outcome_bind_ok hx] at h
    exact ⟨a, rfl, h, Run.after_bind_ok hx⟩

/-- To read once the parts have values is to read again if the parts are like the first ones. -/
theorem Again.read {x y : Run σ Access} (hxy : Again (fun h a => a.There h) Access.Alike scope x y)
    {m : Machine σ} {v : Value} {pos : Pos} (pos' : Pos) (hs : m.heap.Sound)
    (hscope : scope.index < m.heap.scopes.size)
    (hv : (x >>= Access.read host pos).outcome m = .ok v) :
    m.heap.Spent ((x >>= Access.read host pos).after m).heap ∧
      ((x >>= Access.read host pos).after m).heap.Has v ∧
      ∃ a, x.outcome m = .ok a ∧
        ∀ m' : Machine σ, ((x >>= Access.read host pos).after m).heap.Extends m'.heap →
          ∃ w, (y >>= Access.read host pos').outcome m' = .ok w ∧
            m'.heap.Spent ((y >>= Access.read host pos').after m').heap ∧ v.Alike w ∧
            (v.strictEq w = true ↔ v.isNaN = false ∧ ¬ a.AsksForResolve) := by
  obtain ⟨a, ha, hread, hafter⟩ := exists_of_bind hv
  obtain ⟨hspent, hthere, hsecond⟩ := hxy m a hs hscope ha
  have hvalue := value?_of_outcome host hread
  have hsound := hspent.sound hs
  obtain ⟨hmore, hhas, -⟩ := Access.value?_again hsound (.refl a) hthere hvalue (.refl _)
  rw [hafter]
  refine ⟨hspent.trans hmore, hhas, a, ha, fun m' hm' => ?_⟩
  obtain ⟨b, hb, hspent', hab⟩ := hsecond m' (hmore.extends.trans hm')
  obtain ⟨-, -, w, h₃, hw, hlast, hvw, hequal⟩ :=
    Access.value?_again hsound hab hthere hvalue (hm'.trans hspent'.extends)
  have hrun := run_read_of_value? host hw pos'
  refine ⟨w, ?_, ?_, hvw, hequal⟩
  · rw [Run.outcome_bind_ok hb, Run.outcome, hrun]
  · rw [Run.after_bind_ok hb, Run.after, hrun]
    exact hspent'.trans hlast

variable {budget used budget' used' : Nat}

/-- The parts of an access are evaluated again if each of them is. -/
theorem again_accessOf {ev ev' : Evaluator σ} {e : Expr} {x : Run σ Access} (he : OnlyReads e)
    (hparts : ∀ {part}, OnlyReads part →
      Again Heap.Has Value.Alike scope (ev.eval part scope) (ev'.eval part scope))
    (hx : accessOf ev scope e = some x) :
    ∃ y, accessOf ev' scope e = some y ∧ Again (fun h a => a.There h) Access.Alike scope x y := by
  cases he with
  | nil | bool | num | str => cases hx
  | ident pos name =>
    cases hx
    exact ⟨_, rfl, again_pure (fun _ hscope => hscope) (.refl _)⟩
  | member pos h name =>
    cases hx
    refine ⟨_, rfl, ?_⟩
    intro m a hs hscope ha
    obtain ⟨v, hv, hmade, hafter⟩ := exists_of_bind ha
    obtain ⟨hspent, hhas, hsecond⟩ := hparts h m v hs hscope hv
    cases hmade
    rw [hafter]
    refine ⟨hspent, hhas, fun m' hm' => ?_⟩
    obtain ⟨w, hw, hspent', hvw⟩ := hsecond m' hm'
    refine ⟨.member w name, ?_, ?_, .member hvw name⟩
    · rw [Run.outcome_bind_ok hw]
      rfl
    · rw [Run.after_bind_ok hw]
      exact hspent'
  | @index object key pos h hkey =>
    cases hx
    refine ⟨_, rfl, ?_⟩
    intro m a hs hscope ha
    obtain ⟨v, hv, hrest, hafter⟩ := exists_of_bind ha
    obtain ⟨hspent, hhas, hsecond⟩ := hparts h m v hs hscope hv
    obtain ⟨i, hi, hmade, hafter'⟩ := exists_of_bind hrest
    have hscope' : scope.index < ((ev.eval object scope).after m).heap.scopes.size := by
      rwa [hspent.scopes]
    obtain ⟨hspentKey, -, hsecondKey⟩ := hparts hkey _ i (hspent.sound hs) hscope' hi
    cases hmade
    rw [hafter, hafter']
    refine ⟨hspent.trans hspentKey, hhas.mono hspentKey.extends, fun m' hm' => ?_⟩
    obtain ⟨w, hw, hspent', hvw⟩ := hsecond m' (hspentKey.extends.trans hm')
    obtain ⟨j, hj, hspentKey', hij⟩ := hsecondKey _ (hm'.trans hspent'.extends)
    refine ⟨.index w j, ?_, ?_, .index hvw hij⟩
    · rw [Run.outcome_bind_ok hw, Run.outcome_bind_ok hj]
      rfl
    · rw [Run.after_bind_ok hw, Run.after_bind_ok hj]
      exact hspent'.trans hspentKey'

/-- An access in a program reads again if its parts are evaluated again. -/
theorem again_eval {e : Expr} {x : Run σ Access} {m : Machine σ} {v : Value} (he : OnlyReads e)
    (hparts : ∀ {part}, OnlyReads part →
      Again Heap.Has Value.Alike scope ((Evaluator.withBudget host budget (used + 1)).eval part scope)
        ((Evaluator.withBudget host budget' (used' + 1)).eval part scope))
    (hx : accessOf (.withBudget host budget (used + 1)) scope e = some x) (hs : m.heap.Sound)
    (hscope : scope.index < m.heap.scopes.size)
    (hv : ((Evaluator.withBudget host (budget + 1) used).eval e scope).outcome m = .ok v) :
    m.heap.Spent (((Evaluator.withBudget host (budget + 1) used).eval e scope).after m).heap ∧
      (((Evaluator.withBudget host (budget + 1) used).eval e scope).after m).heap.Has v ∧
      ∃ a, x.outcome m = .ok a ∧ ∀ m' : Machine σ,
        (((Evaluator.withBudget host (budget + 1) used).eval e scope).after m).heap.Extends m'.heap →
          ∃ w, ((Evaluator.withBudget host (budget' + 1) used').eval e scope).outcome m' = .ok w ∧
            m'.heap.Spent
              (((Evaluator.withBudget host (budget' + 1) used').eval e scope).after m').heap ∧
            v.Alike w ∧ (v.strictEq w = true ↔ v.isNaN = false ∧ ¬ a.AsksForResolve) := by
  obtain ⟨y, hy, hxy⟩ := again_accessOf he hparts hx
  have hfirst : (Evaluator.withBudget host (budget + 1) used).eval e scope =
      x >>= Access.read host e.pos := evalExpr_access host _ hx
  have hsecond : (Evaluator.withBudget host (budget' + 1) used').eval e scope =
      y >>= Access.read host e.pos := evalExpr_access host _ hy
  rw [hfirst] at hv ⊢
  rw [hsecond]
  exact hxy.read e.pos hs hscope hv

/-- An expression that only reads is evaluated again, at the same depth or where there is more left. -/
theorem reads_again {e : Expr} (he : OnlyReads e) (hbudget : budget ≤ budget') :
    Again Heap.Has Value.Alike scope ((Evaluator.withBudget host budget used).eval e scope)
      ((Evaluator.withBudget host budget' used').eval e scope) := by
  induction budget generalizing used budget' used' e with
  | zero =>
    intro m v _ _ hv
    cases hv
  | succ budget ih =>
    obtain ⟨budget', rfl⟩ : ∃ n, budget' = n + 1 := ⟨budget' - 1, by omega⟩
    have hparts {part : Expr} (h : OnlyReads part) :
        Again Heap.Has Value.Alike scope ((Evaluator.withBudget host budget (used + 1)).eval part scope)
          ((Evaluator.withBudget host budget' (used' + 1)).eval part scope) := ih h (by omega)
    cases haccess : accessOf (Evaluator.withBudget host budget (used + 1)) scope e with
    | none =>
      cases he with
      | nil pos => exact again_plain .nil rfl rfl
      | bool pos b => exact again_plain (.bool b) rfl rfl
      | num pos x => exact again_plain (.num x) rfl rfl
      | str pos s => exact again_plain (.str s) rfl rfl
      | ident | member | index => cases haccess
    | some x =>
      intro m v hs hscope hv
      obtain ⟨hspent, hhas, a, -, hsecond⟩ := again_eval he hparts haccess hs hscope hv
      refine ⟨hspent, hhas, fun m' hm' => ?_⟩
      obtain ⟨w, hw, hspent', hvw, -⟩ := hsecond m' hm'
      exact ⟨w, hw, hspent', hvw⟩

end

/-! ## The values that are read -/

/-- An access that is read twice, with nothing written in between, gives two equal values, unless the value
is NaN or the access asks a loading function for `resolve`: for an access whose parts have any values, and
for an access in a program whose parts only read, the second time at the same depth or at a lesser one. -/
theorem accesses_read_the_same {σ : Type} (host : Host σ) :
    (∀ (a : Access) (pos pos' : Pos) (m m' : Machine σ) (v : Value), m.heap.Sound → a.There m.heap →
      (a.read host pos).outcome m = .ok v → ((a.read host pos).after m).heap.Extends m'.heap →
        ∃ w, (a.read host pos').outcome m' = .ok w ∧
          (v.strictEq w = true ↔ v.isNaN = false ∧ ¬ a.AsksForResolve)) ∧
      ∀ (e : Expr) (scope : ScopeRef) (budget budget' used used' : Nat) (x : Run σ Access)
        (m m' : Machine σ) (v : Value),
        OnlyReads e → accessOf (.withBudget host budget (used + 1)) scope e = some x → budget ≤ budget' →
        m.heap.Sound → scope.index < m.heap.scopes.size →
        ((Evaluator.withBudget host (budget + 1) used).eval e scope).outcome m = .ok v →
        (((Evaluator.withBudget host (budget + 1) used).eval e scope).after m).heap.Extends m'.heap →
          ∃ a w, x.outcome m = .ok a ∧
            ((Evaluator.withBudget host (budget' + 1) used').eval e scope).outcome m' = .ok w ∧
            (v.strictEq w = true ↔ v.isNaN = false ∧ ¬ a.AsksForResolve) := by
  constructor
  · intro a pos pos' m m' v hs hthere hv hm'
    obtain ⟨-, -, w, h₃, hw, -, -, hequal⟩ :=
      Access.value?_again hs (.refl a) hthere (value?_of_outcome host hv) hm'
    exact ⟨w, congrArg Prod.fst (run_read_of_value? host hw pos'), hequal⟩
  · intro e scope budget budget' used used' x m m' v he hx hbudget hs hscope hv hm'
    obtain ⟨-, -, a, ha, hsecond⟩ := again_eval he (fun h => reads_again h hbudget) hx hs hscope hv
    obtain ⟨w, hw, -, -, hequal⟩ := hsecond m' hm'
    exact ⟨a, w, ha, hw, hequal⟩

/-- A host that finds no modules. -/
def lonelyHost : Host Unit where
  require _ specifier dir := throw (.resolution specifier dir)
  find specifier dir := throw (.resolution specifier dir)
  sourcePosition _ _ pos := pos

/-- A machine whose one scope has a loading function for a variable and declares a function. -/
def loadingMachine : Machine Unit where
  heap := ⟨#[], #[], #[⟨[("require", .require ⟨⟨"/app"⟩, false, ⟨0⟩⟩)],
    [("twice", ⟨⟨1, 1⟩, some "twice", ["x"], []⟩, ⟨"/app/entry.rl"⟩)], none⟩], 1⟩
  world := ⟨.empty, .empty false, []⟩
  running := ⟨0, []⟩
  nesting := .none
  host := ()

theorem sound_loadingMachine : loadingMachine.heap.Sound where
  contents p hp v hv := by
    cases p with
    | list r => exact absurd hp (Nat.not_lt_zero _)
    | object r => exact absurd hp (Nat.not_lt_zero _)
    | scope r =>
      obtain rfl : r = ⟨0⟩ := congrArg ScopeRef.mk (Nat.lt_one_iff.1 hp)
      obtain rfl := List.mem_singleton.1 hv
      refine ⟨fun p hp => ?_, fun i hi => ?_⟩
      · cases hp
      · cases hi
        exact Nat.one_pos
  older r p hr hp := by
    obtain rfl : r = ⟨0⟩ := congrArg ScopeRef.mk (Nat.lt_one_iff.1 hr)
    cases hp

/-- Every look-up of a declared function makes a function value of its own, and they are equal. -/
theorem accesses_read_the_same_declared :
    let twice : Expr := .ident ⟨2, 1⟩ "twice"
    let ev : Evaluator Unit := .withBudget lonelyHost 1 0
    ∃ v w, loadingMachine.heap.Sound ∧ OnlyReads twice ∧ (ev.eval twice ⟨0⟩).outcome loadingMachine = .ok v ∧
      (ev.eval twice ⟨0⟩).outcome ((ev.eval twice ⟨0⟩).after loadingMachine) = .ok w ∧
      v.strictEq w = true := by
  intro twice ev
  obtain ⟨a, w, ha, hw, hequal⟩ := (accesses_read_the_same lonelyHost).2 twice ⟨0⟩ 0 0 0 0 _ loadingMachine
    ((ev.eval twice ⟨0⟩).after loadingMachine) _ (.ident _ _) rfl le_rfl sound_loadingMachine Nat.one_pos
    rfl (.refl _)
  cases ha
  exact ⟨_, w, sound_loadingMachine, .ident _ _, rfl, hw, hequal.2 ⟨rfl, id⟩⟩

/-- Two functions that only find modules, made of one loading function, are not equal. -/
theorem resolve_is_made_anew :
    let resolve : Expr := .member ⟨1, 1⟩ (.ident ⟨1, 1⟩ "require") "resolve"
    let ev : Evaluator Unit := .withBudget lonelyHost 3 0
    (∃ v w, (ev.eval resolve ⟨0⟩).outcome loadingMachine = .ok v ∧
      (ev.eval resolve ⟨0⟩).outcome ((ev.eval resolve ⟨0⟩).after loadingMachine) = .ok w ∧
      v.isNaN = false ∧ v.strictEq w = false) ∧
      (ev.eval (.binary ⟨1, 1⟩ .eq resolve resolve) ⟨0⟩).outcome loadingMachine = .ok (.bool false) := by
  intro resolve ev
  exact ⟨⟨_, _, rfl, rfl, rfl, rfl⟩, rfl⟩

end Hotload
