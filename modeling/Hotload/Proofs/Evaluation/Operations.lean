import Mathlib
import Hotload.Proofs.Evaluation.Likeness

/-!
# Operations on alike heaps

What programs do to values without running other code: texts, properties, operators and native
functions. On heaps that are alike, paired values give paired results.

* `Likeness.display_eq`: paired values have one text.
* `Likeness.property`, `Likeness.applyBinary`, `Likeness.native`: the results of the operations.
-/

namespace Hotload

open Syntax (BinaryOp)

namespace Likeness

variable {σ₁ σ₂ : Type} {L : Likeness σ₁ σ₂} {i : L.Stage} {h₁ h₂ : Heap} {e₁ : World × σ₁}
  {e₂ : World × σ₂} {v w : Value} {vs ws : List Value}

/-! ## Texts -/

theorem debugTo_eq (ha : L.alike i h₁ h₂ e₁ e₂) (levels : Nat) (h : L.Values i v w) :
    h₁.debugTo levels v = h₂.debugTo levels w := by
  induction levels generalizing v w with
  | zero =>
    cases h with
    | list h | object h => rfl
    | nil | bool | num | str | fn | native | require => simp [Heap.debugTo, Heap.plainText]
  | succ levels ih =>
    cases h with
    | @list r s h =>
      have hitems : (h₁.items r).toList.map (h₁.debugTo levels) =
          (h₂.items s).toList.map (h₂.debugTo levels) := by
        have hpaired := L.items ha h
        generalize (h₁.items r).toList = xs at hpaired ⊢
        generalize (h₂.items s).toList = ys at hpaired ⊢
        induction hpaired with
        | nil => rfl
        | cons hv _ ihs => simp [ih hv, ihs]
      simp only [Heap.debugTo, hitems]
    | object h =>
      have hfields := L.fields ha h
      simp only [Heap.debugTo]
      generalize h₁.fields _ = fs at hfields ⊢
      generalize h₂.fields _ = gs at hfields ⊢
      cases hfields with
      | nil => rfl
      | @cons p q fs gs hp hrest =>
        have htexts : ∀ {fs gs : Fields}, Fields.Paired (L.pairing i) fs gs →
            fs.map (fun p => " " ++ p.1 ++ ": " ++ h₁.debugTo levels p.2) =
              gs.map (fun p => " " ++ p.1 ++ ": " ++ h₂.debugTo levels p.2) := by
          intro fs gs h
          induction h with
          | nil => rfl
          | cons hp _ ihs => simp [hp.1, ih hp.2, ihs]
        simp only [htexts (.cons hp hrest)]
    | nil | bool | num | str | fn | native | require => simp [Heap.debugTo, Heap.plainText]

theorem display_eq (ha : L.alike i h₁ h₂ e₁ e₂) (h : L.Values i v w) :
    h₁.display v = h₂.display w := by
  cases h with
  | str s => rfl
  | nil | bool | num | list | object | fn | native | require =>
    exact debugTo_eq ha 4 (by constructor <;> assumption)

theorem displays_eq (ha : L.alike i h₁ h₂ e₁ e₂) (h : Value.ListPaired (L.pairing i) vs ws) :
    vs.map h₁.display = ws.map h₂.display := by
  induction h with
  | nil => rfl
  | cons hv _ ih => simp [display_eq ha hv, ih]

/-! ## Properties and operators -/

theorem field (ha : L.alike i h₁ h₂ e₁ e₂) {r s : ObjectRef} (h : (L.pairing i).object r s)
    (key : String) : Option.Rel (L.Values i) (h₁.field? r key) (h₂.field? s key) :=
  (L.fields ha h).lookup key

theorem field_getD (ha : L.alike i h₁ h₂ e₁ e₂) {r s : ObjectRef} (h : (L.pairing i).object r s)
    (key : String) (hd : L.Values i v w) :
    L.Values i ((h₁.field? r key).getD v) ((h₂.field? s key).getD w) := by
  have hfield := field ha h key
  generalize h₁.field? r key = a at hfield ⊢
  generalize h₂.field? s key = b at hfield ⊢
  cases hfield with
  | none => exact hd
  | some hv => exact hv

/-- Paired values and alike heaps at a later stage. -/
def Leaves (L : Likeness σ₁ σ₂) (i : L.Stage) (e₁ : World × σ₁) (e₂ : World × σ₂)
    (a : Value × Heap) (b : Value × Heap) : Prop :=
  ∃ j, i ≤ j ∧ L.Values j a.1 b.1 ∧ L.alike j a.2 b.2 e₁ e₂

theorem size_items (ha : L.alike i h₁ h₂ e₁ e₂) {r s : ListRef} (h : (L.pairing i).list r s) :
    (h₁.items r).size = (h₂.items s).size :=
  (L.items ha h).length_eq

theorem property (ha : L.alike i h₁ h₂ e₁ e₂) (h : L.Values i v w) (name : String) :
    Option.Rel (L.Leaves i e₁ e₂) (h₁.property? v name) (h₂.property? w name) := by
  have hsame : ∀ {v w : Value}, L.Values i v w →
      Option.Rel (L.Leaves i e₁ e₂) (some (v, h₁)) (some (w, h₂)) :=
    fun h => .some ⟨i, le_rfl, h, ha⟩
  cases h with
  | nil | bool | num => exact .none
  | fn | native => exact hsame .nil
  | object h => exact hsame (field_getD ha h name .nil)
  | list h =>
    simp only [Heap.property?, size_items ha h]
    exact hsame (by split <;> constructor)
  | str s =>
    simp only [Heap.property?]
    exact hsame (by split <;> constructor)
  | require dir resolveOnly h =>
    simp only [Heap.property?]
    split
    · obtain ⟨j, hij, hidentity, halike⟩ := L.freshIdentity ha
      exact .some ⟨j, hij, .require dir true hidentity, halike⟩
    · exact hsame .nil

theorem applyBinary (ha : L.alike i h₁ h₂ e₁ e₂) (op : BinaryOp) {v' w' : Value}
    (h : L.Values i v w) (h' : L.Values i v' w') :
    Option.Rel (L.Values i) (Hotload.applyBinary h₁ op v v') (Hotload.applyBinary h₂ op w w') := by
  cases op with
  | eq =>
    simp only [Hotload.applyBinary, L.strictEq ha h h']
    exact .some (.bool _)
  | notEq =>
    simp only [Hotload.applyBinary, L.strictEq ha h h']
    exact .some (.bool _)
  | add =>
    have htext := display_eq ha h
    have htext' := display_eq ha h'
    cases h with
    | str s =>
      simp only [Hotload.applyBinary, htext']
      exact .some (.str _)
    | num x =>
      cases h' with
      | num y => exact .some (.num _)
      | str s =>
        simp only [Hotload.applyBinary, htext]
        exact .some (.str _)
      | nil | bool | list | object | fn | native | require => exact .none
    | nil | bool | list | object | fn | native | require =>
      cases h' with
      | str s =>
        simp only [Hotload.applyBinary, htext]
        exact .some (.str _)
      | nil | num | bool | list | object | fn | native | require => exact .none
  | sub | mul | div | rem | lt | ltEq | gt | gtEq | and | or =>
    cases h with
    | num x =>
      cases h' with
      | num y => first | exact .none | exact .some (.num _) | exact .some (.bool _)
      | nil | bool | str | list | object | fn | native | require => exact .none
    | str s =>
      cases h' with
      | str t => first | exact .none | exact .some (.bool _)
      | nil | bool | num | list | object | fn | native | require => exact .none
    | nil | bool | list | object | fn | native | require => exact .none

/-! ## Native functions -/

theorem getElem?_paired (h : Value.ListPaired (L.pairing i) vs ws) (n : Nat) :
    Option.Rel (L.Values i) vs[n]? ws[n]? := by
  induction h generalizing n with
  | nil => exact .none
  | cons hv _ ih =>
    cases n with
    | zero => exact .some hv
    | succ n => exact ih n

theorem stringArg_eq (h : Value.ListPaired (L.pairing i) vs ws) (n : Nat) :
    Native.stringArg vs n = Native.stringArg ws n := by
  have hn := getElem?_paired h n
  simp only [Native.stringArg]
  generalize vs[n]? = a at hn ⊢
  generalize ws[n]? = b at hn ⊢
  cases hn with
  | none => rfl
  | some hv => cases hv <;> rfl

theorem numArg_eq (h : Value.ListPaired (L.pairing i) vs ws) (n : Nat) :
    Native.numArg vs n = Native.numArg ws n := by
  have hn := getElem?_paired h n
  simp only [Native.numArg]
  generalize vs[n]? = a at hn ⊢
  generalize ws[n]? = b at hn ⊢
  cases hn with
  | none => rfl
  | some hv => cases hv <;> rfl

theorem numArgs_eq (h : Value.ListPaired (L.pairing i) vs ws) :
    Native.numArgs vs = Native.numArgs ws := by
  simp only [Native.numArgs, h.length_eq, funext (numArg_eq h)]

theorem stringArgs_eq (h : Value.ListPaired (L.pairing i) vs ws) :
    Native.stringArgs vs = Native.stringArgs ws := by
  simp only [Native.stringArgs, h.length_eq, funext (stringArg_eq h)]

/-- The results of a native function: one error on both sides, or paired values. -/
inductive NativeAlike (L : Likeness σ₁ σ₂) (i : L.Stage) (e₁ : World × σ₁) (e₂ : World × σ₂) :
    Except ArgumentError (Value × Heap) → Except ArgumentError (Value × Heap) → Prop where
  | ok {a b : Value × Heap} (h : L.Leaves i e₁ e₂ a b) : NativeAlike L i e₁ e₂ (.ok a) (.ok b)
  | error (e : ArgumentError) : NativeAlike L i e₁ e₂ (.error e) (.error e)

/-- A result that comes from arguments that are the same on both sides. -/
theorem NativeAlike.bind {α : Type} (x : Except ArgumentError α)
    {f g : α → Except ArgumentError (Value × Heap)}
    (h : ∀ a, L.NativeAlike i e₁ e₂ (f a) (g a)) : L.NativeAlike i e₁ e₂ (x >>= f) (x >>= g) := by
  cases x with
  | ok a => exact h a
  | error e => exact .error e

theorem NativeAlike.same (ha : L.alike i h₁ h₂ e₁ e₂) (h : L.Values i v w) :
    L.NativeAlike i e₁ e₂ (.ok (v, h₁)) (.ok (w, h₂)) :=
  .ok ⟨i, le_rfl, h, ha⟩

theorem listPaired_refl_map {α : Type} (f : α → String) (xs : List α) :
    Value.ListPaired (L.pairing i) (xs.map fun x => .str (f x)) (xs.map fun x => .str (f x)) := by
  induction xs with
  | nil => exact .nil
  | cons x xs ih => exact .cons (.str _) ih

theorem listArg_alike (ha : L.alike i h₁ h₂ e₁ e₂) (h : Value.ListPaired (L.pairing i) vs ws) :
    (∃ e, Native.listArg h₁ vs = .error e ∧ Native.listArg h₂ ws = .error e) ∨
      ∃ xs ys, Native.listArg h₁ vs = .ok xs ∧ Native.listArg h₂ ws = .ok ys ∧
        Value.ListPaired (L.pairing i) xs ys := by
  cases h with
  | nil => exact .inl ⟨_, rfl, rfl⟩
  | cons hv _ =>
    cases hv with
    | list hr => exact .inr ⟨_, _, rfl, rfl, L.items ha hr⟩
    | nil | bool | num | str | object | fn | native | require => exact .inl ⟨_, rfl, rfl⟩

theorem native_join (ha : L.alike i h₁ h₂ e₁ e₂) (h : Value.ListPaired (L.pairing i) vs ws) :
    L.NativeAlike i e₁ e₂ (Native.join.apply vs h₁) (Native.join.apply ws h₂) := by
  rcases listArg_alike ha h with ⟨e, hx, hy⟩ | ⟨xs, ys, hx, hy, hitems⟩
  · simp only [Native.apply, hx, hy]
    exact .error e
  · have htext : ∀ sep, L.Values i (Native.joinText h₁ xs sep) (Native.joinText h₂ ys sep) := by
      intro sep
      have := congrArg (List.map String.toList) (displays_eq ha hitems)
      simp only [List.map_map, Function.comp_def] at this
      simp only [Native.joinText, this]
      exact .str _
    have hsep := getElem?_paired h 1
    simp only [Native.apply, hx, hy, stringArg_eq h]
    generalize vs[1]? = a at hsep ⊢
    generalize ws[1]? = b at hsep ⊢
    cases hsep with
    | none => exact .same ha (htext _)
    | some hv =>
      cases hv with
      | nil => exact .same ha (htext _)
      | bool | num | str | list | object | fn | native | require =>
        exact NativeAlike.bind (Native.stringArg ws 1) fun sep => .same ha (htext sep)

theorem native_importDefault (ha : L.alike i h₁ h₂ e₁ e₂)
    (h : Value.ListPaired (L.pairing i) vs ws) :
    L.NativeAlike i e₁ e₂ (Native.importDefault.apply vs h₁) (Native.importDefault.apply ws h₂) := by
  cases h with
  | nil => exact .same ha .nil
  | cons hv _ =>
    cases hv with
    | object hr => exact .same ha (field_getD ha hr "default" (.object hr))
    | nil => exact .same ha .nil
    | bool b => exact .same ha (.bool b)
    | num x => exact .same ha (.num x)
    | str s => exact .same ha (.str s)
    | list hr => exact .same ha (.list hr)
    | fn hs hp => exact .same ha (.fn hs hp)
    | native f hi => exact .same ha (.native f hi)
    | require dir only hi => exact .same ha (.require dir only hi)

theorem native_split (ha : L.alike i h₁ h₂ e₁ e₂) (h : Value.ListPaired (L.pairing i) vs ws) :
    L.NativeAlike i e₁ e₂ (Native.split.apply vs h₁) (Native.split.apply ws h₂) := by
  simp only [Native.apply, stringArg_eq h]
  refine .bind _ fun text => .bind _ fun sep => ?_
  obtain ⟨j, hij, hlist, halike⟩ :=
    L.newList ha (listPaired_refl_map String.ofList (Text.splitOn sep.toList text.toList))
  exact .ok ⟨j, hij, .list hlist, halike⟩

theorem native (ha : L.alike i h₁ h₂ e₁ e₂) (f : Native)
    (h : Value.ListPaired (L.pairing i) vs ws) :
    L.NativeAlike i e₁ e₂ (f.apply vs h₁) (f.apply ws h₂) := by
  cases f with
  | join => exact native_join ha h
  | importDefault => exact native_importDefault ha h
  | split => exact native_split ha h
  | concat =>
    simp only [Native.apply, displays_eq ha h]
    exact .same ha (.str _)
  | repeat_ =>
    simp only [Native.apply, stringArg_eq h, numArg_eq h]
    refine .bind _ fun text => .bind _ fun count => ?_
    split
    · split
      · exact .bind _ fun text => .same ha (.str _)
      · exact .error _
    · exact .error _
  | includes =>
    simp only [Native.apply, stringArg_eq h]
    exact .bind _ fun text => .bind _ fun part => .same ha (.bool _)
  | pow =>
    simp only [Native.apply, numArg_eq h]
    exact .bind _ fun base => .bind _ fun exponent => .same ha (.num _)
  | min | max =>
    simp only [Native.apply, numArgs_eq h]
    exact .bind _ fun xs => .same ha (.num _)
  | pathJoin =>
    simp only [Native.apply, stringArgs_eq h]
    exact .bind _ fun xs => .same ha (.str _)
  | extname =>
    simp only [Native.apply, stringArg_eq h]
    refine .bind _ fun text => ?_
    split <;> exact .same ha (.str _)
  | upper | lower | trim | basename | dirname =>
    simp only [Native.apply, stringArg_eq h]
    exact .bind _ fun text => .same ha (.str _)
  | floor | ceil | round | abs | sqrt =>
    simp only [Native.apply, numArg_eq h]
    exact .bind _ fun x => .same ha (.num _)

end Likeness

end Hotload
