import Mathlib
import Hotload.Proofs.Syntax.Derivation

/-!
# The height of a program's tree

How deep the trees of programs are. The limit of nesting bounds blocks and operands; a chain of
operators, or of calls and accesses behind an expression, is read in a loop and may have any number
of links, each of which puts the tree so far one node deeper. So the height has a bound if a chain
counts as one step, and without it there is none.

* `Expr.height`, `Stmt.height`, `Item.height`: the height when a link of a chain counts so much.
* `Expr.longest`, `Stmt.longest`, `Item.longest`: the most links of a chain.
* `height_le`: the bound for all programs.
* `height_unbounded`: chains make trees of every height.
-/

namespace Hotload.Syntax

/-! ## Heights -/

mutual

/-- The height of an expression when a link of a chain counts so much: a step to the left operand
of an operator, to what is called, or to what is accessed. -/
def Expr.height (link : Nat) : Expr → Nat
  | .nil _ | .bool _ _ | .num _ _ | .str _ _ | .ident _ _ => 1
  | .list _ items => Expr.heightList link items + 1
  | .object _ fields => Expr.heightFields link fields + 1
  | .fn _ function => function.height link + 1
  | .call _ callee args => max (callee.height link + link) (Expr.heightList link args + 1)
  | .member _ object _ => object.height link + link
  | .index _ object index => max (object.height link + link) (index.height link + 1)
  | .unary _ _ operand => operand.height link + 1
  | .binary _ _ lhs rhs => max (lhs.height link + link) (rhs.height link + 1)

/-- The greatest height of expressions. -/
def Expr.heightList (link : Nat) : List Expr → Nat
  | [] => 0
  | e :: es => max (e.height link) (Expr.heightList link es)

/-- The greatest height of the values of fields. -/
def Expr.heightFields (link : Nat) : List (String × Expr) → Nat
  | [] => 0
  | (_, value) :: fields => max (value.height link) (Expr.heightFields link fields)

/-- The height of a function's body. -/
def Function.height (link : Nat) : Function → Nat
  | .mk _ _ _ body => Stmt.heightList link body

/-- The height of a statement. -/
def Stmt.height (link : Nat) : Stmt → Nat
  | .declare _ _ value => value.height link + 1
  | .fn _ function => function.height link + 1
  | .return_ _ none => 1
  | .return_ _ (some value) => value.height link + 1
  | .throw_ _ value => value.height link + 1
  | .if_ _ cond thenBody none => max (cond.height link) (Stmt.heightList link thenBody) + 1
  | .if_ _ cond thenBody (some elseBody) =>
    max (cond.height link) (max (Stmt.heightList link thenBody) (Stmt.heightList link elseBody)) + 1
  | .assign _ target value => max (target.height link) (value.height link) + 1
  | .expr _ value => value.height link + 1

/-- The greatest height of statements. -/
def Stmt.heightList (link : Nat) : List Stmt → Nat
  | [] => 0
  | s :: ss => max (s.height link) (Stmt.heightList link ss)

end

/-- The height of what an export declaration exports. -/
def ExportForm.height (link : Nat) : ExportForm → Nat
  | .default_ value => value.height link + 1
  | .fn function _ => function.height link + 1
  | .declare _ value => value.height link + 1
  | .names _ => 1

/-- The height of an element of a program. -/
def Item.height (link : Nat) : Item → Nat
  | .stmt s => s.height link
  | .import_ .. => 1
  | .export_ _ form => form.height link

/-- The links of the chain that ends with the expression. -/
def Expr.links : Expr → Nat
  | .call _ callee _ => callee.links + 1
  | .member _ inner _ => inner.links + 1
  | .index _ inner _ => inner.links + 1
  | .binary _ _ lhs _ => lhs.links + 1
  | _ => 0

mutual

/-- The most links of a chain in an expression. -/
def Expr.longest : Expr → Nat
  | .nil _ | .bool _ _ | .num _ _ | .str _ _ | .ident _ _ => 0
  | .list _ items => Expr.longestList items
  | .object _ fields => Expr.longestFields fields
  | .fn _ function => function.longest
  | .call _ callee args => max (callee.links + 1) (max callee.longest (Expr.longestList args))
  | .member _ object _ => max (object.links + 1) object.longest
  | .index _ object index => max (object.links + 1) (max object.longest index.longest)
  | .unary _ _ operand => operand.longest
  | .binary _ _ lhs rhs => max (lhs.links + 1) (max lhs.longest rhs.longest)

/-- The most links of a chain in expressions. -/
def Expr.longestList : List Expr → Nat
  | [] => 0
  | e :: es => max e.longest (Expr.longestList es)

/-- The most links of a chain in the values of fields. -/
def Expr.longestFields : List (String × Expr) → Nat
  | [] => 0
  | (_, value) :: fields => max value.longest (Expr.longestFields fields)

/-- The most links of a chain in a function. -/
def Function.longest : Function → Nat
  | .mk _ _ _ body => Stmt.longestList body

/-- The most links of a chain in a statement. -/
def Stmt.longest : Stmt → Nat
  | .declare _ _ value => value.longest
  | .fn _ function => function.longest
  | .return_ _ none => 0
  | .return_ _ (some value) => value.longest
  | .throw_ _ value => value.longest
  | .if_ _ cond thenBody none => max cond.longest (Stmt.longestList thenBody)
  | .if_ _ cond thenBody (some elseBody) =>
    max cond.longest (max (Stmt.longestList thenBody) (Stmt.longestList elseBody))
  | .assign _ target value => max target.longest value.longest
  | .expr _ value => value.longest

/-- The most links of a chain in statements. -/
def Stmt.longestList : List Stmt → Nat
  | [] => 0
  | s :: ss => max s.longest (Stmt.longestList ss)

end

/-- The most links of a chain in what an export declaration exports. -/
def ExportForm.longest : ExportForm → Nat
  | .default_ value => value.longest
  | .fn function _ => function.longest
  | .declare _ value => value.longest
  | .names _ => 0

/-- The most links of a chain in an element of a program. -/
def Item.longest : Item → Nat
  | .stmt s => s.longest
  | .import_ .. => 0
  | .export_ _ form => form.longest

theorem Expr.heightList_le {link n : Nat} {es : List Expr} (h : ∀ e ∈ es, e.height link ≤ n) :
    Expr.heightList link es ≤ n := by
  induction es with
  | nil => exact Nat.zero_le n
  | cons e es ih =>
    obtain ⟨he, hes⟩ := List.forall_mem_cons.mp h
    exact Nat.max_le.mpr ⟨he, ih hes⟩

theorem Expr.heightFields_le {link n : Nat} {fields : List (String × Expr)}
    (h : ∀ field ∈ fields, field.2.height link ≤ n) : Expr.heightFields link fields ≤ n := by
  induction fields with
  | nil => exact Nat.zero_le n
  | cons field fields ih =>
    obtain ⟨hf, hfs⟩ := List.forall_mem_cons.mp h
    exact Nat.max_le.mpr ⟨hf, ih hfs⟩

theorem Stmt.heightList_le {link n : Nat} {ss : List Stmt} (h : ∀ s ∈ ss, s.height link ≤ n) :
    Stmt.heightList link ss ≤ n := by
  induction ss with
  | nil => exact Nat.zero_le n
  | cons s ss ih =>
    obtain ⟨hs, hss⟩ := List.forall_mem_cons.mp h
    exact Nat.max_le.mpr ⟨hs, ih hss⟩

/-! ## Derived trees -/

namespace Derived

/-- The trees of the level are at most so high if links of chains do not count. -/
structure Within (level : Derived) (n : Nat) : Prop where
  block : ∀ body, level.block body → Stmt.heightList 0 body ≤ n
  conditional : ∀ s, level.conditional s → s.height 0 ≤ n
  operand : ∀ e, level.operand e → e.height 0 ≤ n

variable {level : Derived} {n : Nat}

-- The height of a tree is that of its parts and one step more.
attribute [local grind =] Expr.height Stmt.height Stmt.heightList

theorem level_le (op : BinaryOp) : op.level ≤ 5 := by
  cases op <;> decide

/-- Operators have six levels, and only a right operand is of a greater level than its operator. -/
theorem Within.chained (h : level.Within n) {m : Nat} {e : Expr} (he : Chained level.operand m e)
    (hm : m ≤ 6) : e.height 0 + m ≤ n + 6 := by
  induction he with
  | operand he =>
    have := h.operand _ he
    omega
  | @binary m op lhs rhs hop _ _ ihl ihr =>
    have hlevel := level_le op
    have hlhs := ihl (by omega)
    have hrhs := ihr (by omega)
    grind

theorem Within.expression (h : level.Within n) {e : Expr} (he : level.Expression e) :
    e.height 0 ≤ n + 6 :=
  h.chained he (Nat.zero_le 6)

theorem Within.expressions (h : level.Within n) {es : List Expr}
    (hes : ∀ e ∈ es, level.Expression e) : Expr.heightList 0 es ≤ n + 6 :=
  Expr.heightList_le fun e he => h.expression (hes e he)

theorem Within.function (h : level.Within n) {f : Function} (hf : level.IsFunction f) :
    f.height 0 ≤ n := by
  cases f with
  | mk pos name params body => exact h.block body hf.body

theorem Within.field (h : level.Within n) {field : String × Expr} (hf : level.Field field) :
    field.2.height 0 ≤ n + 6 := by
  cases hf with
  | value he => exact h.expression he
  | alone pos key => exact Nat.le_add_left 1 (n + 5)

theorem Within.primary (h : level.Within n) {e : Expr} (he : level.Primary e) :
    e.height 0 ≤ n + 7 := by
  cases he with
  | nil | bool | num | str | ident => exact Nat.le_add_left 1 (n + 6)
  | fn _ hf =>
    have := h.function hf
    grind
  | list _ hitems => exact Nat.succ_le_succ (h.expressions hitems)
  | object _ hfields =>
    exact Nat.succ_le_succ (Expr.heightFields_le fun field hfield => h.field (hfields field hfield))
  | group he => exact (h.expression he).trans (Nat.le_succ _)

/-- A link of a chain adds nothing, and what stands in its brackets is an expression. -/
theorem Within.accesses (h : level.Within n) {e : Expr} (he : level.Accesses e) :
    e.height 0 ≤ n + 7 := by
  induction he with
  | primary he => exact h.primary he
  | call _ _ hargs ih =>
    have := h.expressions hargs
    grind
  | member _ _ _ ih => exact ih
  | index _ _ hindex ih =>
    have := h.expression hindex
    grind

theorem Within.statement (h : level.Within n) {s : Stmt} (hs : level.Statement s) :
    s.height 0 ≤ n + 7 := by
  cases hs with
  | declare _ _ hvalue | return_ _ hvalue | throw_ _ hvalue | expr _ hvalue =>
    exact Nat.succ_le_succ (h.expression hvalue)
  | fn _ hf => exact Nat.succ_le_succ ((h.function hf).trans (Nat.le_add_right n 6))
  | returnNothing => exact Nat.le_add_left 1 (n + 6)
  | conditional hs => exact (h.conditional s hs).trans (Nat.le_add_right n 7)
  | assign _ htarget hvalue =>
    exact Nat.succ_le_succ (Nat.max_le.mpr ⟨h.expression htarget, h.expression hvalue⟩)

/-- The next level is higher by seven: six for the levels of operators, and one. -/
theorem Within.outer (h : level.Within n) : level.outer.Within (n + 7) where
  block body hbody := Stmt.heightList_le fun s hs => h.statement (hbody s hs)
  conditional s hs := by
    cases hs with
    | noElse _ hcond hthen =>
      have hcond := h.expression hcond
      have hthen := h.block _ hthen
      grind
    | elseBlock _ hcond hthen helse =>
      have hcond := h.expression hcond
      have hthen := h.block _ hthen
      have helse := h.block _ helse
      grind
    | elseIf _ hcond hthen hnested =>
      have hcond := h.expression hcond
      have hthen := h.block _ hthen
      have hnested := h.conditional _ hnested
      grind
  operand e he := by
    cases he with
    | unary pos op he =>
      have := h.operand _ he
      grind
    | accesses he => exact h.accesses he

theorem within_ofDepth (depth : Nat) : (ofDepth depth).Within (7 * depth) := by
  induction depth with
  | zero => exact ⟨fun _ h => h.elim, fun _ h => h.elim, fun _ h => h.elim⟩
  | succ depth ih => exact ih.outer

theorem Within.item (h : level.Within n) {item : Item} (hitem : level.IsItem item) :
    item.height 0 ≤ n + 7 := by
  cases hitem with
  | stmt hs => exact h.statement hs
  | import_ => exact Nat.le_add_left 1 (n + 6)
  | export_ _ hform =>
    cases hform with
    | default_ hvalue | declare _ hvalue => exact Nat.succ_le_succ (h.expression hvalue)
    | fn _ hf => exact Nat.succ_le_succ ((h.function hf).trans (Nat.le_add_right n 6))
    | names => exact Nat.le_add_left 1 (n + 6)

end Derived

/-! ## Chains -/

theorem Expr.links_le_longest (e : Expr) : e.links ≤ e.longest := by
  cases e <;> simp only [Expr.links, Expr.longest] <;> omega

section

variable {L low low' high : Nat}

/-- One step below a node a chain may begin anew. -/
theorem height_step (h : high ≤ low * (L + 1)) (hlow : low + 1 ≤ low') :
    high + 1 + L ≤ low' * (L + 1) :=
  calc high + 1 + L = high + (L + 1) := by omega
    _ ≤ low * (L + 1) + (L + 1) := Nat.add_le_add_right h _
    _ = (low + 1) * (L + 1) := (Nat.succ_mul low (L + 1)).symm
    _ ≤ low' * (L + 1) := Nat.mul_le_mul_right _ hlow

theorem height_max {high' : Nat} (h : high ≤ low * (L + 1)) (h' : high' ≤ low' * (L + 1)) :
    max high high' ≤ max low low' * (L + 1) :=
  Nat.max_le.mpr ⟨h.trans (Nat.mul_le_mul_right _ (Nat.le_max_left _ _)),
    h'.trans (Nat.mul_le_mul_right _ (Nat.le_max_right _ _))⟩

/-- A node of the tree without a chain of its own. -/
theorem height_succ (h : high ≤ low * (L + 1)) : high + 1 ≤ (low + 1) * (L + 1) :=
  (Nat.le_add_right _ L).trans (height_step h (Nat.le_refl _))

/-- A link of a chain, and what stands beside it. -/
theorem height_link {links side side' : Nat} (h : high + L ≤ low * (L + 1) + links)
    (hside : side ≤ side' * (L + 1)) :
    max (high + 1) (side + 1) + L ≤ max (low + 0) (side' + 1) * (L + 1) + (links + 1) := by
  have hlow : low * (L + 1) ≤ max (low + 0) (side' + 1) * (L + 1) :=
    Nat.mul_le_mul_right _ (Nat.le_max_left low _)
  have hstep : side + 1 + L ≤ max (low + 0) (side' + 1) * (L + 1) :=
    height_step hside (Nat.le_max_right _ _)
  omega

end

variable {L : Nat}

theorem Expr.height_le_mul {e : Expr}
    (hchain : e.height 1 + L ≤ e.height 0 * (L + 1) + e.links) (h : e.longest ≤ L) :
    e.height 1 ≤ e.height 0 * (L + 1) := by
  have hlinks := e.links_le_longest.trans h
  omega

mutual

/-- Every step of a path through the tree counts in the height without links, but for those along
chains, and between any two others there are at most `L` of these. -/
theorem Expr.height_chain : ∀ {e : Expr}, e.longest ≤ L →
    e.height 1 + L ≤ e.height 0 * (L + 1) + e.links
  | .nil _, _ | .bool _ _, _ | .num _ _, _ | .str _ _, _ | .ident _ _, _ =>
    height_step (Nat.zero_le _) (Nat.le_refl 1)
  | .list _ items, h => by
    have hitems : Expr.longestList items ≤ L := h
    exact height_step (Expr.heightList_chain hitems) (Nat.le_refl _)
  | .object _ fields, h => by
    have hfields : Expr.longestFields fields ≤ L := h
    exact height_step (Expr.heightFields_chain hfields) (Nat.le_refl _)
  | .fn _ function, h => height_step (Function.height_chain (f := function) h) (Nat.le_refl _)
  | .call _ callee args, h => by
    obtain ⟨-, hcallee, hargs⟩ := by simpa only [Expr.longest, Nat.max_le] using h
    exact height_link (Expr.height_chain hcallee) (Expr.heightList_chain hargs)
  | .member _ object _, h => by
    obtain ⟨-, hobject⟩ := by simpa only [Expr.longest, Nat.max_le] using h
    have := Expr.height_chain hobject
    simp only [Expr.height, Expr.links, Nat.add_zero]
    omega
  | .index _ object index, h => by
    obtain ⟨-, hobject, hindex⟩ := by simpa only [Expr.longest, Nat.max_le] using h
    have hindex := Expr.height_le_mul (Expr.height_chain hindex) hindex
    exact height_link (Expr.height_chain hobject) hindex
  | .unary _ _ operand, h =>
    height_step (Expr.height_le_mul (e := operand) (Expr.height_chain h) h) (Nat.le_refl _)
  | .binary _ _ lhs rhs, h => by
    obtain ⟨-, hlhs, hrhs⟩ := by simpa only [Expr.longest, Nat.max_le] using h
    have hrhs := Expr.height_le_mul (Expr.height_chain hrhs) hrhs
    exact height_link (Expr.height_chain hlhs) hrhs

theorem Expr.heightList_chain : ∀ {es : List Expr}, Expr.longestList es ≤ L →
    Expr.heightList 1 es ≤ Expr.heightList 0 es * (L + 1)
  | [], _ => Nat.zero_le _
  | _ :: _, h => by
    obtain ⟨he, hes⟩ := Nat.max_le.mp h
    exact height_max (Expr.height_le_mul (Expr.height_chain he) he) (Expr.heightList_chain hes)

theorem Expr.heightFields_chain : ∀ {fields : List (String × Expr)},
    Expr.longestFields fields ≤ L →
    Expr.heightFields 1 fields ≤ Expr.heightFields 0 fields * (L + 1)
  | [], _ => Nat.zero_le _
  | (_, _) :: _, h => by
    obtain ⟨he, hfields⟩ := Nat.max_le.mp h
    exact height_max (Expr.height_le_mul (Expr.height_chain he) he)
      (Expr.heightFields_chain hfields)

theorem Function.height_chain : ∀ {f : Function}, f.longest ≤ L →
    f.height 1 ≤ f.height 0 * (L + 1)
  | .mk _ _ _ _, h => Stmt.heightList_chain h

theorem Stmt.height_chain : ∀ {s : Stmt}, s.longest ≤ L → s.height 1 ≤ s.height 0 * (L + 1)
  | .declare _ _ value, h => height_succ (Expr.height_le_mul (e := value) (Expr.height_chain h) h)
  | .fn _ function, h => height_succ (Function.height_chain (f := function) h)
  | .return_ _ none, _ => height_succ (Nat.zero_le _)
  | .return_ _ (some value), h =>
    height_succ (Expr.height_le_mul (e := value) (Expr.height_chain h) h)
  | .throw_ _ value, h => height_succ (Expr.height_le_mul (e := value) (Expr.height_chain h) h)
  | .if_ _ _ _ none, h => by
    obtain ⟨hcond, hthen⟩ := Nat.max_le.mp h
    have hcond := Expr.height_le_mul (Expr.height_chain hcond) hcond
    exact height_succ (height_max hcond (Stmt.heightList_chain hthen))
  | .if_ _ _ _ (some _), h => by
    obtain ⟨hcond, hthen, helse⟩ := by simpa only [Stmt.longest, Nat.max_le] using h
    have hcond := Expr.height_le_mul (Expr.height_chain hcond) hcond
    have hbodies := height_max (Stmt.heightList_chain hthen) (Stmt.heightList_chain helse)
    exact height_succ (height_max hcond hbodies)
  | .assign _ _ _, h => by
    obtain ⟨htarget, hvalue⟩ := Nat.max_le.mp h
    have htarget := Expr.height_le_mul (Expr.height_chain htarget) htarget
    have hvalue := Expr.height_le_mul (Expr.height_chain hvalue) hvalue
    exact height_succ (height_max htarget hvalue)
  | .expr _ value, h => height_succ (Expr.height_le_mul (e := value) (Expr.height_chain h) h)

theorem Stmt.heightList_chain : ∀ {ss : List Stmt}, Stmt.longestList ss ≤ L →
    Stmt.heightList 1 ss ≤ Stmt.heightList 0 ss * (L + 1)
  | [], _ => Nat.zero_le _
  | _ :: _, h =>
    height_max (Stmt.height_chain (Nat.max_le.mp h).1) (Stmt.heightList_chain (Nat.max_le.mp h).2)

end

theorem Item.height_chain {item : Item} (h : item.longest ≤ L) :
    item.height 1 ≤ item.height 0 * (L + 1) := by
  cases item with
  | stmt s => exact Stmt.height_chain h
  | import_ pos clause source => exact height_succ (Nat.zero_le _)
  | export_ pos form =>
    cases form with
    | default_ value | declare _ value =>
      exact height_succ (Expr.height_le_mul (Expr.height_chain h) h)
    | fn function isDefault => exact height_succ (Function.height_chain h)
    | names pairs => exact height_succ (Nat.zero_le _)

/-! ## Programs -/

/-- The greatest height of an element of a program if links of chains do not count. -/
def maxHeight : Nat := 7 * (maxNesting + 1)

/-- The trees of all programs have one bound in either dialect if links of chains do not count, and
with them a tree is higher by its longest chain at most for each step. -/
theorem height_le (source : List Char) :
    (∀ ss, parseCore source = .ok ss → ∀ s ∈ ss,
      s.height 0 ≤ maxHeight ∧ s.height 1 ≤ maxHeight * (s.longest + 1)) ∧
    (∀ items, parseSurface source = .ok items → ∀ item ∈ items,
      item.height 0 ≤ maxHeight ∧ item.height 1 ≤ maxHeight * (item.longest + 1)) := by
  have hwithin := Derived.within_ofDepth maxNesting
  constructor
  · intro ss h s hs
    have hlow : s.height 0 ≤ maxHeight := hwithin.statement (derived_of_parseCore h s hs)
    exact ⟨hlow, (Stmt.height_chain (Nat.le_refl _)).trans (Nat.mul_le_mul_right _ hlow)⟩
  · intro items h item hitem
    have hlow : item.height 0 ≤ maxHeight := hwithin.item (derived_of_parseSurface h item hitem)
    exact ⟨hlow, (Item.height_chain (Nat.le_refl _)).trans (Nat.mul_le_mul_right _ hlow)⟩

theorem height_le_sum : ∃ ss, parseCore "let n = a.b + c;".toList = .ok ss ∧
    ss.map (fun s => (s.height 0, s.height 1, s.longest)) = [(3, 4, 2)] ∧
    ∀ s ∈ ss, s.height 0 ≤ maxHeight ∧ s.height 1 ≤ maxHeight * (s.longest + 1) := by
  have hheights : (parseCore "let n = a.b + c;".toList).toOption.map
      (List.map fun s => (s.height 0, s.height 1, s.longest)) = some [(3, 4, 2)] := by
    decide +kernel
  cases hread : parseCore "let n = a.b + c;".toList with
  | error e =>
    rw [hread] at hheights
    cases hheights
  | ok ss =>
    rw [hread] at hheights
    exact ⟨ss, rfl, Option.some.inj hheights, (height_le _).1 ss hread⟩

/-! ## Trees without a bound -/

/-- A chain of one operator is assembled from the left. -/
theorem assembleFrom_same {op : BinaryOp} (e r : Expr) {rest : List (BinaryOp × Expr)}
    (h : ∀ r ∈ rest, r.1 = op) :
    assembleFrom [(e, op)] r rest = assembleFrom [] (.binary e.pos op e r) rest := by
  cases rest with
  | nil => simp [assembleFrom, reduce]
  | cons r' rest =>
    obtain ⟨op', r'⟩ := r'
    have hop : op' = op := h (op', r') List.mem_cons_self
    simp [assembleFrom, reduce, hop]

theorem height_assemble {op : BinaryOp} (first : Expr) {rest : List (BinaryOp × Expr)}
    (h : ∀ r ∈ rest, r.1 = op) :
    first.height 1 + rest.length ≤ (assemble first rest).height 1 := by
  induction rest generalizing first with
  | nil => exact Nat.le_refl _
  | cons r rest ih =>
    obtain ⟨op', r⟩ := r
    obtain ⟨hop, hrest⟩ := List.forall_mem_cons.mp h
    have hop : op' = op := hop
    have hstep :
        assemble first ((op', r) :: rest) = assemble (.binary first.pos op first r) rest := by
      rw [assemble, assembleFrom, hop]
      exact assembleFrom_same first r hrest
    have hnode : first.height 1 + 1 ≤ (Expr.binary first.pos op first r).height 1 :=
      Nat.le_max_left _ _
    have := ih (.binary first.pos op first r) hrest
    rw [hstep, List.length_cons]
    omega

/-- No bound holds of the heights of all trees: a sum of `n` variables has at least `n` nodes on a
path. -/
theorem height_unbounded : ¬ ∃ bound, ∀ source,
    (∀ ss, parseCore source = .ok ss → ∀ s ∈ ss, s.height 1 ≤ bound) ∧
      (∀ items, parseSurface source = .ok items → ∀ item ∈ items, item.height 1 ≤ bound) := by
  rintro ⟨bound, hbound⟩
  have hname : IsName "a" := ⟨by decide, by decide⟩
  have hnames : ∀ r ∈ List.replicate bound (BinaryOp.add, "a"), IsName r.2 := by
    intro r hr
    rw [List.eq_of_mem_replicate hr]
    exact hname
  obtain ⟨ls, hls, htokens⟩ := lexemes_chainCode hname hnames .start
  obtain ⟨pos, found, hfound, hcore, -⟩ := parse_variables hls htokens
  have hops : ∀ r ∈ found, r.1 = .add := by
    intro r hr
    have hmem := List.mem_map_of_mem (f := Prod.map id Expr.erase) hr
    rw [hfound, List.map_replicate] at hmem
    exact congrArg Prod.fst (List.eq_of_mem_replicate hmem)
  have hlength : found.length = bound := by
    have := congrArg List.length hfound
    simpa using this
  have hheight := height_assemble (.ident pos "a") hops
  have hle := (hbound _).1 _ hcore _ List.mem_cons_self
  simp only [Stmt.height] at hle
  simp only [Expr.height] at hheight
  omega

end Hotload.Syntax
