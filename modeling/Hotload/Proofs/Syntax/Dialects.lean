import Mathlib
import Hotload.Proofs.Syntax.TwoReadings

/-!
# The two dialects

A core program is a surface program without module declarations. Below its top level the grammars
of the dialects agree; at the top level, one reads the module declarations that the other refuses.

* `Item.IsModuleDeclaration`: an import or an export.
* `statementOnly`: the reader of a surface element that refuses module declarations.
* `parseCore_iff_parseSurface`: what the core dialect accepts.
-/

namespace Hotload.Syntax

open Reader

/-- The item is an import or an export. Nowhere else in a tree can one be. -/
def Item.IsModuleDeclaration : Item → Prop
  | .stmt _ => False
  | .import_ .. | .export_ .. => True

/-! ## What a reader gives -/

theorem map_eq_ok_iff {ε α β : Type} {x : Except ε α} {f : α → β} {b : β} :
    x.map f = .ok b ↔ ∃ a, x = .ok a ∧ f a = b := by
  cases x <;> simp [Except.map]

namespace Reader

variable {α β : Type}

/-- Whatever the reader gives has a property. -/
def Gives (P : α → Prop) (x : Reader α) : Prop := ∀ c r, x c = .ok r → P r.1

namespace Gives

theorem pure {P : α → Prop} {a : α} (h : P a) : Gives P (Pure.pure a) := by
  rintro c r ⟨⟩
  exact h

theorem bind {P : β → Prop} {x : Reader α} {f : α → Reader β} (h : ∀ a, Gives P (f a)) :
    Gives P (x >>= f) := by
  intro c r hr
  rw [bind_apply] at hr
  cases hx : x c with
  | error e => simp [hx, Except.bind] at hr
  | ok r₁ =>
    simp only [hx, Except.bind] at hr
    exact h r₁.1 r₁.2 r hr

end Gives

end Reader

namespace Nested

variable {inner : Nested}

theorem gives_importDeclaration : Gives Item.IsModuleDeclaration importDeclaration := by
  refine .bind fun pos => .bind fun _ => .bind fun t => ?_
  split
  · exact .bind fun _ => .bind fun _ => .pure trivial
  · exact .bind fun clause => .bind fun _ => .bind fun source => .bind fun _ => .pure trivial

theorem gives_exportDeclaration : Gives Item.IsModuleDeclaration inner.exportDeclaration :=
  .bind fun _ => .bind fun _ => .bind fun _ => .pure trivial

/-! ## Elements of a program -/

/-- A surface element that is a statement. -/
def statementOnly (inner : Nested) : Reader Stmt := do
  match ← inner.surfaceElement with
  | .stmt s => return s
  | item => fail (.notAtTopLevel .import_) item.pos

theorem statementOnly_apply (c : Cursor) :
    inner.statementOnly c = (inner.surfaceElement c).bind fun r =>
      match r.1 with
      | .stmt s => .ok (s, r.2)
      | item => .error ⟨.notAtTopLevel .import_, item.pos⟩ := by
  rw [statementOnly, bind_apply]
  congr 1
  funext r
  cases r.1 <;> rfl

theorem statementOnly_stops {element : Reader Item} {c : Cursor}
    (h : Gives Item.IsModuleDeclaration element) (he : inner.surfaceElement c = element c) :
    Stops inner.statementOnly c := by
  rw [Stops, statementOnly_apply, he]
  cases hr : element c with
  | error e => exact ⟨e, rfl⟩
  | ok r =>
    obtain ⟨item, c'⟩ := r
    cases item with
    | stmt s => exact (h c _ hr).elim
    | import_ pos clause source => exact ⟨_, rfl⟩
    | export_ pos form => exact ⟨_, rfl⟩

/-- In front of a statement there is no keyword of a module declaration. -/
structure BeginsStatement (t : Token) : Prop where
  import_ : t ≠ .keyword .import_
  export_ : t ≠ .keyword .export_

theorem coreElement_statement {c : Cursor} (h : BeginsStatement c.token) :
    inner.coreElement c = inner.statement c := by
  rw [coreElement, token_bind]
  cases ht : c.token with
  | keyword k =>
    cases k with
    | import_ => exact absurd ht h.import_
    | export_ => exact absurd ht h.export_
    | _ => rfl
  | _ => rfl

theorem surfaceElement_statement {c : Cursor} (h : BeginsStatement c.token) :
    inner.surfaceElement c = (inner.statement c).map fun r => (.stmt r.1, r.2) := by
  have hstatement : (do return .stmt (← inner.statement) : Reader Item) c =
      (inner.statement c).map fun r => (.stmt r.1, r.2) := by
    rw [bind_apply]
    cases inner.statement c <;> rfl
  rw [surfaceElement, token_bind]
  cases ht : c.token with
  | keyword k =>
    cases k with
    | import_ => exact absurd ht h.import_
    | export_ => exact absurd ht h.export_
    | _ => exact hstatement
  | _ => exact hstatement

theorem statementOnly_statement {c : Cursor} (h : BeginsStatement c.token) :
    inner.statementOnly c = inner.statement c := by
  rw [statementOnly_apply, surfaceElement_statement h]
  cases inner.statement c <;> rfl

/-- The core dialect reads the statements of the surface dialect, and no other elements. -/
theorem concurs_coreElement {core surface : Nested} (h : core.Concurs surface) :
    core.coreElement.Concurs surface.statementOnly := by
  intro c c' hc
  by_cases hi : c.token = .keyword .import_
  · have hcore : Stops core.coreElement c := ⟨_, by rw [coreElement, token_bind, hi]; rfl⟩
    refine hcore.agree (statementOnly_stops gives_importDeclaration ?_)
    rw [surfaceElement, token_bind, hc.token, hi]
  · by_cases he : c.token = .keyword .export_
    · have hcore : Stops core.coreElement c := ⟨_, by rw [coreElement, token_bind, he]; rfl⟩
      have hgives : Gives Item.IsModuleDeclaration surface.exportDeclaration :=
        gives_exportDeclaration
      refine hcore.agree (statementOnly_stops hgives ?_)
      rw [surfaceElement, token_bind, hc.token, he]
    · have hs : BeginsStatement c.token := ⟨hi, he⟩
      rw [coreElement_statement hs, statementOnly_statement (hc.token ▸ hs)]
      exact h.statement c c' hc

theorem takesAt_statementOnly (h : inner.Builds) (c : Cursor) :
    TakesAt c 1 Stmt.Built inner.statementOnly := by
  refine (takesAt_surfaceElement h c).bind fun item c' => ?_
  split
  · exact .pure fun _ hs => hs
  · exact .fail _ _

section

variable {α : Type} {element : Reader α} {P : α → Prop} {c : Cursor}

theorem elements_end (h : ∀ c, TakesAt c 1 P element) (ht : c.token = .eof) :
    elements element c = .ok ([], c) := by
  have hadvances := advances_of_cases (elementPick_cases h)
  rw [elements_eq, collect_eq hadvances, elementPick, token_bind, ht]
  rfl

theorem elements_semi (h : ∀ c, TakesAt c 1 P element) (ht : c.token = .mark .semi) :
    elements element c = elements element c.advance := by
  have hadvances := advances_of_cases (elementPick_cases h)
  rw [elements_eq, collect_eq hadvances, elementPick, token_bind, ht]
  rfl

theorem elements_cons (h : ∀ c, TakesAt c 1 P element) (heof : c.token ≠ .eof)
    (hsemi : c.token ≠ .mark .semi) :
    elements element c = (element c).bind fun r =>
      (elements element r.2).map fun r' => (r.1 :: r'.1, r'.2) := by
  have hmore : elementPick element c = (element c).map fun r => (.more r.1, r.2) := by
    have hmore : (do return .more (← element) : Reader (Pick α)) c =
        (element c).map fun r => (.more r.1, r.2) := by
      rw [bind_apply]
      cases element c <;> rfl
    rw [elementPick, token_bind]
    cases ht : c.token with
    | eof => exact absurd ht heof
    | mark m =>
      cases m with
      | semi => exact absurd ht hsemi
      | _ => exact hmore
    | _ => exact hmore
  rw [elements_eq, collect_eq (advances_of_cases (elementPick_cases h)), hmore]
  cases element c <;> rfl

end

/-- Reading statements only is reading all elements and finding no module declaration. -/
theorem elements_statementOnly (h : inner.Builds) (c : Cursor) (items : List Item) :
    (∃ ss d, elements inner.statementOnly c = .ok (ss, d) ∧ items = ss.map .stmt) ↔
      (∃ d, elements inner.surfaceElement c = .ok (items, d)) ∧
        ∀ item ∈ items, ¬ item.IsModuleDeclaration := by
  induction hn : c.rest.length using Nat.strong_induction_on generalizing c items with
  | _ n ih =>
    have hstatement := takesAt_statementOnly h
    have helement := takesAt_surfaceElement h
    by_cases heof : c.token = .eof
    · rw [elements_end hstatement heof, elements_end helement heof]
      constructor
      · rintro ⟨ss, d, hr, rfl⟩
        cases hr
        exact ⟨⟨c, rfl⟩, List.forall_mem_nil _⟩
      · rintro ⟨⟨d, hr⟩, -⟩
        cases hr
        exact ⟨[], c, rfl, rfl⟩
    by_cases hsemi : c.token = .mark .semi
    · rw [elements_semi hstatement hsemi, elements_semi helement hsemi]
      have := (Cursor.took_advance (c := c) (by rw [hsemi]; rfl)).length
      exact ih c.advance.rest.length (by omega) c.advance items rfl
    rw [elements_cons hstatement heof hsemi, elements_cons helement heof hsemi, statementOnly_apply]
    cases hx : inner.surfaceElement c with
    | error e => simp [Except.bind]
    | ok r =>
      obtain ⟨item, c'⟩ := r
      have := (helement c item c' hx).1.length
      have ih (items : List Item) := ih c'.rest.length (by omega) c' items rfl
      have hrefused (hitem : item.IsModuleDeclaration) :
          ¬ ((∃ d, (elements inner.surfaceElement c').map (fun r => (item :: r.1, r.2)) =
              .ok (items, d)) ∧ ∀ item ∈ items, ¬ item.IsModuleDeclaration) := by
        simp only [map_eq_ok_iff]
        rintro ⟨⟨_, ⟨items', d⟩, hr, ⟨⟩⟩, hall⟩
        exact hall item List.mem_cons_self hitem
      cases item with
      | stmt s =>
        simp only [Except.bind, map_eq_ok_iff]
        constructor
        · rintro ⟨_, _, ⟨⟨ss, d⟩, hr, ⟨⟩⟩, rfl⟩
          obtain ⟨⟨d', hd'⟩, hall⟩ := (ih (ss.map .stmt)).mp ⟨ss, d, hr, rfl⟩
          exact ⟨⟨_, ⟨_, d'⟩, hd', rfl⟩, List.forall_mem_cons.mpr ⟨id, hall⟩⟩
        · rintro ⟨⟨_, ⟨items', d⟩, hr, ⟨⟩⟩, hall⟩
          obtain ⟨ss, d', hd', rfl⟩ :=
            (ih items').mpr ⟨⟨d, hr⟩, (List.forall_mem_cons.mp hall).2⟩
          exact ⟨_, _, ⟨_, hd', rfl⟩, rfl⟩
      | import_ pos clause source =>
        refine iff_of_false ?_ (hrefused trivial)
        rintro ⟨ss, d, hr, -⟩
        cases hr
      | export_ pos form =>
        refine iff_of_false ?_ (hrefused trivial)
        rintro ⟨ss, d, hr, -⟩
        cases hr

end Nested

theorem run_eq_ok_iff {α : Type} {reader : Reader α} {source : List Char} {a : α} :
    reader.run source = .ok a ↔
      ∃ ls d, lexemes .start source = .ok ls ∧ reader ⟨none, ls⟩ = .ok (a, d) := by
  rw [run_eq]
  cases lexemes .start source with
  | error e => simp [Except.bind]
  | ok ls => simp [Except.bind, map_eq_ok_iff]

/-- Reading a text as core gives a tree just when reading it as surface gives this tree and nothing
in it is an import or an export. -/
theorem parseCore_iff_parseSurface (source : List Char) (items : List Item) :
    (parseCore source).map (List.map Item.stmt) = .ok items ↔
      parseSurface source = .ok items ∧ ∀ item ∈ items, ¬ item.IsModuleDeclaration := by
  have hdialects := Nested.concurs_elements
    (Nested.concurs_coreElement (Nested.concurs_ofDepth .core .surface maxNesting))
  have hstatements (ls : List Lexeme) :=
    Nested.elements_statementOnly (Nested.builds_ofDepth .surface maxNesting) ⟨none, ls⟩ items
  simp only [map_eq_ok_iff, parseCore, (hdialects.run source).ok_iff, parseSurface, run_eq_ok_iff]
  constructor
  · rintro ⟨ss, ⟨ls, d, hls, hr⟩, rfl⟩
    obtain ⟨⟨d', hd'⟩, hall⟩ := (hstatements ls).mp ⟨ss, d, hr, rfl⟩
    exact ⟨⟨ls, d', hls, hd'⟩, hall⟩
  · rintro ⟨⟨ls, d, hls, hr⟩, hall⟩
    obtain ⟨ss, d', hd', rfl⟩ := (hstatements ls).mpr ⟨⟨d, hr⟩, hall⟩
    exact ⟨ss, ⟨ls, d', hls, hd'⟩, rfl⟩

end Hotload.Syntax
