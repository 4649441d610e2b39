import Mathlib
import Hotload.Proofs.Syntax.Mentions
import Hotload.Proofs.Syntax.ReadProgram

/-!
# The parentheses of a printed expression

The printer puts parentheses around every operator between operands, and around functions and
operators in front of a call or an access and behind another operator. For expressions of any shape
that holds the tree together: the code of a printed expression is read as this very expression,
unless it nests too deep.

The expression need not come from a text. Its positions may be anything, so the proof takes them
away first: they leave the printed text as it is.

* `Expr.IsPlain`: the expressions.
* `IsPlain.print_erase`: positions leave the text alone.
* `parse_declarationCode`: what a printed expression is read as.
-/

namespace Hotload.Syntax

/-- An expression of `nil`, booleans, strings, variables, lists, calls, accesses and operators, in
any shape and with any positions. -/
inductive Expr.IsPlain : Expr → Prop where
  | nil (pos : Pos) : IsPlain (.nil pos)
  | bool (pos : Pos) (value : Bool) : IsPlain (.bool pos value)
  | str (pos : Pos) (value : String) : IsPlain (.str pos value)
  | ident (pos : Pos) {name : String} (hname : IsName name) : IsPlain (.ident pos name)
  | list (pos : Pos) {items : List Expr} (hitems : ∀ e ∈ items, e.IsPlain) :
    IsPlain (.list pos items)
  | call (pos : Pos) {callee : Expr} {args : List Expr} (hcallee : callee.IsPlain)
    (hargs : ∀ e ∈ args, e.IsPlain) : IsPlain (.call pos callee args)
  | member (pos : Pos) {object : Expr} {name : String} (hobject : object.IsPlain)
    (hname : Reader.IsPropertyName name) : IsPlain (.member pos object name)
  | index (pos : Pos) {object index : Expr} (hobject : object.IsPlain) (hindex : index.IsPlain) :
    IsPlain (.index pos object index)
  | unary (pos : Pos) (op : UnaryOp) {operand : Expr} (hoperand : operand.IsPlain) :
    IsPlain (.unary pos op operand)
  | binary (pos : Pos) (op : BinaryOp) {lhs rhs : Expr} (hlhs : lhs.IsPlain)
    (hrhs : rhs.IsPlain) : IsPlain (.binary pos op lhs rhs)

/-! ## Positions and the printed text -/

/-- The piece with nothing noted. -/
def Piece.unmarked : Piece → Piece
  | .mark _ => .mark .start
  | piece => piece

theorem laid_unmarked (ps : List Piece) (p : Pos) : laid p (ps.map Piece.unmarked) = laid p ps := by
  induction ps generalizing p with
  | nil => rfl
  | cons piece ps ih => cases piece <;> simp only [List.map_cons, Piece.unmarked, laid, ih]

theorem needsParens_erase (e : Expr) : e.erase.needsParens = e.needsParens := by
  cases e <;> rfl

theorem printList_erase {es : List Expr}
    (h : ∀ e ∈ es, e.erase.print = e.print.map Piece.unmarked) :
    Expr.printList (Expr.eraseList es) = (Expr.printList es).map Piece.unmarked := by
  induction es with
  | nil => rfl
  | cons e es ih =>
    obtain ⟨he, hes⟩ := List.forall_mem_cons.mp h
    cases es with
    | nil => exact he
    | cons e' es =>
      have hrest := ih hes
      simp only [Expr.eraseList, Expr.printList, List.map_append, List.map_cons, he] at hrest ⊢
      rw [hrest]
      rfl

theorem parenthesize_unmarked {needed : Bool} {ps qs : List Piece}
    (h : ps = qs.map Piece.unmarked) :
    parenthesize needed ps = (parenthesize needed qs).map Piece.unmarked := by
  cases needed with
  | false => exact h
  | true => simp [parenthesize, h, Piece.unmarked, Piece.str]

theorem levelsList_erase {es : List Expr} (h : ∀ e ∈ es, e.erase.levels = e.levels) :
    Expr.levelsList (Expr.eraseList es) = Expr.levelsList es := by
  induction es with
  | nil => rfl
  | cons e es ih =>
    obtain ⟨he, hes⟩ := List.forall_mem_cons.mp h
    rw [Expr.eraseList, Expr.levelsList, Expr.levelsList, he, ih hes]

/-- What holds of every expression without its position holds of the expressions without theirs. -/
theorem forall_mem_eraseList {P : Expr → Prop} {es : List Expr} (h : ∀ e ∈ es, P e.erase) :
    ∀ e ∈ Expr.eraseList es, P e := by
  rw [eraseList_eq_map]
  exact List.forall_mem_map.mpr h

theorem eraseList_eraseList {es : List Expr} (h : ∀ e ∈ es, e.erase.erase = e.erase) :
    Expr.eraseList (Expr.eraseList es) = Expr.eraseList es := by
  induction es with
  | nil => rfl
  | cons e es ih =>
    obtain ⟨he, hes⟩ := List.forall_mem_cons.mp h
    simp only [Expr.eraseList, he, ih hes]

/-- Variables are names, and there are no numbers, no keys and no statements of an expression. -/
def namesOnly : Allowed :=
  ⟨fun _ => False, IsName, fun _ => False, IsName, fun _ => False⟩

theorem faithful_of_namesOnly : namesOnly.Le faithful :=
  ⟨fun _ h => h.elim, fun _ h => h, fun _ h => h.elim, fun _ _ => trivial, fun _ h => h.elim⟩

theorem sayable_of_namesOnly : namesOnly.Le sayable :=
  ⟨fun _ _ => trivial, fun _ h k hk => by simp [h.2] at hk, fun _ _ => trivial, fun _ h => h,
    fun _ _ => trivial⟩

namespace Expr.IsPlain

variable {e : Expr}

/-- Without positions an expression is printed as with them, up to what is noted. -/
theorem print_erase (h : e.IsPlain) : e.erase.print = e.print.map Piece.unmarked := by
  induction h with
  | nil pos => rfl
  | bool pos value => rfl
  | str pos value => rfl
  | ident pos hname => rfl
  | list pos _ ih =>
    simp [Expr.erase, Expr.print, printList_erase ih, Piece.unmarked, Piece.str]
  | call pos _ _ ihc iha =>
    simp [Expr.erase, Expr.print, printList_erase iha, parenthesize_unmarked ihc,
      needsParens_erase, Piece.unmarked, Piece.str]
  | member pos _ _ ih =>
    simp [Expr.erase, Expr.print, parenthesize_unmarked ih, needsParens_erase, Piece.unmarked,
      Piece.str]
  | index pos _ _ iho ihi =>
    simp [Expr.erase, Expr.print, parenthesize_unmarked iho, ihi, needsParens_erase,
      Piece.unmarked, Piece.str]
  | unary pos op _ ih =>
    simp [Expr.erase, Expr.print, parenthesize_unmarked ih, needsParens_erase, Piece.unmarked,
      Piece.str]
  | binary pos op _ _ ihl ihr =>
    simp [Expr.erase, Expr.print, ihl, ihr, Piece.unmarked, Piece.str]

theorem levels_erase (h : e.IsPlain) : e.erase.levels = e.levels := by
  induction h with
  | nil pos => rfl
  | bool pos value => rfl
  | str pos value => rfl
  | ident pos hname => rfl
  | list pos _ ih => exact levelsList_erase ih
  | call pos _ _ ihc iha =>
    simp only [Expr.erase, Expr.levels, ihc, needsParens_erase, levelsList_erase iha]
  | member pos _ _ ih => simp only [Expr.erase, Expr.levels, ih, needsParens_erase]
  | index pos _ _ iho ihi => simp only [Expr.erase, Expr.levels, iho, ihi, needsParens_erase]
  | unary pos op _ ih => simp only [Expr.erase, Expr.levels, ih, needsParens_erase]
  | binary pos op _ _ ihl ihr => simp only [Expr.erase, Expr.levels, ihl, ihr]

theorem erase_erase (h : e.IsPlain) : e.erase.erase = e.erase := by
  induction h with
  | nil pos => rfl
  | bool pos value => rfl
  | str pos value => rfl
  | ident pos hname => rfl
  | list pos _ ih => simp only [Expr.erase, eraseList_eraseList ih]
  | call pos _ _ ihc iha => simp only [Expr.erase, ihc, eraseList_eraseList iha]
  | member pos _ _ ih => simp only [Expr.erase, ih]
  | index pos _ _ iho ihi => simp only [Expr.erase, iho, ihi]
  | unary pos op _ ih => simp only [Expr.erase, ih]
  | binary pos op _ _ ihl ihr => simp only [Expr.erase, ihl, ihr]

/-- Without positions, the expression is one that the grammar gives. -/
theorem built_erase (h : e.IsPlain) : e.erase.Built := by
  induction h with
  | nil pos => trivial
  | bool pos value => trivial
  | str pos value => trivial
  | ident pos hname => exact hname
  | list pos _ ih => exact (Expr.builtList_iff _).mpr (forall_mem_eraseList ih)
  | call pos _ _ ihc iha => exact ⟨ihc, (Expr.builtList_iff _).mpr (forall_mem_eraseList iha)⟩
  | member pos _ hname ih => exact ⟨ih, hname⟩
  | index pos _ _ iho ihi => exact ⟨iho, ihi⟩
  | unary pos op _ ih => exact ih
  | binary pos op _ _ ihl ihr => exact ⟨(pos_erase _).symm, ihl, ihr⟩

theorem every_erase (h : e.IsPlain) : e.erase.Every namesOnly := by
  induction h with
  | nil pos => trivial
  | bool pos value => trivial
  | str pos value => trivial
  | ident pos hname => exact hname
  | list pos _ ih => exact (everyList_iff _).mpr (forall_mem_eraseList ih)
  | call pos _ _ ihc iha => exact ⟨ihc, (everyList_iff _).mpr (forall_mem_eraseList iha)⟩
  | member pos _ _ ih => exact ih
  | index pos _ _ iho ihi => exact ⟨iho, ihi⟩
  | unary pos op _ ih => exact ih
  | binary pos op _ _ ihl ihr => exact ⟨ihl, ihr⟩

end Expr.IsPlain

/-! ## The code of a declaration -/

/-- The code of a variable declaration. -/
def declarationCode (pos : Pos) (name : String) (value : Expr) : List Char :=
  (layOut (printProgram [.stmt (.declare pos name value)])).code

theorem declarationCode_erase {e : Expr} (h : e.IsPlain) (pos : Pos) (name : String) :
    declarationCode pos name e.erase = declarationCode pos name e := by
  have hprint : printProgram [.stmt (.declare pos name e.erase)] =
      (printProgram [.stmt (.declare pos name e)]).map Piece.unmarked := by
    simp [printProgram, printFrom, Item.print, Stmt.print, h.print_erase, Piece.unmarked, Piece.str]
  rw [declarationCode, declarationCode, code_layOut, code_layOut, hprint, laid_unmarked]

/-- The code of a declaration is read as the tokens of the declaration. -/
theorem scans_declarationCode {e : Expr} (he : e.Built) {name : String} (hname : IsName name)
    (pos : Pos) : ∃ q, Scans (fun _ _ => True) .start (declarationCode pos name e)
      (Stmt.speltList [.declare pos name e]) q [] := by
  have hitems : ∀ item ∈ [Item.stmt (.declare pos name e)], item.Built :=
    List.forall_mem_singleton.mpr ⟨hname.1, he⟩
  have hscans : ∃ q, Scans (fun _ _ => True) .start (declarationCode pos name e)
      (Stmt.speltList (lowerAt Item.pos [Item.stmt (.declare pos name e)])) q [] :=
    scans_code hitems (fun _ _ => trivial) (Noted.total (fun _ _ => trivial) _ _)
  rwa [lowerAt_pos] at hscans

/-- The code of a declaration is read as this declaration, unless its value nests too deep. -/
theorem parse_declarationCode {e : Expr} (he : e.IsPlain) {name : String} (hname : IsName name)
    (pos : Pos) :
    (e.levels < maxNesting ∧ ∃ found, parseCore (declarationCode pos name e) = .ok found ∧
      Stmt.eraseList found = Stmt.eraseList [.declare pos name e]) ∨
    (maxNesting ≤ e.levels ∧ ∃ err, parseCore (declarationCode pos name e) = .error err ∧
      err.fault = .tooDeep) := by
  have hbuilt : Stmt.BuiltList [.declare pos name e.erase] :=
    ⟨⟨hname.1, he.built_erase⟩, trivial⟩
  have hnames : Stmt.EveryList namesOnly [.declare pos name e.erase] :=
    ⟨⟨hname, he.every_erase⟩, trivial⟩
  have hfaithful := Stmt.EveryList.mono faithful_of_namesOnly hnames
  have hworded := Stmt.EveryList.mono worded_of_faithful hfaithful
  have hraw : Spelt.raw ∉ Stmt.speltList [.declare pos name e.erase] := by
    rcases Stmt.tellingList hbuilt with h | h
    · exact h.2.1
    · exact absurd hworded h.1
  obtain ⟨q, hscans⟩ := scans_declarationCode he.built_erase hname pos
  have hread := reads_program hbuilt hworded hraw hscans
  have hlevels : Stmt.levelsList [.declare pos name e.erase] = e.levels + 1 := by
    simp [Stmt.levelsList, Stmt.levels, he.levels_erase]
  have herased : Stmt.eraseList [.declare pos name e.erase] =
      Stmt.eraseList [.declare pos name e] := by
    simp only [Stmt.eraseList, Stmt.erase, he.erase_erase]
  rw [declarationCode_erase he, hlevels, Stmt.rereadList_eq hfaithful] at hread
  cases hparse : parseCore (declarationCode pos name e) with
  | ok found =>
    rw [hparse] at hread
    exact .inl ⟨hread.2.1, found, rfl, hread.2.2.erase.trans herased⟩
  | error err =>
    rw [hparse] at hread
    rcases hread with hn | ⟨hn, hfault⟩
    · exact absurd (Stmt.EveryList.mono sayable_of_namesOnly hnames) hn
    · exact .inr ⟨by omega, err, rfl, hfault⟩

/-- The expression `(-a)["b"](!c.d, [nil, (e == true)])`. -/
def crowded : Expr :=
  .call .start
    (.index .start (.unary .start .neg (.ident .start "a")) (.str .start "b"))
    [.unary .start .not (.member .start (.ident .start "c") "d"),
      .list .start [.nil .start, .binary .start .eq (.ident .start "e") (.bool .start true)]]

theorem isPlain_crowded : crowded.IsPlain := by
  have hname {name : String} (h : isIdentifier name.toList = true ∧ Keyword.ofWord? name = none) :
      IsName name := h
  refine .call _ (.index _ (.unary _ _ (.ident _ (hname (by decide)))) (.str _ _)) ?_
  refine List.forall_mem_cons.mpr ⟨?_, List.forall_mem_singleton.mpr (.list _ ?_)⟩
  · exact .unary _ _ (.member _ (.ident _ (hname (by decide)))
      (Reader.isPropertyName_of_isName (hname (by decide))))
  · exact List.forall_mem_cons.mpr ⟨.nil _,
      List.forall_mem_singleton.mpr (.binary _ _ (.ident _ (hname (by decide))) (.bool _ _))⟩

theorem crowded_is_read : crowded.IsPlain ∧ IsName "v" ∧
    ∃ found, parseCore (declarationCode .start "v" crowded) = .ok found ∧
      Stmt.eraseList found = Stmt.eraseList [.declare .start "v" crowded] := by
  have hname : IsName "v" := ⟨by decide, by decide⟩
  refine ⟨isPlain_crowded, hname, ?_⟩
  rcases parse_declarationCode isPlain_crowded hname .start with ⟨-, hread⟩ | ⟨hdeep, -⟩
  · exact hread
  · exact absurd hdeep (by decide)

end Hotload.Syntax
