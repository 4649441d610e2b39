import Mathlib
import Hotload.Proofs.Evaluation.Likeness
import Hotload.Proofs.Syntax.Precedence

/-!
# Names of properties

A program names a property by a word in three places: behind a dot, in front of the value of a
field, and in the braces of an import. In brackets it names one by a text. A property reads the same
in either way if the word is the text; but a keyword stands for its first spelling, so that its
other spellings name a property that is not theirs.

* `NamesProperty`: a word names a property in all three places.
* `Same`: two computations with the same effect and the same value.
* `member_same_index`: what is read behind a dot and in brackets.
* `property_of_word`: the property that a word names, and when it is the word itself.
-/

namespace Hotload

open Syntax Syntax.Reader

namespace Syntax

/-! ## Where words name properties -/

/-- The word names this property behind a dot, in front of a colon and in front of `as`. -/
structure NamesProperty (inner : Nested) (w name : String) : Prop where
  member : ∀ e c ts, c.tokens = .mark .dot :: .ofWord w :: ts →
    inner.accessLoop e c = inner.accessLoop (.member c.pos e name) c.advance.advance
  key : ∀ c ts, c.tokens = .ofWord w :: .mark .colon :: ts →
    inner.field c = (inner.expression c.advance.advance).map fun r => ((name, r.1), r.2)
  imported : ∀ x c ts, c.tokens = .ofWord w :: .keyword .as_ :: .ident x :: ts →
    Nested.importedName c = .ok ((name, x), c.advance.advance.advance)

variable {w : String} {c : Cursor} {ts : List Token}

theorem isEof_ofWord (w : String) : (Token.ofWord w).isEof = false := by
  unfold Token.ofWord
  split <;> rfl

theorem propertyName_apply (hw : isIdentifier w.toList = true) (hc : c.token = .ofWord w) :
    propertyName c = .ok (rereadKey w, c.advance) := by
  rw [propertyName, token_bind, hc, Token.ofWord, rereadKey, if_pos hw]
  cases Keyword.ofWord? w <;> rfl

/-- A word in the place of a key is one. -/
theorem key_word (hw : isIdentifier w.toList = true) (hword : c.token = .ofWord w)
    (f : String → Reader (String × Expr)) :
    (match c.token with
      | .str key => do
        advance
        let key ← pure key
        f key
      | _ => propertyName >>= f : Reader (String × Expr)) c = f (rereadKey w) c.advance := by
  have hname : (propertyName >>= f) c = f (rereadKey w) c.advance := by
    rw [bind_apply, propertyName_apply hw hword]
    rfl
  rw [← hname, hword, Token.ofWord]
  cases Keyword.ofWord? w <;> rfl

/-- The word names the property that its first spelling is. -/
theorem namesProperty_word (hw : isIdentifier w.toList = true) (dialect : Dialect) (depth : Nat) :
    NamesProperty (Nested.ofDepth dialect depth) w (rereadKey w) where
  member e c ts hc := by
    have hdot : c.token = .mark .dot := Cursor.token_of_tokens hc
    have hword := Cursor.token_of_tokens (Cursor.tokens_advance hc rfl)
    have hround : Nested.accessRound (Nested.ofDepth dialect depth) e c =
        .ok (.again (.member c.pos e (rereadKey w)), c.advance.advance) := by
      rw [Nested.accessRound, here_bind, token_bind, hdot]
      change (advance >>= _) c = _
      rw [advance_bind, bind_apply, propertyName_apply hw hword]
      rfl
    change loop _ _ _ = _
    rw [loop_eq (Nested.advances_accessRound (Nested.builds_ofDepth dialect depth)), hround]
    rfl
  key c ts hc := by
    have hword : c.token = .ofWord w := Cursor.token_of_tokens hc
    have hcolon := Cursor.token_of_tokens (Cursor.tokens_advance hc (isEof_ofWord w))
    rw [Nested.field, here_bind, token_bind]
    refine (key_word hw hword _).trans ?_
    rw [eat_bind, hcolon, if_pos rfl]
    simp only [bind_apply]
    cases (Nested.ofDepth dialect depth).expression c.advance.advance <;> rfl
  imported x c ts hc := by
    have hword : c.token = .ofWord w := Cursor.token_of_tokens hc
    have htail := Cursor.tokens_advance hc (isEof_ofWord w)
    have has : c.advance.token = .keyword .as_ := Cursor.token_of_tokens htail
    have hx := Cursor.token_of_tokens (Cursor.tokens_advance htail rfl)
    rw [Nested.importedName, Nested.paired, bind_apply, propertyName_apply hw hword]
    simp only [Except.bind]
    rw [checkKeyword_bind, has]
    change (advance >>= _) c.advance = _
    rw [advance_bind, bind_apply, ident, token_bind, hx]
    rfl

/-! ## Other spellings of keywords -/

/-- The spellings of keywords that are not their first ones. -/
def otherSpellings : List String := ["const", "var", "function", "null", "undefined"]

theorem rereadKey_eq_iff (hw : isIdentifier w.toList = true) :
    rereadKey w = w ↔ w ∉ otherSpellings := by
  rw [rereadKey, if_pos hw]
  cases hk : Keyword.ofWord? w with
  | none =>
    refine iff_of_true rfl fun hmem => ?_
    simp only [otherSpellings, List.mem_cons, List.not_mem_nil, or_false] at hmem
    rcases hmem with rfl | rfl | rfl | rfl | rfl <;> cases hk
  | some k =>
    unfold Keyword.ofWord? at hk
    split at hk <;> cases hk <;> decide

end Syntax

/-! ## What is read -/

/-- The computations have the same effect, and the same value unless both fail. -/
def Same {σ α : Type} (x y : Run σ α) : Prop :=
  ∀ m, (x.outcome m).toOption = (y.outcome m).toOption ∧ x.after m = y.after m

variable {σ : Type}

/-- Reads a property, or fails at a position. -/
def readProperty (host : Host σ) (pos : Pos) (object : Value) (name : String)
    (fault : RuntimeFault) : Run σ Value := do
  match (← Run.heap).property? object name with
  | some (value, h) =>
    Run.modifyHeap fun _ => h
    return value
  | none => Run.failAt host pos fault

/-- What is read does not depend on how the failure is told. -/
theorem same_readProperty (host : Host σ) (pos : Pos) (object : Value) (name : String)
    (fault fault' : RuntimeFault) :
    Same (readProperty host pos object name fault) (readProperty host pos object name fault') := by
  intro m
  have hrun (fault : RuntimeFault) : (readProperty host pos object name fault).run m =
      (match m.heap.property? object name with
        | some (value, h) => do
          Run.modifyHeap fun _ => h
          return value
        | none => Run.failAt host pos fault : Run σ Value).run m := rfl
  rw [Run.outcome, Run.outcome, Run.after, Run.after, hrun, hrun]
  cases m.heap.property? object name with
  | none => exact ⟨rfl, rfl⟩
  | some r => exact ⟨rfl, rfl⟩

theorem readIndex_text (host : Host σ) (pos : Pos) (object : Value) (name : String) :
    readIndex host object (.str name) pos =
      readProperty host pos object name (.notIndexable object.typeName "string") := by
  cases object <;> rfl

/-- A property that is read by its name is read the same in brackets by the text of the name. -/
theorem member_same_index (host : Host σ) (budget used : Nat) (pos q : Pos) (object : Expr)
    (name : String) (scope : ScopeRef) :
    Same ((Evaluator.withBudget host budget used).eval (.member pos object name) scope)
      ((Evaluator.withBudget host budget used).eval (.index pos object (.str q name)) scope) := by
  intro m
  cases budget with
  | zero => exact ⟨rfl, rfl⟩
  | succ budget =>
    have hmember : (Evaluator.withBudget host (budget + 1) used).eval
          (.member pos object name) scope =
        (do
          let v ← (Evaluator.withBudget host budget (used + 1)).eval object scope
          readProperty host pos v name (.unreadable name v.typeName)) := rfl
    have hindex : (Evaluator.withBudget host (budget + 1) used).eval
          (.index pos object (.str q name)) scope =
        (do
          let v ← (Evaluator.withBudget host budget (used + 1)).eval object scope
          let i ← (Evaluator.withBudget host budget (used + 1)).eval (.str q name) scope
          readIndex host v i pos) := rfl
    rw [hmember, hindex]
    cases ho : ((Evaluator.withBudget host budget (used + 1)).eval object scope).outcome m with
    | error e => simp only [Run.outcome_bind_error ho, Run.after_bind_error ho, and_self]
    | ok v =>
      -- The object has a value, so there is an expression left for the text as well.
      obtain ⟨budget, rfl⟩ : ∃ left, budget = left + 1 := by
        cases budget with
        | zero => cases ho
        | succ left => exact ⟨left, rfl⟩
      have htext : ((Evaluator.withBudget host (budget + 1) (used + 1)).eval (.str q name) scope >>=
          fun i => readIndex host v i pos) =
            readProperty host pos v name (.notIndexable v.typeName "string") :=
        readIndex_text host pos v name
      simp only [Run.outcome_bind_ok ho, Run.after_bind_ok ho, htext]
      exact same_readProperty host pos v name _ _ _

/-! ## Words and properties -/

/-- An object with one key reads another value under every other one. -/
theorem exists_property_ne {key name : String} (h : name ≠ key) :
    ∃ (heap : Heap) (object : Value), heap.property? object name ≠ heap.property? object key := by
  refine ⟨⟨#[], #[[(key, .bool true)]], #[], 0⟩, .object ⟨0⟩, fun heq => ?_⟩
  have hkey : List.lookup key [(key, Value.bool true)] = some (.bool true) := by simp
  have hname : List.lookup name [(key, Value.bool true)] = none := by
    simp [List.lookup, beq_eq_false_iff_ne.mpr h]
  simp [Heap.property?, Heap.field?, Heap.fields, hkey, hname] at heq

/-- A word in a text names the same property behind a dot, as a key and in an import: its first
spelling. This property is read the same by its name and by its text, and it is the property of the
word's own text just when the word is no other spelling of a keyword. -/
theorem property_of_word {w : String} (hw : isIdentifier w.toList = true) :
    (∀ rest, EndsWord rest → Leads (.ofWord w) w.toList.length (w.toList ++ rest) rest) ∧
    (∀ dialect depth, NamesProperty (Nested.ofDepth dialect depth) w (rereadKey w)) ∧
    (∀ (σ : Type) (host : Host σ) (budget used : Nat) (pos q : Pos) (object : Expr)
      (scope : ScopeRef),
      Same ((Evaluator.withBudget host budget used).eval (.member pos object (rereadKey w)) scope)
        ((Evaluator.withBudget host budget used).eval
          (.index pos object (.str q (rereadKey w))) scope)) ∧
    ((∀ (heap : Heap) (object : Value),
      heap.property? object (rereadKey w) = heap.property? object w) ↔ w ∉ otherSpellings) := by
  refine ⟨fun rest hrest => ?_, namesProperty_word hw,
    fun σ host budget used pos q object scope => member_same_index host budget used pos q object
      _ scope, ?_⟩
  · have hleads := leads_word hw hrest
    rwa [String.ofList_toList] at hleads
  · rw [← rereadKey_eq_iff hw]
    constructor
    · intro hall
      by_contra hne
      obtain ⟨heap, object, hproperty⟩ := exists_property_ne hne
      exact hproperty (hall heap object)
    · intro heq heap object
      rw [heq]

theorem property_of_const : isIdentifier "const".toList = true ∧
    (∀ rest, EndsWord rest → Leads (.keyword .let_) 5 ("const".toList ++ rest) rest) ∧
    (∀ dialect depth, NamesProperty (Nested.ofDepth dialect depth) "const" "let") ∧
    ¬ ∀ (heap : Heap) (object : Value),
      heap.property? object "let" = heap.property? object "const" := by
  have hword : isIdentifier "const".toList = true := by decide
  obtain ⟨hleads, hnames, -, hreads⟩ := property_of_word hword
  exact ⟨hword, hleads, hnames, fun hall => hreads.mp hall (by decide)⟩

/-- The property that the only statement of a program reads. -/
def readName : List Stmt → Option String
  | [.expr _ (.member _ _ name)] => some name
  | _ => none

/-- A property whose name is another spelling of a keyword is read under the first one. -/
theorem const_is_read_as_let : ∃ ss, parseCore "o.const;".toList = .ok ss ∧
    readName ss = some "let" ∧ readName ss ≠ some "const" := by
  have hname : (parseCore "o.const;".toList).toOption.bind readName = some "let" := by
    decide +kernel
  cases hread : parseCore "o.const;".toList with
  | error e =>
    rw [hread] at hname
    cases hname
  | ok ss =>
    rw [hread] at hname
    have hlet : readName ss = some "let" := hname
    exact ⟨ss, rfl, hlet, by rw [hlet]; decide⟩

end Hotload
