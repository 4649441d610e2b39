import Mathlib
import Hotload.Proofs.Syntax.ReadBack

/-!
# String literals that are no words

A field of an object literal whose key is no word and that has no value is printed with a colon, so
it is read as another field or not at all. To tell the two apart no matter what the text behind the
colon is read as, the string literals of a program are compared in their order.

* `mentions`: the string literals among some tokens, and if a colon follows.
* `Expr.mentions`, `Stmt.mentions`: those that a tree is read from.
* `Writes`: what a reader mentions.
* `Telling`: where the printed text of a tree differs from what the tree is read from.
-/

namespace Hotload.Syntax

open Spelt (mark keyword word names)

/-! ## Tokens and trees -/

/-- The string literals among the tokens that are no words, and if a colon follows. -/
def mentions : List Lexeme → List (String × Bool)
  | [] => []
  | l :: ls =>
    match l.token with
    | .str value =>
      if isIdentifier value.toList then mentions ls
      else (value, (Cursor.mk none ls).token.isMark .colon) :: mentions ls
    | _ => mentions ls

/-- A string literal of a tree, and if a colon follows, where this is known. -/
abbrev Mention := String × Option Bool

/-- A string literal, unless it is a word. -/
def mention (value : String) (colon : Option Bool) : List Mention :=
  if isIdentifier value.toList then [] else [(value, colon)]

/-- The value is the variable that a key alone stands for. -/
def isShorthand (key : String) : Expr → Bool
  | .ident _ name => name == key
  | _ => false

mutual

/-- The string literals of an expression that are no words. -/
def Expr.mentions : Expr → List Mention
  | .nil _ | .bool _ _ | .num _ _ | .ident _ _ => []
  | .str _ value => mention value none
  | .list _ items => Expr.mentionsList items
  | .object _ fields => Expr.mentionsFields fields
  | .fn _ function => function.mentions
  | .call _ callee args => callee.mentions ++ Expr.mentionsList args
  | .member _ object _ => object.mentions
  | .index _ object index => object.mentions ++ index.mentions
  | .unary _ _ operand => operand.mentions
  | .binary _ _ lhs rhs => lhs.mentions ++ rhs.mentions

/-- The string literals of expressions. -/
def Expr.mentionsList : List Expr → List Mention
  | [] => []
  | e :: es => e.mentions ++ Expr.mentionsList es

/-- The string literals of fields: keys and values. -/
def Expr.mentionsFields : List (String × Expr) → List Mention
  | [] => []
  | (key, value) :: fields =>
    mention key (some !(isShorthand key value)) ++ value.mentions ++ Expr.mentionsFields fields

/-- The string literals of a function. -/
def Function.mentions : Function → List Mention
  | .mk _ _ _ body => Stmt.mentionsList body

/-- The string literals of a statement. -/
def Stmt.mentions : Stmt → List Mention
  | .declare _ _ value => value.mentions
  | .fn _ function => function.mentions
  | .return_ _ none => []
  | .return_ _ (some value) => value.mentions
  | .throw_ _ value => value.mentions
  | .if_ _ cond thenBody none => cond.mentions ++ Stmt.mentionsList thenBody
  | .if_ _ cond thenBody (some elseBody) =>
    cond.mentions ++ Stmt.mentionsList thenBody ++ Stmt.mentionsList elseBody
  | .assign _ target value => target.mentions ++ value.mentions
  | .expr _ value => value.mentions

/-- The string literals of statements. -/
def Stmt.mentionsList : List Stmt → List Mention
  | [] => []
  | s :: ss => s.mentions ++ Stmt.mentionsList ss

end

theorem Expr.mentionsList_eq (es : List Expr) :
    Expr.mentionsList es = es.flatMap Expr.mentions := by
  induction es with
  | nil => rfl
  | cons e es ih => rw [Expr.mentionsList, ih, List.flatMap_cons]

/-- The string literals of a field: its key and its value. -/
def fieldMentions (field : String × Expr) : List Mention :=
  mention field.1 (some !(isShorthand field.1 field.2)) ++ field.2.mentions

theorem Expr.mentionsFields_eq (fields : List (String × Expr)) :
    Expr.mentionsFields fields = fields.flatMap fieldMentions := by
  induction fields with
  | nil => rfl
  | cons field fields ih => rw [Expr.mentionsFields, ih, List.flatMap_cons, fieldMentions]

theorem Stmt.mentionsList_eq (ss : List Stmt) :
    Stmt.mentionsList ss = ss.flatMap Stmt.mentions := by
  induction ss with
  | nil => rfl
  | cons s ss ih => rw [Stmt.mentionsList, ih, List.flatMap_cons]

theorem isShorthand_erase (key : String) (value : Expr) :
    isShorthand key value.erase = isShorthand key value := by
  cases value <;> rfl

mutual

theorem Expr.mentions_erase : ∀ e : Expr, e.erase.mentions = e.mentions
  | .nil _ | .bool _ _ | .num _ _ | .ident _ _ | .str _ _ => rfl
  | .list _ items => Expr.mentions_eraseList items
  | .object _ fields => Expr.mentions_eraseFields fields
  | .fn _ function => Function.mentions_erase function
  | .call _ callee args => by
    simp only [Expr.erase, Expr.mentions, callee.mentions_erase, Expr.mentions_eraseList args]
  | .member _ object _ => object.mentions_erase
  | .index _ object index => by
    simp only [Expr.erase, Expr.mentions, object.mentions_erase, index.mentions_erase]
  | .unary _ _ operand => operand.mentions_erase
  | .binary _ _ lhs rhs => by
    simp only [Expr.erase, Expr.mentions, lhs.mentions_erase, rhs.mentions_erase]

theorem Expr.mentions_eraseList : ∀ es : List Expr,
    Expr.mentionsList (Expr.eraseList es) = Expr.mentionsList es
  | [] => rfl
  | e :: es => by
    simp only [Expr.eraseList, Expr.mentionsList, e.mentions_erase, Expr.mentions_eraseList es]

theorem Expr.mentions_eraseFields : ∀ fields : List (String × Expr),
    Expr.mentionsFields (Expr.eraseFields fields) = Expr.mentionsFields fields
  | [] => rfl
  | (key, value) :: fields => by
    simp only [Expr.eraseFields, Expr.mentionsFields, isShorthand_erase, value.mentions_erase,
      Expr.mentions_eraseFields fields]

theorem Function.mentions_erase : ∀ f : Function, f.erase.mentions = f.mentions
  | .mk _ _ _ body => Stmt.mentions_eraseList body

theorem Stmt.mentions_erase : ∀ s : Stmt, s.erase.mentions = s.mentions
  | .declare _ _ value => value.mentions_erase
  | .fn _ function => function.mentions_erase
  | .return_ _ none => rfl
  | .return_ _ (some value) => value.mentions_erase
  | .throw_ _ value => value.mentions_erase
  | .if_ _ cond thenBody none => by
    simp only [Stmt.erase, Stmt.mentions, cond.mentions_erase, Stmt.mentions_eraseList thenBody]
  | .if_ _ cond thenBody (some elseBody) => by
    simp only [Stmt.erase, Stmt.mentions, cond.mentions_erase, Stmt.mentions_eraseList thenBody,
      Stmt.mentions_eraseList elseBody]
  | .assign _ target value => by
    simp only [Stmt.erase, Stmt.mentions, target.mentions_erase, value.mentions_erase]
  | .expr _ value => value.mentions_erase

theorem Stmt.mentions_eraseList : ∀ ss : List Stmt,
    Stmt.mentionsList (Stmt.eraseList ss) = Stmt.mentionsList ss
  | [] => rfl
  | s :: ss => by
    simp only [Stmt.eraseList, Stmt.mentionsList, s.mentions_erase, Stmt.mentions_eraseList ss]

end

/-! ## The text of a tree -/

/-- The number of string literals that are no words. -/
def oddities : List Spelt → Nat
  | [] => 0
  | .token (.str value) _ :: K => (!isIdentifier value.toList).toNat + oddities K
  | _ :: K => oddities K

/-- Printed tokens `K` against the string literals `M` that a tree is read from: they are as many,
or, unless all variables are words, there is a first key with a colon where the tree has none. -/
def Telling (worded : Prop) (K : List Spelt) (M : List Mention) : Prop :=
  (worded ∧ .raw ∉ K ∧ oddities K = M.length) ∨
    (¬ worded ∧ ∃ K₁ K₂ M₁ M₂ key, isIdentifier key.toList = false ∧
      K = K₁ ++ .token (.str key) none :: mark .colon :: .raw :: K₂ ∧
      M = M₁ ++ (key, some false) :: M₂ ∧ .raw ∉ K₁ ∧ oddities K₁ = M₁.length)

theorem oddities_append (K L : List Spelt) : oddities (K ++ L) = oddities K + oddities L := by
  induction K with
  | nil => simp [oddities]
  | cons s K ih =>
    cases s with
    | raw => simpa [oddities] using ih
    | token t source =>
      cases t with
      | str value => simp only [List.cons_append, oddities, ih, Nat.add_assoc]
      | _ => simpa [oddities] using ih

namespace Telling

variable {w w' : Prop} {K L : List Spelt} {M N : List Mention}

theorem append (h : Telling w K M) (h' : Telling w' L N) :
    Telling (w ∧ w') (K ++ L) (M ++ N) := by
  rcases h with ⟨hw, hK, hM⟩ | ⟨hw, K₁, K₂, M₁, M₂, key, hkey, rfl, rfl, hK₁, hM₁⟩
  · rcases h' with ⟨hw', hL, hN⟩ | ⟨hw', K₁, K₂, M₁, M₂, key, hkey, rfl, rfl, hK₁, hM₁⟩
    · refine .inl ⟨⟨hw, hw'⟩, ?_, ?_⟩
      · simpa using ⟨hK, hL⟩
      · rw [oddities_append, List.length_append, hM, hN]
    · refine .inr ⟨fun h => hw' h.2, K ++ K₁, K₂, M ++ M₁, M₂, key, hkey, ?_, ?_, ?_, ?_⟩
      · rw [List.append_assoc]
      · rw [List.append_assoc]
      · simpa using ⟨hK, hK₁⟩
      · rw [oddities_append, List.length_append, hM, hM₁]
  · refine .inr ⟨fun h => hw h.1, K₁, K₂ ++ L, M₁, M₂ ++ N, key, hkey, ?_, ?_, hK₁, hM₁⟩
    · simp
    · simp

theorem congr (h : Telling w K M) (hw : w ↔ w') : Telling w' K M := propext hw ▸ h

/-- Tokens that are no string literals. -/
theorem plain {K : List Spelt} (hraw : .raw ∉ K) (h : oddities K = 0) : Telling True K [] :=
  .inl ⟨trivial, hraw, h⟩

theorem cons {t : Token} {s : Option Pos} (ht : ∀ value, t ≠ .str value)
    (h : Telling w K M) : Telling w (.token t s :: K) M := by
  have hodd : oddities [.token t s] = 0 := by
    cases t with
    | str value => exact absurd rfl (ht value)
    | _ => rfl
  exact ((plain (by simp) hodd).append h).congr ⟨And.right, fun h => ⟨trivial, h⟩⟩

theorem mark_cons (m : Mark) (h : Telling w K M) : Telling w (mark m :: K) M :=
  h.cons (by rintro _ ⟨⟩)

theorem keyword_cons (k : Keyword) (h : Telling w K M) : Telling w (keyword k :: K) M :=
  h.cons (by rintro _ ⟨⟩)

theorem snoc {m : Mark} (h : Telling w K M) : Telling w (K ++ [mark m]) M := by
  have h' := h.append (plain (K := [mark m]) (by simp [mark]) rfl)
  rw [List.append_nil] at h'
  exact h'.congr ⟨And.left, fun h => ⟨h, trivial⟩⟩

theorem parenthesize {needed : Bool} (h : Telling w K M) :
    Telling w (Spelt.parenthesize needed K) M := by
  unfold Spelt.parenthesize
  split
  · exact (Telling.cons (by rintro _ ⟨⟩) h).snoc
  · exact h

theorem word (w : String) : Telling True [.word w] [] := by
  refine plain (by simp [Spelt.word]) ?_
  unfold Spelt.word Token.ofWord
  split <;> rfl

theorem append_nil (h : Telling w K M) (h' : Telling True L []) : Telling w (K ++ L) M := by
  have h'' := h.append h'
  rw [List.append_nil] at h''
  exact h''.congr ⟨And.left, fun h => ⟨h, trivial⟩⟩

theorem nil_append (h : Telling True K []) (h' : Telling w L N) : Telling w (K ++ L) N :=
  (h.append h').congr ⟨And.right, fun h => ⟨trivial, h⟩⟩

end Telling

theorem telling_string {value : String} {source : Option Pos} {colon : Option Bool} :
    Telling True [.token (.str value) source] (mention value colon) := by
  refine .inl ⟨trivial, by simp, ?_⟩
  simp only [oddities, mention]
  cases isIdentifier value.toList <;> rfl

theorem telling_key {name : String} {colon : Option Bool} :
    Telling True [Spelt.key name] (mention name colon) := by
  unfold Spelt.key
  split
  · rename_i h
    rw [mention, if_pos h]
    exact .word name
  · exact telling_string

theorem telling_number (x : Float) (source : Option Pos) :
    Telling True [.token (numberToken x) source] [] := by
  refine .plain (by simp) ?_
  unfold numberToken
  split <;> rfl

theorem telling_names (ns : List String) : Telling True (names ns) [] := by
  induction ns with
  | nil => exact .plain (by simp [names]) rfl
  | cons n ns ih =>
    cases ns with
    | nil => exact .word n
    | cons n' ns => exact (Telling.word n).nil_append (Telling.cons (by rintro _ ⟨⟩) ih)

/-- The value of a field that has none in the source. -/
theorem telling_shorthand {key : String} {pos : Pos} (hkey : isIdentifier key.toList = false) :
    Telling (IsWord key) (Spelt.key key :: mark .colon :: (Expr.ident pos key).spelt)
      (mention key (some false)) := by
  have hne : ¬ isIdentifier key.toList = true := by simp [hkey]
  refine .inr ⟨hne, [], [], [], [], key, hkey, ?_, ?_, by simp, rfl⟩
  · rw [Spelt.key, if_neg hne, Expr.spelt, if_neg hne]
    rfl
  · rw [mention, if_neg hne]
    rfl

theorem isShorthand_of_built {key : String} {value : Expr} (hkey : isIdentifier key.toList = false)
    (h : value.Built) : isShorthand key value = false := by
  cases value with
  | ident pos name =>
    rw [isShorthand, beq_eq_false_iff_ne]
    intro he
    have hname : isIdentifier name.toList = true := h.1
    rw [he, hkey] at hname
    cases hname
  | _ => rfl

theorem telling_word {name : String} (h : IsWord name) (pos : Pos) :
    Telling (IsWord name) (Expr.ident pos name).spelt [] := by
  rw [spelt_ident h]
  refine (Telling.plain (by simp) ?_).congr ⟨fun _ => h, fun _ => trivial⟩
  unfold Token.ofWord
  split <;> rfl

theorem telling_field {key : String} {value : Expr} (h : FieldBuilt (key, value))
    (hvalue : value.Built → Telling (value.Every worded) value.spelt value.mentions) :
    Telling (value.Every worded) (Spelt.key key :: mark .colon :: value.spelt)
      (mention key (some !(isShorthand key value)) ++ value.mentions) := by
  rcases h with ⟨pos, hvar⟩ | hbuilt
  · obtain rfl : value = .ident pos key := hvar
    have hshort : isShorthand key (.ident pos key) = true := beq_self_eq_true key
    rw [hshort, Expr.mentions, List.append_nil]
    by_cases hkey : isIdentifier key.toList = true
    · have hmention : mention key (some !true) = mention key none := by
        rw [mention, mention, if_pos hkey, if_pos hkey]
      have hword := Telling.mark_cons .colon
        (telling_word hkey pos)
      have hkey : Telling True [Spelt.key key] (mention key (some !true)) := telling_key
      have hfield := hkey.append hword
      rw [List.append_nil] at hfield
      exact hfield.congr ⟨And.right, fun h => ⟨trivial, h⟩⟩
    · exact telling_shorthand (by simpa using hkey)
  · exact (telling_key.append (Telling.cons (by rintro _ ⟨⟩) (hvalue hbuilt))).congr
      ⟨And.right, fun h => ⟨trivial, h⟩⟩

mutual

theorem Expr.telling : ∀ {e : Expr}, e.Built → Telling (e.Every worded) e.spelt e.mentions
  | .nil _, _ => .plain (by simp [Expr.spelt]) rfl
  | .bool _ _, _ => .plain (by simp [Expr.spelt]) rfl
  | .num _ value, _ => telling_number value _
  | .str _ _, _ => telling_string
  | .ident pos name, h => by
    rw [spelt_ident h.1]
    refine (Telling.plain (by simp) ?_).congr ⟨fun _ => h.1, fun _ => trivial⟩
    rw [Token.ofWord, h.2]
    rfl
  | .list _ _, h => (Telling.cons (by rintro _ ⟨⟩) (Expr.tellingList h)).snoc
  | .object _ _, h =>
    have hnil : Telling True [] [] := .plain (by simp) rfl
    (Telling.cons (by rintro _ ⟨⟩) (Expr.tellingFields hnil h)).snoc
  | .fn _ _, h => Function.telling h.2
  | .call _ callee args, h => by
    rw [Expr.spelt, List.append_assoc, List.cons_append]
    exact (Expr.telling h.1).parenthesize.append
      (Telling.cons (by rintro _ ⟨⟩) (Expr.tellingList h.2).snoc)
  | .member _ object name, h => by
    rw [Expr.spelt]
    exact (Expr.telling (e := object) h.1).parenthesize.append_nil
      (Telling.cons (by rintro _ ⟨⟩) (.word name))
  | .index _ object index, h => by
    rw [Expr.spelt, List.append_assoc, List.cons_append]
    exact (Expr.telling h.1).parenthesize.append
      (Telling.cons (by rintro _ ⟨⟩) (Expr.telling h.2).snoc)
  | .unary _ _ operand, h =>
    Telling.cons (by rintro _ ⟨⟩) (Expr.telling (e := operand) h).parenthesize
  | .binary _ _ _ _, h => by
    rw [Expr.spelt, List.append_assoc, List.cons_append, List.cons_append]
    exact Telling.cons (by rintro _ ⟨⟩) ((Expr.telling h.2.1).append
      (Telling.cons (by rintro _ ⟨⟩) (Expr.telling h.2.2).snoc))

theorem Expr.tellingList : ∀ {es : List Expr}, Expr.BuiltList es →
    Telling (Expr.EveryList worded es) (Expr.speltList es) (Expr.mentionsList es)
  | [], _ => .plain (by simp [Expr.speltList]) rfl
  | [_], h => by
    rw [Expr.mentionsList, Expr.mentionsList, List.append_nil]
    exact (Expr.telling h.1).congr ⟨fun hw => ⟨hw, trivial⟩, And.left⟩
  | _ :: _ :: _, h =>
    (Expr.telling h.1).append (Telling.mark_cons .comma (Expr.tellingList h.2))

theorem Expr.tellingFields : ∀ {fields : List (String × Expr)} {before : List Spelt},
    Telling True before [] → Expr.BuiltFields fields →
    Telling (Expr.EveryFields worded fields) (Expr.speltFields before fields)
      (Expr.mentionsFields fields)
  | [], _, _, _ => .plain (by simp [Expr.speltFields]) rfl
  | (_, _) :: fields, _, hb, h =>
    have hcomma : Telling True [mark .comma] [] := .plain (by simp [mark]) rfl
    ((hb.nil_append (telling_field h.1 Expr.telling)).append
      (Expr.tellingFields hcomma h.2)).congr ⟨fun hw => ⟨trivial, hw⟩, And.right⟩

theorem Function.telling : ∀ {f : Function}, f.Built →
    Telling (f.Every worded) f.spelt f.mentions
  | .mk pos name params body, h => by
    have hbody := (Telling.mark_cons .rparen
      (Telling.mark_cons .lbrace
        (Stmt.tellingList h.2.2))).snoc (m := .rbrace)
    have hparams := Telling.mark_cons .lparen
      ((telling_names params).nil_append hbody)
    have hname : Telling True (name.toList.map word) [] := by
      cases name with
      | none => exact .plain (by simp) rfl
      | some n => exact .word n
    have hfn := Telling.cons (s := some pos) (t := .keyword .fn) (by rintro _ ⟨⟩)
      (hname.nil_append hparams)
    simpa only [Function.spelt, Function.Every, Function.mentions, mark, List.cons_append,
      List.append_assoc] using hfn

theorem Stmt.telling : ∀ {s : Stmt}, s.Built → Telling (s.Every worded) s.spelt s.mentions
  | .declare _ name value, h => by
    have hvalue := (Telling.mark_cons .assign
      (Expr.telling h.2)).snoc (m := .semi)
    exact (Telling.cons (by rintro _ ⟨⟩) ((Telling.word name).nil_append hvalue)).congr
      ⟨fun hw => ⟨trivial, hw⟩, And.right⟩
  | .fn _ _, h => Function.telling h.2
  | .return_ _ none, _ => .plain (by simp [Stmt.spelt, mark]) rfl
  | .return_ _ (some value), h =>
    (Telling.cons (by rintro _ ⟨⟩) (Expr.telling (e := value) h)).snoc
  | .throw_ _ value, h => (Telling.cons (by rintro _ ⟨⟩) (Expr.telling (e := value) h)).snoc
  | .if_ pos cond thenBody none, h => by
    have hthen := (Telling.mark_cons .rparen
      (Telling.mark_cons .lbrace
        (Stmt.tellingList h.2))).snoc (m := .rbrace)
    have hif := Telling.cons (s := some pos) (t := .keyword .if_) (by rintro _ ⟨⟩)
      (Telling.mark_cons .lparen
        ((Expr.telling h.1).append hthen))
    simpa only [Stmt.spelt, Stmt.Every, Stmt.mentions, mark, List.cons_append,
      List.append_assoc] using hif
  | .if_ pos cond thenBody (some elseBody), h => by
    have helse := (Telling.mark_cons .rbrace
      (Telling.keyword_cons .else_
        (Telling.mark_cons .lbrace
          (Stmt.tellingList h.2.2)))).snoc (m := .rbrace)
    have hthen := Telling.mark_cons .rparen
      (Telling.mark_cons .lbrace
        ((Stmt.tellingList h.2.1).append helse))
    have hif := Telling.cons (s := some pos) (t := .keyword .if_) (by rintro _ ⟨⟩)
      (Telling.mark_cons .lparen
        ((Expr.telling h.1).append hthen))
    simpa only [Stmt.spelt, Stmt.Every, Stmt.mentions, mark, keyword, List.cons_append,
      List.append_assoc] using hif
  | .assign _ _ _, h => by
    have hvalue := (Telling.mark_cons .assign
      (Expr.telling h.2.2)).snoc (m := .semi)
    have hassign := (Expr.telling h.2.1).append hvalue
    simpa only [Stmt.spelt, Stmt.Every, Stmt.mentions, mark, List.cons_append,
      List.append_assoc] using hassign
  | .expr _ _, h => (Expr.telling h).snoc.congr ⟨fun hw => ⟨trivial, hw⟩, And.right⟩

theorem Stmt.tellingList : ∀ {ss : List Stmt}, Stmt.BuiltList ss →
    Telling (Stmt.EveryList worded ss) (Stmt.speltList ss) (Stmt.mentionsList ss)
  | [], _ => .plain (by simp [Stmt.speltList]) rfl
  | _ :: _, h => (Stmt.telling h.1).append (Stmt.tellingList h.2)

end

/-! ## What readers mention -/

open Reader

/-- String literals among tokens are those of a tree. -/
def Agrees : List (String × Bool) → List Mention → Prop :=
  List.Forall₂ fun s m => s.1 = m.1 ∧ ∀ b, m.2 = some b → s.2 = b

theorem mentions_plain {c : Cursor} (h : ∀ value, c.token ≠ .str value) :
    mentions c.rest = mentions c.advance.rest := by
  by_cases heof : c.token.isEof = true
  · unfold Cursor.advance Cursor.token at *
    split
    · rfl
    · rename_i l ls hc
      simp only [hc] at heof
      rw [if_pos heof]
  · obtain ⟨l, hl⟩ := Cursor.advance_rest (c := c) (by simpa using heof)
    have htoken : c.token = l.token := by rw [Cursor.token, hl]
    rw [hl, mentions]
    split
    · rename_i value hv
      exact absurd (htoken.trans hv) (h value)
    · rfl

/-- A string literal among tokens, unless it is a word. -/
def written (value : String) (colon : Bool) : List (String × Bool) :=
  if isIdentifier value.toList then [] else [(value, colon)]

theorem agrees_written {value : String} {colon : Bool} {m : Option Bool}
    (h : ∀ b, m = some b → colon = b) : Agrees (written value colon) (mention value m) := by
  unfold written mention
  split
  · exact .nil
  · exact .cons ⟨rfl, h⟩ .nil

theorem mentions_str {c : Cursor} {value : String} (h : c.token = .str value) :
    mentions c.rest = written value (c.advance.token.isMark .colon) ++ mentions c.advance.rest := by
  obtain ⟨l, hl⟩ := Cursor.advance_rest (c := c) (by rw [h]; rfl)
  have htoken : l.token = .str value := by rw [← h, Cursor.token, hl]
  rw [hl, mentions, htoken]
  by_cases hword : isIdentifier value.toList = true
  · simp only [written, if_pos hword, List.nil_append]
  · simp only [written, if_neg hword, List.singleton_append]
    rfl

section

variable {α β : Type} {c : Cursor} {M : α → List (String × Bool) → Prop}

/-- If the reader succeeds, the string literals among the tokens that it takes are as `M` says. -/
def Writes (c : Cursor) (M : α → List (String × Bool) → Prop) (x : Reader α) : Prop :=
  c.Lexical → ∀ a c', x c = .ok (a, c') →
    c'.Lexical ∧ ∃ S, mentions c.rest = S ++ mentions c'.rest ∧ M a S

namespace Writes

theorem pure {a : α} (h : M a []) : Writes c M (pure a) := by
  rintro hc a c' ⟨⟩
  exact ⟨hc, [], rfl, h⟩

theorem unexpected (e : Expected) : Writes c M (Reader.unexpected e) := by
  rintro _ a c' ⟨⟩

theorem fail (fault : Fault) (pos : Pos) : Writes c M (Reader.fail fault pos) := by
  rintro _ a c' ⟨⟩

theorem imp {N : α → List (String × Bool) → Prop} {x : Reader α} (h : Writes c M x)
    (hn : ∀ a S, M a S → N a S) : Writes c N x := by
  intro hc a c' hr
  obtain ⟨hc', S, hS, hM⟩ := h hc a c' hr
  exact ⟨hc', S, hS, hn a S hM⟩

variable {N : β → List (String × Bool) → Prop}

theorem token {f : Token → Reader β} (h : Writes c N (f c.token)) :
    Writes c N (Reader.token >>= f) := h

theorem here {f : Pos → Reader β} (h : Writes c N (f c.pos)) : Writes c N (Reader.here >>= f) := h

theorem get {f : Cursor → Reader β} (h : Writes c N (f c)) :
    Writes c N ((MonadState.get : Reader Cursor) >>= f) := h

theorem check {mark : Mark} {f : Bool → Reader β} (h : Writes c N (f (c.token.isMark mark))) :
    Writes c N (Reader.check mark >>= f) := h

theorem checkKeyword {k : Keyword} {f : Bool → Reader β}
    (h : Writes c N (f (c.token.isKeyword k))) : Writes c N (Reader.checkKeyword k >>= f) := h

theorem after {f g : Reader β} (ht : ∀ value, c.token ≠ .str value) (hf : f c = g c.advance)
    (h : Writes c.advance N g) : Writes c N f := by
  intro hc b c' hr
  obtain ⟨hc', S, hS, hN⟩ := h ((Cursor.took_advance_zero c).lexical hc) b c' (hf ▸ hr)
  exact ⟨hc', S, (mentions_plain ht).trans hS, hN⟩

/-- A token passed that is no string literal. -/
theorem advance {f : Unit → Reader β} (ht : ∀ value, c.token ≠ .str value)
    (h : Writes c.advance N (f ())) : Writes c N (Reader.advance >>= f) :=
  after ht rfl h

/-- A string literal passed. -/
theorem advance_str {f : Unit → Reader β} {value : String} (ht : c.token = .str value)
    (h : Writes c.advance
      (fun b S => N b (written value (c.advance.token.isMark .colon) ++ S)) (f ())) :
    Writes c N (Reader.advance >>= f) := by
  intro hc b c' hr
  obtain ⟨hc', S, hS, hN⟩ := h ((Cursor.took_advance_zero c).lexical hc) b c' hr
  exact ⟨hc', _, by rw [mentions_str ht, hS, List.append_assoc], hN⟩

theorem and_takes {x : Reader α} {n : Nat} {P : α → Prop} (h : Writes c M x)
    (ht : TakesAt c n P x) : Writes c (fun a S => P a ∧ M a S) x := by
  intro hc a c' hr
  obtain ⟨hc', S, hS, hM⟩ := h hc a c' hr
  exact ⟨hc', S, hS, (ht a c' hr).2 hc, hM⟩

theorem not_str_of_isMark {t : Token} {m : Mark} (h : t.isMark m = true) (value : String) :
    t ≠ .str value := by
  rintro rfl
  cases h

theorem not_str_of_isKeyword {t : Token} {k : Keyword} (h : t.isKeyword k = true)
    (value : String) : t ≠ .str value := by
  rintro rfl
  cases h

theorem eat {mark : Mark} {f : Bool → Reader β}
    (ht : c.token.isMark mark = true → Writes c.advance N (f true))
    (hf : c.token.isMark mark = false → Writes c N (f false)) :
    Writes c N (Reader.eat mark >>= f) := by
  by_cases hm : c.token.isMark mark = true
  · exact after (not_str_of_isMark hm) (by rw [eat_bind, if_pos hm]) (ht hm)
  · intro hc b c' hr
    rw [eat_bind, if_neg hm] at hr
    exact hf (by simpa using hm) hc b c' hr

theorem expect {mark : Mark} {f : Unit → Reader β} (h : Writes c.advance N (f ())) :
    Writes c N (Reader.expect mark >>= f) := by
  by_cases hm : c.token.isMark mark = true
  · exact after (not_str_of_isMark hm) (by rw [expect_bind, if_pos hm]) h
  · intro hc b c' hr
    rw [expect_bind, if_neg hm] at hr
    cases hr

theorem expectKeyword {k : Keyword} {f : Unit → Reader β} (h : Writes c.advance N (f ())) :
    Writes c N (Reader.expectKeyword k >>= f) := by
  by_cases hk : c.token.isKeyword k = true
  · exact after (not_str_of_isKeyword hk) (by rw [expectKeyword_bind, if_pos hk]) h
  · intro hc b c' hr
    rw [expectKeyword_bind, if_neg hk] at hr
    cases hr

theorem bind {x : Reader α} {f : α → Reader β} (hx : Writes c M x)
    (hf : ∀ a c' S, M a S → Writes c' (fun b S' => N b (S ++ S')) (f a)) :
    Writes c N (x >>= f) := by
  intro hc b c' hr
  rw [bind_apply] at hr
  cases hxc : x c with
  | error e => simp [hxc, Except.bind] at hr
  | ok r =>
    obtain ⟨a, c₁⟩ := r
    simp only [hxc, Except.bind] at hr
    obtain ⟨hc₁, S, hS, hM⟩ := hx hc a c₁ hxc
    obtain ⟨hc', S', hS', hN⟩ := hf a c₁ S hM hc₁ b c' hr
    exact ⟨hc', S ++ S', by rw [hS, hS', List.append_assoc], hN⟩

/-- A reader that mentions nothing, and what comes after it. -/
theorem silent {x : Reader α} {f : α → Reader β} (hx : Writes c (fun _ S => S = []) x)
    (hf : ∀ a c', Writes c' N (f a)) : Writes c N (x >>= f) :=
  hx.bind fun a c' S hS => by
    rw [hS]
    exact hf a c'

/-- What every round keeps holds after the repetition. -/
theorem loop {σ : Type} {round : σ → Reader (Round σ)} {I : σ → List (String × Bool) → Prop}
    (h : Advances round)
    (hr : ∀ s c S, I s S → Writes c (fun r S' => I r.state (S ++ S')) (round s)) (s : σ)
    (c : Cursor) (S : List (String × Bool)) (hs : I s S) :
    Writes c (fun s' S' => I s' (S ++ S')) (Reader.loop round s) := by
  intro hc s' c' hl
  refine loop_ok (I := fun s₁ c₁ => c₁.Lexical ∧
    ∃ S', mentions c.rest = S' ++ mentions c₁.rest ∧ I s₁ (S ++ S')) h ?_
    ⟨hc, [], rfl, by rwa [List.append_nil]⟩ hl
  rintro s₁ c₁ r c₂ ⟨hc₁, S₁, hS₁, hI⟩ hround
  obtain ⟨hc₂, S₂, hS₂, hI'⟩ := hr s₁ c₁ _ hI hc₁ r c₂ hround
  exact ⟨hc₂, S₁ ++ S₂, by rw [hS₁, hS₂, List.append_assoc], by rwa [← List.append_assoc]⟩

/-- What the rounds of a list mention. -/
theorem collect {pick : Reader (Pick α)} {f : α → List Mention} (h : Pick.Advances pick)
    (hp : ∀ c, Writes c (fun r S => Agrees S (r.added.flatMap f)) pick) (c : Cursor) :
    Writes c (fun xs S => Agrees S (xs.flatMap f)) (Reader.collect pick) := by
  intro hc xs c' hr
  refine collect_ok (I := fun xs c₁ => c₁.Lexical ∧
    ∃ S, mentions c.rest = S ++ mentions c₁.rest ∧ Agrees S (xs.flatMap f)) h ?_
    ⟨hc, [], rfl, .nil⟩ hr
  rintro xs c₁ r c₂ ⟨hc₁, S₁, hS₁, hxs⟩ hpick
  obtain ⟨hc₂, S₂, hS₂, hr⟩ := hp c₁ hc₁ r c₂ hpick
  refine ⟨hc₂, S₁ ++ S₂, by rw [hS₁, hS₂, List.append_assoc], ?_⟩
  rw [List.flatMap_append]
  exact List.rel_append hxs hr

theorem commaList {close : Mark} {item : Reader α} {f : α → List Mention} {P : α → Prop}
    (ht : ∀ c, TakesAt c 0 P item) (h : ∀ c, Writes c (fun x S => Agrees S (f x)) item)
    (c : Cursor) :
    Writes c (fun xs S => Agrees S (xs.flatMap f)) (Reader.commaList close item) := by
  rw [commaList_eq_collect]
  refine collect (advances_commaPick ht) (fun c => .check ?_) c
  split
  · exact .pure .nil
  · refine (h c).bind fun x c' S hS => .eat (fun _ => .pure ?_) (fun _ => .pure ?_) <;>
      simpa [Pick.added] using hS

end Writes

end

/-! ## The readers of the grammar -/

theorem Agrees.append {S T : List (String × Bool)} {F G : List Mention} (h : Agrees S F)
    (h' : Agrees T G) : Agrees (S ++ T) (F ++ G) := List.rel_append h h'

section

variable {c : Cursor}

theorem writes_ident (e : Expected) : Writes c (fun _ S => S = []) (ident e) := by
  refine .token ?_
  split
  · rename_i ht
    exact .advance (by rw [ht]; rintro _ ⟨⟩) (.pure rfl)
  · exact .unexpected _

theorem writes_propertyName : Writes c (fun _ S => S = []) propertyName := by
  refine .token ?_
  split
  · rename_i ht
    exact .advance (by rw [ht]; rintro _ ⟨⟩) (.pure rfl)
  · rename_i ht
    exact .advance (by rw [ht]; rintro _ ⟨⟩) (.pure rfl)
  · exact .unexpected _

theorem writes_endStatement : Writes c (fun _ S => S = []) endStatement := by
  refine .eat (fun _ => .pure rfl) (fun _ => .get ?_)
  split
  · exact .pure rfl
  · exact .unexpected _

theorem writes_bracketsRound (u : Unit) :
    Writes c (fun _ S => S = []) (bracketsRound u) := by
  intro hc r c' hr
  rw [bracketsRound_eq] at hr
  split at hr
  · rename_i hm
    rw [Bool.and_eq_true] at hm
    cases hr
    have hc₁ := (Cursor.took_advance_zero c).lexical hc
    have hsecond : ∀ value, c.advance.token ≠ .str value := by
      obtain ⟨l, hl⟩ := Cursor.advance_rest (Cursor.isEof_of_isMark hm.1)
      intro value hv
      have h2 := hm.2
      unfold Cursor.second at h2
      unfold Cursor.token at hv
      rw [hl] at h2
      cases hrest : c.advance.rest with
      | nil => simp [hrest] at hv
      | cons l' ls => simp_all [Token.isMark]
    refine ⟨(Cursor.took_advance_zero _).lexical hc₁, [], ?_, rfl⟩
    rw [mentions_plain (Writes.not_str_of_isMark hm.1), mentions_plain hsecond]
    rfl
  · cases hr
    exact ⟨hc, [], rfl, rfl⟩

theorem writes_skipped : Writes c (fun _ S => S = []) skipAnnotation := by
  refine .eat (fun _ => ?_) (fun _ => .pure rfl)
  have hbrackets (c : Cursor) : Writes c (fun _ S => S = []) (Reader.loop bracketsRound ()) :=
    (Writes.loop (I := fun _ S => S = []) advances_bracketsRound
      (fun u c S hS => (writes_bracketsRound u).imp fun _ S' hS' => by rw [hS, hS']; rfl) () c []
      rfl).imp fun _ _ hS => hS
  have hname (c : Cursor) (h : ∀ value, c.token ≠ .str value) :
      Writes c (fun _ S => S = []) (do
        advance
        Reader.loop bracketsRound ()) := .advance h (hbrackets _)
  refine .token ?_
  split
  · rename_i ht
    exact hname _ (by rw [ht]; rintro _ ⟨⟩)
  · rename_i ht
    exact hname _ (by rw [ht]; rintro _ ⟨⟩)
  · exact Writes.silent (.unexpected _) fun _ c' => hbrackets c'

end

namespace Nested

/-- What the readers of a nesting level mention is what their trees mention. -/
structure Tells (inner : Nested) : Prop where
  block : ∀ c, Writes c (fun ss S => Agrees S (Stmt.mentionsList ss)) inner.block
  conditional : ∀ c, Writes c (fun s S => Agrees S s.mentions) inner.conditional
  operand : ∀ c, Writes c (fun e S => Agrees S e.mentions) inner.operand

variable {inner : Nested} {c : Cursor}

theorem writes_chainPick (h : inner.Tells) :
    Writes c (fun r S => Agrees S (r.added.flatMap fun r => r.2.mentions)) (chainPick inner) := by
  refine .token ?_
  split
  · exact .pure .nil
  · rename_i op hop
    refine .advance (fun value hv => ?_) ?_
    · rw [hv] at hop
      cases hop
    · refine (h.operand _).bind fun rhs c' S hS => .pure ?_
      simpa [Pick.added] using hS

theorem writes_expression (hb : inner.Builds) (h : inner.Tells) :
    Writes c (fun e S => Agrees S e.mentions) inner.expression := by
  rw [expression_eq hb.shrinks]
  refine (h.operand c).bind fun first c' S hS => ?_
  refine (Writes.collect (advances_chainPick hb.shrinks) (fun c => writes_chainPick h) c').bind
    fun rest c'' S' hS' => .pure ?_
  rw [flatMap_assemble (f := Expr.mentions) (fun _ _ _ _ => rfl), List.append_nil]
  exact hS.append hS'

theorem writes_arguments (hb : inner.Builds) (h : inner.Tells) (close : Mark) :
    Writes c (fun es S => Agrees S (Expr.mentionsList es)) (inner.arguments close) := by
  refine (Writes.commaList (f := Expr.mentions)
    (fun c => (takesAt_expression hb c).mono (Nat.zero_le 1))
    (fun c => writes_expression hb h) c).bind fun items c' S hS => .expect (.pure ?_)
  rw [Expr.mentionsList_eq, List.append_nil]
  exact hS

theorem writes_function (h : inner.Tells) :
    Writes c (fun f S => Agrees S f.mentions) inner.function := by
  have htail (pos : Pos) (name : Option String) (c : Cursor) :
      Writes c (fun f S => Agrees S f.mentions) (do
        expect .lparen
        let params ← commaList .rparen parameter
        expect .rparen
        skipAnnotation
        let body ← inner.block
        return Function.mk pos name params body) := by
    have hparams (c : Cursor) : Writes c (fun _ S => S = []) (commaList .rparen parameter) := by
      refine (Writes.commaList (f := fun _ => []) takesAt_parameter (fun c => ?_) c).imp
        fun ps S hS => ?_
      · refine (writes_ident _).silent fun param c' => writes_skipped.silent fun _ c'' => ?_
        exact .pure .nil
      · have hnil : (ps.flatMap fun _ => []) = ([] : List Mention) := by simp
        rw [hnil] at hS
        exact List.forall₂_nil_right_iff.mp hS
    refine .expect ((hparams _).silent fun params c' => .expect ?_)
    refine writes_skipped.silent fun _ c'' => ?_
    refine (h.block _).bind fun body c₃ S hS => .pure ?_
    rwa [List.append_nil]
  refine .here (.expectKeyword (.token ?_))
  split
  · rename_i ht
    exact .advance (by rw [ht]; rintro _ ⟨⟩) (htail _ _ _)
  · exact htail _ _ _

theorem writes_field (hb : inner.Builds) (h : inner.Tells) :
    Writes c (fun field S => Agrees S (fieldMentions field)) inner.field := by
  -- A value in the source is a tree of the grammar, so it is not the variable of an odd key.
  have htail (pos : Pos) (key : String) (c : Cursor) :
      Writes c (fun field S =>
        Agrees (written key (c.token.isMark .colon) ++ S) (fieldMentions field)) (do
          if ← eat .colon then
            return (key, ← inner.expression)
          else
            return (key, .ident pos key)) := by
    refine .eat (fun hm => ?_) (fun hm => .pure ?_)
    · have hvalue := (writes_expression hb h).and_takes (takesAt_expression hb c.advance)
      rw [if_pos rfl]
      refine hvalue.bind fun value c' S hS => .pure ?_
      rw [List.append_nil, hm]
      refine Agrees.append ?_ hS.2
      by_cases hkey : isIdentifier key.toList = true
      · rw [written, mention, if_pos hkey, if_pos hkey]
        exact .nil
      · rw [isShorthand_of_built (by simpa using hkey) hS.1]
        exact agrees_written fun b hb => Option.some.inj hb
    · have hshort : isShorthand key (.ident pos key) = true := beq_self_eq_true key
      rw [hm]
      refine Agrees.append ?_ .nil
      change Agrees _ (mention key (some !(isShorthand key (.ident pos key))))
      rw [hshort]
      exact agrees_written fun b hb => Option.some.inj hb
  refine .here (.token ?_)
  split
  · rename_i key ht
    exact .advance_str ht (htail c.pos key _)
  · refine (writes_propertyName.and_takes (takesAt_propertyName c)).bind fun key c' S hS => ?_
    refine (htail c.pos key c').imp fun field S' hS' => ?_
    rwa [written, if_pos hS.1.1, ← hS.2] at hS'

theorem writes_primary (hb : inner.Builds) (h : inner.Tells) :
    Writes c (fun e S => Agrees S e.mentions) inner.primary := by
  refine .here (.token ?_)
  split
  · rename_i ht
    exact .advance (by rw [ht]; rintro _ ⟨⟩) (.pure .nil)
  · rename_i value ht
    refine .advance_str ht (.pure ?_)
    rw [List.append_nil]
    exact agrees_written fun b hb => by cases hb
  · rename_i ht
    exact .advance (by rw [ht]; rintro _ ⟨⟩) (.pure .nil)
  · rename_i ht
    exact .advance (by rw [ht]; rintro _ ⟨⟩) (.pure .nil)
  · rename_i ht
    exact .advance (by rw [ht]; rintro _ ⟨⟩) (.pure .nil)
  · rename_i ht
    exact .advance (by rw [ht]; rintro _ ⟨⟩) (.pure .nil)
  · refine (writes_function h).bind fun f c' S hS => .pure ?_
    rwa [List.append_nil]
  · rename_i ht
    refine .advance (by rw [ht]; rintro _ ⟨⟩) ?_
    refine (writes_expression hb h).bind fun e c' S hS => .expect (.pure ?_)
    rwa [List.append_nil]
  · rename_i ht
    refine .advance (by rw [ht]; rintro _ ⟨⟩) ?_
    refine (writes_arguments hb h .rbracket).bind fun items c' S hS => .pure ?_
    rwa [List.append_nil]
  · rename_i ht
    refine .advance (by rw [ht]; rintro _ ⟨⟩) ?_
    refine (Writes.commaList (f := fieldMentions)
      (fun c => (takesAt_field hb c).mono (Nat.zero_le 1)) (fun c => writes_field hb h) _).bind
        fun fields c' S hS => .expect (.pure ?_)
    rw [List.append_nil, Expr.mentions, Expr.mentionsFields_eq]
    exact hS
  · exact .unexpected _

theorem writes_accessRound (hb : inner.Builds) (h : inner.Tells) (e : Expr)
    (S : List (String × Bool)) (hS : Agrees S e.mentions) :
    Writes c (fun r S' => Agrees (S ++ S') r.state.mentions) (accessRound inner e) := by
  have hdone (hr : accessRound inner e c = .ok (.done e, c)) :
      Writes c (fun r S' => Agrees (S ++ S') r.state.mentions) (accessRound inner e) := by
    intro hc r c' hr'
    rw [hr] at hr'
    cases hr'
    refine ⟨hc, [], rfl, ?_⟩
    change Agrees (S ++ []) e.mentions
    rwa [List.append_nil]
  cases ht : c.token with
  | mark m =>
    cases m with
    | lparen =>
      refine .here (.token ?_)
      rw [ht]
      refine .advance (by rw [ht]; rintro _ ⟨⟩) ?_
      refine (writes_arguments hb h .rparen).bind fun args c' S' hS' => .pure ?_
      rw [List.append_nil]
      exact hS.append hS'
    | dot =>
      refine .here (.token ?_)
      rw [ht]
      refine .advance (by rw [ht]; rintro _ ⟨⟩) ?_
      refine writes_propertyName.silent fun name c' => .pure ?_
      rw [List.append_nil]
      exact hS
    | lbracket =>
      refine .here (.token ?_)
      rw [ht]
      refine .advance (by rw [ht]; rintro _ ⟨⟩) ?_
      refine (writes_expression hb h).bind fun index c' S' hS' => .expect (.pure ?_)
      rw [List.append_nil]
      exact hS.append hS'
    | _ =>
      refine hdone ?_
      rw [accessRound, here_bind, token_bind, ht]
      rfl
  | _ =>
    refine hdone ?_
    rw [accessRound, here_bind, token_bind, ht]
    rfl

theorem writes_operandBody (hb : inner.Builds) (h : inner.Tells) :
    Writes c (fun e S => Agrees S e.mentions) inner.operandBody := by
  refine .here (.token ?_)
  split
  · rename_i ht
    refine .advance (by rw [ht]; rintro _ ⟨⟩) ?_
    refine (h.operand _).bind fun operand c' S hS => .pure ?_
    rwa [List.append_nil]
  · rename_i ht
    refine .advance (by rw [ht]; rintro _ ⟨⟩) ?_
    refine (h.operand _).bind fun operand c' S hS => .pure ?_
    rwa [List.append_nil]
  · rw [accesses_eq]
    refine (writes_primary hb h).bind fun e c' S hS => ?_
    exact Writes.loop (I := fun e S => Agrees S e.mentions) (advances_accessRound hb)
      (fun e c S hS => writes_accessRound hb h e S hS) e c' S hS

theorem writes_declaration (hb : inner.Builds) (h : inner.Tells) :
    Writes c (fun r S => Agrees S r.2.mentions) inner.declaration := by
  refine (writes_ident _).silent fun name c₁ => writes_skipped.silent fun _ c₂ => ?_
  refine .expect ((writes_expression hb h).bind fun value c₃ S hS => ?_)
  refine writes_endStatement.silent fun _ c₄ => .pure ?_
  rwa [List.append_nil]

theorem writes_expressionStatement (hb : inner.Builds) (h : inner.Tells) (pos : Pos) :
    Writes c (fun s S => Agrees S s.mentions) (inner.expressionStatement pos) := by
  refine (writes_expression hb h).bind fun e c₁ S hS => .eat (fun _ => ?_) (fun _ => ?_)
  · have hassign : Writes c₁.advance (fun s S' => Agrees (S ++ S') s.mentions) (do
        let value ← inner.expression
        endStatement
        return Stmt.assign pos e value) := by
      refine (writes_expression hb h).bind fun value c₂ S' hS' => ?_
      refine writes_endStatement.silent fun _ c₃ => .pure ?_
      rw [List.append_nil]
      exact hS.append hS'
    rw [if_pos rfl]
    split
    · exact hassign
    · exact hassign
    · exact hassign
    · exact .fail _ _
  · refine writes_endStatement.silent fun _ c₂ => .pure ?_
    rwa [List.append_nil]

theorem writes_statement (hb : inner.Builds) (h : inner.Tells) :
    Writes c (fun s S => Agrees S s.mentions) inner.statement := by
  refine .here (.token ?_)
  split
  · rename_i ht
    refine .advance (by rw [ht]; rintro _ ⟨⟩) ?_
    refine (writes_declaration hb h).bind fun r c' S hS => .pure ?_
    rwa [List.append_nil]
  · refine .get ?_
    split
    · refine (writes_function h).bind fun f c' S hS => .pure ?_
      rwa [List.append_nil]
    · exact writes_expressionStatement hb h _
  · rename_i ht
    refine .advance (by rw [ht]; rintro _ ⟨⟩) (.check ?_)
    split
    · exact writes_endStatement.silent fun _ c' => .pure .nil
    · refine .check ?_
      split
      · exact .pure .nil
      · refine (writes_expression hb h).bind fun value c' S hS => .check ?_
        split
        · refine .pure ?_
          rwa [List.append_nil]
        · refine writes_endStatement.silent fun _ c'' => .pure ?_
          rwa [List.append_nil]
  · rename_i ht
    refine .advance (by rw [ht]; rintro _ ⟨⟩) ?_
    refine (writes_expression hb h).bind fun value c' S hS => ?_
    refine writes_endStatement.silent fun _ c'' => .pure ?_
    rwa [List.append_nil]
  · exact h.conditional c
  · exact writes_expressionStatement hb h _

theorem writes_more {α : Type} {x : Reader α} {f : α → List Mention}
    (h : Writes c (fun a S => Agrees S (f a)) x) :
    Writes c (fun (r : Pick α) S => Agrees S (r.added.flatMap f)) (do return .more (← x)) := by
  refine h.bind fun a c' S hS => .pure ?_
  simpa [Pick.added] using hS

theorem writes_blockPick (hb : inner.Builds) (h : inner.Tells) (dialect : Dialect) :
    Writes c (fun r S => Agrees S (r.added.flatMap Stmt.mentions)) (blockPick dialect inner) := by
  refine .check ?_
  split
  · exact .pure .nil
  · refine .token ?_
    split
    · exact .unexpected _
    · rename_i ht
      exact .advance (by rw [ht]; rintro _ ⟨⟩) (.pure .nil)
    · exact .here (.fail _ _)
    · exact .here (.fail _ _)
    · exact writes_more (writes_statement hb h)

/-- The statements of a block end at a closing brace. -/
theorem rbrace_of_collect {dialect : Dialect} (hb : inner.Builds) {ss : List Stmt} {c' : Cursor}
    (hr : collect (blockPick dialect inner) c = .ok (ss, c')) :
    c'.token.isMark .rbrace = true := by
  refine collect_ends (F := fun c => c.token.isMark .rbrace = true)
    (advances_of_cases (blockPick_cases hb dialect)) ?_ hr
  intro c r c' hp hleast
  have hmore (hr : (do return .more (← inner.statement) : Reader (Pick Stmt)) c = .ok (r, c')) :
      c'.token.isMark .rbrace = true := by
    rw [bind_apply] at hr
    cases hx : inner.statement c with
    | error e => simp [hx, Except.bind] at hr
    | ok a =>
      rw [hx] at hr
      cases hr
      cases hleast
  rw [blockPick, check_bind] at hp
  by_cases hm : c.token.isMark .rbrace = true
  · rw [if_pos hm] at hp
    cases hp
    exact hm
  · rw [if_neg hm, token_bind] at hp
    cases ht : c.token with
    | mark m =>
      rw [ht] at hp
      cases m with
      | semi =>
        cases hp
        cases hleast
      | _ => exact hmore hp
    | keyword k =>
      rw [ht] at hp
      cases k with
      | import_ => cases hp
      | export_ => cases hp
      | _ => exact hmore hp
    | eof =>
      rw [ht] at hp
      cases hp
    | _ =>
      rw [ht] at hp
      exact hmore hp

theorem writes_blockBody (hb : inner.Builds) (h : inner.Tells) (dialect : Dialect) :
    Writes c (fun ss S => Agrees S (Stmt.mentionsList ss)) (inner.blockBody dialect) := by
  rw [blockBody_eq]
  refine .expect fun hc ss c' hr => ?_
  rw [bind_apply] at hr
  cases hx : collect (blockPick dialect inner) c.advance with
  | error e => simp [hx, Except.bind] at hr
  | ok r =>
    obtain ⟨found, c₁⟩ := r
    have hwrites := Writes.collect (advances_of_cases (blockPick_cases hb dialect))
      (fun c => writes_blockPick hb h dialect) c.advance
    obtain ⟨hc₁, S, hS, hM⟩ := hwrites hc found c₁ hx
    have hbrace := Writes.not_str_of_isMark (rbrace_of_collect hb hx)
    rw [hx] at hr
    cases hr
    refine ⟨(Cursor.took_advance_zero _).lexical hc₁, S, ?_, ?_⟩
    · rw [hS, mentions_plain hbrace]
    · rw [Stmt.mentionsList_eq]
      exact hM

theorem writes_conditionalBody (hb : inner.Builds) (h : inner.Tells) :
    Writes c (fun s S => Agrees S s.mentions) inner.conditionalBody := by
  refine .here (.expectKeyword (.expect ?_))
  refine (writes_expression hb h).bind fun cond c₁ S₁ hS₁ => .expect ?_
  refine (h.block _).bind fun thenBody c₂ S₂ hS₂ => .checkKeyword ?_
  split
  · rename_i hk
    refine .advance (Writes.not_str_of_isKeyword hk) (.checkKeyword ?_)
    split
    · refine (h.conditional _).bind fun nested c₃ S₃ hS₃ => .pure ?_
      have := (hS₁.append hS₂).append (hS₃.append .nil)
      rwa [List.append_assoc] at this
    · refine (h.block _).bind fun elseBody c₃ S₃ hS₃ => .pure ?_
      have := (hS₁.append hS₂).append hS₃
      rwa [← List.append_nil S₃, List.append_assoc] at this
  · refine .pure ?_
    rw [List.append_nil]
    exact hS₁.append hS₂

/-- What the readers of every nesting level mention is what their trees mention. -/
theorem tells_ofDepth (dialect : Dialect) (depth : Nat) : (ofDepth dialect depth).Tells := by
  induction depth with
  | zero => exact ⟨fun _ => .here (.fail _ _), fun _ => .here (.fail _ _), fun _ => .here (.fail _ _)⟩
  | succ depth ih =>
    have hb := builds_ofDepth dialect depth
    exact ⟨fun _ => writes_blockBody hb ih dialect, fun _ => writes_conditionalBody hb ih,
      fun _ => writes_operandBody hb ih⟩

theorem writes_coreElement (hb : inner.Builds) (h : inner.Tells) :
    Writes c (fun s S => Agrees S s.mentions) inner.coreElement := by
  refine .token ?_
  split
  · exact .here (.fail _ _)
  · exact .here (.fail _ _)
  · exact writes_statement hb h

theorem writes_elementPick (hb : inner.Builds) (h : inner.Tells) :
    Writes c (fun r S => Agrees S (r.added.flatMap Stmt.mentions))
      (elementPick inner.coreElement) := by
  refine .token ?_
  split
  · exact .pure .nil
  · rename_i ht
    exact .advance (by rw [ht]; rintro _ ⟨⟩) (.pure .nil)
  · exact writes_more (writes_coreElement hb h)

end Nested

/-! ## Texts -/

/-- The string literals of a text are those of its tree, and possibly more after them. -/
theorem mentions_of_parseCore {source : List Char} {ss : List Stmt} {ls : List Lexeme}
    (hls : lexemes .start source = .ok ls) (h : parseCore source = .ok ss) :
    ∃ S T, mentions ls = S ++ T ∧ Agrees S (Stmt.mentionsList ss) := by
  have hb := Nested.builds_ofDepth .core maxNesting
  have hwrites := Writes.collect
    (Nested.advances_of_cases (Nested.elementPick_cases (Nested.takesAt_coreElement hb)))
    (fun c => Nested.writes_elementPick hb (Nested.tells_ofDepth .core maxNesting)) ⟨none, ls⟩
  rw [parseCore, run_eq, hls, Nested.elements_eq] at h
  cases hx : collect (Nested.elementPick (Nested.ofDepth .core maxNesting).coreElement)
      ⟨none, ls⟩ with
  | error e => simp [hx, Except.bind, Except.map] at h
  | ok r =>
    obtain ⟨found, c'⟩ := r
    simp only [hx, Except.bind, Except.map, Except.ok.injEq] at h
    subst h
    obtain ⟨-, S, hS, hM⟩ := hwrites (lexemes_lexical hls) found c' hx
    refine ⟨S, mentions c'.rest, hS, ?_⟩
    rw [Stmt.mentionsList_eq]
    exact hM

/-- The tokens up to a key and its colon. -/
theorem mentions_of_begins {K₁ K₂ : List Spelt} {key : String} {ls : List Lexeme}
    (hkey : isIdentifier key.toList = false) (hraw : .raw ∉ K₁)
    (hb : Begins (fun _ _ => True) ls
      (K₁ ++ .token (.str key) none :: mark .colon :: .raw :: K₂)) :
    ∃ S T, mentions ls = S ++ (key, true) :: T ∧ S.length = oddities K₁ := by
  induction K₁ generalizing ls with
  | nil =>
    obtain - | ⟨l, ls⟩ := ls
    · exact hb.elim
    obtain ⟨hl, -, hb⟩ := hb
    obtain - | ⟨l', ls⟩ := ls
    · exact hb.elim
    have hcolon : (Cursor.mk none (l' :: ls)).token.isMark .colon = true := by
      rw [Begins.token (c := ⟨none, l' :: ls⟩) hb]
      rfl
    refine ⟨[], mentions (l' :: ls), ?_, rfl⟩
    rw [mentions, hl]
    simp only [hkey, hcolon]
    rfl
  | cons s K₁ ih =>
    cases s with
    | raw => exact absurd List.mem_cons_self hraw
    | token t source =>
      obtain - | ⟨l, ls⟩ := ls
      · exact hb.elim
      obtain ⟨hl, -, hb⟩ := hb
      obtain ⟨S, T, hS, hn⟩ := ih (fun h => hraw (List.mem_cons_of_mem _ h)) hb
      rw [mentions, hl, hS]
      cases t with
      | str value =>
        by_cases hword : isIdentifier value.toList = true
        · exact ⟨S, T, by simp only [if_pos hword], by simp [oddities, hword, hn]⟩
        · refine ⟨(value, (Cursor.mk none ls).token.isMark .colon) :: S, T, ?_, ?_⟩
          · simp only [if_neg hword, List.cons_append]
          · simp [oddities, hword, hn, Nat.add_comm]
      | _ => exact ⟨S, T, rfl, hn⟩

/-- A text that is printed from statements whose variables are not all words is not read as
them. -/
theorem erase_ne_of_not_worded {ss found : List Stmt} {source : List Char}
    (hbuilt : Stmt.BuiltList ss) (hw : ¬ Stmt.EveryList worded ss)
    {p : Pos} (hscans : Scans (fun _ _ => True) .start source (Stmt.speltList ss) p [])
    (h : parseCore source = .ok found) :
    Stmt.eraseList found ≠ Stmt.eraseList ss := by
  intro herase
  rcases Stmt.tellingList hbuilt with ⟨hword, -⟩ | ⟨-, K₁, K₂, M₁, M₂, key, hkey, hK, hM, hraw, hn⟩
  · exact hw hword
  cases hls : lexemes .start source with
  | error e => simp [parseCore, run_eq, hls, Except.bind] at h
  | ok ls =>
    have hb : Begins (fun _ _ => True) ls (Stmt.speltList ss) := by
      have := begins_of_scans (L := []) hscans hls fun ls _ => by cases ls <;> trivial
      rwa [List.append_nil] at this
    rw [hK] at hb
    obtain ⟨S', T', hS', hlen⟩ := mentions_of_begins hkey hraw hb
    obtain ⟨S, T, hS, hagrees⟩ := mentions_of_parseCore hls h
    -- Both trees have the same string literals, so the text has this key without a colon.
    have hsame : Stmt.mentionsList found = M₁ ++ (key, some false) :: M₂ := by
      rw [← hM, ← Stmt.mentions_eraseList found, herase, Stmt.mentions_eraseList]
    rw [hsame] at hagrees
    have htake := List.forall₂_take_append S M₁ _ hagrees
    have hdrop := List.forall₂_drop_append S M₁ _ hagrees
    obtain ⟨s, S₃, ⟨-, hfalse⟩, -, hS₃⟩ := List.forall₂_cons_right_iff.mp hdrop
    have hfront : S' ++ (key, true) :: T' = S.take M₁.length ++ s :: (S₃ ++ T) := by
      rw [← hS', hS, ← List.cons_append, ← hS₃, ← List.append_assoc, List.take_append_drop]
    have hs := (List.append_inj hfront (by rw [hlen, hn, htake.length_eq])).2
    rw [List.cons.injEq] at hs
    have := hfalse false rfl
    rw [← hs.1] at this
    cases this

end Hotload.Syntax
