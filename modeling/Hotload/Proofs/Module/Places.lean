import Mathlib
import Hotload.FileTree
import Hotload.Proofs.Text.Fields

/-!
# Places in a file tree

A path that leads to a place is normalized to the one path that is made of the names on the way to
it. Paths that name the same steps do not lead to different places.

* `FileTree.IsName`: a name that a step of a path can be.
* `FileTree.locate_normalize`: a normalized path leads to the same place.
* `FileTree.exists_file_of_read`: what is read is the text of a file.
* `FileTree.read_of_same`: what is read by one path is read by another one of the same steps, if
  that one leads anywhere. A slash behind the name of a file is no step, and yet leads nowhere.
-/

namespace Hotload

namespace Path

variable {p q : Path} {name : String}

theorem chars_join (hq : q.isAbsolute = false) :
    (p.join q).chars =
      if p.chars = [] ∨ p.chars.getLast? = some '/' then p.chars ++ q.chars
      else p.chars ++ '/' :: q.chars := by
  have hempty : p.text = "" ↔ p.chars = [] := by
    rw [chars, String.toList_eq_nil_iff]
  simp only [join, hq, Bool.false_eq_true, if_false, decide_eq_true_eq, Bool.or_eq_true,
    beq_iff_eq, hempty]
  split
  · simp [chars]
  · simp [chars]

/-- A name without slashes is a relative path. -/
theorem isAbsolute_of_not_mem (h : '/' ∉ name.toList) : (⟨name⟩ : Path).isAbsolute = false := by
  rw [isAbsolute, beq_eq_false_iff_ne]
  intro hhead
  exact h (List.mem_of_mem_head? hhead)

end Path

namespace Node

theorem mem_entryFiles {entries : List (String × Node)} {name : String} {child : Node}
    {names : List String} {content : ByteArray} (hchild : entries.lookup name = some child)
    (h : (names, content) ∈ child.files) : (name :: names, content) ∈ entryFiles entries := by
  induction entries with
  | nil => cases hchild
  | cons entry entries ih =>
    obtain ⟨other, node⟩ := entry
    rw [entryFiles, List.mem_append]
    rw [List.lookup_cons] at hchild
    split at hchild
    next heq =>
      cases hchild
      refine .inl (List.mem_map.2 ⟨(names, content), h, ?_⟩)
      rw [eq_of_beq heq]
    next => exact .inr (ih hchild)

/-- A file that some names lead to is one of the files. -/
theorem mem_files_of_follow? {node : Node} {names : List String} {content : ByteArray}
    (h : node.follow? names = some (.file content)) : (names, content) ∈ node.files := by
  induction names generalizing node with
  | nil =>
    rw [follow?] at h
    cases h
    exact List.mem_singleton.2 rfl
  | cons name names ih =>
    cases node with
    | file other => cases h
    | dir entries =>
      obtain ⟨child, hchild, h⟩ := Option.bind_eq_some_iff.1 h
      exact mem_entryFiles hchild (ih h)

end Node

namespace FileTree

open Hotload.Path (component? isIdle)

/-- The name can be a step of a path. -/
def IsName (name : String) : Prop :=
  component? name.toList = some (.name name) ∧ '/' ∉ name.toList

instance (name : String) : Decidable (IsName name) := inferInstanceAs (Decidable (_ ∧ _))

variable {t : FileTree} {names here : List String} {p q : Path} {name : String}

/-- The name of a single directory: no empty one, none that stays or goes up, none with slashes. -/
theorem isName_of_ne (hempty : name ≠ "") (hdot : name ≠ ".") (hup : name ≠ "..")
    (hslash : '/' ∉ name.toList) : IsName name := by
  have hlist : ∀ other : String, name ≠ other → name.toList ≠ other.toList :=
    fun other hne h => hne (String.toList_inj.1 h)
  have hidle : ¬ isIdle name.toList = true := by
    simpa [isIdle] using And.intro hempty (hlist _ hdot)
  have hparent : ¬ name.toList = ['.', '.'] := hlist ".." hup
  refine ⟨?_, hslash⟩
  rw [component?, if_neg hidle, if_neg hparent, String.ofList_toList]

theorem IsName.idle (h : IsName name) : isIdle name.toList = false := by
  have hcomponent := h.1
  unfold component? at hcomponent
  split at hcomponent
  · cases hcomponent
  next hidle => exact Bool.eq_false_iff.2 hidle

theorem IsName.ne_up (h : IsName name) : name.toList ≠ ['.', '.'] := by
  intro hup
  have hcomponent := h.1
  rw [hup] at hcomponent
  cases hcomponent

theorem IsName.ne_empty (h : IsName name) : name ≠ "" := by
  rintro rfl
  cases h.1

/-! ## The path of a place -/

theorem chars_pathOf (names : List String) :
    (pathOf names).chars = '/' :: ['/'].intercalate (names.map String.toList) := by
  simp [pathOf, Path.chars, String.toList_intercalate]

/-- The segments of the path behind its first slash. -/
theorem fields_pathOf (h : ∀ name ∈ names, IsName name) :
    Text.fields '/' (['/'].intercalate (names.map String.toList)) =
      if names = [] then [[]] else names.map String.toList := by
  split
  next hnames =>
    subst hnames
    rfl
  next hnames =>
    refine Text.fields_intercalate (by simpa using hnames) fun f hf => ?_
    obtain ⟨name, hname, rfl⟩ := List.mem_map.1 hf
    exact (h name hname).2

theorem segments_pathOf (h : ∀ name ∈ names, IsName name) :
    (pathOf names).segments = [] :: if names = [] then [[]] else names.map String.toList := by
  rw [Path.segments, chars_pathOf, Text.fields, if_pos rfl, fields_pathOf h]

theorem isAbsolute_pathOf (names : List String) : (pathOf names).isAbsolute = true := by
  rw [Path.isAbsolute, chars_pathOf]
  rfl

theorem text_pathOf_ne (names : List String) : (pathOf names).text ≠ "" := by
  intro h
  have hchars := chars_pathOf names
  rw [Path.chars, h] at hchars
  cases hchars

/-! ## Steps -/

/-- Where a step leads from a place. -/
def lead (here : List String) : Path.Component → List String
  | .root => []
  | .current => here
  | .parent => here.dropLast
  | .name name => here ++ [name]

/-- A step from a place to the next one leads where its name says. -/
theorem step_lead {segment : List Char} {next : List String}
    (h : t.step here segment = .ok next) : next = (component? segment).elim here (lead here) := by
  unfold step at h
  split at h
  next entries hhere =>
    unfold component?
    by_cases hidle : isIdle segment = true
    · rw [if_pos hidle] at h ⊢
      cases h
      rfl
    · rw [if_neg hidle] at h ⊢
      by_cases hup : segment = ['.', '.']
      · rw [if_pos hup] at h ⊢
        cases h
        rfl
      · rw [if_neg hup] at h ⊢
        dsimp only at h
        split at h
        · cases h
          rfl
        · cases h
  next => cases h

theorem steps_lead {segments : List (List Char)} {out : List String}
    (h : segments.foldlM t.step here = .ok out) :
    out = (segments.filterMap component?).foldl lead here := by
  induction segments generalizing here with
  | nil =>
    cases h
    rfl
  | cons segment segments ih =>
    rw [List.foldlM_cons] at h
    cases hstep : t.step here segment with
    | error e =>
      rw [hstep] at h
      cases h
    | ok next =>
      rw [hstep] at h
      rw [ih h, step_lead hstep]
      cases hcomponent : component? segment with
      | none => rw [List.filterMap_cons_none hcomponent]; rfl
      | some c => rw [List.filterMap_cons_some hcomponent]; rfl

/-- Where a path leads depends on its steps alone, if it leads anywhere. -/
theorem locate_lead (h : t.locate p = .ok names) : names = p.components.foldl lead t.cwd := by
  have hempty : component? [] = none := rfl
  have hdot : component? ['.'] = none := rfl
  unfold locate at h
  split at h
  · cases h
  · have hsteps := steps_lead h
    unfold origin Path.isAbsolute Path.segments at hsteps
    obtain ⟨head, segments, hsplit⟩ : ∃ head segments, p.split = (head, segments) := ⟨_, _, rfl⟩
    rw [Path.components, hsplit]
    unfold Path.split at hsplit
    split at hsplit
    next rest hchars =>
      cases hsplit
      simpa [hchars, Text.fields, hempty, lead] using hsteps
    next hchars =>
      cases hsplit
      simpa [hchars, Text.fields, hdot, lead] using hsteps
    next rest hchars =>
      cases hsplit
      simpa [hchars, Text.fields, hdot, hempty, lead] using hsteps
    next hroot _ _ =>
      cases hsplit
      have hrelative : p.chars.head? ≠ some '/' := by
        intro hhead
        obtain ⟨rest, hrest⟩ := List.head?_eq_some_iff.1 hhead
        exact hroot rest hrest
      simpa [hrelative] using hsteps

theorem foldl_lead_names (names : List String) :
    (names.map Path.Component.name).foldl lead here = here ++ names := by
  induction names generalizing here with
  | nil => simp
  | cons name names ih => simp [lead, ih]

theorem filterMap_component_names (h : ∀ name ∈ names, IsName name) :
    (names.map String.toList).filterMap component? = names.map .name := by
  rw [List.filterMap_map, ← List.filterMap_eq_map]
  exact List.filterMap_congr fun name hname => (h name hname).1

/-- The names lead from the root to a place, each of them by a step. -/
structure Walk (t : FileTree) (names : List String) : Prop where
  valid : ∀ name ∈ names, IsName name
  leads : (names.map String.toList).foldlM t.step [] = .ok names

theorem walk_nil (t : FileTree) : t.Walk [] := ⟨by simp, rfl⟩

/-- A step in front of the last one. -/
theorem Walk.dropLast (h : t.Walk here) : t.Walk here.dropLast := by
  rcases List.eq_nil_or_concat here with rfl | ⟨init, last, rfl⟩
  · exact h
  · rw [List.concat_eq_append] at h ⊢
    rw [List.dropLast_concat]
    have hinit : ∀ name ∈ init, IsName name := fun name hname => h.valid name (by simp [hname])
    refine ⟨hinit, ?_⟩
    have hleads := h.leads
    rw [List.map_append, List.foldlM_append] at hleads
    cases hstart : (init.map String.toList).foldlM t.step [] with
    | error e =>
      rw [hstart] at hleads
      cases hleads
    | ok start =>
      rw [steps_lead hstart, filterMap_component_names hinit, foldl_lead_names, List.nil_append]

theorem name_of_component {segment : List Char} {name : String}
    (h : component? segment = some (.name name)) : name = String.ofList segment := by
  unfold component? at h
  split at h
  · cases h
  · split at h
    · cases h
    · cases h
      rfl

/-- A walk goes on with a step. -/
theorem Walk.step {segment : List Char} {next : List String} (h : t.Walk here)
    (hstep : t.step here segment = .ok next) (hsegment : '/' ∉ segment) : t.Walk next := by
  rw [step_lead hstep]
  cases hcomponent : component? segment with
  | none => exact h
  | some c =>
    cases c with
    | root => exact walk_nil t
    | current => exact h
    | parent => exact h.dropLast
    | name name =>
      have hnext := step_lead hstep
      rw [hcomponent] at hnext
      obtain rfl := name_of_component hcomponent
      constructor
      · intro name hname
        rcases List.mem_append.1 hname with hname | hname
        · exact h.valid name hname
        · rw [List.mem_singleton.1 hname, IsName, String.toList_ofList]
          exact ⟨hcomponent, hsegment⟩
      · change List.foldlM t.step [] ((here ++ [String.ofList segment]).map String.toList) = _
        rw [List.map_append, List.foldlM_append, h.leads]
        change List.foldlM t.step here [(String.ofList segment).toList] = _
        rw [List.foldlM_cons, String.toList_ofList, hstep, hnext]
        rfl

theorem Walk.steps {segments : List (List Char)} {out : List String} (h : t.Walk here)
    (hsteps : segments.foldlM t.step here = .ok out) (hsegments : ∀ s ∈ segments, '/' ∉ s) :
    t.Walk out := by
  induction segments generalizing here with
  | nil =>
    cases hsteps
    exact h
  | cons segment segments ih =>
    rw [List.foldlM_cons] at hsteps
    cases hstep : t.step here segment with
    | error e =>
      rw [hstep] at hsteps
      cases hsteps
    | ok next =>
      rw [hstep] at hsteps
      exact ih (h.step hstep (hsegments segment List.mem_cons_self)) hsteps fun s hs =>
        hsegments s (List.mem_cons_of_mem _ hs)

/-! ## The working directory -/

theorem follow?_append (node : Node) (a b : List String) :
    node.follow? (a ++ b) = (node.follow? a).bind (·.follow? b) := by
  induction a generalizing node with
  | nil => rfl
  | cons name names ih =>
    cases node with
    | file content => rfl
    | dir entries =>
      simp only [List.cons_append, Node.follow?]
      cases entries.lookup name with
      | none => rfl
      | some child => exact ih child

/-- Names that lead to a node are a walk. -/
theorem walk_of_follow? (h : ∀ name ∈ names, IsName name)
    (hnode : (t.root.follow? names).isSome) : t.Walk names := by
  induction names using List.reverseRecOn with
  | nil => exact walk_nil t
  | append_singleton init last ih =>
    have hlast := h last (by simp)
    rw [follow?_append] at hnode
    cases hdir : t.root.follow? init with
    | none =>
      rw [hdir] at hnode
      cases hnode
    | some node =>
      rw [hdir, Option.bind_some] at hnode
      have hinit := ih (fun name hname => h name (by simp [hname])) (by simp [hdir])
      cases node with
      | file content => cases hnode
      | dir entries =>
        have hentry : (entries.lookup last).isSome := by
          simp only [Node.follow?] at hnode
          cases hfound : entries.lookup last with
          | none =>
            rw [hfound] at hnode
            cases hnode
          | some child => rfl
        have hstep : t.step init last.toList = .ok (init ++ [last]) := by
          simp only [step, hdir, hlast.idle, Bool.false_eq_true, if_false, if_neg hlast.ne_up,
            String.ofList_toList, if_pos hentry]
        exact hinit.step hstep hlast.2

/-- A path that leads somewhere leads there by a walk. -/
theorem walk_of_locate (hcwd : ∀ name ∈ t.cwd, IsName name) (h : t.locate p = .ok names) :
    t.Walk names := by
  unfold locate at h
  split at h
  · cases h
  · have hsegments : ∀ s ∈ p.segments, '/' ∉ s := fun s hs => Text.not_mem_of_mem_fields hs
    unfold origin at h
    split at h
    · exact (walk_nil t).steps h hsegments
    · -- the first step already demands that the working directory is there
      cases hs : p.segments with
      | nil => exact absurd hs (Text.fields_ne_nil '/' p.chars)
      | cons segment segments =>
        rw [hs, List.foldlM_cons] at h
        cases hstep : t.step t.cwd segment with
        | error e =>
          rw [hstep] at h
          cases h
        | ok next =>
          have hdir : (t.root.follow? t.cwd).isSome := by
            unfold step at hstep
            split at hstep
            next entries hfollow => simp [hfollow]
            next => cases hstep
          have hwalk := walk_of_follow? hcwd hdir
          rw [hstep] at h
          rw [hs] at hsegments
          exact (hwalk.step hstep (hsegments segment List.mem_cons_self)).steps h fun s hs =>
            hsegments s (List.mem_cons_of_mem _ hs)

/-! ## Normalized paths -/

theorem locate_pathOf {root : List (String × Node)} (hroot : t.root = .dir root)
    (h : t.Walk names) : t.locate (pathOf names) = .ok names := by
  have hidle : ∀ here, t.root.follow? here = some (.dir root) → t.step here [] = .ok here := by
    intro here hhere
    simp only [step, hhere]
    rfl
  have horigin : t.origin (pathOf names) = [] := if_pos (isAbsolute_pathOf names)
  rw [locate, if_neg (text_pathOf_ne names), horigin, segments_pathOf h.valid, List.foldlM_cons,
    hidle [] (by rw [hroot]; rfl)]
  change List.foldlM t.step [] _ = _
  split
  next hnames =>
    subst hnames
    rw [List.foldlM_cons, hidle [] (by rw [hroot]; rfl)]
    rfl
  next => exact h.leads

/-- Only from a directory does a path lead anywhere. -/
theorem root_of_locate (h : t.locate p = .ok names) : ∃ entries, t.root = .dir entries := by
  unfold locate at h
  split at h
  · cases h
  · cases hs : p.segments with
    | nil => exact absurd hs (Text.fields_ne_nil '/' p.chars)
    | cons segment segments =>
      rw [hs, List.foldlM_cons] at h
      cases hroot : t.root with
      | dir entries => exact ⟨entries, rfl⟩
      | file content =>
        cases hstep : t.step (t.origin p) segment with
        | error e =>
          rw [hstep] at h
          cases h
        | ok next =>
          exfalso
          unfold step at hstep
          rw [hroot] at hstep
          cases horigin : t.origin p with
          | nil =>
            rw [horigin] at hstep
            cases hstep
          | cons name names =>
            rw [horigin] at hstep
            cases hstep

/-- A normalized path leads to the place that the path leads to. -/
theorem locate_normalize (hcwd : ∀ name ∈ t.cwd, IsName name) (h : t.locate p = .ok names) :
    t.locate (t.normalize p) = .ok names := by
  obtain ⟨entries, hroot⟩ := root_of_locate h
  simp only [normalize, h]
  exact locate_pathOf hroot (walk_of_locate hcwd h)

theorem fromUTF8?_toUTF8 (text : String) : String.fromUTF8? text.toUTF8 = some text := by
  simp only [String.fromUTF8?, Option.dite_none_right_eq_some, Option.some.injEq]
  exact ⟨text.isValidUTF8, rfl⟩

/-- What is read is the text of a file. -/
theorem exists_file_of_read {text : String} (h : t.read p = .ok text) :
    ∃ names content, (names, content) ∈ t.root.files ∧ String.fromUTF8? content = some text := by
  cases hbytes : t.readBytes p with
  | error e =>
    simp only [read, hbytes] at h
    cases h
  | ok content =>
    have htext : String.fromUTF8? content = some text := by
      simp only [read, hbytes] at h
      dsimp only [bind, Except.bind] at h
      split at h
      · cases h
        assumption
      · cases h
    cases hp : t.locate p with
    | error e =>
      simp only [readBytes, hp] at hbytes
      cases hbytes
    | ok names =>
      simp only [readBytes, hp] at hbytes
      dsimp only [bind, Except.bind] at hbytes
      split at hbytes
      next hnode =>
        cases hbytes
        exact ⟨names, content, Node.mem_files_of_follow? hnode, htext⟩
      next => cases hbytes

/-! ## Paths of the same steps -/

/-- Two paths of the same steps do not lead to different places. -/
theorem locate_of_same {other : List String} (h : q.same p = true) (hp : t.locate p = .ok names)
    (hq : t.locate q = .ok other) : other = names := by
  rw [locate_lead hq, locate_lead hp, of_decide_eq_true h]

/-- What is read by one path is read by another one of the same steps that leads somewhere. -/
theorem read_of_same {text : String} (h : q.same p = true) (hp : t.locate p = .ok names)
    (hq : t.read q = .ok text) : t.read p = .ok text := by
  cases hother : t.locate q with
  | error e =>
    simp only [read, readBytes, hother] at hq
    cases hq
  | ok other =>
    obtain rfl := locate_of_same h hp hother
    simp only [read, readBytes, hother] at hq
    simp only [read, readBytes, hp]
    exact hq

end FileTree

end Hotload
