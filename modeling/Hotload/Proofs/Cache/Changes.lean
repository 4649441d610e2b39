import Mathlib
import Hotload.Proofs.Module.Places

/-!
# Changes of a file tree

What stands at each place of a tree decides where paths lead and what is read there. Making a directory,
writing, moving or removing a file changes what stands at one place, or at the two of a move.

* `FileTree.kindAt`: what stands at a place.
* `FileTree.Becomes`: a change of one place.
* `FileTree.makeDir_becomes`, `FileTree.write_becomes`, `FileTree.remove_becomes`: the changes.
* `FileTree.walk_of_dirs`: a way through directories that stay is still there.
-/

namespace Hotload

/-- What stands at a place: a file with its bytes or a directory. -/
inductive Kind where
  | file (content : ByteArray)
  | dir

namespace Node

/-- Whether a node is a file or a directory. -/
def kind : Node → Kind
  | .file content => .file content
  | .dir _ => .dir

theorem lookup_setEntry (name other : String) (node : Option Node) (entries : List (String × Node)) :
    (setEntry name node entries).lookup other = if other = name then node else entries.lookup other := by
  have hothers : (entries.filter (·.1 ≠ name)).lookup other =
      if other = name then none else entries.lookup other := by
    induction entries with
    | nil => simp
    | cons entry entries ih =>
      obtain ⟨first, child⟩ := entry
      by_cases hfirst : first = name
      · subst hfirst
        rw [List.filter_cons_of_neg (by simp), ih, List.lookup_cons]
        split
        next => rfl
        next hne => rw [beq_false_of_ne hne]
      · rw [List.filter_cons_of_pos (by simpa using hfirst), List.lookup_cons, List.lookup_cons, ih]
        by_cases hother : other = first
        · simp [hother, hfirst]
        · rw [beq_false_of_ne hother]
  unfold setEntry
  cases node with
  | none => exact hothers
  | some node =>
    dsimp only
    rw [List.lookup_append, hothers]
    by_cases hother : other = name
    · simp [hother]
    · simp [hother, List.lookup_cons, beq_false_of_ne hother]

/-- What names lead to once a node has been put in a directory. -/
theorem kind_follow?_put {root : Node} {here : List String} {entries : List (String × Node)}
    (h : root.follow? here = some (.dir entries)) (name : String) (node : Option Node)
    (names : List String) :
    ((root.put (here ++ [name]) node).follow? names).map kind =
      if here ++ [name] <+: names then
        (node.bind (·.follow? (names.drop (here.length + 1)))).map kind
      else (root.follow? names).map kind := by
  induction here generalizing root names with
  | nil =>
    cases h
    cases names with
    | nil => rfl
    | cons next names =>
      rw [List.nil_append, put, follow?, lookup_setEntry]
      by_cases hnext : next = name
      · simp [hnext]
      · have hnot : ¬ [name] <+: next :: names := by simp [Ne.symm hnext]
        rw [if_neg hnext, if_neg hnot, follow?]
  | cons first here ih =>
    cases root with
    | file content => cases h
    | dir others =>
      obtain ⟨child, hchild, hhere⟩ := Option.bind_eq_some_iff.1 h
      rw [List.cons_append, put, hchild]
      · cases names with
        | nil => rfl
        | cons next names =>
          dsimp only
          rw [follow?, lookup_setEntry]
          by_cases hnext : next = first
          · subst hnext
            rw [if_pos rfl, Option.bind_some, ih hhere names, follow?, hchild]
            simp [List.cons_prefix_cons]
          · have hnot : ¬ first :: (here ++ [name]) <+: next :: names := by
              simp [List.cons_prefix_cons, Ne.symm hnext]
            rw [if_neg hnext, if_neg hnot, follow?]
      · simp

end Node

namespace FileTree

open Hotload.Path (component? isIdle)

variable {t t' : FileTree} {here place out : List String} {p q : Path} {name : String}
  {segments : List (List Char)}

/-- What stands at a place. -/
def kindAt (t : FileTree) (names : List String) : Option Kind := (t.root.follow? names).map Node.kind

theorem kindAt_eq_dir : t.kindAt here = some .dir ↔ ∃ entries, t.root.follow? here = some (.dir entries) := by
  unfold kindAt
  cases t.root.follow? here with
  | none => simp
  | some node => cases node <;> simp [Node.kind]

theorem kindAt_append_of_ne (h : t.kindAt place ≠ some .dir) {rest : List String} (hne : rest ≠ []) :
    t.kindAt (place ++ rest) = none := by
  unfold kindAt at h ⊢
  rw [follow?_append]
  cases hplace : t.root.follow? place with
  | none => rfl
  | some node =>
    cases node with
    | dir entries => exact absurd (by rw [hplace]; rfl) h
    | file content =>
      obtain ⟨name, names, rfl⟩ := List.exists_cons_of_ne_nil hne
      rfl

/-! ## Changes of one place -/

/-- The second tree is the first one but for what stands at one place. -/
def Becomes (t t' : FileTree) (place : List String) (kind : Option Kind) : Prop :=
  t'.cwd = t.cwd ∧ ∀ names, t'.kindAt names = if names = place then kind else t.kindAt names

/-- To put a node that holds none in place of one that holds none, or of nothing, changes its place
alone. -/
theorem becomes_put {node : Option Node} (hdir : t.kindAt here = some .dir)
    (hold : t.kindAt (here ++ [name]) ≠ some .dir)
    (hnew : ∀ rest ≠ [], node.bind (·.follow? rest) = none) :
    t.Becomes { t with root := t.root.put (here ++ [name]) node } (here ++ [name])
      (node.map Node.kind) := by
  refine ⟨rfl, fun names => ?_⟩
  obtain ⟨entries, hentries⟩ := kindAt_eq_dir.1 hdir
  rw [kindAt, Node.kind_follow?_put hentries]
  by_cases hstarts : here ++ [name] <+: names
  · obtain ⟨rest, rfl⟩ := hstarts
    have hdrop : (here ++ [name] ++ rest).drop (here.length + 1) = rest := by
      rw [← List.length_singleton (a := name), ← List.length_append, List.drop_left]
    rw [if_pos ⟨rest, rfl⟩, hdrop]
    by_cases hrest : rest = []
    · subst hrest
      rw [List.append_nil, if_pos rfl]
      cases node <;> rfl
    · rw [hnew rest hrest, if_neg (by simpa using hrest), kindAt_append_of_ne hold hrest]
      rfl
  · rw [if_neg hstarts, if_neg]
    · rfl
    · rintro rfl
      exact hstarts (List.prefix_refl _)

theorem Becomes.kindAt_place {kind : Option Kind} (h : t.Becomes t' place kind) :
    t'.kindAt place = kind := by
  rw [h.2, if_pos rfl]

theorem Becomes.kindAt_of_ne {kind : Option Kind} (h : t.Becomes t' place kind) (hne : here ≠ place) :
    t'.kindAt here = t.kindAt here := by
  rw [h.2, if_neg hne]

/-- Directories stay where they are if no directory was replaced. -/
theorem Becomes.dirs {kind : Option Kind} (h : t.Becomes t' place kind)
    (hold : t.kindAt place ≠ some .dir) (hhere : t.kindAt here = some .dir) :
    t'.kindAt here = some .dir := by
  rw [h.kindAt_of_ne (fun heq => hold (heq ▸ hhere)), hhere]

/-! ## Steps -/

theorem step_eq (t : FileTree) (here : List String) (segment : List Char) :
    t.step here segment =
      match t.kindAt here with
      | some .dir =>
        if isIdle segment then .ok here
        else if segment = ['.', '.'] then .ok here.dropLast
        else if (t.kindAt (here ++ [String.ofList segment])).isSome then
          .ok (here ++ [String.ofList segment])
        else .error .notFound
      | _ => .error .notDirectory := by
  unfold step kindAt
  cases hhere : t.root.follow? here with
  | none => rfl
  | some node =>
    cases node with
    | file content => rfl
    | dir entries =>
      rw [follow?_append, hhere]
      simp only [Option.map_some, Node.kind, Option.bind_some, Node.follow?, Option.isSome_map]
      cases entries.lookup (String.ofList segment) <;> rfl

theorem dir_of_step {next : List String} {segment : List Char} (h : t.step here segment = .ok next) :
    t.kindAt here = some .dir := by
  rw [step_eq] at h
  split at h
  · assumption
  · cases h

theorem dir_of_walk (h : segments.foldlM t.step here = .ok out) (hout : t.kindAt out = some .dir) :
    t.kindAt here = some .dir := by
  cases segments with
  | nil =>
    cases h
    exact hout
  | cons segment segments =>
    rw [List.foldlM_cons] at h
    cases hstep : t.step here segment with
    | error e =>
      rw [hstep] at h
      cases h
    | ok next => exact dir_of_step hstep

/-- A way through directories to a directory is still there if they are. -/
theorem walk_of_dirs (hdirs : ∀ place, t.kindAt place = some .dir → t'.kindAt place = some .dir)
    (h : segments.foldlM t.step here = .ok out) (hout : t.kindAt out = some .dir) :
    segments.foldlM t'.step here = .ok out := by
  induction segments generalizing here with
  | nil => exact h
  | cons segment segments ih =>
    rw [List.foldlM_cons] at h ⊢
    cases hstep : t.step here segment with
    | error e =>
      rw [hstep] at h
      cases h
    | ok next =>
      rw [hstep] at h
      have hnext := hdirs next (dir_of_walk h hout)
      have hhere := dir_of_step hstep
      have hstep' : t'.step here segment = .ok next := by
        rw [step_eq, hhere] at hstep
        rw [step_eq, hdirs here hhere]
        dsimp only at hstep ⊢
        split
        next hidle => rwa [if_pos hidle] at hstep
        next hidle =>
          rw [if_neg hidle] at hstep
          split
          next hup => rwa [if_pos hup] at hstep
          next hup =>
            rw [if_neg hup] at hstep
            split at hstep
            · cases hstep
              rw [hnext]
              rfl
            · cases hstep
      rw [hstep']
      exact ih h

/-- A walk goes to where its first part leads, and on from there. -/
theorem walk_append (before after : List (List Char)) (here : List String) :
    (before ++ after).foldlM t.step here = (before.foldlM t.step here).bind (after.foldlM t.step ·) :=
  List.foldlM_append

theorem readBytes_of_locate {names : List String} (h : t.locate p = .ok names) :
    t.readBytes p =
      match t.kindAt names with
      | some (.file content) => .ok content
      | _ => .error .isDirectory := by
  rw [readBytes, h, kindAt]
  dsimp only [bind, Except.bind]
  cases t.root.follow? names with
  | none => rfl
  | some node => cases node <;> rfl

/-! ## Operations -/

/-- The way to a new entry: where its directory is, and the segment that names it, which nothing but
slashes stand behind. -/
structure Vacancy (t : FileTree) (p : Path) (here : List String) (name : String) : Prop where
  split : ∃ before tail, p.segments = before ++ name.toList :: tail ∧ (∀ s ∈ tail, s = []) ∧
    before.foldlM t.step (t.origin p) = .ok here
  idle : isIdle name.toList = false
  up : name.toList ≠ ['.', '.']
  dir : t.kindAt here = some .dir

theorem vacancy_of_ok {taken : FileError} (h : t.vacancy p taken = .ok (here, name)) :
    t.Vacancy p here name := by
  unfold vacancy at h
  by_cases hempty : p.text = ""
  · rw [if_pos hempty] at h
    cases h
  · rw [if_neg hempty] at h
    dsimp only [bind, Except.bind, pure, Except.pure] at h
    split at h
    · cases h
    next last before hsegments =>
      obtain ⟨tail, htail, hall⟩ : ∃ tail, p.segments = before.reverse ++ last :: tail ∧ ∀ s ∈ tail, s = [] := by
        refine ⟨(p.segments.reverse.takeWhile (· = [])).reverse, ?_, fun s hs => ?_⟩
        · have hsplit := List.takeWhile_append_dropWhile (p := (· = [])) (l := p.segments.reverse)
          rw [hsegments] at hsplit
          have hreverse := congrArg List.reverse hsplit
          rw [List.reverse_append, List.reverse_cons, List.reverse_reverse, List.append_assoc,
            List.singleton_append] at hreverse
          exact hreverse.symm
        · simpa using List.mem_takeWhile_imp (List.mem_reverse.1 hs)
      split at h
      · split at h <;> cases h
      next hlast =>
        simp only [Bool.or_eq_true, decide_eq_true_eq, not_or, Bool.not_eq_true] at hlast
        split at h
        · cases h
        next here' hwalk =>
          split at h
          next entries hentries =>
            cases h
            refine ⟨⟨before.reverse, tail, ?_, hall, hwalk⟩, ?_, ?_, kindAt_eq_dir.2 ⟨entries, hentries⟩⟩
            · rw [String.toList_ofList, htail]
            · rw [String.toList_ofList]
              exact hlast.1
            · rw [String.toList_ofList]
              exact hlast.2
          · cases h

/-- A directory is made where nothing stood. -/
theorem makeDir_becomes (h : t.makeDir p = .ok t') :
    ∃ here name, t.Vacancy p here name ∧ t.kindAt (here ++ [name]) = none ∧
      t.Becomes t' (here ++ [name]) (some .dir) := by
  unfold makeDir at h
  dsimp only [bind, Except.bind, pure, Except.pure] at h
  split at h
  · cases h
  next vacancy hvacancy =>
    obtain ⟨here, name⟩ := vacancy
    have hway := vacancy_of_ok hvacancy
    split at h
    · cases h
    next hnone =>
      cases h
      have hplace : t.kindAt (here ++ [name]) = none := by rw [kindAt, hnone]; rfl
      refine ⟨here, name, hway, hplace, ?_⟩
      refine becomes_put hway.dir (by rw [hplace]; exact fun h => nomatch h) fun rest hrest => ?_
      obtain ⟨first, rest, rfl⟩ := List.exists_cons_of_ne_nil hrest
      rfl

/-- A file is written where no directory stands. -/
theorem write_becomes {content : ByteArray} (h : t.write p content = .ok t') :
    ∃ here name, t.Vacancy p here name ∧ t.kindAt (here ++ [name]) ≠ some .dir ∧
      t.Becomes t' (here ++ [name]) (some (.file content)) := by
  unfold write at h
  dsimp only [bind, Except.bind, pure, Except.pure] at h
  split at h
  · cases h
  next vacancy hvacancy =>
    obtain ⟨here, name⟩ := vacancy
    have hway := vacancy_of_ok hvacancy
    have hbecomes (hplace : t.kindAt (here ++ [name]) ≠ some .dir) :
        t.Becomes { t with root := t.root.put (here ++ [name]) (some (.file content)) }
          (here ++ [name]) (some (.file content)) := by
      refine becomes_put hway.dir hplace fun rest hrest => ?_
      obtain ⟨first, rest, rfl⟩ := List.exists_cons_of_ne_nil hrest
      rfl
    refine ⟨here, name, hway, ?_⟩
    split at h
    · cases h
    next old hfile =>
      have hplace : t.kindAt (here ++ [name]) ≠ some .dir := by
        rw [kindAt, hfile]
        exact fun h => nomatch h
      split at h
      · cases h
      · cases h
        exact ⟨hplace, hbecomes hplace⟩
    next hnone =>
      have hplace : t.kindAt (here ++ [name]) ≠ some .dir := by
        rw [kindAt, hnone]
        exact fun h => nomatch h
      split at h
      · cases h
      · cases h
        exact ⟨hplace, hbecomes hplace⟩

/-- A file is taken away. -/
theorem remove_becomes (hdir : t.kindAt here = some .dir) (hplace : t.kindAt (here ++ [name]) ≠ some .dir) :
    t.Becomes { t with root := t.root.put (here ++ [name]) none } (here ++ [name]) none :=
  becomes_put hdir hplace fun _ _ => rfl

end FileTree

end Hotload
