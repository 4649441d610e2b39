import Hotload.Natives
import Hotload.Proofs.Cache.Directories

/-!
# Joined paths

Texts are joined to a path, and the path is cleaned: dots go, and a parent step takes back the name in
front of it. What is left are the steps of a clean path, and to clean earlier changes nothing that later
steps can take back.

* `Path.steps`, `Path.steps_join`: the steps of a path but for its dots.
* `Path.foldl_cleaned`: cleaned steps do what the steps do, if a parent step undoes a name.
* `Path.Tidy`, `Path.steps_clean`: what cleaning leaves, and that it is what the clean path spells.
* `joined_paths_are_clean`: `path.join` normalizes, and is associative.
-/

namespace Hotload

namespace Path

variable {p q : Path} {done : List Component} {c : Component} {name : String}

/-! ## Steps -/

/-- The steps of a path but for its dots. -/
def steps (p : Path) : List Component :=
  (if p.isAbsolute then [.root] else []) ++ p.segments.filterMap component?

/-- A dot is counted only where a relative path starts with it. -/
theorem components_eq (p : Path) :
    p.components =
      if p.isAbsolute = false ∧ p.segments.head? = some ['.'] then .current :: p.steps else p.steps := by
  have hdot : component? ['.'] = none := rfl
  have hempty : component? [] = none := rfl
  obtain ⟨head, segments, hsplit⟩ : ∃ head segments, p.split = (head, segments) := ⟨_, _, rfl⟩
  rw [components, hsplit, steps, isAbsolute, Path.segments]
  unfold split at hsplit
  split at hsplit
  next rest hchars =>
    cases hsplit
    simp [hchars, Text.fields, hempty]
  next hchars =>
    cases hsplit
    simp [hchars, Text.fields, hdot]
  next rest hchars =>
    cases hsplit
    simp [hchars, Text.fields, hdot, hempty]
  next hroot hlone hdots =>
    cases hsplit
    have hrelative : p.chars.head? ≠ some '/' := by
      intro hhead
      obtain ⟨rest, hrest⟩ := List.head?_eq_some_iff.1 hhead
      exact hroot rest hrest
    have hfirst : (Text.fields '/' p.chars).head? ≠ some ['.'] := by
      intro hhead
      obtain ⟨rest, hrest⟩ := List.head?_eq_some_iff.1 hhead
      have hjoin := Text.joinFields_fields '/' p.chars
      rw [hrest] at hjoin
      cases rest with
      | nil => exact hlone hjoin.symm
      | cons f fs => exact hdots _ hjoin.symm
    simp [hrelative, hfirst]

theorem foldl_components {α : Type} {f : α → Component → α} (hcurrent : ∀ b, f b .current = b)
    (p : Path) (b : α) : p.components.foldl f b = p.steps.foldl f b := by
  rw [components_eq]
  split
  · rw [List.foldl_cons, hcurrent]
  · rfl

theorem steps_relative (hp : p.isAbsolute = false) : p.steps = p.segments.filterMap component? := by
  rw [steps, hp]
  rfl

theorem component?_ne_root (segment : List Char) : component? segment ≠ some .root := by
  unfold component?
  split
  · simp
  · split <;> simp

theorem root_mem_steps : .root ∈ p.steps ↔ p.isAbsolute = true := by
  have hsegments : .root ∉ p.segments.filterMap component? := by
    intro hmem
    obtain ⟨segment, -, hroot⟩ := List.mem_filterMap.1 hmem
    exact component?_ne_root segment hroot
  rw [steps, List.mem_append, or_iff_left hsegments]
  split
  next h => simp [h]
  next h => simp [h]

/-! ## Joining -/

theorem empty_join (q : Path) : (⟨""⟩ : Path).join q = q := by
  simp [join]

theorem join_absolute (hq : q.isAbsolute = true) : p.join q = q := if_pos hq

/-- The steps of a relative path stand behind those of the path that it is joined to. -/
theorem steps_join (hq : q.isAbsolute = false) : (p.join q).steps = p.steps ++ q.steps := by
  have hinside : p.inside.filterMap component? = p.segments.filterMap component? := by
    have hempty : [[]].filterMap component? = [] := rfl
    rcases p.segments_inside with h | h
    · rw [h]
    · rw [h, List.filterMap_append, hempty, List.append_nil]
  rw [steps, isAbsolute_join_relative hq, segments_join_relative hq, List.filterMap_append, hinside,
    ← List.append_assoc, ← steps, steps_relative hq]

/-- Texts joined one after another. -/
def joinAll (texts : List String) : Path := texts.foldl (fun p s => p.join ⟨s⟩) ⟨""⟩

/-! ## Cleaning -/

/-- The steps that are left of a path, the last one first. -/
def cleaned (p : Path) : List Component := p.steps.foldl cleanStep []

theorem clean_eq (p : Path) : p.clean = ofComponents p.cleaned.reverse := by
  rw [clean, foldl_components (fun _ => rfl), cleaned]

theorem clean_congr (h : p.cleaned = q.cleaned) : p.clean = q.clean := by
  rw [clean_eq, clean_eq, h]

/-- Cleaned steps do what the steps do, where a dot does nothing and a parent step undoes a name. -/
theorem foldl_cleaned {α : Type} {f : α → Component → α} (hcurrent : ∀ b, f b .current = b)
    (hparent : ∀ b name, f (f b (.name name)) .parent = b) (steps : List Component) (b : α) :
    (steps.foldl cleanStep done).reverse.foldl f b = steps.foldl f (done.reverse.foldl f b) := by
  have hstep (done : List Component) (c : Component) :
      (cleanStep done c).reverse.foldl f b = f (done.reverse.foldl f b) c := by
    unfold cleanStep
    split
    · rw [hcurrent]
    next name done =>
      rw [List.reverse_cons, List.foldl_append]
      exact (hparent _ name).symm
    next => rw [List.reverse_cons, List.foldl_append]; rfl
  induction steps generalizing done with
  | nil => rfl
  | cons c steps ih => rw [List.foldl_cons, ih, hstep, List.foldl_cons]

theorem root_mem_foldl_cleanStep (steps : List Component) :
    .root ∈ steps.foldl cleanStep done ↔ .root ∈ done ∨ .root ∈ steps := by
  induction steps generalizing done with
  | nil => simp
  | cons c steps ih =>
    have hstep : .root ∈ cleanStep done c ↔ .root ∈ done ∨ .root = c := by
      unfold cleanStep
      split <;> simp [or_comm]
    rw [List.foldl_cons, ih, hstep, List.mem_cons, or_assoc]

/-- Cleaned steps, the last one first: the root is the first step or none, no parent step is right behind
a name, and there are no dots. -/
inductive Tidy : List Component → Prop where
  | nil : Tidy []
  | root : Tidy [.root]
  | parent {done : List Component} (h : Tidy done) (hname : ∀ name, done.head? ≠ some (.name name)) :
    Tidy (.parent :: done)
  | name {done : List Component} {name : String} (h : Tidy done) (hname : FileTree.IsName name) :
    Tidy (.name name :: done)

theorem cleanStep_parent (h : ∀ name, done.head? ≠ some (.name name)) :
    cleanStep done .parent = .parent :: done := by
  unfold cleanStep
  split
  next heq => cases heq
  next name _ _ => exact absurd rfl (h name)
  next => rfl

/-- A step that a segment names keeps cleaned steps as they should be. -/
theorem Tidy.step {segment : List Char} (h : Tidy done) (hslash : '/' ∉ segment)
    (hc : component? segment = some c) : Tidy (cleanStep done c) := by
  cases c with
  | root => exact absurd hc (component?_ne_root segment)
  | current => exact h
  | parent =>
    cases h with
    | nil => exact .parent .nil (by simp)
    | root => exact .parent .root (by simp)
    | parent h hname => exact .parent (.parent h hname) (by simp)
    | name h hname => exact h
  | name name =>
    obtain rfl := FileTree.name_of_component hc
    refine .name h ⟨?_, ?_⟩
    · rwa [String.toList_ofList]
    · rwa [String.toList_ofList]

theorem Tidy.run {segments : List (List Char)} (h : Tidy done) (hslash : ∀ s ∈ segments, '/' ∉ s) :
    Tidy ((segments.filterMap component?).foldl cleanStep done) := by
  induction segments generalizing done with
  | nil => exact h
  | cons segment segments ih =>
    have hrest : ∀ s ∈ segments, '/' ∉ s := fun s hs => hslash s (List.mem_cons_of_mem _ hs)
    cases hc : component? segment with
    | none =>
      rw [List.filterMap_cons_none hc]
      exact ih h hrest
    | some c =>
      rw [List.filterMap_cons_some hc]
      exact ih (h.step (hslash segment List.mem_cons_self) hc) hrest

theorem tidy_cleaned (p : Path) : Tidy p.cleaned := by
  have hsegments : ∀ s ∈ p.segments, '/' ∉ s := fun s hs => Text.not_mem_of_mem_fields hs
  rw [cleaned, steps, List.foldl_append]
  split
  · exact Tidy.root.run hsegments
  · exact Tidy.nil.run hsegments

/-- There is nothing left to clean. -/
theorem Tidy.foldl_cleanStep (h : Tidy done) : done.reverse.foldl cleanStep [] = done := by
  induction h with
  | nil => rfl
  | root => rfl
  | parent _ hname ih => rw [List.reverse_cons, List.foldl_append, ih]; exact cleanStep_parent hname
  | name _ _ ih => rw [List.reverse_cons, List.foldl_append, ih]; rfl

theorem Tidy.current_not_mem (h : Tidy done) : .current ∉ done := by
  induction h with
  | nil => simp
  | root => simp
  | parent _ _ ih => simpa using ih
  | name _ _ ih => simpa using ih

theorem Tidy.not_infix (h : Tidy done) (name : String) : ¬ [.parent, .name name] <:+: done := by
  induction h with
  | nil => simp
  | root => simp [List.infix_cons_iff]
  | parent _ hname ih =>
    rw [List.infix_cons_iff]
    rintro (⟨rest, hrest⟩ | hinfix)
    · obtain rfl : .name name :: rest = _ := (List.cons.inj hrest).2
      exact hname name rfl
    · exact ih hinfix
  | name _ _ ih =>
    rw [List.infix_cons_iff]
    rintro (⟨rest, hrest⟩ | hinfix)
    · cases hrest
    · exact ih hinfix

/-! ## The text of cleaned steps -/

theorem ofComponents_concat (cs : List Component) (c : Component) :
    ofComponents (cs ++ [c]) = (ofComponents cs).join ⟨c.text⟩ := by
  cases cs with
  | nil => exact (empty_join _).symm
  | cons first cs => simp [ofComponents]

/-- A parent step or a name has one segment in the text, which names it. -/
theorem segment_of_step (hc : c = .parent ∨ ∃ name, c = .name name ∧ FileTree.IsName name) :
    component? c.text.toList = some c ∧ '/' ∉ c.text.toList := by
  rcases hc with rfl | ⟨name, rfl, hname⟩
  · decide
  · exact hname

/-- Steps are read off the text that is made of them, and none of its segments is a dot. -/
theorem Tidy.spelt (h : Tidy done) :
    (ofComponents done.reverse).steps = done.reverse ∧ ['.'] ∉ (ofComponents done.reverse).segments := by
  have hmore {done c} (ih : (ofComponents done.reverse).steps = done.reverse ∧
      ['.'] ∉ (ofComponents done.reverse).segments)
      (hc : c = .parent ∨ ∃ name, c = .name name ∧ FileTree.IsName name) :
      (ofComponents (c :: done).reverse).steps = (c :: done).reverse ∧
        ['.'] ∉ (ofComponents (c :: done).reverse).segments := by
    obtain ⟨hcomponent, hslash⟩ := segment_of_step hc
    have hrelative := isAbsolute_of_not_mem hslash
    have hsegments : (⟨c.text⟩ : Path).segments = [c.text.toList] := Text.fields_of_not_mem hslash
    rw [List.reverse_cons, ofComponents_concat]
    constructor
    · rw [steps_join hrelative, ih.1, steps, hrelative, hsegments, List.filterMap_cons_some hcomponent]
      rfl
    · rw [segments_join hslash, List.mem_append, not_or, List.mem_singleton]
      constructor
      · intro hmem
        refine ih.2 ?_
        rcases segments_inside (ofComponents done.reverse) with hinside | hinside
        · rwa [hinside]
        · rw [hinside]
          exact List.mem_append_left _ hmem
      · intro hdot
        rw [← hdot] at hcomponent
        cases hcomponent
  induction h with
  | nil => decide
  | root => decide
  | parent _ _ ih => exact hmore ih (.inl rfl)
  | name _ hname ih => exact hmore ih (.inr ⟨_, rfl, hname⟩)

theorem steps_clean (p : Path) : p.clean.steps = p.cleaned.reverse := by
  rw [clean_eq]
  exact (tidy_cleaned p).spelt.1

theorem dot_not_mem_clean (p : Path) : ['.'] ∉ p.clean.segments := by
  rw [clean_eq]
  exact (tidy_cleaned p).spelt.2

theorem components_clean (p : Path) : p.clean.components = p.cleaned.reverse := by
  have hfirst : p.clean.segments.head? ≠ some ['.'] := fun h =>
    dot_not_mem_clean p (List.mem_of_mem_head? h)
  rw [components_eq, if_neg fun h => hfirst h.2, steps_clean]

theorem isAbsolute_clean (p : Path) : p.clean.isAbsolute = p.isAbsolute := by
  rw [Bool.eq_iff_iff, ← root_mem_steps, ← root_mem_steps, steps_clean, List.mem_reverse, cleaned,
    root_mem_foldl_cleanStep]
  simp

theorem cleaned_clean (p : Path) : p.clean.cleaned = p.cleaned := by
  rw [cleaned, steps_clean]
  exact (tidy_cleaned p).foldl_cleanStep

theorem clean_clean (p : Path) : p.clean.clean = p.clean :=
  clean_congr (cleaned_clean p)

/-! ## Joining and cleaning -/

theorem cleaned_join (p q : Path) :
    (p.join q).cleaned = if q.isAbsolute then q.cleaned else q.steps.foldl cleanStep p.cleaned := by
  split
  next hq => rw [join_absolute hq]
  next hq => rw [cleaned, steps_join (by simpa using hq), List.foldl_append, ← cleaned]

theorem cleaned_clean_join (p q : Path) : (p.clean.join q).cleaned = (p.join q).cleaned := by
  rw [cleaned_join, cleaned_join, cleaned_clean]

/-- Cleaning the second path first takes nothing away that the first one could take back. -/
theorem cleaned_join_clean (p q : Path) : (p.join q.clean).cleaned = (p.join q).cleaned := by
  have hsteps : q.clean.steps.foldl cleanStep p.cleaned = q.steps.foldl cleanStep p.cleaned := by
    rw [steps_clean, cleaned]
    exact foldl_cleaned (fun _ => rfl) (fun _ _ => rfl) q.steps p.cleaned
  rw [cleaned_join, cleaned_join, isAbsolute_clean, cleaned_clean, hsteps]

theorem cleaned_join_assoc (a b c : Path) : (a.join (b.join c)).cleaned = ((a.join b).join c).cleaned := by
  cases hc : c.isAbsolute with
  | true => rw [join_absolute hc, join_absolute hc, join_absolute hc]
  | false =>
    cases hb : b.isAbsolute with
    | true =>
      rw [join_absolute hb, join_absolute ((isAbsolute_join_relative hc).trans hb)]
    | false =>
      rw [cleaned, cleaned, steps_join ((isAbsolute_join_relative hc).trans hb), steps_join hc,
        steps_join hc, steps_join hb, List.append_assoc]

/-- A joined path leads to where its parts lead one after the other. -/
theorem foldl_lead_join (p q : Path) (here : List String) :
    (p.join q).components.foldl FileTree.lead here =
      q.components.foldl FileTree.lead (p.components.foldl FileTree.lead here) := by
  simp only [foldl_components (f := FileTree.lead) fun _ => rfl]
  cases hq : q.isAbsolute with
  | true =>
    rw [join_absolute hq, steps, hq]
    rfl
  | false => rw [steps_join hq, List.foldl_append]

theorem foldl_lead_clean (p : Path) (here : List String) :
    p.clean.components.foldl FileTree.lead here = p.components.foldl FileTree.lead here := by
  have hparent (here : List String) (name : String) :
      FileTree.lead (FileTree.lead here (.name name)) .parent = here := by
    simp [FileTree.lead]
  rw [components_clean, cleaned, foldl_cleaned (fun _ => rfl) hparent, foldl_components fun _ => rfl]
  rfl

theorem foldl_lead_joinAll (texts : List String) (here : List String) :
    (joinAll texts).components.foldl FileTree.lead here =
      texts.foldl (fun here s => (Path.mk s).components.foldl FileTree.lead here) here := by
  induction texts using List.reverseRecOn with
  | nil => rfl
  | append_singleton texts s ih =>
    rw [List.foldl_append, ← ih, joinAll, List.foldl_append, ← joinAll]
    exact foldl_lead_join _ _ _

end Path

/-! ## The native function -/

namespace Native

theorem stringArgs_str (texts : List String) : stringArgs (texts.map .str) = .ok texts := by
  have hall (indices : List Nat) (h : ∀ i ∈ indices, i < texts.length) :
      indices.mapM (stringArg (texts.map .str)) = .ok (indices.map fun i => texts[i]?.getD "") := by
    induction indices with
    | nil => rfl
    | cons i indices ih =>
      have hi : stringArg (texts.map .str) i = .ok (texts[i]?.getD "") := by
        simp [stringArg, h i List.mem_cons_self]
      rw [List.mapM_cons, hi, ih fun i hi => h i (List.mem_cons_of_mem _ hi)]
      rfl
  rw [stringArgs, List.length_map, hall _ fun i hi => List.mem_range.1 hi]
  refine congrArg Except.ok (List.ext_getElem (by simp) fun i _ hi => ?_)
  simp [hi]

theorem apply_pathJoin (texts : List String) (h : Heap) :
    pathJoin.apply (texts.map .str) h = .ok (.str (Path.joinAll texts).clean.text, h) := by
  simp only [apply, stringArgs_str]
  rfl

end Native

/-- Joined texts give a path without dots, and without parent steps right behind names, which joined
alone stays as it is and leads to where the texts lead one after the other. It does not matter which of
three texts are joined first. -/
theorem joined_paths_are_clean (h : Heap) :
    (∀ texts : List String, ∃ r : Path,
      Native.pathJoin.apply (texts.map .str) h = .ok (.str r.text, h) ∧
        ['.'] ∉ r.segments ∧ .current ∉ r.components ∧
        (∀ name, ¬ [.name name, .parent] <:+: r.components) ∧
        Native.pathJoin.apply [.str r.text] h = .ok (.str r.text, h) ∧
        ∀ here, r.components.foldl FileTree.lead here =
          texts.foldl (fun here s => (Path.mk s).components.foldl FileTree.lead here) here) ∧
      ∀ a b c : String, ∃ ab bc abc : String,
        Native.pathJoin.apply [.str a, .str b] h = .ok (.str ab, h) ∧
          Native.pathJoin.apply [.str b, .str c] h = .ok (.str bc, h) ∧
          Native.pathJoin.apply [.str a, .str b, .str c] h = .ok (.str abc, h) ∧
          Native.pathJoin.apply [.str ab, .str c] h = .ok (.str abc, h) ∧
          Native.pathJoin.apply [.str a, .str bc] h = .ok (.str abc, h) := by
  constructor
  · intro texts
    have hclean := Path.components_clean (Path.joinAll texts)
    have htidy := Path.tidy_cleaned (Path.joinAll texts)
    refine ⟨(Path.joinAll texts).clean, Native.apply_pathJoin texts h, Path.dot_not_mem_clean _, ?_, ?_,
      ?_, fun here => ?_⟩
    · rw [hclean, List.mem_reverse]
      exact htidy.current_not_mem
    · intro name
      rw [hclean, ← List.reverse_infix, List.reverse_reverse]
      exact htidy.not_infix name
    · have halone := Native.apply_pathJoin [(Path.joinAll texts).clean.text] h
      have hjoin : Path.joinAll [(Path.joinAll texts).clean.text] = (Path.joinAll texts).clean :=
        Path.empty_join _
      rwa [hjoin, Path.clean_clean] at halone
    · rw [Path.foldl_lead_clean, Path.foldl_lead_joinAll]
  · intro a b c
    have hpair (x y : String) : Path.joinAll [x, y] = (Path.mk x).join ⟨y⟩ :=
      congrArg (Path.join · ⟨y⟩) (Path.empty_join ⟨x⟩)
    have hall : Path.joinAll [a, b, c] = ((Path.mk a).join ⟨b⟩).join ⟨c⟩ :=
      congrArg (Path.join · ⟨c⟩) (hpair a b)
    have hfirst : (Path.joinAll [(Path.joinAll [a, b]).clean.text, c]).clean =
        (Path.joinAll [a, b, c]).clean := by
      rw [hpair, hall, ← hpair a b]
      exact Path.clean_congr (Path.cleaned_clean_join _ _)
    have hlast : (Path.joinAll [a, (Path.joinAll [b, c]).clean.text]).clean =
        (Path.joinAll [a, b, c]).clean := by
      rw [hpair, hall, ← Path.clean_congr (Path.cleaned_join_assoc ⟨a⟩ ⟨b⟩ ⟨c⟩), ← hpair b c]
      exact Path.clean_congr (Path.cleaned_join_clean _ _)
    refine ⟨_, _, _, Native.apply_pathJoin [a, b] h, Native.apply_pathJoin [b, c] h,
      Native.apply_pathJoin [a, b, c] h, ?_, ?_⟩
    · rw [← hfirst]
      exact Native.apply_pathJoin [_, c] h
    · rw [← hlast]
      exact Native.apply_pathJoin [a, _] h

/-- A parent step takes back the directory in front of it, and a leading dot goes. -/
example : (Path.joinAll ["/a/b", "../c", "./d.rl"]).clean.text = "/a/c/d.rl" := by decide +kernel

end Hotload
