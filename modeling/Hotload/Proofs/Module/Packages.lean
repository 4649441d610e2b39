import Mathlib
import Hotload.Proofs.Module.Places
import Hotload.Proofs.Module.WatchSet

/-!
# Packages

A specifier that is not relative is looked for in the package directories of a directory and of those
above it. A path that has gone into a package directory stays in it unless it goes up again, so what is
found there is a file of a dependency: it is run as it is and never watched.

* `Path.Below`: the path goes into a directory of some name and not up again behind it.
* `FileTree.exists_of_segments`: the place that such a path leads to lies below a directory of that name.
* `ResolveOptions.FollowsMain`: a specifier is found by way of the description of a package.
* `packages_are_dependencies`: what is found without one is a file of a dependency.
-/

namespace Hotload

/-! ## Segments -/

namespace Text

variable {sep : Char}

/-- What is written behind a text without a separator belongs to its last part. -/
theorem exists_fields_append (as : List Char) {bs : List Char} (h : sep ∉ bs) :
    ∃ front last, fields sep as = front ++ [last] ∧ fields sep (as ++ bs) = front ++ [last ++ bs] := by
  induction as with
  | nil => exact ⟨[], [], rfl, by simpa using fields_of_not_mem h⟩
  | cons c as ih =>
    obtain ⟨front, last, hfields, happend⟩ := ih
    rw [List.cons_append, fields, fields, hfields, happend]
    split
    · exact ⟨[] :: front, last, rfl, rfl⟩
    · cases front with
      | nil => exact ⟨[], c :: last, rfl, rfl⟩
      | cons f fs => exact ⟨(c :: f) :: fs, last, rfl, rfl⟩

/-- Parts without separators are found again behind any others. -/
theorem exists_fields_intercalate (fs : List (List Char)) {gs : List (List Char)} (hne : gs ≠ [])
    (h : ∀ g ∈ gs, sep ∉ g) :
    ∃ before, fields sep ([sep].intercalate (fs ++ gs)) = before ++ gs := by
  induction fs with
  | nil => exact ⟨[], fields_intercalate hne h⟩
  | cons f fs ih =>
    obtain ⟨before, hbefore⟩ := ih
    obtain ⟨g, rest, hrest⟩ := List.exists_cons_of_ne_nil (l := fs ++ gs) (by simp [hne])
    refine ⟨fields sep f ++ before, ?_⟩
    rw [List.cons_append, hrest, List.intercalate_cons_cons, List.append_assoc,
      List.singleton_append, fields_append_sep, ← hrest, hbefore, List.append_assoc]

end Text

namespace Path

variable {p q : Path} {name : String}

/-- The path goes into a directory of this name, and on from there without going up. -/
def Below (name : String) (p : Path) : Prop :=
  ∃ before after, p.segments = before ++ name.toList :: after ∧ after ≠ [] ∧ ['.', '.'] ∉ after

/-- The steps of a path are those that its segments name. -/
theorem mem_components {segment : List Char} {c : Component} (h : segment ∈ p.segments)
    (hc : component? segment = some c) : c ∈ p.components := by
  have hactive : segment ≠ [] ∧ segment ≠ ['.'] := by
    constructor <;> rintro rfl <;> cases hc
  unfold segments at h
  unfold components split
  split
  next head segments hsplit =>
    refine List.mem_append_right _ (List.mem_filterMap.2 ⟨segment, ?_, hc⟩)
    split at hsplit
    next cs hchars =>
      cases hsplit
      simpa [hchars, Text.fields, hactive] using h
    next hchars =>
      cases hsplit
      simp [hchars, Text.fields, hactive] at h
    next cs hchars =>
      cases hsplit
      simpa [hchars, Text.fields, hactive] using h
    next =>
      cases hsplit
      exact h

/-- What is looked for in a directory of some name lies below it. -/
theorem below_join (hne : name ≠ "") (hslash : '/' ∉ name.toList) (hq : q.isAbsolute = false)
    (hup : ['.', '.'] ∉ q.segments) : ((p.join ⟨name⟩).join q).Below name := by
  have hdir : (⟨name⟩ : Path).isAbsolute = false := isAbsolute_of_not_mem hslash
  -- the name stands at the start or behind a slash
  obtain ⟨front, hfront, hends⟩ : ∃ front, (p.join ⟨name⟩).chars = front ++ name.toList ∧
      (front = [] ∨ ∃ cs, front = cs ++ ['/']) := by
    rw [chars_join hdir]
    split
    next h =>
      refine ⟨p.chars, rfl, h.imp_right fun h => ?_⟩
      exact List.getLast?_eq_some_iff.1 h
    next => exact ⟨p.chars ++ ['/'], by simp [chars], .inr ⟨p.chars, rfl⟩⟩
  have hname : name.toList ≠ [] := by simpa using hne
  have hlast : (front ++ name.toList).getLast? ≠ some '/' := by
    rw [List.getLast?_append_of_ne_nil _ hname]
    exact fun h => hslash (List.mem_of_getLast? h)
  have hchars : ((p.join ⟨name⟩).join q).chars = front ++ (name.toList ++ '/' :: q.chars) := by
    have hinner : ¬ (front ++ name.toList = [] ∨ (front ++ name.toList).getLast? = some '/') :=
      fun h => h.elim (fun h => hname (List.append_eq_nil_iff.1 h).2) hlast
    rw [chars_join hq, hfront, if_neg hinner, List.append_assoc]
  have hfields : Text.fields '/' (name.toList ++ '/' :: q.chars) = name.toList :: q.segments :=
    Text.fields_append hslash _
  refine ⟨if front = [] then [] else (Text.fields '/' front).dropLast, q.segments, ?_,
    Text.fields_ne_nil _ _, hup⟩
  rw [segments, hchars]
  rcases hends with rfl | ⟨cs, rfl⟩
  · rw [if_pos rfl, List.nil_append, List.nil_append, hfields]
  · rw [if_neg (by simp), List.append_assoc, List.singleton_append, Text.fields_append_sep, hfields,
      Text.fields_append_sep]
    simp [Text.fields]

/-- An extension changes the last segment only, and makes none that goes up. -/
theorem Below.addExtension (h : p.Below name) {ext : String} (hne : ext ≠ "")
    (hdot : ext.toList.head? ≠ some '.') (hslash : '/' ∉ ext.toList) :
    (p.addExtension ext).Below name := by
  obtain ⟨before, after, hsegments, hafter, hup⟩ := h
  obtain ⟨after, last, rfl⟩ := (List.eq_nil_or_concat' after).resolve_left hafter
  have hchars : (p.addExtension ext).chars = p.chars ++ '.' :: ext.toList := by
    simp [Path.addExtension, chars]
  obtain ⟨front, last', hfields, happend⟩ :=
    Text.exists_fields_append p.chars (show '/' ∉ '.' :: ext.toList by simp [hslash])
  have hlast : front = before ++ name.toList :: after ∧ last' = last := by
    rw [segments, hfields, ← List.cons_append, ← List.append_assoc] at hsegments
    obtain ⟨hfront, hlast⟩ := List.append_inj' hsegments rfl
    exact ⟨hfront, List.singleton_inj.1 hlast⟩
  obtain ⟨rfl, rfl⟩ := hlast
  refine ⟨before, after ++ [last' ++ '.' :: ext.toList], ?_, by simp, fun h => ?_⟩
  · rw [segments, hchars, happend, List.append_assoc, List.cons_append]
  · rcases List.mem_append.1 h with h | h
    · exact hup (List.mem_append_left _ h)
    · have hext : ext.toList ≠ [] := by simpa using hne
      replace h := List.mem_singleton.1 h
      rcases last' with - | ⟨first, - | ⟨second, rest⟩⟩
      · rw [List.nil_append, List.cons.injEq] at h
        rw [← h.2] at hdot
        exact hdot rfl
      · simp only [List.cons_append, List.nil_append, List.cons.injEq] at h
        exact hext h.2.2.symm
      · simp at h

/-- What stands behind a path into a directory of some name lies below it. -/
theorem Below.join (h : p.Below name) (hq : q.isAbsolute = false)
    (hup : ['.', '.'] ∉ q.segments) : (p.join q).Below name := by
  obtain ⟨before, after, hsegments, hafter, hnone⟩ := h
  by_cases hslash : p.chars.getLast? = some '/'
  · -- the slash at the end begins an empty segment, in whose place the second path stands
    obtain ⟨cs, hcs⟩ := List.getLast?_eq_some_iff.1 hslash
    obtain ⟨after, last, rfl⟩ := (List.eq_nil_or_concat' after).resolve_left hafter
    have hfront : Text.fields '/' cs = before ++ name.toList :: after := by
      rw [segments, hcs, Text.fields_append_sep, ← List.cons_append, ← List.append_assoc]
        at hsegments
      exact (List.append_inj' hsegments rfl).1
    refine ⟨before, after ++ q.segments, ?_, by simp [segments, Text.fields_ne_nil], fun h => ?_⟩
    · rw [segments, chars_join hq, if_pos (.inr hslash), hcs, List.append_assoc, List.singleton_append,
        Text.fields_append_sep, hfront, List.append_assoc, List.cons_append, segments]
    · exact (List.mem_append.1 h).elim (fun h => hnone (List.mem_append_left _ h)) hup
  · have hnil : p.chars ≠ [] := by
      intro hnil
      rw [segments, hnil] at hsegments
      have hlength := congrArg List.length hsegments
      have hpos := List.length_pos_iff.2 hafter
      simp only [Text.fields, List.length_cons, List.length_append, List.length_nil] at hlength
      omega
    refine ⟨before, after ++ q.segments, ?_, by simp [hafter], fun h => ?_⟩
    · have hsegments' : Text.fields '/' p.chars = before ++ name.toList :: after := hsegments
      rw [segments, chars_join hq, if_neg (fun h => h.elim hnil hslash), Text.fields_append_sep,
        hsegments', List.append_assoc, List.cons_append, segments]
    · exact (List.mem_append.1 h).elim hnone hup

end Path

namespace FileTree

open Hotload.Path (component? isIdle)

variable {t : FileTree} {names : List String} {p : Path} {name : String}

/-- Steps that do not go up lead on from where they start, by names. -/
theorem exists_foldl_lead {segments : List (List Char)} (hup : ['.', '.'] ∉ segments)
    (hslash : ∀ s ∈ segments, '/' ∉ s) (here : List String) :
    ∃ rest, (segments.filterMap component?).foldl lead here = here ++ rest ∧
      ∀ name ∈ rest, IsName name := by
  induction segments generalizing here with
  | nil => exact ⟨[], (List.append_nil here).symm, by simp⟩
  | cons segment segments ih =>
    obtain ⟨hne, hrest⟩ := not_or.1 (mt List.mem_cons.2 hup)
    have ih (here : List String) := ih hrest (fun s hs => hslash s (List.mem_cons_of_mem _ hs)) here
    by_cases hidle : isIdle segment = true
    · have hnone : component? segment = none := if_pos hidle
      rw [List.filterMap_cons_none hnone]
      exact ih here
    · have hname : component? segment = some (.name (String.ofList segment)) := by
        rw [component?, if_neg hidle, if_neg (Ne.symm hne)]
      obtain ⟨rest, hfold, hvalid⟩ := ih (here ++ [String.ofList segment])
      refine ⟨String.ofList segment :: rest, ?_, fun name h => ?_⟩
      · rw [List.filterMap_cons_some hname, List.foldl_cons, lead, hfold, List.append_assoc,
          List.singleton_append]
      · rcases List.mem_cons.1 h with rfl | h
        · rw [IsName, String.toList_ofList]
          exact ⟨hname, hslash segment List.mem_cons_self⟩
        · exact hvalid name h

/-- A path that goes into a directory of some name, and not up behind it, leads below one if it leads
anywhere. -/
theorem exists_of_segments (hname : IsName name) {before after : List (List Char)}
    (hsegments : p.segments = before ++ name.toList :: after) (hup : ['.', '.'] ∉ after)
    (h : t.locate p = .ok names) :
    ∃ front rest, names = front ++ name :: rest ∧ ∀ other ∈ rest, IsName other := by
  have hslash : ∀ s ∈ after, '/' ∉ s := fun s hs =>
    Text.not_mem_of_mem_fields (show s ∈ p.segments by rw [hsegments]; simp [hs])
  unfold locate at h
  split at h
  · cases h
  · obtain ⟨rest, hrest, hvalid⟩ := exists_foldl_lead hup hslash
      (lead ((before.filterMap component?).foldl lead (t.origin p)) (.name name))
    refine ⟨(before.filterMap component?).foldl lead (t.origin p), rest, ?_, hvalid⟩
    rw [steps_lead h, hsegments, List.filterMap_append, List.filterMap_cons_some hname.1,
      List.foldl_append, List.foldl_cons, hrest, lead, List.append_assoc, List.singleton_append]

/-- The one path of a place below a directory goes into this directory, and not up behind it. -/
theorem exists_segments_pathOf (hname : IsName name) (front : List String) {rest : List String}
    (hrest : ∀ other ∈ rest, IsName other) :
    ∃ before, (pathOf (front ++ name :: rest)).segments =
      before ++ name.toList :: rest.map String.toList := by
  have hslash : ∀ s ∈ (name :: rest).map String.toList, '/' ∉ s := by
    intro s hs
    obtain ⟨other, hother, rfl⟩ := List.mem_map.1 hs
    rcases List.mem_cons.1 hother with rfl | hother
    · exact hname.2
    · exact (hrest other hother).2
  obtain ⟨before, hbefore⟩ := Text.exists_fields_intercalate (front.map String.toList)
    (show (name :: rest).map String.toList ≠ [] by simp) hslash
  refine ⟨[] :: before, ?_⟩
  rw [Path.segments, chars_pathOf, Text.fields, if_pos rfl, List.map_append, hbefore]
  rfl

/-- However a place below a directory is named, and whatever is there by then, the directory's name is
one of the steps. -/
theorem mem_components_normalize (hname : IsName name) {before after : List (List Char)}
    (hsegments : p.segments = before ++ name.toList :: after) (hup : ['.', '.'] ∉ after)
    (habsolute : p.isAbsolute = true) : .name name ∈ (t.normalize p).components := by
  unfold normalize
  split
  next names hlocate =>
    obtain ⟨front, rest, rfl, hrest⟩ := exists_of_segments hname hsegments hup hlocate
    obtain ⟨before, hpath⟩ := exists_segments_pathOf hname front hrest
    exact Path.mem_components (by rw [hpath]; simp) hname.1
  next =>
    rw [if_pos habsolute]
    exact Path.mem_components (by rw [hsegments]; simp) hname.1

end FileTree

/-! ## What is found in packages -/

namespace Options

variable {options : Options}

/-- What the rules say of the names that specifiers are resolved with. -/
theorem rules_of_validate (h : options.validate = .ok ()) :
    isBadDirName options.resolve.packageDir = false ∧
      ∀ ext ∈ options.resolve.extensions, isBadExtension ext = false := by
  have hfault : options.fault? = none := by
    unfold validate at h
    split at h
    · cases h
    · assumption
  unfold fault? at hfault
  split at hfault
  · cases hfault
  · split at hfault
    · cases hfault
    next hextensions =>
      split at hfault
      · cases hfault
      next hname =>
        refine ⟨Bool.eq_false_iff.2 hname, fun ext hext => ?_⟩
        have hgood := List.find?_eq_none.1 hextensions ext (List.mem_append_right _ hext)
        exact Bool.eq_false_iff.2 hgood

/-- A package directory has a name of its own, and an extension none of its own slashes. The rules for
options are meant to say so, but let `.` and `..` and such extensions pass. -/
structure NamesPackages (options : Options) : Prop where
  dot : options.resolve.packageDir ≠ "."
  up : options.resolve.packageDir ≠ ".."
  slash : ∀ ext ∈ options.resolve.extensions, '/' ∉ ext.toList

theorem isName_packageDir (h : options.validate = .ok ()) (hnames : options.NamesPackages) :
    FileTree.IsName options.resolve.packageDir := by
  have hgood := (rules_of_validate h).1
  simp only [isBadDirName, Bool.or_eq_false_iff, decide_eq_false_iff_not, List.any_eq_false,
    Bool.or_eq_true, decide_eq_true_eq, not_or] at hgood
  exact FileTree.isName_of_ne hgood.1 hnames.dot hnames.up fun hslash => (hgood.2 _ hslash).1 rfl

end Options

namespace ResolveOptions

variable {options : Options} {files : FileTree} {specifier : String} {dir base c p : Path}

/-- The file that the description of a package in a directory points to, if both are there. -/
def mainAt? (options : ResolveOptions) (files : FileTree) (base : Path) : Option Path :=
  if files.isDir base then
    (packageMain? files base).bind fun main => options.fileAt? files (base.join ⟨main⟩)
  else none

/-- A specifier is found by way of the description of a package: at the first of its places where there
is anything, no file is there, but a directory with a description that points to one. -/
def FollowsMain (options : ResolveOptions) (files : FileTree) (specifier : String) (dir : Path) :
    Prop :=
  ∃ base, (options.candidates specifier dir).find? (fun base => (options.entryAt? files base).isSome) =
      some base ∧
    options.fileAt? files base = none ∧ (options.mainAt? files base).isSome

/-- What a specifier stands for, unless it is found by way of the description of a package, is a file
at one of its places or an index there. -/
theorem exists_fileAt?_of_find? {options : ResolveOptions}
    (hfind : options.find? files specifier dir = some p)
    (hmain : ¬ options.FollowsMain files specifier dir) :
    ∃ base ∈ options.candidates specifier dir, ∃ c, p = files.normalize c ∧
      (options.fileAt? files base = some c ∨ options.fileAt? files (base.join ⟨"index"⟩) = some c) := by
  obtain ⟨c, hc, rfl⟩ := Option.map_eq_some_iff.1 hfind
  obtain ⟨before, base, after, hsplit, hbase, hbefore⟩ := List.findSome?_eq_some_iff.1 hc
  have hfirst : (options.candidates specifier dir).find?
      (fun base => (options.entryAt? files base).isSome) = some base := by
    refine List.find?_eq_some_iff_append.2 ⟨by rw [hbase]; rfl, before, after, hsplit, fun q hq => ?_⟩
    rw [hbefore q hq]
    rfl
  refine ⟨base, List.mem_of_find?_eq_some hfirst, c, rfl, ?_⟩
  rcases Option.or_eq_some_iff.1 hbase with hfile | ⟨hfile, hindex⟩
  · exact .inl hfile
  · have hnone : options.mainAt? files base = none := by
      by_contra hsome
      exact hmain ⟨base, hfirst, hfile, Option.ne_none_iff_isSome.1 hsome⟩
    unfold indexOf? at hindex
    unfold mainAt? at hnone
    split at hindex
    next hdir =>
      rw [if_pos hdir] at hnone
      rw [hnone, Option.none_or] at hindex
      exact .inr hindex
    next => cases hindex

theorem below_of_fileAt? {name : String} (hvalid : options.validate = .ok ())
    (hnames : options.NamesPackages) (hbase : base.Below name)
    (h : options.resolve.fileAt? files base = some c) : c.Below name := by
  rcases List.mem_cons.1 (List.mem_of_find?_eq_some h) with rfl | hc
  · exact hbase
  · obtain ⟨ext, hext, rfl⟩ := List.mem_map.1 hc
    have hgood := (Options.rules_of_validate hvalid).2 ext hext
    simp only [Options.isBadExtension, Bool.or_eq_false_iff, decide_eq_false_iff_not] at hgood
    exact hbase.addExtension hgood.1 hgood.2 (hnames.slash ext hext)

theorem isAbsolute_of_isRelative (h : isRelative specifier = false) :
    (⟨specifier⟩ : Path).isAbsolute = false := by
  rw [Path.isAbsolute, beq_eq_false_iff_ne]
  intro hhead
  obtain ⟨rest, hrest⟩ := List.head?_eq_some_iff.1 hhead
  have hchars : specifier.toList = '/' :: rest := hrest
  rw [isRelative, hchars] at h
  cases h

/-- What is found for a specifier that is not relative, other than by the description of a package, is
a file of a dependency, also once files have changed and its path is normalized again. -/
theorem isDependency_of_find? (hvalid : options.validate = .ok ()) (hnames : options.NamesPackages)
    (hbare : isRelative specifier = false) (hup : .parent ∉ (⟨specifier⟩ : Path).components)
    (hfind : options.resolve.find? files specifier dir = some p)
    (hmain : ¬ options.resolve.FollowsMain files specifier dir) :
    options.resolve.isDependency p = true ∧
      ∀ later : FileTree, options.resolve.isDependency (later.normalize p) = true := by
  have hname := Options.isName_packageDir hvalid hnames
  have hsegments : ['.', '.'] ∉ (⟨specifier⟩ : Path).segments :=
    fun h => hup (Path.mem_components h rfl)
  obtain ⟨base, hbase, c, rfl, hc⟩ := exists_fileAt?_of_find? hfind hmain
  have hbelow : base.Below options.resolve.packageDir := by
    rw [candidates, if_neg (by simp [hbare])] at hbase
    obtain ⟨ancestor, -, rfl⟩ := List.mem_map.1 hbase
    exact Path.below_join hname.ne_empty hname.2 (isAbsolute_of_isRelative hbare) hsegments
  have hindex : (base.join ⟨"index"⟩).Below options.resolve.packageDir :=
    hbelow.join rfl (by decide)
  obtain ⟨before, after, hpath, -, hstays⟩ : c.Below options.resolve.packageDir :=
    hc.elim (below_of_fileAt? hvalid hnames hbelow) (below_of_fileAt? hvalid hnames hindex)
  have hfile : files.isFile c = true := hc.elim (fun h => List.find?_some h) fun h => List.find?_some h
  obtain ⟨names, hlocate⟩ := Likeness.locate_of_isFile hfile
  obtain ⟨front, rest, rfl, hrest⟩ := FileTree.exists_of_segments hname hpath hstays hlocate
  obtain ⟨before', hpath'⟩ := FileTree.exists_segments_pathOf hname front hrest
  have hstays' : ['.', '.'] ∉ rest.map String.toList := fun h => by
    obtain ⟨other, hother, hother'⟩ := List.mem_map.1 h
    exact (hrest other hother).ne_up hother'
  have hdependency {q : Path} (h : .name options.resolve.packageDir ∈ q.components) :
      options.resolve.isDependency q = true :=
    List.any_eq_true.2 ⟨_, h, decide_eq_true rfl⟩
  rw [FileTree.normalize, hlocate]
  exact ⟨hdependency (Path.mem_components (by rw [hpath']; simp) hname.1), fun later =>
    hdependency (FileTree.mem_components_normalize hname hpath' hstays'
      (FileTree.isAbsolute_pathOf _))⟩

end ResolveOptions

/-! ## What becomes of it -/

namespace CompileCache

variable {σ : Type} [CacheStore σ]

theorem resolve_obtain (cache : CompileCache σ) (p : Path) (source : String) (w : World) :
    (cache.obtain p source w).2.1.resolve = cache.resolve := by
  have hcompile (cache : CompileCache σ) (key : Digest) (w : World) :
      (cache.compile key p source w).2.1.resolve = cache.resolve := by
    unfold compile
    split <;> rfl
  unfold obtain
  dsimp only
  split
  · rfl
  · split
    · rfl
    · exact hcompile _ _ _
    · exact hcompile _ _ _

theorem resolve_load (cache : CompileCache σ) (p : Path) (w : World) :
    (cache.load p w).2.1.resolve = cache.resolve := by
  unfold load
  split
  · rfl
  next source _ =>
    split
    · rfl
    · have hresolve := cache.resolve_obtain p source w
      split
      next hobtain =>
        rw [hobtain] at hresolve
        exact hresolve
      next hobtain =>
        rw [hobtain] at hresolve
        exact hresolve

/-- A file of a dependency is its own code, which no compiler and no store has to do with. -/
theorem load_dependency (cache : CompileCache σ) {p : Path}
    (h : cache.resolve.isDependency p = true) (w : World) :
    cache.load p w = ((w.files.read p).mapError fun e => .read p (.file e), cache, w) := by
  unfold load
  cases w.files.read p with
  | error e => rfl
  | ok text => exact if_pos h

end CompileCache

/-- A module system and its cache tell dependencies as the options do. -/
structure ClassifiesBy (options : Options) (e : ModuleSystem.Outside) : Prop where
  sameOptions : e.2.options = options
  cache : e.2.cache.resolve = options.resolve

theorem systemInvariant_classifiesBy (options : Options) :
    SystemInvariant Set.univ options (ClassifiesBy options) where
  sameFiles _ := trivial
  sameOptions h := h.sameOptions
  same h hsame := ⟨hsame.options.trans h.sameOptions, by rw [hsame.cache]; exact h.cache⟩
  setExports h _ _ := ⟨h.sameOptions, h.cache⟩
  removeExports h _ := ⟨h.sameOptions, h.cache⟩
  withCore h _ := ⟨h.sameOptions, h.cache⟩
  program := by
    intro m p h _
    obtain ⟨world, cache, registry, hafter, hcache, -⟩ := ModuleSystem.after_program p m
    rw [hafter]
    refine ⟨h.sameOptions, ?_⟩
    rcases hcache with rfl | rfl
    · exact h.cache
    · exact (CompileCache.resolve_load _ p m.world).trans h.cache

theorem classifiesBy_serve {options : Options} {m : Machine ModuleSystem}
    (h : ClassifiesBy options (m.world, m.host)) (request : Request) :
    ClassifiesBy options ((ModuleSystem.serve m request).world,
      (ModuleSystem.serve m request).host) := by
  have hserve (hrequest : request.IsServed) :=
    (systemInvariant_classifiesBy options).serve h hrequest
  cases request with
  | load p => exact (hserve trivial).1
  | require specifier dir => exact (hserve trivial).1
  | call callee args => exact (hserve trivial).1
  | release => exact (hserve trivial).1
  | invalidate p => exact ⟨h.sameOptions, h.cache⟩
  | outside f => exact ⟨h.sameOptions, h.cache⟩

theorem Setting.classifiesBy_reached (x : Setting) (history : List Request) :
    ClassifiesBy x.options ((x.reached history).world, (x.reached history).host) := by
  induction history using List.reverseRecOn with
  | nil => exact ⟨rfl, rfl⟩
  | append_singleton history request ih =>
    rw [x.reached_snoc]
    exact classifiesBy_serve ih request

/-- The code of a file of a dependency is its text; nothing else changes when it is asked for. -/
theorem run_code_dependency {m : Machine ModuleSystem} {p : Path}
    (h : m.host.cache.resolve.isDependency p = true) :
    (ModuleSystem.code p).run m =
      ((m.world.files.read p).mapError fun e => .read p (.file e), m) := by
  change (Run.ofExcept (m.host.cache.load p m.world).1).run
    { m with
      world := (m.host.cache.load p m.world).2.2
      host := { m.host with cache := (m.host.cache.load p m.world).2.1 } } = _
  rw [CompileCache.load_dependency _ h]
  exact Prod.ext (Run.outcome_ofExcept _ _) (Run.after_ofExcept _ _)

/-- A file that is found for a specifier, neither relative nor going up, and not by way of the
description of a package, is a file of a dependency. Whatever happens in a system with these options,
at the path that a request for it leads to it is not watched, and its code is its text, which no
compiler is asked about. -/
theorem packages_are_dependencies {options : Options} (hvalid : options.validate = .ok ())
    (hnames : options.NamesPackages) {files : FileTree} {specifier : String} {dir p : Path}
    (hbare : isRelative specifier = false) (hup : .parent ∉ (⟨specifier⟩ : Path).components)
    (hfind : options.resolve.find? files specifier dir = some p)
    (hmain : ¬ options.resolve.FollowsMain files specifier dir) :
    options.resolve.isDependency p = true ∧
      ∀ (x : Setting) (history : List Request), x.options = options → x.watcher.Fresh →
        let m := x.reached history
        let q := m.world.files.normalize p
        m.host.watcher.isWatched q = false ∧
          (ModuleSystem.code q).run m =
            ((m.world.files.read q).mapError fun e => .read q (.file e), m) := by
  obtain ⟨hdependency, hlater⟩ :=
    ResolveOptions.isDependency_of_find? hvalid hnames hbare hup hfind hmain
  refine ⟨hdependency, fun x history hoptions hfresh => ?_⟩
  intro m q
  have hq : options.resolve.isDependency q = true := hlater m.world.files
  constructor
  · have hwatches := (watches_requested_sources x hfresh [] history).2
    by_contra hwatched
    obtain ⟨asker, r, -, hsource, hsame⟩ :=
      (hwatches.watched q).1 (Bool.eq_true_of_not_eq_false hwatched)
    have hcomponents : r.components = q.components := of_decide_eq_true hsame
    rw [ResolveOptions.isDependency, hcomponents, hoptions] at hsource
    rw [ResolveOptions.isDependency, hsource] at hq
    cases hq
  · refine run_code_dependency ?_
    rw [(x.classifiesBy_reached history).cache, hoptions]
    exact hq

/-- A module that requires a file in a package directory. -/
def vendoredModules : Setting where
  heap := .empty
  world := ⟨⟨.dir [("app", .dir [
      ("entry.rl", .file "exports.n = require('dep').n;".toUTF8),
      ("packages", .dir [("dep.rl", .file "exports.n = 1;".toUTF8)])])], []⟩, .empty false, []⟩
  overrides := []
  options := Options.default
  compiler := transpile
  store := .none
  watcher := .ofSubscriber fun _ => true

/-- The dependency is not watched, also once it has been required. -/
theorem vendored_module_is_dependency :
    let p : Path := ⟨"/app/packages/dep.rl"⟩
    let m := vendoredModules.reached [.load ⟨"/app/entry.rl"⟩]
    Options.default.resolve.find? vendoredModules.world.files "dep" ⟨"/app"⟩ = some p ∧
      Options.default.resolve.isDependency p = true ∧
      m.host.watcher.isWatched (m.world.files.normalize p) = false := by
  have hfile : Options.default.resolve.fileAt? vendoredModules.world.files ⟨"/app/packages/dep"⟩ =
      some ⟨"/app/packages/dep.rl"⟩ := by decide
  have hfirst : (Options.default.resolve.candidates "dep" ⟨"/app"⟩).find?
      (fun base => (Options.default.resolve.entryAt? vendoredModules.world.files base).isSome) =
        some ⟨"/app/packages/dep"⟩ := by decide
  have hfind : Options.default.resolve.find? vendoredModules.world.files "dep" ⟨"/app"⟩ =
      some ⟨"/app/packages/dep.rl"⟩ := by decide
  have hmain : ¬ Options.default.resolve.FollowsMain vendoredModules.world.files "dep" ⟨"/app"⟩ := by
    rintro ⟨base, hbase, hnone, -⟩
    obtain rfl := Option.some.inj (hfirst.symm.trans hbase)
    rw [hfile] at hnone
    cases hnone
  have hvalid : Options.default.validate = .ok () := by rfl
  have hnames : Options.default.NamesPackages := ⟨by decide, by decide, by decide⟩
  obtain ⟨hdependency, hsystem⟩ :=
    packages_are_dependencies hvalid hnames (by decide) (by decide) hfind hmain
  have hunwatched (history : List Request) := (hsystem vendoredModules history rfl ⟨rfl, rfl⟩).1
  exact ⟨hfind, hdependency, hunwatched _⟩

/-- Options whose package directory is the directory above. -/
def packagesAbove : Options := { Options.default with resolve := ⟨["rl", "json"], ".."⟩ }

/-- Such options pass the rules, and what is found in the directory above is no file of a dependency. -/
theorem package_directory_above_is_accepted :
    let files : FileTree := ⟨.dir [("app", .dir []), ("dep.rl", .file "exports.n = 1;".toUTF8)], []⟩
    packagesAbove.validate = .ok () ∧ isRelative "dep" = false ∧
      .parent ∉ (⟨"dep"⟩ : Path).components ∧
      packagesAbove.resolve.find? files "dep" ⟨"/app"⟩ = some ⟨"/dep.rl"⟩ ∧
      ¬ packagesAbove.resolve.FollowsMain files "dep" ⟨"/app"⟩ ∧
      packagesAbove.resolve.isDependency ⟨"/dep.rl"⟩ = false := by
  intro files
  refine ⟨by rfl, by decide, by decide, by decide, ?_, by decide⟩
  rintro ⟨base, hbase, hnone, -⟩
  have hfirst : (packagesAbove.resolve.candidates "dep" ⟨"/app"⟩).find?
      (fun base => (packagesAbove.resolve.entryAt? files base).isSome) = some ⟨"/app/../dep"⟩ := by
    decide
  obtain rfl := Option.some.inj (hfirst.symm.trans hbase)
  revert hnone
  decide

end Hotload
