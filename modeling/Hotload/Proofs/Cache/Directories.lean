import Hotload.Proofs.Cache.Changes

/-!
# Files in a directory

A file in a directory is read by way of the directory's path, whatever its own name is. Making missing
directories changes nothing that is read in them, unless the path goes up out of one that is missing.

* `Path.inside`: the way to what stands in a directory.
* `FileTree.Opens.read_join`: what is read in a directory that is there.
* `FileTree.Detours`: a path goes up out of a missing directory.
* `FileTree.readsAlike_ensureDirs`: what making the directories of a path leaves alone.
* `FileTree.write_join`, `FileTree.Opens.rename_join`, `FileTree.Opens.removeFile_join`: how files in a
  directory change.
-/

namespace Hotload

theorem Text.joinFields_append (sep : Char) {fs gs : List (List Char)} (hfs : fs ≠ []) (hgs : gs ≠ []) :
    joinFields sep (fs ++ gs) = joinFields sep fs ++ sep :: joinFields sep gs := by
  induction fs with
  | nil => exact absurd rfl hfs
  | cons f fs ih =>
    cases fs with
    | nil =>
      obtain ⟨g, gs, rfl⟩ := List.exists_cons_of_ne_nil hgs
      rfl
    | cons g fs =>
      have hrest := ih (by simp)
      simp only [List.cons_append, joinFields] at hrest ⊢
      rw [hrest, List.append_assoc, List.cons_append]

namespace Path

variable {dir p q : Path} {name : String}

/-- The segments in front of the name of what stands in a directory. -/
def inside (dir : Path) : List (List Char) :=
  if dir.chars = [] then []
  else if dir.chars.getLast? = some '/' then dir.segments.dropLast
  else dir.segments

theorem segments_inside (dir : Path) : dir.segments = dir.inside ∨ dir.segments = dir.inside ++ [[]] := by
  unfold inside
  split
  next hempty =>
    rw [segments, hempty]
    exact .inr rfl
  · split
    next hslash =>
      obtain ⟨cs, hcs⟩ := List.getLast?_eq_some_iff.1 hslash
      rw [segments, hcs, Text.fields_append_sep]
      exact .inr (by simp [Text.fields])
    next => exact .inl rfl

/-- The segments of a relative path stand behind those in front of what stands in the directory. -/
theorem segments_join_relative (hq : q.isAbsolute = false) :
    (dir.join q).segments = dir.inside ++ q.segments := by
  rw [segments, chars_join hq]
  unfold inside
  split
  next h =>
    rcases h with hempty | hend
    · rw [if_pos hempty, hempty]
      rfl
    · obtain ⟨cs, hcs⟩ := List.getLast?_eq_some_iff.1 hend
      rw [if_neg (by simp [hcs]), if_pos hend, segments, hcs, List.append_assoc, List.singleton_append,
        Text.fields_append_sep, Text.fields_append_sep]
      simp [Text.fields, segments]
  next h =>
    obtain ⟨hempty, hend⟩ := not_or.1 h
    rw [if_neg hempty, if_neg hend, Text.fields_append_sep, segments, segments]

theorem segments_join (hslash : '/' ∉ name.toList) :
    (dir.join ⟨name⟩).segments = dir.inside ++ [name.toList] := by
  have hname : (⟨name⟩ : Path).segments = [name.toList] := Text.fields_of_not_mem hslash
  rw [segments_join_relative (isAbsolute_of_not_mem hslash), hname]

theorem isAbsolute_join_relative (hq : q.isAbsolute = false) :
    (dir.join q).isAbsolute = dir.isAbsolute := by
  rw [isAbsolute, chars_join hq, isAbsolute]
  cases hdir : dir.chars with
  | nil => exact hq
  | cons c cs => split <;> rfl

theorem isAbsolute_join (hslash : '/' ∉ name.toList) :
    (dir.join ⟨name⟩).isAbsolute = dir.isAbsolute :=
  isAbsolute_join_relative (isAbsolute_of_not_mem hslash)

theorem text_join_ne (hne : name ≠ "") (hslash : '/' ∉ name.toList) : (dir.join ⟨name⟩).text ≠ "" := by
  intro h
  have hchars := chars_join (p := dir) (isAbsolute_of_not_mem hslash)
  have hname : name.toList ≠ [] := by simpa using hne
  rw [chars, h] at hchars
  split at hchars
  · exact hname (List.append_eq_nil_iff.1 hchars.symm).2
  · simp at hchars

theorem addExtension_join (hslash : '/' ∉ name.toList) (ext : String) :
    (dir.join ⟨name⟩).addExtension ext = dir.join ⟨name ++ "." ++ ext⟩ := by
  have hlonger : (⟨name ++ "." ++ ext⟩ : Path).isAbsolute = false := by
    have hchars : (⟨name ++ "." ++ ext⟩ : Path).chars = name.toList ++ '.' :: ext.toList := by
      simp [chars]
    rw [isAbsolute, hchars]
    cases hname : name.toList with
    | nil => rfl
    | cons c cs =>
      rw [hname] at hslash
      exact beq_false_of_ne fun h => hslash (by cases h; exact List.mem_cons_self)
  simp only [addExtension, join, hlonger, isAbsolute_of_not_mem hslash, Bool.false_eq_true, if_false]
  split <;> simp only [String.append_assoc]

/-! ## Directories above a path -/

theorem dropIdle_starts (segments : List (List Char)) : dropIdle segments <+: segments := by
  have h := (List.dropWhile_suffix isIdle (l := segments.reverse)).reverse
  rwa [List.reverse_reverse] at h

/-- A path is written by its start and its segments. -/
theorem chars_split (p : Path) : p.chars = p.split.1 ++ Text.joinFields '/' p.split.2 := by
  unfold split
  split
  next cs h =>
    rw [h, Text.joinFields_fields]
    rfl
  next h => exact h
  next cs h =>
    have hjoin := Text.joinFields_append '/' (List.cons_ne_nil [] []) (Text.fields_ne_nil '/' cs)
    rw [Text.joinFields_fields] at hjoin
    exact h.trans (congrArg ('.' :: ·) hjoin.symm)
  next =>
    rw [Text.joinFields_fields]
    rfl

/-- The parent of a path stands in front of a slash in its text, or is all of it, or the root. -/
theorem chars_parent? (h : p.parent? = some q) :
    q.chars = p.chars ∨ (∃ cs, p.chars = q.chars ++ '/' :: cs) ∨ q.text = "" ∨ q.text = "/" := by
  have hchars := p.chars_split
  unfold parent? at h
  cases hsplit : p.split with
  | mk head segments =>
  rw [hsplit] at h hchars
  dsimp only at h hchars
  split at h
  · split at h
    · cases h
      exact .inr (.inr (.inl rfl))
    · cases h
  next s ss hdrop =>
    have hstarts : dropIdle (s :: ss).dropLast <+: segments := by
      have hidle := dropIdle_starts segments
      have hinit := List.dropLast_prefix (s :: ss)
      rw [hdrop] at hidle
      exact (dropIdle_starts _).trans (hinit.trans hidle)
    generalize dropIdle (s :: ss).dropLast = front at h hstarts
    cases h
    have hq : (ofSplit head front).chars = head ++ Text.joinFields '/' front := String.toList_ofList
    obtain ⟨rest, rfl⟩ := hstarts
    by_cases hfront : front = []
    · subst hfront
      unfold split at hsplit
      split at hsplit
      next => cases hsplit; exact .inr (.inr (.inr rfl))
      next => cases hsplit; cases hdrop
      next cs hdot => cases hsplit; exact .inr (.inl ⟨cs, hdot⟩)
      next => cases hsplit; exact .inr (.inr (.inl rfl))
    · by_cases hrest : rest = []
      · rw [hrest, List.append_nil] at hchars
        exact .inl (hq.trans hchars.symm)
      · rw [Text.joinFields_append '/' hfront hrest, ← List.append_assoc, ← hq] at hchars
        exact .inr (.inl ⟨_, hchars⟩)

/-- A path is written by segments in front of those of another one, or is the root or empty. -/
def LeadsTo (q p : Path) : Prop :=
  q.segments <+: p.segments ∧ q.isAbsolute = p.isAbsolute ∨ q.text = "" ∨ q.text = "/"

theorem leadsTo_parent? (h : p.parent? = some q) : q.LeadsTo p := by
  rcases chars_parent? h with hsame | ⟨cs, hcs⟩ | h
  · refine .inl ⟨?_, ?_⟩
    · rw [segments, segments, hsame]
    · rw [isAbsolute, isAbsolute, hsame]
  · by_cases hempty : q.chars = []
    · exact .inr (.inl (String.toList_eq_nil_iff.1 hempty))
    · refine .inl ⟨⟨Text.fields '/' cs, ?_⟩, ?_⟩
      · rw [segments, segments, hcs, Text.fields_append_sep]
      · rw [isAbsolute, isAbsolute, hcs, List.head?_append_of_ne_nil _ hempty]
  · exact .inr h

theorem LeadsTo.trans (hp : p.LeadsTo dir) (hq : p.parent? = some q) : q.LeadsTo dir := by
  rcases hp with ⟨hstarts, habsolute⟩ | hempty | hroot
  · exact (leadsTo_parent? hq).imp_left fun h => ⟨h.1.trans hstarts, h.2.trans habsolute⟩
  · obtain rfl : p = ⟨""⟩ := by cases p; cases hempty; rfl
    cases hq
  · obtain rfl : p = ⟨"/"⟩ := by cases p; cases hroot; rfl
    cases hq

theorem leadsTo_of_mem_ancestors (h : q ∈ dir.ancestors) : q.LeadsTo dir := by
  have hall (n : Nat) (p : Path) (hp : p.LeadsTo dir) (h : q ∈ ancestorsUpTo n p) : q.LeadsTo dir := by
    induction n generalizing p with
    | zero => cases h
    | succ n ih =>
      rw [ancestorsUpTo] at h
      rcases List.mem_cons.1 h with rfl | h
      · exact hp
      · split at h
        next r hr => exact ih r (hp.trans hr) h
        next => cases h
  exact hall _ _ (.inl ⟨List.prefix_refl _, rfl⟩) h

end Path

namespace FileTree

open Hotload.Path (component? isIdle)

variable {t t' : FileTree} {dir : Path} {name : String} {here : List String}

/-- What reading finds at a place. -/
def readKind : Option Kind → Except FileError String
  | none => .error .notFound
  | some .dir => .error .isDirectory
  | some (.file content) =>
    match String.fromUTF8? content with
    | some text => .ok text
    | none => .error .notText

/-- Where the way into a directory leads. -/
def enter (t : FileTree) (dir : Path) : Except FileError (List String) :=
  dir.inside.foldlM t.step (t.origin dir)

theorem locate_join (hname : IsName name) :
    t.locate (dir.join ⟨name⟩) = (t.enter dir).bind (t.step · name.toList) := by
  rw [locate, if_neg (Path.text_join_ne hname.ne_empty hname.2), Path.segments_join hname.2, origin,
    Path.isAbsolute_join hname.2, walk_append]
  simp [enter, origin]

/-- The way into a directory leads to one. -/
structure Opens (t : FileTree) (dir : Path) (here : List String) : Prop where
  enter : t.enter dir = .ok here
  dir : t.kindAt here = some .dir

theorem Opens.locate_join (h : t.Opens dir here) (hname : IsName name) :
    t.locate (dir.join ⟨name⟩) =
      if (t.kindAt (here ++ [name])).isSome then .ok (here ++ [name]) else .error .notFound := by
  rw [FileTree.locate_join hname, h.enter, Except.bind, step_eq, h.dir]
  simp only [hname.idle, Bool.false_eq_true, if_false, if_neg hname.ne_up, String.ofList_toList]

/-- What is read in a directory that is there. -/
theorem Opens.read_join (h : t.Opens dir here) (hname : IsName name) :
    t.read (dir.join ⟨name⟩) = readKind (t.kindAt (here ++ [name])) := by
  have hlocate := h.locate_join hname
  cases hkind : t.kindAt (here ++ [name]) with
  | none =>
    rw [hkind] at hlocate
    rw [read, readBytes, hlocate]
    rfl
  | some kind =>
    rw [hkind] at hlocate
    rw [read, readBytes_of_locate hlocate, hkind]
    cases kind <;> rfl

theorem read_join_of_error {e : FileError} (hname : IsName name) (h : t.enter dir = .error e) :
    t.read (dir.join ⟨name⟩) = .error e := by
  rw [read, readBytes, locate_join hname, h]
  rfl

/-! ## Making directories -/

/-- The path goes up out of a directory that is missing. -/
def Detours (t : FileTree) (p : Path) : Prop :=
  ∃ before after, p.segments = before ++ ['.', '.'] :: after ∧
    before.foldlM t.step (t.origin p) = .error .notFound

/-- In an empty directory a way that does not go up ends where it starts or finds nothing. -/
theorem walk_empty {segments : List (List Char)} (hdir : t.kindAt here = some .dir)
    (hempty : ∀ name, t.kindAt (here ++ [name]) = none) (hup : ['.', '.'] ∉ segments) :
    segments.foldlM t.step here = .ok here ∨ segments.foldlM t.step here = .error .notFound := by
  induction segments with
  | nil => exact .inl rfl
  | cons segment segments ih =>
    obtain ⟨hne, hrest⟩ := not_or.1 (mt List.mem_cons.2 hup)
    rw [List.foldlM_cons, step_eq, hdir]
    dsimp only
    split
    · exact ih hrest
    · rw [if_neg (Ne.symm hne), hempty]
      exact .inr rfl

/-- The same is read in a directory of both trees. -/
def ReadsAlike (dir : Path) (t t' : FileTree) : Prop :=
  ∀ name, IsName name → t'.read (dir.join ⟨name⟩) = t.read (dir.join ⟨name⟩)

/-- The same is read in a directory, and the path to it goes up out of no missing one. -/
def Keeps (dir : Path) (t t' : FileTree) : Prop := ReadsAlike dir t t' ∧ ¬ t'.Detours dir

variable {q : Path}

/-- To make a directory on the way into another one changes nothing that is read in that one. -/
theorem makeDir_keeps (hq : q.LeadsTo dir) (hdetours : ¬ t.Detours dir) (h : t.makeDir q = .ok t') :
    Keeps dir t t' := by
  obtain ⟨here, made, hway, hnone, hbecomes⟩ := makeDir_becomes h
  obtain ⟨before, tail, hsegments, -, hwalk⟩ := hway.split
  have hmade : made.toList ≠ [] := by
    intro hempty
    have hidle := hway.idle
    rw [hempty] at hidle
    cases hidle
  -- so it is on the way into the other one
  obtain ⟨⟨rest, hrest⟩, habsolute⟩ : q.segments <+: dir.segments ∧ q.isAbsolute = dir.isAbsolute := by
    refine hq.resolve_right ?_
    have hmem : made.toList ∈ q.segments := by simp [hsegments]
    rintro (hempty | hroot)
    · rw [Path.segments, Path.chars, hempty] at hmem
      exact hmade (List.mem_singleton.1 hmem)
    · rw [Path.segments, Path.chars, hroot] at hmem
      exact hmade (by simpa [Text.fields] using hmem)
  have horigin : t.origin q = t.origin dir := by rw [origin, origin, habsolute]
  rw [hsegments, List.append_assoc, List.cons_append] at hrest
  rw [horigin] at hwalk
  have hstep : t.step here made.toList = .error .notFound := by
    rw [step_eq, hway.dir, String.ofList_toList, hnone]
    simp [hway.idle, hway.up]
  -- the way does not go up behind it
  have hup : ['.', '.'] ∉ tail ++ rest := by
    intro hmem
    obtain ⟨first, second, hsplit⟩ := List.append_of_mem hmem
    refine hdetours ⟨before ++ made.toList :: first, second, ?_, ?_⟩
    · rw [← hrest, hsplit, List.append_assoc, List.cons_append]
    · rw [walk_append, hwalk, Except.bind, List.foldlM_cons, hstep]
      rfl
  have hdirs : ∀ place, t.kindAt place = some .dir → t'.kindAt place = some .dir := fun place =>
    hbecomes.dirs (by simp [hnone])
  have hwalk' : before.foldlM t'.step (t'.origin dir) = .ok here := by
    rw [origin, hbecomes.1]
    exact walk_of_dirs hdirs hwalk hway.dir
  have hstep' : t'.step here made.toList = .ok (here ++ [made]) := by
    rw [step_eq, hdirs here hway.dir, String.ofList_toList, hbecomes.kindAt_place]
    simp [hway.idle, hway.up]
  constructor
  · intro name hname
    obtain ⟨inner, hinner, hupInner⟩ : ∃ inner, dir.inside = before ++ made.toList :: inner ∧
        ['.', '.'] ∉ inner := by
      rcases dir.segments_inside with hinside | hinside
      · exact ⟨tail ++ rest, by rw [← hinside, ← hrest], hup⟩
      · rw [hinside] at hrest
        rcases List.eq_nil_or_concat' (tail ++ rest) with hnil | ⟨inner, last, hinner⟩
        · rw [hnil] at hrest
          exact absurd (List.singleton_inj.1 (List.append_inj' hrest rfl).2) hmade
        · rw [hinner, ← List.cons_append, ← List.append_assoc] at hrest
          rw [hinner] at hup
          exact ⟨inner, (List.append_inj' hrest rfl).1.symm, fun h => hup (List.mem_append_left _ h)⟩
    have hmissing : t.enter dir = .error .notFound := by
      rw [enter, hinner, walk_append, hwalk, Except.bind, List.foldlM_cons, hstep]
      rfl
    have hplace := hbecomes.kindAt_place
    have hnothing (name : String) : t'.kindAt (here ++ [made] ++ [name]) = none := by
      rw [hbecomes.kindAt_of_ne (by simp), kindAt_append_of_ne (by simp [hnone]) (by simp)]
    rw [read_join_of_error hname hmissing]
    have henter : t'.enter dir = inner.foldlM t'.step (here ++ [made]) := by
      rw [enter, hinner, walk_append, hwalk', Except.bind, List.foldlM_cons, hstep']
      rfl
    rcases walk_empty hplace hnothing hupInner with hthere | hthere
    · rw [Opens.read_join ⟨henter.trans hthere, hplace⟩ hname, hnothing]
      rfl
    · exact read_join_of_error hname (henter.trans hthere)
  · rintro ⟨front, back, hsplit, hfails⟩
    -- where the path goes up, it has not come to the new directory yet
    obtain ⟨mid, rfl⟩ : ∃ mid, before = front ++ ['.', '.'] :: mid := by
      rw [← hrest] at hsplit
      rcases List.append_eq_append_iff.1 hsplit with ⟨mid, -, hback⟩ | ⟨mid, hmid, hback⟩
      · cases mid with
        | nil => exact absurd (List.cons.inj hback).1 hway.up
        | cons segment mid =>
          exact absurd (by rw [(List.cons.inj hback).2]; simp) hup
      · cases mid with
        | nil => exact absurd (List.cons.inj hback).1.symm hway.up
        | cons segment mid => exact ⟨mid, by rw [hmid, ← (List.cons.inj hback).1]⟩
    rw [walk_append, hfails] at hwalk'
    cases hwalk'

theorem Keeps.refl (h : ¬ t.Detours dir) : Keeps dir t t := ⟨fun _ _ => rfl, h⟩

theorem Keeps.trans {t'' : FileTree} (h : Keeps dir t t') (h' : Keeps dir t' t'') : Keeps dir t t'' :=
  ⟨fun name hname => (h'.1 name hname).trans (h.1 name hname), h'.2⟩

theorem ensureDir_keeps (hq : q.LeadsTo dir) (hdetours : ¬ t.Detours dir) :
    Keeps dir t (t.ensureDir q).2 := by
  unfold ensureDir
  split
  next hmade => exact makeDir_keeps hq hdetours hmade
  next => exact .refl hdetours

theorem ensureChain_keeps {ps : List Path} (hps : ∀ q ∈ ps, q.LeadsTo dir) (hdetours : ¬ t.Detours dir) :
    Keeps dir t (t.ensureChain ps).2 := by
  induction ps with
  | nil => exact .refl hdetours
  | cons p parents ih =>
    have hp := hps p List.mem_cons_self
    have hparents := ih fun q hq => hps q (List.mem_cons_of_mem _ hq)
    unfold ensureChain
    split
    · exact .refl hdetours
    · split
      next hmade => exact makeDir_keeps hp hdetours hmade
      next =>
        split
        next hchain =>
          rw [hchain] at hparents
          exact hparents.trans (ensureDir_keeps hp hparents.2)
        next hchain =>
          rw [hchain] at hparents
          exact hparents
      next => exact .refl hdetours

/-- To make a directory and those above it changes nothing that is read in it, unless its path goes up
out of one that is missing. -/
theorem readsAlike_ensureDirs (hdetours : ¬ t.Detours dir) : ReadsAlike dir t (t.ensureDirs dir).2 :=
  (ensureChain_keeps (fun _ => Path.leadsTo_of_mem_ancestors) hdetours).1

/-! ## Writing, moving and removing files -/

variable {place : List String} {kind : Option Kind} {content : ByteArray}

theorem Opens.becomes (h : t.Opens dir here) (hbecomes : t.Becomes t' place kind)
    (hold : t.kindAt place ≠ some .dir) : t'.Opens dir here where
  enter := by
    rw [FileTree.enter, origin, hbecomes.1]
    exact walk_of_dirs (fun _ => hbecomes.dirs hold) h.enter h.dir
  dir := hbecomes.dirs hold h.dir

/-- Another file of the directory is read as before. -/
theorem Opens.read_becomes (h : t.Opens dir here) (hbecomes : t.Becomes t' (here ++ [name]) kind)
    (hold : t.kindAt (here ++ [name]) ≠ some .dir) {other : String} (hother : IsName other)
    (hne : other ≠ name) : t'.read (dir.join ⟨other⟩) = t.read (dir.join ⟨other⟩) := by
  rw [(h.becomes hbecomes hold).read_join hother, h.read_join hother,
    hbecomes.kindAt_of_ne (by simpa using hne)]

/-- A file is written in a directory that is there. -/
theorem write_join (hname : IsName name) (h : t.write (dir.join ⟨name⟩) content = .ok t') :
    ∃ here, t.Opens dir here ∧ t.kindAt (here ++ [name]) ≠ some .dir ∧
      t.Becomes t' (here ++ [name]) (some (.file content)) := by
  obtain ⟨here, written, hway, hplace, hbecomes⟩ := write_becomes h
  obtain ⟨before, tail, hsegments, htail, hwalk⟩ := hway.split
  rw [Path.segments_join hname.2] at hsegments
  obtain rfl : tail = [] := by
    rcases List.eq_nil_or_concat' tail with hnil | ⟨init, last, rfl⟩
    · exact hnil
    · rw [← List.cons_append, ← List.append_assoc] at hsegments
      have hlast := List.singleton_inj.1 (List.append_inj' hsegments rfl).2
      rw [htail last (by simp), String.toList_eq_nil_iff] at hlast
      exact absurd hlast hname.ne_empty
  obtain ⟨hinside, hwritten⟩ := List.append_inj' hsegments rfl
  obtain rfl := String.toList_inj.1 (List.singleton_inj.1 hwritten)
  rw [← hinside, origin, Path.isAbsolute_join hname.2] at hwalk
  exact ⟨here, ⟨hwalk, hway.dir⟩, hplace, hbecomes⟩

/-- A file can be written in a directory that is there unless a directory stands in its place. -/
theorem Opens.exists_write (h : t.Opens dir here) (hname : IsName name)
    (hplace : t.kindAt (here ++ [name]) ≠ some .dir) (content : ByteArray) :
    ∃ t', t.write (dir.join ⟨name⟩) content = .ok t' := by
  have hne : name.toList ≠ [] := by simpa using hname.ne_empty
  have hvacancy : t.vacancy (dir.join ⟨name⟩) .isDirectory = .ok (here, name) := by
    obtain ⟨entries, hentries⟩ := kindAt_eq_dir.1 h.dir
    have hwalk : dir.inside.foldlM t.step (t.origin (dir.join ⟨name⟩)) = .ok here := by
      rw [origin, Path.isAbsolute_join hname.2]
      exact h.enter
    rw [vacancy, if_neg (Path.text_join_ne hname.ne_empty hname.2), Path.segments_join hname.2,
      List.reverse_append, List.reverse_singleton, List.singleton_append, List.dropWhile_cons,
      if_neg (by simpa using hname.ne_empty)]
    simp only [hname.idle, hname.ne_up, hwalk, decide_false, Bool.or_self, Bool.false_eq_true, if_false,
      List.reverse_reverse, pure, Except.pure, bind, Except.bind, hentries, String.ofList_toList]
  have hend : (dir.join ⟨name⟩).chars.getLast? ≠ some '/' := by
    obtain ⟨front, hfront⟩ : ∃ front, (dir.join ⟨name⟩).chars = front ++ name.toList := by
      rw [Path.chars_join (Path.isAbsolute_of_not_mem hname.2)]
      split
      · exact ⟨_, rfl⟩
      · exact ⟨dir.chars ++ ['/'], by simp [Path.chars]⟩
    rw [hfront, List.getLast?_append_of_ne_nil _ hne]
    exact fun h => hname.2 (List.mem_of_getLast? h)
  unfold kindAt at hplace
  rw [write, hvacancy]
  simp only [bind, Except.bind]
  split
  next hdir => 
    rw [hdir] at hplace
    exact absurd rfl hplace
  next => 
    rw [if_neg hend]
    exact ⟨_, rfl⟩
  next => 
    rw [if_neg hend]
    exact ⟨_, rfl⟩

/-- What is removed from a directory is not there any more. -/
theorem Opens.removeFile_join (h : t.Opens dir here) (hname : IsName name)
    (hfile : t.kindAt (here ++ [name]) = some (.file content)) :
    ∃ t', t.removeFile (dir.join ⟨name⟩) = .ok t' ∧ t.Becomes t' (here ++ [name]) none := by
  have hlocate := h.locate_join hname
  rw [hfile] at hlocate
  refine ⟨_, ?_, remove_becomes h.dir (by rw [hfile]; exact fun h => nomatch h)⟩
  rw [removeFile, readBytes_of_locate hlocate, hlocate, hfile]
  rfl

/-- A file is moved within a directory that is there: it is written under its new name, and then what is
there under the old one is removed. -/
theorem Opens.rename_join {target : String} (h : t.Opens dir here) (hname : IsName name)
    (htarget : IsName target) (hne : target ≠ name)
    (hfile : t.kindAt (here ++ [name]) = some (.file content))
    (hmoved : t.rename (dir.join ⟨name⟩) (dir.join ⟨target⟩) = .ok t') :
    ∃ written, t.Becomes written (here ++ [target]) (some (.file content)) ∧
      t.kindAt (here ++ [target]) ≠ some .dir ∧ written.Becomes t' (here ++ [name]) none := by
  have hlocate := h.locate_join hname
  rw [hfile] at hlocate
  have hbytes : t.readBytes (dir.join ⟨name⟩) = .ok content := by
    rw [readBytes_of_locate hlocate, hfile]
  rw [rename, hbytes, hlocate] at hmoved
  cases hwrite : t.write (dir.join ⟨target⟩) content with
  | error e =>
    simp only [bind, Except.bind, hwrite] at hmoved
    cases hmoved
  | ok written =>
    simp only [bind, Except.bind, hwrite] at hmoved
    cases hmoved
    obtain ⟨place, hplace, hold, hbecomes⟩ := write_join htarget hwrite
    obtain rfl : place = here := Except.ok.inj (hplace.enter.symm.trans h.enter)
    refine ⟨written, hbecomes, hold, remove_becomes (h.becomes hbecomes hold).dir ?_⟩
    rw [hbecomes.kindAt_of_ne (by simpa using Ne.symm hne), hfile]
    exact fun h => nomatch h

/-- A file can be moved within a directory unless a directory stands in its new place. -/
theorem Opens.exists_rename {target : String} (h : t.Opens dir here) (hname : IsName name)
    (htarget : IsName target) (hfile : t.kindAt (here ++ [name]) = some (.file content))
    (hplace : t.kindAt (here ++ [target]) ≠ some .dir) :
    ∃ t', t.rename (dir.join ⟨name⟩) (dir.join ⟨target⟩) = .ok t' := by
  have hlocate := h.locate_join hname
  rw [hfile] at hlocate
  have hbytes : t.readBytes (dir.join ⟨name⟩) = .ok content := by
    rw [readBytes_of_locate hlocate, hfile]
  obtain ⟨written, hwrite⟩ := h.exists_write htarget hplace content
  rw [rename, hbytes, hlocate]
  simp only [bind, Except.bind, hwrite]
  exact ⟨_, rfl⟩

end FileTree

end Hotload
