import Hotload.Proofs.Module.Generations
import Hotload.Proofs.Module.Hosting
import Hotload.Proofs.Path.Normalization

/-!
# Resolved paths

A specifier is resolved to the one path of a file. That path is a specifier too, and is resolved to
itself, in whichever directory it is written.

* `ResolveOptions.find?_of_isFile`: the path of a file as a specifier.
* `ModuleSystem.resolved_paths_are_resolved`: what is found, and that it is found again.
-/

namespace Hotload

/-- An absolute path starts with a slash, as a specifier does that is looked for from the root. -/
theorem Path.isRelative_text {p : Path} (hp : p.isAbsolute = true) : isRelative p.text = true := by
  rw [isAbsolute, beq_iff_eq] at hp
  obtain ⟨cs, hcs⟩ := List.head?_eq_some_iff.1 hp
  rw [isRelative, ← Path.chars, hcs]
  rfl

/-- No core module has a path for a name. -/
theorem isCoreModule_text {p : Path} (hp : p.isAbsolute = true) : isCoreModule p.text = false := by
  rw [Path.isAbsolute, Path.chars] at hp
  unfold isCoreModule coreFunctions
  split
  next htext => rw [htext] at hp; cases hp
  next htext => rw [htext] at hp; cases hp
  next htext => rw [htext] at hp; cases hp
  next => rfl

namespace ResolveOptions

variable {options : ResolveOptions} {files : FileTree} {specifier : String} {dir p : Path}

/-- The path of a file is looked for as it is, in every directory. -/
theorem find?_of_isFile (options : ResolveOptions) (hp : p.isAbsolute = true)
    (hfile : files.isFile p = true) (dir : Path) :
    options.find? files p.text dir = some (files.normalize p) := by
  have hentry : options.entryAt? files p = some p := by
    simp [entryAt?, fileAt?, hfile]
  have hcandidates : options.candidates p.text dir = [p] := by
    rw [candidates, if_pos (Path.isRelative_text hp)]
    exact congrArg (fun q => [q]) (Path.join_absolute hp)
  simp [find?, hcandidates, hentry]

/-- What a specifier names is the normalized path of a file. -/
theorem exists_file_of_find? (h : options.find? files specifier dir = some p) :
    ∃ c, files.isFile c = true ∧ p = files.normalize c := by
  obtain ⟨c, hc, rfl⟩ := Option.map_eq_some_iff.1 h
  obtain ⟨base, -, hbase⟩ := List.exists_of_findSome?_eq_some hc
  exact ⟨c, Likeness.isFile_of_entryAt? hbase, rfl⟩

end ResolveOptions

namespace ModuleSystem

variable {specifier : String} {dir p : Path} {m : Machine ModuleSystem}

theorem run_find (hcore : isCoreModule specifier = false) (dir : Path) (m : Machine ModuleSystem) :
    (find specifier dir).run m =
      ((m.host.options.resolve.locate specifier dir m.world).1,
        { m with world := (m.host.options.resolve.locate specifier dir m.world).2 }) := by
  rw [find, if_neg (by simp [hcore])]
  change (Run.ofExcept (m.host.options.resolve.locate specifier dir m.world).1).run _ = _
  cases (m.host.options.resolve.locate specifier dir m.world).1 <;> rfl

/-- Resolution that finds something leaves everything as it is. -/
theorem run_find_of_some (hcore : isCoreModule specifier = false)
    (h : m.host.options.resolve.find? m.world.files specifier dir = some p) :
    (find specifier dir).run m = (.ok p, m) := by
  have hlocate : m.host.options.resolve.locate specifier dir m.world = (.ok p, m.world) := by
    rw [ResolveOptions.locate, h]
  rw [run_find hcore, hlocate]

theorem find?_of_outcome (hcore : isCoreModule specifier = false)
    (h : (find specifier dir).outcome m = .ok p) :
    m.host.options.resolve.find? m.world.files specifier dir = some p := by
  rw [Run.outcome, run_find hcore] at h
  unfold ResolveOptions.locate at h
  cases hfind : m.host.options.resolve.find? m.world.files specifier dir with
  | some q =>
    rw [hfind] at h
    cases h
    rfl
  | none =>
    rw [hfind] at h
    cases h

/-- A specifier is resolved to an absolute path that leads to a file and is normalized. The text of it is
resolved to the same path again, in every directory, as long as the files are the same. -/
theorem resolved_paths_are_resolved (hcwd : ∀ name ∈ m.world.files.cwd, FileTree.IsName name)
    (hcore : isCoreModule specifier = false) (h : (find specifier dir).outcome m = .ok p) :
    p.isAbsolute = true ∧
      (∃ place content, m.world.files.Designates p place ∧
        m.world.files.kindAt place = some (.file content)) ∧
      m.world.files.normalize p = p ∧
      ∀ (other : Path) (m' : Machine ModuleSystem), m'.world.files = m.world.files →
        (find p.text other).run m' = (.ok p, m') := by
  obtain ⟨c, hfile, rfl⟩ := ResolveOptions.exists_file_of_find? (find?_of_outcome hcore h)
  obtain ⟨place, content, hc, hkind⟩ := FileTree.isFile_iff.1 hfile
  have hthere := hc.normalize hcwd
  have habsolute : (m.world.files.normalize c).isAbsolute = true := by
    rw [FileTree.normalize_of_locate (FileTree.designates_iff.1 hc)]
    exact FileTree.isAbsolute_pathOf place
  have hnormal := FileTree.normalize_normalize hcwd hc.text
  refine ⟨habsolute, ⟨place, content, hthere, hkind⟩, hnormal, fun other m' hfiles => ?_⟩
  refine run_find_of_some (isCoreModule_text habsolute) ?_
  have hagain := m'.host.options.resolve.find?_of_isFile habsolute
    (FileTree.isFile_iff.2 ⟨place, content, hthere, hkind⟩) other
  rw [hfiles, hagain, hnormal]

end ModuleSystem

/-- A package whose description names its main file, without the extension and on a detour. -/
def describedPackage : Setting where
  heap := .empty
  world := ⟨⟨.dir [("app", .dir [
      ("src", .dir []),
      ("packages", .dir [("dep", .dir [
        ("package.json", .file "\x7b\"main\":\"./lib//x/../main\"\x7d".toUTF8),
        ("lib", .dir [("x", .dir []), ("main.rl", .file "exports.n = 1;".toUTF8)])])])])], ["app"]⟩,
    .empty false, []⟩
  overrides := []
  options := Options.default
  compiler := transpile
  store := .none
  watcher := .disabled

/-- The file is found again from the root. -/
theorem resolved_paths_are_resolved_main :
    let m := describedPackage.start
    let p : Path := ⟨"/app/packages/dep/lib/main.rl"⟩
    (∀ name ∈ m.world.files.cwd, FileTree.IsName name) ∧ isCoreModule "dep" = false ∧
      (ModuleSystem.find "dep" ⟨"src"⟩).outcome m = .ok p ∧
      (ModuleSystem.find p.text ⟨"/"⟩).run m = (.ok p, m) := by
  intro m p
  have hcwd : ∀ name ∈ m.world.files.cwd, FileTree.IsName name := by decide
  have hfind : Options.default.resolve.find? m.world.files "dep" ⟨"src"⟩ = some p := by decide +kernel
  have hfound : (ModuleSystem.find "dep" ⟨"src"⟩).outcome m = .ok p :=
    congrArg Prod.fst (ModuleSystem.run_find_of_some rfl hfind)
  obtain ⟨-, -, -, hagain⟩ := ModuleSystem.resolved_paths_are_resolved hcwd rfl hfound
  exact ⟨hcwd, rfl, hfound, hagain ⟨"/"⟩ m rfl⟩

end Hotload
