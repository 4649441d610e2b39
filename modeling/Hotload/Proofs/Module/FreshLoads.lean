import Mathlib
import Hotload.Proofs.Cache.Transparency
import Hotload.Proofs.Module.Reloads

/-!
# Reloads and fresh loads

A reload is a load after an invalidation. Whatever a module system was asked before, a reload gives
what a new module system gives over the same files, if every file that has changed was invalidated; and
if no file changes, it gives what the first load gave, as long as the core modules are as they were
built.

* `Setting.files_reached`: what requests leave of the files.
* `Setting.UpToDate`: files that have changed were invalidated.
* `Setting.reload_is_fresh_load`: a reload is a fresh load.
* `Setting.stable_reload`: a reload without changes.
-/

namespace Hotload

open Syntax (Stmt)
open ModuleSystem

/-! ## Files -/

namespace ModuleSystem

/-- A module system over some files whose store is in memory. -/
structure InMemory (files : FileTree) (options : Options) (e : Outside) : Prop where
  sameFiles : e.1.files = files
  sameOptions : e.2.options = options
  store : e.2.cache.store.InMemory

theorem InMemory.code {files : FileTree} {options : Options} {m : Machine ModuleSystem}
    (h : InMemory files options (m.world, m.host)) (p : Path) :
    InMemory files options (((code p).after m).world, ((code p).after m).host) := by
  obtain ⟨hstore, hfiles⟩ := CompileCache.load_inMemory h.store p m.world
  rw [after_code]
  exact ⟨hfiles.trans h.sameFiles, h.sameOptions, hstore⟩

/-- Programs change no files if the store is in memory. -/
theorem invariant_inMemory (files : FileTree) (options : Options) :
    SystemInvariant {files} options (InMemory files options) where
  sameFiles h := h.sameFiles
  sameOptions h := h.sameOptions
  same h he := ⟨he.files.trans h.sameFiles, he.options.trans h.sameOptions, by
    rw [he.cache]
    exact h.store⟩
  setExports h _ _ := ⟨h.sameFiles, h.sameOptions, h.store⟩
  removeExports h _ := ⟨h.sameFiles, h.sameOptions, h.store⟩
  withCore h _ := ⟨h.sameFiles, h.sameOptions, h.store⟩
  program {m p} h _ := by
    cases hheld : m.host.registry.compiled? p with
    | some body =>
      rw [Run.after, run_program_kept hheld]
      exact h
    | none =>
      rw [Run.after, run_program_new hheld, ← Run.after]
      have hcode := h.code p
      cases houtcome : (code p).outcome m with
      | error e => rwa [Run.after_bind_error houtcome]
      | ok text =>
        rw [Run.after_bind_ok houtcome]
        unfold parsed
        split
        · exact hcode
        · exact ⟨hcode.sameFiles, hcode.sameOptions, hcode.store⟩

end ModuleSystem

namespace Setting

variable {x : Setting} {history : List Request}

/-- What holds of the files at the start and is kept by all changes from outside holds at the end. -/
theorem files_reached (hstore : x.store.InMemory) {P : FileTree → Prop} (hstart : P x.world.files)
    (houtside : ∀ f, .outside f ∈ history → ∀ w, P w.files → P (f w).files) :
    P (x.reached history).world.files := by
  have hall : P (x.reached history).world.files ∧
      (x.reached history).host.options = x.options ∧
      (x.reached history).host.cache.store.InMemory := by
    induction history using List.reverseRecOn with
    | nil => exact ⟨hstart, rfl, hstore⟩
    | append_singleton history request ih =>
      obtain ⟨hfiles, hoptions, hmemory⟩ := ih fun f hf => houtside f (List.mem_append_left _ hf)
      rw [reached_snoc]
      generalize x.reached history = m at hfiles hoptions hmemory ⊢
      have hserved : request.IsServed → P (serve m request).world.files ∧
          (serve m request).host.options = x.options ∧
          (serve m request).host.cache.store.InMemory := by
        intro hrequest
        obtain ⟨⟨hsame, hoptions', hmemory'⟩, -⟩ :=
          (invariant_inMemory m.world.files x.options).serve ⟨rfl, hoptions, hmemory⟩ hrequest
        dsimp only at hsame
        exact ⟨by rwa [hsame], hoptions', hmemory'⟩
      cases request with
      | load | require | call | release => exact hserved trivial
      | invalidate p => exact ⟨hfiles, hoptions, hmemory⟩
      | outside f => exact ⟨houtside f (by simp) m.world hfiles, hoptions, hmemory⟩
  exact hall.1

/-- No request changes the files if nothing from outside does. -/
theorem files_reached_of_stable (hstore : x.store.InMemory)
    (hstable : ∀ f, .outside f ∈ history → ∀ w, (f w).files = w.files) :
    (x.reached history).world.files = x.world.files :=
  files_reached (P := (· = x.world.files)) hstore rfl fun f hf w hw => (hstable f hf w).trans hw

/-- All texts that occur are among some texts, if the first ones are and changes keep it so. -/
theorem occurring_subset (hstore : x.store.InMemory) {texts : Set String}
    (hstart : ∀ p text, x.world.files.read p = .ok text → text ∈ texts)
    (houtside : ∀ f, .outside f ∈ history → ∀ w : World,
      (∀ p text, w.files.read p = .ok text → text ∈ texts) →
        ∀ p text, (f w).files.read p = .ok text → text ∈ texts) :
    x.occurring history ⊆ texts := by
  rintro text ⟨before, hbefore, p, hread⟩
  exact files_reached (P := fun files => ∀ p text, files.read p = .ok text → text ∈ texts) hstore
    hstart (fun f hf => houtside f (hbefore.subset hf)) p text hread

/-! ## Bodies after some requests -/

variable (x history) in
/-- A file that was parsed and has not been invalidated since has the text that it had then. -/
def UpToDate : Prop :=
  ∀ p before request after, x.ParsedIn history p before request after →
    ∀ text, (x.reached before).world.files.read p = .ok text →
      (x.reached history).world.files.read p = .ok text

theorem upToDate_of_stable (hstore : x.store.InMemory)
    (hstable : ∀ f, .outside f ∈ history → ∀ w, (f w).files = w.files) : x.UpToDate history := by
  intro p before request after hparsed text hread
  rw [files_reached_of_stable hstore fun f hf => hstable f (hparsed.history ▸ by simp [hf])] at hread
  rw [files_reached_of_stable hstore hstable, hread]

/-- The bodies that are held are those that the files have now. -/
theorem faithful_reached (hstore : x.store.InMemory) (hblind : Compiler.PathBlind x.compiler)
    (hdigests : Set.InjOn Digest.ofText (x.occurring history)) (hfresh : x.UpToDate history) :
    x.Faithful (x.reached history).world.files (x.reached history).host := by
  intro p body hbody
  obtain ⟨before, request, after, q, hparsed, hq, hof⟩ :=
    origins hstore hblind hdigests (fun before hbefore p text hread => ⟨before, hbefore, p, hread⟩)
      hbody
  exact ⟨q, hq, bodyOf_of_same hblind (Path.same_refl q)
    (hfresh q before request after (hparsed.congr hq)) hof⟩

end Setting

/-! ## Loads without overrides -/

/-- The same state without overrides. -/
def ModuleSystem.withoutOverrides (m : Machine ModuleSystem) : Machine ModuleSystem :=
  { m with host := { m.host with overrides := [] } }

/-- A load asks for no override: it goes the same way without overrides. -/
structure AsksForNoOverride (p : Path) (m : Machine ModuleSystem) : Prop where
  outcome : (load p).outcome (withoutOverrides m) = (load p).outcome m
  heap : ((load p).after (withoutOverrides m)).heap = ((load p).after m).heap

theorem withoutOverrides_eq {m : Machine ModuleSystem} (h : m.host.overrides = []) :
    withoutOverrides m = m := by
  obtain ⟨heap, world, running, nesting, host⟩ := m
  dsimp only at h
  rw [withoutOverrides, ← h]

theorem AsksForNoOverride.of_nil {m : Machine ModuleSystem} (h : m.host.overrides = []) (p : Path) :
    AsksForNoOverride p m := by
  constructor <;> rw [withoutOverrides_eq h]

/-- The path leads somewhere if any path of the same steps does. A path to a file with a slash behind
it does not. -/
def FileTree.Direct (files : FileTree) (p : Path) : Prop :=
  ∀ q names, q.same p = true → files.locate q = .ok names → ∃ other, files.locate p = .ok other

namespace Setting

variable {x : Setting} {history : List Request} {changed p : Path} {world : World}

/-- The same setting without overrides. -/
def withoutOverrides (x : Setting) : Setting := { x with overrides := [] }

theorem Current.withoutOverrides {texts : Set String} {files : FileTree} {m : Machine ModuleSystem}
    (h : x.Current texts files (m.world, m.host)) :
    x.withoutOverrides.Current texts files
      ((ModuleSystem.withoutOverrides m).world, (ModuleSystem.withoutOverrides m).host) where
  sameFiles := h.sameFiles
  orderly :=
    have hcache := h.orderly.cache
    ⟨h.orderly.options, rfl, ⟨hcache.compiler, hcache.mode, hcache.resolve, hcache.shelf, hcache.kept,
      hcache.right⟩, h.orderly.dependencies, h.orderly.blank⟩
  faithful := h.faithful

/-- After an invalidation a file loads as in a new module system, if the bodies that are held are those
of the files and the core modules that are kept are as they were built. -/
theorem sameLoad_reached (hstore : x.store.InMemory) (hblind : Compiler.PathBlind x.compiler)
    (hdigests : Set.InjOn Digest.ofText (x.occurring (history ++ [.invalidate changed])))
    (hfresh : x.UpToDate (history ++ [.invalidate changed]))
    (hcore : Pristine (x.reached history).heap ((x.reached history).host.core.lookup ·))
    (hworld : world.files = (x.reached history).world.files)
    (hnames : ∀ name ∈ world.files.cwd, FileTree.IsName name)
    (hp : x.options.isScript (world.files.normalize p) = true →
      world.files.Direct (world.files.normalize p)) :
    SameLoad p (ModuleSystem.withoutOverrides (x.reached (history ++ [.invalidate changed])))
      (ModuleSystem.withoutOverrides (x.startIn world)) := by
  have htexts : ∀ before, before <+: history ++ [.invalidate changed] →
      ∀ p text, (x.reached before).world.files.read p = .ok text →
        text ∈ x.occurring (history ++ [.invalidate changed]) :=
    fun before hbefore p text hread => ⟨before, hbefore, p, hread⟩
  have hfaithful := faithful_reached hstore hblind hdigests hfresh
  obtain ⟨horderly, hcalls⟩ := orderly_reached hstore hblind hdigests htexts
  have hinit : history <+: history ++ [.invalidate changed] := List.prefix_append _ _
  have hsane : x.withoutOverrides.Sane (x.occurring (history ++ [.invalidate changed])) world.files :=
    ⟨rfl, hblind, hdigests, hworld ▸ htexts history hinit, hnames⟩
  rw [reached_snoc] at hfaithful horderly hcalls ⊢
  have hcurrent : x.Current (x.occurring (history ++ [.invalidate changed])) world.files
      ((serve (x.reached history) (.invalidate changed)).world,
        (serve (x.reached history) (.invalidate changed)).host) :=
    ⟨hworld.symm, horderly, by rw [hworld]; exact hfaithful⟩
  refine hsane.sameLoad hstore hcurrent.withoutOverrides rfl
    ⟨hcalls.nesting, hcalls.base, hcalls.stack⟩
    (fun q => Registry.exports?_invalidate _ changed q) hcore fun hscript hheld => ?_
  obtain ⟨body, hbody⟩ := Option.ne_none_iff_exists'.1 hheld
  obtain ⟨q, hq, hof⟩ := hcurrent.faithful _ body hbody
  obtain ⟨names, hnames⟩ := locate_of_bodyOf hof
  exact hp hscript q names hq hnames

/-- A reload is a fresh load: whatever a module system was asked before, after an invalidation a file
loads as in a new module system over the same files. -/
theorem reload_is_fresh_load {entry : Path} (hstore : x.store.InMemory)
    (hblind : Compiler.PathBlind x.compiler)
    (hdigests : Set.InjOn Digest.ofText (x.occurring (history ++ [.invalidate changed])))
    (hfresh : x.UpToDate (history ++ [.invalidate changed]))
    (hcore : (x.reached history).host.core = [])
    (hworld : world.files = (x.reached history).world.files)
    (hnames : ∀ name ∈ world.files.cwd, FileTree.IsName name)
    (hentry : world.files.Direct (world.files.normalize entry))
    (hused : AsksForNoOverride entry (x.reached (history ++ [.invalidate changed])))
    (hnew : AsksForNoOverride entry (x.startIn world)) :
    SameLoad entry (x.reached (history ++ [.invalidate changed])) (x.startIn world) := by
  have hload := sameLoad_reached hstore hblind hdigests hfresh
    (by rw [hcore]; exact pristine_nil _) hworld hnames fun _ => hentry
  rwa [SameLoad, hused.outcome, hused.heap, hnew.outcome, hnew.heap] at hload

/-- Whether a field of an object counts as true. -/
def flag? (h : Heap) (key : String) : Value → Option Bool
  | .object r => (h.field? r key).map Value.isTruthy
  | _ => none

theorem flag?_eq {h₁ h₂ : Heap} {v w : Value} (h : h₁.SameGraph v h₂ w) (key : String) :
    flag? h₁ key v = flag? h₂ key w := by
  obtain ⟨i, hvw, hmatches⟩ := h
  cases hvw with
  | object hr =>
    have hfield := (hmatches.objects hr).fields.lookup key
    simp only [flag?, Heap.field?]
    generalize (h₁.fields _).lookup key = a at hfield ⊢
    generalize (h₂.fields _).lookup key = b at hfield ⊢
    cases hfield with
    | none => rfl
    | some hv => exact congrArg some hv.isTruthy_eq
  | nil | bool | num | str | list | fn | native | require => rfl

/-- Whether a field of the exports of a file counts as true. -/
def exportedFlag? (p : Path) (key : String) (m : Machine ModuleSystem) : Option Bool :=
  ((load p).outcome m).toOption.bind (flag? ((load p).after m).heap key)

theorem exportedFlag?_eq {m₁ m₂ : Machine ModuleSystem} (h : SameLoad p m₁ m₂) (key : String) :
    exportedFlag? p key m₁ = exportedFlag? p key m₂ := by
  unfold SameLoad at h
  unfold exportedFlag?
  generalize (load p).outcome m₁ = o₁ at h ⊢
  generalize (load p).outcome m₂ = o₂ at h ⊢
  generalize ((load p).after m₁).heap = h₁ at h ⊢
  generalize ((load p).after m₂).heap = h₂ at h ⊢
  cases h with
  | ok hvw => exact flag?_eq hvw key
  | error e => rfl

theorem exists_of_exportedFlag? {m : Machine ModuleSystem} {key : String} {b : Bool}
    (h : exportedFlag? p key m = some b) :
    ∃ v, (load p).outcome m = .ok v ∧ flag? ((load p).after m).heap key v = some b := by
  unfold exportedFlag? at h
  cases hload : (load p).outcome m with
  | error e =>
    rw [hload] at h
    cases h
  | ok v =>
    rw [hload] at h
    exact ⟨v, rfl, h⟩

/-- An application of one module. -/
def oneModule (text : String) : Setting where
  heap := .empty
  world := ⟨⟨.dir [("app", .dir [("entry.rl", .file text.toUTF8)])], []⟩, .empty false, []⟩
  overrides := []
  options := { Options.default with sourceMap := .off }
  compiler := transpile
  store := .none
  watcher := .disabled

theorem read_oneModule {text other : String} {q : Path}
    (h : (oneModule text).world.files.read q = .ok other) : other = text := by
  obtain ⟨names, content, hmem, hread⟩ := FileTree.exists_file_of_read h
  have hfiles : (oneModule text).world.files.root.files = [(["app", "entry.rl"], text.toUTF8)] := rfl
  rw [hfiles, List.mem_singleton] at hmem
  cases hmem
  rw [FileTree.fromUTF8?_toUTF8] at hread
  exact (Option.some.inj hread).symm

/-- A module is edited and loaded anew. -/
theorem reload_is_fresh_load_edited :
    let entry : Path := ⟨"/app/entry.rl"⟩
    let x := oneModule "exports.old = true;"
    let edited := oneModule "exports.new = true;"
    let history := [.load entry, .outside fun _ => edited.world]
    SameLoad entry (x.reached (history ++ [.invalidate entry])) (x.startIn edited.world) ∧
      exportedFlag? entry "new" (x.reached (history ++ [.invalidate entry])) = some true := by
  intro entry x edited history
  have hrun : (x.reached [.load entry]).host.registry.records.all (·.path.same entry) = true ∧
      (x.reached history).host.core.isEmpty = true ∧
      (x.reached (history ++ [.invalidate entry])).host.overrides.isEmpty = true ∧
      edited.world.files.isFile (edited.world.files.normalize entry) = true ∧
      exportedFlag? entry "new" (x.reached (history ++ [.invalidate entry])) = some true := by
    decide +kernel
  obtain ⟨hrecords, hcore, hoverrides, hthere, hflag⟩ := hrun
  refine ⟨?_, hflag⟩
  have htexts : x.occurring (history ++ [.invalidate entry]) ⊆
      {"exports.old = true;", "exports.new = true;"} := by
    refine occurring_subset (x := x) trivial (fun q text hread => .inl (read_oneModule hread)) ?_
    intro f hf w _ q text hread
    obtain rfl : f = fun _ => edited.world := by simpa [history] using hf
    exact .inr (read_oneModule hread)
  have hinj : Set.InjOn Digest.ofText {"exports.old = true;", "exports.new = true;"} := by
    rw [Set.injOn_pair]
    intro h
    exact absurd h (by decide +kernel)
  have hfresh : x.UpToDate (history ++ [.invalidate entry]) := by
    intro p before request after hparsed text hread
    have hserved := hparsed.isServed
    obtain ⟨hhistory, -, hheld, hsince⟩ := hparsed
    match before with
    | [] =>
      obtain ⟨rfl, rfl⟩ : .load entry = request ∧ [.outside fun _ => edited.world, .invalidate entry] = after := by
        simpa [history] using hhistory
      refine absurd ?_ (hsince entry (by simp))
      rw [List.nil_append] at hheld
      obtain ⟨record, hrecord, hp⟩ := Registry.exists_of_compiled? hheld
      exact (Path.same_left (List.all_eq_true.1 hrecords record hrecord) p).symm.trans hp
    | [_] =>
      obtain ⟨-, rfl, -⟩ : _ ∧ .outside (fun _ => edited.world) = request ∧ _ := by simpa [history] using hhistory
      exact hserved.elim
    | [_, _] =>
      obtain ⟨-, -, rfl, -⟩ : _ ∧ _ ∧ .invalidate entry = request ∧ _ := by simpa [history] using hhistory
      exact hserved.elim
    | _ :: _ :: _ :: _ => simp [history] at hhistory
  refine reload_is_fresh_load trivial CompileCache.pathBlind_transpile (hinj.mono htexts) hfresh
    (List.isEmpty_iff.1 hcore) rfl nofun (fun _ _ _ _ => Likeness.locate_of_isFile hthere)
    (.of_nil (List.isEmpty_iff.1 hoverrides) _) (.of_nil rfl _)

/-- An application of one module that is code already and finds a file by way of the directory that the
store keeps its entries in. -/
def storedModule : Setting where
  heap := .empty
  world := ⟨⟨.dir [("app", .dir [
      ("entry.rl", .file "exports.found = require('./store/../data.json');".toUTF8),
      ("data.json", .file "true".toUTF8)])], []⟩, .empty false, []⟩
  overrides := []
  options := { Options.default with sourceMap := .off }
  compiler := fun _ text _ => .ok ⟨text, none⟩
  store := .directory ⟨⟨"/app/store"⟩⟩
  watcher := .disabled

/-- What is taken for the path of a file that was parsed may lead nowhere, if a slash stands behind it;
and a store that makes its directory when a file is compiled does not make it again. -/
theorem reload_differs_from_fresh_load :
    (let x := oneModule "exports.seen = true;"
      let requests := [.load ⟨"/app/entry.rl"⟩, .invalidate ⟨"/app/other.rl"⟩]
      Set.InjOn Digest.ofText (x.occurring requests) ∧ x.UpToDate requests ∧
        (x.reached requests).host.core = [] ∧
        ¬ SameLoad ⟨"/app/entry.rl/"⟩ (x.reached requests) (x.startIn (x.reached requests).world)) ∧
      (let x := storedModule
        let requests := [.load ⟨"/app/entry.rl"⟩,
          .outside fun w => { w with files := storedModule.world.files },
          .invalidate ⟨"/app/other.rl"⟩]
        x.UpToDate requests ∧ (x.reached requests).host.core = [] ∧
          ¬ SameLoad ⟨"/app/entry.rl"⟩ (x.reached requests) (x.startIn (x.reached requests).world)) := by
  constructor
  · intro x requests
    have hrun : (x.reached requests).host.core.isEmpty = true ∧
        exportedFlag? ⟨"/app/entry.rl/"⟩ "seen" (x.reached requests) = some true ∧
        exportedFlag? ⟨"/app/entry.rl/"⟩ "seen" (x.startIn (x.reached requests).world) = none := by
      decide +kernel
    obtain ⟨hcore, hused, hnew⟩ := hrun
    have htexts : x.occurring requests ⊆ {"exports.seen = true;"} :=
      occurring_subset (x := x) trivial (fun q text hread => read_oneModule hread)
        (by simp [requests])
    refine ⟨(Set.subsingleton_singleton.anti htexts).injOn _,
      upToDate_of_stable trivial (by simp [requests]), List.isEmpty_iff.1 hcore, fun h => ?_⟩
    have hsame := exportedFlag?_eq h "seen"
    rw [hused, hnew] at hsame
    cases hsame
  · intro x requests
    have hrun : (x.reached requests).host.core.isEmpty = true ∧
        exportedFlag? ⟨"/app/entry.rl"⟩ "found" (x.reached requests) = none ∧
        exportedFlag? ⟨"/app/entry.rl"⟩ "found" (x.startIn (x.reached requests).world) =
          some true := by
      decide +kernel
    obtain ⟨hcore, hused, hnew⟩ := hrun
    have hremoved : ∀ m, (serve (serve m
        (.outside fun w => { w with files := storedModule.world.files }))
          (.invalidate ⟨"/app/other.rl"⟩)).world.files = x.world.files := fun _ => rfl
    refine ⟨?_, List.isEmpty_iff.1 hcore, fun h => ?_⟩
    · intro p before request after hparsed text hread
      have hserved := hparsed.isServed
      obtain ⟨hhistory, -, -, -⟩ := hparsed
      match before with
      | [] =>
        rw [show (x.reached requests).world.files = x.world.files from
          hremoved (serve x.start (.load ⟨"/app/entry.rl"⟩))]
        exact hread
      | [_] =>
        obtain ⟨-, rfl, -⟩ : _ ∧ .outside _ = request ∧ _ := by simpa [requests] using hhistory
        exact hserved.elim
      | [_, _] =>
        obtain ⟨-, -, rfl, -⟩ : _ ∧ _ ∧ .invalidate _ = request ∧ _ := by
          simpa [requests] using hhistory
        exact hserved.elim
      | _ :: _ :: _ :: _ => simp [requests] at hhistory
    · have hsame := exportedFlag?_eq h "found"
      rw [hused, hnew] at hsame
      cases hsame

/-! ## Reloads without changes -/

/-- A script that a new module system loads is there. -/
theorem locate_of_load {texts : Set String} (hx : x.Sane texts world.files)
    (hstore : x.store.InMemory) (hscript : x.options.isScript (world.files.normalize p) = true)
    {v : Value} (hload : (load p).outcome (x.startIn world) = .ok v) :
    ∃ names, world.files.locate (world.files.normalize p) = .ok names := by
  have hrun : (load p).outcome (x.startIn world) =
      (requireScript (runModule host) (world.files.normalize p)).outcome (x.startIn world) :=
    congrArg Prod.fst (run_requireModule_script hscript)
  generalize world.files.normalize p = q at hscript hrun ⊢
  have hwatch := sameModules_watchSource q (x.startIn world)
  have hstart : x.Current texts world.files ((x.startIn world).world, (x.startIn world).host) :=
    ⟨rfl, orderly_start hstore, fun q body h => by cases h⟩
  have hgives := gives (hstart.same hwatch) hx.blind hx.injective hx.texts hscript
    (.inr (hwatch.compiled q))
  cases hbody : x.bodyOf world.files q with
  | ok r => exact locate_of_bodyOf hbody
  | error e =>
    have hprogram := hgives.body
    rw [hbody] at hprogram
    have hlive : ((watchSource q).after (x.startIn world)).host.registry.exports? q = none :=
      hwatch.exports q
    rw [hrun, Run.outcome, run_requireScript_new _ hlive, ← Run.outcome,
      Run.outcome_bind_error hprogram] at hload
    cases hload

/-- A reload without changes gives what the first load gave, as long as the core modules are as they
were built. -/
theorem stable_reload {entry : Path} {v : Value} (hoverrides : x.overrides = [])
    (hstore : x.store.InMemory) (hblind : Compiler.PathBlind x.compiler)
    (hdigests : Set.InjOn Digest.ofText {text | ∃ p, x.world.files.read p = .ok text})
    (hnames : ∀ name ∈ x.world.files.cwd, FileTree.IsName name)
    (hstable : ∀ f, .outside f ∈ history → ∀ w, (f w).files = w.files)
    (hcore : Pristine (x.reached history).heap ((x.reached history).host.core.lookup ·))
    (hfirst : (load entry).outcome x.start = .ok v) :
    ∃ w, (load entry).outcome (x.reached (history ++ [.invalidate changed])) = .ok w ∧
      ((load entry).after (x.reached (history ++ [.invalidate changed]))).heap.SameGraph w
        ((load entry).after x.start).heap v := by
  let texts : Set String := {text | ∃ p, x.world.files.read p = .ok text}
  have hstable' : ∀ f, .outside f ∈ history ++ [.invalidate changed] → ∀ w, (f w).files = w.files := by
    simpa using hstable
  have htexts : x.occurring (history ++ [.invalidate changed]) ⊆ texts :=
    occurring_subset hstore (fun p text hread => ⟨p, hread⟩) fun f hf w hw => by
      rwa [hstable' f hf w]
  have hinj : Set.InjOn Digest.ofText (x.occurring (history ++ [.invalidate changed])) :=
    hdigests.mono htexts
  have hsane : x.Sane texts x.world.files :=
    ⟨hoverrides, hblind, hdigests, fun p text hread => ⟨p, hread⟩, hnames⟩
  have hload := sameLoad_reached (p := entry) hstore hblind hinj (upToDate_of_stable hstore hstable')
    hcore (files_reached_of_stable hstore hstable).symm hnames fun hscript q names _ _ =>
      locate_of_load hsane hstore hscript hfirst
  have horderly : x.Orderly _ (x.reached (history ++ [.invalidate changed])).host :=
    (orderly_reached hstore hblind hinj fun before hbefore p text hread =>
      ⟨before, hbefore, p, hread⟩).1
  rw [withoutOverrides_eq (horderly.overrides.trans hoverrides),
    withoutOverrides_eq (m := x.startIn x.world) hoverrides, SameLoad] at hload
  have hfirst' : (load entry).outcome (x.startIn x.world) = .ok v := hfirst
  rw [hfirst'] at hload
  generalize (load entry).outcome (x.reached (history ++ [.invalidate changed])) = outcome at hload ⊢
  cases hload with
  | ok hgraph => exact ⟨_, rfl, hgraph⟩

/-- A module is loaded again and again. -/
theorem stable_reload_repeated :
    let entry : Path := ⟨"/app/entry.rl"⟩
    let x := oneModule "exports.seen = true;"
    let history := [.load entry, .invalidate entry, .load entry]
    ∃ v, (load entry).outcome x.start = .ok v ∧
      ∃ w, (load entry).outcome (x.reached (history ++ [.invalidate entry])) = .ok w ∧
        ((load entry).after (x.reached (history ++ [.invalidate entry]))).heap.SameGraph w
          ((load entry).after x.start).heap v := by
  intro entry x history
  have hrun : (x.reached history).host.core.isEmpty = true ∧
      exportedFlag? entry "seen" x.start = some true := by
    decide +kernel
  obtain ⟨hcore, hflag⟩ := hrun
  obtain ⟨v, hfirst, -⟩ := exists_of_exportedFlag? hflag
  have htexts : {text | ∃ p, x.world.files.read p = .ok text} ⊆ {"exports.seen = true;"} :=
    fun text ⟨p, hread⟩ => read_oneModule hread
  refine ⟨v, hfirst, stable_reload rfl trivial CompileCache.pathBlind_transpile
    ((Set.subsingleton_singleton.anti htexts).injOn _) nofun (by simp [history]) ?_ hfirst⟩
  rw [List.isEmpty_iff.1 hcore]
  exact pristine_nil _

/-- A module finds what it left with a core module when it was loaded before. -/
theorem reload_finds_core_module_changed :
    let entry : Path := ⟨"/app/entry.rl"⟩
    let x := oneModule "let s = require('strings'); exports.seen = s.seen; s.seen = true;"
    ∃ v, (load entry).outcome x.start = .ok v ∧
      ¬ ∃ w, (load entry).outcome (x.reached [.load entry, .invalidate entry]) = .ok w ∧
        ((load entry).after (x.reached [.load entry, .invalidate entry])).heap.SameGraph w
          ((load entry).after x.start).heap v := by
  intro entry x
  have hrun : exportedFlag? entry "seen" x.start = some false ∧
      exportedFlag? entry "seen" (x.reached [.load entry, .invalidate entry]) = some true := by
    decide +kernel
  obtain ⟨hfirst, hagain⟩ := hrun
  obtain ⟨v, hv, hflag⟩ := exists_of_exportedFlag? hfirst
  obtain ⟨u, hu, hflag'⟩ := exists_of_exportedFlag? hagain
  refine ⟨v, hv, fun ⟨w, hw, hgraph⟩ => ?_⟩
  rw [hu] at hw
  cases hw
  rw [flag?_eq hgraph "seen", hflag] at hflag'
  cases hflag'

end Setting

end Hotload
