import Mathlib
import Hotload.Proofs.Cache.Entries

/-!
# The compile cache is transparent

A cache answers from memory, from the store behind it, or from the compiler. Whichever it is, a file
that is no dependency is loaded as if its text were compiled on the spot, if texts with one digest are
one text. The store may fail and forget as it likes.

* `HonestStore`: stores that give back nothing else than what was put last.
* `compileAlone`: what a file is compiled to without any cache.
* `Recalls`: what a cache and its store hold is right.
* `loads_are_transparent`: every load of every sequence.
-/

namespace Hotload

/-! ## Stores that fail and forget -/

/-- A store that may fail and may forget, but gives nothing else under a digest than what was put
there last. `Holds last store files` says that the store is in a state after which `last` was put
last; the files count, because a store may keep its entries in them. -/
structure HonestStore (σ : Type) [CacheStore σ] where
  Holds : (Digest → Option Compiled) → σ → FileTree → Prop
  get : ∀ {last : Digest → Option Compiled} {store : σ} {w : World}, Holds last store w.files →
    ∀ key,
      Holds last (CacheStore.get key store w).2.1 (CacheStore.get key store w).2.2.files ∧
        ∀ c, (CacheStore.get key store w).1 = .ok (some c) → last key = some c
  /-- What was put counts, unless the store refused it. -/
  put : ∀ {last : Digest → Option Compiled} {store : σ} {w : World}, Holds last store w.files →
    ∀ key c,
      Holds (Function.update last key (some c)) (CacheStore.put key c store w).2.1
          (CacheStore.put key c store w).2.2.files ∨
        (∃ e, (CacheStore.put key c store w).1 = .error e) ∧
          Holds last (CacheStore.put key c store w).2.1 (CacheStore.put key c store w).2.2.files

/-- A change of the world leaves the entries of the store alone. -/
def HonestStore.Allows {σ : Type} [CacheStore σ] (honest : HonestStore σ) (f : World → World) : Prop :=
  ∀ last store w, honest.Holds last store w.files → honest.Holds last store (f w).files

/-- A shelf in memory never fails, and one that keeps nothing forgets everything. -/
def Shelf.honest : HonestStore Shelf where
  Holds last shelf _ := shelf.InMemory ∧ ∀ key c, shelf.kept? key = some c → last key = some c
  get h key := by
    rw [Shelf.get_eq h.1]
    exact ⟨h, fun c hc => h.2 key c (Except.ok.inj hc)⟩
  put {last shelf w} h key c := by
    rw [Shelf.put_eq h.1]
    refine .inl ⟨h.1.adding, fun k d hd => ?_⟩
    rw [Function.update_apply]
    rcases Shelf.of_kept?_adding hd with ⟨rfl, rfl⟩ | ⟨hk, hd⟩
    · exact if_pos rfl
    · exact (if_neg hk).trans (h.2 k d hd)

/-! ## Loads -/

/-- What happens around a cache. -/
inductive CacheStep where
  | load (p : Path)
  /-- The world changes, files included. -/
  | outside (f : World → World)

/-- The code of a file and the source map to register, from its text alone. -/
def compileAlone (options : Options) (files : FileTree) (p : Path) :
    Except LoadError (String × Option SourceMap) :=
  match files.read p with
  | .error e => .error (.read p (.file e))
  | .ok text =>
    match transpile p text true with
    | .error e => .error (.compile e)
    | .ok ⟨code, map⟩ =>
      match options.sourceMap, map with
      | .inline, some m => .ok (code ++ "\n" ++ m.inlineComment, some m)
      | .inline, none => .ok (code, none)
      | .separate, map => .ok (code, map)
      | .off, _ => .ok (code, none)

namespace CompileCache

variable {σ : Type} [CacheStore σ]

/-- A cache over the compiler of the surface dialect that has loaded nothing, and the world. -/
def start (options : Options) (store : σ) (w : World) : CompileCache σ × World :=
  (.new transpile store options, w)

/-- The cache and the world after a step. -/
def serve (s : CompileCache σ × World) : CacheStep → CompileCache σ × World
  | .load p => (s.1.load p s.2).2
  | .outside f => (s.1, f s.2)

/-- The cache and the world after some steps. -/
def reached (s : CompileCache σ × World) (steps : List CacheStep) : CompileCache σ × World :=
  steps.foldl serve s

/-- The texts that are read in the course of some steps. -/
def readTexts (s : CompileCache σ × World) (steps : List CacheStep) : Set String :=
  {text | ∃ before p, before ++ [.load p] <+: steps ∧ (reached s before).2.files.read p = .ok text}

/-- The texts that are loaded with success and belong to no dependency. -/
def loadedTexts (options : Options) (s : CompileCache σ × World) (steps : List CacheStep) :
    Set String :=
  {text | ∃ before p, before ++ [.load p] <+: steps ∧ ¬ options.resolve.isDependency p = true ∧
    (reached s before).2.files.read p = .ok text ∧
    ∃ code, ((reached s before).1.load p (reached s before).2).1 = .ok code}

/-- What loading a file with a cache gives is what it would give without one, and a failure leaves
nothing behind. -/
structure LoadsAsAlone (options : Options) (files : FileTree) (p : Path) (cache : CompileCache σ)
    (result : Except LoadError String × CompileCache σ × World) : Prop where
  code : ¬ options.resolve.isDependency p = true →
    result.1 = (compileAlone options files p).map Prod.fst
  map : ¬ options.resolve.isDependency p = true → ∀ code map,
    compileAlone options files p = .ok (code, map) → result.2.1.maps.find? p = map
  failed : ∀ e, result.1 = .error e →
    result.2.1.memo = cache.memo ∧ result.2.1.maps = cache.maps ∧
      result.2.1.transforms = cache.transforms

theorem reached_snoc (s : CompileCache σ × World) (steps : List CacheStep) (step : CacheStep) :
    reached s (steps ++ [step]) = serve (reached s steps) step := by
  simp [reached]

/-! ## What a cache recalls -/

/-- A compiler of the surface dialect makes the same of a text wherever it stands. -/
theorem pathBlind_transpile : Compiler.PathBlind transpile := by
  intro p q text c h
  unfold transpile at h ⊢
  cases hparse : Syntax.parseSurface text.toList with
  | error e =>
    rw [hparse] at h
    cases h
  | ok items =>
    rw [hparse] at h
    exact h

/-- The outputs that are kept under the digests of some texts are what these texts are compiled
to. -/
def Right (texts : Set String) (kept : Digest → Option Compiled) : Prop :=
  ∀ text ∈ texts, ∀ c, kept (Digest.ofText text) = some c → ∀ p, transpile p text true = .ok c

theorem Right.update {texts : Set String} {kept : Digest → Option Compiled} {p : Path}
    {text : String} {c : Compiled} (h : Right texts kept) (hinj : Set.InjOn Digest.ofText texts)
    (htext : text ∈ texts) (hc : transpile p text true = .ok c) :
    Right texts (Function.update kept (Digest.ofText text) (some c)) := by
  intro other hother d hd q
  rw [Function.update_apply] at hd
  split at hd
  next hdigest =>
    obtain rfl := hinj hother htext hdigest
    cases hd
    exact pathBlind_transpile p q other c hc
  next => exact h other hother d hd q

/-- The cache of some options holds for the given texts what they are compiled to, and so does its
store. -/
structure Recalls (honest : HonestStore σ) (options : Options) (texts : Set String)
    (s : CompileCache σ × World) : Prop where
  compiler : s.1.compiler = transpile
  mode : s.1.mode = options.sourceMap
  resolve : s.1.resolve = options.resolve
  memo : Right texts s.1.memo.find?
  store : ∃ last, honest.Holds last s.1.store s.2.files ∧ Right texts last

variable {honest : HonestStore σ} {options : Options} {texts : Set String} {p : Path} {text : String}
  {cache : CompileCache σ} {w : World}

theorem recalls_start {store : σ} {last : Digest → Option Compiled}
    (h : honest.Holds last store w.files) (hlast : Right texts last) :
    Recalls honest options texts (start options store w) where
  compiler := rfl
  mode := rfl
  resolve := rfl
  memo _ _ _ hc := by cases hc
  store := ⟨last, h, hlast⟩

/-- What a cache does for a text. -/
structure Obtains (honest : HonestStore σ) (options : Options) (texts : Set String) (p : Path)
    (text : String) (result : Except CompileError Compiled × CompileCache σ × World) : Prop where
  outcome : result.1 = transpile p text true
  recalls : Recalls honest options texts result.2

theorem memo_insert_eq (store : MemoryStore) (key : Digest) (c : Compiled) :
    (store.insert key c).find? = Function.update store.find? key (some c) := by
  funext k
  rw [MemoryStore.find?_insert, Function.update_apply]

/-- A text is compiled and kept. -/
theorem Recalls.compile (h : Recalls honest options texts (cache, w))
    (hinj : Set.InjOn Digest.ofText texts) (htext : text ∈ texts) (p : Path) :
    Obtains honest options texts p text (cache.compile (Digest.ofText text) p text w) := by
  obtain ⟨hcompiler, hmode, hresolve, hmemo, last, hlast, hright⟩ := h
  dsimp only at hcompiler hmode hresolve hmemo hlast
  unfold CompileCache.compile
  rw [hcompiler]
  cases hc : transpile p text true with
  | error e =>
    exact ⟨hc.symm, hcompiler, hmode, hresolve, hmemo, last, hlast, hright⟩
  | ok c =>
    have hmemo' : Right texts (cache.memo.insert (Digest.ofText text) c).find? := by
      rw [memo_insert_eq]
      exact hmemo.update hinj htext hc
    have hput := honest.put
      (w := w.debug "cache" ("compiled " ++ p.text ++ " (" ++ (Digest.ofText text).short ++ ")"))
      hlast (Digest.ofText text) c
    dsimp only
    generalize CacheStore.put (Digest.ofText text) c cache.store _ = answered at hput ⊢
    obtain ⟨answer, store, w'⟩ := answered
    have hstore : ∃ last', honest.Holds last' store w'.files ∧ Right texts last' := by
      rcases hput with hput | ⟨-, hput⟩
      · exact ⟨_, hput, hright.update hinj htext hc⟩
      · exact ⟨last, hput, hright⟩
    refine ⟨hc.symm, rfl, hmode, hresolve, hmemo', ?_⟩
    cases answer <;> exact hstore

/-- The compiled form of a text is what the compiler makes of it, wherever it comes from. -/
theorem Recalls.obtain (h : Recalls honest options texts (cache, w))
    (hinj : Set.InjOn Digest.ofText texts) (htext : text ∈ texts) (p : Path) :
    Obtains honest options texts p text (cache.obtain p text w) := by
  obtain ⟨hcompiler, hmode, hresolve, hmemo, last, hlast, hright⟩ := h
  unfold CompileCache.obtain
  dsimp only
  cases hhit : cache.memo.find? (Digest.ofText text) with
  | some c =>
    exact ⟨(hmemo text htext c hhit p).symm, hcompiler, hmode, hresolve, hmemo, last, hlast, hright⟩
  | none =>
    obtain ⟨hkept, hfound⟩ := honest.get hlast (Digest.ofText text)
    generalize CacheStore.get (Digest.ofText text) cache.store w = answered at hkept hfound ⊢
    obtain ⟨answer, store, w'⟩ := answered
    have hasked : Recalls honest options texts ({ cache with store }, w') :=
      ⟨hcompiler, hmode, hresolve, hmemo, last, hkept, hright⟩
    match answer with
    | .ok (some c) =>
      have hc := hright text htext c (hfound c rfl)
      refine ⟨(hc p).symm, hcompiler, hmode, hresolve, ?_, last, hkept, hright⟩
      have hmemo' := hmemo.update hinj htext (hc p)
      rwa [← memo_insert_eq] at hmemo'
    | .ok none => exact hasked.compile hinj htext p
    | .error e =>
      have hnoted : Recalls honest options texts ({ cache with store },
          w'.note "cache" ("failed to read entry " ++ (Digest.ofText text).short ++ ": " ++ e.message)) :=
        ⟨hcompiler, hmode, hresolve, hmemo, last, hkept, hright⟩
      exact hnoted.compile hinj htext p

/-! ## What a failure leaves behind -/

/-- A cache that could not make anything of a text is as it was, its store aside. -/
theorem obtain_error {e : CompileError} (h : (cache.obtain p text w).1 = .error e) :
    (cache.obtain p text w).2.1.memo = cache.memo ∧ (cache.obtain p text w).2.1.maps = cache.maps ∧
      (cache.obtain p text w).2.1.transforms = cache.transforms := by
  have hcompile (key : Digest) (cache : CompileCache σ) (w : World)
      (h : (cache.compile key p text w).1 = .error e) :
      (cache.compile key p text w).2.1 = cache := by
    unfold CompileCache.compile at h ⊢
    cases hc : cache.compiler p text true with
    | error e => rfl
    | ok c =>
      rw [hc] at h
      cases h
  unfold CompileCache.obtain at h ⊢
  dsimp only at h ⊢
  cases hhit : cache.memo.find? (Digest.ofText text) with
  | some c =>
    rw [hhit] at h
    cases h
  | none =>
    rw [hhit] at h
    dsimp only at h ⊢
    generalize CacheStore.get (Digest.ofText text) cache.store w = answered at h ⊢
    obtain ⟨answer, store, w'⟩ := answered
    match answer with
    | .ok (some c) => cases h
    | .ok none =>
      rw [hcompile _ _ _ h]
      exact ⟨rfl, rfl, rfl⟩
    | .error e =>
      rw [hcompile _ _ _ h]
      exact ⟨rfl, rfl, rfl⟩

/-- A load is the reading of a file and, unless the file is code already, what is obtained for its
text. -/
theorem load_cases (cache : CompileCache σ) (p : Path) (w : World) :
    (∃ e, w.files.read p = .error e ∧ cache.load p w = (.error (.read p (.file e)), cache, w)) ∨
    (∃ text, w.files.read p = .ok text ∧
      (cache.resolve.isDependency p = true ∧ cache.load p w = (.ok text, cache, w) ∨
        ¬ cache.resolve.isDependency p = true ∧
          ((∃ e, (cache.obtain p text w).1 = .error e ∧
              cache.load p w = (.error (.compile e), (cache.obtain p text w).2)) ∨
            ∃ c, (cache.obtain p text w).1 = .ok c ∧
              cache.load p w = (.ok (finish (cache.obtain p text w).2.1.mode c),
                { (cache.obtain p text w).2.1 with
                  maps := register (cache.obtain p text w).2.1.mode p c
                    (cache.obtain p text w).2.1.maps },
                (cache.obtain p text w).2.2)))) := by
  unfold CompileCache.load
  cases hfile : w.files.read p with
  | error e => exact .inl ⟨e, rfl, rfl⟩
  | ok text =>
    refine .inr ⟨text, rfl, ?_⟩
    dsimp only
    split
    next hdependency => exact .inl ⟨hdependency, rfl⟩
    next hdependency =>
      refine .inr ⟨hdependency, ?_⟩
      generalize cache.obtain p text w = result
      obtain ⟨outcome, cache', w'⟩ := result
      cases outcome with
      | error e => exact .inl ⟨e, rfl, rfl⟩
      | ok c => exact .inr ⟨c, rfl, rfl⟩

/-- A load that fails leaves memory, source maps and the count as they were. -/
theorem load_error {e : LoadError} (h : (cache.load p w).1 = .error e) :
    (cache.load p w).2.1.memo = cache.memo ∧ (cache.load p w).2.1.maps = cache.maps ∧
      (cache.load p w).2.1.transforms = cache.transforms := by
  obtain ⟨_, -, hload⟩ | ⟨text, -, ⟨-, hload⟩ | ⟨-, ⟨_, herror, hload⟩ | ⟨_, -, hload⟩⟩⟩ :=
    load_cases cache p w
  · rw [hload]
    exact ⟨rfl, rfl, rfl⟩
  · rw [hload] at h
    cases h
  · rw [hload]
    exact obtain_error herror
  · rw [hload] at h
    cases h

/-! ## Loads -/

/-- What is registered and run of a compiled form. -/
theorem compileAlone_of_ok {c : Compiled} (hread : w.files.read p = .ok text)
    (hc : transpile p text true = .ok c) :
    compileAlone options w.files p =
      .ok (finish options.sourceMap c, if options.sourceMap.isEnabled then c.map else none) := by
  obtain ⟨code, map⟩ := c
  simp only [compileAlone, hread, hc, finish]
  cases options.sourceMap <;> cases map <;> rfl

/-- A load does what compiling the file alone does, and what it leaves behind is right, too. -/
theorem Recalls.load (h : Recalls honest options texts (cache, w))
    (hinj : Set.InjOn Digest.ofText texts) (hread : ∀ text, w.files.read p = .ok text → text ∈ texts) :
    LoadsAsAlone options w.files p cache (cache.load p w) ∧
      Recalls honest options texts (cache.load p w).2 := by
  have hresolve : cache.resolve = options.resolve := h.resolve
  obtain ⟨e, hfile, hload⟩ | ⟨text, hfile, hload⟩ := load_cases cache p w
  · -- the file cannot be read
    have halone : compileAlone options w.files p = .error (.read p (.file e)) := by
      simp only [compileAlone, hfile]
    refine ⟨⟨fun _ => ?_, fun _ code map hc => ?_, fun _ => load_error⟩, ?_⟩
    · rw [hload, halone]
      rfl
    · rw [halone] at hc
      cases hc
    · rw [hload]
      exact h
  rw [hresolve] at hload
  obtain ⟨hdependency, hload⟩ | ⟨-, hload⟩ := hload
  · refine ⟨⟨fun hn => absurd hdependency hn, fun hn => absurd hdependency hn, fun _ => load_error⟩, ?_⟩
    rw [hload]
    exact h
  obtain ⟨hout, hrecalls⟩ := h.obtain hinj (hread text hfile) p
  obtain ⟨e, herror, hload⟩ | ⟨c, hok, hload⟩ := hload
  · have halone : compileAlone options w.files p = .error (.compile e) := by
      simp only [compileAlone, hfile, ← hout, herror]
    refine ⟨⟨fun _ => ?_, fun _ code map hc => ?_, fun _ => load_error⟩, ?_⟩
    · rw [hload, halone]
      rfl
    · rw [halone] at hc
      cases hc
    · rw [hload]
      exact hrecalls
  · have halone : compileAlone options w.files p = _ :=
      compileAlone_of_ok hfile (hout.symm.trans hok)
    have hmode : (cache.obtain p text w).2.1.mode = options.sourceMap := hrecalls.mode
    rw [hmode] at hload
    refine ⟨⟨fun _ => ?_, fun _ code map hcode => ?_, fun _ => load_error⟩, ?_⟩
    · rw [hload, halone]
      rfl
    · rw [halone] at hcode
      cases hcode
      rw [hload]
      exact (find?_register ..).trans (if_pos (Path.same_refl p))
    · rw [hload]
      exact ⟨hrecalls.compiler, hrecalls.mode, hrecalls.resolve, hrecalls.memo, hrecalls.store⟩

/-- After any steps a cache recalls what the texts that were read are compiled to. -/
theorem recalls_reached {store : σ} {last : Digest → Option Compiled} {steps : List CacheStep}
    (hstore : honest.Holds last store w.files) (hlast : Right texts last)
    (houtside : ∀ f, .outside f ∈ steps → honest.Allows f) (hinj : Set.InjOn Digest.ofText texts)
    (htexts : readTexts (start options store w) steps ⊆ texts) :
    Recalls honest options texts (reached (start options store w) steps) := by
  induction steps using List.reverseRecOn with
  | nil => exact recalls_start hstore hlast
  | append_singleton steps step ih =>
    have hinit : steps <+: steps ++ [step] := List.prefix_append _ _
    have ih := ih (fun f hf => houtside f (by simp [hf])) fun text ⟨before, p, hbefore, hread⟩ =>
      htexts ⟨before, p, hbefore.trans hinit, hread⟩
    rw [reached_snoc]
    cases step with
    | load p => exact (ih.load hinj fun text hread => htexts ⟨steps, p, List.prefix_rfl, hread⟩).2
    | outside f =>
      obtain ⟨hcompiler, hmode, hresolve, hmemo, last, hlast, hright⟩ := ih
      exact ⟨hcompiler, hmode, hresolve, hmemo, last, houtside f (by simp) _ _ _ hlast, hright⟩

/-! ## How often the compiler runs -/

/-- A cache without a store counts the texts it has compiled, and keeps the outcome of each. -/
structure Counts (options : Options) (texts loaded : Set String) (cache : CompileCache Shelf) :
    Prop where
  store : cache.store = .none
  resolve : cache.resolve = options.resolve
  finite : loaded.Finite
  read : loaded ⊆ texts
  transforms : cache.transforms = loaded.ncard
  memo : ∀ text ∈ texts, (cache.memo.find? (Digest.ofText text)).isSome ↔ text ∈ loaded

/-- What is obtained without a store comes from memory or from the compiler. -/
theorem obtain_without_store {cache : CompileCache Shelf} (hstore : cache.store = .none) (p : Path)
    (text : String) (w : World) :
    (cache.obtain p text w).2.1.store = .none ∧
      (cache.obtain p text w).2.1.resolve = cache.resolve ∧
      ∀ c, (cache.obtain p text w).1 = .ok c →
        ((cache.memo.find? (Digest.ofText text)).isSome ∧ (cache.obtain p text w).2.1 = cache) ∨
        (cache.memo.find? (Digest.ofText text) = none ∧
          (cache.obtain p text w).2.1.memo = cache.memo.insert (Digest.ofText text) c ∧
          (cache.obtain p text w).2.1.transforms = cache.transforms + 1) := by
  unfold CompileCache.obtain
  dsimp only
  cases hhit : cache.memo.find? (Digest.ofText text) with
  | some c => exact ⟨hstore, rfl, fun _ _ => .inl (by simp)⟩
  | none =>
    have hget : CacheStore.get (Digest.ofText text) cache.store w = (.ok none, .none, w) := by
      rw [hstore]
      rfl
    simp only [hget, CompileCache.compile]
    cases cache.compiler p text true with
    | error e => exact ⟨rfl, rfl, fun _ hc => by cases hc⟩
    | ok c =>
      refine ⟨rfl, rfl, fun d hd => .inr ⟨trivial, ?_, rfl⟩⟩
      cases hd
      rfl

variable {loaded : Set String}

/-- A text that was loaded is counted, unless it was counted before. -/
theorem Counts.insert {cache cache' : CompileCache Shelf} (h : Counts options texts loaded cache)
    (hinj : Set.InjOn Digest.ofText texts) (htext : text ∈ texts) {c : Compiled}
    (hstore : cache'.store = .none) (hresolve : cache'.resolve = cache.resolve)
    (hcases : (cache.memo.find? (Digest.ofText text)).isSome ∧ cache'.memo = cache.memo ∧
        cache'.transforms = cache.transforms ∨
      cache.memo.find? (Digest.ofText text) = none ∧
        cache'.memo = cache.memo.insert (Digest.ofText text) c ∧
        cache'.transforms = cache.transforms + 1) :
    Counts options texts (Insert.insert text loaded) cache' := by
  obtain ⟨hhit, hmemo, htransforms⟩ | ⟨hmiss, hmemo, htransforms⟩ := hcases
  · have hin : text ∈ loaded := (h.memo text htext).mp hhit
    rw [Set.insert_eq_of_mem hin]
    exact ⟨hstore, hresolve.trans h.resolve, h.finite, h.read, htransforms.trans h.transforms,
      hmemo ▸ h.memo⟩
  · have hout : text ∉ loaded := fun hin => by
      have := (h.memo text htext).mpr hin
      rw [hmiss] at this
      cases this
    refine ⟨hstore, hresolve.trans h.resolve, h.finite.insert text, Set.insert_subset htext h.read,
      ?_, fun other hother => ?_⟩
    · rw [Set.ncard_insert_of_notMem hout h.finite, htransforms, h.transforms]
    · rw [hmemo, MemoryStore.find?_insert, Set.mem_insert_iff, ← h.memo other hother]
      split
      next hdigest => simp [hinj hother htext hdigest]
      next hdigest =>
        have hne : other ≠ text := fun heq => hdigest (congrArg Digest.ofText heq)
        simp [hne]

theorem loadedTexts_snoc (s : CompileCache σ × World) (steps : List CacheStep) (step : CacheStep) :
    loadedTexts options s (steps ++ [step]) =
      {text | ∃ p, step = .load p ∧ ¬ options.resolve.isDependency p = true ∧
        (reached s steps).2.files.read p = .ok text ∧
        ∃ code, ((reached s steps).1.load p (reached s steps).2).1 = .ok code} ∪
      loadedTexts options s steps := by
  ext text
  constructor
  · rintro ⟨before, p, hbefore, hrest⟩
    rcases List.prefix_concat_iff.mp hbefore with heq | hbefore
    · obtain ⟨rfl, hstep⟩ := List.append_inj' heq rfl
      obtain rfl : .load p = step := List.singleton_inj.mp hstep
      exact .inl ⟨p, rfl, hrest⟩
    · exact .inr ⟨before, p, hbefore, hrest⟩
  · rintro (⟨p, rfl, hrest⟩ | ⟨before, p, hbefore, hrest⟩)
    · exact ⟨steps, p, List.prefix_rfl, hrest⟩
    · exact ⟨before, p, hbefore.trans (List.prefix_append _ _), hrest⟩

/-- A load counts the text of the file, if it succeeds and the file is no dependency. -/
theorem Counts.load {cache : CompileCache Shelf} (h : Counts options texts loaded cache)
    (hinj : Set.InjOn Digest.ofText texts) (hread : ∀ text, w.files.read p = .ok text → text ∈ texts) :
    Counts options texts ({text | ¬ options.resolve.isDependency p = true ∧
      w.files.read p = .ok text ∧ ∃ code, (cache.load p w).1 = .ok code} ∪ loaded)
      (cache.load p w).2.1 := by
  have hcases := load_cases cache p w
  rw [h.resolve] at hcases
  obtain ⟨e, hfile, hload⟩ | ⟨text, hfile, ⟨hdependency, hload⟩ | ⟨hdependency, hload⟩⟩ := hcases
  · simpa [hload] using h
  · simpa [hload, hdependency] using h
  obtain ⟨hstore, hresolve, hobtain⟩ := obtain_without_store h.store p text w
  obtain ⟨e, herror, hload⟩ | ⟨c, hok, hload⟩ := hload
  · obtain ⟨hmemo, -, htransforms⟩ := obtain_error herror
    have hloaded : Counts options texts loaded (cache.obtain p text w).2.1 :=
      ⟨hstore, hresolve.trans h.resolve, h.finite, h.read, htransforms.trans h.transforms,
        hmemo ▸ h.memo⟩
    simpa [hload] using hloaded
  · have hset : {text | ¬ options.resolve.isDependency p = true ∧ w.files.read p = .ok text ∧
        ∃ code, (cache.load p w).1 = .ok code} ∪ loaded = Insert.insert text loaded := by
      ext other
      simp [hload, hdependency, hfile, eq_comm]
    rw [hset, hload]
    refine h.insert (c := c) hinj (hread text hfile) hstore hresolve ?_
    rcases hobtain c hok with ⟨hhit, hsame⟩ | hmiss
    · exact .inl ⟨hhit, by rw [hsame], by rw [hsame]⟩
    · exact .inr hmiss

/-- After any steps without a store the texts that were loaded are counted. -/
theorem counts_reached {steps : List CacheStep} (hinj : Set.InjOn Digest.ofText texts)
    (htexts : readTexts (start options Shelf.none w) steps ⊆ texts) :
    Counts options texts (loadedTexts options (start options Shelf.none w) steps)
      (reached (start options Shelf.none w) steps).1 := by
  induction steps using List.reverseRecOn with
  | nil =>
    have hnone : loadedTexts options (start options Shelf.none w) [] = ∅ := by
      ext text
      simp [loadedTexts]
    rw [hnone]
    refine ⟨rfl, rfl, Set.finite_empty, Set.empty_subset _, (Set.ncard_empty _).symm, fun _ _ => ?_⟩
    exact iff_of_false Bool.false_ne_true (Set.notMem_empty _)
  | append_singleton steps step ih =>
    have ih := ih fun text ⟨before, p, hbefore, hread⟩ =>
      htexts ⟨before, p, hbefore.trans (List.prefix_append _ _), hread⟩
    rw [reached_snoc, loadedTexts_snoc]
    cases step with
    | load p =>
      have hload := ih.load hinj fun text hread => htexts ⟨steps, p, List.prefix_rfl, hread⟩
      simpa [serve] using hload
    | outside f => simpa [serve] using ih

/-- A cache answers every load of every sequence of loads, whatever changes between them and
whatever its store forgets or refuses, as if the file were compiled alone, if texts with one digest
are one text; and without a store the compiler runs once for each text. -/
theorem loads_are_transparent (honest : HonestStore σ) (options : Options) (store : σ) (w : World)
    (last : Digest → Option Compiled) (steps : List CacheStep)
    (hstore : honest.Holds last store w.files)
    (houtside : ∀ f, .outside f ∈ steps → honest.Allows f)
    (hdigests : Set.InjOn Digest.ofText (readTexts (start options store w) steps))
    (hlast : Right (readTexts (start options store w) steps) last) :
    (∀ before p, before ++ [.load p] <+: steps →
      LoadsAsAlone options (reached (start options store w) before).2.files p
        (reached (start options store w) before).1
        ((reached (start options store w) before).1.load p
          (reached (start options store w) before).2)) ∧
      (Set.InjOn Digest.ofText (readTexts (start options Shelf.none w) steps) →
        (reached (start options Shelf.none w) steps).1.transforms =
          (loadedTexts options (start options Shelf.none w) steps).ncard) := by
  refine ⟨fun before p hbefore => ?_, fun hinj => (counts_reached hinj subset_rfl).transforms⟩
  have hinit : before <+: steps := (List.prefix_append _ _).trans hbefore
  have hrecalls := recalls_reached hstore hlast
    (fun f hf => houtside f (hinit.subset hf)) hdigests
    fun text ⟨earlier, q, hearlier, hread⟩ => ⟨earlier, q, hearlier.trans hinit, hread⟩
  exact (hrecalls.load hdigests fun text hread => ⟨before, p, hbefore, hread⟩).1

/-- A world with one file in the root directory. -/
def oneFile (name text : String) : World := ⟨⟨.dir [(name, .file text.toUTF8)], []⟩, .empty false, []⟩

/-- A file that is renamed between two loads is loaded as it would be alone. -/
theorem loads_are_transparent_moved :
    LoadsAsAlone .default (oneFile "b.rl" "1;").files ⟨"/b.rl"⟩
      (reached (start .default (Shelf.memory .empty) (oneFile "a.rl" "1;"))
        [.load ⟨"/a.rl"⟩, .outside fun _ => oneFile "b.rl" "1;"]).1
      ((reached (start .default (Shelf.memory .empty) (oneFile "a.rl" "1;"))
        [.load ⟨"/a.rl"⟩, .outside fun _ => oneFile "b.rl" "1;"]).1.load ⟨"/b.rl"⟩
          (oneFile "b.rl" "1;")) := by
  have hreads : readTexts (start .default (Shelf.memory .empty) (oneFile "a.rl" "1;"))
      [.load ⟨"/a.rl"⟩, .outside fun _ => oneFile "b.rl" "1;", .load ⟨"/b.rl"⟩] ⊆ {"1;"} := by
    rintro text ⟨before, p, ⟨after, hbefore⟩, hread⟩
    match before with
    | [] =>
      obtain ⟨rfl, -⟩ : p = ⟨"/a.rl"⟩ ∧ _ := by simpa using hbefore
      exact (Except.ok.inj hread).symm
    | [_] => simp at hbefore
    | [_, _] =>
      obtain ⟨rfl, rfl, rfl, -⟩ : _ ∧ _ ∧ p = ⟨"/b.rl"⟩ ∧ _ := by simpa using hbefore
      exact (Except.ok.inj hread).symm
    | _ :: _ :: _ :: _ => simp at hbefore
  have hinj := Set.subsingleton_singleton.anti hreads |>.injOn Digest.ofText
  exact (loads_are_transparent Shelf.honest .default (.memory .empty) (oneFile "a.rl" "1;")
    (fun _ => none) _ ⟨trivial, fun _ _ hc => by cases hc⟩ (fun f _ _ _ _ h => h) hinj
    (fun _ _ _ hc => by cases hc)).1
    [.load ⟨"/a.rl"⟩, .outside fun _ => oneFile "b.rl" "1;"] ⟨"/b.rl"⟩ List.prefix_rfl

end CompileCache

end Hotload
