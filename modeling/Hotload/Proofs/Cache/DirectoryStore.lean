import Hotload.Cache.Store
import Hotload.Proofs.Cache.Directories
import Hotload.Proofs.Cache.Records

/-!
# Stores in directories

A store in a directory is a map from digests to compiled modules: an entry that is put is found again, and
no other one changes. The entry is written under another name and then moved, so that it changes at once or
not at all.

* `Digest.hex_injective`: digests are told apart by their digits.
* `DirectoryStore.get_answer`: an answer depends on what is read of one file.
* `DirectoryStore.replaceFile_entry`: how the file of an entry is replaced.
* `DirectoryStore.put_ok_iff`: when an entry can be put.
* `DirectoryStore.put_changes_one_entry`: what is found after that.
-/

namespace Hotload

/-! ## Names of entries -/

namespace Digest

variable {d e : Digest}

theorem digitChar_injective {m n : Nat} (hm : m < 16) (hn : n < 16)
    (h : Nat.digitChar m = Nat.digitChar n) : m = n := by
  have hm' := Json.hexDigit?_digitChar hm
  rw [h, Json.hexDigit?_digitChar hn] at hm'
  exact (Option.some.inj hm').symm

theorem hexByte_injective {m n : Nat} (h : hexByte m = hexByte n) : m % 256 = n % 256 := by
  simp only [hexByte, List.cons.injEq, and_true] at h
  have hhigh := digitChar_injective (Nat.mod_lt _ (by decide)) (Nat.mod_lt _ (by decide)) h.1
  have hlow := digitChar_injective (Nat.mod_lt _ (by decide)) (Nat.mod_lt _ (by decide)) h.2
  omega

theorem hexWord_injective {v w : UInt32} (h : hexWord v = hexWord w) : v = w := by
  have hpow : Nat.pow 2 8 = 256 ∧ Nat.pow 2 16 = 65536 ∧ Nat.pow 2 24 = 16777216 := by decide
  simp only [hexWord, hpow] at h
  obtain ⟨h, h3⟩ := List.append_inj' h rfl
  obtain ⟨h, h2⟩ := List.append_inj' h rfl
  obtain ⟨h0, h1⟩ := List.append_inj' h rfl
  have h0 := hexByte_injective h0
  have h1 := hexByte_injective h1
  have h2 := hexByte_injective h2
  have h3 := hexByte_injective h3
  have hv := v.toNat_lt
  have hw := w.toNat_lt
  exact UInt32.toNat_inj.1 (by omega)

/-- Digests are told apart by their digits. -/
theorem hex_injective (h : d.hex = e.hex) : d = e := by
  have hwords (as bs : List UInt32) (h : as.flatMap hexWord = bs.flatMap hexWord) : as = bs := by
    induction as generalizing bs with
    | nil =>
      cases bs with
      | nil => rfl
      | cons b bs => cases h
    | cons a as ih =>
      cases bs with
      | nil => cases h
      | cons b bs =>
        rw [List.flatMap_cons, List.flatMap_cons] at h
        obtain ⟨hword, hrest⟩ := List.append_inj h rfl
        rw [hexWord_injective hword, ih bs hrest]
  have hchars := String.ofList_inj.1 h
  cases d
  cases e
  exact congrArg Digest.mk (hwords _ _ hchars)

theorem slash_not_mem_hex (d : Digest) : '/' ∉ d.hex.toList := by
  have hdigit (n : Nat) : Nat.digitChar (n % 16) ≠ '/' := by
    have hall : ∀ n : Fin 16, Nat.digitChar n ≠ '/' := by decide
    exact hall ⟨n % 16, Nat.mod_lt _ (by decide)⟩
  rw [hex, String.toList_ofList]
  intro h
  obtain ⟨w, -, hw⟩ := List.mem_flatMap.1 h
  simp only [hexWord, hexByte, List.mem_append, List.mem_cons, List.not_mem_nil, or_false] at hw
  rcases hw with ((hw | hw) | hw) | hw <;> rcases hw with hw | hw <;> exact hdigit _ hw.symm

end Digest

namespace DirectoryStore

open FileTree (IsName)

variable {store : DirectoryStore} {key k : Digest} {c : Compiled} {w : World}

/-- The name of the file of an entry. -/
def entryName (key : Digest) : String := key.hex ++ ".json"

theorem isName_of_hex (key : Digest) {ext : String} (hlength : 2 < ext.length)
    (hslash : '/' ∉ ext.toList) : IsName (key.hex ++ ext) := by
  have hne (other : String) (hshort : other.length ≤ 2) : key.hex ++ ext ≠ other := by
    rintro rfl
    rw [String.length_append] at hshort
    omega
  refine FileTree.isName_of_ne (hne _ (by decide)) (hne _ (by decide)) (hne _ (by decide)) ?_
  rw [String.toList_append, List.mem_append]
  exact not_or.2 ⟨key.slash_not_mem_hex, hslash⟩

theorem isName_entryName (key : Digest) : IsName (entryName key) :=
  isName_of_hex key (by decide) (by decide)

theorem entryName_ne (h : k ≠ key) : entryName k ≠ entryName key := by
  intro heq
  have hchars := congrArg String.toList heq
  rw [entryName, entryName, String.toList_append, String.toList_append] at hchars
  exact h (Digest.hex_injective (String.toList_inj.1 (List.append_cancel_right hchars)))

/-! ## Answers -/

/-- What a store answers when the file of an entry reads so. -/
def answer : Except FileError String → Except FileError (Option Compiled)
  | .error .notFound => .ok none
  | .error e => .error e
  | .ok text =>
    match Json.parse? text.toList with
    | none => .ok (some ⟨text, none⟩)
    | some json => .ok (Compiled.ofJson? json)

theorem get_answer (store : DirectoryStore) (k : Digest) (w : World) :
    (get k store w).1 = answer (w.files.read (store.entryPath k)) := by
  unfold get answer
  cases w.files.read (store.entryPath k) with
  | error e => cases e <;> rfl
  | ok text =>
    dsimp only
    cases Json.parse? text.toList with
    | none => rfl
    | some json =>
      dsimp only
      cases Compiled.ofJson? json <;> rfl

theorem readKind_toUTF8 (text : String) : FileTree.readKind (some (.file text.toUTF8)) = .ok text := by
  rw [FileTree.readKind, FileTree.fromUTF8?_toUTF8]

theorem answer_record (h : c.Fits) : answer (.ok c.record) = .ok (some c) := by
  obtain ⟨json, hjson, hread⟩ := Option.bind_eq_some_iff.1 (Compiled.ofJson?_record h)
  simp only [answer, hjson, hread]

/-! ## Drafts -/

variable [Process]

/-- The name of the file that is written before it. -/
def draftName (key : Digest) : String := entryName key ++ "." ++ (toString Process.id ++ ".tmp")

theorem isName_draftName (key : Digest) : IsName (draftName key) := by
  have hdigit : '/' ∉ Nat.toDigits 10 Process.id := fun h =>
    Bool.false_ne_true (Nat.isDigit_of_mem_toDigits (by decide) (by decide) h)
  have hslash : '/' ∉ (toString Process.id).toList := by
    rwa [Nat.toString_eq_repr, Nat.toList_repr]
  rw [draftName, entryName, String.append_assoc, String.append_assoc]
  refine isName_of_hex key ?_ ?_
  · simp only [String.length_append]
    exact Nat.lt_add_right _ (by decide)
  · simp only [String.toList_append, List.mem_append]
    exact fun h => h.elim (by decide) fun h => h.elim (by decide) fun h => h.elim hslash (by decide)

/-- No entry is a draft. -/
theorem entryName_ne_draftName (k key : Digest) : entryName k ≠ draftName key := by
  have hdraft : draftName key = entryName key ++ "." ++ toString Process.id ++ ".tmp" :=
    String.append_assoc.symm
  intro heq
  have hlast := congrArg (fun name : String => name.toList.getLast?) (heq.trans hdraft)
  have hjson : ".json".toList.getLast? = some 'n' := by decide
  have htmp : ".tmp".toList.getLast? = some 'p' := by decide
  simp only [entryName, String.toList_append, List.getLast?_append, hjson, htmp, Option.some_or] at hlast
  exact absurd hlast (by decide)

theorem draftPath_entryPath (store : DirectoryStore) (key : Digest) :
    draftPath (store.entryPath key) = store.dir.join ⟨draftName key⟩ :=
  Path.addExtension_join (isName_entryName key).2 _

/-- Replacing the file of an entry by way of a draft changes no other entry; if it fails it changes none,
and otherwise the draft is gone. -/
theorem replaceFile_entry {content : ByteArray} {files after : FileTree}
    {outcome : Except FileError Unit}
    (h : replaceFile (store.entryPath key) content files = (outcome, after)) :
    (∀ k, (k = key → outcome ≠ .ok ()) →
      after.read (store.entryPath k) = files.read (store.entryPath k)) ∧
      (outcome = .ok () →
        after.read (store.entryPath key) = FileTree.readKind (some (.file content)) ∧
          after.locate (draftPath (store.entryPath key)) = .error .notFound) := by
  have hentry (k : Digest) : store.entryPath k = store.dir.join ⟨entryName k⟩ := rfl
  unfold replaceFile at h
  dsimp only at h
  rw [store.draftPath_entryPath] at h ⊢
  simp only [hentry] at h ⊢
  split at h
  next e _ =>
    cases h
    exact ⟨fun _ _ => rfl, fun h => by cases h⟩
  next written hwrite =>
    obtain ⟨here, hopens, hold, hwritten⟩ := FileTree.write_join (isName_draftName key) hwrite
    have hopens' := hopens.becomes hwritten hold
    have hfile := hwritten.kindAt_place
    have hdraftKept : written.kindAt (here ++ [draftName key]) ≠ some .dir := by
      rw [hfile]
      exact fun h => by cases h
    have hread (k : Digest) : written.read (store.dir.join ⟨entryName k⟩) =
        files.read (store.dir.join ⟨entryName k⟩) :=
      hopens.read_becomes hwritten hold (isName_entryName k) (entryName_ne_draftName k key)
    split at h
    next moved hmove =>
      obtain ⟨rfl, rfl⟩ := Prod.mk.inj h
      obtain ⟨target, htarget, hplace, hmoved⟩ :=
        hopens'.rename_join (isName_draftName key) (isName_entryName key)
          (entryName_ne_draftName key key) hfile hmove
      have htargetOpens := hopens'.becomes htarget hplace
      have hdraftThere : target.kindAt (here ++ [draftName key]) ≠ some .dir := by
        rwa [htarget.kindAt_of_ne (by simpa using (entryName_ne_draftName key key).symm)]
      have hmovedOpens := htargetOpens.becomes hmoved hdraftThere
      have hmovedRead (k : Digest) : moved.read (store.dir.join ⟨entryName k⟩) =
          target.read (store.dir.join ⟨entryName k⟩) :=
        htargetOpens.read_becomes hmoved hdraftThere (isName_entryName k)
          (entryName_ne_draftName k key)
      refine ⟨fun k hk => ?_, fun _ => ⟨?_, ?_⟩⟩
      · have hne : k ≠ key := fun heq => hk heq rfl
        rw [hmovedRead k, hopens'.read_becomes htarget hplace (isName_entryName k) (entryName_ne hne),
          hread k]
      · rw [hmovedRead key, htargetOpens.read_join (isName_entryName key), htarget.kindAt_place]
      · rw [hmovedOpens.locate_join (isName_draftName key), hmoved.kindAt_place]
        rfl
    next e _ =>
      cases h
      obtain ⟨removed, hremove, hremoved⟩ := hopens'.removeFile_join (isName_draftName key) hfile
      refine ⟨fun k _ => ?_, fun h => by cases h⟩
      rw [hremove]
      change removed.read _ = _
      rw [← hread k]
      exact hopens'.read_becomes hremoved hdraftKept (isName_entryName k) (entryName_ne_draftName k key)

/-- The file of an entry can be replaced in a directory that is there, unless a directory stands in its
place or in that of the draft. -/
theorem replaceFile_ok_iff (store : DirectoryStore) (key : Digest) (content : ByteArray)
    (files : FileTree) :
    (replaceFile (store.entryPath key) content files).1 = .ok () ↔
      ∃ here, files.Opens store.dir here ∧ files.kindAt (here ++ [entryName key]) ≠ some .dir ∧
        files.kindAt (here ++ [draftName key]) ≠ some .dir := by
  have hentry : store.entryPath key = store.dir.join ⟨entryName key⟩ := rfl
  have hne := entryName_ne_draftName key key
  unfold replaceFile
  dsimp only
  rw [store.draftPath_entryPath, hentry]
  constructor
  · intro h
    split at h
    · cases h
    next written hwrite =>
      obtain ⟨here, hopens, hold, hwritten⟩ := FileTree.write_join (isName_draftName key) hwrite
      refine ⟨here, hopens, ?_, hold⟩
      split at h
      next moved hmove =>
        obtain ⟨target, -, hplace, -⟩ :=
          (hopens.becomes hwritten hold).rename_join (isName_draftName key) (isName_entryName key) hne
            hwritten.kindAt_place hmove
        rwa [hwritten.kindAt_of_ne (by simpa using hne)] at hplace
      · cases h
  · rintro ⟨here, hopens, hplace, hold⟩
    obtain ⟨written, hwrite⟩ := hopens.exists_write (isName_draftName key) hold content
    obtain ⟨place, hopens', -, hwritten⟩ := FileTree.write_join (isName_draftName key) hwrite
    obtain rfl : place = here := Except.ok.inj (hopens'.enter.symm.trans hopens.enter)
    rw [← hwritten.kindAt_of_ne (by simpa using hne)] at hplace
    obtain ⟨moved, hmove⟩ :=
      (hopens.becomes hwritten hold).exists_rename (isName_draftName key) (isName_entryName key)
        hwritten.kindAt_place hplace
    rw [hwrite]
    dsimp only
    rw [hmove]

/-- Putting an entry succeeds exactly if its directory can be made and no directory stands in its place
or in that of the draft. -/
theorem put_ok_iff (store : DirectoryStore) (key : Digest) (c : Compiled) (w : World) :
    (put key c store w).1 = .ok () ↔
      (w.files.ensureDirs store.dir).1 = .ok () ∧
        ∃ here, (w.files.ensureDirs store.dir).2.Opens store.dir here ∧
          (w.files.ensureDirs store.dir).2.kindAt (here ++ [entryName key]) ≠ some .dir ∧
          (w.files.ensureDirs store.dir).2.kindAt (here ++ [draftName key]) ≠ some .dir := by
  rw [← replaceFile_ok_iff store key c.record.toUTF8]
  unfold put
  generalize w.files.ensureDirs store.dir = made
  obtain ⟨outcome, files⟩ := made
  cases outcome with
  | error e => exact ⟨fun h => (by cases h), fun h => (by cases h.1)⟩
  | ok _ =>
    dsimp only
    generalize replaceFile (store.entryPath key) c.record.toUTF8 files = replaced
    obtain ⟨outcome, after⟩ := replaced
    cases outcome with
    | error e => exact ⟨fun h => ⟨rfl, h⟩, fun h => h.2⟩
    | ok _ => exact ⟨fun h => ⟨rfl, h⟩, fun h => h.2⟩

/-- Putting an entry makes the directory and then replaces the file of the entry. -/
theorem put_files (store : DirectoryStore) (key : Digest) (c : Compiled) (w : World) :
    ∃ outcome after, put key c store w = (outcome, store, after) ∧
      (∀ k, (k = key → outcome ≠ .ok ()) →
        after.files.read (store.entryPath k) =
          (w.files.ensureDirs store.dir).2.read (store.entryPath k)) ∧
      (outcome = .ok () →
        after.files.read (store.entryPath key) = FileTree.readKind (some (.file c.record.toUTF8)) ∧
          after.files.locate (draftPath (store.entryPath key)) = .error .notFound) := by
  unfold put
  split
  next e files hdirs => exact ⟨_, _, rfl, fun _ _ => by rw [hdirs], fun h => by cases h⟩
  next files hdirs =>
    rw [hdirs]
    split
    next e replaced hreplace => exact ⟨_, _, rfl, replaceFile_entry hreplace⟩
    next replaced hreplace => exact ⟨_, _, rfl, replaceFile_entry hreplace⟩

/-- A store in a directory is a map that changes at once or not at all. Whatever the tree of files, the
key and the module are, an entry that is put is found again exactly as it was, and no draft of it is left.
All other entries, and all entries if putting fails, answer as they do once the directory has been made; that
is as before, unless the path of the directory goes up out of one that is missing. -/
theorem put_changes_one_entry (store : DirectoryStore) (key : Digest) {c : Compiled} (hc : c.Fits)
    (w : World) :
    let outcome := (put key c store w).1
    let after := (put key c store w).2.2
    let made := { w with files := (w.files.ensureDirs store.dir).2 }
    (outcome = .ok () →
        (get key store after).1 = .ok (some c) ∧
          after.files.locate (draftPath (store.entryPath key)) = .error .notFound) ∧
      ∀ k, (k = key → outcome ≠ .ok ()) →
        (get k store after).1 = (get k store made).1 ∧
          (¬ w.files.Detours store.dir → (get k store after).1 = (get k store w).1) := by
  obtain ⟨outcome, after, hput, hothers, hentry⟩ := store.put_files key c w
  rw [hput]
  intro _ _ made
  constructor
  · intro hok
    obtain ⟨hread, hdraft⟩ := hentry hok
    refine ⟨?_, hdraft⟩
    rw [get_answer, hread, readKind_toUTF8, answer_record hc]
  · intro k hk
    have hmade : (get k store after).1 = (get k store made).1 := by
      rw [get_answer, get_answer, hothers k hk]
    refine ⟨hmade, fun hdetours => hmade.trans ?_⟩
    rw [get_answer, get_answer]
    exact congrArg answer (FileTree.readsAlike_ensureDirs hdetours _ (isName_entryName k))

end DirectoryStore

/-- A compiled module with a source map. -/
def mappedModule : Compiled := ⟨"exports.n = 1;\n", some (.ofMappings [⟨⟨1, 1⟩, ⟨2, 3⟩⟩])⟩

/-- The keys of two entries. -/
def firstKey : Digest := ⟨[1, 2, 3, 4, 5, 6, 7, 8]⟩

def secondKey : Digest := ⟨[8, 7, 6, 5, 4, 3, 2, 1]⟩

/-- In a tree without any files the directory of a store is made, and only the entry that is put is there. -/
theorem put_makes_entry :
    let store : DirectoryStore := ⟨⟨"/app/cache"⟩⟩
    let w : World := ⟨.empty, .empty false, []⟩
    let after := (DirectoryStore.put firstKey mappedModule store w).2.2
    mappedModule.Fits ∧ ¬ w.files.Detours store.dir ∧
      (DirectoryStore.get firstKey store after).1 = .ok (some mappedModule) ∧
      (DirectoryStore.get secondKey store after).1 = .ok none := by
  have hdirs : FileTree.empty.ensureDirs ⟨"/app/cache"⟩ =
      (.ok (), ⟨.dir [("app", .dir [("cache", .dir [])])], []⟩) := by with_unfolding_all rfl
  intro store w after
  have hfits : mappedModule.Fits := by
    rintro map ⟨⟩
    decide
  have hdetours : ¬ w.files.Detours store.dir := by
    rintro ⟨before, rest, hsegments, -⟩
    have hup : ['.', '.'] ∉ store.dir.segments := by decide
    exact hup (by rw [hsegments]; simp)
  have hput : (DirectoryStore.put firstKey mappedModule store w).1 = .ok () := by
    have hmade : w.files.ensureDirs store.dir = _ := hdirs
    rw [DirectoryStore.put_ok_iff, hmade]
    exact ⟨rfl, ["app", "cache"], ⟨by decide, rfl⟩, fun h => (by cases h), fun h => (by cases h)⟩
  have hbefore : (DirectoryStore.get secondKey store w).1 = .ok none := by
    have hread : w.files.read (store.entryPath secondKey) = .error .notFound :=
      FileTree.read_join_of_error (DirectoryStore.isName_entryName secondKey) (by decide)
    rw [DirectoryStore.get_answer, hread]
    rfl
  obtain ⟨hfound, hothers⟩ := store.put_changes_one_entry firstKey hfits w
  exact ⟨hfits, hdetours, (hfound hput).1,
    ((hothers secondKey fun heq => absurd heq (by decide)).2 hdetours).trans hbefore⟩

/-- The tree of another store, which holds code under the second key. -/
def otherStore : List (String × Node) :=
  [(DirectoryStore.entryName secondKey, .file "exports.n = 2;".toUTF8)]

theorem lookup_otherStore (name : String) :
    otherStore.lookup name =
      if name = DirectoryStore.entryName secondKey then some (.file "exports.n = 2;".toUTF8) else none := by
  rw [otherStore, List.lookup_cons]
  by_cases h : name = DirectoryStore.entryName secondKey
  · rw [h, beq_self_eq_true, if_pos rfl]
  · rw [beq_false_of_ne h, if_neg h]
    rfl

/-- A store whose path goes up out of a missing directory finds what another one holds once an entry is put,
since the missing directory is made then. -/
theorem put_finds_other_store :
    let store : DirectoryStore := ⟨⟨"/new/../store"⟩⟩
    let w : World := ⟨⟨.dir [("store", .dir otherStore)], []⟩, .empty false, []⟩
    let after := (DirectoryStore.put firstKey mappedModule store w).2.2
    secondKey ≠ firstKey ∧ (DirectoryStore.put firstKey mappedModule store w).1 = .ok () ∧
      (DirectoryStore.get secondKey store w).1 = .ok none ∧
      (DirectoryStore.get secondKey store after).1 = .ok (some ⟨"exports.n = 2;", none⟩) := by
  have hdirs (entries : List (String × Node)) :
      (⟨.dir [("store", .dir entries)], []⟩ : FileTree).ensureDirs ⟨"/new/../store"⟩ =
        (.ok (), ⟨.dir [("store", .dir entries), ("new", .dir [])], []⟩) := by with_unfolding_all rfl
  have hmissing (entries : List (String × Node)) :
      (⟨.dir [("store", .dir entries)], []⟩ : FileTree).enter ⟨"/new/../store"⟩ = .error .notFound := by
    with_unfolding_all rfl
  have hopens (entries : List (String × Node)) :
      (⟨.dir [("store", .dir entries), ("new", .dir [])], []⟩ : FileTree).Opens ⟨"/new/../store"⟩
        ["store"] := ⟨by with_unfolding_all rfl, rfl⟩
  have hkind (name : String) :
      (⟨.dir [("store", .dir otherStore), ("new", .dir [])], []⟩ : FileTree).kindAt
        (["store"] ++ [name]) = (otherStore.lookup name).map Node.kind := by
    change ((otherStore.lookup name).bind (·.follow? [])).map Node.kind = _
    cases otherStore.lookup name <;> rfl
  intro store w after
  have hmade : w.files.ensureDirs store.dir = _ := hdirs otherStore
  have hne : secondKey ≠ firstKey := by decide
  have hname := DirectoryStore.isName_entryName secondKey
  have hput : (DirectoryStore.put firstKey mappedModule store w).1 = .ok () := by
    rw [DirectoryStore.put_ok_iff, hmade]
    refine ⟨rfl, ["store"], hopens otherStore, ?_, ?_⟩
    · rw [hkind, lookup_otherStore, if_neg (DirectoryStore.entryName_ne hne.symm)]
      exact fun h => (by cases h)
    · rw [hkind, lookup_otherStore, if_neg (DirectoryStore.entryName_ne_draftName secondKey firstKey).symm]
      exact fun h => (by cases h)
  have hbefore : (DirectoryStore.get secondKey store w).1 = .ok none := by
    have hread : w.files.read (store.entryPath secondKey) = .error .notFound :=
      FileTree.read_join_of_error hname (hmissing otherStore)
    rw [DirectoryStore.get_answer, hread]
    rfl
  have hread : after.files.read (store.entryPath secondKey) = .ok "exports.n = 2;" := by
    obtain ⟨outcome, world, hfiles, hothers, -⟩ := store.put_files firstKey mappedModule w
    have hafter : after = world := congrArg (·.2.2) hfiles
    rw [hafter, hothers secondKey fun heq => absurd heq hne, hmade]
    refine ((hopens otherStore).read_join hname).trans ?_
    rw [hkind, lookup_otherStore, if_pos rfl]
    exact DirectoryStore.readKind_toUTF8 _
  have hcode : Json.parse? "exports.n = 2;".toList = none := by with_unfolding_all rfl
  refine ⟨hne, hput, hbefore, ?_⟩
  rw [DirectoryStore.get_answer, hread]
  simp only [DirectoryStore.answer, hcode]

end Hotload
