import RfxVoiced.Lib.Newest
import RfxVoiced.Recorder.Files
import Mathlib.Data.Char
import Mathlib.Data.List.Lex

/-!
# Recalling the newest calls

The calls since some time are read from their sidecars, the newest first and only so many. The day
directories are visited in the order of their names, from the last one down, and no further than
until there are enough calls. The names are those of numbers, but they are ordered as texts.

## Main definitions

* `FileSystem` — what the file system answers
* `Recorder.index` — the calls that are recalled
* `Serves` — a file system with the files of a disk, listed in any order
* `InOrder` — the condition under which days that are ordered as texts do no harm

## Main results

* `index_eq_newest` — the newest are taken of the days that are visited
* `index_isNewest_iff` — the calls recalled are the newest exactly under that condition
* `inOrder_of_same_length` — the condition is met where all days have as many digits
-/

namespace RfxVoiced.Files

/-- What the file system answers while calls are recalled. -/
structure FileSystem where
  readDir : Path → Option (List Name)
  isDir : Path → Bool
  /-- The content of a file, where it can be read as a sidecar. -/
  readSidecar : Path → Option CallMeta

/-- The extension of a file name: what stands behind its last dot, if something stands before. -/
def extension (name : Name) : Option Name :=
  match name.reverse.dropWhile (· ≠ '.') with
  | '.' :: before =>
    if before = [] ∨ name = "..".toList then none
    else some (name.reverse.takeWhile (· ≠ '.')).reverse
  | _ => none

/-- The calls of one directory, if it can be read. -/
def found (fs : FileSystem) (since : UInt64) (dir : Path) : Option (List CallMeta) :=
  (fs.readDir dir).map fun files => files.filterMap fun file =>
    if extension file ≠ some "json".toList then none
    else (fs.readSidecar (join dir file)).filter fun info => since ≤ info.started

/-- The loop of `index`. A directory that cannot be read is passed over. -/
def collectCalls (fs : FileSystem) (since : UInt64) (limit : ℕ) :
    List CallMeta → List Path → List CallMeta
  | out, [] => out
  | out, dir :: rest =>
    match found fs since dir with
    | none => collectCalls fs since limit out rest
    | some calls =>
      -- With enough calls, the days that come before in the order of names are not opened.
      if limit ≤ (out ++ calls).length then out ++ calls
      else collectCalls fs since limit (out ++ calls) rest

/-- The names of the directories, the last one first. Paths with one parent are ordered as their
last components are. -/
def dirsOf (fs : FileSystem) (root : Path) (names : List Name) : List Name :=
  ((names.filter fun name => fs.isDir (join root name)).insertionSort (· ≤ ·)).reverse

/-- The calls since a time, the newest first. -/
def Recorder.index (r : Recorder) (fs : FileSystem) (since : UInt64) (limit : ℕ) :
    List CallMeta :=
  match fs.readDir r.root with
  | none => []
  | some names =>
    let out := collectCalls fs since limit [] ((dirsOf fs r.root names).map (join r.root))
    (out.insertionSort fun a b => b.started.toNat ≤ a.started.toNat).take limit

/-! ### The calls on a disk -/

def Content.sidecar? : Content → Option CallMeta
  | .pcm _ => none
  | .sidecar info => some info

/-- The calls that the files of a directory describe. -/
def callsOf (files : Table Name Content) : List CallMeta :=
  files.entries.filterMap fun e => e.2.sidecar?

/-- The calls of a disk. -/
def Disk.calls (disk : Disk) : List CallMeta := disk.entries.flatMap fun e => callsOf e.2

/-- The calls of a disk since a time. -/
def Disk.since (disk : Disk) (since : UInt64) : List CallMeta :=
  disk.calls.filter fun info => since ≤ info.started

/-- A file system with the files of a disk under a root. It lists them in whatever order. -/
structure Serves (fs : FileSystem) (root : Path) (disk : Disk) : Prop where
  days : ∃ names, fs.readDir root = some names ∧ names.Perm disk.keys
  isDir : ∀ dir ∈ disk, fs.isDir (join root dir) = true
  files : ∀ dir files, disk.lookup dir = some files →
    ∃ names, fs.readDir (join root dir) = some names ∧ names.Perm files.keys
  sidecars : ∀ dir files file content, disk.lookup dir = some files →
    files.lookup file = some content →
      fs.readSidecar (join (join root dir) file) = content.sidecar?

/-- The time of a call, as what it is sorted by. -/
def startedKey (info : CallMeta) : ℕ := info.started.toNat

/-- Days that are ordered as texts do no harm. Whenever there are enough calls in the days whose
names come behind that of a call, enough of these calls are no older than it. -/
def InOrder (limit : ℕ) (calls : List CallMeta) : Prop :=
  LaterNoOlder startedKey (fun info => dayName info.started) limit calls

variable {fs : FileSystem} {root : Path} {disk : Disk} {dir : Name} {since : UInt64} {limit : ℕ}

/-! ### One directory -/

theorem extension_sidecarName {id : List Char} (h : id ≠ []) :
    extension (sidecarName id) = some "json".toList := by
  have hreverse : (sidecarName id).reverse = "nosj".toList ++ '.' :: id.reverse := by
    simp [sidecarName]
  have hdrop : (sidecarName id).reverse.dropWhile (· ≠ '.') = '.' :: id.reverse := by
    rw [hreverse]
    rfl
  have htake : (sidecarName id).reverse.takeWhile (· ≠ '.') = "nosj".toList := by
    rw [hreverse]
    rfl
  have hne : sidecarName id ≠ "..".toList := by
    intro heq
    have hlen := congrArg List.length heq
    simp [sidecarName] at hlen
  simp only [extension, hdrop, htake]
  rw [if_neg (not_or.mpr ⟨by simpa using h, hne⟩)]
  rfl

/-- What is read of a directory: its calls since the time, in some order. -/
theorem found_perm (since : UInt64) (hserves : Serves fs root disk) (hdated : DatedDisk disk)
    {files : Table Name Content} (hfiles : disk.lookup dir = some files) :
    ∃ calls, found fs since (join root dir) = some calls ∧
      calls.Perm ((callsOf files).filter fun info => since ≤ info.started) := by
  obtain ⟨names, hnames, hperm⟩ := hserves.files dir files hfiles
  refine ⟨_, by rw [found, hnames, Option.map_some], ?_⟩
  refine (hperm.filterMap _).trans (List.Perm.of_eq ?_)
  rw [callsOf, List.filter_filterMap]
  change (files.entries.map Sigma.fst).filterMap _ = _
  rw [List.filterMap_map]
  apply List.filterMap_congr
  intro e he
  have hlookup : files.lookup e.1 = some e.2 := Table.lookup_eq_some_iff.mpr he
  have hread := hserves.sidecars dir files e.1 e.2 hfiles hlookup
  rw [Function.comp_apply, hread]
  cases hcontent : e.2 with
  | pcm samples =>
    rw [Content.sidecar?, Option.filter_none, ite_self]
  | sidecar info =>
    -- A sidecar goes by the name of its call, so that it is not passed over.
    obtain ⟨-, hname, hid⟩ := hdated dir files e.1 info hfiles (hcontent ▸ hlookup)
    rw [hname, extension_sidecarName hid]
    exact if_neg fun h => h rfl

/-! ### All directories -/

/-- What is read of a directory, by its name. -/
def readDay (fs : FileSystem) (root : Path) (since : UInt64) (dir : Name) : List CallMeta :=
  (found fs since (join root dir)).getD []

theorem readDay_perm (hserves : Serves fs root disk) (hdated : DatedDisk disk)
    {files : Table Name Content} (hfiles : disk.lookup dir = some files) :
    (readDay fs root since dir).Perm ((callsOf files).filter fun info => since ≤ info.started) := by
  obtain ⟨calls, hcalls, hperm⟩ := found_perm since hserves hdated hfiles
  rw [readDay, hcalls]
  exact hperm

/-- Where all directories can be read, the loop gathers calls until there are enough. -/
theorem collectCalls_eq_gather (dirs : List Name)
    (h : ∀ dir ∈ dirs, (found fs since (join root dir)).isSome) (out : List CallMeta) :
    collectCalls fs since limit out (dirs.map (join root)) =
      gather limit out (dirs.map (readDay fs root since)) := by
  induction dirs generalizing out with
  | nil => rfl
  | cons dir dirs ih =>
    obtain ⟨calls, hcalls⟩ := Option.isSome_iff_exists.mp (h dir List.mem_cons_self)
    have hday : readDay fs root since dir = calls := by rw [readDay, hcalls, Option.getD_some]
    rw [List.map_cons, List.map_cons, collectCalls, hcalls, gather, hday]
    have hrest := ih (fun d hd => h d (List.mem_cons_of_mem dir hd)) (out ++ calls)
    exact congrArg (fun rest => if limit ≤ (out ++ calls).length then out ++ calls else rest) hrest

/-- The directories are those of the disk, and their names descend. -/
theorem dirsOf_perm (hserves : Serves fs root disk) {names : List Name}
    (hnames : names.Perm disk.keys) :
    (dirsOf fs root names).Perm disk.keys ∧ (dirsOf fs root names).Pairwise (· > ·) := by
  have hall : names.filter (fun name => fs.isDir (join root name)) = names := by
    apply List.filter_eq_self.mpr
    intro name hname
    exact hserves.isDir name (AList.mem_keys.mpr (hnames.mem_iff.mp hname))
  have hperm : (names.insertionSort (· ≤ ·)).Perm disk.keys :=
    (List.perm_insertionSort _ names).trans hnames
  rw [dirsOf, hall]
  refine ⟨(List.reverse_perm _).trans hperm, ?_⟩
  have hnodup : (names.insertionSort (· ≤ ·)).Nodup := hperm.nodup_iff.mpr disk.keys_nodup
  rw [List.pairwise_reverse]
  have hsorted : (names.insertionSort (· ≤ ·)).Pairwise (· ≤ ·) :=
    List.pairwise_insertionSort _ names
  exact (hsorted.and hnodup).imp fun h => lt_of_le_of_ne h.1 h.2

/-- **The newest are taken of the days that are visited**, from the last one down. -/
theorem index_eq_newest {r : Recorder} (hserves : Serves fs r.root disk) (hdated : DatedDisk disk)
    (since : UInt64) (limit : ℕ) :
    ∃ dirs : List Name, dirs.Perm disk.keys ∧ dirs.Pairwise (· > ·) ∧
      r.index fs since limit =
        newest startedKey limit (gather limit [] (dirs.map (readDay fs r.root since))) := by
  obtain ⟨names, hread, hnames⟩ := hserves.days
  obtain ⟨hperm, hdesc⟩ := dirsOf_perm hserves hnames
  refine ⟨dirsOf fs r.root names, hperm, hdesc, ?_⟩
  have hreadable : ∀ dir ∈ dirsOf fs r.root names,
      (found fs since (join r.root dir)).isSome := by
    intro dir hdir
    have hmem := AList.lookup_isSome.mpr (AList.mem_keys.mpr (hperm.mem_iff.mp hdir))
    obtain ⟨files, hfiles⟩ := Option.isSome_iff_exists.mp hmem
    obtain ⟨calls, hcalls, -⟩ := found_perm since hserves hdated hfiles
    rw [hcalls]
    rfl
  simp only [Recorder.index, hread]
  rw [collectCalls_eq_gather _ hreadable]
  rfl

/-- The days together hold the calls of the disk. -/
theorem flatten_readDay_perm (since : UInt64) (hserves : Serves fs root disk)
    (hdated : DatedDisk disk) {dirs : List Name} (hdirs : dirs.Perm disk.keys) :
    (dirs.map (readDay fs root since)).flatten.Perm (disk.since since) := by
  have hkeys : (disk.keys.map (readDay fs root since)).flatten =
      disk.entries.flatMap fun e => readDay fs root since e.1 := by
    change ((disk.entries.map Sigma.fst).map _).flatten = _
    rw [List.map_map]
    rfl
  refine ((hdirs.map _).flatten).trans ?_
  rw [hkeys, Disk.since, Disk.calls, List.filter_flatMap]
  apply List.Perm.flatMap_left
  intro e he
  exact readDay_perm hserves hdated (Table.lookup_eq_some_iff.mpr he)

/-- The calls that are read of a day began on it. -/
theorem dayName_of_mem_readDay (hserves : Serves fs root disk) (hdated : DatedDisk disk)
    (hdir : dir ∈ disk) {info : CallMeta} (h : info ∈ readDay fs root since dir) :
    dayName info.started = dir := by
  obtain ⟨files, hfiles⟩ := Option.isSome_iff_exists.mp (AList.lookup_isSome.mpr hdir)
  have hmem := (readDay_perm hserves hdated hfiles).mem_iff.mp h
  obtain ⟨e, he, hcontent⟩ := List.mem_filterMap.mp (List.mem_filter.mp hmem).1
  have hlookup : files.lookup e.1 = some e.2 := Table.lookup_eq_some_iff.mpr he
  cases hcases : e.2 with
  | pcm samples =>
    rw [hcases] at hcontent
    contradiction
  | sidecar info' =>
    rw [hcases] at hcontent
    obtain rfl := Option.some.inj hcontent
    exact (hdated dir files e.1 info' hfiles (hcases ▸ hlookup)).1.symm

/-- **When the newest calls are recalled.** From a disk on which every sidecar lies in the directory
of the day on which its call began, listed in any order, the calls recalled are the newest of those
since the time, as many as are wanted and there are, exactly when days that are ordered as texts do
no harm among these calls. -/
theorem index_isNewest_iff (r : Recorder) (disk : Disk) (fs : FileSystem) (since : UInt64)
    (limit : ℕ) (hdated : DatedDisk disk) (hserves : Serves fs r.root disk) :
    IsNewest startedKey limit (disk.since since) (r.index fs since limit) ↔
      InOrder limit (disk.since since) := by
  obtain ⟨dirs, hperm, hdesc, hindex⟩ := index_eq_newest hserves hdated since limit
  have hflatten := flatten_readDay_perm since hserves hdated hperm
  have hlabel : ∀ dir ∈ dirs, ∀ info ∈ readDay fs r.root since dir,
      dayName info.started = dir := by
    intro dir hdir info hinfo
    exact dayName_of_mem_readDay hserves hdated
      (AList.mem_keys.mpr (hperm.mem_iff.mp hdir)) hinfo
  have hcond : EarlierNoOlder startedKey limit (dirs.map (readDay fs r.root since)) ↔
      InOrder limit (dirs.map (readDay fs r.root since)).flatten :=
    earlierNoOlder_map_iff hdesc hlabel
  rw [hindex]
  constructor
  · intro h
    exact (hcond.mp ((isNewest_gather_iff _).mp (h.perm hflatten.symm))).perm hflatten
  · intro h
    exact IsNewest.perm ((isNewest_gather_iff _).mpr (hcond.mpr (h.perm hflatten.symm))) hflatten

/-! ### Days with equally many digits -/

/-- **The condition is met where all days have equally many digits.** -/
theorem inOrder_of_same_length {calls : List CallMeta} {n : ℕ}
    (h : ∀ info ∈ calls, (dayName info.started).length = n) : InOrder limit calls := by
  intro c hc henough
  refine henough.trans (List.countP_mono_left fun x hx hlater => ?_)
  have hdays : dayName c.started < dayName x.started := by simpa using hlater
  have hlen : (dayName c.started).length = (dayName x.started).length :=
    (h c hc).trans (h x hx).symm
  have hdigits := (List.cons_lt_cons_iff.mp hdays).resolve_left (lt_irrefl _)
  have hday : c.started.toNat / 86400 < x.started.toNat / 86400 :=
    Decimal.lt_of_toDigits_lt (Nat.succ.inj hlen) hdigits.2
  have hnewer : startedKey c ≤ startedKey x :=
    le_of_lt (lt_of_not_ge fun hle => absurd hday (not_lt.mpr (Nat.div_le_div_right hle)))
  exact Bool.and_eq_true_iff.mpr ⟨hlater, decide_eq_true hnewer⟩

/-! ### Two calls -/

/-- A file system with the files of a disk under a root, and nothing else. -/
def Disk.fileSystem (disk : Disk) (root : Path) : FileSystem where
  readDir path :=
    if path = root then some disk.keys
    else (disk.entries.find? fun e => join root e.1 = path).map fun e => e.2.keys
  isDir path := disk.entries.any fun e => join root e.1 = path
  readSidecar path :=
    (disk.entries.flatMap fun e => e.2.entries.filterMap fun f =>
      if join (join root e.1) f.1 = path then f.2.sidecar? else none).head?

theorem Serves.of_entries (hdays : fs.readDir root = some disk.keys)
    (hdirs : ∀ e ∈ disk.entries, fs.isDir (join root e.1) = true ∧
      fs.readDir (join root e.1) = some e.2.keys ∧
      ∀ f ∈ e.2.entries, fs.readSidecar (join (join root e.1) f.1) = f.2.sidecar?) :
    Serves fs root disk where
  days := ⟨disk.keys, hdays, List.Perm.refl _⟩
  isDir dir hdir := by
    obtain ⟨files, hfiles⟩ := Option.isSome_iff_exists.mp (AList.lookup_isSome.mpr hdir)
    exact (hdirs ⟨dir, files⟩ (Table.lookup_eq_some_iff.mp hfiles)).1
  files dir files hfiles :=
    ⟨files.keys, (hdirs ⟨dir, files⟩ (Table.lookup_eq_some_iff.mp hfiles)).2.1, List.Perm.refl _⟩
  sidecars dir files file content hfiles hcontent :=
    (hdirs ⟨dir, files⟩ (Table.lookup_eq_some_iff.mp hfiles)).2.2 ⟨file, content⟩
      (Table.lookup_eq_some_iff.mp hcontent)

/-- A recorder for the examples. -/
def exampleRecorder : Recorder := ⟨"calls".toList, 30, 0⟩

/-- A call of a second on day nine, and another on day 19675. Neither is too short. -/
def twoCalls : Disk :=
  (run (Archive.step fun _ _ => false) (Archive.new (some exampleRecorder))
    [.begin 800000 1 1 7 "A" 8000 true, .push 1 (List.replicate 8000 0) true, .finish 1 true,
      .begin 1700000000 1 1 7 "A" 8000 true, .push 1 (List.replicate 8000 0) true,
      .finish 1 true]).disk

theorem dated_twoCalls : DatedDisk twoCalls := (Archive.dated_run _ _).disk

theorem serves_twoCalls :
    Serves (twoCalls.fileSystem exampleRecorder.root) exampleRecorder.root twoCalls :=
  Serves.of_entries (by decide +kernel) (by decide +kernel)

/-- Both calls are recalled, the newest first. -/
theorem index_isNewest_iff_both :
    IsNewest startedKey 2 (twoCalls.since 0)
      (exampleRecorder.index (twoCalls.fileSystem exampleRecorder.root) 0 2) :=
  (index_isNewest_iff exampleRecorder twoCalls _ 0 2 dated_twoCalls serves_twoCalls).mpr
    (show ∀ c ∈ twoCalls.since 0, _ → _ by decide +kernel)

/-- Of the two calls, the earlier one is recalled: as texts, the numbers of their days are the other
way round. -/
theorem index_day_nine :
    DatedDisk twoCalls ∧
    Serves (twoCalls.fileSystem exampleRecorder.root) exampleRecorder.root twoCalls ∧
    (twoCalls.since 0).map (·.started) = [1700000000, 800000] ∧
    (exampleRecorder.index (twoCalls.fileSystem exampleRecorder.root) 0 1).map (·.started) =
      [800000] ∧
    ¬ IsNewest startedKey 1 (twoCalls.since 0)
      (exampleRecorder.index (twoCalls.fileSystem exampleRecorder.root) 0 1) := by
  have hcalls : (twoCalls.since 0).map startedKey = [1700000000, 800000] := by decide +kernel
  have hindex : (exampleRecorder.index (twoCalls.fileSystem exampleRecorder.root) 0 1).map
      startedKey = [800000] := by decide +kernel
  refine ⟨dated_twoCalls, serves_twoCalls, by decide +kernel, by decide +kernel, fun h => ?_⟩
  obtain ⟨rest, hperm, hrest⟩ := h.rest
  -- What is left out has the greater time.
  have hkeys := hperm.map startedKey
  rw [hcalls, List.map_append, hindex] at hkeys
  have hmem : 1700000000 ∈ [800000] ++ rest.map startedKey := hkeys.mem_iff.mp (by simp)
  obtain ⟨c, hc, hkey⟩ : ∃ c ∈ rest, startedKey c = 1700000000 := by simpa using hmem
  obtain ⟨call, hcall, hkey'⟩ := List.mem_map.mp
    (hindex ▸ List.mem_singleton_self 800000 :
      800000 ∈ (exampleRecorder.index (twoCalls.fileSystem exampleRecorder.root) 0 1).map
        startedKey)
  have hle := hrest c hc call hcall
  omega

end RfxVoiced.Files
