import RfxVoiced.Control.Base64
import RfxVoiced.Control.Dispatch
import RfxVoiced.Recorder.Audio
import RfxVoiced.Recorder.Kept
import RfxVoiced.Recorder.Recall
import RfxVoiced.Streams.Wire
import Mathlib.Data.List.Nodup

/-!
# Recall over the control plane

A console asks for the calls since some time, and for the audio of one of them, and is answered from
the recordings on the disk. What it is told is what is kept in the library that the disk stands for:
nothing else is listed, and the audio of a call is what was heard, sample by sample, once the text
of the answer is read as base64 and the bytes as samples.

## Main definitions

* `recIndex`, `recAudio`, `answerRecall` — the two recall messages
* `ReadsAudio` — a file system that reads the audio files of a disk

## Main results

* `calls_perm` — the sidecars on the disk are those of the calls that are kept, each once
* `recIndex_lists` — what is listed
* `recAudio_as_heard` — what is played back
-/

namespace RfxVoiced.Control

open Files

/-- What is said of one call. How many seconds a number of samples is at a rate is a floating point
number. -/
def infoValue (seconds : ℕ → UInt32 → Value) (info : CallMeta) : Value :=
  .object [("id", .string (String.ofList info.id)), ("tg", .int info.tg.toNat),
    ("server", .int info.server.toNat), ("player", .int info.player.toNat),
    ("unit", .string info.unit), ("started", .int info.started.toNat),
    ("seconds", seconds info.samples info.rate), ("samples", .int info.samples),
    ("rate", .int info.rate.toNat)]

/-- Calls since this time are asked for. -/
def sinceOf (body : Value) : UInt64 := UInt64.ofNat (((body.get "since").bind Value.asU64).getD 0)

/-- So many calls are asked for, within reason. -/
def limitOf (body : Value) : ℕ := min (((body.get "limit").bind Value.asU64).getD 200) 1000

/-- `rec.index` -/
def recIndex (seconds : ℕ → UInt32 → Value) (recorder : Option Recorder) (fs : FileSystem)
    (body : Value) : Reply :=
  let calls := match recorder with
    | some r => r.index fs (sinceOf body) (limitOf body)
    | none => []
  ok [("calls", .array (calls.map (infoValue seconds)))]

/-- `rec.audio` -/
def recAudio (recorder : Option Recorder) (read : Path → Option (List UInt8)) (body : Value) :
    Reply :=
  let id := ((body.get "id").bind Value.asStr).getD ""
  match recorder.bind fun r => r.audio read id.toList with
  | some bytes => ok [("rate", .int Dsp.rate.toNat), ("pcm", .string (String.ofList (b64 bytes)))]
  | none => refused 404 "no such recording"

/-- The recall messages, answered from the disk as it is. -/
def answerRecall (seconds : ℕ → UInt32 → Value) (recorder : Option Recorder) (fs : FileSystem)
    (read : Path → Option (List UInt8)) (path : String) (body : Value) : Reply :=
  if path = "rec.index" then recIndex seconds recorder fs body else recAudio recorder read body

end RfxVoiced.Control

namespace RfxVoiced.Files

/-! ### The calls of a disk -/

variable {disk : Disk} {l : Library}

theorem mem_callsOf {files : Table Name Content} {info : CallMeta} :
    info ∈ callsOf files ↔ ∃ file, files.lookup file = some (.sidecar info) := by
  constructor
  · intro h
    obtain ⟨⟨file, content⟩, he, hcontent⟩ := List.mem_filterMap.mp h
    cases content with
    | pcm samples => cases hcontent
    | sidecar info' =>
      obtain rfl := Option.some.inj hcontent
      exact ⟨file, Table.lookup_eq_some_iff.mpr he⟩
  · rintro ⟨file, hfile⟩
    exact List.mem_filterMap.mpr ⟨_, Table.lookup_eq_some_iff.mp hfile, rfl⟩

theorem mem_calls {info : CallMeta} :
    info ∈ disk.calls ↔ ∃ dir file, disk.content dir file = some (.sidecar info) := by
  constructor
  · intro h
    obtain ⟨⟨dir, files⟩, he, hinfo⟩ := List.mem_flatMap.mp h
    obtain ⟨file, hfile⟩ := mem_callsOf.mp hinfo
    exact ⟨dir, file, Option.bind_eq_some_iff.mpr ⟨files, Table.lookup_eq_some_iff.mpr he, hfile⟩⟩
  · rintro ⟨dir, file, hcontent⟩
    obtain ⟨files, hfiles, hfile⟩ := Option.bind_eq_some_iff.mp hcontent
    exact List.mem_flatMap.mpr
      ⟨⟨dir, files⟩, Table.lookup_eq_some_iff.mp hfiles, mem_callsOf.mpr ⟨file, hfile⟩⟩

/-- Where a sidecar lies follows from what it says, so that no two say the same. -/
theorem DatedDisk.nodup_calls (h : DatedDisk disk) : disk.calls.Nodup := by
  have hplace : ∀ {dir files file info}, disk.lookup dir = some files →
      files.lookup file = some (.sidecar info) →
        dir = dayName info.started ∧ file = sidecarName info.id := fun hfiles hfile =>
    ⟨(h _ _ _ _ hfiles hfile).1, (h _ _ _ _ hfiles hfile).2.1⟩
  rw [Disk.calls, List.nodup_flatMap]
  constructor
  · rintro ⟨dir, files⟩ he
    have hfiles := Table.lookup_eq_some_iff.mpr he
    have hdistinct : files.entries.Pairwise fun e e' => e.1 ≠ e'.1 :=
      List.nodupKeys_iff_pairwise.mp files.nodupKeys
    refine List.Pairwise.filterMap _ (fun _ _ hboth => hboth) (hdistinct.imp_of_mem ?_)
    rintro ⟨file, content⟩ ⟨file', content'⟩ hmem hmem' hne info hinfo info' hinfo' rfl
    cases content with
    | pcm samples => cases hinfo
    | sidecar info₁ =>
      cases content' with
      | pcm samples => cases hinfo'
      | sidecar info₂ =>
        obtain rfl := Option.some.inj hinfo
        obtain rfl := Option.some.inj hinfo'
        exact hne ((hplace hfiles (Table.lookup_eq_some_iff.mpr hmem)).2.trans
          (hplace hfiles (Table.lookup_eq_some_iff.mpr hmem')).2.symm)
  · have hdistinct : disk.entries.Pairwise fun e e' => e.1 ≠ e'.1 :=
      List.nodupKeys_iff_pairwise.mp disk.nodupKeys
    refine hdistinct.imp_of_mem ?_
    rintro ⟨dir, files⟩ ⟨dir', files'⟩ hmem hmem' hne info hinfo hinfo'
    obtain ⟨file, hfile⟩ := mem_callsOf.mp hinfo
    obtain ⟨file', hfile'⟩ := mem_callsOf.mp hinfo'
    exact hne ((hplace (Table.lookup_eq_some_iff.mpr hmem) hfile).1.trans
      (hplace (Table.lookup_eq_some_iff.mpr hmem') hfile').1.symm)

namespace Stands

theorem dated (h : Stands l disk) : DatedDisk disk := by
  intro dir files file info hfiles hinfo
  have hcontent : disk.content dir file = some (.sidecar info) :=
    Option.bind_eq_some_iff.mpr ⟨files, hfiles, hinfo⟩
  obtain ⟨c, -, rfl, rfl, rfl⟩ := (h.sidecars dir file info).mp hcontent
  exact ⟨rfl, rfl, callId_ne_nil c.started c.tg c.seq⟩

/-- **The sidecars on the disk are those of the calls that are kept**, each once. -/
theorem calls_perm (h : Stands l disk) : disk.calls.Perm (l.kept.map Call.info) := by
  have hnodup : (l.kept.map Call.info).Nodup := by
    apply List.Pairwise.map Call.info _ h.distinct
    intro c d hne heq
    exact hne (congrArg CallMeta.id heq)
  refine (List.perm_ext_iff_of_nodup h.dated.nodup_calls hnodup).mpr fun info => ?_
  rw [mem_calls, List.mem_map]
  constructor
  · rintro ⟨dir, file, hcontent⟩
    obtain ⟨c, hc, rfl, -, -⟩ := (h.sidecars dir file info).mp hcontent
    exact ⟨c, hc, rfl⟩
  · rintro ⟨c, hc, rfl⟩
    exact ⟨c.dir, sidecarName c.id, (h.sidecars _ _ _).mpr ⟨c, hc, rfl, rfl, rfl⟩⟩

end Stands

/-! ### What is listed -/

/-- A list of calls of a library: of those since a time, so many and the newest first. -/
structure Lists (l : Library) (since : UInt64) (limit : ℕ) (infos : List CallMeta) : Prop where
  /-- What is listed is kept, and listed once. -/
  kept : infos.Subperm ((l.kept.filter fun c => since ≤ c.started).map Call.info)
  /-- Nothing is left out but for the limit. -/
  length : infos.length = min limit (l.kept.filter fun c => since ≤ c.started).length
  newestFirst : infos.Pairwise fun a b => b.started.toNat ≤ a.started.toNat

theorem Stands.since_perm (h : Stands l disk) (since : UInt64) :
    (disk.since since).Perm ((l.kept.filter fun c => since ≤ c.started).map Call.info) := by
  refine (h.calls_perm.filter _).trans (List.Perm.of_eq ?_)
  rw [List.filter_map]
  rfl

theorem Stands.lists_index (h : Stands l disk) {fs : FileSystem} {r : Recorder}
    (hserves : Serves fs r.root disk) (since : UInt64) (limit : ℕ) :
    Lists l since limit (r.index fs since limit) := by
  obtain ⟨dirs, hdirs, -, hindex⟩ := index_eq_newest hserves h.dated since limit
  have hall := (flatten_readDay_perm since hserves h.dated hdirs).trans (h.since_perm since)
  obtain ⟨seen, left, hgroups, hgather, henough, -⟩ :=
    gather_spec limit [] (dirs.map (readDay fs r.root since))
  rw [List.nil_append] at hgather henough
  rw [hindex, hgather]
  rw [hgroups, List.flatten_append] at hall
  refine ⟨?_, ?_, (isNewest_newest startedKey limit seen.flatten).sorted⟩
  · obtain ⟨rest, hperm, -⟩ := perm_newest_append startedKey limit seen.flatten
    have hread : (newest startedKey limit seen.flatten).Subperm seen.flatten :=
      (List.sublist_append_left _ rest).subperm.trans hperm.symm.subperm
    exact (hread.trans (List.sublist_append_left _ left.flatten).subperm).trans hall.subperm
  · rw [length_newest, ← List.length_map Call.info, ← hall.length_eq, List.length_append]
    cases left with
    | nil => rfl
    | cons group left =>
      -- There was enough before the days that were not visited.
      have hlimit := henough (List.cons_ne_nil group left)
      omega

/-! ### What is played back -/

/-- A file system that reads the audio files of a disk: the samples as bytes. -/
def ReadsAudio (read : Path → Option (List UInt8)) (root : Path) (disk : Disk) : Prop :=
  ∀ dir file samples, disk.content dir file = some (.pcm samples) →
    read (join (join root dir) file) = some (samples.flatMap leBytes)

/-- What is read of an audio file. -/
def Content.bytes? : Content → Option (List UInt8)
  | .pcm samples => some (samples.flatMap leBytes)
  | .sidecar _ => none

theorem ReadsAudio.of_entries {read : Path → Option (List UInt8)} {root : Path}
    (h : ∀ e ∈ disk.entries, ∀ f ∈ e.2.entries, f.2.bytes?.isSome = true →
      read (join (join root e.1) f.1) = f.2.bytes?) : ReadsAudio read root disk := by
  intro dir file samples hcontent
  obtain ⟨files, hfiles, hfile⟩ := Option.bind_eq_some_iff.mp hcontent
  exact h ⟨dir, files⟩ (Table.lookup_eq_some_iff.mp hfiles) ⟨file, .pcm samples⟩
    (Table.lookup_eq_some_iff.mp hfile) rfl

/-- What is read under a root, with the files of a disk there. -/
def Disk.readAudio (disk : Disk) (root path : Path) : Option (List UInt8) :=
  (disk.entries.flatMap fun e => e.2.entries.filterMap fun f =>
    if join (join root e.1) f.1 = path then f.2.bytes? else none).head?

/-- The audio of a call that is kept is found by its id. -/
theorem Stands.audio_eq (h : Stands l disk) {read : Path → Option (List UInt8)} {r : Recorder}
    (hread : ReadsAudio read r.root disk) {c : Call} (hc : c ∈ l.kept) :
    r.audio read c.id = some (c.audio.flatMap leBytes) := by
  rw [Recorder.audio, Call.id, audioPath_callId, Option.bind_some]
  exact hread _ _ _ (h.audio c hc)

/-- The recorder goes on writing under its root. -/
theorem recorder_after (tooShort : ℕ → UInt32 → Bool) (r : Recorder) (es : List Event) :
    ∃ r', (Archive.after tooShort r es).recorder = some r' ∧ r'.root = r.root := by
  refine run_invariant (P := fun a : Archive => ∃ r', a.recorder = some r' ∧ r'.root = r.root)
    (fun a e h => ?_) ⟨r, rfl, rfl⟩ es
  obtain ⟨r', hr', hroot⟩ := h
  have hprune : ∀ (a : Archive) (now : UInt64) (removes : Name → Bool),
      (a.prune now removes).recorder = a.recorder := by
    intro a now removes
    unfold Archive.prune
    split <;> rfl
  cases e with
  | begin now tg server player unit rate io =>
    simp only [Archive.step, Archive.begin, hr']
    split
    · exact ⟨r', hr', hroot⟩
    · exact ⟨_, rfl, hroot⟩
  | push tg pcm io => exact ⟨r', hr', hroot⟩
  | finish tg io => exact ⟨r', hr', hroot⟩
  | prune now removes => exact ⟨r', (hprune a now removes).trans hr', hroot⟩
  | restart now days removes =>
    refine ⟨{ r' with days := days, seq := 0 }, (hprune _ now removes).trans ?_, hroot⟩
    rw [hr']
    rfl

end RfxVoiced.Files

namespace RfxVoiced.Control

open Files

variable (tooShort : ℕ → UInt32 → Bool) (r : Recorder) (es : List Files.Event)
  (seconds : ℕ → UInt32 → Value) (core : Core) (minted : Option String)

/-- **What a console is listed.** After whatever was recorded, as long as time went on, the answer
lists calls that are kept and began at the time or later, the newest first, and all of these unless
there are more than may be listed. -/
theorem recIndex_lists {fs : FileSystem} (read : Path → Option (List UInt8))
    (htimely : Along (Library.step tooShort) Library.Timely (Library.new (some r)) es)
    (hserves : Serves fs r.root (Archive.after tooShort r es).disk) (body : Value) :
    ∃ infos, dispatchConsole (answerRecall seconds (Archive.after tooShort r es).recorder fs read)
        core "rec.index" body minted =
          (ok [("calls", .array (infos.map (infoValue seconds)))], core) ∧
      Lists (Library.after tooShort r es) (sinceOf body) (limitOf body) infos := by
  obtain ⟨r', hr', hroot⟩ := recorder_after tooShort r es
  have hstands := (refines_run (some r) htimely).2.stands (refines_run (some r) htimely).1
  rw [← hroot] at hserves
  refine ⟨r'.index fs (sinceOf body) (limitOf body), ?_, hstands.lists_index hserves _ _⟩
  have hindex : recIndex seconds (Archive.after tooShort r es).recorder fs body =
      ok [("calls", .array ((r'.index fs (sinceOf body) (limitOf body)).map
        (infoValue seconds)))] := by
    simp only [recIndex, hr']
  exact congrArg (fun reply => (reply, core)) hindex

/-- **What is played back is what was heard.** After whatever was recorded, as long as time went on,
a call that is kept is played back when its id is asked for: the text of the answer is base64, and
its bytes are the samples that were pushed. -/
theorem recAudio_as_heard (fs : FileSystem) {read : Path → Option (List UInt8)}
    (htimely : Along (Library.step tooShort) Library.Timely (Library.new (some r)) es)
    (hread : ReadsAudio read r.root (Archive.after tooShort r es).disk) {c : Call}
    (hc : c ∈ (Library.after tooShort r es).kept) {body : Value}
    (hid : body.get "id" = some (.string (String.ofList c.id))) :
    ∃ text bytes,
      dispatchConsole (answerRecall seconds (Archive.after tooShort r es).recorder fs read) core
        "rec.audio" body minted =
          (ok [("rate", .int Dsp.rate.toNat), ("pcm", .string text)], core) ∧
      Base64.decode text.toList = some bytes ∧ leSamples bytes = c.audio := by
  obtain ⟨r', hr', hroot⟩ := recorder_after tooShort r es
  have hstands := (refines_run (some r) htimely).2.stands (refines_run (some r) htimely).1
  rw [← hroot] at hread
  refine ⟨String.ofList (b64 (c.audio.flatMap leBytes)), c.audio.flatMap leBytes, ?_, ?_,
    leSamples_leBytes c.audio⟩
  · have hfound : (Archive.after tooShort r es).recorder.bind
        (fun r => r.audio read (String.ofList c.id).toList) =
          some (c.audio.flatMap leBytes) := by
      rw [hr', Option.bind_some, String.toList_ofList]
      exact hstands.audio_eq hread hc
    have haudio : recAudio (Archive.after tooShort r es).recorder read body =
        ok [("rate", .int Dsp.rate.toNat),
          ("pcm", .string (String.ofList (b64 (c.audio.flatMap leBytes))))] := by
      simp only [recAudio, hid, Option.bind_some, Value.asStr, Option.getD_some, hfound]
    exact congrArg (fun reply => (reply, core)) haudio
  · rw [String.toList_ofList]
    exact decode_b64 _

/-- A call on the eleventh day, and one that is too short. -/
def oneKept : List Files.Event :=
  [.begin 864000 1 1 7 "A" 8000 true, .push 1 [1, -2] true, .push 1 [300] true, .finish 1 true,
    .begin 864001 1 1 7 "A" 8000 true, .finish 1 true]

def afterOneKept : Archive := Archive.after (fun n _ => n < 2) exampleRecorder oneKept

/-- The recall messages after these calls. -/
def recallOneKept : String → Value → Reply :=
  answerRecall (fun n _ => .int n) afterOneKept.recorder
    (afterOneKept.disk.fileSystem exampleRecorder.root)
    (afterOneKept.disk.readAudio exampleRecorder.root)

/-- Tables with nothing in them. -/
def emptyCore : Core := ⟨Router.empty, Streams.empty, ⟨true, ∅⟩, 1⟩

theorem recIndex_lists_oneKept :
    ∃ infos, dispatchConsole recallOneKept emptyCore "rec.index" (.object []) none =
        (ok [("calls", .array (infos.map (infoValue fun n _ => .int n)))], emptyCore) ∧
      Lists (Library.after (fun n _ => n < 2) exampleRecorder oneKept) 0 200 infos :=
  recIndex_lists (fun n _ => n < 2) exampleRecorder oneKept (fun n _ => .int n) emptyCore none _
    (by decide +kernel) (Serves.of_entries (by decide +kernel) (by decide +kernel)) (.object [])

theorem recAudio_as_heard_oneKept :
    ∃ text bytes, dispatchConsole recallOneKept emptyCore "rec.audio"
        (.object [("id", .string "864000-1-1")]) none =
          (ok [("rate", .int 8000), ("pcm", .string text)], emptyCore) ∧
      Base64.decode text.toList = some bytes ∧ leSamples bytes = [1, -2, 300] :=
  recAudio_as_heard (fun n _ => n < 2) exampleRecorder oneKept (fun n _ => .int n) emptyCore none _
    (by decide +kernel) (ReadsAudio.of_entries (by decide +kernel))
    (c := ⟨1, 1, 7, "A", 8000, 864000, 1, [1, -2, 300]⟩)
    (List.mem_of_getElem? (i := 0) rfl) rfl

end RfxVoiced.Control
