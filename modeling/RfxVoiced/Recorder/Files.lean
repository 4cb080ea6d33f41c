import RfxVoiced.Lib.Decimal
import RfxVoiced.Lib.Run
import RfxVoiced.Recorder

/-!
# The files of a recording

A call is written as raw samples while it lasts, and described by a sidecar once it is finished.
Both lie in the directory of the day on which the call started, under the root of the recorder. A
file system may refuse whatever it is asked; a call then goes on without being written.

## Main definitions

* `Recorder`, `Recording` — the recorder, and one call being written
* `Disk` — the directories under the root, and what is in them
* `Archive` — the recorder with the calls that it is writing and its disk
* `Event`, `step` — what happens to it

## Main results

* `dated_run` — throughout every run, a sidecar lies in the directory of the day on which its call
  started
* `view_step` — where the file system does what it is asked, the calls being written go as in the
  model without files
-/

namespace RfxVoiced.Files

/-! ### Names and paths -/

/-- A path of the file system, from its root. -/
abbrev Path := List Char

/-- A component of a path: the name of a directory or of a file. -/
abbrev Name := List Char

/-- A path with a component behind it. An absolute component takes the place of the path. -/
def join (path : Path) (component : Name) : Path :=
  if component.head? = some '/' then component
  else if path = [] ∨ path.getLast? = some '/' then path ++ component
  else path ++ '/' :: component

/-- What is kept of a call beside its audio. How long it lasted in seconds follows from the
samples. -/
structure CallMeta where
  id : List Char
  tg : RouteId
  server : UInt32
  player : UInt32
  /-- Whatever the server called the unit, or empty. -/
  unit : String
  started : UInt64
  samples : ℕ
  rate : UInt32
  deriving DecidableEq, Repr

/-- One call being written, into a day directory. -/
structure Recording where
  info : CallMeta
  /-- Whether the file of the audio is open. -/
  file : Bool
  dir : Name
  deriving DecidableEq, Repr

/-- The recorder: where it writes, for how many days it keeps, and how many calls it has begun. -/
structure Recorder where
  root : Path
  days : UInt64
  seq : UInt64
  deriving DecidableEq, Repr

/-- The directory of a day, by its number since the epoch: `Recorder::day_dir`, under the root. -/
def dayName (time : UInt64) : Name := 'd' :: Nat.toDigits 10 (time.toNat / 86400)

def callId (now : UInt64) (tg : RouteId) (seq : UInt64) : List Char :=
  Nat.toDigits 10 now.toNat ++ '-' :: (Nat.toDigits 10 tg.toNat ++ '-' :: Nat.toDigits 10 seq.toNat)

def audioName (id : List Char) : Name := id ++ ".pcm".toList

def sidecarName (id : List Char) : Name := id ++ ".json".toList

/-! ### The disk -/

/-- The content of a file: samples, or a sidecar, by what reading it back gives. -/
inductive Content where
  | pcm (samples : List Int16)
  | sidecar (info : CallMeta)
  deriving DecidableEq, Repr

def Content.appendPcm (pcm : List Int16) : Content → Content
  | Content.pcm samples => .pcm (samples ++ pcm)
  | Content.sidecar info => .sidecar info

/-- The directories under the root, and the files in each. -/
abbrev Disk := Table Name (Table Name Content)

namespace Disk

def makeDir (disk : Disk) (dir : Name) : Disk :=
  if dir ∈ disk then disk else disk.insert dir ∅

/-- Write a file anew, where its directory is there. -/
def write (disk : Disk) (dir file : Name) (content : Content) : Disk :=
  disk.modify dir fun files => files.insert file content

def append (disk : Disk) (dir file : Name) (pcm : List Int16) : Disk :=
  disk.modify dir fun files => files.modify file (Content.appendPcm pcm)

def remove (disk : Disk) (dir file : Name) : Disk :=
  disk.modify dir fun files => files.erase file

end Disk

/-! ### Operations -/

/-- Begin a call. Where the file cannot be created, nothing will be written. -/
def Recorder.begin (r : Recorder) (now : UInt64) (tg : RouteId) (server player : UInt32)
    (unit : String) (rate : UInt32) (io : Bool) : Recording × Recorder :=
  let seq := r.seq + 1
  (⟨⟨callId now tg seq, tg, server, player, unit, now, 0, rate⟩, io, dayName now⟩,
    { r with seq := seq })

/-- Add samples to a call. After a failure the call is not written any further. -/
def Recording.push (call : Recording) (pcm : List Int16) (io : Bool) : Recording :=
  if !call.file then call
  -- A full disk must not take audio down with it.
  else if !io then { call with file := false }
  else { call with info := { call.info with samples := call.info.samples + pcm.length } }

/-- Whether a day directory is past the retention window. -/
def expired (days now : UInt64) (dir : Name) : Bool :=
  match dir with
  | 'd' :: number =>
    match Decimal.parse (2 ^ 64) number with
    | some day => decide (day < now.toNat / 86400 - days.toNat)
    | none => false
  | _ => false

/-- What is left of a disk when the directories past the retention window are deleted. One that
cannot be removed stays, and the others go all the same. -/
def Disk.prune (disk : Disk) (days now : UInt64) (removes : Name → Bool) : Disk :=
  disk.retain fun dir _ => !(expired days now dir && removes dir)

/-- The recorder, the calls that it is writing, and the disk. -/
structure Archive where
  /-- Nothing, where recording is switched off. -/
  recorder : Option Recorder
  calls : Table RouteId Recording
  disk : Disk

/-- What happens to a recorder. The last argument is whether the file system does what it is asked,
for each directory apart where directories are to be removed. What it does, it does whole. -/
inductive Event where
  | begin (now : UInt64) (tg : RouteId) (server player : UInt32) (unit : String) (rate : UInt32)
    (io : Bool)
  | push (tg : RouteId) (pcm : List Int16) (io : Bool)
  | finish (tg : RouteId) (io : Bool)
  | prune (now : UInt64) (removes : Name → Bool)
  /-- The process ends, and another takes over its disk. -/
  | restart (now : UInt64) (days : UInt64) (removes : Name → Bool)

namespace Archive

variable (tooShort : ℕ → UInt32 → Bool)

def begin (a : Archive) (now : UInt64) (tg : RouteId) (server player : UInt32) (unit : String)
    (rate : UInt32) (io : Bool) : Archive :=
  match a.recorder with
  | none => a
  | some r =>
    -- A key while a call is open is a reply inside hang time: the same call, continued.
    if tg ∈ a.calls then a
    else
      let (call, r) := r.begin now tg server player unit rate io
      let disk := a.disk.makeDir call.dir
      ⟨some r, a.calls.insert tg call,
        if io then disk.write call.dir (audioName call.info.id) (.pcm []) else a.disk⟩

def push (a : Archive) (tg : RouteId) (pcm : List Int16) (io : Bool) : Archive :=
  { a with
    calls := a.calls.modify tg fun call => call.push pcm io
    disk :=
      match a.calls.lookup tg with
      | none => a.disk
      | some call =>
        if call.file && io then a.disk.append call.dir (audioName call.info.id) pcm else a.disk }

/-- What a finished call leaves on the disk. Whether so many samples at a rate are too short to
contain speech is a comparison of floating point numbers. -/
def finishFiles (disk : Disk) (call : Recording) (io : Bool) : Disk :=
  if !call.file || !io then disk
  -- A fumbled button and not a transmission: its audio goes, and there will be no sidecar.
  else if tooShort call.info.samples call.info.rate then
    disk.remove call.dir (audioName call.info.id)
  else disk.write call.dir (sidecarName call.info.id) (.sidecar call.info)

/-- `Active::end`. -/
def finish (a : Archive) (tg : RouteId) (io : Bool) : Archive :=
  { a with
    calls := a.calls.erase tg
    disk :=
      match a.calls.lookup tg with
      | none => a.disk
      | some call => finishFiles tooShort a.disk call io }

/-- `Recorder::prune`, where recording is switched on. -/
def prune (a : Archive) (now : UInt64) (removes : Name → Bool) : Archive :=
  match a.recorder with
  | none => a
  | some r => { a with disk := a.disk.prune r.days now removes }

def step (a : Archive) : Event → Archive
  | .begin now tg server player unit rate io => a.begin now tg server player unit rate io
  | .push tg pcm io => a.push tg pcm io
  | .finish tg io => a.finish tooShort tg io
  | .prune now removes => a.prune now removes
  | .restart now days removes =>
    prune ⟨a.recorder.map fun r => { r with days := days, seq := 0 }, ∅, a.disk⟩ now removes

end Archive

/-! ### Where sidecars lie -/

/-- A disk on which every sidecar lies where it belongs. -/
def DatedDisk (disk : Disk) : Prop :=
  ∀ dir files file info, disk.lookup dir = some files → files.lookup file = some (.sidecar info) →
    dir = dayName info.started ∧ file = sidecarName info.id ∧ info.id ≠ []

variable {disk : Disk} {dir : Name}

theorem callId_ne_nil (now : UInt64) (tg : RouteId) (seq : UInt64) : callId now tg seq ≠ [] := by
  simp [callId]

namespace DatedDisk

/-- Changing the files of one directory. -/
theorem modify (h : DatedDisk disk) (f : Table Name Content → Table Name Content)
    (hf : ∀ files, disk.lookup dir = some files → ∀ file info,
      (f files).lookup file = some (.sidecar info) → files.lookup file = some (.sidecar info) ∨
        dir = dayName info.started ∧ file = sidecarName info.id ∧ info.id ≠ []) :
    DatedDisk (Table.modify disk dir f) := by
  intro dir' files file info hfiles hinfo
  rw [Table.lookup_modify] at hfiles
  split at hfiles
  · next heq =>
    obtain ⟨files', hfiles', rfl⟩ := Option.map_eq_some_iff.mp hfiles
    rcases hf files' (heq ▸ hfiles') file info hinfo with hold | hnew
    · exact h dir' files' file info hfiles' hold
    · exact heq ▸ hnew
  · exact h dir' files file info hfiles hinfo

theorem makeDir (h : DatedDisk disk) (dir : Name) : DatedDisk (disk.makeDir dir) := by
  unfold Disk.makeDir
  split
  · exact h
  · intro dir' files file info hfiles hinfo
    rw [Table.lookup_insert] at hfiles
    split at hfiles
    · obtain rfl := Option.some.inj hfiles
      exact absurd hinfo (by simp)
    · exact h dir' files file info hfiles hinfo

theorem write_pcm (h : DatedDisk disk) (dir file : Name) (samples : List Int16) :
    DatedDisk (disk.write dir file (.pcm samples)) := by
  refine h.modify _ fun files _ file' info hinfo => Or.inl ?_
  rw [Table.lookup_insert] at hinfo
  split at hinfo
  · exact absurd (Option.some.inj hinfo) (by simp)
  · exact hinfo

theorem write_sidecar (h : DatedDisk disk) (info : CallMeta) (hid : info.id ≠ []) :
    DatedDisk (disk.write (dayName info.started) (sidecarName info.id) (.sidecar info)) := by
  refine h.modify _ fun files _ file' info' hinfo => ?_
  rw [Table.lookup_insert] at hinfo
  split at hinfo
  · next heq =>
    obtain rfl := Content.sidecar.inj (Option.some.inj hinfo)
    exact Or.inr ⟨rfl, heq, hid⟩
  · exact Or.inl hinfo

theorem append (h : DatedDisk disk) (dir file : Name) (pcm : List Int16) :
    DatedDisk (disk.append dir file pcm) := by
  refine h.modify _ fun files _ file' info hinfo => Or.inl ?_
  rw [Table.lookup_modify] at hinfo
  split at hinfo
  · obtain ⟨content, hcontent, heq⟩ := Option.map_eq_some_iff.mp hinfo
    -- Samples stay samples, so that a sidecar is what it was.
    cases content with
    | pcm samples => exact absurd heq (by simp [Content.appendPcm])
    | sidecar info' => exact hcontent.trans (congrArg some heq)
  · exact hinfo

theorem remove (h : DatedDisk disk) (dir file : Name) : DatedDisk (disk.remove dir file) := by
  refine h.modify _ fun files _ file' info hinfo => Or.inl ?_
  rw [Table.lookup_erase] at hinfo
  split at hinfo
  · contradiction
  · exact hinfo

theorem retain (h : DatedDisk disk) (keep : Name → Table Name Content → Bool) :
    DatedDisk (Table.retain disk keep) := by
  intro dir files file info hfiles hinfo
  rw [Table.lookup_retain, Option.filter_eq_some_iff] at hfiles
  exact h dir files file info hfiles.1 hinfo

end DatedDisk

namespace Archive

variable {tooShort : ℕ → UInt32 → Bool} {a : Archive}

/-- Sidecars lie where they belong, and so will those of the calls that are being written. -/
structure Dated (a : Archive) : Prop where
  disk : DatedDisk a.disk
  calls : ∀ tg call, a.calls.lookup tg = some call →
    call.dir = dayName call.info.started ∧ call.info.id ≠ []

theorem dated_begin (h : Dated a) (now : UInt64) (tg : RouteId) (server player : UInt32)
    (unit : String) (rate : UInt32) (io : Bool) :
    Dated (a.begin now tg server player unit rate io) := by
  unfold begin
  split
  · exact h
  · next r hr =>
    split
    · exact h
    · refine ⟨?_, ?_⟩
      · change DatedDisk (if io then _ else a.disk)
        split
        · exact (h.disk.makeDir _).write_pcm _ _ []
        · exact h.disk
      · intro tg' call hcall
        rw [Table.lookup_insert] at hcall
        split at hcall
        · obtain rfl := Option.some.inj hcall
          exact ⟨rfl, callId_ne_nil now tg (r.seq + 1)⟩
        · exact h.calls tg' call hcall

theorem push_keeps (call : Recording) (pcm : List Int16) (io : Bool) :
    (call.push pcm io).dir = call.dir ∧ (call.push pcm io).info.id = call.info.id ∧
      (call.push pcm io).info.started = call.info.started := by
  unfold Recording.push
  split
  · exact ⟨rfl, rfl, rfl⟩
  · split <;> exact ⟨rfl, rfl, rfl⟩

theorem dated_push (h : Dated a) (tg : RouteId) (pcm : List Int16) (io : Bool) :
    Dated (a.push tg pcm io) := by
  refine ⟨?_, fun tg' call' hcall => ?_⟩
  · simp only [push]
    split
    · exact h.disk
    · split
      · exact h.disk.append _ _ pcm
      · exact h.disk
  · simp only [push] at hcall
    rw [Table.lookup_modify] at hcall
    split at hcall
    · obtain ⟨call, hlookup, rfl⟩ := Option.map_eq_some_iff.mp hcall
      obtain ⟨hdir, hid, hstarted⟩ := push_keeps call pcm io
      rw [hdir, hid, hstarted]
      exact h.calls tg' call hlookup
    · exact h.calls tg' call' hcall

theorem dated_finishFiles {disk : Disk} (h : DatedDisk disk) {call : Recording}
    (hdir : call.dir = dayName call.info.started) (hid : call.info.id ≠ []) (io : Bool) :
    DatedDisk (finishFiles tooShort disk call io) := by
  unfold finishFiles
  split
  · exact h
  · split
    · exact h.remove _ _
    · rw [hdir]
      exact h.write_sidecar call.info hid

theorem dated_finish (h : Dated a) (tg : RouteId) (io : Bool) :
    Dated (a.finish tooShort tg io) := by
  refine ⟨?_, fun tg' call' hcall' => ?_⟩
  · simp only [finish]
    split
    · exact h.disk
    · next call hcall =>
      obtain ⟨hdir, hid⟩ := h.calls tg call hcall
      exact dated_finishFiles h.disk hdir hid io
  · simp only [finish] at hcall'
    rw [Table.lookup_erase] at hcall'
    split at hcall'
    · contradiction
    · exact h.calls tg' call' hcall'

theorem dated_prune (h : Dated a) (now : UInt64) (removes : Name → Bool) :
    Dated (a.prune now removes) := by
  unfold prune
  split
  · exact h
  · exact ⟨h.disk.retain _, h.calls⟩

theorem dated_step (h : Dated a) (e : Event) : Dated (a.step tooShort e) := by
  cases e with
  | begin now tg server player unit rate io => exact dated_begin h now tg server player unit rate io
  | push tg pcm io => exact dated_push h tg pcm io
  | finish tg io => exact dated_finish h tg io
  | prune now removes => exact dated_prune h now removes
  | restart now days removes =>
    have hstart : Dated ⟨a.recorder.map fun r => { r with days := days, seq := 0 }, ∅, a.disk⟩ := by
      refine ⟨h.disk, fun tg call hcall => ?_⟩
      exact absurd hcall (by simp)
    exact dated_prune hstart now removes

/-- A recorder that has just been set up, with nothing under its root. -/
def new (recorder : Option Recorder) : Archive := ⟨recorder, ∅, ∅⟩

/-- **Throughout every run, sidecars lie where they belong.** -/
theorem dated_run (recorder : Option Recorder) (es : List Event) :
    Dated (run (step tooShort) (new recorder) es) := by
  refine run_invariant (P := Dated) (fun a e h => dated_step h e) ⟨?_, ?_⟩ es
  · intro dir files file info hfiles
    exact absurd hfiles (by simp [new])
  · intro tg call hcall
    exact absurd hcall (by simp [new])

/-! ### The calls being written, without their files -/

/-- A call being written, as the model without files has it. -/
def viewCall (call : Recording) : RfxVoiced.Recording :=
  ⟨call.info.tg, call.info.server, call.info.player, call.info.unit, call.info.samples,
    call.info.rate⟩

def view (a : Archive) : RfxVoiced.Active :=
  ⟨a.recorder.isSome, a.calls.mapVal fun _ call => viewCall call⟩

/-- What an event is in the model without files. -/
def viewStep (v : RfxVoiced.Active) : Event → RfxVoiced.Active
  | .begin _ tg server player unit rate _ => v.begin tg server player unit rate
  | .push tg pcm _ => v.push tg pcm
  | .finish tg _ => v.finish tg
  | .prune _ _ => v
  | .restart _ _ _ => ⟨v.recording, ∅⟩

/-- Whether the file system does what it is asked for a call. -/
def served : Event → Bool
  | .begin _ _ _ _ _ _ io | .push _ _ io | .finish _ io => io
  | .prune _ _ | .restart _ _ _ => true

/-- Every call that is being written has its file. -/
def Writing (a : Archive) : Prop := ∀ tg call, a.calls.lookup tg = some call → call.file = true

theorem viewCall_push {call : Recording} (h : call.file = true) (pcm : List Int16) :
    viewCall (call.push pcm true) =
      { viewCall call with samples := (viewCall call).samples + pcm.length } := by
  simp [Recording.push, h, viewCall]

theorem view_begin (a : Archive) (now : UInt64) (tg : RouteId) (server player : UInt32)
    (unit : String) (rate : UInt32) (io : Bool) :
    view (a.begin now tg server player unit rate io) =
      (view a).begin tg server player unit rate := by
  unfold begin RfxVoiced.Active.begin
  split
  · next hoff => simp [view, hoff]
  · next r hon =>
    by_cases hopen : tg ∈ a.calls
    · have hsome : ((view a).calls.lookup tg).isSome := by
        rw [view, Table.lookup_mapVal, Option.isSome_map]
        exact AList.lookup_isSome.mpr hopen
      rw [if_pos hopen, if_pos (by simp [hsome])]
    · have hnone : ((view a).calls.lookup tg).isSome = false := by
        rw [view, Table.lookup_mapVal, Option.isSome_map, AList.lookup_eq_none.mpr hopen]
        rfl
      have hrecording : (view a).recording = true := by simp [view, hon]
      rw [if_neg hopen, if_neg (by simp [hnone, hrecording])]
      simp only [view, hon, Table.mapVal_insert]
      rfl

theorem view_push (hwriting : Writing a) (tg : RouteId) (pcm : List Int16) :
    view (a.push tg pcm true) = (view a).push tg pcm := by
  have hcalls : Table.mapVal (Table.modify a.calls tg fun call => call.push pcm true)
      (fun _ call => viewCall call) = (view a).calls.modify tg
        fun call => { call with samples := call.samples + pcm.length } := by
    apply AList.ext
    change (a.calls.entries.map _).map _ = (a.calls.entries.map _).map _
    rw [List.map_map, List.map_map]
    apply List.map_congr_left
    intro e he
    have hfile := hwriting e.1 e.2 (Table.lookup_eq_some_iff.mpr he)
    by_cases htg : e.1 = tg
    · simp [Sigma.map, htg, viewCall_push hfile]
    · simp [Sigma.map, htg]
  simp only [push, view, hcalls]
  rfl

theorem calls_prune (a : Archive) (now : UInt64) (removes : Name → Bool) :
    (a.prune now removes).calls = a.calls ∧ view (a.prune now removes) = view a := by
  unfold prune
  split
  · exact ⟨rfl, rfl⟩
  · exact ⟨rfl, rfl⟩

theorem writing_begin (hwriting : Writing a) (now : UInt64) (tg : RouteId)
    (server player : UInt32) (unit : String) (rate : UInt32) :
    Writing (a.begin now tg server player unit rate true) := by
  unfold begin
  split
  · exact hwriting
  · split
    · exact hwriting
    · intro tg' call hcall
      rw [Table.lookup_insert] at hcall
      split at hcall
      · obtain rfl := Option.some.inj hcall
        rfl
      · exact hwriting tg' call hcall

theorem writing_push (hwriting : Writing a) (tg : RouteId) (pcm : List Int16) :
    Writing (a.push tg pcm true) := by
  intro tg' call' hcall
  simp only [push] at hcall
  rw [Table.lookup_modify] at hcall
  split at hcall
  · obtain ⟨call, hlookup, rfl⟩ := Option.map_eq_some_iff.mp hcall
    have hfile := hwriting tg' call hlookup
    simp [Recording.push, hfile]
  · exact hwriting tg' call' hcall

theorem writing_finish (hwriting : Writing a) (tg : RouteId) (io : Bool) :
    Writing (a.finish tooShort tg io) := by
  intro tg' call' hcall
  simp only [finish] at hcall
  rw [Table.lookup_erase] at hcall
  split at hcall
  · contradiction
  · exact hwriting tg' call' hcall

/-- **Files or not, the same calls are being written**, where the file system does what it is
asked. -/
theorem view_step (tooShort : ℕ → UInt32 → Bool) (hwriting : Writing a) {e : Event}
    (hserved : served e = true) :
    view (a.step tooShort e) = viewStep (view a) e ∧ Writing (a.step tooShort e) := by
  cases e with
  | begin now tg server player unit rate io =>
    obtain rfl : io = true := hserved
    exact ⟨view_begin a now tg server player unit rate true,
      writing_begin hwriting now tg server player unit rate⟩
  | push tg pcm io =>
    obtain rfl : io = true := hserved
    exact ⟨view_push hwriting tg pcm, writing_push hwriting tg pcm⟩
  | finish tg io =>
    refine ⟨?_, writing_finish hwriting tg io⟩
    simp only [step, finish, view, Table.mapVal_erase]
    rfl
  | prune now removes =>
    obtain ⟨hcalls, hview⟩ := calls_prune a now removes
    exact ⟨hview, fun tg call hcall => hwriting tg call (hcalls ▸ hcall)⟩
  | restart now days removes =>
    obtain ⟨hcalls, hview⟩ :=
      calls_prune ⟨a.recorder.map fun r => { r with days := days, seq := 0 }, ∅, a.disk⟩ now removes
    refine ⟨hview.trans ?_, fun tg call hcall => ?_⟩
    · simp only [view, Option.isSome_map, viewStep]
      rfl
    · rw [step, hcalls] at hcall
      exact absurd hcall (by simp)

/-- The calls being written go as in the model without files along a whole run, where the file
system always does what it is asked for them. -/
theorem view_run (recorder : Option Recorder) {es : List Event} (hes : ∀ e ∈ es, served e = true) :
    view (run (step tooShort) (new recorder) es) = run viewStep (view (new recorder)) es := by
  have hboth : view (run (step tooShort) (new recorder) es) =
      run viewStep (view (new recorder)) es ∧
        Writing (run (step tooShort) (new recorder) es) := by
    induction es using List.reverseRecOn with
    | nil =>
      refine ⟨rfl, fun tg call hcall => ?_⟩
      exact absurd hcall (by simp [new])
    | append_singleton es e ih =>
      obtain ⟨hview, hwriting⟩ := ih fun e he => hes e (List.mem_append_left _ he)
      obtain ⟨hstep, hnext⟩ := view_step tooShort hwriting (hes e (by simp))
      rw [run_concat, run_concat, hstep, hview]
      exact ⟨rfl, hnext⟩
  exact hboth.1

end Archive

end RfxVoiced.Files
