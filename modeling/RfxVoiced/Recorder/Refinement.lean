import RfxVoiced.Recorder.Library

/-!
# The disk stands for the library

The files of the recorder say the same as the library of calls: a sidecar lies where it belongs
beside the audio of its call, and there is no other sidecar. Files that are still being written, or
that were given up, have no sidecar yet or never will.

## Main definitions

* `Disk.content` — what a file of a directory holds
* `Refines` — the disk has the files of the calls that are kept, and no other sidecar

## Main results

* `refines_step` — whatever happens to the files happens to the library
* `disk_is_library` — throughout a run, sidecars and audio are those of the calls that are kept
-/

namespace RfxVoiced.Files

/-! ### What a file holds -/

namespace Disk

/-- What a file of a directory holds, if it is there. -/
def content (disk : Disk) (dir file : Name) : Option Content :=
  (disk.lookup dir).bind fun files => files.lookup file

variable (disk : Disk) (dir file d f : Name)

theorem mem_of_content {content : Content} (h : disk.content dir file = some content) :
    dir ∈ disk := by
  obtain ⟨files, hfiles, -⟩ := Option.bind_eq_some_iff.mp h
  exact AList.lookup_isSome.mp (by rw [hfiles]; rfl)

theorem content_of_not_mem (h : dir ∉ disk) : disk.content dir file = none := by
  rw [content, AList.lookup_eq_none.mpr h, Option.bind_none]

theorem content_modify (g : Table Name Content → Table Name Content) :
    Disk.content (Table.modify disk dir g) d f =
      if d = dir then (disk.lookup d).bind fun files => (g files).lookup f
      else disk.content d f := by
  rw [content, Table.lookup_modify]
  split_ifs with h
  · subst h
    cases disk.lookup d <;> rfl
  · rfl

theorem content_makeDir : (disk.makeDir dir).content d f = disk.content d f := by
  unfold makeDir
  split
  · rfl
  next hmem =>
    rw [content, Table.lookup_insert]
    split_ifs with h
    · subst h
      rw [content_of_not_mem disk d f hmem]
      rfl
    · rfl

theorem content_write (hmem : dir ∈ disk) (content : Content) :
    (disk.write dir file content).content d f =
      if d = dir ∧ f = file then some content else disk.content d f := by
  rw [write, content_modify]
  by_cases hd : d = dir
  · subst hd
    obtain ⟨files, hfiles⟩ := Option.isSome_iff_exists.mp (AList.lookup_isSome.mpr hmem)
    simp [Disk.content, hfiles, Table.lookup_insert]
  · simp [hd]

theorem content_write_of_not_mem (hmem : dir ∉ disk) (content : Content) :
    (disk.write dir file content).content d f = disk.content d f := by
  rw [write, content_modify]
  split_ifs with hd
  · subst hd
    rw [Disk.content, AList.lookup_eq_none.mpr hmem, Option.bind_none, Option.bind_none]
  · rfl

theorem content_append (pcm : List Int16) :
    (disk.append dir file pcm).content d f =
      if d = dir ∧ f = file then (disk.content d f).map (Content.appendPcm pcm)
      else disk.content d f := by
  rw [append, content_modify]
  by_cases hd : d = dir
  · subst hd
    cases hfiles : disk.lookup d with
    | none => simp [content, hfiles]
    | some files =>
      simp only [content, hfiles, Option.bind_some, Table.lookup_modify, true_and, if_pos]
  · simp [hd]

theorem content_remove :
    (disk.remove dir file).content d f =
      if d = dir ∧ f = file then none else disk.content d f := by
  rw [remove, content_modify]
  by_cases hd : d = dir
  · subst hd
    cases hfiles : disk.lookup d with
    | none => simp [content, hfiles]
    | some files =>
      simp only [content, hfiles, Option.bind_some, Table.lookup_erase, true_and, if_pos]
  · simp [hd]

theorem content_prune (days now : UInt64) (removes : Name → Bool) :
    (disk.prune days now removes).content d f =
      if expired days now d && removes d then none else disk.content d f := by
  rw [content, prune, Table.lookup_retain, content]
  cases hfiles : disk.lookup d with
  | none => simp
  | some files => by_cases h : expired days now d && removes d <;> simp [Option.filter, h]

theorem mem_prune (days now : UInt64) (removes : Name → Bool) :
    d ∈ disk.prune days now removes ↔ d ∈ disk ∧ (expired days now d && removes d) = false := by
  rw [← AList.lookup_isSome, ← AList.lookup_isSome, prune, Table.lookup_retain]
  cases disk.lookup d with
  | none => simp
  | some files => by_cases h : expired days now d && removes d <;> simp [Option.filter, h]

theorem mem_makeDir : d ∈ disk.makeDir dir ↔ d = dir ∨ d ∈ disk := by
  unfold makeDir
  split
  next hmem =>
    constructor
    · exact Or.inr
    · rintro (rfl | h)
      · exact hmem
      · exact h
  next hmem => exact AList.mem_insert disk

theorem mem_modify (g : Table Name Content → Table Name Content) :
    d ∈ Table.modify disk dir g ↔ d ∈ disk := by
  rw [← AList.lookup_isSome, ← AList.lookup_isSome, Table.lookup_modify]
  split_ifs
  · rw [Option.isSome_map]
  · rfl

end Disk

/-! ### The files of a call -/

theorem audioName_inj {id id' : List Char} (h : audioName id = audioName id') : id = id' :=
  List.append_cancel_right h

theorem sidecarName_inj {id id' : List Char} (h : sidecarName id = sidecarName id') : id = id' :=
  List.append_cancel_right h

theorem audioName_ne_sidecarName (id id' : List Char) : audioName id ≠ sidecarName id' := by
  intro h
  have hlast := congrArg List.getLast? h
  rw [audioName, sidecarName, List.getLast?_append_of_ne_nil _ (by decide),
    List.getLast?_append_of_ne_nil _ (by decide)] at hlast
  exact absurd hlast (by decide)

/-- The day is in the name of its directory. -/
theorem dayName_inj {time time' : UInt64} (h : dayName time = dayName time') :
    time.toNat / 86400 = time'.toNat / 86400 := by
  have hdigits := (List.cons.inj h).2
  rw [← Nat.ofDigitChars_ten_toDigits (n := time.toNat / 86400), hdigits,
    Nat.ofDigitChars_ten_toDigits]

/-- A directory is past the retention window when the calls that began on its day are. -/
theorem expired_dir (days now : UInt64) (c : Call) :
    expired days now c.dir = decide (c.Past days now) := by
  have hday : c.started.toNat / 86400 < 2 ^ 64 :=
    (Nat.div_le_self _ _).trans_lt c.started.toNat_lt
  simp only [expired, Call.dir, dayName, Decimal.parse_toDigits hday]
  rfl

/-- The directory of a call is deleted when the call is pruned. -/
theorem expired_and_removes (days now : UInt64) (removes : Name → Bool) (c : Call) :
    (expired days now c.dir && removes c.dir) = decide (c.Pruned days now removes) := by
  rw [expired_dir, Bool.eq_iff_iff, Bool.and_eq_true, decide_eq_true_iff, decide_eq_true_iff]
  rfl

namespace Disk

variable {disk disk' : Disk} {id : List Char} {c : Call}

/-- The files of the call are there. -/
def Holds (disk : Disk) (c : Call) : Prop :=
  disk.content c.dir (sidecarName c.id) = some (.sidecar c.info) ∧
    disk.content c.dir (audioName c.id) = some (.pcm c.audio)

/-- All files are left alone but those of one id. -/
def Spares (disk disk' : Disk) (id : List Char) : Prop :=
  ∀ dir file, file ≠ audioName id → file ≠ sidecarName id →
    disk'.content dir file = disk.content dir file

theorem Spares.audio (h : Spares disk disk' id) (hne : c.id ≠ id) :
    disk'.content c.dir (audioName c.id) = disk.content c.dir (audioName c.id) :=
  h _ _ (fun heq => hne (audioName_inj heq)) (audioName_ne_sidecarName c.id id)

theorem Spares.holds (h : Spares disk disk' id) (hne : c.id ≠ id) (hc : disk.Holds c) :
    disk'.Holds c := by
  refine ⟨(h _ _ ?_ ?_).trans hc.1, (h.audio hne).trans hc.2⟩
  · exact (audioName_ne_sidecarName id c.id).symm
  · exact fun heq => hne (sidecarName_inj heq)

end Disk

/-- A call that is being taken down, and what is being written of it. -/
inductive Tracks (clock : UInt64) (disk : Disk) (cur : Current) (call : Recording) : Prop
  | whole (hwhole : cur.whole = true) (hfile : call.file = true) (hinfo : call.info = cur.call.info)
    (hdir : call.dir = cur.call.dir)
    (haudio : disk.content cur.call.dir (audioName cur.call.id) = some (.pcm cur.call.audio))
  /-- The file could not be created, or not be written. -/
  | failed (hwhole : cur.whole = false) (hfile : call.file = false)
  /-- The directory was deleted while the call was being taken down. -/
  | lost (hwhole : cur.whole = false) (hdir : call.dir = cur.call.dir) (hgone : cur.call.dir ∉ disk)
    (hpast : cur.call.started.toNat / 86400 < clock.toNat / 86400)

/-- What happens to other files does not matter, and no directory of an earlier day comes back. -/
theorem Tracks.frame {clock clock' : UInt64} {disk disk' : Disk} {cur : Current}
    {call : Recording} (h : Tracks clock disk cur call) (hclock : clock.toNat ≤ clock'.toNat)
    (haudio : disk'.content cur.call.dir (audioName cur.call.id) =
      disk.content cur.call.dir (audioName cur.call.id))
    (hgone : cur.call.dir ∉ disk → cur.call.started.toNat / 86400 < clock.toNat / 86400 →
      cur.call.dir ∉ disk') : Tracks clock' disk' cur call := by
  cases h with
  | whole hwhole hfile hinfo hdir hold =>
    exact .whole hwhole hfile hinfo hdir (haudio.trans hold)
  | failed hwhole hfile => exact .failed hwhole hfile
  | lost hwhole hdir hnone hpast =>
    exact .lost hwhole hdir (hgone hnone hpast)
      (hpast.trans_le (Nat.div_le_div_right hclock))

/-- The disk has the files of the calls that are kept, and no other sidecar. -/
structure Refines (l : Library) (a : Archive) : Prop where
  days : l.days = a.recorder.map Recorder.days
  seq : ∀ r, a.recorder = some r → l.seq = r.seq
  keys : ∀ tg, tg ∈ l.current ↔ tg ∈ a.calls
  current : ∀ tg cur call, l.current.lookup tg = some cur → a.calls.lookup tg = some call →
    Tracks l.clock a.disk cur call
  kept : ∀ c ∈ l.kept, a.disk.Holds c
  only : ∀ dir file info, a.disk.content dir file = some (.sidecar info) →
    ∃ c ∈ l.kept, info = c.info ∧ dir = c.dir ∧ file = sidecarName c.id

variable {tooShort : ℕ → UInt32 → Bool} {l : Library} {a : Archive}

theorem Refines.later (h : Refines l a) {now : UInt64} (hnow : l.clock ≤ now) :
    Refines { l with clock := now } a where
  days := h.days
  seq := h.seq
  keys := h.keys
  current tg cur call hcur hcall :=
    (h.current tg cur call hcur hcall).frame (UInt64.le_iff_toNat_le.mp hnow) rfl fun hgone _ =>
      hgone
  kept := h.kept
  only := h.only

theorem refines_new (recorder : Option Recorder) :
    Refines (Library.new recorder) (Archive.new recorder) where
  days := rfl
  seq r hr := by rw [Library.new, show recorder = some r from hr]; rfl
  keys tg := Iff.rfl
  current tg cur call hcur := absurd hcur (by simp [Library.new])
  kept c hc := absurd hc List.not_mem_nil
  only dir file info hcontent := absurd hcontent (by simp [Disk.content, Archive.new])

/-- The disk with the file of a call that begins, where it can be created. -/
def created (disk : Disk) (now : UInt64) (id : List Char) (io : Bool) : Disk :=
  if io then (disk.makeDir (dayName now)).write (dayName now) (audioName id) (.pcm []) else disk

theorem content_created (disk : Disk) (now : UInt64) (id : List Char) (io : Bool) (d f : Name) :
    (created disk now id io).content d f =
      if io = true ∧ d = dayName now ∧ f = audioName id then some (.pcm [])
      else disk.content d f := by
  unfold created
  cases io with
  | false => simp
  | true =>
    rw [if_pos rfl, Disk.content_write _ _ _ _ _ ((disk.mem_makeDir _ _).mpr (Or.inl rfl)),
      Disk.content_makeDir]
    simp

theorem mem_created {disk : Disk} {now : UInt64} {id : List Char} {io : Bool} {d : Name}
    (h : d ∈ created disk now id io) : d = dayName now ∨ d ∈ disk := by
  unfold created at h
  split at h
  · exact (disk.mem_makeDir _ _).mp ((Disk.mem_modify _ _ _ _).mp h)
  · exact Or.inr h

theorem spares_created (disk : Disk) (now : UInt64) (id : List Char) (io : Bool) :
    disk.Spares (created disk now id io) id := by
  intro d f haudio _
  rw [content_created, if_neg fun h => haudio h.2.2]

/-- The call that begins, whether its file could be created or not. -/
theorem tracks_begun (disk : Disk) (r : Recorder) (clock now : UInt64) (tg : RouteId)
    (server player : UInt32) (unit : String) (rate : UInt32) (io : Bool) :
    Tracks clock (created disk now (callId now tg (r.seq + 1)) io)
      ⟨⟨tg, server, player, unit, rate, now, r.seq + 1, []⟩, io⟩
      (r.begin now tg server player unit rate io).1 := by
  cases io with
  | false => exact .failed rfl rfl
  | true =>
    refine .whole rfl rfl rfl rfl ?_
    rw [content_created]
    exact if_pos ⟨rfl, rfl, rfl⟩

/-- A call that was being taken down already. The day that begins is not one that is over. -/
theorem Tracks.created {clock now : UInt64} {disk : Disk} {cur : Current} {call : Recording}
    (h : Tracks clock disk cur call) (hnow : clock ≤ now) {id : List Char} (hne : cur.call.id ≠ id)
    (io : Bool) : Tracks now (created disk now id io) cur call := by
  have hle := UInt64.le_iff_toNat_le.mp hnow
  refine h.frame hle ((spares_created disk now id io).audio hne) fun hgone hpast hback => ?_
  rcases mem_created hback with hday | hback
  · have hsameday := dayName_inj hday
    have hclock := Nat.div_le_div_right (c := 86400) hle
    omega
  · exact hgone hback

theorem refines_begin (h : Refines l a) (hl : l.Sound) {now : UInt64} (hnow : l.clock ≤ now)
    (hseq : l.seq.toNat + 1 < 2 ^ 64) (tg : RouteId) (server player : UInt32) (unit : String)
    (rate : UInt32) (io : Bool) :
    Refines (l.begin now tg server player unit rate io)
      (a.begin now tg server player unit rate io) := by
  cases hrecorder : a.recorder with
  | none =>
    -- Recording is switched off.
    have hoff : l.days = none := by rw [h.days, hrecorder]; rfl
    have ha : a.begin now tg server player unit rate io = a := by
      rw [Archive.begin, hrecorder]
    rw [ha, Library.begin, if_pos (Or.inl (by rw [hoff]; rfl))]
    exact h.later hnow
  | some r =>
    have hon : l.days = some r.days := by rw [h.days, hrecorder]; rfl
    by_cases htg : tg ∈ a.calls
    · -- The call that is open there goes on.
      have ha : a.begin now tg server player unit rate io = a := by
        rw [Archive.begin, hrecorder]
        exact if_pos htg
      rw [ha, Library.begin, if_pos (Or.inr ((h.keys tg).mpr htg))]
      exact h.later hnow
    · have hfree : ¬ (l.days.isNone = true ∨ tg ∈ l.current) := by
        rw [hon, h.keys tg]
        simpa using htg
      have ha : a.begin now tg server player unit rate io =
          ⟨some (r.begin now tg server player unit rate io).2,
            a.calls.insert tg (r.begin now tg server player unit rate io).1,
            created a.disk now (callId now tg (l.seq + 1)) io⟩ := by
        simp only [Archive.begin, hrecorder, if_neg htg, h.seq r hrecorder]
        rfl
      have hspares := spares_created a.disk now (callId now tg (l.seq + 1)) io
      rw [ha, Library.begin, if_neg hfree]
      constructor
      · exact hon
      · intro r' hr'
        obtain rfl := Option.some.inj hr'
        exact congrArg (· + 1) (h.seq r hrecorder)
      · intro tg'
        rw [AList.mem_insert, AList.mem_insert, h.keys tg']
      · intro tg' cur call hcur hcall
        rw [Table.lookup_insert] at hcur hcall
        split_ifs at hcur hcall with hsame
        · obtain rfl := Option.some.inj hcur
          obtain rfl := Option.some.inj hcall
          rw [h.seq r hrecorder]
          exact tracks_begun a.disk r now now tg server player unit rate io
        · have hne := hl.fresh hnow hseq (Or.inr ⟨tg', cur, hcur, rfl⟩) tg
          exact (h.current tg' cur call hcur hcall).created hnow hne io
      · exact fun c hc => hspares.holds (hl.fresh hnow hseq (Or.inl hc) tg) (h.kept c hc)
      · intro d f info hcontent
        rw [content_created] at hcontent
        split at hcontent
        · cases hcontent
        · exact h.only d f info hcontent

/-! ### A call goes on -/

theorem content_append_of_not_mem {disk : Disk} {dir : Name} (h : dir ∉ disk) (file : Name)
    (pcm : List Int16) (d f : Name) :
    (disk.append dir file pcm).content d f = disk.content d f := by
  rw [Disk.content_append]
  split_ifs with heq
  · rw [heq.1, Disk.content_of_not_mem disk dir f h]
    rfl
  · rfl

/-- The disk after samples are added to a call. -/
def appended (disk : Disk) (call : Recording) (pcm : List Int16) (io : Bool) : Disk :=
  if call.file && io then disk.append call.dir (audioName call.info.id) pcm else disk

theorem mem_appended (disk : Disk) (call : Recording) (pcm : List Int16) (io : Bool) (d : Name) :
    d ∈ appended disk call pcm io ↔ d ∈ disk := by
  unfold appended
  split
  · exact Disk.mem_modify _ _ _ _
  · exact Iff.rfl

/-- Samples are not added to sidecars. -/
theorem sidecar_appended {disk : Disk} {call : Recording} {pcm : List Int16} {io : Bool}
    {d f : Name} {info : CallMeta}
    (h : (appended disk call pcm io).content d f = some (.sidecar info)) :
    disk.content d f = some (.sidecar info) := by
  unfold appended at h
  split at h
  · rw [Disk.content_append] at h
    split at h
    · obtain ⟨content, hcontent, heq⟩ := Option.map_eq_some_iff.mp h
      cases content with
      | pcm samples => cases heq
      | sidecar info' => exact hcontent.trans (congrArg some heq)
    · exact h
  · exact h

theorem tracks_push {clock : UInt64} {disk : Disk} {cur : Current} {call : Recording}
    (h : Tracks clock disk cur call) (pcm : List Int16) (io : Bool) :
    Tracks clock (appended disk call pcm io) (cur.push pcm io) (call.push pcm io) ∧
      disk.Spares (appended disk call pcm io) cur.call.id := by
  cases h with
  | whole hwhole hfile hinfo hdir haudio =>
    have hdisk : appended disk call pcm io =
        if io then disk.append cur.call.dir (audioName cur.call.id) pcm else disk := by
      rw [appended, hfile, hdir, hinfo]
      rfl
    rw [hdisk]
    cases io with
    | false =>
      -- A write that is refused ends the taking down on both sides.
      refine ⟨.failed ?_ ?_, fun d f _ _ => rfl⟩
      · simp [Current.push]
      · simp [Recording.push, hfile]
    | true =>
      have hcur : cur.push pcm true =
          { cur with call := { cur.call with audio := cur.call.audio ++ pcm } } := by
        rw [Current.push, hwhole]
        rfl
      have hcall : call.push pcm true =
          { call with info := { call.info with samples := call.info.samples + pcm.length } } := by
        rw [Recording.push, hfile]
        rfl
      rw [if_pos rfl, hcur, hcall]
      -- Any other appends the same samples to both.
      refine ⟨.whole hwhole hfile ?_ hdir ?_, fun d f hname _ => ?_⟩
      · rw [hinfo]
        simp only [Call.info, List.length_append]
        rfl
      · change (disk.append cur.call.dir (audioName cur.call.id) pcm).content cur.call.dir
          (audioName cur.call.id) = _
        rw [Disk.content_append, if_pos ⟨rfl, rfl⟩, haudio]
        rfl
      · rw [Disk.content_append, if_neg fun heq => hname heq.2]
  | failed hwhole hfile =>
    have hdisk : appended disk call pcm io = disk := by rw [appended, hfile]; rfl
    rw [hdisk]
    refine ⟨.failed ?_ ?_, fun d f _ _ => rfl⟩
    · simp [Current.push, hwhole]
    · simp [Recording.push, hfile]
  | lost hwhole hdir hgone hpast =>
    -- Where the directory is gone there is nothing to append to.
    have hcur : cur.push pcm io = cur := by
      rw [Current.push, hwhole, Bool.false_and, if_neg Bool.false_ne_true, ← hwhole]
    rw [hcur]
    refine ⟨.lost hwhole ((Archive.push_keeps call pcm io).1.trans hdir) ?_ hpast,
      fun d f _ _ => ?_⟩
    · rwa [mem_appended]
    · unfold appended
      split
      · exact content_append_of_not_mem (by rwa [hdir]) _ _ _ _
      · rfl

theorem refines_push (h : Refines l a) (hl : l.Sound) (tg : RouteId) (pcm : List Int16)
    (io : Bool) : Refines (l.push tg pcm io) (a.push tg pcm io) := by
  have hkeys : ∀ tg', tg' ∈ (l.push tg pcm io).current ↔ tg' ∈ (a.push tg pcm io).calls := by
    intro tg'
    have hmem := h.keys tg'
    rw [← AList.lookup_isSome, ← AList.lookup_isSome] at hmem ⊢
    rw [Library.push, Archive.push, Table.lookup_modify, Table.lookup_modify]
    split_ifs
    · rwa [Option.isSome_map, Option.isSome_map]
    · exact hmem
  cases hcall : a.calls.lookup tg with
  | none =>
    -- No call is open there, and the samples are passed over.
    have hcur : l.current.lookup tg = none :=
      AList.lookup_eq_none.mpr fun hmem => AList.lookup_eq_none.mp hcall ((h.keys tg).mp hmem)
    have hdisk : (a.push tg pcm io).disk = a.disk := by rw [Archive.push, hcall]
    refine ⟨h.days, h.seq, hkeys, fun tg' cur call hcur' hcall' => ?_, ?_, ?_⟩
    · rw [hdisk]
      rw [Library.push, Table.lookup_modify] at hcur'
      rw [Archive.push, Table.lookup_modify] at hcall'
      split_ifs at hcur' hcall' with hsame
      · rw [hsame, hcur] at hcur'
        cases hcur'
      · exact h.current tg' cur call hcur' hcall'
    · rw [hdisk]
      exact h.kept
    · rw [hdisk]
      exact h.only
  | some call =>
    obtain ⟨cur, hcur⟩ : ∃ cur, l.current.lookup tg = some cur :=
      Option.isSome_iff_exists.mp (AList.lookup_isSome.mpr
        ((h.keys tg).mpr (AList.lookup_isSome.mp (by rw [hcall]; rfl))))
    obtain ⟨htracks, hspares⟩ := tracks_push (h.current tg cur call hcur hcall) pcm io
    have hdisk : (a.push tg pcm io).disk = appended a.disk call pcm io := by
      rw [Archive.push, hcall]
      rfl
    refine ⟨h.days, h.seq, hkeys, fun tg' cur' call' hcur' hcall' => ?_, fun c hc => ?_,
      fun d f info hcontent => ?_⟩
    · rw [hdisk]
      rw [Library.push, Table.lookup_modify] at hcur'
      rw [Archive.push, Table.lookup_modify] at hcall'
      split_ifs at hcur' hcall' with hsame
      · rw [hsame, hcur] at hcur'
        rw [hsame, hcall] at hcall'
        obtain rfl := Option.some.inj hcur'
        obtain rfl := Option.some.inj hcall'
        exact htracks
      · -- Another call has files of its own.
        refine (h.current tg' cur' call' hcur' hcall').frame le_rfl
          (hspares.audio (hl.id_ne hcur hcur' hsame)) fun hgone _ => ?_
        rwa [mem_appended]
    · rw [hdisk]
      exact hspares.holds (hl.apart tg cur hcur c hc) (h.kept c hc)
    · rw [hdisk] at hcontent
      exact h.only d f info (sidecar_appended hcontent)

/-! ### A call ends -/

theorem mem_finishFiles (disk : Disk) (call : Recording) (io : Bool) (d : Name) :
    d ∈ Archive.finishFiles tooShort disk call io ↔ d ∈ disk := by
  unfold Archive.finishFiles
  split
  · exact Iff.rfl
  · split
    · exact Disk.mem_modify _ _ _ _
    · exact Disk.mem_modify _ _ _ _

/-- What is left of a call that ends. -/
structure Leaves (disk disk' : Disk) (cur : Current) (kept : List Call) : Prop where
  spares : disk.Spares disk' cur.call.id
  holds : ∀ c ∈ kept, disk'.Holds c
  only : ∀ dir file info, disk'.content dir file = some (.sidecar info) →
    disk.content dir file = some (.sidecar info) ∨
      ∃ c ∈ kept, info = c.info ∧ dir = c.dir ∧ file = sidecarName c.id

theorem Leaves.of_content_eq {disk disk' : Disk} (cur : Current)
    (h : ∀ dir file, disk'.content dir file = disk.content dir file) :
    Leaves disk disk' cur [] where
  spares dir file _ _ := h dir file
  holds _ hc := absurd hc List.not_mem_nil
  only dir file _ hcontent := Or.inl ((h dir file).symm.trans hcontent)

/-- The audio of a call that is too short is removed. -/
theorem leaves_remove (disk : Disk) (cur : Current) :
    Leaves disk (disk.remove cur.call.dir (audioName cur.call.id)) cur [] where
  spares dir file hname _ := by
    rw [Disk.content_remove, if_neg fun heq => hname heq.2]
  holds _ hc := absurd hc List.not_mem_nil
  only dir file _ hcontent := by
    rw [Disk.content_remove] at hcontent
    exact Or.inl (Option.ite_none_left_eq_some.mp hcontent).2

/-- A sidecar is written beside the audio of a call. -/
theorem leaves_write {disk : Disk} {cur : Current}
    (haudio : disk.content cur.call.dir (audioName cur.call.id) = some (.pcm cur.call.audio)) :
    Leaves disk (disk.write cur.call.dir (sidecarName cur.call.id) (.sidecar cur.call.info)) cur
      [cur.call] := by
  have hwrite := disk.content_write cur.call.dir (sidecarName cur.call.id)
  have hmem := disk.mem_of_content _ _ haudio
  constructor
  · intro dir file _ hname
    rw [hwrite _ _ hmem, if_neg fun heq => hname heq.2]
  · intro c hc
    obtain rfl := List.mem_singleton.mp hc
    constructor
    · rw [hwrite _ _ hmem, if_pos ⟨rfl, rfl⟩]
    · rw [hwrite _ _ hmem, if_neg fun heq => audioName_ne_sidecarName _ _ heq.2]
      exact haudio
  · intro dir file info hcontent
    rw [hwrite _ _ hmem] at hcontent
    split_ifs at hcontent with hfile
    · cases hcontent
      exact Or.inr ⟨cur.call, List.mem_singleton_self _, rfl, hfile.1, hfile.2⟩
    · exact Or.inl hcontent

/-- In a directory that is gone nothing is changed. -/
theorem content_finishFiles_of_gone {disk : Disk} {call : Recording} (hgone : call.dir ∉ disk)
    (io : Bool) (dir file : Name) :
    (Archive.finishFiles tooShort disk call io).content dir file = disk.content dir file := by
  unfold Archive.finishFiles
  split
  · rfl
  · split
    · rw [Disk.content_remove]
      split_ifs with heq
      · rw [heq.1, Disk.content_of_not_mem disk _ _ hgone]
      · rfl
    · exact Disk.content_write_of_not_mem disk _ _ _ _ hgone _

theorem leaves_finish {clock : UInt64} {disk : Disk} {cur : Current} {call : Recording}
    (h : Tracks clock disk cur call) (io : Bool) :
    Leaves disk (Archive.finishFiles tooShort disk call io) cur
      (Library.ended tooShort cur io) := by
  cases h with
  | whole hwhole hfile hinfo hdir haudio =>
    cases io with
    | false =>
      have hdisk : Archive.finishFiles tooShort disk call false = disk := by
        rw [Archive.finishFiles, Bool.not_false, Bool.or_true, if_pos rfl]
      have hended : Library.ended tooShort cur false = [] := by
        rw [Library.ended, Bool.and_false, Bool.false_and, if_neg Bool.false_ne_true]
      rw [hdisk, hended]
      exact Leaves.of_content_eq cur fun _ _ => rfl
    | true =>
      have hdisk : Archive.finishFiles tooShort disk call true =
          if tooShort cur.call.audio.length cur.call.rate then
            disk.remove cur.call.dir (audioName cur.call.id)
          else disk.write cur.call.dir (sidecarName cur.call.id) (.sidecar cur.call.info) := by
        rw [Archive.finishFiles, hfile, hinfo, hdir]
        rfl
      have hended : Library.ended tooShort cur true =
          if tooShort cur.call.audio.length cur.call.rate then [] else [cur.call] := by
        rw [Library.ended, hwhole]
        cases tooShort cur.call.audio.length cur.call.rate <;> rfl
      rw [hdisk, hended]
      split
      · exact leaves_remove disk cur
      · exact leaves_write haudio
  | failed hwhole hfile =>
    have hdisk : Archive.finishFiles tooShort disk call io = disk := by
      rw [Archive.finishFiles, hfile]
      rfl
    rw [hdisk, Library.ended, hwhole]
    exact Leaves.of_content_eq cur fun _ _ => rfl
  | lost hwhole hdir hgone hpast =>
    rw [Library.ended, hwhole]
    apply Leaves.of_content_eq
    exact content_finishFiles_of_gone (hdir ▸ hgone) io

theorem refines_finish (h : Refines l a) (hl : l.Sound) (tg : RouteId) (io : Bool) :
    Refines (l.finish tooShort tg io) (a.finish tooShort tg io) := by
  have hkeys : ∀ tg', tg' ∈ (l.finish tooShort tg io).current ↔
      tg' ∈ (a.finish tooShort tg io).calls := by
    intro tg'
    rw [Library.finish, Archive.finish, AList.mem_erase, AList.mem_erase, h.keys tg']
  have herased : ∀ tg' cur call, (l.finish tooShort tg io).current.lookup tg' = some cur →
      (a.finish tooShort tg io).calls.lookup tg' = some call →
      tg' ≠ tg ∧ l.current.lookup tg' = some cur ∧ a.calls.lookup tg' = some call := by
    intro tg' cur call hcur hcall
    rw [Library.finish, Table.lookup_erase] at hcur
    rw [Archive.finish, Table.lookup_erase] at hcall
    exact ⟨(Option.ite_none_left_eq_some.mp hcur).1, (Option.ite_none_left_eq_some.mp hcur).2,
      (Option.ite_none_left_eq_some.mp hcall).2⟩
  cases hcall : a.calls.lookup tg with
  | none =>
    -- No call is open there, and nothing ends.
    have hcur : l.current.lookup tg = none :=
      AList.lookup_eq_none.mpr fun hmem => AList.lookup_eq_none.mp hcall ((h.keys tg).mp hmem)
    have hdisk : (a.finish tooShort tg io).disk = a.disk := by rw [Archive.finish, hcall]
    have hkept : (l.finish tooShort tg io).kept = l.kept := by
      rw [Library.finish, hcur]
      exact List.append_nil _
    refine ⟨h.days, h.seq, hkeys, fun tg' cur call hcur' hcall' => ?_, ?_, ?_⟩
    · obtain ⟨-, hcur', hcall'⟩ := herased tg' cur call hcur' hcall'
      rw [hdisk]
      exact h.current tg' cur call hcur' hcall'
    · rw [hdisk, hkept]
      exact h.kept
    · rw [hdisk, hkept]
      exact h.only
  | some call =>
    obtain ⟨cur, hcur⟩ : ∃ cur, l.current.lookup tg = some cur :=
      Option.isSome_iff_exists.mp (AList.lookup_isSome.mpr
        ((h.keys tg).mpr (AList.lookup_isSome.mp (by rw [hcall]; rfl))))
    -- The call that ends leaves its sidecar, or nothing.
    have hleaves : Leaves a.disk (Archive.finishFiles tooShort a.disk call io) cur
        (Library.ended tooShort cur io) := leaves_finish (h.current tg cur call hcur hcall) io
    have hdisk : (a.finish tooShort tg io).disk = Archive.finishFiles tooShort a.disk call io := by
      rw [Archive.finish, hcall]
    have hkept : (l.finish tooShort tg io).kept = l.kept ++ Library.ended tooShort cur io := by
      rw [Library.finish, hcur]
      exact congrArg (l.kept ++ ·) (List.append_nil _)
    refine ⟨h.days, h.seq, hkeys, fun tg' cur' call' hcur' hcall' => ?_, fun c hc => ?_,
      fun d f info hcontent => ?_⟩
    · obtain ⟨hne, hcur', hcall'⟩ := herased tg' cur' call' hcur' hcall'
      rw [hdisk]
      refine (h.current tg' cur' call' hcur' hcall').frame le_rfl
        (hleaves.spares.audio (hl.id_ne hcur hcur' hne)) fun hgone _ => ?_
      rwa [mem_finishFiles]
    · rw [hdisk]
      rw [hkept] at hc
      rcases List.mem_append.mp hc with hc | hc
      · exact hleaves.spares.holds (hl.apart tg cur hcur c hc) (h.kept c hc)
      · exact hleaves.holds c hc
    · rw [hdisk] at hcontent
      rw [hkept]
      rcases hleaves.only d f info hcontent with hold | ⟨c, hc, hfile⟩
      · obtain ⟨c, hc, hfile⟩ := h.only d f info hold
        exact ⟨c, List.mem_append_left _ hc, hfile⟩
      · exact ⟨c, List.mem_append_right _ hc, hfile⟩

/-! ### Old calls go -/

section Prune

variable {disk : Disk} {days now : UInt64} {removes : Name → Bool}

/-- The files of a call that is not pruned are left alone. -/
theorem content_prune_of_not_pruned {c : Call} (hc : ¬ c.Pruned days now removes) (file : Name) :
    (disk.prune days now removes).content c.dir file = disk.content c.dir file := by
  rw [Disk.content_prune, expired_and_removes, decide_eq_false hc]
  rfl

/-- A call that is being taken down may lose its directory, and is lost with it. -/
theorem tracks_prune {clock : UInt64} {cur : Current} {call : Recording}
    (h : Tracks clock disk cur call) (hnow : clock ≤ now) :
    Tracks now (disk.prune days now removes)
      { cur with whole := cur.whole && !decide (cur.call.Pruned days now removes) } call := by
  by_cases hpruned : cur.call.Pruned days now removes
  · -- The directory goes, whether or not something is being written to it.
    have hgone : cur.call.dir ∉ disk.prune days now removes := by
      rw [Disk.mem_prune, expired_and_removes, decide_eq_true hpruned]
      exact fun hmem => Bool.noConfusion hmem.2
    have hday : cur.call.started.toNat / 86400 < now.toNat / 86400 :=
      hpruned.1.trans_le (Nat.sub_le _ _)
    cases h with
    | whole hwhole hfile hinfo hdir haudio => exact .lost (by simp [hpruned]) hdir hgone hday
    | failed hwhole hfile => exact .failed (by simp [hwhole]) hfile
    | lost hwhole hdir hnone hearlier => exact .lost (by simp [hpruned]) hdir hgone hday
  · have hsame : ({ cur with
        whole := cur.whole && !decide (cur.call.Pruned days now removes) } : Current) = cur := by
      rw [decide_eq_false hpruned, Bool.not_false, Bool.and_true]
    rw [hsame]
    exact h.frame (UInt64.le_iff_toNat_le.mp hnow) (content_prune_of_not_pruned hpruned _)
      fun hnone _ hdir => hnone ((disk.mem_prune _ _ _ _).mp hdir).1

/-- The files of the calls that are kept are left alone. -/
theorem holds_prune {c : Call} (h : disk.Holds c) (hc : ¬ c.Pruned days now removes) :
    (disk.prune days now removes).Holds c :=
  ⟨(content_prune_of_not_pruned hc _).trans h.1, (content_prune_of_not_pruned hc _).trans h.2⟩

theorem refines_prune (h : Refines l a) (hnow : l.clock ≤ now) :
    Refines (l.prune now removes) (a.prune now removes) := by
  cases hrecorder : a.recorder with
  | none =>
    have hoff : l.days = none := by rw [h.days, hrecorder]; rfl
    have ha : a.prune now removes = a := by rw [Archive.prune, hrecorder]
    rw [ha, l.prune_off hoff]
    exact h.later hnow
  | some r =>
    have hon : l.days = some r.days := by rw [h.days, hrecorder]; rfl
    have ha : a.prune now removes = { a with disk := a.disk.prune r.days now removes } := by
      rw [Archive.prune, hrecorder]
    rw [ha, l.prune_on hon]
    refine ⟨h.days, h.seq, fun tg => ?_, fun tg cur call hcur hcall => ?_, fun c hc => ?_,
      fun d f info hinfo => ?_⟩
    · rw [← h.keys tg, ← AList.lookup_isSome, Table.lookup_mapVal, Option.isSome_map,
        AList.lookup_isSome]
    · rw [Table.lookup_mapVal] at hcur
      obtain ⟨old, hold, rfl⟩ := Option.map_eq_some_iff.mp hcur
      exact tracks_prune (h.current tg old call hold hcall) hnow
    · obtain ⟨hc, hkeep⟩ := List.mem_filter.mp hc
      exact holds_prune (h.kept c hc) (of_decide_eq_true hkeep)
    · rw [Disk.content_prune] at hinfo
      obtain ⟨hkeep, hinfo⟩ := Option.ite_none_left_eq_some.mp hinfo
      obtain ⟨c, hc, hfile, rfl, hname⟩ := h.only d f info hinfo
      rw [expired_and_removes, decide_eq_true_iff] at hkeep
      exact ⟨c, List.mem_filter.mpr ⟨hc, decide_eq_true hkeep⟩, hfile, rfl, hname⟩

end Prune

/-- **Whatever happens to the files happens to the library.** -/
theorem refines_step (h : Refines l a) (hl : l.Sound) {e : Event} (he : l.Timely e) :
    Refines (l.step tooShort e) (a.step tooShort e) := by
  cases e with
  | begin now tg server player unit rate io =>
    exact refines_begin h hl he.1 he.2 tg server player unit rate io
  | push tg pcm io => exact refines_push h hl tg pcm io
  | finish tg io => exact refines_finish h hl tg io
  | prune now removes => exact refines_prune h he
  | restart now days removes =>
    have hstart : Refines
        { l with
          days := l.days.map fun _ => days, seq := 0, clock := now, booted := now, current := ∅ }
        ⟨a.recorder.map fun r => { r with days := days, seq := 0 }, ∅, a.disk⟩ := by
      refine ⟨?_, fun r hr => ?_, fun tg => Iff.rfl, fun tg cur call hcur => ?_, h.kept, h.only⟩
      · rw [h.days, Option.map_map, Option.map_map]
        rfl
      · obtain ⟨r', -, rfl⟩ := Option.map_eq_some_iff.mp hr
        rfl
      · exact absurd hcur (by simp)
    exact refines_prune hstart (UInt64.le_refl now)

/-- The library and its files, after the same events. -/
theorem refines_run (recorder : Option Recorder) {es : List Event}
    (hes : Along (Library.step tooShort) Library.Timely (Library.new recorder) es) :
    (run (Library.step tooShort) (Library.new recorder) es).Sound ∧
      Refines (run (Library.step tooShort) (Library.new recorder) es)
        (run (Archive.step tooShort) (Archive.new recorder) es) := by
  induction es using List.reverseRecOn with
  | nil => exact ⟨Library.sound_new recorder, refines_new recorder⟩
  | append_singleton es e ih =>
    obtain ⟨hinit, hlast⟩ := along_concat.mp hes
    obtain ⟨hsound, hrefines⟩ := ih hinit
    rw [run_concat, run_concat]
    exact ⟨Library.sound_step hsound hlast, refines_step hrefines hsound hlast⟩

/-- What the disk has of a library. -/
structure Stands (l : Library) (disk : Disk) : Prop where
  /-- A sidecar is that of a call that is kept, where it belongs, and every one of these has its. -/
  sidecars : ∀ dir file info, disk.content dir file = some (.sidecar info) ↔
    ∃ c ∈ l.kept, info = c.info ∧ dir = c.dir ∧ file = sidecarName c.id
  /-- Beside it lies what was heard, sample by sample. -/
  audio : ∀ c ∈ l.kept, disk.content c.dir (audioName c.id) = some (.pcm c.audio)
  distinct : l.kept.Pairwise fun c d => c.id ≠ d.id

theorem Refines.stands (h : Refines l a) (hl : l.Sound) : Stands l a.disk where
  sidecars dir file info := by
    constructor
    · exact h.only dir file info
    · rintro ⟨c, hc, rfl, rfl, rfl⟩
      exact (h.kept c hc).1
  audio c hc := (h.kept c hc).2
  distinct := hl.distinct

/-- **The disk stands for the library.** Whatever is recorded, however often the file system refuses
and the process is started anew: as long as time goes on, the sidecars on the disk are those of the
calls that are kept, and beside each lies what was heard of its call. -/
theorem disk_is_library (tooShort : ℕ → UInt32 → Bool) (recorder : Option Recorder)
    (es : List Event)
    (hes : Along (Library.step tooShort) Library.Timely (Library.new recorder) es) :
    Stands (run (Library.step tooShort) (Library.new recorder) es)
      (run (Archive.step tooShort) (Archive.new recorder) es).disk := by
  obtain ⟨hsound, hrefines⟩ := refines_run recorder hes
  exact hrefines.stands hsound

/-- A call that is too old, one that is too old but whose day cannot be removed, one that is kept,
one that is too short, and one that cannot be written. -/
def fiveCalls : List Event :=
  [.begin 86400 1 1 7 "OLD" 8000 true, .push 1 [1, 2, 3] true, .finish 1 true,
    .begin 432000 1 1 7 "STUCK" 8000 true, .push 1 [3, 2, 1] true, .finish 1 true,
    .begin 864000 1 1 7 "KEPT" 8000 true, .push 1 [4, 5, 6] true,
    .begin 864001 2 1 8 "SHORT" 8000 true, .push 1 [7] true, .push 2 [8] true, .finish 2 true,
    .finish 1 true, .begin 864002 2 1 8 "FAILED" 8000 true, .push 2 [9, 10, 11] false,
    .finish 2 true, .restart 864003 3 fun dir => dir ≠ "d5".toList]

theorem disk_is_library_fiveCalls :
    (run (Library.step fun n _ => n < 3) (Library.new (some ⟨[], 30, 0⟩)) fiveCalls).kept.map
        (fun c => (c.unit, c.audio)) = [("STUCK", [3, 2, 1]), ("KEPT", [4, 5, 6, 7])] ∧
      Stands (run (Library.step fun n _ => n < 3) (Library.new (some ⟨[], 30, 0⟩)) fiveCalls)
        (run (Archive.step fun n _ => n < 3) (Archive.new (some ⟨[], 30, 0⟩)) fiveCalls).disk :=
  ⟨by decide +kernel, disk_is_library _ _ _ (by decide +kernel)⟩

end RfxVoiced.Files
