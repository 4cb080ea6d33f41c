import RfxVoiced.Recorder.Files

/-!
# A library of calls

What a recorder is for can be said without files: calls are taken down while they last, and a call
that was taken down whole, and is long enough, is kept until it is too old. Calls are told apart by
their ids, as long as the clock does not go back and a process is not started in a second in which
another one was at work.

## Main definitions

* `Call` — a call, with what was heard
* `Library`, `Library.step` — the calls that are kept and those that are being taken down
* `Library.Timely` — what the library relies on: time goes on
* `Library.Sound` — calls can be told apart

## Main results

* `callId_inj` — an id says when its call began, on which route, and its number
* `Library.sound_step` — throughout a run, no two calls have one id
-/

namespace RfxVoiced.Files

/-- A call: who spoke, where and when, and what was heard. -/
structure Call where
  tg : RouteId
  server : UInt32
  player : UInt32
  /-- Whatever the server called the unit, or empty. -/
  unit : String
  rate : UInt32
  started : UInt64
  /-- The number of the call, counted since the process was started. -/
  seq : UInt64
  audio : List Int16

namespace Call

def id (c : Call) : List Char := callId c.started c.tg c.seq

def dir (c : Call) : Name := dayName c.started

/-- What is kept of a call beside its audio. -/
def info (c : Call) : CallMeta :=
  ⟨c.id, c.tg, c.server, c.player, c.unit, c.started, c.audio.length, c.rate⟩

/-- The call began on a day that is past the retention window. -/
def Past (days now : UInt64) (c : Call) : Prop :=
  c.started.toNat / 86400 < now.toNat / 86400 - days.toNat

instance (days now : UInt64) : DecidablePred (Past days now) := fun c =>
  inferInstanceAs (Decidable (c.started.toNat / 86400 < now.toNat / 86400 - days.toNat))

/-- The call is pruned: its day is past the retention window, and the directory of it is removed. -/
def Pruned (days now : UInt64) (removes : Name → Bool) (c : Call) : Prop :=
  c.Past days now ∧ removes c.dir = true

instance (days now : UInt64) (removes : Name → Bool) : DecidablePred (Pruned days now removes) :=
  fun c => inferInstanceAs (Decidable (c.Past days now ∧ removes c.dir = true))

end Call

/-- A call that is being taken down, and whether all of it was. -/
structure Current where
  call : Call
  whole : Bool

def Current.push (c : Current) (pcm : List Int16) (io : Bool) : Current :=
  if c.whole && io then { c with call := { c.call with audio := c.call.audio ++ pcm } }
  else { c with whole := false }

/-- The calls that are kept, those that are being taken down, and what tells them apart. -/
structure Library where
  /-- For how many days calls are kept. Nothing, where recording is switched off. -/
  days : Option UInt64
  seq : UInt64
  /-- The latest time at which anything happened. -/
  clock : UInt64
  /-- When the process was started. -/
  booted : UInt64
  current : Table RouteId Current
  kept : List Call

namespace Library

variable (tooShort : ℕ → UInt32 → Bool)

def new (recorder : Option Recorder) : Library :=
  ⟨recorder.map Recorder.days, (recorder.map Recorder.seq).getD 0, 0, 0, ∅, []⟩

def begin (l : Library) (now : UInt64) (tg : RouteId) (server player : UInt32) (unit : String)
    (rate : UInt32) (io : Bool) : Library :=
  if l.days.isNone ∨ tg ∈ l.current then { l with clock := now }
  else
    { l with
      seq := l.seq + 1
      clock := now
      current := l.current.insert tg ⟨⟨tg, server, player, unit, rate, now, l.seq + 1, []⟩, io⟩ }

def push (l : Library) (tg : RouteId) (pcm : List Int16) (io : Bool) : Library :=
  { l with current := l.current.modify tg fun c => c.push pcm io }

/-- The calls that are kept because this one ends. -/
def ended (c : Current) (io : Bool) : List Call :=
  if c.whole && io && !tooShort c.call.audio.length c.call.rate then [c.call] else []

def finish (l : Library) (tg : RouteId) (io : Bool) : Library :=
  { l with
    current := l.current.erase tg
    kept := l.kept ++ (l.current.lookup tg).toList.flatMap fun c => ended tooShort c io }

/-- Calls that are too old are not kept, and not taken down to their end either, where their day
can be removed. -/
def prune (l : Library) (now : UInt64) (removes : Name → Bool) : Library :=
  match l.days with
  | none => { l with clock := now }
  | some days =>
    { l with
      clock := now
      current := l.current.mapVal fun _ c =>
        { c with whole := c.whole && !decide (c.call.Pruned days now removes) }
      kept := l.kept.filter fun c => ¬ c.Pruned days now removes }

def step (l : Library) : Event → Library
  | .begin now tg server player unit rate io => l.begin now tg server player unit rate io
  | .push tg pcm io => l.push tg pcm io
  | .finish tg io => l.finish tooShort tg io
  | .prune now removes => l.prune now removes
  | .restart now days removes =>
    { l with
      days := l.days.map fun _ => days, seq := 0, clock := now, booted := now,
      current := ∅ }.prune now removes

/-- Time goes on: the clock does not go back, a process is not started in a second in which another
one was at work, and there are numbers left. -/
def Timely (l : Library) : Event → Prop
  | .begin now _ _ _ _ _ _ => l.clock ≤ now ∧ l.seq.toNat + 1 < 2 ^ 64
  | .prune now _ => l.clock ≤ now
  | .restart now _ _ => l.clock < now
  | _ => True

instance (l : Library) : DecidablePred l.Timely
  | .begin now _ _ _ _ _ _ =>
    inferInstanceAs (Decidable (l.clock ≤ now ∧ l.seq.toNat + 1 < 2 ^ 64))
  | .prune now _ => inferInstanceAs (Decidable (l.clock ≤ now))
  | .restart now _ _ => inferInstanceAs (Decidable (l.clock < now))
  | .push _ _ _ | .finish _ _ => inferInstanceAs (Decidable True)

end Library

/-! ### Ids tell calls apart -/

/-- A printed number ends at the first dash. -/
theorem toDigits_append_inj {m n : ℕ} {rest rest' : List Char}
    (h : Nat.toDigits 10 m ++ '-' :: rest = Nat.toDigits 10 n ++ '-' :: rest') :
    m = n ∧ rest = rest' := by
  have htake : ∀ (k : ℕ) (more : List Char),
      (Nat.toDigits 10 k ++ '-' :: more).takeWhile (· ≠ '-') = Nat.toDigits 10 k := by
    intro k more
    rw [List.takeWhile_append_of_pos, List.takeWhile_cons_of_neg (by simp), List.append_nil]
    intro c hc
    exact decide_eq_true (ne_of_mem_of_not_mem hc (Decimal.not_mem_toDigits rfl))
  have hdigits := congrArg (List.takeWhile fun c => decide (c ≠ '-')) h
  rw [htake, htake] at hdigits
  have hnumber : m = n := by
    rw [← Nat.ofDigitChars_ten_toDigits (n := m), hdigits, Nat.ofDigitChars_ten_toDigits]
  subst hnumber
  exact ⟨rfl, (List.cons.inj (List.append_cancel_left h)).2⟩

theorem callId_inj {now now' : UInt64} {tg tg' : RouteId} {seq seq' : UInt64}
    (h : callId now tg seq = callId now' tg' seq') : now = now' ∧ tg = tg' ∧ seq = seq' := by
  obtain ⟨hnow, hrest⟩ := toDigits_append_inj h
  obtain ⟨htg, hseq⟩ := toDigits_append_inj hrest
  refine ⟨UInt64.toNat_inj.mp hnow, UInt32.toNat_inj.mp htg, UInt64.toNat_inj.mp ?_⟩
  rw [← Nat.ofDigitChars_ten_toDigits (n := seq.toNat), hseq, Nat.ofDigitChars_ten_toDigits]

/-! ### The calls of a library -/

namespace Library

variable {tooShort : ℕ → UInt32 → Bool} {l : Library}

/-- The calls that are kept or being taken down. -/
def Has (l : Library) (c : Call) : Prop :=
  c ∈ l.kept ∨ ∃ tg cur, l.current.lookup tg = some cur ∧ cur.call = c

/-- Calls can be told apart by when they began and by their number. -/
structure Sound (l : Library) : Prop where
  booted : l.booted.toNat ≤ l.clock.toNat
  numbered : ∀ c, l.Has c → c.started.toNat ≤ l.clock.toNat ∧
    (c.started.toNat < l.booted.toNat ∨ c.seq.toNat ≤ l.seq.toNat)
  labelled : ∀ tg cur, l.current.lookup tg = some cur → cur.call.tg = tg
  apart : ∀ tg cur, l.current.lookup tg = some cur → ∀ c ∈ l.kept, c.id ≠ cur.call.id
  distinct : l.kept.Pairwise fun c d => c.id ≠ d.id

theorem toNat_succ {n : UInt64} (h : n.toNat + 1 < 2 ^ 64) : (n + 1).toNat = n.toNat + 1 := by
  rw [UInt64.toNat_add, UInt64.toNat_one, Nat.mod_eq_of_lt h]

/-- The next call of a process has an id of its own. -/
theorem Sound.fresh (h : Sound l) {now : UInt64} (hnow : l.clock ≤ now)
    (hseq : l.seq.toNat + 1 < 2 ^ 64) {c : Call} (hc : l.Has c) (tg : RouteId) :
    c.id ≠ callId now tg (l.seq + 1) := by
  intro hid
  obtain ⟨hstarted, -, hnumber⟩ := callId_inj hid
  obtain ⟨-, hbefore⟩ := h.numbered c hc
  have hbooted := h.booted
  have hclock := UInt64.le_iff_toNat_le.mp hnow
  rw [hnumber, hstarted, toNat_succ hseq] at hbefore
  omega

/-- Two calls that are being taken down have ids of their own. -/
theorem Sound.id_ne (h : Sound l) {tg tg' : RouteId} {cur cur' : Current}
    (hcur : l.current.lookup tg = some cur) (hcur' : l.current.lookup tg' = some cur')
    (hne : tg' ≠ tg) : cur'.call.id ≠ cur.call.id := by
  intro hid
  obtain ⟨-, htg, -⟩ := callId_inj hid
  rw [h.labelled tg cur hcur, h.labelled tg' cur' hcur'] at htg
  exact hne htg

theorem Sound.later (h : Sound l) {now : UInt64} (hnow : l.clock ≤ now) :
    Sound { l with clock := now } where
  booted := h.booted.trans (UInt64.le_iff_toNat_le.mp hnow)
  numbered c hc := ⟨(h.numbered c hc).1.trans (UInt64.le_iff_toNat_le.mp hnow), (h.numbered c hc).2⟩
  labelled := h.labelled
  apart := h.apart
  distinct := h.distinct

theorem sound_new (recorder : Option Recorder) : Sound (new recorder) where
  booted := le_rfl
  numbered c hc := by
    rcases hc with hc | ⟨tg, cur, hcur, -⟩
    · exact absurd hc List.not_mem_nil
    · exact absurd hcur (by simp [new])
  labelled tg cur hcur := absurd hcur (by simp [new])
  apart tg cur hcur := absurd hcur (by simp [new])
  distinct := List.Pairwise.nil

theorem sound_begin (h : Sound l) {now : UInt64} (hnow : l.clock ≤ now)
    (hseq : l.seq.toNat + 1 < 2 ^ 64) (tg : RouteId) (server player : UInt32) (unit : String)
    (rate : UInt32) (io : Bool) : Sound (l.begin now tg server player unit rate io) := by
  unfold begin
  split
  · exact h.later hnow
  · have hlater := h.later hnow
    refine ⟨hlater.booted, fun c hc => ?_, fun tg' cur hcur => ?_, fun tg' cur hcur c hc => ?_,
      h.distinct⟩
    · change _ ∧ (_ ∨ c.seq.toNat ≤ (l.seq + 1).toNat)
      rw [toNat_succ hseq]
      have hold : l.Has c → c.started.toNat ≤ now.toNat ∧
          (c.started.toNat < l.booted.toNat ∨ c.seq.toNat ≤ l.seq.toNat + 1) := fun hc =>
        ⟨(hlater.numbered c hc).1, (h.numbered c hc).2.imp_right Nat.le_succ_of_le⟩
      rcases hc with hc | ⟨tg', cur, hcur, rfl⟩
      · exact hold (Or.inl hc)
      · rw [Table.lookup_insert] at hcur
        split_ifs at hcur
        · obtain rfl := Option.some.inj hcur
          exact ⟨le_rfl, Or.inr (toNat_succ hseq).le⟩
        · exact hold (Or.inr ⟨tg', cur, hcur, rfl⟩)
    · rw [Table.lookup_insert] at hcur
      split_ifs at hcur with htg
      · obtain rfl := Option.some.inj hcur
        exact htg.symm
      · exact h.labelled tg' cur hcur
    · rw [Table.lookup_insert] at hcur
      split_ifs at hcur
      · obtain rfl := Option.some.inj hcur
        exact h.fresh hnow hseq (Or.inl hc) tg
      · exact h.apart tg' cur hcur c hc

/-- The calls that are being taken down are what they were, but for what was heard. -/
theorem lookup_push (l : Library) (tg tg' : RouteId) (pcm : List Int16) (io : Bool)
    {cur : Current} (hcur : (l.push tg pcm io).current.lookup tg' = some cur) :
    ∃ old, l.current.lookup tg' = some old ∧ cur.call.id = old.call.id ∧
      cur.call.tg = old.call.tg ∧ cur.call.started = old.call.started ∧
      cur.call.seq = old.call.seq := by
  rw [push, Table.lookup_modify] at hcur
  split_ifs at hcur
  · obtain ⟨old, hold, rfl⟩ := Option.map_eq_some_iff.mp hcur
    refine ⟨old, hold, ?_⟩
    unfold Current.push
    split <;> exact ⟨rfl, rfl, rfl, rfl⟩
  · exact ⟨cur, hcur, rfl, rfl, rfl, rfl⟩

theorem sound_push (h : Sound l) (tg : RouteId) (pcm : List Int16) (io : Bool) :
    Sound (l.push tg pcm io) := by
  refine ⟨h.booted, fun c hc => ?_, fun tg' cur hcur => ?_, fun tg' cur hcur c hc => ?_,
    h.distinct⟩
  · rcases hc with hc | ⟨tg', cur, hcur, rfl⟩
    · exact h.numbered c (Or.inl hc)
    · obtain ⟨old, hold, -, -, hstarted, hseq⟩ := l.lookup_push tg tg' pcm io hcur
      rw [hstarted, hseq]
      exact h.numbered old.call (Or.inr ⟨tg', old, hold, rfl⟩)
  · obtain ⟨old, hold, -, htg, -⟩ := l.lookup_push tg tg' pcm io hcur
    exact htg.trans (h.labelled tg' old hold)
  · obtain ⟨old, hold, hid, -⟩ := l.lookup_push tg tg' pcm io hcur
    rw [hid]
    exact h.apart tg' old hold c hc

/-- Only the call that ends is added to those that are kept. -/
theorem mem_kept_finish {tg : RouteId} {io : Bool} {c : Call}
    (h : c ∈ (l.finish tooShort tg io).kept) :
    c ∈ l.kept ∨ ∃ cur, l.current.lookup tg = some cur ∧ c = cur.call := by
  rcases List.mem_append.mp h with h | h
  · exact Or.inl h
  · obtain ⟨cur, hcur, hended⟩ := List.mem_flatMap.mp h
    unfold ended at hended
    split at hended
    · exact Or.inr ⟨cur, Option.mem_toList.mp hcur, List.mem_singleton.mp hended⟩
    · exact absurd hended List.not_mem_nil

theorem sound_finish (h : Sound l) (tg : RouteId) (io : Bool) :
    Sound (l.finish tooShort tg io) := by
  have hcurrent : ∀ tg' cur, (l.finish tooShort tg io).current.lookup tg' = some cur →
      l.current.lookup tg' = some cur ∧ tg' ≠ tg := by
    intro tg' cur hcur
    rw [finish, Table.lookup_erase] at hcur
    exact ⟨(Option.ite_none_left_eq_some.mp hcur).2, (Option.ite_none_left_eq_some.mp hcur).1⟩
  refine ⟨h.booted, fun c hc => ?_,
    fun tg' cur hcur => h.labelled tg' cur (hcurrent tg' cur hcur).1,
    fun tg' cur hcur c hc => ?_, ?_⟩
  · apply h.numbered
    rcases hc with hc | ⟨tg', cur, hcur, rfl⟩
    · rcases mem_kept_finish hc with hc | ⟨cur, hcur, rfl⟩
      · exact Or.inl hc
      · exact Or.inr ⟨tg, cur, hcur, rfl⟩
    · exact Or.inr ⟨tg', cur, (hcurrent tg' cur hcur).1, rfl⟩
  · obtain ⟨hcur, hne⟩ := hcurrent tg' cur hcur
    rcases mem_kept_finish hc with hc | ⟨cur', hcur', rfl⟩
    · exact h.apart tg' cur hcur c hc
    · exact h.id_ne hcur hcur' hne.symm
  · apply List.pairwise_append.mpr
    refine ⟨h.distinct, ?_, fun c hc d hd => ?_⟩
    · cases l.current.lookup tg with
      | none => exact List.Pairwise.nil
      | some cur =>
        rw [Option.toList_some, List.flatMap_cons, List.flatMap_nil, List.append_nil]
        unfold ended
        split
        · exact List.pairwise_singleton _ _
        · exact List.Pairwise.nil
    · obtain ⟨cur, hcur, hended⟩ := List.mem_flatMap.mp hd
      unfold ended at hended
      split at hended
      · rw [List.mem_singleton.mp hended]
        exact h.apart tg cur (Option.mem_toList.mp hcur) c hc
      · exact absurd hended List.not_mem_nil

theorem prune_off (l : Library) {now : UInt64} {removes : Name → Bool} (h : l.days = none) :
    l.prune now removes = { l with clock := now } := by
  simp only [prune, h]

theorem prune_on (l : Library) {now days : UInt64} {removes : Name → Bool}
    (h : l.days = some days) :
    l.prune now removes =
      { l with
        clock := now
        current := l.current.mapVal fun _ c =>
          { c with whole := c.whole && !decide (c.call.Pruned days now removes) }
        kept := l.kept.filter fun c => ¬ c.Pruned days now removes } := by
  simp only [prune, h]

/-- Pruning adds nothing to what is being taken down. -/
theorem lookup_prune {now : UInt64} {removes : Name → Bool} {tg : RouteId} {cur : Current}
    (h : (l.prune now removes).current.lookup tg = some cur) :
    ∃ old, l.current.lookup tg = some old ∧ cur.call = old.call := by
  cases hdays : l.days with
  | none =>
    rw [l.prune_off hdays] at h
    exact ⟨cur, h, rfl⟩
  | some days =>
    rw [l.prune_on hdays, Table.lookup_mapVal] at h
    obtain ⟨old, hold, rfl⟩ := Option.map_eq_some_iff.mp h
    exact ⟨old, hold, rfl⟩

/-- Pruning adds nothing to what is kept. -/
theorem kept_prune (l : Library) (now : UInt64) (removes : Name → Bool) :
    (l.prune now removes).kept.Sublist l.kept := by
  cases hdays : l.days with
  | none => rw [l.prune_off hdays]
  | some days =>
    rw [l.prune_on hdays]
    exact List.filter_sublist

/-- Pruning leaves the settings and the counter alone. -/
theorem settings_prune (l : Library) (now : UInt64) (removes : Name → Bool) :
    (l.prune now removes).days = l.days ∧ (l.prune now removes).seq = l.seq ∧
      (l.prune now removes).booted = l.booted ∧ (l.prune now removes).clock = now := by
  unfold prune
  split <;> exact ⟨rfl, rfl, rfl, rfl⟩

theorem sound_prune (h : Sound l) {now : UInt64} (hnow : l.clock ≤ now) (removes : Name → Bool) :
    Sound (l.prune now removes) := by
  have hlater := h.later hnow
  obtain ⟨-, hseq, hbooted, hclock⟩ := l.settings_prune now removes
  have hkept := l.kept_prune now removes
  refine ⟨?_, fun c hc => ?_, fun tg cur hcur => ?_, fun tg cur hcur c hc => ?_,
    h.distinct.sublist hkept⟩
  · rw [hbooted, hclock]
    exact hlater.booted
  · rw [hclock, hbooted, hseq]
    apply hlater.numbered
    rcases hc with hc | ⟨tg, cur, hcur, rfl⟩
    · exact Or.inl (hkept.subset hc)
    · obtain ⟨old, hold, hcall⟩ := lookup_prune hcur
      exact Or.inr ⟨tg, old, hold, hcall.symm⟩
  · obtain ⟨old, hold, hcall⟩ := lookup_prune hcur
    rw [hcall]
    exact h.labelled tg old hold
  · obtain ⟨old, hold, hcall⟩ := lookup_prune hcur
    rw [hcall]
    exact h.apart tg old hold c (hkept.subset hc)

theorem sound_step (h : Sound l) {e : Event} (he : l.Timely e) : Sound (l.step tooShort e) := by
  cases e with
  | begin now tg server player unit rate io =>
    exact sound_begin h he.1 he.2 tg server player unit rate io
  | push tg pcm io => exact sound_push h tg pcm io
  | finish tg io => exact sound_finish h tg io
  | prune now removes => exact sound_prune h he removes
  | restart now days removes =>
    have hnow := UInt64.lt_iff_toNat_lt.mp he
    -- What was kept before is older than the process.
    have hstart : Sound { l with
        days := l.days.map fun _ => days, seq := 0, clock := now, booted := now,
        current := ∅ } := by
      refine ⟨le_rfl, fun c hc => ?_, fun tg cur hcur => absurd hcur (by simp),
        fun tg cur hcur => absurd hcur (by simp), h.distinct⟩
      rcases hc with hc | ⟨tg, cur, hcur, -⟩
      · have hbefore := (h.numbered c (Or.inl hc)).1
        exact ⟨(hbefore.trans_lt hnow).le, Or.inl (hbefore.trans_lt hnow)⟩
      · exact absurd hcur (by simp)
    exact sound_prune hstart (UInt64.le_refl now) removes

end Library

end RfxVoiced.Files
