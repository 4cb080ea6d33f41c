import RfxVoiced.Recorder.Files

/-!
# Finding the audio of a call by its id

The audio of a call is asked for by the id of the call, and the caller may send anything. The path
is built from the id, never taken from it: what is not a letter, a digit, a dash or an underscore is
refused, and the day directory follows from the number that the id starts with.

## Main definitions

* `audioPath` — the path that is opened for an id
* `Confined` — a component of a path that does not lead out of its directory

## Main results

* `join_eq_append` — where a relative component goes
* `audioPath_callId` — the id of a call leads to the file that was created for it
* `audioPath_leads_back` — ids lead back to their files, and nothing leads anywhere else
-/

namespace RfxVoiced.Files

/-- The characters of an id. -/
def isIdChar (c : Char) : Bool := c.isAlphanum || c == '-' || c == '_'

/-- The path that is opened for an id. -/
def audioPath (root : Path) (id : List Char) : Option Path :=
  if !id.all isIdChar then none
  else
    (Decimal.parse (2 ^ 64) (id.takeWhile (· ≠ '-'))).map fun day =>
      join (join root (dayName (UInt64.ofNat day))) (audioName id)

/-- The audio of a call, from what the file system reads at a path. -/
def Recorder.audio (r : Recorder) (read : Path → Option (List UInt8)) (id : List Char) :
    Option (List UInt8) := (audioPath r.root id).bind read

/-- The file that a call writes its audio to. -/
def audioFile (root : Path) (call : Recording) : Path :=
  join (join root call.dir) (audioName call.info.id)

/-- A component of a path that does not lead out of its directory. -/
def Confined (component : Name) : Prop :=
  (∀ c ∈ component, c ≠ '/' ∧ c ≠ '\\') ∧ ¬ ['.', '.'] <:+: component

/-- A path that a component can be put behind. -/
def withSeparator (path : Path) : Path :=
  if path = [] ∨ path.getLast? = some '/' then path else path ++ ['/']

variable {root path : Path} {id component : List Char} {c : Char}

/-! ### Paths -/

/-- A relative component goes behind the path. -/
theorem join_eq_append (h : component.head? ≠ some '/') :
    join path component = withSeparator path ++ component := by
  unfold join withSeparator
  rw [if_neg h]
  split
  · rfl
  · rw [List.append_assoc]
    rfl

theorem withSeparator_of_last (hne : path ≠ []) (h : path.getLast? ≠ some '/') :
    withSeparator path = path ++ ['/'] := by
  rw [withSeparator, if_neg (not_or.mpr ⟨hne, h⟩)]

/-- A component without separators and without two dots in a row stays in its directory. -/
theorem confined_of_forall (h : ∀ c ∈ component, c ≠ '/' ∧ c ≠ '\\')
    (hdots : component.count '.' < 2) : Confined component := by
  refine ⟨h, fun hinfix => ?_⟩
  have hle := hinfix.sublist.count_le '.'
  have htwo : ['.', '.'].count '.' = 2 := by decide
  omega

theorem isIdChar_of_isDigit (h : c.isDigit) : isIdChar c := by
  simp [isIdChar, Char.isAlphanum, h]

/-- None of the characters of an id has a meaning in a path. -/
theorem ne_of_isIdChar (h : isIdChar c) : c ≠ '/' ∧ c ≠ '\\' ∧ c ≠ '.' := by
  refine ⟨?_, ?_, ?_⟩ <;>
  · rintro rfl
    revert h
    decide

theorem confined_dayName (time : UInt64) : Confined (dayName time) := by
  have hchars : ∀ c ∈ dayName time, isIdChar c := by
    intro c hc
    rcases List.mem_cons.mp hc with rfl | hdigit
    · decide
    · exact isIdChar_of_isDigit (Decimal.isDigit_of_mem_toDigits hdigit)
  apply confined_of_forall
  · intro c hc
    exact ⟨(ne_of_isIdChar (hchars c hc)).1, (ne_of_isIdChar (hchars c hc)).2.1⟩
  · have hzero : (dayName time).count '.' = 0 :=
      List.count_eq_zero.mpr fun hdot => (ne_of_isIdChar (hchars '.' hdot)).2.2 rfl
    omega

theorem confined_audioName (h : ∀ c ∈ id, isIdChar c) : Confined (audioName id) := by
  apply confined_of_forall
  · intro c hc
    rcases List.mem_append.mp hc with hid | hext
    · exact ⟨(ne_of_isIdChar (h c hid)).1, (ne_of_isIdChar (h c hid)).2.1⟩
    · have hall : ∀ c ∈ ['.', 'p', 'c', 'm'], c ≠ '/' ∧ c ≠ '\\' := by simp
      exact hall c hext
  · have hzero : id.count '.' = 0 :=
      List.count_eq_zero.mpr fun hdot => (ne_of_isIdChar (h '.' hdot)).2.2 rfl
    rw [audioName, List.count_append, hzero]
    decide

/-- Where the file of an id lies, when the id is made of the characters of ids. -/
theorem join_audioName (h : ∀ c ∈ id, isIdChar c) (time : UInt64) :
    join (join root (dayName time)) (audioName id) =
      withSeparator root ++ dayName time ++ '/' :: audioName id := by
  have hday : join root (dayName time) = withSeparator root ++ dayName time :=
    join_eq_append (by simp [dayName])
  have hhead : (audioName id).head? ≠ some '/' := by
    intro hslash
    have hmem : '/' ∈ audioName id := List.mem_of_mem_head? hslash
    exact ((confined_audioName h).1 '/' hmem).1 rfl
  have hlast : (withSeparator root ++ dayName time).getLast? ≠ some '/' := by
    rw [List.getLast?_append_of_ne_nil _ (by simp [dayName])]
    intro hslash
    exact ((confined_dayName time).1 '/' (List.mem_of_getLast? hslash)).1 rfl
  rw [hday, join_eq_append hhead, withSeparator_of_last (by simp [dayName]) hlast,
    List.append_assoc _ ['/']]
  rfl

/-! ### Ids -/

theorem isIdChar_of_mem_callId {now : UInt64} {tg : RouteId} {seq : UInt64}
    (h : c ∈ callId now tg seq) : isIdChar c := by
  simp only [callId, List.mem_append, List.mem_cons] at h
  rcases h with h | rfl | h | rfl | h
  · exact isIdChar_of_isDigit (Decimal.isDigit_of_mem_toDigits h)
  · decide
  · exact isIdChar_of_isDigit (Decimal.isDigit_of_mem_toDigits h)
  · decide
  · exact isIdChar_of_isDigit (Decimal.isDigit_of_mem_toDigits h)

/-- The number that an id starts with is the time at which its call began. -/
theorem takeWhile_callId (now : UInt64) (tg : RouteId) (seq : UInt64) :
    (callId now tg seq).takeWhile (· ≠ '-') = Nat.toDigits 10 now.toNat := by
  rw [callId, List.takeWhile_append_of_pos, List.takeWhile_cons_of_neg (by simp), List.append_nil]
  intro c hc
  exact decide_eq_true (ne_of_mem_of_not_mem hc (Decimal.not_mem_toDigits rfl))

/-- The id of a call leads to its file. -/
theorem audioPath_callId (root : Path) (now : UInt64) (tg : RouteId) (seq : UInt64) :
    audioPath root (callId now tg seq) =
      some (join (join root (dayName now)) (audioName (callId now tg seq))) := by
  have hall : (callId now tg seq).all isIdChar = true :=
    List.all_eq_true.mpr fun c hc => isIdChar_of_mem_callId hc
  rw [audioPath, if_neg (by simp [hall]), takeWhile_callId,
    Decimal.parse_toDigits now.toNat_lt, Option.map_some, UInt64.ofNat_toNat]

/-- What is opened for an id lies in a day directory under the root, under the name of the id. -/
theorem audioPath_eq_some (h : audioPath root id = some path) :
    (∀ c ∈ id, isIdChar c) ∧
      ∃ time, path = withSeparator root ++ dayName time ++ '/' :: audioName id := by
  unfold audioPath at h
  split at h
  · contradiction
  · next hall =>
    have hid : ∀ c ∈ id, isIdChar c = true := by simpa using hall
    obtain ⟨day, -, rfl⟩ := Option.map_eq_some_iff.mp h
    exact ⟨hid, UInt64.ofNat day, join_audioName hid _⟩

/-- **Ids lead back to their files, and nowhere else.** The id that a call is given leads to the
file that the call writes its audio to. Whatever is asked for, either nothing is opened, or what is
opened is named after the id and lies in a directory that is named after a number, right under the
root; and neither of the two names has a separator or two dots in a row. -/
theorem audioPath_leads_back :
    (∀ (r : Recorder) (now : UInt64) (tg : RouteId) (server player : UInt32) (unit : String)
        (rate : UInt32) (io : Bool),
      audioPath r.root (r.begin now tg server player unit rate io).1.info.id =
        some (audioFile r.root (r.begin now tg server player unit rate io).1)) ∧
    ∀ (root : Path) (id : List Char), audioPath root id = none ∨
      ∃ n : ℕ, audioPath root id =
          some (withSeparator root ++ ('d' :: Nat.toDigits 10 n) ++ '/' :: audioName id) ∧
        Confined ('d' :: Nat.toDigits 10 n) ∧ Confined (audioName id) := by
  refine ⟨fun r now tg server player unit rate io => audioPath_callId r.root now tg (r.seq + 1),
    fun root id => ?_⟩
  cases hpath : audioPath root id with
  | none => exact Or.inl rfl
  | some path =>
    obtain ⟨hid, time, rfl⟩ := audioPath_eq_some hpath
    exact Or.inr ⟨time.toNat / 86400, rfl, confined_dayName time, confined_audioName hid⟩

end RfxVoiced.Files
