import RfxVoiced.Mumble.Channels

/-!
# What is printed of transmissions

A transmission begins with the first packet of a session that is silent, and is over when a sweep
finds that nothing has come for too long. Both are printed, and the second line says how many
packets there were. So the lines about a session alternate, and every packet of it is counted in one
of them, or belongs to a transmission that is still going on.

## Main definitions

* `Session.story` — the lines about one session
* `Session.Tells` — what the lines about a session tell of its packets

## Main results

* `story_sweep`, `story_count` — what a turn adds to the story
* `transmissions_told` — every packet is counted in one transmission, and transmissions alternate
-/

namespace RfxVoiced

namespace Mumble

open Dsp (Signal)

/-- Whom a line is about. -/
def Line.session : Line → UInt32
  | .txStart session _ _ _ _ => session
  | .txEnd session _ _ _ _ => session

/-- Whether a line is the first one of a transmission. -/
def Line.starts : Line → Bool
  | .txStart _ _ _ _ _ => true
  | .txEnd _ _ _ _ _ => false

/-- The packets that a line reports. -/
def Line.packets : Line → ℕ
  | .txStart _ _ _ _ _ => 0
  | .txEnd _ _ packets _ _ => packets

namespace Session

variable {S : Signal}

/-- The lines about one session. -/
def story (s : Session S) (x : UInt32) : List Line := s.lines.filter fun l => l.session = x

/-- The packets of a session, in its latest transmission, if that is still going on. -/
def current (s : Session S) (x : UInt32) : Option Talk := (s.heard.lookup x).filter Talk.active

/-- What the lines about a session tell of its packets: they alternate, the last one is a beginning
exactly when a transmission is going on, and what they report and what is going on is all that there
was. -/
structure Tells (s : Session S) (x : UInt32) (packets : ℕ) : Prop where
  alternates : (s.story x).map Line.starts =
    (List.range (s.story x).length).map fun i => decide (i % 2 = 0)
  current : (s.current x).isSome = true ↔ (s.story x).length % 2 = 1
  counted : ((s.story x).map Line.packets).sum + ((s.current x).map Talk.packets).getD 0 = packets

/-! ### What a turn adds -/

variable (s : Session S) (x : UInt32)

theorem story_of_lines {s' : Session S} {lines : List Line} (h : s'.lines = s.lines ++ lines) :
    s'.story x = s.story x ++ lines.filter fun l => l.session = x := by
  rw [story, h, List.filter_append, ← story]

/-- Only a transmission that is going on can be over. -/
theorem filter_lapsed (now : Instant) :
    (s.current x).filter (fun t => t.lapsed now) =
      (s.heard.lookup x).filter fun t => t.lapsed now := by
  rw [current, Option.filter_filter]
  congr 1
  funext t
  rw [Talk.lapsed, ← Bool.and_assoc, Bool.and_self]

/-- The gap detector adds a line about those whose silence is too long, and ends their
transmissions. -/
theorem story_sweep (now : Instant) :
    (s.sweep now).story x = s.story x ++ (((s.current x).filter fun t => t.lapsed now).map fun t =>
        Line.txEnd x (s.who x) t.packets (asMillis (now - t.started)) t.routedTo).toList ∧
      (s.sweep now).current x = (s.current x).filter fun t => !t.lapsed now := by
  constructor
  · rw [story_of_lines s x rfl, List.filter_filterMap]
    congr 1
    -- Of what a sweep prints, only what is said of `x` itself counts.
    have hkey : ∀ e : Sigma fun _ : UInt32 => Talk,
        (if e.2.lapsed now then
          some (Line.txEnd e.1 (s.who e.1) e.2.packets (asMillis (now - e.2.started)) e.2.routedTo)
        else none).filter (fun l => decide (l.session = x)) =
          if decide (e.1 = x) then
            (if e.2.lapsed now then
              some (Line.txEnd x (s.who x) e.2.packets (asMillis (now - e.2.started)) e.2.routedTo)
            else none)
          else none := by
      rintro ⟨k, t⟩
      by_cases hk : k = x
      · subst hk
        cases t.lapsed now <;> simp [Line.session]
      · cases t.lapsed now <;> simp [Line.session, hk]
    simp only [hkey]
    rw [← List.filterMap_filter, Table.filter_entries, filter_lapsed]
    cases s.heard.lookup x with
    | none => rfl
    | some t =>
      rw [Option.filter_some]
      cases hlapsed : t.lapsed now <;> simp [hlapsed]
  · change ((s.heard.mapVal _).lookup x).filter Talk.active = _
    rw [Table.lookup_mapVal, current]
    cases s.heard.lookup x with
    | none => rfl
    | some t =>
      rw [Option.map_some, Option.filter_some, Option.filter_some]
      cases hlapsed : t.lapsed now with
      | true =>
        have hactive : t.active = true := (Bool.and_eq_true_iff.mp hlapsed).1
        simp [hactive, hlapsed, Option.filter_some]
      | false => cases hactive : t.active <;> simp [hactive, hlapsed, Option.filter_some]

/-- A packet continues the transmission of its session, or begins one. -/
theorem story_count (v : VoicePacket) (dest : Option (RouteId × Dsp.Sink × List Listener))
    (now : Instant) :
    (s.count v dest now).story v.session = s.story v.session ++
        (if (s.current v.session).isSome then []
          else [.txStart v.session (s.who v.session) (dest.map fun d => (d.1, d.2.2.length)) v.codec
            v.target]) ∧
      ((s.count v dest now).current v.session).map Talk.packets =
        some (((s.current v.session).map Talk.packets).getD 0 + 1) := by
  have hlookup : (s.count v dest now).heard.lookup v.session = some
      (Talk.packet (if ((s.heard.lookup v.session).getD (Talk.first now)).active then
          (s.heard.lookup v.session).getD (Talk.first now)
        else ((s.heard.lookup v.session).getD (Talk.first now)).begun now
          (dest.map fun d => d.1)) v.payloadLen now) := AList.lookup_insert _
  have hlines : (s.count v dest now).lines = s.lines ++
      (if ((s.heard.lookup v.session).getD (Talk.first now)).active then []
      else
        [.txStart v.session (s.who v.session) (dest.map fun d => (d.1, d.2.2.length)) v.codec
          v.target]) := rfl
  rw [story_of_lines s v.session hlines]
  cases hcurrent : s.current v.session with
  | some t =>
    -- The transmission goes on.
    obtain ⟨hheard, hactive⟩ := Option.filter_eq_some_iff.mp hcurrent
    have hgoing : (t.packet v.payloadLen now).active = true := hactive
    rw [hheard, Option.getD_some, if_pos hactive] at hlookup ⊢
    refine ⟨rfl, ?_⟩
    rw [current, hlookup, Option.filter_some_pos hgoing]
    rfl
  | none =>
    have hsilent : ((s.heard.lookup v.session).getD (Talk.first now)).active = false := by
      cases hheard : s.heard.lookup v.session with
      | none => rfl
      | some t =>
        rw [current, hheard] at hcurrent
        simpa using hcurrent
    rw [hsilent, if_neg Bool.false_ne_true] at hlookup ⊢
    refine ⟨congrArg _ ?_, ?_⟩
    · rw [List.filter_cons_of_pos (by simp [Line.session]), List.filter_nil]
      rfl
    · rw [current, hlookup, Option.filter_some_pos rfl]
      rfl

/-- Nothing is told of a session when another one is heard. -/
theorem story_count_ne (v : VoicePacket) (dest : Option (RouteId × Dsp.Sink × List Listener))
    (now : Instant) (hne : v.session ≠ x) :
    (s.count v dest now).story x = s.story x ∧ (s.count v dest now).current x = s.current x := by
  constructor
  · rw [story_of_lines s x rfl, List.filter_eq_nil_iff.mpr, List.append_nil]
    intro line hline
    split at hline
    · cases hline
    · rw [List.mem_singleton.mp hline]
      exact fun hsame => hne (of_decide_eq_true hsame)
  · have hlookup : (s.count v dest now).heard.lookup x = s.heard.lookup x :=
      AList.lookup_insert_ne hne.symm
    rw [current, hlookup, ← current]

/-! ### One turn -/

variable {s x}

namespace Tells

variable {n : ℕ}

theorem of_eq {s' : Session S} (h : s.Tells x n) (hstory : s'.story x = s.story x)
    (hcurrent : s'.current x = s.current x) : s'.Tells x n := by
  constructor
  · rw [hstory]
    exact h.alternates
  · rw [hstory, hcurrent]
    exact h.current
  · rw [hstory, hcurrent]
    exact h.counted

/-- One more line is the opposite of the last one. -/
theorem alternates_concat {lines : List Line} {line : Line}
    (h : lines.map Line.starts = (List.range lines.length).map fun i => decide (i % 2 = 0))
    (hline : line.starts = decide (lines.length % 2 = 0)) :
    (lines ++ [line]).map Line.starts =
      (List.range (lines ++ [line]).length).map fun i => decide (i % 2 = 0) := by
  rw [List.length_append, List.length_singleton, List.range_succ, List.map_append, h,
    List.map_append, List.map_singleton, List.map_singleton, hline]

theorem sweep (h : s.Tells x n) (now : Instant) : (s.sweep now).Tells x n := by
  obtain ⟨hstory, hcurrent⟩ := s.story_sweep x now
  cases hgoing : s.current x with
  | none =>
    rw [hgoing] at hstory hcurrent
    exact h.of_eq (hstory.trans (List.append_nil _)) (hcurrent.trans hgoing.symm)
  | some t =>
    rw [hgoing, Option.filter_some] at hstory hcurrent
    cases hlapsed : t.lapsed now with
    | false =>
      simp only [hlapsed, Bool.not_false, if_true, Bool.false_eq_true, if_false] at hstory hcurrent
      exact h.of_eq (hstory.trans (List.append_nil _)) (hcurrent.trans hgoing.symm)
    | true =>
      -- The transmission is over, and the line reports what was going on.
      simp only [hlapsed, if_true, Bool.not_true, Bool.false_eq_true, if_false] at hstory hcurrent
      have hodd := h.current.mp (by rw [hgoing]; rfl)
      have hcounted := h.counted
      rw [hgoing] at hcounted
      constructor
      · rw [hstory]
        refine alternates_concat h.alternates ?_
        rw [hodd]
        rfl
      · rw [hstory, hcurrent, Option.map_some, Option.toList_some, List.length_append,
          List.length_singleton]
        refine ⟨fun hnone => ?_, fun heven => ?_⟩
        · cases hnone
        · omega
      · rw [hstory, hcurrent, Option.map_some, Option.toList_some, List.map_append,
          List.sum_append, ← hcounted]
        rfl

theorem count (v : VoicePacket) (h : s.Tells v.session n)
    (dest : Option (RouteId × Dsp.Sink × List Listener)) (now : Instant) :
    (s.count v dest now).Tells v.session (n + 1) := by
  obtain ⟨hstory, hcurrent⟩ := s.story_count v dest now
  have hcounted := h.counted
  have hgoing : ((s.count v dest now).current v.session).isSome = true := by
    rw [← Option.isSome_map (f := Talk.packets), hcurrent]
    rfl
  cases hbefore : s.current v.session with
  | some t =>
    -- The packet continues what is going on: no line, and one packet more.
    have hodd := h.current.mp (by rw [hbefore]; rfl)
    rw [hbefore] at hstory hcurrent hcounted
    rw [Option.isSome_some, if_pos rfl, List.append_nil] at hstory
    constructor
    · rw [hstory]
      exact h.alternates
    · rw [hstory]
      exact ⟨fun _ => hodd, fun _ => hgoing⟩
    · rw [hstory, hcurrent, ← hcounted]
      rfl
  | none =>
    -- It begins a transmission, and so it comes after the end of one.
    have heven : (s.story v.session).length % 2 = 0 := by
      have hnot : ¬ (s.story v.session).length % 2 = 1 := fun hodd => by
        have hsome := h.current.mpr hodd
        rw [hbefore] at hsome
        cases hsome
      omega
    rw [hbefore] at hstory hcurrent hcounted
    rw [Option.isSome_none, if_neg Bool.false_ne_true] at hstory
    constructor
    · rw [hstory]
      refine alternates_concat h.alternates ?_
      rw [heven]
      rfl
    · rw [hstory, List.length_append, List.length_singleton]
      exact ⟨fun _ => by omega, fun _ => hgoing⟩
    · rw [hstory, hcurrent, List.map_append, List.sum_append, ← hcounted]
      rfl

end Tells

/-- Whose packet a turn brings. -/
def speaker (p : Proto) (t : Turn) : Option UInt32 :=
  match t.said p with
  | some (.voice body) => (parseVoice body).map VoicePacket.session
  | _ => none

variable {p : Proto} {server : UInt32} {found : Moment} {left : Left S} {n : ℕ}

/-- What is heard of a session is in the tables of what has been heard. -/
theorem Tells.of_heard {s' : Session S} (h : s.Tells x n) (hheard : s'.heard.lookup x =
    s.heard.lookup x) (hlines : s'.lines = s.lines) : s'.Tells x n :=
  h.of_eq (by rw [story, hlines, ← story]) (by rw [Session.current, hheard, ← Session.current])

theorem tells_counted (h : s.Tells x n) (hother : s.me ≠ some x) (r : Router) (body : List UInt8)
    (now : Instant) :
    (s.counted server r body now).Tells x
      (n + if (parseVoice body).map VoicePacket.session = some x then 1 else 0) := by
  unfold counted
  cases parseVoice body with
  | none => exact h
  | some v =>
    simp only [Option.map_some, Option.some.injEq]
    by_cases hx : v.session = x
    · subst hx
      rw [if_neg (Ne.symm hother), if_pos rfl]
      exact h.count v _ now
    · rw [if_neg hx]
      split_ifs
      · exact h
      · obtain ⟨hstory, hcurrent⟩ :=
          s.story_count_ne x v (r.destination ⟨server, v.session⟩) now hx
        exact h.of_eq hstory hcurrent

/-- **A turn counts the packet that it brings**, if it brings one, and loses none, unless the
session leaves. -/
theorem tells_turn (h : s.Tells x n) (hother : s.me ≠ some x) {t : Turn}
    (hstays : t.said p ≠ some (.remove x)) (hturn : s.turn p server found t = .ok left) :
    left.session.Tells x (n + if speaker p t = some x then 1 else 0) := by
  rcases turn_cases hturn with ⟨hsaid, rfl⟩ | ⟨said, hsaid, htook⟩
  · rw [speaker, hsaid, if_neg (by simp), Nat.add_zero]
    exact h.sweep found.now
  · -- Only voice is counted.
    have hquiet : (∀ body, said ≠ .voice body) → speaker p t ≠ some x := by
      intro hvoice
      rw [speaker, hsaid]
      split
      · next body heq => exact absurd (Option.some.inj heq) (hvoice body)
      · simp
    cases htook with
    | voice body =>
      have hspeaker : speaker p t = (parseVoice body).map VoicePacket.session := by
        rw [speaker, hsaid]
      rw [hspeaker]
      exact (tells_counted h hother found.router body found.now).of_heard rfl rfl
    | sync hsync =>
      rw [if_neg (hquiet fun body heq => by cases heq)]
      obtain ⟨listening, asks, rfl⟩ := sync_frame hsync
      exact h.of_heard rfl rfl
    | user session name =>
      rw [if_neg (hquiet fun body heq => by cases heq)]
      exact h.of_heard rfl rfl
    | remove session =>
      rw [if_neg (hquiet fun body heq => by cases heq)]
      refine h.of_heard (AList.lookup_erase_ne fun heq => ?_) rfl
      rw [hsaid, heq] at hstays
      exact hstays rfl
    | channel id name hchannel =>
      rw [if_neg (hquiet fun body heq => by cases heq)]
      obtain ⟨known, listening, asks, rfl⟩ := channel_frame hchannel
      exact h.of_heard rfl rfl
    | passed hidle =>
      rw [if_neg (hquiet fun body heq => by rw [heq] at hidle; cases hidle)]
      exact h

/-! ### A connection -/

theorem tells_new (x : UInt32) : (new S).Tells x 0 where
  alternates := rfl
  current := by simp [Session.current, story, new]
  counted := by simp [Session.current, story, new]

/-- **Every packet is counted in one transmission, and transmissions alternate.** Of a session that
is not the tap's own and does not leave, whatever the connection finds from turn to turn and
whenever the sweeps come: the lines say by turns that a transmission has begun and that it is over;
the last of them is a beginning exactly when one is going on; and the packets that the lines report,
with those of the transmission that is going on, are all the packets of the session. -/
theorem transmissions_told (p : Proto) (server : UInt32) (x : UInt32)
    {es : List (Moment × Turn)} (hother : ¬ Told p es x)
    (hstays : ∀ e ∈ es, e.2.said p ≠ some (.remove x)) {s : Session S}
    (h : run (step p server) (.ok (new S)) es = .ok s) :
    s.Tells x ((es.filterMap fun e => speaker p e.2).count x) := by
  refine connection_induction (P := fun es s => ¬ Told p es x →
    (∀ e ∈ es, e.2.said p ≠ some (.remove x)) →
      s.Tells x ((es.filterMap fun e => speaker p e.2).count x)) (fun _ _ => tells_new x)
    (fun es s found t left hrun ih hturn hother hstays => ?_) h hother hstays
  have hbefore : ¬ Told p es x := fun htold => hother (htold.append _)
  have hme : s.me ≠ some x := fun hme => hbefore ((told_run hrun).2 x hme)
  have hnext := tells_turn
    (ih hbefore fun e he => hstays e (List.mem_append_left _ he)) hme
    (hstays (found, t) (List.mem_append_right _ List.mem_cons_self)) hturn
  have hcount : ((es ++ [(found, t)]).filterMap fun e => speaker p e.2).count x =
      (es.filterMap fun e => speaker p e.2).count x + if speaker p t = some x then 1 else 0 := by
    rw [List.filterMap_append, List.count_append]
    cases hspeaker : speaker p t with
    | none => simp [hspeaker]
    | some y => simp [hspeaker, List.count_singleton]
  rwa [hcount]

/-- Two packets of a session that nobody has announced, and a sweep when they are long over. -/
def twoPackets : List (Moment × Turn) :=
  [(⟨Router.empty, 0, 0, true⟩, .message (1, [0x80, 5, 1, 1, 42])),
    (⟨Router.empty, 40000000, 1, true⟩, .message (1, [0x80, 5, 2, 1, 42])),
    (⟨Router.empty, 250000000, 2, true⟩, .sweep)]

theorem transmissions_told_twoPackets :
    ∃ s : Session Signal.passing,
      run (step shortProto 1) (.ok (new Signal.passing)) twoPackets = .ok s ∧
      s.story 5 = [.txStart 5 ['?'] none 4 0, .txEnd 5 ['?'] 2 250 none] ∧ s.Tells 5 2 := by
  have hother : ¬ Told shortProto twoPackets 5 := by
    rintro ⟨e, he, hsaid⟩
    revert e
    decide
  have hstays : ∀ e ∈ twoPackets, e.2.said shortProto ≠ some (.remove 5) := by decide
  have hcount : (twoPackets.filterMap fun e => speaker shortProto e.2).count 5 = 2 := by
    decide +kernel
  refine ⟨_, rfl, by decide +kernel, ?_⟩
  rw [← hcount]
  exact transmissions_told shortProto 1 5 hother hstays rfl

end Session

end Mumble

end RfxVoiced
