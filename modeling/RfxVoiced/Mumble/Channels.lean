import RfxVoiced.Lib.Subscriber
import RfxVoiced.Mumble.Session

/-!
# Listening to every channel

Every player of a server has a channel of their own and is always heard there, so a tap that listens
to every channel hears everybody. The server announces its channels, and may be asked to let a
session listen to them; but the tap is told late which session is its own, and channels go on being
announced after that.

A connection is a subscriber to the channels: whatever else happens on it, and whatever the other
planes do to the routing table in between, it asks for each channel once.

## Main definitions

* `Session.Subscribes` — the tables of a connection, as those of a subscriber

## Main results

* `subscribes_turn`, `subscribes_run` — a connection is a subscriber
* `listens_to_all` — what a connection knows, and what it has asked for
-/

namespace RfxVoiced.Mumble

open Dsp (Signal)

variable {S : Signal}

namespace Session

/-- The channels that have been asked for, in order. -/
def asked (s : Session S) : List UInt32 := s.asks.flatMap fun a => a.2

/-- What a message means to a subscriber. -/
def subscriberOp : Said → Option (Subscriber.Op UInt32)
  | .sync session => some (.enrol session.isSome)
  | .channel (some id) (some _) => some (.announce id)
  | _ => none

/-- What a turn means to a subscriber. -/
def subscriberOps (p : Proto) (t : Turn) : List (Subscriber.Op UInt32) :=
  ((t.said p).bind subscriberOp).toList

/-- A connection that knows and has asked for what a subscriber knows and has asked for. -/
structure Subscribes (s : Session S) (sub : Subscriber UInt32) : Prop where
  known : s.knownChannels = sub.known
  asked : s.asked = sub.asked
  admitted : s.me.isSome = sub.admitted
  listening : ∀ c, c ∈ s.listening ↔ c ∈ sub.asked
  named : ∀ a ∈ s.asks, a.2 ≠ []

theorem subscribes_new : (new S).Subscribes (Subscriber.new UInt32) where
  known := rfl
  asked := rfl
  admitted := rfl
  listening c := by simp [new, Subscriber.new]
  named a h := absurd h List.not_mem_nil

namespace Subscribes

variable {s s' : Session S} {sub : Subscriber UInt32} {writing : Bool}

/-- Nothing else of a connection matters to a subscriber. -/
theorem of_eq (h : s.Subscribes sub) (hknown : s'.knownChannels = s.knownChannels)
    (hasks : s'.asks = s.asks) (hme : s'.me = s.me) (hlistening : s'.listening = s.listening) :
    s'.Subscribes sub where
  known := hknown.trans h.known
  asked := by rw [Session.asked, hasks, ← Session.asked, h.asked]
  admitted := hme ▸ h.admitted
  listening c := hlistening ▸ h.listening c
  named a ha := h.named a (hasks ▸ ha)

/-- What is left to ask for is what was announced since the tap last had a session. -/
theorem asked_append_pending (h : s.Subscribes sub) : s.asked ++ s.pending = s.knownChannels := by
  obtain ⟨rest, hrest⟩ := sub.starts
  have hnodup := sub.nodup
  rw [← hrest, List.nodup_append] at hnodup
  have hold : sub.asked.filter (fun c => c ∉ s.listening) = [] :=
    List.filter_eq_nil_iff.mpr fun c hc => by simpa using (h.listening c).mpr hc
  have hnew : rest.filter (fun c => c ∉ s.listening) = rest :=
    List.filter_eq_self.mpr fun c hc => by
      simpa [h.listening c] using fun hasked => hnodup.2.2 c hasked c hc rfl
  rw [pending, h.known, h.asked, ← hrest, List.filter_append, hold, hnew, List.nil_append]

/-- A connection that has just asked for these channels. -/
theorem ask {sub' : Subscriber UInt32} {session : UInt32} {channels : List UInt32}
    (h : ∀ c, c ∈ s.listening ↔ c ∈ s.asked) (hnamed : ∀ a ∈ s.asks, a.2 ≠ [])
    (hchannels : channels ≠ []) (hknown : s.knownChannels = sub'.known)
    (hadmitted : s.me.isSome = sub'.admitted) (hasked : s.asked ++ channels = sub'.asked)
    (hask : s.ask writing session channels = .ok s') : s'.Subscribes sub' := by
  unfold Session.ask at hask
  split_ifs at hask
  rw [← Except.ok.inj hask]
  refine ⟨hknown, ?_, hadmitted, fun c => ?_, fun a ha => ?_⟩
  · rw [← hasked]
    exact (List.flatMap_append).trans (by rw [List.flatMap_singleton]; rfl)
  · rw [← hasked, List.mem_append, ← h c, Finset.mem_union, List.mem_toFinset]
  · rcases List.mem_append.mp ha with ha | ha
    · exact hnamed a ha
    · rw [List.mem_singleton.mp ha]
      exact hchannels

theorem sync (h : s.Subscribes sub) {me : Option UInt32} (hsync : s.sync writing me = .ok s') :
    s'.Subscribes (sub.enrol me.isSome) := by
  have hall := h.asked_append_pending
  cases me with
  | none =>
    rw [← Except.ok.inj hsync]
    exact ⟨h.known, h.asked, rfl, h.listening, h.named⟩
  | some session =>
    simp only [Session.sync] at hsync
    split_ifs at hsync with hnone
    · -- There is nothing that has not been asked for.
      change s.pending = [] at hnone
      rw [hnone, List.append_nil] at hall
      rw [← Except.ok.inj hsync]
      refine ⟨h.known, hall.trans h.known, rfl, fun c => ?_, h.named⟩
      change c ∈ s.listening ↔ c ∈ sub.known
      rw [h.listening, ← h.asked, hall, h.known]
    · exact ask (s := { s with me := some session })
        (fun c => (h.listening c).trans (by rw [← h.asked]; rfl)) h.named hnone h.known rfl
        (hall.trans h.known) hsync

theorem channel (h : s.Subscribes sub) {id : UInt32}
    (hchannel : s.channel writing id = .ok s') : s'.Subscribes (sub.announce id) := by
  have hlistening : ∀ c, c ∈ s.listening ↔ c ∈ s.asked := fun c => by rw [h.listening, h.asked]
  unfold Session.channel at hchannel
  unfold Subscriber.announce
  by_cases hmem : id ∈ sub.known
  · -- A channel that is known has been asked for, if anything can be asked for.
    rw [dif_pos hmem]
    rw [if_pos (h.known ▸ hmem)] at hchannel
    cases hme : s.me with
    | none =>
      simp only [hme] at hchannel
      exact Except.ok.inj hchannel ▸ h
    | some session =>
      have hadmitted : sub.admitted = true := by rw [← h.admitted, hme]; rfl
      have hin : id ∈ s.listening := by rwa [h.listening, sub.caughtUp hadmitted]
      simp only [hme] at hchannel
      rw [if_pos hin] at hchannel
      exact Except.ok.inj hchannel ▸ h
  · rw [dif_neg hmem]
    rw [if_neg (h.known ▸ hmem)] at hchannel
    cases hme : s.me with
    | none =>
      -- Nothing can be asked for yet, and the channel is remembered.
      have hadmitted : sub.admitted = false := by rw [← h.admitted, hme]; rfl
      simp only [hme] at hchannel
      rw [← Except.ok.inj hchannel]
      refine ⟨congrArg (· ++ [id]) h.known, ?_, h.admitted, fun c => ?_, h.named⟩
      · change s.asked = if sub.admitted then _ else sub.asked
        rw [hadmitted, h.asked]
        rfl
      · change c ∈ s.listening ↔ c ∈ if sub.admitted then _ else sub.asked
        rw [hadmitted]
        exact h.listening c
    | some session =>
      have hadmitted : sub.admitted = true := by rw [← h.admitted, hme]; rfl
      -- A channel that nobody knew is asked for at once.
      have hout : id ∉ s.listening := fun hin => hmem (sub.starts.subset ((h.listening id).mp hin))
      simp only [hme] at hchannel
      rw [if_neg hout] at hchannel
      refine ask (s := { s with knownChannels := s.knownChannels ++ [id] }) hlistening h.named
        (List.cons_ne_nil _ _) (congrArg (· ++ [id]) h.known) h.admitted ?_ hchannel
      change s.asked ++ [id] = if sub.admitted then sub.asked ++ [id] else sub.asked
      rw [hadmitted, h.asked]
      rfl

end Subscribes

/-! ### A connection -/

variable {p : Proto} {server : UInt32} {s : Session S} {sub : Subscriber UInt32} {found : Moment}
  {left : Left S}

/-- What is heard does not show in the channels. -/
theorem subscribes_hear (h : s.Subscribes sub) (r : Router) (body : List UInt8) (now : Instant)
    (fresh : ℕ) : (s.hear server r body now fresh).2.Subscribes sub := by
  obtain ⟨tap, heard, lines, hme, heq⟩ := s.hear_frame server r body now fresh
  rw [heq]
  exact h.of_eq rfl rfl hme rfl

theorem subscriberOp_of_idle {said : Said} (h : said.idle = true) : subscriberOp said = none := by
  cases said with
  | user => rfl
  | channel id name => cases id <;> cases name <;> first | rfl | cases h
  | other => rfl
  | _ => cases h

/-- **A turn is what it means to a subscriber.** The gap detector does not look at the channels. -/
theorem subscribes_turn (h : s.Subscribes sub) {t : Turn}
    (hturn : s.turn p server found t = .ok left) :
    left.session.Subscribes (run Subscriber.step sub (subscriberOps p t)) := by
  rcases turn_cases hturn with ⟨hsaid, rfl⟩ | ⟨said, hsaid, htook⟩
  · rw [subscriberOps, hsaid]
    exact h.of_eq rfl rfl rfl rfl
  · rw [subscriberOps, hsaid, Option.bind_some]
    cases htook with
    | voice body => exact subscribes_hear h _ body _ _
    | sync hsync => exact h.sync hsync
    | user session name => exact h.of_eq rfl rfl rfl rfl
    | remove session => exact h.of_eq rfl rfl rfl rfl
    | channel id name hchannel => exact h.channel hchannel
    | passed hidle =>
      rw [subscriberOp_of_idle hidle]
      exact h

/-- **A connection is a subscriber**, whatever it finds from turn to turn. -/
theorem subscribes_run {es : List (Moment × Turn)}
    (h : run (step p server) (.ok (new S)) es = .ok s) :
    s.Subscribes (run Subscriber.step (Subscriber.new UInt32)
      (es.flatMap fun e => subscriberOps p e.2)) := by
  refine connection_induction (P := fun es s => s.Subscribes (run Subscriber.step
    (Subscriber.new UInt32) (es.flatMap fun e => subscriberOps p e.2))) subscribes_new
    (fun es s found t left _ ih hturn => ?_) h
  rw [List.flatMap_append, List.flatMap_singleton, run_append]
  exact subscribes_turn ih hturn

/-- The channel that a message announces: one with an id and a name. -/
def Said.announces : Said → Option UInt32
  | .channel (some id) (some _) => some id
  | _ => none

theorem announcements_subscriberOps (p : Proto) (t : Turn) :
    Subscriber.announcements (subscriberOps p t) = ((t.said p).bind Said.announces).toList := by
  unfold subscriberOps
  cases t.said p with
  | none => rfl
  | some said =>
    cases said with
    | channel id name => cases id <;> cases name <;> rfl
    | _ => rfl

theorem announcements_flatMap (p : Proto) (es : List (Moment × Turn)) :
    Subscriber.announcements (es.flatMap fun e => subscriberOps p e.2) =
      es.filterMap fun e => (e.2.said p).bind Said.announces := by
  induction es with
  | nil => rfl
  | cons e es ih =>
    rw [List.flatMap_cons, Subscriber.announcements_append, announcements_subscriberOps, ih,
      List.filterMap_cons]
    cases (e.2.said p).bind Said.announces <;> rfl

/-! ### Whose name it asks in -/

/-- The server has told the tap that this session is its own. -/
def Told (p : Proto) (es : List (Moment × Turn)) (session : UInt32) : Prop :=
  ∃ e ∈ es, e.2.said p = some (.sync (some session))

theorem Told.append {es : List (Moment × Turn)} {session : UInt32} (h : Told p es session)
    (es' : List (Moment × Turn)) : Told p (es ++ es') session := by
  obtain ⟨e, he, hsaid⟩ := h
  exact ⟨e, List.mem_append_left es' he, hsaid⟩

/-- What has been asked for since is asked for in the name of the tap's own session. -/
def AsksAs (s s' : Session S) : Prop := ∀ a ∈ s'.asks, a ∈ s.asks ∨ s'.me = some a.1

theorem asksAs_of_eq {s s' : Session S} (h : s'.asks = s.asks) : AsksAs s s' :=
  fun _ ha => Or.inl (h ▸ ha)

theorem asksAs_ask {s s' : Session S} {writing : Bool} {session : UInt32} {channels : List UInt32}
    (hme : s.me = some session) (h : s.ask writing session channels = .ok s') :
    AsksAs s s' ∧ s'.me = s.me := by
  unfold ask at h
  split_ifs at h
  rw [← Except.ok.inj h]
  refine ⟨fun a ha => ?_, rfl⟩
  rcases List.mem_append.mp ha with ha | ha
  · exact Or.inl ha
  · rw [List.mem_singleton.mp ha]
    exact Or.inr hme

theorem asksAs_sync {s s' : Session S} {writing : Bool} {me : Option UInt32}
    (h : s.sync writing me = .ok s') : AsksAs s s' ∧ s'.me = me := by
  cases me with
  | none => exact Except.ok.inj h ▸ ⟨asksAs_of_eq rfl, rfl⟩
  | some session =>
    simp only [sync] at h
    split_ifs at h with hnone
    · exact Except.ok.inj h ▸ ⟨asksAs_of_eq rfl, rfl⟩
    · exact asksAs_ask (s := { s with me := some session }) rfl h

theorem asksAs_channel {s s' : Session S} {writing : Bool} {id : UInt32}
    (h : s.channel writing id = .ok s') : AsksAs s s' ∧ s'.me = s.me := by
  unfold channel at h
  generalize hknown : (if id ∈ s.knownChannels then s
    else { s with knownChannels := s.knownChannels ++ [id] }) = known at h
  have hsame : known.asks = s.asks ∧ known.me = s.me := by
    rw [← hknown]
    split_ifs <;> exact ⟨rfl, rfl⟩
  cases hme : known.me with
  | none =>
    simp only [hme] at h
    exact Except.ok.inj h ▸ ⟨asksAs_of_eq hsame.1, hsame.2⟩
  | some session =>
    simp only [hme] at h
    split_ifs at h with hin
    · exact Except.ok.inj h ▸ ⟨asksAs_of_eq hsame.1, hsame.2⟩
    · obtain ⟨hasks, hkept⟩ := asksAs_ask hme h
      exact ⟨fun a ha => hsame.1 ▸ hasks a ha, hkept.trans hsame.2⟩

/-- A turn asks for something in the name of the session that is the tap's own, and only the server
says which session that is. -/
theorem asksAs_turn {t : Turn} (hturn : s.turn p server found t = .ok left) :
    AsksAs s left.session ∧
      (left.session.me = s.me ∨ t.said p = some (.sync left.session.me)) := by
  rcases turn_cases hturn with ⟨hsaid, rfl⟩ | ⟨said, hsaid, htook⟩
  · exact ⟨asksAs_of_eq rfl, Or.inl rfl⟩
  · cases htook with
    | voice body =>
      obtain ⟨tap, heard, lines, hme, heq⟩ :=
        s.hear_frame server found.router body found.now found.fresh
      rw [heq]
      exact ⟨asksAs_of_eq rfl, Or.inl hme⟩
    | sync hsync =>
      obtain ⟨hasks, hme⟩ := asksAs_sync hsync
      exact ⟨hasks, Or.inr (hme.symm ▸ hsaid)⟩
    | user session name => exact ⟨asksAs_of_eq rfl, Or.inl rfl⟩
    | remove session => exact ⟨asksAs_of_eq rfl, Or.inl rfl⟩
    | channel id name hchannel =>
      obtain ⟨hasks, hme⟩ := asksAs_channel hchannel
      exact ⟨hasks, Or.inl hme⟩
    | passed => exact ⟨asksAs_of_eq rfl, Or.inl rfl⟩

/-- The session that anything was asked for in the name of, and the one that the tap takes for its
own, are sessions that the server has said to be the tap's own. -/
theorem told_run {es : List (Moment × Turn)} (h : run (step p server) (.ok (new S)) es = .ok s) :
    (∀ a ∈ s.asks, Told p es a.1) ∧ ∀ session, s.me = some session → Told p es session := by
  refine connection_induction (P := fun es s => (∀ a ∈ s.asks, Told p es a.1) ∧
    ∀ session, s.me = some session → Told p es session) ⟨by simp [new], by simp [new, Tap.new]⟩
    (fun es s found t left _ ih hturn => ?_) h
  obtain ⟨hasks, hme⟩ := asksAs_turn hturn
  have hown : ∀ session, left.session.me = some session → Told p (es ++ [(found, t)]) session := by
    intro session hsession
    rcases hme with hme | hsaid
    · exact (ih.2 session (hme ▸ hsession)).append _
    · exact ⟨(found, t), by simp, hsession ▸ hsaid⟩
  refine ⟨fun a ha => ?_, hown⟩
  rcases hasks a ha with ha | ha
  · exact (ih.1 a ha).append _
  · exact hown _ ha

/-- **A connection listens to every channel.** Whatever it finds from turn to turn: the channels it
knows are those that the server has announced with a name, each once and in order; those it has
asked for are the first of these, so each has been asked for once; and as long as the tap knows its
own session, they are all of them. Nothing is asked for but in the name of a session that the server
has said to be the tap's own, and no ask is empty. -/
theorem listens_to_all (p : Proto) (server : UInt32) {es : List (Moment × Turn)}
    (h : run (step p server) (.ok (new S)) es = .ok s) :
    s.knownChannels = (es.filterMap fun e => (e.2.said p).bind Said.announces).eraseDups ∧
      s.asked <+: s.knownChannels ∧ s.asked.Nodup ∧
      (s.me.isSome = true → s.asked = s.knownChannels) ∧
      ∀ a ∈ s.asks, a.2 ≠ [] ∧ Told p es a.1 := by
  have hsub := subscribes_run h
  obtain ⟨hasks, -⟩ := told_run h
  have hknown := hsub.known
  rw [Subscriber.known_run, announcements_flatMap] at hknown
  rw [hsub.asked, hsub.admitted]
  refine ⟨hknown, hsub.known ▸ Subscriber.starts _, ?_, fun hme => ?_,
    fun a ha => ⟨hsub.named a ha, hasks a ha⟩⟩
  · exact (Subscriber.starts _).sublist.nodup (Subscriber.nodup _)
  · rw [hsub.known]
    exact Subscriber.caughtUp _ hme

/-- A channel before the tap knows its session, one after that, and the first one again. -/
def twoChannels : List (Moment × Turn) :=
  [(7, [0x08, 1, 0x1a, 1, 0x41]), (5, [0x08, 9]), (7, [0x08, 2, 0x1a, 1, 0x42]),
    (7, [0x08, 1, 0x1a, 1, 0x41])].map fun m => (⟨Router.empty, 0, 0, true⟩, .message m)

theorem listens_to_all_twoChannels :
    ∃ s : Session Signal.passing,
      run (step shortProto 1) (.ok (new Signal.passing)) twoChannels = .ok s ∧
      s.knownChannels = [1, 2] ∧ s.asks = [(9, [1]), (9, [2])] ∧ s.asked = s.knownChannels := by
  have hrun : ∃ s : Session Signal.passing,
      run (step shortProto 1) (.ok (new Signal.passing)) twoChannels = .ok s ∧
      s.knownChannels = [1, 2] ∧ s.asks = [(9, [1]), (9, [2])] ∧ s.me.isSome = true :=
    ⟨_, rfl, by decide, by decide, by decide⟩
  obtain ⟨s, hs, hknown, hasks, hme⟩ := hrun
  exact ⟨s, hs, hknown, hasks, (listens_to_all shortProto 1 hs).2.2.2.1 hme⟩

end Session

end RfxVoiced.Mumble
