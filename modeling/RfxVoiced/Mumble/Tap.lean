import RfxVoiced.Dsp.Draining
import RfxVoiced.Lib.Outputs
import RfxVoiced.Mumble.Voice
import RfxVoiced.Streams.Packets

/-!
# Packets from every side

A tap hears the voice packets of one server. It keeps a chain for each session, and a mixer for each
route on which people are colliding. The sockets of the consoles keep a chain each, and no mixer.
Packets arrive in any order, and each finds the routing table as the other planes have left it by
then.

## Main definitions

* `Tap`, `Tap.voice` — a tap, and what it does with a packet
* `Air`, `Air.hear` — all taps and sockets, and what becomes of a packet that reaches one of them
* `Air.Event`, `Air.step` — taps and sockets come and go as well

## Main results

* `hear_cases` — a packet goes out on its speaker's route for those who listen there, mixed as the
  mixers of the tap have it, or it does not go out
-/

namespace RfxVoiced

open Dsp (LegKey Signal Talker AmMix)

namespace Mumble

/-- A mixer, with the number that tells it from all others. -/
structure Mixer (S : Signal) where
  id : ℕ
  mix : AmMix S
  /-- Only AM renderings collide. -/
  am : mix.Carries fun lane => lane.1 = .am

namespace Mixer

variable {S : Signal}

def new (S : Signal) (id : ℕ) : Mixer S := ⟨id, AmMix.new S, AmMix.carries_new⟩

def add (m : Mixer S) (lane : LegKey) (hlane : lane.1 = .am) (session : UInt32) (pcm : List Int16)
    (now : Instant) : Mixer S :=
  { m with
    mix := m.mix.add lane session pcm now
    am := m.am.add hlane session pcm now }

/-- The mixer once whole frames have been taken. -/
def drained (m : Mixer S) (now : Instant) : Mixer S :=
  { m with
    mix := (m.mix.drain now).2
    am := m.am.drain now }

/-- Add the AM lanes to a mixer, and keep the rest. -/
def contribute (m : Mixer S) (session : UInt32) (lanes : List (LegKey × List Int16))
    (now : Instant) : Mixer S × List (LegKey × List Int16) :=
  lanes.foldl (fun acc lane =>
    if h : lane.1.1 = .am then (acc.1.add lane.1 h session lane.2 now, acc.2)
    else (acc.1, acc.2 ++ [lane])) (m, [])

theorem contribute_spec (m : Mixer S) (session : UInt32) (lanes : List (LegKey × List Int16))
    (now : Instant) :
    (m.contribute session lanes now).1.id = m.id ∧
      (m.contribute session lanes now).2 = lanes.filter fun lane => lane.1.1 ≠ .am := by
  induction lanes using List.reverseRecOn with
  | nil => exact ⟨rfl, rfl⟩
  | append_singleton lanes lane ih =>
    obtain ⟨hid, hrest⟩ := ih
    rw [contribute, List.foldl_concat, ← contribute, List.filter_append]
    by_cases h : lane.1.1 = .am
    · rw [dif_pos h]
      exact ⟨hid, by simp [hrest, h]⟩
    · rw [dif_neg h]
      exact ⟨hid, by simp [hrest, h]⟩

end Mixer

/-- What a tap needs to render what it hears. -/
structure Tap (S : Signal) where
  /-- The session of the tap itself, once it is known. -/
  me : Option UInt32
  /-- The chain of each session that has been heard. -/
  talkers : Table UInt32 (Talker S)
  /-- One mixer for each route, while people are colliding on it. -/
  ammix : Table RouteId (Mixer S)

namespace Tap

variable {S : Signal}

/-- A tap that has just connected. -/
def new (S : Signal) : Tap S := ⟨none, ∅, ∅⟩

/-- What goes out of a packet's lanes, and what the mixer of the route has to do with it. A mixer
that has to be made is given the number `fresh`. -/
def mixed (ammix : Table RouteId (Mixer S)) (collides : Bool) (tg : RouteId) (session : UInt32)
    (lanes : List (LegKey × List Int16)) (now : Instant) (fresh : ℕ) :
    List (LegKey × List Int16) × Mixing × Table RouteId (Mixer S) :=
  if collides then
    let mixer := (ammix.lookup tg).getD (Mixer.new S fresh)
    let (mixer, rest) := mixer.contribute session lanes now
    ((mixer.mix.drain now).1 ++ rest,
      .added mixer.id (lanes.filter fun lane => lane.1.1 = .am),
      ammix.insert tg (mixer.drained now))
  else
    match ammix.lookup tg with
    -- What is still queued belongs to whoever is left.
    | some mixer =>
      (mixer.mix.flush.1 ++ lanes, .flushed mixer.id mixer.mix.flush.1, ammix.erase tg)
    | none => (lanes, .none, ammix)

/-- A voice packet that the server passes on. -/
def voice (tap : Tap S) (server : UInt32) (r : Router) (body : List UInt8) (now : Instant)
    (fresh : ℕ) : Option Delivery × Tap S :=
  match parseVoice body with
  | none => (none, tap)
  | some v =>
    -- The tap does not hear itself.
    if some v.session = tap.me then (none, tap)
    else
      match r.destination ⟨server, v.session⟩ with
      -- The speaker has nothing keyed, and is heard by proximity only.
      | none => (none, tap)
      | some (tg, src, listeners) =>
        if listeners.isEmpty || v.codec ≠ opusCodec || v.payloadLen = 0 then (none, tap)
        else
          match (tap.talkers.lookup v.session).elim (Talker.new S) .ok with
          -- There is no chain, and the next packet tries to make one again.
          | .error _ => (none, tap)
          | .ok talker =>
            match talker.push ((body.drop v.payloadStart).take v.payloadLen) src
                (listeners.map Listener.sink) with
            -- The chain is kept, in the state that the packet has left it in.
            | (.error _, talker) =>
              (none, { tap with talkers := tap.talkers.insert v.session talker })
            | (.ok lanes, talker) =>
              let (out, mixing, ammix) :=
                mixed tap.ammix (r.amCollision tg) tg v.session lanes now fresh
              (some
                { origin := .tap ⟨server, v.session⟩
                  tg := tg
                  src := src
                  listeners := listeners
                  lanes := lanes
                  mixing := mixing
                  out := out },
                { tap with
                  talkers := tap.talkers.insert v.session talker
                  ammix := ammix })

theorem mixed_of_collision (ammix : Table RouteId (Mixer S)) (tg : RouteId) (session : UInt32)
    (lanes : List (LegKey × List Int16)) (now : Instant) (fresh : ℕ) :
    let m := ((ammix.lookup tg).map Mixer.id).getD fresh
    let made := mixed ammix true tg session lanes now fresh
    made.2.1 = .added m (lanes.filter fun lane => lane.1.1 = .am) ∧
      (made.2.2.lookup tg).map Mixer.id = some m ∧
      ∀ t, t ≠ tg → made.2.2.lookup t = ammix.lookup t := by
  intro m made
  have hid : (((ammix.lookup tg).getD (Mixer.new S fresh)).contribute session lanes now).1.id =
      m := by
    rw [(Mixer.contribute_spec _ session lanes now).1]
    cases h : ammix.lookup tg <;> simp [m, h, Mixer.new]
  refine ⟨congrArg (fun id => Mixing.added id _) hid, ?_, fun t ht => ?_⟩
  · simp only [made, mixed, if_true, AList.lookup_insert, Option.map_some]
    exact congrArg some hid
  · simp only [made, mixed, if_true]
    exact AList.lookup_insert_ne ht

/-- During a collision too, no lane goes out twice: the mixer gives out AM lanes, and none of the
others goes through it. -/
theorem nodup_mixed_of_collision (ammix : Table RouteId (Mixer S)) (tg : RouteId)
    (session : UInt32) {lanes : List (LegKey × List Int16)} (now : Instant) (fresh : ℕ)
    (hlanes : (lanes.map Prod.fst).Nodup) :
    ((mixed ammix true tg session lanes now fresh).1.map Prod.fst).Nodup := by
  generalize hmixer : ((ammix.lookup tg).getD (Mixer.new S fresh)).contribute session lanes now =
    contributed
  have hrest : contributed.2 = lanes.filter fun lane => lane.1.1 ≠ .am := by
    rw [← hmixer]
    exact (Mixer.contribute_spec _ session lanes now).2
  have hout : (mixed ammix true tg session lanes now fresh).1 =
      (contributed.1.mix.drain now).1 ++ contributed.2 := by
    rw [← hmixer]
    rfl
  rw [hout, hrest, List.map_append, List.nodup_append]
  refine ⟨contributed.1.mix.nodup_drain now, (List.filter_sublist.map Prod.fst).nodup hlanes, ?_⟩
  rintro k hk k' hk' rfl
  obtain ⟨lane, hlane, rfl⟩ := List.mem_map.mp hk'
  have hother : lane.1.1 ≠ .am := by simpa using (List.mem_filter.mp hlane).2
  exact hother (contributed.1.am.of_mem_drain hk)

theorem mixed_of_clear (ammix : Table RouteId (Mixer S)) (tg : RouteId) (session : UInt32)
    (lanes : List (LegKey × List Int16)) (now : Instant) (fresh : ℕ) :
    let made := mixed ammix false tg session lanes now fresh
    (made.1 = made.2.1.held ++ lanes ∧ (made.2.1 = .none ↔ ammix.lookup tg = none)) ∧
      made.2.2.lookup tg = none ∧ ∀ t, t ≠ tg → made.2.2.lookup t = ammix.lookup t := by
  cases h : ammix.lookup tg with
  | none => simp [mixed, h, Mixing.held]
  | some mixer =>
    have herase : ∀ t, t ≠ tg → (ammix.erase tg).lookup t = ammix.lookup t :=
      fun t ht => AList.lookup_erase_ne ht
    simpa [mixed, h, Mixing.held] using herase

/-- The lanes of a packet are what the chain makes of the samples in it. -/
theorem exists_of_push {talker : Talker S} {packet : List UInt8} {src : Dsp.Sink}
    {sinks : List Dsp.Sink} {lanes : List (LegKey × List Int16)}
    (h : (talker.push packet src sinks).1 = .ok lanes) :
    ∃ (t : Talker S) (wide : List Int16), lanes = (t.pushWide wide src sinks).1 := by
  unfold Talker.push at h
  split at h
  · cases h
  next wide opus hdecode =>
    exact ⟨_, wide, (Except.ok.inj h).symm⟩

/-- A packet goes out on its speaker's route, mixed as the mixers of the tap have it, or it does not
go out and leaves the mixers alone. -/
theorem voice_cases (tap : Tap S) (server : UInt32) (r : Router) (body : List UInt8)
    (now : Instant) (fresh : ℕ) :
    ((tap.voice server r body now fresh).1 = none ∧
      (tap.voice server r body now fresh).2.ammix = tap.ammix) ∨
    ∃ d speaker session, (tap.voice server r body now fresh).1 = some d ∧
      d.origin = .tap ⟨server, session⟩ ∧ d.Routed S r speaker ∧
      mixed tap.ammix (r.amCollision d.tg) d.tg session d.lanes now fresh =
        (d.out, d.mixing, (tap.voice server r body now fresh).2.ammix) := by
  unfold voice
  split
  · exact Or.inl ⟨rfl, rfl⟩
  next v hparse =>
    split_ifs with hme
    · exact Or.inl ⟨rfl, rfl⟩
    split
    · exact Or.inl ⟨rfl, rfl⟩
    next tg src listeners hdest =>
      split_ifs with hskip
      · exact Or.inl ⟨rfl, rfl⟩
      split
      · exact Or.inl ⟨rfl, rfl⟩
      next talker hstart =>
        split
        · exact Or.inl ⟨rfl, rfl⟩
        next lanes talker' hpush =>
          obtain ⟨speaker, hspeaker, hto, hsrc⟩ := Router.destination_eq_some_iff.mp hdest
          obtain ⟨t, wide, hmade⟩ := exists_of_push (congrArg Prod.fst hpush)
          exact Or.inr ⟨_, speaker, v.session, rfl, rfl,
            ⟨hspeaker, hto, hsrc, t, wide, hmade⟩, rfl⟩

end Tap

end Mumble

/-! ### All taps and sockets -/

/-- The taps of the servers, and the chains of the open sockets. -/
structure Air (S : Signal) where
  taps : Table UInt32 (Mumble.Tap S)
  sockets : Table Sender (ClientId × Option (Talker S))
  /-- The number that the next mixer will be given. -/
  nextMix : ℕ

/-- A packet of audio, at whichever tap or socket it arrives. -/
inductive Packet
  | voice (server : UInt32) (body : List UInt8)
  | samples (socket : Sender) (buf : List UInt8)
  deriving DecidableEq, Repr

namespace Air

variable {S : Signal}

def initial (S : Signal) : Air S := ⟨∅, ∅, 0⟩

/-- What becomes of a packet. -/
def hear (a : Air S) (r : Router) (packet : Packet) (now : Instant) : Option Delivery × Air S :=
  match packet with
  | .voice server body =>
    match a.taps.lookup server with
    | none => (none, a)
    | some tap =>
      let (d, tap) := tap.voice server r body now a.nextMix
      (d, { a with taps := a.taps.insert server tap, nextMix := a.nextMix + 1 })
  | .samples socket buf =>
    match a.sockets.lookup socket with
    | none => (none, a)
    | some (client, talker) =>
      let (d, talker) := consoleDelivery r talker client (buf.drop audioHeader)
      (d, { a with sockets := a.sockets.insert socket (client, talker) })

/-- What happens to the taps and the sockets, as far as it is heard. -/
inductive Event
  | packet (packet : Packet) (now : Instant)
  /-- A tap connects to its server, or does so again, and starts afresh. -/
  | connect (server : UInt32)
  /-- A tap goes down. -/
  | disconnect (server : UInt32)
  /-- A tap is told its own session. -/
  | sync (server : UInt32) (me : Option UInt32)
  /-- A session leaves a server. -/
  | leave (server session : UInt32)
  /-- A socket is opened for a client. -/
  | opened (socket : Sender) (client : ClientId)
  | closed (socket : Sender)

/-- One event, with the routing table as it is then. -/
def step (a : Air S) (e : Router × Event) : Option Delivery × Air S :=
  match e.2 with
  | .packet packet now => a.hear e.1 packet now
  | .connect server => (none, { a with taps := a.taps.insert server (Mumble.Tap.new S) })
  | .disconnect server => (none, { a with taps := a.taps.erase server })
  | .sync server me =>
    (none, { a with taps := a.taps.modify server fun tap => { tap with me := me } })
  | .leave server session =>
    (none, { a with
      taps := a.taps.modify server fun tap => { tap with talkers := tap.talkers.erase session } })
  | .opened socket client => (none, { a with sockets := a.sockets.insert socket (client, none) })
  | .closed socket => (none, { a with sockets := a.sockets.erase socket })

/-! ### What becomes of a packet -/

/-- The number of the mixer that a server's tap keeps for a route. -/
def mixerAt (a : Air S) (server : UInt32) (tg : RouteId) : Option ℕ :=
  (a.taps.lookup server).bind fun tap => (tap.ammix.lookup tg).map Mumble.Mixer.id

/-- All mixers but one, at most, are those that were there before. -/
def SameMixersBut (a a' : Air S) (server : UInt32) (tg : RouteId) : Prop :=
  ∀ s t, ¬ (s = server ∧ t = tg) → a'.mixerAt s t = a.mixerAt s t

/-- How a packet that goes out was mixed, and what that does to the mixers. -/
inductive Mixes (a : Air S) (r : Router) (d : Delivery) (a' : Air S) : Prop
  /-- From a socket: there is no mixer. -/
  | socket (htapped : d.origin.tapped = none) (hmixing : d.mixing = .none) (hout : d.out = d.lanes)
      (hmixers : ∀ s t, a'.mixerAt s t = a.mixerAt s t)
  /-- From a tap, during a collision: the AM lanes are added to the mixer that the tap keeps for the
  route, which is made if need be. -/
  | collision (server : UInt32) (m : ℕ) (htapped : d.origin.tapped = some server)
      (hcollides : r.amCollision d.tg = true)
      (hm : m = (a.mixerAt server d.tg).getD a.nextMix)
      (hmixing : d.mixing = .added m (d.lanes.filter fun lane => lane.1.1 = .am))
      (hout : (d.lanes.map Prod.fst).Nodup → (d.out.map Prod.fst).Nodup)
      (hmixer : a'.mixerAt server d.tg = some m) (hmixers : a.SameMixersBut a' server d.tg)
      (hnext : a.nextMix < a'.nextMix)
  /-- From a tap, with no collision: a mixer that is left over is emptied and dropped. -/
  | clear (server : UInt32) (htapped : d.origin.tapped = some server)
      (hcollides : r.amCollision d.tg = false) (hout : d.out = d.mixing.held ++ d.lanes)
      (hleft : d.mixing = .none ↔ a.mixerAt server d.tg = none)
      (hmixer : a'.mixerAt server d.tg = none) (hmixers : a.SameMixersBut a' server d.tg)

/-- What may become of a packet: it goes out on its speaker's route, or it does not and leaves the
mixers alone. -/
def Handles (a : Air S) (r : Router) (result : Option Delivery × Air S) : Prop :=
  (result.1 = none ∧ ∀ s t, result.2.mixerAt s t = a.mixerAt s t) ∨
    ∃ d speaker, result.1 = some d ∧ d.Routed S r speaker ∧ a.Mixes r d result.2

theorem handles_samples (a : Air S) (r : Router) (socket : Sender) (buf : List UInt8)
    (now : Instant) : a.Handles r (a.hear r (.samples socket buf) now) := by
  cases hsocket : a.sockets.lookup socket with
  | none => exact Or.inl (by simp [hear, hsocket])
  | some held =>
    obtain ⟨client, talker⟩ := held
    have hhear : a.hear r (.samples socket buf) now =
        ((consoleDelivery r talker client (buf.drop audioHeader)).1,
          { a with
            sockets := a.sockets.insert socket
              (client, (consoleDelivery r talker client (buf.drop audioHeader)).2) }) := by
      simp only [hear, hsocket]
    rw [hhear]
    cases hd : (consoleDelivery r talker client (buf.drop audioHeader)).1 with
    | none => exact Or.inl ⟨rfl, fun _ _ => rfl⟩
    | some d =>
      obtain ⟨hrouted, horigin, hmixing, hout⟩ := routed_of_consoleDelivery hd
      exact Or.inr ⟨d, client, rfl, hrouted,
        .socket (by rw [horigin]; rfl) hmixing hout fun _ _ => rfl⟩

/-- The mixers of the tap that is reached are those the packet leaves; the other taps are not
reached. -/
theorem mixerAt_hear_voice {a : Air S} {server : UInt32} {tap : Mumble.Tap S}
    (htap : a.taps.lookup server = some tap) (r : Router) (body : List UInt8) (now : Instant)
    (s : UInt32) (t : RouteId) :
    (a.hear r (.voice server body) now).2.mixerAt s t =
      if s = server then
        ((tap.voice server r body now a.nextMix).2.ammix.lookup t).map Mumble.Mixer.id
      else a.mixerAt s t := by
  simp only [hear, htap, mixerAt, Table.lookup_insert]
  split_ifs <;> rfl

/-- A packet that reaches a tap is mixed as its mixers have it. -/
theorem mixes_voice {a : Air S} {server session : UInt32} {tap : Mumble.Tap S}
    (htap : a.taps.lookup server = some tap) {r : Router} {body : List UInt8} {now : Instant}
    {d : Delivery} (horigin : d.origin = .tap ⟨server, session⟩)
    (hmixed : Mumble.Tap.mixed tap.ammix (r.amCollision d.tg) d.tg session d.lanes now a.nextMix =
      (d.out, d.mixing, (tap.voice server r body now a.nextMix).2.ammix)) :
    a.Mixes r d (a.hear r (.voice server body) now).2 := by
  have hnew := mixerAt_hear_voice htap r body now
  have hold : ∀ t, a.mixerAt server t = (tap.ammix.lookup t).map Mumble.Mixer.id := by
    intro t
    rw [mixerAt, htap, Option.bind_some]
  have htapped : d.origin.tapped = some server := by
    rw [horigin]
    rfl
  have hothers : (∀ t, t ≠ d.tg → (tap.voice server r body now a.nextMix).2.ammix.lookup t =
      tap.ammix.lookup t) →
      a.SameMixersBut (a.hear r (.voice server body) now).2 server d.tg := by
    intro hlookup s t hne
    rw [hnew]
    split_ifs with hs
    · rw [hs, hold, hlookup t fun ht => hne ⟨hs, ht⟩]
    · rfl
  cases hcollides : r.amCollision d.tg with
  | true =>
    rw [hcollides] at hmixed
    obtain ⟨hmixing, hmixer, hlookup⟩ :=
      Mumble.Tap.mixed_of_collision tap.ammix d.tg session d.lanes now a.nextMix
    simp only [hmixed] at hmixing hmixer hlookup
    rw [← hold] at hmixing hmixer
    have hout : (d.lanes.map Prod.fst).Nodup → (d.out.map Prod.fst).Nodup := by
      intro hlanes
      have hnodup := Mumble.Tap.nodup_mixed_of_collision tap.ammix d.tg session now a.nextMix hlanes
      rwa [hmixed] at hnodup
    -- A number has been taken for the mixer, whether one was made or not.
    have hnext : a.nextMix < (a.hear r (.voice server body) now).2.nextMix := by
      simp only [hear, htap]
      exact Nat.lt_succ_self _
    exact .collision server _ htapped hcollides rfl hmixing hout
      (by rw [hnew, if_pos rfl, hmixer]) (hothers hlookup) hnext
  | false =>
    rw [hcollides] at hmixed
    obtain ⟨⟨hout, hleft⟩, hmixer, hlookup⟩ :=
      Mumble.Tap.mixed_of_clear tap.ammix d.tg session d.lanes now a.nextMix
    simp only [hmixed] at hout hleft hmixer hlookup
    exact .clear server htapped hcollides hout (by rw [hleft, hold, Option.map_eq_none_iff])
      (by rw [hnew, if_pos rfl, hmixer, Option.map_none]) (hothers hlookup)

theorem handles_voice (a : Air S) (r : Router) (server : UInt32) (body : List UInt8)
    (now : Instant) : a.Handles r (a.hear r (.voice server body) now) := by
  cases htap : a.taps.lookup server with
  | none => exact Or.inl (by simp [hear, htap])
  | some tap =>
    have hhear : (a.hear r (.voice server body) now).1 =
        (tap.voice server r body now a.nextMix).1 := by
      simp only [hear, htap]
    rcases tap.voice_cases server r body now a.nextMix with ⟨hnone, hsame⟩ |
      ⟨d, speaker, session, hd, horigin, hrouted, hmixed⟩
    · refine Or.inl ⟨hhear.trans hnone, fun s t => ?_⟩
      rw [mixerAt_hear_voice htap, hsame]
      split_ifs with hs
      · rw [hs, mixerAt, htap, Option.bind_some]
      · rfl
    · exact Or.inr ⟨d, speaker, hhear.trans hd, hrouted, mixes_voice htap horigin hmixed⟩

/-- A packet goes out on its speaker's route, or it does not and leaves the mixers alone. -/
theorem hear_cases (a : Air S) (r : Router) (packet : Packet) (now : Instant) :
    a.Handles r (a.hear r packet now) := by
  cases packet with
  | voice server body => exact handles_voice a r server body now
  | samples socket buf => exact handles_samples a r socket buf now

end Air

end RfxVoiced
