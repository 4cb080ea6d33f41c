import RfxVoiced.Lib.Run
import RfxVoiced.Mumble.Delivered
import RfxVoiced.Router.Step

/-!
# Collisions

On an AM frequency two radios at once are heard as their sum, with the beat of their carriers. They
are summed where both are added to one mixer, under one lane. Each tap has mixers of its own, one
for each route, and the console sockets have none: so two that collide are summed exactly when one
tap hears both of them and both are heard on the same route.

## Main definitions

* `Air.Numbered` — no two mixers have the same number
* `MixedTogether` — two packets are added to one mixer, under one lane

## Main results

* `numbered_step`, `numbered_hear` — mixers stay apart, whatever happens
* `mixed_together_iff` — when two that collide are summed
* `consoles_interleave` — two consoles that collide are not
-/

namespace RfxVoiced

open Dsp (LegKey keyOf Signal)

variable {S : Signal}

namespace Air

/-! ### Telling mixers apart -/

/-- No two mixers have the same number, and none has one that is still to be given. -/
structure Numbered (a : Air S) : Prop where
  below : ∀ s t m, a.mixerAt s t = some m → m < a.nextMix
  apart : ∀ s t s' t' m, a.mixerAt s t = some m → a.mixerAt s' t' = some m → s = s' ∧ t = t'

theorem numbered_initial : (initial S).Numbered where
  below s t m h := by simp [initial, mixerAt] at h
  apart s t s' t' m h := by simp [initial, mixerAt] at h

variable {a a' : Air S} {r : Router}

/-- One mixer may be made, with the next number; others may go. -/
theorem Numbered.grow (h : a.Numbered) (hnext : a.nextMix ≤ a'.nextMix) (server : UInt32)
    (tg : RouteId)
    (hmixers : ∀ s t m, a'.mixerAt s t = some m → a.mixerAt s t = some m ∨
      (s = server ∧ t = tg) ∧ m = a.nextMix ∧ m < a'.nextMix) : a'.Numbered where
  below s t m hm := by
    rcases hmixers s t m hm with hold | ⟨-, -, hlt⟩
    · exact lt_of_lt_of_le (h.below s t m hold) hnext
    · exact hlt
  apart s t s' t' m hm hm' := by
    rcases hmixers s t m hm with hold | ⟨⟨rfl, rfl⟩, hnew, -⟩
    · rcases hmixers s' t' m hm' with hold' | ⟨-, hnew, -⟩
      · exact h.apart s t s' t' m hold hold'
      · exact absurd (h.below s t m hold) (by omega)
    · rcases hmixers s' t' m hm' with hold' | ⟨⟨rfl, rfl⟩, -⟩
      · exact absurd (h.below s' t' m hold') (by omega)
      · exact ⟨rfl, rfl⟩

theorem Numbered.of_subset (h : a.Numbered) (hnext : a.nextMix ≤ a'.nextMix)
    (hmixers : ∀ s t m, a'.mixerAt s t = some m → a.mixerAt s t = some m) : a'.Numbered :=
  h.grow hnext 0 0 fun s t m hm => Or.inl (hmixers s t m hm)

theorem nextMix_hear (a : Air S) (r : Router) (packet : Packet) (now : Instant) :
    a.nextMix ≤ (a.hear r packet now).2.nextMix := by
  cases packet with
  | voice server body =>
    rw [hear]
    split
    · exact le_refl _
    · exact Nat.le_succ _
  | samples socket buf =>
    rw [hear]
    split
    · exact le_refl _
    · exact le_refl _

theorem numbered_hear (h : a.Numbered) (r : Router) (packet : Packet) (now : Instant) :
    (a.hear r packet now).2.Numbered := by
  have hnext := nextMix_hear a r packet now
  rcases a.hear_cases r packet now with ⟨-, hsame⟩ | ⟨d, speaker, -, -, hmixes⟩
  · exact h.of_subset hnext fun s t m hm => by rwa [hsame] at hm
  · cases hmixes with
    | socket _ _ _ hsame => exact h.of_subset hnext fun s t m hm => by rwa [hsame] at hm
    | collision server m _ _ hm _ _ hmixer hothers hfresh =>
      refine h.grow hnext server d.tg fun s t m' hm' => ?_
      by_cases hst : s = server ∧ t = d.tg
      · obtain ⟨rfl, rfl⟩ := hst
        obtain rfl : m = m' := Option.some.inj (hmixer.symm.trans hm')
        -- The mixer was kept from before, or it takes the next number.
        cases hold : a.mixerAt s d.tg with
        | none =>
          rw [hold] at hm
          exact Or.inr ⟨⟨rfl, rfl⟩, hm, hm ▸ hfresh⟩
        | some m' =>
          rw [hold] at hm
          exact Or.inl (congrArg some hm.symm)
      · rw [hothers s t hst] at hm'
        exact Or.inl hm'
    | clear server _ _ _ _ hmixer hothers =>
      refine h.of_subset hnext fun s t m hm => ?_
      by_cases hst : s = server ∧ t = d.tg
      · obtain ⟨rfl, rfl⟩ := hst
        rw [hmixer] at hm
        cases hm
      · rwa [hothers s t hst] at hm

/-- What becomes of a tap, apart from its mixers, does not show in them. -/
theorem mixerAt_modify (a : Air S) (server : UInt32) (f : Mumble.Tap S → Mumble.Tap S)
    (hf : ∀ tap, (f tap).ammix = tap.ammix) (s : UInt32) (t : RouteId) :
    ({ a with taps := a.taps.modify server f } : Air S).mixerAt s t = a.mixerAt s t := by
  simp only [mixerAt, Table.lookup_modify]
  split_ifs
  · cases a.taps.lookup s with
    | none => rfl
    | some tap => simp [hf]
  · rfl

theorem numbered_step (h : a.Numbered) (e : Router × Event) : (a.step e).2.Numbered := by
  obtain ⟨r, e⟩ := e
  cases e with
  | packet packet now => exact numbered_hear h r packet now
  | connect server =>
    refine h.of_subset (le_refl _) fun s t m hm => ?_
    simp only [step, mixerAt, Table.lookup_insert] at hm
    split_ifs at hm
    · cases hm
    · exact hm
  | disconnect server =>
    refine h.of_subset (le_refl _) fun s t m hm => ?_
    simp only [step, mixerAt, Table.lookup_erase] at hm
    split_ifs at hm
    · cases hm
    · exact hm
  | sync server me =>
    refine h.of_subset (le_refl _) fun s t m hm => (mixerAt_modify a server _ ?_ s t).symm.trans hm
    exact fun _ => rfl
  | leave server session =>
    refine h.of_subset (le_refl _) fun s t m hm => (mixerAt_modify a server _ ?_ s t).symm.trans hm
    exact fun _ => rfl
  | opened socket client => exact h.of_subset (le_refl _) fun s t m hm => hm
  | closed socket => exact h.of_subset (le_refl _) fun s t m hm => hm

/-- The taps and sockets that a history leads to, whatever the routing table was at each event. -/
def after (S : Signal) (history : List (Router × Event)) : Air S :=
  run (fun a e => (a.step e).2) (initial S) history

theorem numbered_after (history : List (Router × Event)) : (after S history).Numbered :=
  run_invariant (P := Air.Numbered) (fun (a : Air S) e (h : a.Numbered) => numbered_step h e)
    numbered_initial history

/-! ### Packets under one routing table -/

/-- What goes out of packets that arrive in this order, while the routing table stays as it is. -/
def heard (a : Air S) (r : Router) (packets : List (Packet × Instant)) : List (Option Delivery) :=
  outputs (fun a (p : Packet × Instant) => a.hear r p.1 p.2) a packets

/-- The taps and sockets that the packets leave. -/
def leaves (a : Air S) (r : Router) (packets : List (Packet × Instant)) : Air S :=
  run (fun a (p : Packet × Instant) => (a.hear r p.1 p.2).2) a packets

variable {packets : List (Packet × Instant)} {d : Delivery}

theorem numbered_leaves (h : a.Numbered) : (a.leaves r packets).Numbered :=
  run_invariant (P := Air.Numbered)
    (fun (a : Air S) (p : Packet × Instant) (h : a.Numbered) => numbered_hear h r p.1 p.2) h packets

theorem exists_of_mem_heard (hd : some d ∈ a.heard r packets) :
    ∃ (a₁ a₂ : Air S) (speaker : ClientId), d.Routed S r speaker ∧ a₁.Mixes r d a₂ := by
  obtain ⟨a₁, p, -, hout⟩ := exists_of_mem_outputs hd
  obtain ⟨speaker, hrouted, hmixes⟩ := routed_of_hear hout
  exact ⟨a₁, _, speaker, hrouted, hmixes⟩

/-- While two collide on a route, the mixer that a tap keeps for it stays. -/
theorem mixerAt_hear_of_collision {server : UInt32} {tg : RouteId} {m : ℕ} (packet : Packet)
    (now : Instant) (hcollides : r.amCollision tg = true) (hm : a.mixerAt server tg = some m) :
    (a.hear r packet now).2.mixerAt server tg = some m := by
  rcases a.hear_cases r packet now with ⟨-, hsame⟩ | ⟨d, speaker, -, -, hmixes⟩
  · rw [hsame, hm]
  · cases hmixes with
    | socket _ _ _ hsame => rw [hsame, hm]
    | collision server' m' _ _ hm' _ _ hmixer hothers =>
      by_cases hst : server = server' ∧ tg = d.tg
      · obtain ⟨rfl, rfl⟩ := hst
        rw [hmixer, hm', hm, Option.getD_some]
      · rw [hothers server tg hst, hm]
    | clear server' _ hclear _ _ _ hothers =>
      have hst : ¬ (server = server' ∧ tg = d.tg) := by
        rintro ⟨-, rfl⟩
        rw [hcollides] at hclear
        cases hclear
      rw [hothers server tg hst, hm]

/-- The mixer that a packet was added to is there in the end. -/
theorem mixerAt_leaves {server : UInt32} {m : ℕ} {lanes : List (LegKey × List Int16)}
    (hd : some d ∈ a.heard r packets) (hcollides : r.amCollision d.tg = true)
    (htapped : d.origin.tapped = some server) (hmixing : d.mixing = .added m lanes) :
    (a.leaves r packets).mixerAt server d.tg = some m := by
  refine run_of_mem_outputs (Q := fun a : Air S => a.mixerAt server d.tg = some m)
    (fun a p hout => ?_) (fun a p hm => mixerAt_hear_of_collision p.1 p.2 hcollides hm) hd
  obtain ⟨speaker, -, hmixes⟩ := routed_of_hear hout
  cases hmixes with
  | socket hsocket =>
    rw [hsocket] at htapped
    cases htapped
  | collision server' m' htapped' _ _ hmixing' _ hmixer =>
    obtain rfl := Option.some.inj (htapped.symm.trans htapped')
    rw [hmixing] at hmixing'
    obtain ⟨rfl, -⟩ := Mixing.added.inj hmixing'
    exact hmixer
  | clear _ _ hclear =>
    rw [hcollides] at hclear
    cases hclear

/-- Only a tap adds anything to a mixer. -/
theorem Mixes.exists_tapped {m : ℕ} {lanes : List (LegKey × List Int16)} (h : a.Mixes r d a')
    (hmixing : d.mixing = .added m lanes) : ∃ server, d.origin.tapped = some server := by
  cases h with
  | socket _ hnone =>
    rw [hmixing] at hnone
    cases hnone
  | collision server _ htapped => exact ⟨server, htapped⟩
  | clear server htapped => exact ⟨server, htapped⟩

/-- During a collision a tap adds the AM lanes to a mixer. -/
theorem Mixes.exists_added {server : UInt32} (h : a.Mixes r d a')
    (htapped : d.origin.tapped = some server) (hcollides : r.amCollision d.tg = true) :
    ∃ m, d.mixing = .added m (d.lanes.filter fun lane => lane.1.1 = .am) := by
  cases h with
  | socket hsocket =>
    rw [hsocket] at htapped
    cases htapped
  | collision _ m _ _ _ hmixing => exact ⟨m, hmixing⟩
  | clear _ _ hclear =>
    rw [hcollides] at hclear
    cases hclear

end Air

/-! ### When two are summed -/

/-- For this listener, both packets are added to one mixer, under one lane. -/
def MixedTogether (d d' : Delivery) (l l' : Listener) : Prop :=
  ∃ m lanes lanes', d.mixing = .added m lanes ∧ d'.mixing = .added m lanes' ∧
    keyOf l.sink = keyOf l'.sink ∧ keyOf l.sink ∈ lanes.map Prod.fst ∧
    keyOf l'.sink ∈ lanes'.map Prod.fst

/-- One tap hears both of them, and both are heard on the same route. -/
def OnOneTap (r : Router) (d d' : Delivery) : Prop :=
  (∃ server, d.origin.tapped = some server ∧ d'.origin.tapped = some server) ∧
    (d.origin.speaker r).bind r.destinationRoute = (d'.origin.speaker r).bind r.destinationRoute

section

variable {r : Router} {d : Delivery} {speaker : ClientId}

theorem Delivery.Routed.route_eq (h : d.Routed S r speaker) :
    (d.origin.speaker r).bind r.destinationRoute = some d.tg := by
  obtain ⟨tg, htg, heq⟩ := Option.map_eq_some_iff.mp h.destination
  rw [h.speaking, Option.bind_some, htg, (Prod.mk.inj heq).1]

/-- For whoever is served in AM there is an AM lane. -/
theorem Delivery.Routed.mem_am_lanes (h : d.Routed S r speaker) {l : Listener}
    (hl : l ∈ d.listeners) (ham : l.mode = .am) :
    keyOf l.sink ∈ (d.lanes.filter fun lane => lane.1.1 = .am).map Prod.fst := by
  have haudible : l.sink.audible = true := by
    simp [Dsp.Sink.audible, Listener.sink, ham]
  obtain ⟨pcm, hpcm⟩ := Option.isSome_iff_exists.mp
    ((h.isSome_lookup_iff (keyOf l.sink)).mpr ⟨l, hl, haudible, rfl⟩)
  obtain ⟨l₁, l₂, hlanes, -⟩ := List.lookup_eq_some_iff.mp hpcm
  refine List.mem_map.mpr ⟨(keyOf l.sink, pcm), List.mem_filter.mpr ⟨?_, ?_⟩, rfl⟩
  · rw [hlanes]
    simp
  · rw [decide_eq_true_eq]
    exact ham

end

/-- **Two that collide are summed exactly when one tap hears both, on the same route.** Whatever the
taps and sockets have been through, let any packets arrive in any order while the routing table
stays as it is. Of two that go out during a collision, the AM renderings for a listener of both are
added to one mixer under one lane if and only if they came through the tap of one server and their
speakers are heard on the same route. -/
theorem mixed_together_iff (history : List (Router × Air.Event)) (r : Router)
    (packets : List (Packet × Instant)) {d d' : Delivery}
    (hd : some d ∈ (Air.after S history).heard r packets)
    (hd' : some d' ∈ (Air.after S history).heard r packets)
    (hcollides : r.amCollision d.tg = true) (hcollides' : r.amCollision d'.tg = true)
    {l l' : Listener} (hl : l ∈ d.listeners) (hl' : l' ∈ d'.listeners)
    (hclient : l.client = l'.client) (ham : l.mode = .am) (ham' : l'.mode = .am) :
    MixedTogether d d' l l' ↔ OnOneTap r d d' := by
  obtain ⟨a₁, a₂, speaker, hrouted, hmixes⟩ := Air.exists_of_mem_heard hd
  obtain ⟨a₁', a₂', speaker', hrouted', hmixes'⟩ := Air.exists_of_mem_heard hd'
  rw [OnOneTap, hrouted.route_eq, hrouted'.route_eq, Option.some.injEq]
  constructor
  · rintro ⟨m, lanes, lanes', hmixing, hmixing', -⟩
    obtain ⟨server, htapped⟩ := hmixes.exists_tapped hmixing
    obtain ⟨server', htapped'⟩ := hmixes'.exists_tapped hmixing'
    -- In the end the mixer is where the tap of each keeps the mixer of its route.
    obtain ⟨rfl, htg⟩ := (Air.numbered_leaves (Air.numbered_after history)).apart _ _ _ _ _
      (Air.mixerAt_leaves hd hcollides htapped hmixing)
      (Air.mixerAt_leaves hd' hcollides' htapped' hmixing')
    exact ⟨⟨server, htapped, htapped'⟩, htg⟩
  · rintro ⟨⟨server, htapped, htapped'⟩, htg⟩
    obtain ⟨m, hmixing⟩ := hmixes.exists_added htapped hcollides
    obtain ⟨m', hmixing'⟩ := hmixes'.exists_added htapped' hcollides'
    -- The tap keeps one mixer for the route for as long as the collision lasts.
    have hm := Air.mixerAt_leaves hd hcollides htapped hmixing
    have hm' := Air.mixerAt_leaves hd' hcollides' htapped' hmixing'
    rw [htg] at hm
    obtain rfl : m = m' := Option.some.inj (hm.symm.trans hm')
    have hsame : l = l' := by
      rw [hrouted.listeners_eq] at hl
      rw [hrouted'.listeners_eq, ← htg] at hl'
      exact Router.eq_of_mem_listenersAcross hl hl' hclient
    exact ⟨m, _, _, hmixing, hmixing', congrArg (fun l => keyOf l.sink) hsame,
      hrouted.mem_am_lanes hl ham, hrouted'.mem_am_lanes hl' ham'⟩

/-! ### On one airband frequency -/

/-- 120 MHz. -/
def airband : RouteId := 0x80000000 + 1200000

/-- The one who listens to the frequency. -/
def airbandListener : Listener := ⟨⟨2, 13⟩, 100, .am, false⟩

/-- The rendering of a packet of one value. -/
def airbandLane (s : Int16) : LegKey × List Int16 := ((.am, 100, false), List.replicate 160 s)

/-- A packet of one value, for whoever listens to the frequency. -/
def Delivery.onAirband (origin : Origin) (s : Int16) (mixing : Mixing)
    (out : List (LegKey × List Int16)) : Delivery where
  origin := origin
  tg := airband
  src := ⟨.am, 100, false⟩
  listeners := [airbandListener]
  lanes := [airbandLane s]
  mixing := mixing
  out := out

/-- Two units of one server collide: the second packet waits for the share of the first. -/
theorem units_of_a_server_are_mixed :
    let r := Router.after
      [.openConventional airband true, .setMember airband ⟨2, 13⟩ true 100,
        .bind ⟨2, 5⟩ ['[', '1', '0', ']'], .bind ⟨2, 6⟩ ['[', '1', '1', ']'],
        .keyAt airband ⟨2, 10⟩ 0, .keyAt airband ⟨2, 11⟩ 0]
    let d := Delivery.onAirband (.tap ⟨2, 5⟩) 42 (.added 0 [airbandLane 42]) [airbandLane 42]
    let d' := Delivery.onAirband (.tap ⟨2, 6⟩) 43 (.added 0 [airbandLane 43]) []
    (Air.after Signal.passing [(Router.empty, .connect 2)]).heard r
        [(.voice 2 [0x80, 5, 1, 1, 42], 0), (.voice 2 [0x80, 6, 1, 1, 43], 0)] =
        [some d, some d'] ∧
      MixedTogether d d' airbandListener airbandListener := by
  intro r d d'
  have hheard : (Air.after Signal.passing [(Router.empty, .connect 2)]).heard r
      [(.voice 2 [0x80, 5, 1, 1, 42], 0), (.voice 2 [0x80, 6, 1, 1, 43], 0)] =
      [some d, some d'] := by
    decide +kernel
  have hd := hheard ▸ List.mem_cons_self
  have hd' := hheard ▸ List.mem_cons_of_mem (some d) List.mem_cons_self
  exact ⟨hheard, (mixed_together_iff _ r _ hd hd' (by decide +kernel) (by decide +kernel)
    List.mem_cons_self List.mem_cons_self rfl rfl rfl).mpr ⟨⟨2, rfl, rfl⟩, by decide +kernel⟩⟩

/-- Two consoles collide: both are sent to the listener as they are, in turn. -/
theorem consoles_interleave :
    let r := Router.after
      [.openConventional airband true, .setMember airband ⟨2, 13⟩ true 100,
        .keyAt airband ⟨0, 1⟩ 0, .keyAt airband ⟨0, 2⟩ 0]
    let history := [(Router.empty, Air.Event.opened 0 ⟨0, 1⟩), (Router.empty, .opened 1 ⟨0, 2⟩)]
    let d := Delivery.onAirband (.socket ⟨0, 1⟩) 0 .none [airbandLane 0]
    let d' := Delivery.onAirband (.socket ⟨0, 2⟩) 257 .none [airbandLane 257]
    r.amCollision airband = true ∧
      (Air.after Signal.passing history).heard r
        [(.samples 0 ([18, 0, 0, 0, 0, 0] ++ List.replicate 1920 0), 0),
          (.samples 1 ([18, 0, 0, 0, 0, 0] ++ List.replicate 1920 1), 0)] = [some d, some d'] ∧
      d.calls = [(⟨2, 13⟩, List.replicate 160 0)] ∧
      d'.calls = [(⟨2, 13⟩, List.replicate 160 257)] ∧
      ¬ MixedTogether d d' airbandListener airbandListener := by
  intro r history d d'
  refine ⟨by decide +kernel, by decide +kernel, by decide, by decide, ?_⟩
  rintro ⟨m, lanes, lanes', hmixing, -⟩
  cases hmixing

end RfxVoiced
