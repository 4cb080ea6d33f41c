import RfxVoiced.Mumble.Tap
import RfxVoiced.Router.Step

/-!
# What is sent, and what is recorded

While nobody is colliding, each listener is sent its own rendering of a packet, once, and nobody
else is sent anything. What is recorded is the cleanest rendering on the speaker's own side: so a
packet that is heard only across a patch is not recorded.

## Main definitions

* `Delivery.OwnSide` — a lane on the speaker's own side

## Main results

* `each_listener_sent_once` — whom a packet is sent to, and how often
* `sent_at_most_once` — during a collision too, a listener is sent one stream
* `recorded_iff_heard_on_own_side` — when a packet is recorded
* `not_recorded_across_a_patch` — a packet that goes out and is not recorded
-/

namespace RfxVoiced

open Dsp (LegKey keyOf Signal)

variable {S : Signal} {r : Router} {d : Delivery} {speaker : ClientId}

/-! ### The lanes of a packet -/

namespace Delivery

theorem Routed.listeners_eq (h : d.Routed S r speaker) :
    d.listeners = r.listenersAcross d.tg (some speaker) := by
  obtain ⟨tg, -, heq⟩ := Option.map_eq_some_iff.mp h.destination
  obtain ⟨htg, hlisteners⟩ := Prod.mk.inj heq
  rw [← htg]
  exact hlisteners.symm

theorem Routed.nodup_listeners (h : d.Routed S r speaker) :
    (d.listeners.map Listener.client).Nodup := by
  rw [h.listeners_eq]
  exact Router.nodup_listenersAcross r d.tg (some speaker)

theorem Routed.keys_lanes (h : d.Routed S r speaker) :
    d.lanes.map Prod.fst = Dsp.renderings (d.listeners.map Listener.sink) := by
  obtain ⟨t, wide, hlanes⟩ := h.rendered
  rw [hlanes]
  exact t.keys_pushWide wide d.src (d.listeners.map Listener.sink)

theorem Routed.nodup_lanes (h : d.Routed S r speaker) : (d.lanes.map Prod.fst).Nodup := by
  rw [h.keys_lanes]
  exact Dsp.nodup_renderings (d.listeners.map Listener.sink)

/-- A rendering is made exactly when somebody who is listening can hear it. -/
theorem Routed.isSome_lookup_iff (h : d.Routed S r speaker) (k : LegKey) :
    (d.lanes.lookup k).isSome = true ↔
      ∃ l ∈ d.listeners, l.sink.audible = true ∧ keyOf l.sink = k := by
  have hmem : (d.lanes.lookup k).isSome = true ↔ k ∈ d.lanes.map Prod.fst := by
    rw [List.lookup_isSome_iff, List.mem_map]
    exact exists_congr fun x => and_congr_right fun _ => by rw [beq_iff_eq, eq_comm]
  rw [hmem, h.keys_lanes, Dsp.mem_renderings]
  simp only [List.mem_map, exists_exists_and_eq_and]

end Delivery

/-- Whether a sink is below the threshold shows in its key. -/
theorem Dsp.audible_eq_of_keyOf {s s' : Dsp.Sink} (h : keyOf s = keyOf s') :
    s.audible = s'.audible := by
  simp only [keyOf, Prod.mk.injEq] at h
  rw [Dsp.Sink.audible, Dsp.Sink.audible, h.1, h.2.1]

/-- Without a collision, what is held of an earlier one goes out ahead of the packet. -/
theorem Air.Mixes.out_eq {a a' : Air S} (h : a.Mixes r d a')
    (hcollides : r.amCollision d.tg = false) : d.out = d.mixing.held ++ d.lanes := by
  cases h with
  | socket _ hmixing hout =>
    rw [hout, hmixing]
    rfl
  | collision _ _ _ htrue =>
    rw [hcollides] at htrue
    cases htrue
  | clear _ _ _ hout => exact hout

/-- Without a mixer that is left over, the packet goes out as the chain made it. -/
theorem Air.Mixes.out_eq_lanes {a a' : Air S} (h : a.Mixes r d a')
    (hcollides : r.amCollision d.tg = false)
    (hleft : ∀ server, d.origin.tapped = some server → a.mixerAt server d.tg = none) :
    d.out = d.lanes := by
  have hout := h.out_eq hcollides
  cases h with
  | socket _ _ hlanes => exact hlanes
  | collision _ _ _ htrue =>
    rw [hcollides] at htrue
    cases htrue
  | clear server htapped _ _ hnone =>
    rw [hout, hnone.mpr (hleft server htapped)]
    rfl

theorem Air.routed_of_hear {a : Air S} {packet : Packet} {now : Instant}
    (hd : (a.hear r packet now).1 = some d) :
    ∃ speaker, d.Routed S r speaker ∧ a.Mixes r d (a.hear r packet now).2 := by
  rcases a.hear_cases r packet now with ⟨hnone, -⟩ | ⟨d', speaker, hd', hrouted, hmixes⟩
  · rw [hnone] at hd
    cases hd
  · obtain rfl := Option.some.inj (hd'.symm.trans hd)
    exact ⟨speaker, hrouted, hmixes⟩

/-- Where nothing is held of an earlier collision, no lane goes out twice. -/
theorem Air.Mixes.nodup_out {a a' : Air S} (h : a.Mixes r d a') (hrouted : d.Routed S r speaker)
    (hheld : d.mixing.held = []) : (d.out.map Prod.fst).Nodup := by
  have hlanes := hrouted.nodup_lanes
  cases h with
  | socket _ _ hout =>
    rw [hout]
    exact hlanes
  | collision _ _ _ _ _ _ hout => exact hout hlanes
  | clear _ _ _ hout =>
    rw [hout, hheld, List.nil_append]
    exact hlanes

/-- Collision or not, a listener is sent one stream: of each packet one lane at most, unless
something is left over from a collision that has just ended. -/
theorem Air.sent_at_most_once (a : Air S) (r : Router) (packet : Packet) (now : Instant)
    {d : Delivery} (hd : (a.hear r packet now).1 = some d) (hheld : d.mixing.held = [])
    {l : Listener} (hl : l ∈ d.listeners) :
    (d.calls.filter fun call => call.1 = l.client).length ≤ 1 := by
  obtain ⟨speaker, hrouted, hmixes⟩ := Air.routed_of_hear hd
  rw [calls_of_listener (hmixes.nodup_out hrouted hheld) hrouted.nodup_listeners hl]
  cases ((d.out.lookup (keyOf l.sink)).filter (· ≠ [])).map fun pcm => (l.client, pcm) with
  | none => exact Nat.zero_le 1
  | some call => exact le_refl 1

/-- **Each entitled listener gets each packet once.** While nobody collides on the route and no
mixer is left over, a listener that is not below its threshold is sent its own rendering of the
packet, once, when there is anything in it. Nobody else is sent anything, the speaker included. -/
theorem Air.each_listener_sent_once (a : Air S) (r : Router) (packet : Packet) (now : Instant)
    {d : Delivery} (hd : (a.hear r packet now).1 = some d) (hcollides : r.amCollision d.tg = false)
    (hleft : ∀ server, d.origin.tapped = some server → a.mixerAt server d.tg = none) :
    ∃ speaker, d.Routed S r speaker ∧
      (∀ core : Core, (d.deliver core).streams =
        d.calls.foldl (fun s call => s.sendPcm call.1 d.tg call.2) core.streams) ∧
      (∀ l ∈ d.listeners, l.sink.audible = true →
        ∃ pcm, d.lanes.lookup (keyOf l.sink) = some pcm ∧
          d.calls.filter (fun call => call.1 = l.client) =
            if pcm = [] then [] else [(l.client, pcm)]) ∧
      (∀ l ∈ d.listeners, l.sink.audible = false →
        d.calls.filter (fun call => call.1 = l.client) = []) ∧
      ∀ call ∈ d.calls, call.1 ≠ speaker ∧ ∃ l ∈ d.listeners, l.client = call.1 := by
  obtain ⟨speaker, hrouted, hmixes⟩ := Air.routed_of_hear hd
  have hout := hmixes.out_eq_lanes hcollides hleft
  have hkeys : (d.out.map Prod.fst).Nodup := by
    rw [hout]
    exact hrouted.nodup_lanes
  refine ⟨speaker, hrouted, fun core => sendLanes_eq_calls d core.streams, fun l hl haudible => ?_,
    fun l hl hsilent => ?_, fun call hcall => ?_⟩
  · obtain ⟨pcm, hpcm⟩ := Option.isSome_iff_exists.mp
      ((hrouted.isSome_lookup_iff (keyOf l.sink)).mpr ⟨l, hl, haudible, rfl⟩)
    refine ⟨pcm, hpcm, ?_⟩
    rw [calls_of_listener hkeys hrouted.nodup_listeners hl, hout, hpcm]
    by_cases hempty : pcm = []
    · simp [hempty]
    · simp [hempty, Option.filter]
  · -- Nobody who shares the key is above the threshold, so the rendering is not made.
    have habsent : d.lanes.lookup (keyOf l.sink) = none := by
      rw [← Option.not_isSome_iff_eq_none, hrouted.isSome_lookup_iff]
      rintro ⟨l', -, haudible, hkey⟩
      rw [Dsp.audible_eq_of_keyOf hkey, hsilent] at haudible
      cases haudible
    rw [calls_of_listener hkeys hrouted.nodup_listeners hl, hout, habsent]
    rfl
  · obtain ⟨l, hl, hclient⟩ := mem_listeners_of_calls hcall
    refine ⟨?_, l, hl, hclient⟩
    rintro heq
    rw [hrouted.listeners_eq] at hl
    exact Router.ne_of_mem_listenersAcross hl (congrArg some (hclient.trans heq))

/-- A field unit on a patched talkgroup: one listens well, one is below the threshold, and one is
across the patch. -/
def Router.patchedCall : Router := after
  [.setMember 1 ⟨2, 11⟩ true 100, .setMember 1 ⟨2, 12⟩ true 3, .setMember 2 ⟨2, 13⟩ true 80,
    .setPatches [[1, 2]], .bind ⟨2, 5⟩ ['[', '1', '0', ']'], .keyAt 1 ⟨2, 10⟩ 0]

/-- A tap that has heard nothing yet, and no sockets. -/
def Air.oneTap : Air Signal.passing where
  taps := (∅ : Table UInt32 (Mumble.Tap Signal.passing)).insert 2 ⟨some 9, ∅, ∅⟩
  sockets := ∅
  nextMix := 0

/-- What goes out of one packet of that unit. -/
def Delivery.patchedPacket : Delivery :=
  let pcm := List.replicate 160 42
  let lanes := [((.p25, 100, false), pcm), ((.p25, 80, true), pcm)]
  { origin := .tap ⟨2, 5⟩
    tg := 1
    src := ⟨.p25, 100, false⟩
    listeners := [⟨⟨2, 12⟩, 3, .p25, false⟩, ⟨⟨2, 11⟩, 100, .p25, false⟩, ⟨⟨2, 13⟩, 80, .p25, true⟩]
    lanes := lanes
    mixing := .none
    out := lanes }

theorem Air.hear_patchedCall :
    (Air.oneTap.hear Router.patchedCall (.voice 2 [0x80, 5, 1, 1, 42]) 0).1 =
      some Delivery.patchedPacket := by
  decide +kernel

/-- One packet of that unit is sent to the two who can hear it. -/
theorem Air.sent_once_across_a_patch :
    ∃ speaker, Delivery.patchedPacket.Routed Signal.passing Router.patchedCall speaker ∧
      Delivery.patchedPacket.calls.map Prod.fst = [⟨2, 11⟩, ⟨2, 13⟩] ∧
      ∀ call ∈ Delivery.patchedPacket.calls,
        call.1 ≠ speaker ∧ ∃ l ∈ Delivery.patchedPacket.listeners, l.client = call.1 := by
  obtain ⟨speaker, hrouted, -, -, -, hothers⟩ := Air.oneTap.each_listener_sent_once
    Router.patchedCall (.voice 2 [0x80, 5, 1, 1, 42]) 0 Air.hear_patchedCall (by decide) (by
      rintro server hserver
      obtain rfl := Option.some.inj hserver
      rfl)
  exact ⟨speaker, hrouted, by decide, hothers⟩

/-! ### What is recorded -/

namespace Streams

/-- The cleaner of what was chosen so far and one more lane: the later, when they are equally
clean. -/
def cleaner (best : Option (LegKey × List Int16)) (x : LegKey × List Int16) :
    Option (LegKey × List Int16) :=
  match best with
  | none => some x
  | some b => if b.1.2.1 ≤ x.1.2.1 then some x else some b

theorem foldl_cleaner (lanes : List (LegKey × List Int16)) (best : Option (LegKey × List Int16)) :
    (lanes.foldl cleaner best = none → best = none ∧ lanes = []) ∧
      ∀ z, lanes.foldl cleaner best = some z →
        (z ∈ lanes ∨ best = some z ∧ ∀ x ∈ lanes, x.1.2.1 < z.1.2.1) ∧
          (∀ x ∈ lanes, x.1.2.1 ≤ z.1.2.1) ∧ ∀ b, best = some b → b.1.2.1 ≤ z.1.2.1 := by
  induction lanes generalizing best with
  | nil =>
    refine ⟨fun h => ⟨h, rfl⟩, fun z hz => ⟨Or.inr ⟨hz, by simp⟩, by simp, ?_⟩⟩
    rintro b rfl
    obtain rfl := Option.some.inj hz
    exact UInt8.le_refl _
  | cons x lanes ih =>
    obtain ⟨hnone, hsome⟩ := ih (cleaner best x)
    -- What has been chosen after one more lane is that lane, or what was chosen before it.
    have hchosen : ∃ y, cleaner best x = some y ∧ x.1.2.1 ≤ y.1.2.1 ∧
        (∀ b, best = some b → b.1.2.1 ≤ y.1.2.1) ∧
        (y = x ∨ best = some y ∧ x.1.2.1 < y.1.2.1) := by
      cases best with
      | none => exact ⟨x, rfl, UInt8.le_refl _, by simp, Or.inl rfl⟩
      | some b =>
        by_cases hle : b.1.2.1 ≤ x.1.2.1
        · refine ⟨x, if_pos hle, UInt8.le_refl _, ?_, Or.inl rfl⟩
          rintro b' hb'
          rwa [← Option.some.inj hb']
        · have hlt : x.1.2.1 < b.1.2.1 := UInt8.not_le.mp hle
          refine ⟨b, if_neg hle, UInt8.le_of_lt hlt, ?_, Or.inr ⟨rfl, hlt⟩⟩
          rintro b' hb'
          obtain rfl := Option.some.inj hb'
          exact UInt8.le_refl _
    obtain ⟨y, hy, hxy, hbest, hwhich⟩ := hchosen
    constructor
    · intro h
      rw [(hnone h).1] at hy
      cases hy
    · intro z hz
      obtain ⟨hmem, hmax, hfrom⟩ := hsome z hz
      have hyz := hfrom y hy
      refine ⟨?_, ?_, fun b hb => UInt8.le_trans (hbest b hb) hyz⟩
      · rcases hmem with hmem | ⟨hkept, hlt⟩
        · exact Or.inl (List.mem_cons_of_mem x hmem)
        · obtain rfl := Option.some.inj (hy.symm.trans hkept)
          rcases hwhich with rfl | ⟨hb, hless⟩
          · exact Or.inl List.mem_cons_self
          · refine Or.inr ⟨hb, fun x' hx' => ?_⟩
            rcases List.mem_cons.mp hx' with rfl | hx'
            · exact hless
            · exact hlt x' hx'
      · intro x' hx'
        rcases List.mem_cons.mp hx' with rfl | hx'
        · exact UInt8.le_trans hxy hyz
        · exact hmax x' hx'

end Streams

namespace Delivery

/-- A lane on the speaker's own side of any patch, in the speaker's own mode. -/
def OwnSide (d : Delivery) (lane : LegKey × List Int16) : Prop :=
  lane.1.2.2 = false ∧ lane.1.1 = d.src.mode

/-- The lane that is pushed to the recording, if one is. -/
def pushed (d : Delivery) : Option (LegKey × List Int16) := Streams.recordedLane d.src d.out

/-- Where anything goes out on the speaker's own side, the cleanest of it is pushed; and what goes
out later is preferred to what goes out first. -/
theorem pushed_spec {first later : List (LegKey × List Int16)} (hout : d.out = first ++ later) :
    (d.pushed = none → ∀ x ∈ d.out, ¬ d.OwnSide x) ∧
      ∀ z, d.pushed = some z → z ∈ d.out ∧ d.OwnSide z ∧
        (∀ x ∈ d.out, d.OwnSide x → x.1.2.1 ≤ z.1.2.1) ∧
        (z ∈ later ∨ ∀ x ∈ later, d.OwnSide x → x.1.2.1 < z.1.2.1) := by
  have hfilter : ∀ (lanes : List (LegKey × List Int16)) (x : LegKey × List Int16),
      x ∈ (lanes.filter fun x => !x.1.2.2 && x.1.1 = d.src.mode) ↔ x ∈ lanes ∧ d.OwnSide x := by
    intro lanes x
    rw [List.mem_filter, OwnSide]
    simp
  obtain ⟨hnone, hsome⟩ := Streams.foldl_cleaner
    (d.out.filter fun x => !x.1.2.2 && x.1.1 = d.src.mode) none
  constructor
  · intro h x hx hown
    have hmem := (hfilter d.out x).mpr ⟨hx, hown⟩
    rw [(hnone h).2] at hmem
    exact absurd hmem List.not_mem_nil
  · intro z hz
    obtain ⟨hmem, hmax, -⟩ := hsome z hz
    obtain ⟨hzout, hzown⟩ := (hfilter d.out z).mp (hmem.resolve_right fun h => by simp at h)
    refine ⟨hzout, hzown, fun x hx hown => hmax x ((hfilter d.out x).mpr ⟨hx, hown⟩), ?_⟩
    -- What goes out first has been gone through when what goes out later is looked at.
    have hz : (later.filter fun x => !x.1.2.2 && x.1.1 = d.src.mode).foldl Streams.cleaner
        ((first.filter fun x => !x.1.2.2 && x.1.1 = d.src.mode).foldl Streams.cleaner none) =
        some z := by
      rw [← List.foldl_append, ← List.filter_append, ← hout]
      exact hz
    obtain ⟨hlater, -, -⟩ := (Streams.foldl_cleaner _ _).2 z hz
    rcases hlater with hlater | ⟨-, hless⟩
    · exact Or.inl ((hfilter later z).mp hlater).1
    · exact Or.inr fun x hx hown => hless x ((hfilter later x).mpr ⟨hx, hown⟩)

/-- On the speaker's own side everybody is served in the speaker's own mode. -/
theorem Routed.mode_of_own_side (h : d.Routed S r speaker) {l : Listener} (hl : l ∈ d.listeners)
    (hown : l.bridged = false) : l.mode = d.src.mode := by
  rw [h.listeners_eq] at hl
  obtain ⟨t, -, route, m, hroute, -, -, -, -, hmode, hbridged⟩ := Router.mem_listenersAcross hl
  rw [hown] at hbridged
  have ht : t = d.tg := by simpa using hbridged.symm
  rw [ht] at hroute
  rw [h.source, Router.sourceSink, hroute, hmode]
  rfl

/-- Each lane is asked for by somebody who is listening. -/
theorem Routed.exists_listener (h : d.Routed S r speaker) {x : LegKey × List Int16}
    (hx : x ∈ d.lanes) : ∃ l ∈ d.listeners, l.sink.audible = true ∧ keyOf l.sink = x.1 := by
  have hkey := List.mem_map_of_mem (f := Prod.fst) hx
  rw [h.keys_lanes, Dsp.mem_renderings] at hkey
  obtain ⟨s, hs, haudible, hk⟩ := hkey
  obtain ⟨l, hl, rfl⟩ := List.mem_map.mp hs
  exact ⟨l, hl, haudible, hk⟩

/-- All lanes of a packet have something in them, or none has. -/
theorem Routed.ne_nil (h : d.Routed S r speaker) {x y : LegKey × List Int16} (hx : x ∈ d.lanes)
    (hy : y ∈ d.lanes) (hne : x.2 ≠ []) : y.2 ≠ [] := by
  obtain ⟨t, wide, hlanes⟩ := h.rendered
  rw [hlanes] at hx hy
  exact t.pushWide_nonempty wide d.src (d.listeners.map Listener.sink) hx hy hne

/-- A listener is sent whatever goes out under its key. -/
theorem mem_calls {l : Listener} (hl : l ∈ d.listeners) {x : LegKey × List Int16}
    (hx : x ∈ d.out) (hkey : keyOf l.sink = x.1) (hne : x.2 ≠ []) : (l.client, x.2) ∈ d.calls := by
  refine List.mem_flatMap.mpr ⟨x, hx, ?_⟩
  rw [if_neg (by simpa using hne)]
  exact List.mem_map.mpr ⟨l, List.mem_filter.mpr ⟨hl, by simpa using hkey⟩, rfl⟩

/-- A lane that is pushed with something in it makes an open recording longer by that much. -/
theorem samples_of_pushed {x : LegKey × List Int16} (hx : d.pushed = some x) (hne : x.2 ≠ [])
    {core : Core} {call : Recording} (hopen : core.recorder.calls.lookup d.tg = some call) :
    (d.deliver core).recorder.calls.lookup d.tg =
      some { call with samples := call.samples + x.2.length } := by
  have hrecorded : d.recorded = some x.2 := by
    have hbest : Streams.recordedLane d.src d.out = some x := hx
    rw [recorded, hbest]
    cases d.origin with
    | tap session => rfl
    | socket client => simp [hne, Option.filter]
  rw [deliver, hrecorded, Option.elim_some, Active.push, Table.lookup_modify_self, hopen]
  rfl

end Delivery

/-- **What goes out on the speaker's own side is recorded.** While nobody collides on the route, a
packet is recorded exactly when somebody on the speaker's own side of any patch is sent something of
it, and nothing cleaner is left over from a collision. -/
theorem Air.recorded_iff_heard_on_own_side (a : Air S) (r : Router) (packet : Packet)
    (now : Instant) {d : Delivery} (hd : (a.hear r packet now).1 = some d)
    (hcollides : r.amCollision d.tg = false) {core : Core} {call : Recording}
    (hopen : core.recorder.calls.lookup d.tg = some call) :
    (∃ x ∈ d.lanes, x.2 ≠ [] ∧ d.pushed = some x ∧
      (d.deliver core).recorder.calls.lookup d.tg =
        some { call with samples := call.samples + x.2.length }) ↔
      (∃ l ∈ d.listeners, l.bridged = false ∧
        ∃ x ∈ d.lanes, x.1 = keyOf l.sink ∧ x.2 ≠ [] ∧ (l.client, x.2) ∈ d.calls) ∧
      ∀ y ∈ d.mixing.held, d.OwnSide y → ∃ x ∈ d.lanes, d.OwnSide x ∧ y.1.2.1 ≤ x.1.2.1 := by
  obtain ⟨speaker, hrouted, hmixes⟩ := Air.routed_of_hear hd
  have hout := hmixes.out_eq hcollides
  obtain ⟨hnone, hsome⟩ := d.pushed_spec hout
  have hlanes : ∀ x ∈ d.lanes, x ∈ d.out := fun x hx => by
    rw [hout]
    exact List.mem_append_right _ hx
  constructor
  · -- What is recorded is a lane of the packet, and every lane has a listener.
    rintro ⟨x, hx, hne, hpushed, -⟩
    obtain ⟨-, hown, hmax, -⟩ := hsome x hpushed
    obtain ⟨l, hl, -, hkey⟩ := hrouted.exists_listener hx
    refine ⟨⟨l, hl, ?_, x, hx, hkey.symm, hne, Delivery.mem_calls hl (hlanes x hx) hkey hne⟩, ?_⟩
    · rw [← hown.1, ← hkey]
      rfl
    · intro y hy hyown
      refine ⟨x, hx, hown, hmax y ?_ hyown⟩
      rw [hout]
      exact List.mem_append_left _ hy
  · -- The lane of that listener might be recorded, so that something is, and it is of this packet.
    rintro ⟨⟨l, hl, hnear, x, hx, hkey, hne, -⟩, hcleanest⟩
    have hxown : d.OwnSide x := by
      rw [Delivery.OwnSide, hkey]
      exact ⟨hnear, hrouted.mode_of_own_side hl hnear⟩
    cases hpushed : d.pushed with
    | none => exact absurd hxown (hnone hpushed x (hlanes x hx))
    | some z =>
      obtain ⟨hz, hzown, -, hlater⟩ := hsome z hpushed
      have hzlanes : z ∈ d.lanes := by
        rcases hlater with hlater | hless
        · exact hlater
        · rw [hout] at hz
          rcases List.mem_append.mp hz with hheld | hz
          · -- A lane that is left over was chosen, so it is cleaner than all of the packet.
            obtain ⟨y, hy, hyown, hle⟩ := hcleanest z hheld hzown
            exact absurd (hless y hy hyown) (UInt8.not_lt.mpr hle)
          · exact hz
      have hzne := hrouted.ne_nil hx hzlanes hne
      exact ⟨z, hzlanes, hzne, rfl, Delivery.samples_of_pushed hpushed hzne hopen⟩

/-- A recording that has just been opened on talkgroup 1, and an idle node otherwise. -/
def Core.recordingOne (r : Router) : Core where
  router := r
  streams := Streams.empty
  recorder := ⟨true, (∅ : Table _ _).insert 1 ⟨1, 2, 10, "10", 0, Dsp.rate⟩⟩
  nextConsole := 1

/-- The packet of the field unit on the patched talkgroup is recorded. -/
theorem Air.recorded_near_a_patch :
    ∃ x ∈ Delivery.patchedPacket.lanes, x.2 ≠ [] ∧ Delivery.patchedPacket.pushed = some x ∧
      (Delivery.patchedPacket.deliver (Core.recordingOne Router.patchedCall)).recorder.calls.lookup
        1 = some ⟨1, 2, 10, "10", x.2.length, Dsp.rate⟩ := by
  have hopen : (Core.recordingOne Router.patchedCall).recorder.calls.lookup
      Delivery.patchedPacket.tg = some ⟨1, 2, 10, "10", 0, Dsp.rate⟩ := rfl
  have hiff := Air.oneTap.recorded_iff_heard_on_own_side Router.patchedCall
    (.voice 2 [0x80, 5, 1, 1, 42]) 0 Air.hear_patchedCall (by decide) hopen
  obtain ⟨x, hx, hne, hpushed, hsamples⟩ := hiff.mpr
    ⟨⟨⟨⟨2, 11⟩, 100, .p25, false⟩, by decide, rfl, ((.p25, 100, false), List.replicate 160 42),
      by decide, by decide, by decide, by decide⟩, by simp [Delivery.patchedPacket, Mixing.held]⟩
  refine ⟨x, hx, hne, hpushed, ?_⟩
  rw [Nat.zero_add] at hsamples
  exact hsamples

/-- A packet of a console goes out across a patch, with nobody listening on the console's own side:
it is heard, and the recording of its call, which is open, gets nothing of it. -/
theorem Air.not_recorded_across_a_patch :
    let r := Router.after [.openRoute 1 false, .setMember 2 ⟨2, 13⟩ true 80, .setPatches [[1, 2]],
      .keyAt 1 ⟨0, 1⟩ 0]
    let a : Air Signal.passing :=
      { taps := ∅, sockets := (∅ : Table Sender _).insert 0 (⟨0, 1⟩, none), nextMix := 0 }
    let sent := (a.hear r (.samples 0 ([18, 0, 0, 0, 0, 1] ++ List.replicate 1920 0)) 0).1
    (sent.map fun d => (d.tg, r.amCollision d.tg, d.calls)) =
        some (1, false, [(⟨2, 13⟩, List.replicate 160 0)]) ∧
      (sent.map fun d => (d.recorded,
        ((d.deliver (Core.recordingOne r)).recorder.calls.lookup 1).map Recording.samples)) =
        some (none, some 0) := by
  decide +kernel

end RfxVoiced
