import RfxVoiced.Node.Authority
import RfxVoiced.Streams.KeyPaths

/-!
# What a step hands out

Whoever may open a socket is put on file, whoever has opened one is handed frames over it, and both
can be taken away again. Each plane does some of this, and all of them share the one table. This
file says, for each event of the node, what it can do to that table: to whom it hands which frames,
and for whom it puts a token on file.

## Main definitions

* `Streams.Told` — what a step that opens no socket does to the streams
* `Router.Carries` — a speaker is heard by a client on a route
* `Node.carries`, `Node.admits` — the audio that an event hands out, and the clients that it admits

## Main results

* `told_step` — every event but the opening of a socket
-/

namespace RfxVoiced

/-- Whether a frame may be handed out where `audio` says what may be sent. The greeting is for
sockets that open. -/
def Frame.Allowed (audio : RouteId → List Int16 → Prop) : Frame → Prop
  | .hello _ => False
  | .audio tg pcm => audio tg pcm
  | _ => True

theorem Frame.Allowed.ne_hello {audio : RouteId → List Int16 → Prop} {frame : Frame}
    (h : frame.Allowed audio) (rate : UInt32) : frame ≠ .hello rate := by
  rintro rfl
  exact h

namespace Streams

/-- A step that opens no socket. It hands frames to the senders that are there, and samples only as
`audio` says; no sender is new in its place; and tokens are put on file for those whom `admit`
names, and for no other. -/
structure Told (audio : ClientId → RouteId → List Int16 → Prop) (admits : ClientId → Prop)
    (s s' : Streams) : Prop where
  handed : ∃ new, s'.handed = new ++ s.handed ∧
    ∀ x ∈ new, s.sinks.lookup x.1 = some x.2.1 ∧ x.2.2.Allowed (audio x.1)
  sinks : ∀ client sender, s'.sinks.lookup client = some sender →
    s.sinks.lookup client = some sender
  tokens : ∀ token client, s'.clientFor token = some client →
    s.clientFor token = some client ∨ admits client

namespace Told

variable {audio audio' : ClientId → RouteId → List Int16 → Prop} {admits admits' : ClientId → Prop}
  {s s' s'' : Streams}

theorem refl (s : Streams) : Told audio admits s s :=
  ⟨⟨[], rfl, fun _ h => absurd h List.not_mem_nil⟩, fun _ _ h => h, fun _ _ h => Or.inl h⟩

theorem trans (h : Told audio admits s s') (h' : Told audio admits s' s'') :
    Told audio admits s s'' := by
  obtain ⟨new, hnew, hto⟩ := h.handed
  obtain ⟨new', hnew', hto'⟩ := h'.handed
  refine ⟨⟨new' ++ new, by rw [hnew', hnew, List.append_assoc], fun x hx => ?_⟩,
    fun client sender hsink => h.sinks client sender (h'.sinks client sender hsink),
    fun token client htoken => ?_⟩
  · rcases List.mem_append.mp hx with hx | hx
    · exact ⟨h.sinks _ _ (hto' x hx).1, (hto' x hx).2⟩
    · exact hto x hx
  · rcases h'.tokens token client htoken with hthen | hadmits
    · exact h.tokens token client hthen
    · exact Or.inr hadmits

/-- What a step does, it does where more is allowed. -/
theorem mono (h : Told audio admits s s') (haudio : ∀ c tg pcm, audio c tg pcm → audio' c tg pcm)
    (hadmits : ∀ c, admits c → admits' c) : Told audio' admits' s s' := by
  obtain ⟨new, hnew, hto⟩ := h.handed
  refine ⟨⟨new, hnew, fun x hx => ⟨(hto x hx).1, ?_⟩⟩, h.sinks,
    fun token client htoken => (h.tokens token client htoken).imp_right (hadmits client)⟩
  obtain ⟨client, sender, frame⟩ := x
  have hallowed := (hto _ hx).2
  cases frame with
  | audio tg pcm => exact haudio client tg pcm hallowed
  | _ => exact hallowed

theorem hand (s : Streams) (client : ClientId) {frame : Frame} (h : frame.Allowed (audio client)) :
    Told audio admits s (s.hand client frame) := by
  unfold Streams.hand
  cases hsink : s.sinks.lookup client with
  | none => exact refl s
  | some sender =>
    refine ⟨⟨[(client, sender, frame)], rfl, fun x hx => ?_⟩, fun _ _ h => h, fun _ _ h => Or.inl h⟩
    obtain rfl := List.mem_singleton.mp hx
    exact ⟨hsink, h⟩

theorem sendCall (s : Streams) (client : ClientId) (tg : RouteId) (keyed : Bool)
    (talker : String) : Told audio admits s (s.sendCall client tg keyed talker) :=
  hand s client trivial

theorem sendDeny (s : Streams) (client : ClientId) (tg : RouteId) (reason : String) :
    Told audio admits s (s.sendDeny client tg reason) :=
  hand s client trivial

theorem foldl {α : Type*} {f : Streams → α → Streams} {as : List α}
    (h : ∀ s, ∀ a ∈ as, Told audio admits s (f s a)) (s : Streams) :
    Told audio admits s (as.foldl f s) := by
  induction as generalizing s with
  | nil => exact refl s
  | cons a as ih =>
    have hfirst := h s a List.mem_cons_self
    exact hfirst.trans (ih (fun s b hb => h s b (List.mem_cons_of_mem a hb)) (f s a))

theorem sendCalls (s : Streams) (consoles : List ClientId) (tg : RouteId) (keyed : Bool)
    (talker : String) : Told audio admits s (s.sendCalls consoles tg keyed talker) :=
  foldl (fun s c _ => sendCall s c tg keyed talker) s

/-- Whoever is sent samples is listed, and nobody is sent none. -/
theorem sendLanes {tg : RouteId} {listeners : List Listener}
    (h : ∀ l ∈ listeners, ∀ pcm, pcm ≠ [] → audio l.client tg pcm) (s : Streams)
    (lanes : List (Dsp.LegKey × List Int16)) :
    Told audio admits s (s.sendLanes tg listeners lanes) := by
  apply foldl
  intro s lane _
  split
  · exact refl s
  next hsamples =>
    apply foldl
    intro s l hl
    split
    · exact hand s l.client (h l hl lane.2 (by simpa using hsamples))
    · exact refl s

/-- An announcement tells a console after another. -/
theorem announceCall (r : Router) (s : Streams) (tg : RouteId) (keyed : Bool) (talker : String) :
    Told audio admits s (Control.announceCall r s tg keyed talker) :=
  announceCall_induction s tg keyed talker r
    (fun s' c member h => h.trans (sendCall s' c member keyed talker)) (refl s)

theorem authorize (s : Streams) (token : String) {client : ClientId} (h : admits client) :
    Told audio admits s (s.authorize token client) := by
  refine ⟨⟨[], rfl, fun _ h => absurd h List.not_mem_nil⟩, fun _ _ h => h,
    fun token' client' htoken => ?_⟩
  rw [clientFor, Streams.authorize, Table.lookup_insert] at htoken
  split_ifs at htoken
  · exact Or.inr (Option.some.inj htoken ▸ h)
  · exact Or.inl htoken

/-- Sinks and tokens are taken away. -/
theorem of_withdrawn (hhanded : s'.handed = s.handed)
    (hsinks : ∀ client sender, s'.sinks.lookup client = some sender →
      s.sinks.lookup client = some sender)
    (htokens : ∀ token client, s'.clientFor token = some client →
      s.clientFor token = some client) : Told audio admits s s' :=
  ⟨⟨[], hhanded, fun _ h => absurd h List.not_mem_nil⟩, hsinks,
    fun token client h => Or.inl (htokens token client h)⟩

theorem erase (s : Streams) (client : ClientId) :
    Told audio admits s { s with sinks := s.sinks.erase client } := by
  refine of_withdrawn rfl (fun c sender h => ?_) fun _ _ h => h
  rw [Table.lookup_erase] at h
  exact (Option.ite_none_left_eq_some.mp h).2

theorem revokePlayer (s : Streams) (client : ClientId) :
    Told audio admits s (s.revokePlayer client) := by
  refine of_withdrawn rfl (fun c sender h => ?_) fun token c h => ?_
  · rw [Streams.revokePlayer, Table.lookup_erase] at h
    exact (Option.ite_none_left_eq_some.mp h).2
  · rw [clientFor, Streams.revokePlayer, Table.lookup_retain] at h
    exact (Option.filter_eq_some_iff.mp h).1

theorem dropServer (s : Streams) (server : UInt32) :
    Told audio admits s (s.dropServer server) := by
  refine of_withdrawn rfl (fun c sender h => ?_) fun token c h => ?_
  · rw [Streams.dropServer, Table.lookup_retain] at h
    exact (Option.filter_eq_some_iff.mp h).1
  · rw [clientFor, Streams.dropServer, Table.lookup_retain] at h
    exact (Option.filter_eq_some_iff.mp h).1

theorem ite {c : Prop} [Decidable c] {t e : Streams} (ht : Told audio admits s t)
    (he : Told audio admits s e) : Told audio admits s (if c then t else e) := by
  split
  · exact ht
  · exact he

end Told

end Streams

/-! ### The frames of a socket -/

namespace Router

/-- A speaker is heard by a client, on this route. -/
def Carries (r : Router) (speaker : ClientId) (tg : RouteId) (client : ClientId) : Prop :=
  ∃ listeners, r.destinationOf speaker = some (tg, listeners) ∧ ∃ l ∈ listeners, l.client = client

end Router

namespace Streams

variable {audio : ClientId → RouteId → List Int16 → Prop} {admits : ClientId → Prop}

theorem told_txKey (core : Core) (tg : RouteId) (client : ClientId) (now : Instant) :
    Told audio admits core.streams (txKey core tg client now).streams := by
  unfold txKey
  rcases core.router.keyAt tg client now with ⟨outcome, r⟩
  cases outcome with
  | error e => exact Told.sendDeny core.streams client tg e.text
  | ok keyed =>
    -- The unit that was cut off is told first, and then all that watch and the client itself.
    refine Told.trans ?_ (Told.sendCall _ client tg true "DISPATCH")
    refine Told.trans ?_ (Told.sendCalls _ _ tg true "DISPATCH")
    cases keyed with
    | preempted was => exact (Told.sendDeny _ was tg _).trans (Told.sendCall _ was tg false "")
    | _ => exact Told.refl core.streams

theorem told_txUnkey (core : Core) (tg : RouteId) (client : ClientId) :
    Told audio admits core.streams (txUnkey core tg client).streams :=
  Told.ite ((Told.sendCalls _ _ tg false "").trans (Told.sendCall _ client tg false ""))
    (Told.refl core.streams)

/-- Samples go to those by whom the client is heard. -/
theorem told_txAudio (vocoder : Dsp.Vocoder) (core : Core) (talker : Option vocoder.Talker)
    (client : ClientId) (samples : List UInt8) :
    Told (fun c tg pcm => pcm ≠ [] ∧ core.router.Carries client tg c) admits core.streams
      (txAudio vocoder core talker client samples).1.streams := by
  unfold txAudio
  split
  · exact Told.refl core.streams
  next live listeners hdest =>
    dsimp only
    split
    · exact Told.refl core.streams
    · split
      · exact Told.refl core.streams
      · split
        · exact Told.refl core.streams
        next lanes t' hpush =>
          exact Told.sendLanes (fun l hl _ hne => ⟨hne, listeners, hdest, l, hl, rfl⟩) _ lanes

theorem told_dropSocket (core : Core) (client : ClientId) :
    Told audio admits core.streams (dropSocket core client).streams :=
  Told.erase core.streams client

end Streams

/-! ### The messages -/

namespace Control

open Streams

variable {audio : ClientId → RouteId → List Int16 → Prop}

theorem told_dispatch (core : Core) (path : String) (body : Value) (server : UInt32)
    (now : Instant) :
    Told audio (fun c => path = "session.token" ∧ clientOf server body = some c) core.streams
      (dispatch core path body server now).2.streams := by
  unfold dispatch
  split
  · unfold convOpen
    split <;> exact Told.refl core.streams
  · unfold tgOpen
    split <;> exact Told.refl core.streams
  · unfold tgClose
    split <;> exact Told.refl core.streams
  · unfold tgMembers
    split <;> exact Told.refl core.streams
  · unfold tgMember
    split <;> exact Told.refl core.streams
  · unfold key
    split
    · split
      · exact Told.refl core.streams
      · exact Told.refl core.streams
      · exact Told.announceCall _ core.streams _ true _
      · exact Told.refl core.streams
    · exact Told.refl core.streams
  · unfold unkey
    split
    · exact Told.ite (Told.announceCall _ core.streams _ false "") (Told.refl core.streams)
    · exact Told.refl core.streams
  · unfold sessionToken
    split
    next client token hclient htoken =>
      split
      · exact Told.refl core.streams
      · exact Told.authorize core.streams token ⟨rfl, hclient⟩
    · exact Told.refl core.streams
  · unfold sessionDrop
    split
    · exact Told.revokePlayer core.streams _
    · exact Told.refl core.streams
  · exact Told.refl core.streams
  · exact Told.refl core.streams

theorem told_dispatchConsole (answerRecall : String → Value → Reply) (core : Core) (path : String)
    (body : Value) (minted : Option String) :
    Told audio (fun c => path = "console.attach" ∧ c = ⟨consoleServer, core.nextConsole⟩)
      core.streams (dispatchConsole answerRecall core path body minted).2.streams := by
  unfold dispatchConsole
  split
  · exact Told.refl core.streams
  · exact Told.refl core.streams
  · unfold patchesSet
    split <;> exact Told.refl core.streams
  · unfold consoleAttach
    cases minted with
    | none => exact Told.refl core.streams
    | some token => exact Told.authorize core.streams token ⟨rfl, rfl⟩
  · unfold consoleUpdate
    split <;> exact Told.refl core.streams
  · unfold consoleDetach
    split
    · exact Told.revokePlayer core.streams _
    · exact Told.refl core.streams
  · exact Told.refl core.streams

end Control

namespace Node

open Streams

variable {host : Host}

/-- The samples that an event may hand to a client: those of a socket whose client it
hears. -/
def carries (n : Node host) : Event → ClientId → RouteId → List Int16 → Prop
  | .frame sender _ _, client, tg, pcm =>
    pcm ≠ [] ∧ ∃ s, n.socket sender = some s ∧ n.router.Carries s.client tg client
  | _, _, _, _ => False

/-- The event puts a token on file for a client. -/
def admits (n : Node host) : Event → ClientId → Prop
  | .fleet server path body _, client =>
    path = "session.token" ∧ Control.clientOf server body = some client
  | .console path _ _, client =>
    path = "console.attach" ∧ client = ⟨consoleServer, n.nextConsole⟩
  | _, _ => False

/-- Every event but the opening of a socket hands out frames to the senders that are there. -/
theorem told_step (n : Node host) {e : Event} (he : ∀ token, e ≠ .connect token) :
    Told (n.carries e) (n.admits e) n.streams (n.step e).streams ∧
      (n.step e).nextSender = n.nextSender := by
  cases e with
  | fleet server path body now => exact ⟨Control.told_dispatch n.toCore path body server now, rfl⟩
  | console path body minted =>
    exact ⟨Control.told_dispatchConsole host.answerRecall n.toCore path body minted, rfl⟩
  | detach server => exact ⟨Told.dropServer n.streams server, rfl⟩
  | connect token => exact absurd rfl (he token)
  | frame sender buf now =>
    simp only [step]
    split
    · exact ⟨Told.refl n.streams, rfl⟩
    next s hsocket =>
      unfold frame
      split
      · exact ⟨Told.refl n.streams, rfl⟩
      next kind tg hheader =>
        split_ifs
        · exact ⟨told_txKey n.toCore tg s.client now, rfl⟩
        · exact ⟨told_txUnkey n.toCore tg s.client, rfl⟩
        · have htold : Told _ (n.admits (.frame sender buf now)) _ _ :=
            told_txAudio host.vocoder n.toCore s.talker s.client (buf.drop audioHeader)
          exact ⟨htold.mono (fun c tg pcm h => ⟨h.1, s, hsocket, h.2⟩) fun _ h => h, rfl⟩
        · exact ⟨Told.refl n.streams, rfl⟩
  | close sender =>
    simp only [step]
    split
    · exact ⟨Told.refl n.streams, rfl⟩
    next s hsocket => exact ⟨told_dropSocket n.toCore s.client, rfl⟩
  | _ => exact ⟨Told.refl n.streams, rfl⟩

end Node

end RfxVoiced
