import RfxVoiced.Mumble.Session

/-!
# A connection and its bytes

The loop of a connection waits for the next bytes and for the next sweep, and does whichever comes
first; a header that is still short when a sweep comes is gone on with afterwards. So the bytes of a
connection reach the tables message by message, with any number of sweeps in between.

## Main definitions

* `turns` — the turns of the loop, from what arrives
* `Session.Agree` — connections that have been told the same

## Main results

* `messages_turns` — the messages among the turns are those of the reader
* `Agree.took`, `agree_run` — sweeps, the time and the routing table have no part in what a
  connection is told
* `told_by_bytes` — it is told what its bytes say, however they are cut
-/

namespace RfxVoiced.Mumble

open Dsp (Signal)

variable {S : Signal}

/-! ### The loop -/

/-- The turns of the loop, and why the connection is given up. -/
def turns (h : Header) (rd : Arrivals) : List Turn × Stop :=
  match rd with
  | none :: rd =>
    let rest := turns h rd
    (.sweep :: rest.1, rest.2)
  | rd =>
    match _hread : h.readFrom rd with
    | (.error stop, _, _) => ([], stop)
    | (.ok none, h', rd') => turns h' rd'
    | (.ok (some (kind, length)), h', rd') =>
      match _hbody : readExact length rd' with
      | none => ([], .shortRead)
      | some (body, rd'') =>
        let rest := turns h' rd''
        (.message (kind, body) :: rest.1, rest.2)
termination_by rd.size
decreasing_by
  · simp [Arrivals.size]
  · exact Header.size_readFrom _hread
  · obtain ⟨-, hbytes, hle⟩ := readExact_spec _hbody
    have hlen := congrArg List.length hbytes
    rw [List.length_append] at hlen
    have hlt := Header.size_readFrom _hread
    unfold Arrivals.size at hlt ⊢
    omega

/-- The messages among the turns. -/
def messages (ts : List Turn) : List Message :=
  ts.filterMap fun t =>
    match t with
    | .sweep => none
    | .message m => some m

/-- **The messages among the turns are those of the reader**, and the turns end where it does. -/
theorem messages_turns (h : Header) (rd : Arrivals) :
    messages (turns h rd).1 = (readLoop h rd).1 ∧ (turns h rd).2 = (readLoop h rd).2.1 := by
  fun_induction turns h rd with
  | case1 h rd rest ih =>
    rw [readLoop]
    exact ih
  | case2 h rd htick stop h' left hread =>
    rw [readLoop_of_error htick hread]
    exact ⟨rfl, rfl⟩
  | case3 h rd htick h' rd' hread ih =>
    rw [readLoop_of_short htick hread]
    exact ih
  | case4 h rd htick kind length h' rd' hread hbody =>
    rw [readLoop_of_header htick hread, hbody]
    exact ⟨rfl, rfl⟩
  | case5 h rd htick kind length h' rd' hread body rd'' hbody rest ih =>
    rw [readLoop_of_header htick hread, hbody]
    exact ⟨congrArg (List.cons (kind, body)) ih.1, ih.2⟩

/-! ### What a connection is told -/

namespace Session

/-- Two connections that have been told the same, and have asked for the same. -/
structure Agree (s s' : Session S) : Prop where
  me : s'.me = s.me
  users : s'.users = s.users
  known : s'.knownChannels = s.knownChannels
  listening : s'.listening = s.listening
  asks : s'.asks = s.asks

namespace Agree

variable {s s' t t' : Session S} {server : UInt32} {writing writing' : Bool}

theorem refl (s : Session S) : Agree s s := ⟨rfl, rfl, rfl, rfl, rfl⟩

theorem symm (h : Agree s s') : Agree s' s :=
  ⟨h.me.symm, h.users.symm, h.known.symm, h.listening.symm, h.asks.symm⟩

theorem trans (h : Agree s t) (h' : Agree t t') : Agree s t' :=
  ⟨h'.me.trans h.me, h'.users.trans h.users, h'.known.trans h.known,
    h'.listening.trans h.listening, h'.asks.trans h.asks⟩

theorem sweep (s : Session S) (now : Instant) : Agree s (s.sweep now) := ⟨rfl, rfl, rfl, rfl, rfl⟩

theorem hear (s : Session S) (r : Router) (body : List UInt8) (now : Instant) (fresh : ℕ) :
    Agree s (s.hear server r body now fresh).2 := by
  obtain ⟨tap, heard, lines, hme, heq⟩ := s.hear_frame server r body now fresh
  rw [heq]
  exact ⟨hme, rfl, rfl, rfl, rfl⟩

theorem ask (h : Agree s s') {session : UInt32} {channels : List UInt32}
    (ht : s.ask writing session channels = .ok t)
    (ht' : s'.ask writing' session channels = .ok t') : Agree t t' := by
  unfold Session.ask at ht ht'
  split_ifs at ht ht'
  rw [← Except.ok.inj ht, ← Except.ok.inj ht']
  exact ⟨h.me, h.users, h.known, by rw [h.listening], by rw [h.asks]⟩

theorem sync (h : Agree s s') {me : Option UInt32} (ht : s.sync writing me = .ok t)
    (ht' : s'.sync writing' me = .ok t') : Agree t t' := by
  have hme : Agree { s with me := me } { s' with me := me } :=
    ⟨rfl, h.users, h.known, h.listening, h.asks⟩
  cases me with
  | none => exact Except.ok.inj ht ▸ Except.ok.inj ht' ▸ hme
  | some session =>
    have hpending : ({ s' with me := some session } : Session S).pending =
        ({ s with me := some session } : Session S).pending := by
      simp only [pending, h.known, h.listening]
    simp only [Session.sync, hpending] at ht ht'
    split_ifs at ht ht'
    · exact Except.ok.inj ht ▸ Except.ok.inj ht' ▸ hme
    · exact hme.ask ht ht'

theorem channel (h : Agree s s') {id : UInt32} (ht : s.channel writing id = .ok t)
    (ht' : s'.channel writing' id = .ok t') : Agree t t' := by
  unfold Session.channel at ht ht'
  have hknown : Agree
      (if id ∈ s.knownChannels then s else { s with knownChannels := s.knownChannels ++ [id] })
      (if id ∈ s'.knownChannels then s'
        else { s' with knownChannels := s'.knownChannels ++ [id] }) := by
    rw [h.known]
    split_ifs
    · exact h
    · exact ⟨h.me, h.users, rfl, h.listening, h.asks⟩
  generalize (if id ∈ s.knownChannels then s
    else { s with knownChannels := s.knownChannels ++ [id] }) = k at ht hknown
  generalize (if id ∈ s'.knownChannels then s'
    else { s' with knownChannels := s'.knownChannels ++ [id] }) = k' at ht' hknown
  cases hme : k.me with
  | none =>
    simp only [hme, hknown.me] at ht ht'
    exact Except.ok.inj ht ▸ Except.ok.inj ht' ▸ hknown
  | some session =>
    simp only [hme, hknown.me, hknown.listening] at ht ht'
    split_ifs at ht ht'
    · exact Except.ok.inj ht ▸ Except.ok.inj ht' ▸ hknown
    · exact hknown.ask ht ht'

/-- One message tells two that agree the same, whatever each of them finds. -/
theorem took (h : Agree s s') {said : Said} {found found' : Moment} {left left' : Left S}
    (ht : Took s server found said left) (ht' : Took s' server found' said left') :
    Agree left.session left'.session := by
  cases ht with
  | voice body =>
    cases ht' with
    | voice => exact ((Agree.hear s _ body _ _).symm.trans h).trans (Agree.hear s' _ body _ _)
    | passed hidle => cases hidle
  | sync hsync =>
    cases ht' with
    | sync hsync' => exact h.sync hsync hsync'
    | passed hidle => cases hidle
  | user session name =>
    cases ht' with
    | user =>
      have husers : s'.users.insert session name = s.users.insert session name := by rw [h.users]
      exact ⟨h.me, husers, h.known, h.listening, h.asks⟩
    | passed hidle => cases hidle
  | remove session =>
    cases ht' with
    | remove => exact ⟨h.me, congrArg (·.erase session) h.users, h.known, h.listening, h.asks⟩
    | passed hidle => cases hidle
  | channel id name hchannel =>
    cases ht' with
    | channel _ _ hchannel' => exact h.channel hchannel hchannel'
    | passed hidle => cases hidle
  | passed hidle =>
    cases ht' with
    | passed => exact h
    | _ => cases hidle

end Agree

/-! ### What its bytes say -/

section

variable {p : Proto} {server : UInt32} {s s' : Session S} {found : Moment}

/-- A connection does not end with a message that can be read, as long as its writer is there. -/
theorem exists_take (s : Session S) (server : UInt32) (found : Moment)
    (hwriting : found.writing = true) (said : Said) :
    ∃ left, s.take server found said = .ok left := by
  -- Only asking for channels could fail, and it needs the writer alone.
  have hask : ∀ (s : Session S) session channels, ∃ t, s.ask true session channels = .ok t :=
    fun s session channels => ⟨_, rfl⟩
  cases said with
  | sync me =>
    rw [take, hwriting]
    suffices h : ∃ t, s.sync true me = .ok t by
      obtain ⟨t, ht⟩ := h
      exact ⟨_, by rw [ht]; rfl⟩
    cases me with
    | none => exact ⟨_, rfl⟩
    | some session =>
      simp only [sync]
      split_ifs
      · exact ⟨_, rfl⟩
      · exact hask _ _ _
  | channel id name =>
    cases id with
    | none => exact ⟨_, rfl⟩
    | some id =>
      cases name with
      | none => exact ⟨_, rfl⟩
      | some name =>
        rw [take, hwriting]
        suffices h : ∃ t, s.channel true id = .ok t by
          obtain ⟨t, ht⟩ := h
          exact ⟨_, by rw [ht]; rfl⟩
        unfold channel
        generalize (if id ∈ s.knownChannels then s
          else { s with knownChannels := s.knownChannels ++ [id] }) = k
        cases hme : k.me with
        | none => exact ⟨k, by simp only [hme]⟩
        | some session =>
          simp only [hme]
          split_ifs
          · exact ⟨_, rfl⟩
          · exact hask _ _ _
  | user session name => cases session <;> cases name <;> exact ⟨_, rfl⟩
  | _ => exact ⟨_, rfl⟩

/-- Nothing goes on beside the messages. -/
def calm : Moment where
  router := Router.empty
  now := 0
  fresh := 0
  writing := true

/-- A connection on which there are only messages. -/
def plainly (p : Proto) (server : UInt32) (ms : List Message) : Except String (Session S) :=
  run (step p server) (.ok (new S)) (ms.map fun m => (calm, .message m))

/-- **Sweeps, the time and the routing table have no part in what a connection is told.** -/
theorem agree_run {es : List (Moment × Turn)}
    (h : run (step p server) (.ok (new S)) es = .ok s) :
    ∃ t : Session S, plainly p server (messages (es.map Prod.snd)) = .ok t ∧ Agree t s := by
  refine connection_induction (P := fun es s => ∃ t : Session S,
    plainly p server (messages (es.map Prod.snd)) = .ok t ∧ Agree t s)
    ⟨_, rfl, Agree.refl _⟩ (fun es s found t left _ ih hturn => ?_) h
  obtain ⟨u, hu, hagree⟩ := ih
  rw [List.map_append, messages, List.filterMap_append, ← messages]
  cases t with
  | sweep =>
    rw [← Except.ok.inj hturn]
    refine ⟨u, ?_, hagree.trans (Agree.sweep s found.now)⟩
    rw [← hu]
    exact congrArg (plainly p server) (List.append_nil _)
  | message m =>
    obtain ⟨said, hread, htake⟩ := bind_eq_ok_iff.mp hturn
    obtain ⟨left', htake'⟩ := u.exists_take server calm rfl said
    refine ⟨left'.session, ?_, hagree.took (took_of_take htake') (took_of_take htake)⟩
    have hlast : plainly p server (messages (es.map Prod.snd) ++ [m]) =
        step p server (plainly (S := S) p server (messages (es.map Prod.snd)))
          (calm, .message m) := by
      rw [plainly, List.map_append, List.map_singleton, run_concat, ← plainly]
    refine hlast.trans ?_
    rw [hu, step]
    change ((p.read m).bind (u.take server calm)).map Left.session = _
    rw [hread]
    change (u.take server calm said).map Left.session = _
    rw [htake']
    rfl

end

/-- **A connection is told what its bytes say.** However they are cut, however often the gap
detector comes between, whatever the time and whatever the other planes have made of the routing
table: at any point before its end, its tables are those of a connection on which there have been
only messages, and these are the first messages of the stream. -/
theorem told_by_bytes (p : Proto) (server : UInt32) {rd : Arrivals} (hlive : rd.Live)
    {es : List (Moment × Turn)} (hes : es.map Prod.snd <+: (turns default rd).1) {s : Session S}
    (h : run (step p server) (.ok (new S)) es = .ok s) :
    ∃ ms t, ms <+: (parse rd.bytes).1 ∧ plainly p server ms = .ok t ∧ Agree t s ∧
      (es.map Prod.snd = (turns default rd).1 → ms = (parse rd.bytes).1) := by
  have hparse : messages (turns default rd).1 = (parse rd.bytes).1 := by
    rw [(messages_turns default rd).1]
    exact congrArg Prod.fst (readLoop_eq_parse default hlive)
  obtain ⟨t, ht, hagree⟩ := agree_run h
  refine ⟨_, t, ?_, ht, hagree, fun hall => by rw [hall, hparse]⟩
  rw [← hparse]
  exact hes.filterMap _

/-- A header in two pieces, with a sweep between them. -/
def cutArrivals : Arrivals := [some [0, 5, 0], none, some [0, 0, 2, 8, 9]]

theorem live_cutArrivals : cutArrivals.Live := by
  intro piece hmem
  simp only [cutArrivals, List.mem_cons, Option.some.injEq, List.not_mem_nil, or_false] at hmem
  rcases hmem with rfl | h | rfl
  · exact List.cons_ne_nil _ _
  · cases h
  · exact List.cons_ne_nil _ _

theorem turns_cutArrivals :
    (turns default cutArrivals).1 = [.sweep, .message (5, [8, 9])] := by
  have hend : ∀ h : Header, (turns h []).1 = [] := fun h => by
    simp [turns, Header.readFrom, Mumble.read]
  simp [cutArrivals, turns, Header.readFrom, Mumble.read, default, announced, BigEndian.value,
    maxFrame]
  split
  next h => exact absurd h (by decide)
  next body rd h =>
    have heq : some (body, rd) = some ([8, 9], []) := by
      rw [← h]
      decide
    obtain ⟨rfl, rfl⟩ := Prod.mk.inj (Option.some.inj heq)
    rw [hend]

theorem told_by_bytes_cutArrivals :
    ∃ s t : Session Signal.passing, plainly shortProto 1 (parse cutArrivals.bytes).1 = .ok t ∧
      Agree t s ∧ s.me = some 9 := by
  let es : List (Moment × Turn) := [(calm, .sweep), (calm, .message (5, [8, 9]))]
  have hes : es.map Prod.snd = (turns default cutArrivals).1 := turns_cutArrivals.symm
  have hrun : ∃ s : Session Signal.passing,
      run (step shortProto 1) (.ok (new Signal.passing)) es = .ok s ∧ s.me = some 9 :=
    ⟨_, rfl, rfl⟩
  obtain ⟨s, hs, hme⟩ := hrun
  obtain ⟨ms, t, -, ht, hagree, hall⟩ :=
    told_by_bytes shortProto 1 live_cutArrivals (hes ▸ List.prefix_rfl) hs
  rw [hall hes] at ht
  exact ⟨s, t, ht, hagree, hme⟩

end Session

end RfxVoiced.Mumble
