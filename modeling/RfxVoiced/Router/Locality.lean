import RfxVoiced.Lib.Footprint
import RfxVoiced.Router.Release

/-!
# Requests about disjoint channels

Requests from different worlds reach the router in any order. A request names one client and one
route, and it is confined to the patch of that route and to what the router remembers about that
client; so two requests of different clients about disjoint patches may be exchanged. This holds as
long as every record lists routes of the present patch only, as it does while the patch table is
never changed.

## Main definitions

* `Place`, `Router.read` — the router, place by place
* `Router.OnePatchTable` — the patch table is this one, and so are the patches on record
* `Request` — what a client may ask about one route
* `Router.footprint` — the places that a request depends on and changes

## Main results

* `confinedTo_routes`, `confinedTo_records` — updates that stay in the footprint of a request
* `confinedTo_carryOut`, `seesOnly_answer` — a request is confined to its footprint
* `requests_commute` — requests about disjoint channels commute
-/

namespace RfxVoiced

/-- A place of the router: one key of one of its tables, or the patch table. -/
inductive Place
  | route (t : RouteId)
  | pending (t : RouteId) (client : ClientId)
  | took (client : ClientId) (t : RouteId)
  | keyedBy (client : ClientId)
  | clientOf (session : SessionId)
  | sessionOf (client : ClientId)
  | patches

/-- What is kept at a place. -/
abbrev Place.Value : Place → Type
  | .route _ => Option Route
  | .pending _ _ => Option Instant
  | .took _ _ => Option (List RouteId)
  | .keyedBy _ => Option RouteId
  | .clientOf _ => Option ClientId
  | .sessionOf _ => Option SessionId
  | .patches => List (List RouteId)

/-- What a client may ask about one route. -/
inductive Request
  | setMember (listen : Bool) (quality : UInt8)
  | keyAt (now : Instant)
  | unkeyAs

/-- What a request is answered. -/
inductive Answer
  | done
  | keyed (answer : Except Refusal Keyed)
  | released (was : Bool)

namespace Router

variable {α : Type*}

/-- What the router keeps at a place. -/
def read : (i : Place) → Router → i.Value
  | .route t, r => r.routes.lookup t
  | .pending t client, r => r.pending.lookup (t, client)
  | .took client t, r => r.took.lookup (client, t)
  | .keyedBy client, r => r.keyedBy.lookup client
  | .clientOf session, r => r.clientOf session
  | .sessionOf client, r => r.sessionOf client
  | .patches, r => r.patches

/-- The patch table is this one, and every record lists routes of one patch of it. -/
structure OnePatchTable (groups : List (List RouteId)) (r : Router) : Prop where
  patches : r.patches = groups
  took : ∀ client p routes, r.took.lookup (client, p) = some routes →
    routes ⊆ Groups.component groups p

/-- The places of a request: the routes of the patch, and what is remembered about the client. -/
def footprint (groups : List (List RouteId)) (tg : RouteId) (client : ClientId) : Set Place :=
  {i | (∃ t ∈ Groups.component groups tg, i = .route t) ∨ (∃ t, i = .pending t client) ∨
    (∃ t, i = .took client t) ∨ i = .keyedBy client}

/-- A question that is answered from the footprint of a request. -/
abbrev SeesOnly (groups : List (List RouteId)) (tg : RouteId) (client : ClientId)
    (q : Router → α) : Prop :=
  LooksAt read (OnePatchTable groups) (footprint groups tg client) q

/-- An update that is confined to the footprint of a request. -/
abbrev ConfinedTo (groups : List (List RouteId)) (tg : RouteId) (client : ClientId)
    (f : Router → Router) : Prop :=
  Confined read (OnePatchTable groups) (footprint groups tg client) f

def answer (r : Router) (tg : RouteId) (client : ClientId) : Request → Answer
  | .setMember _ _ => .done
  | .keyAt now => .keyed (r.keyAt tg client now).1
  | .unkeyAs => .released (r.unkeyAs tg client).1

def carryOut (r : Router) (tg : RouteId) (client : ClientId) : Request → Router
  | .setMember listen quality => r.setMember tg client listen quality
  | .keyAt now => (r.keyAt tg client now).2
  | .unkeyAs => (r.unkeyAs tg client).2

variable {groups : List (List RouteId)} {r r' : Router} {tg t : RouteId} {client : ClientId}

/-! ### The footprint -/

@[simp] theorem mem_footprint_route :
    Place.route t ∈ footprint groups tg client ↔ t ∈ Groups.component groups tg := by
  simp [footprint]

@[simp] theorem mem_footprint_pending {c : ClientId} :
    Place.pending t c ∈ footprint groups tg client ↔ c = client := by
  simp [footprint]

@[simp] theorem mem_footprint_took {c : ClientId} :
    Place.took c t ∈ footprint groups tg client ↔ c = client := by
  simp [footprint]

@[simp] theorem mem_footprint_keyedBy {c : ClientId} :
    Place.keyedBy c ∈ footprint groups tg client ↔ c = client := by
  simp [footprint]

/-- Different clients that name disjoint patches have disjoint footprints. -/
theorem disjoint_footprint {t₁ t₂ : RouteId} {c₁ c₂ : ClientId} (hc : c₁ ≠ c₂)
    (h : List.Disjoint (Groups.component groups t₁) (Groups.component groups t₂)) :
    Disjoint (footprint groups t₁ c₁) (footprint groups t₂ c₂) := by
  rw [Set.disjoint_left]
  rintro i (⟨t, ht, rfl⟩ | ⟨t, rfl⟩ | ⟨t, rfl⟩ | rfl) hi
  · exact h ht (mem_footprint_route.mp hi)
  · exact hc (mem_footprint_pending.mp hi)
  · exact hc (mem_footprint_took.mp hi)
  · exact hc (mem_footprint_keyedBy.mp hi)

/-! ### Questions -/

theorem unkeyAs_fst (r : Router) (tg : RouteId) (client : ClientId) :
    (r.unkeyAs tg client).1 =
      (letGoAll client (false, { r with took := r.took.erase (client, tg) })
        (r.mine tg client)).1 := rfl

theorem seesOnly_route (ht : t ∈ Groups.component groups tg) :
    SeesOnly groups tg client fun r => r.routes.lookup t :=
  fun _ _ _ _ hagree => hagree (.route t) (mem_footprint_route.mpr ht)

theorem seesOnly_pending : SeesOnly groups tg client fun r => r.pending.lookup (t, client) :=
  fun _ _ _ _ hagree => hagree (.pending t client) (mem_footprint_pending.mpr rfl)

theorem seesOnly_insisting {now : Instant} :
    SeesOnly groups tg client fun r => r.insisting t client now :=
  seesOnly_pending.map fun asked =>
    asked.any fun asked => decide (now - asked ≤ preemptWindow)

theorem seesOnly_contested (ht : t ∈ Groups.component groups tg) :
    SeesOnly groups tg client fun r => r.contested t client :=
  (seesOnly_route ht).map fun route => route.bind fun x => x.contested client

theorem seesOnly_keyOne (ht : t ∈ Groups.component groups tg) {now : Instant} :
    SeesOnly groups tg client fun r => (r.keyOne t client now).1 := by
  intro r r' hr hr' hagree
  simp only [keyOne_fst, seesOnly_route ht r r' hr hr' hagree,
    seesOnly_insisting r r' hr hr' hagree]

theorem seesOnly_letGo (ht : t ∈ Groups.component groups tg) :
    SeesOnly groups tg client fun r => (r.letGo client t).1 := by
  refine LooksAt.congr (fun r _ => ?_) ((seesOnly_route ht).map fun route =>
    route.any fun x => decide (client ∈ x.also) || decide (x.keyed = some client))
  unfold letGo
  split
  next hnone => rw [hnone, Option.any_none]
  next route hroute => rw [hroute, Option.any_some]

/-- Whether the channel is clear is seen on the routes of the patch. -/
theorem seesOnly_isClear (ht : t ∈ Groups.component groups tg) :
    SeesOnly groups tg client fun r => r.isClear t := by
  intro r r' hr hr' hagree
  have htalkers : ∀ u ∈ Groups.component groups t, r.talkersOn u = r'.talkersOn u := by
    intro u hu
    have hu' : u ∈ Groups.component groups tg := (Groups.mem_component_congr ht u).mp hu
    have hroute : SeesOnly groups tg client fun r => r.routes.lookup u := seesOnly_route hu'
    simp only [talkersOn, hroute r r' hr hr' hagree]
  simp only [isClear, joined, hr.patches, hr'.patches]
  rw [Bool.eq_iff_iff, List.all_eq_true, List.all_eq_true]
  exact forall₂_congr fun u hu => by rw [htalkers u hu]

/-- What a release gives back lies in the patch. -/
theorem OnePatchTable.mine_subset (hr : OnePatchTable groups r) (tg : RouteId)
    (client : ClientId) : r.mine tg client ⊆ Groups.component groups tg := by
  rw [mine]
  cases hroutes : r.took.lookup (client, tg) with
  | none =>
    rw [Option.getD_none, joined, hr.patches]
    exact List.Subset.refl _
  | some routes => exact hr.took client tg routes hroutes

theorem seesOnly_mine : SeesOnly groups tg client fun r => r.mine tg client := by
  intro r r' hr hr' hagree
  have htook : r.took.lookup (client, tg) = r'.took.lookup (client, tg) :=
    hagree (.took client tg) (mem_footprint_took.mpr rfl)
  simp only [mine, htook, joined, hr.patches, hr'.patches]

/-! ### Steps -/

/-- A press changes the routes and the armed presses, and nothing else. -/
theorem keyOne_sameBut (r : Router) (t : RouteId) (client : ClientId) (now : Instant) :
    ∃ routes pending,
      (r.keyOne t client now).2 = { r with routes := routes, pending := pending } := by
  unfold keyOne
  repeat' split
  all_goals exact ⟨_, _, rfl⟩

/-- An update of the routes of the patch. -/
theorem confinedTo_routes {f : Router → Table RouteId Route}
    (hother : ∀ r u, OnePatchTable groups r → u ∉ Groups.component groups tg →
      (f r).lookup u = r.routes.lookup u)
    (hpatch : ∀ u ∈ Groups.component groups tg,
      SeesOnly groups tg client fun r => (f r).lookup u) :
    ConfinedTo groups tg client fun r => { r with routes := f r } where
  keeps _ hr := ⟨hr.patches, hr.took⟩
  frame r hr i hi := by
    cases i with
    | route u => exact hother r u hr fun hu => hi (mem_footprint_route.mpr hu)
    | _ => rfl
  effect r r' hr hr' hagree i hi := by
    cases i with
    | route u => exact hpatch u (mem_footprint_route.mp hi) r r' hr hr' hagree
    | _ => exact hagree _ hi

theorem confinedTo_modify (ht : t ∈ Groups.component groups tg) (f : Route → Route) :
    ConfinedTo groups tg client fun r => { r with routes := r.routes.modify t f } := by
  refine confinedTo_routes (fun r u _ hu => ?_) fun u hu => ?_
  · have hne : u ≠ t := by
      rintro rfl
      exact hu ht
    exact Table.lookup_modify_ne r.routes hne f
  · simp only [Table.lookup_modify]
    exact (seesOnly_route hu).map fun route => if u = t then route.map f else route

/-- An update of what is remembered about the client, which keeps to the patch. -/
theorem confinedTo_records
    {pending : Table (RouteId × ClientId) Instant → Table (RouteId × ClientId) Instant}
    {took : Table (ClientId × RouteId) (List RouteId) → Table (ClientId × RouteId) (List RouteId)}
    {keyedBy : Table ClientId RouteId → Table ClientId RouteId}
    (hpending : Table.ChangesOnly (fun k => k.2 = client) pending)
    (htook : Table.ChangesOnly (fun k => k.1 = client) took)
    (hkeyedBy : Table.ChangesOnly (· = client) keyedBy)
    (hkeeps : ∀ r, OnePatchTable groups r → ∀ c p routes,
      (took r.took).lookup (c, p) = some routes → routes ⊆ Groups.component groups p) :
    ConfinedTo groups tg client fun r =>
      { r with pending := pending r.pending, took := took r.took, keyedBy := keyedBy r.keyedBy }
    where
  keeps r hr := ⟨hr.patches, hkeeps r hr⟩
  frame r _ i hi := by
    cases i with
    | pending u c => exact hpending.frame r.pending (u, c) fun h => hi (mem_footprint_pending.mpr h)
    | took c u => exact htook.frame r.took (c, u) fun h => hi (mem_footprint_took.mpr h)
    | keyedBy c => exact hkeyedBy.frame r.keyedBy c fun h => hi (mem_footprint_keyedBy.mpr h)
    | _ => rfl
  effect r r' _ _ hagree i hi := by
    have hsame := hagree i hi
    cases i with
    | pending u c => exact hpending.effect r.pending r'.pending (u, c) hsame
    | took c u => exact htook.effect r.took r'.took (c, u) hsame
    | keyedBy c => exact hkeyedBy.effect r.keyedBy r'.keyedBy c hsame
    | _ => exact hsame

/-- Forgetting a refusal of the client. -/
theorem confinedTo_erase_pending :
    ConfinedTo groups tg client fun r => { r with pending := r.pending.erase (t, client) } := by
  have hforget : Table.ChangesOnly (fun k => k.2 = client)
      fun x : Table (RouteId × ClientId) Instant => x.erase (t, client) :=
    Table.changesOnly_erase rfl
  exact confinedTo_records hforget (Table.changesOnly_id _) (Table.changesOnly_id _)
    fun _ hr => hr.took

theorem confinedTo_erase_took :
    ConfinedTo groups tg client fun r => { r with took := r.took.erase (client, t) } := by
  have hforget : Table.ChangesOnly (fun k => k.1 = client)
      fun x : Table (ClientId × RouteId) (List RouteId) => x.erase (client, t) :=
    Table.changesOnly_erase rfl
  refine confinedTo_records (Table.changesOnly_id _) hforget (Table.changesOnly_id _)
    fun r hr c p routes h => ?_
  rw [Table.lookup_erase] at h
  split_ifs at h
  exact hr.took c p routes h

theorem confinedTo_erase_keyedBy :
    ConfinedTo groups tg client fun r => { r with keyedBy := r.keyedBy.erase client } := by
  have hforget : Table.ChangesOnly (· = client)
      fun x : Table ClientId RouteId => x.erase client := Table.changesOnly_erase rfl
  exact confinedTo_records (Table.changesOnly_id _) (Table.changesOnly_id _) hforget
    fun _ hr => hr.took

theorem confinedTo_recordTook :
    ConfinedTo groups tg client fun r =>
      r.recordTook client tg (Groups.component groups tg) := by
  have htook : Table.ChangesOnly (fun k => k.1 = client)
      fun x : Table (ClientId × RouteId) (List RouteId) =>
        x.insert (client, tg) (Groups.component groups tg) :=
    Table.changesOnly_insert (fun k : ClientId × RouteId => k.1 = client) rfl _
  have hkeyedBy : Table.ChangesOnly (· = client)
      fun x : Table ClientId RouteId => x.insert client tg :=
    Table.changesOnly_insert (· = client) rfl tg
  refine confinedTo_records (Table.changesOnly_id _) htook hkeyedBy fun r hr c p routes h => ?_
  rw [Table.lookup_insert] at h
  split_ifs at h with hbutton
  · -- The new record: the patch of the pressed route.
    obtain ⟨-, rfl⟩ := Prod.mk.inj hbutton
    obtain rfl := Option.some.inj h
    exact List.Subset.refl _
  · exact hr.took c p routes h

/-- A press on a route of the patch. -/
theorem confinedTo_keyOne (ht : t ∈ Groups.component groups tg) (now : Instant) :
    ConfinedTo groups tg client fun r => (r.keyOne t client now).2 where
  keeps r hr := by
    obtain ⟨htook, -, hpatches⟩ := keyOne_frame r t client now
    exact ⟨hpatches.trans hr.patches, by rw [htook]; exact hr.took⟩
  frame r _ i hi := by
    obtain ⟨routes, pending, hframe⟩ := keyOne_sameBut r t client now
    cases i with
    | route u =>
      have hne : u ≠ t := by
        rintro rfl
        exact hi (mem_footprint_route.mpr ht)
      simp only [read, lookup_keyOne, if_neg hne]
    | pending u c =>
      rw [mem_footprint_pending] at hi
      simp [read, pending_keyOne, hi]
    | _ => simp only [read, hframe, clientOf, sessionOf]
  effect r r' hr hr' hagree i hi := by
    obtain ⟨routes, pending, hframe⟩ := keyOne_sameBut r t client now
    obtain ⟨routes', pending', hframe'⟩ := keyOne_sameBut r' t client now
    -- The two routers agree on all that decides the press.
    have hcontested : r.contested t client = r'.contested t client :=
      seesOnly_contested ht r r' hr hr' hagree
    have hinsisting : r.insisting t client now = r'.insisting t client now :=
      seesOnly_insisting r r' hr hr' hagree
    have hsame := hagree i hi
    cases i with
    | route u =>
      simp only [read, lookup_keyOne] at hsame ⊢
      rw [hsame, hinsisting]
    | pending u c =>
      simp only [read, pending_keyOne] at hsame ⊢
      simp only [hsame, hinsisting, hcontested]
    | _ => simpa only [read, hframe, hframe', clientOf, sessionOf] using hsame

theorem confinedTo_handOver (ht : t ∈ Groups.component groups tg) (holder : ClientId) :
    ConfinedTo groups tg client fun r => r.handOver holder client t :=
  confinedTo_erase_pending.comp (confinedTo_modify ht fun x =>
    { x with
      keyed := if x.keyed = some holder then some client else x.keyed
      also := x.also.filter (· ≠ holder) })

theorem confinedTo_takeSiblings {others : List RouteId}
    (h : ∀ t ∈ others, t ∈ Groups.component groups tg) (now : Instant) (outcome : Keyed) :
    ConfinedTo groups tg client fun r => takeSiblings r others client now outcome := by
  have hpress : ConfinedTo groups tg client fun r =>
      run (fun r other => (keyOne r other client now).2) r others :=
    Confined.run fun t ht => confinedTo_keyOne (h t ht) now
  cases outcome with
  | preempted holder =>
    exact hpress.comp (Confined.run fun t ht => confinedTo_handOver (h t ht) holder)
  | _ => exact hpress

theorem confinedTo_letGo (ht : t ∈ Groups.component groups tg) :
    ConfinedTo groups tg client fun r => (r.letGo client t).2 := by
  have hsilence : ConfinedTo groups tg client fun r =>
      { r with routes := r.routes.modify t fun x => silence x (· = client) } :=
    confinedTo_modify ht _
  refine Confined.congr (fun r _ => ?_) (Confined.choose
    (k := fun present (r : Router) => if present = true then
      { r with routes := r.routes.modify t fun x => silence x (· = client) } else r)
    ((seesOnly_route ht).map Option.isSome) fun r _ => ?_)
  · unfold letGo
    split
    next hnone => simp [hnone]
    next route hroute => simp [hroute]
  · cases (r.routes.lookup t).isSome with
    | true => exact hsilence
    | false => exact Confined.id

/-- Parked qualities are applied on the routes of the patch. -/
theorem confinedTo_drainDeferred (ht : t ∈ Groups.component groups tg) :
    ConfinedTo groups tg client fun r => r.drainDeferred t := by
  have hdrain : ConfinedTo groups tg client fun r =>
      run (fun (r : Router) u => { r with routes := r.routes.modify u applyDeferred }) r
        (Groups.component groups t) :=
    Confined.run fun u hu =>
      confinedTo_modify ((Groups.mem_component_congr ht u).mp hu) applyDeferred
  refine Confined.congr (fun r hr => ?_) (Confined.choose
    (k := fun clear (r : Router) => if !clear then r else
      run (fun (r : Router) u => { r with routes := r.routes.modify u applyDeferred }) r
        (Groups.component groups t))
    (seesOnly_isClear ht) fun r _ => ?_)
  · rw [drainDeferred, joined, hr.patches]
    rfl
  · cases r.isClear t with
    | true => exact hdrain
    | false => exact Confined.id

/-! ### Requests -/

theorem seesOnly_keyAt (now : Instant) :
    SeesOnly groups tg client fun r => (r.keyAt tg client now).1 :=
  LooksAt.congr (fun r _ => keyAt_fst r tg client now)
    (seesOnly_keyOne (Groups.mem_component_self groups tg))

/-- A key request is carried out by presses and hand-overs in the patch, and put on record. -/
theorem confinedTo_keyAt (now : Instant) :
    ConfinedTo groups tg client fun r => (r.keyAt tg client now).2 := by
  have hpress : ConfinedTo groups tg client fun r => (r.keyOne tg client now).2 :=
    confinedTo_keyOne (Groups.mem_component_self groups tg) now
  -- The answer decides what is done next, and it is seen in the footprint.
  refine Confined.congr (fun r hr => ?_) (Confined.choose
    (k := fun (answer : Except Refusal Keyed) (r : Router) => answer.casesOn
      (fun _ => (r.keyOne tg client now).2)
      (fun outcome => (takeSiblings (r.keyOne tg client now).2
        ((Groups.component groups tg).filter (· ≠ tg)) client now outcome).recordTook client tg
          (Groups.component groups tg)))
    (seesOnly_keyAt now) fun r hr => ?_)
  · cases hans : (r.keyAt tg client now).1 with
    | error e => exact keyAt_of_error hans
    | ok outcome =>
      rw [keyAt_of_ok hans, siblings, joined, hr.patches]
  · cases (r.keyAt tg client now).1 with
    | error e => exact hpress
    | ok outcome =>
      have hsiblings : ∀ t ∈ (Groups.component groups tg).filter (· ≠ tg),
          t ∈ Groups.component groups tg := fun t ht => List.mem_of_mem_filter ht
      exact confinedTo_recordTook.comp
        ((confinedTo_takeSiblings hsiblings now outcome).comp hpress)

theorem seesOnly_unkeyAs : SeesOnly groups tg client fun r => (r.unkeyAs tg client).1 := by
  intro r r' hr hr' hagree
  have hmine : r.mine tg client = r'.mine tg client := seesOnly_mine r r' hr hr' hagree
  have hreleased : SeesOnly groups tg client fun r₁ =>
      (letGoAll client (false, r₁) (r.mine tg client)).1 :=
    LooksAt.run_fst (fun was here => was || here)
      (fun t ht => seesOnly_letGo (hr.mine_subset tg client ht))
      (fun t ht => confinedTo_letGo (hr.mine_subset tg client ht)) false
  have herased := hreleased.after (confinedTo_erase_took (t := tg)) r r' hr hr' hagree
  simp only [unkeyAs_fst, ← hmine]
  exact herased

/-- A release lets go of routes of the patch, and drains it. -/
theorem confinedTo_unkeyAs : ConfinedTo groups tg client fun r => (r.unkeyAs tg client).2 := by
  -- So do the routes that the button stands for, which are on record or those of the patch.
  refine Confined.congr (fun r _ => ?_) (Confined.choose
    (k := fun mine (r : Router) => run drainDeferred
      { (letGoAll client (false, { r with took := r.took.erase (client, tg) }) mine).2 with
        keyedBy := (letGoAll client (false, { r with took := r.took.erase (client, tg) })
          mine).2.keyedBy.erase client } mine)
    seesOnly_mine fun r hr => ?_)
  · exact unkeyAs_snd r tg client
  · have hletGo : ConfinedTo groups tg client fun r₁ =>
        (letGoAll client (false, r₁) (r.mine tg client)).2 := by
      refine Confined.congr (fun r₁ _ => ?_)
        (Confined.run fun t ht => confinedTo_letGo (hr.mine_subset tg client ht))
      exact run_snd (fun r t => (letGo r client t).2) (fun r t => (letGo r client t).1)
        (fun was here => was || here) (r.mine tg client) false r₁
    have hdrain : ConfinedTo groups tg client fun r₁ =>
        run drainDeferred r₁ (r.mine tg client) :=
      Confined.run fun t ht => confinedTo_drainDeferred (hr.mine_subset tg client ht)
    exact hdrain.comp
      (confinedTo_erase_keyedBy.comp (hletGo.comp confinedTo_erase_took))

theorem confinedTo_setMember (listen : Bool) (quality : UInt8) :
    ConfinedTo groups tg client fun r => r.setMember tg client listen quality := by
  have htg := Groups.mem_component_self groups tg
  refine confinedTo_routes (fun r u _ hu => ?_) fun u hu => ?_
  · have hne : u ≠ tg := by
      rintro rfl
      exact hu htg
    rw [Table.lookup_insert, if_neg hne]
  · intro r r' hr hr' hagree
    have hclear : r.isClear tg = r'.isClear tg := seesOnly_isClear htg r r' hr hr' hagree
    have hroute : r.routes.lookup tg = r'.routes.lookup tg := seesOnly_route htg r r' hr hr' hagree
    have hother : r.routes.lookup u = r'.routes.lookup u := seesOnly_route hu r r' hr hr' hagree
    simp only [Table.lookup_insert, hclear, hroute, hother]

/-- A request is confined to its footprint. -/
theorem confinedTo_carryOut (q : Request) :
    ConfinedTo groups tg client fun r => r.carryOut tg client q := by
  cases q with
  | setMember listen quality => exact confinedTo_setMember listen quality
  | keyAt now => exact confinedTo_keyAt now
  | unkeyAs => exact confinedTo_unkeyAs

/-- And so is what it is answered. -/
theorem seesOnly_answer (q : Request) :
    SeesOnly groups tg client fun r => r.answer tg client q := by
  cases q with
  | setMember listen quality => exact LooksAt.const Answer.done
  | keyAt now => exact (seesOnly_keyAt now).map Answer.keyed
  | unkeyAs => exact seesOnly_unkeyAs.map Answer.released

/-! ### Runs with one patch table -/

theorem onePatchTable_setPatches (groups : List (List RouteId)) :
    OnePatchTable groups (Router.empty.setPatches groups) where
  patches := rfl
  took client p routes h := by
    simp [setPatches, Router.empty] at h

/-- As long as nobody edits the patches, every record lists routes of the present patch. -/
theorem onePatchTable_step (hr : OnePatchTable groups r) {op : Op}
    (hop : ∀ groups', op = .setPatches groups' → groups' = groups) :
    OnePatchTable groups (step r op) where
  patches := by
    by_cases hset : ∃ groups', op = .setPatches groups'
    · obtain ⟨groups', rfl⟩ := hset
      exact hop groups' rfl
    · exact (patches_step fun groups' heq => hset ⟨groups', heq⟩).trans hr.patches
  took c p routes h := by
    rcases lookup_took_step h with hold | ⟨now, k, rfl, hans⟩
    · exact hr.took c p routes hold
    · rw [step, keyAt_took_of_ok hans, AList.lookup_insert, joined, hr.patches] at h
      obtain rfl := Option.some.inj h
      exact List.Subset.refl _

theorem onePatchTable_run {ops : List Op} (hfixed : ∀ groups', .setPatches groups' ∈ ops →
    groups' = groups) (hr : OnePatchTable groups r) : OnePatchTable groups (run step r ops) := by
  induction ops generalizing r with
  | nil => exact hr
  | cons op ops ih =>
    refine ih (fun groups' h => hfixed groups' (List.mem_cons_of_mem op h)) ?_
    refine onePatchTable_step hr fun groups' heq => hfixed groups' ?_
    rw [heq]
    exact List.mem_cons_self

/-- Requests of different clients about disjoint channels commute, wherever a run that never edits
the patches has led: in either order each is answered the same, and the router is left the same at
every place. -/
theorem requests_commute (groups : List (List RouteId)) (ops : List Op)
    (hfixed : ∀ groups', .setPatches groups' ∈ ops → groups' = groups)
    (t₁ t₂ : RouteId) (c₁ c₂ : ClientId) (hc : c₁ ≠ c₂)
    (hdisjoint : List.Disjoint ((run step (Router.empty.setPatches groups) ops).joined t₁)
      ((run step (Router.empty.setPatches groups) ops).joined t₂)) (q₁ q₂ : Request) :
    let r := run step (Router.empty.setPatches groups) ops
    (r.carryOut t₁ c₁ q₁).answer t₂ c₂ q₂ = r.answer t₂ c₂ q₂ ∧
      (r.carryOut t₂ c₂ q₂).answer t₁ c₁ q₁ = r.answer t₁ c₁ q₁ ∧
      ∀ i, read i ((r.carryOut t₁ c₁ q₁).carryOut t₂ c₂ q₂) =
        read i ((r.carryOut t₂ c₂ q₂).carryOut t₁ c₁ q₁) := by
  intro r
  have hr : OnePatchTable groups r := onePatchTable_run hfixed (onePatchTable_setPatches groups)
  rw [joined, joined, hr.patches] at hdisjoint
  have hapart := disjoint_footprint hc hdisjoint
  exact ⟨(seesOnly_answer q₂).of_elsewhere (confinedTo_carryOut q₁) hapart hr,
    (seesOnly_answer q₁).of_elsewhere (confinedTo_carryOut q₂) hapart.symm hr,
    (confinedTo_carryOut q₁).comm (confinedTo_carryOut q₂) hapart hr⟩

/-- Two talkgroups are patched, and a third is on its own. -/
def twoChannels : List Op := [.openRoute 1 false, .openRoute 2 false, .openRoute 3 false]

/-- A console keys the patch while a field unit joins the third talkgroup. -/
theorem twoChannels_commute :
    ((run step (Router.empty.setPatches [[1, 2]]) twoChannels).carryOut 1 ⟨0, 9⟩
        (.keyAt 0)).answer 3 ⟨1, 7⟩ (.setMember true 90) = .done ∧
      ∀ i, read i (((run step (Router.empty.setPatches [[1, 2]]) twoChannels).carryOut 1 ⟨0, 9⟩
          (.keyAt 0)).carryOut 3 ⟨1, 7⟩ (.setMember true 90)) =
        read i (((run step (Router.empty.setPatches [[1, 2]]) twoChannels).carryOut 3 ⟨1, 7⟩
          (.setMember true 90)).carryOut 1 ⟨0, 9⟩ (.keyAt 0)) := by
  have h := requests_commute [[1, 2]] twoChannels (by simp [twoChannels]) 1 3 ⟨0, 9⟩ ⟨1, 7⟩
    (by decide) (List.disjoint_left.mpr (by decide)) (.keyAt 0) (.setMember true 90)
  exact ⟨h.1, h.2.2⟩

end Router

end RfxVoiced
