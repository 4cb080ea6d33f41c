import RfxVoiced.Lib.Merge
import RfxVoiced.Router.Departure

/-!
# Patches

A patch makes one channel of several routes. Which routes it joins is the connected component of the
pressed one, found by growing a list. Who hears a transmission on that channel is the merge of the
members of those routes: each client once, on its best link.

## Main definitions

* `Router.link` — a client's listening membership of a route, as it would be served
* `Router.offers` — the listening memberships of a patch, in the order in which they are visited
* `Router.SameChannels` — two routers that differ in the order of their hash maps at most

## Main results

* `joined_is_component` — what is joined, and that finding it ends
* `listenersAcross_eq_collate` — the listener list is the merge of the memberships visited
* `listenersAcross_is_merge` — the listener list, client by client
-/

namespace RfxVoiced

/-- The rank of a link. -/
def Listener.rank (l : Listener) : ℕ := l.quality.toNat

namespace Router

/-! ### What is joined -/

/-- **`joined` is the connected component.** The growth loop ends, because every pass before the
last collects an id that it had not collected. What it has collected then is listed once each,
beginning with the id asked about, and is what a chain of groups leads to from there; so the routes
are partitioned into channels. -/
theorem joined_is_component (r : Router) (tg : RouteId) :
    (∃ n ≤ r.patches.flatten.length,
      (∀ k < n, ((Groups.sweep r.patches)^[k] [tg]).length <
        ((Groups.sweep r.patches)^[k + 1] [tg]).length) ∧
      Groups.sweep r.patches ((Groups.sweep r.patches)^[n] [tg]) =
        (Groups.sweep r.patches)^[n] [tg] ∧
      r.joined tg = (Groups.sweep r.patches)^[n] [tg]) ∧
    (∃ rest, r.joined tg = tg :: rest) ∧ (r.joined tg).Nodup ∧
    (∀ t, t ∈ r.joined tg ↔ t = tg ∨ Groups.Chained r.patches tg t) ∧
    (∀ t, t ∈ r.joined tg ↔ tg ∈ r.joined t) ∧
    (∀ t ∈ r.joined tg, ∀ u, u ∈ r.joined t ↔ u ∈ r.joined tg) :=
  ⟨Groups.component_eq_iterate r.patches tg, Groups.component_eq_cons r.patches tg,
    Groups.nodup_component r.patches tg, fun _ => Groups.mem_component_iff_chained,
    fun _ => Groups.mem_component_comm, fun _ ht u => Groups.mem_component_congr ht u⟩

example :
    (Router.empty.setPatches [[3, 4], [], [7, 7], [2, 3], [1, 2]]).joined 1 = [1, 2, 3, 4] := by
  decide

/-! ### The memberships visited -/

/-- A client's listening membership of a route, as it would be served to a speaker on `tg`. -/
def link (r : Router) (tg : RouteId) (except : Option ClientId) (c : ClientId) (t : RouteId) :
    Option Listener :=
  (r.routes.lookup t).bind fun route =>
    (route.members.lookup c).bind fun m =>
      if !m.listen || some c = except then none
      else some { client := c, quality := m.quality, mode := route.mode, bridged := t ≠ tg }

theorem link_eq_some_iff {r : Router} {tg t : RouteId} {except : Option ClientId} {c : ClientId}
    {l : Listener} : r.link tg except c t = some l ↔ l.client = c ∧ r.Serves tg except l t := by
  simp only [link, Serves, Option.bind_eq_some_iff]
  constructor
  · rintro ⟨route, hroute, m, hm, h⟩
    split_ifs at h with hskip
    obtain rfl := Option.some.inj h
    simp only [Bool.or_eq_true, Bool.not_eq_true', decide_eq_true_eq, not_or,
      Bool.not_eq_false] at hskip
    exact ⟨rfl, route, m, hroute, hm, hskip.1, hskip.2, rfl, rfl, rfl⟩
  · rintro ⟨rfl, route, m, hroute, hm, hlisten, hexcept, hquality, hmode, hbridged⟩
    refine ⟨route, hroute, m, hm, ?_⟩
    rw [if_neg (by simp [hlisten, hexcept])]
    cases l
    simp_all

/-- What one membership offers to a listener list. -/
def offered (tg member : RouteId) (mode : Dsp.Mode) (except : Option ClientId)
    (e : Sigma fun _ : ClientId => Member) : Option Listener :=
  if !e.2.listen || some e.1 = except then none
  else some { client := e.1, quality := e.2.quality, mode := mode, bridged := member ≠ tg }

/-- What one route offers to a listener list. -/
def offersOn (r : Router) (tg : RouteId) (except : Option ClientId) (member : RouteId) :
    List Listener :=
  match r.routes.lookup member with
  | none => []
  | some route => route.members.entries.filterMap (offered tg member route.mode except)

/-- The listening memberships of a patch, in the order in which they are visited. -/
def offers (r : Router) (tg : RouteId) (except : Option ClientId) : List Listener :=
  (r.joined tg).flatMap (r.offersOn tg except)

/-- Merging a membership in is offering it under its client, ranked by its quality. -/
theorem mergeListener_eq_offer (out : List Listener) (l : Listener) :
    mergeListener out l = Merge.offer Listener.client Listener.rank out l := by
  induction out with
  | nil => rfl
  | cons x out ih =>
    rw [mergeListener, Merge.offer, ih]
    split_ifs with hclient hlt hrank hrank
    · obtain ⟨c, q, mode, bridged⟩ := l
      simp_all
    · exact absurd (UInt8.lt_iff_toNat_lt.mp hlt) hrank
    · exact absurd (UInt8.lt_iff_toNat_lt.mpr hrank) hlt
    · rfl
    · rfl

theorem foldl_serve (tg member : RouteId) (mode : Dsp.Mode) (except : Option ClientId)
    (es : List (Sigma fun _ : ClientId => Member)) (out : List Listener) :
    es.foldl (serve tg member mode except) out =
      (es.filterMap (offered tg member mode except)).foldl
        (Merge.offer Listener.client Listener.rank) out := by
  induction es generalizing out with
  | nil => rfl
  | cons e es ih =>
    rw [List.foldl_cons, ih, serve, List.filterMap_cons, offered]
    split_ifs
    · rfl
    · rw [mergeListener_eq_offer]
      rfl

/-- The listener list is the merge of the memberships visited. -/
theorem listenersAcross_eq_collate (r : Router) (tg : RouteId) (except : Option ClientId) :
    r.listenersAcross tg except =
      Merge.collate Listener.client Listener.rank (r.offers tg except) := by
  have hroute : ∀ out member, r.serveRoute tg except out member =
      (r.offersOn tg except member).foldl (Merge.offer Listener.client Listener.rank) out := by
    intro out member
    rw [serveRoute, offersOn]
    cases r.routes.lookup member with
    | none => rfl
    | some route => exact foldl_serve tg member route.mode except route.members.entries out
  rw [listenersAcross_eq, Merge.collate, offers, List.foldl_flatMap]
  exact congrArg (fun f => List.foldl f [] (r.joined tg)) (funext₂ hroute)

theorem client_of_offered {tg member : RouteId} {mode : Dsp.Mode} {except : Option ClientId}
    {e : Sigma fun _ : ClientId => Member} {l : Listener}
    (h : offered tg member mode except e = some l) : l.client = e.1 := by
  simp only [offered] at h
  split_ifs at h
  rw [← Option.some.inj h]

/-- A client that is listed once makes one offer at most. -/
theorem filter_offered (tg member : RouteId) (mode : Dsp.Mode) (except : Option ClientId)
    (c : ClientId) {es : List (Sigma fun _ : ClientId => Member)} (hes : es.NodupKeys) :
    (es.filterMap (offered tg member mode except)).filter (fun l => l.client = c) =
      ((es.dlookup c).bind fun m => offered tg member mode except ⟨c, m⟩).toList := by
  induction es with
  | nil => rfl
  | cons e es ih =>
    obtain ⟨d, m⟩ := e
    obtain ⟨hfresh, hrest⟩ := List.nodupKeys_cons.mp hes
    rw [List.filterMap_cons]
    by_cases hd : d = c
    · subst hd
      -- The other entries are those of other clients.
      have hnil := ih hrest
      rw [List.dlookup_eq_none.mpr hfresh] at hnil
      rw [List.dlookup_cons_eq, Option.bind_some]
      cases hoff : offered tg member mode except ⟨d, m⟩ with
      | none => exact hnil
      | some l =>
        rw [List.filter_cons_of_pos (by simpa using client_of_offered hoff), hnil]
        rfl
    · rw [List.dlookup_cons_ne es ⟨d, m⟩ (Ne.symm hd), ← ih hrest]
      cases hoff : offered tg member mode except ⟨d, m⟩ with
      | none => rfl
      | some l =>
        rw [List.filter_cons_of_neg (by simpa [client_of_offered hoff] using hd)]

/-- A route offers each of its members once, at most. -/
theorem filter_offersOn (r : Router) (tg : RouteId) (except : Option ClientId) (c : ClientId)
    (t : RouteId) :
    (r.offersOn tg except t).filter (fun l => l.client = c) =
      (r.link tg except c t).toList := by
  rw [offersOn, link]
  cases r.routes.lookup t with
  | none => rfl
  | some route =>
    exact filter_offered tg t route.mode except c route.members.nodupKeys

/-- What is visited for a client is its link on each of the routes, in their order. -/
theorem filter_offers (r : Router) (tg : RouteId) (except : Option ClientId) (c : ClientId) :
    (r.offers tg except).filter (fun l => l.client = c) =
      (r.joined tg).filterMap (r.link tg except c) := by
  rw [offers, List.filter_flatMap, List.filterMap_eq_flatMap_toList]
  exact congrArg (fun f => List.flatMap f (r.joined tg))
    (funext fun t => filter_offersOn r tg except c t)

theorem mem_offers {r : Router} {tg : RouteId} {except : Option ClientId} {l : Listener} :
    l ∈ r.offers tg except ↔ ∃ t ∈ r.joined tg, r.Serves tg except l t := by
  have hmem : l ∈ r.offers tg except ↔
      l ∈ (r.offers tg except).filter fun x => x.client = l.client := by simp
  rw [hmem, filter_offers, List.mem_filterMap]
  exact exists_congr fun t => and_congr_right fun _ => by simp [link_eq_some_iff]

/-! ### The listener list -/

/-- Two routers with the same patch table, the same routes and the same members, whose hash maps may
list them in any order. -/
structure SameChannels (r r' : Router) : Prop where
  patches : r'.patches = r.patches
  mode : ∀ t, (r'.routes.lookup t).map Route.mode = (r.routes.lookup t).map Route.mode
  members : ∀ t c, ((r'.routes.lookup t).bind fun route => route.members.lookup c) =
    (r.routes.lookup t).bind fun route => route.members.lookup c

theorem SameChannels.link {r r' : Router} (h : SameChannels r r') (tg : RouteId)
    (except : Option ClientId) (c : ClientId) (t : RouteId) :
    r'.link tg except c t = r.link tg except c t := by
  have hmode := h.mode t
  have hmembers := h.members t c
  unfold Router.link
  cases hroute : r.routes.lookup t with
  | none =>
    rw [hroute] at hmode
    rw [Option.map_eq_none_iff.mp hmode]
  | some route =>
    rw [hroute] at hmode hmembers
    obtain ⟨route', hroute', hsame⟩ := Option.map_eq_some_iff.mp hmode
    rw [hroute'] at hmembers ⊢
    simp only [Option.bind_some] at hmembers ⊢
    rw [hmembers, hsame]

theorem nodup_listenersAcross (r : Router) (tg : RouteId) (except : Option ClientId) :
    ((r.listenersAcross tg except).map Listener.client).Nodup := by
  rw [listenersAcross_eq_collate]
  exact Merge.nodup_collate (r.offers tg except)

theorem ne_of_mem_listenersAcross {r : Router} {tg : RouteId} {except : Option ClientId}
    {l : Listener} (h : l ∈ r.listenersAcross tg except) : some l.client ≠ except := by
  obtain ⟨-, -, -, -, -, -, -, hne, -⟩ := mem_listenersAcross h
  exact hne

/-- Who else is left out does not show in how a client is listed. -/
theorem link_of_ne {r : Router} {tg t : RouteId} {except : Option ClientId} {c : ClientId}
    (hc : some c ≠ except) : r.link tg except c t = r.link tg none c t := by
  simp [link, hc]

/-- A client is listed alike for two speakers on one route. -/
theorem eq_of_mem_listenersAcross {r : Router} {tg : RouteId} {except except' : Option ClientId}
    {l l' : Listener} (hl : l ∈ r.listenersAcross tg except)
    (hl' : l' ∈ r.listenersAcross tg except') (hclient : l.client = l'.client) : l = l' := by
  have hne := ne_of_mem_listenersAcross hl
  have hne' := ne_of_mem_listenersAcross hl'
  rw [listenersAcross_eq_collate, Merge.mem_collate, filter_offers] at hl hl'
  rw [← hclient] at hl' hne'
  simp only [link_of_ne hne] at hl
  simp only [link_of_ne hne'] at hl'
  exact Option.some.inj (hl.symm.trans hl')

/-- **The listener list is the exact patch-wide merge.** A client other than the speaker is listed
exactly when it listens on some route of the patch, and once. It is listed with the best of its
links, in the mode of a route on which it has that link; and as somebody on the near side whenever
the best link is on the keyed route. The order of the hash maps does not show in the list as a
set. -/
theorem listenersAcross_is_merge (r : Router) (tg : RouteId) (speaker : ClientId) :
    (∀ heard, r.destinationOf speaker = some (tg, heard) →
      heard = r.listenersAcross tg (some speaker)) ∧
    (∀ c, (∃ l ∈ r.listenersAcross tg (some speaker), l.client = c) ↔
      c ≠ speaker ∧ ∃ t ∈ r.joined tg, r.listensOn t c = some true) ∧
    ((r.listenersAcross tg (some speaker)).map Listener.client).Nodup ∧
    (∀ l ∈ r.listenersAcross tg (some speaker),
      (∀ t ∈ r.joined tg, ∀ route m, r.routes.lookup t = some route →
        route.members.lookup l.client = some m → m.listen = true → m.quality ≤ l.quality) ∧
      (∃ t ∈ r.joined tg, r.Serves tg (some speaker) l t) ∧
      (∀ route m, r.routes.lookup tg = some route → route.members.lookup l.client = some m →
        m.listen = true → m.quality = l.quality → l.bridged = false)) ∧
    (∀ r', SameChannels r r' → ∀ l,
      l ∈ r'.listenersAcross tg (some speaker) ↔ l ∈ r.listenersAcross tg (some speaker)) := by
  refine ⟨fun heard hdest => ?_, fun c => ?_, ?_, fun l hl => ⟨?_, ?_, ?_⟩, fun r' hsame l => ?_⟩
  · obtain ⟨tg', -, heq⟩ := Option.map_eq_some_iff.mp hdest
    obtain ⟨rfl, rfl⟩ := Prod.mk.inj heq
    rfl
  · rw [listenersAcross_eq_collate, Merge.exists_mem_collate]
    constructor
    · rintro ⟨l, hl, rfl⟩
      obtain ⟨t, ht, route, m, hroute, hm, hlisten, hne, -⟩ := mem_offers.mp hl
      refine ⟨fun heq => hne (congrArg some heq), t, ht, ?_⟩
      rw [listensOn, hroute, Option.bind_some, hm, Option.map_some, hlisten]
    · rintro ⟨hne, t, ht, hlistens⟩
      obtain ⟨route, hroute, hm⟩ := Option.bind_eq_some_iff.mp hlistens
      obtain ⟨m, hm, hlisten⟩ := Option.map_eq_some_iff.mp hm
      refine ⟨⟨c, m.quality, route.mode, decide (t ≠ tg)⟩, mem_offers.mpr ⟨t, ht, ?_⟩, rfl⟩
      exact ⟨route, m, hroute, hm, hlisten, fun heq => hne (Option.some.inj heq), rfl, rfl, rfl⟩
  · exact nodup_listenersAcross r tg (some speaker)
  · intro t ht route m hroute hm hlisten
    rw [listenersAcross_eq_collate] at hl
    -- Whoever is listed is not the speaker, on any of its links.
    obtain ⟨-, -, -, -, -, -, -, hne, -⟩ := mem_offers.mp (Merge.mem_of_mem_collate hl)
    have hoffer : (⟨l.client, m.quality, route.mode, decide (t ≠ tg)⟩ : Listener) ∈
        r.offers tg (some speaker) :=
      mem_offers.mpr ⟨t, ht, route, m, hroute, hm, hlisten, hne, rfl, rfl, rfl⟩
    have hle := Merge.rank_le_of_mem_collate hl hoffer rfl
    exact UInt8.le_iff_toNat_le.mpr hle
  · exact mem_listenersAcross hl
  · intro route m hroute hm hlisten hbest
    rw [listenersAcross_eq_collate] at hl
    obtain ⟨-, -, -, -, -, -, -, hne, -⟩ := mem_offers.mp (Merge.mem_of_mem_collate hl)
    -- The keyed route is visited first, so no equally good link displaces the one on it.
    obtain ⟨rest, hjoined⟩ := Groups.component_eq_cons r.patches tg
    have hown : r.link tg (some speaker) l.client tg =
        some ⟨l.client, m.quality, route.mode, decide (tg ≠ tg)⟩ :=
      link_eq_some_iff.mpr ⟨rfl, route, m, hroute, hm, hlisten, hne, rfl, rfl, rfl⟩
    have hfirst := filter_offers r tg (some speaker) l.client
    rw [joined, hjoined, List.filterMap_cons_some hown] at hfirst
    rw [Merge.eq_head_of_mem_collate hl hfirst (le_of_eq (congrArg UInt8.toNat hbest.symm))]
    simp
  · rw [listenersAcross_eq_collate, listenersAcross_eq_collate]
    refine Merge.mem_collate_congr (fun c => ?_) l
    rw [filter_offers, filter_offers, joined, hsame.patches, ← joined]
    exact congrArg (fun f => List.filterMap f (r.joined tg))
      (funext fun t => hsame.link tg (some speaker) c t)

end Router

end RfxVoiced
