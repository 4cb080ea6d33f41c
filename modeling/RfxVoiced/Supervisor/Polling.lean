import RfxVoiced.Node.Calls
import RfxVoiced.Supervisor

/-!
# Polls that fail

A poll that gets no answer runs with the cache. It is meant to leave everything as it is, and it
does when the cache holds what the node is running with. Two things part the two: an answer whose
caching failed, and a patch table that was set from a console since.

## Main definitions

* `Supervisor.SameService` — the attached set, the key index and the patch table are the same
* `Supervisor.CacheAgrees` — the cache holds what the node is running with

## Main results

* `failedPolls_iff_along` — the failed polls of a run change nothing exactly when each of them
  finds a cache that agrees
* `sameService_of_cached` — from an answer that was cached on, failed polls change nothing while
  nobody sets the patch table
-/

namespace RfxVoiced

namespace Supervisor

variable {host : Host} {digests : Digests}

/-- Two states attach the same servers, authenticate the same keys and patch the same channels. -/
structure SameService (s s' : Supervisor host) : Prop where
  attached : s'.attached = s.attached
  keys : ∀ hash, s'.keys.lookup hash = s.keys.lookup hash
  patches : s'.node.router.patches = s.node.router.patches

/-- What a poll that fails runs with: the cache, or nothing. -/
def lastKept (s : Supervisor host) : ServerList := s.cache.getD ⟨[], []⟩

/-- The cache lists the servers that the node is running with, under the same hashes, and has the
patch table that is in force. -/
structure CacheAgrees (digests : Digests) (s : Supervisor host) : Prop where
  ids : ∀ id, (∃ x ∈ s.lastKept.servers, x.id = id) ↔ ∃ x ∈ s.list, x.id = id
  hashes : ∀ hash, (Server.rows digests (Platform.convert s.lastKept)).reverse.lookup hash =
    (Server.rows digests s.list).reverse.lookup hash
  patches : s.lastKept.patches = s.node.router.patches

theorem SameService.trans {s s' s'' : Supervisor host} (h : SameService s s')
    (h' : SameService s' s'') : SameService s s'' :=
  ⟨h'.attached.trans h.attached, fun hash => (h'.keys hash).trans (h.keys hash),
    h'.patches.trans h.patches⟩

/-! ### One poll -/

/-- A poll that fails runs with what was kept last. -/
theorem resolve_none (s : Supervisor host) :
    (Platform.resolve s.cache none).1.servers = Platform.convert s.lastKept ∧
      (Platform.resolve s.cache none).1.patches = s.lastKept.patches := by
  unfold lastKept
  cases s.cache <;> exact ⟨rfl, rfl⟩

theorem list_step_poll (digests : Digests) (s : Supervisor host)
    (fetched : Option (ServerList × CacheWrite)) :
    (s.step digests (.poll fetched)).list = (Platform.resolve s.cache fetched).1.servers :=
  congrArg Prod.fst (kept_reconcile digests (s.adopt (Platform.resolve s.cache fetched)))

theorem cache_step_poll (digests : Digests) (s : Supervisor host)
    (fetched : Option (ServerList × CacheWrite)) :
    (s.step digests (.poll fetched)).cache = (Platform.resolve s.cache fetched).2 :=
  congrArg (fun x => x.2.1) (kept_reconcile digests (s.adopt (Platform.resolve s.cache fetched)))

theorem patches_step_poll (digests : Digests) (s : Supervisor host)
    (fetched : Option (ServerList × CacheWrite)) :
    (s.step digests (.poll fetched)).node.router.patches =
      (Platform.resolve s.cache fetched).1.patches :=
  congrArg (fun x => x.2.2.2)
    (kept_reconcile digests (s.adopt (Platform.resolve s.cache fetched)))

theorem mem_convert {list : ServerList} {id : UInt32} :
    (∃ x ∈ Platform.convert list, x.id = id) ↔ ∃ x ∈ list.servers, x.id = id := by
  simp [Platform.convert]

/-- A failed poll changes nothing exactly when the cache agrees with what is served. -/
theorem sameService_failed_iff {s : Supervisor host} (h : Serves digests s) :
    SameService s (s.step digests (.poll none)) ↔ CacheAgrees digests s := by
  have hafter : Serves digests (s.step digests (.poll none)) := serves_step h (.poll none)
  obtain ⟨hservers, hpatches⟩ := resolve_none s
  have hlist := list_step_poll digests s none
  rw [hservers] at hlist
  have hattached : (s.step digests (.poll none)).attached = s.attached ↔
      ∀ id, (∃ x ∈ s.lastKept.servers, x.id = id) ↔ ∃ x ∈ s.list, x.id = id := by
    simp only [Finset.ext_iff, hafter.attached_iff, h.attached_iff, hlist, mem_convert]
  have hkeys : ∀ hash, ((s.step digests (.poll none)).keys.lookup hash = s.keys.lookup hash ↔
      (Server.rows digests (Platform.convert s.lastKept)).reverse.lookup hash =
        (Server.rows digests s.list).reverse.lookup hash) := by
    intro hash
    rw [hafter.keys, h.keys, KeyIndex.lookup_build, KeyIndex.lookup_build, hlist]
  have hpatched : (s.step digests (.poll none)).node.router.patches = s.node.router.patches ↔
      s.lastKept.patches = s.node.router.patches := by
    rw [patches_step_poll, hpatches]
  constructor
  · rintro ⟨hs, hk, hp⟩
    exact ⟨hattached.mp hs, fun hash => (hkeys hash).mp (hk hash), hpatched.mp hp⟩
  · rintro ⟨hs, hk, hp⟩
    exact ⟨hattached.mpr hs, fun hash => (hkeys hash).mpr (hk hash), hpatched.mpr hp⟩

/-! ### Runs -/

/-- A poll that fails leaves the service as it was. -/
def FailedPollKeeps (digests : Digests) (s : Supervisor host) : SupervisorEvent → Prop
  | .poll none => SameService s (s.step digests (.poll none))
  | _ => True

/-- A poll that fails finds a cache that agrees. -/
def FailedPollAgrees (digests : Digests) (s : Supervisor host) : SupervisorEvent → Prop
  | .poll none => CacheAgrees digests s
  | _ => True

/-- The failed polls of a run change nothing exactly when each of them finds a cache that holds
what the node is running with. -/
theorem failedPolls_iff_along (host : Host) (digests : Digests) (recording : Bool)
    (cache : Option ServerList) (fetched : Option (ServerList × CacheWrite))
    (es : List SupervisorEvent) :
    Along (step digests) (FailedPollKeeps digests)
        (boot host digests recording cache fetched) es ↔
      Along (step digests) (FailedPollAgrees digests)
        (boot host digests recording cache fetched) es := by
  refine along_congr (P := Serves digests) (fun s e h => serves_step h e) (fun s e h => ?_)
    (serves_boot digests recording cache fetched) es
  rcases e with (_ | answer) | e
  · exact sameService_failed_iff h
  · exact Iff.rfl
  · exact Iff.rfl

/-- The node of the two outages below: one server, and talkgroups 1 and 2 patched. -/
def oneServer : ServerList := ⟨[⟨7, "A", "10.0.0.7", 30120, "5e"⟩], [[1, 2]]⟩

/-- An answer that could not be cached is forgotten by the next poll, which takes its server down
when it fails; and a patch made on a console is undone by the next poll that fails. -/
theorem outage_detaches :
    ¬ Along (step ⟨id, id⟩) (FailedPollKeeps ⟨id, id⟩)
        (boot quietHost ⟨id, id⟩ false none (some (oneServer, .spoiled)))
        [.poll none] ∧
      ¬ Along (step ⟨id, id⟩) (FailedPollKeeps ⟨id, id⟩)
        (boot quietHost ⟨id, id⟩ false none (some (oneServer, .written)))
        [.plane (.console "patches.set"
          (.object [("groups", .array [.array [.int 3, .int 4]])]) none), .poll none] := by
  constructor
  · rintro ⟨hkeeps, -⟩
    exact absurd hkeeps.attached (by decide)
  · rintro ⟨-, hkeeps, -⟩
    exact absurd hkeeps.patches (by decide)

/-! ### Outages -/

/-- The poll gets no answer, or the event sets no patch table. -/
def Undisturbed (s : Supervisor host) : SupervisorEvent → Prop
  | .poll fetched => fetched = none
  | .plane e => ∀ groups, Router.Op.setPatches groups ∉ s.node.calls e

/-- An event of another plane changes the patch table only through a call that sets it. -/
theorem patches_step_plane {s : Supervisor host} {e : Event}
    (he : Undisturbed s (.plane e)) : (s.node.step e).router.patches = s.node.router.patches := by
  rw [Node.router_step]
  refine run_invariant_mem (P := fun r : Router => r.patches = s.node.router.patches) ?_ rfl
  intro r op hop hr
  rw [Router.patches_step (r := r) fun groups heq => he groups (heq ▸ hop), hr]

/-- The node runs with the cache, and nothing else has been patched since. -/
structure RunsOnCache (s : Supervisor host) : Prop where
  list : s.list = Platform.convert s.lastKept
  patches : s.node.router.patches = s.lastKept.patches

theorem RunsOnCache.cacheAgrees {s : Supervisor host} (h : RunsOnCache s) :
    CacheAgrees digests s where
  ids id := by rw [h.list, mem_convert]
  hashes hash := by rw [h.list]
  patches := h.patches.symm

theorem runsOnCache_cached (s : Supervisor host) (list : ServerList) :
    RunsOnCache (s.step digests (.poll (some (list, .written)))) := by
  have hkept : (s.step digests (.poll (some (list, .written)))).lastKept = list := by
    rw [lastKept, cache_step_poll]
    rfl
  refine ⟨?_, ?_⟩
  · rw [list_step_poll, hkept]
    rfl
  · rw [patches_step_poll, hkept]
    rfl

theorem runsOnCache_failed (s : Supervisor host) :
    RunsOnCache (s.step digests (.poll none)) := by
  obtain ⟨hservers, hpatches⟩ := resolve_none s
  have hkept : (s.step digests (.poll none)).lastKept = s.lastKept := by
    rw [lastKept, cache_step_poll, Platform.resolve_none_cache, lastKept]
  exact ⟨by rw [list_step_poll, hservers, hkept], by rw [patches_step_poll, hpatches, hkept]⟩

/-- From an answer that was cached on, failed polls change nothing while nobody sets the patch
table. -/
theorem sameService_of_cached {s : Supervisor host} (h : Serves digests s) (list : ServerList)
    {es : List SupervisorEvent}
    (hes : Along (step digests) Undisturbed (s.step digests (.poll (some (list, .written)))) es) :
    SameService (s.step digests (.poll (some (list, .written))))
      (run (step digests) (s.step digests (.poll (some (list, .written)))) es) := by
  have hserves := serves_step h (.poll (some (list, .written)))
  have hruns : RunsOnCache (s.step digests (.poll (some (list, .written)))) :=
    runsOnCache_cached s list
  generalize s.step digests (.poll (some (list, .written))) = s₁ at hes hserves hruns ⊢
  -- The node goes on running with its cache, so each failed poll finds one that agrees.
  suffices hall : Serves digests (run (step digests) s₁ es) ∧
      RunsOnCache (run (step digests) s₁ es) ∧ SameService s₁ (run (step digests) s₁ es) from
    hall.2.2
  refine run_induction
    (P := fun s => Serves digests s ∧ RunsOnCache s ∧ SameService s₁ s) ?_
    ⟨hserves, hruns, rfl, fun _ => rfl, rfl⟩ hes
  rintro s' e he ⟨hserves', hruns', hsame'⟩
  refine ⟨serves_step hserves' e, ?_⟩
  cases e with
  | poll fetched =>
    obtain rfl : fetched = none := he
    exact ⟨runsOnCache_failed s',
      hsame'.trans ((sameService_failed_iff hserves').mpr hruns'.cacheAgrees)⟩
  | plane e =>
    have hpatches := patches_step_plane he
    exact ⟨⟨hruns'.list, hpatches.trans hruns'.patches⟩,
      hsame'.attached, hsame'.keys, hpatches.trans hsame'.patches⟩

end Supervisor

end RfxVoiced
