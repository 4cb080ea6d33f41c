import RfxVoiced.Lib.Run
import RfxVoiced.Servers.Resolve
import Mathlib.Data.Set.Function

/-!
# The local store, and the keys it gives out

Servers are enrolled, given new keys, taken off and switched by an operator. A server is given a key
when it is enrolled and whenever its key is rotated; the key it was given last should be the only
one that works. What a key works by is the hash that the index is built from, which a server that
came with a hash keeps when its key is rotated.

## Main definitions

* `Store` — the store, with the operations on it
* `Admin`, `step` — the operations as events
* `LastGiven` — the key that a server was given last, at loading or since
* `Effective` — a rotation does not reach a server that came with a hash, and no id is given twice

## Main results

* `mem_step` — what an operation can make of a server
* `Keyed.concat` — hashes go with the keys given last, after one more operation
* `resolve_enabled_iff` — along every run of such operations, a key resolves to the enabled server
  that was given it last
-/

namespace RfxVoiced

/-! ### Keys -/

/-- A byte as two hexadecimal digits. -/
def hexByte (b : UInt8) : List Char := [Nat.digitChar (b.toNat / 16), Nat.digitChar (b.toNat % 16)]

/-- A new key: 256 bits of system randomness, where there is any. -/
def mintKey (random : Option (Vector UInt8 32)) : Option String :=
  random.map fun bytes => String.ofList (bytes.toList.flatMap hexByte)

theorem mintKey_ne_empty {random : Option (Vector UInt8 32)} {key : String}
    (h : mintKey random = some key) : key ≠ "" := by
  obtain ⟨bytes, -, rfl⟩ := Option.map_eq_some_iff.mp h
  intro hempty
  have hlist : bytes.toList.flatMap hexByte = [] := by
    rw [← String.toList_ofList (l := bytes.toList.flatMap hexByte), hempty]
    rfl
  have hlen := congrArg List.length hlist
  simp [List.length_flatMap, hexByte] at hlen

/-! ### The store -/

/-- The servers that an operator has enrolled, in the order of the file. -/
structure Store where
  servers : List Server
  deriving DecidableEq, Repr

namespace Store

variable (store : Store)

/-- One more than the greatest id in use. Above the greatest of 32 bits it starts again at zero. -/
def nextId : UInt32 := (store.servers.map (·.id)).max?.getD 0 + 1

/-- Add a server. Nothing is added when there is no key to give it. -/
def enroll (name host : String) (port : UInt16) (random : Option (Vector UInt8 32)) :
    Option Server × Store :=
  match mintKey random with
  | none => (none, store)
  | some key =>
    let server : Server := ⟨store.nextId, name, host, port, key, none, true⟩
    (some server, ⟨store.servers ++ [server]⟩)

def revoke (id : UInt32) : Bool × Store :=
  let kept := store.servers.filter fun s => s.id ≠ id
  (kept.length ≠ store.servers.length, ⟨kept⟩)

/-- The loop of `rotate`: the first server with the id takes the key. -/
def rekey (id : UInt32) (key : String) : List Server → Option Server × List Server
  | [] => (none, [])
  | s :: rest =>
    -- Only the key changes: a hash that the server came with stays.
    if s.id = id then (some { s with key := key }, { s with key := key } :: rest)
    else ((rekey id key rest).1, s :: (rekey id key rest).2)

/-- Give a server a new key. The outer option is whether there was a key to give. -/
def rotate (id : UInt32) (random : Option (Vector UInt8 32)) : Option (Option Server) × Store :=
  match mintKey random with
  | none => (none, store)
  | some key =>
    let (server, servers) := rekey id key store.servers
    (some server, ⟨servers⟩)

def enabled : List Server := store.servers.filter (·.enabled)

/-- Switch the server at a place of the list on or off. -/
def setEnabled (i : ℕ) (enabled : Bool) : Store :=
  ⟨store.servers.modify i fun s => { s with enabled := enabled }⟩

end Store

/-- What an operator does. -/
inductive Admin where
  | enroll (name host : String) (port : UInt16) (random : Option (Vector UInt8 32))
  | rotate (id : UInt32) (random : Option (Vector UInt8 32))
  | revoke (id : UInt32)
  | setEnabled (i : ℕ) (enabled : Bool)

namespace Admin

/-- The key that an operation makes, whether a server takes it or not. -/
def minted : Admin → Option String
  | enroll _ _ _ random | rotate _ random => mintKey random
  | revoke _ | setEnabled _ _ => none

end Admin

namespace Store

def step (store : Store) : Admin → Store
  | .enroll name host port random => (store.enroll name host port random).2
  | .rotate id random => (store.rotate id random).2
  | .revoke id => (store.revoke id).2
  | .setEnabled i enabled => store.setEnabled i enabled

/-- The key that an operation gives, and the server that it gives it. -/
def given (store : Store) : Admin → Option (UInt32 × String)
  | .enroll _ _ _ random => (mintKey random).map fun key => (store.nextId, key)
  | .rotate id random =>
    if id ∈ store.servers.map (·.id) then (mintKey random).map fun key => (id, key) else none
  | .revoke _ | .setEnabled _ _ => none

/-- The key that an operation gives one server. -/
def givenTo (id : UInt32) (store : Store) (a : Admin) : Option String :=
  (store.given a).bind fun x => if x.1 = id then some x.2 else none

/-- The key that a server has when it is loaded: the one that its hash is of, or its own. -/
def GivenAtLoad (digests : Digests) (s : Server) (key : String) : Prop :=
  match s.keyHash with
  | some h => digests.toLowercase h = digests.sha256Hex key
  | none => s.key ≠ "" ∧ key = s.key

instance (digests : Digests) (s : Server) (key : String) :
    Decidable (GivenAtLoad digests s key) :=
  match h : s.keyHash with
  | some hash =>
    decidable_of_iff (digests.toLowercase hash = digests.sha256Hex key) (by simp [GivenAtLoad, h])
  | none => decidable_of_iff (s.key ≠ "" ∧ key = s.key) (by simp [GivenAtLoad, h])

/-- The key that a server was given last, by an operation or at loading. -/
def LastGiven (digests : Digests) (loaded : Store) (as : List Admin) (id : UInt32)
    (key : String) : Prop :=
  match lastSeen step (givenTo id) loaded as with
  | some latest => key = latest
  | none => ∃ s ∈ loaded.servers, s.id = id ∧ GivenAtLoad digests s key

/-- An operation that gives a key only where it takes effect: it does not rotate the key of a server
that came with a hash, and does not give an id that is in use. -/
def Effective (store : Store) : Admin → Prop
  | .enroll _ _ _ random => random.isSome → store.nextId ∉ store.servers.map (·.id)
  | .rotate id random => random.isSome → ∀ s ∈ store.servers, s.id = id → s.keyHash = none
  | .revoke _ | .setEnabled _ _ => True

instance (store : Store) (a : Admin) : Decidable (store.Effective a) :=
  match a with
  | .enroll _ _ _ random =>
    inferInstanceAs (Decidable (random.isSome → store.nextId ∉ store.servers.map (·.id)))
  | .rotate id random =>
    inferInstanceAs
      (Decidable (random.isSome → ∀ s ∈ store.servers, s.id = id → s.keyHash = none))
  | .revoke _ => inferInstanceAs (Decidable True)
  | .setEnabled _ _ => inferInstanceAs (Decidable True)

/-- The keys that a run makes. -/
def mintedKeys (as : List Admin) : List String := as.filterMap Admin.minted

/-! ### One operation -/

section Step

variable {digests : Digests} {store : Store} {a : Admin} {id : UInt32} {key : String}

/-- The server that takes a key keeps everything else, and the other servers stay. -/
theorem mem_rekey {servers : List Server} (hids : (servers.map (·.id)).Nodup) {s' : Server}
    (h : s' ∈ (rekey id key servers).2) :
    (s' ∈ servers ∧ s'.id ≠ id) ∨ ∃ s ∈ servers, s.id = id ∧ s' = { s with key := key } := by
  induction servers with
  | nil => exact absurd h List.not_mem_nil
  | cons s rest ih =>
    obtain ⟨hfresh, hrest⟩ := List.nodup_cons.mp hids
    unfold rekey at h
    split at h
    · next hid =>
      rcases List.mem_cons.mp h with rfl | hmem
      · exact Or.inr ⟨s, List.mem_cons_self, hid, rfl⟩
      · -- The id is not in the rest again.
        refine Or.inl ⟨List.mem_cons_of_mem s hmem, fun heq => hfresh ?_⟩
        exact List.mem_map.mpr ⟨s', hmem, heq.trans hid.symm⟩
    · next hid =>
      rcases List.mem_cons.mp h with rfl | hmem
      · exact Or.inl ⟨List.mem_cons_self, hid⟩
      · rcases ih hrest hmem with ⟨hold, hne⟩ | ⟨t, ht, htid, heq⟩
        · exact Or.inl ⟨List.mem_cons_of_mem s hold, hne⟩
        · exact Or.inr ⟨t, List.mem_cons_of_mem s ht, htid, heq⟩

theorem map_id_rekey (id : UInt32) (key : String) (servers : List Server) :
    (rekey id key servers).2.map (·.id) = servers.map (·.id) := by
  induction servers with
  | nil => rfl
  | cons s rest ih =>
    unfold rekey
    split
    · rfl
    · rw [List.map_cons, List.map_cons, ih]

/-- Switching a server changes nothing else of it. -/
theorem map_setEnabled {β : Type*} (f : Server → β)
    (hf : ∀ s enabled, f { s with enabled := enabled } = f s) (store : Store) (i : ℕ)
    (enabled : Bool) : (store.setEnabled i enabled).servers.map f = store.servers.map f := by
  unfold setEnabled
  induction store.servers generalizing i with
  | nil => simp
  | cons s rest ih =>
    cases i with
    | zero => simp [hf]
    | succ i => simp [ih]

/-- A key that is given is one that the operation made. -/
theorem minted_of_given {x : UInt32 × String} (h : store.given a = some x) :
    a.minted = some x.2 := by
  cases a with
  | enroll name host port random =>
    obtain ⟨key, hkey, rfl⟩ := Option.map_eq_some_iff.mp h
    exact hkey
  | rotate id random =>
    by_cases hid : id ∈ store.servers.map (·.id)
    · rw [given, if_pos hid] at h
      obtain ⟨key, hkey, rfl⟩ := Option.map_eq_some_iff.mp h
      exact hkey
    · rw [given, if_neg hid] at h
      contradiction
  | revoke id => contradiction
  | setEnabled i enabled => contradiction

theorem givenTo_eq_some_iff : givenTo id store a = some key ↔ store.given a = some (id, key) := by
  unfold givenTo
  rw [Option.bind_eq_some_iff]
  constructor
  · intro h
    obtain ⟨x, hx, hkey⟩ := h
    split at hkey
    · next hid =>
      rw [hx, ← hid, ← Option.some.inj hkey]
    · contradiction
  · intro h
    exact ⟨(id, key), h, if_pos rfl⟩

theorem givenTo_eq_none {x : UInt32 × String} (h : store.given a = some x) (hne : x.1 ≠ id) :
    givenTo id store a = none := by
  rw [givenTo, h, Option.bind_some, if_neg hne]

theorem givenTo_of_given_none (h : store.given a = none) (id : UInt32) :
    givenTo id store a = none := by
  rw [givenTo, h, Option.bind_none]

/-- Ids stay distinct. -/
theorem nodup_step (hok : store.Effective a) (hids : (store.servers.map (·.id)).Nodup) :
    ((store.step a).servers.map (·.id)).Nodup := by
  cases a with
  | enroll name host port random =>
    cases random with
    | none => exact hids
    | some bytes =>
      have hfresh : store.nextId ∉ store.servers.map (·.id) := hok rfl
      have hmap : (store.step (.enroll name host port (some bytes))).servers.map (·.id) =
          store.servers.map (·.id) ++ [store.nextId] := List.map_append
      rw [hmap]
      exact List.Nodup.append hids (List.nodup_singleton _)
        (List.disjoint_singleton.mpr hfresh)
  | rotate id random =>
    cases random with
    | none => exact hids
    | some bytes => exact (map_id_rekey id _ store.servers).symm ▸ hids
  | revoke id => exact hids.sublist (List.filter_sublist.map _)
  | setEnabled i enabled =>
    have hmap := map_setEnabled (·.id) (fun _ _ => rfl) store i enabled
    exact hmap.symm ▸ hids

/-- A server without a stored hash goes under the hash of its key. -/
theorem hash_of_key {s : Server} (hnone : s.keyHash = none) (hkey : key ≠ "") :
    Server.hash digests { s with key := key } = some (digests.sha256Hex key) := by
  simp only [Server.hash, hnone]
  exact if_pos hkey

/-- A key is only made of bytes that there are. -/
theorem isSome_of_mintKey {random : Option (Vector UInt8 32)} (h : mintKey random = some key) :
    random.isSome = true := by
  obtain ⟨bytes, hbytes, -⟩ := Option.map_eq_some_iff.mp h
  rw [hbytes]
  rfl

/-- Where no key can be made, nothing is enrolled. -/
theorem step_enroll_of_none {random : Option (Vector UInt8 32)} (h : mintKey random = none)
    (name host : String) (port : UInt16) :
    store.step (.enroll name host port random) = store := by
  simp only [step, enroll, h]

/-- Neither is a key replaced. -/
theorem step_rotate_of_none {random : Option (Vector UInt8 32)} (h : mintKey random = none)
    (id : UInt32) : store.step (.rotate id random) = store := by
  simp only [step, rotate, h]

/-- What an operation can make of a server: `s'` keeps the hash of a server that was there, and is
given no key, or it is given a key and goes under its hash. -/
def Follows (digests : Digests) (store : Store) (a : Admin) (s' : Server) : Prop :=
  (∃ s ∈ store.servers, s.id = s'.id ∧ s.hash digests = s'.hash digests ∧
    givenTo s'.id store a = none) ∨
  ∃ key, givenTo s'.id store a = some key ∧ s'.hash digests = some (digests.sha256Hex key)

theorem Follows.of_mem {s' : Server} (h : s' ∈ store.servers)
    (hnone : givenTo s'.id store a = none) :
    Follows digests store a s' := Or.inl ⟨s', h, rfl, rfl, hnone⟩

theorem follows_enroll {name host : String} {port : UInt16} {random : Option (Vector UInt8 32)}
    (hok : store.Effective (.enroll name host port random)) {s' : Server}
    (h : s' ∈ (store.step (.enroll name host port random)).servers) :
    Follows digests store (.enroll name host port random) s' := by
  cases hminted : mintKey random with
  | none =>
    rw [step_enroll_of_none hminted] at h
    exact .of_mem h (givenTo_of_given_none (by simp [given, hminted]) _)
  | some key =>
    have hnew : (store.step (.enroll name host port random)).servers =
        store.servers ++ [⟨store.nextId, name, host, port, key, none, true⟩] := by
      simp only [step, enroll, hminted]
    have hgiven : store.given (.enroll name host port random) = some (store.nextId, key) := by
      simp [given, hminted]
    rw [hnew] at h
    rcases List.mem_append.mp h with hold | hlast
    · -- The id of the new server is not in use, so that the others are given nothing.
      have hne : store.nextId ≠ s'.id := by
        intro heq
        exact hok (isSome_of_mintKey hminted) (heq ▸ List.mem_map_of_mem hold)
      exact .of_mem hold (givenTo_eq_none hgiven hne)
    · obtain rfl := List.mem_singleton.mp hlast
      exact Or.inr ⟨key, givenTo_eq_some_iff.mpr hgiven,
        hash_of_key (s := ⟨store.nextId, name, host, port, "", none, true⟩) rfl
          (mintKey_ne_empty hminted)⟩

theorem follows_rotate {random : Option (Vector UInt8 32)}
    (hok : store.Effective (.rotate id random)) (hids : (store.servers.map (·.id)).Nodup)
    {s' : Server} (h : s' ∈ (store.step (.rotate id random)).servers) :
    Follows digests store (.rotate id random) s' := by
  cases hminted : mintKey random with
  | none =>
    rw [step_rotate_of_none hminted] at h
    exact .of_mem h (givenTo_of_given_none (by simp [given, hminted]) _)
  | some key =>
    have hnew : (store.step (.rotate id random)).servers = (rekey id key store.servers).2 := by
      simp only [step, rotate, hminted]
    have hgiven (hmem : id ∈ store.servers.map (·.id)) :
        store.given (.rotate id random) = some (id, key) := by
      simp only [given, if_pos hmem, hminted]
      rfl
    rw [hnew] at h
    rcases mem_rekey hids h with ⟨hold, hne⟩ | ⟨s, hs, hid, rfl⟩
    · apply Follows.of_mem hold
      by_cases hmem : id ∈ store.servers.map (·.id)
      · exact givenTo_eq_none (hgiven hmem) (Ne.symm hne)
      · exact givenTo_of_given_none (by simp only [given, if_neg hmem]) _
    · have hmem : id ∈ store.servers.map (·.id) := List.mem_map.mpr ⟨s, hs, hid⟩
      refine Or.inr ⟨key, givenTo_eq_some_iff.mpr ((hgiven hmem).trans ?_), ?_⟩
      · rw [← hid]
      · exact hash_of_key (hok (isSome_of_mintKey hminted) s hs hid) (mintKey_ne_empty hminted)

/-- **What an operation can make of a server.** -/
theorem mem_step (digests : Digests) (hok : store.Effective a)
    (hids : (store.servers.map (·.id)).Nodup) {s' : Server}
    (h : s' ∈ (store.step a).servers) : Follows digests store a s' := by
  cases a with
  | enroll name host port random => exact follows_enroll hok h
  | rotate id random => exact follows_rotate hok hids h
  | revoke id => exact .of_mem (List.mem_of_mem_filter h) rfl
  | setEnabled i enabled =>
    have hmap := map_setEnabled (fun s => (s.id, s.hash digests)) (fun _ _ => rfl) store i enabled
    have hmem : (s'.id, s'.hash digests) ∈ store.servers.map fun s => (s.id, s.hash digests) := by
      rw [← hmap]
      exact List.mem_map_of_mem h
    obtain ⟨s, hs, heq⟩ := List.mem_map.mp hmem
    exact Or.inl ⟨s, hs, (Prod.mk.inj heq).1, (Prod.mk.inj heq).2, rfl⟩

end Step

/-! ### Runs -/

section Runs

variable {digests : Digests} {loaded : Store} {as : List Admin} {a : Admin} {id : UInt32}
variable {key p : String} {strings : Set String}

theorem lastGiven_of_given (h : givenTo id (run step loaded as) a = some key) :
    LastGiven digests loaded (as ++ [a]) id p ↔ p = key := by
  unfold LastGiven
  rw [lastSeen_concat, h]
  rfl

theorem lastGiven_of_none (h : givenTo id (run step loaded as) a = none) :
    LastGiven digests loaded (as ++ [a]) id p ↔ LastGiven digests loaded as id p := by
  unfold LastGiven
  rw [lastSeen_concat, h, Option.none_or]

theorem mintedKeys_append (as bs : List Admin) :
    mintedKeys (as ++ bs) = mintedKeys as ++ mintedKeys bs := List.filterMap_append

theorem mem_mintedKeys_singleton (h : a.minted = some key) : key ∈ mintedKeys [a] :=
  List.mem_filterMap.mpr ⟨a, List.mem_singleton_self a, h⟩

/-- A key that a server was given was made during the run, or was there when it began. -/
theorem known_of_lastGiven (h : LastGiven digests loaded as id p) :
    p ∈ mintedKeys as ∨ ∃ s ∈ loaded.servers, GivenAtLoad digests s p := by
  induction as using List.reverseRecOn with
  | nil =>
    obtain ⟨s, hs, -, hgiven⟩ := h
    exact Or.inr ⟨s, hs, hgiven⟩
  | append_singleton as a ih =>
    rw [mintedKeys_append, List.mem_append]
    cases hgiven : givenTo id (run step loaded as) a with
    | none => exact (ih ((lastGiven_of_none hgiven).mp h)).imp_left Or.inl
    | some key =>
      obtain rfl := (lastGiven_of_given hgiven).mp h
      have hminted := minted_of_given (givenTo_eq_some_iff.mp hgiven)
      exact Or.inl (Or.inr (mem_mintedKeys_singleton hminted))

/-- Keys that are new: no key is made twice, and none is made that a server had at loading. -/
structure Fresh (digests : Digests) (loaded : Store) (as : List Admin) : Prop where
  nodup : (mintedKeys as).Nodup
  unknown : ∀ key ∈ mintedKeys as, ∀ s ∈ loaded.servers, ¬ GivenAtLoad digests s key

theorem Fresh.of_append {bs : List Admin} (h : Fresh digests loaded (as ++ bs)) :
    Fresh digests loaded as where
  nodup := (List.nodup_append.mp (mintedKeys_append as bs ▸ h.nodup)).1
  unknown key hkey := h.unknown key (by
    rw [mintedKeys_append]
    exact List.mem_append_left _ hkey)

/-- A new key is not one that a server was given before. -/
theorem Fresh.not_lastGiven (h : Fresh digests loaded (as ++ [a])) (hkey : a.minted = some key) :
    ¬ LastGiven digests loaded as id key := by
  intro hgiven
  have hnodup := List.nodup_append.mp (mintedKeys_append as [a] ▸ h.nodup)
  rcases known_of_lastGiven hgiven with hmem | ⟨s, hs, hloaded⟩
  · exact hnodup.2.2 key hmem key (mem_mintedKeys_singleton hkey) rfl
  · refine h.unknown key ?_ s hs hloaded
    rw [mintedKeys_append]
    exact List.mem_append_right _ (mem_mintedKeys_singleton hkey)

/-- The servers after a run: their ids and their hashes are distinct, and a server goes under the
hash of a key exactly when the key is the one it was given last. -/
structure Keyed (digests : Digests) (strings : Set String) (loaded : Store) (as : List Admin) :
    Prop where
  ids : ((run step loaded as).servers.map (·.id)).Nodup
  hashes : ∀ s ∈ (run step loaded as).servers, ∀ t ∈ (run step loaded as).servers,
    ∀ hash, s.hash digests = some hash → t.hash digests = some hash → s = t
  lastGiven : ∀ s ∈ (run step loaded as).servers, ∀ p ∈ strings,
    (s.hash digests = some (digests.sha256Hex p) ↔ LastGiven digests loaded as s.id p)

/-- In a list with distinct ids, a server is known by its id. -/
theorem eq_of_id_eq {servers : List Server} (h : (servers.map (·.id)).Nodup) {s t : Server}
    (hs : s ∈ servers) (ht : t ∈ servers) (heq : s.id = t.id) : s = t :=
  List.inj_on_of_nodup_map h hs ht heq

/-- At loading, a server goes under the hash of the key that it has. -/
theorem hash_eq_iff_givenAtLoad {s : Server} (hinj : Set.InjOn digests.sha256Hex strings)
    (hkey : s.key ∈ strings) (hp : p ∈ strings) :
    s.hash digests = some (digests.sha256Hex p) ↔ GivenAtLoad digests s p := by
  cases hhash : s.keyHash with
  | some h => simp only [Server.hash, GivenAtLoad, hhash, Option.some_inj]
  | none =>
    simp only [Server.hash, GivenAtLoad, hhash]
    by_cases hempty : s.key = ""
    · simp [hempty]
    · rw [if_pos hempty, Option.some_inj, and_iff_right hempty]
      constructor
      · intro heq
        exact (hinj hkey hp heq).symm
      · intro heq
        rw [heq]

theorem Keyed.nil (hids : (loaded.servers.map (·.id)).Nodup)
    (hhashes : (loaded.servers.filterMap fun s => s.hash digests).Nodup)
    (hinj : Set.InjOn digests.sha256Hex strings) (hkeys : ∀ s ∈ loaded.servers, s.key ∈ strings) :
    Keyed digests strings loaded [] where
  ids := hids
  hashes s hs t ht hash hsh hth := by
    by_contra hne
    have hpair := List.pairwise_filterMap.mp hhashes
    have hsymm : Std.Symm fun s t : Server => ∀ h, s.hash digests = some h →
        ∀ h', t.hash digests = some h' → h ≠ h' :=
      ⟨fun s t hst h hh h' hh' heq => hst h' hh' h hh heq.symm⟩
    exact hpair.forall hs ht hne hash hsh hash hth rfl
  lastGiven s hs p hp := by
    rw [hash_eq_iff_givenAtLoad hinj (hkeys s hs) hp]
    constructor
    · intro h
      exact ⟨s, hs, rfl, h⟩
    · intro h
      obtain ⟨t, ht, hid, hgiven⟩ := h
      exact eq_of_id_eq hids ht hs hid ▸ hgiven

/-- **Hashes go with the keys given last**, after one more operation that takes effect. -/
theorem Keyed.concat (h : Keyed digests strings loaded as)
    (hok : (run step loaded as).Effective a) (hfresh : Fresh digests loaded (as ++ [a]))
    (hinj : Set.InjOn digests.sha256Hex strings)
    (hminted : ∀ key, a.minted = some key → key ∈ strings) :
    Keyed digests strings loaded (as ++ [a]) := by
  have hids : ((run step loaded (as ++ [a])).servers.map (·.id)).Nodup := by
    rw [run_concat]
    exact nodup_step hok h.ids
  have hcases {s' : Server} (hs' : s' ∈ (run step loaded (as ++ [a])).servers) :=
    mem_step digests hok h.ids (run_concat step loaded as a ▸ hs')
  -- A server that takes a new key goes under a hash that no other server had.
  have hnew {s t : Server} {key : String} (hs : s ∈ (run step loaded as).servers)
      (hkey : givenTo t.id (run step loaded as) a = some key) :
      s.hash digests ≠ some (digests.sha256Hex key) := by
    intro heq
    have hmade := minted_of_given (givenTo_eq_some_iff.mp hkey)
    exact hfresh.not_lastGiven hmade ((h.lastGiven s hs key (hminted key hmade)).mp heq)
  refine ⟨hids, ?_, ?_⟩
  · intro s' hs' t' ht' hash hsh hth
    apply eq_of_id_eq hids hs' ht'
    rcases hcases hs' with ⟨s, hs, hsid, hshash, -⟩ | ⟨key, hgiven, hkeyed⟩
    · rcases hcases ht' with ⟨t, ht, htid, hthash, -⟩ | ⟨key, hgiven, hkeyed⟩
      · rw [← hsid, ← htid, h.hashes s hs t ht hash (hshash.trans hsh) (hthash.trans hth)]
      · exact absurd (hshash.trans (hsh.trans (hth.symm.trans hkeyed))) (hnew hs hgiven)
    · rcases hcases ht' with ⟨t, ht, htid, hthash, -⟩ | ⟨key', hgiven', -⟩
      · exact absurd (hthash.trans (hth.trans (hsh.symm.trans hkeyed))) (hnew ht hgiven)
      · have hboth := (givenTo_eq_some_iff.mp hgiven).symm.trans (givenTo_eq_some_iff.mp hgiven')
        exact (Prod.mk.inj (Option.some.inj hboth)).1
  · intro s' hs' p hp
    rcases hcases hs' with ⟨s, hs, hsid, hshash, hnone⟩ | ⟨key, hgiven, hkeyed⟩
    · rw [lastGiven_of_none hnone, ← hshash, ← hsid]
      exact h.lastGiven s hs p hp
    · rw [lastGiven_of_given hgiven, hkeyed, Option.some_inj]
      have hmem := hminted key (minted_of_given (givenTo_eq_some_iff.mp hgiven))
      constructor
      · intro heq
        exact (hinj hmem hp heq).symm
      · intro heq
        rw [heq]

theorem Keyed.of_run (hids : (loaded.servers.map (·.id)).Nodup)
    (hhashes : (loaded.servers.filterMap fun s => s.hash digests).Nodup)
    (hkeys : ∀ s ∈ loaded.servers, s.key ∈ strings)
    (hminted : ∀ key ∈ mintedKeys as, key ∈ strings)
    (hinj : Set.InjOn digests.sha256Hex strings) (hfresh : Fresh digests loaded as)
    (hok : Along step Effective loaded as) : Keyed digests strings loaded as := by
  induction as using List.reverseRecOn with
  | nil => exact Keyed.nil hids hhashes hinj hkeys
  | append_singleton as a ih =>
    obtain ⟨hbefore, hlast⟩ := along_concat.mp hok
    have hmade : ∀ key, key ∈ mintedKeys as ∨ key ∈ mintedKeys [a] → key ∈ strings := by
      intro key hkey
      apply hminted
      rw [mintedKeys_append]
      exact List.mem_append.mpr hkey
    have hkeyed := ih (fun key hkey => hmade key (Or.inl hkey)) hfresh.of_append hbefore
    exact hkeyed.concat hlast hfresh hinj
      fun key hkey => hmade key (Or.inr (mem_mintedKeys_singleton hkey))

/-- No two servers that are enabled go under one hash. -/
theorem Keyed.nodup_enabled (h : Keyed digests strings loaded as) :
    ((run step loaded as).enabled.filterMap fun s => s.hash digests).Nodup := by
  apply List.pairwise_filterMap.mpr
  have hne : (run step loaded as).enabled.Pairwise (· ≠ ·) :=
    (List.Nodup.of_map _ h.ids).sublist List.filter_sublist
  refine hne.imp_of_mem ?_
  intro s t hs ht hst hash hsh hash' hth heq
  exact hst (h.hashes s (List.mem_of_mem_filter hs) t (List.mem_of_mem_filter ht) hash hsh
    (heq ▸ hth))

/-- What a key resolves to is told by the keys given last. -/
theorem Keyed.resolve_iff (h : Keyed digests strings loaded as) (hp : p ∈ strings) :
    (KeyIndex.build digests (run step loaded as).enabled).resolve digests p = some id ↔
      (∃ s ∈ (run step loaded as).enabled, s.id = id) ∧ LastGiven digests loaded as id p := by
  rw [KeyIndex.resolve_eq_lookup, KeyIndex.lookup_build_iff h.nodup_enabled]
  constructor
  · intro hfound
    obtain ⟨s, hs, rfl, hhash⟩ := hfound
    exact ⟨⟨s, hs, rfl⟩, (h.lastGiven s (List.mem_of_mem_filter hs) p hp).mp hhash⟩
  · intro hgiven
    obtain ⟨⟨s, hs, rfl⟩, hlast⟩ := hgiven
    exact ⟨s, hs, rfl, (h.lastGiven s (List.mem_of_mem_filter hs) p hp).mpr hlast⟩

/-- Where a rotation finds its server, the new key is the last one given. -/
theorem lastGiven_rotate {bytes : Vector UInt8 32}
    (hid : id ∈ (run step loaded as).servers.map (·.id)) (hkey : mintKey (some bytes) = some key) :
    LastGiven digests loaded (as ++ [.rotate id (some bytes)]) id p ↔ p = key := by
  apply lastGiven_of_given
  apply givenTo_eq_some_iff.mpr
  rw [given, if_pos hid, hkey]
  rfl

/-- **The latest key is the only key.** Take a store with distinct ids and distinct hashes, and
operations that each take effect and make new keys only, and let no two of the texts involved have
one digest. Then throughout the run a key resolves to a server exactly when the server is enabled
and the key is the one it was given last; after its key has been rotated, that is the new key. -/
theorem resolve_enabled_iff (digests : Digests) (loaded : Store) (as : List Admin)
    (strings : Set String) (hids : (loaded.servers.map (·.id)).Nodup)
    (hhashes : (loaded.servers.filterMap fun s => s.hash digests).Nodup)
    (hkeys : ∀ s ∈ loaded.servers, s.key ∈ strings)
    (hminted : ∀ key ∈ mintedKeys as, key ∈ strings)
    (hinj : Set.InjOn digests.sha256Hex strings) (hfresh : Fresh digests loaded as)
    (hok : Along step Effective loaded as) (pre : List Admin) (hpre : pre <+: as) :
    ∀ p ∈ strings, ∀ id,
      ((KeyIndex.build digests (run step loaded pre).enabled).resolve digests p = some id ↔
        (∃ s ∈ (run step loaded pre).enabled, s.id = id) ∧ LastGiven digests loaded pre id p) ∧
      ∀ before bytes, pre = before ++ [.rotate id (some bytes)] →
        (∃ s ∈ (run step loaded pre).enabled, s.id = id) →
        ((KeyIndex.build digests (run step loaded pre).enabled).resolve digests p = some id ↔
          mintKey (some bytes) = some p) := by
  obtain ⟨rest, rfl⟩ := hpre
  have hkeyed : Keyed digests strings loaded pre := by
    apply Keyed.of_run hids hhashes hkeys _ hinj hfresh.of_append (along_append.mp hok).1
    intro key hkey
    apply hminted
    rw [mintedKeys_append]
    exact List.mem_append_left _ hkey
  intro p hp id
  refine ⟨hkeyed.resolve_iff hp, ?_⟩
  rintro before bytes rfl henabled
  rw [hkeyed.resolve_iff hp, and_iff_right henabled]
  obtain ⟨s, hs, rfl⟩ := henabled
  have hid : s.id ∈ (run step loaded before).servers.map (·.id) := by
    have hmem : s.id ∈ (run step loaded (before ++ [.rotate s.id (some bytes)])).servers.map
        (·.id) := List.mem_map_of_mem (List.mem_of_mem_filter hs)
    rw [run_concat] at hmem
    exact map_id_rekey s.id _ _ ▸ hmem
  -- The key that a rotation mints is the one given last.
  rw [lastGiven_rotate hid rfl]
  simp only [mintKey, Option.map_some, Option.some_inj, eq_comm]

/-- The key of which every bit is zero. -/
def zeroKey : String := "0000000000000000000000000000000000000000000000000000000000000000"

def zeros : Vector UInt8 32 := Vector.replicate 32 0

theorem mintKey_zeros : mintKey (some zeros) = some zeroKey := by decide

/-- The digests of the texts in the examples. -/
def exampleDigests : Digests :=
  KeyIndex.tabled
    [("", "e3b0c44298fc1c149afbf4c8996fb92427ae41e4649b934ca495991b7852b855"),
      ("alpha", "8ed3f6ad685b959ead7022518e1af76cd816f8e8ec7ccdda1ed4018e8f2223f8"),
      ("bravo", "f144a6907dc4284d1f9fe6a7d9b9ff53c02c1d07ba68f24d413d7ff7f757a782"),
      (zeroKey, "60e05bd1b195af2f94112fa7197a5c88289058840ce7c6df9693756bc6250f55")]

/-- The texts in the examples. -/
def exampleTexts : Set String := {x | x ∈ ["", "alpha", "bravo", zeroKey]}

theorem injOn_exampleDigests : Set.InjOn exampleDigests.sha256Hex exampleTexts := by
  have hpairs : ∀ x ∈ ["", "alpha", "bravo", zeroKey], ∀ y ∈ ["", "alpha", "bravo", zeroKey],
      exampleDigests.sha256Hex x = exampleDigests.sha256Hex y → x = y := by decide
  intro x hx y hy
  exact hpairs x hx y hy

/-- A rotation that makes a new key. -/
theorem fresh_zeroKey (id : UInt32) :
    Fresh exampleDigests ⟨KeyIndex.exampleServers⟩ [.rotate id (some zeros)] where
  nodup := List.nodup_singleton _
  unknown := by
    have hminted : Admin.minted (.rotate id (some zeros)) = some zeroKey := mintKey_zeros
    rw [mintedKeys, List.filterMap_cons_some hminted, List.filterMap_nil]
    decide

/-- The key of a server that was enrolled with one is rotated. -/
theorem resolve_enabled_iff_alpha :
    (KeyIndex.build exampleDigests
      (run step ⟨KeyIndex.exampleServers⟩ [.rotate 1 (some zeros)]).enabled).resolve
        exampleDigests zeroKey = some 1 :=
  ((resolve_enabled_iff exampleDigests ⟨KeyIndex.exampleServers⟩ [.rotate 1 (some zeros)]
    exampleTexts (by decide) (by decide)
    (show ∀ s ∈ KeyIndex.exampleServers, s.key ∈ ["", "alpha", "bravo", zeroKey] by decide)
    (show ∀ key ∈ mintedKeys [.rotate 1 (some zeros)], key ∈ ["", "alpha", "bravo", zeroKey] by
      decide)
    injOn_exampleDigests (fresh_zeroKey 1) (by decide) _ (List.prefix_refl _) zeroKey
    (show zeroKey ∈ ["", "alpha", "bravo", zeroKey] by decide) 1).2 [] zeros rfl
    (by decide)).mpr (by decide)

/-- The key of a server that came with a hash is rotated. Ids, hashes and the new key are as they
should be, and the new key is the one that the server was given last; and yet the old one still
works and the new one does not. -/
theorem rotate_hashed_keeps_old_key :
    ((KeyIndex.exampleServers.map (·.id)).Nodup ∧
      (KeyIndex.exampleServers.filterMap fun s => s.hash exampleDigests).Nodup ∧
      Fresh exampleDigests ⟨KeyIndex.exampleServers⟩ [.rotate 2 (some zeros)] ∧
      Set.InjOn exampleDigests.sha256Hex exampleTexts) ∧
    (LastGiven exampleDigests ⟨KeyIndex.exampleServers⟩ [.rotate 2 (some zeros)] 2 zeroKey ∧
      ¬ LastGiven exampleDigests ⟨KeyIndex.exampleServers⟩ [.rotate 2 (some zeros)] 2 "bravo") ∧
    (KeyIndex.build exampleDigests
      (run step ⟨KeyIndex.exampleServers⟩ [.rotate 2 (some zeros)]).enabled).resolve
        exampleDigests "bravo" = some 2 ∧
    (KeyIndex.build exampleDigests
      (run step ⟨KeyIndex.exampleServers⟩ [.rotate 2 (some zeros)]).enabled).resolve
        exampleDigests zeroKey = none := by
  have hlast (p : String) : LastGiven exampleDigests ⟨KeyIndex.exampleServers⟩
      ([] ++ [.rotate 2 (some zeros)]) 2 p ↔ p = zeroKey :=
    lastGiven_rotate (by decide) mintKey_zeros
  refine ⟨⟨by decide, by decide, fresh_zeroKey 2, injOn_exampleDigests⟩,
    ⟨(hlast zeroKey).mpr rfl, fun h => ?_⟩, by decide, by decide⟩
  exact absurd ((hlast "bravo").mp h) (by decide)

end Runs

end Store

end RfxVoiced
