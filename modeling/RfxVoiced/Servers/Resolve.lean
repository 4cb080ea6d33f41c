import RfxVoiced.Servers
import Mathlib.Data.List.Dedup
import Mathlib.Tactic.Common

/-!
# Resolving a presented key

A key that is presented is hashed, and its hash is compared with every hash of the index. The
comparison takes as long for a near miss as for a wild guess: it runs over all bytes and collects
the differences. The index is a hash map, so that the comparisons come in no particular order.

## Main definitions

* `constantTimeEq` — the comparison
* `KeyIndex.resolve` — the server that a presented key identifies

## Main results

* `constantTimeEq_iff` — the comparison is equality
* `KeyIndex.resolve_eq_lookup` — the scan finds what a lookup of the hash finds, in any order
* `KeyIndex.resolve_build_iff` — a key identifies the server whose hash is that of the key, and no
  other
-/

namespace RfxVoiced

/-- Whether two runs of bytes are the same. The differences are collected from end to end. -/
def constantTimeEq (a b : List UInt8) : Bool :=
  if a.length ≠ b.length then false
  else (a.zip b).foldl (fun diff x => diff ||| (x.1 ^^^ x.2)) 0 == 0

/-- The bytes of a string, in UTF-8. -/
def asBytes (s : String) : List UInt8 := s.toByteArray.data.toList

theorem asBytes_injective : Function.Injective asBytes := by
  intro s t h
  apply String.toByteArray_inj.mp
  apply ByteArray.ext
  exact Array.toList_inj.mp h

/-- No difference is collected exactly when there is none. -/
theorem foldl_diff_eq_zero_iff (pairs : List (UInt8 × UInt8)) (diff : UInt8) :
    pairs.foldl (fun diff x => diff ||| (x.1 ^^^ x.2)) diff = 0 ↔
      diff = 0 ∧ ∀ x ∈ pairs, x.1 = x.2 := by
  induction pairs generalizing diff with
  | nil => simp
  | cons x pairs ih =>
    rw [List.foldl_cons, ih, UInt8.or_eq_zero_iff, UInt8.xor_eq_zero_iff, List.forall_mem_cons,
      and_assoc]

/-- **The comparison is equality.** -/
theorem constantTimeEq_iff (a b : List UInt8) : constantTimeEq a b = true ↔ a = b := by
  unfold constantTimeEq
  split
  · next h =>
    constructor
    · intro hfalse
      contradiction
    · intro heq
      exact absurd (congrArg List.length heq) h
  · next h =>
    rw [beq_iff_eq, foldl_diff_eq_zero_iff]
    have hlen : a.length = b.length := not_not.mp h
    constructor
    · intro heq
      apply List.ext_getElem hlen
      intro i ha hb
      have hmem : (a[i], b[i]) ∈ a.zip b := by
        rw [List.mem_iff_getElem]
        exact ⟨i, by rw [List.length_zip]; omega, List.getElem_zip⟩
      exact heq.2 _ hmem
    · intro heq
      subst heq
      refine ⟨rfl, fun x hx => ?_⟩
      obtain ⟨i, hi, rfl⟩ := List.mem_iff_getElem.mp hx
      simp

namespace KeyIndex

variable (digests : Digests)

/-- The server that a presented key identifies: the last of those that the scan comes by. -/
def resolve (keys : KeyIndex) (presented : String) : Option UInt32 :=
  let presented := digests.sha256Hex presented
  -- A match does not end the scan.
  keys.byHash.entries.foldl
    (fun found e => if constantTimeEq (asBytes e.1) (asBytes presented) then some e.2 else found)
    none

/-- A scan that keeps the last match finds what a lookup finds, as no key is listed twice. -/
theorem foldl_found_eq_dlookup {entries : List (Sigma fun _ : String => UInt32)}
    (h : entries.NodupKeys) (hash : String) (found : Option UInt32) :
    entries.foldl (fun found e => if e.1 = hash then some e.2 else found) found =
      (entries.dlookup hash).or found := by
  induction entries generalizing found with
  | nil => rfl
  | cons e entries ih =>
    obtain ⟨hfresh, hrest⟩ := List.nodupKeys_cons.mp h
    rw [List.foldl_cons, ih hrest]
    by_cases he : e.1 = hash
    · have hnone : entries.dlookup hash = none := List.dlookup_eq_none.mpr (he ▸ hfresh)
      rw [if_pos he, hnone]
      subst he
      rw [List.dlookup_cons_eq]
      rfl
    · rw [if_neg he, List.dlookup_cons_ne _ _ (Ne.symm he)]

/-- The scan finds what a lookup of the hash finds. -/
theorem resolve_eq_lookup (keys : KeyIndex) (presented : String) :
    keys.resolve digests presented = keys.lookup (digests.sha256Hex presented) := by
  have heq : ∀ hash : String, constantTimeEq (asBytes hash)
      (asBytes (digests.sha256Hex presented)) = true ↔ hash = digests.sha256Hex presented := by
    intro hash
    rw [constantTimeEq_iff]
    exact asBytes_injective.eq_iff
  simp only [resolve, heq]
  exact (foldl_found_eq_dlookup keys.byHash.nodupKeys _ none).trans Option.or_none

end KeyIndex

namespace Server

variable {digests : Digests} {servers : List Server} {hash : String} {id : UInt32}

theorem mem_rows : (hash, id) ∈ rows digests servers ↔
    ∃ s ∈ servers, s.id = id ∧ s.hash digests = some hash := by
  simp only [rows, List.mem_filterMap, Option.map_eq_some_iff, Prod.mk.injEq]
  constructor
  · intro h
    obtain ⟨s, hs, h', hh, rfl, rfl⟩ := h
    exact ⟨s, hs, rfl, hh⟩
  · intro h
    obtain ⟨s, hs, rfl, hh⟩ := h
    exact ⟨s, hs, hash, hh, rfl, rfl⟩

/-- The keys of the rows are the hashes of the servers that have one. -/
theorem map_fst_rows (digests : Digests) (servers : List Server) :
    (rows digests servers).map Prod.fst = servers.filterMap fun s => s.hash digests := by
  rw [rows, List.map_filterMap]
  congr 1
  funext s
  cases s.hash digests <;> rfl

end Server

namespace KeyIndex

variable {digests : Digests} {servers : List Server} {id : UInt32}

/-- In a list without two entries for one key, the first entry found is the only one. -/
theorem list_lookup_eq_some_iff {l : List (String × UInt32)} (h : (l.map Prod.fst).Nodup)
    (hash : String) : l.lookup hash = some id ↔ (hash, id) ∈ l := by
  induction l with
  | nil => simp
  | cons e l ih =>
    obtain ⟨hfresh, hrest⟩ := List.nodup_cons.mp h
    rw [List.lookup_cons, List.mem_cons]
    by_cases he : hash = e.1
    · have hnot : (hash, id) ∉ l := by
        intro hmem
        exact hfresh (he ▸ List.mem_map_of_mem hmem)
      have hbeq : (hash == e.1) = true := beq_iff_eq.mpr he
      rw [hbeq, or_iff_left hnot, Prod.ext_iff]
      change some e.2 = some id ↔ hash = e.1 ∧ id = e.2
      rw [Option.some_inj, and_iff_right he, eq_comm]
    · have hbeq : (hash == e.1) = false := beq_false_of_ne he
      rw [hbeq]
      change l.lookup hash = some id ↔ _
      rw [ih hrest, or_iff_right]
      intro heq
      exact he (congrArg Prod.fst heq)

/-- The server that a hash identifies, where no two servers share one. -/
theorem lookup_build_iff (h : (servers.filterMap fun s => s.hash digests).Nodup) (hash : String) :
    (build digests servers).lookup hash = some id ↔
      ∃ s ∈ servers, s.id = id ∧ s.hash digests = some hash := by
  have hnodup : ((Server.rows digests servers).reverse.map Prod.fst).Nodup := by
    rw [List.map_reverse, List.nodup_reverse, Server.map_fst_rows]
    exact h
  rw [lookup_build, list_lookup_eq_some_iff hnodup, List.mem_reverse, Server.mem_rows]

/-- **A key identifies exactly its server.** Where no two servers go under one hash, a key that is
presented resolves to a server exactly when the server is listed and goes under the hash of that
key. The order of the servers does not matter, and neither does that in which the index lists them.
The comparison that the scan makes is equality. -/
theorem resolve_build_iff (digests : Digests) (servers : List Server)
    (hdistinct : (servers.filterMap fun s => s.hash digests).Nodup) (keys : KeyIndex)
    (horder : keys.byHash.entries.Perm (build digests servers).byHash.entries) :
    (∀ presented id, keys.resolve digests presented = some id ↔
      ∃ s ∈ servers, s.id = id ∧ s.hash digests = some (digests.sha256Hex presented)) ∧
    ∀ a b, constantTimeEq a b = true ↔ a = b := by
  refine ⟨fun presented id => ?_, constantTimeEq_iff⟩
  have hsame : keys.lookup (digests.sha256Hex presented) =
      (build digests servers).lookup (digests.sha256Hex presented) := AList.perm_lookup horder
  rw [resolve_eq_lookup, hsame, lookup_build_iff hdistinct]

/-- The digests of the texts in a table. -/
def tabled (table : List (String × String)) : Digests where
  toLowercase s := String.ofList (s.toList.map Char.toLower)
  sha256Hex s := (table.lookup s).getD ""

/-- One server that was enrolled with a key, and one that came with a hash in capitals. -/
def exampleServers : List Server :=
  [⟨1, "A", "127.0.0.1", 30120, "alpha", none, true⟩,
    ⟨2, "B", "127.0.0.1", 30121, "",
      some "F144A6907DC4284D1F9FE6A7D9B9FF53C02C1D07BA68F24D413D7FF7F757A782", true⟩]

def exampleDigests : Digests :=
  tabled
    [("alpha", "8ed3f6ad685b959ead7022518e1af76cd816f8e8ec7ccdda1ed4018e8f2223f8"),
      ("bravo", "f144a6907dc4284d1f9fe6a7d9b9ff53c02c1d07ba68f24d413d7ff7f757a782")]

theorem resolve_build_iff_bravo :
    (exampleServers.filterMap fun s => s.hash exampleDigests).Nodup ∧
      (build exampleDigests exampleServers).resolve exampleDigests "bravo" = some 2 :=
  ⟨by decide, ((resolve_build_iff exampleDigests exampleServers (by decide) _
    (List.Perm.refl _)).1 "bravo" 2).mpr (by decide)⟩

end KeyIndex

end RfxVoiced
