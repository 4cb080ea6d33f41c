import RfxVoiced.Servers.Cli
import Mathlib.Logic.Encodable.Basic
import Mathlib.Logic.Equiv.List

/-!
# What an operator can rely on

An operator works with what the program prints: the key of a server when it is made, and that a
server is revoked. The node works with the file. Between the two there are any number of runs, each
of which reads the file that the last one left; some are refused, fail for want of randomness, or
cannot write the file.

## Main definitions

* `Desk`, `Desk.step` — the file, beside the book that an operator keeps of what is printed
* `Store.keyOf` — the key that the store has for a server
* `Store.Local` — what a store is that was made by commands
* `Desk.Kept` — the file holds what some of the commands make of an empty store, and the book agrees

## Main results

* `Store.keyOf_step` — what an operation does to the keys
* `Store.local_run` — commands take effect, and leave a store that was made by commands
* `exists_kept` — file and book agree after any number of runs
* `book_resolves` — a node that starts from the file knows a server by the key that stands in the
  book, and by no other
* `lists_book` — the servers can be listed, and what is shown is what stands in the book
-/

namespace RfxVoiced

/-! ### The keys in a store -/

/-- There is a command for an operation; servers are only switched by hand. -/
def Admin.HasCommand : Admin → Prop
  | enroll _ _ _ _ | rotate _ _ | revoke _ => True
  | setEnabled _ _ => False

namespace Store

variable {store : Store} {a : Admin} {id : UInt32} {key : String} {made : List String} {n : ℕ}
  {as : List Admin}

/-- The key that the store has for a server. -/
def keyOf (store : Store) (id : UInt32) : Option String :=
  (store.servers.find? fun s => s.id = id).map (·.key)

theorem keyOf_eq_some_iff (hids : (store.servers.map (·.id)).Nodup) :
    store.keyOf id = some key ↔ ∃ s ∈ store.servers, s.id = id ∧ s.key = key := by
  rw [keyOf, Option.map_eq_some_iff]
  constructor
  · rintro ⟨s, hs, hkey⟩
    exact ⟨s, List.mem_of_find?_eq_some hs, by simpa using List.find?_some hs, hkey⟩
  · rintro ⟨s, hs, hid, hkey⟩
    have hsome : (store.servers.find? fun t => t.id = id).isSome :=
      List.find?_isSome.mpr ⟨s, hs, decide_eq_true hid⟩
    obtain ⟨t, ht⟩ := Option.isSome_iff_exists.mp hsome
    have htid : t.id = id := by simpa using List.find?_some ht
    obtain rfl := eq_of_id_eq hids hs (List.mem_of_find?_eq_some ht) (hid.trans htid.symm)
    exact ⟨s, ht, hkey⟩

theorem keyOf_eq_none (h : id ∉ store.servers.map (·.id)) : store.keyOf id = none := by
  rw [keyOf, Option.map_eq_none_iff, List.find?_eq_none]
  intro s hs hid
  exact h (of_decide_eq_true hid ▸ List.mem_map_of_mem hs)

/-- Where a server takes a key, its key is that; the keys of the others stay. -/
theorem keyOf_rekey (id' : UInt32) (servers : List Server) :
    keyOf ⟨(rekey id key servers).2⟩ id' =
      if id = id' ∧ id ∈ servers.map (·.id) then some key else keyOf ⟨servers⟩ id' := by
  induction servers with
  | nil => simp [rekey, keyOf]
  | cons s rest ih =>
    unfold rekey
    by_cases hid : s.id = id
    · rw [if_pos hid]
      by_cases hid' : id = id'
      · simp [keyOf, hid, hid']
      · simp [keyOf, hid, hid']
    · rw [if_neg hid]
      by_cases hid' : s.id = id'
      · have hne : id ≠ id' := fun h => hid (hid'.trans h.symm)
        simp [keyOf, hid', hne]
      · simpa [keyOf, hid', Ne.symm hid] using ih

theorem givenTo_of_given {x : UInt32 × String} (h : store.given a = some x) (id : UInt32) :
    givenTo id store a = if x.1 = id then some x.2 else none := by
  rw [givenTo, h, Option.bind_some]

theorem keyOf_enroll {name host : String} {port : UInt16} {random : Option (Vector UInt8 32)}
    (hok : store.Effective (.enroll name host port random)) (id : UInt32) :
    (store.step (.enroll name host port random)).keyOf id =
      (givenTo id store (.enroll name host port random)).or (store.keyOf id) := by
  cases hkey : mintKey random with
  | none =>
    rw [step_enroll_of_none hkey, givenTo_of_given_none (by simp [given, hkey]), Option.none_or]
  | some key =>
    have hgiven : store.given (.enroll name host port random) = some (store.nextId, key) := by
      simp [given, hkey]
    rw [givenTo_of_given hgiven]
    have hstep : (store.step (.enroll name host port random)).servers =
        store.servers ++ [⟨store.nextId, name, host, port, key, none, true⟩] := by
      simp [step, enroll, hkey]
    have hfresh := keyOf_eq_none (hok (isSome_of_mintKey hkey))
    rw [keyOf, Option.map_eq_none_iff] at hfresh
    rw [keyOf, keyOf, hstep, List.find?_append]
    by_cases hid : store.nextId = id
    · -- The id was not in use, and the last server is the first with it.
      subst hid
      simp [hfresh]
    · simp [hid]

theorem keyOf_rotate (id' : UInt32) (random : Option (Vector UInt8 32)) (id : UInt32) :
    (store.step (.rotate id' random)).keyOf id =
      (givenTo id store (.rotate id' random)).or (store.keyOf id) := by
  cases hkey : mintKey random with
  | none =>
    rw [step_rotate_of_none hkey, givenTo_of_given_none (by simp [given, hkey]), Option.none_or]
  | some key =>
    have hstep : store.step (.rotate id' random) = ⟨(rekey id' key store.servers).2⟩ := by
      simp only [step, rotate, hkey]
    rw [hstep, keyOf_rekey]
    by_cases hmem : id' ∈ store.servers.map (·.id)
    · have hgiven : store.given (.rotate id' random) = some (id', key) := by
        rw [given, if_pos hmem, hkey]
        rfl
      rw [givenTo_of_given hgiven]
      by_cases hid : id' = id
      · rw [if_pos ⟨hid, hmem⟩, if_pos hid, Option.some_or]
      · rw [if_neg fun h => hid h.1, if_neg hid, Option.none_or]
    · rw [if_neg fun h => hmem h.2, givenTo_of_given_none (by rw [given, if_neg hmem]),
        Option.none_or]

theorem keyOf_revoke (id' id : UInt32) :
    (store.step (.revoke id')).keyOf id = if id' = id then none else store.keyOf id := by
  split
  · next hid =>
    apply keyOf_eq_none
    simp [step, revoke, hid]
  · next hid =>
    simp only [step, revoke, keyOf, List.find?_filter]
    congr 2
    funext s
    by_cases hs : s.id = id
    · simp [hs, Ne.symm hid]
    · simp [hs]

/-- **What an operation does to the keys**: a server that is revoked has none, and one that is given
a key has that. -/
theorem keyOf_step (hok : store.Effective a) (hcommand : a.HasCommand) (id : UInt32) :
    (store.step a).keyOf id =
      if a.revokes = some id then none else (givenTo id store a).or (store.keyOf id) := by
  cases a with
  | enroll name host port random => exact keyOf_enroll hok id
  | rotate id' random => exact keyOf_rotate id' random id
  | revoke id' => simp [keyOf_revoke, Admin.revokes, givenTo, given]
  | setEnabled i enabled => exact hcommand.elim

/-! ### Stores that were made by commands -/

/-- A store that was made by so many commands: the keys of its servers were made by them, ids are
small, and no server came with a hash or was switched off. -/
structure Local (made : List String) (n : ℕ) (store : Store) : Prop where
  ids : (store.servers.map (·.id)).Nodup
  low : ∀ s ∈ store.servers, s.id.toNat ≤ n
  key : ∀ s ∈ store.servers, s.key ∈ made
  keyHash : ∀ s ∈ store.servers, s.keyHash = none
  enabled : ∀ s ∈ store.servers, s.enabled = true

/-- The greater of two numbers of 32 bits is the least that neither is above. -/
instance : Std.LawfulOrderMax UInt32 := by
  apply Std.LawfulOrderMax.of_max_le_iff
  · intro a b c
    change (if a ≤ b then b else a) ≤ c ↔ _
    by_cases h : a ≤ b
    · rw [if_pos h]
      exact ⟨fun hb => ⟨UInt32.le_trans h hb, hb⟩, And.right⟩
    · rw [if_neg h]
      exact ⟨fun ha => ⟨ha, UInt32.le_trans ((UInt32.le_total a b).resolve_left h) ha⟩, And.left⟩
  · intro a b
    by_cases h : a ≤ b
    · exact Or.inr (if_pos h)
    · exact Or.inl (if_neg h)

/-- The id of a new server is above the others, if there is room. -/
theorem lt_nextId (hlow : ∀ s ∈ store.servers, s.id.toNat ≤ n) (hn : n + 1 < 2 ^ 32) :
    store.nextId.toNat ≤ n + 1 ∧ ∀ s ∈ store.servers, s.id < store.nextId := by
  cases hmax : (store.servers.map (·.id)).max? with
  | none =>
    have hempty : store.servers = [] := by simpa using hmax
    simp [nextId, hempty]
  | some greatest =>
    obtain ⟨hmem, hle⟩ := List.max?_eq_some_iff.mp hmax
    obtain ⟨t, ht, rfl⟩ := List.mem_map.mp hmem
    have hnext : store.nextId.toNat = t.id.toNat + 1 := by
      have hlow := hlow t ht
      rw [nextId, hmax, Option.getD_some, UInt32.toNat_add]
      exact Nat.mod_eq_of_lt (by simpa using by omega)
    refine ⟨hnext ▸ Nat.succ_le_succ (hlow t ht), fun s hs => ?_⟩
    have hst : s.id.toNat ≤ t.id.toNat := UInt32.le_iff_toNat_le.mp (hle _ (List.mem_map_of_mem hs))
    exact UInt32.lt_iff_toNat_lt.mpr (by omega)

theorem Local.effective (h : Local made n store) (hn : n + 1 < 2 ^ 32)
    (hcommand : a.HasCommand) : store.Effective a := by
  cases a with
  | enroll name host port random =>
    intro _ hmem
    obtain ⟨s, hs, hid⟩ := List.mem_map.mp hmem
    exact (UInt32.ne_of_lt ((lt_nextId h.low hn).2 s hs)) hid
  | rotate id random => exact fun _ s hs _ => h.keyHash s hs
  | revoke id => trivial
  | setEnabled i enabled => exact hcommand.elim

/-- What a command makes of a server: it was there, with another key perhaps that is new, or it is
the one that is enrolled. -/
theorem mem_command (hids : (store.servers.map (·.id)).Nodup) (hcommand : a.HasCommand)
    {s' : Server} (hs' : s' ∈ (store.step a).servers) :
    (∃ s ∈ store.servers, s'.id = s.id ∧ s'.keyHash = s.keyHash ∧ s'.enabled = s.enabled ∧
      (s'.key = s.key ∨ a.minted = some s'.key)) ∨
    (s'.id = store.nextId ∧ s'.keyHash = none ∧ s'.enabled = true ∧ a.minted = some s'.key) := by
  cases hminted : a.minted with
  | none =>
    refine Or.inl ⟨s', ?_, rfl, rfl, rfl, Or.inl rfl⟩
    cases a with
    | enroll name host port random => rwa [step_enroll_of_none hminted] at hs'
    | rotate id random => rwa [step_rotate_of_none hminted] at hs'
    | revoke id => exact List.mem_of_mem_filter hs'
    | setEnabled i enabled => exact hcommand.elim
  | some key =>
    cases a with
    | enroll name host port random =>
      have hkey : mintKey random = some key := hminted
      simp only [Store.step, enroll, hkey, List.mem_append, List.mem_singleton] at hs'
      rcases hs' with hold | rfl
      · exact Or.inl ⟨s', hold, rfl, rfl, rfl, Or.inl rfl⟩
      · exact Or.inr ⟨rfl, rfl, rfl, rfl⟩
    | rotate id random =>
      have hkey : mintKey random = some key := hminted
      simp only [Store.step, rotate, hkey] at hs'
      rcases mem_rekey hids hs' with ⟨hold, -⟩ | ⟨s, hs, -, rfl⟩
      · exact Or.inl ⟨s', hold, rfl, rfl, rfl, Or.inl rfl⟩
      · exact Or.inl ⟨s, hs, rfl, rfl, rfl, Or.inr rfl⟩
    | revoke id => cases hminted
    | setEnabled i enabled => cases hminted

/-- **A command leaves a store that was made by commands.** -/
theorem Local.step (h : Local made n store) (hn : n + 1 < 2 ^ 32) (hcommand : a.HasCommand) :
    Local (made ++ a.minted.toList) (n + 1) (store.step a) where
  ids := nodup_step (h.effective hn hcommand) h.ids
  low s' hs' := by
    rcases mem_command h.ids hcommand hs' with ⟨s, hs, hid, -⟩ | ⟨hid, -⟩
    · exact hid ▸ (h.low s hs).trans n.le_succ
    · exact hid ▸ (lt_nextId h.low hn).1
  key s' hs' := by
    rcases mem_command h.ids hcommand hs' with ⟨s, hs, -, -, -, hkey | hkey⟩ | ⟨-, -, -, hkey⟩
    · exact List.mem_append_left _ (hkey ▸ h.key s hs)
    · exact List.mem_append_right _ (by simp [hkey])
    · exact List.mem_append_right _ (by simp [hkey])
  keyHash s' hs' := by
    rcases mem_command h.ids hcommand hs' with ⟨s, hs, -, hhash, -⟩ | ⟨-, hhash, -⟩
    · exact hhash.trans (h.keyHash s hs)
    · exact hhash
  enabled s' hs' := by
    rcases mem_command h.ids hcommand hs' with ⟨s, hs, -, -, henabled, -⟩ | ⟨-, -, henabled, -⟩
    · exact henabled.trans (h.enabled s hs)
    · exact henabled

theorem local_run (hcommand : ∀ a ∈ as, a.HasCommand) (hlen : as.length < 2 ^ 32) :
    Along Store.step Effective ⟨[]⟩ as ∧
      Local (mintedKeys as) as.length (run Store.step ⟨[]⟩ as) := by
  induction as using List.reverseRecOn with
  | nil =>
    refine ⟨trivial, List.nodup_nil, ?_, ?_, ?_, ?_⟩ <;> intro s hs <;>
      exact absurd hs List.not_mem_nil
  | append_singleton as a ih =>
    rw [List.length_append, List.length_singleton] at hlen
    obtain ⟨halong, hlocal⟩ := ih (fun b hb => hcommand b (List.mem_append_left _ hb)) (by omega)
    have ha := hcommand a (List.mem_append_right _ (List.mem_singleton_self a))
    have hkeys : mintedKeys (as ++ [a]) = mintedKeys as ++ a.minted.toList := by
      rw [mintedKeys_append]
      cases hminted : a.minted <;> simp [mintedKeys, hminted]
    refine ⟨along_concat.mpr ⟨halong, hlocal.effective hlen ha⟩, ?_⟩
    rw [run_concat, hkeys, List.length_append, List.length_singleton]
    exact hlocal.step hlen ha

end Store

/-! ### File and book -/

/-- The file, and the book that an operator keeps: the key of each server that is enrolled. -/
structure Desk where
  file : Option String
  book : UInt32 → Option String

namespace Desk

variable {codec : Codec} {path version : String} {invs : List Invocation} {as : List Admin}

/-- The book after a run: a server that was revoked is struck off, and a key that was printed is
entered. -/
def noted (book : UInt32 → Option String) (o : Outcome) (id : UInt32) : Option String :=
  if .revoked id ∈ o.printed then none else (Cli.tells id o).or (book id)

/-- A run of the program. -/
def step (codec : Codec) (path version : String) (desk : Desk) (inv : Invocation) : Desk :=
  let result := cli codec path version desk.file inv
  ⟨result.2, noted desk.book result.1⟩

/-- There is no file, and nothing stands in the book. -/
def new : Desk := ⟨none, fun _ => none⟩

/-- A run that writes the file whole, or leaves it. -/
def Whole (desk : Desk) (inv : Invocation) : Prop := Cli.Whole desk.file inv.fate

/-- The file holds what some of the commands make of an empty store, and the book agrees with it. -/
structure Kept (codec : Codec) (path : String) (invs : List Invocation) (as : List Admin)
    (desk : Desk) : Prop where
  sublist : as.Sublist (invs.filterMap Cli.operation)
  load : Store.load codec path desk.file true = .ok (run Store.step ⟨[]⟩ as)
  book : desk.book = (run Store.step ⟨[]⟩ as).keyOf

theorem hasCommand_of_operation {inv : Invocation} {a : Admin} (h : Cli.operation inv = some a) :
    a.HasCommand := by
  unfold Cli.operation at h
  split at h
  · exact Option.some.inj h ▸ trivial
  · exact Option.some.inj h ▸ trivial
  · exact Option.some.inj h ▸ trivial
  · cases h

theorem Kept.hasCommand {desk : Desk} (h : Kept codec path invs as desk) :
    ∀ a ∈ as, a.HasCommand := by
  intro a ha
  obtain ⟨inv, -, hinv⟩ := List.mem_filterMap.mp (h.sublist.mem ha)
  exact hasCommand_of_operation hinv

theorem Kept.length_le {desk : Desk} (h : Kept codec path invs as desk) :
    as.length ≤ invs.length :=
  h.sublist.length_le.trans (List.length_filterMap_le _ _)

/-- What an operator takes down of a run that obeys is what the store has afterwards. -/
theorem noted_of_obeys {store : Store} {a : Option Admin} {result : Outcome × Option String}
    (hobeys : Cli.Obeys codec path store a result)
    (hok : ∀ a' ∈ a, store.Effective a' ∧ a'.HasCommand) :
    noted store.keyOf result.1 = (run Store.step store a.toList).keyOf := by
  funext id
  rw [noted, hobeys.tells]
  cases a with
  | none =>
    rw [if_neg fun h => nomatch ((hobeys.revoked id).mp h).1]
    rfl
  | some a =>
    rw [Option.toList_some, run_cons, run_nil, Store.keyOf_step (hok a rfl).1 (hok a rfl).2 id]
    by_cases hrevokes : a.revokes = some id
    · rw [if_pos hrevokes]
      by_cases hmem : id ∈ store.servers.map (·.id)
      · rw [if_pos ((hobeys.revoked id).mpr ⟨hrevokes, hmem⟩)]
      · -- A server that is not there is not said to be revoked, and had no key.
        rw [if_neg fun h => hmem ((hobeys.revoked id).mp h).2, Store.keyOf_eq_none hmem,
          Option.or_none]
        cases a with
        | revoke id' => rfl
        | enroll name host port random => cases hrevokes
        | rotate id' random => cases hrevokes
        | setEnabled i enabled => cases hrevokes
    · rw [if_neg hrevokes, if_neg fun h => hrevokes ((hobeys.revoked id).mp h).1]
      rfl

/-- **One more run** keeps file and book together. -/
theorem Kept.step {desk : Desk} (h : Kept codec path invs as desk) (version : String)
    (hcodec : ∀ store, codec.read (codec.write store) = .ok store) {inv : Invocation}
    (hwhole : Whole desk inv) (hlen : invs.length + 1 < 2 ^ 32) :
    ∃ as', Kept codec path (invs ++ [inv]) as' (desk.step codec path version inv) := by
  have hlow := h.length_le
  obtain ⟨-, hlocal⟩ := Store.local_run h.hasCommand (by omega)
  obtain ⟨a, ha, hobeys⟩ := Cli.cli_obeys version hcodec h.load hwhole
  have hsub : a.toList.Sublist ([inv].filterMap Cli.operation) := by
    rcases List.mem_pair.mp ha with rfl | rfl
    · cases hop : Cli.operation inv <;> simp [hop]
    · exact List.nil_sublist _
  refine ⟨as ++ a.toList, ?_, ?_, ?_⟩
  · rw [List.filterMap_append]
    exact h.sublist.append hsub
  · rw [run_append]
    exact hobeys.load
  · rw [run_append, ← noted_of_obeys hobeys ?_, ← h.book]
    · rfl
    · rintro a rfl
      have hop : Cli.operation inv = some a := by
        rcases List.mem_pair.mp ha with heq | heq
        · exact heq.symm
        · cases heq
      exact ⟨hlocal.effective (by omega) (hasCommand_of_operation hop),
        hasCommand_of_operation hop⟩

/-- **File and book agree** after any number of runs that each write the file whole or leave it. -/
theorem exists_kept (version : String)
    (hcodec : ∀ store, codec.read (codec.write store) = .ok store)
    (hwhole : Along (step codec path version) Whole new invs) (hlen : invs.length < 2 ^ 32) :
    ∃ as, Kept codec path invs as (run (step codec path version) new invs) := by
  induction invs using List.reverseRecOn with
  | nil => exact ⟨[], List.Sublist.refl _, rfl, rfl⟩
  | append_singleton invs inv ih =>
    rw [List.length_append, List.length_singleton] at hlen
    obtain ⟨hbefore, hlast⟩ := along_concat.mp hwhole
    obtain ⟨as, hkept⟩ := ih hbefore (by omega)
    rw [run_concat]
    exact hkept.step version hcodec hlast hlen

/-! ### An example -/

section Example

def oneKey : String := "0101010101010101010101010101010101010101010101010101010101010101"

def ones : Vector UInt8 32 := Vector.replicate 32 1

def twoKey : String := "0202020202020202020202020202020202020202020202020202020202020202"

def twos : Vector UInt8 32 := Vector.replicate 32 2

/-- A server is enrolled, its key is rotated, another one is enrolled, and is revoked again. -/
def fourRuns : List Invocation :=
  [⟨["enroll", "alpha", "10.0.0.7:30120"], some Store.zeros, true, .done⟩,
    ⟨["rotate", "1"], some ones, true, .done⟩,
    ⟨["enroll", "bravo", "10.0.0.8:30121"], some twos, true, .done⟩,
    ⟨["revoke", "2"], none, true, .done⟩]

def alpha (key : String) : Server := ⟨1, "alpha", "10.0.0.7", 30120, key, none, true⟩

def bravo (key : String) : Server := ⟨2, "bravo", "10.0.0.8", 30121, key, none, true⟩

/-- The stores that these runs find and leave. -/
def exampleStores : List Store :=
  [⟨[]⟩, ⟨[alpha Store.zeroKey]⟩, ⟨[alpha oneKey]⟩, ⟨[alpha oneKey, bravo twoKey]⟩]

/-- A server as it is written in the file, where nothing in it has to be escaped. -/
def serverText (s : Server) : String :=
  "    \x7b\n      \"id\": " ++ String.ofList (Nat.toDigits 10 s.id.toNat) ++
  ",\n      \"name\": \"" ++ s.name ++ "\",\n      \"host\": \"" ++ s.host ++
  "\",\n      \"port\": " ++ String.ofList (Nat.toDigits 10 s.port.toNat) ++
  ",\n      \"key\": \"" ++ s.key ++ "\",\n      \"key_hash\": null,\n      \"enabled\": " ++
  (if s.enabled then "true" else "false") ++ "\n    \x7d"

/-- The file of a store. -/
def storeText (store : Store) : String :=
  "\x7b" ++ ("\n  \"servers\": [" ++
    (if store.servers = [] then "" else
      "\n" ++ String.intercalate ",\n" (store.servers.map serverText) ++ "\n  ") ++ "]\n\x7d")

/-! Other stores are written as numbers. -/

local instance : Encodable Char := .ofLeftInverse Char.toNat Char.ofNat Char.ofNat_toNat

local instance : Encodable String :=
  .ofLeftInverse String.toList String.ofList fun _ => String.ofList_toList

local instance : Encodable UInt32 :=
  .ofLeftInverse UInt32.toNat UInt32.ofNat fun _ => UInt32.ofNat_toNat

local instance : Encodable UInt16 :=
  .ofLeftInverse UInt16.toNat UInt16.ofNat fun _ => UInt16.ofNat_toNat

local instance : Encodable Server :=
  .ofLeftInverse (fun s => (s.id, s.name, s.host, s.port, s.key, s.keyHash, s.enabled))
    (fun x => ⟨x.1, x.2.1, x.2.2.1, x.2.2.2.1, x.2.2.2.2.1, x.2.2.2.2.2.1, x.2.2.2.2.2.2⟩)
    fun _ => rfl

/-- The library as it writes and reads these stores. -/
def exampleCodec : Codec where
  write store :=
    if store ∈ exampleStores then storeText store
    else String.ofList ('#' :: Nat.toDigits 10 (Encodable.encode store.servers))
  read text :=
    match exampleStores.find? fun store => storeText store = text with
    | some store => .ok store
    | none =>
      match Encodable.decode (Nat.ofDigitChars 10 (text.toList.drop 1) 0) with
      | some servers => .ok ⟨servers⟩
      | none => .error "expected value"

/-- What begins like a number is not a file that begins with a brace. -/
theorem ofList_ne_brace (digits : List Char) (rest : String) :
    String.ofList ('#' :: digits) ≠ "\x7b" ++ rest := by
  intro heq
  have hhead := congrArg (fun text => text.toList.head?) heq
  simp only [String.toList_append, String.toList_ofList] at hhead
  exact absurd (Option.some.inj hhead) (by decide)

theorem exampleCodec_read_write (store : Store) :
    exampleCodec.read (exampleCodec.write store) = .ok store := by
  by_cases hstore : store ∈ exampleStores
  · have hall : ∀ store ∈ exampleStores,
        exampleCodec.read (exampleCodec.write store) = .ok store := by decide +kernel
    exact hall store hstore
  · have hnone : (exampleStores.find? fun store' => storeText store' =
        String.ofList ('#' :: Nat.toDigits 10 (Encodable.encode store.servers))) = none := by
      rw [List.find?_eq_none]
      intro store' _ heq
      exact ofList_ne_brace _ _ (of_decide_eq_true heq).symm
    simp only [exampleCodec, if_neg hstore, hnone, String.toList_ofList, List.drop_succ_cons,
      List.drop_zero, Nat.ofDigitChars_ten_toDigits, Encodable.encodek]

/-- The keys of the example. -/
def exampleKeys : Set String := {x | x ∈ [Store.zeroKey, oneKey, twoKey]}

/-- Their digests. -/
def exampleDigests : Digests :=
  KeyIndex.tabled
    [(Store.zeroKey, "60e05bd1b195af2f94112fa7197a5c88289058840ce7c6df9693756bc6250f55"),
      (oneKey, "58badd9b455145b487ad24c7f259cc437cc4ffd0784716845249321fb5961cfc"),
      (twoKey, "749f1a97ff6cd00ea46ccb3a47bb123283fe56c8fa324bea295d928f558161df")]

theorem injOn_exampleDigests : Set.InjOn exampleDigests.sha256Hex exampleKeys := by
  have hpairs : ∀ x ∈ [Store.zeroKey, oneKey, twoKey], ∀ y ∈ [Store.zeroKey, oneKey, twoKey],
      exampleDigests.sha256Hex x = exampleDigests.sha256Hex y → x = y := by decide +kernel
  intro x hx y hy
  exact hpairs x hx y hy

theorem mem_exampleKeys {key : String} (h : key ∈ [Store.zeroKey, oneKey, twoKey]) :
    key ∈ exampleKeys := h

end Example

/-! ### The node -/

/-- The keys that commands have made are not empty. -/
theorem ne_empty_of_mem_mintedKeys {key : String} (h : key ∈ Store.mintedKeys as) : key ≠ "" := by
  obtain ⟨a, -, hminted⟩ := List.mem_filterMap.mp h
  cases a with
  | enroll name host port random => exact mintKey_ne_empty hminted
  | rotate id random => exact mintKey_ne_empty hminted
  | revoke id => cases hminted
  | setEnabled i enabled => cases hminted

/-- A key resolves in a store that was made by commands to the server that has it. -/
theorem resolve_iff_keyOf {digests : Digests} {strings : Set String} {p : String} {id : UInt32}
    (hcommand : ∀ a ∈ as, a.HasCommand) (hlen : as.length < 2 ^ 32)
    (hnew : (Store.mintedKeys as).Nodup) (hstrings : ∀ key ∈ Store.mintedKeys as, key ∈ strings)
    (hinj : Set.InjOn digests.sha256Hex strings) (hp : p ∈ strings) :
    (KeyIndex.build digests (run Store.step ⟨[]⟩ as).enabled).resolve digests p = some id ↔
      (run Store.step ⟨[]⟩ as).keyOf id = some p := by
  obtain ⟨halong, hlocal⟩ := Store.local_run hcommand hlen
  have hkeyed : Store.Keyed digests strings ⟨[]⟩ as :=
    .of_run List.nodup_nil List.nodup_nil (fun s hs => absurd hs List.not_mem_nil) hstrings hinj
      ⟨hnew, fun key _ s hs => absurd hs List.not_mem_nil⟩ halong
  rw [KeyIndex.resolve_eq_lookup, KeyIndex.lookup_build_iff hkeyed.nodup_enabled,
    Store.keyOf_eq_some_iff hlocal.ids]
  have hhash : ∀ s ∈ (run Store.step ⟨[]⟩ as).servers,
      (s.hash digests = some (digests.sha256Hex p) ↔ s.key = p) := by
    intro s hs
    have hmade := hlocal.key s hs
    have heq : s.hash digests = some (digests.sha256Hex s.key) :=
      Store.hash_of_key (hlocal.keyHash s hs) (ne_empty_of_mem_mintedKeys hmade)
    rw [heq, Option.some_inj]
    exact hinj.eq_iff (hstrings _ hmade) hp
  constructor
  · rintro ⟨s, hs, hid, hfound⟩
    have hs := List.mem_of_mem_filter hs
    exact ⟨s, hs, hid, (hhash s hs).mp hfound⟩
  · rintro ⟨s, hs, hid, hkey⟩
    exact ⟨s, List.mem_filter.mpr ⟨hs, hlocal.enabled s hs⟩, hid, (hhash s hs).mpr hkey⟩

/-- **What stands in the book is what works.** From an empty start, after any number of runs of the
program, a node that reads the file knows a presented key as that of a server exactly when an
operator who has taken down what was printed has that key for that server: it was printed last for
it, and the server has not been revoked since. Runs may fail, as long as none leaves the file cut
short. -/
theorem book_resolves (codec : Codec) (path version : String) (digests : Digests)
    (strings : Set String) (invs : List Invocation)
    (hcodec : ∀ store, codec.read (codec.write store) = .ok store)
    (hwhole : Along (step codec path version) Whole new invs) (hlen : invs.length < 2 ^ 32)
    (hnew : (Store.mintedKeys (invs.filterMap Cli.operation)).Nodup)
    (hstrings : ∀ key ∈ Store.mintedKeys (invs.filterMap Cli.operation), key ∈ strings)
    (hinj : Set.InjOn digests.sha256Hex strings) (pre : List Invocation) (hpre : pre <+: invs) :
    ∃ store, Store.load codec path (run (step codec path version) new pre).file true = .ok store ∧
      ∀ p ∈ strings, ∀ id,
        (KeyIndex.build digests store.enabled).resolve digests p = some id ↔
          (run (step codec path version) new pre).book id = some p := by
  obtain ⟨rest, rfl⟩ := hpre
  rw [List.length_append] at hlen
  obtain ⟨as, hkept⟩ := exists_kept version hcodec (along_append.mp hwhole).1 (by omega)
  have hsub : (Store.mintedKeys as).Sublist
      (Store.mintedKeys ((pre ++ rest).filterMap Cli.operation)) := by
    rw [List.filterMap_append]
    exact (hkept.sublist.trans (List.sublist_append_left _ _)).filterMap _
  have hlow := hkept.length_le
  refine ⟨_, hkept.load, fun p hp id => ?_⟩
  rw [hkept.book]
  exact resolve_iff_keyOf hkept.hasCommand (by omega) (hnew.sublist hsub)
    (fun key hkey => hstrings key (hsub.mem hkey)) hinj hp

/-- After the four runs the key that was printed last for the first server works. The one that it
had before does not, and neither does that of the server that was revoked. -/
theorem book_resolves_fourRuns :
    ∃ store, Store.load exampleCodec "servers.json"
        (run (step exampleCodec "servers.json" "0.1.0") new fourRuns).file true = .ok store ∧
      (KeyIndex.build exampleDigests store.enabled).resolve exampleDigests oneKey = some 1 ∧
      (KeyIndex.build exampleDigests store.enabled).resolve exampleDigests Store.zeroKey ≠
        some 1 ∧
      (KeyIndex.build exampleDigests store.enabled).resolve exampleDigests twoKey ≠ some 2 := by
  have hkeys : ∀ key ∈ Store.mintedKeys (fourRuns.filterMap Cli.operation),
      key ∈ [Store.zeroKey, oneKey, twoKey] := by decide +kernel
  obtain ⟨store, hload, hbook⟩ := book_resolves exampleCodec "servers.json" "0.1.0"
    exampleDigests exampleKeys fourRuns exampleCodec_read_write
    ⟨Or.inl rfl, Or.inl rfl, Or.inl rfl, Or.inl rfl, trivial⟩ (by decide) (by decide +kernel)
    (fun key hkey => mem_exampleKeys (hkeys key hkey)) injOn_exampleDigests _
    (List.prefix_refl _)
  refine ⟨store, hload, ?_, fun hold => ?_, fun hrevoked => ?_⟩
  · exact (hbook oneKey (mem_exampleKeys (by decide)) 1).mpr (by decide +kernel)
  · exact absurd ((hbook Store.zeroKey (mem_exampleKeys (by decide)) 1).mp hold)
      (by decide +kernel)
  · exact absurd ((hbook twoKey (mem_exampleKeys (by decide)) 2).mp hrevoked) (by decide +kernel)

/-! ### The list -/

/-- Keys that commands have made can be cut. -/
theorem keyEnds_of_mem_mintedKeys {key : String} (h : key ∈ Store.mintedKeys as) :
    Cli.keyEnds key = some (Cli.shown key) := by
  obtain ⟨a, -, hminted⟩ := List.mem_filterMap.mp h
  cases a with
  | enroll name host port random => exact Cli.keyEnds_of_mintKey hminted
  | rotate id random => exact Cli.keyEnds_of_mintKey hminted
  | revoke id => cases hminted
  | setEnabled i enabled => cases hminted

/-- What is listed of a store whose keys can be cut. -/
def listed (store : Store) : List Printed :=
  (if store.servers.isEmpty then [.noServers] else []) ++ store.servers.map Cli.rowOf

theorem row_mem_listed {store : Store} (hids : (store.servers.map (·.id)).Nodup) {id : UInt32}
    {first last : String} :
    (∃ name host port enabled, Printed.row id name host port enabled first last ∈ listed store) ↔
      ∃ key, store.keyOf id = some key ∧ Cli.shown key = (first, last) := by
  have hheader (line : Printed) (hline : line ≠ .noServers) :
      line ∈ listed store ↔ ∃ s ∈ store.servers, Cli.rowOf s = line := by
    rw [listed, List.mem_append, List.mem_map, or_iff_right]
    split <;> simp [hline]
  constructor
  · rintro ⟨name, host, port, enabled, hmem⟩
    obtain ⟨s, hs, heq⟩ := (hheader _ Printed.noConfusion).mp hmem
    obtain ⟨rfl, -, -, -, -, rfl, rfl⟩ := Printed.row.inj heq
    exact ⟨s.key, (Store.keyOf_eq_some_iff hids).mpr ⟨s, hs, rfl, rfl⟩, rfl⟩
  · rintro ⟨key, hkey, hshown⟩
    obtain ⟨s, hs, rfl, rfl⟩ := (Store.keyOf_eq_some_iff hids).mp hkey
    refine ⟨s.name, s.host, s.port, s.enabled, (hheader _ Printed.noConfusion).mpr ⟨s, hs, ?_⟩⟩
    rw [Cli.rowOf, hshown]

theorem noServers_mem_listed {store : Store} :
    .noServers ∈ listed store ↔ ∀ id, store.keyOf id = none := by
  rw [listed, List.mem_append, or_iff_left (by simp [Cli.rowOf])]
  cases hservers : store.servers with
  | nil => simp [Store.keyOf, hservers]
  | cons s rest =>
    refine iff_of_false (by simp) fun hnone => ?_
    exact absurd (hnone s.id) (by simp [Store.keyOf, hservers])

/-- **The list shows the book.** From an empty start, after any number of runs of the program, the
servers can be listed to the end: there is a row for exactly those that stand in the book, with the
two ends of the key that stands there, or a line that says that there are none. -/
theorem lists_book (codec : Codec) (path version : String) (invs : List Invocation)
    (hcodec : ∀ store, codec.read (codec.write store) = .ok store)
    (hwhole : Along (step codec path version) Whole new invs) (hlen : invs.length < 2 ^ 32)
    (inv : Invocation) (hlist : Command.ofArgs inv.args = .list) (hreadable : inv.readable = true) :
    ∃ printed,
      (cli codec path version (run (step codec path version) new invs).file inv).1 =
        .done printed ∧
      (∀ id first last, (∃ name host port enabled,
          Printed.row id name host port enabled first last ∈ printed) ↔
        ∃ key, (run (step codec path version) new invs).book id = some key ∧
          Cli.shown key = (first, last)) ∧
      (.noServers ∈ printed ↔ ∀ id, (run (step codec path version) new invs).book id = none) := by
  obtain ⟨as, hkept⟩ := exists_kept version hcodec hwhole hlen
  have hlow := hkept.length_le
  obtain ⟨-, hlocal⟩ := Store.local_run hkept.hasCommand (by omega)
  refine ⟨listed (run Store.step ⟨[]⟩ as), ?_, fun id first last => ?_, ?_⟩
  · rw [cli, hreadable, hkept.load]
    simp only [hlist]
    exact Cli.listRows_eq_done _ fun s hs => keyEnds_of_mem_mintedKeys (hlocal.key s hs)
  · rw [hkept.book]
    exact row_mem_listed hlocal.ids
  · rw [hkept.book]
    exact noServers_mem_listed

/-- After the four runs the first server is listed with the ends of its last key, and the second is
not listed. -/
theorem lists_book_fourRuns :
    ∃ printed, (cli exampleCodec "servers.json" "0.1.0"
        (run (step exampleCodec "servers.json" "0.1.0") new fourRuns).file
        ⟨["list"], none, true, .done⟩).1 = .done printed ∧
      (∃ name host port enabled,
        Printed.row 1 name host port enabled "01010101" "0101" ∈ printed) ∧
      ∀ name host port enabled,
        Printed.row 2 name host port enabled "02020202" "0202" ∉ printed := by
  obtain ⟨printed, hprinted, hrows, -⟩ := lists_book exampleCodec "servers.json" "0.1.0" fourRuns
    exampleCodec_read_write ⟨Or.inl rfl, Or.inl rfl, Or.inl rfl, Or.inl rfl, trivial⟩ (by decide)
    ⟨["list"], none, true, .done⟩ (by decide) rfl
  refine ⟨printed, hprinted, (hrows 1 "01010101" "0101").mpr ⟨oneKey, ?_, ?_⟩,
    fun name host port enabled hrow => ?_⟩
  · decide +kernel
  · decide +kernel
  · obtain ⟨key, hkey, -⟩ := (hrows 2 "02020202" "0202").mp ⟨name, host, port, enabled, hrow⟩
    have hstruck : (run (step exampleCodec "servers.json" "0.1.0") new fourRuns).book 2 = none := by
      decide +kernel
    exact absurd (hkey.symm.trans hstruck) (by simp)

end Desk

end RfxVoiced
