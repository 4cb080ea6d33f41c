import RfxVoiced.Control.Request
import RfxVoiced.Servers.Store

/-!
# The command line

An operator enrolls servers, rotates their keys and takes servers off by running the program with a
command. Each run reads the store from its file, does what it is told, and writes the file anew if
anything has changed; the key of a server is printed when it is made, and never again in full. A
node that has no platform starts from the same file.

The file is read and written by a library for JSON, which is a parameter here.

## Main definitions

* `Codec` — how a store is written in a file
* `Printed`, `Printed.text` — what is printed, line by line
* `cli` — a run of the program, and what it leaves in the file
* `Cli.operation` — what its command does to the store
* `Cli.tells`, `Cli.Obeys` — the key that a run prints for a server, and a run that does in the file
  what the command does to the store, and prints what the command gives

## Main results

* `listRows_eq_done`, `keyEnds_of_mintKey` — servers are listed to the end, where the program made
  their keys
* `obeys_enroll`, `obeys_rotate`, `obeys_revoke` — the commands, one by one
* `cli_obeys` — a run obeys its command, or does nothing
-/

namespace RfxVoiced

/-- How a store is written in a file, and what is read of a file, or why it cannot be read. -/
structure Codec where
  write : Store → String
  read : String → Except String Store

/-! ### What is printed -/

/-- A line that is printed. -/
inductive Printed
  | enrolled (name : String) (id : UInt32)
  | tap (host : String) (port : UInt16)
  | store (path : String)
  | blank
  | put
  | serverId (id : UInt32)
  | serverKey (key : String)
  | identifies
  | treat
  | noServers
  | row (id : UInt32) (name host : String) (port : UInt16) (enabled : Bool) (first last : String)
  | rotated (id : UInt32)
  | noServer (id : UInt32)
  | revoked (id : UInt32)
  | version (version : String)
  | usage (line : String)
  deriving DecidableEq, Repr

namespace Printed

/-- A text in a column that is this wide, at its right end. -/
def alignRight (width : ℕ) (s : String) : String :=
  "".pushn ' ' (width - s.length) ++ s

/-- A text in a column that is this wide, at its left end. -/
def alignLeft (width : ℕ) (s : String) : String := s.pushn ' ' (width - s.length)

def text : Printed → String
  | .enrolled name id => "enrolled \"" ++ name ++ "\" as server " ++ toString id
  | .tap host port => "  tap        " ++ host ++ ":" ++ toString port
  | .store path => "  store      " ++ path
  | .blank => ""
  | .put => "Put this in that server's rfx_p25 config/config.lua:"
  | .serverId id => "  Config.ServerId  = " ++ toString id
  | .serverKey key => "  Config.ServerKey = '" ++ key ++ "'"
  | .identifies => "The key identifies the server. Anyone holding it can post routing"
  | .treat => "as this server, so treat it like a password and rotate it if it leaks."
  | .noServers => "no servers enrolled - run: rfx-voiced enroll <name> <host:port>"
  | .row id name host port enabled first last =>
    alignRight 3 (toString id) ++ "  " ++ alignLeft 24 name ++ " " ++ host ++ ":" ++
      alignLeft 6 (toString port) ++ " " ++ (if enabled then "enabled " else "DISABLED") ++
      "  key " ++ first ++ "..." ++ last
  | .rotated id => "server " ++ toString id ++ " key rotated - the old one is now dead"
  | .noServer id => "no server " ++ toString id
  | .revoked id => "server " ++ toString id ++ " revoked"
  | .version v => v
  | .usage line => line

example : text (.row 1 "alpha" "10.0.0.7" 30120 true "00000000" "0000") =
    "  1  alpha                    10.0.0.7:30120  enabled   key 00000000...0000" := by decide

/-- A line that says what becomes of a key. -/
def news : Printed → Bool
  | .serverKey _ | .revoked _ => true
  | _ => false

end Printed

/-! ### A run of the program -/

/-- What becomes of writing the file. A file that could not be written may hold anything. -/
inductive WriteFate
  | done
  | failed (left : Option String)
  deriving DecidableEq, Repr

/-- A run of the program: its arguments, the random bytes that there are, whether the file can be
read, and what becomes of writing it. -/
structure Invocation where
  args : List String
  random : Option (Vector UInt8 32)
  readable : Bool
  fate : WriteFate

/-- How a run ends. -/
inductive Outcome
  | done (printed : List Printed)
  /-- There was no command, and the node starts. -/
  | node
  | failed (error : String)
  /-- A key is too short to be listed. -/
  | panicked (printed : List Printed)
  deriving DecidableEq, Repr

def Outcome.printed : Outcome → List Printed
  | .done printed => printed
  | .panicked printed => printed
  | _ => []

/-- What is read of the file. Where there is none, there are no servers. -/
def Store.load (codec : Codec) (path : String) (disk : Option String) (readable : Bool) :
    Except String Store :=
  match disk with
  | none => .ok ⟨[]⟩
  | some text =>
    if readable then
      match codec.read text with
      | .ok store => .ok store
      | .error _ => .error ("parsing " ++ path)
    else .error ("reading " ++ path)

namespace Cli

/-- A number of 16 bits. -/
def parseU16 (s : List Char) : Option UInt16 :=
  ((parseU32 s).filter fun n => n.toNat < 2 ^ 16).map UInt32.toUInt16

/-- What stands before the last colon, and behind it. -/
def rsplitOnce (separator : Char) (text : List Char) : Option (List Char × List Char) :=
  (Control.splitOnce separator text.reverse).map fun x => (x.2.reverse, x.1.reverse)

def hostPort (addr : String) : String × UInt16 :=
  match rsplitOnce ':' addr.toList with
  | some (h, p) => (String.ofList h, (parseU16 p).getD 30120)
  | none => (addr, 30120)

/-- A text, cut behind its first so many bytes, unless these end within a character. -/
def splitBytes : ℕ → List Char → Option (List Char × List Char)
  | 0, text => some ([], text)
  | _, [] => none
  | n, c :: text =>
    if c.utf8Size ≤ n then (splitBytes (n - c.utf8Size) text).map fun x => (c :: x.1, x.2) else none

/-- The first eight bytes and the last four of a key. -/
def keyEnds (key : String) : Option (String × String) :=
  (splitBytes 8 key.toList).bind fun first =>
    if key.utf8ByteSize < 4 then none
    else (splitBytes (key.utf8ByteSize - 4) key.toList).map fun last =>
      (String.ofList first.1, String.ofList last.2)

/-- List the servers, until a key cannot be cut. -/
def listRows (printed : List Printed) : List Server → Outcome
  | [] => .done printed
  | s :: rest =>
    match keyEnds s.key with
    | none => .panicked printed
    | some (first, last) =>
      listRows (printed ++ [.row s.id s.name s.host s.port s.enabled first last]) rest

/-- The file after a store has been saved, and how the run ends. -/
def save (codec : Codec) (path : String) (store : Store) (fate : WriteFate)
    (printed : List Printed) : Outcome × Option String :=
  match fate with
  | .done => (.done printed, some (codec.write store))
  | .failed left => (.failed ("writing " ++ path), left)

/-- What is printed when a server has been enrolled. -/
def announcement (path : String) (s : Server) : List Printed :=
  [.enrolled s.name s.id, .tap s.host s.port, .store path, .blank, .put, .blank, .serverId s.id,
    .serverKey s.key, .blank, .identifies, .treat]

end Cli

/-- A command, as it is given. -/
inductive Command
  | enroll (name addr : String)
  | list
  /-- With the id, if it is one. -/
  | rotate (id : Option UInt32)
  | revoke (id : Option UInt32)
  | version
  | help
  | none
  deriving DecidableEq, Repr

def Command.ofArgs (args : List String) : Command :=
  let id := args[1]?.bind fun v => parseU32 v.toList
  match args.head? with
  | some "enroll" => .enroll (args[1]?.getD "unnamed") (args[2]?.getD "127.0.0.1:30120")
  | some "list" => .list
  | some "rotate" => .rotate id
  | some "revoke" => .revoke id
  | some "version" | some "--version" | some "-V" => .version
  | some "help" | some "--help" | some "-h" => .help
  | _ => .none

/-- The server that an operation takes off. -/
def Admin.revokes : Admin → Option UInt32
  | revoke id => some id
  | enroll _ _ _ _ | rotate _ _ | setEnabled _ _ => none

open Cli in
/-- A run of the program, with the file as it is and as it is left. The store is read whatever the
command is, and before the node starts. -/
def cli (codec : Codec) (path version : String) (disk : Option String) (inv : Invocation) :
    Outcome × Option String :=
  match Store.load codec path disk inv.readable with
  | .error e => (.failed e, disk)
  | .ok store =>
    match Command.ofArgs inv.args with
    | .enroll name addr =>
      match store.enroll name (hostPort addr).1 (hostPort addr).2 inv.random with
      | (none, _) => (.failed "system randomness unavailable", disk)
      | (some s, store) => save codec path store inv.fate (announcement path s)
    | .list =>
      (listRows (if store.servers.isEmpty then [.noServers] else []) store.servers, disk)
    | .rotate none => (.failed "usage: rotate <server id>", disk)
    | .rotate (some id) =>
      match store.rotate id inv.random with
      | (none, _) => (.failed "system randomness unavailable", disk)
      | (some none, _) => (.done [.noServer id], disk)
      | (some (some s), store) => save codec path store inv.fate [.rotated s.id, .serverKey s.key]
    | .revoke none => (.failed "usage: revoke <server id>", disk)
    | .revoke (some id) =>
      match store.revoke id with
      | (false, _) => (.done [.noServer id], disk)
      | (true, store) => save codec path store inv.fate [.revoked id]
    | .version => (.done [.version version], disk)
    | .help =>
      (.done
        [.usage ("rfx-voiced " ++ version), .blank,
          .usage "rfx-voiced                       run the voice node",
          .usage "rfx-voiced enroll <name> <host:port>   add a server, print its key",
          .usage "rfx-voiced list                  show enrolled servers",
          .usage "rfx-voiced rotate <id>           re-issue a key",
          .usage "rfx-voiced revoke <id>           remove a server"], disk)
    | .none => (.node, disk)

namespace Cli

/-- What a command does to the store. -/
def operation (inv : Invocation) : Option Admin :=
  match Command.ofArgs inv.args with
  | .enroll name addr => some (.enroll name (hostPort addr).1 (hostPort addr).2 inv.random)
  | .rotate (some id) => some (.rotate id inv.random)
  | .revoke (some id) => some (.revoke id)
  | _ => none

/-- The key that a run prints, beside the server that it prints it for. -/
def tells (id : UInt32) (o : Outcome) : Option String :=
  if .serverId id ∈ o.printed ∨ .rotated id ∈ o.printed then
    o.printed.findSome? fun line =>
      match line with
      | .serverKey key => some key
      | _ => none
  else none

variable {codec : Codec} {path : String} {disk : Option String} {store : Store}
  {inv : Invocation}

/-- The server that takes a key is the one with the id. -/
theorem rekey_of_some {id : UInt32} {key : String} {servers : List Server} {s : Server}
    (h : (Store.rekey id key servers).1 = some s) :
    s.id = id ∧ s.key = key ∧ id ∈ servers.map (·.id) := by
  induction servers with
  | nil => cases h
  | cons t rest ih =>
    unfold Store.rekey at h
    split at h
    next hid =>
      obtain rfl := Option.some.inj h
      exact ⟨hid, rfl, by simp [hid]⟩
    · obtain ⟨hid, hkey, hmem⟩ := ih h
      exact ⟨hid, hkey, List.mem_cons_of_mem _ hmem⟩

/-- A run that says nothing of keys tells none. -/
theorem tells_of_quiet {o : Outcome} (h : ∀ line ∈ o.printed, line.news = false) (id : UInt32) :
    tells id o = none := by
  unfold tells
  split
  · rw [List.findSome?_eq_none_iff]
    intro line hline
    cases line with
    | serverKey key => exact absurd (h _ hline) Bool.noConfusion
    | _ => rfl
  · rfl

theorem news_listRows (printed : List Printed) (servers : List Server)
    (h : ∀ line ∈ printed, line.news = false) :
    ∀ line ∈ (listRows printed servers).printed, line.news = false := by
  induction servers generalizing printed with
  | nil => exact h
  | cons s rest ih =>
    unfold listRows
    split
    · exact h
    · refine ih _ fun line hline => ?_
      rcases List.mem_append.mp hline with hline | hline
      · exact h line hline
      · rw [List.mem_singleton.mp hline]
        rfl

/-! ### Listing -/

/-- A character that is written in one byte. -/
def IsAscii (c : Char) : Prop := c.utf8Size = 1

theorem splitBytes_of_isAscii {n : ℕ} {cs : List Char} (hascii : ∀ c ∈ cs, IsAscii c)
    (hn : n ≤ cs.length) : splitBytes n cs = some (cs.splitAt n) := by
  rw [List.splitAt_eq]
  induction n generalizing cs with
  | zero => simp [splitBytes]
  | succ n ih =>
    cases cs with
    | nil => cases hn
    | cons c cs =>
      have hc : c.utf8Size = 1 := hascii c List.mem_cons_self
      have hrest := ih (fun d hd => hascii d (List.mem_cons_of_mem c hd))
        (Nat.le_of_succ_le_succ hn)
      simp [splitBytes, hc, hrest]

theorem utf8ByteSize_of_isAscii {cs : List Char} (hascii : ∀ c ∈ cs, IsAscii c) :
    (String.ofList cs).utf8ByteSize = cs.length := by
  induction cs with
  | nil => rfl
  | cons c cs ih =>
    have hc : c.utf8Size = 1 := hascii c List.mem_cons_self
    rw [String.ofList_cons, String.utf8ByteSize_append, String.utf8ByteSize_singleton, hc,
      ih fun d hd => hascii d (List.mem_cons_of_mem c hd), List.length_cons, Nat.add_comm]

/-- What is shown of a key that is long enough. -/
def shown (key : String) : String × String :=
  (String.ofList (key.toList.take 8), String.ofList (key.toList.drop (key.toList.length - 4)))

/-- A key of characters of one byte can be cut. -/
theorem keyEnds_of_isAscii {key : String} (hascii : ∀ c ∈ key.toList, IsAscii c)
    (hlen : 8 ≤ key.toList.length) : keyEnds key = some (shown key) := by
  have hsize : key.utf8ByteSize = key.toList.length := by
    rw [← utf8ByteSize_of_isAscii hascii, String.ofList_toList]
  rw [keyEnds, hsize, splitBytes_of_isAscii hascii hlen, Option.bind_some, if_neg (by omega),
    splitBytes_of_isAscii hascii (by omega), List.splitAt_eq, List.splitAt_eq]
  rfl

/-- The row of a server. -/
def rowOf (s : Server) : Printed :=
  .row s.id s.name s.host s.port s.enabled (shown s.key).1 (shown s.key).2

/-- Servers whose keys can be cut are listed to the end. -/
theorem listRows_eq_done (printed : List Printed) {servers : List Server}
    (hends : ∀ s ∈ servers, keyEnds s.key = some (shown s.key)) :
    listRows printed servers = .done (printed ++ servers.map rowOf) := by
  induction servers generalizing printed with
  | nil => simp [listRows]
  | cons s rest ih =>
    simp only [listRows, hends s List.mem_cons_self]
    rw [ih _ fun t ht => hends t (List.mem_cons_of_mem s ht), List.append_assoc]
    rfl

theorem isAscii_of_mem_hexByte {b : UInt8} {c : Char} (h : c ∈ hexByte b) : IsAscii c := by
  have hdigit : ∀ n : Fin 16, (Nat.digitChar n).utf8Size = 1 := by decide
  rcases List.mem_pair.mp h with rfl | rfl
  · exact hdigit ⟨b.toNat / 16, Nat.div_lt_of_lt_mul b.toNat_lt⟩
  · exact hdigit ⟨b.toNat % 16, Nat.mod_lt _ (by decide)⟩

/-- A key that the program makes can be cut. -/
theorem keyEnds_of_mintKey {random : Option (Vector UInt8 32)} {key : String}
    (h : mintKey random = some key) : keyEnds key = some (shown key) := by
  obtain ⟨bytes, -, rfl⟩ := Option.map_eq_some_iff.mp h
  apply keyEnds_of_isAscii
  · rw [String.toList_ofList]
    intro c hc
    obtain ⟨b, -, hb⟩ := List.mem_flatMap.mp hc
    exact isAscii_of_mem_hexByte hb
  · simp [List.length_flatMap, hexByte]

/-! ### What a run does -/

/-- What is written is read back. -/
theorem load_saved (hcodec : ∀ store, codec.read (codec.write store) = .ok store) (store : Store) :
    Store.load codec path (some (codec.write store)) true = .ok store := by
  simp only [Store.load, hcodec, if_true]

/-- What a run is to do: the file holds what the command makes of the store, the key that is printed
is the one that a server is given, and a server is said to be revoked if it was there. -/
structure Obeys (codec : Codec) (path : String) (store : Store) (a : Option Admin)
    (result : Outcome × Option String) : Prop where
  load : Store.load codec path result.2 true = .ok (run Store.step store a.toList)
  tells : ∀ id, tells id result.1 = a.bind (Store.givenTo id store)
  revoked : ∀ id, .revoked id ∈ result.1.printed ↔
    a.bind Admin.revokes = some id ∧ id ∈ store.servers.map (·.id)

/-- A run that fails, or only looks, leaves everything. -/
theorem Obeys.of_none {o : Outcome} (hload : Store.load codec path disk true = .ok store)
    (hquiet : ∀ line ∈ o.printed, line.news = false) : Obeys codec path store none (o, disk) where
  load := hload
  tells := tells_of_quiet hquiet
  revoked id := by
    refine ⟨fun h => ?_, fun h => nomatch h.1⟩
    exact absurd (hquiet _ h) Bool.noConfusion

/-- A file that is not written is left, or has been written whole. -/
def Whole (disk : Option String) (fate : WriteFate) : Prop := fate = .done ∨ fate = .failed disk

/-- A run that saves the store says what it has to say when the file has been written. -/
theorem obeys_save {a : Admin} {fate : WriteFate} {printed : List Printed}
    (hcodec : ∀ store, codec.read (codec.write store) = .ok store)
    (hload : Store.load codec path disk true = .ok store) (hwhole : Whole disk fate)
    (htells : ∀ id, tells id (.done printed) = Store.givenTo id store a)
    (hrevoked : ∀ id, .revoked id ∈ printed ↔
      a.revokes = some id ∧ id ∈ store.servers.map (·.id)) :
    ∃ a' ∈ [some a, none],
      Obeys codec path store a' (save codec path (store.step a) fate printed) := by
  rcases hwhole with rfl | rfl
  · exact ⟨some a, List.mem_cons_self, load_saved hcodec _, htells, hrevoked⟩
  · exact ⟨none, by simp, .of_none hload (by simp [Outcome.printed])⟩

theorem obeys_enroll {fate : WriteFate}
    (hcodec : ∀ store, codec.read (codec.write store) = .ok store)
    (hload : Store.load codec path disk true = .ok store) (hwhole : Whole disk fate)
    (name host : String) (port : UInt16) (random : Option (Vector UInt8 32)) :
    ∃ a ∈ [some (.enroll name host port random), none], Obeys codec path store a
      (match store.enroll name host port random with
      | (none, _) => (.failed "system randomness unavailable", disk)
      | (some s, store) => save codec path store fate (announcement path s)) := by
  cases hkey : mintKey random with
  | none =>
    have hresult : store.enroll name host port random = (none, store) := by
      simp only [Store.enroll, hkey]
    rw [hresult]
    exact ⟨none, by simp, .of_none hload (by simp [Outcome.printed])⟩
  | some key =>
    have hresult : store.enroll name host port random =
        (some ⟨store.nextId, name, host, port, key, none, true⟩,
          store.step (.enroll name host port random)) := by
      simp only [Store.step, Store.enroll, hkey]
    rw [hresult]
    apply obeys_save hcodec hload hwhole
    · intro id
      have hgiven : store.given (.enroll name host port random) = some (store.nextId, key) := by
        simp [Store.given, hkey]
      rw [Store.givenTo, hgiven, Option.bind_some]
      by_cases hid : store.nextId = id
      · simp [tells, announcement, Outcome.printed, hid]
      · simp [tells, announcement, Outcome.printed, hid, Ne.symm hid]
    · intro id
      simp [announcement, Admin.revokes]

theorem obeys_rotate {fate : WriteFate}
    (hcodec : ∀ store, codec.read (codec.write store) = .ok store)
    (hload : Store.load codec path disk true = .ok store) (hwhole : Whole disk fate) (id : UInt32)
    (random : Option (Vector UInt8 32)) :
    ∃ a ∈ [some (.rotate id random), none], Obeys codec path store a
      (match store.rotate id random with
      | (none, _) => (.failed "system randomness unavailable", disk)
      | (some none, _) => (.done [.noServer id], disk)
      | (some (some s), store) =>
        save codec path store fate [.rotated s.id, .serverKey s.key]) := by
  cases hkey : mintKey random with
  | none =>
    -- Without randomness nothing is written.
    have hresult : store.rotate id random = (none, store) := by
      simp only [Store.rotate, hkey]
    rw [hresult]
    exact ⟨none, by simp, .of_none hload (by simp [Outcome.printed])⟩
  | some key =>
    have hresult : store.rotate id random =
        (some (Store.rekey id key store.servers).1, store.step (.rotate id random)) := by
      simp only [Store.step, Store.rotate, hkey]
    rw [hresult]
    cases htaken : (Store.rekey id key store.servers).1 with
    | none => exact ⟨none, by simp, .of_none hload (by simp [Outcome.printed, Printed.news])⟩
    | some s =>
      obtain ⟨hid, rfl, hmem⟩ := rekey_of_some htaken
      apply obeys_save hcodec hload hwhole
      · intro id'
        have hgiven : store.given (.rotate id random) = some (id, s.key) := by
          rw [Store.given, if_pos hmem, hkey]
          rfl
        rw [Store.givenTo, hgiven, Option.bind_some]
        by_cases hid' : id = id'
        · simp [tells, Outcome.printed, hid, hid']
        · simp [tells, Outcome.printed, hid, hid', Ne.symm hid']
      · intro id'
        simp [Admin.revokes]

theorem obeys_revoke {fate : WriteFate}
    (hcodec : ∀ store, codec.read (codec.write store) = .ok store)
    (hload : Store.load codec path disk true = .ok store) (hwhole : Whole disk fate)
    (id : UInt32) :
    ∃ a ∈ [some (.revoke id), none], Obeys codec path store a
      (match store.revoke id with
      | (false, _) => (.done [.noServer id], disk)
      | (true, store) => save codec path store fate [.revoked id]) := by
  cases hfound : (store.revoke id).1 with
  | false =>
    -- Nothing was taken out, and nothing is written.
    have hresult : store.revoke id = (false, store.step (.revoke id)) := Prod.ext hfound rfl
    rw [hresult]
    exact ⟨none, by simp, .of_none hload (by simp [Outcome.printed, Printed.news])⟩
  | true =>
    have hresult : store.revoke id = (true, store.step (.revoke id)) := Prod.ext hfound rfl
    rw [hresult]
    apply obeys_save hcodec hload hwhole
    · intro id'
      simp [tells, Outcome.printed, Store.givenTo, Store.given]
    · -- A list that is shorter for what was taken out had it.
      have hmem : id ∈ store.servers.map (·.id) := by
        by_contra hnone
        have hall : store.servers.filter (fun s => s.id ≠ id) = store.servers := by
          apply List.filter_eq_self.mpr
          intro s hs
          exact decide_eq_true fun hid => hnone (hid ▸ List.mem_map_of_mem hs)
        exact of_decide_eq_true hfound (congrArg List.length hall)
      intro id'
      simp only [List.mem_singleton, Printed.revoked.injEq, Admin.revokes, Option.some_inj]
      constructor
      · rintro rfl
        exact ⟨rfl, hmem⟩
      · rintro ⟨rfl, -⟩
        rfl

/-- **A run obeys its command**, or it fails and does nothing. -/
theorem cli_obeys (version : String)
    (hcodec : ∀ store, codec.read (codec.write store) = .ok store)
    (hload : Store.load codec path disk true = .ok store) (hwhole : Whole disk inv.fate) :
    ∃ a ∈ [operation inv, none],
      Obeys codec path store a (cli codec path version disk inv) := by
  have hnothing {o : Outcome} (hquiet : ∀ line ∈ o.printed, line.news = false) (a : Option Admin) :
      ∃ a' ∈ [a, none], Obeys codec path store a' (o, disk) :=
    ⟨none, by simp, .of_none hload hquiet⟩
  by_cases hreadable : disk.isSome = true → inv.readable = true
  · have hread : Store.load codec path disk inv.readable = .ok store := by
      rw [← hload]
      cases disk with
      | none => rfl
      | some text => rw [hreadable rfl]
    unfold cli operation
    rw [hread]
    cases Command.ofArgs inv.args with
    | enroll name addr => exact obeys_enroll hcodec hload hwhole name _ _ _
    | list => exact hnothing (news_listRows _ _ (by split <;> simp [Printed.news])) _
    | rotate id =>
      cases id with
      | none => exact hnothing (by simp [Outcome.printed]) _
      | some id => exact obeys_rotate hcodec hload hwhole id _
    | revoke id =>
      cases id with
      | none => exact hnothing (by simp [Outcome.printed]) _
      | some id => exact obeys_revoke hcodec hload hwhole id
    | version => exact hnothing (by simp [Outcome.printed, Printed.news]) _
    | help => exact hnothing (by simp [Outcome.printed, Printed.news]) _
    | none => exact hnothing (by simp [Outcome.printed]) _
  · -- A file that cannot be read ends the run before the command is looked at.
    have hfailed : cli codec path version disk inv = (.failed ("reading " ++ path), disk) := by
      obtain ⟨hthere, hunread⟩ := Classical.not_imp.mp hreadable
      obtain ⟨text, rfl⟩ := Option.isSome_iff_exists.mp hthere
      simp only [cli, Store.load, if_neg hunread]
    rw [hfailed]
    exact hnothing (by simp [Outcome.printed]) _

end Cli

end RfxVoiced
