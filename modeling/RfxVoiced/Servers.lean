import RfxVoiced.Lib.Table

/-!
# Enrolled servers, and the keys that identify them

A server does not say which server it is: it presents a key, and the key determines the id. What
the node keeps of a key is its hash.

## Main definitions

* `Server` — an enrolled server, from the local store or from the platform
* `KeyIndex` — the hashes of the keys in use, each with the server that it identifies

## Main results

* `KeyIndex.lookup_build` — a hash identifies the last server of the list that goes under it
-/

namespace RfxVoiced

/-- The digests that keys are compared by. -/
structure Digests where
  toLowercase : String → String
  sha256Hex : String → String

/-- A server that the node works for, whether it was enrolled locally or came from the platform. -/
structure Server where
  id : UInt32
  name : String
  host : String
  port : UInt16
  /-- The shared secret of a server that was enrolled locally, or empty. -/
  key : String
  /-- The hash of the key, for a server that came from the platform. -/
  keyHash : Option String
  enabled : Bool
  deriving DecidableEq, Repr

/-- Whose key a hash is. Requests are authenticated by it. -/
structure KeyIndex where
  byHash : Table String UInt32

namespace Server

variable (digests : Digests)

/-- The hash that a server goes under: the one it came with, or that of its key if it has one. -/
def hash (s : Server) : Option String :=
  match s.keyHash with
  | some h => some (digests.toLowercase h)
  | none => if s.key ≠ "" then some (digests.sha256Hex s.key) else none

/-- The entries that a list of servers makes in the key index. -/
def rows (servers : List Server) : List (String × UInt32) :=
  servers.filterMap fun s => (s.hash digests).map fun h => (h, s.id)

end Server

namespace KeyIndex

variable (digests : Digests)

/-- A server without a hash and without a key is passed over. -/
def build (servers : List Server) : KeyIndex := ⟨Table.collect (Server.rows digests servers)⟩

/-- The server that a hash identifies. -/
def lookup (keys : KeyIndex) (hash : String) : Option UInt32 := keys.byHash.lookup hash

theorem lookup_build (servers : List Server) (hash : String) :
    (build digests servers).lookup hash = (Server.rows digests servers).reverse.lookup hash :=
  Table.lookup_collect _ hash

end KeyIndex

end RfxVoiced
