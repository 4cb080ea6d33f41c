import RfxVoiced.Router.Basic
import RfxVoiced.Servers

/-!
# The platform client

The platform says which servers exist, which keys they present and which talkgroups are patched.
The last answer is kept in a file, and stands in for the platform when it cannot be reached.

The file is described by what reading it back gives: a server list, or nothing when it is missing
or does not parse.
-/

namespace RfxVoiced

/-- A server as the platform lists it, under the hash of its key. -/
structure PlatformServer where
  id : UInt32
  name : String
  host : String
  port : UInt16
  keyHash : String
  deriving DecidableEq, Repr

/-- What the platform answers to a poll, and what is kept of it in the cache. -/
structure ServerList where
  servers : List PlatformServer
  /-- The active patch groups, as talkgroup numbers. -/
  patches : List (List RouteId)
  deriving DecidableEq, Repr

/-- How writing the cache ends. The file is emptied before it is written, so a write that fails
leaves either the old file or one that does not parse. -/
inductive CacheWrite
  | written
  | kept
  | spoiled
  deriving DecidableEq, Repr

namespace Platform

/-- The servers of a list. The platform sends a hash: nothing here ever holds a key. -/
def convert (list : ServerList) : List Server :=
  list.servers.map fun s =>
    { id := s.id
      name := s.name
      host := s.host
      port := s.port
      key := ""
      keyHash := some s.keyHash
      enabled := true }

/-- What the cache reads back as, once a list has been written to it or not. -/
def writeCache (cache : Option ServerList) (list : ServerList) : CacheWrite → Option ServerList
  | .written => some list
  | .kept => cache
  | .spoiled => none

/-- What a resolution gives: the servers, the patch groups and where they come from. -/
structure Resolved where
  servers : List Server
  patches : List (List RouteId)
  source : String

/-- The server list to run with, whichever layer it comes from, and the cache that is left. The
answer of the platform comes with the fate of the attempt to cache it. -/
def resolve (cache : Option ServerList) (fetched : Option (ServerList × CacheWrite)) :
    Resolved × Option ServerList :=
  match fetched with
  | some (list, write) => (⟨convert list, list.patches, "platform"⟩, writeCache cache list write)
  | none =>
    match cache with
    | some list => (⟨convert list, list.patches, "cache"⟩, cache)
    | none => (⟨[], [], "none"⟩, cache)

/-- A platform that cannot be reached leaves the cache alone. -/
@[simp] theorem resolve_none_cache (cache : Option ServerList) :
    (resolve cache none).2 = cache := by
  cases cache <;> rfl

end Platform

end RfxVoiced
