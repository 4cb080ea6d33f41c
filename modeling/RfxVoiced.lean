import RfxVoiced.Lib.Table
import RfxVoiced.Lib.Groups
import RfxVoiced.Lib.Merge
import RfxVoiced.Lib.Run
import RfxVoiced.Lib.Outputs
import RfxVoiced.Lib.Loop
import RfxVoiced.Lib.Ledger
import RfxVoiced.Lib.Registry
import RfxVoiced.Lib.Deadband
import RfxVoiced.Lib.Pairing
import RfxVoiced.Lib.Footprint
import RfxVoiced.Lib.BigEndian
import RfxVoiced.Lib.Decimal
import RfxVoiced.Lib.Base64
import RfxVoiced.Lib.XorLinear
import RfxVoiced.Lib.Newest
import RfxVoiced.Lib.Search
import RfxVoiced.Lib.Utf8
import RfxVoiced.Lib.Locks
import RfxVoiced.Lib.Mailbox
import RfxVoiced.Lib.Subscriber
import RfxVoiced.Lib.Tally
import RfxVoiced.Lib.Channel
import RfxVoiced.Dsp
import RfxVoiced.Dsp.Talker
import RfxVoiced.Dsp.Solo
import RfxVoiced.Dsp.Accounting
import RfxVoiced.Router.Basic
import RfxVoiced.Dsp.AmMix
import RfxVoiced.Dsp.Mixing
import RfxVoiced.Dsp.Draining
import RfxVoiced.Dsp.Stalling
import RfxVoiced.Dsp.Flushing
import RfxVoiced.Dsp.Noise
import RfxVoiced.Router.Operations
import RfxVoiced.Router.Keying
import RfxVoiced.Router.Holds
import RfxVoiced.Router.Step
import RfxVoiced.Router.Listening
import RfxVoiced.Router.Channel
import RfxVoiced.Router.Delivery
import RfxVoiced.Router.Release
import RfxVoiced.Router.Preemption
import RfxVoiced.Router.TwoPresses
import RfxVoiced.Router.Departure
import RfxVoiced.Router.Identity
import RfxVoiced.Router.Settling
import RfxVoiced.Router.Quality
import RfxVoiced.Router.Pressed
import RfxVoiced.Router.Locality
import RfxVoiced.Router.Talkgroups
import RfxVoiced.Router.Priority
import RfxVoiced.Router.Patches
import RfxVoiced.Router.Capture
import RfxVoiced.Router.Restoring
import RfxVoiced.Router.Talkers
import RfxVoiced.Router.Steady
import RfxVoiced.Router.Usernames
import RfxVoiced.Recorder
import RfxVoiced.Recorder.Files
import RfxVoiced.Recorder.Audio
import RfxVoiced.Recorder.Recall
import RfxVoiced.Recorder.Library
import RfxVoiced.Recorder.Refinement
import RfxVoiced.Recorder.Kept
import RfxVoiced.Streams.Frames
import RfxVoiced.Streams.Serve
import RfxVoiced.Streams.Release
import RfxVoiced.Streams.Announce
import RfxVoiced.Streams.KeyPaths
import RfxVoiced.Streams.Wire
import RfxVoiced.Control.Value
import RfxVoiced.Control.Dispatch
import RfxVoiced.Control.Isolation
import RfxVoiced.Control.Request
import RfxVoiced.Control.Base64
import RfxVoiced.Control.Recall
import RfxVoiced.Streams.Packets
import RfxVoiced.Mumble.Varint
import RfxVoiced.Mumble.Voice
import RfxVoiced.Mumble.Framing
import RfxVoiced.Mumble.Tap
import RfxVoiced.Mumble.Delivered
import RfxVoiced.Mumble.Collision
import RfxVoiced.Mumble.Overflow
import RfxVoiced.Mumble.Session
import RfxVoiced.Mumble.Channels
import RfxVoiced.Mumble.Connection
import RfxVoiced.Mumble.Talkspurts
import RfxVoiced.Mumble.Outbound
import RfxVoiced.Router.Stats
import RfxVoiced.Node
import RfxVoiced.Node.Authority
import RfxVoiced.Node.Indication
import RfxVoiced.Node.Reconnect
import RfxVoiced.Node.Calls
import RfxVoiced.Node.Labels
import RfxVoiced.Node.Acts
import RfxVoiced.Node.Recording
import RfxVoiced.Node.Locks
import RfxVoiced.Node.Handed
import RfxVoiced.Node.Queues
import RfxVoiced.Servers
import RfxVoiced.Servers.Resolve
import RfxVoiced.Control.Handle
import RfxVoiced.Control.Respond
import RfxVoiced.Servers.Store
import RfxVoiced.Servers.Cli
import RfxVoiced.Servers.Desk
import RfxVoiced.Platform
import RfxVoiced.Supervisor
import RfxVoiced.Supervisor.Polling
import RfxVoiced.Supervisor.Convergence
import RfxVoiced.Supervisor.Admission
import RfxVoiced.Supervisor.Standalone
import RfxVoiced.Node.Taps
import RfxVoiced.Node.Names
import RfxVoiced.Node.Heartbeat
import RfxVoiced.Node.Audible
import RfxVoiced.Node.Tokens
