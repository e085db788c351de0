import PdaNetClient.Runs
import PdaNetClient.Datagram

/-!
# Runs of one ICMP or UDP session

The machines whose inputs are everything the event loop can do to one session while it
runs: a packet from tun that finds it, an event on its socket, a check pass. As with TCP, a
session that a check pass deletes is kept.
-/
namespace PdaNetClient.Datagram

open Runs

set_option autoImplicit false

inductive UdpInput where
  | packet (e : UdpEnv) (p : UdpPacket)
  | socket (e : SocketEnv)
  | check (e : CheckEnv)

/-- A packet is ignored by a session that is not active; a socket that is closed has no
events, and an open one is read while there is no error and something to read. -/
def udpStep : Machine UdpSession UdpInput Out
  | s, .packet e p => if s.state ≠ .active then (s, []) else forwardUdp e p s
  | s, .socket e =>
    if s.socket < 0 then (s, [])
    else if !e.ev.err && e.ev.inn then checkUdpSocket e s
    else (s, [])
  | s, .check e => ((checkUdpSession e s).1, (checkUdpSession e s).2.2)

inductive IcmpInput where
  | packet (now : Int) (send : SendtoResult) (p : IcmpPacket)
  | socket (e : SocketEnv)
  | check (e : CheckEnv)

def icmpStep : Machine IcmpSession IcmpInput Out
  | s, .packet now send p => forwardIcmp now send p s
  | s, .socket e => if s.socket < 0 then (s, []) else checkIcmpSocket e s
  | s, .check e => ((checkIcmpSession e s).1, (checkIcmpSession e s).2.2)

end PdaNetClient.Datagram
