import Cosmid.Run
import Cosmid.XioHarvHeader
import Cosmid.XiomasUdp

/-! `xiomas_udp_rcvr` and `xiomas_udp_txmtr` (Xiomas/xiomas_export.cc): packets from
the scanner, which is told to hold off while it sends more than it asks to send. -/
namespace Cosmid.Xiomas

inductive SocketState
  | disconnected
  | connecting
  | connected
deriving DecidableEq

/-- `connecting` is what the library's `connect` will make of `socketState`; `iwrites`
are the packets written and `messages` counts the messages of `CTS`. -/
structure XiomasUdpTxmtr (out : OutputSocket) where
  socketState : SocketState
  connecting : SocketState
  sock : out.State
  iwrites : List (List UInt8)
  messages : ℕ

namespace XiomasUdpTxmtr

variable {out : OutputSocket}

/-- `CTS` connects a disconnected socket. -/
def cts (u : XiomasUdpTxmtr out) : Bool × XiomasUdpTxmtr out :=
  match u.socketState with
  | .disconnected => (false, {u with socketState := u.connecting, messages := u.messages+1})
  | .connecting => (false, {u with messages := u.messages+1})
  | .connected => (out.obufEmpty u.sock, u)

def send (u : XiomasUdpTxmtr out) (p : List UInt8) : XiomasUdpTxmtr out :=
  let (ok, u) := u.cts
  if ok then {u with sock := out.iwrite p u.sock, iwrites := u.iwrites ++ [p]} else u

/-- Connected, with an empty output buffer. -/
structure Able (u : XiomasUdpTxmtr out) : Prop where
  connected : u.socketState = .connected
  obufEmpty : out.obufEmpty u.sock = true

theorem Able.cts_eq {u : XiomasUdpTxmtr out} (h : u.Able) : u.cts = (true, u) := by
  rw [cts, h.connected, h.obufEmpty]

theorem Able.send_eq {u : XiomasUdpTxmtr out} (h : u.Able) (p : List UInt8) :
    u.send p = {u with sock := out.iwrite p u.sock, iwrites := u.iwrites ++ [p]} := by
  rw [send, h.cts_eq]
  rfl

end XiomasUdpTxmtr

/-- What the receiver does to the outside, besides what it sends. -/
inductive UdpRcvrEvent
  | shortHeader
  | badPacket
  | unexpectedSource (source : UInt8)
  | unexpectedPacketID (packetID : UInt8)
  | logPacket (packet : List UInt8)
deriving DecidableEq

/-- The fields of the object; its transmitter and its exporter are beside it. -/
structure XiomasUdpRcvr where
  ibuf : InputBuffer
  blockCount : ℕ
  pktsRecd : UInt8
  connectRequested : Bool
  trace : List UdpRcvrEvent

/-- The receiver with the objects it uses. `forwarded` are the packets it has called
`forward_packet` with. -/
structure UdpGateway (out : OutputSocket) where
  rcvr : XiomasUdpRcvr
  xutr : Option (XiomasUdpTxmtr out)
  exp : XiomasUdpExport out
  forwarded : List (List UInt8)

/-- A packet from the scanner, a change of the transmitter's output buffer, or
something that happens to the exporter. -/
inductive UdpGatewayEvent (out : OutputSocket)
  | packet (datagram : List UInt8)
  | xutrSocket (sock : out.State)
  | export (op : UdpOp out)

namespace UdpGateway

variable {out : OutputSocket}

def emit (g : UdpGateway out) (e : UdpRcvrEvent) : UdpGateway out :=
  {g with rcvr := {g.rcvr with trace := g.rcvr.trace ++ [e]}}

def setIbuf (g : UdpGateway out) (ibuf : InputBuffer) : UdpGateway out :=
  {g with rcvr := {g.rcvr with ibuf := ibuf}}

def cts (g : UdpGateway out) : Bool × UdpGateway out :=
  match g.xutr with
  | none => (false, g)
  | some u => (u.cts.1, {g with xutr := some u.cts.2})

/-- There is no check for a missing transmitter here. -/
def sendFlag (g : UdpGateway out) (flag : UInt8) : Option (UdpGateway out) :=
  g.xutr.map fun u =>
    let blockCount := (g.rcvr.blockCount+1)%4294967296
    let hdr := xhgFillHeader Xhpid.gwControl Xhsrc.gateway flag 0 (UInt32.ofNat blockCount)
    {g with rcvr := {g.rcvr with blockCount := blockCount}, xutr := some (u.send hdr)}

/-- The first packet of all makes the transmitter connect. -/
def requestConnect (g : UdpGateway out) : UdpGateway out :=
  if g.rcvr.connectRequested then g
  else {g.cts.2 with rcvr := {g.cts.2.rcvr with connectRequested := true}}

/-- A request to send: one packet less, or the answer. -/
def countRTS (g : UdpGateway out) (hdr : List UInt8) : Option (UdpGateway out) :=
  if mFlags hdr &&& Xhf.rts ≠ 0 then
    let (ok, g) := g.cts
    if ok then
      if g.rcvr.pktsRecd > 0 then some {g with rcvr := {g.rcvr with pktsRecd := g.rcvr.pktsRecd-1}}
      else g.sendFlag Xhf.cts
    else some g
  else some g

/-- The switch on the packet ID. -/
def takePacket (serio : SerioLib) (g : UdpGateway out) (hdr packet : List UInt8) :
    Option (UdpGateway out) :=
  if mPacketID hdr = Xhpid.gwControl then some g
  else if mPacketID hdr = Xhpid.xioStatus then
    let g := {g with rcvr := {g.rcvr with pktsRecd := g.rcvr.pktsRecd+1}}
    (if g.rcvr.pktsRecd > 10 then g.sendFlag Xhf.ncts else some g).map fun g =>
      {g.emit (.logPacket packet) with
        exp := g.exp.forwardPacket serio packet
        forwarded := g.forwarded ++ [packet]}
  else some (g.emit (.unexpectedPacketID (mPacketID hdr)))

/-- `protocol_input` behind the connection request: the checks, each of which drops
the datagram, and what is done with a packet that passes them. -/
def checkPacket (io : DasIO) (serio : SerioLib) (g : UdpGateway out) : Option (UdpGateway out) :=
  let b := g.rcvr.ibuf
  let hdr := b.buf.take xioHarvardHeaderSize
  if b.buf.length < xioHarvardHeaderSize then
    some ((g.emit .shortHeader).setIbuf (io.consume b.nc b))
  else if !xhgValidateHeader hdr b.buf.length then
    some ((g.emit .badPacket).setIbuf (io.consume b.nc b))
  else if mSource hdr ≠ Xhsrc.scanner then
    some ((g.emit (.unexpectedSource (mSource hdr))).setIbuf (io.consume b.nc b))
  else ((g.countRTS hdr).bind fun g => g.takePacket serio hdr b.buf).map fun g =>
    g.setIbuf (io.reportOk b.nc b)

/-- One datagram and the call of `protocol_input` for it. -/
def protocolInput (io : DasIO) (serio : SerioLib) (g : UdpGateway out) (datagram : List UInt8) :
    Option (UdpGateway out) :=
  (g.setIbuf (io.read g.rcvr.ibuf datagram)).requestConnect.checkPacket io serio

def step (io : DasIO) (serio : SerioLib) (ok : OkParser) (g : UdpGateway out) :
    UdpGatewayEvent out → Option (UdpGateway out)
  | .packet datagram => g.protocolInput io serio datagram
  | .xutrSocket sock => some {g with xutr := g.xutr.map fun u => {u with sock := sock}}
  | .export op => some {g with exp := g.exp.udpStep io serio ok op}

/-- The state after the constructors. -/
structure Started (g : UdpGateway out) (u : XiomasUdpTxmtr out) : Prop where
  rcvr_eq : g.rcvr = ⟨InputBuffer.empty,0,0,false,[]⟩
  xutr_eq : g.xutr = some u
  iwrites_eq : u.iwrites = []
  forwarded_eq : g.forwarded = []

end UdpGateway
end Cosmid.Xiomas
