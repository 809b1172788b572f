import Cosmid.DasIO

/-! `pops_socket` (BBB/srvr/POPS_srvr.cc): the server that starts and stops the
instrument's software and reports its status. Messages for the operator are left
out, and `iwrite` delivers the whole string. -/
namespace Cosmid.Pops

inductive PopsStatus
  | popsInit
  | popsIdle
  | popsActive
  | popsShutdown
deriving DecidableEq

/-- The value of the enumerator. -/
def PopsStatus.code : PopsStatus → UInt8
  | popsInit => 0
  | popsIdle => 1
  | popsActive => 2
  | popsShutdown => 3

/-- What the server makes the system do. -/
inductive ServerAction
  | startPops
  | sendShutdown
  | shutdownNow
deriving DecidableEq

/-- One call that the server makes: to the system, or to write to the connection. -/
inductive ServerOutput
  | system (action : ServerAction)
  | iwrite (bytes : List UInt8)
deriving DecidableEq

/-- The buffer of the connection's socket, the global `POPS_status`, what the latest
call of `protocol_input` wrote to the connection, what all of them did to the system, and
both on this connection in the order in which they were done. -/
structure PopsSocket where
  ibuf : InputBuffer
  popsStatus : PopsStatus
  written : List UInt8
  actions : List ServerAction
  outputs : List ServerOutput

namespace PopsSocket

/-- A new connection to a server with the given status. -/
def new (status : PopsStatus) (actions : List ServerAction) : PopsSocket :=
  ⟨InputBuffer.empty,status,[],actions,[]⟩

def iwrite (s : PopsSocket) (bytes : List UInt8) : PopsSocket :=
  {s with written := s.written ++ bytes, outputs := s.outputs ++ [.iwrite bytes]}

/-- A script, the shutdown command over UDP, or `/sbin/shutdown`. -/
def system (s : PopsSocket) (action : ServerAction) : PopsSocket :=
  {s with actions := s.actions ++ [action], outputs := s.outputs ++ [.system action]}

/-- `"Error: Invalid command\n"`. -/
def invalidCommand : List UInt8 :=
  [0x45, 0x72, 0x72, 0x6f, 0x72, 0x3a, 0x20, 0x49, 0x6e, 0x76, 0x61, 0x6c, 0x69, 0x64, 0x20, 0x63,
    0x6f, 0x6d, 0x6d, 0x61, 0x6e, 0x64, 0x0a]

/-- The switch, apart from `'D'`. -/
def execute (s : PopsSocket) (cmd : UInt8) : PopsSocket :=
  if cmd = 0x56 then s
  else if cmd = 0x42 then {s.system .startPops with popsStatus := .popsActive}
  else if cmd = 0x45 then
    if s.popsStatus = .popsActive then
      system {s with popsStatus := .popsShutdown} .sendShutdown
    else system {s with popsStatus := .popsShutdown} .shutdownNow
  else if cmd = 0x46 then system {s with popsStatus := .popsShutdown} .shutdownNow
  else s.iwrite invalidCommand

/-- The loop over the bytes `u` from `cp` on. The Boolean is true if the function
returns from inside the loop. -/
def commandLoop (s : PopsSocket) : List UInt8 → PopsSocket × Bool
  | cmd :: nl :: u =>
    if nl ≠ 0x0a then commandLoop {s with ibuf := ⟨s.ibuf.buf,s.ibuf.cp+1⟩} (nl :: u)
    else
      let s := {s with ibuf := ⟨s.ibuf.buf,s.ibuf.cp+2⟩}
      if cmd = 0x44 then (s, true) else commandLoop (s.execute cmd) u
  | _ => (s, false)

def sendStatus (s : PopsSocket) : PopsSocket := s.iwrite [0x30+s.popsStatus.code, 0x0a]

/-- One read of `bytes` followed by `protocol_input`. -/
def protocolInput (io : DasIO) (s : PopsSocket) (bytes : List UInt8) : PopsSocket :=
  let s := {s with ibuf := io.read s.ibuf bytes, written := []}
  let (s, disconnect) := s.commandLoop s.ibuf.unread
  let s := {s with ibuf := io.consume s.ibuf.cp s.ibuf}
  if disconnect then s else s.sendStatus

end PopsSocket
end Cosmid.Pops
