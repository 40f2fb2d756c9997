import ZoneMinder.Lib.Run
import Mathlib.Logic.Function.Basic

namespace ZoneMinder.Zmdc

open Function Lib

abbrev Text := List Char

abbrev Pid := ℕ

/-- A reference to the record of a process, which more than one hash may hold. -/
abbrev Ref := ℕ

structure Settings where
  useEventNotification : Bool
  maxRestartDelay : ℕ

def killDelay : ℤ := 30

def daemons (c : Settings) : List Text :=
  ["zmc".toList, "zmfilter.pl".toList, "zmaudit.pl".toList, "zmtrigger.pl".toList,
    "zmx10.pl".toList, "zmwatch.pl".toList, "zmupdate.pl".toList, "zmstats.pl".toList,
    "zmtrack.pl".toList, "zmcontrol.pl".toList, "zm_rtsp_server".toList, "zmtelemetry.pl".toList,
    "zmalarm-server.py".toList] ++
      if c.useEventNotification then ["zmeventnotification.pl".toList] else []

/-- A name in a pattern, in which a dot stands for any character. -/
def matchName : Text → Text → Bool
  | [], text => text = [] || text = ['\n']
  | '.' :: name, b :: text => b ≠ '\n' && matchName name text
  | a :: name, b :: text => a = b && matchName name text
  | _ :: _, [] => false

def daemonPatt (c : Settings) (daemon : Text) : Bool := (daemons c).any (matchName · daemon)

/-- join(' ', $daemon, @args). -/
def commandOf (daemon : Text) (args : List Text) : Text := [' '].intercalate (daemon :: args)

/-- The record of a process. A number that is not set reads as 0. -/
structure Process where
  daemon : Text
  args : List Text
  command : Text
  keepalive : Bool := true
  pid : Option Pid := none
  started : ℤ := 0
  stopped : ℤ := 0
  runtime : ℤ := 0
  pending : ℤ := 0
  termSentAt : ℤ := 0
  delay : ℤ := 0

def newProcess (daemon : Text) (args : List Text) : Process where
  daemon := daemon
  args := args
  command := commandOf daemon args

inductive Signal
  | term | kill | hup | winch
  deriving DecidableEq

/-- The server's hashes over the records, the children it has not waited for, with the commands
they run, and the signals that each got. -/
structure Server where
  heap : Ref → Process := fun _ ↦ { daemon := [], args := [], command := [] }
  nextRef : Ref := 0
  cmdHash : Text → Option Ref := fun _ ↦ none
  pidHash : Pid → Option Ref := fun _ ↦ none
  terminatingProcesses : Text → Bool := fun _ ↦ false
  pidsToReap : Pid → Option ℤ := fun _ ↦ none
  children : Pid → Option Text := fun _ ↦ none
  signals : Pid → List Signal := fun _ ↦ []
  shuttingDown : Bool := false

namespace Server

def kill (signal : Signal) (pid : Pid) (s : Server) : Server :=
  { s with signals := update s.signals pid (s.signals pid ++ [signal]) }

/-- A new record that no hash holds yet. -/
def alloc (process : Process) (s : Server) : Ref × Server :=
  (s.nextRef, { s with heap := update s.heap s.nextRef process, nextRef := s.nextRef + 1 })

/-- What start does with a child that fork gave it. -/
def forked (r : Ref) (now : ℤ) (child : Pid) (s : Server) : Server :=
  let process := { s.heap r with pid := some child, started := now, pending := 0 }
  { s with
    heap := update s.heap r process
    cmdHash := update s.cmdHash process.command (some r)
    pidHash := update s.pidHash child (some r)
    children := update s.children child (some process.command)
    signals := update s.signals child [] }

def start (c : Settings) (daemon : Text) (args : List Text) (now : ℤ) (child : Pid) (s : Server) :
    Server :=
  if daemonPatt c daemon = false then s
  else
    let command := commandOf daemon args
    match s.cmdHash command with
    | none =>
      let (r, s) := s.alloc (newProcess daemon args)
      s.forked r now child
    | some r =>
      if ((s.heap r).pid.bind s.pidHash).isSome then
        if (s.heap r).termSentAt ≠ 0 then
          { s with
            heap := update s.heap r { s.heap r with keepalive := true, delay := 0 }
            terminatingProcesses := update s.terminatingProcesses command false }
        else s
      else s.forked r now child

/-- Whether a stop signal was sent. -/
def sendStop (final : Bool) (r : Ref) (now : ℤ) (s : Server) : Bool × Server :=
  let process := s.heap r
  if process.pending ≠ 0 then
    (false, { s with cmdHash := update s.cmdHash process.command none })
  else
    match process.pid with
    | none => (false, s)
    | some pid =>
      if s.pidHash pid = none then (false, s)
      else
        let s := { s with
          heap := update s.heap r
            { process with keepalive := !final, termSentAt := now, pending := 0 }
          terminatingProcesses := update s.terminatingProcesses process.command true }
        (true, s.kill .term pid)

def stop (daemon : Text) (args : List Text) (now : ℤ) (s : Server) : Server :=
  match s.cmdHash (commandOf daemon args) with
  | none => s
  | some r => (s.sendStop true r now).2

def restart (c : Settings) (daemon : Text) (args : List Text) (now : ℤ) (child : Pid)
    (s : Server) : Server :=
  let command := commandOf daemon args
  match s.cmdHash command with
  | none => s.start c daemon args now child
  | some r =>
    if s.terminatingProcesses command && (s.heap r).keepalive then s
    else
      let (sent, s) := s.sendStop false r now
      if sent then s else s.start c daemon args now child

def reload (daemon : Text) (args : List Text) (s : Server) : Server :=
  match (s.cmdHash (commandOf daemon args)).bind fun r ↦ (s.heap r).pid with
  | none => s
  | some pid => s.kill .hup pid

/-- One round of logrot, which goes over pid_hash. -/
def logrot (pid : Pid) (s : Server) : Server :=
  match (s.pidHash pid).bind fun r ↦ (s.heap r).pid with
  | none => s
  | some pid => s.kill .winch pid

/-- One round of check_for_processes_to_kill, which goes over the commands told to stop. -/
def checkForProcessToKill (command : Text) (now : ℤ) (s : Server) : Server :=
  let deleted := { s with
    terminatingProcesses := update s.terminatingProcesses command false }
  match s.cmdHash command with
  | none => deleted
  | some r =>
    match (s.heap r).pid with
    | none => deleted
    | some pid =>
      if (s.heap r).termSentAt ≠ 0 ∧ now - (s.heap r).termSentAt > killDelay then
        deleted.kill .kill pid
      else s

/-- check_for_processes_to_kill, by the keys of %terminating_processes. -/
def checkForProcessesToKill (commands : List Text) (now : ℤ) (s : Server) : Server :=
  commands.foldl (fun s command ↦ s.checkForProcessToKill command now) s

/-- What chld_sig_handler does with a child that it waited for. -/
def waited (pid : Pid) (now : ℤ) (s : Server) : Server :=
  { s with
    children := update s.children pid none
    pidsToReap := update s.pidsToReap pid (some now) }

/-- When a process that is kept alive is started again. -/
def schedule (c : Settings) (process : Process) : Process :=
  if process.delay = 0 ∨ process.runtime > c.maxRestartDelay then
    { process with pending := process.stopped, delay := 5 }
  else
    { process with
      pending := process.stopped + process.delay
      delay := min (process.delay * 2) c.maxRestartDelay }

/-- One round of reaper, which goes over pids_to_reap. -/
def reap (c : Settings) (cpid : Pid) (stopped : ℤ) (s : Server) : Server :=
  let found := s.pidHash cpid
  let s := { s with
    pidHash := update s.pidHash cpid none
    pidsToReap := update s.pidsToReap cpid none }
  match found with
  | none => s
  | some r =>
    let process := { s.heap r with
      termSentAt := 0
      stopped := stopped
      runtime := stopped - (s.heap r).started
      pid := none }
    let s := { s with
      terminatingProcesses := update s.terminatingProcesses process.command false }
    if process.keepalive then
      { s with
        heap := update s.heap r (schedule c process)
        cmdHash := update s.cmdHash process.command (some r) }
    else
      { s with
        heap := update s.heap r process
        cmdHash := update s.cmdHash process.command none }

/-- One round of restartPending, which goes over the values of cmd_hash. -/
def restartPending (c : Settings) (r : Ref) (now : ℤ) (child : Pid) (s : Server) : Server :=
  if (s.heap r).pending ≠ 0 ∧ (s.heap r).pending ≤ now then
    s.start c (s.heap r).daemon (s.heap r).args now child
  else s

/-- The stop signals of shutdownAll. -/
def shutdownAll (pids : List Pid) (now : ℤ) (s : Server) : Server :=
  pids.foldl (fun s pid ↦
    match s.pidHash pid with
    | none => s
    | some r => (s.sendStop true r now).2) { s with shuttingDown := true }

inductive Check
  | unknown | pending | stopped | running
  deriving DecidableEq

def check (daemon : Text) (args : List Text) (s : Server) : Check :=
  match s.cmdHash (commandOf daemon args) with
  | none => .unknown
  | some r =>
    if (s.heap r).pending ≠ 0 then .pending
    else if ((s.heap r).pid.bind s.pidHash).isSome then .running else .stopped

end Server

/-- What happens in the server. `now` is what time() says there, and `child` what a fork gives. -/
inductive Op
  | start (daemon : Text) (args : List Text) (now : ℤ) (child : Pid)
  | stop (daemon : Text) (args : List Text) (now : ℤ)
  | restart (daemon : Text) (args : List Text) (now : ℤ) (child : Pid)
  | reload (daemon : Text) (args : List Text)
  | logrot (pid : Pid)
  | shutdown (pids : List Pid) (now : ℤ)
  | exited (pid : Pid) (now : ℤ)
  | restartPending (r : Ref) (now : ℤ) (child : Pid)
  | checkForProcessToKill (command : Text) (now : ℤ)
  | reap (pid : Pid)

/-- The rounds of the three loops are steps of their own, so that they come in any order. Only
what is in the hash that a loop goes over has a round. -/
def step (c : Settings) (s : Server) : Op → Option Server
  | .start daemon args now child =>
    if s.shuttingDown then none else some (s.start c daemon args now child)
  | .stop daemon args now => if s.shuttingDown then none else some (s.stop daemon args now)
  | .restart daemon args now child =>
    if s.shuttingDown then none else some (s.restart c daemon args now child)
  | .reload daemon args => if s.shuttingDown then none else some (s.reload daemon args)
  | .logrot pid => some (s.logrot pid)
  | .shutdown pids now => if s.shuttingDown then none else some (s.shutdownAll pids now)
  | .exited pid now => if (s.children pid).isSome then some (s.waited pid now) else none
  | .restartPending r now child =>
    if s.shuttingDown || s.cmdHash (s.heap r).command ≠ some r then none
    else some (s.restartPending c r now child)
  | .checkForProcessToKill command now =>
    if s.terminatingProcesses command then some (s.checkForProcessToKill command now) else none
  | .reap pid => (s.pidsToReap pid).map fun stopped ↦ s.reap c pid stopped

end ZoneMinder.Zmdc
