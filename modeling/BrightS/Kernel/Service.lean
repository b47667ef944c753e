/-
The service manager: `sys/user/service.c`.

The manager keeps a table of services, and a process for each service that runs.  It starts and
stops them on request, starts what a service depends on before it, and starts a service again whose
process has failed, if that is asked for and the last time is long enough ago.

The system calls answer from outside: `fork` says what the fork calls return, one after another, the
clock and the configuration file are arguments of the events.  `procs` are the processes of the
services that have not exited, with what the manager has done to them.
-/
import BrightS.Kernel.Path

namespace BrightS

def maxServices : Nat := 32

/-- `service_state_t`. -/
inductive ServiceState where
  | stopped
  | starting
  | running
  | stopping
  | failed
  | restarting
  deriving DecidableEq

/-- The members of `service_t` that decide what the manager does. -/
structure Service where
  name : CStr
  state : ServiceState
  pid : Int
  restart : Bool
  restartDelay : Int
  lastRestart : Int
  restartCount : Nat
  dependsOn : List CStr
  deriving DecidableEq

/-- A process that was forked for the service of the name, and whether it was sent a signal to
terminate. -/
structure ServiceProcess where
  pid : Int
  service : CStr
  signalled : Bool
  deriving DecidableEq

/-- `forks` counts the fork calls. -/
structure ServiceManager where
  services : List Service
  procs : List ServiceProcess
  forks : Nat

/-- A section of the configuration file. -/
structure ServiceConfig where
  name : CStr
  restart : Bool
  restartDelay : Int
  dependsOn : List CStr

/-- The entry that a section makes. -/
def ServiceConfig.entry (c : ServiceConfig) : Service :=
  { name := c.name, state := .stopped, pid := 0, restart := c.restart
    restartDelay := c.restartDelay, lastRestart := 0, restartCount := 0
    dependsOn := c.dependsOn.take 8 }

/-- `service_load_config`, given the sections of the file, or nothing if it cannot be read. -/
def serviceLoadConfig (m : ServiceManager) (file : Option (List ServiceConfig)) :
    ServiceManager × Int :=
  match file with
  | none => (m, -1)
  | some sections =>
      ({ m with services := (m.services ++ sections.map (·.entry)).take maxServices }, 0)

/-- `service_find`: the first service with this name. -/
def serviceFind (services : List Service) (name : CStr) : Option Nat :=
  services.findIdx? fun svc => svc.name = name

/-- `service_update_state`. -/
def serviceUpdateState (m : ServiceManager) (i : Nat) (state : ServiceState) : ServiceManager :=
  { m with services := m.services.modify i fun svc => { svc with state := state } }

/-- `sys_kill` with `SIGTERM`: the process may go on for a while. -/
def serviceKill (procs : List ServiceProcess) (pid : Int) : List ServiceProcess :=
  procs.map fun p => if p.pid = pid then { p with signalled := true } else p

section

variable (fork : Nat → Int)

/-- `service_start_internal` in the parent process. -/
def serviceStartInternal (m : ServiceManager) (i : Nat) (svc : Service) : ServiceManager × Int :=
  if svc.state = .running ∨ svc.state = .starting then (m, 0)
  else
    let m := serviceUpdateState m i .starting
    let pid := fork m.forks
    let m := { m with forks := m.forks + 1 }
    if 0 < pid then
      ({ m with
          services := m.services.modify i fun svc => { svc with pid := pid, state := .running }
          procs := m.procs ++ [{ pid := pid, service := svc.name, signalled := false }] }, 0)
    else (serviceUpdateState m i .failed, -1)

/-- `service_stop_internal`: the process is asked to terminate, and forgotten. -/
def serviceStopInternal (m : ServiceManager) (i : Nat) (svc : Service) : ServiceManager × Int :=
  if svc.state ≠ .running then (m, 0)
  else
    let m := serviceUpdateState m i .stopping
    let procs := if 0 < svc.pid then serviceKill m.procs svc.pid else m.procs
    ({ m with
        services := m.services.modify i fun svc => { svc with state := .stopped, pid := 0 }
        procs := procs }, 0)

/-- One round of the loop of `service_check_dependencies`. -/
def serviceCheckDependency (m : ServiceManager) (dep : CStr) : ServiceManager :=
  match serviceFind m.services dep with
  | none => m
  | some j =>
      match m.services[j]? with
      | none => m
      | some svc => if svc.state ≠ .running then (serviceStartInternal fork m j svc).1 else m

/-- `service_check_dependencies`: those the service names are started if they do not run, and what
they depend on in turn is not looked at. -/
def serviceCheckDependencies (m : ServiceManager) (name : CStr) : ServiceManager :=
  match (serviceFind m.services name).bind (m.services[·]?) with
  | none => m
  | some svc => svc.dependsOn.foldl (serviceCheckDependency fork) m

/-- `service_start`: the dependencies first, whether or not they come up. -/
def serviceStart (m : ServiceManager) (name : CStr) : ServiceManager × Int :=
  match serviceFind m.services name with
  | none => (m, -1)
  | some i =>
      let m := serviceCheckDependencies fork m name
      match m.services[i]? with
      | none => (m, -1)
      | some svc => serviceStartInternal fork m i svc

/-- `service_stop`. -/
def serviceStop (m : ServiceManager) (name : CStr) : ServiceManager × Int :=
  match serviceFind m.services name with
  | none => (m, -1)
  | some i =>
      match m.services[i]? with
      | none => (m, -1)
      | some svc => serviceStopInternal m i svc

/-- `service_restart` of a service that is in the table. -/
def serviceRestart (m : ServiceManager) (name : CStr) (i : Nat) : ServiceManager × Int :=
  let m := serviceUpdateState m i .restarting
  let m := (serviceStop m name).1
  serviceStart fork m name

/-- The loop of `service_reload_config`. -/
def serviceStopAll (m : ServiceManager) : ServiceManager :=
  (List.range m.services.length).foldl
    (fun m i =>
      match m.services[i]? with
      | none => m
      | some svc => if svc.state = .running then (serviceStopInternal m i svc).1 else m) m

/-- `service_reload_config`: what runs is stopped, and the table starts afresh. -/
def serviceReloadConfig (m : ServiceManager) (file : Option (List ServiceConfig)) :
    ServiceManager × Int :=
  serviceLoadConfig { serviceStopAll m with services := [] } file

/-- `now` is what the clock says. -/
def serviceHandleSigchld (m : ServiceManager) (pid status now : Int) : ServiceManager :=
  match m.services.findIdx? fun svc => svc.pid = pid with
  | none => m
  | some i =>
      match m.services[i]? with
      | none => m
      | some svc =>
          let m := { m with services := m.services.modify i fun svc => { svc with pid := 0 } }
          if status ≠ 0 ∧ svc.restart = true then
            if svc.restartDelay ≤ now - svc.lastRestart then
              let svc :=
                { svc with pid := 0, lastRestart := now, restartCount := svc.restartCount + 1 }
              let m := { m with services := m.services.set i svc }
              (serviceStartInternal fork m i svc).1
            else serviceUpdateState m i .failed
          else serviceUpdateState m i .stopped

/-! ### Events

Processes exit on their own, and the manager hears of that; all else is asked of it.
-/

/-- What the manager is asked to do, or hears of. -/
inductive ServiceEvent where
  | start (name : CStr)
  | stop (name : CStr)
  | restart (name : CStr)
  | reload (file : Option (List ServiceConfig))
  | sigchld (pid status now : Int)

/-- A process exits and the manager hears of it. -/
def serviceExit (m : ServiceManager) (pid status now : Int) : ServiceManager :=
  serviceHandleSigchld fork { m with procs := m.procs.filter fun p => p.pid ≠ pid } pid status now

/-- What an event does.  `service_restart` of an unknown name writes in front of the table, and
nothing is known of what follows. -/
def ServiceStep (m : ServiceManager) : ServiceEvent → ServiceManager → Prop
  | .start name, m' => m' = (serviceStart fork m name).1
  | .stop name, m' => m' = (serviceStop m name).1
  | .restart name, m' =>
      ∀ i, serviceFind m.services name = some i → m' = (serviceRestart fork m name i).1
  | .reload file, m' => m' = (serviceReloadConfig m file).1
  | .sigchld pid status now, m' =>
      (∃ p ∈ m.procs, p.pid = pid) ∧ m' = serviceExit fork m pid status now

end

/-- After `service_init` and the first `service_load_config`. -/
def serviceBoot (file : Option (List ServiceConfig)) : ServiceManager :=
  (serviceLoadConfig { services := [], procs := [], forks := 0 } file).1

end BrightS
