/-
System call hooks: `kernel/syshook.c`.

A process registers a hook for some system calls and gets an event for each of them.  The
events of a hook wait in a ring; when it is full the oldest one is overwritten.

`brights_proc_current` is an argument of the calls, and what a call copies to the caller's
buffer is part of its answer.  `hook_wait` sleeps while there is no event; here it is the
call that finds one, or gives up after its timeout.
-/
import BrightS.Lib.Words

namespace BrightS

open Words

def syshookMax : Nat := 32
def syshookRingbufSize : Nat := 64

def hookFlagPre : Word := 1
def hookFlagPost : Word := 2
def hookFlagBroadcast : Word := 4

def hookEvtPreSyscall : Word := 0
def hookEvtPostSyscall : Word := 1
def hookEvtBroadcast : Word := 2

/-- `brights_hook_event_t`. -/
structure HookEvent where
  eventType : Word
  syscallNr : Word
  args : Vector Word 6
  ret : Int
  callerPid : Nat
  timestamp : Word
  custom : Word × Word
  deriving DecidableEq

/-- `brights_hook_entry_t`: what is watched, for whom, and the ring with its counters. -/
structure HookEntry where
  active : Bool
  ownerPid : Nat
  watchLo : Word
  watchHi : Word
  flags : Word
  ringbuf : Nat → HookEvent
  rd : Nat
  wr : Nat
  count : Nat
  totalEvents : Word
  droppedEvents : Word

/-- The table and the statics beside it. -/
structure Syshook where
  hookTable : Nat → HookEntry
  initialized : Bool
  totalHooksCreated : Word
  totalEventsDispatched : Word

/-- A slot of the table gets new contents. -/
def Syshook.put (s : Syshook) (i : Nat) (h : HookEntry) : Syshook :=
  { s with hookTable := Function.update s.hookTable i h }

/-- What `unregister` and `cleanup_pid` leave of a hook. -/
def HookEntry.release (h : HookEntry) : HookEntry :=
  { h with
    active := false, ownerPid := 0, watchLo := 0, watchHi := 0, flags := 0, rd := 0, wr := 0,
    count := 0 }

/-- `brights_syshook_init`. -/
def syshookInit (s : Syshook) : Syshook :=
  { s with
    initialized := true
    hookTable := fun i =>
      if i < syshookMax then { (s.hookTable i).release with totalEvents := 0, droppedEvents := 0 }
      else s.hookTable i }

/-! ### The ring

Events are written at `wr` and read at `rd`; `count` says how many wait.
-/

/-- `ringbuf_push`: a full ring gives up its oldest event, and counts it as dropped. -/
def ringbufPush (h : HookEntry) (evt : HookEvent) : HookEntry :=
  let h :=
    if syshookRingbufSize ≤ h.count then
      { h with rd := (h.rd + 1) % syshookRingbufSize, droppedEvents := h.droppedEvents + 1 }
    else { h with count := h.count + 1 }
  { h with
    ringbuf := Function.update h.ringbuf h.wr evt
    wr := (h.wr + 1) % syshookRingbufSize
    totalEvents := h.totalEvents + 1 }

/-- `ringbuf_pop`: at most so many events, the oldest first. -/
def ringbufPop (h : HookEntry) : Nat → HookEntry × List HookEvent
  | 0 => (h, [])
  | n + 1 =>
      if h.count = 0 then (h, []) else
      let r := ringbufPop { h with rd := (h.rd + 1) % syshookRingbufSize, count := h.count - 1 } n
      (r.1, h.ringbuf h.rd :: r.2)

/-! ### Events

A system call is a notice before it and one after it.  Broadcasts go to the hooks that ask for them.
-/

/-- `hook_watches_syscall`: the phase is among the flags, and the number in the masks. -/
def hookWatchesSyscall (h : HookEntry) (nr phaseFlag : Word) : Bool :=
  if h.flags &&& phaseFlag = 0 then false
  else if nr.toNat < 64 then bitTest h.watchLo nr.toNat
  else if nr.toNat < 128 then bitTest h.watchHi (nr.toNat - 64)
  else false

/-- What `notify` is told about a system call. -/
structure Notice where
  phase : Word
  num : Word
  args : Vector Word 6
  ret : Int
  pid : Nat
  tsc : Word

/-- The event that a notice becomes. -/
def Notice.event (n : Notice) : HookEvent :=
  { eventType := n.phase, syscallNr := n.num, args := n.args, ret := n.ret, callerPid := n.pid,
    timestamp := n.tsc, custom := (0, 0) }

/-- The flag of a hook that watches this phase. -/
def Notice.phaseFlag (n : Notice) : Word :=
  if n.phase = hookEvtPreSyscall then hookFlagPre else hookFlagPost

/-- The hook gets an event of this notice. -/
def HookEntry.noticed (h : HookEntry) (n : Notice) : Bool :=
  h.active && hookWatchesSyscall h n.num n.phaseFlag

/-- `brights_syshook_notify`: the slots are gone through in order. -/
def syshookNotify (s : Syshook) (n : Notice) : Syshook :=
  if s.initialized = false then s else
  (List.range syshookMax).foldl (fun s i =>
    if (s.hookTable i).noticed n then
      let s := s.put i (ringbufPush (s.hookTable i) n.event)
      { s with totalEventsDispatched := s.totalEventsDispatched + 1 }
    else s) s

/-- The event of a broadcast. -/
def broadcastEvent (senderPid : Nat) (customA customB : Word) : HookEvent :=
  { eventType := hookEvtBroadcast, syscallNr := 0, args := Vector.replicate 6 0, ret := 0,
    callerPid := senderPid, timestamp := 0, custom := (customA, customB) }

/-- The hook gets the events that are broadcast. -/
def HookEntry.listens (h : HookEntry) : Bool := h.active && h.flags &&& hookFlagBroadcast != 0

/-- `brights_syshook_broadcast`: like a notice, but it is not counted. -/
def syshookBroadcast (s : Syshook) (senderPid : Nat) (customA customB : Word) : Syshook :=
  if s.initialized = false then s else
  (List.range syshookMax).foldl (fun s i =>
    if (s.hookTable i).listens then
      s.put i (ringbufPush (s.hookTable i) (broadcastEvent senderPid customA customB))
    else s) s

/-! ### The calls

Every call on a hook begins with the check that it is the caller's.
-/

/-- `brights_sys_hook_register`: the first free slot, with an empty ring. -/
def sysHookRegister (s : Syshook) (pid : Nat) (watchLo watchHi flags : Word) : Syshook × Int :=
  if s.initialized = false then (s, -1) else
  match (List.range syshookMax).find? fun i => !(s.hookTable i).active with
  | none => (s, -1)
  | some slot =>
      let s := s.put slot
        { s.hookTable slot with
          active := true, ownerPid := pid, watchLo := watchLo, watchHi := watchHi
          flags := flags &&& (hookFlagPre ||| hookFlagPost ||| hookFlagBroadcast)
          rd := 0, wr := 0, count := 0, totalEvents := 0, droppedEvents := 0 }
      ({ s with totalHooksCreated := s.totalHooksCreated + 1 }, slot)

/-- The active hook of that number, if it belongs to the process. -/
def ownHook (s : Syshook) (pid hookId : Nat) : Option Nat :=
  if s.initialized = false ∨ syshookMax ≤ hookId then none
  else if (s.hookTable hookId).active = false then none
  else if (s.hookTable hookId).ownerPid ≠ pid then none
  else some hookId

/-- `brights_sys_hook_unregister`. -/
def sysHookUnregister (s : Syshook) (pid hookId : Nat) : Syshook × Int :=
  match ownHook s pid hookId with
  | none => (s, -1)
  | some i => (s.put i (s.hookTable i).release, 0)

/-- The events copied to the caller's buffer, and the value returned. -/
def sysHookPoll (s : Syshook) (pid hookId eventBuf maxEvents : Nat) :
    Syshook × List HookEvent × Int :=
  if eventBuf = 0 ∨ maxEvents = 0 then (s, [], -1) else
  match ownHook s pid hookId with
  | none => (s, [], -1)
  | some i =>
      let r := ringbufPop (s.hookTable i) (min maxEvents syshookRingbufSize)
      (s.put i r.1, r.2, r.2.length)

/-- `brights_sys_hook_wait`: one event. -/
def sysHookWait (s : Syshook) (pid hookId eventBuf : Nat) : Syshook × List HookEvent × Int :=
  if eventBuf = 0 then (s, [], -1) else
  match ownHook s pid hookId with
  | none => (s, [], -1)
  | some i =>
      let r := ringbufPop (s.hookTable i) 1
      (s.put i r.1, r.2, r.2.length)

/-- All hooks of a process are given back. -/
def syshookCleanupPid (s : Syshook) (pid : Nat) : Syshook :=
  if s.initialized = false ∨ pid = 0 then s else
  (List.range syshookMax).foldl (fun s i =>
    if (s.hookTable i).active ∧ (s.hookTable i).ownerPid = pid then
      s.put i (s.hookTable i).release
    else s) s

end BrightS
