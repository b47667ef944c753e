/-
What hooks deliver.

Beside a hook stands a mailbox: what the calls since its registration put into it and took
out of it.  `Keeps` says that the ring of the hook holds what waits in the mailbox and that
the two counters count what came and what was lost.  Pushing an event is an arrival, popping
events hands them over, and no call does anything else to an active hook; so `Keeps` holds in
every run (`Recorded`), and what is known of mailboxes holds of hooks.
-/
import BrightS.Kernel.Syshook
import BrightS.Lib.Loops
import BrightS.Lib.Queues

namespace BrightS

open Words Queues Runs Loops

/-! ### The ring of a hook -/

def HookEntry.ring (h : HookEntry) : RingBuf HookEvent := ⟨h.ringbuf, h.rd, h.wr, h.count⟩

/-- The events that wait in a hook, the oldest first. -/
def HookEntry.stored (h : HookEntry) : List HookEvent := h.ring.stored syshookRingbufSize

/-- The hook holds what waits in the mailbox, and counts what came and what was lost. -/
structure Keeps (h : HookEntry) (m : Mailbox HookEvent) : Prop where
  sound : h.ring.Sound syshookRingbufSize
  stored : h.stored = m.pending
  total : h.totalEvents = BitVec.ofNat 64 m.arrived.length
  dropped : h.droppedEvents = BitVec.ofNat 64 m.lost.length

section Ring

variable {h : HookEntry} {m : Mailbox HookEvent}

theorem Keeps.count (hk : Keeps h m) : h.count = m.pending.length := by
  rw [← hk.stored, HookEntry.stored, RingBuf.length_stored]
  rfl

theorem ofNat_succ (n : Nat) : BitVec.ofNat 64 n + 1 = BitVec.ofNat 64 (n + 1) := by
  rw [BitVec.ofNat_add]
  rfl

/-- An event arrives. -/
theorem Keeps.push (hk : Keeps h m) (evt : HookEvent) :
    Keeps (ringbufPush h evt) (m.arrive syshookRingbufSize evt) := by
  have hcount := hk.count
  have htotal : (ringbufPush h evt).totalEvents =
      BitVec.ofNat 64 (m.arrive syshookRingbufSize evt).arrived.length := by
    rw [Mailbox.arrived_arrive m evt (by decide), List.length_append, List.length_singleton,
      ← ofNat_succ, ← hk.total]
    unfold ringbufPush
    split
    · rfl
    · rfl
  have hlost := Mailbox.lost_arrive syshookRingbufSize m evt
  by_cases hfull : syshookRingbufSize ≤ h.count
  · have hlen : h.ring.len = syshookRingbufSize := Nat.le_antisymm hk.sound.len_le hfull
    have hring : (ringbufPush h evt).ring = h.ring.overwrite syshookRingbufSize evt := by
      rw [ringbufPush, if_pos hfull]
      rfl
    have hdropped : (ringbufPush h evt).droppedEvents = h.droppedEvents + 1 := by
      rw [ringbufPush, if_pos hfull]
    refine ⟨?_, ?_, htotal, ?_⟩
    · rw [hring]
      exact hk.sound.overwrite hlen evt
    · have hpending := hk.stored
      unfold HookEntry.stored at hpending ⊢
      rw [hring, RingBuf.stored_overwrite hk.sound hlen, hpending, Mailbox.arrive,
        if_neg (by omega)]
    · rw [if_neg (by omega)] at hlost
      rw [hdropped, hk.dropped, ofNat_succ, hlost, List.length_append, List.length_take]
      congr 2
      have : 0 < syshookRingbufSize := by decide
      omega
  · have hring : (ringbufPush h evt).ring = h.ring.put syshookRingbufSize evt := by
      rw [ringbufPush, if_neg hfull]
      rfl
    have hdropped : (ringbufPush h evt).droppedEvents = h.droppedEvents := by
      rw [ringbufPush, if_neg hfull]
    have hroom : h.ring.len < syshookRingbufSize := Nat.lt_of_not_le hfull
    refine ⟨?_, ?_, htotal, ?_⟩
    · rw [hring]
      exact hk.sound.put hroom evt
    · have hpending := hk.stored
      unfold HookEntry.stored at hpending ⊢
      rw [hring, RingBuf.stored_put hk.sound hroom, hpending, Mailbox.arrive,
        if_pos (by omega)]
    · rw [if_pos (by omega), List.append_nil] at hlost
      rw [hdropped, hk.dropped, hlost]

/-- Nothing but the ring changes when events are popped. -/
theorem ringbufPop_same (n : Nat) :
    ∀ h : HookEntry, (ringbufPop h n).1 =
      { h with rd := (ringbufPop h n).1.rd, count := (ringbufPop h n).1.count } := by
  induction n with
  | zero =>
      intro h
      rfl
  | succ n ih =>
      intro h
      rw [ringbufPop]
      split
      · rfl
      · exact ih _

/-- The oldest events come out, as many as there are. -/
theorem ringbufPop_spec (n : Nat) :
    ∀ {h : HookEntry}, h.ring.Sound syshookRingbufSize →
      (ringbufPop h n).1.ring.Sound syshookRingbufSize ∧
      (ringbufPop h n).2 = h.stored.take n ∧
      (ringbufPop h n).1.stored = h.stored.drop n := by
  induction n with
  | zero =>
      intro h hs
      simp [ringbufPop, hs]
  | succ n ih =>
      intro h hs
      by_cases hempty : h.count = 0
      · have hnone : h.stored = [] := RingBuf.stored_empty hempty
        rw [ringbufPop, if_pos hempty]
        simp [hs, hnone]
      · have hpos : 0 < h.ring.len := Nat.pos_of_ne_zero hempty
        obtain ⟨hsound, hout, hstored⟩ :=
          ih (h := { h with rd := (h.rd + 1) % syshookRingbufSize, count := h.count - 1 })
            (hs.get hpos)
        have hfirst : h.stored = h.ringbuf h.rd :: HookEntry.stored
            { h with rd := (h.rd + 1) % syshookRingbufSize, count := h.count - 1 } :=
          RingBuf.stored_get hs hpos
        rw [ringbufPop, if_neg hempty, hfirst]
        exact ⟨hsound, congrArg _ hout, hstored⟩

/-- Events are handed over. -/
theorem Keeps.pop (hk : Keeps h m) (n : Nat) :
    Keeps (ringbufPop h n).1 (m.hand (ringbufPop h n).2.length) ∧
      (ringbufPop h n).2 = m.pending.take n := by
  obtain ⟨hsound, hout, hstored⟩ := ringbufPop_spec n hk.sound
  have hsame := ringbufPop_same n h
  have htake : (ringbufPop h n).2 = m.pending.take n := by rw [hout, hk.stored]
  have hdrop : m.pending.drop (ringbufPop h n).2.length = m.pending.drop n := by
    rw [htake, List.length_take]
    by_cases hn : n ≤ m.pending.length
    · rw [Nat.min_eq_left hn]
    · rw [Nat.min_eq_right (by omega), List.drop_length, List.drop_eq_nil_of_le (by omega)]
  refine ⟨⟨hsound, ?_, ?_, ?_⟩, htake⟩
  · rw [hstored, hk.stored]
    exact hdrop.symm
  · rw [Mailbox.arrived_hand, ← hk.total, hsame]
  · rw [Mailbox.lost_hand, ← hk.dropped, hsame]

end Ring

/-! ### What a call does to each hook -/

section Calls

variable {s : Syshook} {pid hookId i j : Nat}

theorem Syshook.put_apply (s : Syshook) (i j : Nat) (h : HookEntry) :
    (s.put i h).hookTable j = if j = i then h else s.hookTable j := by
  simp [Syshook.put, Function.update_apply]

theorem ownHook_eq_some : ownHook s pid hookId = some i ↔
    s.initialized = true ∧ hookId < syshookMax ∧ (s.hookTable hookId).active = true ∧
      (s.hookTable hookId).ownerPid = pid ∧ hookId = i := by
  unfold ownHook
  split
  · rename_i hbad
    simp only [reduceCtorEq, false_iff]
    rintro ⟨hinit, hlt, -⟩
    rcases hbad with hbad | hbad
    · simp [hinit] at hbad
    · omega
  · rename_i hgood
    have hinit : s.initialized = true := by
      cases h : s.initialized with
      | true => rfl
      | false => exact absurd (.inl h) hgood
    have hlt : hookId < syshookMax := Nat.lt_of_not_le fun h => hgood (.inr h)
    split
    · rename_i hoff
      simp [hoff]
    · rename_i hon
      split
      · rename_i hother
        simp [hother]
      · rename_i hown
        simp [hinit, hlt, hon, Decidable.not_not.mp hown]

/-- A loop that changes the hooks with a property. -/
theorem foldl_hooks {p : HookEntry → Prop} [DecidablePred p] {g : HookEntry → HookEntry}
    {body : Syshook → Nat → Syshook}
    (hbody : ∀ s i, (body s i).hookTable =
      if p (s.hookTable i) then Function.update s.hookTable i (g (s.hookTable i)) else s.hookTable)
    (s : Syshook) (hj : j < syshookMax) :
    ((List.range syshookMax).foldl body s).hookTable j =
      if p (s.hookTable j) then g (s.hookTable j) else s.hookTable j := by
  have hentry : ∀ s i j, (body s i).hookTable j =
      if j = i then (if p (s.hookTable j) then g (s.hookTable j) else s.hookTable j)
      else s.hookTable j := by
    intro s i j
    rw [hbody]
    by_cases hji : j = i
    · subst hji
      split
      · rw [Function.update_self, if_pos rfl]
      · rw [if_pos rfl]
    · rw [if_neg hji]
      split
      · rw [Function.update_of_ne hji]
      · rfl
  exact (foldl_range_entry Syshook.hookTable (f := fun h => if p h then g h else h) hentry s j
    syshookMax).trans (if_pos hj)

/-- Every hook that watches the call gets its event. -/
theorem syshookNotify_hook (hinit : s.initialized = true) (n : Notice) (hj : j < syshookMax) :
    (syshookNotify s n).hookTable j =
      if (s.hookTable j).noticed n then ringbufPush (s.hookTable j) n.event else s.hookTable j := by
  rw [syshookNotify, if_neg (by simp [hinit])]
  refine foldl_hooks (p := fun h => h.noticed n = true) (g := fun h => ringbufPush h n.event)
    (fun s i => ?_) s hj
  split
  · rfl
  · rfl

/-- Every hook that listens gets what is broadcast. -/
theorem syshookBroadcast_hook (hinit : s.initialized = true) (senderPid : Nat) (a b : Word)
    (hj : j < syshookMax) :
    (syshookBroadcast s senderPid a b).hookTable j =
      if (s.hookTable j).listens then
        ringbufPush (s.hookTable j) (broadcastEvent senderPid a b)
      else s.hookTable j := by
  rw [syshookBroadcast, if_neg (by simp [hinit])]
  refine foldl_hooks (p := fun h => h.listens = true)
    (g := fun h => ringbufPush h (broadcastEvent senderPid a b)) (fun s i => ?_) s hj
  split
  · rfl
  · rfl

/-- The hooks of the process are given back, all others stay. -/
theorem syshookCleanupPid_hook (hinit : s.initialized = true) (hpid : pid ≠ 0)
    (hj : j < syshookMax) :
    (syshookCleanupPid s pid).hookTable j =
      if (s.hookTable j).active ∧ (s.hookTable j).ownerPid = pid then (s.hookTable j).release
      else s.hookTable j := by
  rw [syshookCleanupPid, if_neg (by simp [hinit, hpid])]
  refine foldl_hooks (p := fun h => h.active = true ∧ h.ownerPid = pid) (fun s i => ?_) s hj
  split
  · rfl
  · rfl

end Calls

/-! ### Runs

`register` and the calls that end a hook are told apart by their answers, so that what a
hook was sent since its registration can be read off the calls.
-/

/-- A call with what came back from it. -/
inductive HookCall where
  | register (pid : Nat) (watchLo watchHi flags : Word) (ret : Int)
  | notify (n : Notice)
  | broadcast (senderPid : Nat) (customA customB : Word)
  | poll (pid hookId eventBuf maxEvents : Nat) (out : List HookEvent) (ret : Int)
  | wait (pid hookId eventBuf : Nat) (out : List HookEvent) (ret : Int)
  | unregister (pid hookId : Nat) (ret : Int)
  | cleanup (pid : Nat)

def Syshook.step (s : Syshook) (c : HookCall) (s' : Syshook) : Prop :=
  match c with
  | .register pid watchLo watchHi flags ret =>
      sysHookRegister s pid watchLo watchHi flags = (s', ret)
  | .notify n => s' = syshookNotify s n
  | .broadcast senderPid a b => s' = syshookBroadcast s senderPid a b
  | .poll pid hookId buf maxEvents out ret => sysHookPoll s pid hookId buf maxEvents = (s', out, ret)
  | .wait pid hookId buf out ret => sysHookWait s pid hookId buf = (s', out, ret)
  | .unregister pid hookId ret => sysHookUnregister s pid hookId = (s', ret)
  | .cleanup pid => s' = syshookCleanupPid s pid

/-- The call registered hook `i`. -/
def HookCall.registers (i : Nat) : HookCall → Bool
  | .register _ _ _ _ ret => ret == i
  | _ => false

/-- The owner, the mask and the flags that a hook has. -/
def HookEntry.terms (h : HookEntry) : Nat × Word × Word × Word :=
  (h.ownerPid, h.watchLo, h.watchHi, h.flags)

/-- What the call asked for hook `i`, if it registered it; flags that mean nothing are dropped. -/
def HookCall.asked (i : Nat) : HookCall → Option (Nat × Word × Word × Word)
  | .register pid watchLo watchHi flags ret =>
      if ret = i then
        some (pid, watchLo, watchHi, flags &&& (hookFlagPre ||| hookFlagPost ||| hookFlagBroadcast))
      else none
  | _ => none

/-- What the last registration of hook `i` asked for. -/
def registration (i : Nat) (calls : List HookCall) : Option (Nat × Word × Word × Word) :=
  calls.foldl (fun seen c => (c.asked i).or seen) none

/-- The calls since hook `i` was registered last. -/
def since (i : Nat) (calls : List HookCall) : List HookCall :=
  calls.foldl (fun seen c => if c.registers i then [] else seen ++ [c]) []

/-- The events the call sends to a hook with this mask and these flags. -/
def HookEntry.sent (h : HookEntry) : HookCall → List HookEvent
  | .notify n => if h.noticed n then [n.event] else []
  | .broadcast senderPid a b => if h.listens then [broadcastEvent senderPid a b] else []
  | _ => []

/-- The events the call took out of hook `i`. -/
def takenFrom (i : Nat) : HookCall → List HookEvent
  | .poll _ hookId _ _ out _ => if hookId = i then out else []
  | .wait _ hookId _ out _ => if hookId = i then out else []
  | _ => []

/-- What the call does to the mailbox of hook `i`. -/
def hookMail (h : HookEntry) (i : Nat) (m : Mailbox HookEvent) (c : HookCall) :
    Mailbox HookEvent :=
  ((h.sent c).foldl (Mailbox.arrive syshookRingbufSize) m).hand (takenFrom i c).length

/-- The mailbox of hook `i` since its registration. -/
def mailbox (h : HookEntry) (i : Nat) (calls : List HookCall) : Mailbox HookEvent :=
  (since i calls).foldl (hookMail h i) Mailbox.empty

section Mail

variable {h h' : HookEntry} {i : Nat} {m : Mailbox HookEvent} {c : HookCall}
  {calls : List HookCall}

theorem since_snoc : since i (calls ++ [c]) =
    if c.registers i then [] else since i calls ++ [c] := by
  unfold since
  rw [List.foldl_append, List.foldl_cons, List.foldl_nil]

theorem asked_eq_none (hreg : c.registers i = false) : c.asked i = none := by
  cases c with
  | register pid watchLo watchHi flags ret => exact if_neg (beq_eq_false_iff_ne.mp hreg)
  | _ => rfl

theorem registration_snoc : registration i (calls ++ [c]) =
    (c.asked i).or (registration i calls) := by
  unfold registration
  rw [List.foldl_append, List.foldl_cons, List.foldl_nil]

theorem mailbox_snoc : mailbox h i (calls ++ [c]) =
    if c.registers i then Mailbox.empty else hookMail h i (mailbox h i calls) c := by
  unfold mailbox
  rw [since_snoc]
  split
  · rfl
  · rw [List.foldl_append, List.foldl_cons, List.foldl_nil]

theorem sent_congr (hactive : h'.active = h.active) (hterms : h'.terms = h.terms) :
    h'.sent = h.sent := by
  simp only [HookEntry.terms, Prod.mk.injEq] at hterms
  obtain ⟨-, hlo, hhi, hflags⟩ := hterms
  have hnoticed : h'.noticed = h.noticed := by
    funext n
    unfold HookEntry.noticed hookWatchesSyscall
    rw [hactive, hlo, hhi, hflags]
  have hlistens : h'.listens = h.listens := by
    unfold HookEntry.listens
    rw [hactive, hflags]
  funext c
  unfold HookEntry.sent
  rw [hnoticed, hlistens]

/-- A mailbox depends on the mask and the flags alone. -/
theorem mailbox_congr (hsent : h'.sent = h.sent) : mailbox h' i calls = mailbox h i calls := by
  have hmail : hookMail h' i = hookMail h i := by
    funext m c
    rw [hookMail, hookMail, hsent]
  rw [mailbox, mailbox, hmail]

theorem arrived_foldl (l : List HookEvent) :
    ∀ m : Mailbox HookEvent,
      (l.foldl (Mailbox.arrive syshookRingbufSize) m).arrived = m.arrived ++ l := by
  induction l with
  | nil =>
      intro m
      simp
  | cons evt rest ih =>
      intro m
      rw [List.foldl_cons, ih, Mailbox.arrived_arrive m evt (by decide)]
      simp

theorem handed_foldl (l : List HookEvent) :
    ∀ m : Mailbox HookEvent,
      (l.foldl (Mailbox.arrive syshookRingbufSize) m).handed = m.handed := by
  induction l with
  | nil =>
      intro m
      rfl
  | cons evt rest ih =>
      intro m
      rw [List.foldl_cons, ih, Mailbox.handed_arrive]

/-- Everything that was sent to the hook since its registration came to its mailbox. -/
theorem arrived_mailbox (h : HookEntry) (i : Nat) (calls : List HookCall) :
    (mailbox h i calls).arrived = (since i calls).flatMap h.sent := by
  have hall : ∀ (l : List HookCall) (m : Mailbox HookEvent),
      (l.foldl (hookMail h i) m).arrived = m.arrived ++ l.flatMap h.sent := by
    intro l
    induction l with
    | nil =>
        intro m
        simp
    | cons c rest ih =>
        intro m
        rw [List.foldl_cons, ih, hookMail, Mailbox.arrived_hand, arrived_foldl, List.append_assoc,
          List.flatMap_cons]
  exact hall (since i calls) Mailbox.empty

theorem Keeps.pushes (l : List HookEvent) :
    ∀ {h : HookEntry} {m : Mailbox HookEvent}, Keeps h m →
      Keeps (l.foldl ringbufPush h) (l.foldl (Mailbox.arrive syshookRingbufSize) m) := by
  induction l with
  | nil =>
      intro h m hk
      exact hk
  | cons evt rest ih =>
      intro h m hk
      exact ih (hk.push evt)

/-- An event changes neither the mask nor the flags nor the owner of a hook. -/
theorem foldl_push_same (l : List HookEvent) :
    ∀ h : HookEntry, (l.foldl ringbufPush h).active = h.active ∧
      (l.foldl ringbufPush h).terms = h.terms := by
  induction l with
  | nil =>
      intro h
      exact ⟨rfl, rfl⟩
  | cons evt rest ih =>
      intro h
      obtain ⟨hactive, hterms⟩ := ih (ringbufPush h evt)
      have hpush : (ringbufPush h evt).active = h.active ∧
          (ringbufPush h evt).terms = h.terms := by
        unfold ringbufPush
        split
        · exact ⟨rfl, rfl⟩
        · exact ⟨rfl, rfl⟩
      exact ⟨hactive.trans hpush.1, hterms.trans hpush.2⟩

theorem pop_same (n : Nat) (h : HookEntry) :
    (ringbufPop h n).1.active = h.active ∧ (ringbufPop h n).1.terms = h.terms := by
  rw [ringbufPop_same]
  exact ⟨rfl, rfl⟩

end Mail

/-! ### One call -/

/-- What a call makes of hook `i`. -/
inductive Effect (i : Nat) (h : HookEntry) (c : HookCall) : HookEntry → Prop where
  | registered (h' : HookEntry) (hreg : c.registers i = true) (hoff : h.active = false)
      (hring : h'.rd = 0 ∧ h'.wr = 0 ∧ h'.count = 0) (htotal : h'.totalEvents = 0)
      (hdropped : h'.droppedEvents = 0) (hasked : c.asked i = some h'.terms) : Effect i h c h'
  | released (hreg : c.registers i = false) : Effect i h c h.release
  | sent (hreg : c.registers i = false) (htaken : takenFrom i c = []) :
      Effect i h c ((h.sent c).foldl ringbufPush h)
  | taken (n : Nat) (hreg : c.registers i = false) (hsent : h.sent c = [])
      (htaken : takenFrom i c = (ringbufPop h n).2) : Effect i h c (ringbufPop h n).1

/-- A call that does nothing to the hook. -/
theorem Effect.none {i : Nat} {h : HookEntry} {c : HookCall} (hreg : c.registers i = false)
    (htaken : takenFrom i c = []) (hsent : h.sent c = []) : Effect i h c h := by
  have heffect := Effect.sent (h := h) hreg htaken
  rwa [hsent] at heffect

section Step

variable {s s' : Syshook} {c : HookCall} {i : Nat}

/-- Events are popped from the hook of the caller, or the call fails. -/
def Pops (s : Syshook) (pid hookId n : Nat) (s' : Syshook) (out : List HookEvent) (ret : Int) :
    Prop :=
  (s' = s ∧ out = [] ∧ ret = -1) ∨
    ownHook s pid hookId = some hookId ∧ out = (ringbufPop (s.hookTable hookId) n).2 ∧
      s' = s.put hookId (ringbufPop (s.hookTable hookId) n).1 ∧ ret = out.length

theorem pops_of_own {pid hookId n : Nat} {out : List HookEvent} {ret : Int}
    (hcall : (match ownHook s pid hookId with
      | none => (s, [], -1)
      | some j =>
          let r := ringbufPop (s.hookTable j) n
          (s.put j r.1, r.2, (r.2.length : Int))) = (s', out, ret)) :
    Pops s pid hookId n s' out ret := by
  cases hown : ownHook s pid hookId with
  | none =>
      simp only [hown, Prod.mk.injEq] at hcall
      obtain ⟨rfl, rfl, rfl⟩ := hcall
      exact .inl ⟨rfl, rfl, rfl⟩
  | some j =>
      simp only [hown, Prod.mk.injEq] at hcall
      obtain ⟨rfl, rfl, rfl⟩ := hcall
      obtain ⟨-, -, -, -, rfl⟩ := ownHook_eq_some.mp hown
      exact .inr ⟨hown, rfl, rfl, rfl⟩

theorem sysHookPoll_pops {pid hookId buf maxEvents : Nat} {out : List HookEvent} {ret : Int}
    (hcall : sysHookPoll s pid hookId buf maxEvents = (s', out, ret)) :
    Pops s pid hookId (min maxEvents syshookRingbufSize) s' out ret := by
  unfold sysHookPoll at hcall
  split at hcall
  · simp only [Prod.mk.injEq] at hcall
    obtain ⟨rfl, rfl, rfl⟩ := hcall
    exact .inl ⟨rfl, rfl, rfl⟩
  · exact pops_of_own hcall

theorem sysHookWait_pops {pid hookId buf : Nat} {out : List HookEvent} {ret : Int}
    (hcall : sysHookWait s pid hookId buf = (s', out, ret)) : Pops s pid hookId 1 s' out ret := by
  unfold sysHookWait at hcall
  split at hcall
  · simp only [Prod.mk.injEq] at hcall
    obtain ⟨rfl, rfl, rfl⟩ := hcall
    exact .inl ⟨rfl, rfl, rfl⟩
  · exact pops_of_own hcall

theorem Pops.effect {pid hookId n : Nat} {out : List HookEvent} {ret : Int}
    (h : Pops s pid hookId n s' out ret) (hreg : c.registers i = false)
    (hsent : (s.hookTable i).sent c = []) (htaken : takenFrom i c = if hookId = i then out else []) :
    Effect i (s.hookTable i) c (s'.hookTable i) := by
  rcases h with ⟨rfl, rfl, -⟩ | ⟨-, rfl, rfl, -⟩
  · exact .none hreg (by simp [htaken]) hsent
  · rw [Syshook.put_apply]
    by_cases hi : i = hookId
    · subst hi
      rw [if_pos rfl]
      exact .taken n hreg hsent (htaken.trans (if_pos rfl))
    · rw [if_neg hi]
      exact .none hreg (htaken.trans (if_neg (Ne.symm hi))) hsent

/-- **What a call can do to a hook.** -/
theorem Syshook.step_effect (hinit : s.initialized = true) (hi : i < syshookMax)
    (hstep : s.step c s') : Effect i (s.hookTable i) c (s'.hookTable i) := by
  cases c with
  | register pid watchLo watchHi flags ret =>
      simp only [Syshook.step, sysHookRegister, hinit] at hstep
      rw [if_neg (by simp)] at hstep
      cases hfree : (List.range syshookMax).find? fun i => !(s.hookTable i).active with
      | none =>
          simp only [hfree, Prod.mk.injEq] at hstep
          obtain ⟨rfl, rfl⟩ := hstep
          exact .none (by simp [HookCall.registers]) rfl rfl
      | some slot =>
          simp only [hfree, Prod.mk.injEq] at hstep
          obtain ⟨rfl, rfl⟩ := hstep
          have hoff : (s.hookTable slot).active = false := by
            simpa using List.find?_some hfree
          show Effect i _ _ ((s.put slot _).hookTable i)
          rw [Syshook.put_apply]
          by_cases hslot : i = slot
          · subst hslot
            rw [if_pos rfl]
            exact .registered _ (by simp [HookCall.registers]) hoff ⟨rfl, rfl, rfl⟩ rfl rfl
              (if_pos rfl)
          · rw [if_neg hslot]
            refine .none ?_ rfl rfl
            simp [HookCall.registers]
            omega
  | notify n =>
      rw [show s' = syshookNotify s n from hstep, syshookNotify_hook hinit n hi]
      have heffect := Effect.sent (h := s.hookTable i) (i := i) (c := .notify n) rfl rfl
      simp only [HookEntry.sent] at heffect
      split
      · rename_i hnoticed
        rwa [if_pos hnoticed] at heffect
      · rename_i hnoticed
        rwa [if_neg hnoticed] at heffect
  | broadcast senderPid a b =>
      rw [show s' = syshookBroadcast s senderPid a b from hstep,
        syshookBroadcast_hook hinit senderPid a b hi]
      have heffect :=
        Effect.sent (h := s.hookTable i) (i := i) (c := .broadcast senderPid a b) rfl rfl
      simp only [HookEntry.sent] at heffect
      split
      · rename_i hlistens
        rwa [if_pos hlistens] at heffect
      · rename_i hlistens
        rwa [if_neg hlistens] at heffect
  | poll pid hookId buf maxEvents out ret => exact (sysHookPoll_pops hstep).effect rfl rfl rfl
  | wait pid hookId buf out ret => exact (sysHookWait_pops hstep).effect rfl rfl rfl
  | unregister pid hookId ret =>
      simp only [Syshook.step, sysHookUnregister] at hstep
      cases hown : ownHook s pid hookId with
      | none =>
          simp only [hown, Prod.mk.injEq] at hstep
          obtain ⟨rfl, -⟩ := hstep
          exact .none rfl rfl rfl
      | some j =>
          simp only [hown, Prod.mk.injEq] at hstep
          obtain ⟨rfl, -⟩ := hstep
          rw [Syshook.put_apply]
          split
          · rename_i hij
            rw [← hij]
            exact .released rfl
          · exact .none rfl rfl rfl
  | cleanup pid =>
      rw [show s' = syshookCleanupPid s pid from hstep]
      by_cases hpid : pid = 0
      · rw [syshookCleanupPid, if_pos (.inr hpid)]
        exact .none rfl rfl rfl
      · rw [syshookCleanupPid_hook hinit hpid hi]
        split
        · exact .released rfl
        · exact .none rfl rfl rfl

theorem foldl_initialized {body : Syshook → Nat → Syshook}
    (hbody : ∀ s i, (body s i).initialized = s.initialized) (l : List Nat) :
    ∀ s : Syshook, (l.foldl body s).initialized = s.initialized := by
  induction l with
  | nil =>
      intro s
      rfl
  | cons i rest ih =>
      intro s
      exact (ih (body s i)).trans (hbody s i)

/-- No call switches the hooks off. -/
theorem Syshook.step_initialized (hstep : s.step c s') : s'.initialized = s.initialized := by
  cases c with
  | register pid watchLo watchHi flags ret =>
      simp only [Syshook.step, sysHookRegister] at hstep
      split at hstep
      · rw [← (Prod.mk.inj hstep).1]
      · split at hstep
        · rw [← (Prod.mk.inj hstep).1]
        · rw [← (Prod.mk.inj hstep).1]
          rfl
  | notify n =>
      rw [show s' = syshookNotify s n from hstep, syshookNotify]
      split
      · rfl
      · refine foldl_initialized (fun s i => ?_) _ s
        split
        · rfl
        · rfl
  | broadcast senderPid a b =>
      rw [show s' = syshookBroadcast s senderPid a b from hstep, syshookBroadcast]
      split
      · rfl
      · refine foldl_initialized (fun s i => ?_) _ s
        split
        · rfl
        · rfl
  | poll pid hookId buf maxEvents out ret =>
      simp only [Syshook.step, sysHookPoll] at hstep
      split at hstep
      · rw [← (Prod.mk.inj hstep).1]
      · split at hstep
        · rw [← (Prod.mk.inj hstep).1]
        · rw [← (Prod.mk.inj hstep).1]
          rfl
  | wait pid hookId buf out ret =>
      simp only [Syshook.step, sysHookWait] at hstep
      split at hstep
      · rw [← (Prod.mk.inj hstep).1]
      · split at hstep
        · rw [← (Prod.mk.inj hstep).1]
        · rw [← (Prod.mk.inj hstep).1]
          rfl
  | unregister pid hookId ret =>
      simp only [Syshook.step, sysHookUnregister] at hstep
      split at hstep
      · rw [← (Prod.mk.inj hstep).1]
      · rw [← (Prod.mk.inj hstep).1]
        rfl
  | cleanup pid =>
      rw [show s' = syshookCleanupPid s pid from hstep, syshookCleanupPid]
      split
      · rfl
      · refine foldl_initialized (fun s i => ?_) _ s
        split
        · rfl
        · rfl

end Step

/-! ### The result -/

/-- An active hook, its registration and its mailbox. -/
structure Recorded (i : Nat) (s : Syshook) (calls : List HookCall) : Prop where
  terms : registration i calls = some (s.hookTable i).terms
  keeps : Keeps (s.hookTable i) (mailbox (s.hookTable i) i calls)
  handed : (mailbox (s.hookTable i) i calls).handed = (since i calls).flatMap (takenFrom i)

section Record

variable {s s' : Syshook} {c : HookCall} {i : Nat} {calls : List HookCall}

/-- What one call keeps. -/
theorem Recorded.step (hinit : s.initialized = true) (hi : i < syshookMax)
    (hstep : s.step c s') (h : (s.hookTable i).active = true → Recorded i s calls)
    (hactive : (s'.hookTable i).active = true) : Recorded i s' (calls ++ [c]) := by
  have heffect := Syshook.step_effect hinit hi hstep
  generalize hnew : s'.hookTable i = new at heffect hactive
  cases heffect with
  | registered _ hreg hoff hring htotal hdropped hasked =>
      obtain ⟨hrd, hwr, hcount⟩ := hring
      refine ⟨?_, ?_, ?_⟩
      · rw [registration_snoc, hasked, hnew]
        rfl
      · rw [mailbox_snoc, if_pos hreg, hnew]
        refine ⟨?_, RingBuf.stored_empty hcount, htotal, hdropped⟩
        rw [HookEntry.ring, hrd, hwr, hcount]
        exact RingBuf.Sound.empty _ (by decide)
      · rw [mailbox_snoc, if_pos hreg, since_snoc, if_pos hreg]
        rfl
  | released hreg => exact absurd hactive (by simp [HookEntry.release])
  | sent hreg htaken =>
      obtain ⟨hsameActive, hsameTerms⟩ :=
        foldl_push_same ((s.hookTable i).sent c) (s.hookTable i)
      obtain ⟨hterms, hkeeps, hhanded⟩ := h (hsameActive.symm.trans hactive)
      rw [← hnew] at hsameActive hsameTerms
      have hsent := sent_congr hsameActive hsameTerms
      have hmail : mailbox (s'.hookTable i) i (calls ++ [c]) =
          ((s.hookTable i).sent c).foldl (Mailbox.arrive syshookRingbufSize)
            (mailbox (s.hookTable i) i calls) := by
        rw [mailbox_congr hsent, mailbox_snoc, if_neg (by simp [hreg]), hookMail, htaken]
        exact Mailbox.hand_zero _
      refine ⟨?_, ?_, ?_⟩
      · rw [registration_snoc, asked_eq_none hreg, hsameTerms]
        exact hterms
      · rw [hmail, hnew]
        exact hkeeps.pushes _
      · rw [hmail, handed_foldl, hhanded, since_snoc, if_neg (by simp [hreg])]
        simp [htaken]
  | taken n hreg hsent htaken =>
      obtain ⟨hsameActive, hsameTerms⟩ := pop_same n (s.hookTable i)
      obtain ⟨hterms, hkeeps, hhanded⟩ := h (hsameActive.symm.trans hactive)
      obtain ⟨hpop, hout⟩ := hkeeps.pop n
      rw [← hnew] at hsameActive hsameTerms
      have hsameSent := sent_congr hsameActive hsameTerms
      have hmail : mailbox (s'.hookTable i) i (calls ++ [c]) =
          (mailbox (s.hookTable i) i calls).hand (ringbufPop (s.hookTable i) n).2.length := by
        rw [mailbox_congr hsameSent, mailbox_snoc, if_neg (by simp [hreg]), hookMail, hsent, htaken]
        rfl
      refine ⟨?_, ?_, ?_⟩
      · rw [registration_snoc, asked_eq_none hreg, hsameTerms]
        exact hterms
      · rw [hmail, hnew]
        exact hpop
      · rw [hmail, Mailbox.handed_hand, hhanded, since_snoc, if_neg (by simp [hreg])]
        have hall : ((mailbox (s.hookTable i) i calls).pending.take
            (ringbufPop (s.hookTable i) n).2.length) = (ringbufPop (s.hookTable i) n).2 := by
          rw [hout, List.length_take, List.take_eq_take_iff]
          omega
        simp [htaken, hall]

/-- **Every active hook is recorded**, after any calls. -/
theorem recorded {s₀ : Syshook} (hrun : Executes Syshook.step (syshookInit s₀) calls s) :
    s.initialized = true ∧
      ∀ i, i < syshookMax → (s.hookTable i).active = true → Recorded i s calls := by
  refine hrun.history (P := fun s calls => s.initialized = true ∧
    ∀ i, i < syshookMax → (s.hookTable i).active = true → Recorded i s calls) ?_ ⟨rfl, ?_⟩
  · rintro s calls c s' ⟨hinit, hall⟩ hstep
    exact ⟨(Syshook.step_initialized hstep).trans hinit,
      fun i hi => Recorded.step hinit hi hstep (hall i hi)⟩
  · intro i hi hactive
    rw [syshookInit] at hactive
    simp [hi, HookEntry.release] at hactive

/-- **Hooks deliver events in order**: an active hook has the owner, mask and flags that its last
registration asked for, and its ring holds what waits in its mailbox, to which each event that they
watch has come since.  Calls of the owner take the oldest of these, and an event that was not taken
waits unless a newer one found the ring full. -/
theorem hook_events_delivered {s₀ : Syshook}
    (hrun : Executes Syshook.step (syshookInit s₀) calls s) (hi : i < syshookMax)
    (hactive : (s.hookTable i).active = true) :
    let h := s.hookTable i
    let m := mailbox h i calls
    registration i calls = some h.terms ∧
    (h.stored = m.pending ∧ h.count = m.pending.length ∧ m.pending.length ≤ syshookRingbufSize) ∧
    m.arrived = (since i calls).flatMap h.sent ∧
    m.handed = (since i calls).flatMap (takenFrom i) ∧
    (∀ buf maxEvents, buf ≠ 0 → maxEvents ≠ 0 →
      (sysHookPoll s h.ownerPid i buf maxEvents).2.1 =
        m.pending.take (min maxEvents syshookRingbufSize)) ∧
    (∀ buf, buf ≠ 0 → (sysHookWait s h.ownerPid i buf).2.1 = m.pending.take 1) ∧
    m.arrived.length = m.lost.length + m.handed.length + h.count ∧
    h.droppedEvents = BitVec.ofNat 64 m.lost.length ∧
    h.totalEvents =
      h.droppedEvents + BitVec.ofNat 64 m.handed.length + BitVec.ofNat 64 h.count := by
  obtain ⟨hinit, hall⟩ := recorded hrun
  obtain ⟨hterms, hkeeps, hhanded⟩ := hall i hi hactive
  have hcount := hkeeps.count
  have hsum := Mailbox.length_arrived (mailbox (s.hookTable i) i calls)
  have hown : ownHook s (s.hookTable i).ownerPid i = some i :=
    ownHook_eq_some.mpr ⟨hinit, hi, hactive, rfl, rfl⟩
  refine ⟨hterms, ⟨hkeeps.stored, hcount, hcount ▸ hkeeps.sound.len_le⟩,
    arrived_mailbox _ i calls, hhanded,
    fun buf maxEvents hbuf hmax => ?_, fun buf hbuf => ?_, ?_, hkeeps.dropped, ?_⟩
  · simp only [sysHookPoll, hown, hbuf, hmax, or_self, if_false]
    exact (hkeeps.pop _).2
  · simp only [sysHookWait, hown, hbuf, if_false]
    exact (hkeeps.pop _).2
  · rw [hcount]
    exact hsum
  · rw [hkeeps.total, hkeeps.dropped, ← BitVec.ofNat_add, ← BitVec.ofNat_add, hcount, hsum]

def noEvent : HookEvent := ⟨0, 0, Vector.replicate 6 0, 0, 0, 0, (0, 0)⟩

def noHooks : Syshook where
  hookTable _ := ⟨false, 0, 0, 0, 0, fun _ => noEvent, 0, 0, 0, 0, 0⟩
  initialized := false
  totalHooksCreated := 0
  totalEventsDispatched := 0

/-- A hook that is sent to stays, and so it can be sent to any number of times. -/
theorem broadcasts_run (n : Nat) : ∀ {s : Syshook}, s.initialized = true →
    (s.hookTable 0).active = true → ∃ s', Executes Syshook.step s
      (List.replicate n (.broadcast 9 1 2)) s' ∧ (s'.hookTable 0).active = true := by
  induction n with
  | zero =>
      intro s _ hactive
      exact ⟨s, .nil s, hactive⟩
  | succ n ih =>
      intro s hinit hactive
      have hnext := syshookBroadcast_hook hinit 9 1 2 (j := 0) (by decide)
      have hstays : ((syshookBroadcast s 9 1 2).hookTable 0).active = true := by
        rw [hnext]
        split
        · exact (foldl_push_same [_] (s.hookTable 0)).1.trans hactive
        · exact hactive
      have hstep : s.step (.broadcast 9 1 2) (syshookBroadcast s 9 1 2) := rfl
      obtain ⟨s', hrun, hlast⟩ := ih ((Syshook.step_initialized hstep).trans hinit) hstays
      exact ⟨s', .cons hstep hrun, hlast⟩

def noticeOf (num : Word) : Notice := ⟨hookEvtPreSyscall, num, Vector.replicate 6 0, 0, 9, 0⟩

/-- A hook for system call 1 is told of calls 1 and 2, and then sent more than it can hold. -/
def crowdedHook : List HookCall :=
  [.register 5 2 0 7 0, .notify (noticeOf 1), .notify (noticeOf 2)] ++
    List.replicate 64 (.broadcast 9 1 2)

def crowdedEntry : HookEntry :=
  { noHooks.hookTable 0 with active := true, ownerPid := 5, watchLo := 2, flags := 7 }

/-- The oldest event is lost, and the owner gets the first of the others. -/
theorem hook_events_delivered_crowded :
    ∃ s, Executes Syshook.step (syshookInit noHooks) crowdedHook s ∧
      (s.hookTable 0).terms = (5, 2, 0, 7) ∧ (s.hookTable 0).totalEvents = 65 ∧
      (s.hookTable 0).droppedEvents = 1 ∧ (s.hookTable 0).count = 64 ∧
      (mailbox (s.hookTable 0) 0 crowdedHook).lost = [(noticeOf 1).event] ∧
      (sysHookPoll s 5 0 1 1).2.1 = [broadcastEvent 9 1 2] := by
  let told := syshookNotify (syshookNotify (sysHookRegister (syshookInit noHooks) 5 2 0 7).1
    (noticeOf 1)) (noticeOf 2)
  obtain ⟨hanswer, hinit, hon, hasked⟩ : (sysHookRegister (syshookInit noHooks) 5 2 0 7).2 = 0 ∧
      told.initialized = true ∧ (told.hookTable 0).active = true ∧
      registration 0 crowdedHook = some (5, 2, 0, 7) := by decide +kernel
  obtain ⟨hpending, hfirst, hlost, hhanded⟩ :
      (mailbox crowdedEntry 0 crowdedHook).pending.length = 64 ∧
      (mailbox crowdedEntry 0 crowdedHook).pending.take 1 = [broadcastEvent 9 1 2] ∧
      (mailbox crowdedEntry 0 crowdedHook).lost = [(noticeOf 1).event] ∧
      (mailbox crowdedEntry 0 crowdedHook).handed = [] := by decide +kernel
  obtain ⟨s, hsends, hactive⟩ := broadcasts_run 64 hinit hon
  have hrun : Executes Syshook.step (syshookInit noHooks) crowdedHook s :=
    .cons (Prod.ext rfl hanswer) (.cons rfl (.cons rfl hsends))
  obtain ⟨hterms, ⟨-, hcount, -⟩, -, -, hpoll, -, -, hdropped, htotal⟩ :=
    hook_events_delivered hrun (i := 0) (by decide) hactive
  have hmine : (s.hookTable 0).terms = (5, 2, 0, 7) := Option.some.inj (hterms.symm.trans hasked)
  -- so its mailbox is that of any active hook with these terms
  have hmail : mailbox (s.hookTable 0) 0 crowdedHook = mailbox crowdedEntry 0 crowdedHook :=
    mailbox_congr (sent_congr (h := crowdedEntry) hactive hmine)
  rw [hmail, hpending] at hcount
  rw [hmail, hlost] at hdropped
  rw [hmail, hhanded, hcount, hdropped] at htotal
  have hfive : (s.hookTable 0).ownerPid = 5 := congrArg Prod.fst hmine
  have hpolled := hpoll 1 1 (by decide) (by decide)
  rw [hfive, hmail] at hpolled
  exact ⟨s, hrun, hmine, htotal, hdropped, hcount, (congrArg _ hmail).trans hlost,
    hpolled.trans hfirst⟩

/-! ### Isolation -/

/-- The caller, the hook and the answer of a call on one hook. -/
def HookCall.asks : HookCall → Option (Nat × Nat × Int)
  | .poll pid hookId _ _ _ ret => some (pid, hookId, ret)
  | .wait pid hookId _ _ ret => some (pid, hookId, ret)
  | .unregister pid hookId ret => some (pid, hookId, ret)
  | _ => none

/-- A call on one hook fails and changes nothing, or it is a call of the owner. -/
theorem Syshook.asks_cases {pid hookId : Nat} {ret : Int} (hasks : c.asks = some (pid, hookId, ret))
    (hstep : s.step c s') :
    (ret = -1 ∧ s' = s ∧ ∀ i, takenFrom i c = []) ∨
    (0 ≤ ret ∧ ownHook s pid hookId = some hookId ∧
      ∃ h', s' = s.put hookId h' ∧
        ((∀ i, takenFrom i c = []) ∨ ∃ n, ∀ i, takenFrom i c =
          if hookId = i then (ringbufPop (s.hookTable i) n).2 else [])) := by
  have howned : ∀ {j}, ownHook s pid hookId = some j → j = hookId := by
    intro j hj
    obtain ⟨-, -, -, -, h⟩ := ownHook_eq_some.mp hj
    exact h.symm
  have hpops : ∀ {n out}, Pops s pid hookId n s' out ret →
      (∀ i, takenFrom i c = if hookId = i then out else []) →
      (ret = -1 ∧ s' = s ∧ ∀ i, takenFrom i c = []) ∨
      (0 ≤ ret ∧ ownHook s pid hookId = some hookId ∧
        ∃ h', s' = s.put hookId h' ∧
          ((∀ i, takenFrom i c = []) ∨ ∃ n, ∀ i, takenFrom i c =
            if hookId = i then (ringbufPop (s.hookTable i) n).2 else [])) := by
    rintro n out (⟨hsame, rfl, hret⟩ | ⟨hown, rfl, hput, hret⟩) htaken
    · exact .inl ⟨hret, hsame, fun i => by rw [htaken, ite_self]⟩
    · refine .inr ⟨hret ▸ Int.natCast_nonneg _, hown, _, hput, .inr ⟨n, fun i => ?_⟩⟩
      rw [htaken]
      split
      · rename_i hi
        rw [hi]
      · rfl
  cases c with
  | poll pid' hookId' buf maxEvents out ret' =>
      obtain ⟨rfl, rfl, rfl⟩ : pid' = pid ∧ hookId' = hookId ∧ ret' = ret := by
        simpa [HookCall.asks] using hasks
      exact hpops (sysHookPoll_pops hstep) fun _ => rfl
  | wait pid' hookId' buf out ret' =>
      obtain ⟨rfl, rfl, rfl⟩ : pid' = pid ∧ hookId' = hookId ∧ ret' = ret := by
        simpa [HookCall.asks] using hasks
      exact hpops (sysHookWait_pops hstep) fun _ => rfl
  | unregister pid' hookId' ret' =>
      obtain ⟨rfl, rfl, rfl⟩ : pid' = pid ∧ hookId' = hookId ∧ ret' = ret := by
        simpa [HookCall.asks] using hasks
      simp only [Syshook.step, sysHookUnregister] at hstep
      cases hown : ownHook s pid' hookId' with
      | none =>
          simp only [hown, Prod.mk.injEq] at hstep
          obtain ⟨rfl, rfl⟩ := hstep
          exact .inl ⟨rfl, rfl, fun i => rfl⟩
      | some j =>
          obtain rfl := howned hown
          simp only [hown, Prod.mk.injEq] at hstep
          obtain ⟨rfl, rfl⟩ := hstep
          exact .inr ⟨Int.le_refl 0, rfl, _, rfl, .inl fun i => rfl⟩
  | register pid' watchLo watchHi flags ret' => simp [HookCall.asks] at hasks
  | notify n => simp [HookCall.asks] at hasks
  | broadcast senderPid a b => simp [HookCall.asks] at hasks
  | cleanup pid' => simp [HookCall.asks] at hasks

/-- **Hooks are isolated**: a call on a hook succeeds for its owner alone and changes no other
hook; cleaning up after a process takes its hooks and leaves all others; and what a hook hands
over was sent to it since its last registration. -/
theorem hooks_isolated {s₀ : Syshook}
    (hrun : Executes Syshook.step (syshookInit s₀) calls s) :
    (∀ c s' pid hookId ret, c.asks = some (pid, hookId, ret) → s.step c s' →
      (ret ≠ -1 → hookId < syshookMax ∧ (s.hookTable hookId).active = true ∧
        (s.hookTable hookId).ownerPid = pid) ∧
      (ret = -1 → s' = s) ∧ ∀ j, j ≠ hookId → s'.hookTable j = s.hookTable j) ∧
    (∀ pid, pid ≠ 0 → ∀ j, j < syshookMax →
      (((syshookCleanupPid s pid).hookTable j).active = true →
        ((syshookCleanupPid s pid).hookTable j).ownerPid ≠ pid) ∧
      ((s.hookTable j).ownerPid ≠ pid →
        (syshookCleanupPid s pid).hookTable j = s.hookTable j)) ∧
    (∀ c s' i, i < syshookMax → s.step c s' →
      takenFrom i c <:+: (since i calls).flatMap (s.hookTable i).sent) := by
  obtain ⟨hinit, hall⟩ := recorded hrun
  refine ⟨fun c s' pid hookId ret hasks hstep => ?_, fun pid hpid j hj => ?_,
    fun c s' i hi hstep => ?_⟩
  · rcases Syshook.asks_cases hasks hstep with ⟨rfl, rfl, -⟩ | ⟨hret, hown, h', rfl, -⟩
    · exact ⟨fun h => absurd rfl h, fun _ => rfl, fun _ _ => rfl⟩
    · obtain ⟨-, hlt, hactive, howner, -⟩ := ownHook_eq_some.mp hown
      refine ⟨fun _ => ⟨hlt, hactive, howner⟩, fun hbad => by omega, fun j hj => ?_⟩
      rw [Syshook.put_apply, if_neg hj]
  · rw [syshookCleanupPid_hook hinit hpid hj]
    split
    · rename_i hmine
      exact ⟨fun h => by simp [HookEntry.release] at h, fun h => absurd hmine.2 h⟩
    · rename_i hother
      exact ⟨fun hactive howner => hother ⟨hactive, howner⟩, fun _ => rfl⟩
  · by_cases hnone : takenFrom i c = []
    · rw [hnone]
      exact List.nil_infix
    · obtain ⟨pid, hookId, ret, hasks⟩ : ∃ pid hookId ret, c.asks = some (pid, hookId, ret) := by
        cases c with
        | poll pid hookId _ _ _ ret => exact ⟨pid, hookId, ret, rfl⟩
        | wait pid hookId _ _ ret => exact ⟨pid, hookId, ret, rfl⟩
        | unregister pid hookId ret => exact ⟨pid, hookId, ret, rfl⟩
        | register _ _ _ _ _ => exact absurd rfl hnone
        | notify _ => exact absurd rfl hnone
        | broadcast _ _ _ => exact absurd rfl hnone
        | cleanup _ => exact absurd rfl hnone
      rcases Syshook.asks_cases hasks hstep with ⟨-, -, hno⟩ | ⟨-, hown, -, -, hno | ⟨n, hpop⟩⟩
      · exact absurd (hno i) hnone
      · exact absurd (hno i) hnone
      · have htaken := hpop i
        split at htaken
        · rename_i hhook
          subst hhook
          obtain ⟨-, -, hactive, -, -⟩ := ownHook_eq_some.mp hown
          have hkeeps := (hall hookId hi hactive).keeps
          rw [htaken, (hkeeps.pop n).2, ← arrived_mailbox]
          exact (List.take_prefix n _).isInfix.trans (List.suffix_append _ _).isInfix
        · exact absurd htaken hnone

end Record

/-! ### Two processes and one hook -/

/-- The first process watches everything and takes one of two events. -/
def firstHook : List HookCall :=
  [.register 5 (BitVec.allOnes 64) (BitVec.allOnes 64) 7 0, .broadcast 9 1 2,
    .poll 5 0 1 8 [broadcastEvent 9 1 2] 1, .broadcast 9 3 4]

def hookRegistered : Syshook :=
  (sysHookRegister (syshookInit noHooks) 5 (BitVec.allOnes 64) (BitVec.allOnes 64) 7).1

def hookSent : Syshook := syshookBroadcast hookRegistered 9 1 2

def hookPolled : Syshook := (sysHookPoll hookSent 5 0 1 8).1

theorem firstHook_runs :
    Executes Syshook.step (syshookInit noHooks) firstHook (syshookBroadcast hookPolled 9 3 4) := by
  have hregister : sysHookRegister (syshookInit noHooks) 5 (BitVec.allOnes 64)
      (BitVec.allOnes 64) 7 = (hookRegistered, 0) := Prod.ext rfl (by decide +kernel)
  have hout : (sysHookPoll hookSent 5 0 1 8).2 = ([broadcastEvent 9 1 2], 1) := by
    decide +kernel
  have hpoll : sysHookPoll hookSent 5 0 1 8 = (hookPolled, [broadcastEvent 9 1 2], 1) := by
    rw [hookPolled, ← hout]
  exact .cons hregister (.cons rfl (.cons hpoll (.cons rfl (.nil _))))

def hookGiven : Syshook := (sysHookUnregister (syshookBroadcast hookPolled 9 3 4) 5 0).1

/-- The first process gives its hook back with an event in it, and the second process gets the
hook: it will not get that event. -/
theorem hooks_isolated_reused :
    ∃ s, Executes Syshook.step (syshookInit noHooks)
        (firstHook ++ [.unregister 5 0 0, .register 7 0 0 7 0]) s ∧
      ∀ c s', s.step c s' → takenFrom 0 c = [] := by
  have hanswer : (sysHookUnregister (syshookBroadcast hookPolled 9 3 4) 5 0).2 = 0 := by
    decide +kernel
  have hgiven : sysHookUnregister (syshookBroadcast hookPolled 9 3 4) 5 0 = (hookGiven, 0) := by
    rw [hookGiven, ← hanswer]
  have hslot : (sysHookRegister hookGiven 7 0 0 7).2 = 0 := by
    decide +kernel
  have htaken : sysHookRegister hookGiven 7 0 0 7 = ((sysHookRegister hookGiven 7 0 0 7).1, 0) := by
    rw [← hslot]
  have hlast : Executes Syshook.step (syshookBroadcast hookPolled 9 3 4)
      [.unregister 5 0 0, .register 7 0 0 7 0] _ := .cons hgiven (.cons htaken (.nil _))
  have hrun := firstHook_runs.append hlast
  refine ⟨_, hrun, fun c s' hstep => ?_⟩
  exact List.infix_nil.mp ((hooks_isolated hrun).2.2 c s' 0 (by decide) hstep)

end BrightS
