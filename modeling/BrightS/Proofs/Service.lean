/-
The processes of the services.

A service that runs owns the process whose number its entry holds.  A process without an owner
was sent a signal, and may go on for a while.  What breaks this is a second process for a
service that still has one, and an entry that stays marked as running although its process has
exited; an event that does neither keeps it.
-/
import BrightS.Lib.Runs
import BrightS.Kernel.Service

namespace BrightS

open Runs

variable {fork : Nat → Int} {m : ServiceManager}

/-! ### The table -/

/-- The entry that a name stands for. -/
def ServiceManager.entry (m : ServiceManager) (name : CStr) : Option Service :=
  (serviceFind m.services name).bind (m.services[·]?)

theorem serviceFind_names (services : List Service) (name : CStr) :
    serviceFind services name = (services.map (·.name)).findIdx? (· = name) := by
  unfold serviceFind
  rw [List.findIdx?_map]
  rfl

/-- What is found depends on the names only. -/
theorem serviceFind_set {services : List Service} {i : Nat} {svc new : Service}
    (hget : services[i]? = some svc) (hname : new.name = svc.name) (name : CStr) :
    serviceFind (services.set i new) name = serviceFind services name := by
  have hnames : (services.set i new).map (·.name) = services.map (·.name) := by
    rw [List.map_set, hname]
    apply List.ext_getElem?
    intro j
    rw [List.getElem?_set]
    split_ifs with hij hlt
    · subst hij
      rw [List.getElem?_map, hget]
      rfl
    · have hin := (List.getElem?_eq_some_iff.mp hget).1
      exact absurd (by rwa [List.length_map]) hlt
    · rfl
  rw [serviceFind_names, serviceFind_names, hnames]

theorem serviceFind_get {services : List Service} {name : CStr} {i : Nat}
    (h : serviceFind services name = some i) :
    ∃ svc, services[i]? = some svc ∧ svc.name = name := by
  obtain ⟨hlt, hname, -⟩ := List.findIdx?_eq_some_iff_getElem.mp h
  exact ⟨services[i], List.getElem?_eq_getElem hlt, of_decide_eq_true hname⟩

theorem modify_eq_set {α : Type} {l : List α} {i : Nat} {x : α} (h : l[i]? = some x) (f : α → α) :
    l.modify i f = l.set i (f x) := by
  apply List.ext_getElem?
  intro j
  rw [List.getElem?_modify, List.getElem?_set]
  split_ifs with hij hlt
  · subst hij
    rw [h]
    rfl
  · exact absurd (List.getElem?_eq_some_iff.mp h).1 (by omega)
  · simp

/-- The entries after a change of one. -/
theorem get_set {services : List Service} {i j : Nat} {svc' new : Service}
    (h : (services.set i new)[j]? = some svc') :
    (j = i ∧ svc' = new) ∨ (j ≠ i ∧ services[j]? = some svc') := by
  rw [List.getElem?_set] at h
  split_ifs at h with hij hlt
  · exact .inl ⟨hij.symm, (Option.some.inj h).symm⟩
  · exact .inr ⟨fun hji => hij hji.symm, h⟩

theorem get_set_self {services : List Service} {i : Nat} {svc : Service}
    (hget : services[i]? = some svc) (new : Service) : (services.set i new)[i]? = some new :=
  List.getElem?_set_self (List.getElem?_eq_some_iff.mp hget).1

/-! ### The functions on one entry -/

/-- An entry for the same service. -/
structure Relabels (svc new : Service) : Prop where
  name : new.name = svc.name
  dependsOn : new.dependsOn = svc.dependsOn

/-- What `service_start_internal` does: nothing, or a process and the state that says so, or the
state of a failure. -/
theorem serviceStartInternal_cases (fork : Nat → Int) {i : Nat} {svc : Service}
    (hget : m.services[i]? = some svc) :
    ((svc.state = .running ∨ svc.state = .starting) ∧ serviceStartInternal fork m i svc = (m, 0)) ∨
    (svc.state ≠ .running ∧ svc.state ≠ .starting ∧ 0 < fork m.forks ∧
      ∃ new, Relabels svc new ∧ new.state = .running ∧ new.pid = fork m.forks ∧
        serviceStartInternal fork m i svc =
          ({ services := m.services.set i new
             procs := m.procs ++ [⟨fork m.forks, svc.name, false⟩]
             forks := m.forks + 1 }, 0)) ∨
    (svc.state ≠ .running ∧ svc.state ≠ .starting ∧ ¬ 0 < fork m.forks ∧
      ∃ new, Relabels svc new ∧ new.state = .failed ∧ new.pid = svc.pid ∧
        serviceStartInternal fork m i svc =
          ({ services := m.services.set i new, procs := m.procs, forks := m.forks + 1 }, -1)) := by
  unfold serviceStartInternal
  by_cases hon : svc.state = .running ∨ svc.state = .starting
  · exact .inl ⟨hon, if_pos hon⟩
  obtain ⟨hrunning, hstarting⟩ := not_or.mp hon
  rw [if_neg hon]
  dsimp only [serviceUpdateState]
  rw [modify_eq_set hget, modify_eq_set (get_set_self hget _), List.set_set,
    modify_eq_set (get_set_self hget _), List.set_set]
  by_cases hfork : 0 < fork m.forks
  · exact .inr (.inl ⟨hrunning, hstarting, hfork,
      { svc with state := .running, pid := fork m.forks }, ⟨rfl, rfl⟩, rfl, rfl, if_pos hfork⟩)
  · exact .inr (.inr ⟨hrunning, hstarting, hfork,
      { svc with state := .failed }, ⟨rfl, rfl⟩, rfl, rfl, if_neg hfork⟩)

theorem serviceStopInternal_cases {i : Nat} {svc : Service} (hget : m.services[i]? = some svc) :
    (svc.state ≠ .running ∧ serviceStopInternal m i svc = (m, 0)) ∨
    (svc.state = .running ∧ ∃ new, Relabels svc new ∧ new.state = .stopped ∧ new.pid = 0 ∧
      serviceStopInternal m i svc =
        ({ m with
            services := m.services.set i new
            procs := if 0 < svc.pid then serviceKill m.procs svc.pid else m.procs }, 0)) := by
  unfold serviceStopInternal
  by_cases hrunning : svc.state = .running
  · refine .inr ⟨hrunning, { svc with state := .stopped, pid := 0 }, ⟨rfl, rfl⟩, rfl, rfl, ?_⟩
    rw [if_neg (not_not.mpr hrunning)]
    dsimp only [serviceUpdateState]
    rw [modify_eq_set hget, modify_eq_set (get_set_self hget _), List.set_set]
  · exact .inl ⟨hrunning, if_pos hrunning⟩

/-! ### What the processes and the table say of each other -/

/-- The fork calls return a new number each time. -/
def FreshPids (fork : Nat → Int) : Prop := ∀ j k, j < k → 0 < fork k → fork j ≠ fork k

structure ServicesOk (fork : Nat → Int) (m : ServiceManager) : Prop where
  idle : ∀ (i : Nat) (svc : Service), m.services[i]? = some svc → svc.state ≠ .running → svc.pid = 0
  found : ∀ (i : Nat) (svc : Service), m.services[i]? = some svc → svc.state = .running →
    serviceFind m.services svc.name = some i
  own : ∀ (i : Nat) (svc : Service), m.services[i]? = some svc → svc.state = .running →
    ∃ p ∈ m.procs, p.pid = svc.pid ∧ p.service = svc.name
  owned : ∀ p ∈ m.procs, p.signalled = true ∨
    ∃ (i : Nat) (svc : Service), m.services[i]? = some svc ∧ svc.state = .running ∧ svc.pid = p.pid
  forked : ∀ p ∈ m.procs, 0 < p.pid ∧ ∃ k, k < m.forks ∧ fork k = p.pid
  single : (m.procs.map (·.service)).Nodup
  pids : (m.procs.map (·.pid)).Nodup

/-- A service of the name has a process that has not exited. -/
def HasProcess (m : ServiceManager) (name : CStr) : Prop := ∃ p ∈ m.procs, p.service = name

instance (name : CStr) : Decidable (HasProcess m name) :=
  inferInstanceAs (Decidable (∃ p ∈ m.procs, p.service = name))

theorem ServicesOk.same_process (h : ServicesOk fork m) {p q : ServiceProcess} (hp : p ∈ m.procs)
    (hq : q ∈ m.procs) (hpid : p.pid = q.pid) : p = q :=
  List.inj_on_of_nodup_map h.pids hp hq hpid

/-- Two running entries do not share a process. -/
theorem ServicesOk.same_entry (h : ServicesOk fork m) {i j : Nat} {svc svc' : Service}
    (hi : m.services[i]? = some svc) (hj : m.services[j]? = some svc')
    (hrun : svc.state = .running) (hrun' : svc'.state = .running) (hpid : svc.pid = svc'.pid) :
    i = j := by
  obtain ⟨p, hp, hppid, hpname⟩ := h.own i svc hi hrun
  obtain ⟨q, hq, hqpid, hqname⟩ := h.own j svc' hj hrun'
  have hsame := h.same_process hp hq (hppid.trans (hpid.trans hqpid.symm))
  have hname : svc.name = svc'.name := by rw [← hpname, ← hqname, hsame]
  have hfound := h.found i svc hi hrun
  rw [hname] at hfound
  exact Option.some.inj (hfound.symm.trans (h.found j svc' hj hrun'))

/-- A process is forked for a service that has none. -/
theorem ServicesOk.launch (h : ServicesOk fork m) (hfresh : FreshPids fork) {i : Nat}
    {svc new : Service} (hget : m.services[i]? = some svc)
    (hfind : serviceFind m.services svc.name = some i) (hnone : ¬ HasProcess m svc.name)
    (hstate : svc.state ≠ .running) (hfork : 0 < fork m.forks) (hname : new.name = svc.name)
    (hrunning : new.state = .running) (hpid : new.pid = fork m.forks) :
    ServicesOk fork
      { services := m.services.set i new
        procs := m.procs ++ [⟨fork m.forks, svc.name, false⟩]
        forks := m.forks + 1 } where
  idle := by
    intro j svc' hj hidle
    rcases get_set hj with ⟨-, rfl⟩ | ⟨-, hj⟩
    · exact absurd hrunning hidle
    · exact h.idle j svc' hj hidle
  found := by
    intro j svc' hj hrun
    rw [serviceFind_set hget hname]
    rcases get_set hj with ⟨rfl, rfl⟩ | ⟨-, hj⟩
    · rw [hname]
      exact hfind
    · exact h.found j svc' hj hrun
  own := by
    intro j svc' hj hrun
    rcases get_set hj with ⟨-, rfl⟩ | ⟨-, hj⟩
    · exact ⟨_, List.mem_append_right _ (List.mem_singleton.mpr rfl), hpid.symm, hname.symm⟩
    · obtain ⟨p, hp, hown⟩ := h.own j svc' hj hrun
      exact ⟨p, List.mem_append_left _ hp, hown⟩
  owned := by
    intro p hp
    rcases List.mem_append.mp hp with hp | hp
    · refine (h.owned p hp).imp id ?_
      rintro ⟨j, svc', hj, hrun, hpid⟩
      have hij : i ≠ j := by
        rintro rfl
        rw [hget] at hj
        exact hstate (Option.some.inj hj ▸ hrun)
      exact ⟨j, svc', (List.getElem?_set_ne hij).trans hj, hrun, hpid⟩
    · rw [List.mem_singleton.mp hp]
      exact .inr ⟨i, new, get_set_self hget new, hrunning, hpid⟩
  forked := by
    intro p hp
    rcases List.mem_append.mp hp with hp | hp
    · obtain ⟨hpos, k, hk, hkp⟩ := h.forked p hp
      exact ⟨hpos, k, Nat.lt_succ_of_lt hk, hkp⟩
    · rw [List.mem_singleton.mp hp]
      exact ⟨hfork, m.forks, Nat.lt_succ_self _, rfl⟩
  single := by
    rw [List.map_append, List.nodup_append]
    refine ⟨h.single, List.nodup_singleton _, ?_⟩
    intro a ha b hb hab
    obtain ⟨p, hp, rfl⟩ := List.mem_map.mp ha
    rw [List.map_singleton, List.mem_singleton] at hb
    exact hnone ⟨p, hp, hab.trans hb⟩
  pids := by
    rw [List.map_append, List.nodup_append]
    refine ⟨h.pids, List.nodup_singleton _, ?_⟩
    intro a ha b hb hab
    obtain ⟨p, hp, rfl⟩ := List.mem_map.mp ha
    obtain ⟨-, k, hk, hkp⟩ := h.forked p hp
    rw [List.map_singleton, List.mem_singleton] at hb
    exact hfresh k m.forks hk hfork (hkp.trans (hab.trans hb))

/-- An entry stops running: its process, if it has one, was sent a signal or has exited, and
nothing happens to the others. -/
theorem ServicesOk.retire (h : ServicesOk fork m) {i : Nat} {svc new : Service}
    (hget : m.services[i]? = some svc) (hname : new.name = svc.name)
    (hstate : new.state ≠ .running) (hpid : new.pid = 0) {procs : List ServiceProcess}
    (hservices : (procs.map (·.service)).Sublist (m.procs.map (·.service)))
    (hpids : (procs.map (·.pid)).Sublist (m.procs.map (·.pid)))
    (hold : ∀ p ∈ m.procs, p.pid ≠ svc.pid → p ∈ procs)
    (hnew : ∀ p ∈ procs, p.signalled = true ∨ (p ∈ m.procs ∧ p.pid ≠ svc.pid)) {forks : Nat}
    (hforks : m.forks ≤ forks) :
    ServicesOk fork { services := m.services.set i new, procs := procs, forks := forks } where
  idle := by
    intro j svc' hj hidle
    rcases get_set hj with ⟨-, rfl⟩ | ⟨-, hj⟩
    · exact hpid
    · exact h.idle j svc' hj hidle
  found := by
    intro j svc' hj hrun
    rw [serviceFind_set hget hname]
    rcases get_set hj with ⟨-, rfl⟩ | ⟨-, hj⟩
    · exact absurd hrun hstate
    · exact h.found j svc' hj hrun
  own := by
    intro j svc' hj hrun
    rcases get_set hj with ⟨-, rfl⟩ | ⟨hji, hj⟩
    · exact absurd hrun hstate
    · obtain ⟨p, hp, hppid, hpname⟩ := h.own j svc' hj hrun
      refine ⟨p, hold p hp ?_, hppid, hpname⟩
      intro hsame
      by_cases hrun' : svc.state = .running
      · exact hji (h.same_entry hj hget hrun hrun' (hppid.symm.trans hsame))
      · have hpos := (h.forked p hp).1
        rw [hsame, h.idle i svc hget hrun'] at hpos
        exact lt_irrefl _ hpos
  owned := by
    intro p hp
    rcases hnew p hp with hsig | ⟨hp, hne⟩
    · exact .inl hsig
    · refine (h.owned p hp).imp id ?_
      rintro ⟨j, svc', hj, hrun, hsvc⟩
      have hij : i ≠ j := by
        rintro rfl
        rw [hget] at hj
        exact hne (Option.some.inj hj ▸ hsvc.symm)
      exact ⟨j, svc', (List.getElem?_set_ne hij).trans hj, hrun, hsvc⟩
  forked := by
    intro p hp
    obtain ⟨q, hq, hqp⟩ := List.mem_map.mp (hpids.subset (List.mem_map_of_mem hp))
    obtain ⟨hpos, k, hk, hkq⟩ := h.forked q hq
    exact ⟨hqp ▸ hpos, k, hk.trans_le hforks, hkq.trans hqp⟩
  single := hservices.nodup h.single
  pids := hpids.nodup h.pids

/-- An entry that does not run changes its state, and nothing else happens. -/
theorem ServicesOk.relabel (h : ServicesOk fork m) {i : Nat} {svc new : Service}
    (hget : m.services[i]? = some svc) (hstate : svc.state ≠ .running)
    (hname : new.name = svc.name) (hnew : new.state ≠ .running) (hpid : new.pid = svc.pid)
    {forks : Nat} (hforks : m.forks ≤ forks) :
    ServicesOk fork { services := m.services.set i new, procs := m.procs, forks := forks } := by
  have hzero := h.idle i svc hget hstate
  have hne : ∀ p ∈ m.procs, p.pid ≠ svc.pid := fun p hp => by
    rw [hzero]
    exact (h.forked p hp).1.ne'
  refine h.retire hget hname hnew (hpid.trans hzero) (List.Sublist.refl _) (List.Sublist.refl _)
    (fun p hp _ => hp) (fun p hp => .inr ⟨hp, hne p hp⟩) hforks

theorem serviceKill_map {α : Type} (f : ServiceProcess → α)
    (hf : ∀ p b, f { p with signalled := b } = f p) (procs : List ServiceProcess) (pid : Int) :
    (serviceKill procs pid).map f = procs.map f := by
  unfold serviceKill
  rw [List.map_map]
  refine List.map_congr_left fun p _ => ?_
  dsimp only [Function.comp]
  split_ifs
  · exact hf p true
  · rfl

theorem mem_serviceKill {procs : List ServiceProcess} {pid : Int} {p : ServiceProcess}
    (h : p ∈ serviceKill procs pid) : p.signalled = true ∨ (p ∈ procs ∧ p.pid ≠ pid) := by
  obtain ⟨q, hq, rfl⟩ := List.mem_map.mp h
  split_ifs with hpid
  · exact .inl rfl
  · exact .inr ⟨hq, hpid⟩

/-! ### The functions -/

/-- No process is forked for a service that has one. -/
def Startable (m : ServiceManager) (name : CStr) : Prop :=
  ∀ svc, m.entry name = some svc → svc.state = .running ∨ ¬ HasProcess m name

/-- Nor for a direct dependency. -/
def DependenciesStartable (m : ServiceManager) (name : CStr) : Prop :=
  ∀ svc, m.entry name = some svc → ∀ dep ∈ svc.dependsOn, Startable m dep

theorem entry_eq {i : Nat} {svc : Service} {name : CStr}
    (hfind : serviceFind m.services name = some i) (hget : m.services[i]? = some svc) :
    m.entry name = some svc := by
  unfold ServiceManager.entry
  rw [hfind]
  exact hget

theorem ServicesOk.startInternal (h : ServicesOk fork m) (hfresh : FreshPids fork) {i : Nat}
    {svc : Service} (hget : m.services[i]? = some svc)
    (hfind : serviceFind m.services svc.name = some i) (hfree : Startable m svc.name) :
    ServicesOk fork (serviceStartInternal fork m i svc).1 := by
  rcases serviceStartInternal_cases fork hget with ⟨-, heq⟩ |
    ⟨hstate, -, hfork, new, hsame, hnew, hpid, heq⟩ | ⟨hstate, -, -, new, hsame, hnew, hpid, heq⟩
  · rw [heq]
    exact h
  · rw [heq]
    have hnone := (hfree svc (entry_eq hfind hget)).resolve_left hstate
    exact h.launch hfresh hget hfind hnone hstate hfork hsame.name hnew hpid
  · rw [heq]
    exact h.relabel hget hstate hsame.name (by rw [hnew]; decide) hpid (Nat.le_succ _)

/-- The entries of the other services stay. -/
theorem entry_set_ne {i : Nat} {svc new : Service} (hget : m.services[i]? = some svc)
    (hname : new.name = svc.name) {name : CStr} (hne : name ≠ svc.name)
    {procs : List ServiceProcess} {forks : Nat} :
    ServiceManager.entry { services := m.services.set i new, procs := procs, forks := forks } name =
      m.entry name := by
  unfold ServiceManager.entry
  dsimp only
  rw [serviceFind_set hget hname]
  cases hat : serviceFind m.services name with
  | none => rfl
  | some j =>
      have hij : i ≠ j := by
        rintro rfl
        obtain ⟨svc', hget', hname'⟩ := serviceFind_get hat
        rw [hget] at hget'
        exact hne (hname'.symm.trans (congrArg Service.name (Option.some.inj hget').symm))
      exact List.getElem?_set_ne hij

theorem entry_set_self {i : Nat} {svc new : Service} (hget : m.services[i]? = some svc)
    (hfind : serviceFind m.services svc.name = some i) (hname : new.name = svc.name)
    {procs : List ServiceProcess} {forks : Nat} :
    ServiceManager.entry { services := m.services.set i new, procs := procs, forks := forks }
      svc.name = some new := by
  unfold ServiceManager.entry
  dsimp only
  rw [serviceFind_set hget hname, hfind]
  exact get_set_self hget new

/-- Starting one service leaves the others startable. -/
theorem Startable.startInternal {name : CStr} (h : Startable m name) {i : Nat} {svc : Service}
    (hget : m.services[i]? = some svc) (hfind : serviceFind m.services svc.name = some i) :
    Startable (serviceStartInternal fork m i svc).1 name := by
  rcases serviceStartInternal_cases fork hget with ⟨-, heq⟩ |
    ⟨hstate, -, hfork, new, hsame, hnew, hpid, heq⟩ | ⟨hstate, -, -, new, hsame, hnew, hpid, heq⟩
  · rw [heq]
    exact h
  · rw [heq]
    intro svc' hentry
    by_cases hname : name = svc.name
    · subst hname
      rw [entry_set_self hget hfind hsame.name] at hentry
      exact .inl (Option.some.inj hentry ▸ hnew)
    · rw [entry_set_ne hget hsame.name hname] at hentry
      refine (h svc' hentry).imp id fun hnone => ?_
      rintro ⟨p, hp, hpname⟩
      rcases List.mem_append.mp hp with hp | hp
      · exact hnone ⟨p, hp, hpname⟩
      · rw [List.mem_singleton.mp hp] at hpname
        exact hname hpname.symm
  · rw [heq]
    intro svc' hentry
    by_cases hname : name = svc.name
    · subst hname
      exact .inr ((h svc (entry_eq hfind hget)).resolve_left hstate)
    · rw [entry_set_ne hget hsame.name hname] at hentry
      exact h svc' hentry

/-- A dependency that is in the table is started, unless it runs. -/
theorem checkDependency_eq {dep : CStr} {j : Nat} {svc : Service}
    (hfind : serviceFind m.services dep = some j) (hget : m.services[j]? = some svc) :
    serviceCheckDependency fork m dep = (serviceStartInternal fork m j svc).1 := by
  unfold serviceCheckDependency
  rw [hfind]
  dsimp only
  rw [hget]
  dsimp only
  split_ifs with hrunning
  · rfl
  · unfold serviceStartInternal
    rw [if_pos (.inl (not_not.mp hrunning))]

theorem checkDependency_none {dep : CStr} (hfind : serviceFind m.services dep = none) :
    serviceCheckDependency fork m dep = m := by
  unfold serviceCheckDependency
  rw [hfind]

theorem ServicesOk.checkDependency (h : ServicesOk fork m) (hfresh : FreshPids fork) {dep : CStr}
    (hfree : Startable m dep) : ServicesOk fork (serviceCheckDependency fork m dep) := by
  cases hfind : serviceFind m.services dep with
  | none =>
      rw [checkDependency_none hfind]
      exact h
  | some j =>
      obtain ⟨svc, hget, rfl⟩ := serviceFind_get hfind
      rw [checkDependency_eq hfind hget]
      exact h.startInternal hfresh hget hfind hfree

theorem Startable.checkDependency {name : CStr} (h : Startable m name) (dep : CStr) :
    Startable (serviceCheckDependency fork m dep) name := by
  cases hfind : serviceFind m.services dep with
  | none =>
      rw [checkDependency_none hfind]
      exact h
  | some j =>
      obtain ⟨svc, hget, rfl⟩ := serviceFind_get hfind
      rw [checkDependency_eq hfind hget]
      exact h.startInternal hget hfind

/-- The loop over the dependencies. -/
theorem checkDependencies_ok (hfresh : FreshPids fork) (deps : List CStr) :
    ∀ {m : ServiceManager}, ServicesOk fork m → (∀ dep ∈ deps, Startable m dep) →
      ServicesOk fork (deps.foldl (serviceCheckDependency fork) m) ∧
      ∀ name, Startable m name → Startable (deps.foldl (serviceCheckDependency fork) m) name := by
  induction deps with
  | nil => exact fun h _ => ⟨h, fun _ hname => hname⟩
  | cons dep rest ih =>
      intro m h hfree
      obtain ⟨hok, hkeep⟩ := ih (h.checkDependency hfresh (hfree dep (List.mem_cons_self ..)))
        fun d hd => (hfree d (List.mem_cons_of_mem dep hd)).checkDependency dep
      exact ⟨hok, fun name hname => hkeep name (hname.checkDependency dep)⟩

/-! ### Names and dependencies stay -/

def Service.key (svc : Service) : CStr × List CStr := (svc.name, svc.dependsOn)

theorem keys_set {services : List Service} {i : Nat} {svc new : Service}
    (hget : services[i]? = some svc) (hsame : Relabels svc new) :
    (services.set i new).map (·.key) = services.map (·.key) := by
  obtain ⟨hlt, rfl⟩ := List.getElem?_eq_some_iff.mp hget
  have hlt' : i < (services.map (·.key)).length := by rwa [List.length_map]
  have hkey : new.key = (services.map (·.key))[i] := by
    rw [List.getElem_map]
    exact Prod.ext hsame.name hsame.dependsOn
  rw [List.map_set, hkey, List.set_getElem_self]

theorem serviceFind_keys {services services' : List Service}
    (h : services'.map (·.key) = services.map (·.key)) (name : CStr) :
    serviceFind services' name = serviceFind services name := by
  have hnames := congrArg (List.map Prod.fst) h
  rw [List.map_map, List.map_map] at hnames
  rw [serviceFind_names, serviceFind_names]
  exact congrArg (List.findIdx? (· = name)) hnames

theorem startInternal_keys {i : Nat} {svc : Service} (hget : m.services[i]? = some svc) :
    (serviceStartInternal fork m i svc).1.services.map (·.key) = m.services.map (·.key) := by
  rcases serviceStartInternal_cases fork hget with ⟨-, heq⟩ |
    ⟨-, -, -, new, hsame, -, -, heq⟩ | ⟨-, -, -, new, hsame, -, -, heq⟩
  · rw [heq]
  · rw [heq]
    exact keys_set hget hsame
  · rw [heq]
    exact keys_set hget hsame

theorem checkDependency_keys (m : ServiceManager) (dep : CStr) :
    (serviceCheckDependency fork m dep).services.map (·.key) = m.services.map (·.key) := by
  cases hfind : serviceFind m.services dep with
  | none => rw [checkDependency_none hfind]
  | some j =>
      obtain ⟨svc, hget, rfl⟩ := serviceFind_get hfind
      rw [checkDependency_eq hfind hget]
      exact startInternal_keys hget

theorem checkDependencies_keys (fork : Nat → Int) (deps : List CStr) : ∀ m : ServiceManager,
    (deps.foldl (serviceCheckDependency fork) m).services.map (·.key) =
      m.services.map (·.key) := by
  induction deps with
  | nil => exact fun _ => rfl
  | cons dep rest ih => exact fun m => (ih _).trans (checkDependency_keys m dep)

/-- `service_start` of a service in the table. -/
theorem serviceStart_eq (fork : Nat → Int) {name : CStr} {i : Nat} {svc : Service}
    (hfind : serviceFind m.services name = some i) (hget : m.services[i]? = some svc) :
    ∃ svc', (svc.dependsOn.foldl (serviceCheckDependency fork) m).services[i]? = some svc' ∧
      svc'.name = name ∧
      serviceFind (svc.dependsOn.foldl (serviceCheckDependency fork) m).services name = some i ∧
      serviceStart fork m name =
        serviceStartInternal fork (svc.dependsOn.foldl (serviceCheckDependency fork) m) i svc' := by
  have hdeps : serviceCheckDependencies fork m name =
      svc.dependsOn.foldl (serviceCheckDependency fork) m := by
    unfold serviceCheckDependencies
    rw [hfind, Option.bind_some, hget]
  have hfind' := (serviceFind_keys (checkDependencies_keys fork svc.dependsOn m) name).trans
    hfind
  obtain ⟨svc', hget', hname'⟩ := serviceFind_get hfind'
  refine ⟨svc', hget', hname', hfind', ?_⟩
  unfold serviceStart
  rw [hfind]
  dsimp only
  rw [hdeps, hget']

/-! ### The events -/

theorem ServicesOk.start (h : ServicesOk fork m) (hfresh : FreshPids fork) {name : CStr}
    (hfree : Startable m name)
    (hdeps : DependenciesStartable m name) :
    ServicesOk fork (serviceStart fork m name).1 := by
  cases hfind : serviceFind m.services name with
  | none =>
      unfold serviceStart
      rw [hfind]
      exact h
  | some i =>
      obtain ⟨svc, hget, -⟩ := serviceFind_get hfind
      obtain ⟨svc', hget', hname', hfind', heq⟩ := serviceStart_eq fork hfind hget
      obtain ⟨hok, hkeep⟩ :=
        checkDependencies_ok hfresh svc.dependsOn h (hdeps svc (entry_eq hfind hget))
      rw [heq]
      subst hname'
      exact hok.startInternal hfresh hget' hfind' (hkeep _ hfree)

theorem ServicesOk.stopInternal (h : ServicesOk fork m) {i : Nat} {svc : Service}
    (hget : m.services[i]? = some svc) : ServicesOk fork (serviceStopInternal m i svc).1 := by
  rcases serviceStopInternal_cases hget with ⟨-, heq⟩ | ⟨hrun, new, hsame, hstopped, hzero, heq⟩
  · rw [heq]
    exact h
  · rw [heq]
    -- A service that runs has a process, so the signal is sent.
    obtain ⟨p, hp, hpid, -⟩ := h.own i svc hget hrun
    rw [if_pos (hpid ▸ (h.forked p hp).1)]
    refine h.retire hget hsame.name (by rw [hstopped]; decide) hzero ?_ ?_ ?_
      (fun p hp => mem_serviceKill hp) (le_refl _)
    · rw [serviceKill_map _ fun _ _ => rfl]
    · rw [serviceKill_map _ fun _ _ => rfl]
    · intro q hq hne
      exact List.mem_map.mpr ⟨q, hq, if_neg hne⟩

theorem ServicesOk.stop (h : ServicesOk fork m) (name : CStr) :
    ServicesOk fork (serviceStop m name).1 := by
  unfold serviceStop
  split
  · exact h
  · split
    · exact h
    · rename_i hget
      exact h.stopInternal hget

/-- A restart of a service that has no process starts it. -/
theorem ServicesOk.restart (h : ServicesOk fork m) (hfresh : FreshPids fork) {name : CStr}
    {i : Nat} (hfind : serviceFind m.services name = some i) (hnone : ¬ HasProcess m name)
    (hdeps : DependenciesStartable m name) :
    ServicesOk fork (serviceRestart fork m name i).1 := by
  obtain ⟨svc, hget, rfl⟩ := serviceFind_get hfind
  have hstate : svc.state ≠ .running := by
    intro hrun
    obtain ⟨p, hp, -, hname⟩ := h.own i svc hget hrun
    exact hnone ⟨p, hp, hname⟩
  obtain ⟨new, hnew⟩ : ∃ new : Service, new = { svc with state := .restarting } := ⟨_, rfl⟩
  have hname : new.name = svc.name := by rw [hnew]
  have hrestarting : new.state ≠ .running := by
    rw [hnew]
    exact ServiceState.noConfusion
  have hupdate : serviceUpdateState m i .restarting =
      { m with services := m.services.set i new } := by
    unfold serviceUpdateState
    rw [modify_eq_set hget, hnew]
  -- The service does not count as running now, so the stop does nothing.
  have hstop : serviceStop { m with services := m.services.set i new } svc.name =
      ({ m with services := m.services.set i new }, 0) := by
    unfold serviceStop
    dsimp only
    rw [serviceFind_set hget hname, hfind]
    dsimp only
    rw [get_set_self hget new]
    exact if_pos hrestarting
  have hstartable : ∀ name, Startable m name →
      Startable { m with services := m.services.set i new } name := by
    intro name hfree svc' hentry
    by_cases hsame : name = svc.name
    · exact .inr (hsame ▸ hnone)
    · rw [entry_set_ne hget hname hsame] at hentry
      exact hfree svc' hentry
  have hok := h.relabel hget hstate hname hrestarting (by rw [hnew]) (le_refl m.forks)
  unfold serviceRestart
  rw [hupdate]
  dsimp only
  rw [hstop]
  refine hok.start hfresh (hstartable _ fun _ _ => .inr hnone) ?_
  intro svc' hentry dep hdep
  rw [entry_set_self hget hfind hname] at hentry
  rw [← Option.some.inj hentry, hnew] at hdep
  exact hstartable dep (hdeps svc (entry_eq hfind hget) dep hdep)

/-! ### Reloading, and a process that exits -/

theorem stopInternal_length {i : Nat} {svc : Service} (hget : m.services[i]? = some svc) :
    (serviceStopInternal m i svc).1.services.length = m.services.length := by
  rcases serviceStopInternal_cases hget with ⟨-, heq⟩ | ⟨-, new, -, -, -, heq⟩
  · rw [heq]
  · rw [heq]
    exact List.length_set

/-- One round of the loop that stops the services. -/
def serviceStopRound (m : ServiceManager) (i : Nat) : ServiceManager :=
  match m.services[i]? with
  | none => m
  | some svc => if svc.state = .running then (serviceStopInternal m i svc).1 else m

theorem stopRound_spec (h : ServicesOk fork m) {i : Nat}
    (hbefore : ∀ j svc, j < i → m.services[j]? = some svc → svc.state ≠ .running) :
    ServicesOk fork (serviceStopRound m i) ∧
      (serviceStopRound m i).services.length = m.services.length ∧
      ∀ j svc, j < i + 1 → (serviceStopRound m i).services[j]? = some svc →
        svc.state ≠ .running := by
  unfold serviceStopRound
  cases hget : m.services[i]? with
  | none =>
      refine ⟨h, rfl, fun j svc hj hsvc => ?_⟩
      rcases Nat.lt_succ_iff_lt_or_eq.mp hj with hlt | rfl
      · exact hbefore j svc hlt hsvc
      · exact absurd (hsvc.symm.trans hget) (by simp)
  | some svc =>
      dsimp only
      split_ifs with hrun
      · refine ⟨h.stopInternal hget, stopInternal_length hget, fun j svc' hj hsvc => ?_⟩
        rcases serviceStopInternal_cases hget with ⟨hno, -⟩ | ⟨-, new, -, hstopped, -, heq⟩
        · exact absurd hrun hno
        · rw [heq] at hsvc
          rcases get_set hsvc with ⟨-, rfl⟩ | ⟨hne, hsvc⟩
          · rw [hstopped]
            decide
          · exact hbefore j svc' (by omega) hsvc
      · refine ⟨h, rfl, fun j svc' hj hsvc => ?_⟩
        rcases Nat.lt_succ_iff_lt_or_eq.mp hj with hlt | rfl
        · exact hbefore j svc' hlt hsvc
        · rw [hget] at hsvc
          exact Option.some.inj hsvc ▸ hrun

/-- After the loop no service runs. -/
theorem stopAll_spec (h : ServicesOk fork m) :
    ServicesOk fork (serviceStopAll m) ∧
      ∀ svc ∈ (serviceStopAll m).services, svc.state ≠ .running := by
  have hround : ∀ k, ServicesOk fork ((List.range k).foldl serviceStopRound m) ∧
      ((List.range k).foldl serviceStopRound m).services.length = m.services.length ∧
      ∀ j svc, j < k → ((List.range k).foldl serviceStopRound m).services[j]? = some svc →
        svc.state ≠ .running := by
    intro k
    induction k with
    | zero => exact ⟨h, rfl, fun j svc hj => absurd hj (Nat.not_lt_zero j)⟩
    | succ k ih =>
        obtain ⟨hok, hlen, hstopped⟩ := ih
        obtain ⟨hok', hlen', hstopped'⟩ := stopRound_spec hok hstopped
        rw [List.range_succ, List.foldl_append]
        exact ⟨hok', hlen'.trans hlen, hstopped'⟩
  obtain ⟨hok, hlen, hstopped⟩ := hround m.services.length
  refine ⟨hok, fun svc hsvc => ?_⟩
  obtain ⟨j, hj⟩ := List.mem_iff_getElem?.mp hsvc
  exact hstopped j svc (hlen ▸ (List.getElem?_eq_some_iff.mp hj).1) hj

theorem loadConfig_idle (sections : List ServiceConfig) :
    ∀ svc ∈ (sections.map (·.entry)).take maxServices, svc.state = .stopped ∧ svc.pid = 0 := by
  intro svc hsvc
  obtain ⟨c, -, rfl⟩ := List.mem_map.mp (List.mem_of_mem_take hsvc)
  exact ⟨rfl, rfl⟩

/-- A new table of services that do not run, once every process has been sent a signal. -/
theorem ServicesOk.replace (h : ServicesOk fork m)
    (hstopped : ∀ svc ∈ m.services, svc.state ≠ .running) {services : List Service}
    (hidle : ∀ svc ∈ services, svc.state = .stopped ∧ svc.pid = 0) :
    ServicesOk fork { m with services := services } where
  idle := fun i svc hget _ => (hidle svc (List.mem_of_getElem? hget)).2
  found := by
    intro i svc hget hrun
    exact absurd ((hidle svc (List.mem_of_getElem? hget)).1.symm.trans hrun) (by decide)
  own := by
    intro i svc hget hrun
    exact absurd ((hidle svc (List.mem_of_getElem? hget)).1.symm.trans hrun) (by decide)
  owned := by
    intro p hp
    refine .inl ((h.owned p hp).resolve_right ?_)
    rintro ⟨i, svc, hget, hrun, -⟩
    exact hstopped svc (List.mem_of_getElem? hget) hrun
  forked := h.forked
  single := h.single
  pids := h.pids

theorem ServicesOk.reload (h : ServicesOk fork m) (file : Option (List ServiceConfig)) :
    ServicesOk fork (serviceReloadConfig m file).1 := by
  obtain ⟨hok, hstopped⟩ := stopAll_spec h
  unfold serviceReloadConfig serviceLoadConfig
  cases file with
  | none => exact hok.replace hstopped fun svc hsvc => absurd hsvc (List.not_mem_nil)
  | some sections => exact hok.replace hstopped (loadConfig_idle sections)

/-- The handler starts the service anew. -/
def Restarts (svc : Service) (status now : Int) : Prop :=
  status ≠ 0 ∧ svc.restart = true ∧ svc.restartDelay ≤ now - svc.lastRestart

instance (svc : Service) (status now : Int) : Decidable (Restarts svc status now) :=
  inferInstanceAs (Decidable (_ ∧ _ ∧ _))

/-- The entry of a process that has exited, when the handler does not start it anew. -/
theorem handleSigchld_cases {pid status now : Int} (fork : Nat → Int)
    (hno : ∀ svc ∈ m.services, svc.pid = pid → ¬ Restarts svc status now) :
    ((∀ svc ∈ m.services, svc.pid ≠ pid) ∧
      serviceHandleSigchld fork m pid status now = m) ∨
    ∃ i svc new, m.services[i]? = some svc ∧ svc.pid = pid ∧ new.name = svc.name ∧
      new.state ≠ .running ∧ new.pid = 0 ∧
      serviceHandleSigchld fork m pid status now = { m with services := m.services.set i new } := by
  unfold serviceHandleSigchld
  cases hfind : m.services.findIdx? fun svc => svc.pid = pid with
  | none =>
      refine .inl ⟨fun svc hsvc => ?_, rfl⟩
      have hne := List.findIdx?_eq_none_iff.mp hfind svc hsvc
      simpa using hne
  | some i =>
      obtain ⟨hlt, hsvc, -⟩ := List.findIdx?_eq_some_iff_getElem.mp hfind
      have hget : m.services[i]? = some m.services[i] := List.getElem?_eq_getElem hlt
      have hown : m.services[i].pid = pid := of_decide_eq_true hsvc
      have hnot := hno m.services[i] (List.getElem_mem hlt) hown
      right
      dsimp only
      rw [hget]
      dsimp only
      rw [modify_eq_set hget]
      unfold serviceUpdateState
      by_cases hfail : status ≠ 0 ∧ m.services[i].restart = true
      · have hdelay : ¬ m.services[i].restartDelay ≤ now - m.services[i].lastRestart :=
          fun hdelay => hnot ⟨hfail.1, hfail.2, hdelay⟩
        rw [if_pos hfail, if_neg hdelay, modify_eq_set (get_set_self hget _), List.set_set]
        exact ⟨i, m.services[i], { m.services[i] with state := .failed, pid := 0 }, hget, hown, rfl,
          ServiceState.noConfusion, rfl, rfl⟩
      · rw [if_neg hfail, modify_eq_set (get_set_self hget _), List.set_set]
        exact ⟨i, m.services[i], { m.services[i] with state := .stopped, pid := 0 }, hget, hown, rfl,
          ServiceState.noConfusion, rfl, rfl⟩

theorem ServicesOk.exit (h : ServicesOk fork m) {pid status now : Int}
    (hlive : ∃ p ∈ m.procs, p.pid = pid)
    (hno : ∀ svc ∈ m.services, svc.pid = pid → ¬ Restarts svc status now) :
    ServicesOk fork (serviceExit fork m pid status now) := by
  obtain ⟨p, hp, rfl⟩ := hlive
  have hsub : (m.procs.filter fun q => q.pid ≠ p.pid).Sublist m.procs := List.filter_sublist
  have hfilter : ∀ q, q ∈ m.procs.filter (fun q => q.pid ≠ p.pid) ↔ q ∈ m.procs ∧ q.pid ≠ p.pid := by
    intro q
    rw [List.mem_filter, decide_eq_true_iff]
  unfold serviceExit
  have hexited : ∀ svc ∈ ({ m with procs := m.procs.filter fun q => q.pid ≠ p.pid } :
      ServiceManager).services, svc.pid = p.pid → ¬ Restarts svc status now := hno
  rcases handleSigchld_cases fork hexited with
    ⟨hnone, heq⟩ | ⟨i, svc, new, hget, hown, hname, hstate, hzero, heq⟩
  · -- Nobody's process: no entry says that it runs.
    rw [heq]
    exact {
      idle := h.idle
      found := h.found
      own := by
        intro i svc hget hrun
        obtain ⟨q, hq, hpid, hservice⟩ := h.own i svc hget hrun
        have hne := hnone svc (List.mem_of_getElem? hget)
        exact ⟨q, (hfilter q).mpr ⟨hq, hpid ▸ hne⟩, hpid, hservice⟩
      owned := fun q hq => h.owned q (hsub.subset hq)
      forked := fun q hq => h.forked q (hsub.subset hq)
      single := (hsub.map _).nodup h.single
      pids := (hsub.map _).nodup h.pids }
  · rw [heq]
    refine h.retire hget hname hstate hzero (hsub.map _) (hsub.map _) ?_ ?_ (le_refl _)
    · intro q hq hne
      exact (hfilter q).mpr ⟨hq, hown ▸ hne⟩
    · intro q hq
      exact .inr (hown ▸ (hfilter q).mp hq)

/-! ### Every run -/

/-- The events that fork no process for a service that still has one, and do not leave an entry
marked as running whose process has exited. -/
def ServiceAllowed (m : ServiceManager) : ServiceEvent → Prop
  | .start name => Startable m name ∧ DependenciesStartable m name
  | .stop _ => True
  | .restart name => m.entry name ≠ none ∧ ¬ HasProcess m name ∧ DependenciesStartable m name
  | .reload _ => True
  | .sigchld pid status now =>
      ∀ svc ∈ m.services, svc.pid = pid → ¬ Restarts svc status now

/-- A name stands for one entry at most. -/
instance (name : CStr) (P : Service → Prop) [DecidablePred P] :
    Decidable (∀ svc, m.entry name = some svc → P svc) :=
  match h : m.entry name with
  | none => .isTrue fun svc hsvc => absurd hsvc (by simp)
  | some svc =>
      if hP : P svc then .isTrue fun svc' hsvc => Option.some.inj hsvc ▸ hP
      else .isFalse fun hall => hP (hall svc rfl)

instance (name : CStr) : Decidable (Startable m name) :=
  inferInstanceAs (Decidable (∀ svc, m.entry name = some svc → _))

instance (name : CStr) : Decidable (DependenciesStartable m name) :=
  inferInstanceAs (Decidable (∀ svc, m.entry name = some svc → _))

instance (e : ServiceEvent) : Decidable (ServiceAllowed m e) :=
  match e with
  | .start _ => inferInstanceAs (Decidable (_ ∧ _))
  | .stop _ => .isTrue trivial
  | .restart _ => inferInstanceAs (Decidable (_ ∧ _ ∧ _))
  | .reload _ => .isTrue trivial
  | .sigchld pid _ _ => inferInstanceAs (Decidable (∀ svc ∈ m.services, svc.pid = pid → _))

/-- What the manager's table and the processes are to agree on. -/
structure ServicesSafe (m : ServiceManager) : Prop where
  running : ∀ svc ∈ m.services, svc.state = .running →
    ∃ p ∈ m.procs, p.pid = svc.pid ∧ p.service = svc.name
  single : (m.procs.map (·.service)).Nodup
  ended : ∀ name svc, m.entry name = some svc → svc.state = .stopped ∨ svc.state = .failed →
    ∀ p ∈ m.procs, p.service = name → p.signalled = true

theorem ServicesOk.safe (h : ServicesOk fork m) : ServicesSafe m where
  running := by
    intro svc hsvc hrun
    obtain ⟨i, hget⟩ := List.mem_iff_getElem?.mp hsvc
    exact h.own i svc hget hrun
  single := h.single
  ended := by
    intro name svc hentry hstate p hp hname
    refine (h.owned p hp).resolve_right ?_
    rintro ⟨i, svc', hget, hrun, hpid⟩
    -- The owner of the process has its name, so it is the entry of the name.
    obtain ⟨q, hq, hqpid, hqname⟩ := h.own i svc' hget hrun
    have hsame := h.same_process hq hp (hqpid.trans hpid)
    have hfound := h.found i svc' hget hrun
    rw [← hqname, hsame, hname] at hfound
    rw [entry_eq hfound hget] at hentry
    rw [← Option.some.inj hentry, hrun] at hstate
    exact absurd hstate (by decide)

theorem servicesOk_boot (file : Option (List ServiceConfig)) : ServicesOk fork (serviceBoot file) := by
  have hempty : ServicesOk fork { services := [], procs := [], forks := 0 } := by
    constructor <;> simp
  unfold serviceBoot serviceLoadConfig
  cases file with
  | none => exact hempty
  | some sections => exact hempty.replace (by simp) (loadConfig_idle sections)

theorem servicesOk_step (hfresh : FreshPids fork) {m m' : ServiceManager} {e : ServiceEvent}
    (h : ServicesOk fork m) (hallowed : ServiceAllowed m e) (hstep : ServiceStep fork m e m') :
    ServicesOk fork m' := by
  cases e with
  | start name =>
      obtain ⟨hfree, hdeps⟩ := hallowed
      rw [show m' = _ from hstep]
      exact h.start hfresh hfree hdeps
  | stop name =>
      rw [show m' = _ from hstep]
      exact h.stop name
  | restart name =>
      obtain ⟨hknown, hnone, hdeps⟩ := hallowed
      obtain ⟨svc, hentry⟩ := Option.ne_none_iff_exists'.mp hknown
      obtain ⟨i, hfind, -⟩ := Option.bind_eq_some_iff.mp hentry
      rw [hstep i hfind]
      exact h.restart hfresh hfind hnone hdeps
  | reload file =>
      rw [show m' = _ from hstep]
      exact h.reload file
  | sigchld pid status now =>
      obtain ⟨hlive, rfl⟩ := hstep
      exact h.exit hlive hallowed

/-- **As long as no process is forked for a service that has one, and no entry of an exited
process is left running, the table and the processes agree.** -/
theorem service_processes_safe (hfresh : FreshPids fork) (file : Option (List ServiceConfig))
    {events : List ServiceEvent}
    (hrun : Executes (Guarded ServiceAllowed (ServiceStep fork)) (serviceBoot file) events m) :
    ServicesSafe m := by
  have hstep : ∀ s e s', ServicesOk fork s → Guarded ServiceAllowed (ServiceStep fork) s e s' →
      ServicesOk fork s' := fun _ _ _ h hnext => servicesOk_step hfresh h hnext.1 hnext.2
  exact (hrun.invariant hstep (servicesOk_boot file)).safe

/-- The fork calls count up. -/
def countingFork (k : Nat) : Int := 100 + k

theorem countingFork_fresh : FreshPids countingFork := by
  intro j k hjk _ hsame
  unfold countingFork at hsame
  omega

/-- One service, which is to be started anew when it fails. -/
def webConfig : ServiceConfig :=
  { name := ['w', 'e', 'b'], restart := true, restartDelay := 1000, dependsOn := [] }

/-- The service is started, it ends well, and it is started and stopped again. -/
theorem service_processes_safe_web :
    ∃ m, Executes (Guarded ServiceAllowed (ServiceStep countingFork)) (serviceBoot (some [webConfig]))
        [.start webConfig.name, .sigchld 100 0 5000, .start webConfig.name, .stop webConfig.name] m ∧
      ServicesSafe m := by
  have hrun : Executes (Guarded ServiceAllowed (ServiceStep countingFork))
      (serviceBoot (some [webConfig]))
      [.start webConfig.name, .sigchld 100 0 5000, .start webConfig.name, .stop webConfig.name] _ :=
    .cons ⟨by decide, rfl⟩ (.cons ⟨by decide, by decide, rfl⟩ (.cons ⟨by decide, rfl⟩
      (.cons ⟨trivial, rfl⟩ (.nil _))))
  exact ⟨_, hrun, service_processes_safe countingFork_fresh (some [webConfig]) hrun⟩

/-- A restart of a service that runs: nobody stops the process it has. -/
theorem service_restart_doubles :
    ∃ m, Executes (ServiceStep countingFork) (serviceBoot (some [webConfig]))
        [.start webConfig.name, .restart webConfig.name] m ∧
      m.procs = [⟨100, webConfig.name, false⟩, ⟨101, webConfig.name, false⟩] ∧
      ¬ ServicesSafe m := by
  have hrestart : ServiceStep countingFork
      (serviceStart countingFork (serviceBoot (some [webConfig])) webConfig.name).1
      (.restart webConfig.name)
      (serviceRestart countingFork
        (serviceStart countingFork (serviceBoot (some [webConfig])) webConfig.name).1
        webConfig.name 0).1 := by
    intro i hfind
    rw [← Option.some.inj (hfind.symm.trans (by decide) : some i = some 0)]
  refine ⟨_, .cons rfl (.cons hrestart (.nil _)), by decide, fun hsafe => ?_⟩
  exact absurd hsafe.single (by decide)

end BrightS
