/-
What `service_start` starts.

Only the dependencies that the service lists are started, in the order of the list; what these
depend on themselves is not looked at.  So the dependencies of the dependencies have to run
already, or stand earlier in the list.
-/
import BrightS.Proofs.Service

namespace BrightS

variable {fork : Nat → Int} {m : ServiceManager}

/-! ### The log of a loop that starts what is not on -/

section Log

variable {off : Nat → Prop} [DecidablePred off]

/-- The members of the list that are off, each at its first place. -/
def startLog (off : Nat → Prop) [DecidablePred off] (ds : List Nat) : List Nat :=
  ds.foldl (fun log d => if off d ∧ d ∉ log then log ++ [d] else log) []

theorem startLog_concat (ds : List Nat) (d : Nat) :
    startLog off (ds ++ [d]) =
      if off d ∧ d ∉ startLog off ds then startLog off ds ++ [d] else startLog off ds := by
  unfold startLog
  rw [List.foldl_append, List.foldl_cons, List.foldl_nil]

theorem mem_startLog {ds : List Nat} {d : Nat} : d ∈ startLog off ds ↔ d ∈ ds ∧ off d := by
  induction ds using List.reverseRecOn with
  | nil => simp [startLog]
  | append_singleton ds e ih =>
      rw [startLog_concat]
      split_ifs with hnew
      · rw [List.mem_append, List.mem_append, ih, List.mem_singleton]
        constructor
        · rintro (⟨hd, hoff⟩ | rfl)
          · exact ⟨.inl hd, hoff⟩
          · exact ⟨.inr rfl, hnew.1⟩
        · rintro ⟨hd | rfl, hoff⟩
          · exact .inl ⟨hd, hoff⟩
          · exact .inr rfl
      · rw [List.mem_append, ih, List.mem_singleton]
        constructor
        · rintro ⟨hd, hoff⟩
          exact ⟨.inl hd, hoff⟩
        · rintro ⟨hd | rfl, hoff⟩
          · exact ⟨hd, hoff⟩
          · exact ih.mp (not_not.mp fun hmem => hnew ⟨hoff, hmem⟩)

/-- What stands before an entry of the log is what stands before it in the list and is off. -/
theorem startLog_split {ds before after : List Nat} {d : Nat}
    (h : startLog off ds = before ++ d :: after) :
    ∃ pre post, ds = pre ++ d :: post ∧ d ∉ pre ∧ ∀ t, t ∈ before ↔ t ∈ pre ∧ off t := by
  induction ds using List.reverseRecOn generalizing after with
  | nil => exact absurd h (by simp [startLog])
  | append_singleton ds e ih =>
      have hold : ∀ {after}, startLog off ds = before ++ d :: after →
          ∃ pre post, ds ++ [e] = pre ++ d :: post ∧ d ∉ pre ∧
            ∀ t, t ∈ before ↔ t ∈ pre ∧ off t := by
        intro after h
        obtain ⟨pre, post, rfl, hfirst, hbefore⟩ := ih h
        exact ⟨pre, post ++ [e], by simp, hfirst, hbefore⟩
      rw [startLog_concat] at h
      split_ifs at h with hnew
      · rcases List.eq_nil_or_concat after with rfl | ⟨after', last, rfl⟩
        · obtain ⟨hlog, hlast⟩ := List.append_inj' h rfl
          obtain rfl := (List.cons.inj hlast).1
          refine ⟨ds, [], rfl, fun hmem => hnew.2 (mem_startLog.mpr ⟨hmem, hnew.1⟩), fun t => ?_⟩
          rw [← hlog]
          exact mem_startLog
        · rw [List.concat_eq_append, ← List.cons_append, ← List.append_assoc] at h
          exact hold (List.append_inj' h rfl).1
      · exact hold h

/-- A first place comes before every other one. -/
theorem first_place {pre pre' post post' : List Nat} {d t : Nat}
    (h : pre ++ d :: post = pre' ++ d :: post') (hfirst : d ∉ pre) (ht : t ∈ pre) : t ∈ pre' := by
  rcases List.append_eq_append_iff.mp h with ⟨mid, rfl, -⟩ | ⟨mid, rfl, hrest⟩
  · exact List.mem_append_left _ ht
  · cases mid with
    | nil => simpa using ht
    | cons e mid =>
        obtain ⟨rfl, -⟩ := List.cons.inj hrest
        exact absurd (by simp) hfirst

end Log

/-! ### The states after the loop over the dependencies -/

def ServiceManager.stateAt (m : ServiceManager) (j : Nat) : Option ServiceState :=
  m.services[j]?.map (·.state)

/-- A service that `service_start_internal` starts. -/
def IsOff (m : ServiceManager) (j : Nat) : Prop :=
  m.stateAt j ≠ some .running ∧ m.stateAt j ≠ some .starting

instance (m : ServiceManager) : DecidablePred (IsOff m) :=
  fun _ => inferInstanceAs (Decidable (_ ∧ _))

/-- Since the state `m` the services in `ds` that were off have been started, in the order of the
log, and no others. -/
structure Started (m : ServiceManager) (ds log : List Nat) (m' : ServiceManager) : Prop where
  keys : m'.services.map (·.key) = m.services.map (·.key)
  states : ∀ j, m'.stateAt j = if j ∈ ds ∧ IsOff m j then some .running else m.stateAt j
  procs : ∃ new, m'.procs = m.procs ++ new ∧
    new.map (fun p => serviceFind m.services p.service) = log.map some

theorem stateAt_set {i : Nat} {svc new : Service} (hget : m.services[i]? = some svc) (j : Nat)
    {procs : List ServiceProcess} {forks : Nat} :
    ServiceManager.stateAt { services := m.services.set i new, procs := procs, forks := forks } j =
      if j = i then some new.state else m.stateAt j := by
  unfold ServiceManager.stateAt
  dsimp only
  split_ifs with hji
  · rw [hji, get_set_self hget new]
    rfl
  · rw [List.getElem?_set_ne fun hij => hji hij.symm]

/-- One start more. -/
theorem Started.startInternal {ds log : List Nat} {m' : ServiceManager} (h : Started m ds log m')
    (hfork : ∀ k, 0 < fork k) {i : Nat} {svc : Service} (hget : m'.services[i]? = some svc)
    (hfind : serviceFind m.services svc.name = some i) (hnot : i ∉ ds ∨ ¬ IsOff m i) :
    (serviceStartInternal fork m' i svc).2 = 0 ∧
      Started m (ds ++ [i]) (if IsOff m i then log ++ [i] else log)
        (serviceStartInternal fork m' i svc).1 := by
  have hstate : m.stateAt i = some svc.state := by
    have hafter := h.states i
    rw [if_neg fun hin => hnot.elim (fun hds => hds hin.1) fun hoff => hoff hin.2] at hafter
    rw [← hafter, ServiceManager.stateAt, hget]
    rfl
  rcases serviceStartInternal_cases fork hget with ⟨hon, heq⟩ |
    ⟨hrunning, hstarting, -, new, hsame, hnew, -, heq⟩ | ⟨-, -, hno, -⟩
  · -- The service is on, and the call does nothing.
    have hoff : ¬ IsOff m i := by
      rintro ⟨hr, hs⟩
      rw [hstate] at hr hs
      exact hon.elim (fun hrun => hr (congrArg some hrun)) fun hst => hs (congrArg some hst)
    rw [heq, if_neg hoff]
    refine ⟨rfl, h.keys, fun j => ?_, h.procs⟩
    rw [h.states j]
    refine if_congr ?_ rfl rfl
    rw [List.mem_append, List.mem_singleton]
    constructor
    · exact fun hj => ⟨.inl hj.1, hj.2⟩
    · rintro ⟨hj | rfl, hj'⟩
      · exact ⟨hj, hj'⟩
      · exact absurd hj' hoff
  · have hoff : IsOff m i := by
      unfold IsOff
      rw [hstate]
      exact ⟨fun hr => hrunning (Option.some.inj hr), fun hs => hstarting (Option.some.inj hs)⟩
    rw [heq, if_pos hoff]
    obtain ⟨procs, hprocs, hlog⟩ := h.procs
    refine ⟨rfl, (keys_set hget hsame).trans h.keys, fun j => ?_,
      procs ++ [⟨fork m'.forks, svc.name, false⟩], ?_, ?_⟩
    · rw [stateAt_set hget j, hnew]
      by_cases hji : j = i
      · subst hji
        rw [if_pos rfl, if_pos ⟨by simp, hoff⟩]
      · rw [if_neg hji, h.states j]
        exact if_congr (by simp [hji]) rfl rfl
    · dsimp only
      rw [hprocs, List.append_assoc]
    · rw [List.map_append, hlog, List.map_append, List.map_singleton, hfind]
      rfl
  · exact absurd (hfork _) hno

theorem Started.checkDependency {ds : List Nat} {m' : ServiceManager}
    (h : Started m ds (startLog (IsOff m) ds) m') (hfork : ∀ k, 0 < fork k) {dep : CStr} {j : Nat}
    (hfind : serviceFind m.services dep = some j) :
    Started m (ds ++ [j]) (startLog (IsOff m) (ds ++ [j])) (serviceCheckDependency fork m' dep) := by
  have hfind' := (serviceFind_keys h.keys dep).trans hfind
  obtain ⟨svc, hget, rfl⟩ := serviceFind_get hfind'
  rw [checkDependency_eq hfind' hget]
  by_cases hdone : j ∈ ds ∧ IsOff m j
  · -- It has been started in this loop, so it runs, and the log does not have it a second time.
    have hrun : svc.state = .running := by
      have hafter := h.states j
      rw [if_pos hdone, ServiceManager.stateAt, hget] at hafter
      exact Option.some.inj hafter
    have hsame : serviceStartInternal fork m' j svc = (m', 0) := if_pos (.inl hrun)
    rw [hsame, startLog_concat, if_neg fun hnew => hnew.2 (mem_startLog.mpr hdone)]
    refine ⟨h.keys, fun t => ?_, h.procs⟩
    rw [h.states t]
    refine if_congr ?_ rfl rfl
    rw [List.mem_append, List.mem_singleton]
    constructor
    · exact fun ht => ⟨.inl ht.1, ht.2⟩
    · rintro ⟨ht | rfl, hoff⟩
      · exact ⟨ht, hoff⟩
      · exact hdone
  · have hlog : startLog (IsOff m) (ds ++ [j]) =
        if IsOff m j then startLog (IsOff m) ds ++ [j] else startLog (IsOff m) ds := by
      rw [startLog_concat]
      refine if_congr ⟨fun hj => hj.1, fun hj => ⟨hj, fun hmem => ?_⟩⟩ rfl rfl
      exact hdone ⟨(mem_startLog.mp hmem).1, hj⟩
    rw [hlog]
    exact (h.startInternal hfork hget hfind (not_and_or.mp hdone)).2

theorem started_nil (m : ServiceManager) : Started m [] (startLog (IsOff m) []) m :=
  ⟨rfl, fun _ => (if_neg fun hj => absurd hj.1 (List.not_mem_nil)).symm,
    [], (List.append_nil _).symm, rfl⟩

theorem checkDependencies_started (hfork : ∀ k, 0 < fork k) (deps : List CStr) :
    Started m (deps.filterMap (serviceFind m.services))
      (startLog (IsOff m) (deps.filterMap (serviceFind m.services)))
      (deps.foldl (serviceCheckDependency fork) m) := by
  induction deps using List.reverseRecOn with
  | nil => exact started_nil m
  | append_singleton deps dep ih =>
      rw [List.foldl_append, List.foldl_cons, List.foldl_nil, List.filterMap_append]
      cases hfind : serviceFind m.services dep with
      | none =>
          have hfind' := (serviceFind_keys ih.keys dep).trans hfind
          rw [checkDependency_none hfind', List.filterMap_cons_none hfind, List.filterMap_nil,
            List.append_nil]
          exact ih
      | some _ =>
          rw [List.filterMap_cons_some hfind, List.filterMap_nil]
          exact ih.checkDependency hfork hfind

/-! ### Dependencies -/

/-- The services that the one at `i` lists as its dependencies. -/
def listed (services : List Service) (i : Nat) : List Nat :=
  match services[i]? with
  | none => []
  | some svc => svc.dependsOn.filterMap (serviceFind services)

def Needs (services : List Service) (i j : Nat) : Prop := j ∈ listed services i

/-- The dependencies are services of the table, and none depends on itself. -/
structure GoodDependencies (services : List Service) : Prop where
  defined : ∀ svc ∈ services, ∀ dep ∈ svc.dependsOn, serviceFind services dep ≠ none
  acyclic : ∀ i, ¬ Relation.TransGen (Needs services) i i

/-- The service and all it depends on run after the call, and what the call has started, it has
started after all that this depends on. -/
structure StartedAll (m : ServiceManager) (i : Nat) (m' : ServiceManager) : Prop where
  running : ∀ j, Relation.ReflTransGen (Needs m.services) i j → m'.stateAt j = some .running
  order : ∃ new, m'.procs = m.procs ++ new ∧
    ∀ before p after x, new = before ++ p :: after → serviceFind m.services p.service = some x →
      ∀ j, Relation.TransGen (Needs m.services) x j →
        m.stateAt j = some .running ∨ ∃ q ∈ before, serviceFind m.services q.service = some j

def StartsAll (fork : Nat → Int) (m : ServiceManager) (name : CStr) : Prop :=
  (serviceStart fork m name).2 = 0 →
    ∀ i, serviceFind m.services name = some i → StartedAll m i (serviceStart fork m name).1

/-- The services that the call does not look at run already, and the listed ones come after what
they depend on. -/
structure StartOrder (m : ServiceManager) (i : Nat) : Prop where
  self : m.stateAt i ≠ some .starting
  direct : ∀ d ∈ listed m.services i, m.stateAt d ≠ some .starting
  indirect : ∀ j, Relation.TransGen (Needs m.services) i j → j ∉ listed m.services i →
    m.stateAt j = some .running
  order : ∀ pre d post, listed m.services i = pre ++ d :: post → m.stateAt d ≠ some .running →
    ∀ t, Relation.TransGen (Needs m.services) d t → m.stateAt t = some .running ∨ t ∈ pre

section Start

variable {i : Nat} {name : CStr}

/-- The whole call: the listed services, then the service itself. -/
theorem serviceStart_started (hgood : GoodDependencies m.services) (hfork : ∀ k, 0 < fork k)
    (hfind : serviceFind m.services name = some i) :
    (serviceStart fork m name).2 = 0 ∧
      Started m (listed m.services i ++ [i])
        (startLog (IsOff m) (listed m.services i ++ [i])) (serviceStart fork m name).1 := by
  obtain ⟨svc, hget, -⟩ := serviceFind_get hfind
  have hlisted : listed m.services i = svc.dependsOn.filterMap (serviceFind m.services) := by
    unfold listed
    rw [hget]
  have hself : i ∉ listed m.services i := fun hin => hgood.acyclic i (.single hin)
  have hloop := checkDependencies_started (m := m) hfork svc.dependsOn
  rw [← hlisted] at hloop
  obtain ⟨svc', hget', hname', -, heq⟩ := serviceStart_eq fork hfind hget
  have hlog : startLog (IsOff m) (listed m.services i ++ [i]) =
      if IsOff m i then startLog (IsOff m) (listed m.services i) ++ [i]
      else startLog (IsOff m) (listed m.services i) := by
    rw [startLog_concat]
    exact if_congr ⟨fun hi => hi.1, fun hi => ⟨hi, fun hmem => hself (mem_startLog.mp hmem).1⟩⟩
      rfl rfl
  rw [heq, hlog]
  exact hloop.startInternal hfork hget' (hname'.symm ▸ hfind) (.inl hself)

/-- The log, seen as processes: before the process of `x` stand those of the services that come
first in the list and were off. -/
theorem log_processes {procs : List ServiceProcess} {ds : List Nat}
    (hlog : procs.map (fun p => serviceFind m.services p.service) =
      (startLog (IsOff m) ds).map some)
    {before after : List ServiceProcess} {p : ServiceProcess} {x : Nat}
    (hsplit : procs = before ++ p :: after) (hx : serviceFind m.services p.service = some x) :
    IsOff m x ∧ ∃ pre post, ds = pre ++ x :: post ∧ x ∉ pre ∧
      ∀ t, (∃ q ∈ before, serviceFind m.services q.service = some t) ↔ t ∈ pre ∧ IsOff m t := by
  rw [hsplit, List.map_append, List.map_cons, hx] at hlog
  obtain ⟨first, rest, hstart, hfirst, hrest⟩ := List.map_eq_append_iff.mp hlog.symm
  obtain ⟨x', last, rfl, hx', -⟩ := List.map_eq_cons_iff.mp hrest
  obtain rfl := Option.some.inj hx'
  obtain ⟨pre, post, hds, hnot, hbefore⟩ := startLog_split hstart
  have hmem : x' ∈ startLog (IsOff m) ds := by rw [hstart]; simp
  refine ⟨(mem_startLog.mp hmem).2, pre, post, hds, hnot, fun t => ?_⟩
  rw [← hbefore t]
  have hmem : some t ∈ first.map some ↔ t ∈ first := by simp
  rw [← hmem, hfirst, List.mem_map]

theorem isOff_of_not {j : Nat} (hrunning : m.stateAt j ≠ some .running)
    (hstarting : m.stateAt j ≠ some .starting) : IsOff m j := ⟨hrunning, hstarting⟩

theorem Started.running_iff {ds log : List Nat} {m' : ServiceManager} (h : Started m ds log m')
    {j : Nat} :
    m'.stateAt j = some .running ↔ m.stateAt j = some .running ∨ (j ∈ ds ∧ IsOff m j) := by
  rw [h.states j]
  split_ifs with hj
  · exact ⟨fun _ => .inr hj, fun _ => rfl⟩
  · exact ⟨.inl, fun hor => hor.resolve_right hj⟩

/-- What `StartedAll` says, in terms of the log. -/
theorem StartOrder.startedAll (h : StartOrder m i) {m' : ServiceManager}
    (hstarted : Started m (listed m.services i ++ [i])
      (startLog (IsOff m) (listed m.services i ++ [i])) m') : StartedAll m i m' := by
  have hdirect : ∀ d ∈ listed m.services i, m.stateAt d = some .running ∨ IsOff m d := fun d hd =>
    or_iff_not_imp_left.mpr fun hrun => isOff_of_not hrun (h.direct d hd)
  refine ⟨fun j hj => ?_, ?_⟩
  · rw [hstarted.running_iff]
    rcases Relation.reflTransGen_iff_eq_or_transGen.mp hj with rfl | hneeds
    · by_cases hrun : m.stateAt j = some .running
      · exact .inl hrun
      · exact .inr ⟨by simp, isOff_of_not hrun h.self⟩
    · by_cases hlisted : j ∈ listed m.services i
      · exact (hdirect j hlisted).imp id fun hoff => ⟨List.mem_append_left _ hlisted, hoff⟩
      · exact .inl (h.indirect j hneeds hlisted)
  · obtain ⟨new, hprocs, hlog⟩ := hstarted.procs
    refine ⟨new, hprocs, fun before p after x hsplit hx j hneeds => ?_⟩
    obtain ⟨hoff, pre, post, hds, hfirst, hbefore⟩ := log_processes hlog hsplit hx
    rw [hbefore j]
    -- `x` is one of the listed services, or it is the service itself, which comes last.
    rcases List.eq_nil_or_concat post with rfl | ⟨post', last, rfl⟩
    · obtain ⟨rfl, hlast⟩ := List.append_inj' hds rfl
      obtain rfl := (List.cons.inj hlast).1
      by_cases hlisted : j ∈ listed m.services i
      · exact (hdirect j hlisted).imp id fun hoff => ⟨hlisted, hoff⟩
      · exact .inl (h.indirect j hneeds hlisted)
    · rw [List.concat_eq_append, ← List.cons_append, ← List.append_assoc] at hds
      have hlist := (List.append_inj' hds rfl).1
      rcases h.order pre x post' hlist hoff.1 j hneeds with hrun | hpre
      · exact .inl hrun
      · have hlisted : j ∈ listed m.services i := by
          rw [hlist]
          exact List.mem_append_left _ hpre
        exact (hdirect j hlisted).imp id fun hoff => ⟨hpre, hoff⟩

theorem StartedAll.inOrder (hgood : GoodDependencies m.services) {m' : ServiceManager}
    (hstarted : Started m (listed m.services i ++ [i])
      (startLog (IsOff m) (listed m.services i ++ [i])) m') (h : StartedAll m i m') :
    StartOrder m i := by
  have hnot : ∀ j, m.stateAt j = some .starting → m'.stateAt j ≠ some .running := by
    intro j hstarting hrun
    rcases hstarted.running_iff.mp hrun with hrun | ⟨-, hoff⟩
    · exact absurd (hstarting.symm.trans hrun) (by decide)
    · exact hoff.2 hstarting
  have hneeds : ∀ d ∈ listed m.services i, Relation.TransGen (Needs m.services) i d :=
    fun d hd => .single hd
  refine ⟨fun hstarting => hnot i hstarting (h.running i .refl), ?_, ?_, ?_⟩
  · exact fun d hd hstarting => hnot d hstarting (h.running d (hneeds d hd).to_reflTransGen)
  · intro j hj hlisted
    refine (hstarted.running_iff.mp (h.running j hj.to_reflTransGen)).resolve_right ?_
    rintro ⟨hin, -⟩
    rcases List.mem_append.mp hin with hin | hin
    · exact hlisted hin
    · rw [List.mem_singleton.mp hin] at hj
      exact hgood.acyclic i hj
  · intro pre d post hlist hrun t ht
    have hd : d ∈ listed m.services i := by rw [hlist]; simp
    have hoff : IsOff m d :=
      ⟨hrun, fun hstarting => hnot d hstarting (h.running d (hneeds d hd).to_reflTransGen)⟩
    obtain ⟨new, hprocs, hlog⟩ := hstarted.procs
    obtain ⟨new', hprocs', horder⟩ := h.order
    obtain rfl := List.append_cancel_left (hprocs.symm.trans hprocs')
    -- The process of `d`, and the place where `d` stands first.
    have hmem : some d ∈ new.map fun p => serviceFind m.services p.service := by
      rw [hlog]
      exact List.mem_map_of_mem (mem_startLog.mpr ⟨List.mem_append_left _ hd, hoff⟩)
    obtain ⟨p, hp, hfound⟩ := List.mem_map.mp hmem
    obtain ⟨before, after, hsplit⟩ := List.append_of_mem hp
    refine (horder before p after d hsplit hfound t ht).imp id fun hbefore => ?_
    obtain ⟨-, first, rest, hds, hfirst, hiff⟩ := log_processes hlog hsplit hfound
    have htfirst := ((hiff t).mp hbefore).1
    rw [hlist, List.append_assoc, List.cons_append] at hds
    exact first_place hds.symm hfirst htfirst

/-- **A start that returns 0 has started everything exactly if the table was in order for it.** -/
theorem service_start_all_iff (hgood : GoodDependencies m.services) (hfork : ∀ k, 0 < fork k)
    (name : CStr) :
    StartsAll fork m name ↔ ∀ i, serviceFind m.services name = some i → StartOrder m i := by
  constructor
  · intro h i hfind
    obtain ⟨hzero, hstarted⟩ := serviceStart_started hgood hfork hfind
    exact (h hzero i hfind).inOrder hgood hstarted
  · intro h _ i hfind
    exact (h i hfind).startedAll (serviceStart_started hgood hfork hfind).2

end Start

/-! ### A chain of three services -/

def idleService (name : CStr) (dependsOn : List CStr) : Service :=
  { name := name, state := .stopped, pid := 0, restart := false, restartDelay := 1000
    lastRestart := 0, restartCount := 0, dependsOn := dependsOn }

/-- The application needs the database, and the database needs the disk. -/
def chainServices : List Service :=
  [idleService ['a', 'p', 'p'] [['d', 'b']], idleService ['d', 'b'] [['d', 'i', 's', 'k']],
    idleService ['d', 'i', 's', 'k'] []]

def chainManager : ServiceManager := { services := chainServices, procs := [], forks := 0 }

/-- The chain goes from an entry to a later one. -/
theorem chain_needs {i j : Nat} (h : Needs chainServices i j) : i < j := by
  have hlt : i < chainServices.length := by
    by_contra hge
    unfold Needs listed at h
    rw [List.getElem?_eq_none (Nat.not_lt.mp hge)] at h
    exact absurd h (List.not_mem_nil)
  have hall : ∀ i < chainServices.length, ∀ j ∈ listed chainServices i, i < j := by decide
  exact hall i hlt j h

theorem chain_good : GoodDependencies chainServices where
  defined := by decide
  acyclic := by
    have hlt : ∀ {i j}, Relation.TransGen (Needs chainServices) i j → i < j := by
      intro i j h
      induction h with
      | single h => exact chain_needs h
      | tail _ h ih => exact ih.trans (chain_needs h)
    exact fun i h => lt_irrefl i (hlt h)

theorem countingFork_pos (k : Nat) : 0 < countingFork k := by
  unfold countingFork
  omega

/-- The disk needs nothing. -/
theorem chain_disk {t : Nat} : ¬ Relation.TransGen (Needs chainServices) 2 t := by
  intro h
  obtain ⟨j, hneeds, -⟩ := Relation.TransGen.head'_iff.mp h
  have hnone : listed chainServices 2 = [] := by decide
  unfold Needs at hneeds
  rw [hnone] at hneeds
  exact List.not_mem_nil hneeds

/-- The database is in order, and is started after the disk. -/
theorem service_start_all_iff_chain :
    StartsAll countingFork chainManager ['d', 'b'] ∧
      (serviceStart countingFork chainManager ['d', 'b']).1.services.map (·.state) =
        [.stopped, .running, .running] := by
  refine ⟨(service_start_all_iff chain_good countingFork_pos ['d', 'b']).mpr fun i hfind => ?_,
    by decide⟩
  have hdb : serviceFind chainServices ['d', 'b'] = some 1 := by decide
  obtain rfl : 1 = i := Option.some.inj (hdb.symm.trans hfind)
  have hlisted : listed chainServices 1 = [2] := by decide
  refine ⟨by decide, by decide, fun j hneeds hnot => ?_, fun pre d post hlist _ t hneeds => ?_⟩
  · obtain ⟨k, hfirst, hrest⟩ := Relation.TransGen.head'_iff.mp hneeds
    change k ∈ listed chainServices 1 at hfirst
    change j ∉ listed chainServices 1 at hnot
    rw [hlisted, List.mem_singleton] at hfirst hnot
    subst hfirst
    rcases Relation.reflTransGen_iff_eq_or_transGen.mp hrest with hsame | hmore
    · exact absurd hsame hnot
    · exact absurd hmore chain_disk
  · have hd : d ∈ listed chainServices 1 := by
      rw [show listed chainServices 1 = pre ++ d :: post from hlist]
      simp
    rw [hlisted, List.mem_singleton] at hd
    subst hd
    exact absurd hneeds chain_disk

/-- The application is started and its database, and the disk is not. -/
theorem service_start_misses :
    GoodDependencies chainServices ∧ (∀ k, 0 < countingFork k) ∧
      (serviceStart countingFork chainManager ['a', 'p', 'p']).2 = 0 ∧
      (serviceStart countingFork chainManager ['a', 'p', 'p']).1.services.map (·.state) =
        [.running, .running, .stopped] ∧
      ¬ StartsAll countingFork chainManager ['a', 'p', 'p'] := by
  refine ⟨chain_good, countingFork_pos, by decide, by decide, fun h => ?_⟩
  have hdisk : Relation.ReflTransGen (Needs chainServices) 0 2 :=
    .tail (.single (by unfold Needs; decide : Needs chainServices 0 1))
      (by unfold Needs; decide : Needs chainServices 1 2)
  exact absurd ((h (by decide) 0 (by decide)).running 2 hdisk) (by decide)

end BrightS
