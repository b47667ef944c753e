/-
Who an interface is associated with.

Neither the handlers of the management frames look at the state of the interface, nor do
they compare the sender with the network that was selected: an association response from
anyone connects an interface in any state (`wifi_connected_by_stranger`).

What they would have to check is `Genuine`.  The history of a run is the list of its
connects and of the responses that arrived; `Proven` says what of it each state of an
interface stands for, and every genuine step keeps it.
-/
import BrightS.Kernel.Wifi
import BrightS.Lib.Runs

namespace BrightS

open Bytes Runs

/-! ### Runs -/

inductive WifiCall where
  | init
  | ifAdd (name mac : List Byte)
  | ifUp (name : List Byte)
  | ifDown (name : List Byte)
  | ifSetIp (name : List Byte) (ip netmask gateway : BitVec 32)
  | scan (name : List Byte)
  | connect (name ssid : List Byte)
  | disconnect (name : List Byte)
  | recv (frame : List Byte)

def Wifi.call (w : Wifi) : WifiCall → Wifi
  | .init => wifiInit w
  | .ifAdd name mac => (wifiIfAdd w name mac).1
  | .ifUp name => (wifiIfUp w name).1
  | .ifDown name => (wifiIfDown w name).1
  | .ifSetIp name ip netmask gateway => (wifiIfSetIp w name ip netmask gateway).1
  | .scan name => (wifiScan w name).1
  | .connect name ssid => (wifiConnect w name ssid).1
  | .disconnect name => (wifiDisconnect w name).1
  | .recv frame => (wifiRecv w frame).1

/-- A management frame with a whole header. -/
def IsMgmt (frame : List Byte) : Prop := wifiHdrSize ≤ frame.length ∧ frameType frame = ftypeMgmt

/-- An authentication response with status 0. -/
def IsAuthResp (frame : List Byte) : Prop :=
  IsMgmt frame ∧ frameSubtype frame = stypeAuth ∧ 6 ≤ (frameBody frame).length ∧
    field16 (frameBody frame) 4 = 0 ∧ field16 (frameBody frame) 2 = 2

/-- An association response with status 0. -/
def IsAssocResp (frame : List Byte) : Prop :=
  IsMgmt frame ∧ frameSubtype frame = stypeAssocResp ∧ 4 ≤ (frameBody frame).length ∧
    field16 (frameBody frame) 2 = 0

def IsDisassoc (frame : List Byte) : Prop :=
  IsMgmt frame ∧ (frameSubtype frame = stypeDisassoc ∨ frameSubtype frame = stypeDeauth)

instance (frame : List Byte) : Decidable (IsMgmt frame) := inferInstanceAs (Decidable (_ ∧ _))

instance (frame : List Byte) : Decidable (IsAuthResp frame) := inferInstanceAs (Decidable (_ ∧ _))

instance (frame : List Byte) : Decidable (IsAssocResp frame) := inferInstanceAs (Decidable (_ ∧ _))

instance (frame : List Byte) : Decidable (IsDisassoc frame) := inferInstanceAs (Decidable (_ ∧ _))

/-- What happened to interface `i`: a connect, with the network it selected if it succeeded, or a
response with status 0, with its sender. -/
inductive WifiEvent where
  | connect (i : Nat) (target : Option (List Byte))
  | auth (i : Nat) (sender : List Byte)
  | assoc (i : Nat) (sender : List Byte)
  deriving DecidableEq

def wifiEvents (w : Wifi) : WifiCall → List WifiEvent
  | .connect name ssid =>
      match wifiIfGet w name with
      | none => []
      | some i =>
          let res := wifiConnect w name ssid
          [.connect i (if res.2 = 0 then some (res.1.ifs i).bssid else none)]
  | .recv frame =>
      match wifiRecvIf w frame with
      | none => []
      | some i =>
          if IsAuthResp frame then [.auth i (frameAddr2 frame)]
          else if IsAssocResp frame then [.assoc i (frameAddr2 frame)]
          else []
  | _ => []

/-- The interfaces and what has happened so far, oldest event first. -/
structure WifiRun where
  w : Wifi
  log : List WifiEvent

def WifiRun.next (r : WifiRun) (c : WifiCall) : WifiRun := ⟨r.w.call c, r.log ++ wifiEvents r.w c⟩

def WifiRun.step (r : WifiRun) (c : WifiCall) (r' : WifiRun) : Prop := r' = r.next c

/-- The driver without interfaces. -/
def WifiRun.init : WifiRun :=
  ⟨{ ifs := fun _ => zeroIf, ifCount := 0, seqCounter := 0, sent := [] }, []⟩

/-! ### What is demanded -/

/-- The last connect of interface `i` selected network `b`, and these events came after it. -/
def SelectedSince (log : List WifiEvent) (i : Nat) (b : List Byte) (since : List WifiEvent) : Prop :=
  ∃ before, log = before ++ .connect i (some b) :: since ∧ ∀ target, .connect i target ∉ since

def Selected (log : List WifiEvent) (i : Nat) (b : List Byte) : Prop :=
  ∃ since, SelectedSince log i b since

/-- The last connect selected `b`, and an authentication response came from it since. -/
def Authenticated (log : List WifiEvent) (i : Nat) (b : List Byte) : Prop :=
  ∃ since, SelectedSince log i b since ∧ .auth i b ∈ since

/-- And after it an association response. -/
def Associated (log : List WifiEvent) (i : Nat) (b : List Byte) : Prop :=
  ∃ earlier later, SelectedSince log i b (earlier ++ .auth i b :: later) ∧ .assoc i b ∈ later

/-- An interface is connected only to the network that was selected and has answered. -/
def ConnectedRight (r : WifiRun) : Prop :=
  ∀ i, i < r.w.ifCount → (r.w.ifs i).up = true → (r.w.ifs i).state = .connected →
    Associated r.log i (r.w.ifs i).bssid

def WifiState.Connecting (st : WifiState) : Prop := st = .auth ∨ st = .assoc ∨ st = .connected

instance (st : WifiState) : Decidable st.Connecting := inferInstanceAs (Decidable (_ ∨ _))

/-- A frame that is not from the selected network changes no state of an interface that is connected
or connecting. -/
def StrangersIgnored (w : Wifi) (frame : List Byte) : Prop :=
  ∀ i, i < w.ifCount → (w.ifs i).state.Connecting → frameAddr2 frame ≠ (w.ifs i).bssid →
    (((wifiRecv w frame).1).ifs i).state = (w.ifs i).state

/-- What the handlers do not check: a response comes from the selected network when the interface
waits for it (or has had it before), and nobody else ends an association. -/
def Genuine (r : WifiRun) : WifiCall → Prop
  | .recv frame => ∀ i, wifiRecvIf r.w frame = some i →
      (IsAuthResp frame →
        (r.w.ifs i).state.Connecting ∧ frameAddr2 frame = (r.w.ifs i).bssid) ∧
      (IsAssocResp frame →
        ((r.w.ifs i).state = .assoc ∨ (r.w.ifs i).state = .connected) ∧
          frameAddr2 frame = (r.w.ifs i).bssid ∧ frameAddr3 frame = (r.w.ifs i).bssid) ∧
      (IsDisassoc frame →
        (r.w.ifs i).state.Connecting → frameAddr2 frame = (r.w.ifs i).bssid)
  | _ => True

instance (r : WifiRun) (c : WifiCall) : Decidable (Genuine r c) :=
  match c with
  | .recv frame => inferInstanceAs (Decidable (∀ i ∈ wifiRecvIf r.w frame, _ ∧ _ ∧ _))
  | .init | .ifAdd .. | .ifUp _ | .ifDown _ | .ifSetIp .. | .scan _ | .connect .. | .disconnect _ =>
      inferInstanceAs (Decidable True)

/-! ### The history -/

section History

variable {log more : List WifiEvent} {i : Nat} {b : List Byte}

theorem SelectedSince.append {since : List WifiEvent} (h : SelectedSince log i b since)
    (hmore : ∀ target, .connect i target ∉ more) :
    SelectedSince (log ++ more) i b (since ++ more) := by
  obtain ⟨before, hlog, hsince⟩ := h
  refine ⟨before, by rw [hlog, List.append_assoc, List.cons_append], fun target hmem => ?_⟩
  rcases List.mem_append.mp hmem with hold | hnew
  · exact hsince target hold
  · exact hmore target hnew

/-- What the history has to show for an interface in a state. -/
def Proven (log : List WifiEvent) (i : Nat) (b : List Byte) : WifiState → Prop
  | .down => True
  | .scanning => True
  | .auth => Selected log i b
  | .assoc => Authenticated log i b
  | .connected => Associated log i b

theorem Proven.append {st : WifiState} (h : Proven log i b st)
    (hmore : ∀ target, .connect i target ∉ more) : Proven (log ++ more) i b st := by
  cases st with
  | down => trivial
  | scanning => trivial
  | auth =>
      obtain ⟨since, hsince⟩ := h
      exact ⟨_, hsince.append hmore⟩
  | assoc =>
      obtain ⟨since, hsince, hmem⟩ := h
      exact ⟨_, hsince.append hmore, List.mem_append_left _ hmem⟩
  | connected =>
      obtain ⟨earlier, later, hsince, hmem⟩ := h
      refine ⟨earlier, later ++ more, ?_, List.mem_append_left _ hmem⟩
      have happend := hsince.append hmore
      rwa [List.append_assoc, List.cons_append] at happend

/-- An association was preceded by an authentication. -/
theorem Associated.authenticated (h : Associated log i b) : Authenticated log i b := by
  obtain ⟨earlier, later, hsince, -⟩ := h
  exact ⟨_, hsince, List.mem_append_right _ (List.mem_cons_self ..)⟩

theorem Authenticated.selected (h : Authenticated log i b) : Selected log i b := by
  obtain ⟨since, hsince, -⟩ := h
  exact ⟨since, hsince⟩

/-- A network that was selected is in the history. -/
theorem Selected.mem (h : Selected log i b) : .connect i (some b) ∈ log := by
  obtain ⟨since, before, hlog, -⟩ := h
  rw [hlog]
  exact List.mem_append_right _ (List.mem_cons_self ..)

/-- A connect that succeeds. -/
theorem selected_connect (log : List WifiEvent) (i : Nat) (b : List Byte) :
    Selected (log ++ [.connect i (some b)]) i b :=
  ⟨[], log, rfl, fun _ => by simp⟩

theorem Selected.auth (h : Selected log i b) : Authenticated (log ++ [.auth i b]) i b := by
  obtain ⟨since, hsince⟩ := h
  exact ⟨_, hsince.append (fun _ => by simp), List.mem_append_right _ (List.mem_singleton.mpr rfl)⟩

theorem Authenticated.assoc (h : Authenticated log i b) : Associated (log ++ [.assoc i b]) i b := by
  obtain ⟨since, hsince, hmem⟩ := h
  obtain ⟨earlier, later, rfl⟩ := List.append_of_mem hmem
  refine ⟨earlier, later ++ [.assoc i b], ?_, by simp⟩
  have happend : SelectedSince (log ++ [.assoc i b]) i b _ := hsince.append fun _ => by simp
  rwa [List.append_assoc, List.cons_append] at happend

end History

/-! ### What the calls do to the interfaces -/

/-- Interface `i` is `iface` now, and the others are as before. -/
structure IfChanged (w w' : Wifi) (i : Nat) (iface : WifiIf) : Prop where
  ifs : w'.ifs = Function.update w.ifs i iface
  count : w'.ifCount = w.ifCount

theorem ifChanged_put (w : Wifi) (i : Nat) (iface : WifiIf) : IfChanged w (w.put i iface) i iface :=
  ⟨rfl, rfl⟩

theorem ifChanged_of_ifs {w w' : Wifi} (hifs : w'.ifs = w.ifs) (hcount : w'.ifCount = w.ifCount)
    (i : Nat) (iface : WifiIf) : IfChanged w (w'.put i iface) i iface := by
  refine ⟨?_, hcount⟩
  show Function.update w'.ifs i iface = _
  rw [hifs]

/-- Sending changes no interface. -/
theorem wifiSendMgmt_ifs (w : Wifi) (name : List Byte) (subtype : BitVec 16) (dst body : List Byte) :
    (wifiSendMgmt w name subtype dst body).1.ifs = w.ifs ∧
      (wifiSendMgmt w name subtype dst body).1.ifCount = w.ifCount := by
  unfold wifiSendMgmt
  split
  · exact ⟨rfl, rfl⟩
  · split
    · exact ⟨rfl, rfl⟩
    · dsimp only
      split
      · exact ⟨rfl, rfl⟩
      · exact ⟨rfl, rfl⟩

theorem IfChanged.send {w w' : Wifi} {i : Nat} {iface : WifiIf} (h : IfChanged w w' i iface)
    (name : List Byte) (subtype : BitVec 16) (dst body : List Byte) :
    IfChanged w (wifiSendMgmt w' name subtype dst body).1 i iface := by
  obtain ⟨hifs, hcount⟩ := wifiSendMgmt_ifs w' name subtype dst body
  exact ⟨hifs.trans h.ifs, hcount.trans h.count⟩

theorem IfChanged.put {w w' : Wifi} {i : Nat} {iface : WifiIf} (h : IfChanged w w' i iface)
    (iface' : WifiIf) : IfChanged w (w'.put i iface') i iface' := by
  refine ⟨?_, h.count⟩
  show Function.update w'.ifs i iface' = _
  rw [h.ifs, Function.update_idem]

theorem IfChanged.self {w w' : Wifi} {i : Nat} {iface : WifiIf} (h : IfChanged w w' i iface) :
    w'.ifs i = iface := by
  rw [h.ifs, Function.update_self]

/-- A beacon or a probe response can only add a network. -/
theorem wifiHandleBeacon_changed (w : Wifi) (i : Nat) (frame : List Byte) :
    ∃ nets, IfChanged w (wifiHandleBeacon w i frame) i { w.ifs i with bssList := nets } := by
  have hsame : IfChanged w w i { w.ifs i with bssList := (w.ifs i).bssList } :=
    ⟨(Function.update_eq_self i w.ifs).symm, rfl⟩
  unfold wifiHandleBeacon
  split
  · split
    · exact ⟨_, hsame⟩
    · dsimp only
      split
      · exact ⟨_, ifChanged_put w i _⟩
      · exact ⟨_, hsame⟩
  · exact ⟨_, hsame⟩

/-- What a frame may do to the interface it goes to. -/
inductive FrameEffect (frame : List Byte) (iface : WifiIf) : WifiIf → Prop where
  | auth : IsAuthResp frame → FrameEffect frame iface { iface with state := .assoc }
  | assoc : IsAssocResp frame →
      FrameEffect frame iface { iface with bssid := frameAddr3 frame, state := .connected }
  | disassoc : IsDisassoc frame →
      FrameEffect frame iface { iface with state := .down, bssid := zeroMac }
  | other (nets : List WifiBss) : ¬ IsAuthResp frame → ¬ IsAssocResp frame →
      FrameEffect frame iface { iface with bssList := nets }

theorem wifiHandleMgmt_effect (w : Wifi) (i : Nat) {frame : List Byte} (hmgmt : IsMgmt frame) :
    ∃ iface, IfChanged w (wifiHandleMgmt w i frame) i iface ∧
      FrameEffect frame (w.ifs i) iface := by
  have hsame : IfChanged w w i { w.ifs i with bssList := (w.ifs i).bssList } :=
    ⟨(Function.update_eq_self i w.ifs).symm, rfl⟩
  -- A frame of another subtype is neither response.
  have hother : frameSubtype frame ≠ stypeAuth → frameSubtype frame ≠ stypeAssocResp →
      ∀ nets, FrameEffect frame (w.ifs i) { w.ifs i with bssList := nets } := fun hauth hassoc nets =>
    .other nets (fun h => hauth h.2.1) (fun h => hassoc h.2.1)
  unfold wifiHandleMgmt
  dsimp only
  split
  · rename_i hst
    obtain ⟨nets, hnets⟩ := wifiHandleBeacon_changed w i frame
    exact ⟨_, hnets, hother (by rw [hst]; decide) (by rw [hst]; decide) nets⟩
  · split
    · rename_i hst
      obtain ⟨nets, hnets⟩ := wifiHandleBeacon_changed w i frame
      exact ⟨_, hnets, hother (by rw [hst]; decide) (by rw [hst]; decide) nets⟩
    · split
      · rename_i hst
        have hno : ¬ IsAssocResp frame := fun h => absurd (hst.symm.trans h.2.1) (by decide)
        unfold wifiHandleAuth
        dsimp only
        split
        · rename_i hlen
          exact ⟨_, hsame, .other _ (fun h => absurd h.2.2.1 (by omega)) hno⟩
        · split
          · rename_i hlen hresp
            exact ⟨_, (ifChanged_put w i _).send _ _ _ _,
              .auth ⟨hmgmt, hst, by omega, hresp.1, hresp.2⟩⟩
          · rename_i hresp
            exact ⟨_, hsame, .other _ (fun h => hresp h.2.2.2) hno⟩
      · rename_i hauth
        have hno : ¬ IsAuthResp frame := fun h => hauth h.2.1
        split
        · rename_i hst
          unfold wifiHandleAssocResp
          dsimp only
          split
          · rename_i hlen
            exact ⟨_, hsame, .other _ hno (fun h => absurd h.2.2.1 (by omega))⟩
          · split
            · rename_i hlen hresp
              exact ⟨_, ifChanged_put w i _, .assoc ⟨hmgmt, hst, by omega, hresp⟩⟩
            · rename_i hresp
              exact ⟨_, hsame, .other _ hno (fun h => hresp h.2.2.2)⟩
        · rename_i hassoc
          split
          · rename_i hst
            exact ⟨_, ifChanged_put w i _, .disassoc ⟨hmgmt, hst⟩⟩
          · exact ⟨_, hsame, hother hauth hassoc _⟩

/-- A frame changes nothing, or the interface it goes to in one of these ways. -/
theorem wifiRecv_effect {w : Wifi} {frame : List Byte} {i : Nat} (hi : wifiRecvIf w frame = some i) :
    ∃ iface, IfChanged w (wifiRecv w frame).1 i iface ∧ FrameEffect frame (w.ifs i) iface := by
  have hsame : IfChanged w w i { w.ifs i with bssList := (w.ifs i).bssList } :=
    ⟨(Function.update_eq_self i w.ifs).symm, rfl⟩
  have hother : ¬ IsMgmt frame →
      FrameEffect frame (w.ifs i) { w.ifs i with bssList := (w.ifs i).bssList } := fun hno =>
    .other _ (fun h => hno h.1) (fun h => hno h.1)
  unfold wifiRecv
  split
  · rename_i hlen
    exact ⟨_, hsame, hother fun h => absurd h.1 (by omega)⟩
  · rename_i hlen
    rw [hi]
    dsimp only
    split
    · rename_i htype
      exact wifiHandleMgmt_effect w i ⟨by omega, htype⟩
    · rename_i htype
      split
      · split
        · exact ⟨_, hsame, hother fun h => htype h.2⟩
        · exact ⟨_, hsame, hother fun h => htype h.2⟩
      · exact ⟨_, hsame, hother fun h => htype h.2⟩

theorem wifiRecv_none {w : Wifi} {frame : List Byte} (hnone : wifiRecvIf w frame = none) :
    (wifiRecv w frame).1 = w := by
  unfold wifiRecv
  split
  · rfl
  · rw [hnone]

/-- A scan of an interface that is up. -/
theorem wifiScan_changed {w : Wifi} {name : List Byte} {i : Nat} (hget : wifiIfGet w name = some i)
    (hup : (w.ifs i).up = true) :
    IfChanged w (wifiScan w name).1 i { w.ifs i with state := .scanning, bssList := [] } := by
  unfold wifiScan
  rw [hget]
  dsimp only
  rw [if_neg (by simp [hup])]
  exact (ifChanged_put w i _).send _ _ _ _

theorem wifiSelect_changed (w : Wifi) (i : Nat) (target : WifiBss) :
    ∃ iface, IfChanged w (wifiSelect w i target) i iface ∧ iface.state = .auth ∧
      iface.bssid = target.bssid ∧ iface.up = (w.ifs i).up := by
  refine ⟨_, ((ifChanged_put w i _).put _).send _ _ _ _, rfl, ?_, ?_⟩
  · rw [(ifChanged_put w i _).self]
  · rw [(ifChanged_put w i _).self]

/-- A connect of an interface that is up selects a network, or leaves the interface scanning. -/
theorem wifiConnect_changed {w : Wifi} {name : List Byte} {i : Nat}
    (hget : wifiIfGet w name = some i) (hup : (w.ifs i).up = true) (ssid : List Byte) :
    ∃ iface, IfChanged w (wifiConnect w name ssid).1 i iface ∧ iface.up = true ∧
      ((iface.state = .auth ∧ (wifiConnect w name ssid).2 = 0) ∨
        (iface.state = .scanning ∧ (wifiConnect w name ssid).2 ≠ 0)) := by
  have hscan := wifiScan_changed hget hup
  unfold wifiConnect
  rw [hget]
  dsimp only
  rw [if_neg (by simp [hup])]
  split
  · rename_i target _
    obtain ⟨iface, hchanged, hstate, -, hsame⟩ := wifiSelect_changed w i target
    exact ⟨iface, hchanged, hsame.trans hup, .inl ⟨hstate, rfl⟩⟩
  · split
    · rename_i target _
      obtain ⟨iface, hchanged, hstate, -, hsame⟩ := wifiSelect_changed (wifiScan w name).1 i target
      refine ⟨iface, ⟨?_, hchanged.count.trans hscan.count⟩, ?_, .inl ⟨hstate, rfl⟩⟩
      · rw [hchanged.ifs, hscan.ifs, Function.update_idem]
      · rw [hsame, hscan.self]
        exact hup
    · exact ⟨_, hscan, hup, .inr ⟨rfl, by simp⟩⟩

theorem wifiDisconnect_changed {w : Wifi} {name : List Byte} {i : Nat}
    (hget : wifiIfGet w name = some i) :
    ∃ iface, IfChanged w (wifiDisconnect w name).1 i iface ∧ iface.state = .down := by
  unfold wifiDisconnect
  rw [hget]
  dsimp only
  split
  · obtain ⟨hifs, hcount⟩ := wifiSendMgmt_ifs w (w.ifs i).name stypeDisassoc (w.ifs i).bssid [0, 0]
    exact ⟨_, ifChanged_of_ifs hifs hcount i _, rfl⟩
  · exact ⟨_, ifChanged_put w i _, rfl⟩

/-- An interface that is given a frame is up. -/
theorem wifiRecvIf_up {w : Wifi} {frame : List Byte} {i : Nat}
    (hi : wifiRecvIf w frame = some i) : i < w.ifCount ∧ (w.ifs i).up = true := by
  have hfound := List.find?_some hi
  refine ⟨List.mem_range.mp (List.mem_of_find?_eq_some hi), ?_⟩
  simp only [Bool.or_eq_true, Bool.and_eq_true] at hfound
  exact hfound.elim And.left And.left

/-! ### Genuine steps -/

/-- An interface that is not up is down, and the history shows what its state stands for. -/
structure IfOk (log : List WifiEvent) (i : Nat) (iface : WifiIf) : Prop where
  down : iface.up = false → iface.state = .down
  proven : Proven log i iface.bssid iface.state

def WifiOk (r : WifiRun) : Prop := ∀ i, i < r.w.ifCount → IfOk r.log i (r.w.ifs i)

section Steps

variable {r : WifiRun} {w' : Wifi} {i : Nat} {iface : WifiIf} {more : List WifiEvent}

theorem IfOk.append (h : IfOk r.log i iface) (hmore : ∀ target, .connect i target ∉ more) :
    IfOk (r.log ++ more) i iface := ⟨h.down, h.proven.append hmore⟩

/-- One interface changes, and no other one was connected. -/
theorem WifiOk.changed (h : WifiOk r) (hchanged : IfChanged r.w w' i iface)
    (hmore : ∀ j target, .connect j target ∈ more → j = i)
    (hnew : IfOk r.log i (r.w.ifs i) → IfOk (r.log ++ more) i iface) :
    WifiOk ⟨w', r.log ++ more⟩ := by
  intro j hj
  have hlt : j < r.w.ifCount := by
    rw [← hchanged.count]
    exact hj
  show IfOk (r.log ++ more) j (w'.ifs j)
  by_cases hji : j = i
  · rw [hji] at hlt ⊢
    rw [hchanged.self]
    exact hnew (h i hlt)
  · rw [hchanged.ifs, Function.update_of_ne hji]
    exact (h j hlt).append fun target hmem => hji (hmore j target hmem)

/-- A call without an event that changes one interface. -/
theorem WifiOk.quiet (h : WifiOk r) (hchanged : IfChanged r.w w' i iface)
    (hnew : IfOk r.log i (r.w.ifs i) → IfOk r.log i iface) : WifiOk ⟨w', r.log ++ []⟩ := by
  refine h.changed hchanged (fun j target hmem => absurd hmem (by simp)) fun hold => ?_
  rw [List.append_nil]
  exact hnew hold

theorem WifiOk.same (h : WifiOk r) (hw : w' = r.w) : WifiOk ⟨w', r.log ++ []⟩ := by
  subst hw
  intro j hj
  show IfOk (r.log ++ []) j (r.w.ifs j)
  rw [List.append_nil]
  exact h j hj

/-- Where the interface is down, nothing has to be shown. -/
theorem ifOk_down (log : List WifiEvent) (i : Nat) (hstate : iface.state = .down) :
    IfOk log i iface := by
  refine ⟨fun _ => hstate, ?_⟩
  rw [hstate]
  trivial

/-- Interfaces that are connecting were told to. -/
theorem Proven.selected {log : List WifiEvent} {b : List Byte} {st : WifiState}
    (h : Proven log i b st) (hst : st.Connecting) : Selected log i b := by
  rcases hst with rfl | rfl | rfl
  · exact h
  · exact Authenticated.selected h
  · exact (Associated.authenticated h).selected

theorem Proven.authenticated {log : List WifiEvent} {b : List Byte} {st : WifiState}
    (h : Proven log i b st) (hst : st = .assoc ∨ st = .connected) : Authenticated log i b := by
  rcases hst with rfl | rfl
  · exact h
  · exact Associated.authenticated h

theorem wifiOk_recv {frame : List Byte} (h : WifiOk r) (hgen : Genuine r (.recv frame)) :
    WifiOk (r.next (.recv frame)) := by
  unfold WifiRun.next wifiEvents
  dsimp only [Wifi.call]
  cases hi : wifiRecvIf r.w frame with
  | none => exact h.same (wifiRecv_none hi)
  | some i =>
      obtain ⟨iface, hchanged, heffect⟩ := wifiRecv_effect hi
      obtain ⟨hauth, hassoc, -⟩ := hgen i hi
      have hup := (wifiRecvIf_up hi).2
      dsimp only
      cases heffect with
      | auth hresp =>
          obtain ⟨hstate, hsender⟩ := hauth hresp
          rw [if_pos hresp, hsender]
          refine h.changed hchanged (fun j target hmem => by simp at hmem) fun hold => ⟨?_, ?_⟩
          · exact fun hdown => absurd (hup.symm.trans hdown) (by simp)
          · exact (hold.proven.selected hstate).auth
      | assoc hresp =>
          obtain ⟨hstate, hsender, hnet⟩ := hassoc hresp
          have hno : ¬ IsAuthResp frame := fun hother =>
            absurd (hother.2.1.symm.trans hresp.2.1) (by decide)
          rw [hnet] at hchanged
          rw [if_neg hno, if_pos hresp, hsender]
          refine h.changed hchanged (fun j target hmem => by simp at hmem) fun hold => ⟨?_, ?_⟩
          · exact fun hdown => absurd (hup.symm.trans hdown) (by simp)
          · exact (hold.proven.authenticated hstate).assoc
      | disassoc hend =>
          have hno : ¬ IsAuthResp frame := fun hother => by
            rcases hend.2 with hst | hst
            · exact absurd (hst.symm.trans hother.2.1) (by decide)
            · exact absurd (hst.symm.trans hother.2.1) (by decide)
          have hno' : ¬ IsAssocResp frame := fun hother => by
            rcases hend.2 with hst | hst
            · exact absurd (hst.symm.trans hother.2.1) (by decide)
            · exact absurd (hst.symm.trans hother.2.1) (by decide)
          rw [if_neg hno, if_neg hno']
          exact h.quiet hchanged fun _ => ifOk_down _ _ rfl
      | other nets hno hno' =>
          rw [if_neg hno, if_neg hno']
          exact h.quiet hchanged fun hold => ⟨hold.down, hold.proven⟩

theorem wifiOk_connect (h : WifiOk r) (name ssid : List Byte) :
    WifiOk (r.next (.connect name ssid)) := by
  unfold WifiRun.next wifiEvents
  dsimp only [Wifi.call]
  cases hget : wifiIfGet r.w name with
  | none =>
      refine h.same ?_
      unfold wifiConnect
      rw [hget]
  | some i =>
      dsimp only
      have hone : ∀ j target x, WifiEvent.connect j target ∈ [WifiEvent.connect i x] → j = i := by
        intro j target x hmem
        exact (WifiEvent.connect.inj (List.mem_singleton.mp hmem)).1
      by_cases hup : (r.w.ifs i).up = true
      · obtain ⟨iface, hchanged, hifup, hres⟩ := wifiConnect_changed hget hup ssid
        refine h.changed hchanged (fun j target hmem => hone j target _ hmem) fun _ => ⟨?_, ?_⟩
        · exact fun hdown => absurd (hifup.symm.trans hdown) (by simp)
        · rcases hres with ⟨hstate, hret⟩ | ⟨hstate, -⟩
          · rw [hstate, if_pos hret, hchanged.self]
            exact selected_connect r.log i iface.bssid
          · rw [hstate]
            trivial
      · -- The interface is not up, so it is down and stays so.
        have hsame : (wifiConnect r.w name ssid).1 = r.w := by
          unfold wifiConnect
          rw [hget]
          dsimp only
          rw [if_pos (by simpa using hup)]
        have hchanged : IfChanged r.w (wifiConnect r.w name ssid).1 i (r.w.ifs i) := by
          rw [hsame]
          exact ⟨(Function.update_eq_self i r.w.ifs).symm, rfl⟩
        refine h.changed hchanged (fun j target hmem => hone j target _ hmem) fun hold => ?_
        exact ifOk_down _ _ (hold.down (by simpa using hup))

theorem wifiOk_add (h : WifiOk r) (name mac : List Byte) : WifiOk (r.next (.ifAdd name mac)) := by
  show WifiOk ⟨(wifiIfAdd r.w name mac).1, r.log ++ []⟩
  unfold wifiIfAdd
  split
  · exact h.same rfl
  · intro j hj
    rw [List.append_nil]
    by_cases hnew : j = r.w.ifCount
    · refine ifOk_down _ _ ?_
      simp [hnew, Wifi.put, zeroIf]
    · have hlt : j < r.w.ifCount := Nat.lt_of_le_of_ne (Nat.le_of_lt_succ hj) hnew
      have hsame := h j hlt
      simpa [Wifi.put, Function.update_of_ne hnew] using hsame

/-- A genuine step keeps what the histories show. -/
theorem wifiOk_step (r : WifiRun) (c : WifiCall) (r' : WifiRun) (h : WifiOk r)
    (hstep : Guarded Genuine WifiRun.step r c r') : WifiOk r' := by
  obtain ⟨hgen, rfl⟩ := hstep
  cases c with
  | init => exact fun j hj => absurd hj (Nat.not_lt_zero j)
  | ifAdd name mac => exact wifiOk_add h name mac
  | ifUp name =>
      show WifiOk ⟨(wifiIfUp r.w name).1, r.log ++ []⟩
      unfold wifiIfUp
      cases wifiIfGet r.w name with
      | none => exact h.same rfl
      | some i =>
          exact h.quiet (ifChanged_put r.w i _) fun hold => ⟨fun hdown => by simp at hdown, hold.proven⟩
  | ifDown name =>
      show WifiOk ⟨(wifiIfDown r.w name).1, r.log ++ []⟩
      unfold wifiIfDown
      cases wifiIfGet r.w name with
      | none => exact h.same rfl
      | some i => exact h.quiet (ifChanged_put r.w i _) fun _ => ifOk_down _ _ rfl
  | ifSetIp name ip netmask gateway =>
      show WifiOk ⟨(wifiIfSetIp r.w name ip netmask gateway).1, r.log ++ []⟩
      unfold wifiIfSetIp
      cases wifiIfGet r.w name with
      | none => exact h.same rfl
      | some i => exact h.quiet (ifChanged_put r.w i _) fun hold => ⟨hold.down, hold.proven⟩
  | scan name =>
      show WifiOk ⟨(wifiScan r.w name).1, r.log ++ []⟩
      cases hget : wifiIfGet r.w name with
      | none =>
          refine h.same ?_
          unfold wifiScan
          rw [hget]
      | some i =>
          by_cases hup : (r.w.ifs i).up = true
          · refine h.quiet (wifiScan_changed hget hup) fun _ => ⟨?_, trivial⟩
            exact fun hdown => absurd (hup.symm.trans hdown) (by simp)
          · refine h.same ?_
            unfold wifiScan
            rw [hget]
            dsimp only
            rw [if_pos (by simpa using hup)]
  | connect name ssid => exact wifiOk_connect h name ssid
  | disconnect name =>
      show WifiOk ⟨(wifiDisconnect r.w name).1, r.log ++ []⟩
      cases hget : wifiIfGet r.w name with
      | none =>
          refine h.same ?_
          unfold wifiDisconnect
          rw [hget]
      | some i =>
          obtain ⟨iface, hchanged, hstate⟩ := wifiDisconnect_changed hget
          exact h.quiet hchanged fun _ => ifOk_down _ _ hstate
  | recv frame => exact wifiOk_recv h hgen

theorem WifiOk.connectedRight (h : WifiOk r) : ConnectedRight r := by
  intro i hi _ hstate
  have hproven := (h i hi).proven
  rw [hstate] at hproven
  exact hproven

/-- A genuine frame from someone else does not change the state. -/
theorem strangersIgnored {frame : List Byte} (hgen : Genuine r (.recv frame)) :
    StrangersIgnored r.w frame := by
  intro j _ hstate hsender
  cases hi : wifiRecvIf r.w frame with
  | none => rw [wifiRecv_none hi]
  | some i =>
      obtain ⟨iface, hchanged, heffect⟩ := wifiRecv_effect hi
      obtain ⟨hauth, hassoc, hend⟩ := hgen i hi
      rw [hchanged.ifs]
      by_cases hji : j = i
      · subst hji
        rw [Function.update_self]
        cases heffect with
        | auth hresp => exact absurd (hauth hresp).2 hsender
        | assoc hresp => exact absurd (hassoc hresp).2.1 hsender
        | disassoc hdis => exact absurd (hend hdis hstate) hsender
        | other => rfl
      · rw [Function.update_of_ne hji]

end Steps

/-- **In a run whose frames are all genuine, an interface is connected only to the network that the
last connect selected and that has answered since; and no other sender changes the state of an
interface that is connected or connecting.** -/
theorem wifi_association_safe {calls : List WifiCall} {r : WifiRun}
    (hrun : Executes (Guarded Genuine WifiRun.step) WifiRun.init calls r) :
    ConnectedRight r ∧ ∀ frame, Genuine r (.recv frame) → StrangersIgnored r.w frame := by
  have hok := hrun.invariant wifiOk_step fun i hi => absurd hi (Nat.not_lt_zero i)
  exact ⟨hok.connectedRight, fun frame hgen => strangersIgnored hgen⟩

/-! ### Two runs -/

def wlan : List Byte := [0x77, 0x6C]
def ownMac : List Byte := [2, 0, 0, 0, 0, 1]
def homeBssid : List Byte := [2, 0, 0, 0, 0, 0xAA]
def strangerBssid : List Byte := [2, 0, 0, 0, 0, 0xEE]

/-- A management frame to the interface; the second byte of `fc` is zero. -/
def mgmtFrame (fc : Byte) (sender body : List Byte) : List Byte :=
  [fc, 0, 0x3A, 1] ++ ownMac ++ sender ++ sender ++ [0, 0] ++ body

/-- The network named `h`, its authentication response, and an association response. -/
def homeBeacon : List Byte := mgmtFrame 0x80 homeBssid (List.replicate 12 0 ++ [0, 1, 0x68])
def homeAuth : List Byte := mgmtFrame 0xB0 homeBssid [0, 0, 2, 0, 0, 0]
def assocFrom (sender : List Byte) : List Byte := mgmtFrame 0x10 sender [0, 0, 0, 0]

theorem wifi_association_safe_home :
    ∃ r, Executes (Guarded Genuine WifiRun.step) WifiRun.init
        [.ifAdd wlan ownMac, .ifUp wlan, .scan wlan, .recv homeBeacon, .connect wlan [0x68],
          .recv homeAuth, .recv (assocFrom homeBssid)] r ∧
      ((r.w.ifs 0).state = .connected ∧ (r.w.ifs 0).bssid = homeBssid) ∧
      ConnectedRight r ∧ ∀ frame, Genuine r (.recv frame) → StrangersIgnored r.w frame := by
  have hrun : Executes (Guarded Genuine WifiRun.step) WifiRun.init
      [.ifAdd wlan ownMac, .ifUp wlan, .scan wlan, .recv homeBeacon, .connect wlan [0x68],
        .recv homeAuth, .recv (assocFrom homeBssid)] _ :=
    .cons ⟨trivial, rfl⟩ <| .cons ⟨trivial, rfl⟩ <| .cons ⟨trivial, rfl⟩ <|
      .cons ⟨by decide +kernel, rfl⟩ <| .cons ⟨trivial, rfl⟩ <|
      .cons ⟨by decide +kernel, rfl⟩ <| .cons ⟨by decide +kernel, rfl⟩ (.nil _)
  exact ⟨_, hrun, ⟨by decide +kernel, by decide +kernel⟩, wifi_association_safe hrun⟩

/-- An association response is enough to connect an interface that was only brought up, to a network
that nobody has selected; and it connects an interface that waits for the answer of another one. -/
theorem wifi_connected_by_stranger :
    (∃ r, Executes WifiRun.step WifiRun.init
        [.ifAdd wlan ownMac, .ifUp wlan, .recv (assocFrom strangerBssid)] r ∧
      (r.w.ifs 0).state = .connected ∧ (r.w.ifs 0).bssid = strangerBssid ∧ ¬ ConnectedRight r) ∧
    ∃ r, Executes WifiRun.step WifiRun.init
        [.ifAdd wlan ownMac, .ifUp wlan, .scan wlan, .recv homeBeacon, .connect wlan [0x68]] r ∧
      (r.w.ifs 0).state = .auth ∧ (r.w.ifs 0).bssid = homeBssid ∧
      ¬ StrangersIgnored r.w (assocFrom strangerBssid) := by
  refine ⟨⟨_, .cons rfl (.cons rfl (.cons rfl (.nil _))), by decide +kernel, by decide +kernel, ?_⟩,
    ⟨_, .cons rfl (.cons rfl (.cons rfl (.cons rfl (.cons rfl (.nil _))))), by decide +kernel,
      by decide +kernel, ?_⟩⟩
  · intro hright
    have hconn :=
      hright 0 (by decide +kernel) (by decide +kernel) (by decide +kernel)
    exact absurd hconn.authenticated.selected.mem (by decide +kernel)
  · intro hignored
    have hsame := hignored 0 (by decide +kernel) (by decide +kernel) (by decide +kernel)
    revert hsame
    decide +kernel

end BrightS
