/-
The elements of a beacon.

They are a walk over records (`nextElement`), and the loop is a fold over them that reads inside
the body and writes inside the array of the SSID (`beaconLoop_eq`).  What it has gathered at the
end is `BeaconExact`; the results of the scan are long enough for nothing more than that
(`beacon_parse_exact`).
-/
import BrightS.Kernel.Beacon
import BrightS.Proofs.Wifi

namespace BrightS

open Bytes Records Runs

/-! ### Elements -/

def elemId (body : List Byte) (off : Nat) : Byte := body.getD off 0
def elemLen (body : List Byte) (off : Nat) : Nat := (body.getD (off + 1) 0).toNat
def elemData (body : List Byte) (off : Nat) : List Byte :=
  (body.drop (off + 2)).take (elemLen body off)

/-- The end of the element at an offset; none if it is truncated, or there is none. -/
def nextElement (body : List Byte) (off : Nat) : Option Nat :=
  if off + 2 ≤ body.length ∧ off + 2 + elemLen body off ≤ body.length then
    some (off + 2 + elemLen body off)
  else none

/-- The name in an SSID element, unless it is too long. -/
def ssidAt (body : List Byte) (off : Nat) : Option (List Byte) :=
  if elemId body off = elemidSsid ∧ (elemData body off).length ≤ wifiMaxSsidLen then
    some (elemData body off)
  else none

/-- The channel in a DS element, unless it is empty. -/
def channelAt (body : List Byte) (off : Nat) : Option Byte :=
  if elemId body off = elemidDs then (elemData body off).head? else none

def isRsn (body : List Byte) (off : Nat) : Bool := decide (elemId body off = elemidRsn)

/-- A vendor element of type 1 with the identifier that WPA uses. -/
def isWpa (body : List Byte) (off : Nat) : Bool :=
  decide (elemId body off = elemidVendor ∧ (elemData body off).take 4 = [0, 0x50, 0xF2, 1])

variable {body : List Byte} {off off' : Nat}

theorem nextElement_some (hnext : nextElement body off = some off') :
    off + 2 ≤ body.length ∧ off' = off + 2 + elemLen body off ∧ off' ≤ body.length := by
  unfold nextElement at hnext
  split_ifs at hnext with h
  obtain rfl := Option.some.inj hnext
  exact ⟨h.1, rfl, h.2⟩

theorem nextElement_none (hend : nextElement body off = none) :
    ¬ (off + 2 ≤ body.length ∧ off + 2 + elemLen body off ≤ body.length) := by
  intro h
  unfold nextElement at hend
  rw [if_pos h] at hend
  cases hend

theorem nextElement_progress (off off' : Nat) (hnext : nextElement body off = some off') :
    off < off' ∧ off' ≤ body.length := by
  obtain ⟨-, rfl, hle⟩ := nextElement_some hnext
  exact ⟨by omega, hle⟩

theorem exists_elements (body : List Byte) (off : Nat) :
    ∃ offs, Walk (nextElement body) off offs ∧ offs.length ≤ body.length - off := by
  obtain ⟨offs, hwalk⟩ := exists_walk nextElement_progress off
  exact ⟨offs, hwalk, hwalk.length_le nextElement_progress⟩

theorem length_elemData (hnext : nextElement body off = some off') :
    (elemData body off).length = elemLen body off := by
  obtain ⟨-, rfl, hle⟩ := nextElement_some hnext
  unfold elemData
  rw [List.length_take, List.length_drop]
  omega

/-! ### One element -/

/-- The array of the SSID has its size, and a string in it. -/
structure SsidBuffer (info : BeaconInfo) : Prop where
  length : info.ssid.length = wifiMaxSsidLen + 1
  terminated : 0 ∈ info.ssid

/-- What is known after an element. -/
def BeaconInfo.after (body : List Byte) (info : BeaconInfo) (off : Nat) : BeaconInfo :=
  info.element (elemId body off) (elemData body off)

theorem SsidBuffer.after {info : BeaconInfo} (h : SsidBuffer info) (off : Nat) :
    SsidBuffer (info.after body off) := by
  unfold BeaconInfo.after BeaconInfo.element
  split_ifs with hssid
  · refine ⟨?_, List.mem_append_right _ (List.mem_cons_self ..)⟩
    have hlen := h.length
    have hle := hssid.2
    simp only [List.length_append, List.length_cons, List.length_drop]
    omega
  all_goals exact ⟨h.length, h.terminated⟩

/-- The case distinction is that of `BeaconInfo.element`, and stays inside. -/
theorem beaconElement_eq (hnext : nextElement body off = some off') {info : BeaconInfo}
    (h : SsidBuffer info) :
    beaconElement body off (elemId body off) (elemLen body off) info =
      some (info.after body off) := by
  have hdata := length_elemData hnext
  obtain ⟨htwo, rfl, hle⟩ := nextElement_some hnext
  unfold beaconElement BeaconInfo.after BeaconInfo.element
  rw [hdata]
  by_cases hssid : elemId body off = elemidSsid ∧ elemLen body off ≤ wifiMaxSsidLen
  · have hroom : elemLen body off < info.ssid.length := by
      rw [h.length]
      omega
    rw [if_pos hssid, if_pos hssid, fetch_bind_of_le hle, if_pos hroom]
    rfl
  rw [if_neg hssid, if_neg hssid]
  by_cases hds : elemId body off = elemidDs ∧ 1 ≤ elemLen body off
  · have hfirst : (elemData body off).getD 0 0 = body.getD (off + 2) 0 := by
      unfold elemData
      rw [List.getD_eq_getElem?_getD, List.getD_eq_getElem?_getD, List.getElem?_take_of_lt hds.2,
        List.getElem?_drop]
    rw [if_pos hds, if_pos hds, fetch_of_le (by omega), hfirst]
    rfl
  rw [if_neg hds, if_neg hds]
  by_cases hrsn : elemId body off = elemidRsn
  · rw [if_pos hrsn, if_pos hrsn]
  rw [if_neg hrsn, if_neg hrsn]
  by_cases hvendor : elemId body off = elemidVendor ∧ 4 ≤ elemLen body off
  · have hfour : (elemData body off).take 4 = (body.drop (off + 2)).take 4 := by
      unfold elemData
      rw [List.take_take, Nat.min_eq_left hvendor.2]
    rw [if_pos hvendor, if_pos hvendor, fetch_of_le (by omega), hfour]
    rfl
  · rw [if_neg hvendor, if_neg hvendor]

/-! ### The loop -/

theorem beaconLoop_done (hoff : off ≤ body.length) (hend : nextElement body off = none) (n : Nat)
    (info : BeaconInfo) : beaconLoop body (n + 1) off (body.length - off) info = some info := by
  have hno := nextElement_none hend
  rw [beaconLoop]
  by_cases htwo : body.length - off < 2
  · rw [if_pos htwo]
  · have htrunc : body.length - off < 2 + (body.getD (off + 1) 0).toNat := by
      unfold elemLen at hno
      omega
    rw [if_neg htwo, fetch_bind_of_le (by omega), fetch_bind_of_le (by omega), if_pos htrunc]

theorem beaconLoop_step (hnext : nextElement body off = some off') {info : BeaconInfo}
    (h : SsidBuffer info) (fuel : Nat) :
    beaconLoop body (fuel + 1) off (body.length - off) info =
      beaconLoop body fuel off' (body.length - off') (info.after body off) := by
  have helement := beaconElement_eq hnext h
  obtain ⟨htwo, rfl, hle⟩ := nextElement_some hnext
  unfold elemId elemLen at helement
  unfold elemLen at hle ⊢
  have hrest : body.length - off - (2 + (body.getD (off + 1) 0).toNat) =
      body.length - (off + 2 + (body.getD (off + 1) 0).toNat) := by omega
  rw [beaconLoop, if_neg (by omega), fetch_bind_of_le (by omega), fetch_bind_of_le (by omega),
    if_neg (by omega), helement, Option.bind_some, hrest, Nat.add_assoc]

/-- The loop looks at the elements one after the other. -/
theorem beaconLoop_eq {offs : List Nat} (hwalk : Walk (nextElement body) off offs)
    (hoff : off ≤ body.length) {info : BeaconInfo} (h : SsidBuffer info) {fuel : Nat}
    (hfuel : offs.length < fuel) :
    beaconLoop body fuel off (body.length - off) info =
      some (offs.foldl (BeaconInfo.after body) info) := by
  obtain ⟨n, rfl⟩ : ∃ n, fuel = offs.length + (n + 1) := ⟨fuel - offs.length - 1, by omega⟩
  have hinv : ∀ off off' info, off ≤ body.length ∧ SsidBuffer info →
      nextElement body off = some off' →
        off' ≤ body.length ∧ SsidBuffer (info.after body off) :=
    fun off off' info h hnext => ⟨(nextElement_progress off off' hnext).2, h.2.after off⟩
  exact hwalk.loop_eq (fun fuel off info => beaconLoop body fuel off (body.length - off) info) hinv
    (fun off info h hend => beaconLoop_done h.1 hend n info)
    (fun off off' fuel info h hnext => beaconLoop_step hnext h.2 fuel) ⟨hoff, h⟩

theorem getD_drop (body : List Byte) (off i : Nat) :
    (body.drop off).getD i 0 = body.getD (off + i) 0 := by
  rw [List.getD_eq_getElem?_getD, List.getD_eq_getElem?_getD, List.getElem?_drop]

theorem wifiElements_done (hend : nextElement body off = none) (n : Nat) (info : BeaconInfo) :
    wifiElements n (body.drop off) info = info := by
  have hno := nextElement_none hend
  cases n with
  | zero => rfl
  | succ n =>
      rw [wifiElements, List.length_drop, getD_drop]
      by_cases htwo : body.length - off < 2
      · rw [if_pos htwo]
      · rw [if_neg htwo]
        exact if_pos (by unfold elemLen at hno; omega)

theorem wifiElements_step (hnext : nextElement body off = some off') (fuel : Nat)
    (info : BeaconInfo) :
    wifiElements (fuel + 1) (body.drop off) info =
      wifiElements fuel (body.drop off') (info.after body off) := by
  obtain ⟨htwo, rfl, hle⟩ := nextElement_some hnext
  unfold elemLen at hle
  have hfits : ¬ body.length - off < 2 + (body.getD (off + 1) 0).toNat := by omega
  have hdrop : off + (2 + (body.getD (off + 1) 0).toNat) = off + 2 + elemLen body off := by
    unfold elemLen
    omega
  rw [wifiElements, List.length_drop, getD_drop, getD_drop, if_neg (by omega)]
  dsimp only
  rw [if_neg hfits, List.drop_drop, List.drop_drop, hdrop]
  rfl

/-- And so does the loop on lists. -/
theorem wifiElements_eq {offs : List Nat} (hwalk : Walk (nextElement body) off offs) {fuel : Nat}
    (hfuel : offs.length ≤ fuel) (info : BeaconInfo) :
    wifiElements fuel (body.drop off) info = offs.foldl (BeaconInfo.after body) info := by
  obtain ⟨n, rfl⟩ : ∃ n, fuel = offs.length + n := ⟨fuel - offs.length, by omega⟩
  have hdone : ∀ off (info : BeaconInfo), True → nextElement body off = none →
      wifiElements n (body.drop off) info = id info :=
    fun off info _ hend => wifiElements_done hend n info
  exact hwalk.loop_eq (fun fuel off info => wifiElements fuel (body.drop off) info)
    (fun _ _ _ _ _ => trivial) hdone
    (fun off off' fuel info _ hnext => wifiElements_step hnext fuel info) trivial

/-! ### What the loop gathers -/

/-- A string ends where it is ended. -/
theorem cString_append_zero (a rest : List Byte) : cString (a ++ 0 :: rest) = cString a := by
  unfold cString
  induction a with
  | nil => simp
  | cons x a ih =>
      rw [List.cons_append, List.takeWhile_cons, List.takeWhile_cons, ih]

/-- What the elements at the offsets say: the last name and the last channel, and whether there is
an RSN or a WPA element. -/
structure BeaconExact (body : List Byte) (offs : List Nat) (info : BeaconInfo) : Prop where
  buffer : SsidBuffer info
  ssid : cString info.ssid = cString (((offs.filterMap (ssidAt body)).getLast?).getD [])
  channel : info.channel = ((offs.filterMap (channelAt body)).getLast?).getD 0
  rsn : info.rsn = offs.any (isRsn body)
  wpa : info.wpa = offs.any (isWpa body)

theorem noInfo_buffer : SsidBuffer noInfo := ⟨rfl, by decide⟩

theorem after_buffer (offs : List Nat) {info : BeaconInfo} (h : SsidBuffer info) :
    SsidBuffer (offs.foldl (BeaconInfo.after body) info) := by
  induction offs generalizing info with
  | nil => exact h
  | cons off rest ih => exact ih (h.after off)

theorem after_ssid (info : BeaconInfo) (off : Nat) :
    cString (info.after body off).ssid =
      ((ssidAt body off).map cString).getD (cString info.ssid) := by
  unfold BeaconInfo.after BeaconInfo.element ssidAt
  split_ifs
  · exact cString_append_zero _ _
  all_goals rfl

theorem after_channel (info : BeaconInfo) (off : Nat) :
    (info.after body off).channel = (channelAt body off).getD info.channel := by
  unfold BeaconInfo.after BeaconInfo.element channelAt
  generalize elemData body off = edata
  by_cases hds : elemId body off = elemidDs
  · have hssid : ¬ (elemId body off = elemidSsid ∧ edata.length ≤ wifiMaxSsidLen) :=
      fun h => absurd (hds.symm.trans h.1) (by decide)
    rw [if_neg hssid, if_pos hds]
    cases edata with
    | nil =>
        rw [if_neg (fun h => Nat.not_succ_le_zero 0 h.2)]
        split_ifs
        all_goals rfl
    | cons channel rest =>
        rw [if_pos ⟨hds, Nat.le_add_left 1 rest.length⟩]
        rfl
  · rw [if_neg hds]
    split_ifs with hssid hds'
    · rfl
    · exact absurd hds'.1 hds
    all_goals rfl

theorem after_rsn (info : BeaconInfo) (off : Nat) :
    (info.after body off).rsn = (info.rsn || isRsn body off) := by
  unfold BeaconInfo.after BeaconInfo.element isRsn
  by_cases hrsn : elemId body off = elemidRsn
  · rw [hrsn]
    have hssid : ¬ (elemidRsn = elemidSsid ∧ (elemData body off).length ≤ wifiMaxSsidLen) :=
      fun h => absurd h.1 (by decide)
    have hds : ¬ (elemidRsn = elemidDs ∧ 1 ≤ (elemData body off).length) :=
      fun h => absurd h.1 (by decide)
    rw [if_neg hssid, if_neg hds, if_pos rfl]
    simp
  · rw [if_neg hrsn, decide_eq_false hrsn, Bool.or_false]
    split_ifs
    all_goals rfl

theorem after_wpa (info : BeaconInfo) (off : Nat) :
    (info.after body off).wpa = (info.wpa || isWpa body off) := by
  unfold BeaconInfo.after BeaconInfo.element isWpa
  generalize elemData body off = edata
  by_cases hwpa : elemId body off = elemidVendor ∧ edata.take 4 = [0, 0x50, 0xF2, 1]
  · have hfour : 4 ≤ edata.length := by
      have hlen := congrArg List.length hwpa.2
      rw [List.length_take] at hlen
      simp only [List.length_cons, List.length_nil] at hlen
      omega
    have hssid : ¬ (elemidVendor = elemidSsid ∧ edata.length ≤ wifiMaxSsidLen) :=
      fun h => absurd h.1 (by decide)
    have hds : ¬ (elemidVendor = elemidDs ∧ 1 ≤ edata.length) := fun h => absurd h.1 (by decide)
    have hrsn : ¬ elemidVendor = elemidRsn := by decide
    rw [decide_eq_true hwpa, hwpa.1, if_neg hssid, if_neg hds, if_neg hrsn, if_pos ⟨rfl, hfour⟩,
      if_pos hwpa.2]
    simp
  · rw [decide_eq_false hwpa, Bool.or_false]
    split_ifs with hssid hds hrsn hvendor houi
    · rfl
    · rfl
    · rfl
    · exact absurd ⟨hvendor.1, houi⟩ hwpa
    · rfl
    · rfl

/-- The fold gathers what the elements say. -/
theorem beaconExact_after (body : List Byte) (offs : List Nat) :
    BeaconExact body offs (offs.foldl (BeaconInfo.after body) noInfo) where
  buffer := after_buffer offs noInfo_buffer
  ssid := by
    have hlast : cString (offs.foldl (BeaconInfo.after body) noInfo).ssid = _ :=
      foldl_latest (fun info => cString info.ssid) after_ssid offs noInfo
    rw [hlast, ← List.map_filterMap, List.getLast?_map]
    cases (offs.filterMap (ssidAt body)).getLast? with
    | none => decide
    | some ssid => rfl
  channel := foldl_latest BeaconInfo.channel after_channel offs noInfo
  rsn := (foldl_any BeaconInfo.rsn after_rsn offs noInfo).trans (Bool.false_or _)
  wpa := (foldl_any BeaconInfo.wpa after_wpa offs noInfo).trans (Bool.false_or _)

/-! ### The results of a scan -/

def NetsBounded (w : Wifi) : Prop := ∀ i, (w.ifs i).bssList.length ≤ wifiMaxBssids

theorem NetsBounded.put {w : Wifi} (h : NetsBounded w) (i : Nat) {iface : WifiIf}
    (hiface : iface.bssList.length ≤ wifiMaxBssids) : NetsBounded (w.put i iface) := by
  intro j
  show ((Function.update w.ifs i iface) j).bssList.length ≤ wifiMaxBssids
  by_cases hj : j = i
  · rw [hj, Function.update_self]
    exact hiface
  · rw [Function.update_of_ne hj]
    exact h j

theorem NetsBounded.send {w : Wifi} (h : NetsBounded w) (name : List Byte) (subtype : BitVec 16)
    (dst body : List Byte) : NetsBounded (wifiSendMgmt w name subtype dst body).1 := by
  intro i
  rw [(wifiSendMgmt_ifs w name subtype dst body).1]
  exact h i

theorem NetsBounded.scan {w : Wifi} (h : NetsBounded w) (name : List Byte) :
    NetsBounded (wifiScan w name).1 := by
  unfold wifiScan
  cases wifiIfGet w name with
  | none => exact h
  | some i =>
      dsimp only
      split_ifs
      · exact h
      · exact (h.put i (Nat.zero_le _)).send _ _ _ _

/-- Beginning the exchange keeps the results. -/
theorem NetsBounded.authReq {w : Wifi} (h : NetsBounded w) (i : Nat) (bssid : List Byte) :
    NetsBounded (wifiSendAuthReq w i bssid) := by
  have hauth : NetsBounded (w.put i { w.ifs i with state := .auth }) := h.put i (h i)
  exact hauth.send _ _ _ _

theorem NetsBounded.select {w : Wifi} (h : NetsBounded w) (i : Nat) (target : WifiBss) :
    NetsBounded (wifiSelect w i target) := by
  unfold wifiSelect
  refine NetsBounded.authReq ?_ i target.bssid
  exact h.put i (h i)

theorem NetsBounded.connect {w : Wifi} (h : NetsBounded w) (name ssid : List Byte) :
    NetsBounded (wifiConnect w name ssid).1 := by
  unfold wifiConnect
  cases wifiIfGet w name with
  | none => exact h
  | some i =>
      dsimp only
      split_ifs
      · exact h
      · cases wifiFindBss (w.ifs i) ssid with
        | some target => exact h.select i target
        | none =>
            dsimp only
            cases wifiFindBss ((wifiScan w name).1.ifs i) ssid with
            | some target => exact (h.scan name).select i target
            | none => exact h.scan name

theorem NetsBounded.disconnect {w : Wifi} (h : NetsBounded w) (name : List Byte) :
    NetsBounded (wifiDisconnect w name).1 := by
  unfold wifiDisconnect
  cases wifiIfGet w name with
  | none => exact h
  | some i =>
      dsimp only
      split_ifs
      · have hsent : NetsBounded (wifiSendDisassoc w i (w.ifs i).bssid) := h.send _ _ _ _
        exact hsent.put i (hsent i)
      · exact h.put i (h i)

theorem NetsBounded.beacon {w : Wifi} (h : NetsBounded w) (i : Nat) (frame : List Byte) :
    NetsBounded (wifiHandleBeacon w i frame) := by
  unfold wifiHandleBeacon
  dsimp only
  split_ifs with _ _ hroom
  · exact h
  · refine h.put i ?_
    rw [List.length_append]
    exact hroom
  · exact h
  · exact h

theorem NetsBounded.auth {w : Wifi} (h : NetsBounded w) (i : Nat) (frame : List Byte) :
    NetsBounded (wifiHandleAuth w i frame) := by
  unfold wifiHandleAuth
  dsimp only
  split_ifs
  · exact h
  · have hassoc : NetsBounded (w.put i { w.ifs i with state := .assoc }) := h.put i (h i)
    exact hassoc.send _ _ _ _
  · exact h

theorem NetsBounded.assocResp {w : Wifi} (h : NetsBounded w) (i : Nat) (frame : List Byte) :
    NetsBounded (wifiHandleAssocResp w i frame) := by
  unfold wifiHandleAssocResp
  dsimp only
  split_ifs
  · exact h
  · exact h.put i (h i)
  · exact h

theorem NetsBounded.mgmt {w : Wifi} (h : NetsBounded w) (i : Nat) (frame : List Byte) :
    NetsBounded (wifiHandleMgmt w i frame) := by
  unfold wifiHandleMgmt
  dsimp only
  split_ifs
  · exact h.beacon i frame
  · exact h.beacon i frame
  · exact h.auth i frame
  · exact h.assocResp i frame
  · exact h.put i (h i)
  · exact h

theorem NetsBounded.recv {w : Wifi} (h : NetsBounded w) (frame : List Byte) :
    NetsBounded (wifiRecv w frame).1 := by
  cases hi : wifiRecvIf w frame with
  | none =>
      rw [wifiRecv_none hi]
      exact h
  | some i =>
      unfold wifiRecv
      rw [hi]
      dsimp only
      split_ifs
      · exact h
      · exact h.mgmt i frame
      · exact h
      · exact h
      · exact h

theorem netsBounded_step (r : WifiRun) (c : WifiCall) (r' : WifiRun) (h : NetsBounded r.w)
    (hstep : r.step c r') : NetsBounded r'.w := by
  subst hstep
  cases c with
  | init => exact fun _ => Nat.zero_le _
  | ifAdd name mac =>
      show NetsBounded (wifiIfAdd r.w name mac).1
      unfold wifiIfAdd
      split_ifs
      · exact h
      · exact h.put r.w.ifCount (Nat.zero_le _)
  | ifUp name =>
      show NetsBounded (wifiIfUp r.w name).1
      unfold wifiIfUp
      cases wifiIfGet r.w name with
      | none => exact h
      | some i => exact h.put i (h i)
  | ifDown name =>
      show NetsBounded (wifiIfDown r.w name).1
      unfold wifiIfDown
      cases wifiIfGet r.w name with
      | none => exact h
      | some i => exact h.put i (h i)
  | ifSetIp name ip netmask gateway =>
      show NetsBounded (wifiIfSetIp r.w name ip netmask gateway).1
      unfold wifiIfSetIp
      cases wifiIfGet r.w name with
      | none => exact h
      | some i => exact h.put i (h i)
  | scan name => exact h.scan name
  | connect name ssid => exact h.connect name ssid
  | disconnect name => exact h.disconnect name
  | recv frame => exact h.recv frame

/-! ### A beacon during a scan -/

/-- What is recorded of a network. -/
def bssOf (frame : List Byte) (info : BeaconInfo) : WifiBss where
  bssid := frameAddr3 frame
  ssid := info.ssid
  channel := info.channel
  rssi := -70
  wpa := info.wpa
  rsn := info.rsn
  rateCount := 0

section Scan

variable {w : Wifi} {i : Nat} {frame : List Byte}

theorem wifiRecv_beacon (hi : wifiRecvIf w frame = some i) (hmgmt : IsMgmt frame)
    (hst : frameSubtype frame = stypeBeacon ∨ frameSubtype frame = stypeProbeResp) :
    (wifiRecv w frame).1 = wifiHandleBeacon w i frame := by
  have hlen : ¬ frame.length < wifiHdrSize := Nat.not_lt.mpr hmgmt.1
  unfold wifiRecv
  rw [if_neg hlen, hi]
  dsimp only
  rw [if_pos hmgmt.2]
  show wifiHandleMgmt w i frame = _
  unfold wifiHandleMgmt
  dsimp only
  rcases hst with hst | hst
  · rw [if_pos hst]
  · have hne : ¬ frameSubtype frame = stypeBeacon := fun h => absurd (hst.symm.trans h) (by decide)
    rw [if_neg hne, if_pos hst]

theorem wifiHandleBeacon_short (hstate : (w.ifs i).state = .scanning)
    (hshort : (frameBody frame).length < 12) : wifiHandleBeacon w i frame = w := by
  unfold wifiHandleBeacon
  rw [if_pos hstate, if_pos hshort]

/-- What the elements say is recorded, if there is room. -/
theorem wifiHandleBeacon_eq (hstate : (w.ifs i).state = .scanning)
    (hlen : 12 ≤ (frameBody frame).length) {offs : List Nat}
    (hwalk : Walk (nextElement (frameBody frame)) 12 offs) :
    wifiHandleBeacon w i frame =
      if (w.ifs i).bssList.length < wifiMaxBssids then
        w.put i { w.ifs i with bssList := (w.ifs i).bssList ++
          [bssOf frame (offs.foldl (BeaconInfo.after (frameBody frame)) noInfo)] }
      else w := by
  have hcount : offs.length ≤ ((frameBody frame).drop 12).length := by
    rw [List.length_drop]
    exact hwalk.length_le nextElement_progress
  have hinfo := wifiElements_eq hwalk hcount noInfo
  unfold wifiHandleBeacon
  rw [if_pos hstate, if_neg (by omega), ← hinfo]
  rfl

end Scan

/--
**The elements of a beacon are read safely and exactly.**  In every run no interface has more
results than there is room for.  The loop over the elements of a beacon or a probe response of any
content comes to its end during a scan, and reads and writes nothing outside; what is recorded is
the last name and the last channel before the first truncated element, and whether there is an RSN
or a WPA element before it.
-/
theorem beacon_parse_exact {calls : List WifiCall} {r : WifiRun}
    (hrun : Executes WifiRun.step WifiRun.init calls r) :
    NetsBounded r.w ∧
    ∀ i frame, wifiRecvIf r.w frame = some i → (r.w.ifs i).state = .scanning → IsMgmt frame →
      frameSubtype frame = stypeBeacon ∨ frameSubtype frame = stypeProbeResp →
      ((frameBody frame).length < 12 → (wifiRecv r.w frame).1 = r.w) ∧
      (12 ≤ (frameBody frame).length → ∃ offs info,
        Walk (nextElement (frameBody frame)) 12 offs ∧ BeaconExact (frameBody frame) offs info ∧
        (∀ fuel, (frameBody frame).length < fuel →
          beaconLoop (frameBody frame) fuel 12 ((frameBody frame).length - 12) noInfo = some info) ∧
        (wifiRecv r.w frame).1 =
          if (r.w.ifs i).bssList.length < wifiMaxBssids then
            r.w.put i { r.w.ifs i with bssList := (r.w.ifs i).bssList ++ [bssOf frame info] }
          else r.w) := by
  have hbounded : NetsBounded r.w := hrun.invariant netsBounded_step fun _ => Nat.zero_le _
  refine ⟨hbounded, fun i frame hi hstate hmgmt hst => ?_⟩
  rw [wifiRecv_beacon hi hmgmt hst]
  refine ⟨wifiHandleBeacon_short hstate, fun hlen => ?_⟩
  obtain ⟨offs, hwalk, hcount⟩ := exists_elements (frameBody frame) 12
  refine ⟨offs, _, hwalk, beaconExact_after (frameBody frame) offs, fun fuel hfuel => ?_,
    wifiHandleBeacon_eq hstate hlen hwalk⟩
  exact beaconLoop_eq hwalk hlen noInfo_buffer (by omega)

/-- The beacon of the network named `h`. -/
theorem beacon_parse_exact_home :
    ∃ r, Executes WifiRun.step WifiRun.init [.ifAdd wlan ownMac, .ifUp wlan, .scan wlan] r ∧
      ∃ info, cString info.ssid = [0x68] ∧
        ((wifiRecv r.w homeBeacon).1.ifs 0).bssList = [bssOf homeBeacon info] := by
  have hrun : Executes WifiRun.step WifiRun.init [.ifAdd wlan ownMac, .ifUp wlan, .scan wlan] _ :=
    .cons rfl (.cons rfl (.cons rfl (.nil _)))
  refine ⟨_, hrun, ?_⟩
  obtain ⟨offs, info, hwalk, hexact, -, hrecv⟩ :=
    ((beacon_parse_exact hrun).2 0 homeBeacon (by decide +kernel) (by decide +kernel)
      (by decide +kernel) (by decide +kernel)).2 (by decide +kernel)
  have hnext : nextElement (frameBody homeBeacon) 12 = some 15 := by decide +kernel
  have hend : nextElement (frameBody homeBeacon) 15 = none := by decide +kernel
  obtain rfl := hwalk.unique (.step hnext (.done hend))
  refine ⟨info, hexact.ssid.trans (by decide +kernel), ?_⟩
  rw [hrecv]
  rfl

end BrightS
