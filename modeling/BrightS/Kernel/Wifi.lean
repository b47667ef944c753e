/-
Wireless interfaces: `kernel/net/wifi.c`.

An interface scans for networks, selects one and is associated with it by an exchange of
management frames.  A frame is the list of its bytes.  A C string is the part of an array
before its first zero byte.

`brights_wifi_send_mgmt` composes a frame and reports its length on the serial line; `sent`
collects the frames.  The lines on the console and the key in `wpa_pmk`, which nothing
reads, are left out.
-/
import BrightS.Lib.Bytes

namespace BrightS

open Bytes

def wifiMaxSsidLen : Nat := 32
def wifiMaxBssids : Nat := 32
def wifiMaxIf : Nat := 4

/-- `sizeof(ieee80211_hdr_t)` -/
def wifiHdrSize : Nat := 24

def ftypeMgmt : BitVec 16 := 0
def ftypeData : BitVec 16 := 2

def stypeAssocReq : BitVec 16 := 0
def stypeAssocResp : BitVec 16 := 1
def stypeProbeReq : BitVec 16 := 4
def stypeProbeResp : BitVec 16 := 5
def stypeBeacon : BitVec 16 := 8
def stypeDisassoc : BitVec 16 := 0xA
def stypeAuth : BitVec 16 := 0xB
def stypeDeauth : BitVec 16 := 0xC

def elemidSsid : Byte := 0
def elemidRates : Byte := 1
def elemidDs : Byte := 3
def elemidRsn : Byte := 48
def elemidVendor : Byte := 221

/-- How far an interface has come. -/
inductive WifiState where
  | down
  | scanning
  | auth
  | assoc
  | connected
  deriving DecidableEq, Repr

/-- A network found by a scan.  `ssid` is the whole array, of 33 bytes. -/
structure WifiBss where
  bssid : List Byte
  ssid : List Byte
  channel : Byte
  rssi : Int
  wpa : Bool
  rsn : Bool
  rateCount : Nat
  deriving DecidableEq

/-- `brights_wifi_if_t`. -/
structure WifiIf where
  name : List Byte
  mac : List Byte
  bssid : List Byte
  ssid : List Byte
  channel : Byte
  state : WifiState
  up : Bool
  rssi : Int
  ipAddr : BitVec 32
  netmask : BitVec 32
  gateway : BitVec 32
  bssList : List WifiBss
  wpaVersion : Nat

/-- The statics, and the frames that were sent. -/
structure Wifi where
  ifs : Nat → WifiIf
  ifCount : Nat
  seqCounter : BitVec 16
  sent : List (List Byte)

/-- An interface gets new contents. -/
def Wifi.put (w : Wifi) (i : Nat) (iface : WifiIf) : Wifi :=
  { w with ifs := Function.update w.ifs i iface }

/-- The string in an array. -/
def cString (a : List Byte) : List Byte := a.takeWhile (· ≠ 0)

/-- The address of nobody. -/
def zeroMac : List Byte := List.replicate 6 0

/-- The address of everybody. -/
def broadcastMac : List Byte := List.replicate 6 0xFF

/-- An array with the empty string. -/
def zeroSsid : List Byte := List.replicate (wifiMaxSsidLen + 1) 0

/-- An interface with all bytes zero. -/
def zeroIf : WifiIf where
  name := []
  mac := zeroMac
  bssid := zeroMac
  ssid := zeroSsid
  channel := 0
  state := .down
  up := false
  rssi := 0
  ipAddr := 0
  netmask := 0
  gateway := 0
  bssList := []
  wpaVersion := 0

/-! ### Interfaces

They are added at boot and found by their names.
-/

/-- `brights_wifi_init`. -/
def wifiInit (w : Wifi) : Wifi := { w with ifCount := 0, ifs := fun _ => zeroIf }

/-- `brights_wifi_if_add`: the next slot; a name is not checked for being there already. -/
def wifiIfAdd (w : Wifi) (name mac : List Byte) : Wifi × Int :=
  if wifiMaxIf ≤ w.ifCount then (w, -1) else
  let iface := { zeroIf with name := (cString name).take 15, mac := mac.take 6 }
  ({ w.put w.ifCount iface with ifCount := w.ifCount + 1 }, 0)

/-- `brights_wifi_if_get`: the first interface of this name. -/
def wifiIfGet (w : Wifi) (name : List Byte) : Option Nat :=
  (List.range w.ifCount).find? fun i => (w.ifs i).name == cString name

/-- `brights_wifi_if_up`. -/
def wifiIfUp (w : Wifi) (name : List Byte) : Wifi × Int :=
  match wifiIfGet w name with
  | none => (w, -1)
  | some i => (w.put i { w.ifs i with up := true }, 0)

/-- `brights_wifi_if_down`: its state goes down as well. -/
def wifiIfDown (w : Wifi) (name : List Byte) : Wifi × Int :=
  match wifiIfGet w name with
  | none => (w, -1)
  | some i => (w.put i { w.ifs i with up := false, state := .down }, 0)

/-- `brights_wifi_if_set_ip`. -/
def wifiIfSetIp (w : Wifi) (name : List Byte) (ip netmask gateway : BitVec 32) : Wifi × Int :=
  match wifiIfGet w name with
  | none => (w, -1)
  | some i =>
      (w.put i { w.ifs i with ipAddr := ip, netmask := netmask, gateway := gateway }, 0)

/-! ### Sending

A management frame is a header of 24 bytes with a body, and numbered.
-/

/-- The header of a management frame. -/
def wifiMgmtHdr (iface : WifiIf) (subtype : BitVec 16) (dst : List Byte) (seq : BitVec 16) :
    List Byte :=
  store16 ((ftypeMgmt <<< 2) ||| (subtype <<< 4)) ++ store16 0x013A ++ dst ++ iface.mac ++
    iface.bssid ++ store16 ((seq &&& 0xFFF) <<< 4)

/-- `brights_wifi_send_mgmt`: a number is used up even when the frame is too long. -/
def wifiSendMgmt (w : Wifi) (name : List Byte) (subtype : BitVec 16) (dst body : List Byte) :
    Wifi × Int :=
  match wifiIfGet w name with
  | none => (w, -1)
  | some i =>
      if (w.ifs i).up = false then (w, -1) else
      let hdr := wifiMgmtHdr (w.ifs i) subtype dst w.seqCounter
      let w := { w with seqCounter := w.seqCounter + 1 }
      if 0 < body.length ∧ 1024 < wifiHdrSize + body.length then (w, -1)
      else ({ w with sent := w.sent ++ [hdr ++ body] }, 0)

/-- The rates that requests offer. -/
def wifiRates : List Byte := [elemidRates, 4, 0x82, 0x84, 0x8B, 0x96]

/-- `wifi_send_probe_req`: to everybody, for one network or for any. -/
def wifiSendProbeReq (w : Wifi) (i : Nat) (ssid : List Byte) : Wifi :=
  let ssid := (cString ssid).take wifiMaxSsidLen
  (wifiSendMgmt w (w.ifs i).name stypeProbeReq broadcastMac
    ([elemidSsid, BitVec.ofNat 8 ssid.length] ++ ssid ++ wifiRates)).1

/-- `wifi_send_auth_req`: the first frame of an open authentication. -/
def wifiSendAuthReq (w : Wifi) (i : Nat) (bssid : List Byte) : Wifi :=
  let w := w.put i { w.ifs i with state := .auth }
  (wifiSendMgmt w (w.ifs i).name stypeAuth bssid [0, 0, 1, 0, 0, 0]).1

/-- `wifi_send_assoc_req`: what the station can do, the network and the rates. -/
def wifiSendAssocReq (w : Wifi) (i : Nat) (bssid : List Byte) : Wifi :=
  let ssid := cString (w.ifs i).ssid
  (wifiSendMgmt w (w.ifs i).name stypeAssocReq bssid
    ([1, 0, 0xA, 0, elemidSsid, BitVec.ofNat 8 ssid.length] ++ ssid ++ wifiRates)).1

/-- `wifi_send_disassoc`. -/
def wifiSendDisassoc (w : Wifi) (i : Nat) (bssid : List Byte) : Wifi :=
  (wifiSendMgmt w (w.ifs i).name stypeDisassoc bssid [0, 0]).1

/-! ### Receiving

A frame goes to the interface that it is addressed to, and management frames move its state on.
-/

/-- The 16-bit field at an offset, lowest byte first. -/
def field16 (bytes : List Byte) (o : Nat) : BitVec 16 := load16 (onto bytes fun _ => 0) o

/-- The type of a frame. -/
def frameType (frame : List Byte) : BitVec 16 := (field16 frame 0 >>> 2) &&& 3

/-- The subtype of a frame. -/
def frameSubtype (frame : List Byte) : BitVec 16 := (field16 frame 0 >>> 4) &&& 0xF

/-- The receiver. -/
def frameAddr1 (frame : List Byte) : List Byte := (frame.drop 4).take 6

/-- The sender. -/
def frameAddr2 (frame : List Byte) : List Byte := (frame.drop 10).take 6

/-- The network. -/
def frameAddr3 (frame : List Byte) : List Byte := (frame.drop 16).take 6

/-- What is behind the header. -/
def frameBody (frame : List Byte) : List Byte := frame.drop wifiHdrSize

/-- The local variables of the loop over the elements of a beacon. -/
structure BeaconInfo where
  ssid : List Byte
  channel : Byte
  wpa : Bool
  rsn : Bool

/-- An element is taken in; those of other kinds or of a wrong length are skipped. -/
def BeaconInfo.element (info : BeaconInfo) (id : Byte) (edata : List Byte) : BeaconInfo :=
  if id = elemidSsid ∧ edata.length ≤ wifiMaxSsidLen then
    { info with ssid := edata ++ 0 :: info.ssid.drop (edata.length + 1) }
  else if id = elemidDs ∧ 1 ≤ edata.length then { info with channel := edata.getD 0 0 }
  else if id = elemidRsn then { info with rsn := true }
  else if id = elemidVendor ∧ 4 ≤ edata.length then
    if edata.take 4 = [0, 0x50, 0xF2, 1] then { info with wpa := true } else info
  else info

/-- The loop over the elements; each round takes at least two bytes. -/
def wifiElements : Nat → List Byte → BeaconInfo → BeaconInfo
  | 0, _, info => info
  | fuel + 1, p, info =>
      if p.length < 2 then info else
      let elen := (p.getD 1 0).toNat
      if p.length < 2 + elen then info else
      wifiElements fuel (p.drop (2 + elen)) (info.element (p.getD 0 0) ((p.drop 2).take elen))

/-- `wifi_handle_beacon`: during a scan the network goes to the list, as long as there is room. -/
def wifiHandleBeacon (w : Wifi) (i : Nat) (frame : List Byte) : Wifi :=
  if (w.ifs i).state = .scanning then
    if (frameBody frame).length < 12 then w else
    let p := (frameBody frame).drop 12
    let info := wifiElements p.length p { ssid := zeroSsid, channel := 0, wpa := false, rsn := false }
    if (w.ifs i).bssList.length < wifiMaxBssids then
      let bss :=
        { bssid := frameAddr3 frame, ssid := info.ssid, channel := info.channel, rssi := -70,
          wpa := info.wpa, rsn := info.rsn, rateCount := 0 }
      w.put i { w.ifs i with bssList := (w.ifs i).bssList ++ [bss] }
    else w
  else w

/-- `wifi_handle_auth`: an acceptance is answered with a request to associate, whoever it is from.
-/
def wifiHandleAuth (w : Wifi) (i : Nat) (frame : List Byte) : Wifi :=
  let body := frameBody frame
  if body.length < 6 then w else
  if field16 body 4 = 0 ∧ field16 body 2 = 2 then
    wifiSendAssocReq (w.put i { w.ifs i with state := .assoc }) i (frameAddr3 frame)
  else w

/-- `wifi_handle_assoc_resp`: an acceptance connects the interface, whatever its state. -/
def wifiHandleAssocResp (w : Wifi) (i : Nat) (frame : List Byte) : Wifi :=
  let body := frameBody frame
  if body.length < 4 then w else
  if field16 body 2 = 0 then
    w.put i { w.ifs i with bssid := frameAddr3 frame, state := .connected }
  else w

/-- `wifi_handle_disassoc`. -/
def wifiHandleDisassoc (w : Wifi) (i : Nat) : Wifi :=
  w.put i { w.ifs i with state := .down, bssid := zeroMac }

/-- `wifi_handle_mgmt`. -/
def wifiHandleMgmt (w : Wifi) (i : Nat) (frame : List Byte) : Wifi :=
  let stype := frameSubtype frame
  if stype = stypeBeacon then wifiHandleBeacon w i frame
  else if stype = stypeProbeResp then wifiHandleBeacon w i frame
  else if stype = stypeAuth then wifiHandleAuth w i frame
  else if stype = stypeAssocResp then wifiHandleAssocResp w i frame
  else if stype = stypeDisassoc ∨ stype = stypeDeauth then wifiHandleDisassoc w i
  else w

/-- The interface that a frame goes to. -/
def wifiRecvIf (w : Wifi) (frame : List Byte) : Option Nat :=
  (List.range w.ifCount).find? fun i =>
    ((w.ifs i).up && (w.ifs i).mac == frameAddr1 frame) ||
      ((w.ifs i).up && frameAddr1 frame == broadcastMac)

/-- What `brights_net_recv` is given comes out too. -/
def wifiRecv (w : Wifi) (frame : List Byte) : Wifi × Option (List Byte) :=
  if frame.length < wifiHdrSize then (w, none) else
  match wifiRecvIf w frame with
  | none => (w, none)
  | some i =>
      if frameType frame = ftypeMgmt then (wifiHandleMgmt w i frame, none)
      else if frameType frame = ftypeData then
        if frame.length ≤ wifiHdrSize then (w, none) else (w, some (frameBody frame))
      else (w, none)

/-! ### Scanning and connecting

The calls send the first frame of an exchange; the answers come in as frames.
-/

/-- `brights_wifi_scan`: the list starts afresh. -/
def wifiScan (w : Wifi) (name : List Byte) : Wifi × Int :=
  match wifiIfGet w name with
  | none => (w, -1)
  | some i =>
      if (w.ifs i).up = false then (w, -1) else
      (wifiSendProbeReq (w.put i { w.ifs i with state := .scanning, bssList := [] }) i [], 0)

/-- The loop that looks for a network in the results of the scan. -/
def wifiFindBss (iface : WifiIf) (ssid : List Byte) : Option WifiBss :=
  iface.bssList.find? fun bss => cString bss.ssid == cString ssid

/-- The end of `brights_wifi_connect`, with the network it has found. -/
def wifiSelect (w : Wifi) (i : Nat) (target : WifiBss) : Wifi :=
  wifiSendAuthReq (w.put i { w.ifs i with
    ssid := target.ssid
    bssid := target.bssid
    channel := target.channel
    rssi := target.rssi
    wpaVersion := if target.rsn then 2 else if target.wpa then 1 else 0 }) i target.bssid

/-- `brights_wifi_connect`: a network that is not in the list is scanned for, and looked for at
once. -/
def wifiConnect (w : Wifi) (name ssid : List Byte) : Wifi × Int :=
  match wifiIfGet w name with
  | none => (w, -1)
  | some i =>
      if (w.ifs i).up = false then (w, -1) else
      match wifiFindBss (w.ifs i) ssid with
      | some target => (wifiSelect w i target, 0)
      | none =>
          let w := (wifiScan w name).1
          match wifiFindBss (w.ifs i) ssid with
          | some target => (wifiSelect w i target, 0)
          | none => (w, -1)

/-- `brights_wifi_disconnect`. -/
def wifiDisconnect (w : Wifi) (name : List Byte) : Wifi × Int :=
  match wifiIfGet w name with
  | none => (w, -1)
  | some i =>
      let state := (w.ifs i).state
      let w := if state = .assoc ∨ state = .connected then wifiSendDisassoc w i (w.ifs i).bssid else w
      (w.put i { w.ifs i with state := .down, bssid := zeroMac, ssid := zeroSsid }, 0)

end BrightS
