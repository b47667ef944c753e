/-
The loop over the elements of a beacon: the part of `wifi_handle_beacon` in `kernel/net/wifi.c`
that `wifiElements` describes on lists, with its pointer, its counter and its accesses.

`none` is a read outside the body of the frame, a write outside the array of the SSID, or a loop
that has not come to its end.
-/
import BrightS.Kernel.Wifi
import BrightS.Lib.Records

namespace BrightS

open Bytes Records

/-- The local variables before the loop. -/
def noInfo : BeaconInfo := { ssid := zeroSsid, channel := 0, wpa := false, rsn := false }

/-- The case distinction on an element at `p`, with its data behind the two bytes. -/
def beaconElement (body : List Byte) (p : Nat) (id : Byte) (elen : Nat) (info : BeaconInfo) :
    Option BeaconInfo :=
  if id = elemidSsid ∧ elen ≤ wifiMaxSsidLen then
    (fetch body.length (p + 2) elen ((body.drop (p + 2)).take elen)).bind fun edata =>
    if elen < info.ssid.length then
      some { info with ssid := edata ++ 0 :: info.ssid.drop (elen + 1) }
    else none
  else if id = elemidDs ∧ 1 ≤ elen then
    (fetch body.length (p + 2) 1 (body.getD (p + 2) 0)).map fun channel =>
    { info with channel := channel }
  else if id = elemidRsn then some { info with rsn := true }
  else if id = elemidVendor ∧ 4 ≤ elen then
    (fetch body.length (p + 2) 4 ((body.drop (p + 2)).take 4)).map fun oui =>
    if oui = [0, 0x50, 0xF2, 1] then { info with wpa := true } else info
  else some info

/-- The loop, for at most `fuel` rounds. -/
def beaconLoop (body : List Byte) : Nat → Nat → Nat → BeaconInfo → Option BeaconInfo
  | 0, _, _, _ => none
  | fuel + 1, p, remaining, info =>
      if remaining < 2 then some info else
      (fetch body.length p 1 (body.getD p 0)).bind fun id =>
      (fetch body.length (p + 1) 1 (body.getD (p + 1) 0)).bind fun elen =>
      if remaining < 2 + elen.toNat then some info else
      (beaconElement body p id elen.toNat info).bind fun info =>
      beaconLoop body fuel (p + (2 + elen.toNat)) (remaining - (2 + elen.toNat)) info

end BrightS
