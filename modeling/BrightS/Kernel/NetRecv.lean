/-
The receive buffers of the sockets, as `kernel/net/net.c` stores them.

`Kernel/Net` keeps the bytes that wait in a socket as a list.  The code has an array and a
length, copies what arrives behind what is there, and moves the rest to the front after a
read.  Here are the two calls that datagrams go through with the arrays; the `recv` fields
of the sockets are not used.
-/
import BrightS.Kernel.Net

namespace BrightS

open Bytes

/-- The receive buffer of a socket. -/
structure RecvArray where
  recvBuf : Nat → Byte
  recvLen : Nat
  fits : recvLen ≤ recvBufSize

/-- `kutil_memcpy` to `dst`. -/
def copyTo (buf : Nat → Byte) (dst : Nat) (bytes : List Byte) : Nat → Byte :=
  fun o => if dst ≤ o ∧ o < dst + bytes.length then bytes.getD (o - dst) 0 else buf o

/-- The loop that moves `n` bytes down by `len`. -/
def shiftDown (buf : Nat → Byte) (len n : Nat) : Nat → Byte :=
  (List.range n).foldl (fun buf i => Function.update buf i (buf (i + len))) buf

/-- Copy the bytes of a payload behind those already there, as far as there is room. -/
def RecvArray.receive (a : RecvArray) (m : Mem) (payload len : Nat) : RecvArray where
  recvBuf := copyTo a.recvBuf a.recvLen (slice m payload (min len (recvBufSize - a.recvLen)))
  recvLen := a.recvLen + min len (recvBufSize - a.recvLen)
  fits := by
    have hfits := a.fits
    omega

/-- Remove the first `n` bytes. -/
def RecvArray.consume (a : RecvArray) (n : Nat) : RecvArray where
  recvBuf := if n < a.recvLen then shiftDown a.recvBuf n (a.recvLen - n) else a.recvBuf
  recvLen := a.recvLen - n
  fits := Nat.le_trans (Nat.sub_le _ _) a.fits

/-- The stack with the arrays beside it. -/
structure RecvNet where
  net : Net
  arrays : Nat → RecvArray

/-- Store a buffer. -/
def RecvNet.setArray (s : RecvNet) (i : Nat) (a : RecvArray) : RecvNet :=
  { s with arrays := Function.update s.arrays i a }

/-- The socket and the bytes that were copied into it come out too. -/
def udpHandleArray (s : RecvNet) (m : Mem) (data len : Nat) (srcIp : Ip) :
    RecvNet × Option (Nat × List Byte) :=
  if len < udpHdrSize then (s, none) else
  let udp := udpHdrAt m data
  match udpSocket s.net (swap16 udp.dstPort) with
  | none => (s, none)
  | some i =>
      let payloadLen := min (len - udpHdrSize) (recvBufSize - (s.arrays i).recvLen)
      if 0 < payloadLen then
        let a := (s.arrays i).receive m (data + udpHdrSize) (len - udpHdrSize)
        let sock :=
          { s.net.sockets i with remoteIp := srcIp, remotePort := swap16 udp.srcPort }
        ({ net := s.net.setSocket i sock, arrays := Function.update s.arrays i a },
          some (i, slice m (data + udpHdrSize) payloadLen))
      else (s, some (i, []))

/-- The bytes copied out, and the value returned. -/
def brightsRecvArray (s : RecvNet) (sockfd : Int) (len : Nat) : RecvNet × List Byte × Int :=
  match openSocket s.net sockfd with
  | none => (s, [], -1)
  | some i =>
      let a := s.arrays i
      if a.recvLen = 0 then (s, [], 0) else
      let n := min len a.recvLen
      (s.setArray i (a.consume n), slice a.recvBuf 0 n, (BitVec.ofNat 32 n).toInt)

end BrightS
