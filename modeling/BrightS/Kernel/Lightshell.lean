/-
The shell: copying a file and the user profile, `kernel/lightshell.c`.

A profile is a text of `key:value` lines under `/bin/config/USER/example.pf`, the password among
them.  It is read whole into a buffer, a field is looked for from the first line on, and a change
writes all of it again.

The strings of the shell are lists of bytes without a null byte; what it reads from a file ends at
the first one for everything that scans it.
-/
import BrightS.Kernel.Ramfs

namespace BrightS

def lightshellMaxLine : Nat := 256
def lightshellMaxUser : Nat := 32
def lightshellMaxPass : Nat := 64
def lightshellMaxCfg : Nat := 1024

/-! ### Copying

A file is copied in pieces of 256 bytes, into a file that is there or a new one.
-/

/-- The `while` loop of `copy_file_path`, for at most `fuel` rounds. -/
def copyFileLoop (srcFd dstFd : Int) (total : Nat) : Nat → Ramfs → Nat → Option (Ramfs × Int)
  | 0, fs, off => if off < total then none else some (fs, 0)
  | fuel + 1, fs, off =>
      if off < total then
        let (n, buf) := ramfsRead fs srcFd off 256
        if n ≤ 0 then some (fs, -1) else
        match ramfsWrite fs dstFd off buf with
        | none => none
        | some (fs, w) =>
            if w ≠ n then some (fs, -1) else copyFileLoop srcFd dstFd total fuel fs (off + n.toNat)
      else some (fs, 0)

/-- A round copies a byte at least, and `none` is an undefined write. -/
def copyFilePath (fs : Ramfs) (srcPath dstPath : Option CStr) : Option (Ramfs × Int) :=
  match ramfsOpen fs srcPath with
  | none => some (fs, -1)
  | some srcFd =>
      if ramfsIsDirFd fs srcFd = true then some (fs, -1) else
      match ramfsOpen fs dstPath with
      | some dstFd =>
          if ramfsIsDirFd fs dstFd = true then some (fs, -1) else
          copyFileLoop srcFd dstFd (ramfsFileSize fs srcFd) (ramfsFileSize fs srcFd) fs 0
      | none =>
          let (fs, dstFd) := ramfsCreate fs dstPath
          if dstFd < 0 then some (fs, -1) else
          copyFileLoop srcFd dstFd (ramfsFileSize fs srcFd) (ramfsFileSize fs srcFd) fs 0

/-! ### Strings

Buffers are lists of bytes here, cut where the source stops.
-/

/-- The string in a buffer. -/
def cStrOf (buf : List UInt8) : List UInt8 := buf.takeWhile (· ≠ 0)

/-- `str_copy` to a buffer of `cap` bytes. -/
def strCopy (cap : Nat) (src : List UInt8) : List UInt8 := src.take (cap - 1)

/-- The bytes of a literal. -/
def bytesOf (s : CStr) : List UInt8 := s.map fun c => UInt8.ofNat c.toNat

/-- The characters of a text, as paths have them. -/
def charsOf (s : List UInt8) : CStr := s.map fun b => Char.ofNat b.toNat

/-- The bytes that end a line and a key. -/
def newline : UInt8 := 10
def colon : UInt8 := 58

/-! ### The profile

A field is looked for line by line.  To change one, all of them are read, and the whole text is
written again.
-/

/-- `userpf_path`: the path of the profile; none for a name that is empty or too long. -/
def userpfPath (user : List UInt8) (cap : Nat) : Option CStr :=
  if user.length = 0 ∨ lightshellMaxUser ≤ user.length then none else
  let out := (['/', 'b', 'i', 'n', '/', 'c', 'o', 'n', 'f', 'i', 'g', '/'] ++ charsOf user ++
    ['/', 'e', 'x', 'a', 'm', 'p', 'l', 'e', '.', 'p', 'f']).take (cap - 1)
  if cap - 1 ≤ out.length then none else some out

/-- The string that is left in the buffer of `cap` bytes. -/
def pfRead (fs : Ramfs) (user : List UInt8) (cap : Nat) : Option (List UInt8) :=
  match userpfPath user 128 with
  | none => none
  | some path =>
      match ramfsOpen fs (some path) with
      | none => none
      | some fd =>
          let (n, buf) := ramfsRead fs fd 0 (cap - 1)
          if n < 0 then none else some (cStrOf buf)

/-- `pf_write`: the profile is written from its first byte on, and created if there is none.  A
longer text that was there before keeps its end. -/
def pfWrite (fs : Ramfs) (user content : List UInt8) : Option (Ramfs × Int) :=
  match userpfPath user 128 with
  | none => some (fs, -1)
  | some path =>
      match ramfsOpen fs (some path) with
      | some fd => (ramfsWrite fs fd 0 content).map fun r => (r.1, if 0 ≤ r.2 then 0 else -1)
      | none =>
          let (fs, fd) := ramfsCreate fs (some path)
          if fd < 0 then some (fs, -1) else
          (ramfsWrite fs fd 0 content).map fun r => (r.1, if 0 ≤ r.2 then 0 else -1)

/-- The value in this line, if it is one of this key and not empty. -/
def pfLineValue (key line : List UInt8) : Option (List UInt8) :=
  if line.length ≤ key.length + 1 then none else
  if line.take key.length ≠ key then none else
  if line.getD key.length 0 ≠ colon then none else some (line.drop (key.length + 1))

/-- The `while` loop of `pf_extract`, for at most `fuel` lines. -/
def pfExtractLoop (key : List UInt8) (outCap : Nat) : Nat → List UInt8 → Option (List UInt8)
  | 0, _ => none
  | fuel + 1, buf =>
      if buf = [] then none else
      match pfLineValue key (buf.takeWhile (· ≠ newline)) with
      | some value => some (value.take (outCap - 1))
      | none => pfExtractLoop key outCap fuel ((buf.dropWhile (· ≠ newline)).drop 1)

/-- A line takes a byte at least. -/
def pfExtract (buf key : List UInt8) (outCap : Nat) : Option (List UInt8) :=
  pfExtractLoop key outCap buf.length buf

/-- The keys of a profile, and below them the defaults of the fields. -/
def keyUsername : List UInt8 := bytesOf ['u', 's', 'e', 'r', 'n', 'a', 'm', 'e']
def keyHostname : List UInt8 := bytesOf ['h', 'o', 's', 't', 'n', 'a', 'm', 'e']
def keyAvatar : List UInt8 := bytesOf ['a', 'v', 'a', 't', 'a', 'r']
def keyEmail : List UInt8 := bytesOf ['e', 'm', 'a', 'i', 'l']
def keyPassword : List UInt8 := bytesOf ['p', 'a', 's', 's', 'w', 'o', 'r', 'd']

def defaultHost : List UInt8 := bytesOf ['b', 'r', 'i', 'g', 'h', 't', 's']
def defaultAvatar : List UInt8 := bytesOf ['"', 'd', 'e', 'f', 'a', 'u', 'l', 't', '"']
def defaultEmail : List UInt8 := bytesOf ['u', 's', 'e', 'r', '@', 'l', 'o', 'c', 'a', 'l']
def defaultPass : List UInt8 := bytesOf ['g', 'u', 'e', 's', 't']

/-- The sizes of the buffers for `host`, `avatar` and `email`. -/
def hostCap : Nat := 64
def avatarCap : Nat := 64
def emailCap : Nat := 128

/-- A line of a profile. -/
def pfLine (key value : List UInt8) : List UInt8 := key ++ colon :: value ++ [newline]

/-- The text that all writers of a profile compose. -/
def pfContent (uname host avatar email pass : List UInt8) : List UInt8 :=
  pfLine keyUsername uname ++ pfLine keyHostname host ++ pfLine keyAvatar avatar ++
    pfLine keyEmail email ++ pfLine keyPassword pass

/-- The text has to fit the buffer it is composed in. -/
def pfCompose (fs : Ramfs) (user uname host avatar email pass : List UInt8) :
    Option (Ramfs × Int) :=
  let out := pfContent uname host avatar email pass
  if lightshellMaxCfg ≤ out.length then none else pfWrite fs user out

/-- `pf_write_default`: the profile of a new user. -/
def pfWriteDefault (fs : Ramfs) (user pass : List UInt8) : Option (Ramfs × Int) :=
  pfCompose fs user user defaultHost defaultAvatar defaultEmail pass

/-- `pf_get_password`. -/
def pfGetPassword (fs : Ramfs) (user : List UInt8) (passCap : Nat) : Option (List UInt8) :=
  (pfRead fs user lightshellMaxCfg).bind fun cfg => pfExtract cfg keyPassword passCap

/-- The value of a key, or else the default. -/
def pfField (cfg key dflt : List UInt8) (cap : Nat) : List UInt8 :=
  (pfExtract cfg key cap).getD (strCopy cap dflt)

/-- `pf_set_password`: the profile is composed anew with this password. -/
def pfSetPassword (fs : Ramfs) (user newpass : List UInt8) : Option (Ramfs × Int) :=
  match pfRead fs user lightshellMaxCfg with
  | none => some (fs, -1)
  | some cfg =>
      let uname := pfField cfg keyUsername user lightshellMaxUser
      let host := pfField cfg keyHostname defaultHost hostCap
      let avatar := pfField cfg keyAvatar defaultAvatar avatarCap
      let email := pfField cfg keyEmail defaultEmail emailCap
      pfCompose fs user uname host avatar email newpass

/-- `pf_set_field`: of the fields, three can be set. -/
def pfSetField (fs : Ramfs) (user key value : List UInt8) : Option (Ramfs × Int) :=
  match pfRead fs user lightshellMaxCfg with
  | none => some (fs, -1)
  | some cfg =>
      let uname := pfField cfg keyUsername user lightshellMaxUser
      let host := pfField cfg keyHostname defaultHost hostCap
      let avatar := pfField cfg keyAvatar defaultAvatar avatarCap
      let email := pfField cfg keyEmail defaultEmail emailCap
      let pass := pfField cfg keyPassword defaultPass lightshellMaxPass
      if key = keyHostname then
        pfCompose fs user uname (strCopy hostCap value) avatar email pass
      else if key = keyAvatar then
        pfCompose fs user uname host (strCopy avatarCap value) email pass
      else if key = keyEmail then
        pfCompose fs user uname host avatar (strCopy emailCap value) pass
      else some (fs, -1)

end BrightS
