/-
The commands of the shell that are about files and accounts, and `handle_line`, as
`kernel/lightshell.c` has them.

A line is a command and its argument.  The commands resolve paths against the current directory, and
say on the screen what has gone wrong.  The shell knows who is logged in; of these commands only
`useradd` is refused to everybody but root.

A command gets the shell and its argument and gives the shell after it and what it prints, and
`none` is a step that is undefined.  The commands about other things are a parameter of
`handleLine`: what they print and do to the shell.
-/
import BrightS.Kernel.Commands
import BrightS.Kernel.Lightshell
import BrightS.Kernel.Readdir
import BrightS.Kernel.Resolve

namespace BrightS

/-- The files, and the statics of the shell. -/
structure Shell where
  fs : Ramfs
  currentUser : List UInt8
  currentDir : CStr
  isRoot : Bool

/-- The shell after a command and what it printed. -/
abbrev Ran := Option (Shell × List UInt8)

/-- The bytes of a text. -/
def textOf (s : String) : List UInt8 := bytesOf s.toList

/-- The characters of a text. -/
def pathOf (s : String) : CStr := s.toList

/-- Nothing changes but what is on the screen. -/
def Shell.reply (s : Shell) (text : String) : Ran := some (s, textOf text)

/-! ### Arguments

Words are separated by spaces, and copied into buffers of a fixed size.
-/

def space : UInt8 := 32

/-- `skip_spaces`. -/
def skipSpaces (s : List UInt8) : List UInt8 := s.dropWhile (· = space)

/-- A word, cut off where its buffer ends. -/
def firstWord (cap : Nat) (s : List UInt8) : List UInt8 :=
  (s.takeWhile (· ≠ space)).take (cap - 1)

/-- What `find_space` finds. -/
def findSpace (s : List UInt8) : List UInt8 := s.dropWhile (· ≠ space)

/-- `parse_two_args`: two words and nothing behind them. -/
def parseTwoArgs (arg : List UInt8) (firstCap secondCap : Nat) :
    Option (List UInt8 × List UInt8) :=
  if firstCap ≤ 1 ∨ secondCap ≤ 1 then none else
  let arg := skipSpaces arg
  let first := firstWord firstCap arg
  let arg := skipSpaces (arg.drop first.length)
  let second := firstWord secondCap arg
  let arg := skipSpaces (arg.drop second.length)
  if first = [] ∨ second = [] ∨ arg ≠ [] then none else some (first, second)

/-- The buffer of the joined path has twice the room of a path. -/
def joinedMax : Nat := 2 * lightshellMaxPath - 1

/-- A relative path behind the current directory. -/
def joinDir (dir path : CStr) : CStr :=
  let joined := dir.take joinedMax
  let joined := if 1 < joined.length ∧ joined.getLast? ≠ some '/' then joined ++ ['/'] else joined
  joined ++ path.take (joinedMax - joined.length)

/-- `resolve_path`: the current directory itself, an absolute path, or a relative one. -/
def resolvePath (dir : CStr) (input : List UInt8) : Option CStr :=
  let path := charsOf (skipSpaces input)
  if path = [] then lightshellNormalize dir lightshellMaxPath
  else if path.head? = some '/' then lightshellNormalize path lightshellMaxPath
  else lightshellNormalize (joinDir dir path) lightshellMaxPath

/-- What is behind the last slash. -/
def pathBasename (path : CStr) (cap : Nat) : Option CStr :=
  let base := (path.splitOn '/').getLastD []
  if base = [] then if cap < 2 then none else some ['/']
  else if base.take (cap - 1) = [] then none else some (base.take (cap - 1))

/-- `is_direct_child`. -/
def shellIsDirectChild (parent path : CStr) : Bool :=
  if parent = ['/'] then
    path.head? == some '/' && path.tail != [] && !path.tail.contains '/'
  else
    parent.isPrefixOf path && path[parent.length]? == some '/' &&
      path.drop (parent.length + 1) != [] && !(path.drop (parent.length + 1)).contains '/'

/-! ### Printing

What the commands about files write.
-/

/-- `print_u64`. -/
def printU64 (v : Nat) : List UInt8 := bytesOf (Nat.toDigits 10 v)

/-- `print_hex8`. -/
def printHex8 (v : UInt8) : List UInt8 :=
  let h := pathOf "0123456789ABCDEF"
  bytesOf [h.getD (v.toNat / 16) '0', h.getD (v.toNat % 16) '0']

/-- An entry that is listed, and whether it has a slash or a size behind it. -/
def printEntry (base : CStr) (isDir : Bool) (size : Nat) : List UInt8 :=
  bytesOf base ++ if isDir = true then textOf "/\n" else textOf "  " ++ printU64 size ++ textOf "B\n"

/-- The loop of `cmd_ls` over the table. -/
def listDir (fs : Ramfs) (path : CStr) : List (List UInt8) :=
  (List.range ramfsMaxFiles).filterMap fun i =>
    match ramfsNameAt fs i with
    | none => none
    | some name =>
        if shellIsDirectChild path name = false then none else
        (pathBasename name lightshellMaxPath).map fun base =>
          printEntry base (ramfsIsDirFd fs i) (ramfsFileSize fs i)

/-- The bytes of a file, sixteen in a row. -/
def hexRows : Nat → List UInt8 → List UInt8
  | i, [] => if i % 16 ≠ 0 then [newline] else []
  | i, b :: rest =>
      printHex8 b ++ (if i % 16 = 15 then [newline] else [space]) ++ hexRows (i + 1) rest

/-! ### Commands about files

Each one checks its argument, resolves the path, and asks the RAM file system.
-/

/-- `cmd_pwd`. -/
def cmdPwd (s : Shell) : Ran := some (s, bytesOf s.currentDir ++ [newline])

/-- `cmd_ls`: a file is listed by itself. -/
def cmdLs (s : Shell) (arg : List UInt8) : Ran :=
  match resolvePath s.currentDir arg with
  | none => s.reply "invalid path\n"
  | some path =>
      match ramfsStat s.fs (some path) with
      | none => s.reply "not found\n"
      | some st =>
          if st.isDir = false then
            match pathBasename path lightshellMaxPath with
            | none => s.reply "invalid path\n"
            | some base => some (s, printEntry base false st.size)
          else
            let shown := listDir s.fs path
            if shown = [] then s.reply "(empty)\n" else some (s, shown.flatten)

/-- The lookup in front of `cat` and `hexdump`, which show the beginning of a file. -/
def showFile (usage : String) (room : Nat) (shows : List UInt8 → List UInt8) (s : Shell)
    (arg : List UInt8) : Ran :=
  let arg := skipSpaces arg
  if arg = [] then s.reply usage else
  match resolvePath s.currentDir arg with
  | none => s.reply "invalid path\n"
  | some path =>
      match ramfsOpen s.fs (some path) with
      | none => s.reply "not found\n"
      | some fd =>
          if ramfsIsDirFd s.fs fd = true then s.reply "is a directory\n" else
          let (n, buf) := ramfsRead s.fs fd 0 room
          if n ≤ 0 then s.reply "(empty)\n" else some (s, shows buf)

/-- `cmd_cat`: as far as the first null byte. -/
def cmdCat : Shell → List UInt8 → Ran :=
  showFile "usage: cat <name>\n" 256 fun buf => cStrOf buf ++ [newline]

/-- `cmd_hexdump`. -/
def cmdHexdump : Shell → List UInt8 → Ran := showFile "usage: hexdump <name>\n" 128 (hexRows 0)

/-- `cmd_stat`. -/
def cmdStat (s : Shell) (arg : List UInt8) : Ran :=
  let arg := skipSpaces arg
  if arg = [] then s.reply "usage: stat <name>\n" else
  match (resolvePath s.currentDir arg).bind fun path => ramfsStat s.fs (some path) with
  | none => s.reply "not found\n"
  | some st =>
      some (s, textOf "path=" ++ bytesOf st.path ++ textOf " type=" ++
        (if st.isDir = true then textOf "dir" else textOf "file") ++ textOf " size=" ++
        printU64 st.size ++ textOf "B\n")

/-- `cmd_touch`. -/
def cmdTouch (s : Shell) (arg : List UInt8) : Ran :=
  let arg := skipSpaces arg
  if arg = [] then s.reply "usage: touch <name>\n" else
  match resolvePath s.currentDir arg with
  | none => s.reply "invalid path\n"
  | some path =>
      match ramfsOpen s.fs (some path) with
      | some fd =>
          if ramfsIsDirFd s.fs fd = true then s.reply "is a directory\n" else s.reply "ok\n"
      | none =>
          let (fs, fd) := ramfsCreate s.fs (some path)
          if fd < 0 then s.reply "create failed\n" else { s with fs := fs }.reply "ok\n"

/-- `open`, or else `create`. -/
def openOrCreate (fs : Ramfs) (path : CStr) : Ramfs × Int :=
  match ramfsOpen fs (some path) with
  | some fd => (fs, fd)
  | none => ramfsCreate fs (some path)

/-- `cmd_write` and `cmd_append`, which put a text into a file from an offset on. -/
def putText (usage failed : String) (offset : Ramfs → Int → Nat) (s : Shell)
    (arg : List UInt8) : Ran :=
  let arg := skipSpaces arg
  if arg = [] then s.reply usage else
  let name := firstWord lightshellMaxPath arg
  let text := skipSpaces (arg.drop name.length)
  if name = [] ∨ text = [] then s.reply usage else
  match resolvePath s.currentDir name with
  | none => s.reply "invalid path\n"
  | some path =>
      let (fs, fd) := openOrCreate s.fs path
      if fd < 0 then { s with fs := fs }.reply "open/create failed\n"
      else if ramfsIsDirFd fs fd = true then { s with fs := fs }.reply "is a directory\n"
      else
        match ramfsWrite fs fd (offset fs fd) text with
        | none => none
        | some (fs, n) =>
            if n < 0 then { s with fs := fs }.reply failed else { s with fs := fs }.reply "ok\n"

/-- `cmd_write`: the rest of a longer file stays. -/
def cmdWrite : Shell → List UInt8 → Ran :=
  putText "usage: write <name> <text>\n" "write failed\n" fun _ _ => 0

/-- `cmd_append`. -/
def cmdAppend : Shell → List UInt8 → Ran :=
  putText "usage: append <name> <text>\n" "append failed\n" ramfsFileSize

/-- `cmd_rm`: a directory goes as well, if it is empty. -/
def cmdRm (s : Shell) (arg : List UInt8) : Ran :=
  let arg := skipSpaces arg
  if arg = [] then s.reply "usage: rm <name>\n" else
  match resolvePath s.currentDir arg with
  | none => s.reply "invalid path\n"
  | some path =>
      let (fs, ret) := ramfsUnlink s.fs (some path)
      if ret = 0 then { s with fs := fs }.reply "ok\n"
      else { s with fs := fs }.reply "remove failed\n"

/-- `cmd_rmdir`. -/
def cmdRmdir (s : Shell) (arg : List UInt8) : Ran :=
  let arg := skipSpaces arg
  if arg = [] then s.reply "usage: rmdir <path>\n" else
  match resolvePath s.currentDir arg with
  | none => s.reply "invalid path\n"
  | some path =>
      match ramfsStat s.fs (some path) with
      | none => s.reply "not found\n"
      | some st =>
          if st.isDir = false then s.reply "not a directory\n" else
          let (fs, ret) := ramfsUnlink s.fs (some path)
          if ret = 0 then { s with fs := fs }.reply "ok\n"
          else { s with fs := fs }.reply "rmdir failed\n"

/-- The checks in front of `cp` and `mv`, and what is done with two paths that pass them. -/
def withTwoPaths (usage failed : String) (act : Shell → CStr → CStr → Ran) (s : Shell)
    (arg : List UInt8) : Ran :=
  match parseTwoArgs arg lightshellMaxPath lightshellMaxPath with
  | none => s.reply usage
  | some (srcArg, dstArg) =>
      match resolvePath s.currentDir srcArg, resolvePath s.currentDir dstArg with
      | some src, some dst =>
          if src = dst then s.reply failed else
          match ramfsStat s.fs (some src) with
          | none => s.reply "not found\n"
          | some st => if st.isDir = true then s.reply "is a directory\n" else act s src dst
      | _, _ => s.reply "invalid path\n"

/-- `cmd_cp`. -/
def cmdCp : Shell → List UInt8 → Ran :=
  withTwoPaths "usage: cp <src> <dst>\n" "copy failed\n" fun s src dst =>
    match copyFilePath s.fs (some src) (some dst) with
    | none => none
    | some (fs, ret) =>
        if ret < 0 then { s with fs := fs }.reply "copy failed\n"
        else { s with fs := fs }.reply "ok\n"

/-- `cmd_mv`: a copy, and then the source is removed. -/
def cmdMv : Shell → List UInt8 → Ran :=
  withTwoPaths "usage: mv <src> <dst>\n" "move failed\n" fun s src dst =>
    match copyFilePath s.fs (some src) (some dst) with
    | none => none
    | some (fs, ret) =>
        if ret < 0 then { s with fs := fs }.reply "move failed\n" else
        let (fs, ret) := ramfsUnlink fs (some src)
        if ret < 0 then { s with fs := fs }.reply "move failed\n"
        else { s with fs := fs }.reply "ok\n"

/-- The home of root. -/
def homeOfRoot : CStr := pathOf "/usr/home/root"

/-- The home of everybody else, for `cd` without an argument. -/
def homeOfGuest : CStr := pathOf "/usr/home/guest"

/-- `cmd_cd`. -/
def cmdCd (s : Shell) (arg : List UInt8) : Ran :=
  let arg := skipSpaces arg
  if arg = [] then
    some ({ s with currentDir := if s.isRoot = true then homeOfRoot else homeOfGuest }, [])
  else
  match resolvePath s.currentDir arg with
  | none => s.reply "invalid path\n"
  | some path =>
      match ramfsStat s.fs (some path) with
      | none => s.reply "not a directory\n"
      | some st =>
          if st.isDir = false then s.reply "not a directory\n" else
          some ({ s with currentDir := path.take (lightshellMaxPath - 1) }, [])

/-- `cmd_mkdir`. -/
def cmdMkdir (s : Shell) (arg : List UInt8) : Ran :=
  let arg := skipSpaces arg
  if arg = [] then s.reply "usage: mkdir <path>\n" else
  match resolvePath s.currentDir arg with
  | none => s.reply "invalid path\n"
  | some path =>
      let (fs, ret) := ramfsMkdir s.fs (some path)
      if ret < 0 then { s with fs := fs }.reply "mkdir failed\n"
      else { s with fs := fs }.reply "ok\n"

/-- `cmd_echo`. -/
def cmdEcho (s : Shell) (arg : List UInt8) : Ran := some (s, skipSpaces arg ++ [newline])

/-! ### Commands about accounts

An account is a profile, a file below `/bin/config`.
-/

/-- The user that may add users. -/
def rootName : List UInt8 := textOf "root"

/-- The user after a logout. -/
def guestName : List UInt8 := textOf "guest"

/-- `cmd_whoami`. -/
def cmdWhoami (s : Shell) : Ran := some (s, s.currentUser ++ [newline])

/-- `cmd_profile`: the whole profile, with its password. -/
def cmdProfile (s : Shell) : Ran :=
  match pfRead s.fs s.currentUser lightshellMaxCfg with
  | none => s.reply "profile not found\n"
  | some cfg =>
      some (s, cfg ++ if cfg ≠ [] ∧ cfg.getLast? ≠ some newline then [newline] else [])

/-- `cmd_setpf`. -/
def cmdSetpf (s : Shell) (arg : List UInt8) : Ran :=
  let arg := skipSpaces arg
  let sp := findSpace arg
  if arg = [] ∨ sp = [] then s.reply "usage: setpf <hostname|avatar|email> <value>\n" else
  let key := arg.takeWhile (· ≠ space)
  if key.length = 0 ∨ 32 ≤ key.length then s.reply "invalid key\n" else
  let val := skipSpaces sp
  if val = [] then s.reply "invalid value\n" else
  match pfSetField s.fs s.currentUser key val with
  | none => none
  | some (fs, ret) =>
      if ret < 0 then { s with fs := fs }.reply "setpf failed\n"
      else { s with fs := fs }.reply "setpf ok\n"

/-- The user and the password that `login` and `useradd` take from their argument, or what they
print where there are none. -/
def parseAccount (usage : String) (arg : List UInt8) : Except String (List UInt8 × List UInt8) :=
  let arg := skipSpaces arg
  let sp := findSpace arg
  if arg = [] ∨ sp = [] then .error usage else
  let user := arg.takeWhile (· ≠ space)
  if user.length = 0 ∨ lightshellMaxUser ≤ user.length then .error "invalid user\n" else
  let pass := skipSpaces sp
  if pass = [] ∨ lightshellMaxPass ≤ pass.length then .error "invalid pass\n"
  else .ok (user, pass)

/-- The home of a user. -/
def homeOf (user : List UInt8) : CStr :=
  (pathOf "/usr/home/" ++ charsOf user).take (lightshellMaxPath - 1)

/-- `cmd_login`: the password of the profile is compared with the one given. -/
def cmdLogin (s : Shell) (arg : List UInt8) : Ran :=
  match parseAccount "usage: login <user> <pass>\n" arg with
  | .error text => s.reply text
  | .ok (user, pass) =>
      match pfGetPassword s.fs user lightshellMaxPass with
      | none => s.reply "login failed\n"
      | some expected =>
          if expected ≠ pass then s.reply "login failed\n" else
          let user := strCopy lightshellMaxUser user
          { s with
            currentUser := user
            isRoot := user = rootName
            currentDir := if user = rootName then homeOfRoot else homeOf user }.reply "login ok\n"

/-- `cmd_logout`. -/
def cmdLogout (s : Shell) : Ran :=
  { s with currentUser := guestName, currentDir := ['/'], isRoot := false }.reply "logout ok\n"

/-- `cmd_passwd`: the old password is not asked for. -/
def cmdPasswd (s : Shell) (arg : List UInt8) : Ran :=
  let arg := skipSpaces arg
  if arg = [] then s.reply "usage: passwd <newpass>\n" else
  match pfSetPassword s.fs s.currentUser arg with
  | none => none
  | some (fs, ret) =>
      if ret < 0 then { s with fs := fs }.reply "passwd failed\n"
      else { s with fs := fs }.reply "passwd ok\n"

/-- A directory that is made, or is there.  Where it cannot be made nothing has changed. -/
def seedDirectory (fs : Ramfs) (dir : CStr) : Option Ramfs :=
  let (fs, ret) := ramfsMkdir fs (some dir)
  if 0 ≤ ret then some fs else
  match ramfsStat fs (some dir) with
  | none => none
  | some st => if st.isDir = true then some fs else none

/-- The buffers have room: a user has less than 32 letters. -/
def seedUserConfigDir (fs : Ramfs) (user : List UInt8) : Option Ramfs :=
  seedDirectory fs (pathOf "/bin/config/" ++ charsOf user)

/-- Its result is not looked at. -/
def seedUserHome (fs : Ramfs) (user : List UInt8) : Option Ramfs :=
  let dir := pathOf "/usr/home/" ++ charsOf user
  match seedDirectory fs dir with
  | none => some fs
  | some fs =>
      let (fs, fd) := openOrCreate fs (dir ++ pathOf "/readme.txt")
      if fd < 0 then some fs
      else (ramfsWrite fs fd 0 (textOf "Welcome to your home\n")).map Prod.fst

/-- `cmd_useradd`: the profile is there before the home, whose failure is not noticed. -/
def cmdUseradd (s : Shell) (arg : List UInt8) : Ran :=
  if s.isRoot = false then s.reply "permission denied\n" else
  match parseAccount "usage: useradd <user> <pass>\n" arg with
  | .error text => s.reply text
  | .ok (user, pass) =>
      if ((userpfPath user 128).bind fun path => ramfsOpen s.fs (some path)).isSome then
        s.reply "user exists\n"
      else
        match seedUserConfigDir s.fs user with
        | none => s.reply "useradd failed\n"
        | some fs =>
            match pfWriteDefault fs user pass with
            | none => none
            | some (fs, ret) =>
                if ret < 0 then { s with fs := fs }.reply "useradd failed\n"
                else (seedUserHome fs user).bind fun fs => { s with fs := fs }.reply "useradd ok\n"

/-! ### A line

The first word is looked up in the table of commands.
-/

/-- What a command that is about other things does: what it prints, and what it leaves. -/
abbrev OtherCommands := Shell → Nat → List UInt8 → Shell × List UInt8

/-- The handler of an entry of the table. -/
def cmdHandler (others : OtherCommands) (s : Shell) (entry : Nat) (arg : List UInt8) : Ran :=
  match cmdNames[entry]? with
  | some "append" => cmdAppend s arg
  | some "cat" => cmdCat s arg
  | some "cd" => cmdCd s arg
  | some "cp" => cmdCp s arg
  | some "echo" => cmdEcho s arg
  | some "hexdump" => cmdHexdump s arg
  | some "login" => cmdLogin s arg
  | some "logout" => cmdLogout s
  | some "ls" => cmdLs s arg
  | some "mkdir" => cmdMkdir s arg
  | some "mv" => cmdMv s arg
  | some "passwd" => cmdPasswd s arg
  | some "profile" => cmdProfile s
  | some "pwd" => cmdPwd s
  | some "rm" => cmdRm s arg
  | some "rmdir" => cmdRmdir s arg
  | some "setpf" => cmdSetpf s arg
  | some "stat" => cmdStat s arg
  | some "touch" => cmdTouch s arg
  | some "useradd" => cmdUseradd s arg
  | some "whoami" => cmdWhoami s
  | some "write" => cmdWrite s arg
  | _ => some (others s entry arg)

/-- The name of a command has room for 31 letters; what is left of a longer one is its argument. -/
def handleLine (others : OtherCommands) (s : Shell) (line : List UInt8) : Ran :=
  let cmd := skipSpaces line
  if cmd = [] then some (s, []) else
  let name := firstWord 32 cmd
  match cmdFind name with
  | some entry => cmdHandler others s entry (skipSpaces (cmd.drop name.length))
  | none => s.reply "unknown command\n"

/-- `print_prompt`. -/
def shellPrompt (s : Shell) : List UInt8 :=
  textOf "\x1b[1;34m" ++ s.currentUser ++ textOf "@brights" ++ textOf "\x1b[0m" ++ textOf ":" ++
    textOf "\x1b[1;32m" ++ bytesOf s.currentDir ++ textOf "\x1b[0m" ++
    if s.isRoot = true then textOf "# " else textOf "$ "

end BrightS
