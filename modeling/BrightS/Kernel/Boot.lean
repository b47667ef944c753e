/-
What is put into the file system when the kernel starts, as `kernel/fs/vfs.c` has it.

`brights_vfs_init` writes a fixed list of directories and files to an empty table, and
`brights_vfs_mount_external` the state of the system disk.  Both ignore what the calls return: a
file that finds no entry is not there afterwards, and nobody notices.

The texts of the programs below `/bin` are a parameter: they are long, and nothing asks what is in
them.
-/
import BrightS.Kernel.Shell

namespace BrightS

/-- `seed_file`: the file is created unless it is there, and its first bytes are the content. -/
def seedFile (fs : Ramfs) (path : CStr) (content : List UInt8) : Option Ramfs :=
  let (fs, fd) := openOrCreate fs path
  if fd < 0 then some fs else (ramfsWrite fs fd 0 content).map Prod.fst

/-- `seed_dir`: a directory that is there already is left alone. -/
def seedDir (fs : Ramfs) (path : CStr) : Ramfs :=
  if (ramfsStat fs (some path)).isSome then fs else (ramfsMkdir fs (some path)).1

/-- A directory or a file that is put there, with the path and the text of the source. -/
inductive Seed where
  | dir (path : String)
  | file (path : String) (content : String)

/-- The path as the file system gets it. -/
def Seed.path : Seed → CStr
  | .dir path => pathOf path
  | .file path _ => pathOf path

/-- One seed is put there; none is a write that is undefined. -/
def Seed.run (fs : Ramfs) : Seed → Option Ramfs
  | .dir path => some (seedDir fs (pathOf path))
  | .file path content => seedFile fs (pathOf path) (textOf content)

/-- The directories, a parent before what is in it. -/
def vfsDirs : List Seed :=
  [.dir "/sys",
   .dir "/usr", .dir "/usr/home", .dir "/usr/home/root", .dir "/usr/home/guest",
   .dir "/bin", .dir "/bin/pkg", .dir "/bin/config", .dir "/bin/config/root",
   .dir "/bin/config/guest", .dir "/bin/firmware", .dir "/bin/runtime", .dir "/bin/runtime/rust",
   .dir "/bin/runtime/c", .dir "/bin/runtime/python",
   .dir "/mnt", .dir "/mnt/drive", .dir "/mnt/input", .dir "/mnt/input/keyboard",
   .dir "/mnt/input/mouse", .dir "/mnt/input/touchpad", .dir "/mnt/input/camera",
   .dir "/mnt/input/biometric", .dir "/mnt/output",
   .dir "/tmp", .dir "/swp", .dir "/dev"]

/-- The files that the kernel and the login read. -/
def vfsConfigs : List Seed :=
  [.file "/sys/init.rc" "echo BrightS userspace init\n",
   .file "/sys/profile" "USER=guest\nHOME=/usr/home\n",
   .file "/bin/config/root/example.pf"
     "username:root\nhostname:brights\navatar:\"default\"\nemail:root@local\npassword:root\n",
   .file "/bin/config/guest/example.pf"
     "username:guest\nhostname:brights\navatar:\"default\"\nemail:guest@local\npassword:guest\n",
   .file "/usr/home/readme.txt" "Welcome to /usr/home\n"]

/-- The texts and the packages, in the order in which they are written. -/
def vfsTexts (program : String → String) : List Seed :=
  [.file "/usr/home/notes.txt" "",
   .file "/usr/home/root/readme.txt" "Home of root\n",
   .file "/usr/home/guest/readme.txt" "Home of guest\n",
   .file "/sys/readme.txt" "BrightS kernel core files\n",
   .file "/bin/readme.txt" "Software packages directory\n",
   .file "/bin/pkg/readme.txt" "Installed packages\n",
   .file "/bin/config/readme.txt" "User software configurations\n",
   .file "/bin/firmware/readme.txt" "Firmware packages\n",
   .file "/bin/runtime/readme.txt" "Runtime environments and compilers\n",
   .file "/bin/runtime/rust/readme.txt" (program "/bin/runtime/rust/readme.txt"),
   .file "/bin/runtime/c/readme.txt" (program "/bin/runtime/c/readme.txt"),
   .file "/bin/runtime/python/readme.txt" (program "/bin/runtime/python/readme.txt"),
   .file "/bin/runtime/rust/rustc" (program "/bin/runtime/rust/rustc"),
   .file "/bin/runtime/rust/cargo" (program "/bin/runtime/rust/cargo"),
   .file "/bin/runtime/rust/rustup" (program "/bin/runtime/rust/rustup"),
   .file "/bin/runtime/c/gcc" (program "/bin/runtime/c/gcc"),
   .file "/bin/runtime/c/clang" (program "/bin/runtime/c/clang"),
   .file "/bin/runtime/c/make" (program "/bin/runtime/c/make"),
   .file "/bin/runtime/c/gdb" (program "/bin/runtime/c/gdb"),
   .file "/bin/runtime/python/python3" (program "/bin/runtime/python/python3"),
   .file "/bin/runtime/python/pip" (program "/bin/runtime/python/pip"),
   .file "/bin/runtime/python/pip3" (program "/bin/runtime/python/pip3"),
   .file "/bin/runtime/python/venv" (program "/bin/runtime/python/venv"),
   .file "/bin/pkg/bspm" (program "/bin/pkg/bspm"),
   .dir "/bin/pkg/.db",
   .file "/bin/pkg/readme.txt" (program "/bin/pkg/readme.txt"),
   .file "/mnt/readme.txt" "Mount points directory\n",
   .file "/mnt/drive/readme.txt" "Mobile disk mounts\n",
   .file "/mnt/input/readme.txt" "Input devices\n",
   .file "/mnt/input/keyboard/readme.txt" "Keyboard device\n",
   .file "/mnt/input/mouse/readme.txt" "Mouse device\n",
   .file "/mnt/input/touchpad/readme.txt" "Touchpad device\n",
   .file "/mnt/input/camera/readme.txt" "Camera device\n",
   .file "/mnt/input/biometric/readme.txt" "Biometric input device\n",
   .file "/mnt/output/readme.txt" "Output devices\n",
   .file "/tmp/readme.txt" "Temporary cache files\n",
   .file "/swp/readme.txt" "Swap partition area\n"]

/-- The seeds, one after the other. -/
def runSeeds (fs : Ramfs) (seeds : List Seed) : Option Ramfs := seeds.foldlM Seed.run fs

/-- `brights_vfs_init`: an empty table, and then the three lists. -/
def vfsInit (program : String → String) (fs : Ramfs) : Option Ramfs :=
  runSeeds (ramfsInit fs) (vfsDirs ++ vfsConfigs ++ vfsTexts program)

/-- What `brights_vfs_mount_external` puts below `/mnt/drive`, when `brights_btrfs_mount` has given
`rc`. -/
def vfsMountTexts (rc : Int) (backend : Option String) : List Seed :=
  let backend := match backend with
    | none => "unknown"
    | some name => if name = "" then "unknown" else name
  [.file "/mnt/drive/.mounted" (if rc = 0 then "1\n" else "0\n"),
   .file "/mnt/drive/fs" (if rc = 0 then "btrfs\n" else "none\n"),
   .file "/mnt/drive/role" "system\n",
   .file "/mnt/drive/backend" backend,
   .file "/mnt/drive/readme.txt"
     (if rc = 0 then "System disk is mounted with Btrfs.\n"
      else "System disk mount failed (Btrfs required).\n")]

/-- `brights_vfs_mount_external`, once the mount has been tried. -/
def vfsMountExternal (rc : Int) (backend : Option String) (fs : Ramfs) : Option Ramfs :=
  runSeeds fs (vfsMountTexts rc backend)

end BrightS
