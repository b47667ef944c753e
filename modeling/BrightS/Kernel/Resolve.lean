/-
Path resolution of a process, `kernel/proc.c`, and path normalisation of the shell,
`kernel/lightshell.c`.

A path with a slash in front is normalised as it is.  A relative path is first put behind the
working directory, in a buffer that has room for 254 characters and a terminator; what does
not fit is not copied.
-/
import BrightS.Kernel.Proc
import BrightS.Kernel.Path

namespace BrightS

def procCombinedMax : Nat := 254

/-- The working directory, a slash where one is missing, and the path. -/
def combinePath (cwd path : CStr) : CStr :=
  let combined := cwd.take procCombinedMax
  let combined :=
    if combined ≠ [] ∧ combined.getLast? ≠ some '/' ∧ path ≠ [] ∧
        combined.length < procCombinedMax then combined ++ ['/']
    else combined
  combined ++ path.take (procCombinedMax - combined.length)

/-- `cwd` is the working directory of the current process. -/
def procResolvePath (cwd path : CStr) (cap : Nat) : Option CStr :=
  if cap < 2 then none else
  if path.head? = some '/' then normalizePath 63 cap path
  else normalizePath 63 cap (combinePath cwd path)

def lightshellMaxPath : Nat := 128

/-- `path_normalize` of the shell. -/
def lightshellNormalize (path : CStr) (cap : Nat) : Option CStr :=
  normalizePath (lightshellMaxPath - 1) cap path

end BrightS
