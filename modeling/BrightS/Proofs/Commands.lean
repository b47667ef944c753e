/-
Which commands the shell finds.

`cmd_find` returns no entry of another name, but the table is not sorted: `netget` stands before
`mv`, and the last entries were appended.  Eleven names are not found (`cmdFind_iff`).
-/
import BrightS.Kernel.Commands
import BrightS.Proofs.Strings

namespace BrightS

/-- The names at which the search goes to the wrong side. -/
def cmdMissed : List (List UInt8) := List.map (fun name => bytesOf name.toList)
  ["netget", "useradd", "whoami", "wifi", "write", "free", "uptime", "ping", "history", "sleep",
    "env"]

section

variable {table : List (List UInt8)} {name a b : List UInt8} {fuel k : Nat} {lo hi : Int}

/-- More rounds than there are entries change nothing. -/
theorem cmdFindLoop_fuel (hfuel : (hi + 1 - lo).toNat < fuel) :
    cmdFindLoop table name (fuel + 1) lo hi = cmdFindLoop table name fuel lo hi := by
  induction fuel generalizing lo hi with
  | zero => exact absurd hfuel (Nat.not_lt_zero _)
  | succ fuel ih =>
      rw [cmdFindLoop, cmdFindLoop]
      by_cases hle : lo ≤ hi
      · rw [if_pos hle, if_pos hle]
        dsimp only
        have hupper : cmdFindLoop table name (fuel + 1) ((lo + hi) / 2 + 1) hi =
            cmdFindLoop table name fuel ((lo + hi) / 2 + 1) hi := ih (by omega)
        have hlower : cmdFindLoop table name (fuel + 1) lo ((lo + hi) / 2 - 1) =
            cmdFindLoop table name fuel lo ((lo + hi) / 2 - 1) := ih (by omega)
        rw [hupper, hlower]
      · rw [if_neg hle, if_neg hle]

/-- What is found has the name. -/
theorem cmdFindLoop_some (hlo : 0 ≤ lo) (hhi : hi < table.length)
    (hfind : cmdFindLoop table name fuel lo hi = some k) :
    k < table.length ∧ cStrOf (table.getD k []) = cStrOf name := by
  induction fuel generalizing lo hi with
  | zero => exact absurd hfind (by simp [cmdFindLoop])
  | succ fuel ih =>
      rw [cmdFindLoop] at hfind
      dsimp only at hfind
      split_ifs at hfind with hle heq hless
      · obtain rfl : ((lo + hi) / 2).toNat = k := Option.some.inj hfind
        exact ⟨by omega, kutilStrcmp_eq_zero.mp heq⟩
      · exact ih (by omega) hhi hfind
      · exact ih hlo (by omega) hfind

/-- Only the string counts, not what stands behind it. -/
theorem kutilStrcmp_cStrOf : kutilStrcmp a (cStrOf b) = kutilStrcmp a b := by
  induction b generalizing a with
  | nil => rfl
  | cons d b ih =>
      by_cases hd : d = 0
      · subst hd
        rw [cStrOf_zero]
        cases a <;> simp [kutilStrcmp]
      · rw [cStrOf_cons hd]
        cases a with
        | nil => rfl
        | cons c a =>
            rw [kutilStrcmp, kutilStrcmp, ih]

theorem cmdFindLoop_cStrOf :
    cmdFindLoop table (cStrOf name) fuel lo hi = cmdFindLoop table name fuel lo hi := by
  induction fuel generalizing lo hi with
  | zero => rfl
  | succ fuel ih =>
      rw [cmdFindLoop, cmdFindLoop]
      dsimp only
      rw [kutilStrcmp_cStrOf, ih, ih]

end

/-! ### The table -/

/-- The names of the table, where each is found, and that those that are not are among them. -/
theorem cmdTable_found :
    (∀ k, k < cmdTable.length → cStrOf (cmdTable.getD k []) = cmdTable.getD k []) ∧
    (∀ k, k < cmdTable.length → cmdFind (cmdTable.getD k []) =
      if cmdTable.getD k [] ∈ cmdMissed then none else some k) ∧
    ∀ name ∈ cmdMissed, name ∈ cmdTable := by
  refine ⟨?_, ?_, ?_⟩
  · decide +kernel
  · decide +kernel
  · decide +kernel

theorem cmdFind_some {name : List UInt8} {k : Nat} (hfind : cmdFind name = some k) :
    cmdTable[k]? = some (cStrOf name) := by
  obtain ⟨hk, hname⟩ := cmdFindLoop_some (le_refl 0) (by unfold cmdCount; omega) hfind
  rw [cmdTable_found.1 k hk] at hname
  rw [← hname, List.getD_eq_getElem?_getD, List.getElem?_eq_getElem hk]
  rfl

/-- The entry of a name, as the search sees it. -/
theorem cmdFind_of_entry {name : List UInt8} {k : Nat} (hk : cmdTable[k]? = some (cStrOf name)) :
    cmdFind name = if cStrOf name ∈ cmdMissed then none else some k := by
  have hlt : k < cmdTable.length := (List.getElem?_eq_some_iff.mp hk).1
  have hentry : cmdTable.getD k [] = cStrOf name := by
    rw [List.getD_eq_getElem?_getD, hk]
    rfl
  have hfind := cmdTable_found.2.1 k hlt
  rw [hentry] at hfind
  exact cmdFindLoop_cStrOf.symm.trans hfind

/-- **The search finds the entry of a name and nothing else, unless the name is one of those it
misses.** -/
theorem cmdFind_iff (name : List UInt8) :
    (∀ k, cmdFind name = some k ↔ cmdTable[k]? = some (cStrOf name)) ↔
      cStrOf name ∉ cmdMissed := by
  constructor
  · intro hall hmissed
    obtain ⟨k, hk⟩ := List.getElem?_of_mem (cmdTable_found.2.2 _ hmissed)
    have hfind := (hall k).mpr hk
    rw [cmdFind_of_entry hk, if_pos hmissed] at hfind
    exact absurd hfind (by simp)
  · intro hfound k
    refine ⟨cmdFind_some, fun hk => ?_⟩
    rw [cmdFind_of_entry hk, if_neg hfound]

/-- `wifi` is the entry 33, and not found. -/
theorem cmdFind_misses_wifi :
    ¬ ∀ k, cmdFind (bytesOf ['w', 'i', 'f', 'i']) = some k ↔
      cmdTable[k]? = some (cStrOf (bytesOf ['w', 'i', 'f', 'i'])) := by
  intro hall
  have hnone : cmdFind (bytesOf ['w', 'i', 'f', 'i']) = none := by decide +kernel
  have hentry := (hall 33).mpr (by decide +kernel)
  rw [hnone] at hentry
  exact absurd hentry (by simp)

end BrightS
