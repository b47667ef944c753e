/-
The pool of open files.

That an entry is in use is recorded twice, in the bitmap and in the entry, and a file is
returned to the pool by a pointer from which its index is computed.  The two records agree after
every run of the calls (`filePool_runs`), whoever closes or frees what, and how often.
-/
import BrightS.Proofs.Files

namespace BrightS

open Words

/-- A pointer to an entry of the pool, or null. -/
abbrev PoolPtr := { f : Nat // f ≤ vfsFilePoolSize }

inductive PoolCall where
  | alloc
  | free (f : PoolPtr)
  | close (f : PoolPtr)
  /-- Whoever has a file writes its other fields. -/
  | fill (f : PoolPtr) (file : VfsFile)

def FilePool.next (p : FilePool) : PoolCall → FilePool
  | .alloc => (vfs2FileAlloc p).1
  | .free f => vfs2FileFree p f
  | .close f => (vfs2Close p f).1
  | .fill f file =>
      if f.val = 0 then p else
      let file := { file with inUse := (p.filePool (f.val - 1)).inUse }
      { p with filePool := Function.update p.filePool (f.val - 1) file }

/-- The pool after the calls, made in order. -/
def FilePool.after (p : FilePool) (calls : List PoolCall) : FilePool := calls.foldl FilePool.next p

variable {p : FilePool}

theorem agrees_filePoolInit (p : FilePool) : (filePoolInit p).Agrees := by
  intro k _
  exact bitTest_zero k

theorem FilePool.Agrees.next (hp : p.Agrees) (c : PoolCall) : (p.next c).Agrees := by
  cases c with
  | alloc =>
      rcases vfs2FileAlloc_cases hp with ⟨-, heq⟩ | ⟨k, -, -, -, hagrees, -⟩
      · rw [FilePool.next, heq]
        exact hp
      · exact hagrees
  | free f =>
      by_cases hnull : f.val = 0
      · rw [FilePool.next, hnull]
        exact hp
      · exact (vfs2FileFree_spec hp hnull f.property).1
  | close f => exact (vfs2Close_spec hp f.property).1
  | fill f file =>
      unfold FilePool.next
      dsimp only
      split_ifs with hnull
      · exact hp
      · intro k hk
        refine (hp k hk).trans ?_
        dsimp only
        by_cases heq : k = f.val - 1
        · rw [heq, Function.update_self]
        · rw [Function.update_of_ne heq]

theorem FilePool.Agrees.after (hp : p.Agrees) (calls : List PoolCall) :
    (p.after calls).Agrees := by
  induction calls generalizing p with
  | nil => exact hp
  | cons c rest ih => exact ih (hp.next c)

/-- **After every run the two records agree.  What is given out was not in use and is empty, and
nothing is given out exactly when all entries are in use.** -/
theorem filePool_runs (p : FilePool) (calls : List PoolCall) :
    let q := (filePoolInit p).after calls
    q.Agrees ∧
      ((vfs2FileAlloc q).2 = 0 ↔ ∀ k, k < vfsFilePoolSize → (q.filePool k).inUse = true) ∧
      ∀ k, (vfs2FileAlloc q).2 = k + 1 →
        k < vfsFilePoolSize ∧ (q.filePool k).inUse = false ∧
          (vfs2FileAlloc q).1.filePool k =
            { inUse := true, pos := 0, flags := 0, inode := 0, fops := 0, privateData := 0 } := by
  intro q
  have hq : q.Agrees := (agrees_filePoolInit p).after calls
  refine ⟨hq, vfs2FileAlloc_full.trans ?_, fun k hk => ?_⟩
  · exact forall₂_congr fun k hk => by rw [hq k hk]
  · rcases vfs2FileAlloc_cases hq with ⟨-, heq⟩ | ⟨j, hj, hfree, hret, -, hnew, -⟩
    · rw [heq] at hk
      exact absurd hk (Nat.succ_ne_zero k).symm
    · obtain rfl : j = k := Nat.succ.inj (hret.symm.trans hk)
      exact ⟨hj, (hq j hj).symm.trans hfree, hnew⟩

end BrightS
