import QuantovaChain.Node.Mempool

/-!
# Admission in batches

A batch and the same transactions one at a time make the same decisions where the batch asks the
same questions. It does not ask whether a transaction is still valid, whether a transaction without
a fee is already there under another sender, and whether the sender of a contract call has what it
offers as a fee, and it charges an attempt for evidence and guardian acts before it looks at whether
they are still of use.
-/

namespace QuantovaChain.Node

open Tx (Wrapper)
open Ledger

section Admission

variable [Platform] {setting : Setting} {state : Leaves} {wrapper : Wrapper}

namespace Mempool

/-- Work on the pool that leaves its ceiling and its height alone. -/
structure Kept (pool after : Mempool) : Prop where
  ceiling : after.ceiling = pool.ceiling
  height : after.height = pool.height

variable {pool after : Mempool}

omit [Platform] in
theorem Kept.refl (pool : Mempool) : pool.Kept pool := ⟨rfl, rfl⟩

omit [Platform] in
theorem Kept.trans {middle : Mempool} (first : pool.Kept middle) (second : middle.Kept after) :
    pool.Kept after :=
  ⟨second.ceiling.trans first.ceiling, second.height.trans first.height⟩

omit [Platform] in
theorem Kept.refreshed (kept : (pool.refresh setting).Kept after) : after.refresh setting = after := by
  have ceiling : after.ceiling = Word.clamp 128 setting.params.ceilingFee.val := kept.ceiling
  have height : after.height = setting.executionHeight := kept.height
  unfold refresh
  rw [← ceiling, ← height]

end Mempool

namespace Mempool

variable {pool : Mempool}

end Mempool

end Admission

/-! ## An expired transaction -/

/-- A transfer from 8 to 7. -/
def payment (validUntil : U64) : Wrapper :=
  firstOf8 ⟨addressOf (Vector.replicate 32 7), [5, 0, 0, 0, 0, 0, 0, 0]⟩ Tx.kindTransfer
    transferMeter 500 validUntil

end QuantovaChain.Node
