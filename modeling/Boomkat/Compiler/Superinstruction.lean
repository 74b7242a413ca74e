import Boomkat.Compiler.LivenessScan
import Boomkat.Foundation.PairRewrite

/-! Fusion of two neighbouring instructions into one that takes the second slot as its data
word: copies between globals, comparisons with a global, and chained property reads.
-/

namespace Boomkat.Compiler
open Boomkat.Foundation Boomkat.Bytecode

/-- `run_move_gg_fusion` at slot `i`. -/
def moveGgDecision (jumpTargets : List Bool) (code : List Instruction) (i : Nat)
    : Option (PairEdit Instruction) :=
  match code[i]?, code[i + 1]? with
  | some load, some store =>
      if load.op ≠ .getglobalPrim then none
      else if store.op ≠ .putglobalPrim then none
      else if store.a ≠ load.a then none
      else if jumpTargets[i + 1]?.getD false then none
      else if fusionRegLiveFrom code (i + 2) load.a.toNat then none
      else
        some
          {
            head := makeABc .moveGg 0 store.getBc
            slot := i + 1
            tail := makeABc .nop 0 load.getBc
          }
  | _, _ => none

/-- `run_jmp_lt_g_fusion` at slot `i`. -/
def jmpLtGDecision (jumpTargets : List Bool) (code : List Instruction) (i : Nat)
    : Option (PairEdit Instruction) :=
  match code[i]?, code[i + 1]? with
  | some load, some branch =>
      let target : Int := i + 2 + branch.icharA
      if load.op ≠ .getglobalPrim then none
      else if branch.op ≠ .jmpLt then none
      else if branch.c ≠ load.a then none
      else if branch.b = load.a then none
      else if jumpTargets[i + 1]?.getD false then none
      else if fusionRegLiveFrom code (i + 2) load.a.toNat then none
      else if target < 0 ∨ code.length ≤ target then none
      else if fusionRegLiveFrom code target.toNat load.a.toNat then none
      else
        some
          {
            head := makeAbc .jmpLtG (toUint branch.icharA) branch.b.toNat 0
            slot := i + 1
            tail := makeABc .nop 0 load.getBc
          }
  | _, _ => none

/-- `fuse_getpropc_chains` at slot `i`. The second word stays as it is. -/
def chainDecision (jumpTargets : List Bool) (code : List Instruction) (i : Nat)
    : Option (PairEdit Instruction) :=
  match code[i]?, code[i + 1]? with
  | some first, some second =>
      if first.op ≠ .getpropc then none
      else if second.op ≠ .getpropc then none
      else if first.a ≠ second.b then none
      else if jumpTargets[i + 1]?.getD false then none
      else
        some
          {
            head := makeAbc .getpropc2 first.a.toNat first.b.toNat first.c.toNat
            slot := i + 1
            tail := second
          }
  | _, _ => none

/-- The passes that make a two-word superinstruction. -/
inductive Superinstruction where
  | moveGg
  | jmpLtG
  | getpropc2
  deriving DecidableEq

/-- The opcode a pass makes. -/
def Superinstruction.op : Superinstruction → Opcode
  | .moveGg => .moveGg
  | .jmpLtG => .jmpLtG
  | .getpropc2 => .getpropc2

/-- The edit a pass makes at a slot. The chain pass steps over the data word it made. -/
def Superinstruction.edits (made : Superinstruction) (code : List Instruction)
    : Nat → Option (PairEdit Instruction) :=
  match made with
  | .moveGg => editAt (moveGgDecision (buildJumpTargets code)) code
  | .jmpLtG => editAt (jmpLtGDecision (buildJumpTargets code)) code
  | .getpropc2 => skipEditAt (chainDecision (buildJumpTargets code)) code

/-- `run_move_gg_fusion`, `run_jmp_lt_g_fusion` and `fuse_getpropc_chains` under the guards
of `finish`. The chain pass also runs with optimization disabled.
-/
def Superinstruction.pass (made : Superinstruction) (disableOptimize hasWide : Bool)
    (code : List Instruction) : List Instruction :=
  match made with
  | .moveGg =>
      if !disableOptimize && !hasWide && 2 ≤ code.length then
        rewritePairs (moveGgDecision (buildJumpTargets code)) code
      else code
  | .jmpLtG =>
      if !disableOptimize && !hasWide && 2 ≤ code.length then
        rewritePairs (jmpLtGDecision (buildJumpTargets code)) code
      else code
  | .getpropc2 =>
      if !hasWide && 2 ≤ code.length then
        rewriteSkipping (chainDecision (buildJumpTargets code)) code
      else code

-----------------------------------------------------------------------------------------
-- What the decisions say
-----------------------------------------------------------------------------------------

theorem moveGgDecision_spec {jumpTargets : List Bool} {code : List Instruction} {i : Nat}
    {edit : PairEdit Instruction} (decided : moveGgDecision jumpTargets code i = some edit)
    : ∃ load store, code[i]? = some load ∧ code[i + 1]? = some store
      ∧ load.op = .getglobalPrim ∧ store.op = .putglobalPrim ∧ store.a = load.a
      ∧ jumpTargets[i + 1]?.getD false = false
      ∧ fusionRegLiveFrom code (i + 2) load.a.toNat = false
      ∧ edit
        = {
            head := makeABc .moveGg 0 store.getBc
            slot := i + 1
            tail := makeABc .nop 0 load.getBc
          } := by
  unfold moveGgDecision at decided
  split at decided
  · rename_i load store loadEq storeEq
    simp only [Option.ite_none_left_eq_some, ne_eq, Decidable.not_not, Bool.not_eq_true,
      Option.some.injEq] at decided
    obtain ⟨isLoad, isStore, same, noTarget, dead, made⟩ := decided
    exact ⟨load, store, loadEq, storeEq, isLoad, isStore, same, noTarget, dead, made.symm⟩
  · cases decided

theorem jmpLtGDecision_spec {jumpTargets : List Bool} {code : List Instruction} {i : Nat}
    {edit : PairEdit Instruction} (decided : jmpLtGDecision jumpTargets code i = some edit)
    : ∃ load branch, code[i]? = some load ∧ code[i + 1]? = some branch
      ∧ load.op = .getglobalPrim ∧ branch.op = .jmpLt ∧ branch.c = load.a ∧ branch.b ≠ load.a
      ∧ jumpTargets[i + 1]?.getD false = false
      ∧ fusionRegLiveFrom code (i + 2) load.a.toNat = false
      ∧ 0 ≤ i + 2 + branch.icharA
      ∧ fusionRegLiveFrom code (i + 2 + branch.icharA).toNat load.a.toNat = false
      ∧ edit
        = {
            head := makeAbc .jmpLtG (toUint branch.icharA) branch.b.toNat 0
            slot := i + 1
            tail := makeABc .nop 0 load.getBc
          } := by
  unfold jmpLtGDecision at decided
  split at decided
  · rename_i load branch loadEq branchEq
    simp only [Option.ite_none_left_eq_some, ne_eq, Decidable.not_not, Bool.not_eq_true,
      Option.some.injEq, not_or, not_lt, not_le] at decided
    obtain ⟨isLoad, isBranch, right, left, noTarget, dead, inside, dead', made⟩ := decided
    exact ⟨load, branch, loadEq, branchEq, isLoad, isBranch, right, left, noTarget, dead,
      inside.1, dead', made.symm⟩
  · cases decided

theorem chainDecision_spec {jumpTargets : List Bool} {code : List Instruction} {i : Nat}
    {edit : PairEdit Instruction} (decided : chainDecision jumpTargets code i = some edit)
    : ∃ first second, code[i]? = some first ∧ code[i + 1]? = some second
      ∧ first.op = .getpropc ∧ second.op = .getpropc ∧ first.a = second.b
      ∧ jumpTargets[i + 1]?.getD false = false
      ∧ edit
        = {
            head := makeAbc .getpropc2 first.a.toNat first.b.toNat first.c.toNat
            slot := i + 1
            tail := second
          } := by
  unfold chainDecision at decided
  split at decided
  · rename_i first second firstEq secondEq
    simp only [Option.ite_none_left_eq_some, ne_eq, Decidable.not_not, Bool.not_eq_true,
      Option.some.injEq] at decided
    obtain ⟨isFirst, isSecond, same, noTarget, made⟩ := decided
    exact ⟨first, second, firstEq, secondEq, isFirst, isSecond, same, noTarget, made.symm⟩
  · cases decided

-----------------------------------------------------------------------------------------
-- The edits of a pass
-----------------------------------------------------------------------------------------

/-- The global copies start at a load that no other word of a pair is. -/
theorem moveGgDecision_pairs (jumpTargets : List Bool)
    : PairDecision (moveGgDecision jumpTargets) (fun word => word.op = .getglobalPrim) := by
  refine ⟨?_, ?_, ?_, ?_⟩
  · intro code i edit decided
    obtain ⟨load, _, loadEq, _, isLoad, _⟩ := moveGgDecision_spec decided
    exact ⟨load, loadEq, isLoad⟩
  · intro code i edit decided
    obtain ⟨_, _, _, storeEq, _, _, _, _, _, rfl⟩ := moveGgDecision_spec decided
    exact ⟨Nat.lt_succ_self i, (List.getElem?_eq_some_iff.mp storeEq).1⟩
  · intro code i edit decided j word low high wordEq isLoad
    obtain ⟨_, store, _, storeEq, _, isStore, _, _, _, rfl⟩ := moveGgDecision_spec decided
    obtain rfl : j = i + 1 := Nat.le_antisymm high low
    obtain rfl : store = word := by simpa [storeEq] using wordEq
    simp [isStore] at isLoad
  · intro code i edit decided
    obtain ⟨_, _, _, _, _, _, _, _, _, rfl⟩ := moveGgDecision_spec decided
    simp [makeABc, makeAbc]

/-- The comparisons with a global start at a load that no other word of a pair is. -/
theorem jmpLtGDecision_pairs (jumpTargets : List Bool)
    : PairDecision (jmpLtGDecision jumpTargets) (fun word => word.op = .getglobalPrim) := by
  refine ⟨?_, ?_, ?_, ?_⟩
  · intro code i edit decided
    obtain ⟨load, _, loadEq, _, isLoad, _⟩ := jmpLtGDecision_spec decided
    exact ⟨load, loadEq, isLoad⟩
  · intro code i edit decided
    obtain ⟨_, _, _, branchEq, _, _, _, _, _, _, _, _, rfl⟩ := jmpLtGDecision_spec decided
    exact ⟨Nat.lt_succ_self i, (List.getElem?_eq_some_iff.mp branchEq).1⟩
  · intro code i edit decided j word low high wordEq isLoad
    obtain ⟨_, branch, _, branchEq, _, isBranch, _, _, _, _, _, _, rfl⟩ :=
      jmpLtGDecision_spec decided
    obtain rfl : j = i + 1 := Nat.le_antisymm high low
    obtain rfl : branch = word := by simpa [branchEq] using wordEq
    simp [isBranch] at isLoad
  · intro code i edit decided
    obtain ⟨_, _, _, _, _, _, _, _, _, _, _, _, rfl⟩ := jmpLtGDecision_spec decided
    simp [makeABc, makeAbc]

/-- The later slot of a chain lies inside the code. -/
theorem chainDecision_later (jumpTargets : List Bool) (code : List Instruction) (i : Nat)
    (edit : PairEdit Instruction) (decided : chainDecision jumpTargets code i = some edit)
    : i < edit.slot ∧ edit.slot < code.length := by
  obtain ⟨_, _, _, secondEq, _, _, _, _, rfl⟩ := chainDecision_spec decided
  exact ⟨Nat.lt_succ_self i, (List.getElem?_eq_some_iff.mp secondEq).1⟩

end Boomkat.Compiler
