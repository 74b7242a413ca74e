import Boomkat.Correctness.ChainFusion
import Boomkat.Correctness.GlobalFusion
import Boomkat.Machine.Primitive

/-! The passes that make superinstructions keep their data words sealed, and keep every run
that reads no dropped write behind the back of their scans and executes each pair where its
fused form does the same.
-/

namespace Boomkat.Correctness
open Boomkat.Foundation Boomkat.Bytecode Boomkat.Machine Boomkat.Compiler

variable {W : Type} {rt : Runtime W} {code : List Instruction}

/-- The passes fuse pairs. -/
theorem superinstruction_fuses (rt : Runtime W) {made : Superinstruction}
    {code' : List Instruction} (shape : StreamShape code)
    (noChains : made = .getpropc2 → ∀ word ∈ code, word.op ≠ .getpropc2)
    (edited : EditedCode code (made.edits code) code')
    : PairFusion rt code code' (made.edits code) (superDrops made code)
        (fun frame => (made.edits code frame.pc).isSome → PairSound rt made code frame) := by
  refine ⟨superinstruction_pairs made noChains, superinstruction_adjacent, edited, ?_⟩
  intro dropped frame image edit decided matched harmless
  have sound := (harmless 0).sound frame rfl (by simp [decided])
  cases made with
  | moveGg =>
      exact ⟨1, 0, Nat.le_refl 1, Nat.zero_le 1,
        moveGg_fused shape edited decided matched sound⟩
  | jmpLtG =>
      exact ⟨1, 0, Nat.le_refl 1, Nat.zero_le 1,
        jmpLtG_fused shape edited decided matched sound (harmless 1)⟩
  | getpropc2 =>
      obtain ⟨a, near, again⟩ :=
        getpropc2_fused shape (noChains rfl) edited decided matched sound (harmless 0)
      exact ⟨a, 0, near, Nat.zero_le 1, again⟩

/-- The scans made for a pair have examined no read of a register whose write is dropped. -/
theorem DroppedAt.unexamined {made : Superinstruction} {dropped : List DroppedWrite}
    (known : DroppedAt (W := W) (superDrops made code) dropped) {write : DroppedWrite}
    (mem : write ∈ dropped) (pc : Nat)
    : pairScanExamines made code (pairHead made code write.slot) write.reg pc = false := by
  cases made with
  | moveGg =>
      obtain ⟨action, listed⟩ := known write mem
      simp only [superDrops] at listed
      split_ifs at listed with pair
      · rw [List.mem_singleton] at listed
        unfold pairHead
        cases head : Superinstruction.moveGg.edits code write.slot with
        | some edit =>
            obtain ⟨load, _, words, _, _, _, dead, _⟩ := moveGg_edits head
            simpa [listed, regA, words.first] using dead pc
        | none =>
            simp only [head, isSecond, Option.isSome_none, Bool.false_or, Bool.and_eq_true,
              decide_eq_true_eq] at pair
            obtain ⟨⟨after, isTail⟩, _⟩ := pair
            obtain ⟨edit, decided⟩ := Option.isSome_iff_exists.mp isTail
            obtain ⟨load, _, words, _, _, same, dead, _⟩ := moveGg_edits decided
            have second := words.second
            rw [Nat.sub_add_cancel after] at second
            simpa [listed, regA, second, same] using dead pc
      · simp at listed
  | jmpLtG =>
      obtain ⟨edit, decided, reg⟩ := known.trigger mem
      obtain ⟨load, _, words, _, _, _, _, dead, _⟩ := jmpLtG_edits decided
      simpa [pairHead, decided, reg, regA, words.first] using dead pc
  | getpropc2 => rfl

/-- A state whose reads are seen is harmless. -/
theorem PairReadsSeen.harmless {made : Superinstruction} {state : Tracked W}
    (seen : PairReadsSeen rt made code state)
    (known : DroppedAt (W := W) (superDrops made code) state.dropped)
    : PairHarmless rt code (made.edits code) (superDrops made code)
        (fun frame => (made.edits code frame.pc).isSome → PairSound rt made code frame)
        state := by
  refine ⟨known, ?_, ?_⟩
  · intro frame running write mem read
    simp only [PairReadsSeen, running] at seen
    rcases seen.1 write mem read with ⟨decided, here⟩ | examined
    · obtain ⟨edit, decided⟩ := Option.isSome_iff_exists.mp decided
      exact ⟨edit, decided, here.trans (superinstruction_adjacent decided).symm⟩
    · rw [known.unexamined mem frame.pc] at examined
      cases examined
  · intro frame running
    simp only [PairReadsSeen, running] at seen
    exact seen.2

/-- `return x.length.b` with `x` in register 0. -/
def readTwice : List Instruction :=
  [makeAbc .getpropc 1 0 0, makeAbc .getpropc 2 1 1, makeAbc .ret 2 0 0]

/-- The names that `readTwice` reads. -/
def chainNames : List Value := [.string "length", .string "b"]

end Boomkat.Correctness
