import Boomkat.Correctness.DroppedWrites
import Boomkat.Foundation.PairRewrite

/-! Pairs of slots that control enters at the first one only, and passes that blank the
first instruction of such pairs and rewrite the second.
-/

namespace Boomkat.Correctness
open Boomkat.Foundation Boomkat.Bytecode Boomkat.Machine Boomkat.Compiler

variable {W : Type} {rt : Runtime W} {code code' : List Instruction}
  {edits : Nat → Option (PairEdit Instruction)}

/-- The layout the code emitter keeps: no WIDE prefix where its flag is clear, a placeholder
after each opcode that owns a data word, and three jumps after a fused iterator step.
-/
structure StreamShape (code : List Instruction) : Prop where
  noWide : ∀ (i : Nat) (word : Instruction), code[i]? = some word → word.op ≠ .wide
  data : ∀ (i : Nat) (word slot : Instruction), code[i]? = some word →
    ownsDataWord word.op = true → code[i + 1]? = some slot →
    slot.op = if word.op = .getpropc2 then .getpropc else .nop
  iterJumps : ∀ (i : Nat) (word slot : Instruction), code[i]? = some word →
    word.op = .iterNextFast → ∀ k, 1 ≤ k → k ≤ 3 → code[i + k]? = some slot → slot.op = .jump

/-- Code without prefixes, data words and fused iterator steps has the emitter's layout. -/
theorem streamShape_of_plain
    (plain : ∀ word ∈ code, word.op ≠ .wide ∧ ownsDataWord word.op = false
      ∧ word.op ≠ .iterNextFast)
    : StreamShape code := by
  have known := fun (i : Nat) (word : Instruction) (slot : code[i]? = some word) =>
    plain word (List.mem_of_getElem? slot)
  refine ⟨fun i word slot => (known i word slot).1, ?_, ?_⟩
  · intro i word _ slot owns
    rw [(known i word slot).2.1] at owns
    cases owns
  · intro i word _ slot iter
    exact absurd iter (known i word slot).2.2

/-- A slot, a later one, and NOPs between them, none of which but the first is a target. -/
structure SealedPair (code : List Instruction) (i k : Nat) : Prop where
  order : i < k
  inside : k < code.length
  head : ∀ word, code[i]? = some word →
    word.op ≠ .nop ∧ word.op ≠ .jump ∧ ownsDataWord word.op = false
      ∧ (word.op = .getpropc → ∀ other ∈ code, other.op ≠ .getpropc2)
  between : ∀ (j : Nat) (word : Instruction), i < j → j < k → code[j]? = some word →
    word.op = .nop
  tail : ∀ word, code[k]? = some word → word.op ≠ .jump ∧ word.op ≠ .endfinally
  noTarget : ∀ j, i < j → j ≤ k → isJumpTarget code j = false

/-- The first slot of a sealed pair is no data word.
Witness: a data word is a NOP, or the key word of a chained read.
-/
theorem SealedPair.noData {i k : Nat} (pair : SealedPair code i k) (shape : StreamShape code)
    {pc : Nat} {word : Instruction} (fetched : code[pc]? = some word)
    (owns : ownsDataWord word.op = true)
    : pc + 1 ≠ i := by
  rintro rfl
  have inside : pc + 1 < code.length := pair.order.trans pair.inside
  have slotEq : code[pc + 1]? = some code[pc + 1] := List.getElem?_eq_getElem inside
  have data := shape.data pc word _ fetched owns slotEq
  obtain ⟨notNop, _, _, noChain⟩ := pair.head _ slotEq
  split at data
  · rename_i chained
    exact noChain data word (List.mem_of_getElem? fetched) chained
  · exact notNop data

/-- Control reaches a slot of a sealed pair from the slot before it only.
Witness: a skipped word would be a data word or a jump, which the pair does not hold.
-/
theorem SealedPair.entered {i k : Nat} (pair : SealedPair code i k) (shape : StreamShape code)
    {pc j : Nat} {word : Instruction} (fetched : code[pc]? = some word)
    (successor : Successor code word.op pc j) (after : i < j) (upTo : j ≤ k)
    : pc + 1 = j := by
  have inside : j < code.length := by have := pair.inside; omega
  obtain ⟨last, lastEq⟩ : ∃ last, code[j]? = some last :=
    ⟨code[j], List.getElem?_eq_getElem inside⟩
  have lastOp : last.op ≠ .jump ∧ last.op ≠ .endfinally := by
    rcases Nat.lt_or_eq_of_le upTo with earlier | rfl
    · simp [pair.between j last after earlier lastEq]
    · exact pair.tail last lastEq
  rcases successor with next | ⟨owns, rfl⟩ | ⟨iter, rfl | rfl⟩ | arrives
  · exact next.symm
  · -- The word before `j` would be a data word, so the pair's first slot lies before it.
    have apart := pair.noData shape fetched owns
    rcases Nat.lt_or_eq_of_le (show i ≤ pc by omega) with between | rfl
    · have nop := pair.between pc word between (by omega) fetched
      simp [nop, ownsDataWord] at owns
    · simp [(pair.head word fetched).2.2.1] at owns
  · obtain ⟨slot, slotEq⟩ : ∃ slot, code[pc + 1]? = some slot :=
      ⟨code[pc + 1], List.getElem?_eq_getElem (by omega)⟩
    have jump := shape.iterJumps pc word slot fetched iter 1 (by omega) (by omega) slotEq
    rcases Nat.lt_or_eq_of_le (Nat.lt_succ_iff.mp after) with between | rfl
    · have := pair.between (pc + 1) slot between (by omega) slotEq
      simp [this] at jump
    · exact absurd jump (pair.head slot slotEq).2.1
  · exact absurd (shape.iterJumps pc word last fetched iter 3 (by omega) (by omega) lastEq)
      lastOp.1
  · rcases arrives with zero | outside | target | ⟨marker, markerEq, isEnd⟩
    · omega
    · omega
    · simp [pair.noTarget j after upTo] at target
    · obtain rfl : last = marker := by simpa [lastEq] using markerEq
      exact absurd isEnd lastOp.2

-----------------------------------------------------------------------------------------
-- The rewritten code
-----------------------------------------------------------------------------------------

/-- The rewritten code differs from the original at the edited slots only. -/
structure EditedCode (code : List Instruction) (edits : Nat → Option (PairEdit Instruction))
    (code' : List Instruction) : Prop where
  length : code'.length = code.length
  edited : ∀ {i edit}, edits i = some edit →
    code'[i]? = some edit.head ∧ code'[edit.slot]? = some edit.tail
  kept : ∀ {s}, (∀ i edit, edits i = some edit → i ≠ s ∧ edit.slot ≠ s) → code'[s]? = code[s]?

/-- A pass of pair decisions edits the code where it decides to. -/
theorem editedCode_rewritePairs
    {decision : List Instruction → Nat → Option (PairEdit Instruction)}
    {IsHead : Instruction → Prop} (rule : PairDecision decision IsHead)
    (code : List Instruction)
    : EditedCode code (editAt decision code) (rewritePairs decision code) := by
  have done := editedBefore_rewritten rule code code.length
  refine ⟨done.length, ?_, ?_⟩
  · intro i edit decided
    obtain ⟨order, inside⟩ := editAt_inside rule decided
    exact done.edited (by omega) decided
  · intro s free
    exact done.kept fun i edit _ decided => free i edit decided

/-- Edits of disjoint sealed pairs that leave the exception markers alone. -/
structure PairEdits (code : List Instruction) (edits : Nat → Option (PairEdit Instruction))
    : Prop where
  pair : ∀ {i edit}, edits i = some edit → SealedPair code i edit.slot
  disjoint : ∀ {i j edit edit'}, edits i = some edit → edits j = some edit' → i < j →
    edit.slot < j
  unmarked : ∀ {i edit}, edits i = some edit →
    marksFinally edit.head.op = false ∧ marksFinally edit.tail.op = false
      ∧ ∀ word, code[i]? = some word ∨ code[edit.slot]? = some word →
        marksFinally word.op = false

/-- The writes dropped by a pass that removes the write of the first word of each pair. -/
def triggerDrops (edits : Nat → Option (PairEdit Instruction)) (reg : Nat → Nat)
    (slot : Nat) (action : Action W) : List Nat :=
  if (edits slot).isSome ∧ reg slot ∈ writtenBy action then [reg slot] else []

/-- A dropped write is one to the register of a trigger. -/
theorem DroppedAt.trigger {reg : Nat → Nat} {dropped : List DroppedWrite}
    (known : DroppedAt (W := W) (triggerDrops edits reg) dropped) {write : DroppedWrite}
    (mem : write ∈ dropped)
    : ∃ edit, edits write.slot = some edit ∧ write.reg = reg write.slot := by
  obtain ⟨action, listed⟩ := known write mem
  unfold triggerDrops at listed
  split at listed
  · rename_i trigger
    obtain ⟨edit, decided⟩ := Option.isSome_iff_exists.mp trigger.1
    exact ⟨edit, decided, by simpa using listed⟩
  · simp at listed

/-- Edits leave the scan for the end of a finally block alone. -/
theorem EditedCode.skeleton (pairs : PairEdits code edits)
    (edited : EditedCode code edits code')
    : SameSkeleton code code' := by
  refine ⟨edited.length, ?_⟩
  intro s word word' slot slot'
  by_cases touched : ∃ i edit, edits i = some edit ∧ (i = s ∨ edit.slot = s)
  · right
    obtain ⟨i, edit, decided, rfl | rfl⟩ := touched
    · obtain ⟨head, _, old⟩ := pairs.unmarked decided
      have new : word' = edit.head := by
        simpa [(edited.edited decided).1] using slot'.symm
      exact ⟨old word (.inl slot), new ▸ head⟩
    · obtain ⟨_, tail, old⟩ := pairs.unmarked decided
      have new : word' = edit.tail := by
        simpa [(edited.edited decided).2] using slot'.symm
      exact ⟨old word (.inr slot), new ▸ tail⟩
  · left
    have kept : code'[s]? = code[s]? := edited.kept fun i edit decided =>
      ⟨fun same => touched ⟨i, edit, decided, .inl same⟩,
        fun same => touched ⟨i, edit, decided, .inr same⟩⟩
    simpa [slot, slot'] using kept

/-- A word that is not edited keeps the data word it owns. -/
theorem EditedCode.data (pairs : PairEdits code edits)
    (shape : StreamShape code) (edited : EditedCode code edits code') {pc : Nat}
    {word : Instruction} (fetched : code[pc]? = some word)
    (owns : ownsDataWord word.op = true)
    : code'[pc + 1]? = code[pc + 1]? := by
  apply edited.kept
  intro i edit decided
  have pair := pairs.pair decided
  constructor
  · exact (pair.noData shape fetched owns).symm
  · intro last
    rcases Nat.lt_or_eq_of_le (show i ≤ pc by have := pair.order; omega) with between | rfl
    · have nop := pair.between pc word between (by omega) fetched
      simp [nop, ownsDataWord] at owns
    · simp [(pair.head word fetched).2.2.1] at owns

end Boomkat.Correctness
