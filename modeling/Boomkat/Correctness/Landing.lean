import Boomkat.Compiler.JumpTargets

/-! Where an instruction can leave the program counter. A slot is entered from the slot
before it, past a data word, or through a target that the jump-target bitset marks.
-/

namespace Boomkat.Correctness
open Boomkat.Bytecode Boomkat.Machine Boomkat.Compiler

variable {W : Type} {rt : Runtime W} {code : List Instruction}

/-- A slot that control can reach without passing the slot before it: the entry, a slot
outside the code, a marked target, or the end of a finally block.
-/
def Arrival (code : List Instruction) (slot : Nat) : Prop :=
  slot = 0 ∨ code.length ≤ slot ∨ isJumpTarget code slot = true
    ∨ ∃ word, code[slot]? = some word ∧ word.op = .endfinally

/-- Every slot a catcher can transfer control to is an arrival. -/
structure CatcherLands (code : List Instruction) (cat : Catcher) : Prop where
  catchPc : Arrival code cat.catchPc
  finallyPc : ∀ pc, cat.finallyPc = some pc → Arrival code pc
  endfinallyPc : ∀ pc, cat.endfinallyPc = some pc → Arrival code pc
  pendingPc : Arrival code cat.pendingPc

/-- A chain of catchers all of whose transfers are arrivals. -/
def ChainLands (code : List Instruction) (catchers : List Catcher) : Prop :=
  ∀ cat ∈ catchers, CatcherLands code cat

/-- Opcodes that own the word after them. -/
def ownsDataWord (op : Opcode) : Bool :=
  op = .try_ || op = .moveGg || op = .jmpLtG || op = .getpropc2

/-- The slots an instruction can continue at. -/
def Successor (code : List Instruction) (op : Opcode) (pc succ : Nat) : Prop :=
  succ = pc + 1 ∨ (ownsDataWord op = true ∧ succ = pc + 2)
    ∨ (op = .iterNextFast ∧ (succ = pc + 2 ∨ succ = pc + 3)) ∨ Arrival code succ

-----------------------------------------------------------------------------------------
-- Arrivals
-----------------------------------------------------------------------------------------

/-- The target of an offset from an existing slot is an arrival.
Witness: a target before the code is clamped to the entry.
-/
theorem arrival_of_slotTarget {i slot : Nat} {tgt : Int} (target : tgt ∈ slotTargets code i)
    (clamped : slot = tgt.toNat)
    : Arrival code slot := by
  have inside : i < code.length := by
    by_contra outside
    simp [slotTargets, List.getElem?_eq_none (Nat.not_lt.mp outside)] at target
  by_cases negative : tgt ≤ 0
  · exact .inl (by omega)
  · by_cases last : code.length ≤ slot
    · exact .inr (.inl last)
    · refine .inr (.inr (.inl ((isJumpTarget_iff code slot).mpr ⟨by omega, i, inside, ?_⟩)))
      have same : (slot : Int) = tgt := by omega
      rwa [same]

/-- The end of a finally block that the interpreter's scan finds is an arrival. -/
theorem endfinallyFrom_op {fuel p depth pc : Nat}
    (found : endfinallyFrom code fuel p depth = some pc)
    : ∃ word, code[pc]? = some word ∧ word.op = .endfinally := by
  induction fuel generalizing p depth with
  | zero => simp [endfinallyFrom] at found
  | succ fuel ih =>
      unfold endfinallyFrom at found
      cases slot : code[p]? with
      | none => simp [slot] at found
      | some word =>
          simp only [slot] at found
          split at found
          · exact ih found
          · exact ih found
          · rename_i isEnd
            split at found
            · cases found
              exact ⟨word, slot, isEnd⟩
            · exact ih found
          · exact ih found

-----------------------------------------------------------------------------------------
-- Transfers through the catcher chain
-----------------------------------------------------------------------------------------

/-- A transfer that continues at `next` or at an arrival and keeps the chain's promise. -/
def TransferLands (code : List Instruction) (next : Nat) : Transfer → Prop
  | .goto pc catchers => (pc = next ∨ Arrival code pc) ∧ ChainLands code catchers
  | _ => True

theorem ChainLands.tail {cat : Catcher} {catchers : List Catcher}
    (lands : ChainLands code (cat :: catchers))
    : ChainLands code catchers :=
  fun c mem => lands c (List.mem_cons_of_mem cat mem)

theorem ChainLands.cons {cat : Catcher} {catchers : List Catcher}
    (head : CatcherLands code cat) (lands : ChainLands code catchers)
    : ChainLands code (cat :: catchers) := by
  intro c mem
  rcases List.mem_cons.mp mem with rfl | mem
  · exact head
  · exact lands c mem

theorem ChainLands.append {front catchers : List Catcher} (first : ChainLands code front)
    (lands : ChainLands code catchers)
    : ChainLands code (front ++ catchers) := by
  intro c mem
  rcases List.mem_append.mp mem with mem | mem
  · exact first c mem
  · exact lands c mem

/-- A throw lands at a handler of the chain. -/
theorem throwSearch_lands {uncatchable : Bool} {thrown : Value} {skipped chain : List Catcher}
    (passed : ChainLands code skipped) (lands : ChainLands code chain) (next : Nat)
    : TransferLands code next (throwSearch uncatchable thrown skipped chain) := by
  induction chain generalizing skipped with
  | nil => trivial
  | cons cat parents ih =>
      have here : CatcherLands code cat := lands cat (List.mem_cons_self ..)
      unfold throwSearch
      split
      · refine ⟨.inr here.catchPc, ChainLands.cons ?_ lands.tail⟩
        exact ⟨here.catchPc, here.finallyPc, here.endfinallyPc, here.pendingPc⟩
      · split
        · split
          · rename_i pc target
            refine ⟨.inr (here.finallyPc pc target), passed.append (.cons ?_ lands.tail)⟩
            exact ⟨here.catchPc, here.finallyPc, here.endfinallyPc, here.pendingPc⟩
          · trivial
        · split
          · exact ih (fun c mem => by simp at mem) lands.tail
          · refine ih (passed.append (.cons here ?_)) lands.tail
            exact fun c mem => by simp at mem

/-- A return lands at a finally block, at its end, or at the next slot. -/
theorem returnThrough_lands {value : Value} {fromGenerator : Bool} {next : Nat}
    {chain : List Catcher} (lands : ChainLands code chain)
    : TransferLands code next (returnThrough value fromGenerator next chain) := by
  have rest : ChainLands code (unlinkToFinally chain) :=
    fun c mem => lands c ((List.dropWhile_sublist _).subset mem)
  unfold returnThrough
  cases unlinked : unlinkToFinally chain with
  | nil => trivial
  | cons cat parents =>
      rw [unlinked] at rest
      have here : CatcherLands code cat := rest cat (List.mem_cons_self ..)
      have saved : ∀ changed : Catcher, changed.catchPc = cat.catchPc →
          changed.finallyPc = cat.finallyPc → changed.endfinallyPc = cat.endfinallyPc →
          changed.pendingPc = cat.pendingPc → ChainLands code (changed :: parents) := by
        intro changed catchPc finallyPc endfinallyPc pendingPc
        refine .cons ⟨?_, ?_, ?_, ?_⟩ rest.tail
        · exact catchPc ▸ here.catchPc
        · exact finallyPc ▸ here.finallyPc
        · exact endfinallyPc ▸ here.endfinallyPc
        · exact pendingPc ▸ here.pendingPc
      simp only
      split
      · split
        · split
          · rename_i pc target
            exact ⟨.inr (here.finallyPc pc target), saved _ rfl rfl rfl rfl⟩
          · trivial
        · refine ⟨?_, saved _ rfl rfl rfl rfl⟩
          cases last : cat.endfinallyPc with
          | none => exact .inl rfl
          | some pc => exact .inr (here.endfinallyPc pc last)
      · split
        · rename_i pc _ last
          exact ⟨.inr (here.endfinallyPc pc last), saved _ rfl rfl rfl rfl⟩
        · exact ⟨.inl rfl, saved _ rfl rfl rfl rfl⟩

/-- A break lands at its target or at a finally block that remembers the target. -/
theorem breakThrough_lands {isBreak : Bool} {target : Nat} {chain : List Catcher}
    (arrives : Arrival code target) (lands : ChainLands code chain) (next : Nat)
    : TransferLands code next (breakThrough isBreak target chain) := by
  have rest : ChainLands code
      (if (chain.head?.map (·.inFinally)).getD false then chain.tail else chain) := by
    split
    · exact fun c mem => lands c (List.mem_of_mem_tail mem)
    · exact lands
  unfold breakThrough
  simp only
  split
  · exact ⟨.inr arrives, fun c mem => by simp at mem⟩
  · rename_i cat parents chainEq
    rw [chainEq] at rest
    have here : CatcherLands code cat := rest cat (List.mem_cons_self ..)
    split
    · rename_i pc _ finallyEq
      refine ⟨.inr (here.finallyPc pc finallyEq), .cons ?_ rest.tail⟩
      exact ⟨here.catchPc, here.finallyPc, here.endfinallyPc, arrives⟩
    · exact ⟨.inr arrives, chainEq ▸ rest⟩

/-- What a finally block resumes lands at the next slot or at an arrival, and a rethrow starts
from a chain that keeps its promise.
-/
def FinallyEndLands (code : List Instruction) (next : Nat) : FinallyEnd → Prop
  | .transfer transfer => TransferLands code next transfer
  | .completed _ => True
  | .rethrow _ catchers => ChainLands code catchers

theorem resumeReturn_lands (cat : Catcher) {next : Nat} {parents : List Catcher}
    (lands : ChainLands code parents)
    : FinallyEndLands code next (resumeReturn cat next parents) := by
  unfold resumeReturn
  cases parents with
  | nil => trivial
  | cons outer rest =>
      have here : CatcherLands code outer := lands outer (List.mem_cons_self ..)
      simp only
      split
      · rename_i pc _ finallyEq
        refine ⟨?_, .cons ?_ lands.tail⟩
        · cases outer.inFinally with
          | true => exact .inl rfl
          | false => exact .inr (here.finallyPc pc finallyEq)
        · exact ⟨here.catchPc, here.finallyPc, here.endfinallyPc, here.pendingPc⟩
      · trivial

theorem resumeBreak_lands {cat : Catcher} (next : Nat) {parents : List Catcher}
    (pending : Arrival code cat.pendingPc) (lands : ChainLands code parents)
    : FinallyEndLands code next (resumeBreak cat parents) := by
  unfold resumeBreak
  cases parents with
  | nil => exact ⟨.inr pending, lands⟩
  | cons outer rest =>
      have here : CatcherLands code outer := lands outer (List.mem_cons_self ..)
      simp only
      split
      · rename_i pc _ finallyEq
        refine ⟨.inr (here.finallyPc pc finallyEq), .cons ?_ lands.tail⟩
        exact ⟨here.catchPc, here.finallyPc, here.endfinallyPc, pending⟩
      · exact ⟨.inr pending, lands⟩

theorem endFinally_lands (next : Nat) {chain : List Catcher} (lands : ChainLands code chain)
    : FinallyEndLands code next (endFinally next chain) := by
  unfold endFinally
  cases chain with
  | nil => exact ⟨.inl rfl, lands⟩
  | cons cat parents =>
      simp only
      split
      · exact ⟨.inl rfl, lands⟩
      · split
        · exact resumeReturn_lands cat lands.tail
        · split
          · exact resumeBreak_lands next (lands cat (List.mem_cons_self ..)).pendingPc lands.tail
          · split
            · exact lands.tail
            · exact ⟨.inl rfl, lands.tail⟩

-----------------------------------------------------------------------------------------
-- Actions
-----------------------------------------------------------------------------------------

/-- An action that continues at a successor of its slot with a chain that keeps its promise. -/
def ActionLands (code : List Instruction) (op : Opcode) (pc : Nat) : Action W → Prop
  | .go _ succ catchers _ => Successor code op pc succ ∧ ChainLands code catchers
  | .halt _ => True

theorem TransferLands.act {op : Opcode} {pc next : Nat} {transfer : Transfer}
    (lands : TransferLands code next transfer) (falls : Successor code op pc next)
    (writes : List (Nat × Value)) (world : W) (leave : Ending W)
    : ActionLands code op pc (transfer.act writes world leave) := by
  cases transfer with
  | goto succ catchers =>
      obtain ⟨rfl | arrives, chain⟩ := lands
      · exact ⟨falls, chain⟩
      · exact ⟨.inr (.inr (.inr arrives)), chain⟩
  | leave => trivial
  | crash => trivial

theorem raise_lands {op : Opcode} {catchers : List Catcher} (lands : ChainLands code catchers)
    (pc : Nat) (writes : List (Nat × Value)) (thrown : Value) (world : W)
    : ActionLands code op pc (rt.raise writes thrown catchers world) :=
  (throwSearch_lands (fun c mem => by simp at mem) lands (pc + 1)).act (.inl rfl) writes world _

theorem store_lands {op : Opcode} {catchers : List Catcher} (lands : ChainLands code catchers)
    (pc dst : Nat) (completion : Completion W)
    : ActionLands code op pc (rt.store dst (pc + 1) catchers completion) := by
  cases completion with
  | value result behind world => exact ⟨.inl rfl, lands⟩
  | thrown thrown written behind world => exact raise_lands lands pc _ thrown world

theorem conclude_lands {op : Opcode} {catchers : List Catcher} (lands : ChainLands code catchers)
    {pc next : Nat} (falls : Successor code op pc next) (outcome : Outcome W)
    : ActionLands code op pc (rt.conclude next catchers outcome) := by
  unfold Runtime.conclude
  cases outcome.exit with
  | next => exact ⟨falls, lands⟩
  | thrown thrown => exact raise_lands lands pc _ thrown _
  | returned value => exact (returnThrough_lands lands).act falls _ _ _

theorem branch_lands {op : Opcode} {catchers : List Catcher} (lands : ChainLands code catchers)
    {pc next : Nat} {offset : Int} (falls : Successor code op pc next)
    (taken : Arrival code (branchTo next offset)) (condition : Coercion W Bool)
    : ActionLands code op pc (rt.branch offset next catchers condition) := by
  cases condition with
  | ok holds world =>
      refine ⟨?_, lands⟩
      cases holds with
      | true => exact .inr (.inr (.inr taken))
      | false => exact falls
  | thrown thrown world => exact raise_lands lands pc [] thrown world

theorem enterTry_lands {frame : Frame W} {word : Instruction}
    (fetched : code[frame.pc]? = some word) (isTry : word.op = .try_)
    (lands : ChainLands code frame.catchers)
    : ActionLands code .try_ frame.pc
        (rt.enterTry code word.decode frame (frame.pc + 1)) := by
  unfold Runtime.enterTry
  cases slotEq : code[frame.pc + 1]? with
  | none => trivial
  | some slot =>
      have targets : slotTargets code frame.pc
          = (frame.pc + word.getBc : Int)
            :: if slot.getBc ≠ 0 then [(frame.pc + slot.getBc : Int)] else [] := by
        simp [slotTargets, fetched, isTry, slotEq]
      refine ⟨.inr (.inl ⟨rfl, rfl⟩), .cons ⟨?_, ?_, ?_, .inl rfl⟩ lands⟩
      · have target : (frame.pc + word.getBc : Int) ∈ slotTargets code frame.pc := by
          rw [targets]
          exact List.mem_cons_self ..
        apply arrival_of_slotTarget target
        simp only [Catcher.enter, Instruction.decode_getBc]
        omega
      · intro pc finallyEq
        simp only [Catcher.enter] at finallyEq
        split at finallyEq
        · rename_i hasFinally
          have target : (frame.pc + slot.getBc : Int) ∈ slotTargets code frame.pc := by
            rw [targets, if_pos hasFinally]
            simp
          apply arrival_of_slotTarget target
          simp only [Option.some.injEq] at finallyEq
          omega
        · cases finallyEq
      · intro pc endEq
        cases endEq

theorem enterCatch_lands {op : Opcode} {frame : Frame W}
    (lands : ChainLands code frame.catchers) (insn : DecodedInsn)
    : ActionLands code op frame.pc (Runtime.enterCatch rt insn frame (frame.pc + 1)) := by
  unfold Runtime.enterCatch
  cases chain : frame.catchers with
  | nil => exact ⟨.inl rfl, fun c mem => by simp at mem⟩
  | cons cat parents =>
      rw [chain] at lands
      have here : CatcherLands code cat := lands cat (List.mem_cons_self ..)
      refine ⟨.inl rfl, ?_⟩
      split
      · exact lands.tail
      · refine .cons ?_ lands.tail
        exact ⟨here.catchPc, here.finallyPc, here.endfinallyPc, here.pendingPc⟩

theorem enterFinally_lands {op : Opcode} {frame : Frame W}
    (lands : ChainLands code frame.catchers)
    : ActionLands code op frame.pc (rt.enterFinally code frame (frame.pc + 1)) := by
  unfold Runtime.enterFinally
  cases chain : frame.catchers with
  | nil => exact ⟨.inl rfl, fun c mem => absurd mem List.not_mem_nil⟩
  | cons cat parents =>
      rw [chain] at lands
      have here : CatcherLands code cat := lands cat (List.mem_cons_self ..)
      refine ⟨.inl rfl, .cons ⟨here.catchPc, here.finallyPc, ?_, here.pendingPc⟩ lands.tail⟩
      intro pc endEq
      cases known : cat.endfinallyPc with
      | some last =>
          have same : last = pc := by simpa [known] using endEq
          exact same ▸ here.endfinallyPc last known
      | none =>
          have found : findMatchingEndfinally code (frame.pc + 1 - 1) = some pc := by
            simpa [known] using endEq
          exact .inr (.inr (.inr (endfinallyFrom_op found)))

theorem leaveFinally_lands {op : Opcode} {frame : Frame W}
    (lands : ChainLands code frame.catchers)
    : ActionLands code op frame.pc (rt.leaveFinally frame (frame.pc + 1)) := by
  have resumed := endFinally_lands (frame.pc + 1) lands
  unfold Runtime.leaveFinally
  cases ending : endFinally (frame.pc + 1) frame.catchers with
  | transfer transfer =>
      rw [ending] at resumed
      exact resumed.act (.inl rfl) [] frame.world _
  | completed value => trivial
  | rethrow thrown catchers =>
      rw [ending] at resumed
      exact raise_lands resumed frame.pc [] thrown frame.world

theorem readChain_lands {frame : Frame W} (lands : ChainLands code frame.catchers)
    (insn : DecodedInsn)
    : ActionLands code .getpropc2 frame.pc
        (rt.readChain code insn frame (frame.pc + 1)) := by
  unfold Runtime.readChain
  split
  · trivial
  · exact conclude_lands lands (.inr (.inl ⟨rfl, rfl⟩)) _

theorem runService_lands {op : Opcode} {frame : Frame W}
    (lands : ChainLands code frame.catchers) (insn : DecodedInsn)
    : ActionLands code op frame.pc (rt.runService insn frame (frame.pc + 1)) :=
  conclude_lands lands (.inl rfl) _

/-- Every instruction continues at a successor of its slot.
Witness: case analysis on the handlers; branches land at the targets of their slot.
-/
theorem act_lands (rt : Runtime W) {frame : Frame W} {word : Instruction}
    (fetched : code[frame.pc]? = some word) (plain : word.op ≠ .wide)
    (lands : ChainLands code frame.catchers)
    : ActionLands code word.op frame.pc (rt.act code frame) := by
  have falls : Successor code word.op frame.pc (frame.pc + 1) := .inl rfl
  have jumps : ∀ offset : Int, (frame.pc + 1 + offset : Int) ∈ slotTargets code frame.pc →
      Arrival code (branchTo (frame.pc + 1) offset) :=
    fun offset mem => arrival_of_slotTarget mem (by simp [branchTo])
  simp only [slotTargets, fetched] at jumps
  simp only [Runtime.act, fetch, fetched, if_neg plain, Runtime.dispatch, Instruction.decode_op]
  split
  all_goals rename_i opEq
  all_goals simp only [opEq] at jumps falls ⊢
  case h_1 => exact ⟨falls, lands⟩
  case h_2 => exact ⟨.inr (.inr (.inr (jumps _ (List.mem_singleton_self _)))), lands⟩
  case h_3 | h_4 => exact branch_lands lands falls (jumps _ (List.mem_singleton_self _)) _
  case h_5 | h_6 | h_7 | h_8 | h_9 | h_10 | h_11 | h_12 | h_13 | h_14 =>
    refine branch_lands lands falls ?_ _
    rw [Instruction.decode_icharA]
    exact jumps _ (List.mem_singleton_self _)
  case h_15 =>
    have target : (frame.pc + 2 + word.icharA : Int) ∈ slotTargets code frame.pc := by
      simp [slotTargets, fetched, opEq]
    have taken : Arrival code (branchTo (frame.pc + 1 + 1) word.icharA) := by
      apply arrival_of_slotTarget target
      simp only [branchTo]
      omega
    split
    · trivial
    · refine branch_lands lands (.inr (.inl ⟨rfl, rfl⟩)) ?_ _
      rw [Instruction.decode_icharA]
      exact taken
  case h_16 | h_17 =>
    exact (breakThrough_lands (jumps _ (List.mem_singleton_self _)) lands _).act falls _ _ _
  case h_18 => exact enterTry_lands fetched opEq lands
  case h_19 =>
    cases chain : frame.catchers with
    | nil => exact ⟨falls, fun c mem => by simp at mem⟩
    | cons cat parents =>
        rw [chain] at lands
        refine ⟨falls, ?_⟩
        split
        · exact lands.tail
        · exact lands
  case h_20 => exact enterCatch_lands lands _
  case h_21 => exact enterFinally_lands lands
  case h_22 => exact leaveFinally_lands lands
  case h_23 => exact raise_lands lands frame.pc [] _ _
  case h_24 | h_25 | h_26 | h_27 => exact (returnThrough_lands lands).act falls _ _ _
  case h_28 => split <;> exact ⟨falls, lands⟩
  case h_29 =>
    split
    · trivial
    · exact ⟨.inr (.inl ⟨rfl, rfl⟩), lands⟩
  case h_30 => exact readChain_lands lands _
  case h_31 =>
    split
    · exact ⟨falls, lands⟩
    · exact ⟨.inr (.inr (.inl ⟨rfl, .inl rfl⟩)), lands⟩
    · exact ⟨.inr (.inr (.inl ⟨rfl, .inr rfl⟩)), lands⟩
  case h_32 =>
    split
    · exact store_lands lands _ _ _
    · exact runService_lands lands _

end Boomkat.Correctness
