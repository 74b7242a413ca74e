import Boomkat.Correctness.Landing

/-! What the effect of an instruction depends on: the registers it reads, its own word, the
data word it owns, and the markers of finally blocks.
-/

namespace Boomkat.Correctness
open Boomkat.Foundation Boomkat.Bytecode Boomkat.Machine Boomkat.Compiler

variable {W : Type} {rt : Runtime W} {code code' : List Instruction}

/-- A word without a prefix is dispatched as it stands. -/
theorem act_of_fetched {frame : Frame W} {word : Instruction}
    (fetched : code[frame.pc]? = some word) (plain : word.op ≠ .wide)
    : rt.act code frame = rt.dispatch code word.decode frame (frame.pc + 1) := by
  simp only [Runtime.act, fetch, fetched, if_neg plain]

/-- A blank word does nothing. -/
theorem act_nopWord (rt : Runtime W) {frame : Frame W}
    (fetched : code[frame.pc]? = some nopWord)
    : rt.act code frame = .go [] (frame.pc + 1) frame.catchers frame.world := by
  rw [act_of_fetched fetched (by decide)]
  rfl

/-- The registers that the instruction at a frame's slot reads. -/
def readsAt (rt : Runtime W) (code : List Instruction) (frame : Frame W) : List Nat :=
  match fetch code frame.pc with
  | none => []
  | some (insn, _) => registerReads rt.toCount insn frame.regs

-----------------------------------------------------------------------------------------
-- Registers
-----------------------------------------------------------------------------------------

/-- A producer computes the same completion from register files that agree on its reads. -/
theorem produce_congr {insn : DecodedInsn} {regs other : Nat → Value}
    (agree : ∀ r ∈ producerReads insn, regs r = other r) (world : W)
    : rt.produce insn other world = rt.produce insn regs world := by
  have mapped : (producerReads insn).map other = (producerReads insn).map regs :=
    List.map_congr_left fun r mem => (agree r mem).symm
  unfold Runtime.produce
  split <;> rename_i opEq <;>
    first
    | rfl
    | simp only [mapped]
    | simp_all [producerReads, producerOperands]

/-- A service call has the same effect on register files that agree on its reads. -/
theorem runService_congr {insn : DecodedInsn} {frame : Frame W} {other : Nat → Value}
    (agree : ∀ r ∈ executeReads rt.toCount insn frame.regs, frame.regs r = other r)
    (same : executeReads rt.toCount insn other = executeReads rt.toCount insn frame.regs)
    (next : Nat)
    : rt.runService insn { frame with regs := other } next = rt.runService insn frame next := by
  have mapped : (executeReads rt.toCount insn frame.regs).map other
      = (executeReads rt.toCount insn frame.regs).map frame.regs :=
    List.map_congr_left fun r mem => (agree r mem).symm
  simp only [Runtime.runService, same, mapped]

/-- The effect of an instruction depends on the registers it reads only. -/
theorem dispatch_congr {insn : DecodedInsn} {frame : Frame W} {other : Nat → Value}
    (agree : ∀ r ∈ registerReads rt.toCount insn frame.regs, frame.regs r = other r)
    (next : Nat)
    : rt.dispatch code insn { frame with regs := other } next
      = rt.dispatch code insn frame next := by
  have fixed := registerReads_congr rt.toCount insn agree
  unfold Runtime.dispatch
  unfold registerReads at agree fixed
  split <;> rename_i opEq <;> simp only [opEq] at agree fixed ⊢
  all_goals try simp only [List.mem_cons, List.not_mem_nil, or_false, forall_eq,
    forall_eq_or_imp] at agree
  all_goals try rfl
  all_goals try simp only [agree]
  case h_30 => simp only [Runtime.readChain, agree]
  case h_32 =>
    split
    · rename_i isProducer
      simp only [isProducer, if_true] at agree
      rw [produce_congr agree frame.world]
    · rename_i isService
      simp only [isService] at agree fixed
      exact runService_congr agree fixed next

-----------------------------------------------------------------------------------------
-- Code
-----------------------------------------------------------------------------------------

/-- The opcodes that the scan for the end of a finally block looks at. -/
def marksFinally (op : Opcode) : Bool :=
  op = .try_ || op = .finally_ || op = .endfinally

/-- Two code arrays of one length that differ in words outside the exception markers only. -/
structure SameSkeleton (code code' : List Instruction) : Prop where
  length : code'.length = code.length
  differs : ∀ (i : Nat) (word word' : Instruction), code[i]? = some word → code'[i]? = some word' →
    word' = word ∨ (marksFinally word.op = false ∧ marksFinally word'.op = false)

theorem endfinallyFrom_congr (same : SameSkeleton code code') (fuel p depth : Nat)
    : endfinallyFrom code' fuel p depth = endfinallyFrom code fuel p depth := by
  induction fuel generalizing p depth with
  | zero => rfl
  | succ fuel ih =>
      unfold endfinallyFrom
      cases slot : code[p]? with
      | none =>
          have outside : code'[p]? = none := by
            rw [List.getElem?_eq_none_iff] at slot ⊢
            exact same.length.trans_le slot
          simp [outside]
      | some word =>
          obtain ⟨word', slot'⟩ : ∃ word', code'[p]? = some word' := by
            have inside : p < code'.length :=
              same.length ▸ (List.getElem?_eq_some_iff.mp slot).1
            exact ⟨code'[p], List.getElem?_eq_getElem inside⟩
          rcases same.differs p word word' slot slot' with rfl | ⟨plain, plain'⟩
          · simp only [slot', ih]
          · simp only [slot']
            simp only [marksFinally, Bool.or_eq_false_iff, decide_eq_false_iff_not] at plain plain'
            obtain ⟨⟨notTry, notFinally⟩, notEnd⟩ := plain
            obtain ⟨⟨notTry', notFinally'⟩, notEnd'⟩ := plain'
            split <;> rename_i op <;> simp_all

/-- The effect of a word depends on itself, the data word it owns and the exception markers. -/
theorem dispatch_code_congr {insn : DecodedInsn} {frame : Frame W} {next : Nat}
    (same : SameSkeleton code code')
    (data : ownsDataWord insn.op = true → code'[next]? = code[next]?)
    : rt.dispatch code' insn frame next = rt.dispatch code insn frame next := by
  have scan : ∀ slot, findMatchingEndfinally code' slot = findMatchingEndfinally code slot := by
    intro slot
    rw [findMatchingEndfinally, same.length, endfinallyFrom_congr same]
    rfl
  have marks : ∀ slot cats, markFinally code' slot cats = markFinally code slot cats := by
    intro slot cats
    cases cats with
    | nil => rfl
    | cons cat parents => rw [markFinally, markFinally, scan]
  unfold Runtime.dispatch
  split <;> rename_i opEq <;> try rfl
  all_goals simp only [opEq] at data
  case h_15 | h_29 => rw [data rfl]
  case h_18 => simp only [Runtime.enterTry, data rfl]
  case h_21 => simp only [Runtime.enterFinally, marks]
  case h_30 => simp only [Runtime.readChain, data rfl]

/-- Frames at a word that both codes share act alike when they agree on what it reads. -/
theorem act_congr {frame : Frame W} {other : Nat → Value} {word : Instruction}
    (same : SameSkeleton code code') (fetched : code[frame.pc]? = some word)
    (fetched' : code'[frame.pc]? = some word) (plain : word.op ≠ .wide)
    (data : ownsDataWord word.op = true → code'[frame.pc + 1]? = code[frame.pc + 1]?)
    (agree : ∀ r ∈ readsAt rt code frame, frame.regs r = other r)
    : rt.act code' { frame with regs := other } = rt.act code frame := by
  simp only [readsAt, fetch, fetched, if_neg plain] at agree
  simp only [Runtime.act, fetch, fetched, fetched', if_neg plain]
  rw [dispatch_congr agree, dispatch_code_congr same data]

end Boomkat.Correctness
