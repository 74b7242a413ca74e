import Boomkat.Compiler.RegAlloc
import Boomkat.Foundation.Replay

/-! Runs of the register allocator: no register is handed out twice without being freed, and none at
or above the ceiling, exactly where requests for several registers at once end below it.
-/

namespace Boomkat.Correctness
open Foundation Compiler

variable {s : RegAlloc} {a : Allocation} {op : RegOp}

-----------------------------------------------------------------------------------------
-- Operations
-----------------------------------------------------------------------------------------

theorem raiseMax_bound (s : RegAlloc) : s.raiseMax.nextReg ≤ s.raiseMax.maxReg := by
  rw [RegAlloc.raiseMax]
  split
  · exact UInt16.le_refl _
  · rename_i above
    exact UInt16.not_lt.mp above

theorem raiseMax_keeps (s : RegAlloc)
    : s.raiseMax.nextReg = s.nextReg ∧ s.raiseMax.regOverflow = s.regOverflow := by
  rw [RegAlloc.raiseMax]
  split <;> exact ⟨rfl, rfl⟩

/-- A request for several registers flags an overflow, or hands out those from the next one on. -/
theorem allocRegs_spec (s : RegAlloc) (count : UInt16)
    : (s.allocRegs count).2.nextReg ≤ (s.allocRegs count).2.maxReg
      ∧ ((s.allocRegs count).2.regOverflow = true
          ∧ (s.regCap ≠ noCap ∧ s.regCap ≤ s.nextReg
            ∨ maxRegisters < s.nextReg.toNat + count.toNat)
        ∨ (s.allocRegs count).2.regOverflow = s.regOverflow
          ∧ (s.allocRegs count).1 = s.nextReg
          ∧ (s.allocRegs count).2.nextReg.toNat = s.nextReg.toNat + count.toNat
          ∧ ¬(s.regCap ≠ noCap ∧ s.regCap ≤ s.nextReg)
          ∧ s.nextReg.toNat + count.toNat ≤ maxRegisters) := by
  rw [RegAlloc.allocRegs]
  split
  · rename_i capped
    exact ⟨UInt16.le_refl _, .inl ⟨rfl, .inl capped⟩⟩
  · rename_i below
    split
    · rename_i beyond
      exact ⟨UInt16.le_refl _, .inl ⟨rfl, .inr beyond⟩⟩
    · rename_i within
      obtain ⟨next, overflow⟩ :=
        raiseMax_keeps { s with nextReg := s.nextReg + count }
      refine ⟨raiseMax_bound _, .inr ⟨overflow, rfl, ?_, below, Nat.le_of_not_lt within⟩⟩
      dsimp only
      rw [next, UInt16.toNat_add]
      rw [maxRegisters] at within
      omega

/-- A free only lowers the next register, and not below those that are reserved. -/
structure Freed (s s' : RegAlloc) : Prop where
  lower : s'.nextReg ≤ s.nextReg
  reserved : s.reservedRegs ≤ s'.nextReg ∨ s'.nextReg = s.nextReg
  maxReg : s'.maxReg = s.maxReg
  overflow : s'.regOverflow = s.regOverflow

theorem freeReg_spec (s : RegAlloc) (reg : UInt16) : Freed s (s.freeReg reg) := by
  rw [RegAlloc.freeReg]
  split
  · rename_i top
    obtain ⟨top, above⟩ := top
    have next : s.nextReg - 1 = reg := by
      rw [← UInt16.toNat_inj, UInt16.toNat_sub_of_le, ← top]
      · rfl
      · rw [UInt16.le_iff_toNat_le, ← top]
        exact Nat.le_add_left 1 _
    refine ⟨?_, .inl ?_, rfl, rfl⟩
    · dsimp only
      rw [next, UInt16.le_iff_toNat_le]
      omega
    · dsimp only
      rwa [next]
  · exact ⟨UInt16.le_refl _, .inr rfl, rfl, rfl⟩

theorem freeRegsTo_spec (s : RegAlloc) (saved : UInt16) : Freed s (s.freeRegsTo saved) := by
  rw [RegAlloc.freeRegsTo]
  have floor : s.reservedRegs ≤ (if saved < s.reservedRegs then s.reservedRegs else saved) := by
    split
    · exact UInt16.le_refl _
    · rename_i above
      exact UInt16.not_lt.mp above
  generalize (if saved < s.reservedRegs then s.reservedRegs else saved) = saved at *
  split
  · rename_i lower
    exact ⟨UInt16.le_of_lt lower, .inl floor, rfl, rfl⟩
  · exact ⟨UInt16.le_refl _, .inr rfl, rfl, rfl⟩

/-- A call frame flags an overflow, or has the next register raised to its end. -/
theorem reserveCallFrame_spec (s : RegAlloc) (calleeReg nargs : UInt16)
    : (s.reserveCallFrame calleeReg nargs).nextReg ≤ (s.reserveCallFrame calleeReg nargs).maxReg
      ∧ ((s.reserveCallFrame calleeReg nargs).regOverflow = true
          ∧ maxRegisters < calleeReg.toNat + 2 + nargs.toNat
        ∨ (s.reserveCallFrame calleeReg nargs).regOverflow = s.regOverflow
          ∧ s.nextReg ≤ (s.reserveCallFrame calleeReg nargs).nextReg
          ∧ calleeReg.toNat + 2 + nargs.toNat ≤ maxRegisters) := by
  rw [RegAlloc.reserveCallFrame]
  split
  · rename_i beyond
    exact ⟨UInt16.le_refl _, .inl ⟨rfl, beyond⟩⟩
  · rename_i within
    refine ⟨raiseMax_bound _, .inr ⟨?_, ?_, Nat.le_of_not_lt within⟩⟩
    · rw [(raiseMax_keeps _).2]
      split <;> rfl
    · rw [(raiseMax_keeps _).1]
      split
      · rename_i lower
        dsimp only
        rw [UInt16.le_iff_toNat_le, Nat.toUInt16_eq, UInt16.toNat_ofNat']
        rw [maxRegisters] at within
        omega
      · exact UInt16.le_refl _

-----------------------------------------------------------------------------------------
-- Steps
-----------------------------------------------------------------------------------------

/-- The flag stays, and the next register is not above the high-water mark. -/
theorem RegOp.run_bound (s : RegAlloc) (op : RegOp) (bound : s.nextReg ≤ s.maxReg)
    : (op.run s).nextReg ≤ (op.run s).maxReg := by
  have freed {s' : RegAlloc} (free : Freed s s') : s'.nextReg ≤ s'.maxReg := by
    rw [free.maxReg]
    exact UInt16.le_trans free.lower bound
  cases op with
  | allocReg => exact (allocRegs_spec s 1).1
  | allocRegs count => exact (allocRegs_spec s count).1
  | allocPersistentReg => exact (allocRegs_spec s 1).1
  | freeReg reg => exact freed (freeReg_spec s reg)
  | freeRegsTo saved => exact freed (freeRegsTo_spec s saved)
  | reserveCallFrame calleeReg nargs => exact (reserveCallFrame_spec s calleeReg nargs).1
  | setCap cap => exact bound
  | setReserved => exact bound

theorem RegOp.run_overflow (s : RegAlloc) (op : RegOp) (flagged : s.regOverflow = true)
    : (op.run s).regOverflow = true := by
  have requested (count : UInt16) : (s.allocRegs count).2.regOverflow = true := by
    rcases (allocRegs_spec s count).2 with ⟨overflow, -⟩ | ⟨overflow, -⟩
    · exact overflow
    · rw [overflow, flagged]
  cases op with
  | allocReg => exact requested 1
  | allocRegs count => exact requested count
  | allocPersistentReg => exact requested 1
  | freeReg reg => exact (freeReg_spec s reg).overflow.trans flagged
  | freeRegsTo saved => exact (freeRegsTo_spec s saved).overflow.trans flagged
  | reserveCallFrame calleeReg nargs =>
      rcases (reserveCallFrame_spec s calleeReg nargs).2 with ⟨overflow, -⟩ | ⟨overflow, -⟩
      · exact overflow
      · exact overflow.trans flagged
  | setCap cap => exact flagged
  | setReserved => exact flagged

/-- A request that does not flag an overflow hands out the registers up to the new next one. -/
theorem RegOp.handedOut_requested {count : UInt16}
    (returned : op.returned s = some ((s.allocRegs count).1, count.toNat))
    (run : op.run s = (s.allocRegs count).2) (clear : (op.run s).regOverflow = false)
    : op.handedOut s = List.range' s.nextReg.toNat count.toNat
      ∧ (op.run s).nextReg.toNat = s.nextReg.toNat + count.toNat
      ∧ ¬(s.regCap ≠ noCap ∧ s.regCap ≤ s.nextReg) := by
  rw [RegOp.handedOut, clear, returned]
  rw [run] at clear ⊢
  rcases (allocRegs_spec s count).2 with ⟨overflow, -⟩ | ⟨-, first, next, below, -⟩
  · exact absurd (clear.symm.trans overflow) Bool.noConfusion
  · rw [first]
    exact ⟨rfl, next, below⟩

theorem RegOp.handedOut_none (none : op.returned s = none) : op.handedOut s = [] := by
  rw [RegOp.handedOut, none]
  split <;> rfl

theorem RegOp.handedOut_flagged (flagged : (op.run s).regOverflow = true) : op.handedOut s = [] :=
  if_pos flagged

/-- What is handed out lies between the next registers before and after. -/
theorem RegOp.handedOut_between {r : Nat} (mem : r ∈ op.handedOut s)
    : s.nextReg.toNat ≤ r ∧ r < (op.run s).nextReg.toNat := by
  rcases flag : (op.run s).regOverflow with - | -
  · have requested {count : UInt16}
        (returned : op.returned s = some ((s.allocRegs count).1, count.toNat))
        (run : op.run s = (s.allocRegs count).2)
        : s.nextReg.toNat ≤ r ∧ r < (op.run s).nextReg.toNat := by
      obtain ⟨range, next, -⟩ := RegOp.handedOut_requested returned run flag
      rw [range, List.mem_range'_1] at mem
      omega
    cases op with
    | allocReg => exact @requested 1 rfl rfl
    | allocRegs count => exact requested rfl rfl
    | allocPersistentReg => exact @requested 1 rfl rfl
    | _ => exact absurd mem (by rw [RegOp.handedOut_none rfl]; exact List.not_mem_nil)
  · rw [RegOp.handedOut_flagged flag] at mem
    cases mem

theorem RegOp.handedOut_distinct (s : RegAlloc) (op : RegOp) : (op.handedOut s).Nodup := by
  rw [RegOp.handedOut]
  split
  · exact List.nodup_nil
  · split
    · exact List.nodup_range'
    · exact List.nodup_nil

/-- An operation that does not free does not lower the next register, unless it flags an overflow. -/
theorem RegOp.run_raises (other : op.isFree = false) (clear : (op.run s).regOverflow = false)
    : s.nextReg ≤ (op.run s).nextReg := by
  have requested {count : UInt16}
      (returned : op.returned s = some ((s.allocRegs count).1, count.toNat))
      (run : op.run s = (s.allocRegs count).2) : s.nextReg ≤ (op.run s).nextReg := by
    obtain ⟨-, next, -⟩ := RegOp.handedOut_requested returned run clear
    rw [UInt16.le_iff_toNat_le]
    omega
  cases op with
  | allocReg => exact @requested 1 rfl rfl
  | allocRegs count => exact requested rfl rfl
  | allocPersistentReg => exact @requested 1 rfl rfl
  | freeReg reg => cases other
  | freeRegsTo saved => cases other
  | reserveCallFrame calleeReg nargs =>
      rcases (reserveCallFrame_spec s calleeReg nargs).2 with ⟨overflow, -⟩ | ⟨-, higher, -⟩
      · exact absurd (clear.symm.trans overflow) Bool.noConfusion
      · exact higher
  | setCap cap => exact UInt16.le_refl _
  | setReserved => exact UInt16.le_refl _

theorem RegOp.run_freed (free : op.isFree = true) : Freed s (op.run s) := by
  cases op with
  | freeReg reg => exact freeReg_spec s reg
  | freeRegsTo saved => exact freeRegsTo_spec s saved
  | _ => cases free

-----------------------------------------------------------------------------------------
-- Runs
-----------------------------------------------------------------------------------------

/-- The next register is not above the high-water mark, and without an overflow it is above all that
were handed out and not freed.
-/
structure AllocationFits (a : Allocation) : Prop where
  bound : a.regs.nextReg ≤ a.regs.maxReg
  held : a.regs.regOverflow = false → ∀ r ∈ a.held, r < a.regs.nextReg.toNat

/-- The registers of an operation lie below the ceiling, if there is one, or it flags an overflow. -/
def BelowCap (s : RegAlloc) (op : RegOp) : Prop :=
  s.regCap ≠ noCap → (op.run s).regOverflow = true
    ∨ ∀ r ∈ op.handedOut s ++ op.callFrame, r < s.regCap.toNat

/-- What an operation keeps to: below the ceiling, if there is one, within the register file, above
the reserved registers, and with registers that were free.
-/
structure OpGood (a : Allocation) (op : RegOp) : Prop where
  belowCap : BelowCap a.regs op
  bound : (op.run a.regs).nextReg ≤ (op.run a.regs).maxReg
    ∧ (op.run a.regs).maxReg.toNat ≤ maxRegisters
  reserved : op.isFree = true → a.regs.reservedRegs ≤ (op.run a.regs).nextReg
    ∨ (op.run a.regs).nextReg = a.regs.nextReg
  fresh : ∀ r ∈ op.handedOut a.regs, r ∉ a.held
  distinct : (op.handedOut a.regs).Nodup

/-- Where there is a ceiling and no overflow yet, several registers at once begin at the ceiling or
end below it, as does a call frame, or the register file is too small for them.
-/
def CapFits (s : RegAlloc) : RegOp → Prop
  | .allocRegs count =>
      s.regCap = noCap ∨ s.regOverflow = true ∨ s.regCap ≤ s.nextReg
        ∨ s.nextReg.toNat + count.toNat ≤ s.regCap.toNat
        ∨ maxRegisters < s.nextReg.toNat + count.toNat
  | .reserveCallFrame calleeReg nargs =>
      s.regCap = noCap ∨ s.regOverflow = true
        ∨ calleeReg.toNat + 2 + nargs.toNat ≤ s.regCap.toNat
        ∨ maxRegisters < calleeReg.toNat + 2 + nargs.toNat
  | _ => True

theorem AllocationFits.step (fits : AllocationFits a) {a' : Allocation}
    (taken : a.step op = some a') : AllocationFits a' := by
  obtain rfl := Option.some.inj taken
  refine ⟨RegOp.run_bound a.regs op fits.bound, fun clear r mem => ?_⟩
  have before : a.regs.regOverflow = false := by
    rw [← Bool.not_eq_true]
    intro flagged
    exact absurd (clear.symm.trans (RegOp.run_overflow a.regs op flagged)) Bool.noConfusion
  rcases List.mem_append.mp mem with out | kept
  · exact (RegOp.handedOut_between out).2
  · rcases free : op.isFree with - | -
    · rw [free] at kept
      have higher := RegOp.run_raises free clear
      exact Nat.lt_of_lt_of_le (fits.held before r kept) higher
    · rw [free] at kept
      exact of_decide_eq_true (List.mem_filter.mp kept).2

/-- Only the first register that is asked for is compared with the ceiling. -/
theorem belowCap_requested {count : UInt16} (frame : op.callFrame = [])
    (returned : op.returned s = some ((s.allocRegs count).1, count.toNat))
    (run : op.run s = (s.allocRegs count).2)
    : BelowCap s op
      ↔ s.regCap = noCap ∨ s.regOverflow = true ∨ s.regCap ≤ s.nextReg
        ∨ s.nextReg.toNat + count.toNat ≤ s.regCap.toNat
        ∨ maxRegisters < s.nextReg.toNat + count.toNat := by
  rw [BelowCap, frame, List.append_nil]
  constructor
  · intro below
    by_contra beyond
    simp only [not_or] at beyond
    obtain ⟨capped, clear, start, ends, fits⟩ := beyond
    have flag : (op.run s).regOverflow = false := by
      rw [run]
      rcases (allocRegs_spec s count).2 with ⟨-, ⟨-, at_cap⟩ | outside⟩ | ⟨same, -⟩
      · exact absurd at_cap start
      · exact absurd outside fits
      · rw [same]
        simpa using clear
    obtain ⟨range, -⟩ := RegOp.handedOut_requested returned run flag
    rcases below capped with flagged | inside
    · exact absurd (flag.symm.trans flagged) Bool.noConfusion
    · -- The register at the ceiling is one of them.
      rw [UInt16.le_iff_toNat_le] at start
      refine absurd (inside s.regCap.toNat ?_) (Nat.lt_irrefl _)
      rw [range, List.mem_range'_1]
      omega
  · intro fits capped
    rcases flag : (op.run s).regOverflow with - | -
    · right
      intro r out
      obtain ⟨range, next, start⟩ := RegOp.handedOut_requested returned run flag
      have small := (op.run s).nextReg.toNat_lt
      rw [range, List.mem_range'_1] at out
      rcases fits with none | flagged | at_cap | ends | outside
      · exact absurd none capped
      · exact absurd (flag.symm.trans (RegOp.run_overflow s op flagged)) Bool.noConfusion
      · exact absurd ⟨capped, at_cap⟩ start
      · omega
      · rw [maxRegisters] at outside
        omega
    · exact .inl rfl

/-- One register at once is never above the ceiling. -/
theorem one_below (s : RegAlloc)
    : s.regCap = noCap ∨ s.regOverflow = true ∨ s.regCap ≤ s.nextReg
      ∨ s.nextReg.toNat + (1 : UInt16).toNat ≤ s.regCap.toNat
      ∨ maxRegisters < s.nextReg.toNat + (1 : UInt16).toNat := by
  rw [UInt16.le_iff_toNat_le, show (1 : UInt16).toNat = 1 from rfl]
  omega

theorem belowCap_nothing (none : op.returned s = none) (frame : op.callFrame = [])
    : BelowCap s op := by
  refine fun _ => .inr fun r mem => ?_
  rw [RegOp.handedOut_none none, frame] at mem
  cases mem

theorem belowCap_frame (s : RegAlloc) (calleeReg nargs : UInt16)
    : BelowCap s (.reserveCallFrame calleeReg nargs)
      ↔ CapFits s (.reserveCallFrame calleeReg nargs) := by
  rw [BelowCap, CapFits, RegOp.handedOut_none rfl, List.nil_append]
  have spec := (reserveCallFrame_spec s calleeReg nargs).2
  constructor
  · intro below
    by_contra beyond
    simp only [not_or] at beyond
    obtain ⟨capped, clear, ends, fits⟩ := beyond
    rcases below capped with flagged | inside
    · rcases spec with ⟨-, outside⟩ | ⟨same, -⟩
      · exact fits outside
      · exact clear (same.symm.trans flagged)
    · refine ends ?_
      have last := inside (calleeReg.toNat + 1 + nargs.toNat) (by
        rw [RegOp.callFrame, List.mem_range'_1]
        omega)
      omega
  · intro fits capped
    rcases spec with ⟨flagged, -⟩ | ⟨same, -, within⟩
    · exact .inl flagged
    · rcases fits with none | flagged | ends | outside
      · exact absurd none capped
      · exact .inl (same.trans flagged)
      · right
        intro r mem
        rw [RegOp.callFrame, List.mem_range'_1] at mem
        omega
      · omega

theorem belowCap_iff (s : RegAlloc) (op : RegOp) : BelowCap s op ↔ CapFits s op := by
  cases op with
  | allocReg =>
      exact (@belowCap_requested s .allocReg 1 rfl rfl rfl).trans ⟨fun _ => trivial, fun _ => one_below s⟩
  | allocRegs count => exact belowCap_requested rfl rfl rfl
  | allocPersistentReg =>
      exact (@belowCap_requested s .allocPersistentReg 1 rfl rfl rfl).trans
        ⟨fun _ => trivial, fun _ => one_below s⟩
  | reserveCallFrame calleeReg nargs => exact belowCap_frame s calleeReg nargs
  | _ => exact ⟨fun _ => trivial, fun _ => belowCap_nothing rfl rfl⟩

theorem opGood_iff (fits : AllocationFits a) : OpGood a op ↔ CapFits a.regs op := by
  refine ⟨fun good => (belowCap_iff a.regs op).mp good.belowCap, fun cap => ?_⟩
  refine ⟨(belowCap_iff a.regs op).mpr cap, ⟨RegOp.run_bound a.regs op fits.bound, ?_⟩,
    fun free => (RegOp.run_freed free).reserved, fun r out held => ?_, RegOp.handedOut_distinct a.regs op⟩
  · exact Nat.le_of_lt_succ (op.run a.regs).maxReg.toNat_lt
  · have between := RegOp.handedOut_between out
    have clear : a.regs.regOverflow = false := by
      rw [← Bool.not_eq_true]
      intro flagged
      rw [RegOp.handedOut_flagged (RegOp.run_overflow a.regs op flagged)] at out
      cases out
    have below := fits.held clear r held
    omega

/-- All operations of a run are as they should be exactly if all requests for several registers fit
below the ceiling.
-/
theorem regAlloc_run (ops : List RegOp)
    : Along Allocation.step OpGood .new ops
      ↔ Along Allocation.step (fun a => CapFits a.regs) .new ops :=
  along_iff (fun fits => fits.step) opGood_iff ops ⟨UInt16.le_refl _, fun _ => nofun⟩

/-- Three registers from the last one below the ceiling on, of which two lie above. -/
theorem regAlloc_run_capped
    : ¬Along Allocation.step OpGood .new [.setCap 2, .allocReg, .allocRegs 3] := by
  intro along
  have last := ((along.2 _ rfl).2 _ rfl).1.belowCap (by decide)
  revert last
  decide

end Boomkat.Correctness
