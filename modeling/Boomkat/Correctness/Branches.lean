import Boomkat.Compiler.Branches

/-! A branch lands on the address that it was aimed at, exactly where the distance fits its offset:
jumps reach all of a function, conditional branches 2^15 instructions.
-/

namespace Boomkat.Correctness
open Bytecode Compiler

variable {s : Emitter} {code : List Instruction} {inst : Instruction} {addr target : Nat}

-----------------------------------------------------------------------------------------
-- Where a branch lands
-----------------------------------------------------------------------------------------

/-- The instruction at an address with the operands of a prefix before it. -/
def decodedAt (code : List Instruction) (addr : Nat) : Option DecodedInsn :=
  (code[addr]?).map fun inst =>
    match (if addr = 0 then none else code[addr - 1]?) with
    | some word => if word.op = .wide then word.expand inst else inst.decode
    | none => inst.decode

/-- The offset of a branch with the operands of its prefix. -/
def decodedOffset (insn : DecodedInsn) : Int :=
  if Emitter.isLongJump insn.op then insn.getSabc else insn.getSbc

/-- The branch at an address lands on another one: its offset is behind itself. -/
def LandsOn (code : List Instruction) (addr target : Nat) : Prop :=
  (decodedAt code addr).map (fun insn => (addr : Int) + 1 + decodedOffset insn) = some (target : Int)

/-- The branches of statements. -/
def isBranch (op : Opcode) : Bool := Emitter.isLongJump op || op == .ifTrue || op == .ifFalse

/-- A branch was emitted at an address: with a prefix that widens its register alone, which jumps do
not have.
-/
structure BranchAt (code : List Instruction) (addr : Nat) (inst : Instruction) : Prop where
  at_addr : code[addr]? = some inst
  branch : isBranch inst.op = true
  widens : addr ≠ 0 → ∀ word, code[addr - 1]? = some word → word.op = .wide →
    word.b = 0 ∧ word.c = 0 ∧ Emitter.isLongJump inst.op = false

/-- The offset of a branch by its own word. -/
def branchOffset (inst : Instruction) : Int :=
  if Emitter.isLongJump inst.op then inst.getSabc else inst.getSbc

/-- The operands of a prefix that only widens the register leave the offset as it is. -/
theorem BranchAt.offset (site : BranchAt code addr inst)
    : (decodedAt code addr).map decodedOffset = some (branchOffset inst) := by
  rw [decodedAt, site.at_addr, Option.map_some, Option.map_some]
  congr 1
  split
  · rename_i word place
    split
    · rename_i wide
      split at place
      · cases place
      · rename_i later
        obtain ⟨b, c, short⟩ := site.widens later word place wide
        have same : (word.expand inst).op = inst.op := rfl
        have operand : (word.expand inst).getSbc = inst.getSbc := by
          rw [DecodedInsn.getSbc, DecodedInsn.getBc, Instruction.expand, b, c]
          simp [Instruction.getSbc, Instruction.getBc]
        rw [decodedOffset, branchOffset, same, short, if_neg (fun no => by cases no),
          if_neg (fun no => by cases no), operand]
    · rfl
  · rfl

/-- Where a branch lands is in its own word. -/
theorem BranchAt.lands_iff (site : BranchAt code addr inst)
    : LandsOn code addr target ↔ (addr : Int) + 1 + branchOffset inst = target := by
  have offset := site.offset
  obtain ⟨insn, decoded, same⟩ := Option.map_eq_some_iff.mp offset
  rw [LandsOn, decoded, Option.map_some, same, Option.some.injEq]

-----------------------------------------------------------------------------------------
-- Offsets
-----------------------------------------------------------------------------------------

/-- The distance from a branch to its target fits the offset of the branch. -/
def WithinReach (op : Opcode) (addr target : Nat) : Prop :=
  Emitter.isLongJump op = true
    ∨ -0x8000 ≤ (target : Int) - addr - 1 ∧ (target : Int) - addr - 1 ≤ 0x7FFF

theorem getSbc_range (inst : Instruction) : -0x8000 ≤ inst.getSbc ∧ inst.getSbc ≤ 0x7FFF := by
  rw [Instruction.getSbc, Instruction.getBc_eq, bcBias]
  have low := inst.b.isLt
  have high := inst.c.isLt
  omega

/-- The word of a conditional branch has its offset exactly if that fits 16 bits. -/
theorem makeASbx_offset_iff {op : Opcode} (short : Emitter.isLongJump op = false) (a : Nat)
    : branchOffset (makeASbx op a ((target : Int) - addr - 1)) = (target : Int) - addr - 1
      ↔ WithinReach op addr target := by
  have same (offset : Int) : (makeASbx op a offset).op = op := rfl
  rw [branchOffset, same, short, if_neg nofun, WithinReach, short]
  constructor
  · intro offset
    rw [← offset]
    exact .inr (getSbc_range _)
  · rintro (long | ⟨low, high⟩)
    · cases long
    · exact makeASbx_getSbc op a low high

/-- That of a jump always has it. -/
theorem makeSabc_offset {op : Opcode} (long : Emitter.isLongJump op = true)
    (addr_small : addr ≤ maxCodeHard) (target_small : target ≤ maxCodeHard)
    : branchOffset (makeSabc op ((target : Int) - addr - 1)) = (target : Int) - addr - 1 := by
  have same (offset : Int) : (makeSabc op offset).op = op := rfl
  rw [maxCodeHard] at addr_small target_small
  rw [branchOffset, same, long, if_pos rfl]
  exact makeSabc_getSabc op (by omega) (by omega)

theorem aimed_op (inst : Instruction) (addr target : Nat)
    : (Emitter.aimed inst addr target).op = inst.op := by
  rw [Emitter.aimed]
  split <;> rfl

/-- A branch that was aimed has the offset of its target exactly if that is within reach. -/
theorem aimed_offset_iff (inst : Instruction) (addr_small : addr ≤ maxCodeHard)
    (target_small : target ≤ maxCodeHard)
    : branchOffset (Emitter.aimed inst addr target) = (target : Int) - addr - 1
      ↔ WithinReach inst.op addr target := by
  rw [Emitter.aimed]
  rcases long : Emitter.isLongJump inst.op with - | -
  · exact makeASbx_offset_iff long inst.a.toNat
  · exact ⟨fun _ => .inl long, fun _ => makeSabc_offset long addr_small target_small⟩

-----------------------------------------------------------------------------------------
-- Patches
-----------------------------------------------------------------------------------------

/-- Branches are replaced by others of the same opcode, at some addresses. -/
structure Repatched (code code' : List Instruction) : Prop where
  length : code'.length = code.length
  same : ∀ (i : Nat) (inst : Instruction), code[i]? = some inst →
    ∃ inst' : Instruction, code'[i]? = some inst' ∧ inst'.op = inst.op
      ∧ (isBranch inst.op = false → inst' = inst)

theorem wide_not_branch {op : Opcode} (wide : op = .wide) : isBranch op = false := by
  rw [wide]
  rfl

/-- A branch is still one, of the same opcode, and so is its prefix. -/
theorem BranchAt.repatched (site : BranchAt code addr inst) {code' : List Instruction}
    (repatched : Repatched code code') {inst' : Instruction} (at_addr : code'[addr]? = some inst')
    : BranchAt code' addr inst' := by
  obtain ⟨other, found, op, -⟩ := repatched.same addr inst site.at_addr
  obtain rfl := Option.some.inj (at_addr.symm.trans found)
  refine ⟨at_addr, by rw [op]; exact site.branch, fun later word place wide => ?_⟩
  have inside : addr - 1 < code.length := by
    rw [← repatched.length]
    exact (List.getElem?_eq_some_iff.mp place).1
  obtain ⟨word', found', op', fixed⟩ :=
    repatched.same (addr - 1) code[addr - 1] (List.getElem?_eq_getElem inside)
  obtain rfl := Option.some.inj (place.symm.trans found')
  rw [wide] at op'
  obtain rfl := fixed (wide_not_branch op'.symm)
  rw [op]
  exact site.widens later _ (List.getElem?_eq_getElem inside) wide

theorem repatched_modify (code : List Instruction) {f : Instruction → Instruction}
    (op : ∀ inst, (f inst).op = inst.op)
    (branch : ∀ inst, code[addr]? = some inst → isBranch inst.op = true)
    : Repatched code (code.modify addr f) := by
  refine ⟨List.length_modify _ _ _, fun i inst found => ?_⟩
  simp only [List.getElem?_modify, found, Option.map_eq_map, Option.map_some]
  rcases decEq addr i with other | rfl
  · rw [if_neg other]
    exact ⟨inst, rfl, rfl, fun _ => rfl⟩
  · rw [if_pos rfl]
    refine ⟨f inst, rfl, op inst, fun none => ?_⟩
    rw [branch inst found] at none
    cases none

theorem Repatched.refl (code : List Instruction) : Repatched code code :=
  ⟨rfl, fun _ inst found => ⟨inst, found, rfl, fun _ => rfl⟩⟩

theorem Repatched.trans {code' code'' : List Instruction} (first : Repatched code code')
    (second : Repatched code' code'') : Repatched code code'' := by
  refine ⟨second.length.trans first.length, fun i inst found => ?_⟩
  obtain ⟨inst', found', op, fixed⟩ := first.same i inst found
  obtain ⟨inst'', found'', op', fixed'⟩ := second.same i inst' found'
  refine ⟨inst'', found'', op'.trans op, fun none => ?_⟩
  rw [fixed' (by rw [op]; exact none), fixed none]

/-- The code after a function was applied to the instructions at some addresses. -/
def modifyAll (f : Instruction → Nat → Instruction) (code : List Instruction) (addrs : List Nat)
    : List Instruction :=
  addrs.foldl (fun code addr => code.modify addr (f · addr)) code

variable {f : Instruction → Nat → Instruction}

theorem modifyAll_getElem? (idempotent : ∀ inst addr, f (f inst addr) addr = f inst addr)
    (code : List Instruction) (addrs : List Nat) (i : Nat)
    : (modifyAll f code addrs)[i]? = (code[i]?).map fun inst => if i ∈ addrs then f inst i else inst := by
  induction addrs generalizing code with
  | nil =>
      simp [modifyAll]
  | cons addr addrs ih =>
      have rest := ih (code.modify addr (f · addr))
      rw [List.getElem?_modify, Option.map_eq_map] at rest
      rw [modifyAll, List.foldl_cons, ← modifyAll, rest]
      rcases code[i]? with - | inst
      · rfl
      · simp only [Option.map_some]
        rcases decEq addr i with other | rfl
        · simp only [if_neg other, List.mem_cons, Ne.symm other, false_or]
        · rw [if_pos rfl, if_pos List.mem_cons_self, idempotent, ite_self]

theorem modifyAll_repatched (op : ∀ inst addr, (f inst addr).op = inst.op) {addrs : List Nat}
    (sites : ∀ addr ∈ addrs, ∃ inst, BranchAt code addr inst)
    : Repatched code (modifyAll f code addrs) := by
  induction addrs generalizing code with
  | nil => exact .refl code
  | cons addr addrs ih =>
      obtain ⟨inst, site⟩ := sites addr List.mem_cons_self
      have first : Repatched code (code.modify addr (f · addr)) := by
        apply repatched_modify code (fun inst => op inst addr)
        intro other found
        obtain rfl := Option.some.inj (site.at_addr.symm.trans found)
        exact site.branch
      refine first.trans (ih fun addr mem => ?_)
      obtain ⟨inst, site⟩ := sites addr (List.mem_cons_of_mem _ mem)
      obtain ⟨inst', found, -⟩ := first.same addr inst site.at_addr
      exact ⟨inst', site.repatched first found⟩

-----------------------------------------------------------------------------------------
-- Chains
-----------------------------------------------------------------------------------------

/-- The addresses of a chain, from its head on. -/
inductive PatchWalk (patches : List PatchEntry) : Nat → List Nat → Prop where
  | ends : PatchWalk patches noPatch []
  | entry {head : Nat} {entry : PatchEntry} {addrs : List Nat} (some : head ≠ noPatch)
    (found : patches[head]? = .some entry) (rest : PatchWalk patches entry.next addrs)
    : PatchWalk patches head (entry.addr :: addrs)

/-- The branches that wait for a target are in a chain, unless there were too many of them. -/
def PatchPending (s : Emitter) (head : Nat) (addrs : List Nat) : Prop :=
  ∃ walked, PatchWalk s.patches head walked ∧ (s.patchOverflow = true ∨ walked = addrs)

theorem PatchWalk.append {patches : List PatchEntry} {head : Nat} {addrs : List Nat}
    (walk : PatchWalk patches head addrs) (more : List PatchEntry)
    : PatchWalk (patches ++ more) head addrs := by
  induction walk with
  | ends => exact .ends
  | entry some found _ ih =>
      refine .entry some ?_ ih
      rw [List.getElem?_append_left (List.getElem?_eq_some_iff.mp found).1, found]

/-- A branch that is added to a chain waits in it, and the other chains are as they were. -/
theorem PatchPending.add {head : Nat} {addrs : List Nat} (pending : PatchPending s head addrs)
    (addr : Nat)
    : PatchPending (s.addPatch head addr).1 (s.addPatch head addr).2 (addr :: addrs)
      ∧ ∀ head' addrs', PatchPending s head' addrs' → PatchPending (s.addPatch head addr).1 head' addrs' := by
  rw [Emitter.addPatch]
  split
  · obtain ⟨walked, walk, -⟩ := pending
    exact ⟨⟨walked, walk, .inl rfl⟩, fun _ _ ⟨walked', walk', _⟩ => ⟨walked', walk', .inl rfl⟩⟩
  · rename_i room
    obtain ⟨walked, walk, complete⟩ := pending
    refine ⟨⟨addr :: walked, ?_, complete.imp_right (congrArg _)⟩,
      fun _ _ ⟨walked', walk', complete'⟩ => ⟨walked', walk'.append _, complete'⟩⟩
    refine .entry ?_ List.getElem?_concat_length (walk.append _)
    rw [maxPatches] at room
    rw [noPatch]
    omega

theorem patchContinueChain_eq {head : Nat} {addrs : List Nat} (walk : PatchWalk s.patches head addrs)
    {fuel : Nat} (enough : addrs.length < fuel)
    : s.patchContinueChain head target fuel
      = some { s with code := modifyAll (Emitter.aimedLong · · target) s.code addrs } := by
  induction fuel generalizing s head addrs with
  | zero => exact absurd enough (Nat.not_lt_zero _)
  | succ fuel ih =>
      rw [Emitter.patchContinueChain]
      cases walk with
      | ends =>
          rw [if_pos rfl]
          rfl
      | entry some found rest =>
          rw [if_neg some, found, Option.bind_some]
          exact @ih { s with code := _ } _ _ rest (Nat.lt_of_succ_lt_succ enough)

theorem patchChain_eq {head : Nat} {addrs : List Nat} (walk : PatchWalk s.patches head addrs)
    {fuel : Nat} (enough : addrs.length < fuel)
    : s.patchChain head fuel
      = some { s with code := modifyAll (Emitter.aimed · · s.code.length) s.code addrs } := by
  induction fuel generalizing s head addrs with
  | zero => exact absurd enough (Nat.not_lt_zero _)
  | succ fuel ih =>
      rw [Emitter.patchChain]
      cases walk with
      | ends =>
          rw [if_pos rfl]
          rfl
      | @entry _ entry _ some found rest =>
          rw [if_neg some, found]
          dsimp only
          have rest := @ih (s.patchJump entry.addr) _ _ rest (Nat.lt_of_succ_lt_succ enough)
          rw [rest]
          simp only [Emitter.patchJump, List.length_modify]
          rfl

-----------------------------------------------------------------------------------------
-- Requests
-----------------------------------------------------------------------------------------

/-- What is asked of the compiler: a patch of one branch or of a chain, or a branch back. -/
inductive PatchRequest where
  | patchJump (addr : Nat)
  | patchJumpTo (addr target : Nat)
  | patchChain (head : Nat) (addrs : List Nat)
  | patchContinueChain (head target : Nat) (addrs : List Nat)
  | condJumpBack (memoryWide memory : Bool) (op : Opcode) (a target : Nat)

/-- The code after a request, given fuel for the walk along a chain. -/
def PatchRequest.run (s : Emitter) (fuel : Nat) : PatchRequest → Option Emitter
  | .patchJump addr => some (s.patchJump addr)
  | .patchJumpTo addr target => some (s.patchJumpTo addr target)
  | .patchChain head _ => s.patchChain head fuel
  | .patchContinueChain head target _ => s.patchContinueChain head target fuel
  | .condJumpBack memoryWide memory op a target =>
      some (s.emitCondJumpBack memoryWide memory op a target).1

/-- The branches of a request, each with the address that it is to land on. -/
def PatchRequest.intended (s : Emitter) : PatchRequest → List (Nat × Nat)
  | .patchJump addr => [(addr, s.code.length)]
  | .patchJumpTo addr target => [(addr, target)]
  | .patchChain _ addrs => addrs.map fun addr => (addr, s.code.length)
  | .patchContinueChain _ target addrs => addrs.map fun addr => (addr, target)
  | .condJumpBack memoryWide memory op a target =>
      [((s.emitCondJumpBack memoryWide memory op a target).2, target)]

/-- A request comes to an end, and its branches land where they are to, or the compilation fails. -/
def PatchHolds (s : Emitter) (request : PatchRequest) : Prop :=
  ∃ enough, ∀ fuel, enough ≤ fuel → ∃ s', request.run s fuel = some s'
    ∧ (s'.fails = true ∨ ∀ site ∈ request.intended s, LandsOn s'.code site.1 site.2)

/-- The code is within its buffer. -/
structure Buffered (s : Emitter) : Prop where
  within : s.code.length ≤ s.codeCap
  some : 0 < s.codeCap
  small : s.codeCap ≤ maxCodeHard

/-- The branches of a request are there: those of a chain for `continue` are jumps. A prefix is not
the last instruction.
-/
def PatchSound (s : Emitter) (request : PatchRequest) : Prop :=
  Buffered s ∧ match request with
      | .patchJump addr => ∃ inst, BranchAt s.code addr inst
      | .patchJumpTo addr _ => ∃ inst, BranchAt s.code addr inst
      | .patchChain head addrs =>
          PatchPending s head addrs ∧ ∀ addr ∈ addrs, ∃ inst, BranchAt s.code addr inst
      | .patchContinueChain head target addrs =>
          PatchPending s head addrs ∧ target ≤ s.code.length
            ∧ ∀ addr ∈ addrs, ∃ inst, BranchAt s.code addr inst
              ∧ Emitter.isLongJump inst.op = true
      | .condJumpBack _ _ op _ target =>
          (op = .ifTrue ∨ op = .ifFalse) ∧ target ≤ s.code.length
            ∧ ∀ word, s.code.getLast? = some word → word.op ≠ .wide

/-- The branch at an address, as it is, reaches another one. -/
def ReachesFrom (code : List Instruction) (addr target : Nat) : Prop :=
  ∀ inst, code[addr]? = some inst → WithinReach inst.op addr target

/-- The distances are within the reach of the branches. A branch that is to land on another one which
is not there is not patched, and a branch that is not emitted is reported.
-/
def PatchFits (s : Emitter) : PatchRequest → Prop
  | .patchJump addr => s.fails = true ∨ ReachesFrom s.code addr s.code.length
  | .patchJumpTo addr target =>
      s.fails = true ∨ if target < s.code.length then ReachesFrom s.code addr target
        else LandsOn s.code addr target
  | .patchChain _ addrs =>
      s.fails = true ∨ ∀ addr ∈ addrs, ReachesFrom s.code addr s.code.length
  | .patchContinueChain _ _ _ => True
  | .condJumpBack memoryWide memory op a target =>
      let prefixed := s.emitPrefix memoryWide a
      (prefixed.ensureCodeCap memory).fails = true ∨ WithinReach op prefixed.code.length target

/-- A branch that is aimed at an address lands there exactly if that is within reach. -/
theorem BranchAt.aimed_lands_iff (site : BranchAt code addr inst) {code' : List Instruction}
    (repatched : Repatched code code') (aimed : code'[addr]? = some (Emitter.aimed inst addr target))
    (small : code.length ≤ maxCodeHard) (target_small : target ≤ maxCodeHard)
    : LandsOn code' addr target ↔ ReachesFrom code addr target := by
  have inside := (List.getElem?_eq_some_iff.mp site.at_addr).1
  have offset := @aimed_offset_iff addr target inst (by omega) target_small
  have reaches : ReachesFrom code addr target ↔ WithinReach inst.op addr target := by
    constructor
    · exact fun from_addr => from_addr inst site.at_addr
    · intro reach other found
      obtain rfl := Option.some.inj (site.at_addr.symm.trans found)
      exact reach
  rw [(site.repatched repatched aimed).lands_iff, reaches, ← offset]
  constructor <;> intro lands <;> omega

theorem aimed_idempotent (inst : Instruction) (addr target : Nat)
    : Emitter.aimed (Emitter.aimed inst addr target) addr target = Emitter.aimed inst addr target := by
  have a (op : Opcode) (n : BitVec 8) (offset : Int) : (makeASbx op n.toNat offset).a = n := by
    simp [makeASbx, makeABc, makeAbc]
  rw [Emitter.aimed.eq_def (Emitter.aimed inst addr target), aimed_op]
  rcases long : Emitter.isLongJump inst.op with - | -
  · simp only [Emitter.aimed, long, Bool.false_eq_true, if_false, a]
  · simp only [Emitter.aimed, long, if_true]

/-- One branch that is aimed at an address. -/
theorem aimed_one (site : BranchAt s.code addr inst) (small : s.code.length ≤ maxCodeHard)
    (target_small : target ≤ maxCodeHard)
    : LandsOn (s.code.modify addr (Emitter.aimed · addr target)) addr target
      ↔ ReachesFrom s.code addr target := by
  apply site.aimed_lands_iff _ _ small target_small
  · apply repatched_modify s.code (fun inst => aimed_op inst addr target)
    intro other found
    obtain rfl := Option.some.inj (site.at_addr.symm.trans found)
    exact site.branch
  · rw [List.getElem?_modify, site.at_addr, Option.map_eq_map, Option.map_some, if_pos rfl]

/-- The branches of a chain that are aimed at one address. -/
theorem aimed_all {addrs : List Nat} (sites : ∀ addr ∈ addrs, ∃ inst, BranchAt s.code addr inst)
    (small : s.code.length ≤ maxCodeHard) (target_small : target ≤ maxCodeHard) {addr : Nat}
    (mem : addr ∈ addrs)
    : LandsOn (modifyAll (Emitter.aimed · · target) s.code addrs) addr target
      ↔ ReachesFrom s.code addr target := by
  obtain ⟨inst, site⟩ := sites addr mem
  apply site.aimed_lands_iff _ _ small target_small
  · exact modifyAll_repatched (fun inst addr => aimed_op inst addr target) sites
  · rw [modifyAll_getElem? (fun inst addr => aimed_idempotent inst addr target), site.at_addr,
      Option.map_some, if_pos mem]

theorem aimedLong_eq {inst : Instruction} (long : Emitter.isLongJump inst.op = true)
    (addr target : Nat) : Emitter.aimedLong inst addr target = Emitter.aimed inst addr target := by
  rw [Emitter.aimed, long, if_pos rfl]
  rfl

/-- The jumps of a chain that are aimed at one address. -/
theorem aimedLong_all {addrs : List Nat}
    (sites : ∀ addr ∈ addrs, ∃ inst, BranchAt s.code addr inst ∧ Emitter.isLongJump inst.op = true)
    (small : s.code.length ≤ maxCodeHard) (target_small : target ≤ maxCodeHard) {addr : Nat}
    (mem : addr ∈ addrs)
    : LandsOn (modifyAll (Emitter.aimedLong · · target) s.code addrs) addr target := by
  obtain ⟨inst, site, long⟩ := sites addr mem
  refine (site.aimed_lands_iff ?_ ?_ small target_small).mpr ?_
  · exact @modifyAll_repatched _ (Emitter.aimedLong · · target) (fun inst addr => rfl) _
      fun addr mem =>
        let ⟨inst, site, _⟩ := sites addr mem
        ⟨inst, site⟩
  · rw [@modifyAll_getElem? (Emitter.aimedLong · · target) (fun inst addr => rfl), site.at_addr,
      Option.map_some, if_pos mem, aimedLong_eq long]
  · intro other found
    obtain rfl := Option.some.inj (site.at_addr.symm.trans found)
    exact .inl long

/-- A request whose code is known for all fuel that is enough. -/
theorem patchHolds_iff {request : PatchRequest} {s' : Emitter} {least : Nat}
    (runs : ∀ fuel, least ≤ fuel → request.run s fuel = some s')
    : PatchHolds s request
      ↔ s'.fails = true ∨ ∀ site ∈ request.intended s, LandsOn s'.code site.1 site.2 := by
  constructor
  · rintro ⟨enough, holds⟩
    obtain ⟨other, run, lands⟩ := holds (max enough least) (Nat.le_max_left _ _)
    obtain rfl := Option.some.inj ((runs _ (Nat.le_max_right _ _)).symm.trans run)
    exact lands
  · exact fun lands => ⟨least, fun fuel enough => ⟨s', runs fuel enough, lands⟩⟩

theorem patch_patchJump {addr : Nat} (sound : PatchSound s (.patchJump addr))
    : PatchHolds s (.patchJump addr) ↔ PatchFits s (.patchJump addr) := by
  obtain ⟨buffered, inst, site⟩ := sound
  have small := Nat.le_trans buffered.within buffered.small
  have runs : ∀ fuel, 0 ≤ fuel → (PatchRequest.patchJump addr).run s fuel = some (s.patchJump addr) :=
    fun _ _ => rfl
  rw [patchHolds_iff runs]
  apply or_congr Iff.rfl
  rw [PatchRequest.intended, List.forall_mem_singleton]
  exact aimed_one site small small

theorem patch_patchJumpTo {addr target : Nat} (sound : PatchSound s (.patchJumpTo addr target))
    : PatchHolds s (.patchJumpTo addr target) ↔ PatchFits s (.patchJumpTo addr target) := by
  obtain ⟨buffered, inst, site⟩ := sound
  have small := Nat.le_trans buffered.within buffered.small
  have runs : ∀ fuel, 0 ≤ fuel → (PatchRequest.patchJumpTo addr target).run s fuel
      = some (s.patchJumpTo addr target) := fun _ _ => rfl
  rw [patchHolds_iff runs, PatchFits, PatchRequest.intended, List.forall_mem_singleton, Emitter.patchJumpTo]
  split
  · exact or_congr Iff.rfl (aimed_one site small (by omega))
  · exact Iff.rfl

theorem patch_patchChain {head : Nat} {addrs : List Nat}
    (sound : PatchSound s (.patchChain head addrs))
    : PatchHolds s (.patchChain head addrs) ↔ PatchFits s (.patchChain head addrs) := by
  obtain ⟨buffered, ⟨walked, walk, complete⟩, sites⟩ := sound
  have small := Nat.le_trans buffered.within buffered.small
  have runs : ∀ fuel, walked.length + 1 ≤ fuel → (PatchRequest.patchChain head addrs).run s fuel
      = some { s with code := modifyAll (Emitter.aimed · · s.code.length) s.code walked } :=
    fun fuel enough => patchChain_eq walk enough
  rw [patchHolds_iff runs]
  rcases failed : s.fails with - | -
  · have complete : walked = addrs := by
      apply complete.resolve_left
      intro overflow
      rw [Emitter.fails, overflow, Bool.or_true] at failed
      cases failed
    subst complete
    rw [PatchFits, PatchRequest.intended]
    have same : ({ s with code := modifyAll (Emitter.aimed · · s.code.length) s.code walked } : Emitter).fails
        = s.fails := rfl
    apply or_congr (by rw [same])
    rw [List.forall_mem_map]
    exact forall₂_congr fun addr mem => aimed_all sites small small mem
  · exact ⟨fun _ => .inl failed, fun _ => .inl failed⟩

theorem patch_patchContinueChain {head target : Nat} {addrs : List Nat}
    (sound : PatchSound s (.patchContinueChain head target addrs))
    : PatchHolds s (.patchContinueChain head target addrs) := by
  obtain ⟨buffered, ⟨walked, walk, complete⟩, inside, sites⟩ := sound
  have small := Nat.le_trans buffered.within buffered.small
  have runs : ∀ fuel, walked.length + 1 ≤ fuel →
      (PatchRequest.patchContinueChain head target addrs).run s fuel
      = some { s with code := modifyAll (Emitter.aimedLong · · target) s.code walked } :=
    fun fuel enough => patchContinueChain_eq walk enough
  rw [patchHolds_iff runs]
  rcases complete with overflow | rfl
  · left
    rw [Emitter.fails, overflow, Bool.or_true]
  · right
    rw [PatchRequest.intended, List.forall_mem_map]
    exact fun addr mem => aimedLong_all sites small (Nat.le_trans inside small) mem

-----------------------------------------------------------------------------------------
-- Branches back
-----------------------------------------------------------------------------------------

/-- The buffer has room for an instruction, or an error is recorded. -/
theorem ensureCodeCap_spec (buffered : Buffered s) (memory : Bool)
    : (s.ensureCodeCap memory).code = s.code ∧ Buffered (s.ensureCodeCap memory)
      ∧ (s.fails = true → (s.ensureCodeCap memory).fails = true)
      ∧ ((s.ensureCodeCap memory).fails = true
        ∨ s.code.length < (s.ensureCodeCap memory).codeCap) := by
  obtain ⟨within, some, small⟩ := buffered
  have error : ({ s with error := true } : Emitter).fails = true := Bool.true_or _
  rw [Emitter.ensureCodeCap]
  split
  · rename_i room
    exact ⟨rfl, ⟨within, some, small⟩, id, .inr room⟩
  · split
    · exact ⟨rfl, ⟨within, some, small⟩, fun _ => error, .inl error⟩
    · rename_i fits
      split
      · exact ⟨rfl, ⟨within, some, small⟩, fun _ => error, .inl error⟩
      · exact ⟨rfl, ⟨by dsimp only; omega, by dsimp only; omega, by dsimp only; omega⟩, id,
          .inr (by dsimp only; omega)⟩

/-- An instruction is behind the others, unless the buffer is full, which is an error. -/
theorem emit_spec (buffered : Buffered s) (memory : Bool) (inst : Instruction)
    : Buffered (s.emit memory inst).1
      ∧ (s.emit memory inst).1.fails = (s.ensureCodeCap memory).fails
      ∧ ((s.ensureCodeCap memory).fails = true
        ∨ (s.emit memory inst).1.code = s.code ++ [inst]
          ∧ (s.emit memory inst).2 = s.code.length) := by
  obtain ⟨code, buffered', -, room⟩ := ensureCodeCap_spec buffered memory
  rw [Emitter.emit, code]
  split
  · rename_i full
    exact ⟨buffered', rfl, .inl (room.resolve_right (Nat.not_lt.mpr full))⟩
  · rename_i free
    refine ⟨⟨?_, buffered'.some, buffered'.small⟩, rfl, .inr ⟨rfl, rfl⟩⟩
    rw [List.length_append, List.length_singleton]
    exact Nat.lt_of_not_le free

/-- The prefix is behind the other instructions, if there is one. -/
theorem emitPrefix_spec (buffered : Buffered s) (memory : Bool) (a : Nat)
    : Buffered (s.emitPrefix memory a)
      ∧ ((s.emitPrefix memory a).fails = true
        ∨ (s.emitPrefix memory a).code = s.code
        ∨ (s.emitPrefix memory a).code = s.code ++ [Emitter.makeWide (a >>> 8) 0 0]) := by
  rw [Emitter.emitPrefix]
  split
  · have widened : Buffered { s with hasWide := true } := ⟨buffered.within, buffered.some, buffered.small⟩
    obtain ⟨buffered', fails, emitted⟩ :=
      emit_spec widened memory (Emitter.makeWide (a >>> 8) 0 0)
    rcases emitted with failed | ⟨code, -⟩
    · exact ⟨buffered', .inl (fails.trans failed)⟩
    · exact ⟨buffered', .inr (.inr code)⟩
  · exact ⟨buffered, .inr (.inl rfl)⟩

theorem patch_condJumpBack {memoryWide memory : Bool} {op : Opcode} {a target : Nat}
    (sound : PatchSound s (.condJumpBack memoryWide memory op a target))
    : PatchHolds s (.condJumpBack memoryWide memory op a target)
      ↔ PatchFits s (.condJumpBack memoryWide memory op a target) := by
  obtain ⟨buffered, short, inside, plain⟩ := sound
  have runs : ∀ fuel, 0 ≤ fuel → (PatchRequest.condJumpBack memoryWide memory op a target).run s fuel
      = some (s.emitCondJumpBack memoryWide memory op a target).1 := fun _ _ => rfl
  rw [patchHolds_iff runs, PatchFits, PatchRequest.intended, List.forall_mem_singleton,
    Emitter.emitCondJumpBack]
  obtain ⟨buffered', prefixed⟩ := emitPrefix_spec buffered memoryWide a
  generalize s.emitPrefix memoryWide a = p at *
  obtain ⟨-, -, stays, -⟩ := ensureCodeCap_spec buffered' memory
  obtain ⟨buffered'', fails, emitted⟩ :=
    emit_spec buffered' memory (makeASbx op a ((target : Int) - p.code.length - 1))
  rw [fails]
  rcases emitted with failed | ⟨code, index⟩
  · exact ⟨fun _ => .inl failed, fun _ => .inl failed⟩
  apply or_congr_right'
  intro fine
  have prefixed := prefixed.resolve_left fun failed => fine (stays failed)
  have long : Emitter.isLongJump op = false := by
    rcases short with rfl | rfl <;> rfl
  rw [index, code]
  have site : BranchAt (p.code ++ [makeASbx op a ((target : Int) - p.code.length - 1)])
      p.code.length (makeASbx op a ((target : Int) - p.code.length - 1)) := by
    refine ⟨List.getElem?_concat_length, ?_, ?_⟩
    · rcases short with rfl | rfl <;> rfl
    · intro later word place wide
      rw [List.getElem?_append_left (by omega)] at place
      rcases prefixed with same | widened
      · rw [same, ← List.getLast?_eq_getElem?] at place
        exact absurd wide (plain word place)
      · rw [← List.getLast?_eq_getElem?, widened, List.getLast?_concat] at place
        obtain rfl := Option.some.inj place
        exact ⟨rfl, rfl, long⟩
  rw [site.lands_iff, ← makeASbx_offset_iff long a]
  constructor <;> intro lands <;> omega

-----------------------------------------------------------------------------------------
-- All requests
-----------------------------------------------------------------------------------------

/-- The branches of a request land where they are to or the compilation fails, exactly where the
distances fit.
-/
theorem branches_iff (s : Emitter) (request : PatchRequest) (sound : PatchSound s request)
    : PatchHolds s request ↔ PatchFits s request := by
  cases request with
  | patchJump addr => exact patch_patchJump sound
  | patchJumpTo addr target => exact patch_patchJumpTo sound
  | patchChain head addrs => exact patch_patchChain sound
  | patchContinueChain head target addrs => exact ⟨fun _ => trivial, fun _ => patch_patchContinueChain sound⟩
  | condJumpBack memoryWide memory op a target => exact patch_condJumpBack sound

/-- A function with a branch and some instructions behind it. -/
def branchOver (branch : Instruction) (more : Nat) : Emitter :=
  ⟨branch :: List.replicate more nopWord, 65536, false, false, [], false⟩

theorem branchOver_sound {branch : Instruction} (is_branch : isBranch branch.op = true) {more : Nat}
    (small : more < 65536) : PatchSound (branchOver branch more) (.patchJump 0) := by
  refine ⟨⟨?_, show 0 < 65536 by decide, show 65536 ≤ maxCodeHard by decide⟩, branch, rfl, is_branch,
    fun later => absurd rfl later⟩
  rw [branchOver, List.length_cons, List.length_replicate]
  exact small

/-- A conditional branch over three instructions lands behind them. -/
theorem branches_iff_ifFalse
    : PatchHolds (branchOver (makeASbx .ifFalse 0 0) 3) (.patchJump 0) := by
  have sound : PatchSound (branchOver (makeASbx .ifFalse 0 0) 3) (.patchJump 0) :=
    branchOver_sound rfl (by decide)
  refine (branches_iff (branchOver (makeASbx .ifFalse 0 0) 3) (.patchJump 0) sound).mpr
    (.inr fun inst here => ?_)
  obtain rfl := Option.some.inj here
  exact .inr (by decide)

/-- A conditional branch over 40000 instructions does not land behind them. -/
theorem branches_truncated
    : ¬PatchHolds (branchOver (makeASbx .ifFalse 0 0) 40000) (.patchJump 0) := by
  intro holds
  have fits := (patch_patchJump (branchOver_sound rfl (by decide))).mp holds
  rcases fits with failed | reaches
  · cases failed
  · have reach := reaches _ rfl
    rw [branchOver, List.length_cons, List.length_replicate] at reach
    rcases reach with long | within
    · cases long
    · omega

end Boomkat.Correctness
