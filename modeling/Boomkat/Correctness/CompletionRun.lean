import Boomkat.Correctness.Completion

/-! Runs of a frame with try statements: machine and language agree. -/

namespace Boomkat.Correctness

open Foundation Bytecode Machine Exceptions

variable {code : List Instruction} {place : Nat → List Place} {run run' : Run} {choice : Choice}
  {script : Script} {ideal : Ideal} {active outer : List Active} {cats : List Catcher}
  {pc next : Nat} {insn : DecodedInsn}

-----------------------------------------------------------------------------------------
-- Agreement and the condition
-----------------------------------------------------------------------------------------

/-- The machine's frame has come to where the language's is. -/
def Reaches (code : List Instruction) (place : Nat → List Place) (script : Script)
    (completed : Position × List Active) : Prop :=
  script.position = completed.1
  ∧ ∀ pc, script.position = .at_ pc → Mirrored code place pc completed.2 script.cat

/-- The machine is at the end of a finally block with a return pending that the language has
already let go on.
-/
def OnItsWay (code : List Instruction) (place : Nat → List Place) (script : Script)
    (completed : Position × List Active) : Prop :=
  ∃ value pc, script.position = .at_ pc ∧ Leaving code place value pc script.cat completed

/-- Both have entered the same handlers, and they are at the same slot or have ended alike,
except on the way of a return by the ends of finally blocks.
-/
structure Agrees (code : List Instruction) (place : Nat → List Place) (run : Run) : Prop where
  handled : run.script.handled = run.ideal.handled
  position : Reaches code place run.script (run.ideal.position, run.ideal.active)
    ∨ OnItsWay code place run.script (run.ideal.position, run.ideal.active)

/-- The end of a finally block is one that the machine handles. `undefinedPending` says that the
throw of `undefined` is pending there.
-/
def FinallyFine (place : Nat → List Place) (next : Nat) (undefinedPending : Bool)
    : List Catcher → Prop
  | [] => True
  | cat :: parents =>
      if cat.pendingReturn then ReturnFine next parents
      else if cat.pendingBreak || cat.pendingContinue then
        JumpFine (parents.length - depthAt place cat.pendingPc) parents
      else undefinedPending = false

instance {undefinedPending : Bool} : Decidable (FinallyFine place next undefinedPending cats) :=
  match cats with
  | [] => isTrue trivial
  | cat :: parents =>
      inferInstanceAs (Decidable
        (if cat.pendingReturn then ReturnFine next parents
        else if cat.pendingBreak || cat.pendingContinue then
          JumpFine (parents.length - depthAt place cat.pendingPc) parents
        else undefinedPending = false))

/-- The throw of `undefined` is pending in the innermost finally block. -/
def undefinedPending : List Active → Bool
  | ⟨_, .finishing (some (.throw_ .undefined))⟩ :: _ => true
  | _ => false

/-- The step is one that the machine handles as the language does. -/
def Fine (code : List Instruction) (place : Nat → List Place) (run : Run) (_ : Choice) : Prop :=
  match run.script.position with
  | .ended _ => True
  | .at_ pc =>
      match fetch code pc with
      | none => True
      | some (insn, next) =>
          match insn.op with
          | .endfinally =>
              FinallyFine place next (undefinedPending run.ideal.active) run.script.cat
          | .break_ | .continue_ =>
              BreakFine (run.script.cat.length - depthAt place (branchTo next insn.getSabc))
                run.script.cat
          | _ => True

theorem fine_iff (at_pc : run.script.position = .at_ pc) (fetched : fetch code pc = some (insn, next))
    : Fine code place run choice
      ↔ if insn.op = .endfinally then
          FinallyFine place next (undefinedPending run.ideal.active) run.script.cat
        else if insn.op = .break_ ∨ insn.op = .continue_ then
          BreakFine (run.script.cat.length - depthAt place (branchTo next insn.getSabc))
            run.script.cat
        else True := by
  simp only [Fine, at_pc, fetched]
  split
  case h_1 ends => rw [if_pos ends]
  case h_2 breaks => simp only [breaks, reduceCtorEq, if_false, true_or, if_true]
  case h_3 continues => simp only [continues, reduceCtorEq, if_false, or_true, if_true]
  case h_4 stays noBreak noContinue => rw [if_neg stays, if_neg (not_or.mpr ⟨noBreak, noContinue⟩)]

instance (run : Run) (choice : Choice) : Decidable (Fine code place run choice) :=
  match at_pc : run.script.position with
  | .ended _ => isTrue (by simp [Fine, at_pc])
  | .at_ pc =>
      match fetched : fetch code pc with
      | none => isTrue (by simp [Fine, at_pc, fetched])
      | some (_, _) => decidable_of_iff _ (fine_iff at_pc fetched).symm

-----------------------------------------------------------------------------------------
-- Single instructions
-----------------------------------------------------------------------------------------

theorem Lands.reaches {leave : Halt} {transfer : Transfer} {completed : Position × List Active}
    (lands : Lands code place leave transfer completed) (script : Script)
    : Reaches code place (script.transfer leave transfer) completed := by
  cases transfer with
  | goto target cats =>
      obtain ⟨position, mirrored⟩ := lands
      refine ⟨position.symm, fun pc at_pc => ?_⟩
      obtain rfl : target = pc := by simpa [Script.transfer] using at_pc
      exact mirrored
  | leave => exact ⟨Eq.symm lands, nofun⟩
  | crash => exact lands.elim

theorem Returns.agrees {value : Value} {transfer : Transfer} {completed : Position × List Active}
    (returns : Returns code place value transfer completed) (script : Script)
    : Reaches code place (script.transfer (.returned value) transfer) completed
      ∨ OnItsWay code place (script.transfer (.returned value) transfer) completed := by
  rcases returns with lands | ⟨pc, cats, rfl, leaving⟩
  · exact .inl (lands.reaches script)
  · exact .inr ⟨value, pc, rfl, leaving⟩

/-- A catcher as `TRY` makes it is that of a try statement in its body. -/
theorem Mirrors.enter {region : Region} (found : tryRegion code insn next = some region)
    (kind : region.hasCatch ∨ region.finallyPc.isSome)
    (flags : insn.a = region.hasCatch.toNat + 2 * region.finallyPc.isSome.toNat)
    {slot : Instruction} (at_next : code[next]? = some slot)
    : Mirrors ⟨region, .body⟩
        (Catcher.enter insn.a (next + 1 - 2 + insn.getBc)
          (if slot.getBc ≠ 0 then some (next + 1 - 2 + slot.getBc) else none) none) := by
  simp only [tryRegion, at_next, Option.map_some, Option.some.injEq] at found
  have catchPc : next + 1 - 2 + insn.getBc = region.catchPc := by rw [← found]
  have finallyPc : (if slot.getBc ≠ 0 then some (next + 1 - 2 + slot.getBc) else none)
      = region.finallyPc := by rw [← found]
  rw [catchPc, finallyPc, flags]
  refine ⟨rfl, rfl, ?_, ?_, ?_, rfl, ⟨?_, ?_, ?_, rfl⟩, kind⟩ <;>
    cases region.hasCatch <;> cases region.finallyPc.isSome <;> rfl

theorem enterTry_reaches {script' : Script} (mirrored : Mirrored code place pc active cats)
    (chain : script.cat = cats) (taken : script.enterTry code insn next = some script')
    (placed : ∃ region, tryRegion code insn next = some region
      ∧ (region.hasCatch ∨ region.finallyPc.isSome)
      ∧ insn.a = region.hasCatch.toNat + 2 * region.finallyPc.isSome.toNat
      ∧ Settled (place pc) ∧ Handles code place region (place pc)
      ∧ place (next + 1) = (region, .body) :: place pc)
    : ∃ region, tryRegion code insn next = some region
      ∧ Reaches code place script' (.at_ (next + 1), ⟨region, .body⟩ :: active)
      ∧ script'.handled = script.handled := by
  obtain ⟨region, found, kind, flags, settled, handles, inner⟩ := placed
  subst chain
  rw [Script.enterTry, Option.map_eq_some_iff] at taken
  obtain ⟨slot, at_next, rfl⟩ := taken
  refine ⟨region, found, ⟨rfl, fun pc' at_pc => ?_⟩, rfl⟩
  obtain rfl : next + 1 = pc' := by simpa using at_pc
  refine ⟨.cons (Mirrors.enter found kind flags at_next) mirrored.catchers, ?_, ?_⟩
  · rw [List.map_cons, mirrored.places, inner]
    rfl
  · refine ⟨?_, nofun, ?_, mirrored.nested⟩
    · exact mirrored.places ▸ handles
    · exact mirrored.places ▸ settled

/-- The innermost try statement of a frame at a slot, and its catcher. -/
theorem Mirrored.innermost {region : Region} {part : Part} {around : List Place}
    (mirrored : Mirrored code place pc active cats)
    (at_pc : place pc = (region, part) :: around)
    : ∃ phase outer cat parents, active = ⟨region, phase⟩ :: outer ∧ cats = cat :: parents
      ∧ phase.part = part ∧ outer.map Active.place = around
      ∧ Mirrors ⟨region, phase⟩ cat ∧ List.Forall₂ Mirrors outer parents
      ∧ Nested code place (⟨region, phase⟩ :: outer) := by
  obtain ⟨catchers, places, nested⟩ := mirrored
  cases catchers with
  | nil =>
      rw [at_pc] at places
      cases places
  | @cons act cat outer parents mirrors rest =>
      rw [at_pc, List.map_cons, List.cons.injEq] at places
      obtain ⟨region', phase⟩ := act
      obtain ⟨rfl, same⟩ : region' = region ∧ phase.part = part := by
        simpa [Active.place] using places.1
      exact ⟨phase, outer, cat, parents, rfl, rfl, same, places.2, mirrors, rest, nested⟩

/-- What `ENDTRY` does to the catchers it does to the try statements. -/
theorem endTry_reaches (mirrored : Mirrored code place pc active cats)
    (chain : script.cat = cats) (same : ideal.active = active)
    (placed : ∃ region outer, place pc = (region, .body) :: outer ∧ Settled outer
      ∧ leads place (if region.finallyPc.isNone then outer else (region, .body) :: outer) next)
    : Reaches code place (script.endTry next)
        ((ideal.endTry place next).position, (ideal.endTry place next).active) := by
  obtain ⟨region, around, at_pc, settled, behind⟩ := placed
  obtain ⟨phase, outer, cat, parents, rfl, rfl, part, places, mirrors, rest, nested⟩ :=
    mirrored.innermost at_pc
  refine ⟨rfl, fun pc' at_pc' => ?_⟩
  obtain rfl : next = pc' := by simpa [Script.endTry] using at_pc'
  have owns : cat.finallyPc.isNone = region.finallyPc.isNone := by rw [mirrors.finallyPc]
  simp only [Script.endTry, Ideal.endTry, chain, same, owns]
  cases none : region.finallyPc.isNone with
  | true =>
      rw [none, if_pos rfl] at behind
      exact Mirrored.arrive rest nested.2.2.2 (places ▸ settled) (places ▸ behind)
  | false =>
      rw [none, if_neg Bool.false_ne_true] at behind
      have inside : (⟨region, phase⟩ :: outer).map Active.place = (region, .body) :: around := by
        rw [List.map_cons, places]
        exact congrArg (fun part => (region, part) :: around) part
      exact Mirrored.arrive (.cons mirrors rest) nested
        (inside ▸ List.forall_mem_cons.mpr ⟨rfl, settled⟩) (inside ▸ behind)

/-- `CATCH` reads what was caught, and a try statement with a finally block goes on. -/
theorem enterCatch_reaches (mirrored : Mirrored code place pc active cats)
    (chain : script.cat = cats) (same : ideal.active = active)
    (placed : ∃ region outer, place pc = (region, .catching) :: outer ∧ Settled outer
      ∧ leads place (if region.finallyPc.isNone then outer else (region, .handling) :: outer) next)
    (handled : script.handled = ideal.handled)
    : Reaches code place (script.enterCatch pc next)
        ((ideal.enterCatch place pc next).position, (ideal.enterCatch place pc next).active)
      ∧ (script.enterCatch pc next).handled = (ideal.enterCatch place pc next).handled := by
  obtain ⟨region, around, at_pc, settled, behind⟩ := placed
  obtain ⟨phase, outer, cat, parents, rfl, rfl, part, places, mirrors, rest, nested⟩ :=
    mirrored.innermost at_pc
  obtain ⟨thrown, rfl⟩ : ∃ thrown, phase = .caught thrown := by
    cases phase <;> first | exact ⟨_, rfl⟩ | cases part
  obtain ⟨disabled, inside, fresh, noReturn, noBreak, noContinue, caught⟩ := mirrors.phase
  have owns : cat.finallyPc.isNone = region.finallyPc.isNone := by rw [mirrors.finallyPc]
  simp only [Script.enterCatch, Ideal.enterCatch, chain, same, owns, caught, handled,
    and_true]
  refine ⟨rfl, fun pc' at_pc' => ?_⟩
  obtain rfl : next = pc' := by simpa using at_pc'
  cases none : region.finallyPc.isNone with
  | true =>
      rw [none, if_pos rfl] at behind
      exact Mirrored.arrive rest nested.2.2.2 (places ▸ settled) (places ▸ behind)
  | false =>
      rw [none, if_neg Bool.false_ne_true] at behind
      have kind : region.finallyPc.isSome := by
        cases found : region.finallyPc with
        | none => simp [found] at none
        | some _ => rfl
      have around' : (⟨region, .handling⟩ :: outer).map Active.place
          = (region, .handling) :: around := by
        rw [List.map_cons, places]
        rfl
      refine Mirrored.arrive (.cons ⟨mirrors.catchPc, mirrors.finallyPc, mirrors.finallyEnabled,
        disabled, inside, fresh, ⟨noReturn, noBreak, noContinue, rfl⟩, kind⟩ rest)
        ⟨nested.1, nofun, nested.2.2.1, nested.2.2.2⟩ ?_ (around' ▸ behind)
      exact around' ▸ List.forall_mem_cons.mpr ⟨rfl, settled⟩

/-- `FINALLY` marks the catcher of the try statement whose finally block it begins. -/
theorem enterFinally_reaches (mirrored : Mirrored code place pc active cats)
    (chain : script.cat = cats) (same : ideal.active = active)
    (placed : ∃ region outer, place pc = (region, .entering) :: outer ∧ Settled outer
      ∧ region.finallyPc = some pc ∧ next = pc + 1
      ∧ place next = (region, .finishing) :: outer)
    (handled : script.handled = ideal.handled)
    : Reaches code place (script.enterFinally code pc next)
        ((ideal.enterFinally pc next).position, (ideal.enterFinally pc next).active)
      ∧ (script.enterFinally code pc next).handled = (ideal.enterFinally pc next).handled := by
  obtain ⟨region, around, at_pc, _, here, rfl, behind⟩ := placed
  obtain ⟨phase, outer, cat, parents, rfl, rfl, part, places, mirrors, rest, nested⟩ :=
    mirrored.innermost at_pc
  obtain ⟨pending, rfl⟩ : ∃ pending, phase = .entering pending := by
    cases phase <;> first | exact ⟨_, rfl⟩ | cases part
  obtain ⟨inside, fresh, pends, kind⟩ := mirrors.phase
  simp only [Script.enterFinally, Ideal.enterFinally, chain, markFinally, same, handled, and_true]
  refine ⟨rfl, fun pc' at_pc' => ?_⟩
  obtain rfl : pc + 1 = pc' := by simpa using at_pc'
  have ending : cat.endfinallyPc.or (findMatchingEndfinally code (pc + 1 - 1))
      = some region.endfinallyPc := by
    rw [fresh, Option.none_or, Nat.add_sub_cancel]
    exact (nested.1.finally_ pc here).2
  refine ⟨.cons ⟨mirrors.catchPc, mirrors.finallyPc, mirrors.finallyEnabled, rfl, rfl, ending, ?_,
    kind⟩ rest, ?_, ?_⟩
  · cases pending with
    | none => exact pends
    | some completion => cases completion <;> exact pends
  · rw [List.map_cons, places, behind]
    rfl
  · exact ⟨nested.1, nested.2.1, nested.2.2.1, nested.2.2.2⟩

/-- `ENDFINALLY` goes on with what was pending. -/
theorem leaveFinally_reaches (mirrored : Mirrored code place pc active cats)
    (chain : script.cat = cats) (same : ideal.active = active)
    (placed : ∃ region outer, place pc = (region, .finishing) :: outer ∧ Settled outer
      ∧ leads place outer next)
    (fine : FinallyFine place next (undefinedPending active) cats)
    : (Reaches code place (script.leaveFinally next)
          ((ideal.leaveFinally place next).position, (ideal.leaveFinally place next).active)
        ∨ OnItsWay code place (script.leaveFinally next)
          ((ideal.leaveFinally place next).position, (ideal.leaveFinally place next).active)) := by
  obtain ⟨region, around, at_pc, settled, behind⟩ := placed
  obtain ⟨phase, outer, cat, parents, rfl, rfl, part, places, mirrors, rest, nested⟩ :=
    mirrored.innermost at_pc
  have settled' : Settled (outer.map Active.place) := places ▸ settled
  obtain ⟨pending, rfl⟩ : ∃ pending, phase = .finishing pending := by
    cases phase <;> first | exact ⟨_, rfl⟩ | cases part
  obtain ⟨_, _, _, pends, kind⟩ := mirrors.phase
  have enabled : cat.finallyEnabled = true := mirrors.finallyEnabled.trans kind
  cases pending with
  | none =>
      obtain ⟨noReturn, noBreak, noContinue, nothing⟩ := pends
      have ends : endFinally next script.cat = .transfer (.goto next parents) := by
        simp [chain, endFinally, enabled, noReturn, noBreak, noContinue, nothing]
      refine .inl ?_
      simp only [Script.leaveFinally, ends, Ideal.leaveFinally, same]
      refine ⟨rfl, fun pc' at_pc' => ?_⟩
      obtain rfl : next = pc' := by simpa [Script.transfer] using at_pc'
      exact Mirrored.arrive rest nested.2.2.2 settled' (places ▸ behind)
  | some completion =>
      simp only [Script.leaveFinally, Ideal.leaveFinally, same]
      cases completion with
      | throw_ thrown =>
          obtain ⟨noReturn, noBreak, noContinue, rfl⟩ := pends
          have something : cat.thrownVal ≠ .undefined := by
            intro undefined
            simp [FinallyFine, noReturn, noBreak, noContinue, undefinedPending, undefined] at fine
          have ends : endFinally next script.cat = .rethrow cat.thrownVal parents := by
            simp [chain, endFinally, enabled, noReturn, noBreak, noContinue, something]
          rw [ends]
          exact .inl ((throw_lands cat.thrownVal rest nested.2.2.2 settled').reaches script)
      | return_ value =>
          obtain ⟨pending, saved⟩ := pends
          have ends : endFinally next script.cat = resumeReturn cat next parents := by
            simp [chain, endFinally, enabled, pending]
          have fine' : ReturnFine next parents := by simpa [FinallyFine, pending] using fine
          rw [ends]
          rcases resumeReturn_returns saved rest nested.2.2.2 settled' fine' with
            ⟨done, left⟩ | ⟨target, cats, went, returns⟩
          · rw [done]
            exact .inl ⟨Eq.symm left, fun _ no => by cases no⟩
          · rw [went]
            exact returns.agrees script
      | jump target =>
          obtain ⟨noReturn, pending, rfl⟩ := pends
          have ends : endFinally next script.cat = resumeBreak cat parents := by
            simp only [chain, endFinally, enabled, noReturn, pending]
            rfl
          have fine' : JumpFine (parents.length - depthAt place cat.pendingPc) parents := by
            simpa [FinallyFine, noReturn, pending] using fine
          rw [ends, resumeBreak_redirects cat rest]
          rw [← rest.length_eq] at fine'
          exact .inl ((redirect_lands cat.pendingBreak cat.pendingPc rest nested.2.2.2 settled'
            (nested.2.1 _ rfl) fine').reaches script)

-----------------------------------------------------------------------------------------
-- Steps and runs
-----------------------------------------------------------------------------------------

/-- An instruction of the program goes on inside of the same try statements, or comes to the
finally block behind them.
-/
theorem arrive_reaches {target : Nat} (mirrored : Mirrored code place pc active cats)
    (chain : script.cat = cats) (same : ideal.active = active) (settled : Settled (place pc))
    (led : leads place (place pc) target = true)
    : Reaches code place { script with position := .at_ target }
        ((ideal.arrive place target).position, (ideal.arrive place target).active) := by
  refine ⟨rfl, fun pc' at_pc' => ?_⟩
  obtain rfl : target = pc' := by simpa using at_pc'
  simp only [Ideal.arrive, chain, same]
  have places := mirrored.places
  exact Mirrored.arrive mirrored.catchers mirrored.nested (places ▸ settled) (places ▸ led)

/-- On the way of a return the language is elsewhere: at a finally block, or out of the frame. -/
theorem complete_return_elsewhere {value : Value} {target : Nat}
    (nested : Nested code place active)
    (reached : (complete place (.return_ value) active).1 = .at_ target)
    : ∃ region around, place target = (region, .entering) :: around := by
  induction active with
  | nil => cases reached
  | cons act outer ih =>
      have entered : ∀ pc, act.region.finallyPc = some pc → pc = target →
          ∃ region around, place target = (region, .entering) :: around := by
        rintro pc found rfl
        exact ⟨_, _, (nested.1.finally_ pc found).1⟩
      simp only [complete, Abrupt.staysIn, Bool.false_eq_true, if_false] at reached
      cases phase : act.phase with
      | entering _ => exact ih nested.2.2.2 (by simpa only [phase] using reached)
      | finishing _ => exact ih nested.2.2.2 (by simpa only [phase] using reached)
      | body | caught _ | handling =>
          cases found : act.region.finallyPc with
          | none => exact ih nested.2.2.2 (by simpa only [phase, found] using reached)
          | some pc =>
              simp only [phase, found] at reached
              exact entered pc found (by simpa using reached)

/-- A frame of the machine and one of the language after an instruction. -/
def Follows (code : List Instruction) (place : Nat → List Place) (script : Script)
    (ideal : Ideal) : Prop :=
  script.handled = ideal.handled
  ∧ (Reaches code place script (ideal.position, ideal.active)
    ∨ OnItsWay code place script (ideal.position, ideal.active))

theorem Script.transfer_handled (script : Script) (leave : Halt) (transfer : Transfer)
    : (script.transfer leave transfer).handled = script.handled := by
  cases transfer <;> rfl

theorem Script.leaveFinally_handled (script : Script) (next : Nat)
    : (script.leaveFinally next).handled = script.handled := by
  unfold Script.leaveFinally
  split
  · exact Script.transfer_handled ..
  · rfl
  · exact Script.transfer_handled ..

theorem Ideal.leaveFinally_handled (ideal : Ideal) (place : Nat → List Place) (next : Nat)
    : (ideal.leaveFinally place next).handled = ideal.handled := by
  unfold Ideal.leaveFinally
  split <;> rfl

/-- A break or continue on both frames. -/
theorem break_follows (isBreak : Bool) {target : Nat}
    (mirrored : Mirrored code place pc active cats) (chain : script.cat = cats)
    (same : ideal.active = active) (handled : script.handled = ideal.handled)
    (placed : Settled (place pc) ∧ LeadsOut place target (place pc))
    (fine : BreakFine (script.cat.length - depthAt place target) script.cat)
    : Follows code place (script.transfer .crashed (breakThrough isBreak target script.cat))
        (ideal.complete place (.jump target) ideal.active) := by
  subst chain same
  rw [← mirrored.catchers.length_eq] at fine
  have settled : Settled (ideal.active.map Active.place) := mirrored.places ▸ placed.1
  have inside : LeadsOut place target (ideal.active.map Active.place) :=
    mirrored.places ▸ placed.2
  exact ⟨(Script.transfer_handled ..).trans handled, .inl
    ((break_lands isBreak target mirrored.catchers mirrored.nested settled inside fine).reaches
      script)⟩

/-- A return on both frames. -/
theorem return_follows (fromGenerator : Bool) (value : Value)
    (mirrored : Mirrored code place pc active cats) (chain : script.cat = cats)
    (same : ideal.active = active) (handled : script.handled = ideal.handled)
    (settled : Settled (place pc))
    : Follows code place
        (script.transfer (.returned value) (returnThrough value fromGenerator next script.cat))
        (ideal.complete place (.return_ value) ideal.active) := by
  subst chain same
  have settled' : Settled (ideal.active.map Active.place) := mirrored.places ▸ settled
  exact ⟨(Script.transfer_handled ..).trans handled,
    (return_lands value fromGenerator next mirrored.catchers mirrored.nested settled').agrees
      script⟩

/-- A throw on both frames. -/
theorem throw_follows (thrown : Value) (mirrored : Mirrored code place pc active cats)
    (chain : script.cat = cats) (same : ideal.active = active)
    (handled : script.handled = ideal.handled) (settled : Settled (place pc))
    : Follows code place (script.throw thrown script.cat)
        (ideal.complete place (.throw_ thrown) ideal.active) := by
  subst chain same
  have settled' : Settled (ideal.active.map Active.place) := mirrored.places ▸ settled
  exact ⟨(Script.transfer_handled ..).trans handled, .inl
    ((throw_lands thrown mirrored.catchers mirrored.nested settled').reaches script)⟩

/-- The same instruction on both frames. -/
theorem dispatch_follows {script' : Script} (mirrored : Mirrored code place pc active cats)
    (chain : script.cat = cats) (same : ideal.active = active)
    (handled : script.handled = ideal.handled) (at_pc : script.position = .at_ pc)
    (fetched : fetch code pc = some (insn, next)) (placed : Placed code place pc insn next)
    (fine : Fine code place ⟨script, ideal⟩ choice) (isLegal : legal place (.at_ pc) choice = true)
    (taken : script.dispatch code pc insn next choice = some script')
    : Follows code place script' (ideal.dispatch code place pc insn next choice) := by
  simp only [Fine, at_pc, fetched] at fine
  unfold Script.dispatch at taken
  split at taken
  · rename_i op
    simp only [Placed, op] at placed
    simp only [Ideal.dispatch, op]
    obtain ⟨region, found, reaches, handled'⟩ := enterTry_reaches mirrored chain taken placed
    simp only [Follows, Ideal.enterTry, found, same]
    exact ⟨handled'.trans handled, .inl reaches⟩
  · rename_i op
    cases taken
    simp only [Placed, op] at placed
    simp only [Ideal.dispatch, op]
    exact ⟨handled, .inl (endTry_reaches mirrored chain same placed)⟩
  · rename_i op
    cases taken
    simp only [Placed, op] at placed
    simp only [Ideal.dispatch, op]
    obtain ⟨reaches, handled'⟩ := enterCatch_reaches mirrored chain same placed handled
    exact ⟨handled', .inl reaches⟩
  · rename_i op
    cases taken
    simp only [Placed, op] at placed
    simp only [Ideal.dispatch, op]
    obtain ⟨reaches, handled'⟩ := enterFinally_reaches mirrored chain same placed handled
    exact ⟨handled', .inl reaches⟩
  · rename_i op
    cases taken
    simp only [Placed, op] at placed
    simp only [op] at fine
    simp only [Ideal.dispatch, op]
    refine ⟨?_, leaveFinally_reaches mirrored chain same placed (by rwa [same, chain] at fine)⟩
    rw [Script.leaveFinally_handled, Ideal.leaveFinally_handled, handled]
  · rename_i op
    cases taken
    simp only [Placed, op] at placed
    simp only [op] at fine
    simp only [Ideal.dispatch, op]
    exact break_follows _ mirrored chain same handled placed fine
  · rename_i op
    cases taken
    simp only [Placed, op] at placed
    simp only [op] at fine
    simp only [Ideal.dispatch, op]
    exact break_follows _ mirrored chain same handled placed fine
  · rename_i op
    split at taken
    · cases taken
      simp only [Placed, op] at placed
      simp only [Ideal.dispatch, op]
      exact return_follows _ _ mirrored chain same handled placed
    · cases taken
  · rename_i op
    split at taken
    · cases taken
      simp only [Placed, op] at placed
      simp only [Ideal.dispatch, op]
      exact return_follows _ _ mirrored chain same handled placed
    · cases taken
  · rename_i op
    split at taken
    · cases taken
      simp only [Placed, op] at placed
      simp only [Ideal.dispatch, op]
      exact return_follows _ _ mirrored chain same handled placed
    · cases taken
  · rename_i op
    split at taken
    · cases taken
      simp only [Placed, op] at placed
      simp only [Ideal.dispatch, op]
      exact return_follows _ _ mirrored chain same handled placed
    · cases taken
  · -- An instruction that is not about try statements.
    rename_i notTry notEndtry notCatch notFinally notEndfinally notBreak notContinue _ _ _ _
    have settled : Settled (place pc) := by
      unfold Placed at placed
      split at placed <;> first | contradiction | exact placed
    unfold Ideal.dispatch
    split <;> first | contradiction | skip
    split at taken
    · cases taken
      exact ⟨handled, .inl (arrive_reaches mirrored chain same settled isLegal)⟩
    · cases taken
      exact throw_follows _ mirrored chain same handled settled
    · cases taken

/-- The machine goes on at the end of a finally block, on the way of a return. -/
theorem Leaving.leaveFinally {value : Value} {completed : Position × List Active}
    (leaving : Leaving code place value pc script.cat completed)
    (fine : ∀ undefined, FinallyFine place next undefined script.cat)
    : Reaches code place (script.leaveFinally next) completed
      ∨ OnItsWay code place (script.leaveFinally next) completed := by
  obtain ⟨cat, parents, outer, chain, enabled, pending, saved, rest, nested, settled, rfl⟩ :=
    leaving.front
  have ends : endFinally next script.cat = resumeReturn cat next parents := by
    simp [chain, endFinally, enabled, pending]
  have fine' : ReturnFine next parents := by
    simpa [chain, FinallyFine, pending] using fine false
  rcases resumeReturn_returns saved rest nested settled fine' with
    ⟨done, left⟩ | ⟨target, cats, went, returns⟩
  · rw [Script.leaveFinally, ends, done]
    exact .inl ⟨Eq.symm left, fun _ no => by cases no⟩
  · rw [Script.leaveFinally, ends, went]
    exact returns.agrees script

/-- The end of a finally block as it is fetched. -/
theorem fetch_endfinally (closes : (code[pc]?).map Instruction.op = some .endfinally)
    (fetched : fetch code pc = some (insn, next))
    : insn.op = .endfinally := by
  rw [Option.map_eq_some_iff] at closes
  obtain ⟨word, at_pc, op⟩ := closes
  simp only [fetch, at_pc, op] at fetched
  obtain ⟨rfl, rfl⟩ : word.decode = insn ∧ pc + 1 = next := by simpa using fetched
  exact op

/-- One instruction, of both frames or of the machine on the way of a return. -/
theorem Agrees.step (layout : Layout code place) (agrees : Agrees code place run)
    (fine : Fine code place run choice) (taken : run.step code place choice = some run')
    : Agrees code place run' := by
  unfold Run.step at taken
  split at taken
  · rename_i isLegal
    rw [Option.map_eq_some_iff] at taken
    obtain ⟨script', stepped, rfl⟩ := taken
    cases at_pc : run.script.position with
    | ended halt => simp [Script.step, at_pc] at stepped
    | at_ pc =>
        simp only [Script.step, at_pc, Option.bind_eq_some_iff] at stepped
        obtain ⟨⟨insn, next⟩, fetched, dispatched⟩ := stepped
        have placed := layout.placed pc insn next fetched
        rcases agrees.position with ⟨together, mirrored⟩ | ⟨value, pc', at_pc', leaving⟩
        · have together' : run.ideal.position = .at_ pc := together.symm.trans at_pc
          have follows := dispatch_follows (mirrored pc at_pc) rfl rfl agrees.handled at_pc fetched
            placed fine (at_pc ▸ isLegal) dispatched
          have stepped' : run.ideal.step code place choice
              = run.ideal.dispatch code place pc insn next choice := by
            simp only [Ideal.step, together', fetched]
          rw [together', if_pos rfl, stepped']
          exact ⟨follows.1, follows.2⟩
        · obtain rfl : pc = pc' := by simpa [at_pc] using at_pc'
          have op : insn.op = .endfinally := fetch_endfinally leaving.closes fetched
          have elsewhere : run.ideal.position ≠ .at_ pc := by
            intro here
            obtain ⟨_, _, outer, _, _, _, _, _, nested, _, completed⟩ := leaving.front
            have reached : (complete place (.return_ value) outer).1 = .at_ pc :=
              completed ▸ here
            obtain ⟨region, around, entering⟩ := complete_return_elsewhere nested reached
            simp only [Placed, op] at placed
            obtain ⟨_, _, finishing, _⟩ := placed
            rw [entering] at finishing
            cases finishing
          have fine' : ∀ undefined, FinallyFine place next undefined run.script.cat := by
            obtain ⟨cat, parents, _, chain, _, pending, _⟩ := leaving.front
            intro undefined
            simpa [Fine, at_pc, fetched, op, chain, FinallyFine, pending] using fine
          obtain rfl : run.script.leaveFinally next = script' := by
            simpa [Script.dispatch, op] using dispatched
          rw [if_neg elsewhere]
          exact ⟨(Script.leaveFinally_handled ..).trans agrees.handled,
            leaving.leaveFinally fine'⟩
  · cases taken

theorem Agrees.start (layout : Layout code place) : Agrees code place Run.start := by
  refine ⟨rfl, .inl ⟨rfl, fun pc at_pc => ?_⟩⟩
  obtain rfl : 0 = pc := by simpa [Run.start] using at_pc
  exact ⟨.nil, layout.start.symm, trivial⟩

/-- `try { try { throw v } catch { return w } finally {} } finally {}` -/
def nested : List Instruction :=
  [makeABc .try_ 2 13, makeABc .nop 0 13, makeABc .try_ 3 5, makeABc .nop 0 7,
    makeAbc .throw 0 0 0, makeAbc .endtry 0 0 0, makeSabc .jump 2, makeAbc .catch_ 2 0 0,
    makeAbc .ret 1 0 0, makeAbc .finally_ 0 0 0, makeAbc .endfinally 0 0 0, makeAbc .endtry 0 0 0,
    makeSabc .jump 0, makeAbc .finally_ 0 0 0, makeAbc .endfinally 0 0 0, makeAbc .retundef 0 0 0]

def outerRegion : Region where
  hasCatch := false
  catchPc := 13
  finallyPc := some 13
  endfinallyPc := 14

def innerRegion : Region where
  hasCatch := true
  catchPc := 7
  finallyPc := some 9
  endfinallyPc := 10

def nestedPlace : Nat → List Place
  | 2 | 3 | 11 | 12 => [(outerRegion, .body)]
  | 4 | 5 | 6 => [(innerRegion, .body), (outerRegion, .body)]
  | 7 => [(innerRegion, .catching), (outerRegion, .body)]
  | 8 => [(innerRegion, .handling), (outerRegion, .body)]
  | 9 => [(innerRegion, .entering), (outerRegion, .body)]
  | 10 => [(innerRegion, .finishing), (outerRegion, .body)]
  | 13 => [(outerRegion, .entering)]
  | 14 => [(outerRegion, .finishing)]
  | _ => []

theorem nested_layout : Layout nested nestedPlace where
  start := rfl
  placed := by
    have outerHandles : Handles nested nestedPlace outerRegion [] := by
      refine ⟨by decide, fun pc at_pc => ?_⟩
      obtain rfl : 13 = pc := by simpa [outerRegion] using at_pc
      decide
    have innerHandles : Handles nested nestedPlace innerRegion [(outerRegion, .body)] := by
      refine ⟨fun _ => rfl, fun pc at_pc => ?_⟩
      obtain rfl : 9 = pc := by simpa [innerRegion] using at_pc
      decide
    intro pc insn next fetched
    match pc with
    | 0 =>
        obtain ⟨rfl, rfl⟩ := Prod.mk.inj (Option.some.inj fetched)
        exact ⟨outerRegion, by decide, by decide, by decide, by decide, outerHandles, rfl⟩
    | 2 =>
        obtain ⟨rfl, rfl⟩ := Prod.mk.inj (Option.some.inj fetched)
        exact ⟨innerRegion, by decide, by decide, by decide, by decide, innerHandles, rfl⟩
    | 1 | 3 | 4 | 6 | 8 | 12 | 15 =>
        obtain ⟨rfl, rfl⟩ := Prod.mk.inj (Option.some.inj fetched)
        change Settled (nestedPlace _)
        decide
    | 5 =>
        obtain ⟨rfl, rfl⟩ := Prod.mk.inj (Option.some.inj fetched)
        exact ⟨innerRegion, [(outerRegion, .body)], rfl, by decide, by decide⟩
    | 7 =>
        obtain ⟨rfl, rfl⟩ := Prod.mk.inj (Option.some.inj fetched)
        exact ⟨innerRegion, [(outerRegion, .body)], rfl, by decide, by decide⟩
    | 9 =>
        obtain ⟨rfl, rfl⟩ := Prod.mk.inj (Option.some.inj fetched)
        exact ⟨innerRegion, [(outerRegion, .body)], rfl, by decide, rfl, rfl, rfl⟩
    | 10 =>
        obtain ⟨rfl, rfl⟩ := Prod.mk.inj (Option.some.inj fetched)
        exact ⟨innerRegion, [(outerRegion, .body)], rfl, by decide, by decide⟩
    | 11 =>
        obtain ⟨rfl, rfl⟩ := Prod.mk.inj (Option.some.inj fetched)
        exact ⟨outerRegion, [], rfl, by decide, by decide⟩
    | 13 =>
        obtain ⟨rfl, rfl⟩ := Prod.mk.inj (Option.some.inj fetched)
        exact ⟨outerRegion, [], rfl, by decide, rfl, rfl, rfl⟩
    | 14 =>
        obtain ⟨rfl, rfl⟩ := Prod.mk.inj (Option.some.inj fetched)
        exact ⟨outerRegion, [], rfl, by decide, by decide⟩
    | _ + 16 => cases fetched

/-- The run of the nested statements: the inner catch clause has `null` and returns `true`. -/
def nestedChoices : List Choice :=
  [.returns .undefined, .returns .undefined, .throws .null, .returns .undefined,
    .returns (.boolean true), .returns .undefined, .returns .undefined, .returns .undefined,
    .returns .undefined]

/-- `try { throw v } finally {}` -/
def throwing : List Instruction :=
  [makeABc .try_ 2 5, makeABc .nop 0 5, makeAbc .throw 0 0 0, makeAbc .endtry 0 0 0,
    makeSabc .jump 0, makeAbc .finally_ 0 0 0, makeAbc .endfinally 0 0 0, makeAbc .retundef 0 0 0]

def throwingRegion : Region where
  hasCatch := false
  catchPc := 5
  finallyPc := some 5
  endfinallyPc := 6

def throwingPlace : Nat → List Place
  | 2 | 3 | 4 => [(throwingRegion, .body)]
  | 5 => [(throwingRegion, .entering)]
  | 6 => [(throwingRegion, .finishing)]
  | _ => []

theorem throwing_layout : Layout throwing throwingPlace where
  start := rfl
  placed := by
    have outside : Settled [] := fun _ member => absurd member List.not_mem_nil
    have handles : Handles throwing throwingPlace throwingRegion [] := by
      refine ⟨by decide, fun pc at_pc => ?_⟩
      obtain rfl : 5 = pc := by simpa [throwingRegion] using at_pc
      decide
    have inBody : Settled [(throwingRegion, .body)] := by
      intro place member
      obtain rfl := List.mem_singleton.mp member
      rfl
    intro pc insn next fetched
    match pc with
    | 0 =>
        obtain ⟨rfl, rfl⟩ := Prod.mk.inj (Option.some.inj fetched)
        exact ⟨throwingRegion, by decide, by decide, by decide, outside, handles, rfl⟩
    | 1 | 7 =>
        obtain ⟨rfl, rfl⟩ := Prod.mk.inj (Option.some.inj fetched)
        exact outside
    | 2 | 4 =>
        obtain ⟨rfl, rfl⟩ := Prod.mk.inj (Option.some.inj fetched)
        exact inBody
    | 3 =>
        obtain ⟨rfl, rfl⟩ := Prod.mk.inj (Option.some.inj fetched)
        exact ⟨throwingRegion, [], rfl, outside, by decide⟩
    | 5 =>
        obtain ⟨rfl, rfl⟩ := Prod.mk.inj (Option.some.inj fetched)
        exact ⟨throwingRegion, [], rfl, outside, rfl, rfl, rfl⟩
    | 6 =>
        obtain ⟨rfl, rfl⟩ := Prod.mk.inj (Option.some.inj fetched)
        exact ⟨throwingRegion, [], rfl, outside, by decide⟩
    | _ + 8 => cases fetched

/-- The run of `try { throw v } finally {}`. Only `throw` lets the program choose. -/
def throwingChoices (thrown : Value) : List Choice :=
  [.returns .undefined, .throws thrown, .returns .undefined, .returns .undefined]

end Boomkat.Correctness
