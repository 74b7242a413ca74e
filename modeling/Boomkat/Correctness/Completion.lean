import Mathlib.Data.List.Forall2
import Boomkat.Exceptions.Completion
import Boomkat.Foundation.Replay

/-! The catcher chain of a frame against the try statements that control is in. -/

namespace Boomkat.Correctness

open Foundation Bytecode Machine Exceptions

-----------------------------------------------------------------------------------------
-- What a catcher says of its try statement
-----------------------------------------------------------------------------------------

/-- What a catcher holds for the end of its finally block. -/
def Pends (cat : Catcher) : Option Abrupt → Prop
  | none =>
      cat.pendingReturn = false ∧ cat.pendingBreak = false ∧ cat.pendingContinue = false
        ∧ cat.thrownVal = .undefined
  | some (.throw_ thrown) =>
      cat.pendingReturn = false ∧ cat.pendingBreak = false ∧ cat.pendingContinue = false
        ∧ cat.thrownVal = thrown
  | some (.return_ value) => cat.pendingReturn = true ∧ cat.returnVal = value
  | some (.jump target) =>
      cat.pendingReturn = false ∧ (cat.pendingBreak || cat.pendingContinue) = true
        ∧ cat.pendingPc = target

/-- The flags of a catcher fit where control is in its try statement. -/
def InPhase (cat : Catcher) (region : Region) : Phase → Prop
  | .body =>
      cat.catchEnabled = region.hasCatch ∧ cat.inFinally = false ∧ cat.endfinallyPc = none
        ∧ Pends cat none ∧ (region.hasCatch ∨ region.finallyPc.isSome)
  | .caught thrown =>
      cat.catchEnabled = false ∧ cat.inFinally = false ∧ cat.endfinallyPc = none
        ∧ Pends cat (some (.throw_ thrown))
  | .handling =>
      cat.catchEnabled = false ∧ cat.inFinally = false ∧ cat.endfinallyPc = none
        ∧ Pends cat none ∧ region.finallyPc.isSome
  | .entering pending =>
      cat.inFinally = false ∧ cat.endfinallyPc = none ∧ Pends cat pending
        ∧ region.finallyPc.isSome
  | .finishing pending =>
      cat.catchEnabled = false ∧ cat.inFinally = true
        ∧ cat.endfinallyPc = some region.endfinallyPc ∧ Pends cat pending
        ∧ region.finallyPc.isSome

/-- The catcher is that of the try statement. -/
structure Mirrors (act : Active) (cat : Catcher) : Prop where
  catchPc : cat.catchPc = act.region.catchPc
  finallyPc : cat.finallyPc = act.region.finallyPc
  finallyEnabled : cat.finallyEnabled = act.region.finallyPc.isSome
  phase : InPhase cat act.region act.phase

/-- The completion that waits for the end of a finally block. -/
def Phase.pending : Phase → Option Abrupt
  | .entering pending | .finishing pending => pending
  | .body | .caught _ | .handling => none

/-- The handlers of the try statements are where the layout puts them, and a pending jump leads to
a place around its finally block.
-/
def Nested (code : List Instruction) (place : Nat → List Place) : List Active → Prop
  | [] => True
  | act :: outer =>
      Handles code place act.region (outer.map Active.place)
        ∧ (∀ target, Phase.pending act.phase = some (.jump target) →
          LeadsOut place target (outer.map Active.place))
        ∧ Settled (outer.map Active.place)
        ∧ Nested code place outer

/-- The machine's frame at a slot is that of the language. -/
structure Mirrored (code : List Instruction) (place : Nat → List Place) (pc : Nat)
    (active : List Active) (cats : List Catcher) : Prop where
  catchers : List.Forall₂ Mirrors active cats
  places : active.map Active.place = place pc
  nested : Nested code place active

/-- A transfer of the machine is a completion of the language. -/
def Lands (code : List Instruction) (place : Nat → List Place) (leave : Halt)
    (transfer : Transfer) (completed : Position × List Active) : Prop :=
  match transfer with
  | .goto pc cats => completed.1 = .at_ pc ∧ Mirrored code place pc completed.2 cats
  | .leave => completed.1 = .ended leave
  | .crash => False

variable {code : List Instruction} {place : Nat → List Place} {act : Active}
  {active outer : List Active} {cat : Catcher} {cats parents : List Catcher} {pc : Nat}

theorem Mirrors.enabled_iff (mirrors : Mirrors act cat)
    : cat.finallyEnabled = cat.finallyPc.isSome := by
  rw [mirrors.finallyEnabled, mirrors.finallyPc]

/-- Entering the finally block of the innermost try statement with a completion pending. -/
theorem Mirrored.entering {target : Nat} {pending : Option Abrupt}
    (nested : Nested code place (act :: outer)) (mirrored : List.Forall₂ Mirrors outer parents)
    (found : act.region.finallyPc = some target) (mirrors : Mirrors act cat) {cat' : Catcher}
    (same : cat'.catchPc = cat.catchPc ∧ cat'.finallyPc = cat.finallyPc
      ∧ cat'.finallyEnabled = cat.finallyEnabled)
    (fresh : cat'.inFinally = false ∧ cat'.endfinallyPc = none) (pends : Pends cat' pending)
    (inside : ∀ target, pending = some (.jump target) →
      LeadsOut place target (outer.map Active.place))
    : Mirrored code place target ({ act with phase := .entering pending } :: outer)
        (cat' :: parents) where
  catchers := by
    refine .cons ⟨same.1.trans mirrors.catchPc, same.2.1.trans mirrors.finallyPc,
      same.2.2.trans mirrors.finallyEnabled, fresh.1, fresh.2, pends, ?_⟩ mirrored
    rw [found]
    rfl
  places := (nested.1.finally_ target found).1.symm
  nested := ⟨nested.1, inside, nested.2.2.1, nested.2.2.2⟩

/-- Entering the catch clause of the innermost try statement with what it caught. -/
theorem Mirrored.catching {thrown : Value} {region : Region}
    (nested : Nested code place (⟨region, .body⟩ :: outer))
    (mirrored : List.Forall₂ Mirrors outer parents) (catches : region.hasCatch = true)
    (mirrors : Mirrors ⟨region, .body⟩ cat)
    : Mirrored code place region.catchPc (⟨region, .caught thrown⟩ :: outer)
        ({ cat with thrownVal := thrown, catchEnabled := false } :: parents) where
  catchers := by
    obtain ⟨_, inside, fresh, ⟨noReturn, noBreak, noContinue, _⟩, _⟩ := mirrors.phase
    exact .cons ⟨mirrors.catchPc, mirrors.finallyPc, mirrors.finallyEnabled, rfl, inside, fresh,
      noReturn, noBreak, noContinue, rfl⟩ mirrored
  places := (nested.1.catch_ catches).symm
  nested := ⟨nested.1, nofun, nested.2.2.1, nested.2.2.2⟩

/-- What a catcher pends when a throw is stored in it that held nothing. -/
theorem Pends.throw (pends : Pends cat none) (thrown : Value)
    : Pends { cat with thrownVal := thrown } (some (.throw_ thrown)) :=
  ⟨pends.1, pends.2.1, pends.2.2.1, rfl⟩

-----------------------------------------------------------------------------------------
-- The kinds of try statements that are left
-----------------------------------------------------------------------------------------

/-- Control is in the finally block. -/
structure Executing (act : Active) (cat : Catcher) : Prop where
  phase : ∃ pending, act.phase = .finishing pending ∧ Pends cat pending
  region : ∃ target, act.region.finallyPc = some target
  finallyPc : cat.finallyPc.isSome
  finallyEnabled : cat.finallyEnabled = true
  catchEnabled : cat.catchEnabled = false
  inFinally : cat.inFinally = true
  endfinallyPc : cat.endfinallyPc = some act.region.endfinallyPc

/-- The finally block is still to run. -/
structure Guarding (act : Active) (cat : Catcher) (target : Nat) : Prop where
  phase : act.phase = .body ∨ act.phase = .handling
  region : act.region.finallyPc = some target
  finallyPc : cat.finallyPc = some target
  finallyEnabled : cat.finallyEnabled = true
  catchEnabled : cat.catchEnabled = (act.region.hasCatch && decide (act.phase = .body))
  inFinally : cat.inFinally = false
  endfinallyPc : cat.endfinallyPc = none
  pends : Pends cat none

/-- There is no finally block, and the catch clause can still catch. -/
structure Catching (act : Active) (cat : Catcher) : Prop where
  phase : act.phase = .body
  hasCatch : act.region.hasCatch = true
  region : act.region.finallyPc = none
  finallyPc : cat.finallyPc = none
  finallyEnabled : cat.finallyEnabled = false
  catchEnabled : cat.catchEnabled = true
  inFinally : cat.inFinally = false

theorem Mirrors.kinds (mirrors : Mirrors act cat) (here : act.phase.part.settled)
    : Executing act cat ∨ (∃ target, Guarding act cat target) ∨ Catching act cat := by
  obtain ⟨region, phase⟩ := act
  have finallyPc : cat.finallyPc = region.finallyPc := mirrors.finallyPc
  have enabled : cat.finallyEnabled = region.finallyPc.isSome := mirrors.finallyEnabled
  cases phase with
  | caught _ => cases here
  | entering _ => cases here
  | finishing pending =>
      obtain ⟨disabled, inside, ending, pends, kind⟩ := mirrors.phase
      have kind' : region.finallyPc.isSome := kind
      exact .inl ⟨⟨pending, rfl, pends⟩, Option.isSome_iff_exists.mp kind', finallyPc ▸ kind',
        enabled.trans kind', disabled, inside, ending⟩
  | handling =>
      obtain ⟨disabled, inside, fresh, pends, kind⟩ := mirrors.phase
      obtain ⟨target, found⟩ : ∃ target, region.finallyPc = some target :=
        Option.isSome_iff_exists.mp kind
      exact .inr (.inl ⟨target, .inr rfl, found, finallyPc.trans found, enabled.trans kind,
        by simp [disabled], inside, fresh, pends⟩)
  | body =>
      obtain ⟨catches, inside, fresh, pends, kind⟩ := mirrors.phase
      cases found : region.finallyPc with
      | some target =>
          exact .inr (.inl ⟨target, .inl rfl, found, finallyPc.trans found,
            enabled.trans (by rw [found]; rfl), by simpa using catches, inside, fresh, pends⟩)
      | none =>
          have hasCatch : region.hasCatch = true := by simpa [found] using kind
          exact .inr (.inr ⟨rfl, hasCatch, found, finallyPc.trans found,
            enabled.trans (by rw [found]; rfl), catches.trans hasCatch, inside⟩)

/-- A catcher that catches is that of a try statement in its body. -/
theorem Mirrors.catches (mirrors : Mirrors act cat) (here : act.phase.part.settled)
    (enabled : cat.catchEnabled = true)
    : act.phase = .body ∧ act.region.hasCatch = true := by
  rcases mirrors.kinds here with executing | ⟨target, guarding⟩ | catching
  · rw [executing.catchEnabled] at enabled
    cases enabled
  · rw [guarding.catchEnabled, Bool.and_eq_true, decide_eq_true_eq] at enabled
    exact ⟨enabled.2, enabled.1⟩
  · exact ⟨catching.phase, catching.hasCatch⟩

variable {completion : Abrupt}

theorem complete_executing (executing : Executing act cat)
    (leaves : completion.staysIn place (outer.length + 1) = false)
    : complete place completion (act :: outer) = complete place completion outer := by
  obtain ⟨pending, phase, _⟩ := executing.phase
  simp [complete, leaves, phase]

theorem complete_guarding {target : Nat} (guarding : Guarding act cat target)
    (leaves : completion.staysIn place (outer.length + 1) = false)
    (untaken : cat.catchEnabled = true → ∀ thrown, completion ≠ .throw_ thrown)
    : complete place completion (act :: outer)
      = (.at_ target, { act with phase := .entering (some completion) } :: outer) := by
  have catches := guarding.catchEnabled
  rcases guarding.phase with phase | phase
  · simp only [complete, leaves, phase, guarding.region]
    cases completion with
    | throw_ thrown =>
        have disabled : act.region.hasCatch = false := by
          cases hasCatch : act.region.hasCatch with
          | false => rfl
          | true => exact absurd rfl (untaken (by simp [catches, hasCatch, phase]) thrown)
        simp [disabled]
    | return_ value => rfl
    | jump target => rfl
  · simp [complete, leaves, phase, guarding.region]

theorem complete_catching (catching : Catching act cat)
    (leaves : completion.staysIn place (outer.length + 1) = false)
    (untaken : ∀ thrown, completion ≠ .throw_ thrown)
    : complete place completion (act :: outer) = complete place completion outer := by
  simp only [complete, leaves, catching.phase, catching.region]
  cases completion with
  | throw_ thrown => exact absurd rfl (untaken thrown)
  | return_ value => rfl
  | jump target => rfl

-----------------------------------------------------------------------------------------
-- Throws
-----------------------------------------------------------------------------------------

/-- A throw finds the handler that the language gives it. -/
theorem throw_lands (thrown : Value)
    (mirrored : List.Forall₂ Mirrors active cats) (nested : Nested code place active)
    (settled : Settled (active.map Active.place))
    : Lands code place (.uncaught thrown) (throwValue false thrown cats)
        (complete place (.throw_ thrown) active) := by
  induction mirrored with
  | nil => rfl
  | @cons act cat outer parents mirrors rest ih =>
      have settled' : Settled (outer.map Active.place) :=
        fun place member => settled place (List.mem_cons_of_mem _ member)
      have leaves : (Abrupt.throw_ thrown).staysIn place (outer.length + 1) = false := rfl
      have here : act.phase.part.settled := settled act.place (List.mem_cons_self ..)
      by_cases enabled : cat.catchEnabled = true
      · obtain ⟨phase, hasCatch⟩ := mirrors.catches here enabled
        obtain ⟨region, _⟩ := act
        obtain rfl := phase
        have taken : throwValue false thrown (cat :: parents) = .goto region.catchPc
            ({ cat with thrownVal := thrown, catchEnabled := false } :: parents) := by
          have catchPc : cat.catchPc = region.catchPc := mirrors.catchPc
          simp [throwValue, throwSearch, enabled, catchPc]
        have caught : complete place (.throw_ thrown) (⟨region, .body⟩ :: outer)
            = (.at_ region.catchPc, ⟨region, .caught thrown⟩ :: outer) := by
          have hasCatch' : region.hasCatch = true := hasCatch
          simp [complete, Abrupt.staysIn, hasCatch']
        rw [taken, caught]
        exact ⟨rfl, Mirrored.catching nested rest hasCatch mirrors⟩
      · rw [Bool.not_eq_true] at enabled
        rcases mirrors.kinds here with executing | ⟨target, guarding⟩ | catching
        · have passed : throwValue false thrown (cat :: parents)
              = throwValue false thrown parents := by
            simp [throwValue, throwSearch, enabled, executing.inFinally]
          rw [passed, complete_executing executing leaves]
          exact ih nested.2.2.2 settled'
        · have taken : throwValue false thrown (cat :: parents) = .goto target
              ({ cat with thrownVal := thrown } :: parents) := by
            simp [throwValue, throwSearch, enabled, guarding.inFinally, guarding.finallyEnabled,
              guarding.finallyPc]
          rw [taken, complete_guarding guarding leaves (by simp [enabled])]
          exact ⟨rfl, Mirrored.entering nested rest guarding.region mirrors ⟨rfl, rfl, rfl⟩
            ⟨guarding.inFinally, guarding.endfinallyPc⟩ (guarding.pends.throw thrown) nofun⟩
        · rw [catching.catchEnabled] at enabled
          cases enabled

-----------------------------------------------------------------------------------------
-- Returns
-----------------------------------------------------------------------------------------

/-- The machine is at the end of a finally block, with a return pending that the language has
already let go on.
-/
structure Leaving (code : List Instruction) (place : Nat → List Place) (value : Value) (pc : Nat)
    (cats : List Catcher) (completed : Position × List Active) : Prop where
  closes : (code[pc]?).map Instruction.op = some .endfinally
  front : ∃ cat parents outer, cats = cat :: parents
    ∧ cat.finallyEnabled = true ∧ cat.pendingReturn = true ∧ cat.returnVal = value
    ∧ List.Forall₂ Mirrors outer parents ∧ Nested code place outer
    ∧ Settled (outer.map Active.place)
    ∧ completed = complete place (.return_ value) outer

/-- A transfer of the machine is a completion of the language by a return, or on its way to it. -/
def Returns (code : List Instruction) (place : Nat → List Place) (value : Value)
    (transfer : Transfer) (completed : Position × List Active) : Prop :=
  Lands code place (.returned value) transfer completed
  ∨ ∃ pc cats, transfer = .goto pc cats ∧ Leaving code place value pc cats completed

/-- At the end of the finally block that control is in, the machine is on its way. -/
theorem Executing.leaving (executing : Executing act cat)
    (nested : Nested code place (act :: outer)) (rest : List.Forall₂ Mirrors outer parents)
    {value : Value} {cat' : Catcher} (enabled : cat'.finallyEnabled = true)
    (pends : cat'.pendingReturn = true ∧ cat'.returnVal = value)
    : Leaving code place value act.region.endfinallyPc (cat' :: parents)
        (complete place (.return_ value) (act :: outer)) where
  closes := by
    obtain ⟨target, found⟩ := executing.region
    exact findMatchingEndfinally_op (nested.1.finally_ target found).2
  front := ⟨cat', parents, outer, rfl, enabled, pends.1, pends.2, rest, nested.2.2.2,
    nested.2.2.1, complete_executing executing rfl⟩

/-- A return finds the finally block that the language gives it, by way of the end of the finally
block it is in.
-/
theorem return_lands (value : Value) (fromGenerator : Bool) (next : Nat)
    (mirrored : List.Forall₂ Mirrors active cats) (nested : Nested code place active)
    (settled : Settled (active.map Active.place))
    : Returns code place value (returnThrough value fromGenerator next cats)
        (complete place (.return_ value) active) := by
  induction mirrored with
  | nil => exact .inl rfl
  | @cons act cat outer parents mirrors rest ih =>
      have settled' : Settled (outer.map Active.place) :=
        fun place member => settled place (List.mem_cons_of_mem _ member)
      have leaves : (Abrupt.return_ value).staysIn place (outer.length + 1) = false := rfl
      rcases mirrors.kinds (settled act.place (List.mem_cons_self ..)) with
        executing | ⟨target, guarding⟩ | catching
      · obtain ⟨finallyPc, found⟩ := Option.isSome_iff_exists.mp executing.finallyPc
        obtain ⟨cat', went, enabled, pends⟩ : ∃ cat',
            returnThrough value fromGenerator next (cat :: parents)
              = .goto act.region.endfinallyPc (cat' :: parents)
            ∧ cat'.finallyEnabled = true ∧ cat'.pendingReturn = true ∧ cat'.returnVal = value := by
          cases pending : cat.pendingReturn with
          | true =>
              let saved : Catcher :=
                {
                  cat with
                  returnVal := value
                  pendingReturnGen := cat.pendingReturnGen || fromGenerator
                }
              refine ⟨saved, ?_, executing.finallyEnabled, pending, rfl⟩
              simp [saved, returnThrough, unlinkToFinally, found, pending, executing.inFinally,
                executing.endfinallyPc]
          | false =>
              let saved : Catcher :=
                {
                  cat with
                  returnVal := value
                  pendingReturn := true
                  pendingReturnGen := cat.pendingReturnGen || fromGenerator
                }
              refine ⟨saved, ?_, executing.finallyEnabled, rfl, rfl⟩
              simp [saved, returnThrough, unlinkToFinally, found, pending, executing.inFinally,
                executing.endfinallyPc]
        exact .inr ⟨_, _, went, executing.leaving nested rest enabled pends⟩
      · have taken : returnThrough value fromGenerator next (cat :: parents) = .goto target
            ({
                cat with
                returnVal := value
                pendingReturn := true
                pendingReturnGen := cat.pendingReturnGen || fromGenerator
              }
              :: parents) := by
          simp [returnThrough, unlinkToFinally, guarding.finallyPc, guarding.pends.1,
            guarding.inFinally]
        rw [taken, complete_guarding guarding leaves nofun]
        exact .inl ⟨rfl, Mirrored.entering nested rest guarding.region mirrors ⟨rfl, rfl, rfl⟩
          ⟨guarding.inFinally, guarding.endfinallyPc⟩ ⟨rfl, rfl⟩ nofun⟩
      · have unlinked : returnThrough value fromGenerator next (cat :: parents)
            = returnThrough value fromGenerator next parents := by
          simp [returnThrough, unlinkToFinally, catching.finallyPc]
        rw [unlinked, complete_catching catching leaves nofun]
        exact ih nested.2.2.2 settled'

-----------------------------------------------------------------------------------------
-- Jumps
-----------------------------------------------------------------------------------------

/-- A catcher with a finally block still to run. -/
def StillToRun (cat : Catcher) : Bool := cat.finallyPc.isSome && !cat.inFinally

/-- A jump that is to leave so many try statements meets a finally block to run if it leaves one,
and none if it does not.
-/
def JumpFine (leaves : Nat) : List Catcher → Prop
  | [] => True
  | outer :: _ => if StillToRun outer then 1 ≤ leaves else leaves = 0

/-- The same for a break or continue, which has left the finally block it is in. -/
def BreakFine (leaves : Nat) : List Catcher → Prop
  | [] => True
  | cat :: parents =>
      if cat.inFinally then 1 ≤ leaves ∧ JumpFine (leaves - 1) parents
      else JumpFine leaves (cat :: parents)

instance {leaves : Nat} : DecidablePred (JumpFine leaves)
  | [] => isTrue trivial
  | outer :: _ => inferInstanceAs (Decidable (if StillToRun outer then 1 ≤ leaves else leaves = 0))

instance {leaves : Nat} : DecidablePred (BreakFine leaves)
  | [] => isTrue trivial
  | cat :: parents =>
      inferInstanceAs (Decidable
        (if cat.inFinally then 1 ≤ leaves ∧ JumpFine (leaves - 1) parents
        else JumpFine leaves (cat :: parents)))

/-- A jump goes to the finally block in front that is to run, or else to its target. -/
def redirect (isBreak : Bool) (target : Nat) : List Catcher → Transfer
  | [] => .goto target []
  | outer :: rest =>
      match StillToRun outer, outer.finallyPc with
      | true, some pc =>
          .goto pc
            ({
                outer with
                pendingPc := target
                pendingBreak := outer.pendingBreak || isBreak
                pendingContinue := outer.pendingContinue || !isBreak
              }
              :: rest)
      | _, _ => .goto target (outer :: rest)

/-- Control leads to a slot in the same try statements, or to the finally block behind them. -/
theorem leads_cases {places : List Place} {target : Nat} (led : leads place places target = true)
    : place target = places
      ∨ ∃ region part around, places = (region, part) :: around
        ∧ (part = .body ∨ part = .handling) ∧ region.finallyPc = some target
        ∧ place target = (region, .entering) :: around := by
  unfold leads at led
  rw [Bool.or_eq_true, decide_eq_true_eq] at led
  refine led.imp_right fun finally_ => ?_
  cases places with
  | nil => cases finally_
  | cons head around =>
      obtain ⟨region, part⟩ := head
      cases part with
      | body => exact ⟨region, .body, around, rfl, .inl rfl, by simpa using finally_⟩
      | handling => exact ⟨region, .handling, around, rfl, .inr rfl, by simpa using finally_⟩
      | catching | entering | finishing => cases finally_

/-- A slot that control leads to is in as many try statements. -/
theorem leads_depth {places : List Place} {target : Nat} (led : leads place places target = true)
    : depthAt place target = places.length := by
  rcases leads_cases led with same | ⟨region, part, around, rfl, _, _, at_target⟩
  · rw [depthAt, same]
  · rw [depthAt, at_target]
    rfl

theorem comeTo_settled {places : List Place} (settled : Settled places)
    : comeTo places active = active := by
  unfold comeTo
  split
  · rename_i region around act outer
    cases settled (region, .entering) (List.mem_cons_self ..)
  · rfl

/-- Control comes to a slot in the same try statements, or to the finally block behind them. -/
theorem Mirrored.arrive {target : Nat} (mirrored : List.Forall₂ Mirrors active cats)
    (nested : Nested code place active) (settled : Settled (active.map Active.place))
    (led : leads place (active.map Active.place) target = true)
    : Mirrored code place target (comeTo (place target) active) cats := by
  rcases leads_cases led with same | ⟨region, part, around, places, normal, found, at_target⟩
  · rw [comeTo_settled (same ▸ settled)]
    exact ⟨mirrored, same.symm, nested⟩
  · cases mirrored with
    | nil => cases places
    | @cons act cat outer parents mirrors rest =>
        obtain ⟨region', phase⟩ := act
        rw [List.map_cons, List.cons.injEq] at places
        obtain ⟨⟨rfl, rfl⟩, _⟩ : (region' = region ∧ phase.part = part) ∧ _ :=
          ⟨by simpa [Active.place] using places.1, places.2⟩
        rw [at_target]
        rcases mirrors.kinds (settled _ (List.mem_cons_self ..)) with
          executing | ⟨finallyPc, guarding⟩ | catching
        · obtain ⟨pending, finishing, _⟩ := executing.phase
          have finishing' : phase = .finishing pending := finishing
          rw [finishing'] at normal
          rcases normal with normal | normal <;> cases normal
        · exact Mirrored.entering nested rest found mirrors ⟨rfl, rfl, rfl⟩
            ⟨guarding.inFinally, guarding.endfinallyPc⟩ guarding.pends nofun
        · have none : region'.finallyPc = none := catching.region
          rw [found] at none
          cases none

/-- A jump that is to leave nothing comes to its target. -/
theorem jump_stays {target : Nat} (mirrored : List.Forall₂ Mirrors active cats)
    (nested : Nested code place active) (settled : Settled (active.map Active.place))
    (inside : LeadsOut place target (active.map Active.place))
    (stays : active.length - depthAt place target = 0)
    : Lands code place .crashed (.goto target cats) (complete place (.jump target) active) := by
  obtain ⟨around, suffix, led⟩ := inside
  have whole : around = active.map Active.place := by
    refine suffix.eq_of_length_le ?_
    rw [List.length_map, ← leads_depth led]
    exact Nat.le_of_sub_eq_zero stays
  have here : complete place (.jump target) active
      = (.at_ target, comeTo (place target) active) := by
    cases active with
    | nil => cases settled : place target <;> simp [complete, Abrupt.outermost, comeTo]
    | cons act outer =>
        have enough : outer.length + 1 ≤ depthAt place target := Nat.le_of_sub_eq_zero stays
        simp [complete, Abrupt.staysIn, enough, Abrupt.outermost, Abrupt.arrival]
  rw [here]
  exact ⟨rfl, Mirrored.arrive mirrored nested settled (whole ▸ led)⟩

theorem leaves_of_pos {completion : Abrupt} {target : Nat} {count : Nat}
    (jump : completion = .jump target) (leaves : 1 ≤ count - depthAt place target)
    : completion.staysIn place count = false := by
  subst jump
  simp only [Abrupt.staysIn, decide_eq_false_iff_not, Nat.not_le]
  omega

/-- A jump that leaves the innermost try statement leads to a place around it. -/
theorem LeadsOut.around {target : Nat}
    (inside : LeadsOut place target ((act :: outer).map Active.place))
    (leaves : 1 ≤ outer.length + 1 - depthAt place target)
    : LeadsOut place target (outer.map Active.place) := by
  obtain ⟨around, suffix, led⟩ := inside
  rw [List.map_cons] at suffix
  rcases List.suffix_cons_iff.mp suffix with whole | suffix
  · rw [leads_depth led, whole, List.length_cons, List.length_map] at leaves
    omega
  · exact ⟨around, suffix, led⟩

/-- A jump runs the innermost finally block that it leaves, or comes to its target. -/
theorem redirect_lands (isBreak : Bool) (target : Nat)
    (mirrored : List.Forall₂ Mirrors active cats) (nested : Nested code place active)
    (settled : Settled (active.map Active.place))
    (inside : LeadsOut place target (active.map Active.place))
    (fine : JumpFine (active.length - depthAt place target) cats)
    : Lands code place .crashed (redirect isBreak target cats)
        (complete place (.jump target) active) := by
  cases mirrored with
  | nil => exact jump_stays .nil nested settled inside (Nat.zero_sub _)
  | @cons act cat outer parents mirrors rest =>
      rw [List.length_cons] at fine
      rcases mirrors.kinds (settled act.place (List.mem_cons_self ..)) with
        executing | ⟨finallyPc, guarding⟩ | catching
      · have ran : StillToRun cat = false := by simp [StillToRun, executing.inFinally]
        simp only [JumpFine, ran] at fine
        simp only [redirect, ran]
        exact jump_stays (.cons mirrors rest) nested settled inside (by simpa using fine)
      · have toRun : StillToRun cat = true := by
          simp [StillToRun, guarding.inFinally, guarding.finallyPc]
        simp only [JumpFine, toRun] at fine
        have leaves : 1 ≤ outer.length + 1 - depthAt place target := by simpa using fine
        simp only [redirect, toRun, guarding.finallyPc]
        rw [complete_guarding guarding (leaves_of_pos rfl leaves) nofun]
        refine ⟨rfl, Mirrored.entering nested rest guarding.region mirrors
          ⟨rfl, guarding.finallyPc.symm, rfl⟩ ⟨guarding.inFinally, guarding.endfinallyPc⟩
          ⟨guarding.pends.1, by cases isBreak <;> simp, rfl⟩ ?_⟩
        intro other jumps
        obtain rfl : target = other := by simpa using jumps
        exact LeadsOut.around inside leaves
      · have plain : StillToRun cat = false := by simp [StillToRun, catching.finallyPc]
        simp only [JumpFine, plain] at fine
        simp only [redirect, plain]
        exact jump_stays (.cons mirrors rest) nested settled inside (by simpa using fine)

/-- A pending jump is redirected like a break of its kind. -/
theorem resumeBreak_redirects (cat : Catcher) (mirrored : List.Forall₂ Mirrors active parents)
    : resumeBreak cat parents = .transfer (redirect cat.pendingBreak cat.pendingPc parents) := by
  cases mirrored with
  | nil => rfl
  | @cons act outer _ _ mirrors rest =>
      cases ran : outer.inFinally <;> cases found : outer.finallyPc <;>
        simp [resumeBreak, redirect, StillToRun, mirrors.enabled_iff, ran, found]

/-- A break or continue finds the finally block that the language gives it, or its target. -/
theorem break_lands (isBreak : Bool) (target : Nat)
    (mirrored : List.Forall₂ Mirrors active cats) (nested : Nested code place active)
    (settled : Settled (active.map Active.place))
    (inside : LeadsOut place target (active.map Active.place))
    (fine : BreakFine (active.length - depthAt place target) cats)
    : Lands code place .crashed (breakThrough isBreak target cats)
        (complete place (.jump target) active) := by
  cases mirrored with
  | nil => exact jump_stays .nil nested settled inside (Nat.zero_sub _)
  | @cons act cat outer parents mirrors rest =>
      rw [List.length_cons] at fine
      have settled' : Settled (outer.map Active.place) :=
        fun place member => settled place (List.mem_cons_of_mem _ member)
      by_cases ran : cat.inFinally = true
      · simp only [BreakFine, ran, if_true] at fine
        obtain ⟨leaves, fine⟩ := fine
        have executing : Executing act cat := by
          rcases mirrors.kinds (settled act.place (List.mem_cons_self ..)) with
            executing | ⟨finallyPc, guarding⟩ | catching
          · exact executing
          · rw [guarding.inFinally] at ran
            cases ran
          · rw [catching.inFinally] at ran
            cases ran
        have went : breakThrough isBreak target (cat :: parents)
            = redirect isBreak target parents := by
          cases rest with
          | nil => simp [breakThrough, redirect, ran]
          | @cons act' cat' outer' parents' mirrors' rest' =>
              cases inside' : cat'.inFinally <;> cases found : cat'.finallyPc <;>
                simp [breakThrough, redirect, ran, StillToRun, mirrors'.enabled_iff, inside', found]
        rw [went, complete_executing executing (leaves_of_pos rfl leaves)]
        refine redirect_lands isBreak target rest nested.2.2.2 settled' (LeadsOut.around inside leaves) ?_
        have fewer : outer.length + 1 - depthAt place target - 1
            = outer.length - depthAt place target := by omega
        exact fewer ▸ fine
      · rw [Bool.not_eq_true] at ran
        simp only [BreakFine, ran] at fine
        have went : breakThrough isBreak target (cat :: parents)
            = redirect isBreak target (cat :: parents) := by
          cases found : cat.finallyPc <;>
            simp [breakThrough, redirect, ran, StillToRun, mirrors.enabled_iff, found]
        rw [went]
        exact redirect_lands isBreak target (.cons mirrors rest) nested settled inside
          (by simpa using fine)

-----------------------------------------------------------------------------------------
-- The end of a finally block
-----------------------------------------------------------------------------------------

/-- A return at the end of a finally block meets one that is to run, or one that ends in the next
slot, or none is to run any more.
-/
def ReturnFine (next : Nat) : List Catcher → Prop
  | [] => True
  | outer :: rest =>
      if StillToRun outer then True
      else if outer.inFinally then outer.endfinallyPc = some next
      else ∀ cat ∈ rest, StillToRun cat = false

instance {next : Nat} : DecidablePred (ReturnFine next)
  | [] => isTrue trivial
  | outer :: rest =>
      inferInstanceAs (Decidable
        (if StillToRun outer then True
        else if outer.inFinally then outer.endfinallyPc = some next
        else ∀ cat ∈ rest, StillToRun cat = false))

/-- A return that no finally block is to run for leaves the frame. -/
theorem complete_return_leaves (value : Value) (mirrored : List.Forall₂ Mirrors active cats)
    (settled : Settled (active.map Active.place)) (none : ∀ cat ∈ cats, StillToRun cat = false)
    : complete place (.return_ value) active = (.ended (.returned value), []) := by
  induction mirrored with
  | nil => rfl
  | @cons act cat outer parents mirrors rest ih =>
      have ends := ih (fun place member => settled place (List.mem_cons_of_mem _ member))
        (fun other member => none other (List.mem_cons_of_mem _ member))
      rcases mirrors.kinds (settled act.place (List.mem_cons_self ..)) with
        executing | ⟨finallyPc, guarding⟩ | catching
      · rw [complete_executing executing rfl]
        exact ends
      · have ran := none cat (List.mem_cons_self ..)
        simp [StillToRun, guarding.inFinally, guarding.finallyPc] at ran
      · have passed : complete place (.return_ value) (act :: outer)
            = complete place (.return_ value) outer := complete_catching catching rfl nofun
        exact passed.trans ends

/-- The end of a finally block with a return pending: the frame is left, or the return has found
what the language gives it or is on its way there.
-/
theorem resumeReturn_returns {value : Value} {next : Nat} (pending : cat.returnVal = value)
    (mirrored : List.Forall₂ Mirrors active parents) (nested : Nested code place active)
    (settled : Settled (active.map Active.place)) (fine : ReturnFine next parents)
    : resumeReturn cat next parents = .completed value
        ∧ (complete place (.return_ value) active).1 = .ended (.returned value)
      ∨ ∃ target cats, resumeReturn cat next parents = .transfer (.goto target cats)
        ∧ Returns code place value (.goto target cats)
          (complete place (.return_ value) active) := by
  cases mirrored with
  | nil => exact .inl ⟨by rw [resumeReturn, pending], rfl⟩
  | @cons act cat' outer parents' mirrors rest =>
      let saved : Catcher :=
        {
          cat' with
          returnVal := cat.returnVal
          pendingReturn := true
          pendingReturnGen := cat'.pendingReturnGen || cat.pendingReturnGen
        }
      rcases mirrors.kinds (settled act.place (List.mem_cons_self ..)) with
        executing | ⟨finallyPc, guarding⟩ | catching
      · obtain ⟨finallyPc, found⟩ := Option.isSome_iff_exists.mp executing.finallyPc
        have ran : StillToRun cat' = false := by simp [StillToRun, executing.inFinally]
        have ending : cat'.endfinallyPc = some next := by
          simpa [ReturnFine, ran, executing.inFinally] using fine
        obtain rfl : act.region.endfinallyPc = next :=
          Option.some.inj (executing.endfinallyPc.symm.trans ending)
        have went : resumeReturn cat act.region.endfinallyPc (cat' :: parents')
            = .transfer (.goto act.region.endfinallyPc (saved :: parents')) := by
          simp [resumeReturn, saved, executing.finallyEnabled, found, executing.inFinally]
        exact .inr ⟨_, _, went, .inr ⟨_, _, rfl,
          executing.leaving nested rest executing.finallyEnabled ⟨rfl, pending⟩⟩⟩
      · have went : resumeReturn cat next (cat' :: parents')
            = .transfer (.goto finallyPc (saved :: parents')) := by
          simp [resumeReturn, saved, guarding.finallyEnabled, guarding.finallyPc,
            guarding.inFinally]
        refine .inr ⟨_, _, went, .inl ?_⟩
        have reached : complete place (.return_ value) (act :: outer)
            = (.at_ finallyPc,
              { act with phase := .entering (some (.return_ value)) } :: outer) :=
          complete_guarding guarding rfl (fun _ _ no => by cases no)
        rw [reached]
        exact ⟨rfl, Mirrored.entering nested rest guarding.region mirrors ⟨rfl, rfl, rfl⟩
          ⟨guarding.inFinally, guarding.endfinallyPc⟩ ⟨rfl, pending⟩ fun _ no => by cases no⟩
      · have plain : StillToRun cat' = false := by simp [StillToRun, catching.finallyPc]
        have none : ∀ other ∈ parents', StillToRun other = false := by
          simpa [ReturnFine, plain, catching.inFinally] using fine
        refine .inl ⟨by simp [resumeReturn, catching.finallyEnabled, pending], ?_⟩
        rw [complete_return_leaves value (.cons mirrors rest) settled
          (List.forall_mem_cons.mpr ⟨plain, none⟩)]

end Boomkat.Correctness
