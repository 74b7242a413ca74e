import Boomkat.Exceptions.Script

/-! Completions of try statements as the language defines them, over the regions that a frame is
in, and the layout of these regions in compiled code.
-/

namespace Boomkat.Exceptions
open Boomkat.Bytecode Boomkat.Machine

-----------------------------------------------------------------------------------------
-- Regions and completions
-----------------------------------------------------------------------------------------

/-- A try statement as its `TRY` describes it. `endfinallyPc` is where its finally block ends. -/
structure Region where
  hasCatch : Bool
  catchPc : Nat
  finallyPc : Option Nat
  endfinallyPc : Nat
  deriving DecidableEq

/-- The region that the `TRY` before slot `next` opens. -/
def tryRegion (code : List Instruction) (insn : DecodedInsn) (next : Nat) : Option Region :=
  (code[next]?).map fun slot =>
    let base := next + 1 - 2
    let finallyPc := if slot.getBc ≠ 0 then some (base + slot.getBc) else none
    {
      hasCatch := insn.a.testBit 0
      catchPc := base + insn.getBc
      finallyPc := finallyPc
      endfinallyPc := (finallyPc.bind (findMatchingEndfinally code)).getD 0
    }

/-- An abrupt completion. A jump is a break or a continue to its target. -/
inductive Abrupt where
  | throw_ (thrown : Value)
  | return_ (value : Value)
  | jump (target : Nat)
  deriving DecidableEq

/-- Where in a try statement control is: its body, at its catch clause with the caught value, in
the catch clause, at its finally block or in it, with the completion that is pending there.
-/
inductive Phase where
  | body
  | caught (thrown : Value)
  | handling
  | entering (pending : Option Abrupt)
  | finishing (pending : Option Abrupt)
  deriving DecidableEq

/-- A try statement that control is in, up to where it has no more effect: one without a finally
block is over when its catch clause has its value.
-/
structure Active where
  region : Region
  phase : Phase
  deriving DecidableEq

/-- The part of a try statement that a slot belongs to. `catching` and `entering` are the slots of
`CATCH` and `FINALLY`.
-/
inductive Part where
  | body
  | catching
  | handling
  | entering
  | finishing
  deriving DecidableEq

def Phase.part : Phase → Part
  | .body => .body
  | .caught _ => .catching
  | .handling => .handling
  | .entering _ => .entering
  | .finishing _ => .finishing

/-- The handlers of a try statement cannot be about to be entered in this part. -/
def Part.settled : Part → Bool
  | .body | .handling | .finishing => true
  | .catching | .entering => false

abbrev Place := Region × Part

def Active.place (act : Active) : Place := (act.region, act.phase.part)

/-- The number of try statements around a slot. -/
def depthAt (place : Nat → List Place) (pc : Nat) : Nat := (place pc).length

/-- Control has come to a slot between these; at a finally block nothing is pending then. -/
def comeTo (places : List Place) (active : List Active) : List Active :=
  match places, active with
  | (_, .entering) :: _, act :: outer => { act with phase := .entering none } :: outer
  | _, active => active

/-- The end of a frame by a completion that leaves all its try statements. -/
def Abrupt.outermost : Abrupt → Position
  | .throw_ thrown => .ended (.uncaught thrown)
  | .return_ value => .ended (.returned value)
  | .jump target => .at_ target

/-- Whether the completion is a jump to a target inside of so many try statements. -/
def Abrupt.staysIn (place : Nat → List Place) (count : Nat) : Abrupt → Bool
  | .jump target => count ≤ depthAt place target
  | .throw_ _ | .return_ _ => false

/-- The try statements when a jump has come to its target. -/
def Abrupt.arrival (place : Nat → List Place) (active : List Active) : Abrupt → List Active
  | .jump target => comeTo (place target) active
  | .throw_ _ | .return_ _ => active

/-- The completion leaves try statements from the innermost: a catch clause takes a throw of its
body, a finally block runs before the completion goes on, and a completion of a finally block
replaces what was pending there.
-/
def complete (place : Nat → List Place) (completion : Abrupt)
    : List Active → Position × List Active
  | [] => (completion.outermost, [])
  | act :: outer =>
      if completion.staysIn place (outer.length + 1) then
        (completion.outermost, completion.arrival place (act :: outer))
      else
        match act.phase with
        | .entering _ | .finishing _ => complete place completion outer
        | .body =>
            match completion, act.region.hasCatch with
            | .throw_ thrown, true =>
                (.at_ act.region.catchPc, { act with phase := .caught thrown } :: outer)
            | _, _ =>
                match act.region.finallyPc with
                | some pc => (.at_ pc, { act with phase := .entering (some completion) } :: outer)
                | none => complete place completion outer
        | .caught _ | .handling =>
            match act.region.finallyPc with
            | some pc => (.at_ pc, { act with phase := .entering (some completion) } :: outer)
            | none => complete place completion outer

-----------------------------------------------------------------------------------------
-- Layout
-----------------------------------------------------------------------------------------

/-- All handlers of the try statements around a slot have been entered. -/
def Settled (places : List Place) : Prop := ∀ place ∈ places, place.2.settled

instance (places : List Place) : Decidable (Settled places) :=
  inferInstanceAs (Decidable (∀ place ∈ places, _))

/-- The handlers of a try statement are where it says, around them what is around it. -/
structure Handles (code : List Instruction) (place : Nat → List Place) (region : Region)
    (outer : List Place) : Prop where
  catch_ : region.hasCatch → place region.catchPc = (region, .catching) :: outer
  finally_ : ∀ pc, region.finallyPc = some pc →
    place pc = (region, .entering) :: outer
    ∧ findMatchingEndfinally code pc = some region.endfinallyPc

/-- From these try statements control leads to a slot in the same part of them, or to the finally
block behind the body or the catch clause of the innermost.
-/
def leads (place : Nat → List Place) (places : List Place) (target : Nat) : Bool :=
  place target = places
  || match places with
    | (region, .body) :: outer | (region, .handling) :: outer =>
        region.finallyPc = some target && place target = (region, .entering) :: outer
    | _ => false

/-- A jump out of some of these try statements, or of none, leads to the target. -/
def LeadsOut (place : Nat → List Place) (target : Nat) (places : List Place) : Prop :=
  ∃ around, around <:+ places ∧ leads place around target = true

/-- An instruction is where the compiler puts it among the try statements. A jump that leaves one
is a `BREAK` or `CONTINUE`.
-/
def Placed (code : List Instruction) (place : Nat → List Place) (pc : Nat) (insn : DecodedInsn)
    (next : Nat) : Prop :=
  match insn.op with
  | .try_ =>
      ∃ region, tryRegion code insn next = some region
        ∧ (region.hasCatch ∨ region.finallyPc.isSome)
        ∧ insn.a = region.hasCatch.toNat + 2 * region.finallyPc.isSome.toNat
        ∧ Settled (place pc) ∧ Handles code place region (place pc)
        ∧ place (next + 1) = (region, .body) :: place pc
  | .endtry =>
      ∃ region outer, place pc = (region, .body) :: outer ∧ Settled outer
        ∧ leads place (if region.finallyPc.isNone then outer else (region, .body) :: outer) next
  | .catch_ =>
      ∃ region outer, place pc = (region, .catching) :: outer ∧ Settled outer
        ∧ leads place (if region.finallyPc.isNone then outer else (region, .handling) :: outer) next
  | .finally_ =>
      ∃ region outer, place pc = (region, .entering) :: outer ∧ Settled outer
        ∧ region.finallyPc = some pc ∧ next = pc + 1
        ∧ place next = (region, .finishing) :: outer
  | .endfinally =>
      ∃ region outer, place pc = (region, .finishing) :: outer ∧ Settled outer
        ∧ leads place outer next
  | .break_ | .continue_ =>
      Settled (place pc) ∧ LeadsOut place (branchTo next insn.getSabc) (place pc)
  | _ => Settled (place pc)

/-- The code has its try statements laid out; `place` are those around each slot. -/
structure Layout (code : List Instruction) (place : Nat → List Place) : Prop where
  start : place 0 = []
  placed : ∀ pc insn next, fetch code pc = some (insn, next) → Placed code place pc insn next

-----------------------------------------------------------------------------------------
-- The frame as the language defines it
-----------------------------------------------------------------------------------------

/-- A frame with the try statements that control is in. -/
structure Ideal where
  position : Position
  active : List Active
  handled : List Handled
  deriving DecidableEq

def Ideal.complete (ideal : Ideal) (place : Nat → List Place) (completion : Abrupt)
    (active : List Active) : Ideal :=
  let (position, active) := Exceptions.complete place completion active
  { ideal with position := position, active := active }

def Ideal.arrive (ideal : Ideal) (place : Nat → List Place) (target : Nat) : Ideal :=
  { ideal with position := .at_ target, active := comeTo (place target) ideal.active }

def Ideal.enterTry (ideal : Ideal) (code : List Instruction) (insn : DecodedInsn) (next : Nat)
    : Ideal :=
  match tryRegion code insn next with
  | some region =>
      { ideal with position := .at_ (next + 1), active := ⟨region, .body⟩ :: ideal.active }
  | none => ideal

def Ideal.endTry (ideal : Ideal) (place : Nat → List Place) (next : Nat) : Ideal :=
  {
    ideal with
    position := .at_ next
    active :=
      match ideal.active with
      | [] => []
      | act :: outer =>
          comeTo (place next) (if act.region.finallyPc.isNone then outer else act :: outer)
  }

def Ideal.enterCatch (ideal : Ideal) (place : Nat → List Place) (pc next : Nat) : Ideal :=
  match ideal.active with
  | ⟨region, .caught thrown⟩ :: outer =>
      {
        position := .at_ next
        active :=
          comeTo (place next)
            (if region.finallyPc.isNone then outer else ⟨region, .handling⟩ :: outer)
        handled := ideal.handled ++ [.caught pc thrown]
      }
  | _ => ideal

def Ideal.enterFinally (ideal : Ideal) (pc next : Nat) : Ideal :=
  match ideal.active with
  | ⟨region, .entering pending⟩ :: outer =>
      {
        position := .at_ next
        active := ⟨region, .finishing pending⟩ :: outer
        handled := ideal.handled ++ [.finally_ pc]
      }
  | _ => ideal

/-- The end of a finally block: what was pending goes on. -/
def Ideal.leaveFinally (ideal : Ideal) (place : Nat → List Place) (next : Nat) : Ideal :=
  match ideal.active with
  | ⟨_, .finishing none⟩ :: outer =>
      { ideal with position := .at_ next, active := comeTo (place next) outer }
  | ⟨_, .finishing (some completion)⟩ :: outer => ideal.complete place completion outer
  | _ => ideal

def Ideal.dispatch (ideal : Ideal) (code : List Instruction) (place : Nat → List Place) (pc : Nat)
    (insn : DecodedInsn) (next : Nat) (choice : Choice) : Ideal :=
  match insn.op with
  | .try_ => ideal.enterTry code insn next
  | .endtry => ideal.endTry place next
  | .catch_ => ideal.enterCatch place pc next
  | .finally_ => ideal.enterFinally pc next
  | .endfinally => ideal.leaveFinally place next
  | .break_ | .continue_ =>
      ideal.complete place (.jump (branchTo next insn.getSabc)) ideal.active
  | _ =>
      match choice with
      | .proceed target => ideal.arrive place target
      | .throws thrown => ideal.complete place (.throw_ thrown) ideal.active
      | .returns value => ideal.complete place (.return_ value) ideal.active

def Ideal.step (code : List Instruction) (place : Nat → List Place) (ideal : Ideal)
    (choice : Choice) : Ideal :=
  match ideal.position with
  | .ended _ => ideal
  | .at_ pc =>
      match fetch code pc with
      | some (insn, next) => ideal.dispatch code place pc insn next choice
      | none => ideal

-----------------------------------------------------------------------------------------
-- Both side by side
-----------------------------------------------------------------------------------------

/-- A frame of the machine beside the same frame as the language defines it. -/
structure Run where
  script : Script
  ideal : Ideal
  deriving DecidableEq

/-- The program goes on only to where its code can lead. -/
def legal (place : Nat → List Place) : Position → Choice → Bool
  | .at_ pc, .proceed target => leads place (place pc) target
  | _, _ => true

/-- One instruction of the machine. The ideal frame does the same instruction, unless the machine
is still on its way to where the ideal frame is: a return out of a finally block passes by the
block's end.
-/
def Run.step (code : List Instruction) (place : Nat → List Place) (run : Run) (choice : Choice)
    : Option Run :=
  if legal place run.script.position choice then
    (run.script.step code choice).map fun script =>
      {
        script := script
        ideal :=
          if run.ideal.position = run.script.position then run.ideal.step code place choice
          else run.ideal
      }
  else none

/-- The first slot, outside of all try statements. -/
def Run.start : Run where
  script := { position := .at_ 0, cat := [], handled := [] }
  ideal := { position := .at_ 0, active := [], handled := [] }

end Boomkat.Exceptions
