import Boomkat.Exceptions.Unwind

/-! An uncatchable throw on its way to the host: it runs the finally blocks that are still to
run, unless a catch-only region lies inside of one or native code takes the error.
-/

namespace Boomkat.Correctness

open Bytecode Machine Exceptions

/-- The finally block of the catcher is still to run. -/
def Live (cat : Catcher) : Bool := cat.finallyEnabled && !cat.inFinally

/-- The catcher is one that `TRY` made for code that the compiler laid out. -/
structure Catcher.Laid (code : List Instruction) (cat : Catcher) : Prop where
  finally_block : cat.finallyEnabled → ∃ pc ending, cat.finallyPc = some pc
    ∧ (code[pc]?).map Instruction.op = some .finally_
    ∧ findMatchingEndfinally code pc = some ending
  inFinally : cat.inFinally → cat.finallyEnabled
  nothing_pending : Live cat →
    cat.pendingReturn = false ∧ cat.pendingBreak = false ∧ cat.pendingContinue = false

def CallFrame.Laid : CallFrame → Prop
  | .script act => ∀ cat ∈ act.cat, Catcher.Laid act.code cat
  | .native _ => True

/-- The finally blocks that are still to run in a frame, innermost first. -/
def liveFinallys (chain : List Catcher) : List Nat :=
  (chain.filter Live).filterMap (·.finallyPc)

/-- The finally blocks that are still to run, innermost first. -/
def enclosingFinallys : List CallFrame → List (Nat × Nat)
  | [] => []
  | .script act :: callers =>
      (liveFinallys act.cat).map (fun pc => (callers.length, pc)) ++ enclosingFinallys callers
  | .native _ :: callers => enclosingFinallys callers

/-- No region without a finally block lies inside of one whose finally block is still to run,
unless between them is one that executes its finally block. `behind` says that there is such a
region further in.
-/
def Unhidden : (behind : Bool) → List Catcher → Prop
  | _, [] => True
  | behind, cat :: parents =>
      if Live cat then behind = false ∧ Unhidden false parents
      else if cat.inFinally then Unhidden false parents
      else Unhidden true parents

/-- No frame hides a finally block, and native code throws the error again, but for the drain that
the host started and the native job that it runs.
-/
def Unbroken : List CallFrame → Prop
  | [] => True
  | .script act :: callers => Unhidden false act.cat ∧ Unbroken callers
  | .native .rethrows :: callers => Unbroken callers
  | .native .takes :: callers => callers = [.native .drains]
  | .native .drains :: callers => callers = []

-----------------------------------------------------------------------------------------
-- One search
-----------------------------------------------------------------------------------------

/-- The search stops at the first finally block that is still to run. The catchers it has passed
and not popped stay in front, and each of them hides that block.
-/
theorem throwSearch_cases {chain : List Catcher} (skipped : List Catcher) (thrown : Value)
    (laid : ∀ cat ∈ chain, Live cat → cat.finallyPc.isSome)
    (plain : ∀ cat ∈ skipped, cat.finallyEnabled = false)
    : throwSearch true thrown skipped chain = .leave ∧ liveFinallys chain = []
        ∧ Unhidden (!skipped.isEmpty) chain
      ∨ ∃ front cat parents pc,
        throwSearch true thrown skipped chain
            = .goto pc (front ++ { cat with thrownVal := thrown } :: parents)
        ∧ (∀ cat ∈ front, cat.finallyEnabled = false)
        ∧ Live cat ∧ cat.finallyPc = some pc ∧ cat :: parents <:+ chain
        ∧ liveFinallys chain = pc :: liveFinallys parents
        ∧ (Unhidden (!skipped.isEmpty) chain ↔ front = [] ∧ Unhidden false parents) := by
  induction chain generalizing skipped with
  | nil => exact .inl ⟨rfl, rfl, trivial⟩
  | cons cat parents ih =>
      have laid' : ∀ other ∈ parents, Live other → other.finallyPc.isSome :=
        fun other among => laid other (List.mem_cons_of_mem _ among)
      have grow : parents <:+ cat :: parents := List.suffix_cons cat parents
      by_cases live : Live cat
      · obtain ⟨pc, found⟩ := Option.isSome_iff_exists.mp (laid cat (List.mem_cons_self ..) live)
        have alive := live
        simp only [Live, Bool.and_eq_true, Bool.not_eq_true'] at alive
        refine .inr ⟨skipped, cat, parents, pc, ?_, plain, live, found, List.suffix_refl _, ?_, ?_⟩
        · simp [throwSearch, alive, found]
        · simp [liveFinallys, live, found]
        · simp [Unhidden, live, List.isEmpty_iff]
      · have dead : liveFinallys (cat :: parents) = liveFinallys parents := by
          simp [liveFinallys, live]
        by_cases inside : cat.inFinally
        · have searched : throwSearch true thrown skipped (cat :: parents)
              = throwSearch true thrown [] parents := by
            simp [throwSearch, inside]
          have unhidden : Unhidden (!skipped.isEmpty) (cat :: parents)
              ↔ Unhidden (!([] : List Catcher).isEmpty) parents := by
            simp [Unhidden, live, inside]
          rw [searched, dead, unhidden]
          rcases ih [] laid' (fun other among => absurd among List.not_mem_nil) with
            left | ⟨front, other, rest, pc, went, plain', live', found, suffix, rest'⟩
          · exact .inl left
          · exact .inr ⟨front, other, rest, pc, went, plain', live', found,
              suffix.trans grow, rest'⟩
        · have disabled : cat.finallyEnabled = false := by
            simpa [Live, inside] using live
          have searched : throwSearch true thrown skipped (cat :: parents)
              = throwSearch true thrown (skipped ++ [cat]) parents := by
            simp [throwSearch, inside, disabled]
          have unhidden : Unhidden (!skipped.isEmpty) (cat :: parents)
              ↔ Unhidden (!(skipped ++ [cat]).isEmpty) parents := by
            have some : (skipped ++ [cat]).isEmpty = false := by cases skipped <;> rfl
            simp [Unhidden, live, inside, some]
          have plain' : ∀ other ∈ skipped ++ [cat], other.finallyEnabled = false := by
            intro other among
            rcases List.mem_append.mp among with old | new
            · exact plain other old
            · exact List.mem_singleton.mp new ▸ disabled
          rw [searched, dead, unhidden]
          rcases ih (skipped ++ [cat]) laid' plain' with
            left | ⟨front, other, rest, pc, went, plain'', live', found, suffix, rest'⟩
          · exact .inl left
          · exact .inr ⟨front, other, rest, pc, went, plain'', live', found,
              suffix.trans grow, rest'⟩

-----------------------------------------------------------------------------------------
-- The run
-----------------------------------------------------------------------------------------

/-- The state after so many steps. -/
def unwound (count : Nat) (state : Unwinding) : Unwinding := Unwinding.step^[count] state

/-- The throw of an interrupt from some frames, with what was entered before. -/
def raisedFrom (frames : List CallFrame) (error : Nat) (entered : List (Nat × Nat)) : Unwinding :=
  { interrupted frames error with entered := entered }

/-- The script goes on behind a finally block, with a catcher in front that has none. -/
structure GoesOn (state : Unwinding) : Prop where
  control : state.control = .lost ∨ ∃ pc, state.control = .at_ pc
  front : ∃ act callers cat parents, state.frames = .script act :: callers
    ∧ act.cat = cat :: parents ∧ cat.finallyEnabled = false

/-- The throw has ended before the host: the script goes on behind a finally block, or behind a call
that took the error.
-/
def Diverted (state : Unwinding) : Prop := GoesOn state ∨ state.control = .resumed

variable {frames callers : List CallFrame} {act : Activation} {error : Nat}
  {entered : List (Nat × Nat)} {state : Unwinding}

/-- A throw in a frame with no finally block to run is one in its caller. -/
theorem step_leave (left : throwValue true (.object error) act.cat = .leave)
    : (raisedFrom (.script act :: callers) error entered).step
      = (raisedFrom callers error entered).step := by
  simp [Unwinding.step, raisedFrom, interrupted, throwAcross, left]

/-- Native code that throws the error again does so in the frame that it runs for. -/
theorem step_rethrows
    : (raisedFrom (.native .rethrows :: callers) error entered).step
      = (raisedFrom callers error entered).step := by
  simp [Unwinding.step, raisedFrom, interrupted, throwAcross]

/-- A throw that stops at a finally block runs it and goes on, if the block's catcher is in
front.
-/
theorem unwound_finally {cat : Catcher} {parents : List Catcher} {pc : Nat}
    (act : Activation) (callers : List CallFrame) (entered : List (Nat × Nat))
    (laid : Catcher.Laid act.code cat) (live : Live cat) (found : cat.finallyPc = some pc)
    (went : throwValue true (.object error) act.cat
      = .goto pc ({ cat with thrownVal := .object error } :: parents))
    : unwound 3 (raisedFrom (.script act :: callers) error entered)
      = raisedFrom (.script { act with cat := parents } :: callers) error
          (entered ++ [(callers.length, pc)]) := by
  have enabled : cat.finallyEnabled = true := by
    rw [Live, Bool.and_eq_true] at live
    exact live.1
  obtain ⟨pc', ending, found', marker, matching⟩ := laid.finally_block enabled
  obtain rfl : pc' = pc := Option.some.inj (found'.symm.trans found)
  obtain ⟨noReturn, noBreak, noContinue⟩ := laid.nothing_pending live
  have closes : (act.code[ending]?).map Instruction.op = some .endfinally :=
    findMatchingEndfinally_op matching
  have first : (raisedFrom (.script act :: callers) error entered).step
      = { raisedFrom (.script act :: callers) error entered with
          control := .at_ pc'
          frames := .script { act with cat := { cat with thrownVal := .object error } :: parents }
            :: callers } := by
    simp [Unwinding.step, raisedFrom, interrupted, throwAcross, went]
  rw [unwound, Function.iterate_succ_apply, first, Function.iterate_succ_apply]
  simp only [Unwinding.step, Unwinding.dispatch, marker, matching, markFinally]
  simp [Unwinding.step, Unwinding.dispatch, closes, endFinally, enabled, noReturn, noBreak,
    noContinue, raisedFrom, interrupted]

/-- Once the script goes on behind a finally block, it does for good. -/
theorem GoesOn.step (goesOn : GoesOn state) : GoesOn state.step := by
  obtain ⟨control, act, callers, cat, parents, frames, chain, plain⟩ := goesOn
  rcases control with lost | ⟨pc, at_pc⟩
  · have same : state.step = state := by simp only [Unwinding.step, lost]
    rw [same]
    exact ⟨.inl lost, act, callers, cat, parents, frames, chain, plain⟩
  · simp only [Unwinding.step, at_pc, frames, Unwinding.dispatch]
    split
    · obtain ⟨marked, marks, plain'⟩ : ∃ marked, markFinally act.code pc act.cat = marked :: parents
          ∧ marked.finallyEnabled = false := by
        rw [chain]
        exact ⟨_, rfl, plain⟩
      refine ⟨?_, _, callers, marked, parents, rfl, marks, plain'⟩
      cases findMatchingEndfinally act.code pc with
      | none => exact .inl rfl
      | some ending => exact .inr ⟨ending, rfl⟩
    · have passes : endFinally (pc + 1) act.cat = .transfer (.goto (pc + 1) act.cat) := by
        simp [chain, endFinally, plain]
      rw [passes]
      exact ⟨.inr ⟨pc + 1, rfl⟩, act, callers, cat, parents, rfl, chain, plain⟩
    · exact ⟨.inr ⟨pc, at_pc⟩, act, callers, cat, parents, frames, chain, plain⟩

theorem Diverted.step (diverted : Diverted state) : Diverted state.step := by
  rcases diverted with goesOn | resumed
  · exact .inl goesOn.step
  · have same : state.step = state := by simp only [Unwinding.step, resumed]
    rw [same]
    exact .inr resumed

theorem Diverted.lasts (diverted : Diverted state) (count : Nat)
    : Diverted (unwound count state) := by
  induction count with
  | zero => exact diverted
  | succ count ih =>
      rw [unwound, Function.iterate_succ_apply']
      exact ih.step

theorem unwound_add (count more : Nat) (state : Unwinding)
    : unwound (count + more) state = unwound count (unwound more state) :=
  Function.iterate_add_apply ..

/-- The host has the error, the flag is still set, and these finally blocks were entered. -/
def surfaced (entered : List (Nat × Nat)) : Unwinding where
  control := .host
  frames := []
  uncatchableThrow := true
  entered := entered

theorem surfaced_unwound (count : Nat) : unwound count (surfaced entered) = surfaced entered :=
  Function.iterate_fixed rfl count

/-- A run in which the script goes on does not come to the host. -/
theorem Diverted.not_surfaced {count more : Nat} (diverted : Diverted (unwound count state))
    : unwound more state ≠ surfaced entered := by
  intro reached
  have later := diverted.lasts more
  rw [← unwound_add, Nat.add_comm, unwound_add, reached, surfaced_unwound] at later
  rcases later with goesOn | resumed
  · rcases goesOn.control with lost | ⟨pc, at_pc⟩
    · cases lost
    · cases at_pc
  · cases resumed

/-- A throw in one frame: its finally blocks are run and the throw goes on in the caller, or the
script goes on behind one that is hidden. Witness: by induction on the length of the chain, which
each finally block that is run makes shorter.
-/
theorem frame_unwinds (callers : List CallFrame) (error : Nat) {chain : List Catcher}
    {code : List Instruction} (isAsync : Bool)
    (laid : ∀ cat ∈ chain, Catcher.Laid code cat) (entered : List (Nat × Nat))
    : Unhidden false chain
        ∧ (∃ count, unwound (count + 1) (raisedFrom (.script ⟨code, chain, isAsync⟩ :: callers) error entered)
          = unwound 1 (raisedFrom callers error
            (entered ++ (liveFinallys chain).map fun pc => (callers.length, pc))))
      ∨ ¬Unhidden false chain
        ∧ ∃ count, GoesOn (unwound (count + 1)
          (raisedFrom (.script ⟨code, chain, isAsync⟩ :: callers) error entered)) := by
  induction length : chain.length using Nat.strong_induction_on generalizing chain entered with
  | _ size ih =>
      subst length
      have placed : ∀ cat ∈ chain, Live cat → cat.finallyPc.isSome := by
        intro cat among live
        rw [Live, Bool.and_eq_true] at live
        obtain ⟨pc, _, found, _⟩ := (laid cat among).finally_block live.1
        exact found ▸ rfl
      rcases throwSearch_cases [] (.object error) placed
          (fun cat among => absurd among List.not_mem_nil) with
        ⟨left, none, unhidden⟩ | ⟨front, cat, parents, pc, went, plain, live, found, suffix, lives,
          unhidden⟩
      · refine .inl ⟨unhidden, 0, ?_⟩
        rw [none, List.map_nil, List.append_nil]
        exact step_leave left
      · have among : cat ∈ chain := suffix.subset (List.mem_cons_self ..)
        cases front with
        | nil =>
            have shorter : parents.length < chain.length := suffix.length_le
            have laid' : ∀ other ∈ parents, Catcher.Laid code other :=
              fun other member => laid other (suffix.subset (List.mem_cons_of_mem _ member))
            have ran := unwound_finally ⟨code, chain, isAsync⟩ callers entered (laid cat among)
              live found went
            have same : Unhidden false chain ↔ Unhidden false parents := by
              simpa using unhidden
            rcases ih parents.length shorter laid' (entered ++ [(callers.length, pc)]) rfl with
              ⟨unhidden', count, reached⟩ | ⟨hidden, count, goesOn⟩
            · refine .inl ⟨same.mpr unhidden', count + 3, ?_⟩
              rw [Nat.add_right_comm, unwound_add, ran, reached, lives]
              simp
            · refine .inr ⟨fun all => hidden (same.mp all), count + 3, ?_⟩
              rw [Nat.add_right_comm, unwound_add, ran]
              exact goesOn
        | cons hider rest =>
            refine .inr ⟨fun all => ?_, 0, ?_⟩
            · exact absurd (unhidden.mp all).1 (List.cons_ne_nil _ _)
            · have stepped : (raisedFrom (.script ⟨code, chain, isAsync⟩ :: callers) error entered).step
                  = { raisedFrom (.script ⟨code, chain, isAsync⟩ :: callers) error entered with
                      control := .at_ pc
                      frames := .script ⟨code, hider :: (rest
                        ++ { cat with thrownVal := .object error } :: parents), isAsync⟩
                          :: callers } := by
                have went' : throwValue true (.object error) chain = .goto pc (hider :: (rest
                    ++ { cat with thrownVal := .object error } :: parents)) := went
                simp [Unwinding.step, raisedFrom, interrupted, throwAcross, went']
              rw [unwound, Function.iterate_one, stepped]
              exact ⟨.inr ⟨pc, rfl⟩, _, callers, hider, _, rfl, rfl,
                plain hider (List.mem_cons_self ..)⟩

/-- A throw over all frames. Witness: by induction on the frames. -/
theorem frames_unwind (laid : ∀ frame ∈ frames, CallFrame.Laid frame) (entered : List (Nat × Nat))
    : Unbroken frames
        ∧ (∃ count, unwound (count + 1) (raisedFrom frames error entered)
          = surfaced (entered ++ enclosingFinallys frames))
      ∨ ¬Unbroken frames
        ∧ ∃ count, Diverted (unwound (count + 1) (raisedFrom frames error entered)) := by
  induction frames generalizing entered with
  | nil =>
      refine .inl ⟨trivial, 0, ?_⟩
      simp [unwound, Unwinding.step, raisedFrom, interrupted, throwAcross, surfaced,
        enclosingFinallys]
  | cons frame callers ih =>
      have laid' : ∀ other ∈ callers, CallFrame.Laid other :=
        fun other among => laid other (List.mem_cons_of_mem _ among)
      have here : CallFrame.Laid frame := laid frame (List.mem_cons_self ..)
      match frame with
      | .script act =>
          rcases frame_unwinds callers error act.isAsync here entered with
            ⟨unhidden, count, ran⟩ | ⟨hidden, count, goesOn⟩
          · rcases ih laid'
                (entered ++ (liveFinallys act.cat).map fun pc => (callers.length, pc)) with
              ⟨unbroken, more, reached⟩ | ⟨broken, more, diverted⟩
            · refine .inl ⟨⟨unhidden, unbroken⟩, more + count, ?_⟩
              rw [Nat.add_assoc, unwound_add, ran, ← unwound_add, reached, List.append_assoc]
              rfl
            · refine .inr ⟨fun all => broken all.2, more + count, ?_⟩
              rw [Nat.add_assoc, unwound_add, ran, ← unwound_add]
              exact diverted
          · exact .inr ⟨fun all => hidden all.1, count, .inl goesOn⟩
      | .native .rethrows =>
          have passed : ∀ count, unwound (count + 1)
              (raisedFrom (.native .rethrows :: callers) error entered)
              = unwound (count + 1) (raisedFrom callers error entered) := by
            intro count
            rw [unwound, unwound, Function.iterate_succ_apply, Function.iterate_succ_apply,
              step_rethrows]
          rcases ih laid' entered with ⟨unbroken, count, reached⟩ | ⟨broken, count, diverted⟩
          · exact .inl ⟨unbroken, count, (passed count).trans reached⟩
          · exact .inr ⟨broken, count, (passed count).symm ▸ diverted⟩
      | .native .takes =>
          match callers with
          | [.native .drains] =>
              refine .inl ⟨rfl, 0, ?_⟩
              simp [unwound, Unwinding.step, raisedFrom, interrupted, throwAcross, endJob,
                surfaced, enclosingFinallys]
          | .native .drains :: outer :: callers =>
              refine .inr ⟨by simp [Unbroken], 0, .inr ?_⟩
              simp [unwound, Unwinding.step, raisedFrom, interrupted, throwAcross, endJob]
          | [] | .script _ :: _ | .native .rethrows :: _ | .native .takes :: _ =>
              refine .inr ⟨by simp [Unbroken], 0, .inr ?_⟩
              simp [unwound, Unwinding.step, raisedFrom, interrupted, throwAcross]
      | .native .drains =>
          match callers with
          | [] =>
              refine .inl ⟨rfl, 0, ?_⟩
              simp [unwound, Unwinding.step, raisedFrom, interrupted, throwAcross, endJob,
                surfaced, enclosingFinallys]
          | outer :: callers =>
              refine .inr ⟨by simp [Unbroken], 0, .inr ?_⟩
              simp [unwound, Unwinding.step, raisedFrom, interrupted, throwAcross, endJob]

/-- `try { f() } catch (e) {} finally {}`, in the body. -/
def guarded : Activation where
  code :=
    [makeABc .try_ 3 5, makeABc .nop 0 9, makeAbc .call 0 0 0, makeAbc .endtry 0 0 0,
      makeSabc .jump 4, makeAbc .catch_ 0 0 0, makeAbc .pushLex 0 0 0, makeABc .putlex 0 0,
      makeAbc .popLex 0 0 0, makeAbc .finally_ 0 0 0, makeAbc .endfinally 0 0 0,
      makeAbc .retundef 0 0 0]
  cat := [Catcher.enter 3 5 (some 9) none]
  isAsync := false

/-- `try { try { for (;;); } catch (e) {} } finally {} after();`, in the loop. -/
def interruptedLoop : Activation where
  code :=
    [makeABc .try_ 2 13, makeABc .nop 0 13, makeABc .try_ 1 5, makeABc .nop 0 0,
      makeSabc .jump (-1), makeAbc .endtry 0 0 0, makeSabc .jump 4, makeAbc .catch_ 0 0 0,
      makeAbc .pushLex 0 0 0, makeABc .putlex 0 0, makeAbc .popLex 0 0 0, makeAbc .endtry 0 0 0,
      makeSabc .jump 0, makeAbc .finally_ 0 0 0, makeAbc .endfinally 0 0 0, makeAbc .call 0 0 0,
      makeAbc .retundef 0 0 0]
  cat := [Catcher.enter 1 7 none none, Catcher.enter 2 13 (some 13) none]
  isAsync := false

/-- `for (;;);`, the executor of `new Promise`. -/
def endlessExecutor : Activation where
  code := [makeSabc .jump (-1), makeAbc .retundef 0 0 0]
  cat := []
  isAsync := false

/-- `new Promise(function () { for (;;); }); after();`, in the call of the constructor. -/
def constructsPromise : Activation where
  code := [makeAbc .call 0 0 0, makeAbc .call 0 0 0, makeAbc .retundef 0 0 0]
  cat := []
  isAsync := false

end Boomkat.Correctness
