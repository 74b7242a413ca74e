import Boomkat.Foundation.Layout
import Boomkat.Json.Serializer

/-! What the serializer writes: the text of each value at an indentation, the line breaks that its
early returns misplace, and the depth at which it gives up.
-/

namespace Boomkat.Correctness

open Foundation Json Machine

variable {gap : List UInt8} {path : List Nat}

-----------------------------------------------------------------------------------------
-- Steps
-----------------------------------------------------------------------------------------

/-- A step writes a text that depends on the indentation and leaves the indentation too high by a
number, unless what it visits lies too deep. No array or object that is being visited is among those
that it visits.
-/
structure Writes (step : JsonSerializeCtx → Except JsonFailure JsonSerializeCtx)
    (path : List Nat) (written : Nat → List UInt8) (leaks nesting : Nat) : Prop where
  fits : ∀ ctx, (∀ a ∈ ctx.visited, a ∈ path) → ctx.depth + nesting ≤ jsonMaxDepth →
    ∃ visited, visited <+: ctx.visited
      ∧ step ctx = .ok ⟨ctx.out ++ written ctx.indentLevel, ctx.indentLevel + leaks, ctx.depth,
        visited⟩
  deep : ∀ ctx, (∀ a ∈ ctx.visited, a ∈ path) → ctx.depth ≤ jsonMaxDepth →
    jsonMaxDepth < ctx.depth + nesting → step ctx = .error .invalidLength

variable {step later : JsonSerializeCtx → Except JsonFailure JsonSerializeCtx}
  {written text : Nat → List UInt8} {leaks more nesting nesting' : Nat}

theorem Writes.ok (path : List Nat) (bytes : Nat → List UInt8)
    (step : JsonSerializeCtx → JsonSerializeCtx)
    (is : ∀ ctx, step ctx = ctx.append (bytes ctx.indentLevel))
    : Writes (fun ctx => .ok (step ctx)) path bytes 0 0 := by
  constructor
  · intro ctx _ _
    exact ⟨ctx.visited, List.prefix_refl _, by rw [is]; rfl⟩
  · intro ctx _ small large
    omega

/-- One step after the other. -/
theorem Writes.seq (first : Writes step path written leaks nesting)
    (second : Writes later path text more nesting')
    : Writes (fun ctx => step ctx >>= later) path (fun n => written n ++ text (n + leaks))
        (leaks + more) (max nesting nesting') := by
  constructor
  · intro ctx within shallow
    obtain ⟨visited, before, is⟩ := first.fits ctx within (by omega)
    obtain ⟨visited', before', is'⟩ := second.fits
      ⟨ctx.out ++ written ctx.indentLevel, ctx.indentLevel + leaks, ctx.depth, visited⟩
      (fun a member => within a (before.subset member))
      (by change ctx.depth + nesting' ≤ jsonMaxDepth; omega)
    refine ⟨visited', before'.trans before, ?_⟩
    rw [is]
    refine is'.trans ?_
    rw [List.append_assoc, Nat.add_assoc]
  · intro ctx within small large
    by_cases here : ctx.depth + nesting ≤ jsonMaxDepth
    · obtain ⟨visited, before, is⟩ := first.fits ctx within here
      rw [is]
      exact second.deep _ (fun a member => within a (before.subset member)) small
        (by change jsonMaxDepth < ctx.depth + nesting'; omega)
    · rw [first.deep ctx within small (by omega)]
      rfl

theorem Writes.congr (writes : Writes step path written leaks nesting)
    (is : ∀ ctx, later ctx = step ctx) : Writes later path written leaks nesting := by
  obtain rfl : later = step := funext is
  exact writes

theorem Writes.writing (writes : Writes step path written leaks nesting)
    (same : ∀ n, text n = written n) (leaked : more = leaks) (nested : nesting' = nesting)
    : Writes step path text more nesting' := by
  obtain rfl : text = written := funext same
  rw [leaked, nested]
  exact writes

/-- A nested value lies one level deeper. -/
theorem Writes.nested (writes : Writes step path written leaks nesting)
    : Writes (fun ctx => ctx.nested step) path written leaks (nesting + 1) := by
  constructor
  · intro ctx within shallow
    obtain ⟨visited, before, is⟩ := writes.fits { ctx with depth := ctx.depth + 1 } within
      (by change ctx.depth + 1 + nesting ≤ jsonMaxDepth; omega)
    refine ⟨visited, before, ?_⟩
    have some : ¬jsonMaxDepth < ctx.depth + 1 := by omega
    simp only [JsonSerializeCtx.nested, gt_iff_lt, some, if_false, is]
    rfl
  · intro ctx within small large
    by_cases here : jsonMaxDepth < ctx.depth + 1
    · simp only [JsonSerializeCtx.nested, gt_iff_lt, here, if_true]
    · have fails := writes.deep { ctx with depth := ctx.depth + 1 } within
        (by change ctx.depth + 1 ≤ jsonMaxDepth; omega)
        (by change jsonMaxDepth < ctx.depth + 1 + nesting; omega)
      simp only [JsonSerializeCtx.nested, gt_iff_lt, here, if_false, fails]
      rfl

/-- The line break at an indentation. -/
def brokenLine (gap : List UInt8) (n : Nat) : List UInt8 :=
  if 0 < gap.length then 0x0A :: (List.replicate n gap).flatten else []

theorem breakLine_eq (ctx : JsonSerializeCtx)
    : ctx.breakLine gap = ctx.append (brokenLine gap ctx.indentLevel) := by
  rw [JsonSerializeCtx.breakLine, brokenLine, flatten_replicate_eq_map]
  split
  · rfl
  · rw [JsonSerializeCtx.append, List.append_nil]

/-- What separates an element from the one in front of it. -/
def separation (gap : List UInt8) (first : Bool) (n : Nat) : List UInt8 :=
  (if first then [] else [0x2C]) ++ brokenLine gap n

theorem separate_eq (first : Bool) (ctx : JsonSerializeCtx)
    : ctx.separate gap first = ctx.append (separation gap first ctx.indentLevel) := by
  rw [JsonSerializeCtx.separate, breakLine_eq, separation]
  cases first with
  | true => rfl
  | false => simp [JsonSerializeCtx.append]

/-- The literal that is written for a string. -/
def quotedText (data : List UInt8) : List UInt8 := jsonEscapeString data (data.length * 6 + 2)

theorem length_le_escapeLoop (size : Nat) (src out : List UInt8)
    : out.length ≤ (escapeLoop size src out).length := by
  induction src, out using escapeLoop.induct size with
  | case1 out => rw [escapeLoop]
  | case2 out c rest _ below next full =>
      rw [escapeLoop, if_pos below]
      exact Nat.le_of_eq (congrArg List.length (if_pos full).symm)
  | case3 out c rest _ below next full ih =>
      rw [escapeLoop, if_pos below]
      simp only [next] at full ih
      simp only [full, if_false]
      rw [List.length_append] at ih
      omega
  | case4 out c rest _ above => rw [escapeLoop, if_neg above]

theorem writeString_eq (ctx : JsonSerializeCtx) (data : List UInt8)
    : ctx.writeString data = .ok (ctx.append (quotedText data)) := by
  have some : (quotedText data).length ≠ 0 := by
    have longer := length_le_escapeLoop (data.length * 6 + 2) data [0x22]
    rw [List.length_singleton] at longer
    simp only [quotedText, jsonEscapeString, Nat.zero_lt_succ, if_true]
    split
    · rw [List.length_append]
      omega
    · omega
  rw [JsonSerializeCtx.writeString, jsonEscapeStringTo]
  simp only [if_true]
  rw [quotedText] at some
  rw [if_neg some]
  rfl

/-- The way into an array or object that is not being visited. -/
theorem enter_eq {addr : Nat} {ctx : JsonSerializeCtx} (fresh : addr ∉ path)
    (within : ∀ a ∈ ctx.visited, a ∈ path) (opening : UInt8)
    : ∃ visited, ctx.enter addr opening
        = .ok ⟨ctx.out ++ [opening], ctx.indentLevel + 1, ctx.depth, visited⟩
      ∧ (∀ a ∈ visited, a ∈ addr :: path)
      ∧ ∀ later, later <+: visited → later.dropLast <+: ctx.visited := by
  have new : addr ∉ ctx.visited := fun member => fresh (within addr member)
  by_cases room : ctx.visited.length < jsonMaxDepth
  · refine ⟨ctx.visited ++ [addr], ?_, ?_, ?_⟩
    · rw [JsonSerializeCtx.enter, if_neg new, JsonSerializeCtx.push, if_pos room]
      rfl
    · intro a member
      rcases List.mem_append.mp member with inside | last
      · exact List.mem_cons_of_mem _ (within a inside)
      · rw [List.mem_singleton.mp last]
        exact List.mem_cons_self
    · intro later before
      rcases List.prefix_concat_iff.mp before with rfl | before
      · simp only [List.dropLast_concat, List.prefix_refl]
      · exact (List.dropLast_prefix _).trans before
  -- the stack is full: nothing is pushed, and the way out drops the last ancestor instead
  · refine ⟨ctx.visited, ?_, ?_, ?_⟩
    · rw [JsonSerializeCtx.enter, if_neg new, JsonSerializeCtx.push, if_neg room]
      rfl
    · exact fun a member => List.mem_cons_of_mem _ (within a member)
    · exact fun later before => (List.dropLast_prefix _).trans before

/-- An array or object around a loop over what it holds. -/
theorem Writes.container {addr : Nat} {opening closing : UInt8} (fresh : addr ∉ path)
    (loop : Writes step (addr :: path) written leaks nesting)
    : Writes
        (fun ctx => do
          let ctx ← ctx.enter addr opening
          let ctx ← step ctx
          return ctx.leave gap closing)
        path
        (fun n => opening :: written (n + 1) ++ brokenLine gap (n + leaks) ++ [closing])
        leaks nesting := by
  constructor
  · intro ctx within shallow
    obtain ⟨visited, enters, within', back⟩ := enter_eq fresh within opening
    obtain ⟨visited', before, is⟩ := loop.fits
      ⟨ctx.out ++ [opening], ctx.indentLevel + 1, ctx.depth, visited⟩ within' shallow
    refine ⟨visited'.dropLast, back visited' before, ?_⟩
    have indent : ctx.indentLevel + 1 + leaks - 1 = ctx.indentLevel + leaks := by omega
    simp only [bind, Except.bind, enters, is, JsonSerializeCtx.leave, breakLine_eq,
      JsonSerializeCtx.append, JsonSerializeCtx.pop, indent]
    simp [pure, Except.pure]
  · intro ctx within small large
    obtain ⟨visited, enters, within', -⟩ := enter_eq fresh within opening
    simp only [bind, Except.bind, enters, loop.deep
      ⟨ctx.out ++ [opening], ctx.indentLevel + 1, ctx.depth, visited⟩ within' small large]

/-- The early return for an array or object without content. -/
theorem Writes.empty {addr : Nat} {opening closing : UInt8} (fresh : addr ∉ path)
    : Writes
        (fun ctx => do
          let ctx ← ctx.enter addr opening
          return (ctx.append [closing]).pop)
        path (fun _ => [opening, closing]) 1 0 := by
  constructor
  · intro ctx within _
    obtain ⟨visited, enters, -, back⟩ := enter_eq fresh within opening
    refine ⟨visited.dropLast, back visited (List.prefix_refl _), ?_⟩
    simp only [bind, Except.bind, enters, JsonSerializeCtx.append, JsonSerializeCtx.pop,
      List.append_assoc]
    rfl
  · intro ctx _ small large
    omega

end Boomkat.Correctness
