import Mathlib.Data.List.Basic

/-! Search for the one binding that answers a request, in a graph of requests with cycles. One
search remembers all it has visited; the other remembers the path it came by, up to a limit.
Both find what is reachable; the second may not end.
-/

namespace Boomkat.Foundation

variable {Q B : Type*}

/-- What a request comes to: a binding, or the requests whose answers are its own. -/
inductive View (Q B : Type*) where
  | found (binding : B)
  | asks (requests : List Q)

inductive Answer (B : Type*) where
  | null
  | resolved (binding : B)
  | ambiguous
  deriving DecidableEq, Repr

/-- One more answer beside those gathered. -/
def Answer.join [DecidableEq B] (star answer : Answer B) : Answer B :=
  match answer with
  | .ambiguous => .ambiguous
  | .null => star
  | .resolved binding =>
      match star with
      | .null => .resolved binding
      | .resolved other => if other = binding then .resolved other else .ambiguous
      | .ambiguous => .ambiguous

/-- The answers of all requests joined, as long as they agree. -/
def gather [DecidableEq B] (resolve : Q → Option (Answer B))
    : List Q → Answer B → Option (Answer B)
  | [], star => some star
  | request :: rest, star =>
      (resolve request).bind fun answer =>
        if star.join answer = .ambiguous then some .ambiguous
        else gather resolve rest (star.join answer)

/-- Gathering from one request only. -/
theorem gather_singleton [DecidableEq B] (resolve : Q → Option (Answer B)) (request : Q)
    : gather resolve [request] .null = resolve request := by
  cases resolved : resolve request with
  | none => simp only [gather, resolved, Option.bind_none]
  | some answer => cases answer <;> simp [gather, resolved, Answer.join]

/-- The path with a request added, if there is room. -/
def recordRequest (limit : Nat) (path : List Q) (request : Q) : List Q :=
  if path.length < limit then path ++ [request] else path

/-- The search that remembers its path. -/
def pathSearch [DecidableEq Q] [DecidableEq B] (view : Q → View Q B) (limit : Nat)
    : Nat → Q → List Q → Option (Answer B)
  | 0, _, _ => none
  | fuel + 1, request, path =>
      if request ∈ path then some .null
      else
        match view request with
        | .found binding => some (.resolved binding)
        | .asks requests =>
            gather (fun next => pathSearch view limit fuel next (recordRequest limit path request))
              requests .null

/-- The answers of all requests joined, each with what those before it have visited. -/
def gatherShared [DecidableEq B] (resolve : Q → List Q → Option (Answer B × List Q))
    : List Q → Answer B → List Q → Option (Answer B × List Q)
  | [], star, visited => some (star, visited)
  | request :: rest, star, visited =>
      (resolve request visited).bind fun (answer, visited) =>
        if star.join answer = .ambiguous then some (.ambiguous, visited)
        else gatherShared resolve rest (star.join answer) visited

/-- Gathering from one request only. -/
theorem gatherShared_singleton [DecidableEq B]
    (resolve : Q → List Q → Option (Answer B × List Q)) (request : Q) (visited : List Q)
    : gatherShared resolve [request] .null visited = resolve request visited := by
  cases resolved : resolve request visited with
  | none => simp only [gatherShared, resolved, Option.bind_none]
  | some found =>
      obtain ⟨answer, visited'⟩ := found
      cases answer <;> simp [gatherShared, resolved, Answer.join]

/-- The search that remembers all it has visited. -/
def sharedSearch [DecidableEq Q] [DecidableEq B] (view : Q → View Q B)
    : Nat → Q → List Q → Option (Answer B × List Q)
  | 0, _, _ => none
  | fuel + 1, request, visited =>
      if request ∈ visited then some (.null, visited)
      else
        match view request with
        | .found binding => some (.resolved binding, visited ++ [request])
        | .asks requests =>
            gatherShared (sharedSearch view fuel) requests .null (visited ++ [request])

-----------------------------------------------------------------------------------------
-- What is to be found
-----------------------------------------------------------------------------------------

/-- The binding is reached from the request past none of these. -/
inductive Binds (view : Q → View Q B) (avoid : List Q) : Q → B → Prop where
  | found {request : Q} {binding : B} (clear : request ∉ avoid)
    (found : view request = .found binding)
    : Binds view avoid request binding
  | asks {request next : Q} {binding : B} {requests : List Q} (clear : request ∉ avoid)
    (asks : view request = .asks requests) (member : next ∈ requests)
    (rest : Binds view avoid next binding)
    : Binds view avoid request binding

/-- The answer says how many bindings there are, none or one or more. -/
def Answer.Denotes (bindings : B → Prop) : Answer B → Prop
  | .null => ∀ binding, ¬bindings binding
  | .resolved binding => bindings binding ∧ ∀ other, bindings other → other = binding
  | .ambiguous => ∃ binding other, bindings binding ∧ bindings other ∧ binding ≠ other

variable {bindings others : B → Prop} {view : Q → View Q B} {limit : Nat}
  {request : Q} {path : List Q}

theorem Answer.Denotes.unique {answer other : Answer B} (denotes : answer.Denotes bindings)
    (denotes' : other.Denotes bindings)
    : answer = other := by
  cases answer with
  | null =>
      cases other with
      | null => rfl
      | resolved binding => exact absurd denotes'.1 (denotes binding)
      | ambiguous =>
          obtain ⟨binding, _, bound, _⟩ := denotes'
          exact absurd bound (denotes binding)
  | resolved binding =>
      cases other with
      | null => exact absurd denotes.1 (denotes' binding)
      | resolved binding' => rw [denotes'.2 binding denotes.1]
      | ambiguous =>
          obtain ⟨one, two, bound, bound', different⟩ := denotes'
          exact absurd ((denotes.2 one bound).trans (denotes.2 two bound').symm) different
  | ambiguous =>
      obtain ⟨one, two, bound, bound', different⟩ := denotes
      cases other with
      | null => exact absurd bound (denotes' one)
      | resolved binding =>
          exact absurd ((denotes'.2 one bound).trans (denotes'.2 two bound').symm) different
      | ambiguous => rfl

theorem Answer.Denotes.congr {answer : Answer B} (denotes : answer.Denotes bindings)
    (same : ∀ binding, bindings binding ↔ others binding)
    : answer.Denotes others := by
  have equal : bindings = others := funext fun binding => propext (same binding)
  exact equal ▸ denotes

/-- Joining answers joins the bindings they stand for. -/
theorem Answer.Denotes.join [DecidableEq B] {star answer : Answer B}
    (denotes : star.Denotes bindings) (more : answer.Denotes others)
    : (star.join answer).Denotes fun binding => bindings binding ∨ others binding := by
  cases answer with
  | null => exact denotes.congr fun binding => by simp [more binding]
  | ambiguous =>
      obtain ⟨one, two, bound, bound', different⟩ := more
      exact ⟨one, two, .inr bound, .inr bound', different⟩
  | resolved binding =>
      cases star with
      | null => exact Answer.Denotes.congr more fun other => by simp [denotes other]
      | ambiguous =>
          obtain ⟨one, two, bound, bound', different⟩ := denotes
          exact ⟨one, two, .inl bound, .inl bound', different⟩
      | resolved other =>
          by_cases same : other = binding
          · simp only [Answer.join, same, if_true]
            refine ⟨.inr more.1, ?_⟩
            rintro third (bound | bound)
            · exact (denotes.2 third bound).trans same
            · exact more.2 third bound
          · simp only [Answer.join, same, if_false]
            exact ⟨other, binding, .inl denotes.1, .inr more.1, same⟩

/-- Ambiguity among some is ambiguity among more. -/
theorem Answer.Denotes.ambiguous_mono (denotes : (Answer.ambiguous : Answer B).Denotes bindings)
    (more : ∀ binding, bindings binding → others binding)
    : (Answer.ambiguous : Answer B).Denotes others := by
  obtain ⟨one, two, bound, bound', different⟩ := denotes
  exact ⟨one, two, more one bound, more two bound', different⟩

/-- What is reached past fewer requests. -/
theorem Binds.mono {avoid fewer : List Q} {binding : B} (binds : Binds view avoid request binding)
    (subset : fewer ⊆ avoid)
    : Binds view fewer request binding := by
  induction binds with
  | found clear found => exact .found (fun member => clear (subset member)) found
  | asks clear asks member _ ih => exact .asks (fun member => clear (subset member)) asks member ih

theorem Binds.clear {avoid : List Q} {binding : B} (binds : Binds view avoid request binding)
    : request ∉ avoid := by
  cases binds <;> assumption

/-- A way to a binding can be cut short at the last time it comes past a request. -/
theorem Binds.cut {avoid requests : List Q} {start : Q} {binding : B}
    (asks : view request = .asks requests) (binds : Binds view avoid start binding)
    : Binds view (avoid ++ [request]) start binding
      ∨ ∃ next ∈ requests, Binds view (avoid ++ [request]) next binding := by
  induction binds with
  | @found here _ clear found =>
      refine .inl (.found ?_ found)
      rw [List.mem_append, List.mem_singleton, not_or]
      refine ⟨clear, ?_⟩
      rintro rfl
      rw [asks] at found
      cases found
  | @asks here next _ requests' clear asks' member _ ih =>
      rcases ih with rest | later
      · by_cases same : here = request
        · subst same
          rw [asks, View.asks.injEq] at asks'
          exact .inr ⟨next, asks' ▸ member, rest⟩
        · refine .inl (.asks ?_ asks' member rest)
          rw [List.mem_append, List.mem_singleton, not_or]
          exact ⟨clear, same⟩
      · exact .inr later

theorem recordRequest_subset (limit : Nat) (path : List Q) (request : Q)
    : path ⊆ recordRequest limit path request := by
  unfold recordRequest
  split
  · exact List.subset_append_left _ _
  · exact List.Subset.refl _

/-- The bindings of a request are those of the requests it asks, whether or not it is recorded. -/
theorem binds_iff_of_asks {requests : List Q} {binding : B} (clear : request ∉ path)
    (asks : view request = .asks requests)
    : Binds view path request binding
      ↔ ∃ next ∈ requests, Binds view (recordRequest limit path request) next binding := by
  constructor
  · intro binds
    unfold recordRequest
    split
    · rcases binds.cut asks with here | later
      · exact absurd (List.mem_append_right _ (List.mem_singleton_self _)) here.clear
      · exact later
    · cases binds with
      | found _ found =>
          rw [asks] at found
          cases found
      | asks _ asks' member rest =>
          rw [asks, View.asks.injEq] at asks'
          exact ⟨_, asks' ▸ member, rest⟩
  · rintro ⟨next, member, rest⟩
    exact .asks clear asks member (rest.mono (recordRequest_subset limit path request))

-----------------------------------------------------------------------------------------
-- What the searches find
-----------------------------------------------------------------------------------------

/-- Gathered answers stand for the bindings of all requests, also where gathering ends early. -/
theorem gather_denotes [DecidableEq B] {resolve : Q → Option (Answer B)} {reached : Q → B → Prop}
    (each : ∀ next answer, resolve next = some answer → answer.Denotes (reached next))
    {requests : List Q} {star answer : Answer B} (denotes : star.Denotes bindings)
    (gathered : gather resolve requests star = some answer)
    : answer.Denotes fun binding =>
        bindings binding ∨ ∃ next ∈ requests, reached next binding := by
  induction requests generalizing star bindings with
  | nil =>
      cases gathered
      exact denotes.congr fun binding => by simp
  | cons next rest ih =>
      simp only [gather, Option.bind_eq_some_iff] at gathered
      obtain ⟨answer', resolved, gathered⟩ := gathered
      have joined := denotes.join (each next answer' resolved)
      split at gathered
      · rename_i ambiguous
        cases gathered
        rw [ambiguous] at joined
        refine joined.ambiguous_mono ?_
        rintro binding (before | now)
        · exact .inl before
        · exact .inr ⟨next, List.mem_cons_self .., now⟩
      · refine (ih joined gathered).congr fun binding => ?_
        simp only [List.mem_cons, exists_eq_or_imp, or_assoc]

/-- The search that remembers its path finds what is reached past the path. -/
theorem pathSearch_denotes [DecidableEq Q] [DecidableEq B] {fuel : Nat} {answer : Answer B}
    (searched : pathSearch view limit fuel request path = some answer)
    : answer.Denotes (Binds view path request) := by
  induction fuel generalizing request path answer with
  | zero => cases searched
  | succ fuel ih =>
      simp only [pathSearch] at searched
      split at searched
      · rename_i met
        cases searched
        exact fun binding binds => binds.clear met
      · rename_i clear
        split at searched
        · rename_i binding found
          cases searched
          refine ⟨.found clear found, ?_⟩
          intro other binds
          cases binds with
          | found _ found' =>
              rw [found, View.found.injEq] at found'
              exact found'.symm
          | asks _ asks _ _ =>
              rw [found] at asks
              cases asks
        · rename_i requests asks
          have none : (Answer.null : Answer B).Denotes fun _ => False := fun _ bound => bound
          refine (gather_denotes (fun next answer => ih) none searched).congr fun binding => ?_
          rw [false_or]
          exact (binds_iff_of_asks clear asks).symm

/-- What a search that is not ambiguous has added to what was visited: a set closed under asking,
which has the bindings that the answer stands for.
-/
structure Explored (view : Q → View Q B) (start : Q) (before after : List Q)
    (answer : Answer B) : Prop where
  subset : before ⊆ after
  closed : ∀ request ∈ after, request ∉ before → ∀ requests, view request = .asks requests →
    requests ⊆ after
  bound : ∀ request ∈ after, request ∉ before → ∀ binding, view request = .found binding →
    Binds view [] start binding
  denotes : answer.Denotes fun binding =>
    ∃ request ∈ after, request ∉ before ∧ view request = .found binding

/-- An answer of the search that remembers all: ambiguous for two bindings that are reached, or
with all there is in what was visited.
-/
def Answers (view : Q → View Q B) (start : Q) (before after : List Q) (answer : Answer B)
    : Prop :=
  answer.Denotes (Binds view [] start) ∧ answer = .ambiguous
  ∨ answer ≠ .ambiguous ∧ start ∈ after ∧ Explored view start before after answer

/-- What follows on what was visited. -/
theorem Explored.join [DecidableEq B] {start next : Q} {before middle after : List Q}
    {star answer : Answer B} (explored : Explored view start before middle star)
    (more : Explored view next middle after answer)
    (reached : ∀ binding, Binds view [] next binding → Binds view [] start binding)
    : Explored view start before after (star.join answer) where
  subset := List.Subset.trans explored.subset more.subset
  closed := by
    intro request member fresh requests asks
    by_cases old : request ∈ middle
    · exact List.Subset.trans (explored.closed request old fresh requests asks) more.subset
    · exact more.closed request member old requests asks
  bound := by
    intro request member fresh binding found
    by_cases old : request ∈ middle
    · exact explored.bound request old fresh binding found
    · exact reached binding (more.bound request member old binding found)
  denotes := by
    refine (explored.denotes.join more.denotes).congr fun binding => ?_
    constructor
    · rintro (⟨request, member, fresh, found⟩ | ⟨request, member, fresh, found⟩)
      · exact ⟨request, more.subset member, fresh, found⟩
      · exact ⟨request, member, fun old => fresh (explored.subset old), found⟩
    · rintro ⟨request, member, fresh, found⟩
      by_cases old : request ∈ middle
      · exact .inl ⟨request, old, fresh, found⟩
      · exact .inr ⟨request, member, old, found⟩

theorem gatherShared_answers [DecidableEq B]
    {resolve : Q → List Q → Option (Answer B × List Q)}
    (each : ∀ next visited answer after, resolve next visited = some (answer, after) →
      Answers view next visited after answer)
    {start : Q} {requests visited before after : List Q} {star answer : Answer B}
    (reached : ∀ next ∈ requests, ∀ binding, Binds view [] next binding →
      Binds view [] start binding)
    (explored : Explored view start before visited star) (agreed : star ≠ .ambiguous)
    (gathered : gatherShared resolve requests star visited = some (answer, after))
    : answer.Denotes (Binds view [] start) ∧ answer = .ambiguous
      ∨ answer ≠ .ambiguous ∧ (visited ⊆ after ∧ requests ⊆ after)
        ∧ Explored view start before after answer := by
  induction requests generalizing visited star with
  | nil =>
      cases gathered
      exact .inr ⟨agreed, ⟨List.Subset.refl _, List.nil_subset _⟩, explored⟩
  | cons next rest ih =>
      simp only [gatherShared, Option.bind_eq_some_iff] at gathered
      obtain ⟨⟨answer', visited'⟩, resolved, gathered⟩ := gathered
      have reachedNext := reached next (List.mem_cons_self ..)
      have bound : star.Denotes fun binding => ∃ request ∈ visited, request ∉ before
          ∧ view request = .found binding := explored.denotes
      have starBound : ∀ binding, (∃ request ∈ visited, request ∉ before
          ∧ view request = .found binding) → Binds view [] start binding := by
        rintro binding ⟨request, member, fresh, found⟩
        exact explored.bound request member fresh binding found
      split at gathered
      · rename_i ambiguous
        cases gathered
        refine .inl ⟨?_, rfl⟩
        rcases each next visited answer' visited' resolved with
          ⟨denotes, _⟩ | ⟨_, _, explored'⟩
        · have joined := bound.join denotes
          rw [ambiguous] at joined
          refine joined.ambiguous_mono ?_
          rintro binding (before | now)
          · exact starBound binding before
          · exact reachedNext binding now
        · have joined := bound.join explored'.denotes
          rw [ambiguous] at joined
          refine joined.ambiguous_mono ?_
          rintro binding (before | ⟨request, member, fresh, found⟩)
          · exact starBound binding before
          · exact reachedNext binding (explored'.bound request member fresh binding found)
      · rename_i agreed'
        rcases each next visited answer' visited' resolved with
          ⟨_, ambiguous⟩ | ⟨_, member, explored'⟩
        · rw [ambiguous] at agreed'
          exact absurd rfl agreed'
        · have joined := explored.join explored' reachedNext
          rcases ih (fun other among => reached other (List.mem_cons_of_mem _ among)) joined
            agreed' gathered with ambiguous | ⟨agreed'', ⟨subset, all⟩, explored''⟩
          · exact .inl ambiguous
          · refine .inr ⟨agreed'', ⟨List.Subset.trans explored'.subset subset, ?_⟩, explored''⟩
            exact List.cons_subset.mpr ⟨subset member, all⟩

/-- What a request asks was visited, and so was it. -/
theorem Explored.withStart {before after requests : List Q} {answer : Answer B}
    (explored : Explored view request (before ++ [request]) after answer)
    (asks : view request = .asks requests) (all : requests ⊆ after)
    : Explored view request before after answer where
  subset := List.Subset.trans (List.subset_append_left _ _) explored.subset
  closed := by
    intro other member fresh requests' asks'
    by_cases same : other = request
    · rw [same, asks, View.asks.injEq] at asks'
      exact asks' ▸ all
    · exact explored.closed other member (by simp [fresh, same]) requests' asks'
  bound := by
    intro other member fresh binding found
    by_cases same : other = request
    · rw [same, asks] at found
      cases found
    · exact explored.bound other member (by simp [fresh, same]) binding found
  denotes := by
    refine explored.denotes.congr fun binding => ?_
    constructor
    · rintro ⟨other, member, fresh, found⟩
      exact ⟨other, member, fun old => fresh (List.mem_append_left _ old), found⟩
    · rintro ⟨other, member, fresh, found⟩
      refine ⟨other, member, ?_, found⟩
      rw [List.mem_append, List.mem_singleton, not_or]
      refine ⟨fresh, ?_⟩
      rintro rfl
      rw [asks] at found
      cases found

theorem sharedSearch_answers [DecidableEq Q] [DecidableEq B] {fuel : Nat} {answer : Answer B}
    {visited after : List Q} (searched : sharedSearch view fuel request visited = some (answer, after))
    : Answers view request visited after answer := by
  induction fuel generalizing request visited answer after with
  | zero => cases searched
  | succ fuel ih =>
      simp only [sharedSearch] at searched
      split at searched
      · rename_i met
        cases searched
        refine .inr ⟨nofun, met, List.Subset.refl _, ?_, ?_, ?_⟩
        · exact fun request member fresh => absurd member fresh
        · exact fun request member fresh => absurd member fresh
        · rintro binding ⟨request, member, fresh, _⟩
          exact fresh member
      · rename_i clear
        have only : ∀ other ∈ visited ++ [request], other ∉ visited → other = request := by
          intro other member fresh
          rcases List.mem_append.mp member with old | new
          · exact absurd old fresh
          · exact List.mem_singleton.mp new
        have here : request ∈ visited ++ [request] :=
          List.mem_append_right _ (List.mem_singleton_self _)
        split at searched
        · rename_i binding found
          cases searched
          refine .inr ⟨nofun, here, List.subset_append_left _ _, ?_, ?_, ?_⟩
          · intro other member fresh requests asks
            rw [only other member fresh, found] at asks
            cases asks
          · intro other member fresh binding' found'
            rw [only other member fresh] at found'
            exact .found List.not_mem_nil found'
          · refine ⟨⟨request, here, clear, found⟩, ?_⟩
            rintro binding' ⟨other, member, fresh, found'⟩
            rw [only other member fresh, found, View.found.injEq] at found'
            exact found'.symm
        · rename_i requests asks
          have nothing : Explored view request (visited ++ [request]) (visited ++ [request])
              (.null : Answer B) := by
            refine ⟨List.Subset.refl _, ?_, ?_, ?_⟩
            · exact fun other member fresh => absurd member fresh
            · exact fun other member fresh => absurd member fresh
            · rintro binding ⟨other, member, fresh, _⟩
              exact fresh member
          have reached : ∀ next ∈ requests, ∀ binding, Binds view [] next binding →
              Binds view [] request binding :=
            fun next member binding rest => .asks List.not_mem_nil asks member rest
          rcases gatherShared_answers (fun _ _ _ _ => ih) reached nothing nofun searched with
            ambiguous | ⟨agreed, ⟨subset, all⟩, explored⟩
          · exact .inl ambiguous
          · exact .inr ⟨agreed, subset here, explored.withStart asks all⟩

/-- Requests closed under asking hold all that one of them reaches. -/
theorem Binds.within {start : Q} {binding : B} {requests : List Q}
    (closed : ∀ request ∈ requests, ∀ asked, view request = .asks asked → asked ⊆ requests)
    (binds : Binds view [] start binding) (member : start ∈ requests)
    : ∃ request ∈ requests, view request = .found binding := by
  induction binds with
  | @found here binding clear found => exact ⟨here, member, found⟩
  | @asks here next binding asked clear asks among rest ih =>
      exact ih (closed here member asked asks among)

/-- The search that remembers all finds what is reached. -/
theorem sharedSearch_denotes [DecidableEq Q] [DecidableEq B] {fuel : Nat} {answer : Answer B}
    {after : List Q} (searched : sharedSearch view fuel request [] = some (answer, after))
    : answer.Denotes (Binds view [] request) := by
  rcases sharedSearch_answers searched with ⟨denotes, _⟩ | ⟨_, member, explored⟩
  · exact denotes
  · refine explored.denotes.congr fun binding => ?_
    constructor
    · rintro ⟨other, visited, fresh, found⟩
      exact explored.bound other visited fresh binding found
    · intro binds
      obtain ⟨other, visited, found⟩ := binds.within
        (fun other among asked asks => explored.closed other among List.not_mem_nil asked asks)
        member
      exact ⟨other, visited, List.not_mem_nil, found⟩

end Boomkat.Foundation
