import Mathlib.Data.Set.Finite.Basic
import Mathlib.Data.Fintype.EquivFin
import Mathlib.Logic.Relation
import Mathlib.Order.WellFounded
import Boomkat.Foundation.RequestSearch

/-! When the searches end: the one that remembers all always does, the one that remembers its
path does unless it enters a cycle with no room left.
-/

namespace Boomkat.Foundation

open Relation

variable {Q B : Type*} {view : Q → View Q B} {limit : Nat} {request : Q} {path : List Q}

-----------------------------------------------------------------------------------------
-- The search that remembers its path
-----------------------------------------------------------------------------------------

/-- Gathering what some requests answer, if all that they answer is the same. -/
theorem gather_mono [DecidableEq B] {resolve resolve' : Q → Option (Answer B)}
    {requests : List Q}
    (same : ∀ next ∈ requests, ∀ answer, resolve next = some answer →
      resolve' next = some answer)
    {star answer : Answer B} (gathered : gather resolve requests star = some answer)
    : gather resolve' requests star = some answer := by
  induction requests generalizing star with
  | nil => exact gathered
  | cons next rest ih =>
      simp only [gather, Option.bind_eq_some_iff] at gathered ⊢
      obtain ⟨answer', resolved, gathered⟩ := gathered
      refine ⟨answer', same next (List.mem_cons_self ..) answer' resolved, ?_⟩
      split at gathered
      · rename_i ambiguous
        rw [if_pos ambiguous]
        exact gathered
      · rename_i agreed
        rw [if_neg agreed]
        exact ih (fun other among => same other (List.mem_cons_of_mem _ among)) gathered

/-- More fuel does not change the answer. -/
theorem pathSearch_mono [DecidableEq Q] [DecidableEq B] {fuel more : Nat} {answer : Answer B}
    (enough : fuel ≤ more) (searched : pathSearch view limit fuel request path = some answer)
    : pathSearch view limit more request path = some answer := by
  induction fuel generalizing more request path answer with
  | zero => cases searched
  | succ fuel ih =>
      obtain ⟨more, rfl⟩ : ∃ less, more = less + 1 := ⟨more - 1, by omega⟩
      simp only [pathSearch] at searched ⊢
      split at searched
      · rename_i met
        rw [if_pos met]
        exact searched
      · rename_i clear
        rw [if_neg clear]
        cases seen : view request with
        | found binding => simpa only [seen] using searched
        | asks requests =>
            simp only [seen] at searched
            exact gather_mono (fun next _ answer => ih (by omega)) searched

/-- Gathering over some requests and then over more, as long as the first agree. -/
theorem gather_append [DecidableEq B] {resolve : Q → Option (Answer B)} {before : List Q}
    (rest : List Q) {star middle : Answer B} (gathered : gather resolve before star = some middle)
    (agreed : middle ≠ .ambiguous)
    : gather resolve (before ++ rest) star = gather resolve rest middle := by
  induction before generalizing star with
  | nil =>
      cases gathered
      rfl
  | cons next before ih =>
      simp only [gather, Option.bind_eq_some_iff] at gathered
      obtain ⟨answer, resolved, gathered⟩ := gathered
      split at gathered
      · cases gathered
        exact absurd rfl agreed
      · rename_i agreed'
        rw [List.cons_append, gather, resolved, Option.bind_some, if_neg agreed']
        exact ih gathered

/-- What is gathered over more requests was gathered over the first of them. -/
theorem gather_of_append [DecidableEq B] {resolve : Q → Option (Answer B)}
    {before rest : List Q} {star answer : Answer B}
    (gathered : gather resolve (before ++ rest) star = some answer)
    : ∃ middle, gather resolve before star = some middle := by
  induction before generalizing star with
  | nil => exact ⟨star, rfl⟩
  | cons next before ih =>
      simp only [List.cons_append, gather, Option.bind_eq_some_iff] at gathered ⊢
      obtain ⟨answer', resolved, gathered⟩ := gathered
      split at gathered
      · rename_i ambiguous
        exact ⟨.ambiguous, answer', resolved, if_pos ambiguous⟩
      · rename_i agreed
        obtain ⟨middle, gathered'⟩ := ih gathered
        exact ⟨middle, answer', resolved, (if_neg agreed).trans gathered'⟩

/-- The bindings of these requests that are reached past the path. -/
def Reached (view : Q → View Q B) (path requests : List Q) (binding : B) : Prop :=
  ∃ request ∈ requests, Binds view path request binding

/-- A request met with this path goes on to another: it is not on the path, and the requests it
asks before the other one have at most one binding.
-/
def Asks (view : Q → View Q B) (limit : Nat) (path : List Q) (request next : Q) : Prop :=
  request ∉ path
  ∧ ∃ before after, view request = .asks (before ++ next :: after)
    ∧ ∀ binding other,
      Reached view (recordRequest limit path request) before binding →
      Reached view (recordRequest limit path request) before other →
      binding = other

/-- The search comes to a request, with a path. -/
inductive Visits (view : Q → View Q B) (limit : Nat) (start : Q) : List Q → Q → Prop where
  | start : Visits view limit start [] start
  | asks {path : List Q} {request next : Q} (visits : Visits view limit start path request)
    (asks : Asks view limit path request next)
    : Visits view limit start (recordRequest limit path request) next

/-- The search comes, with no room left on its path, to a request that leads back to itself. -/
def EntersCycle (view : Q → View Q B) (limit : Nat) (start : Q) : Prop :=
  ∃ path request, Visits view limit start path request
    ∧ limit ≤ path.length
    ∧ TransGen (Asks view limit path) request request

theorem recordRequest_full (full : limit ≤ path.length) (request : Q)
    : recordRequest limit path request = path :=
  if_neg (Nat.not_lt.mpr full)

variable {start : Q} {known : List Q}

/-- Requests closed under asking hold all the search comes to. -/
theorem Visits.within (closed : ∀ request ∈ known, ∀ asked, view request = .asks asked →
      asked ⊆ known)
    (member : start ∈ known) (visits : Visits view limit start path request)
    : request ∈ known := by
  induction visits with
  | start => exact member
  | asks _ asks ih =>
      obtain ⟨_, before, after, asked, _⟩ := asks
      exact closed _ ih _ asked (by simp)

section Path

variable [DecidableEq Q] [DecidableEq B]

/-- The search ends. -/
def Ends (view : Q → View Q B) (limit : Nat) (path : List Q) (request : Q) : Prop :=
  ∃ fuel answer, pathSearch view limit fuel request path = some answer

/-- What was gathered so far is what is reached. -/
theorem gather_reached {fuel : Nat} {before : List Q} {answer : Answer B}
    (gathered : gather (fun next => pathSearch view limit fuel next path) before .null
      = some answer)
    : answer.Denotes (Reached view path before) := by
  have nothing : (Answer.null : Answer B).Denotes fun _ => False := fun _ bound => bound
  refine (gather_denotes (fun next answer => pathSearch_denotes) nothing gathered).congr
    fun binding => ?_
  exact Iff.of_eq (false_or _)

/-- What the search goes on to, it has an answer of, with less fuel. -/
theorem Asks.searched {fuel : Nat} {next : Q} {answer : Answer B}
    (asks : Asks view limit path request next)
    (searched : pathSearch view limit fuel request path = some answer)
    : ∃ less answer', less < fuel
      ∧ pathSearch view limit less next (recordRequest limit path request) = some answer' := by
  obtain ⟨clear, before, after, asked, agreed⟩ := asks
  cases fuel with
  | zero => cases searched
  | succ fuel =>
      simp only [pathSearch, if_neg clear, asked] at searched
      obtain ⟨middle, gathered⟩ := gather_of_append searched
      have denotes := gather_reached gathered
      have agreed' : middle ≠ .ambiguous := by
        intro ambiguous
        rw [ambiguous] at denotes
        obtain ⟨one, two, bound, bound', different⟩ := denotes
        exact different (agreed one two bound bound')
      rw [gather_append _ gathered agreed', gather, Option.bind_eq_some_iff] at searched
      obtain ⟨answer', resolved, _⟩ := searched
      exact ⟨fuel, answer', Nat.lt_succ_self fuel, resolved⟩

/-- Fuel for one of several is fuel for all of them. -/
theorem exists_common_fuel {holds : Q → Prop} {requests : List Q}
    (each : ∀ next ∈ requests, holds next → Ends view limit path next)
    : ∃ fuel, ∀ next ∈ requests, holds next →
      ∃ answer, pathSearch view limit fuel next path = some answer := by
  induction requests with
  | nil => exact ⟨0, fun next among => absurd among List.not_mem_nil⟩
  | cons first rest ih =>
      obtain ⟨fuel, common⟩ := ih fun next among => each next (List.mem_cons_of_mem _ among)
      by_cases wanted : holds first
      · obtain ⟨fuel', answer, searched⟩ := each first (List.mem_cons_self ..) wanted
        refine ⟨max fuel fuel', fun next among held => ?_⟩
        rcases List.mem_cons.mp among with rfl | among
        · exact ⟨answer, pathSearch_mono (Nat.le_max_right ..) searched⟩
        · obtain ⟨answer', searched'⟩ := common next among held
          exact ⟨answer', pathSearch_mono (Nat.le_max_left ..) searched'⟩
      · refine ⟨fuel, fun next among held => ?_⟩
        rcases List.mem_cons.mp among with rfl | among
        · exact absurd held wanted
        · exact common next among held

/-- The search of a request ends if that of all it goes on to does. -/
theorem ends_of_asks
    (each : ∀ next, Asks view limit path request next →
      Ends view limit (recordRequest limit path request) next)
    : Ends view limit path request := by
  by_cases met : request ∈ path
  · exact ⟨1, .null, if_pos met⟩
  · cases seen : view request with
    | found binding => exact ⟨1, .resolved binding, by simp only [pathSearch, if_neg met, seen]⟩
    | asks requests =>
        obtain ⟨fuel, common⟩ := exists_common_fuel
          (fun next (_ : next ∈ requests) asks => each next asks)
        suffices gathers : ∀ rest before star, requests = before ++ rest →
            gather (fun next => pathSearch view limit fuel next (recordRequest limit path request))
              before .null = some star → star ≠ .ambiguous →
            ∃ answer, gather
              (fun next => pathSearch view limit fuel next (recordRequest limit path request))
              rest star = some answer by
          obtain ⟨answer, gathered⟩ := gathers requests [] .null rfl rfl fun no => by cases no
          exact ⟨fuel + 1, answer, by simpa only [pathSearch, if_neg met, seen] using gathered⟩
        intro rest
        induction rest with
        | nil => exact fun before star _ _ _ => ⟨star, rfl⟩
        | cons next rest ih =>
            intro before star split gathered agreed
            have asks : Asks view limit path request next := by
              refine ⟨met, before, rest, split ▸ seen, fun binding other bound bound' => ?_⟩
              have denotes := gather_reached gathered
              cases star with
              | null => exact absurd bound (denotes binding)
              | resolved only =>
                  exact (denotes.2 binding bound).trans (denotes.2 other bound').symm
              | ambiguous => exact absurd rfl agreed
            obtain ⟨answer, resolved⟩ := common next (split ▸ by simp) asks
            simp only [gather, resolved, Option.bind_some]
            by_cases ambiguous : star.join answer = .ambiguous
            · exact ⟨.ambiguous, if_pos ambiguous⟩
            · rw [if_neg ambiguous]
              refine ih (before ++ [next]) (star.join answer) (by simpa using split) ?_ ambiguous
              rw [gather_append [next] gathered agreed]
              simp only [gather, resolved, Option.bind_some, if_neg ambiguous]

/-- A search that ends comes to no request whose search does not. -/
theorem Visits.ends {start : Q} (visits : Visits view limit start path request)
    (ends : Ends view limit [] start)
    : Ends view limit path request := by
  induction visits with
  | start => exact ends
  | asks _ asks ih =>
      obtain ⟨fuel, answer, searched⟩ := ih
      obtain ⟨less, answer', _, searched'⟩ := asks.searched searched
      exact ⟨less, answer', searched'⟩

/-- Along requests met with no room left, the fuel that is left goes down. -/
theorem searched_of_leads {fuel : Nat} {next : Q} {answer : Answer B}
    (full : limit ≤ path.length) (leads : TransGen (Asks view limit path) request next)
    (searched : pathSearch view limit fuel request path = some answer)
    : ∃ less answer', less < fuel ∧ pathSearch view limit less next path = some answer' := by
  induction leads with
  | single asks =>
      have found := asks.searched searched
      rwa [recordRequest_full full] at found
  | tail _ asks ih =>
      obtain ⟨less, answer', fewer, searched'⟩ := ih
      obtain ⟨least, answer'', fewer', searched''⟩ := asks.searched searched'
      rw [recordRequest_full full] at searched''
      exact ⟨least, answer'', Nat.lt_trans fewer' fewer, searched''⟩

/-- With no room left, a search does not come back to its request. -/
theorem Ends.irrefl (full : limit ≤ path.length) (ends : Ends view limit path request)
    : ¬TransGen (Asks view limit path) request request := by
  intro leads
  obtain ⟨fuel, answer, searched⟩ := ends
  induction fuel using Nat.strong_induction_on generalizing answer with
  | _ fuel ih =>
      obtain ⟨less, answer', fewer, searched'⟩ := searched_of_leads full leads searched
      exact ih less fewer answer' searched'

/-- With no room left and no cycle ahead, the search ends: finitely many requests are left, and
none of them comes twice.
-/
theorem Visits.ends_full (closed : ∀ request ∈ known, ∀ asked, view request = .asks asked →
      asked ⊆ known)
    (member : start ∈ known) (acyclic : ¬EntersCycle view limit start)
    (full : limit ≤ path.length) (visits : Visits view limit start path request)
    : Ends view limit path request := by
  let Met := { request : Q // request ∈ known ∧ Visits view limit start path request }
  have : Finite Met := Set.Finite.subset known.toFinset.finite_toSet
    (fun request met => by simpa using met.1) |>.to_subtype
  have transitive : IsTrans Met fun next request =>
      TransGen (Asks view limit path) request.1 next.1 :=
    ⟨fun _ _ _ later earlier => earlier.trans later⟩
  have irreflexive : Std.Irrefl fun next request : Met =>
      TransGen (Asks view limit path) request.1 next.1 :=
    ⟨fun met leads => acyclic ⟨path, met.1, met.2.2, full, leads⟩⟩
  have wellFounded := Finite.wellFounded_of_trans_of_irrefl fun next request : Met =>
    TransGen (Asks view limit path) request.1 next.1
  suffices all : ∀ met : Met, Ends view limit path met.1 from
    all ⟨request, visits.within closed member, visits⟩
  intro met
  induction met using wellFounded.induction with
  | _ met ih =>
      refine ends_of_asks fun next asks => ?_
      have visits' := Visits.asks met.2.2 asks
      rw [recordRequest_full full] at visits' ⊢
      exact ih ⟨next, visits'.within closed member, visits'⟩ (.single asks)

/-- The search that remembers its path ends unless it enters a cycle. Witness: while there is room
each step takes some of it; then `ends_full`.
-/
theorem ends_iff (closed : ∀ request ∈ known, ∀ asked, view request = .asks asked →
      asked ⊆ known)
    (member : start ∈ known)
    : Ends view limit [] start ↔ ¬EntersCycle view limit start := by
  constructor
  · rintro ends ⟨path, request, visits, full, cycle⟩
    exact (visits.ends ends).irrefl full cycle
  · intro acyclic
    suffices all : ∀ room path request, limit - path.length = room →
        Visits view limit start path request → Ends view limit path request from
      all _ [] start rfl .start
    intro room
    induction room with
    | zero =>
        intro path request none visits
        exact visits.ends_full closed member acyclic (by omega)
    | succ room ih =>
        intro path request some visits
        refine ends_of_asks fun next asks => ih _ next ?_ (.asks visits asks)
        rw [recordRequest, if_pos (by omega), List.length_append, List.length_singleton]
        omega

end Path

-----------------------------------------------------------------------------------------
-- The search that remembers all
-----------------------------------------------------------------------------------------

/-- Gathering ends if each search does. -/
theorem gatherShared_ends [DecidableEq B] {resolve : Q → List Q → Option (Answer B × List Q)}
    {requests visited : List Q}
    (each : ∀ next ∈ requests, ∀ visited', visited ⊆ visited' →
      ∃ answer after, resolve next visited' = some (answer, after) ∧ visited' ⊆ after)
    (star : Answer B)
    : ∃ answer after, gatherShared resolve requests star visited = some (answer, after)
      ∧ visited ⊆ after := by
  induction requests generalizing star visited with
  | nil => exact ⟨star, visited, rfl, List.Subset.refl _⟩
  | cons next rest ih =>
      obtain ⟨answer, after, resolved, subset⟩ :=
        each next (List.mem_cons_self ..) visited (List.Subset.refl _)
      simp only [gatherShared, resolved, Option.bind_some]
      by_cases ambiguous : star.join answer = .ambiguous
      · exact ⟨.ambiguous, after, if_pos ambiguous, subset⟩
      · rw [if_neg ambiguous]
        obtain ⟨answer', after', gathered, subset'⟩ := ih
          (fun other among visited' more => each other (List.mem_cons_of_mem _ among) visited'
            (List.Subset.trans subset more))
          (star.join answer)
        exact ⟨answer', after', gathered, List.Subset.trans subset subset'⟩

section Shared

variable [DecidableEq Q] [DecidableEq B] {known : List Q}

/-- The requests not yet visited. -/
def unvisited (known visited : List Q) : List Q :=
  known.filter (· ∉ visited)

theorem unvisited_length_le {visited after : List Q} (subset : visited ⊆ after)
    : (unvisited known after).length ≤ (unvisited known visited).length := by
  refine List.Sublist.length_le (List.monotone_filter_right known fun request fresh => ?_)
  simp only [decide_eq_true_eq] at fresh ⊢
  exact fun old => fresh (subset old)

theorem unvisited_length_lt {visited : List Q} (member : request ∈ known)
    (fresh : request ∉ visited)
    : (unvisited known (visited ++ [request])).length
      < (unvisited known visited).length := by
  have filtered : unvisited known (visited ++ [request])
      = (unvisited known visited).filter (· ≠ request) := by
    simp only [unvisited, List.filter_filter]
    refine List.filter_congr fun other _ => ?_
    simp [Bool.and_comm]
  rw [filtered]
  refine List.length_filter_lt_length_iff_exists.mpr ⟨request, ?_, by simp⟩
  simp [unvisited, member, fresh]

/-- The search that remembers all ends. Witness: by induction on the fuel, which is more than the
requests left to visit.
-/
theorem sharedSearch_ends (closed : ∀ request ∈ known, ∀ asked, view request = .asks asked →
      asked ⊆ known)
    {fuel : Nat} {visited : List Q} (member : request ∈ known)
    (enough : (unvisited known visited).length < fuel)
    : ∃ answer after, sharedSearch view fuel request visited = some (answer, after)
      ∧ visited ⊆ after := by
  induction fuel generalizing request visited with
  | zero => exact absurd enough (Nat.not_lt_zero _)
  | succ fuel ih =>
      simp only [sharedSearch]
      by_cases met : request ∈ visited
      · exact ⟨.null, visited, if_pos met, List.Subset.refl _⟩
      · rw [if_neg met]
        cases seen : view request with
        | found binding =>
            exact ⟨.resolved binding, visited ++ [request], rfl, List.subset_append_left _ _⟩
        | asks requests =>
            have fewer := unvisited_length_lt member met
            have each : ∀ next ∈ requests, ∀ visited', visited ++ [request] ⊆ visited' →
                ∃ answer after, sharedSearch view fuel next visited' = some (answer, after)
                  ∧ visited' ⊆ after := by
              intro next among visited' more
              have left : (unvisited known visited').length
                  ≤ (unvisited known (visited ++ [request])).length :=
                unvisited_length_le more
              exact ih (closed request member requests seen among) (by omega)
            obtain ⟨answer, after, gathered, subset⟩ := gatherShared_ends each .null
            exact ⟨answer, after, gathered,
              List.Subset.trans (List.subset_append_left _ _) subset⟩

end Shared

end Boomkat.Foundation
