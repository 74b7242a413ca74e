import Boomkat.Arrays.Sort
import Boomkat.Foundation.MergeSort

/-! The sorting loops on buffers run as the sorts of lists do, whatever the comparator does. -/

namespace Boomkat.Correctness

open Arrays Machine Programs

variable {W : Type}

-----------------------------------------------------------------------------------------
-- Buffers
-----------------------------------------------------------------------------------------

theorem slot_append (front : List Value) (a : Value) (back : List Value)
    : slot (front ++ a :: back) front.length = a := by
  rw [slot, List.getD_append_right _ _ _ _ (Nat.le_refl _), Nat.sub_self]
  rfl

theorem set_append_cons (front : List Value) (a b : Value) (back : List Value)
    : (front ++ a :: back).set front.length b = front ++ b :: back := by
  rw [List.set_append_right _ _ (Nat.le_refl _), Nat.sub_self]
  rfl

/-- The part of a buffer behind another part. -/
theorem slot_behind {buffer front back : List Value} {a : Value} {i : Nat}
    (split : buffer = front ++ a :: back) (here : i = front.length)
    : slot buffer i = a := by
  rw [split, here, slot_append]

theorem length_snoc {front : List Value} {i : Nat} (here : i = front.length) (a : Value)
    : i + 1 = (front ++ [a]).length := by
  rw [List.length_append, here]
  rfl

theorem copyLeftRun_eq {items temp tFront gap tBack iFront run iBack : List Value} {j mid : Nat}
    (inItems : items = iFront ++ (run ++ iBack)) (inTemp : temp = tFront ++ (gap ++ tBack))
    (width : gap.length = run.length) (itemsAt : j = iFront.length) (tempAt : j = tFront.length)
    (ends : mid = j + run.length)
    : copyLeftRun items mid temp j = tFront ++ (run ++ tBack) := by
  induction run generalizing temp tFront gap iFront j with
  | nil =>
      rw [copyLeftRun, if_neg (by simp [ends]), inTemp, List.eq_nil_of_length_eq_zero width]
  | cons a run ih =>
      cases gap with
      | nil => cases width
      | cons g gap =>
          have here : slot items j = a := slot_behind inItems itemsAt
          have copied : temp.set j a = tFront ++ [a] ++ (gap ++ tBack) := by
            rw [inTemp, tempAt, List.cons_append, set_append_cons, List.append_assoc]
            rfl
          rw [copyLeftRun, if_pos (by rw [ends, List.length_cons]; omega), here]
          have left : items = iFront ++ [a] ++ (run ++ iBack) := inItems.trans (List.append_cons ..)
          have itemsAt' : j + 1 = (iFront ++ [a]).length := length_snoc itemsAt a
          have tempAt' : j + 1 = (tFront ++ [a]).length := length_snoc tempAt a
          have ends' : mid = j + 1 + run.length := by
            rw [ends, List.length_cons]
            omega
          rw [ih left copied (Nat.succ.inj width) itemsAt' tempAt' ends', List.append_assoc]
          rfl

-----------------------------------------------------------------------------------------
-- One merge
-----------------------------------------------------------------------------------------

theorem takeRight_eq (st : MergeState) {right : Nat} {front run back : List Value}
    (items : st.items = front ++ (run ++ back)) (itemsAt : st.r = front.length)
    (same : st.k = st.r) (ends : right = st.r + run.length)
    : (takeRight right st).items = st.items := by
  induction run generalizing st front with
  | nil => rw [takeRight, if_neg (by simp [ends])]
  | cons a run ih =>
      have here : slot st.items st.r = a := slot_behind items itemsAt
      have kept : st.items.set st.k a = st.items := by
        rw [same, items, itemsAt, List.cons_append, set_append_cons]
      have items' : st.items = front ++ [a] ++ (run ++ back) := items.trans (List.append_cons ..)
      have itemsAt' : st.r + 1 = (front ++ [a]).length := length_snoc itemsAt a
      have ends' : right = st.r + 1 + run.length := by
        rw [ends, List.length_cons]
        omega
      rw [takeRight, if_pos (by omega), here, kept]
      exact ih ⟨st.l, st.r + 1, st.k + 1, st.items⟩ items' itemsAt'
        (congrArg Nat.succ same) ends'

theorem takeRight_done {st : MergeState} {right : Nat} (done : right ≤ st.r)
    : takeRight right st = st := by
  rw [takeRight, if_neg (Nat.not_lt.mpr done)]

theorem takeLeft_done {temp : List Value} {st : MergeState} {mid : Nat} (done : mid ≤ st.l)
    : takeLeft temp mid st = st := by
  rw [takeLeft, if_neg (Nat.not_lt.mpr done)]

theorem takeLeft_eq (st : MergeState) {temp tFront run tBack gap front back : List Value}
    {mid : Nat} (inTemp : temp = tFront ++ (run ++ tBack)) (tempAt : st.l = tFront.length)
    (items : st.items = front ++ (gap ++ back)) (width : gap.length = run.length)
    (itemsAt : st.k = front.length) (ends : mid = st.l + run.length)
    : (takeLeft temp mid st).items = front ++ (run ++ back)
      ∧ (takeLeft temp mid st).r = st.r := by
  induction run generalizing st tFront gap front with
  | nil =>
      rw [takeLeft, if_neg (by simp [ends]), items, List.eq_nil_of_length_eq_zero width]
      exact ⟨rfl, rfl⟩
  | cons a run ih =>
      cases gap with
      | nil => cases width
      | cons g gap =>
          have here : slot temp st.l = a := slot_behind inTemp tempAt
          have inTemp' : temp = tFront ++ [a] ++ (run ++ tBack) :=
            inTemp.trans (List.append_cons ..)
          have tempAt' : st.l + 1 = (tFront ++ [a]).length := length_snoc tempAt a
          have filled : st.items.set st.k a = front ++ [a] ++ (gap ++ back) := by
            rw [items, itemsAt, List.cons_append, set_append_cons, List.append_assoc]
            rfl
          have itemsAt' : st.k + 1 = (front ++ [a]).length := length_snoc itemsAt a
          have ends' : mid = st.l + 1 + run.length := by
            rw [ends, List.length_cons]
            omega
          have taken := ih ⟨st.l + 1, st.r, st.k + 1, st.items.set st.k a⟩ inTemp' tempAt' filled
            (Nat.succ.inj width) itemsAt' ends'
          rw [takeLeft, if_pos (by omega), here]
          rw [List.append_assoc] at taken
          exact taken

variable {compare : Value → Value → EStateM Value W Int}

/-- The merge loop with a gap before what is left of the right run that is as long as what is left
of the left run, which is in the other buffer. By induction over the merge.
-/
theorem mergeLoop_alike {temp tFront left tBack items front gap right back : List Value}
    {l r k mid stop : Nat} (inTemp : temp = tFront ++ (left ++ tBack))
    (tempAt : l = tFront.length) (inItems : items = front ++ (gap ++ (right ++ back)))
    (width : gap.length = left.length) (itemsAt : k = front.length) (behind : r = k + gap.length)
    (leftEnds : mid = l + left.length) (rightEnds : stop = r + right.length)
    : Alike
        (fun st out => (takeRight stop (takeLeft temp mid st)).items = front ++ (out ++ back)
          ∧ out.length = left.length + right.length)
        (mergeLoop compare temp mid stop ⟨l, r, k, items⟩)
        (MergeSort.merge compare left right) := by
  induction left, right using MergeSort.merge.induct
    generalizing tFront items front gap l r k with
  | case1 right =>
      have full : ¬(l < mid ∧ r < stop) := by
        rw [leftEnds, List.length_nil]
        omega
      have empty := List.eq_nil_of_length_eq_zero width
      rw [mergeLoop, if_neg full, MergeSort.merge]
      refine Alike.pure ⟨?_, by rw [List.length_nil, Nat.zero_add]⟩
      rw [takeLeft_done (by rw [leftEnds]; exact Nat.le_refl _)]
      rw [empty, List.length_nil] at behind
      rw [empty, List.nil_append] at inItems
      have itemsAt' : r = front.length := by
        rw [behind, itemsAt]
        rfl
      rw [takeRight_eq ⟨l, r, k, items⟩ inItems itemsAt' behind.symm rightEnds, inItems]
  | case2 left nonempty =>
      have full : ¬(l < mid ∧ r < stop) := by
        rw [rightEnds, List.length_nil]
        omega
      rw [mergeLoop, if_neg full, MergeSort.merge]
      · refine Alike.pure ⟨?_, by rw [List.length_nil, Nat.add_zero]⟩
        have taken := takeLeft_eq ⟨l, r, k, items⟩ inTemp tempAt inItems width itemsAt leftEnds
        rw [List.nil_append] at taken
        rw [takeRight_done (by rw [taken.2, rightEnds]; exact Nat.le_refl _), taken.1]
      · exact nonempty
  | case3 a left b right ihLeft ihRight =>
      have going : l < mid ∧ r < stop := by
        rw [leftEnds, rightEnds, List.length_cons, List.length_cons]
        omega
      have first : slot temp l = a := slot_behind inTemp tempAt
      have inItems' : items = front ++ gap ++ b :: (right ++ back) := by
        rw [inItems, List.append_assoc]
        rfl
      have second : slot items r = b :=
        slot_behind inItems' (by rw [behind, itemsAt, List.length_append])
      cases gap with
      | nil => cases width
      | cons g gap =>
          rw [mergeLoop, if_pos going, MergeSort.merge, first, second]
          refine (Alike.refl (compare a b)).bind fun cmp cmp' same => ?_
          subst same
          have filled (c : Value) : items.set k c
              = front ++ [c] ++ (gap ++ (b :: right ++ back)) := by
            rw [inItems, itemsAt, List.cons_append, set_append_cons, List.append_assoc]
            rfl
          have itemsAt' (c : Value) : k + 1 = (front ++ [c]).length := length_snoc itemsAt c
          rw [List.length_cons] at behind leftEnds rightEnds
          by_cases below : cmp ≤ 0
          · rw [if_pos below, if_pos below]
            have inTemp' : temp = tFront ++ [a] ++ (left ++ tBack) :=
              inTemp.trans (List.append_cons ..)
            have tempAt' : l + 1 = (tFront ++ [a]).length := length_snoc tempAt a
            have behind' : r = k + 1 + gap.length := by omega
            have leftEnds' : mid = l + 1 + left.length := by omega
            refine Alike.map_right (ihLeft inTemp' tempAt' (filled a) (Nat.succ.inj width)
              (itemsAt' a) behind' leftEnds' rightEnds) fun st out known => ⟨?_, ?_⟩
            · rw [known.1, List.append_assoc]
              rfl
            · rw [List.length_cons, known.2, List.length_cons, List.length_cons]
              omega
          · rw [if_neg below, if_neg below]
            -- The slot of the value that is taken joins the gap.
            have filled' : items.set k b = front ++ [b] ++ (gap ++ [b] ++ (right ++ back)) := by
              rw [filled b, List.append_assoc gap]
              rfl
            have width' : (gap ++ [b]).length = (a :: left).length := by
              rw [List.length_append, ← width]
              rfl
            have behind' : r + 1 = k + 1 + (gap ++ [b]).length := by
              rw [List.length_append, List.length_singleton]
              omega
            have rightEnds' : stop = r + 1 + right.length := by omega
            refine Alike.map_right (ihRight inTemp tempAt filled' width' (itemsAt' b) behind'
              leftEnds rightEnds') fun st out known => ⟨?_, ?_⟩
            · rw [known.1, List.append_assoc]
              rfl
            · rw [List.length_cons, known.2, List.length_cons, List.length_cons]
              omega

/-- A merge of two neighbouring runs, the left one of which was copied. -/
theorem mergeAt_alike {temp tFront left tBack items front right back : List Value}
    {start mid stop : Nat} (inTemp : temp = tFront ++ (left ++ tBack))
    (tempAt : start = tFront.length) (inItems : items = front ++ (left ++ (right ++ back)))
    (itemsAt : start = front.length) (leftEnds : mid = start + left.length)
    (rightEnds : stop = mid + right.length)
    : Alike
        (fun merged out => merged = front ++ (out ++ back)
          ∧ out.length = left.length + right.length)
        (mergeAt compare start mid stop temp items) (MergeSort.merge compare left right) := by
  rw [mergeAt]
  exact Alike.map_left (mergeLoop_alike inTemp tempAt inItems rfl itemsAt leftEnds leftEnds
    rightEnds) fun _ _ known => known

-----------------------------------------------------------------------------------------
-- Passes
-----------------------------------------------------------------------------------------

theorem mergePass_alike {presentCount width i : Nat} {temp items front live : List Value}
    (split : items = front ++ live) (here : i = front.length)
    (count : presentCount = front.length + live.length) (full : temp.length = presentCount)
    : Alike
        (fun buffers out => buffers.2 = front ++ out ∧ buffers.1.length = presentCount
          ∧ out.length = live.length)
        (mergePass compare presentCount width temp items i)
        (MergeSort.mergeRuns compare width live) := by
  induction live using MergeSort.mergeRuns.induct width generalizing front temp items i with
  | case1 live going ih =>
      have whole := MergeSort.take_take_drop live width
      have lengths := congrArg List.length whole
      rw [List.length_append, List.length_append] at lengths
      have runs : (live.take width).length = min width live.length := List.length_take
      have runs' : ((live.drop width).take width).length = min width (live.length - width) := by
        rw [List.length_take, List.length_drop]
      rw [mergePass, if_pos ⟨by omega, going.2⟩, MergeSort.mergeRuns, if_pos going]
      have tempSplit : temp = temp.take i
          ++ ((temp.drop i).take (live.take width).length
            ++ temp.drop (i + (live.take width).length)) := by
        rw [← List.drop_drop, List.take_append_drop, List.take_append_drop]
      have tempAt : i = (temp.take i).length := by
        rw [List.length_take]
        omega
      have gap : ((temp.drop i).take (live.take width).length).length
          = (live.take width).length := by
        rw [List.length_take, List.length_drop]
        omega
      have mid : (if i + width < presentCount then i + width else presentCount)
          = i + (live.take width).length := by
        rw [runs]
        split <;> omega
      have stop : (if i + 2 * width < presentCount then i + 2 * width else presentCount)
          = i + (live.take width).length + ((live.drop width).take width).length := by
        rw [runs, runs']
        split <;> omega
      rw [mid, stop]
      have parts : items = front ++ (live.take width
          ++ ((live.drop width).take width ++ live.drop (2 * width))) := by
        rw [whole, split]
      have copied := copyLeftRun_eq parts tempSplit gap here tempAt rfl
      have copiedLength : (copyLeftRun items (i + (live.take width).length) temp i).length
          = presentCount := by
        rw [copied, List.length_append, List.length_append, List.length_take, List.length_drop]
        omega
      refine (mergeAt_alike copied tempAt parts here rfl rfl).bind fun out out' known => ?_
      have split' : out = front ++ out' ++ live.drop (2 * width) := by
        rw [known.1, List.append_assoc]
      by_cases last : live.length ≤ 2 * width
      · have none : live.drop (2 * width) = [] := List.drop_eq_nil_of_le last
        have past : ¬(i + 2 * width < presentCount ∧ 0 < width) := by omega
        have past' : ¬(0 < (live.drop (2 * width)).length ∧ 0 < width) := by
          rw [none]
          exact fun both => absurd both.1 (Nat.lt_irrefl 0)
        rw [mergePass, if_neg past, MergeSort.mergeRuns, if_neg past']
        refine Alike.pure ⟨?_, copiedLength, ?_⟩
        · rw [known.1]
        · rw [List.length_append]
          omega
      · have here' : i + 2 * width = (front ++ out').length := by
          rw [List.length_append]
          omega
        have count' : presentCount
            = (front ++ out').length + (live.drop (2 * width)).length := by
          rw [List.length_append]
          omega
        refine Alike.map_right (ih split' here' count' copiedLength) fun buffers rest known' => ?_
        rw [List.length_append]
        refine ⟨by rw [known'.1, List.append_assoc], known'.2.1, by omega⟩
  | case2 live past =>
      have past' : ¬(i < presentCount ∧ 0 < width) := by omega
      rw [mergePass, if_neg past', MergeSort.mergeRuns, if_neg past]
      exact Alike.pure ⟨split, full, rfl⟩

theorem mergePassesFrom_alike {width : Nat} {temp items : List Value}
    (full : temp.length = items.length)
    : Alike Eq (mergePassesFrom compare items.length width temp items)
        (MergeSort.mergePasses compare items.length width items) := by
  induction left : items.length - width using Nat.strongRecOn
    generalizing width temp items with
  | ind n ih =>
      by_cases going : width < items.length ∧ 0 < width
      · rw [mergePassesFrom, if_pos going, MergeSort.mergePasses, if_pos going]
        refine (mergePass_alike (List.nil_append items).symm rfl (Nat.zero_add _).symm
          full).bind fun buffers out known => ?_
        obtain ⟨same, full', length⟩ := known
        rw [List.nil_append] at same
        rw [same, ← length, Nat.mul_comm width 2]
        exact ih (out.length - 2 * width) (by omega) (full'.trans length.symm) rfl
      · rw [mergePassesFrom, if_neg going, MergeSort.mergePasses, if_neg going]
        exact Alike.pure rfl

/-- The bottom-up merge sort on the buffers is the one on lists. -/
theorem sortItems_merges {temp items : List Value} (full : temp.length = items.length)
    : sortItems compare temp items = MergeSort.mergePasses compare items.length 1 items := by
  by_cases some : items.length > 1
  · rw [sortItems, if_pos some]
    exact (mergePassesFrom_alike full).eq
  · rw [sortItems, if_neg some, MergeSort.mergePasses, if_neg (by omega)]

-----------------------------------------------------------------------------------------
-- Neighbour swaps
-----------------------------------------------------------------------------------------

theorem swapLoop_alike {len i j : Nat} {elements front l back : List Value} {a : Value}
    (split : elements = front ++ (a :: l ++ back)) (here : j = front.length)
    (ends : len - 1 - i = j + l.length)
    : Alike (fun elements out => elements = front ++ (out.1 ++ out.2 :: back)
          ∧ out.1.length = l.length)
        (swapLoop compare len i elements j) (MergeSort.sink compare a l) := by
  induction l generalizing elements front j a with
  | nil =>
      rw [swapLoop, if_neg (by rw [ends, List.length_nil]; omega), MergeSort.sink]
      exact Alike.pure ⟨split, rfl⟩
  | cons b l ih =>
      have first : slot elements j = a := slot_behind split here
      have split' : elements = front ++ [a] ++ (b :: l ++ back) := by
        rw [split, List.append_assoc]
        rfl
      have next : j + 1 = (front ++ [a]).length := length_snoc here a
      have second : slot elements (j + 1) = b := slot_behind split' next
      have swapped : (elements.set j b).set (j + 1) a = front ++ [b] ++ (a :: l ++ back) := by
        rw [split, here, List.cons_append, set_append_cons, List.cons_append,
          ← List.singleton_append, ← List.append_assoc,
          (length_snoc rfl b : front.length + 1 = (front ++ [b]).length),
          set_append_cons]
        rfl
      have ends' : len - 1 - i = j + 1 + l.length := by
        rw [ends, List.length_cons]
        omega
      rw [swapLoop, if_pos (by omega), MergeSort.sink]
      simp only [first, second]
      refine (Alike.refl (compare a b)).bind fun cmp cmp' same => ?_
      subst same
      by_cases above : cmp > 0
      · rw [if_pos above, if_pos above]
        have next' : j + 1 = (front ++ [b]).length := length_snoc here b
        refine Alike.map_right (ih swapped next' ends') fun out sunk known => ⟨?_, ?_⟩
        · rw [known.1, List.append_assoc]
          rfl
        · rw [List.length_cons, known.2, List.length_cons]
      · rw [if_neg above, if_neg above]
        refine Alike.map_right (ih split' next ends') fun out sunk known => ⟨?_, ?_⟩
        · rw [known.1, List.append_assoc]
          rfl
        · rw [List.length_cons, known.2, List.length_cons]

theorem sortElementsFrom_alike {len i : Nat} {elements live done : List Value}
    (split : elements = live ++ done) (left : len = i + live.length)
    : Alike (fun out sorted => out = sorted ++ done) (sortElementsFrom compare len elements i)
        (MergeSort.sinkAll compare live.length live) := by
  induction length : live.length generalizing elements live done i with
  | zero =>
      have empty := List.eq_nil_of_length_eq_zero length
      rw [sortElementsFrom, if_neg (by omega), empty, MergeSort.sinkAll]
      refine Alike.pure ?_
      rw [split, empty]
  | succ n ih =>
      cases live with
      | nil => cases length
      | cons a l =>
          rw [List.length_cons] at left length
          rw [sortElementsFrom, if_pos (by omega), MergeSort.sinkAll]
          have split' : elements = [] ++ (a :: l ++ done) := split
          have ends : len - 1 - i = 0 + l.length := by omega
          refine (swapLoop_alike split' rfl ends).bind fun elements' sunk known => ?_
          have swapped : elements' = sunk.1 ++ sunk.2 :: done := known.1
          refine Alike.map_right (ih swapped (by omega) (by omega)) fun out sorted known' => ?_
          rw [known', List.append_assoc]
          rfl

/-- The neighbour swaps on the buffer sink the elements of a list. -/
theorem sortElements_eq (elements : List Value)
    : sortElements compare elements = MergeSort.sinkAll compare elements.length elements := by
  refine Alike.eq ((sortElementsFrom_alike (List.append_nil elements).symm
    (Nat.zero_add elements.length).symm).mono fun out sorted same => ?_)
  rw [same, List.append_nil]

end Boomkat.Correctness
