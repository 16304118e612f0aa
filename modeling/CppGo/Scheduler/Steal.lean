import CppGo.Scheduler.Processer

/-!
# `Steal`

What one call of `Steal` takes when nobody else is at the queues: from the back of
`newQueue_`, and from the back of `runnableQueue_` around `runningTask_` and `nextTask_`.
-/

namespace CppGo.Scheduling

open scoped List

namespace Processer

def steal (p : Processer) (n : Nat) : Processer × TaskList :=
  let r := p.stealNew n
  if n > 0 ∧ r.2.length ≥ n then r
  else
    let r₂ := r.1.stealRunnable n r.2.length
    (r₂.1, r₂.2 ++ r.2)

/-- `runningTask_` and `nextTask_`, where they are in `runnableQueue_`. -/
def pinned (p : Processer) : TaskList :=
  (p.runningTask_.toList.filter fun t => t ∈ p.runnableQueue_) ++
    p.nextTask_.toList.filter fun t => t ∈ p.runnableQueue_ ∧ p.runningTask_ ≠ some t

def unpinned (p : Processer) : TaskQueue :=
  p.runnableQueue_.filter fun t => p.runningTask_ ≠ some t ∧ p.nextTask_ ≠ some t

def available (p : Processer) : Nat :=
  p.newQueue_.length + p.runnableQueue_.length - p.pinned.length

/-- What a call of `Steal(n)` does: `p` is the Processer before it and `r` what it leaves,
with the tasks that it returns. -/
structure Steals (p : Processer) (n : Nat) (r : Processer × TaskList) : Prop where
  length : r.2.length = if n = 0 then p.available else min n p.available
  nodup : r.2.Nodup
  perm : r.2 ++ r.1.newQueue_ ++ r.1.runnableQueue_ ~ p.newQueue_ ++ p.runnableQueue_
  new : r.1.newQueue_ <+: p.newQueue_
  same : 0 < n → n ≤ p.newQueue_.length → r.1.runnableQueue_ = p.runnableQueue_
  runnable : ¬ (0 < n ∧ n ≤ p.newQueue_.length) →
    ∃ kept, kept <+: p.unpinned ∧ r.1.runnableQueue_ = kept ++ p.pinned
  running : ∀ t, p.runningTask_ = some t → t ∉ r.2
  next : ∀ t, p.nextTask_ = some t → t ∉ r.2

variable {p : Processer} {q : TaskQueue} {hook : Option TaskPtr} {n size : Nat}

section Pinned

theorem pin_fst (hq : q.Nodup) : (pin q hook).1 = q.filter fun t => hook ≠ some t := by
  cases hook with
  | none => simp [pin]
  | some t =>
      show (q.eraseWithoutLock t).1 = _
      by_cases ht : t ∈ q
      · rw [TaskQueue.erase_of_mem ht, hq.erase_eq_filter]
        apply List.filter_congr
        intro a _
        by_cases ha : a = t
        · simp [ha]
        · simp [ha, Ne.symm ha]
      · rw [TaskQueue.erase_of_not_mem ht, eq_comm, List.filter_eq_self]
        intro a ha
        have hne : t ≠ a := by
          rintro rfl
          exact ht ha
        simpa using hne

theorem pin_snd :
    (if (pin q hook).2 then hook.toList else []) = hook.toList.filter fun t => t ∈ q := by
  cases hook with
  | none => simp
  | some t =>
      show (if (q.eraseWithoutLock t).2 then [t] else []) = _
      by_cases ht : t ∈ q
      · simp [TaskQueue.erase_of_mem ht, ht]
      · simp [TaskQueue.erase_of_not_mem ht, ht]

theorem pin_pin_fst (hq : p.runnableQueue_.Nodup) :
    (pin (pin p.runnableQueue_ p.runningTask_).1 p.nextTask_).1 = p.unpinned := by
  have hq' : (pin p.runnableQueue_ p.runningTask_).1.Nodup := by
    rw [pin_fst hq]
    exact hq.filter _
  rw [pin_fst hq', pin_fst hq, List.filter_filter, unpinned]
  apply List.filter_congr
  intro t _
  rw [Bool.and_comm, ← Bool.decide_and]

theorem pin_pin_snd (hq : p.runnableQueue_.Nodup) :
    (if (pin p.runnableQueue_ p.runningTask_).2 then p.runningTask_.toList else []) ++
      (if (pin (pin p.runnableQueue_ p.runningTask_).1 p.nextTask_).2 then p.nextTask_.toList
        else []) = p.pinned := by
  rw [pin_snd, pin_snd, pin_fst hq, pinned]
  congr 1
  apply List.filter_congr
  intro t _
  simp

theorem perm_pinned (hq : p.runnableQueue_.Nodup) :
    p.runnableQueue_ ~ p.pinned ++ p.unpinned := by
  rw [← pin_pin_snd hq, ← pin_pin_fst hq, List.append_assoc]
  exact pin_perm.trans (pin_perm.append_left _)

theorem length_pinned (hq : p.runnableQueue_.Nodup) :
    p.pinned.length + p.unpinned.length = p.runnableQueue_.length := by
  rw [(perm_pinned hq).length_eq, List.length_append]

theorem available_eq (hq : p.runnableQueue_.Nodup) :
    p.available = p.newQueue_.length + p.unpinned.length := by
  have := length_pinned hq
  unfold available
  omega

end Pinned

section Equations

/-- How many of the tasks that are not pinned stay, when `newQueue_` has given `size`. -/
def keeps (p : Processer) (n size : Nat) : Nat :=
  if n > 0 then p.unpinned.length - max 1 ((n - size) % 2 ^ 32) else 0

theorem stealRunnable_eq (hq : p.runnableQueue_.Nodup) (n size : Nat) :
    p.stealRunnable n size =
      ({ p with runnableQueue_ := p.unpinned.take (p.keeps n size) ++ p.pinned },
        p.unpinned.drop (p.keeps n size)) := by
  have hpop : (if n > 0 then p.unpinned.popBackWithoutLock ((n - size) % 2 ^ 32)
      else p.unpinned.popAllWithoutLock) =
      (p.unpinned.take (p.keeps n size), p.unpinned.drop (p.keeps n size)) := by
    unfold keeps
    split
    · rw [TaskQueue.popBackWithoutLock, List.splitAt_eq]
    · rfl
  unfold stealRunnable
  simp only [pin_pin_fst hq, hpop]
  rw [← pin_pin_snd hq]
  unfold TaskQueue.pushWithoutLock
  split <;> split <;> simp

theorem stealNew_eq (hn : n < 2 ^ 32) :
    p.stealNew n =
      ({ p with newQueue_ := p.newQueue_.take (if n > 0 then p.newQueue_.length - n else 0) },
        p.newQueue_.drop (if n > 0 then p.newQueue_.length - n else 0)) := by
  unfold stealNew
  split
  · rename_i hpos
    have hmax : max 1 (n % 2 ^ 32) = n := by
      rw [Nat.mod_eq_of_lt hn]
      omega
    simp only [TaskQueue.popBackWithoutLock, List.splitAt_eq, hmax]
  · rfl

/-- `newQueue_` has enough tasks. -/
theorem steal_of_le (hn : n < 2 ^ 32) (hpos : 0 < n) (hle : n ≤ p.newQueue_.length) :
    p.steal n =
      ({ p with newQueue_ := p.newQueue_.take (p.newQueue_.length - n) },
        p.newQueue_.drop (p.newQueue_.length - n)) := by
  unfold steal
  simp only [stealNew_eq hn, if_pos hpos]
  rw [if_pos]
  refine ⟨hpos, ?_⟩
  rw [List.length_drop]
  omega

/-- `newQueue_` has not enough, or all tasks are asked for. -/
theorem steal_of_not_le (hq : p.runnableQueue_.Nodup) (hn : n < 2 ^ 32)
    (h : ¬ (0 < n ∧ n ≤ p.newQueue_.length)) :
    p.steal n =
      ({ p with
          newQueue_ := []
          runnableQueue_ := p.unpinned.take (p.keeps n p.newQueue_.length) ++ p.pinned },
        p.unpinned.drop (p.keeps n p.newQueue_.length) ++ p.newQueue_) := by
  have hall : p.stealNew n = ({ p with newQueue_ := [] }, p.newQueue_) := by
    have hzero : (if n > 0 then p.newQueue_.length - n else 0) = 0 := by
      split <;> omega
    rw [stealNew_eq hn, hzero]
    rfl
  have hrest := stealRunnable_eq (p := { p with newQueue_ := [] }) hq n p.newQueue_.length
  unfold steal
  simp only [hall]
  rw [if_neg h, hrest]
  rfl

end Equations

section Contract

variable (hrun : p.runnableQueue_.Nodup) (hnew : p.newQueue_.Nodup)
  (hdisjoint : ∀ t ∈ p.newQueue_, t ∉ p.runnableQueue_)
  (hrunning : ∀ t, p.runningTask_ = some t → t ∉ p.newQueue_)
  (hnext : ∀ t, p.nextTask_ = some t → t ∉ p.newQueue_) (hn : n < 2 ^ 32)

include hrun hnew hrunning hnext hn

theorem steals_of_le (hpos : 0 < n) (hle : n ≤ p.newQueue_.length) : p.Steals n (p.steal n) := by
  have havailable := available_eq hrun
  have hsublist : (p.newQueue_.drop (p.newQueue_.length - n)).Sublist p.newQueue_ :=
    List.drop_sublist _ _
  rw [steal_of_le hn hpos hle]
  constructor
  case length =>
    rw [if_neg (Nat.ne_of_gt hpos), List.length_drop]
    omega
  case nodup => exact hnew.sublist hsublist
  case perm =>
    apply List.Perm.append_right
    calc p.newQueue_.drop (p.newQueue_.length - n) ++ p.newQueue_.take (p.newQueue_.length - n)
        ~ p.newQueue_.take (p.newQueue_.length - n) ++ p.newQueue_.drop (p.newQueue_.length - n) :=
          List.perm_append_comm
      _ ~ p.newQueue_ := .of_eq (List.take_append_drop _ _)
  case new => exact List.take_prefix _ _
  case same => exact fun _ _ => rfl
  case runnable => exact fun h => absurd ⟨hpos, hle⟩ h
  case running => exact fun t ht hmem => hrunning t ht (hsublist.subset hmem)
  case next => exact fun t ht hmem => hnext t ht (hsublist.subset hmem)

include hdisjoint

theorem steals_of_not_le (h : ¬ (0 < n ∧ n ≤ p.newQueue_.length)) : p.Steals n (p.steal n) := by
  have havailable := available_eq hrun
  have hunpinned : ∀ t ∈ p.unpinned, t ∈ p.runnableQueue_ ∧ p.runningTask_ ≠ some t ∧
      p.nextTask_ ≠ some t := by
    intro t ht
    rw [unpinned, List.mem_filter, decide_eq_true_eq] at ht
    exact ht
  rw [steal_of_not_le hrun hn h]
  generalize hk : p.keeps n p.newQueue_.length = k
  have htaken : ∀ t ∈ p.unpinned.drop k, t ∈ p.unpinned := fun t ht => List.mem_of_mem_drop ht
  constructor
  case length =>
    rw [List.length_append, List.length_drop, ← hk, keeps]
    by_cases hpos : 0 < n
    · have hlt : p.newQueue_.length < n := by omega
      rw [if_pos hpos, if_neg (Nat.ne_of_gt hpos), Nat.mod_eq_of_lt (by omega)]
      omega
    · rw [if_neg hpos, if_pos (by omega)]
      omega
  case nodup =>
    have hnodup : p.unpinned.Nodup := hrun.filter _
    rw [List.nodup_append]
    refine ⟨hnodup.sublist (List.drop_sublist _ _), hnew, ?_⟩
    intro a ha b hb hab
    exact hdisjoint b hb (hab ▸ (hunpinned a (htaken a ha)).1)
  case perm =>
    calc p.unpinned.drop k ++ p.newQueue_ ++ [] ++ (p.unpinned.take k ++ p.pinned)
        ~ p.newQueue_ ++ (p.pinned ++ (p.unpinned.take k ++ p.unpinned.drop k)) := by
          rw [List.append_nil]
          simp only [List.perm_iff_count, List.count_append]
          omega
      _ ~ p.newQueue_ ++ (p.pinned ++ p.unpinned) := by rw [List.take_append_drop]
      _ ~ p.newQueue_ ++ p.runnableQueue_ := (perm_pinned hrun).symm.append_left _
  case new => exact List.nil_prefix
  case same => exact fun hpos hle => absurd ⟨hpos, hle⟩ h
  case runnable => exact fun _ => ⟨_, List.take_prefix _ _, rfl⟩
  case running =>
    intro t ht hmem
    rcases List.mem_append.mp hmem with hmem | hmem
    · exact (hunpinned t (htaken t hmem)).2.1 ht
    · exact hrunning t ht hmem
  case next =>
    intro t ht hmem
    rcases List.mem_append.mp hmem with hmem | hmem
    · exact (hunpinned t (htaken t hmem)).2.2 ht
    · exact hnext t ht hmem

theorem steals : p.Steals n (p.steal n) := by
  by_cases h : 0 < n ∧ n ≤ p.newQueue_.length
  · exact steals_of_le hrun hnew hrunning hnext hn h.1 h.2
  · exact steals_of_not_le hrun hnew hdisjoint hrunning hnext hn h

end Contract

end Processer

end CppGo.Scheduling
