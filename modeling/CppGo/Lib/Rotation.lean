import Mathlib.Data.List.Basic
import Mathlib.Data.Nat.Choose.Basic

/-!
# Waiting for a turn

A pointer goes through a list, from one element to the next and from the end to the front, while
elements come in at the end and others leave.  `wait` is the number of turns until an element
has its own.  Where the pointer may skip the rest of the list when the element that has its turn
leaves, the turns of the elements in front come on top.
-/

namespace CppGo.Lib.Rotation

variable {α : Type*} [DecidableEq α] {q l : List α} {t c r : α} {o : Option α}

def after (q : List α) (c : α) : Option α := q[q.idxOf c + 1]?

/-- The turns of others before the one of `t`, where `o` is the next and behind the end the
front. -/
def wait (q : List α) (t : α) : Option α → Nat
  | none => q.idxOf t
  | some c =>
      if q.idxOf c ≤ q.idxOf t then q.idxOf t - q.idxOf c
      else q.length - q.idxOf c + q.idxOf t

def Points (q : List α) (o : Option α) : Prop := ∀ c, o = some c → c ∈ q

theorem points_after : Points q (after q c) := fun _ h => List.mem_of_getElem? h

theorem idxOf_erase (hc : c ≠ r) :
    (q.erase r).idxOf c = q.idxOf c - if q.idxOf r < q.idxOf c then 1 else 0 := by
  induction q with
  | nil => rfl
  | cons a q ih =>
      by_cases har : a = r
      · subst har
        rw [List.erase_cons_head, List.idxOf_cons_self, List.idxOf_cons_ne _ hc.symm]
        split <;> omega
      · rw [List.erase_cons_tail (by simpa using har), List.idxOf_cons_ne _ har]
        by_cases hac : a = c
        · subst hac
          rw [List.idxOf_cons_self, List.idxOf_cons_self]
          omega
        · rw [List.idxOf_cons_ne _ hac, List.idxOf_cons_ne _ hac, ih]
          split <;> split <;> omega

theorem idxOf_ne (hc : c ∈ q) (hct : c ≠ t) : q.idxOf c ≠ q.idxOf t :=
  fun h => hct ((List.idxOf_inj hc).mp h)

theorem wait_none : wait q t none = q.idxOf t := rfl

theorem wait_some : wait q t (some c) =
    if q.idxOf c ≤ q.idxOf t then q.idxOf t - q.idxOf c
    else q.length - q.idxOf c + q.idxOf t :=
  rfl

/-- The turn of `c` is one of the turns before the one of `t`. -/
theorem wait_after (hq : q.Nodup) (hc : c ∈ q) (ht : t ∈ q) (hct : c ≠ t) :
    wait q t (after q c) + 1 = wait q t (some c) := by
  have hne := idxOf_ne hc hct
  have hlt := List.idxOf_lt_length_of_mem hc
  have hlt' := List.idxOf_lt_length_of_mem ht
  unfold after
  by_cases hend : q.idxOf c + 1 < q.length
  · have hidx : q.idxOf q[q.idxOf c + 1] = q.idxOf c + 1 := hq.idxOf_getElem _ hend
    rw [List.getElem?_eq_getElem hend]
    rw [wait_some, wait_some, hidx]
    split <;> split <;> omega
  · rw [List.getElem?_eq_none (by omega), wait_none, wait_some]
    split <;> omega

theorem wait_head (ht : t ∈ q) : wait q t q.head? = q.idxOf t := by
  cases q with
  | nil => cases ht
  | cons a q =>
      rw [List.head?_cons, wait_some, List.idxOf_cons_self, if_pos (Nat.zero_le _)]
      rfl

theorem wait_lt (ht : t ∈ q) (ho : Points q o) : wait q t o < q.length := by
  have hlt := List.idxOf_lt_length_of_mem ht
  cases o with
  | none => exact hlt
  | some c =>
      have hlt' := List.idxOf_lt_length_of_mem (ho c rfl)
      rw [wait_some]
      split <;> omega

/-- Elements that come in behind `t` are in front of it at most once. -/
theorem wait_append (ht : t ∈ q) (ho : Points q o) :
    wait (q ++ l) t o ≤ wait q t o + l.length := by
  have hlt := List.idxOf_lt_length_of_mem ht
  cases o with
  | none =>
      rw [wait_none, wait_none, List.idxOf_append_of_mem ht]
      omega
  | some c =>
      have hlt' := List.idxOf_lt_length_of_mem (ho c rfl)
      rw [wait_some, wait_some, List.idxOf_append_of_mem ht, List.idxOf_append_of_mem (ho c rfl),
        List.length_append]
      split <;> omega

theorem after_of_not_mem (hc : c ∉ q) : after q c = none := by
  unfold after
  rw [List.idxOf_of_notMem hc]
  exact List.getElem?_eq_none (Nat.le_succ _)

/-- The same for the pointer behind `c`, which is at the end where `c` was not in the list. -/
theorem wait_after_append (hq : (q ++ l).Nodup) (ht : t ∈ q) :
    wait (q ++ l) t (after (q ++ l) c) ≤ wait q t (after q c) + l.length := by
  have hlt := List.idxOf_lt_length_of_mem ht
  by_cases hc : c ∈ q ∧ q.idxOf c + 1 < q.length
  · have hsame : after (q ++ l) c = after q c := by
      unfold after
      rw [List.idxOf_append_of_mem hc.1, List.getElem?_append_left hc.2]
    rw [hsame]
    exact wait_append ht points_after
  · have hend : after q c = none := by
      by_cases hmem : c ∈ q
      · exact List.getElem?_eq_none (Nat.not_lt.mp fun hlt' => hc ⟨hmem, hlt'⟩)
      · exact after_of_not_mem hmem
    have hge : q.length ≤ (q ++ l).idxOf c + 1 := by
      by_cases hmem : c ∈ q
      · rw [List.idxOf_append_of_mem hmem]
        exact Nat.not_lt.mp fun hlt' => hc ⟨hmem, hlt'⟩
      · rw [List.idxOf_append_of_notMem hmem]
        omega
    rw [hend, wait_none]
    unfold after
    cases hnext : (q ++ l)[(q ++ l).idxOf c + 1]? with
    | none =>
        rw [wait_none, List.idxOf_append_of_mem ht]
        omega
    | some d =>
        obtain ⟨hlen, heq⟩ := List.getElem?_eq_some_iff.mp hnext
        have hidx := hq.idxOf_getElem _ hlen
        rw [heq] at hidx
        rw [wait_some, hidx, List.idxOf_append_of_mem ht]
        rw [List.length_append] at hlen ⊢
        split <;> omega

theorem wait_erase (hr : r ∈ q) (hrt : t ≠ r) (ho : Points q o) (hro : o ≠ some r) :
    wait (q.erase r) t o ≤ wait q t o := by
  have hlt := List.idxOf_lt_length_of_mem hr
  have hlen := List.length_erase_of_mem hr
  cases o with
  | none =>
      rw [wait_none, wait_none, idxOf_erase hrt]
      omega
  | some c =>
      have hcr : c ≠ r := fun h => hro (congrArg some h)
      have hlt' := List.idxOf_lt_length_of_mem (ho c rfl)
      have hne := idxOf_ne (ho c rfl) hcr
      rw [wait_some, wait_some, idxOf_erase hrt, idxOf_erase hcr, hlen]
      split <;> split <;> split <;> split <;> omega

theorem idxOf_erase_cases (hq : q.Nodup) (hr : r ∈ q) (ht : t ∈ q) (hrt : t ≠ r) :
    (q.erase r).idxOf t + 1 = q.idxOf t ∨
      (q.erase r).idxOf t = q.idxOf t ∧ q.idxOf t ≤ wait q t (after q r) := by
  have hwait := wait_after hq hr ht (Ne.symm hrt)
  have hlt := List.idxOf_lt_length_of_mem hr
  rw [idxOf_erase hrt]
  rw [wait_some] at hwait
  by_cases hpos : q.idxOf r < q.idxOf t
  · rw [if_pos hpos]
    omega
  · rw [if_neg hpos]
    have hne := idxOf_ne hr (Ne.symm hrt)
    rw [if_neg (by omega)] at hwait
    right
    omega

/-- The turns of others before the one of `t` where the pointer may go back to the front each
time that one of the elements in front of `t` leaves. -/
def rank (q : List α) (t : α) (o : Option α) : Nat := (q.idxOf t).choose 2 + wait q t o

theorem choose_succ (m : Nat) : (m + 1).choose 2 = m.choose 2 + m := by
  rw [Nat.choose_succ_succ' m 1, Nat.choose_one_right, Nat.add_comm]

theorem rank_after (hq : q.Nodup) (hc : c ∈ q) (ht : t ∈ q) (hct : c ≠ t) :
    rank q t (after q c) + 1 = rank q t (some c) := by
  unfold rank
  rw [Nat.add_assoc, wait_after hq hc ht hct]

theorem rank_append (ht : t ∈ q) (ho : Points q o) :
    rank (q ++ l) t o ≤ rank q t o + l.length := by
  have hle := wait_append (l := l) ht ho
  unfold rank
  rw [List.idxOf_append_of_mem ht]
  omega

theorem rank_after_append (hq : (q ++ l).Nodup) (ht : t ∈ q) :
    rank (q ++ l) t (after (q ++ l) c) ≤ rank q t (after q c) + l.length := by
  have hle := wait_after_append (c := c) hq ht
  unfold rank
  rw [List.idxOf_append_of_mem ht]
  omega

theorem rank_head (ht : t ∈ q) : rank q t q.head? = rank q t none := by
  unfold rank
  rw [wait_head ht]
  rfl

theorem rank_none_append (ht : t ∈ q) : rank (q ++ l) t none = rank q t none := by
  unfold rank
  rw [wait_none, wait_none, List.idxOf_append_of_mem ht]

theorem rank_erase_of_ne (hr : r ∈ q) (hrt : t ≠ r) (ho : Points q o) (hro : o ≠ some r) :
    rank (q.erase r) t o ≤ rank q t o := by
  have hle := wait_erase hr hrt ho hro
  have hidx : (q.erase r).idxOf t ≤ q.idxOf t := by
    rw [idxOf_erase hrt]
    omega
  have hchoose := Nat.choose_le_choose 2 hidx
  unfold rank
  omega

theorem rank_erase (hq : q.Nodup) (hr : r ∈ q) (ht : t ∈ q) (hrt : t ≠ r) :
    rank (q.erase r) t (after q r) ≤ rank q t (after q r) ∧
      rank (q.erase r) t none ≤ rank q t (after q r) := by
  have hne : after q r ≠ some r := by
    intro h
    have hidx := hq.idxOf_getElem
    unfold after at h
    obtain ⟨hend, heq⟩ := List.getElem?_eq_some_iff.mp h
    have hsucc := hidx _ hend
    rw [heq] at hsucc
    omega
  have hle := wait_erase hr hrt points_after hne
  unfold rank
  rcases idxOf_erase_cases hq hr ht hrt with hidx | ⟨hidx, hwait⟩
  · have hchoose := choose_succ ((q.erase r).idxOf t)
    rw [hidx] at hchoose
    refine ⟨by omega, ?_⟩
    rw [wait_none]
    omega
  · rw [hidx]
    refine ⟨by omega, ?_⟩
    rw [wait_none, hidx]
    omega

theorem rank_le (ht : t ∈ q) (ho : Points q o) : rank q t o ≤ q.length.choose 2 := by
  have hlt := wait_lt ht ho
  have hlt' := List.idxOf_lt_length_of_mem ht
  obtain ⟨n, hn⟩ := Nat.exists_eq_add_of_lt (Nat.zero_lt_of_lt hlt)
  have hmono : (q.idxOf t).choose 2 ≤ n.choose 2 := Nat.choose_le_choose 2 (by omega)
  have hchoose := choose_succ n
  unfold rank
  rw [hn, Nat.zero_add, hchoose]
  omega

end CppGo.Lib.Rotation
