import Mathlib.Data.List.Basic
import Mathlib.Order.Basic
import Mathlib.Tactic.Common

/-!
# Code as what it does with locks

Code that takes and gives back locks, calls other code, branches, loops and switches between a
thread and its coroutine.  A branch on data is a choice, which a run makes in any way.

`wp` is the precondition for code to end with locks that satisfy an assertion, where
it only ever waits for a lock of a higher rank than all it holds and switches only without
locks.  `Takes` fixes the locks before and after, and `Keeps r` says the same of code
that is called under any locks of a rank below `r`.
-/

namespace CppGo.Lib

inductive LockCode (L : Type*) where
  | skip
  | acquire (l : L)
  | release (l : L)
  | tryAcquire (l : L) (taken failed : LockCode L)
  | switch
  | seq (a b : LockCode L)
  | choose (branch : Nat → LockCode L)
  | loop (body : LockCode L)

namespace LockCode

variable {L : Type*}

def alt (a b : LockCode L) : LockCode L := .choose fun n => if n = 0 then a else b

def opt (a : LockCode L) : LockCode L := alt a .skip

def block : List (LockCode L) → LockCode L
  | [] => .skip
  | a :: as => .seq a (block as)

def oneOf (as : List (LockCode L)) : LockCode L := .choose fun n => as.getD n .skip

def guarded (l : L) (body : LockCode L) : LockCode L := block [.acquire l, body, .release l]

variable {ρ : Type*} [DecidableEq L] [Preorder ρ] (rank : L → ρ)

def wp : LockCode L → List L → (List L → Prop) → Prop
  | skip, h, Q => Q h
  | acquire l, h, Q => (∀ m ∈ h, rank m < rank l) ∧ Q (l :: h)
  | release l, h, Q => l ∈ h ∧ Q (h.erase l)
  | tryAcquire l taken failed, h, Q => taken.wp (l :: h) Q ∧ failed.wp h Q
  | switch, h, Q => h = [] ∧ Q h
  | seq a b, h, Q => a.wp h fun h' => b.wp h' Q
  | choose branch, h, Q => ∀ n, (branch n).wp h Q
  | loop body, h, Q => body.wp h (· = h) ∧ Q h

variable {rank} {a b c : LockCode L} {h h' h'' : List L} {l : L} {Q R : List L → Prop}

theorem wp_mono (hwp : c.wp rank h Q) (hQ : ∀ h, Q h → R h) : c.wp rank h R := by
  induction c generalizing h Q R with
  | skip => exact hQ h hwp
  | acquire l => exact ⟨hwp.1, hQ _ hwp.2⟩
  | release l => exact ⟨hwp.1, hQ _ hwp.2⟩
  | tryAcquire l taken failed iht ihf => exact ⟨iht hwp.1 hQ, ihf hwp.2 hQ⟩
  | switch => exact ⟨hwp.1, hQ _ hwp.2⟩
  | seq a b iha ihb =>
      apply iha hwp
      intro h' hb
      exact ihb hb hQ
  | choose branch ih =>
      intro n
      exact ih n (hwp n) hQ
  | loop body _ => exact ⟨hwp.1, hQ h hwp.2⟩

variable (rank) in
/-- From the locks `h` the code keeps the order and ends with the locks `h'`. -/
def Takes (c : LockCode L) (h h' : List L) : Prop := c.wp rank h (· = h')

theorem Takes.wp (hc : c.Takes rank h h') (hQ : Q h') : c.wp rank h Q := by
  apply wp_mono hc
  rintro _ rfl
  exact hQ

namespace Takes

theorem skip : (skip : LockCode L).Takes rank h h := rfl

theorem acquire (hlt : ∀ m ∈ h, rank m < rank l) : (acquire l).Takes rank h (l :: h) :=
  ⟨hlt, rfl⟩

theorem release : (release l).Takes rank (l :: h) h :=
  ⟨List.mem_cons_self, List.erase_cons_head ..⟩

theorem tryAcquire (ha : a.Takes rank (l :: h) h') (hb : b.Takes rank h h') :
    (tryAcquire l a b).Takes rank h h' := ⟨ha, hb⟩

theorem switch : (switch : LockCode L).Takes rank [] [] := ⟨rfl, rfl⟩

theorem seq (ha : a.Takes rank h h') (hb : b.Takes rank h' h'') : (seq a b).Takes rank h h'' :=
  ha.wp hb

theorem choose {branch : Nat → LockCode L} (hb : ∀ n, (branch n).Takes rank h h') :
    (choose branch).Takes rank h h' := hb

theorem loop (ha : a.Takes rank h h) : (loop a).Takes rank h h := ⟨ha, rfl⟩

theorem alt (ha : a.Takes rank h h') (hb : b.Takes rank h h') : (alt a b).Takes rank h h' := by
  apply choose
  intro n
  split
  · exact ha
  · exact hb

theorem opt (ha : a.Takes rank h h) : (opt a).Takes rank h h := alt ha skip

theorem oneOf {as : List (LockCode L)} (has : ∀ a ∈ as, a.Takes rank h h) :
    (oneOf as).Takes rank h h := by
  apply choose
  intro n
  rw [List.getD_eq_getElem?_getD]
  cases hn : as[n]? with
  | none => exact skip
  | some a => exact has a (List.mem_of_getElem? hn)

theorem block_nil : (block [] : LockCode L).Takes rank h h := rfl

theorem block_cons {as : List (LockCode L)} (ha : a.Takes rank h h')
    (has : (block as).Takes rank h' h'') : (block (a :: as)).Takes rank h h'' := seq ha has

theorem block_one (ha : a.Takes rank h h') : (block [a]).Takes rank h h' :=
  block_cons ha block_nil

theorem block {as : List (LockCode L)} (has : ∀ a ∈ as, a.Takes rank h h) :
    (block as).Takes rank h h := by
  induction as with
  | nil => exact block_nil
  | cons a as ih =>
      rw [List.forall_mem_cons] at has
      exact block_cons has.1 (ih has.2)

end Takes

/-! ## Code that gives back what it takes -/

variable {r r' : ρ}

variable (rank) in
/-- Under any locks of a rank below `r` the code keeps the order, and it ends with the same
locks. -/
def Keeps (r : ρ) (c : LockCode L) : Prop :=
  ∀ h : List L, (∀ m ∈ h, rank m < r) → c.Takes rank h h

namespace Keeps

theorem takes_nil (hc : Keeps rank r c) : c.Takes rank [] [] :=
  hc [] fun _ hm => absurd hm List.not_mem_nil

theorem takes_one (hc : Keeps rank r c) (hlt : rank l < r) : c.Takes rank [l] [l] := by
  apply hc
  intro m hm
  rw [List.mem_singleton.mp hm]
  exact hlt

theorem mono (hc : Keeps rank r' c) (hle : r ≤ r') : Keeps rank r c := by
  intro h hh
  apply hc
  intro m hm
  exact (hh m hm).trans_le hle

theorem skip : Keeps rank r (skip : LockCode L) := fun _ _ => Takes.skip

theorem choose {branch : Nat → LockCode L} (hb : ∀ n, Keeps rank r (branch n)) :
    Keeps rank r (choose branch) :=
  fun h hh => Takes.choose fun n => hb n h hh

theorem alt (ha : Keeps rank r a) (hb : Keeps rank r b) : Keeps rank r (alt a b) :=
  fun h hh => Takes.alt (ha h hh) (hb h hh)

theorem opt (ha : Keeps rank r a) : Keeps rank r (opt a) := alt ha skip

theorem loop (ha : Keeps rank r a) : Keeps rank r (loop a) :=
  fun h hh => Takes.loop (ha h hh)

theorem ite {p : Prop} [Decidable p] (ha : Keeps rank r a) (hb : Keeps rank r b) :
    Keeps rank r (if p then a else b) := by
  split
  · exact ha
  · exact hb

theorem block {as : List (LockCode L)} (has : ∀ a ∈ as, Keeps rank r a) :
    Keeps rank r (block as) :=
  fun h hh => Takes.block fun a ha => has a ha h hh

/-- A scope with a lock under which its body may be called. -/
theorem guarded (hlt : rank l < r) (hc : Keeps rank r c) : Keeps rank (rank l) (guarded l c) := by
  intro h hh
  have hbody : c.Takes rank (l :: h) (l :: h) := by
    apply hc
    intro m hm
    rcases List.mem_cons.mp hm with rfl | hm
    · exact hlt
    · exact (hh m hm).trans hlt
  exact .block_cons (.acquire hh) (.block_cons hbody (.block_one .release))

theorem guarded_skip : Keeps rank (rank l) (LockCode.guarded l .skip) := by
  intro h hh
  exact .block_cons (.acquire hh) (.block_cons .skip (.block_one .release))

end Keeps

end LockCode

end CppGo.Lib
