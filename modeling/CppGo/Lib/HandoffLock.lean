import Mathlib.Data.List.Infix
import Mathlib.Logic.Relation
import Mathlib.Tactic.Common

/-!
# A lock that is handed to the head of its queue

The abstract lock has an owner and a queue of waiters.  A free lock is taken by
anybody, a waiter is queued only behind an owner, and the owner who leaves hands
the lock to the head of the queue.  `grants` lists everybody who ever became the
owner.  If nobody is queued at a free lock, the waiters of any moment are the next
owners, in their order and before everybody else.
-/

namespace CppGo.Lib

structure HandoffLock (τ : Type*) where
  owner : Option τ
  queue : List τ
  grants : List τ

namespace HandoffLock

variable {τ : Type*}

inductive Step (l : HandoffLock τ) : HandoffLock τ → Prop
  | take (t : τ) (hfree : l.owner = none) :
      Step l { l with owner := some t, grants := l.grants ++ [t] }
  | enqueue (t : τ) (hbusy : l.owner ≠ none) : Step l { l with queue := l.queue ++ [t] }
  | handOff (t : τ) (q : List τ) (hbusy : l.owner ≠ none) (hqueue : l.queue = t :: q) :
      Step l { owner := some t, queue := q, grants := l.grants ++ [t] }
  | release (hbusy : l.owner ≠ none) (hqueue : l.queue = []) :
      Step l { l with owner := none }

variable {l m n : HandoffLock τ} {t : τ}

def Manned (l : HandoffLock τ) : Prop := l.queue ≠ [] → l.owner ≠ none

theorem manned_of_step (hs : Step l m) : m.Manned := by
  cases hs with
  | take => exact fun _ => by simp
  | enqueue _ hbusy => exact fun _ => hbusy
  | handOff => exact fun _ => by simp
  | release _ hqueue => exact fun hne => absurd hqueue hne

/-- Since `l` the lock was granted to `g`.  Either these were the first waiters of
`l` and the other ones still head the queue of `m`, or all of them had their turn. -/
def Serves (l : HandoffLock τ) (g : List τ) (m : HandoffLock τ) : Prop :=
  m.grants = l.grants ++ g ∧
    ((∃ r, l.queue = g ++ r ∧ r <+: m.queue) ∨ l.queue <+: g)

theorem Serves.refl (l : HandoffLock τ) : l.Serves [] l :=
  ⟨by simp, .inl ⟨l.queue, rfl, List.prefix_rfl⟩⟩

theorem Serves.grant {g : List τ} (h : l.Serves g m) (hg : n.grants = m.grants ++ [t])
    (hnext : ∀ x r, (x :: r) <+: m.queue → x = t ∧ r <+: n.queue) :
    l.Serves (g ++ [t]) n := by
  refine ⟨by rw [hg, h.1, List.append_assoc], ?_⟩
  rcases h.2 with ⟨r, hr, hpre⟩ | hdone
  · cases r with
    | nil =>
        apply Or.inr
        rw [hr, List.append_nil]
        exact List.prefix_append g [t]
    | cons x r =>
        obtain ⟨rfl, hpre'⟩ := hnext x r hpre
        exact .inl ⟨r, by simpa using hr, hpre'⟩
  · exact .inr (hdone.trans (List.prefix_append g [t]))

theorem Serves.keep {g : List τ} (h : l.Serves g m) (hg : n.grants = m.grants)
    (hq : m.queue <+: n.queue) : l.Serves g n := by
  refine ⟨hg.trans h.1, h.2.imp_left ?_⟩
  rintro ⟨r, hr, hpre⟩
  exact ⟨r, hr, hpre.trans hq⟩

theorem Serves.step {g : List τ} (h : l.Serves g m) (hm : m.Manned) (hs : Step m n) :
    ∃ g', l.Serves g' n := by
  cases hs with
  | take t hfree =>
      have hempty : m.queue = [] := by
        by_contra hne
        exact hm hne hfree
      refine ⟨g ++ [t], h.grant rfl fun x r hpre => ?_⟩
      rw [hempty] at hpre
      simp at hpre
  | enqueue t => exact ⟨g, h.keep rfl (List.prefix_append m.queue [t])⟩
  | handOff t q _ hqueue =>
      refine ⟨g ++ [t], h.grant rfl fun x r hpre => ?_⟩
      rw [hqueue] at hpre
      exact List.cons_prefix_cons.mp hpre
  | release => exact ⟨g, h.keep rfl List.prefix_rfl⟩

/-- The waiters of `l` are the next owners, in their order. -/
def Fair (l m : HandoffLock τ) : Prop :=
  ∃ g, m.grants = l.grants ++ g ∧ (g <+: l.queue ∨ l.queue <+: g)

theorem Serves.fair {g : List τ} (h : l.Serves g m) : l.Fair m := by
  refine ⟨g, h.1, h.2.imp_left ?_⟩
  rintro ⟨r, hr, -⟩
  rw [hr]
  exact List.prefix_append g r

theorem fair_of_steps (hl : l.Manned) (h : Relation.ReflTransGen Step l m) : l.Fair m := by
  have key : m.Manned ∧ ∃ g, l.Serves g m := by
    induction h with
    | refl => exact ⟨hl, [], .refl l⟩
    | tail _ hs ih =>
        obtain ⟨hm, g, hg⟩ := ih
        exact ⟨manned_of_step hs, hg.step hm hs⟩
  obtain ⟨-, g, hg⟩ := key
  exact hg.fair

end HandoffLock

end CppGo.Lib
