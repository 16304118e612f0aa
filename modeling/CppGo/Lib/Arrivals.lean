import Mathlib.Data.List.Nodup
import Mathlib.Data.List.Range
import Mathlib.Tactic.Common

/-!
# Requests kept in order of arrival

A log `l` lists requests in the order in which they arrived.  Some of them are
pending (`pend`), some have been served (`ok`), and the others have failed.
`InTurn pend ok l` says that nobody was served ahead of a pending request.  It
makes the order of service equal to the order of arrival, and it is kept when a
request is served at once while none is pending, when the oldest pending request
is served, and when a pending request fails.
-/

namespace CppGo.Lib.Arrivals

variable {α : Type*}

/-- The indices of the elements of `l` that satisfy `p`, in order. -/
def positions (p : α → Bool) (l : List α) : List Nat :=
  (List.range l.length).filter fun i => l[i]?.any p

section Positions

variable {p : α → Bool} {l : List α} {a b : α} {x : Nat} {xs : List Nat}

theorem mem_positions {i : Nat} :
    i ∈ positions p l ↔ ∃ a, l[i]? = some a ∧ p a = true := by
  simp only [positions, List.mem_filter, List.mem_range, Option.any_eq_true]
  constructor
  · rintro ⟨-, h⟩
    exact h
  · rintro ⟨a, ha, hp⟩
    exact ⟨(List.getElem?_eq_some_iff.mp ha).1, a, ha, hp⟩

theorem positions_nodup (p : α → Bool) (l : List α) : (positions p l).Nodup :=
  List.nodup_range.filter _

@[simp] theorem positions_nil (p : α → Bool) : positions p [] = [] := rfl

theorem positions_concat (p : α → Bool) (l : List α) (a : α) :
    positions p (l ++ [a]) = positions p l ++ if p a then [l.length] else [] := by
  simp only [positions, List.length_append, List.length_singleton, List.range_succ,
    List.filter_append]
  congr 1
  · refine List.filter_congr fun i hi => ?_
    rw [List.getElem?_append_left (List.mem_range.mp hi)]
  · by_cases hp : p a <;> simp [hp]

/-- Overwriting one element removes its index, if the new value fails `p`. -/
theorem positions_set_of_not (hb : p b = false) :
    positions p (l.set x b) = (positions p l).filter (· ≠ x) := by
  simp only [positions, List.length_set, List.filter_filter]
  refine List.filter_congr fun i hi => ?_
  by_cases hix : i = x
  · subst hix
    simp [hb, List.mem_range.mp hi]
  · have hxi : x ≠ i := fun h => hix h.symm
    simp [List.getElem?_set_ne hxi, hix]

theorem positions_set_same (ha : l[x]? = some a) (hab : p b = p a) :
    positions p (l.set x b) = positions p l := by
  simp only [positions, List.length_set]
  refine List.filter_congr fun i hi => ?_
  by_cases hix : i = x
  · subst hix
    obtain ⟨hx, rfl⟩ := List.getElem?_eq_some_iff.mp ha
    simp [hx, hab]
  · have hxi : x ≠ i := fun h => hix h.symm
    rw [List.getElem?_set_ne hxi]

theorem positions_set_head (h : positions p l = x :: xs) (hb : p b = false) :
    positions p (l.set x b) = xs := by
  have hnd := positions_nodup p l
  rw [h, List.nodup_cons] at hnd
  rw [positions_set_of_not hb, h, List.filter_cons_of_neg (by simp)]
  refine List.filter_eq_self.mpr fun i hi => ?_
  simp only [ne_eq, decide_eq_true_eq]
  rintro rfl
  exact hnd.1 hi

theorem filterMap_positions (p : α → Bool) (l : List α) :
    (positions p l).filterMap (l[·]?) = l.filter p := by
  induction l using List.reverseRecOn with
  | nil => rfl
  | append_singleton l a ih =>
      rw [positions_concat, List.filterMap_append, List.filter_append, ← ih]
      congr 1
      · refine List.filterMap_congr fun i hi => ?_
        obtain ⟨c, hc, -⟩ := mem_positions.mp hi
        exact List.getElem?_append_left (List.getElem?_eq_some_iff.mp hc).1
      · by_cases hp : p a <;> simp [hp]

theorem positions_eq_nil_iff : positions p l = [] ↔ l.filter p = [] := by
  constructor
  · intro h
    rw [← filterMap_positions, h]
    rfl
  · intro h
    refine List.eq_nil_iff_forall_not_mem.mpr fun i hi => ?_
    obtain ⟨a, ha, hp⟩ := mem_positions.mp hi
    have hmem : a ∈ l.filter p := List.mem_filter.mpr ⟨List.mem_of_getElem? ha, hp⟩
    simp [h] at hmem

theorem split_first (h : positions p l = x :: xs) :
    ∃ pre a post, l = pre ++ a :: post ∧ pre.length = x ∧ p a = true ∧
      l[x]? = some a ∧ pre.filter p = [] := by
  obtain ⟨a, ha, hp⟩ := mem_positions.mp (h ▸ List.mem_cons_self : x ∈ positions p l)
  obtain ⟨hx, hax⟩ := List.getElem?_eq_some_iff.mp ha
  refine ⟨l.take x, a, l.drop (x + 1), ?_, by simp; omega, hp, ha, ?_⟩
  · rw [← hax, ← List.drop_eq_getElem_cons hx, List.take_append_drop]
  · refine List.filter_eq_nil_iff.mpr fun b hb hpb => ?_
    obtain ⟨i, hi, rfl⟩ := List.mem_iff_getElem.mp hb
    have hix : i < x := by simp at hi; omega
    have hmem : i ∈ positions p l :=
      mem_positions.mpr ⟨_, List.getElem?_eq_getElem (by omega), by simpa using hpb⟩
    have hsorted : (positions p l).Pairwise (· < ·) :=
      List.pairwise_lt_range.filter _
    rw [h] at hmem hsorted
    rcases List.mem_cons.mp hmem with rfl | htail
    · omega
    · have := (List.pairwise_cons.mp hsorted).1 i htail
      omega

theorem set_split {pre post : List α} {a b : α} :
    (pre ++ a :: post).set pre.length b = pre ++ b :: post := by
  simp

/-- Overwriting an element that fails `q` by one that fails `q`. -/
theorem filter_set_of_not {q : α → Bool} (ha : l[x]? = some a) (hqa : q a = false)
    (hqb : q b = false) : (l.set x b).filter q = l.filter q := by
  have hpos : positions q (l.set x b) = positions q l :=
    positions_set_same ha (by rw [hqa, hqb])
  rw [← filterMap_positions, ← filterMap_positions, hpos]
  refine List.filterMap_congr fun i hi => ?_
  obtain ⟨c, hc, hqc⟩ := mem_positions.mp hi
  have hxi : x ≠ i := by
    rintro rfl
    rw [ha] at hc
    cases hc
    simp [hqa] at hqc
  rw [List.getElem?_set_ne hxi]

theorem map_filter_set_same {β : Type*} {f : α → β} (ha : l[x]? = some a) (hp : p b = p a)
    (hf : f b = f a) : ((l.set x b).filter p).map f = (l.filter p).map f := by
  induction l generalizing x with
  | nil => simp at ha
  | cons c l ih =>
      cases x with
      | zero =>
          obtain rfl : c = a := by simpa using ha
          by_cases hc : p c = true <;> simp [hp, hc, hf]
      | succ x =>
          have := ih (x := x) (by simpa using ha)
          by_cases hc : p c = true <;> simp [hc, this]

end Positions

section Index

variable {l : List α} {a b c : α} {x i : Nat}

theorem getElem?_set_iff (hx : l[x]? = some a) :
    (l.set x b)[i]? = some c ↔ i = x ∧ c = b ∨ i ≠ x ∧ l[i]? = some c := by
  have hlt : x < l.length := (List.getElem?_eq_some_iff.mp hx).1
  by_cases hix : i = x
  · subst hix
    simp [hlt, eq_comm]
  · have hxi : x ≠ i := fun h => hix h.symm
    simp [hix, List.getElem?_set_ne hxi]

theorem getElem?_concat_iff :
    (l ++ [b])[i]? = some c ↔ l[i]? = some c ∨ i = l.length ∧ c = b := by
  rcases Nat.lt_trichotomy i l.length with hlt | rfl | hgt
  · have hne : i ≠ l.length := by omega
    simp [List.getElem?_append_left hlt, hne]
  · simp [eq_comm]
  · have hne : i ≠ l.length := by omega
    have h₁ : (l ++ [b])[i]? = none := List.getElem?_eq_none (by simp; omega)
    have h₂ : l[i]? = none := List.getElem?_eq_none (by omega)
    simp [h₁, h₂, hne]

end Index

/-- No request behind a pending one has been served. -/
def InTurn (pend ok : α → Bool) (l : List α) : Prop :=
  l.Pairwise fun a b => pend a = true → ok b = false

namespace InTurn

variable {pend ok : α → Bool} {l : List α} {a b : α} {x : Nat} {xs : List Nat}

theorem nil : InTurn pend ok ([] : List α) := List.Pairwise.nil

theorem concat (h : InTurn pend ok l) (hb : l.filter pend = [] ∨ ok b = false) :
    InTurn pend ok (l ++ [b]) := by
  refine List.pairwise_append.mpr ⟨h, by simp, fun a ha c hc hpend => ?_⟩
  obtain rfl : c = b := by simpa using hc
  rcases hb with hnone | hb
  · exact absurd hpend (List.filter_eq_nil_iff.mp hnone a ha)
  · exact hb

/-- Overwriting a request that neither waits nor is served afterwards, or that is
left as it was. -/
theorem set (h : InTurn pend ok l) (ha : l[x]? = some a)
    (hp : pend b = true → pend a = true) (ho : ok b = true → ok a = true) :
    InTurn pend ok (l.set x b) := by
  obtain ⟨hx, rfl⟩ := List.getElem?_eq_some_iff.mp ha
  rw [InTurn, List.pairwise_iff_getElem] at h ⊢
  intro i j hi hj hij hpi
  simp only [List.length_set] at hi hj
  simp only [List.getElem_set] at hpi ⊢
  rw [Bool.eq_false_iff]
  intro hok
  have hpend : pend l[i] = true := by
    by_cases hxi : x = i
    · subst hxi
      exact hp (by simpa using hpi)
    · simpa [hxi] using hpi
  have hserved : ok l[j] = true := by
    by_cases hxj : x = j
    · subst hxj
      exact ho (by simpa using hok)
    · simpa [hxj] using hok
  exact absurd (h i j hi hj hij hpend) (by simp [hserved])

/-- Serving the oldest pending request: the served ones grow by it at the end. -/
theorem serve (h : InTurn pend ok l) (hx : positions pend l = x :: xs)
    (hpb : pend b = false) (hob : ok b = true)
    (hdisj : ∀ c, pend c = true → ok c = false) :
    InTurn pend ok (l.set x b) ∧ (l.set x b).filter ok = l.filter ok ++ [b] := by
  obtain ⟨pre, a, post, rfl, rfl, hpa, -, hpre⟩ := split_first hx
  rw [set_split]
  obtain ⟨h₁, h₂, h₃⟩ := List.pairwise_append.mp h
  have hpost : post.filter ok = [] :=
    List.filter_eq_nil_iff.mpr fun c hc => by
      simp [(List.pairwise_cons.mp h₂).1 c hc hpa]
  refine ⟨List.pairwise_append.mpr ⟨h₁, ?_, ?_⟩, ?_⟩
  · refine List.pairwise_cons.mpr ⟨fun c _ hpend => ?_, (List.pairwise_cons.mp h₂).2⟩
    simp [hpb] at hpend
  · intro c hc d _ hpend
    exact absurd hpend (List.filter_eq_nil_iff.mp hpre c hc)
  · simp [hdisj a hpa, hob, hpost]

/-- Served requests precede the pending ones. -/
theorem filter_or (h : InTurn pend ok l) (hdisj : ∀ c, pend c = true → ok c = false) :
    l.filter (fun c => ok c || pend c) = l.filter ok ++ l.filter pend := by
  induction l with
  | nil => rfl
  | cons a l ih =>
      obtain ⟨ha, hl⟩ := List.pairwise_cons.mp h
      by_cases hpa : pend a = true
      · have hnone : l.filter ok = [] :=
          List.filter_eq_nil_iff.mpr fun c hc => by simp [ha c hc hpa]
        simp [hpa, hdisj a hpa, ih hl, hnone]
      · by_cases hoa : ok a = true
        · simp [hpa, hoa, ih hl]
        · simp [hpa, hoa, ih hl]

end InTurn

end CppGo.Lib.Arrivals
