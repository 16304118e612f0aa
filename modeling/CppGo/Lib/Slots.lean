import Mathlib.Data.List.Basic
import Mathlib.Logic.Function.Basic

/-!
# Objects that are known by their number

A list `os` of objects, each of them a list of items, grows by the objects that are made.  A
variable `k` has the number `slot k` of its object while there is one, and `c k` is what the
object holds.  The objects of no variable are empty.
-/

namespace CppGo.Lib

variable {κ α : Type*}

structure Slots (slot : κ → Option Nat) (os : List (List α)) (c : κ → List α) : Prop where
  object : ∀ {k i}, slot k = some i → os[i]? = some (c k)
  vacant : ∀ {k}, slot k = none → c k = []
  injective : ∀ {k m i}, slot k = some i → slot m = some i → k = m
  unnamed : ∀ {i l}, os[i]? = some l → l ≠ [] → ∃ k, slot k = some i

namespace Slots

variable {slot : κ → Option Nat} {os : List (List α)} {c : κ → List α} {k : κ} {i : Nat}

theorem lt_length (h : Slots slot os c) (hk : slot k = some i) : i < os.length :=
  (List.getElem?_eq_some_iff.mp (h.object hk)).1

theorem empty : Slots (fun _ : κ => none) ([] : List (List α)) fun _ => [] where
  object := nofun
  vacant _ := rfl
  injective := nofun
  unnamed := nofun

theorem exists_of_mem (h : Slots slot os c) {x : α} (hx : x ∈ os.flatten) : ∃ k, x ∈ c k := by
  obtain ⟨l, hl, hx⟩ := List.mem_flatten.mp hx
  obtain ⟨i, hi⟩ := List.mem_iff_getElem?.mp hl
  obtain ⟨k, hk⟩ := h.unnamed hi (List.ne_nil_of_mem hx)
  have heq := h.object hk
  rw [hi] at heq
  exact ⟨k, Option.some.inj heq ▸ hx⟩

theorem addNil (h : Slots slot os c) : Slots slot (os ++ [[]]) c where
  object hk := by
    rw [List.getElem?_append_left (h.lt_length hk)]
    exact h.object hk
  vacant := h.vacant
  injective := h.injective
  unnamed {i l} hi hl := by
    by_cases hlt : i < os.length
    · rw [List.getElem?_append_left hlt] at hi
      exact h.unnamed hi hl
    · rw [List.getElem?_append_right (by omega)] at hi
      have hmem := List.mem_of_getElem? hi
      exact absurd (List.mem_singleton.mp hmem) hl

section Update

variable [DecidableEq κ]

theorem new (h : Slots slot os c) (hk : slot k = none) (l : List α) :
    Slots (Function.update slot k (some os.length)) (os ++ [l]) (Function.update c k l) where
  object {m i} hm := by
    by_cases hmk : m = k
    · subst hmk
      rw [Function.update_self] at hm ⊢
      cases hm
      simp
    · rw [Function.update_of_ne hmk] at hm ⊢
      rw [List.getElem?_append_left (h.lt_length hm)]
      exact h.object hm
  vacant {m} hm := by
    by_cases hmk : m = k
    · subst hmk
      rw [Function.update_self] at hm
      cases hm
    · rw [Function.update_of_ne hmk] at hm ⊢
      exact h.vacant hm
  injective {m n i} hm hn := by
    have hnew : ∀ {m}, m ≠ k → Function.update slot k (some os.length) m = some i →
        i < os.length := by
      intro m hmk hm
      rw [Function.update_of_ne hmk] at hm
      exact h.lt_length hm
    by_cases hmk : m = k
    · by_cases hnk : n = k
      · rw [hmk, hnk]
      · have hlt := hnew hnk hn
        rw [hmk, Function.update_self] at hm
        cases hm
        omega
    · have hlt := hnew hmk hm
      by_cases hnk : n = k
      · rw [hnk, Function.update_self] at hn
        cases hn
        omega
      · rw [Function.update_of_ne hmk] at hm
        rw [Function.update_of_ne hnk] at hn
        exact h.injective hm hn
  unnamed {i x} hi hx := by
    by_cases hlt : i < os.length
    · rw [List.getElem?_append_left hlt] at hi
      obtain ⟨m, hm⟩ := h.unnamed hi hx
      have hmk : m ≠ k := by
        rintro rfl
        rw [hk] at hm
        cases hm
      exact ⟨m, by rw [Function.update_of_ne hmk, hm]⟩
    · have hle := (List.getElem?_eq_some_iff.mp hi).1
      rw [List.length_append, List.length_singleton] at hle
      obtain rfl : i = os.length := by omega
      exact ⟨k, Function.update_self ..⟩

theorem set (h : Slots slot os c) (hk : slot k = some i) (l : List α) :
    Slots slot (os.set i l) (Function.update c k l) where
  object {m j} hm := by
    by_cases hmk : m = k
    · subst hmk
      rw [hk] at hm
      cases hm
      rw [Function.update_self, List.getElem?_set_self (h.lt_length hk)]
    · have hij : i ≠ j := by
        rintro rfl
        exact hmk (h.injective hm hk)
      rw [Function.update_of_ne hmk, List.getElem?_set_ne hij]
      exact h.object hm
  vacant {m} hm := by
    have hmk : m ≠ k := by
      rintro rfl
      rw [hk] at hm
      cases hm
    rw [Function.update_of_ne hmk]
    exact h.vacant hm
  injective := h.injective
  unnamed {j x} hj hx := by
    by_cases hij : i = j
    · exact ⟨k, hij ▸ hk⟩
    · rw [List.getElem?_set_ne hij] at hj
      exact h.unnamed hj hx

theorem drop (h : Slots slot os c) (hk : c k = []) : Slots (Function.update slot k none) os c where
  object {m i} hm := by
    by_cases hmk : m = k
    · subst hmk
      rw [Function.update_self] at hm
      cases hm
    · rw [Function.update_of_ne hmk] at hm
      exact h.object hm
  vacant {m} hm := by
    by_cases hmk : m = k
    · rw [hmk, hk]
    · rw [Function.update_of_ne hmk] at hm
      exact h.vacant hm
  injective {m n i} hm hn := by
    have hne : ∀ {m}, Function.update slot k none m = some i → m ≠ k := by
      rintro m hm rfl
      rw [Function.update_self] at hm
      cases hm
    rw [Function.update_of_ne (hne hm)] at hm
    rw [Function.update_of_ne (hne hn)] at hn
    exact h.injective hm hn
  unnamed {i l} hi hl := by
    obtain ⟨m, hm⟩ := h.unnamed hi hl
    have hmk : m ≠ k := by
      rintro rfl
      have heq := h.object hm
      rw [hi, hk] at heq
      exact hl (Option.some.inj heq)
    exact ⟨m, by rw [Function.update_of_ne hmk, hm]⟩

end Update

end Slots

end CppGo.Lib
