import Mathlib.Data.List.Sort
import Mathlib.Order.Basic
import Mathlib.Tactic.Common

/-!
# Ordered multimaps with iterators

A multimap is the list of its nodes in the order of their keys, equal keys in the
order of their insertion.  A node keeps its number for life and no number is used
twice, so an iterator is a number, and it is valid while a node of the map has it.
-/

namespace CppGo.Lib

structure Node (κ α : Type*) where
  id : Nat
  key : κ
  value : α

/-- The order of a multimap: by the keys, and equal keys by the time of the insertion. -/
def Node.Before {κ α : Type*} [LinearOrder κ] (m n : Node κ α) : Prop :=
  m.key < n.key ∨ m.key = n.key ∧ m.id < n.id

theorem Node.Before.key_le {κ α : Type*} [LinearOrder κ] {m n : Node κ α} (h : m.Before n) :
    m.key ≤ n.key := by
  rcases h with h | h
  · exact h.le
  · exact h.1.le

structure Multimap (κ α : Type*) [LinearOrder κ] where
  nodes : List (Node κ α)
  nextId : Nat
  sorted : nodes.Pairwise Node.Before
  nodup : (nodes.map Node.id).Nodup
  fresh : ∀ n ∈ nodes, n.id < nextId

namespace Multimap

variable {κ α : Type*} [LinearOrder κ]

section Lists

variable {l : List (Node κ α)} {n : Node κ α}

def insertNode (n : Node κ α) (l : List (Node κ α)) : List (Node κ α) :=
  l.orderedInsert (fun m n => m.key < n.key) n

theorem perm_insertNode : (insertNode n l).Perm (n :: l) :=
  List.perm_orderedInsert _ _ _

theorem mem_insertNode {m : Node κ α} : m ∈ insertNode n l ↔ m = n ∨ m ∈ l := by
  rw [perm_insertNode.mem_iff, List.mem_cons]

theorem sublist_insertNode : l.Sublist (insertNode n l) :=
  List.sublist_orderedInsert _ _

theorem insertNode_cons (m : Node κ α) :
    insertNode n (m :: l) = if n.key < m.key then n :: m :: l else m :: insertNode n l :=
  List.orderedInsert_cons _ _ _ _

theorem sorted_insertNode (hl : l.Pairwise Node.Before) (hfresh : ∀ m ∈ l, m.id < n.id) :
    (insertNode n l).Pairwise Node.Before := by
  induction l with
  | nil => exact List.pairwise_singleton _ _
  | cons m l ih =>
      rw [List.pairwise_cons] at hl
      rw [insertNode_cons]
      split
      · rename_i hlt
        apply List.Pairwise.cons
        · intro k hk
          rcases List.mem_cons.mp hk with rfl | hk
          · exact .inl hlt
          · exact .inl (hlt.trans_le (Node.Before.key_le (hl.1 k hk)))
        · exact List.pairwise_cons.mpr hl
      · rename_i hle
        apply List.Pairwise.cons
        · intro k hk
          rcases mem_insertNode.mp hk with rfl | hk
          · have hm := hfresh m List.mem_cons_self
            rcases (not_lt.mp hle).lt_or_eq with hlt | heq
            · exact .inl hlt
            · exact .inr ⟨heq, hm⟩
          · exact hl.1 k hk
        · exact ih hl.2 fun k hk => hfresh k (List.mem_cons_of_mem _ hk)

/-- A node goes behind all whose keys are not greater. -/
theorem insertNode_append_of_le {l' : List (Node κ α)} (h : ∀ m ∈ l, m.key ≤ n.key) :
    insertNode n (l ++ l') = l ++ insertNode n l' := by
  induction l with
  | nil => rfl
  | cons m l ih =>
      have hm := h m List.mem_cons_self
      rw [List.cons_append, insertNode_cons, if_neg (not_lt.mpr hm),
        ih fun k hk => h k (List.mem_cons_of_mem _ hk)]
      rfl

/-- A node goes before all that follow one with a greater key. -/
theorem insertNode_append_of_lt {l' : List (Node κ α)} {m : Node κ α} (h : n.key < m.key) :
    insertNode n (l ++ m :: l') = insertNode n l ++ m :: l' := by
  induction l with
  | nil => rw [List.nil_append, insertNode_cons, if_pos h]; rfl
  | cons k l ih =>
      rw [List.cons_append, insertNode_cons, insertNode_cons]
      split
      · rfl
      · rw [ih]
        rfl

theorem filter_insertNode {p : Node κ α → Bool} (hn : p n = false) :
    (insertNode n l).filter p = l.filter p := by
  induction l with
  | nil => simp [insertNode, hn]
  | cons m l ih =>
      unfold insertNode at ih ⊢
      rw [List.orderedInsert_cons]
      split
      · rw [List.filter_cons, hn]
        rfl
      · rw [List.filter_cons, List.filter_cons, ih]

omit [LinearOrder κ] in
/-- What follows the first node that fails `q`, in the part of a list that has `p`. -/
theorem tail_dropWhile_filter {p q : Node κ α → Bool} (hpq : ∀ m ∈ l, q m = false → p m = true) :
    ((l.filter p).dropWhile q).tail = (l.dropWhile q).tail.filter p := by
  induction l with
  | nil => rfl
  | cons m l ih =>
      have ih := ih fun k hk => hpq k (List.mem_cons_of_mem _ hk)
      cases hq : q m with
      | true =>
          rw [List.dropWhile_cons_of_pos hq, List.filter_cons, ← ih]
          split
          · rw [List.dropWhile_cons_of_pos hq]
          · rfl
      | false =>
          have hp := hpq m List.mem_cons_self hq
          rw [List.filter_cons_of_pos hp, List.dropWhile_cons_of_neg (by simp [hq]),
            List.dropWhile_cons_of_neg (by simp [hq])]
          rfl

/-- The nodes with one key stand next to each other. -/
theorem exists_split_of_sorted (hl : l.Pairwise Node.Before) (key : κ) :
    ∃ pre post, l = pre ++ l.filter (fun n => n.key = key) ++ post ∧
      (∀ n ∈ pre, n.key < key) ∧ ∀ n ∈ post, key < n.key := by
  induction l with
  | nil => exact ⟨[], [], rfl, nofun, nofun⟩
  | cons m l ih =>
      obtain ⟨hm, hl⟩ := List.pairwise_cons.mp hl
      have hle : ∀ n ∈ l, m.key ≤ n.key := fun n hn => (hm n hn).key_le
      rcases lt_trichotomy m.key key with hlt | heq | hgt
      · obtain ⟨pre, post, hsplit, hpre, hpost⟩ := ih hl
        refine ⟨m :: pre, post, ?_, ?_, hpost⟩
        · rw [List.filter_cons_of_neg (by simpa using hlt.ne), List.cons_append, List.cons_append,
            ← hsplit]
        · exact List.forall_mem_cons.mpr ⟨hlt, hpre⟩
      · obtain ⟨pre, post, hsplit, hpre, hpost⟩ := ih hl
        have hnil : pre = [] := by
          rw [List.eq_nil_iff_forall_not_mem]
          intro n hn
          have hmem : n ∈ l := by
            rw [hsplit, List.append_assoc]
            exact List.mem_append_left _ hn
          exact absurd (hpre n hn) (not_lt.mpr (heq ▸ hle n hmem))
        subst hnil
        refine ⟨[], post, ?_, nofun, hpost⟩
        rw [List.filter_cons_of_pos (by simpa using heq), List.nil_append, List.cons_append]
        exact congrArg (m :: ·) hsplit
      · have hnone : (m :: l).filter (fun n => n.key = key) = [] := by
          rw [List.filter_eq_nil_iff]
          intro n hn
          rcases List.mem_cons.mp hn with rfl | hn
          · simpa using hgt.ne'
          · simpa using (hgt.trans_le (hle n hn)).ne'
        refine ⟨[], m :: l, by rw [hnone]; rfl, nofun, ?_⟩
        exact List.forall_mem_cons.mpr ⟨hgt, fun n hn => hgt.trans_le (hle n hn)⟩

end Lists

def empty : Multimap κ α :=
  { nodes := [], nextId := 0, sorted := .nil, nodup := .nil, fresh := nofun }

/-- The iterator of the new node is `nextId`. -/
def insert (m : Multimap κ α) (key : κ) (value : α) : Multimap κ α where
  nodes := insertNode ⟨m.nextId, key, value⟩ m.nodes
  nextId := m.nextId + 1
  sorted := sorted_insertNode m.sorted m.fresh
  nodup := by
    rw [(perm_insertNode.map Node.id).nodup_iff, List.map_cons, List.nodup_cons, List.mem_map]
    refine ⟨?_, m.nodup⟩
    rintro ⟨n, hn, hid⟩
    have hlt := m.fresh n hn
    rw [hid] at hlt
    exact lt_irrefl _ hlt
  fresh n hn := by
    rcases mem_insertNode.mp hn with rfl | hn
    · exact Nat.lt_succ_self _
    · have := m.fresh n hn
      omega

def restrict (m : Multimap κ α) (p : Node κ α → Bool) : Multimap κ α where
  nodes := m.nodes.filter p
  nextId := m.nextId
  sorted := m.sorted.filter p
  nodup := m.nodup.sublist (List.filter_sublist.map _)
  fresh n hn := m.fresh n (List.mem_of_mem_filter hn)

def erase (m : Multimap κ α) (it : Nat) : Multimap κ α :=
  m.restrict fun n => n.id != it

/-- The nodes from an iterator on; `none` is `end()`. -/
def starting (m : Multimap κ α) : Option Nat → List (Node κ α)
  | some it => m.nodes.dropWhile fun n => n.id != it
  | none => []

def after (m : Multimap κ α) (it : Nat) : List (Node κ α) :=
  (m.starting (some it)).tail

theorem starting_sublist (m : Multimap κ α) (it : Option Nat) :
    (m.starting it).Sublist m.nodes := by
  cases it with
  | some it => exact List.dropWhile_sublist _
  | none => exact List.nil_sublist _

/-- `erase(begin(), it)`. -/
def eraseBefore (m : Multimap κ α) (it : Option Nat) : Multimap κ α where
  nodes := m.starting it
  nextId := m.nextId
  sorted := m.sorted.sublist (m.starting_sublist it)
  nodup := m.nodup.sublist ((m.starting_sublist it).map _)
  fresh n hn := m.fresh n ((m.starting_sublist it).subset hn)

def contains (m : Multimap κ α) (it : Nat) : Bool :=
  m.nodes.any fun n => n.id == it

def lowerBound (m : Multimap κ α) (key : κ) : Option (Node κ α) :=
  m.nodes.find? fun n => key ≤ n.key

def values (m : Multimap κ α) : List α := m.nodes.map Node.value

section Lookup

variable {m : Multimap κ α} {n n' : Node κ α} {it : Nat}

theorem contains_iff : m.contains it = true ↔ ∃ n ∈ m.nodes, n.id = it := by
  simp [contains]

theorem eq_of_id (hn : n ∈ m.nodes) (hn' : n' ∈ m.nodes) (hid : n.id = n'.id) : n = n' :=
  List.inj_on_of_nodup_map m.nodup hn hn' hid

theorem mem_insert {key : κ} {value : α} :
    n ∈ (m.insert key value).nodes ↔ n = ⟨m.nextId, key, value⟩ ∨ n ∈ m.nodes :=
  mem_insertNode

theorem mem_erase : n ∈ (m.erase it).nodes ↔ n ∈ m.nodes ∧ n.id ≠ it := by
  simp [erase, restrict]

theorem nodes_erase_of_split {pre post : List (Node κ α)} (h : m.nodes = pre ++ n :: post) :
    (m.erase n.id).nodes = pre ++ post := by
  have hnodup := m.nodup
  rw [h, List.map_append, List.map_cons, List.nodup_middle, List.nodup_cons] at hnodup
  have hother : ∀ k ∈ pre ++ post, (k.id != n.id) = true := by
    intro k hk
    rw [bne_iff_ne]
    intro hid
    apply hnodup.1
    rw [← hid, ← List.map_append]
    exact List.mem_map_of_mem hk
  show m.nodes.filter _ = _
  rw [h, ← List.filter_eq_self.mpr hother, List.filter_append, List.filter_append,
    List.filter_cons_of_neg (by simp)]

theorem perm_erase (hn : n ∈ m.nodes) : m.nodes.Perm (n :: (m.erase n.id).nodes) := by
  obtain ⟨pre, post, hsplit⟩ := List.append_of_mem hn
  rw [nodes_erase_of_split hsplit, hsplit]
  exact List.perm_middle

theorem values_insert (key : κ) (value : α) :
    (m.insert key value).values.Perm (value :: m.values) :=
  perm_insertNode.map Node.value

theorem values_erase (hn : n ∈ m.nodes) :
    m.values.Perm (n.value :: (m.erase n.id).values) :=
  (perm_erase hn).map Node.value

theorem mem_of_lowerBound {key : κ} (h : m.lowerBound key = some n) : n ∈ m.nodes :=
  List.mem_of_find?_eq_some h

theorem lowerBound_le {key : κ} (h : m.lowerBound key = some n) :
    key ≤ n.key ∧ ∀ k ∈ m.nodes, key ≤ k.key → n.key ≤ k.key := by
  obtain ⟨hkey, pre, post, hsplit, hpre⟩ := List.find?_eq_some_iff_append.mp h
  refine ⟨of_decide_eq_true hkey, fun k hk hle => ?_⟩
  rw [hsplit, List.mem_append, List.mem_cons] at hk
  rcases hk with hk | rfl | hk
  · have hlt := hpre k hk
    simp only [Bool.not_eq_true', decide_eq_false_iff_not] at hlt
    exact absurd hle hlt
  · exact le_refl _
  · have hsorted := m.sorted
    rw [hsplit, List.pairwise_append, List.pairwise_cons] at hsorted
    exact Node.Before.key_le (hsorted.2.1.1 k hk)

theorem lt_of_lowerBound {key : κ} (h : m.lowerBound key = none) (hn : n ∈ m.nodes) :
    n.key < key := by
  have hle := List.find?_eq_none.mp h n hn
  simpa using hle

theorem filter_erase {p : Node κ α → Bool} :
    (m.erase it).nodes.filter p = m.nodes.filter fun k => !decide (it = k.id) && p k := by
  show (m.nodes.filter _).filter p = _
  rw [List.filter_filter]
  apply List.filter_congr
  intro k _
  by_cases hk : it = k.id
  · simp [hk]
  · simp [hk, Ne.symm hk]

theorem after_subset (hn : n ∈ m.after it) : n ∈ m.nodes :=
  (m.starting_sublist (some it)).subset (List.mem_of_mem_tail hn)

theorem filter_after_insert {key : κ} {value : α} (hit : m.contains it = true) :
    ((m.insert key value).after it).filter (fun n => n.id != m.nextId) = m.after it := by
  obtain ⟨a, ha, hid⟩ := contains_iff.mp hit
  have hlt := m.fresh a ha
  have hold : (m.insert key value).nodes.filter (fun n => n.id != m.nextId) = m.nodes := by
    show (insertNode _ _).filter _ = _
    rw [filter_insertNode (by simp), List.filter_eq_self]
    intro b hb
    have := m.fresh b hb
    simp
    omega
  unfold after starting
  rw [← tail_dropWhile_filter, hold]
  intro b _ hb
  have hb : b.id = it := by simpa using hb
  simp
  omega

theorem after_insert {key : κ} {value : α} (hit : m.contains it = true)
    (hn : n ∈ (m.insert key value).after it) :
    n = ⟨m.nextId, key, value⟩ ∨ n ∈ m.after it := by
  rcases mem_insert.mp (after_subset hn) with hnew | hmem
  · exact .inl hnew
  · have := m.fresh n hmem
    rw [← @filter_after_insert _ _ _ m it key value hit, List.mem_filter]
    refine .inr ⟨hn, ?_⟩
    simp
    omega

theorem mem_after_insert {key : κ} {value : α} (hit : m.contains it = true)
    (hn : n ∈ m.after it) : n ∈ (m.insert key value).after it := by
  rw [← filter_after_insert hit] at hn
  exact List.mem_of_mem_filter hn

theorem filter_after_erase {x : Nat} (hne : it ≠ x) :
    (m.erase x).after it = (m.after it).filter fun n => n.id != x := by
  apply tail_dropWhile_filter
  intro b _ hb
  have hb : b.id = it := by simpa using hb
  simpa [hb] using hne

theorem mem_after_erase {x : Nat} (hne : it ≠ x) :
    n ∈ (m.erase x).after it ↔ n ∈ m.after it ∧ n.id ≠ x := by
  rw [filter_after_erase hne, List.mem_filter, bne_iff_ne]

theorem starting_of_split {pre post : List (Node κ α)} (h : m.nodes = pre ++ n :: post) :
    m.starting (some n.id) = n :: post := by
  have hnodup := m.nodup
  rw [h, List.map_append, List.map_cons, List.nodup_append] at hnodup
  show m.nodes.dropWhile _ = _
  rw [h, List.dropWhile_append_of_pos, List.dropWhile_cons_of_neg]
  · simp
  · intro a ha
    have := hnodup.2.2 a.id (List.mem_map_of_mem ha) n.id List.mem_cons_self
    simpa using this

theorem id_ne_of_after (hn : n ∈ m.nodes) (hn' : n' ∈ m.after n.id) : n'.id ≠ n.id := by
  obtain ⟨pre, post, hsplit⟩ := List.append_of_mem hn
  have hnodup := m.nodup
  rw [after, starting_of_split hsplit] at hn'
  rw [hsplit, List.map_append, List.map_cons, List.nodup_append, List.nodup_cons] at hnodup
  intro hid
  exact hnodup.2.1.1 (hid ▸ List.mem_map_of_mem hn')

end Lookup

end Multimap

end CppGo.Lib
