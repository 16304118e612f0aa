import Mathlib.Data.List.Basic
import Mathlib.Data.List.Induction
import Mathlib.Data.List.Nodup
import Mathlib.Data.List.Perm.Basic
import Mathlib.Logic.Function.Basic
import Mathlib.Tactic.Common

/-!
# Doubly linked lists in a heap

`Links α` gives each node its two pointers.  `Chain h p l q` says that the nodes of `l` are
linked in both directions, from a node after `p` to a node before `q`, and `Rep h cs` that
the heap consists of the disjoint chains `cs` and of nodes without pointers.  The two
operations are `link`, which joins two chains, and `excise`, which takes a piece out of a
chain.
-/

namespace CppGo.Lib

structure Links (α : Type*) where
  prev : α → Option α
  next : α → Option α

namespace Links

variable {α : Type*}

def empty : Links α := { prev := fun _ => none, next := fun _ => none }

section Update

variable [DecidableEq α]

def setPrev (h : Links α) (a : α) (p : Option α) : Links α :=
  { h with prev := Function.update h.prev a p }

def setNext (h : Links α) (a : α) (q : Option α) : Links α :=
  { h with next := Function.update h.next a q }

def link (h : Links α) (a b : α) : Links α := (h.setNext a (some b)).setPrev b (some a)

def bridge (h : Links α) (p q : Option α) : Links α :=
  let h := match p with
    | some a => h.setNext a q
    | none => h
  match q with
  | some b => h.setPrev b p
  | none => h

def excise (h : Links α) (first last : α) : Links α :=
  ((h.bridge (h.prev first) (h.next last)).setPrev first none).setNext last none

variable {h : Links α} {a b c : α} {p q : Option α}

@[simp] theorem prev_setPrev : (h.setPrev a p).prev c = if c = a then p else h.prev c :=
  Function.update_apply ..

@[simp] theorem next_setPrev : (h.setPrev a p).next = h.next := rfl

@[simp] theorem next_setNext : (h.setNext a q).next c = if c = a then q else h.next c :=
  Function.update_apply ..

@[simp] theorem prev_setNext : (h.setNext a q).prev = h.prev := rfl

theorem prev_bridge : (h.bridge p q).prev c = if q = some c then p else h.prev c := by
  unfold bridge
  cases p <;> cases q <;> simp [eq_comm]

theorem next_bridge : (h.bridge p q).next c = if p = some c then q else h.next c := by
  unfold bridge
  cases p <;> cases q <;> simp [eq_comm]

end Update

/-- The nodes of `l` are linked, after `p` and before `q`. -/
def Chain (h : Links α) : Option α → List α → Option α → Prop
  | _, [], _ => True
  | p, a :: l, q => h.prev a = p ∧ h.next a = l.head?.or q ∧ Chain h (some a) l q

variable {h h' : Links α} {p q p' q' : Option α} {l m : List α} {a : α}

theorem getLast?_cons_or (a : α) (l : List α) (p : Option α) :
    (a :: l).getLast?.or p = l.getLast?.or (some a) := by
  rw [List.getLast?_cons]
  cases l.getLast? <;> rfl

/-- A chain of two parts, and the seam. -/
theorem chain_append :
    Chain h p (l ++ m) q ↔ Chain h p l (m.head?.or q) ∧ Chain h (l.getLast?.or p) m q := by
  induction l generalizing p with
  | nil => simp [Chain]
  | cons a l ih =>
      rw [List.cons_append, Chain, Chain, ih, getLast?_cons_or, List.head?_append, Option.or_assoc,
        and_assoc, and_assoc]

theorem Chain.prev_head (hc : Chain h p l q) (ha : l.head? = some a) : h.prev a = p := by
  cases l with
  | nil => cases ha
  | cons b l =>
      cases ha
      exact hc.1

theorem Chain.next_last (hc : Chain h p l q) (ha : l.getLast? = some a) : h.next a = q := by
  obtain ⟨l', rfl⟩ := List.getLast?_eq_some_iff.mp ha
  have hlast := (chain_append.mp hc).2
  simpa [Chain] using hlast.2.1

theorem Chain.redirect [DecidableEq α] (hc : Chain h p l q) (hl : l.Nodup)
    (hprev : ∀ a ∈ l, h'.prev a = if l.head? = some a then p' else h.prev a)
    (hnext : ∀ a ∈ l, h'.next a = if l.getLast? = some a then q' else h.next a) :
    Chain h' p' l q' := by
  induction l generalizing p p' with
  | nil => trivial
  | cons a l ih =>
      rw [List.nodup_cons] at hl
      have hne : ∀ b ∈ l, a ≠ b := by
        rintro b hb rfl
        exact hl.1 hb
      refine ⟨by simpa using hprev a List.mem_cons_self, ?_, ih hc.2.2 hl.2 ?_ ?_⟩
      · rw [hnext a List.mem_cons_self]
        cases l with
        | nil => simp
        | cons b l =>
            have hlast : (a :: b :: l).getLast? ≠ some a := by
              rw [List.getLast?_cons_cons]
              intro hlast
              exact hl.1 (List.mem_of_getLast? hlast)
            rw [if_neg hlast, hc.2.1]
            rfl
      · intro b hb
        have hold := hprev b (List.mem_cons_of_mem _ hb)
        rw [List.head?_cons, if_neg (by simpa using hne b hb)] at hold
        rw [hold]
        split
        · exact hc.2.2.prev_head ‹_›
        · rfl
      · intro b hb
        have hold := hnext b (List.mem_cons_of_mem _ hb)
        cases l with
        | nil => cases hb
        | cons c l =>
            rw [List.getLast?_cons_cons] at hold
            exact hold

theorem Chain.congr (hc : Chain h p l q) (hprev : ∀ a ∈ l, h'.prev a = h.prev a)
    (hnext : ∀ a ∈ l, h'.next a = h.next a) : Chain h' p l q := by
  induction l generalizing p with
  | nil => trivial
  | cons a l ih =>
      refine ⟨?_, ?_, ih hc.2.2 ?_ ?_⟩
      · rw [hprev a List.mem_cons_self, hc.1]
      · rw [hnext a List.mem_cons_self, hc.2.1]
      · exact fun b hb => hprev b (List.mem_cons_of_mem _ hb)
      · exact fun b hb => hnext b (List.mem_cons_of_mem _ hb)

/-! ## Walks -/

inductive Walk (f : α → Option α) : Option α → List α → Prop
  | null : Walk f none []
  | step {a : α} {l : List α} : Walk f (f a) l → Walk f (some a) (a :: l)

theorem Chain.walk_next (hc : Chain h p l none) : Walk h.next l.head? l := by
  induction l generalizing p with
  | nil => exact .null
  | cons a l ih =>
      apply Walk.step
      rw [hc.2.1, Option.or_none]
      exact ih hc.2.2

theorem Chain.walk_prev (hc : Chain h none l q) : Walk h.prev l.getLast? l.reverse := by
  induction l using List.reverseRecOn generalizing q with
  | nil => exact .null
  | append_singleton l a ih =>
      obtain ⟨hinit, hlast⟩ := chain_append.mp hc
      rw [List.reverse_append, List.getLast?_concat]
      apply Walk.step
      rw [hlast.1, Option.or_none]
      exact ih hinit

theorem Walk.until [DecidableEq α] {f : α → Option α} {z a : α} {l : List α}
    (hw : Walk f (some a) (a :: l ++ [z])) (hz : z ∉ a :: l) :
    Walk (fun p => if f p = some z then none else f p) (some a) (a :: l) := by
  induction l generalizing a with
  | nil =>
      obtain - | hw := hw
      apply Walk.step
      cases hf : f a with
      | none =>
          rw [hf] at hw
          cases hw
      | some b =>
          rw [hf] at hw
          obtain - | hw := hw
          rw [if_pos rfl]
          exact .null
  | cons b l ih =>
      obtain - | hw := hw
      have hf : f a = some b := by
        cases hf : f a with
        | none =>
            rw [hf] at hw
            cases hw
        | some c =>
            rw [hf] at hw
            cases hw
            rfl
      have hbz : b ≠ z := by
        rintro rfl
        exact hz (List.mem_cons_of_mem _ List.mem_cons_self)
      apply Walk.step
      rw [hf, if_neg (by simpa using hbz)]
      rw [hf] at hw
      exact ih hw fun hin => hz (List.mem_cons_of_mem _ hin)

/-! ## One list of a list of lists -/

theorem perm_set {l : List α} {i : Nat} (hi : l[i]? = some a) :
    ∃ rest, l.Perm (a :: rest) ∧ ∀ x, (l.set i x).Perm (x :: rest) := by
  obtain ⟨hlt, rfl⟩ := List.getElem?_eq_some_iff.mp hi
  refine ⟨l.eraseIdx i, (List.getElem_cons_eraseIdx_perm hlt).symm, fun x => ?_⟩
  have hlt' : i < (l.set i x).length := by simpa using hlt
  have hperm := (List.getElem_cons_eraseIdx_perm hlt').symm
  rwa [List.getElem_set_self, List.eraseIdx_set_eq] at hperm

theorem perm_set_set {b : α} {l : List α} {i j : Nat} (hij : i ≠ j) (hi : l[i]? = some a)
    (hj : l[j]? = some b) :
    ∃ rest, l.Perm (a :: b :: rest) ∧ ∀ x y, ((l.set i x).set j y).Perm (x :: y :: rest) := by
  obtain ⟨rest, hl, hset⟩ := perm_set hi
  have hb : b ∈ l.eraseIdx i :=
    List.mem_eraseIdx_iff_getElem?.mpr ⟨j, hij.symm, hj⟩
  have hb : b ∈ rest := by
    obtain ⟨hlt, rfl⟩ := List.getElem?_eq_some_iff.mp hi
    have herase := (List.getElem_cons_eraseIdx_perm hlt).trans hl
    exact herase.cons_inv.mem_iff.mp hb
  obtain ⟨pre, post, rfl⟩ := List.append_of_mem hb
  refine ⟨pre ++ post, hl.trans (List.perm_middle.cons a), fun x y => ?_⟩
  have hj' : (l.set i x)[j]? = some b := by rw [List.getElem?_set_ne hij, hj]
  obtain ⟨rest', hl', hset'⟩ := perm_set hj'
  have hrest : (b :: rest').Perm (b :: x :: (pre ++ post)) :=
    calc List.Perm (b :: rest') (l.set i x) := hl'.symm
      List.Perm _ (x :: (pre ++ b :: post)) := hset x
      List.Perm _ (x :: b :: (pre ++ post)) := List.perm_middle.cons x
      List.Perm _ (b :: x :: (pre ++ post)) := .swap b x _
  exact ((hset' y).trans (hrest.cons_inv.cons y)).trans (.swap x y _)

/-! ## Disjoint chains -/

structure Rep (h : Links α) (cs : List (List α)) : Prop where
  chain : ∀ c ∈ cs, Chain h none c none
  nodup : cs.flatten.Nodup
  free : ∀ a ∉ cs.flatten, h.prev a = none ∧ h.next a = none

variable {cs cs' : List (List α)} {c x : List α}

theorem rep_empty : Rep (empty : Links α) [] :=
  ⟨fun _ hc => absurd hc List.not_mem_nil, List.nodup_nil, fun _ _ => ⟨rfl, rfl⟩⟩

theorem Rep.perm (hr : Rep h cs) (hperm : cs.Perm cs') : Rep h cs' where
  chain c hc := hr.chain c (hperm.mem_iff.mpr hc)
  nodup := hperm.flatten.nodup_iff.mp hr.nodup
  free a ha := hr.free a fun hin => ha (hperm.flatten.mem_iff.mp hin)

theorem Rep.of_eq (hr : Rep h cs) (heq : h' = h) : Rep h' cs := heq ▸ hr

theorem rep_nil_cons : Rep h ([] :: cs) ↔ Rep h cs := by
  constructor
  · intro hr
    exact ⟨fun c hc => hr.chain c (List.mem_cons_of_mem _ hc), hr.nodup, hr.free⟩
  · intro hr
    refine ⟨fun c hc => ?_, hr.nodup, hr.free⟩
    rcases List.mem_cons.mp hc with rfl | hc
    · trivial
    · exact hr.chain c hc

theorem rep_singleton_cons (ha : a ∉ cs.flatten) : Rep h ([a] :: cs) ↔ Rep h cs := by
  constructor
  · intro hr
    refine ⟨fun c hc => hr.chain c (List.mem_cons_of_mem _ hc), ?_, fun b hb => ?_⟩
    · exact (List.nodup_cons.mp hr.nodup).2
    · by_cases hba : b = a
      · subst hba
        have hc := hr.chain [b] List.mem_cons_self
        exact ⟨hc.1, by simpa using hc.2.1⟩
      · apply hr.free
        simpa [hba] using hb
  · intro hr
    obtain ⟨hprev, hnext⟩ := hr.free a ha
    refine ⟨fun c hc => ?_, List.nodup_cons.mpr ⟨ha, hr.nodup⟩, fun b hb => ?_⟩
    · rcases List.mem_cons.mp hc with rfl | hc
      · exact ⟨hprev, by simpa using hnext, trivial⟩
      · exact hr.chain c hc
    · apply hr.free
      exact fun hin => hb (List.mem_cons_of_mem _ hin)

section Operations

variable [DecidableEq α] {b first last : α}

/-- Joining two chains. -/
theorem Rep.link (hr : Rep h (c :: x :: cs)) (ha : c.getLast? = some a) (hb : x.head? = some b) :
    Rep (h.link a b) ((c ++ x) :: cs) := by
  have hnodup : (c ++ (x ++ cs.flatten)).Nodup := hr.nodup
  obtain ⟨hc, hxcs, hdisj⟩ := List.nodup_append.mp hnodup
  obtain ⟨hx, -, hdisj'⟩ := List.nodup_append.mp hxcs
  have hac : a ∈ c := List.mem_of_getLast? ha
  have hbx : b ∈ x := List.mem_of_mem_head? hb
  have hprev : ∀ d ≠ b, (h.link a b).prev d = h.prev d := by
    intro d hd
    simp [Links.link, hd]
  have hnext : ∀ d ≠ a, (h.link a b).next d = h.next d := by
    intro d hd
    simp [Links.link, hd]
  constructor
  · intro d hd
    rcases List.mem_cons.mp hd with rfl | hd
    · apply chain_append.mpr
      rw [hb, ha]
      constructor
      · apply (hr.chain c List.mem_cons_self).redirect hc
        · intro d hd
          have hdb : d ≠ b := fun heq => hdisj d hd b (List.mem_append_left _ hbx) heq
          rw [hprev d hdb]
          split
          · exact (hr.chain c List.mem_cons_self).prev_head ‹_›
          · rfl
        · intro d hd
          rw [ha]
          by_cases hda : d = a
          · subst hda
            simp [Links.link]
          · rw [hnext d hda, if_neg]
            simpa using Ne.symm hda
      · have hxc := hr.chain x (List.mem_cons_of_mem _ List.mem_cons_self)
        apply hxc.redirect hx
        · intro d hd
          rw [hb]
          by_cases hdb : d = b
          · subst hdb
            simp [Links.link]
          · rw [hprev d hdb, if_neg]
            simpa using Ne.symm hdb
        · intro d hd
          have hda : d ≠ a := fun heq => hdisj a hac d (List.mem_append_left _ hd) heq.symm
          rw [hnext d hda]
          split
          · exact hxc.next_last ‹_›
          · rfl
    · have hmem : ∀ e ∈ d, e ∈ cs.flatten := fun e he => List.mem_flatten.mpr ⟨d, hd, he⟩
      apply (hr.chain d (List.mem_cons_of_mem _ (List.mem_cons_of_mem _ hd))).congr
      · intro e he
        apply hprev
        exact fun heq => hdisj' b hbx e (hmem e he) heq.symm
      · intro e he
        apply hnext
        exact fun heq => hdisj a hac e (List.mem_append_right _ (hmem e he)) heq.symm
  · simpa using hnodup
  · intro d hd
    have hd : d ∉ c ++ (x ++ cs.flatten) := by simpa using hd
    have hda : d ≠ a := by
      rintro rfl
      exact hd (List.mem_append_left _ hac)
    have hdb : d ≠ b := by
      rintro rfl
      exact hd (List.mem_append_right _ (List.mem_append_left _ hbx))
    rw [hprev d hdb, hnext d hda]
    exact hr.free d hd

/-- Taking a piece out of a chain. -/
theorem Rep.excise (hr : Rep h ((l ++ x ++ m) :: cs)) (hfirst : x.head? = some first)
    (hlast : x.getLast? = some last) : Rep (h.excise first last) ((l ++ m) :: x :: cs) := by
  have hnodup : (l ++ x ++ m ++ cs.flatten).Nodup := hr.nodup
  obtain ⟨hlxm, -, hcs⟩ := List.nodup_append.mp hnodup
  obtain ⟨hlx, hm, hlxm⟩ := List.nodup_append.mp hlxm
  obtain ⟨hl, hx, hlx⟩ := List.nodup_append.mp hlx
  obtain ⟨hclx, hcm⟩ := chain_append.mp (hr.chain _ List.mem_cons_self)
  obtain ⟨hcl, hcx⟩ := chain_append.mp hclx
  have hfx : first ∈ x := List.mem_of_mem_head? hfirst
  have hlastx : last ∈ x := List.mem_of_getLast? hlast
  have hp : h.prev first = l.getLast? := by
    rw [hcx.prev_head hfirst, Option.or_none]
  have hq : h.next last = m.head? := by
    rw [hcx.next_last hlast, Option.or_none]
  have hprev : ∀ d, (h.excise first last).prev d =
      if d = first then none else if m.head? = some d then l.getLast? else h.prev d := by
    intro d
    unfold Links.excise
    rw [prev_setNext, prev_setPrev, prev_bridge, hp, hq]
  have hnext : ∀ d, (h.excise first last).next d =
      if d = last then none else if l.getLast? = some d then m.head? else h.next d := by
    intro d
    unfold Links.excise
    rw [next_setNext, next_setPrev, next_bridge, hp, hq]
  have hout : ∀ d ∉ l ++ x ++ m, (h.excise first last).prev d = h.prev d ∧
      (h.excise first last).next d = h.next d := by
    intro d hd
    simp only [List.mem_append, not_or] at hd
    rw [hprev, hnext, if_neg, if_neg, if_neg, if_neg]
    · exact ⟨rfl, rfl⟩
    · exact fun heq => hd.1.1 (List.mem_of_getLast? heq)
    · exact fun heq => hd.1.2 (heq ▸ hlastx)
    · exact fun heq => hd.2 (List.mem_of_mem_head? heq)
    · exact fun heq => hd.1.2 (heq ▸ hfx)
  constructor
  · intro d hd
    rcases List.mem_cons.mp hd with rfl | hd
    · apply chain_append.mpr
      constructor
      · apply hcl.redirect hl
        · intro e he
          rw [hprev, if_neg (fun heq => hlx e he first hfx heq), if_neg fun heq : m.head? = some e =>
            hlxm e (List.mem_append_left _ he) e (List.mem_of_mem_head? heq) rfl]
          split
          · exact hcl.prev_head ‹_›
          · rfl
        · intro e he
          rw [hnext, if_neg (fun heq => hlx e he last hlastx heq), Option.or_none]
      · apply hcm.redirect hm
        · intro e he
          rw [hprev, if_neg (fun heq => hlxm first (List.mem_append_right _ hfx) e he heq.symm),
            Option.or_none]
        · intro e he
          rw [hnext, if_neg (fun heq => hlxm last (List.mem_append_right _ hlastx) e he heq.symm),
            if_neg fun heq =>
              hlxm e (List.mem_append_left _ (List.mem_of_getLast? heq)) e he rfl]
          split
          · exact hcm.next_last ‹_›
          · rfl
    · rcases List.mem_cons.mp hd with rfl | hd
      · apply hcx.redirect hx
        · intro e he
          rw [hprev, hfirst]
          by_cases hef : e = first
          · simp [hef]
          · rw [if_neg hef, if_neg fun heq : m.head? = some e =>
              hlxm e (List.mem_append_right _ he) e (List.mem_of_mem_head? heq) rfl,
              if_neg (by simpa using Ne.symm hef)]
        · intro e he
          rw [hnext, hlast]
          by_cases hel : e = last
          · simp [hel]
          · rw [if_neg hel, if_neg fun heq => hlx e (List.mem_of_getLast? heq) e he rfl,
              if_neg (by simpa using Ne.symm hel)]
      · have hmem : ∀ e ∈ d, e ∉ l ++ x ++ m := by
          intro e he hin
          exact hcs e hin e (List.mem_flatten.mpr ⟨d, hd, he⟩) rfl
        apply (hr.chain d (List.mem_cons_of_mem _ hd)).congr
        · exact fun e he => (hout e (hmem e he)).1
        · exact fun e he => (hout e (hmem e he)).2
  · have hperm : (l ++ x ++ m ++ cs.flatten).Perm ((l ++ m) :: x :: cs).flatten := by
      simp only [List.flatten_cons, List.append_assoc]
      apply List.Perm.append_left
      rw [← List.append_assoc, ← List.append_assoc]
      exact List.perm_append_comm.append_right _
    exact hperm.nodup_iff.mp hnodup
  · intro d hd
    have hd' : d ∉ ((l ++ x ++ m) :: cs).flatten := by
      simp only [List.flatten_cons, List.mem_append, not_or] at hd ⊢
      exact ⟨⟨⟨hd.1.1, hd.2.1⟩, hd.1.2⟩, hd.2.2⟩
    have hlist : d ∉ l ++ x ++ m := fun hin => hd' (List.mem_append_left _ hin)
    rw [(hout d hlist).1, (hout d hlist).2]
    exact hr.free d hd'

end Operations

end Links

end CppGo.Lib
