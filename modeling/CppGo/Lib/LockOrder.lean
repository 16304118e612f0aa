import CppGo.Lib.LockMachine
import Mathlib.Data.List.Nodup
import Mathlib.Order.WellFounded

/-!
# Lock order

Where every call keeps the order of `LockCode.wp`, a thread only waits for a lock above all those
it holds.  So no set of threads wait for one another, one of the threads
that hold a lock can always go on, and a coroutine is never left with a lock.
-/

namespace CppGo.Lib.LockMachine

open LockCode

variable {L ι κ α β ρ : Type*} [DecidableEq L] [Preorder ρ] {rank : L → ρ} {l m : L}

/-! ## Frames -/

def Ends (rank : L → ρ) : List (LockCode L) → List L → Prop
  | [], h => h = []
  | c :: k, h => c.wp rank h (Ends rank k)

def Frame.Ordered (rank : L → ρ) (f : Frame L) : Prop := Ends rank f.todo f.held

variable {f g : Frame L} {flag flag' : L → Bool} {n : Nat} {k : List (LockCode L)}

theorem Frame.Ordered.step (h : f.Ordered rank) (hs : f.step flag n = some (g, flag')) :
    g.Ordered rank := by
  obtain ⟨held, todo⟩ := f
  unfold Frame.step at hs
  cases todo with
  | nil => simp at hs
  | cons code k =>
      cases code with
      | skip =>
          cases hs
          exact h
      | acquire l =>
          simp only [Option.ite_none_left_eq_some] at hs
          cases hs.2
          exact h.2
      | release l =>
          cases hs
          exact h.2
      | tryAcquire l taken failed =>
          simp only at hs
          split at hs <;> cases hs
          · exact h.2
          · exact h.1
      | switch => cases hs
      | seq a b =>
          cases hs
          exact h
      | choose branch =>
          cases hs
          exact h n
      | loop body =>
          cases hs
          by_cases hn : n = 0
          · subst hn
            exact h.2
          · -- one more round comes back to the same loop with the same locks
            unfold Frame.Ordered
            rw [if_neg hn]
            apply wp_mono h.1
            rintro _ rfl
            exact h

theorem Frame.Ordered.step_locks (h : f.Ordered rank) (hs : f.step flag n = some (g, flag')) :
    (g.held = f.held ∧ flag' = flag) ∨
    (∃ l, flag l = false ∧ g.held = l :: f.held ∧ flag' = Function.update flag l true) ∨
    ∃ l ∈ f.held, g.held = f.held.erase l ∧ flag' = Function.update flag l false := by
  obtain ⟨held, todo⟩ := f
  unfold Frame.step at hs
  cases todo with
  | nil => simp at hs
  | cons code k =>
      cases code with
      | acquire l =>
          simp only [Option.ite_none_left_eq_some, Bool.not_eq_true] at hs
          obtain ⟨hfree, hg⟩ := hs
          cases hg
          exact .inr (.inl ⟨l, hfree, rfl, rfl⟩)
      | release l =>
          cases hs
          exact .inr (.inr ⟨l, h.1, rfl, rfl⟩)
      | tryAcquire l taken failed =>
          simp only at hs
          split at hs <;> cases hs
          · exact .inl ⟨rfl, rfl⟩
          · rename_i hfree
            exact .inr (.inl ⟨l, by simpa using hfree, rfl, rfl⟩)
      | switch => cases hs
      | _ =>
          cases hs
          exact .inl ⟨rfl, rfl⟩

/-- A frame that holds a lock can go on unless it spins. -/
theorem Frame.Ordered.exists_step (h : f.Ordered rank) (hheld : f.held ≠ [])
    (hfree : ∀ l k, f.todo = .acquire l :: k → flag l = false) :
    ∃ r, f.step flag 0 = some r := by
  obtain ⟨held, todo⟩ := f
  cases todo with
  | nil => exact absurd h hheld
  | cons code k =>
      cases code with
      | acquire l => simp [Frame.step, hfree l k rfl]
      | tryAcquire l taken failed =>
          unfold Frame.step
          simp only
          split <;> exact ⟨_, rfl⟩
      | switch => exact absurd h.1 hheld
      | _ => exact ⟨_, rfl⟩

/-! ## Who has a lock -/

/-- A lock has its flag set exactly while one frame has it, once. -/
structure Owned {ν : Type*} (held : ν → List L) (flag : L → Bool) : Prop where
  flag_iff : ∀ l, flag l = true ↔ ∃ i, l ∈ held i
  one : ∀ i j l, l ∈ held i → l ∈ held j → i = j
  nodup : ∀ i, (held i).Nodup

section Owned

variable {ν : Type*} [DecidableEq ν] {held : ν → List L} {i : ν}

theorem Owned.take (h : Owned held flag) (hfree : flag l = false) :
    Owned (Function.update held i (l :: held i)) (Function.update flag l true) := by
  have hmem : ∀ j m, m ∈ Function.update held i (l :: held i) j ↔
      m ∈ held j ∨ (j = i ∧ m = l) := by
    intro j m
    by_cases hj : j = i
    · subst hj
      rw [Function.update_self, List.mem_cons]
      tauto
    · rw [Function.update_of_ne hj]
      tauto
  have hnot : ∀ j, l ∉ held j := by
    intro j hj
    have hset : flag l = true := (h.flag_iff l).mpr ⟨j, hj⟩
    rw [hfree] at hset
    cases hset
  constructor
  · intro m
    by_cases hm : m = l
    · subst hm
      simp [hmem]
    · simp [hmem, hm, h.flag_iff]
  · intro j j' m hj hj'
    rw [hmem] at hj hj'
    rcases hj with hj | ⟨rfl, rfl⟩
    · rcases hj' with hj' | ⟨rfl, rfl⟩
      · exact h.one j j' m hj hj'
      · exact absurd hj (hnot j)
    · rcases hj' with hj' | ⟨rfl, -⟩
      · exact absurd hj' (hnot j')
      · rfl
  · intro j
    by_cases hj : j = i
    · subst hj
      rw [Function.update_self, List.nodup_cons]
      exact ⟨hnot j, h.nodup j⟩
    · rw [Function.update_of_ne hj]
      exact h.nodup j

theorem Owned.give (h : Owned held flag) (hl : l ∈ held i) :
    Owned (Function.update held i ((held i).erase l)) (Function.update flag l false) := by
  have hmem : ∀ j m, m ∈ Function.update held i ((held i).erase l) j ↔ m ∈ held j ∧ m ≠ l := by
    intro j m
    by_cases hj : j = i
    · subst hj
      rw [Function.update_self, (h.nodup j).mem_erase_iff, and_comm]
    · rw [Function.update_of_ne hj]
      refine (and_iff_left_of_imp ?_).symm
      rintro hm rfl
      exact hj (h.one j i m hm hl)
  constructor
  · intro m
    by_cases hm : m = l
    · subst hm
      simp [hmem]
    · simp [hmem, hm, h.flag_iff]
  · intro j j' m hj hj'
    rw [hmem] at hj hj'
    exact h.one j j' m hj.1 hj'.1
  · intro j
    by_cases hj : j = i
    · subst hj
      rw [Function.update_self]
      exact (h.nodup j).erase l
    · rw [Function.update_of_ne hj]
      exact h.nodup j

end Owned

/-! ## Who is on which thread -/

/-- A coroutine is seated exactly while one thread has switched to it. -/
structure Seats (on : ι → Option κ) (seated : κ → Bool) : Prop where
  seated_iff : ∀ c, seated c = true ↔ ∃ t, on t = some c
  one : ∀ t u c, on t = some c → on u = some c → t = u

section Seats

variable [DecidableEq ι] [DecidableEq κ] {on : ι → Option κ} {seated : κ → Bool} {t : ι} {c : κ}

theorem Seats.sit (h : Seats on seated) (hon : on t = none) (hseat : seated c = false) :
    Seats (Function.update on t (some c)) (Function.update seated c true) := by
  have hfree : ∀ u, on u ≠ some c := by
    intro u hu
    have hset := (h.seated_iff c).mpr ⟨u, hu⟩
    rw [hseat] at hset
    cases hset
  have hsit : ∀ u c', Function.update on t (some c) u = some c' ↔
      on u = some c' ∨ (u = t ∧ c' = c) := by
    intro u c'
    by_cases hu : u = t
    · subst hu
      simp [hon, eq_comm]
    · simp [hu]
  constructor
  · intro c'
    by_cases hc : c' = c
    · subst hc
      simp [hsit]
    · simp [hsit, hc, h.seated_iff]
  · intro u u' c' hu hu'
    rw [hsit] at hu hu'
    rcases hu with hu | ⟨rfl, rfl⟩
    · rcases hu' with hu' | ⟨rfl, rfl⟩
      · exact h.one u u' c' hu hu'
      · exact absurd hu (hfree u)
    · rcases hu' with hu' | ⟨rfl, -⟩
      · exact absurd hu' (hfree u')
      · rfl

theorem Seats.rise (h : Seats on seated) (hon : on t = some c) :
    Seats (Function.update on t none) (Function.update seated c false) := by
  have hrise : ∀ u c', Function.update on t none u = some c' ↔ on u = some c' ∧ c' ≠ c := by
    intro u c'
    by_cases hu : u = t
    · subst hu
      simp [hon, eq_comm]
    · rw [Function.update_of_ne hu]
      refine (and_iff_left_of_imp ?_).symm
      rintro hc rfl
      exact hu (h.one u t c' hc hon)
  constructor
  · intro c'
    by_cases hc : c' = c
    · subst hc
      simp [hrise]
    · simp [hrise, hc, h.seated_iff]
  · intro u u' c' hu hu'
    rw [hrise] at hu hu'
    exact h.one u u' c' hu.1 hu'.1

end Seats

/-! ## States -/

/-- Every frame keeps the order, and a frame that no thread runs holds nothing. -/
structure State.Ordered (rank : L → ρ) (s : State L ι κ) : Prop where
  frame : ∀ i, (s.frame i).Ordered rank
  away : ∀ t c, s.on t = some c → (s.frame (.inl t)).held = []
  left : ∀ c, s.seated c = false → (s.frame (.inr c)).held = []
  seats : Seats s.on s.seated
  owned : Owned (fun i => (s.frame i).held) s.flag

namespace State

theorem ordered_make : (make : State L ι κ).Ordered rank where
  frame _ := rfl
  away _ _ h := by cases h
  left _ _ := rfl
  seats := by constructor <;> simp [make]
  owned := by constructor <;> simp [make]

variable {s s' : State L ι κ} {t u : ι} {c : κ}

omit [DecidableEq L] in
theorem active_of_none (h : s.on t = none) : s.active t = .inl t := by
  unfold active
  rw [h]

omit [DecidableEq L] in
theorem active_of_some (h : s.on t = some c) : s.active t = .inr c := by
  unfold active
  rw [h]

omit [DecidableEq L] in
theorem on_of_active_inl (h : s.active t = .inl u) : s.on t = none ∧ t = u := by
  cases hon : s.on t with
  | none =>
      rw [active_of_none hon] at h
      cases h
      exact ⟨rfl, rfl⟩
  | some c =>
      rw [active_of_some hon] at h
      cases h

omit [DecidableEq L] in
theorem on_of_active_inr (h : s.active t = .inr c) : s.on t = some c := by
  cases hon : s.on t with
  | none =>
      rw [active_of_none hon] at h
      cases h
  | some c' =>
      rw [active_of_some hon] at h
      cases h
      rfl

theorem Ordered.held_of_switch {i : ι ⊕ κ} (h : s.Ordered rank)
    (htodo : (s.frame i).todo = .switch :: k) :
    (s.frame i).held = [] ∧ Ends rank k (s.frame i).held := by
  have hi := h.frame i
  unfold Frame.Ordered at hi
  rw [htodo] at hi
  exact hi

variable [DecidableEq ι] [DecidableEq κ]

omit [DecidableEq L] in
@[simp] theorem held_setTodo (i j : ι ⊕ κ) (k : List (LockCode L)) :
    ((s.setTodo i k).frame j).held = (s.frame j).held := by
  by_cases hj : j = i
  · subst hj
    simp [setTodo]
  · simp [setTodo, hj]

/-- A step that gives one frame other code to do, and the threads other coroutines. -/
theorem Ordered.setTodo {i : ι ⊕ κ} {on : ι → Option κ} {seated : κ → Bool} (h : s.Ordered rank)
    (hk : Ends rank k (s.frame i).held)
    (haway : ∀ t c, on t = some c → (s.frame (.inl t)).held = [])
    (hleft : ∀ c, seated c = false → (s.frame (.inr c)).held = []) (hseats : Seats on seated) :
    ({ s.setTodo i k with on := on, seated := seated } : State L ι κ).Ordered rank where
  frame j := by
    by_cases hj : j = i
    · subst hj
      simpa [State.setTodo, Frame.Ordered] using hk
    · simpa [State.setTodo, hj] using h.frame j
  away t c hon := by simpa using haway t c hon
  left c hseat := by simpa using hleft c hseat
  seats := hseats
  owned := by
    simp only [held_setTodo]
    exact h.owned

theorem Ordered.stepFrame (h : s.Ordered rank)
    (hf : (s.frame (s.active t)).step s.flag n = some (f, flag')) :
    ({ s with frame := Function.update s.frame (s.active t) f, flag := flag' } :
      State L ι κ).Ordered rank where
  frame i := by
    by_cases hi : i = s.active t
    · subst hi
      simpa using (h.frame (s.active t)).step hf
    · simpa [hi] using h.frame i
  away u c hon := by
    have hne : .inl u ≠ s.active t := by
      intro heq
      obtain ⟨hnone, rfl⟩ := on_of_active_inl heq.symm
      rw [hnone] at hon
      cases hon
    simpa [hne] using h.away u c hon
  left c hseat := by
    have hne : .inr c ≠ s.active t := by
      intro heq
      have hset := (h.seats.seated_iff c).mpr ⟨t, on_of_active_inr heq.symm⟩
      rw [hseat] at hset
      cases hset
    simpa [hne] using h.left c hseat
  seats := h.seats
  owned := by
    have hheld : (fun i => (Function.update s.frame (s.active t) f i).held) =
        Function.update (fun i => (s.frame i).held) (s.active t) f.held :=
      funext fun i => Function.apply_update (fun _ => Frame.held) s.frame (s.active t) f i
    simp only [hheld]
    rcases (h.frame (s.active t)).step_locks hf with
      ⟨hsame, rfl⟩ | ⟨l, hfree, htake, rfl⟩ | ⟨l, hl, hgive, rfl⟩
    · rw [hsame, Function.update_eq_self]
      exact h.owned
    · rw [htake]
      exact h.owned.take hfree
    · rw [hgive]
      exact h.owned.give hl

theorem Ordered.swapIn (h : s.Ordered rank) (hon : s.on t = none) (hseat : s.seated c = false)
    (htodo : (s.frame (.inl t)).todo = .switch :: k) :
    ({ s.setTodo (.inl t) k with
      on := Function.update s.on t (some c), seated := Function.update s.seated c true } :
      State L ι κ).Ordered rank := by
  obtain ⟨hheld, hk⟩ := h.held_of_switch htodo
  refine h.setTodo hk ?_ ?_ (h.seats.sit hon hseat)
  · intro u c' hu
    by_cases hut : u = t
    · subst hut
      exact hheld
    · rw [Function.update_of_ne hut] at hu
      exact h.away u c' hu
  · intro c' hc'
    by_cases hcc : c' = c
    · subst hcc
      simp at hc'
    · rw [Function.update_of_ne hcc] at hc'
      exact h.left c' hc'

theorem Ordered.swapOut (h : s.Ordered rank) (hon : s.on t = some c)
    (htodo : (s.frame (.inr c)).todo = .switch :: k) :
    ({ s.setTodo (.inr c) k with
      on := Function.update s.on t none, seated := Function.update s.seated c false } :
      State L ι κ).Ordered rank := by
  obtain ⟨hheld, hk⟩ := h.held_of_switch htodo
  refine h.setTodo hk ?_ ?_ (h.seats.rise hon)
  · intro u c' hu
    by_cases hut : u = t
    · subst hut
      simp at hu
    · rw [Function.update_of_ne hut] at hu
      exact h.away u c' hu
  · intro c' hc'
    by_cases hcc : c' = c
    · subst hcc
      exact hheld
    · rw [Function.update_of_ne hcc] at hc'
      exact h.left c' hc'

theorem Ordered.begin {i : ι ⊕ κ} {code : LockCode L} (h : s.Ordered rank)
    (hidle : (s.frame i).todo = []) (hcode : code.Takes rank [] []) :
    (s.setTodo i [code]).Ordered rank := by
  have hheld : (s.frame i).held = [] := by
    have hi := h.frame i
    unfold Frame.Ordered at hi
    rw [hidle] at hi
    exact hi
  apply h.setTodo ?_ h.away h.left h.seats
  rw [hheld]
  exact hcode.wp rfl

end State

/-! ## Steps and runs -/

section Steps

variable [DecidableEq ι] [DecidableEq κ] {s s' : State L ι κ} {t : ι} {c : κ}
  {inside : α → LockCode L} {outside : β → LockCode L} {e : Event ι κ α β}

theorem step_cases (hs : step inside outside s e = some s') :
    (∃ t n f flag', (s.frame (s.active t)).step s.flag n = some (f, flag') ∧
      s' = { s with frame := Function.update s.frame (s.active t) f, flag := flag' }) ∨
    (∃ t c k, s.on t = none ∧ s.seated c = false ∧
      (s.frame (.inl t)).todo = .switch :: k ∧
      s' = { s.setTodo (.inl t) k with
        on := Function.update s.on t (some c), seated := Function.update s.seated c true }) ∨
    (∃ t c k, s.on t = some c ∧ (s.frame (.inr c)).todo = .switch :: k ∧
      s' = { s.setTodo (.inr c) k with
        on := Function.update s.on t none, seated := Function.update s.seated c false }) ∨
    ∃ i code, (s.frame i).todo = [] ∧ ((∃ a, code = inside a) ∨ ∃ b, code = outside b) ∧
      s' = s.setTodo i [code] := by
  cases e with
  | step t n =>
      obtain ⟨⟨f, flag'⟩, hf, rfl⟩ := Option.map_eq_some_iff.mp hs
      exact .inl ⟨t, n, f, flag', hf, rfl⟩
  | swapIn t c =>
      unfold step at hs
      simp only at hs
      split at hs
      · rename_i k hon hseat htodo
        cases hs
        exact .inr (.inl ⟨t, c, k, hon, hseat, htodo, rfl⟩)
      · cases hs
  | swapOut t =>
      unfold step at hs
      simp only at hs
      split at hs
      · cases hs
      · rename_i c hon
        split at hs
        · rename_i k htodo
          cases hs
          exact .inr (.inr (.inl ⟨t, c, k, hon, htodo, rfl⟩))
        · cases hs
  | call t a =>
      unfold step at hs
      simp only at hs
      split at hs
      · cases hs
      · rename_i c hon
        split at hs
        · rename_i htodo
          cases hs
          exact .inr (.inr (.inr ⟨.inr c, inside a, htodo, .inl ⟨a, rfl⟩, rfl⟩))
        · cases hs
  | start t b =>
      unfold step at hs
      simp only at hs
      split at hs
      · rename_i htodo
        cases hs
        exact .inr (.inr (.inr ⟨.inl t, outside b, htodo.2, .inr ⟨b, rfl⟩, rfl⟩))
      · cases hs

variable (hin : ∀ a, (inside a).Takes rank [] []) (hout : ∀ b, (outside b).Takes rank [] [])

include hin hout

theorem State.Ordered.step (h : s.Ordered rank) (hs : LockMachine.step inside outside s e = some s') :
    s'.Ordered rank := by
  rcases step_cases hs with ⟨t, n, f, flag', hf, rfl⟩ | ⟨t, c, k, hon, hseat, htodo, rfl⟩ |
    ⟨t, c, k, hon, htodo, rfl⟩ | ⟨i, code, hidle, hcode, rfl⟩
  · exact h.stepFrame hf
  · exact h.swapIn hon hseat htodo
  · exact h.swapOut hon htodo
  · apply h.begin hidle
    rcases hcode with ⟨a, rfl⟩ | ⟨b, rfl⟩
    · exact hin a
    · exact hout b

theorem ordered_of_reach
    (h : Machine.Reach (LockMachine.step inside outside) Machine.Free (State.make : State L ι κ) s) :
    s.Ordered rank :=
  h.invariant State.ordered_make fun _ _ _ ho _ hs => ho.step hin hout hs

end Steps

/-! ## Deadlocks -/

namespace State

variable {s : State L ι κ} {t : ι} {c : κ}

/-- What a thread holds, the code that it runs holds. -/
theorem Ordered.active_holds (h : s.Ordered rank) (hhold : s.Holds t l) :
    l ∈ (s.frame (s.active t)).held := by
  rcases hhold with hown | ⟨c, hon, hcoroutine⟩
  · cases hon : s.on t with
    | none =>
        rw [active_of_none hon]
        exact hown
    | some c =>
        rw [h.away t c hon] at hown
        cases hown
  · rw [active_of_some hon]
    exact hcoroutine

/-- The lock a thread waits for is above every lock it holds. -/
theorem Ordered.rank_lt (h : s.Ordered rank) (hwait : s.Waits t m) (hhold : s.Holds t l) :
    rank l < rank m := by
  obtain ⟨k, htodo⟩ := hwait
  have hactive := h.frame (s.active t)
  unfold Frame.Ordered at hactive
  rw [htodo] at hactive
  exact hactive.1 l (h.active_holds hhold)

theorem Ordered.not_holds (h : s.Ordered rank) (hswitch : s.SwitchesOut t c) : ¬ s.Holds t l := by
  obtain ⟨hon, k, htodo⟩ := hswitch
  intro hhold
  have hheld := h.active_holds hhold
  rw [active_of_some hon, (h.held_of_switch htodo).1] at hheld
  cases hheld

theorem Ordered.holder (h : s.Ordered rank) (hflag : s.flag l = true) : ∃ t, s.Holds t l := by
  obtain ⟨i, hi⟩ := (h.owned.flag_iff l).mp hflag
  cases i with
  | inl t => exact ⟨t, .inl hi⟩
  | inr c =>
      have hseat : s.seated c = true := by
        by_contra hleft
        rw [Bool.not_eq_true] at hleft
        rw [h.left c hleft] at hi
        cases hi
      obtain ⟨t, hon⟩ := (h.seats.seated_iff c).mp hseat
      exact ⟨t, .inr ⟨c, hon, hi⟩⟩

variable [WellFoundedGT ρ]

/-- No set of threads wait for one another. -/
theorem Ordered.not_deadlocked (h : s.Ordered rank) (T : Set ι) : ¬ s.Deadlocked T := by
  rintro ⟨⟨t₀, ht₀⟩, hwaits⟩
  let W : Set ρ := { r | ∃ l, rank l = r ∧ ∃ u ∈ T, s.Holds u l }
  have hne : W.Nonempty := by
    obtain ⟨l, -, hholder⟩ := hwaits t₀ ht₀
    exact ⟨rank l, l, rfl, hholder⟩
  -- the holder of a lock of the highest rank waits for one above it
  obtain ⟨_, ⟨l, rfl, u, hu, hhold⟩, hmax⟩ := wellFounded_gt.has_min W hne
  obtain ⟨m, hwait, hholder⟩ := hwaits u hu
  exact hmax (rank m) ⟨m, rfl, hholder⟩ (h.rank_lt hwait hhold)

/-- As long as a lock is taken, a thread that holds one can go on. -/
theorem Ordered.progress [DecidableEq ι] [DecidableEq κ] (h : s.Ordered rank)
    (inside : α → LockCode L) (outside : β → LockCode L) (hflag : s.flag l = true) :
    ∃ t, (∃ m, s.Holds t m) ∧
      ∃ s', LockMachine.step inside outside s (.step t 0) = some s' := by
  let W : Set ρ := { r | ∃ m, rank m = r ∧ s.flag m = true }
  obtain ⟨_, ⟨m, rfl, hm⟩, hmax⟩ := wellFounded_gt.has_min W ⟨rank l, l, rfl, hflag⟩
  obtain ⟨t, hhold⟩ := h.holder hm
  have hfree : ∀ m', s.Waits t m' → s.flag m' = false := by
    intro m' hwait
    by_contra hset
    rw [Bool.not_eq_false] at hset
    exact hmax (rank m') ⟨m', rfl, hset⟩ (h.rank_lt hwait hhold)
  have hheld := List.ne_nil_of_mem (h.active_holds hhold)
  obtain ⟨r, hr⟩ := (h.frame (s.active t)).exists_step hheld fun m' k htodo =>
    hfree m' ⟨k, htodo⟩
  refine ⟨t, ⟨m, hhold⟩, ?_⟩
  unfold LockMachine.step
  simp only [hr]
  exact ⟨_, rfl⟩

end State

end CppGo.Lib.LockMachine
