import CppGo.Lib.Machine
import CppGo.Timer.PassSections

/-!
# A pass of `WakeupTimers`

What one pass does with the elements of the map, from its start to its end, when timers
are created in the callbacks.  A timer that is put before the element whose callback runs
is behind the iterator of the pass, and the final range erase removes it.
-/

namespace CppGo.Timers

open CppGo.Lib CppGo.Lib.Machine

/-- A pass, with what is observed of it.  The lists of elements are read by proofs only:
those that it has fired or woken, those created since its start, and those that its final
range erase has removed. -/
structure PassRun where
  manager : TimerManager
  history : List Observation
  served : List (Node Int TimerElement)
  created : List (Node Int TimerElement)
  removed : List (Node Int TimerElement)

inductive PassEvent
  /-- `CreateMilliTimer`, in a callback or on another thread -/
  | create (timepoint : Int) (timer_call_back_ : Nat)
  /-- the callback returns and `WakeupTimers` goes on -/
  | callbackReturn
deriving DecidableEq, Repr

namespace PassRun

def ran (r : PassRun) (now : Int) (l : List (Node Int TimerElement))
    (res : TimerManager × List Observation) : PassRun :=
  { r with
    manager := res.1
    history := r.history ++ res.2
    served := r.served ++ Timers.served now l
    removed := r.removed ++
      r.manager.timer_map_.nodes.filter fun n => !res.1.timer_map_.contains n.id }

def make (m : TimerManager) : PassRun :=
  { manager := m, history := [], served := [], created := [], removed := [] }

/-- `WakeupTimers` up to its first callback. -/
def start (m : TimerManager) (now : Int) : PassRun :=
  (make m).ran now m.timer_map_.nodes (m.wakeupTimers now)

def step (r : PassRun) : PassEvent → Option PassRun
  | .create timepoint timer =>
      match r.manager.pass with
      | none => none
      | some _ =>
          some { r with
            manager := r.manager.insert timepoint (.timerTimeout timer)
            created := r.created ++ [⟨r.manager.timer_map_.nextId, timepoint, .timerTimeout timer⟩] }
  | .callbackReturn =>
      match r.manager.pass with
      | none => none
      | some pass =>
          if r.manager.timer_map_.contains pass.it then
            some (r.ran pass.now (r.manager.timer_map_.after pass.it)
              (r.manager.loop pass.now (r.manager.timer_map_.after pass.it)))
          else none

/-- A timer created in a callback is not due before the element whose callback runs. -/
def Timely (r : PassRun) : PassEvent → Prop
  | .create timepoint _ =>
      ∀ pass ∈ r.manager.pass, ∀ n ∈ r.manager.timer_map_.nodes, n.id = pass.it → n.key ≤ timepoint
  | .callbackReturn => True

instance (r : PassRun) : ∀ a, Decidable (r.Timely a)
  | .create timepoint _ => inferInstanceAs (Decidable (∀ pass ∈ r.manager.pass,
      ∀ n ∈ r.manager.timer_map_.nodes, n.id = pass.it → n.key ≤ timepoint))
  | .callbackReturn => .isTrue trivial

end PassRun

/-- What a pass over the elements of `m` promises at its end. -/
structure PassContract (m : TimerManager) (now : Int) (r : PassRun) : Prop where
  history : r.history = r.served.map shownBy
  /-- the elements that are due at the start, each once, in the order of the map -/
  due : r.served.filter (fun n => n.id < m.timer_map_.nextId) =
    m.timer_map_.nodes.filter (fun n => n.key ≤ now)
  ordered : r.served.Pairwise Node.Before
  removed : ∀ n ∈ r.removed, n ∈ r.served
  created : ∀ n ∈ r.created, n ∈ r.served ∨ n ∈ r.manager.timer_map_.nodes

namespace PassRun

variable {m : TimerManager} {now : Int} {r : PassRun} {front l : List (Node Int TimerElement)}
  {n : Node Int TimerElement}

structure At (m : TimerManager) (now : Int) (r : PassRun)
    (front l : List (Node Int TimerElement)) : Prop where
  nodes : r.manager.timer_map_.nodes = front ++ l
  old : m.timer_map_.nextId ≤ r.manager.timer_map_.nextId
  history : r.history = r.served.map shownBy
  sublist : r.served.Sublist front
  due : r.served.filter (fun n => n.id < m.timer_map_.nextId) ++
    l.filter (fun n => decide (n.id < m.timer_map_.nextId) && decide (n.key ≤ now)) =
      m.timer_map_.nodes.filter (fun n => n.key ≤ now)
  removed : r.removed = []
  created : ∀ n ∈ r.created, n ∈ r.manager.timer_map_.nodes

structure Calling (m : TimerManager) (now : Int) (r : PassRun)
    (front : List (Node Int TimerElement)) (n : Node Int TimerElement)
    (l : List (Node Int TimerElement)) : Prop extends At m now r (front ++ [n]) l where
  pass : r.manager.pass = some { now := now, it := n.id }
  running : n ∈ r.served

structure Over (m : TimerManager) (now : Int) (r : PassRun) : Prop where
  pass : r.manager.pass = none
  history : r.history = r.served.map shownBy
  due : r.served.filter (fun n => n.id < m.timer_map_.nextId) =
    m.timer_map_.nodes.filter (fun n => n.key ≤ now)
  ordered : r.served.Pairwise Node.Before
  created : ∀ n ∈ r.created, n ∈ r.removed ∨ n ∈ r.manager.timer_map_.nodes

/-- No element is left behind: those up to the iterator, or the removed ones, are served. -/
def Kept (r : PassRun) : Prop :=
  match r.manager.pass with
  | some pass => ∀ n ∈ r.manager.timer_map_.nodes,
      n ∉ r.manager.timer_map_.after pass.it → n ∈ r.served
  | none => ∀ n ∈ r.removed, n ∈ r.served

theorem nodup_split (h : r.manager.timer_map_.nodes = front ++ l) {a b : Node Int TimerElement}
    (ha : a ∈ front) (hb : b ∈ l) : a.id ≠ b.id := by
  have hnodup := r.manager.timer_map_.nodup
  rw [h, List.map_append, List.nodup_append] at hnodup
  exact hnodup.2.2 a.id (List.mem_map_of_mem ha) b.id (List.mem_map_of_mem hb)

theorem after_eq (h : r.manager.timer_map_.nodes = (front ++ [n]) ++ l) :
    r.manager.timer_map_.after n.id = l := by
  rw [List.append_assoc] at h
  rw [Multimap.after, Multimap.starting_of_split h]
  rfl

theorem kept_iff (h : r.manager.timer_map_.nodes = (front ++ [n]) ++ l)
    (hpass : r.manager.pass = some { now := now, it := n.id }) :
    r.Kept ↔ ∀ k ∈ front ++ [n], k ∈ r.served := by
  rw [Kept, hpass]
  simp only [after_eq h, h]
  constructor
  · intro hkept k hk
    apply hkept k (List.mem_append_left _ hk)
    intro hkl
    exact nodup_split h hk hkl rfl
  · intro hserved k hk hkl
    exact hserved k ((List.mem_append.mp hk).resolve_right hkl)

theorem filter_old {p : Node Int TimerElement → Bool} {pre : List (Node Int TimerElement)}
    (hpre : ∀ k ∈ pre, k.key ≤ now) :
    pre.filter (fun n => p n && decide (n.key ≤ now)) = pre.filter p := by
  apply List.filter_congr
  intro k hk
  simp [hpre k hk]

theorem filter_late {p : Node Int TimerElement → Bool} (hlate : ∀ k ∈ l, now < k.key) :
    l.filter (fun n => p n && decide (n.key ≤ now)) = [] := by
  rw [List.filter_eq_nil_iff]
  intro k hk
  have := hlate k hk
  simp
  omega

theorem At.serve {pre post : List (Node Int TimerElement)} (h : At m now r front (pre ++ post))
    (hdue : ∀ k ∈ pre, k.key ≤ now) :
    (r.served ++ pre).Sublist (front ++ pre) ∧
      (r.served ++ pre).filter (fun n => n.id < m.timer_map_.nextId) ++
        post.filter (fun n => decide (n.id < m.timer_map_.nextId) && decide (n.key ≤ now)) =
          m.timer_map_.nodes.filter (fun n => n.key ≤ now) := by
  constructor
  · exact h.sublist.append (.refl pre)
  · rw [← h.due, List.filter_append, List.filter_append, filter_old hdue, List.append_assoc]

theorem At.mem_served {pre post : List (Node Int TimerElement)}
    (h : At m now r front (pre ++ post)) {k : Node Int TimerElement} (hk : k ∈ front)
    (hmem : k ∈ r.served ++ pre) : k ∈ r.served := by
  rcases List.mem_append.mp hmem with hmem | hmem
  · exact hmem
  · exact absurd rfl (nodup_split h.nodes hk (List.mem_append_left _ hmem))

theorem At.calling {pre post : List (Node Int TimerElement)}
    (h : At m now r front ((pre ++ [n]) ++ post)) (hdue : ∀ k ∈ pre ++ [n], k.key ≤ now)
    (hserved : Timers.served now l = pre ++ [n]) :
    Calling m now
      (r.ran now l ({ r.manager with pass := some { now := now, it := n.id } },
        (pre ++ [n]).map shownBy)) (front ++ pre) n post := by
  obtain ⟨hsublist, hfilter⟩ := h.serve hdue
  constructor
  · constructor
    case nodes =>
      show r.manager.timer_map_.nodes = _
      rw [h.nodes]
      simp
    case old => exact h.old
    case history =>
      show r.history ++ _ = (r.served ++ Timers.served now l).map shownBy
      rw [h.history, hserved, ← List.map_append]
    case sublist =>
      show (r.served ++ Timers.served now l).Sublist _
      rw [hserved, List.append_assoc]
      exact hsublist
    case due =>
      show (r.served ++ Timers.served now l).filter _ ++ _ = _
      rw [hserved]
      exact hfilter
    case removed =>
      show r.removed ++ _ = []
      rw [h.removed, List.nil_append, List.filter_eq_nil_iff]
      intro k hk
      simpa using Multimap.contains_iff.mpr ⟨k, hk, rfl⟩
    case created => exact h.created
  · rfl
  · show n ∈ r.served ++ Timers.served now l
    rw [hserved]
    simp

theorem removed_eq {timer_map_ : Multimap Int TimerElement}
    (h : r.manager.timer_map_.nodes = front ++ l) (hnodes : timer_map_.nodes = l) :
    r.manager.timer_map_.nodes.filter (fun n => !timer_map_.contains n.id) = front := by
  rw [h, List.filter_append, List.filter_eq_self.mpr, List.filter_eq_nil_iff.mpr, List.append_nil]
  · intro k hk
    simpa using Multimap.contains_iff.mpr ⟨k, hnodes ▸ hk, rfl⟩
  · intro k hk
    rw [Bool.not_eq_true', Bool.eq_false_iff]
    intro hcontains
    obtain ⟨j, hj, hid⟩ := Multimap.contains_iff.mp hcontains
    exact nodup_split h hk (hnodes ▸ hj) hid.symm

theorem At.ran (h : At m now r front l) :
    ((∃ front' n l', Calling m now (r.ran now l (r.manager.loop now l)) front' n l') ∨
      Over m now (r.ran now l (r.manager.loop now l))) ∧
    ((r.ran now l (r.manager.loop now l)).Kept ↔ ∀ k ∈ front, k ∈ r.served) := by
  have hserves : TimerManager.Serves r.manager now front l (r.manager.loop now l) :=
    TimerManager.serves_loop h.nodes
  generalize r.manager.loop now l = res at hserves
  cases hserves with
  | callback hl hdue hserved hvalue =>
      rename_i pre post n timer
      have hl' : l = (pre ++ [n]) ++ post := by rw [hl]; simp
      rw [hl'] at h
      have hcalling := h.calling hdue hserved
      refine ⟨.inl ⟨_, _, _, hcalling⟩, ?_⟩
      rw [kept_iff hcalling.nodes hcalling.pass]
      show (∀ k ∈ (front ++ pre) ++ [n], k ∈ r.served ++ Timers.served now l) ↔ _
      rw [hserved, List.append_assoc]
      constructor
      · intro hkept k hk
        exact h.mem_served hk (hkept k (List.mem_append_left _ hk))
      · intro hkept k hk
        rcases List.mem_append.mp hk with hk | hk
        · exact List.mem_append_left _ (hkept k hk)
        · exact List.mem_append_right _ hk
  | finished hl hpre hpost hserved hnodes hnext =>
      rename_i pre post timer_map_
      rw [hl] at h
      obtain ⟨hsublist, hfilter⟩ := h.serve hpre
      have hold : r.manager.timer_map_.nodes = (front ++ pre) ++ post := by
        rw [h.nodes, List.append_assoc]
      have hremoved : (r.ran now l ({ timer_map_ := timer_map_, pass := none },
          pre.map shownBy)).removed = front ++ pre := by
        show r.removed ++ _ = _
        rw [h.removed, List.nil_append, removed_eq hold hnodes]
      refine ⟨.inr ?_, ?_⟩
      · constructor
        case pass => rfl
        case history =>
          show r.history ++ _ = (r.served ++ Timers.served now l).map shownBy
          rw [h.history, hserved, ← List.map_append]
        case due =>
          show (r.served ++ Timers.served now l).filter _ = _
          rw [hserved, ← hfilter, filter_late hpost, List.append_nil]
        case ordered =>
          show (r.served ++ Timers.served now l).Pairwise _
          rw [hserved]
          have hsorted := r.manager.timer_map_.sorted
          rw [hold] at hsorted
          exact (List.pairwise_append.mp hsorted).1.sublist hsublist
        case created =>
          intro k hk
          rw [hremoved]
          have hmem := h.created k hk
          rw [hold, List.mem_append] at hmem
          rw [show (r.ran now l ({ timer_map_ := timer_map_, pass := none },
            pre.map shownBy)).manager.timer_map_.nodes = post from hnodes]
          exact hmem
      · show (∀ k ∈ (r.ran now l ({ timer_map_ := timer_map_, pass := none },
          pre.map shownBy)).removed, k ∈ r.served ++ Timers.served now l) ↔ _
        rw [hremoved, hserved]
        constructor
        · intro hkept k hk
          exact h.mem_served hk (hkept k (List.mem_append_left _ hk))
        · intro hkept k hk
          rcases List.mem_append.mp hk with hk | hk
          · exact List.mem_append_left _ (hkept k hk)
          · exact List.mem_append_right _ hk

theorem Calling.create (h : Calling m now r front n l) (timepoint : Int) (timer : Nat)
    {t : PassRun} (ht : r.step (.create timepoint timer) = some t) :
    (∃ front' l', Calling m now t front' n l') ∧ (t.Kept ↔ r.Kept ∧ n.key ≤ timepoint) := by
  generalize hnew : (⟨r.manager.timer_map_.nextId, timepoint, .timerTimeout timer⟩ :
    Node Int TimerElement) = new
  have hnewId : new.id = r.manager.timer_map_.nextId := by rw [← hnew]
  have hnewKey : new.key = timepoint := by rw [← hnew]
  simp only [step, h.pass, Option.some.injEq] at ht
  have hinsert : t.manager.timer_map_.nodes = Multimap.insertNode new r.manager.timer_map_.nodes := by
    rw [← ht, ← hnew]
    rfl
  have hfresh : ∀ k ∈ r.manager.timer_map_.nodes, k.id < new.id := by
    rw [hnewId]
    exact r.manager.timer_map_.fresh
  have hserved : t.served = r.served := by rw [← ht]
  have hcalling : ∀ front' l', t.manager.timer_map_.nodes = (front' ++ [n]) ++ l' →
      front.Sublist front' →
      l'.filter (fun n => decide (n.id < m.timer_map_.nextId) && decide (n.key ≤ now)) =
        l.filter (fun n => decide (n.id < m.timer_map_.nextId) && decide (n.key ≤ now)) →
      Calling m now t front' n l' := by
    intro front' l' hnodes hsub hfilter
    constructor
    · constructor
      case nodes => exact hnodes
      case old =>
        have hold := h.old
        rw [← ht]
        show _ ≤ r.manager.timer_map_.nextId + 1
        omega
      case history =>
        rw [← ht]
        exact h.history
      case sublist =>
        rw [hserved]
        exact h.sublist.trans (hsub.append (.refl [n]))
      case due =>
        rw [hserved, hfilter]
        exact h.due
      case removed =>
        rw [← ht]
        exact h.removed
      case created =>
        intro k hk
        rw [hinsert, Multimap.mem_insertNode]
        rw [← ht, List.mem_append, List.mem_singleton, hnew] at hk
        exact hk.symm.imp_right (h.created k)
    · rw [← ht]
      exact h.pass
    · rw [hserved]
      exact h.running
  by_cases hlt : timepoint < n.key
  · -- the timer is put behind the iterator
    have hnodes : t.manager.timer_map_.nodes = (Multimap.insertNode new front ++ [n]) ++ l := by
      rw [hinsert, h.nodes, List.append_assoc, List.singleton_append,
        Multimap.insertNode_append_of_lt (by rw [hnewKey]; exact hlt)]
      simp
    have hcall := hcalling _ _ hnodes Multimap.sublist_insertNode rfl
    refine ⟨⟨_, _, hcall⟩, ?_⟩
    rw [kept_iff hcall.nodes hcall.pass, hserved]
    apply iff_of_false
    · intro hkept
      have hmem := hkept new (List.mem_append_left _ (Multimap.mem_insertNode.mpr (.inl rfl)))
      have hin : new ∈ r.manager.timer_map_.nodes := by
        rw [h.nodes]
        exact List.mem_append_left _ (h.sublist.subset hmem)
      have := hfresh new hin
      omega
    · rintro ⟨-, hle⟩
      omega
  · have hsorted := r.manager.timer_map_.sorted
    rw [h.nodes] at hsorted
    have hfront : ∀ k ∈ front ++ [n], k.key ≤ new.key := by
      intro k hk
      have hkn : k.key ≤ n.key := by
        rcases List.mem_append.mp hk with hk | hk
        · have hpair := (List.pairwise_append.mp hsorted).1
          exact Node.Before.key_le ((List.pairwise_append.mp hpair).2.2 k hk n (by simp))
        · rw [List.mem_singleton.mp hk]
      omega
    have hnodes : t.manager.timer_map_.nodes = (front ++ [n]) ++ Multimap.insertNode new l := by
      rw [hinsert, h.nodes, Multimap.insertNode_append_of_le hfront]
    have hold := h.old
    have hcall := hcalling _ _ hnodes (.refl front)
      (Multimap.filter_insertNode (by simp; omega))
    refine ⟨⟨_, _, hcall⟩, ?_⟩
    rw [kept_iff hcall.nodes hcall.pass, kept_iff h.nodes h.pass, hserved]
    exact (and_iff_left (not_lt.mp hlt)).symm

theorem Calling.callbackReturn (h : Calling m now r front n l) {t : PassRun}
    (ht : r.step .callbackReturn = some t) :
    ((∃ front' n' l', Calling m now t front' n' l') ∨ Over m now t) ∧ (t.Kept ↔ r.Kept) := by
  simp only [step, h.pass, after_eq h.nodes, Option.ite_none_right_eq_some,
    Option.some.injEq] at ht
  obtain ⟨-, rfl⟩ := ht
  rw [kept_iff h.nodes h.pass]
  exact h.toAt.ran

def Proper (m : TimerManager) (now : Int) (r : PassRun) : Prop :=
  (∃ front n l, Calling m now r front n l) ∨ Over m now r

theorem Over.step (h : Over m now r) (a : PassEvent) : r.step a = none := by
  cases a with
  | create | callbackReturn => simp only [PassRun.step, h.pass]

theorem Proper.step (h : Proper m now r) {a : PassEvent} {t : PassRun} (ht : r.step a = some t) :
    Proper m now t ∧ (t.Kept ↔ r.Kept ∧ r.Timely a) := by
  rcases h with ⟨front, n, l, h⟩ | h
  · cases a with
    | create timepoint timer =>
        obtain ⟨⟨front', l', hcall⟩, hkept⟩ := h.create timepoint timer ht
        refine ⟨.inl ⟨_, _, _, hcall⟩, hkept.trans (and_congr_right fun _ => ?_)⟩
        have hn : n ∈ r.manager.timer_map_.nodes := by
          rw [h.nodes]
          simp
        simp only [Timely, h.pass, Option.mem_some_iff, forall_eq']
        constructor
        · intro hle k hk hid
          rw [Multimap.eq_of_id hk hn hid]
          exact hle
        · intro hall
          exact hall n hn rfl
    | callbackReturn =>
        obtain ⟨hproper, hkept⟩ := h.callbackReturn ht
        exact ⟨hproper, hkept.trans (and_iff_left trivial).symm⟩
  · rw [h.step] at ht
    cases ht

/-- A pass that has not come to its end is in a callback, and the callback can return. -/
theorem Proper.callbackReturn_isSome (h : Proper m now r) (hpass : r.manager.pass ≠ none) :
    (r.step .callbackReturn).isSome = true := by
  rcases h with ⟨front, n, l, h⟩ | h
  · have hn : n ∈ r.manager.timer_map_.nodes := by
      rw [h.nodes]
      simp
    have hcontains : r.manager.timer_map_.contains n.id = true :=
      Multimap.contains_iff.mpr ⟨n, hn, rfl⟩
    simp only [PassRun.step, h.pass, hcontains, if_true, Option.isSome_some]
  · exact absurd h.pass hpass

theorem proper_start (hpass : m.pass = none) (now : Int) :
    Proper m now (start m now) ∧ (start m now).Kept := by
  have hat : At m now (make m) [] m.timer_map_.nodes := by
    constructor
    case nodes => rfl
    case old => exact le_rfl
    case history => rfl
    case sublist => exact .slnil
    case due =>
      apply List.filter_congr
      intro k hk
      simp [m.timer_map_.fresh k hk]
    case removed => rfl
    case created => simp [make]
  unfold start
  rw [TimerManager.wakeupTimers_eq_loop hpass]
  exact ⟨hat.ran.1, hat.ran.2.mpr (by simp)⟩

theorem Over.contract_iff (h : Over m now r) : PassContract m now r ↔ r.Kept := by
  have hkept : r.Kept ↔ ∀ n ∈ r.removed, n ∈ r.served := by rw [Kept, h.pass]
  rw [hkept]
  constructor
  · exact PassContract.removed
  · intro hremoved
    refine ⟨h.history, h.due, h.ordered, hremoved, ?_⟩
    intro n hn
    exact (h.created n hn).imp_left (hremoved n)

end PassRun

/-- A pass of `WakeupTimers` keeps its promises exactly if no timer is created, while a
callback runs, with a deadline before that of the element whose callback it is. -/
theorem wakeupTimers_contract_iff {m : TimerManager} (hpass : m.pass = none) (now : Int)
    {events : List PassEvent} {r : PassRun}
    (hrun : run PassRun.step Free (PassRun.start m now) events = some r)
    (hend : r.manager.pass = none) :
    PassContract m now r ↔ run PassRun.step PassRun.Timely (PassRun.start m now) events = some r := by
  obtain ⟨hproper, hkept⟩ := PassRun.proper_start hpass now
  have hiff : r.Kept ↔ (PassRun.start m now).Kept ∧
      run PassRun.step PassRun.Timely (PassRun.start m now) events = some r :=
    run_iff_of (fun _ _ _ h ht => (h.step ht).1) (fun _ _ _ h ht => (h.step ht).2) hproper hrun
  have hover : PassRun.Over m now r := by
    have hinv := (reach_of_run events hrun).invariant hproper fun _ _ _ h _ ht => (h.step ht).1
    rcases hinv with ⟨front, n, l, hcall⟩ | hover
    · rw [hcall.pass] at hend
      cases hend
    · exact hover
  rw [hover.contract_iff, hiff, and_iff_right hkept]

/-- A timer, a sleeper and a timer that is not due. -/
def threeElements : TimerManager :=
  ((TimerManager.make.insert 5 (.timerTimeout 0)).insert 6 (.taskTimeout 3)).insert 20
    (.timerTimeout 1)

theorem wakeupTimers_contract_threeElements :
    ∃ r, run PassRun.step PassRun.Timely (PassRun.start threeElements 10)
        [.create 8 2, .callbackReturn, .callbackReturn] = some r ∧
      r.history = [.fired 0, .woke 3, .fired 2] ∧ PassContract threeElements 10 r :=
  ⟨_, rfl, rfl, (wakeupTimers_contract_iff rfl 10
    (show run PassRun.step Free (PassRun.start threeElements 10)
      [.create 8 2, .callbackReturn, .callbackReturn] = some _ from rfl) rfl).mpr rfl⟩

/-- In the callback of a timer with the deadline 7 another one is created with the deadline 5:
it is removed, and has not been fired. -/
theorem created_behind_is_lost :
    let m := TimerManager.make.insert 7 (.timerTimeout 0)
    ∃ r, run PassRun.step Free (PassRun.start m 10) [.create 5 1, .callbackReturn] = some r ∧
      r.manager.pass = none ∧ r.history = [.fired 0] ∧ r.manager.timer_map_.nodes = [] ∧
      ¬ PassContract m 10 r := by
  refine ⟨_, rfl, rfl, rfl, rfl, ?_⟩
  intro h
  have hlost := h.created ⟨1, 5, .timerTimeout 1⟩ (List.mem_singleton.mpr rfl)
  rcases hlost with hserved | hleft
  · have hid := congrArg Node.id (List.mem_singleton.mp hserved)
    cases hid
  · cases hleft

end CppGo.Timers
