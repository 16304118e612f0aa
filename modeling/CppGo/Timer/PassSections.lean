import CppGo.Timer.TimerManager

/-!
# The sections of a pass

What one section of `WakeupTimers` does with the elements ahead of it: it serves those that
are due, up to the first timer, and leaves the others.
-/

namespace CppGo.Timers

open CppGo.Lib

def shownBy (n : Node Int TimerElement) : Observation :=
  match n.value with
  | .timerTimeout timer => .fired timer
  | .taskTimeout task => .woke task

/-- The elements that one section of the loop fires or wakes. -/
def served (now : Int) : List (Node Int TimerElement) → List (Node Int TimerElement)
  | [] => []
  | n :: rest =>
      if n.key > now then []
      else match n.value with
        | .timerTimeout _ => [n]
        | .taskTimeout _ => n :: served now rest

/-- The section stops at the first timer that is due, or at the first element that is
not. -/
inductive Stops (now : Int) (l : List (Node Int TimerElement)) : List Nat × LoopExit → Prop
  | callback (pre : List (Node Int TimerElement)) {post : List (Node Int TimerElement)}
      {n : Node Int TimerElement} {tasks : List Nat} {timer : Nat} (hl : l = pre ++ n :: post)
      (hpre : ∀ k ∈ pre, k.key ≤ now) (hn : n.key ≤ now) (hserved : served now l = pre ++ [n])
      (hvalue : n.value = .timerTimeout timer) (htasks : tasks.map .woke = pre.map shownBy) :
      Stops now l (tasks, .callback n.id timer)
  | finished (pre post : List (Node Int TimerElement)) {tasks : List Nat} (hl : l = pre ++ post)
      (hpre : ∀ k ∈ pre, k.key ≤ now) (hpost : ∀ k ∈ post.head?, now < k.key)
      (hserved : served now l = pre) (htasks : tasks.map .woke = pre.map shownBy) :
      Stops now l (tasks, .finished (post.head?.map Node.id))

theorem stops_scan (now : Int) (l : List (Node Int TimerElement)) : Stops now l (scan now l) := by
  induction l with
  | nil => exact Stops.finished [] [] rfl (by simp) (by simp) rfl rfl
  | cons n l ih =>
      rw [scan]
      split
      · rename_i hlate
        exact Stops.finished [] (n :: l) rfl (by simp) (by simpa using hlate)
          (by rw [served, if_pos hlate]) rfl
      · rename_i hdue
        have hn : n.key ≤ now := not_lt.mp hdue
        cases hvalue : n.value with
        | timerTimeout timer =>
            simp only
            exact Stops.callback [] rfl (by simp) hn
              (by rw [served, if_neg hdue, hvalue]; rfl) hvalue rfl
        | taskTimeout task =>
            have hserved : served now (n :: l) = n :: served now l := by
              rw [served, if_neg hdue, hvalue]
            have hshown : shownBy n = .woke task := by rw [shownBy, hvalue]
            simp only
            generalize scan now l = r at ih
            cases ih with
            | callback pre hl hpre hk hserved' hvalue' htasks =>
                rename_i post k tasks timer
                refine Stops.callback (n :: pre) (by rw [hl]; rfl) ?_ hk
                  (by rw [hserved, hserved']; rfl) hvalue' (by simp [htasks, hshown])
                intro j hj
                rcases List.mem_cons.mp hj with rfl | hj
                · exact hn
                · exact hpre j hj
            | finished pre post hl hpre hpost hserved' htasks =>
                rename_i tasks
                refine Stops.finished (n :: pre) post (by rw [hl]; rfl) ?_ hpost
                  (by rw [hserved, hserved']) (by simp [htasks, hshown])
                intro j hj
                rcases List.mem_cons.mp hj with rfl | hj
                · exact hn
                · exact hpre j hj

namespace TimerManager

variable {m : TimerManager} {now : Int} {front l : List (Node Int TimerElement)}

inductive Serves (m : TimerManager) (now : Int) (front l : List (Node Int TimerElement)) :
    TimerManager × List Observation → Prop
  | callback {pre post : List (Node Int TimerElement)} {n : Node Int TimerElement} {timer : Nat}
      (hl : l = pre ++ n :: post) (hdue : ∀ k ∈ pre ++ [n], k.key ≤ now)
      (hserved : served now l = pre ++ [n]) (hvalue : n.value = .timerTimeout timer) :
      Serves m now front l
        ({ m with pass := some { now := now, it := n.id } }, (pre ++ [n]).map shownBy)
  | finished {pre post : List (Node Int TimerElement)} {timer_map_ : Multimap Int TimerElement}
      (hl : l = pre ++ post) (hpre : ∀ k ∈ pre, k.key ≤ now) (hpost : ∀ k ∈ post, now < k.key)
      (hserved : served now l = pre) (hnodes : timer_map_.nodes = post)
      (hnext : timer_map_.nextId = m.timer_map_.nextId) :
      Serves m now front l ({ timer_map_ := timer_map_, pass := none }, pre.map shownBy)

theorem serves_loop (hnodes : m.timer_map_.nodes = front ++ l) :
    Serves m now front l (m.loop now l) := by
  have hstops := stops_scan now l
  unfold loop
  generalize scan now l = r at hstops
  cases hstops with
  | callback pre hl hpre hn hserved hvalue htasks =>
      rename_i post n tasks timer
      simp only
      have hshown : tasks.map Observation.woke ++ [.fired timer] = (pre ++ [n]).map shownBy := by
        rw [List.map_append, htasks, List.map_singleton, shownBy, hvalue]
      rw [hshown]
      refine .callback hl ?_ hserved hvalue
      intro k hk
      rcases List.mem_append.mp hk with hk | hk
      · exact hpre k hk
      · rw [List.mem_singleton.mp hk]
        exact hn
  | finished pre post hl hpre hpost hserved htasks =>
      rename_i tasks
      simp only
      rw [htasks]
      refine .finished hl hpre ?_ hserved ?_ rfl
      · cases post with
        | nil => simp
        | cons k post =>
            have hk : now < k.key := hpost k rfl
            have hsorted := m.timer_map_.sorted
            rw [hnodes, hl, List.pairwise_append, List.pairwise_append, List.pairwise_cons]
              at hsorted
            intro j hj
            rcases List.mem_cons.mp hj with rfl | hj
            · exact hk
            · exact hk.trans_le (Node.Before.key_le (hsorted.2.1.2.1.1 j hj))
      · cases post with
        | nil => rfl
        | cons k post =>
            rw [hl, ← List.append_assoc] at hnodes
            exact Multimap.starting_of_split hnodes

/-- An empty map is left as it is, also by the loop. -/
theorem wakeupTimers_eq_loop (hpass : m.pass = none) :
    m.wakeupTimers now = m.loop now m.timer_map_.nodes := by
  unfold wakeupTimers
  split
  · rename_i hempty
    obtain ⟨⟨nodes, nextId, sorted, nodup, fresh⟩, pass⟩ := m
    have hnil : nodes = [] := List.isEmpty_iff.mp hempty
    subst hnil
    subst hpass
    rfl
  · rfl

/-! ## What is ahead of a pass -/

variable {timepoint : Int} {element : TimerElement} {n : Node Int TimerElement}

theorem ahead_subset : m.ahead ⊆ m.timer_map_.nodes := by
  intro n hn
  unfold ahead at hn
  split at hn
  · exact hn
  · exact Multimap.after_subset hn

theorem ahead_of_none (hpass : m.pass = none) : m.ahead = m.timer_map_.nodes := by
  unfold ahead
  rw [hpass]

theorem ahead_of_pass {pass : Pass} {pre post : List (Node Int TimerElement)}
    (hpass : m.pass = some pass) (hid : n.id = pass.it)
    (hsplit : m.timer_map_.nodes = pre ++ n :: post) : m.ahead = post := by
  unfold ahead
  rw [hpass]
  show (m.timer_map_.starting (some pass.it)).tail = post
  rw [← hid, Multimap.starting_of_split hsplit, List.tail_cons]

theorem split_of_pass {pass : Pass} (hpass : m.pass = some pass)
    (hit : m.timer_map_.contains pass.it = true) :
    ∃ pre n, n.id = pass.it ∧ m.timer_map_.nodes = pre ++ n :: m.ahead := by
  obtain ⟨n, hn, hid⟩ := Multimap.contains_iff.mp hit
  obtain ⟨pre, post, hsplit⟩ := List.append_of_mem hn
  have hahead := ahead_of_pass hpass hid hsplit
  exact ⟨pre, n, hid, by rw [hsplit, hahead]⟩

def Valid (m : TimerManager) : Prop :=
  ∀ pass, m.pass = some pass → m.timer_map_.contains pass.it = true

theorem ahead_suffix (hvalid : m.Valid) : m.ahead <:+ m.timer_map_.nodes := by
  cases hpass : m.pass with
  | none => exact ⟨[], ahead_of_none hpass⟩
  | some pass =>
      obtain ⟨pre, n, hid, hsplit⟩ := split_of_pass hpass (hvalid pass hpass)
      exact ⟨pre ++ [n], by rw [hsplit, List.append_assoc]; rfl⟩

/-- An element that is due after all that the pass has gone past comes ahead of it. -/
theorem ahead_insert (hvalid : m.Valid) (hnodes : m.timer_map_.nodes = front ++ m.ahead)
    (hfront : ∀ n ∈ front, n.key ≤ timepoint) :
    (m.insert timepoint element).ahead =
      Multimap.insertNode ⟨m.timer_map_.nextId, timepoint, element⟩ m.ahead := by
  cases hpass : m.pass with
  | none =>
      rw [ahead_of_none hpass]
      exact ahead_of_none (m := m.insert timepoint element) hpass
  | some pass =>
      obtain ⟨pre, n, hid, hsplit⟩ := split_of_pass hpass (hvalid pass hpass)
      have hpre : front = pre ++ [n] := by
        rw [hnodes] at hsplit
        exact List.append_cancel_right (hsplit.trans (List.append_cons ..))
      have hinsert : (m.insert timepoint element).timer_map_.nodes =
          pre ++ n :: Multimap.insertNode ⟨m.timer_map_.nextId, timepoint, element⟩ m.ahead := by
        show Multimap.insertNode _ m.timer_map_.nodes = _
        rw [hnodes, Multimap.insertNode_append_of_le hfront, hpre, List.append_assoc,
          List.singleton_append]
      exact ahead_of_pass (m := m.insert timepoint element) hpass hid hinsert

theorem ahead_erase (hvalid : m.Valid) (hnodes : m.timer_map_.nodes = front ++ m.ahead)
    (hn : n ∈ m.ahead) : ∃ pre post, m.ahead = pre ++ n :: post ∧
      (m.erase n.id).ahead = pre ++ post ∧
      (m.erase n.id).timer_map_.nodes = front ++ (pre ++ post) := by
  obtain ⟨pre, post, hsplit⟩ := List.append_of_mem hn
  have herase : (m.erase n.id).timer_map_.nodes = front ++ (pre ++ post) := by
    rw [hsplit, ← List.append_assoc] at hnodes
    rw [← List.append_assoc]
    exact Multimap.nodes_erase_of_split hnodes
  refine ⟨pre, post, hsplit, ?_, herase⟩
  cases hpass : m.pass with
  | none =>
      have hfront : front = [] := by
        rw [ahead_of_none hpass] at hnodes
        exact List.self_eq_append_left.mp hnodes
      rw [hfront, List.nil_append] at herase
      exact (ahead_of_none (m := m.erase n.id) hpass).trans herase
  | some pass =>
      obtain ⟨pre', k, hid, hsplit'⟩ := split_of_pass hpass (hvalid pass hpass)
      have hfront : front = pre' ++ [k] := by
        rw [hnodes] at hsplit'
        exact List.append_cancel_right (hsplit'.trans (List.append_cons ..))
      rw [hfront, List.append_assoc, List.singleton_append] at herase
      exact ahead_of_pass (m := m.erase n.id) hpass hid herase

theorem filter_id (hn : n ∈ m.timer_map_.nodes) :
    m.timer_map_.nodes.filter (fun k => k.id = n.id) = [n] := by
  obtain ⟨pre, post, hsplit⟩ := List.append_of_mem hn
  have hnodup := m.timer_map_.nodup
  rw [hsplit, List.map_append, List.map_cons, List.nodup_middle, List.nodup_cons,
    ← List.map_append] at hnodup
  have hother : ∀ k ∈ pre ++ post, k.id ≠ n.id := by
    intro k hk hid
    exact hnodup.1 (hid ▸ List.mem_map_of_mem hk)
  have hpre : pre.filter (fun k => k.id = n.id) = [] := by
    simpa using fun k hk => hother k (List.mem_append_left post hk)
  have hpost : post.filter (fun k => k.id = n.id) = [] := by
    simpa using fun k hk => hother k (List.mem_append_right pre hk)
  rw [hsplit, List.filter_append, List.filter_cons_of_pos (by simp), hpre, hpost, List.nil_append]

structure Served (m : TimerManager) (now : Int) (front : List (Node Int TimerElement))
    (r : TimerManager × List Observation) : Prop where
  shown : r.2 = (served now m.ahead).map shownBy
  split : m.ahead = served now m.ahead ++ r.1.ahead
  behind : ∃ front', r.1.timer_map_.nodes = front' ++ r.1.ahead ∧
    ∀ n ∈ front', n ∈ front ++ served now m.ahead
  due : ∀ n ∈ served now m.ahead, n.key ≤ now
  complete : r.1.pass = none → ∀ n ∈ r.1.ahead, now < n.key
  nextId : r.1.timer_map_.nextId = m.timer_map_.nextId

theorem served_loop (hnodes : m.timer_map_.nodes = front ++ m.ahead) :
    Served m now front (m.loop now m.ahead) := by
  have hserves : Serves m now front m.ahead (m.loop now m.ahead) := serves_loop hnodes
  generalize m.loop now m.ahead = r at hserves
  generalize hahead : m.ahead = l at hserves hnodes
  cases hserves with
  | @callback pre post n timer hl hdue hserved hvalue =>
      have hsplit : m.timer_map_.nodes = (front ++ pre) ++ n :: post := by
        rw [hnodes, hl, List.append_assoc]
      have hpost : ({ m with pass := some { now := now, it := n.id } } : TimerManager).ahead =
          post := ahead_of_pass rfl rfl hsplit
      constructor
      case shown => rw [hahead, hserved]
      case split => rw [hahead, hserved, hpost, hl, List.append_assoc, List.singleton_append]
      case behind =>
        refine ⟨front ++ pre ++ [n], ?_, ?_⟩
        · rw [hpost, List.append_assoc, List.singleton_append]
          exact hsplit
        · intro k hk
          rw [hahead, hserved, ← List.append_assoc]
          exact hk
      case due =>
        rw [hahead, hserved]
        exact hdue
      case complete => exact nofun
      case nextId => rfl
  | @finished pre post timer_map_ hl hpre hpost hserved hnodes' hnext =>
      have hafter : ({ timer_map_ := timer_map_, pass := none } : TimerManager).ahead = post :=
        hnodes'
      constructor
      case shown => rw [hahead, hserved]
      case split => rw [hahead, hserved, hafter, hl]
      case behind => exact ⟨[], rfl, nofun⟩
      case due =>
        rw [hahead, hserved]
        exact hpre
      case complete =>
        intro _
        rw [hafter]
        exact hpost
      case nextId => exact hnext

/-- A pass that goes on leaves the map as it is. -/
theorem map_loop (h : (m.loop now l).1.pass ≠ none) :
    (m.loop now l).1.timer_map_ = m.timer_map_ := by
  unfold loop at h ⊢
  generalize scan now l = r at h ⊢
  obtain ⟨tasks, it | it⟩ := r
  · rfl
  · exact absurd rfl h

/-! ## Elements that are added and erased during a pass -/

/-- The point in time is before the one of the element whose callback runs. -/
def skips (m : TimerManager) (timepoint : Int) : Bool :=
  match m.pass with
  | none => false
  | some pass => m.timer_map_.nodes.any fun n => n.id == pass.it && decide (timepoint < n.key)

theorem exists_front (hvalid : m.Valid) (hskips : m.skips timepoint = false) :
    ∃ front, m.timer_map_.nodes = front ++ m.ahead ∧ ∀ n ∈ front, n.key ≤ timepoint := by
  cases hpass : m.pass with
  | none => exact ⟨[], (ahead_of_none hpass).symm, nofun⟩
  | some pass =>
      obtain ⟨pre, n, hid, hsplit⟩ := split_of_pass hpass (hvalid pass hpass)
      have hn : n.key ≤ timepoint := by
        unfold skips at hskips
        rw [hpass, List.any_eq_false] at hskips
        have hmem : n ∈ m.timer_map_.nodes := by
          rw [hsplit]
          simp
        simpa [hid] using hskips n hmem
      have hsorted := m.timer_map_.sorted
      rw [hsplit, List.pairwise_append] at hsorted
      refine ⟨pre ++ [n], by rw [hsplit, List.append_assoc]; rfl, fun k hk => ?_⟩
      rcases List.mem_append.mp hk with hk | hk
      · exact (hsorted.2.2 k hk n List.mem_cons_self).key_le.trans hn
      · rw [List.mem_singleton.mp hk]
        exact hn

theorem new_mem_ahead (hvalid : m.Valid) (hskips : m.skips timepoint = false) :
    ⟨m.timer_map_.nextId, timepoint, element⟩ ∈ (m.insert timepoint element).ahead := by
  obtain ⟨front, hnodes, hfront⟩ := exists_front hvalid hskips
  rw [ahead_insert hvalid hnodes hfront]
  exact Multimap.mem_insertNode.mpr (.inl rfl)

theorem mem_ahead_insert (hvalid : m.Valid) (hn : n ∈ m.ahead) :
    n ∈ (m.insert timepoint element).ahead := by
  unfold ahead insert
  unfold ahead at hn
  cases hpass : m.pass with
  | none =>
      rw [hpass] at hn
      exact Multimap.mem_insert.mpr (.inr hn)
  | some pass =>
      rw [hpass] at hn
      exact Multimap.mem_after_insert (hvalid pass hpass) hn

theorem eq_or_mem_ahead (hvalid : m.Valid) (hn : n ∈ (m.insert timepoint element).ahead) :
    n = ⟨m.timer_map_.nextId, timepoint, element⟩ ∨ n ∈ m.ahead := by
  unfold ahead insert at hn
  unfold ahead
  cases hpass : m.pass with
  | none =>
      rw [hpass] at hn
      exact Multimap.mem_insert.mp hn
  | some pass =>
      rw [hpass] at hn
      exact Multimap.after_insert (hvalid pass hpass) hn

theorem mem_ahead_erase {x : Nat} (hx : ∀ pass, m.pass = some pass → pass.it ≠ x) :
    n ∈ (m.erase x).ahead ↔ n ∈ m.ahead ∧ n.id ≠ x := by
  unfold ahead erase
  cases hpass : m.pass with
  | none => exact Multimap.mem_erase
  | some pass => exact Multimap.mem_after_erase (hx pass hpass)

end TimerManager

end CppGo.Timers
